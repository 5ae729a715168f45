import RumKernel.Fat16.Write

/-!
# Properties closed under the driver's programs

The driver's functions are built from a few device requests by sequencing, tests and loops, so a property that is closed
under these holds of every function. `Looking` lists what is asked of a property for the functions that only look at the
volume, `Writing` for those that also write; the walk over the functions is made once, here.
-/

namespace RumKernel.Fat16
open Lib Fs Prog

variable {budget cluster cursor fuel id offset parent size : Nat} {d old : Description} {name : Name} {e : Entry}
  {t : Target} {fat : Mem} {patch : List Byte} {keep : Bool}

/-- A property of programs closed under what the functions that look at the volume are built from. -/
structure Looking (J : (α : Type) → FatM α → Prop) : Prop where
  pure : ∀ {α : Type} {a : α}, J α (Pure.pure a)
  fail : ∀ {α : Type} {e : FsError}, J α (Prog.fail e)
  lift : ∀ {α : Type} {r : Except FsError α}, J α (Prog.lift r)
  fail_bind : ∀ {α β : Type} {e : FsError} {k : α → FatM β}, J β (Prog.fail e >>= k)
  bind : ∀ {α β : Type} {m : FatM α} {k : α → FatM β}, J α m → (∀ a, J β (k a)) → J β (m >>= k)
  /-- The state is looked at without the answers the device will give. -/
  get_bind : ∀ {β : Type} {k : World → FatM β}, (∀ w o, k { w with oracle := o } = k w) → (∀ w, J β (k w)) →
    J β (Prog.get >>= k)
  fat16Sector : ∀ {number : Nat}, J Unit (fat16Sector number)
  kmalloc : J Bool kmalloc
  own : ∀ {f : (Nat → Bool) → Nat → Bool}, J Unit (Prog.modify fun w : World => { w with owners := f w.owners })
  audited : J Unit (Prog.modify fun w : World => { w with audited := true })

/-- A property closed under the requests that write as well. -/
structure Writing (J : (α : Type) → FatM α → Prop) : Prop extends Looking J where
  writeSector : ∀ {sector : Nat} {data : Mem}, J Unit (writeSector sector data)
  flushDevice : J Unit flushDevice
  persistFat : ∀ {fat : Mem}, J Unit (persistFat fat)

variable {J : (α : Type) → FatM α → Prop}

lemma Looking.ite (_ : Looking J) {α : Type} {c : Prop} [Decidable c] {m n : FatM α} (ht : J α m) (hf : J α n) :
    J α (if c then m else n) := by
  split
  · exact ht
  · exact hf

namespace Looking

section
variable (h : Looking J)
include h

lemma entryRead : J Entry (entryRead id) := by
  refine h.get_bind (fun _ _ => rfl) fun w => ?_
  split
  · exact h.fail
  · exact h.bind h.fat16Sector fun _ => h.get_bind (fun _ _ => rfl) fun _ => h.pure

lemma describe : J Description (describe id) := by
  refine h.get_bind (fun _ _ => rfl) fun w => h.ite h.fail_bind (h.ite h.fail_bind (h.ite h.pure
    (h.bind h.entryRead fun e => h.get_bind (fun _ _ => rfl) fun w => ?_)))
  split
  · exact h.fail
  · exact h.fail
  · exact h.pure

lemma directoryEntry : J (Description × Name) (directoryEntry d cursor) :=
  h.get_bind (fun _ _ => rfl) fun _ => h.bind h.lift fun _ => h.bind h.entryRead fun _ =>
    h.get_bind (fun _ _ => rfl) fun _ => h.lift

lemma ownChain {length : Nat} : J Unit (ownChain length cluster) := by
  induction length generalizing cluster with
  | zero => exact h.pure
  | succ length ih =>
    exact h.get_bind (fun _ _ => rfl) fun w => h.ite h.fail_bind (h.bind (h.own (f := fun o c => c == cluster || o c))
      fun _ => ih)

lemma auditLoop {recurse : Description → Nat → Nat → FatM Nat} (hr : ∀ d p b, J Nat (recurse d p b)) :
    J Nat (auditLoop recurse d parent fuel cursor budget) := by
  induction fuel generalizing cursor budget with
  | zero => exact h.pure
  | succ fuel ih =>
    refine h.ite h.fail_bind (h.get_bind (fun _ _ => rfl) fun w => h.bind h.lift fun id =>
      h.bind h.entryRead fun entry => ?_)
    refine h.ite (h.ite h.fail_bind ih) (h.ite h.pure (h.ite ih (h.ite (h.ite h.fail_bind ih) (h.ite h.fail ?_))))
    refine h.ite (h.ite h.fail_bind ih) (h.get_bind (fun _ _ => rfl) fun w => h.bind h.lift fun length => ?_)
    refine h.ite (h.ite h.fail_bind (h.ite h.fail_bind ?_)) (h.ite h.fail_bind ?_) <;>
      exact h.bind h.ownChain fun _ => h.ite (h.bind (hr _ _ _) fun _ => ih) ih

lemma auditDirectory : J Nat (auditDirectory fuel d parent budget) := by
  induction fuel generalizing d parent budget with
  | zero => exact h.fail
  | succ fuel ih => exact h.get_bind (fun _ _ => rfl) fun _ => h.auditLoop fun _ _ _ => ih

lemma writable : J Unit writable := by
  refine h.get_bind (fun _ _ => rfl) fun w => h.ite h.fail_bind (h.ite h.fail_bind (h.ite h.fail_bind
    (h.ite ?_ h.pure)))
  exact h.bind (h.own (f := fun _ _ => false)) fun _ => h.bind h.auditDirectory fun _ => h.audited

lemma findLoop {count : Nat} {s : Search} : J _ (findLoop d name count fuel cursor s) := by
  induction fuel generalizing cursor s with
  | zero => exact h.pure
  | succ fuel ih =>
    refine h.get_bind (fun _ _ => rfl) fun w => h.bind h.lift fun id => h.bind h.entryRead fun entry => ?_
    refine h.ite (h.ite h.fail_bind (h.ite h.pure ih)) (h.ite ih (h.get_bind (fun _ _ => rfl) fun w => ?_))
    split
    · exact h.ite h.pure ih
    · exact ih
    · exact h.fail

lemma findTarget : J Target (findTarget parent name) := by
  refine h.bind h.describe fun d => h.ite h.fail_bind (h.get_bind (fun _ _ => rfl) fun w =>
    h.bind h.findLoop fun r => ?_)
  split
  · exact h.pure
  · exact h.ite h.fail_bind (h.ite h.fail_bind h.pure)

lemma byId : J Target (byId id) :=
  h.bind h.describe fun _ => h.ite h.fail_bind (h.bind h.entryRead fun _ => h.pure)

lemma emptyLoop : J Unit (emptyLoop d fuel cursor) := by
  induction fuel generalizing cursor with
  | zero => exact h.pure
  | succ fuel ih =>
    exact h.get_bind (fun _ _ => rfl) fun w => h.bind h.lift fun id => h.bind h.entryRead fun e =>
      h.ite h.pure (h.ite h.fail_bind ih)

lemma fatCopy : J Mem fatCopy :=
  h.bind h.kmalloc fun _ => h.ite h.fail_bind (h.get_bind (fun _ _ => rfl) fun _ => h.pure)

end

end Looking

namespace Writing

section
variable (h : Writing J)
include h

lemma entryWrite : J Unit (entryWrite id e) := by
  refine h.get_bind (fun _ _ => rfl) fun w => ?_
  split
  · exact h.fail
  · exact h.bind h.fat16Sector fun _ => h.get_bind (fun _ _ => rfl) fun _ => h.writeSector

lemma zeroCluster {self : Nat} : J Unit (zeroCluster cluster self parent) := by
  have loop : ∀ start fuel i data, J Unit (zeroLoop start fuel i data) := by
    intro start fuel
    induction fuel with
    | zero => exact fun _ _ => h.pure
    | succ fuel ih => exact fun _ _ => h.bind h.writeSector fun _ => ih _ _
  exact h.get_bind (fun _ _ => rfl) fun _ => loop _ _ _ _

lemma growDirectory : J (Target × Mem) (growDirectory t fat) :=
  h.ite h.pure (h.get_bind (fun _ _ => rfl) fun _ => h.bind h.lift fun _ => h.bind h.zeroCluster fun _ => h.pure)

lemma clearNext : J Unit (clearNext t) :=
  h.get_bind (fun _ _ => rfl) fun _ => h.ite (h.bind h.lift fun _ => h.bind h.entryRead fun _ =>
    h.ite (h.bind h.entryWrite fun _ => h.flushDevice) h.pure) h.pure

lemma publish : J Unit (publish t e) := h.bind h.clearNext fun _ => h.bind h.entryWrite fun _ => h.flushDevice

lemma commit : J Unit (commit t fat e) :=
  h.bind h.flushDevice fun _ => h.bind h.persistFat fun _ => h.publish

lemma copySectors {oldCluster i base : Nat} :
    J Nat (copySectors old size offset patch keep cluster oldCluster fuel i base) := by
  induction fuel generalizing i base with
  | zero => exact h.pure
  | succ fuel ih =>
    refine h.get_bind (fun _ _ => rfl) fun w => h.ite ?_ (h.bind h.pure fun _ => h.bind h.writeSector fun _ => ih)
    exact h.bind h.fat16Sector fun _ => h.get_bind (fun _ _ => rfl) fun _ => h.bind h.pure fun _ =>
      h.bind h.writeSector fun _ => ih

lemma copyContents {first : Nat} : J Unit (copyContents old fat first size offset patch keep) := by
  have loop : ∀ fuel cluster index oldCluster base,
      J Unit (copyLoop old fat size offset patch keep fuel cluster index oldCluster base) := by
    intro fuel
    induction fuel with
    | zero => exact fun _ _ _ _ => h.pure
    | succ fuel ih =>
      exact fun _ _ _ _ => h.ite h.pure (h.get_bind (fun _ _ => rfl) fun w => h.bind h.copySectors fun _ => ih _ _ _ _)
  exact loop _ _ _ _ _

lemma rewriteBody (hc : J Unit (Prog.modify fun w : World => { w with committed := true }))
    {t : Target} {size offset : Nat} {data : List Byte} {keep : Bool} {fat : Mem} :
    J Unit (rewriteBody t size offset data keep fat) :=
  h.get_bind (fun _ _ => rfl) fun _ => h.bind h.lift fun _ => h.ite h.fail_bind (h.bind h.copyContents fun _ =>
    h.bind h.growDirectory fun _ => h.bind h.commit fun _ => h.bind hc fun _ =>
      h.get_bind (fun _ _ => rfl) fun _ => h.persistFat)

lemma mkdirBody : J Unit (mkdirBody parent name t fat) := by
  refine h.get_bind (fun _ _ => rfl) fun _ => h.bind h.lift fun _ => h.bind h.zeroCluster fun _ =>
    h.bind ?_ fun _ => h.commit
  exact h.ite h.pure (h.get_bind (fun _ _ => rfl) fun _ => h.bind h.zeroCluster fun _ => h.pure)

lemma removeBody : J Unit (removeBody t fat) :=
  h.bind h.entryWrite fun _ => h.bind h.flushDevice fun _ => h.get_bind (fun _ _ => rfl) fun _ => h.persistFat

end

end Writing

end RumKernel.Fat16
