import RumKernel.Fat16.Healthy
import RumKernel.Fat16.Traversal

/-!
# Programs that only look

Lookups, reads, directory iteration and the write audit change nothing but the sector cache, the
diagnostics and the ownership bitmap, whatever the device answers: the medium, the request log, the cached
table and the flags of the mount stay as they are.
-/

namespace RumKernel.Fat16
open Lib Fs Prog

variable {d : Description} {name : Name} {bytes cursor fuel id offset : Nat}

/-- From `w` to `w'` the volume changed in the ownership bitmap and the audit flag only. -/
structure Looked (w w' : World) : Prop where
  vol : w'.vol = { w.vol with owners := w'.owners, audited := w'.audited }
  oracle : w'.oracle = w.oracle
  coherent : Coherent w → Coherent w'

instance : IsPreorder World Looked where
  refl _ := ⟨rfl, rfl, fun h => h⟩
  trans _ _ _ h h' := by
    refine ⟨?_, h'.oracle.trans h.oracle, h'.coherent ∘ h.coherent⟩
    rw [h'.vol, h.vol]

variable {α : Type} {m : FatM α}

lemma Runs.of_looked {v : Vol} {Q : Except FsError α → Vol → Prop} (h : Sat Looked m)
    (hQ : ∀ r o a, Q r { v with owners := o, audited := a }) : Runs v m Q := by
  intro hid hg
  have hl := h (mkWorld v hid)
  refine ⟨⟨fun n => ?_, hl.coherent hg.2⟩, ?_⟩
  · rw [hl.oracle]
    exact hg.1 n
  · rw [hl.vol]
    exact hQ _ _ _

namespace Looks

lemma update {f : World → World} (h : ∀ w, Looked w (f w)) : Sat Looked (Prog.modify f : FatM Unit) := h

lemma nextOutcome : Sat Looked nextOutcome := fun _ => ⟨rfl, rfl, id⟩

lemma kmalloc : Sat Looked kmalloc := .bind nextOutcome fun _ => .pure

lemma fat16Sector {number : Nat} : Sat Looked (fat16Sector number) := by
  intro w
  by_cases hc : w.cacheValid = true ∧ number = w.cachedSector
  · simp only [Fat16.fat16Sector, bind_run, get_run, hc]
    exact refl_of Looked w
  · by_cases hr : number ≥ w.geo.sectors ∨ 1 > w.geo.sectors - number
    · simp only [Fat16.fat16Sector, Fat16.readSectors, bind_run, get_run, hc, hr, if_true, if_false, modify_run]
      exact ⟨rfl, rfl, fun _ h => by cases h⟩
    · simp only [Fat16.fat16Sector, Fat16.readSectors, bind_run, get_run, hc, hr, if_false, modify_run,
        Fat16.nextOutcome]
      cases hcode : (w.oracle w.clock).code 1 with
      | some e => exact ⟨rfl, rfl, fun _ h => by cases h⟩
      | none => exact ⟨rfl, rfl, fun _ _ => rfl⟩

lemma looking : Looking fun _ m => Sat Looked m where
  pure := .pure
  fail := .fail
  lift := .lift
  fail_bind := .fail_bind
  bind := .bind
  get_bind _ hk := .bind .get hk
  fat16Sector := fat16Sector
  kmalloc := kmalloc
  own := update fun _ => ⟨rfl, rfl, fun h => h⟩
  audited := update fun _ => ⟨rfl, rfl, fun h => h⟩

lemma lookupLoop : Sat Looked (lookupLoop d name fuel cursor) := by
  induction fuel generalizing cursor with
  | zero => exact .fail
  | succ fuel ih =>
    refine .bind (.attempt looking.directoryEntry) fun r => ?_
    split
    · exact .fail
    · exact ih
    · exact .fail
    · exact .ite .pure ih

lemma lookup {parent : Nat} : Sat Looked (lookup parent name) :=
  .bind looking.describe fun _ => .ite .fail_bind (.bind .get fun _ => lookupLoop)

lemma statNode : Sat Looked (statNode id) := .bind looking.describe fun _ => .pure

lemma readLoop {cluster : Nat} {done : List Byte} : Sat Looked (readLoop bytes fuel cluster offset done) := by
  induction fuel generalizing cluster offset done with
  | zero => exact .pure
  | succ fuel ih =>
    refine .ite .pure (.bind .get fun w => .bind (.attempt fat16Sector) fun r => ?_)
    split
    · exact .pure
    · exact .bind .get fun _ => ih

lemma readFile : Sat Looked (readFile id offset bytes) := by
  refine .bind (update fun w => ⟨rfl, rfl, fun h => h⟩) fun _ => .bind ?_ fun r => .bind .get fun w => ?_
  · refine .bind (.attempt looking.describe) fun r => ?_
    split
    · exact .pure
    · exact .ite .pure (.ite .pure (.bind .get fun _ => readLoop))
  · exact .ite .pure .pure

lemma readdirLoop : Sat Looked (readdirLoop d fuel cursor) := by
  induction fuel generalizing cursor with
  | zero => exact .fail
  | succ fuel ih =>
    refine .bind (.attempt looking.directoryEntry) fun r => ?_
    split
    · exact ih
    · exact .fail
    · exact .pure

lemma readdirNode : Sat Looked (readdirNode id cursor) :=
  .bind looking.describe fun _ => .ite .fail_bind (.bind .get fun _ => readdirLoop)

end Looks

end RumKernel.Fat16
