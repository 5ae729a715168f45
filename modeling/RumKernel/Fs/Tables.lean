import RumKernel.Fs.Resolution

/-!
# The reference tables

Mounting and unmounting, and the calls that hand out and take back references. A ledger beside the backend's state
records what it has retained and not released.
-/

namespace RumKernel.Fs
open Lib Prog

variable {σ α β : Type}
variable {e : FsError} {i token : Nat}

/-! ## Calls -/

/-- A program of the backend, which leaves the ledger alone. -/
def aside (m : Prog σ FsError α) : Prog (σ × List Nat) FsError α :=
  ⟨fun s => ((m.run s.1).1, ((m.run s.1).2, s.2))⟩

/-- A backend with a ledger. `release` answers nothing, so its error is not looked at. -/
def Backend.counted (b : Backend σ) : Backend (σ × List Nat) where
  root := b.root
  readOnly := b.readOnly
  lookup id name := aside (b.lookup id name)
  stat id := aside (b.stat id)
  retain id := ⟨fun s =>
    match (b.retain id).run s.1 with
    | (.ok _, v) => (.ok (), (v, id :: s.2))
    | (.error e, v) => (.error e, (v, s.2))⟩
  release id := ⟨fun s => (.ok (), (((b.release id).run s.1).2, s.2.erase id))⟩
  read id offset bytes := aside (b.read id offset bytes)
  readdir id cursor := aside (b.readdir id cursor)
  write := b.write.map fun write id offset data => aside (write id offset data)
  replace := b.replace.map fun replace id name data => aside (replace id name data)
  remove := b.remove.map fun remove id name => aside (remove id name)
  mkdir := b.mkdir.map fun mkdir id name => aside (mkdir id name)
  truncate := b.truncate.map fun truncate id size => aside (truncate id size)
  flush := b.flush.map aside

/-- `mount_backend` for a backend with a state of its own; missing operations are not modelled. -/
def mountDisk (b : Backend σ) (volume : σ) : NsM (σ × List Nat) Unit := do
  if b.root = 0 then fail .invalid
  operation do
    let s ← get
    if s.mounted then fail .busy
    if s.generation = 2 ^ 32 - 1 then fail .noSpace
    let node ← lift ((b.stat b.root).run volume).1
    if !validNode node ∨ node.id ≠ b.root ∨ node.kind ≠ .directory then fail .notDirectory
    modify fun s => { s with
      volume := (((b.stat b.root).run volume).2, s.volume.2)
      generation := s.generation + 1
      mounted := true }

/-- `fs_unmount_disk`, where `after` is what the backend's `unmount` does. -/
def unmountDisk (after : σ → σ) : NsM (σ × List Nat) Unit :=
  operation do
    let s ← get
    if !s.mounted then fail .unavailable
    if (List.range objectLimit).any fun i => (s.objects i).references != 0 then fail .busy
    modify fun s => { s with mounted := false, volume := (after s.volume.1, s.volume.2) }

/-- The namespace with its backend and the contexts of its users. -/
structure Filesystem (σ : Type) where
  backend : Backend σ
  names : Namespace (σ × List Nat)
  contexts : Nat → Context

/-- Nothing is open or mounted. -/
def Filesystem.initial (b : Backend σ) (volume : σ) (ready : Bool) : Filesystem σ where
  backend := b
  names :=
    { objects := fun _ => {}, references := fun _ => {}, nextToken := 1, ready, busy := false, mounted := false
      generation := 0, volume := (volume, []) }
  contexts := fun _ => {}

/-- The calls; a context is named by its number. -/
inductive TableCall (σ : Type)
  | fsOpen (context : Option Nat) (path : List Byte) (access : Nat)
  | fsDuplicate (token : Nat)
  | fsClose (token : Nat)
  | contextInitialize (i : Nat)
  | contextClone (source destination : Nat)
  | contextChdir (i : Nat) (path : List Byte)
  | contextDestroy (i : Nat)
  | mount (b : Backend σ) (volume : σ)
  | unmount (after : σ → σ)

namespace Filesystem

/-- Run a namespace function and store what it gives. -/
def carry (f : Filesystem σ) (m : NsM (σ × List Nat) α) (store : α → Filesystem σ → Filesystem σ) :
    Except FsError Unit × Filesystem σ :=
  match m.run f.names with
  | (.ok a, s) => (.ok (), store a { f with names := s })
  | (.error e, s) => (.error e, { f with names := s })

def setContext (i : Nat) (c : Context) (f : Filesystem σ) : Filesystem σ :=
  { f with contexts := setSlot f.contexts i c }

def perform (f : Filesystem σ) : TableCall σ → Except FsError Unit × Filesystem σ
  | .fsOpen context path access =>
    f.carry (fsOpen f.backend.counted (context.map f.contexts) path access) fun _ f => f
  | .fsDuplicate token => f.carry (fsDuplicate f.backend.counted token) fun _ f => f
  | .fsClose token => f.carry (fsClose f.backend.counted token) fun _ f => f
  | .contextInitialize i => f.carry (contextInitialize f.backend.counted (f.contexts i)) (setContext i)
  | .contextClone source destination =>
    f.carry (contextClone f.backend.counted (f.contexts source) (f.contexts destination)) (setContext destination)
  | .contextChdir i path => f.carry (contextChdir f.backend.counted (f.contexts i) path) (setContext i)
  | .contextDestroy i => f.carry (contextDestroy f.backend.counted (f.contexts i)) (setContext i)
  | .mount b volume => f.carry (mountDisk b volume) fun _ f => { f with backend := b }
  | .unmount after => f.carry (unmountDisk after) fun _ f => f

def run (f : Filesystem σ) (calls : List (TableCall σ)) : Filesystem σ :=
  calls.foldl (fun f call => (f.perform call).2) f

end Filesystem

/-! ## Changes of the tables -/

/-- The tables and the ledger are the same. -/
structure Still (s s' : Namespace (σ × List Nat)) : Prop where
  objects : s'.objects = s.objects
  references : s'.references = s.references
  nextToken : s'.nextToken = s.nextToken
  ledger : s'.volume.2 = s.volume.2

instance : IsPreorder (Namespace (σ × List Nat)) Still where
  refl _ := ⟨rfl, rfl, rfl, rfl⟩
  trans _ _ _ h h' := ⟨h'.1.trans h.1, h'.2.trans h.2, h'.3.trans h.3, h'.4.trans h.4⟩

/-- A reference is issued, to an object that was there or to one that is now retained. -/
structure Issues (s s' : Namespace (σ × List Nat)) (token : Nat) : Prop where
  fresh : token = s.nextToken
  nonzero : token ≠ 0
  next : s'.nextToken = (s.nextToken + 1) % 2 ^ 64
  slots : ∃ r o object access, r < referenceLimit ∧ o < objectLimit ∧ (s.references r).token = 0 ∧
    s'.references = setSlot s.references r { token, object := o, access } ∧ s'.objects = setSlot s.objects o object ∧
    object.references = (s.objects o).references + 1 ∧
    ((s.objects o).references ≠ 0 ∧ object.id = (s.objects o).id ∧ s'.volume.2 = s.volume.2 ∨
      (s.objects o).references = 0 ∧ retained s.objects object.id = false ∧ s'.volume.2 = object.id :: s.volume.2)

/-- An object with one reference less. -/
def Object.dropped (object : Object) : Object :=
  if object.references = 1 then {} else { object with references := object.references - 1 }

/-- A reference is closed, and its object is released with its last one. -/
structure Closes (s s' : Namespace (σ × List Nat)) (r : Nat) : Prop where
  inside : r < referenceLimit
  used : (s.references r).token ≠ 0
  next : s'.nextToken = s.nextToken
  references : s'.references = setSlot s.references r {}
  objects : s'.objects = setSlot s.objects (s.references r).object (s.objects (s.references r).object).dropped
  ledger : s'.volume.2 = if (s.objects (s.references r).object).references = 1
    then s.volume.2.erase (s.objects (s.references r).object).id else s.volume.2

/-- The changes of a call or of a run. -/
inductive Turns (s : Namespace (σ × List Nat)) : Namespace (σ × List Nat) → Prop
  | refl : Turns s s
  | still {s1 s2} : Turns s s1 → Still s1 s2 → Turns s s2
  | issue {s1 s2 token} : Turns s s1 → Issues s1 s2 token → Turns s s2
  | close {s1 s2 r} : Turns s s1 → Closes s1 s2 r → Turns s s2

variable {s s' s1 s2 : Namespace (σ × List Nat)}

lemma Turns.trans (h : Turns s s1) (h' : Turns s1 s2) : Turns s s2 := by
  induction h' with
  | refl => exact h
  | still _ h ih => exact ih.still h
  | issue _ h ih => exact ih.issue h
  | close _ h ih => exact ih.close h

/-! ## What the functions do to the tables -/

lemma Sat.aside {m : Prog σ FsError α} : Sat Still (backend (aside m)) := fun _ => ⟨rfl, rfl, rfl, rfl⟩

lemma rootLocation_still (b : Backend σ) : Sat Still (rootLocation b.counted) :=
  .bind .get fun _ => .ite .fail_bind <| .bind Sat.aside fun _ => .ite .fail_bind .pure

lemma step_still (b : Backend σ) (l : Location) (name : Name) : Sat Still (step b.counted l name) :=
  .ite .fail_bind <| .ite .pure <| .ite .pure <| .ite .fail_bind <|
    .bind Sat.aside fun _ => .ite .fail_bind .pure

lemma walk_still (b : Backend σ) (l : Location) (names : List Name) : Sat Still (walk b.counted l names) := by
  induction names generalizing l with
  | nil => exact .pure
  | cons name names ih => exact .bind (step_still b l name) fun l => ih l

lemma contextObject_still (c : Context) : Sat Still (contextObject c : NsM (σ × List Nat) Object) := by
  refine .bind .get fun s => ?_
  split
  · exact .fail
  · exact .ite .fail_bind .pure

lemma resolveFrom_still (b : Backend σ) (plan : FsPath) (count : Nat) (cwd : Option Object) :
    Sat Still (resolveFrom b.counted plan count cwd) := by
  have hend : ∀ l, Sat Still (do
      let l ← walk b.counted l (plan.input.names.take count)
      if count = plan.input.names.length ∧ plan.input.directory ∧ l.node.kind ≠ .directory then fail .notDirectory
      return l) := fun l => .bind (walk_still b _ _) fun l => .ite .fail_bind .pure
  refine .bind (rootLocation_still b) fun l => ?_
  cases cwd with
  | none => exact hend l
  | some object =>
    refine .ite (hend l) (.bind ?_ hend)
    exact .bind (walk_still b _ _) fun l => .ite .fail_bind .pure

lemma resolve_still (b : Backend σ) (context : Option Context) (plan : FsPath) (count : Nat) :
    Sat Still (resolve b.counted context plan count) := by
  cases context with
  | none => exact resolveFrom_still b plan count none
  | some c => exact .bind (contextObject_still c) fun object => resolveFrom_still b plan count (some object)

/-- A function that leaves the tables alone when it fails, and otherwise turns them as `Q` says. -/
def Ends (m : NsM (σ × List Nat) α) (s : Namespace (σ × List Nat)) (Q : α → Namespace (σ × List Nat) → Prop) : Prop :=
  match m.run s with
  | (.ok a, s') => Q a s'
  | (.error _, s') => Still s s'

namespace Ends

variable {m : NsM (σ × List Nat) α} {Q : α → Namespace (σ × List Nat) → Prop}

lemma fail : Ends (Prog.fail e : NsM (σ × List Nat) α) s Q := refl_of Still s

lemma fail_bind {f : β → NsM (σ × List Nat) α} : Ends (Prog.fail e >>= f) s Q := refl_of Still s

lemma mono {P : α → Namespace (σ × List Nat) → Prop} (h : Ends m s P) (hq : ∀ a s', P a s' → Q a s') : Ends m s Q := by
  unfold Ends at h ⊢
  split
  · rename_i a s' hm
    rw [hm] at h
    exact hq a s' h
  · rename_i e s' hm
    rw [hm] at h
    exact h

lemma get {f : Namespace (σ × List Nat) → NsM (σ × List Nat) α} (h : Ends (f s) s Q) : Ends (Prog.get >>= f) s Q := h

lemma bind {n : NsM (σ × List Nat) β} {f : β → NsM (σ × List Nat) α} (hn : Sat Still n)
    (hf : ∀ a s', Still s s' → Ends (f a) s' Q) : Ends (n >>= f) s Q := by
  unfold Ends
  have hs := hn s
  rw [bind_run]
  rcases hr : n.run s with ⟨r, s1⟩
  rw [hr] at hs
  cases r with
  | error e => exact hs
  | ok a =>
    have h := hf a s1 hs
    unfold Ends at h
    dsimp only
    split
    · rename_i c s' hm
      rw [hm] at h
      exact h
    · rename_i e s' hm
      rw [hm] at h
      exact trans_of Still hs h

lemma map {n : NsM (σ × List Nat) β} {g : β → α} (hn : Ends n s fun a s' => Q (g a) s') :
    Ends (n >>= fun a => pure (g a)) s Q := by
  unfold Ends at hn ⊢
  rw [bind_run]
  rcases hr : n.run s with ⟨r, s1⟩
  rw [hr] at hn
  cases r <;> exact hn

lemma ite {c : Prop} [Decidable c] {n : NsM (σ × List Nat) α} (hm : Ends m s Q) (hn : Ends n s Q) :
    Ends (if c then m else n) s Q := by
  split
  · exact hm
  · exact hn

end Ends

lemma retained_iff {objects : Nat → Object} {id : Nat} :
    retained objects id = true ↔ ∃ i < objectLimit, (objects i).references ≠ 0 ∧ (objects i).id = id := by
  simp [retained]

lemma retain_run (b : Backend σ) (id : Nat) (s : Namespace (σ × List Nat)) :
    (∃ v, (backend (b.counted.retain id)).run s = (.ok (), { s with volume := (v, id :: s.volume.2) })) ∨
      ∃ e v, (backend (b.counted.retain id)).run s = (.error e, { s with volume := (v, s.volume.2) }) := by
  unfold backend Backend.counted
  dsimp only
  rcases (b.retain id).run s.volume.1 with ⟨_ | _, v⟩
  · exact .inr ⟨_, v, rfl⟩
  · exact .inl ⟨v, rfl⟩

lemma newReference_ends (b : Backend σ) (node : FsNode) (access : Nat) :
    Ends (newReference b.counted node access) s fun token s' => Issues s s' token := by
  refine .ite .fail_bind <| .ite .fail_bind <| .get <| ?_
  by_cases hz : s.nextToken = 0
  · rw [if_pos hz]
    exact .fail_bind
  rw [if_neg hz]
  split
  · exact .fail
  · exact .fail
  · rename_i r o hr ho
    have hr1 := List.mem_of_find?_eq_some hr
    have hr2 := List.find?_some hr
    have ho1 := List.mem_of_find?_eq_some ho
    have ho2 := List.find?_some ho
    simp only [decide_eq_true_eq, List.mem_range, List.mem_reverse] at hr1 hr2 ho1 ho2
    refine .ite .fail_bind ?_
    exact ⟨rfl, hz, rfl, r, o, _, _, hr1, ho1, hr2, rfl, rfl, rfl, .inl ⟨ho2.1, rfl, rfl⟩⟩
  · rename_i r o hr ho hobj
    have hr1 := List.mem_of_find?_eq_some hr
    have hr2 := List.find?_some hr
    have ho1 := List.mem_of_find?_eq_some hobj
    have ho2 := List.find?_some hobj
    simp only [decide_eq_true_eq, List.mem_range] at hr1 hr2 ho1 ho2
    have hnew : retained s.objects node.id = false := by
      rw [Bool.eq_false_iff, Ne, retained_iff]
      rintro ⟨i, hi, hused, hid⟩
      have hnone := List.find?_eq_none.mp ho i (by simpa using hi)
      exact hnone (by simp [hused, hid])
    unfold Ends
    rcases retain_run b node.id s with ⟨v, hv⟩ | ⟨e, v, hv⟩
    · rw [bind_run_ok hv]
      exact ⟨rfl, hz, rfl, r, o, _, _, hr1, ho1, hr2, rfl, rfl, by simp [ho2], .inr ⟨ho2, hnew, rfl⟩⟩
    · rw [bind_run_error hv]
      exact ⟨rfl, rfl, rfl, rfl⟩

lemma closeReference_ends (b : Backend σ) (token : Nat) :
    Ends (closeReference b.counted token) s fun _ s' => ∃ r, Closes s s' r := by
  refine .get ?_
  split
  · exact .fail
  · rename_i r hr
    obtain ⟨h0, hr1, ht⟩ := findReference_token hr
    have hused : (s.references r).token ≠ 0 := ht ▸ h0
    unfold Ends
    rw [bind_run_ok modify_run]
    by_cases hone : (s.objects (s.references r).object).references = 1
    · rw [if_pos hone]
      exact ⟨r, hr1, hused, rfl, rfl, by rw [Object.dropped, if_pos hone], (if_pos hone).symm⟩
    · rw [if_neg hone]
      exact ⟨r, hr1, hused, rfl, rfl, by rw [Object.dropped, if_neg hone], (if_neg hone).symm⟩

/-! ## The calls -/

lemma operation_run (body : NsM σ α) (s : Namespace σ) : (operation body).run s =
    if !s.ready then (.error .unavailable, s)
    else if s.busy then (.error .busy, s)
    else ((body.run { s with busy := true }).1, { (body.run { s with busy := true }).2 with busy := false }) := by
  obtain ⟨objects, references, nextToken, ready, busy, mounted, generation, volume⟩ := s
  cases ready with
  | false => rfl
  | true => cases busy <;> rfl

lemma operation_ends {body : NsM (σ × List Nat) α} {Q : α → Namespace (σ × List Nat) → Prop}
    (h : ∀ s1, Still s s1 → Ends body s1 fun a s2 => ∀ s', Still s2 s' → Q a s') : Ends (operation body) s Q := by
  have hstill : Still s s := refl_of Still s
  have hb := h { s with busy := true } ⟨rfl, rfl, rfl, rfl⟩
  unfold Ends at hb ⊢
  rw [operation_run]
  rcases hr : body.run { s with busy := true } with ⟨_ | a, s1⟩
  · rw [hr] at hb
    split_ifs
    · exact hstill
    · exact hstill
    · exact ⟨hb.objects, hb.references, hb.nextToken, hb.ledger⟩
  · rw [hr] at hb
    split_ifs
    · exact hstill
    · exact hstill
    · exact hb _ ⟨rfl, rfl, rfl, rfl⟩

/-- What a call does to the tables. -/
abbrev Calls (m : NsM (σ × List Nat) α) : Prop := ∀ s, Ends m s fun _ s' => Turns s s'

lemma fsOpen_calls (b : Backend σ) (context : Option Context) (path : List Byte) (access : Nat) :
    Calls (fsOpen b.counted context path access) := fun s => by
  refine .ite .fail_bind (.bind ?_ fun plan s1 h₁ => operation_ends fun s2 h₂ =>
    .bind (resolve_still b _ _ _) fun l s3 h₃ => (newReference_ends b _ _).mono fun token s4 h₄ s5 h5 => ?_)
  · cases context with
    | none => exact .lift
    | some c => exact .ite .fail .lift
  · exact ((((Turns.refl.still h₁).still h₂).still h₃).issue h₄).still h5

lemma fsDuplicate_calls (b : Backend σ) (token : Nat) : Calls (fsDuplicate b.counted token) := fun s => by
  refine operation_ends fun s1 h₁ => .bind ?_ fun r s2 h₂ => (newReference_ends b _ _).mono fun token s3 h₃ s4 h₄ => ?_
  · refine .bind .get fun s => ?_
    split
    · exact .fail
    · exact .pure
  · exact (((Turns.refl.still h₁).still h₂).issue h₃).still h₄

lemma fsClose_calls (b : Backend σ) (token : Nat) : Calls (fsClose b.counted token) := fun s =>
  operation_ends fun s1 h₁ => (closeReference_ends b token).mono fun _ s2 h₂ s3 h₃ => by
    obtain ⟨r, h₂⟩ := h₂
    exact ((Turns.refl.still h₁).close h₂).still h₃

lemma contextInitialize_calls (b : Backend σ) (c : Context) : Calls (contextInitialize b.counted c) := fun s =>
  .ite .fail_bind (.map (fsOpen_calls b none _ _ s))

lemma contextClone_calls (b : Backend σ) (c d : Context) : Calls (contextClone b.counted c d) := fun s => by
  refine .ite .fail_bind (.ite ?_ ?_)
  · have h := contextInitialize_calls b d s
    unfold Ends at h ⊢
    rw [bind_run_ok attempt_run]
    rcases hr : (contextInitialize b.counted d).run s with ⟨e | c', s'⟩
    · rw [hr] at h
      cases e with
      | unavailable => exact Turns.refl.still h
      | _ => exact h
    · rw [hr] at h
      exact h
  · refine operation_ends fun s1 h₁ => .bind (contextObject_still c) fun object s2 h₂ =>
      .map ((newReference_ends b _ _).mono fun token s3 h₃ s4 h₄ => ?_)
    exact (((Turns.refl.still h₁).still h₂).issue h₃).still h₄

lemma contextChdir_calls (b : Backend σ) (c : Context) (path : List Byte) : Calls (contextChdir b.counted c path) := by
  intro s
  refine .bind ?_ fun plan s1 h₁ => operation_ends fun s2 h₂ => .bind (resolve_still b _ _ _) fun l s3 h₃ =>
    .ite .fail_bind ?_
  · exact .ite .fail .lift
  -- The new reference first, then the old one, whatever becomes of that.
  · have hnew := @newReference_ends _ s3 b l.node readAccess
    have ht : Turns s s3 := ((Turns.refl.still h₁).still h₂).still h₃
    unfold Ends at hnew ⊢
    rw [bind_run]
    rcases hr : (newReference b.counted l.node readAccess).run s3 with ⟨e | token, s4⟩
    · rw [hr] at hnew
      exact hnew
    · rw [hr] at hnew
      have hold := @closeReference_ends _ s4 b c.directory
      unfold Ends at hold
      dsimp only
      rw [bind_run_ok attempt_run]
      rcases hc : (closeReference b.counted c.directory).run s4 with ⟨e | u, s5⟩
      · rw [hc] at hold
        exact fun s6 h6 => ((ht.issue hnew).still hold).still h6
      · rw [hc] at hold
        obtain ⟨r, hold⟩ := hold
        exact fun s6 h6 => ((ht.issue hnew).close hold).still h6

lemma contextDestroy_calls (b : Backend σ) (c : Context) : Calls (contextDestroy b.counted c) := fun s =>
  .ite Turns.refl (.map (fsClose_calls b _ s))

lemma mountDisk_calls (b : Backend σ) (volume : σ) : Calls (mountDisk b volume) := fun _ =>
  .ite .fail_bind (operation_ends fun _ h₁ => .get (.ite .fail_bind (.ite .fail_bind (.bind .lift fun _ _ h₂ =>
    .ite .fail_bind fun _ h₃ =>
      ((Turns.refl.still h₁).still h₂).still ⟨h₃.objects, h₃.references, h₃.nextToken, h₃.ledger⟩))))

lemma unmountDisk_calls (after : σ → σ) : Calls (unmountDisk after) := fun _ =>
  operation_ends fun _ h₁ => .get (.ite .fail_bind (.ite .fail_bind fun _ h₂ =>
    (Turns.refl.still h₁).still ⟨h₂.objects, h₂.references, h₂.nextToken, h₂.ledger⟩))

/-! ## The invariant -/

/-- The slots of the references to an object. -/
def users (s : Namespace σ) (o : Nat) : Finset Nat :=
  (Finset.range referenceLimit).filter fun r => (s.references r).token ≠ 0 ∧ (s.references r).object = o

/-- A token was handed out at some time. -/
def Issued (s : Namespace σ) (token : Nat) : Prop := s.nextToken = 0 ∨ token < s.nextToken

/-- The tables are exact. An object is live when it has references, and a reference when it has a token. -/
structure Tabled (s : Namespace (σ × List Nat)) : Prop where
  counts : ∀ o < objectLimit, (s.objects o).references = (users s o).card
  inside : ∀ r < referenceLimit, (s.references r).token ≠ 0 → (s.references r).object < objectLimit
  distinct : ∀ r < referenceLimit, ∀ r' < referenceLimit, (s.references r).token ≠ 0 →
    (s.references r).token = (s.references r').token → r = r'
  issued : ∀ r < referenceLimit, (s.references r).token ≠ 0 → Issued s (s.references r).token
  unique : ∀ o < objectLimit, ∀ o' < objectLimit, (s.objects o).references ≠ 0 → (s.objects o').references ≠ 0 →
    (s.objects o).id = (s.objects o').id → o = o'
  held : ∀ id, s.volume.2.count id = if retained s.objects id then 1 else 0
  bounded : s.nextToken < 2 ^ 64

lemma mem_users {s : Namespace σ} {o r : Nat} :
    r ∈ users s o ↔ r < referenceLimit ∧ (s.references r).token ≠ 0 ∧ (s.references r).object = o := by
  rw [users, Finset.mem_filter, Finset.mem_range]

lemma setSlot_self {table : Nat → β} {x : β} : setSlot table i x i = x := if_pos rfl

lemma setSlot_ne {table : Nat → β} {j : Nat} {x : β} (h : j ≠ i) : setSlot table i x j = table j := if_neg h

lemma Tabled.still (h : Tabled s) (hs : Still s s') : Tabled s' := by
  obtain ⟨h1, h2, h3, h4⟩ := hs
  have hu : ∀ o, users s' o = users s o := fun o => by
    unfold users
    rw [h2]
  refine ⟨fun o ho => ?_, ?_, ?_, ?_, ?_, ?_, h3 ▸ h.bounded⟩
  · rw [h1, hu]
    exact h.counts o ho
  · rw [h2]
    exact h.inside
  · rw [h2]
    exact h.distinct
  · unfold Issued
    rw [h2, h3]
    exact h.issued
  · rw [h1]
    exact h.unique
  · rw [h1, h4]
    exact h.held

lemma Issues.not_issued (h : Issues s s' token) : ¬Issued s token := by
  have := h.fresh
  have := h.nonzero
  unfold Issued
  omega

lemma Issues.issued_mono {t : Nat} (h : Issues s s' token) (hb : s.nextToken < 2 ^ 64) (ht : Issued s t ∨ t = token) :
    Issued s' t := by
  have h1 := h.fresh
  have h2 := h.nonzero
  have h3 := h.next
  unfold Issued at ht ⊢
  omega

section slots

variable {r o : Nat} {reference : Reference} {object : Object}

lemma users_issue (hr : r < referenceLimit) (hfree : (s.references r).token = 0) (hz : reference.token ≠ 0)
    (hrefs : s'.references = setSlot s.references r reference) (o : Nat) :
    (users s' o).card = (users s o).card + if reference.object = o then 1 else 0 := by
  have hmem : ∀ x, x ∈ users s' o ↔ (x = r ∧ reference.object = o) ∨ x ∈ users s o := fun x => by
    rw [mem_users, mem_users, hrefs]
    by_cases hx : x = r
    · subst hx
      rw [setSlot_self]
      simp [hr, hz, hfree]
    · rw [setSlot_ne hx]
      simp [hx]
  have hnot : r ∉ users s o := fun hx => (mem_users.mp hx).2.1 hfree
  split
  · rename_i he
    have heq : users s' o = insert r (users s o) := Finset.ext fun x => by rw [hmem, Finset.mem_insert, and_iff_left he]
    rw [heq, Finset.card_insert_of_notMem hnot]
  · rename_i he
    have heq : users s' o = users s o := Finset.ext fun x => by rw [hmem, or_iff_right fun hx => he hx.2]
    rw [heq, Nat.add_zero]

lemma users_close (hr : r < referenceLimit) (hused : (s.references r).token ≠ 0)
    (hrefs : s'.references = setSlot s.references r {}) (o : Nat) :
    (users s' o).card = (users s o).card - if (s.references r).object = o then 1 else 0 := by
  have heq : users s' o = (users s o).erase r := Finset.ext fun x => by
    rw [Finset.mem_erase, mem_users, mem_users, hrefs]
    by_cases hx : x = r
    · subst hx
      rw [setSlot_self]
      simp
    · rw [setSlot_ne hx]
      simp [hx]
  rw [heq]
  split
  · rename_i he
    exact Finset.card_erase_of_mem (mem_users.mpr ⟨hr, hused, he⟩)
  · rename_i he
    rw [Finset.erase_eq_of_notMem fun hx => he (mem_users.mp hx).2.2, Nat.sub_zero]

lemma retained_keep (hid : object.id = (s.objects o).id) (hl : (s.objects o).references ≠ 0)
    (hl' : object.references ≠ 0) (id : Nat) : retained (setSlot s.objects o object) id = retained s.objects id := by
  have hiff : ∀ i, ((setSlot s.objects o object i).references ≠ 0 ∧ (setSlot s.objects o object i).id = id) ↔
      ((s.objects i).references ≠ 0 ∧ (s.objects i).id = id) := fun i => by
    by_cases hi : i = o
    · subst hi
      rw [setSlot_self, hid]
      simp [hl, hl']
    · rw [setSlot_ne hi]
  rw [Bool.eq_iff_iff, retained_iff, retained_iff]
  exact exists_congr fun i => and_congr_right fun _ => hiff i

lemma retained_add (ho : o < objectLimit) (hl : (s.objects o).references = 0) (hl' : object.references ≠ 0) (id : Nat) :
    retained (setSlot s.objects o object) id = (retained s.objects id || object.id == id) := by
  rw [Bool.eq_iff_iff, Bool.or_eq_true, retained_iff, retained_iff, beq_iff_eq]
  constructor
  · rintro ⟨i, hi, hu, he⟩
    by_cases hio : i = o
    · subst hio
      rw [setSlot_self] at he
      exact .inr he
    · rw [setSlot_ne hio] at hu he
      exact .inl ⟨i, hi, hu, he⟩
  · rintro (⟨i, hi, hu, he⟩ | he)
    · have hio : i ≠ o := fun h => hu (h ▸ hl)
      refine ⟨i, hi, ?_⟩
      rw [setSlot_ne hio]
      exact ⟨hu, he⟩
    · refine ⟨o, ho, ?_⟩
      rw [setSlot_self]
      exact ⟨hl', he⟩

lemma retained_drop (hone : ∀ i < objectLimit, (s.objects i).references ≠ 0 →
    (s.objects i).id = (s.objects o).id → i = o)
    (id : Nat) : retained (setSlot s.objects o {}) id = (retained s.objects id && (s.objects o).id != id) := by
  rw [Bool.eq_iff_iff, Bool.and_eq_true, retained_iff, retained_iff, bne_iff_ne]
  constructor
  · rintro ⟨i, hi, hu, he⟩
    have hio : i ≠ o := by
      rintro rfl
      rw [setSlot_self] at hu
      exact hu rfl
    rw [setSlot_ne hio] at hu he
    exact ⟨⟨i, hi, hu, he⟩, fun h => hio (hone i hi hu (he.trans h.symm))⟩
  · rintro ⟨⟨i, hi, hu, he⟩, hne⟩
    have hio : i ≠ o := fun h => hne (h ▸ he)
    refine ⟨i, hi, ?_⟩
    rw [setSlot_ne hio]
    exact ⟨hu, he⟩

end slots

lemma Tabled.issue (h : Tabled s) (hi : Issues s s' token) : Tabled s' := by
  obtain ⟨r, o, object, access, hr, ho, hfree, hrefs, hobjs, hcount, hkind⟩ := hi.slots
  have hself : s'.references r = { token, object := o, access } := hrefs ▸ setSlot_self
  have hother : ∀ {r'}, r' ≠ r → s'.references r' = s.references r' := fun hne => hrefs ▸ setSlot_ne hne
  have hoself : s'.objects o = object := hobjs ▸ setSlot_self
  have hoother : ∀ {o'}, o' ≠ o → s'.objects o' = s.objects o' := fun hne => hobjs ▸ setSlot_ne hne
  have hlive : object.references ≠ 0 := by omega
  have hdist : ∀ r' < referenceLimit, (s.references r').token ≠ 0 → (s.references r').token ≠ token :=
    fun r' hr' hz he => hi.not_issued (he ▸ h.issued r' hr' hz)
  -- The other live objects have other identities.
  have hids : ∀ o' < objectLimit, o' ≠ o → (s.objects o').references ≠ 0 → (s.objects o').id ≠ object.id := by
    intro o' ho' hne hl he
    rcases hkind with ⟨hold, hid, -⟩ | ⟨-, hnew, -⟩
    · exact hne (h.unique o' ho' o ho hl hold (he.trans hid))
    · exact Bool.false_ne_true (hnew.symm.trans (retained_iff.mpr ⟨o', ho', hl, he⟩))
  refine ⟨fun o' ho' => ?_, fun r' hr' hz => ?_, fun r1 h₁ r2 h₂ hz he => ?_, fun r' hr' hz => ?_,
    fun o1 h₁ o2 h₂ hl1 hl2 he => ?_, fun id => ?_, ?_⟩
  · rw [users_issue hr hfree hi.nonzero hrefs]
    by_cases he : o' = o
    · subst he
      rw [hoself, hcount, h.counts _ ho', if_pos rfl]
    · rw [hoother he, h.counts _ ho', if_neg (Ne.symm he), Nat.add_zero]
  · by_cases he : r' = r
    · subst he
      rw [hself]
      exact ho
    · rw [hother he] at hz ⊢
      exact h.inside r' hr' hz
  · by_cases e1 : r1 = r <;> by_cases e2 : r2 = r
    · exact e1.trans e2.symm
    · rw [e1, hself, hother e2] at he
      exact absurd he.symm (hdist r2 h₂ (he ▸ hi.nonzero))
    · rw [e2, hself, hother e1] at he
      rw [hother e1] at hz
      exact absurd he (hdist r1 h₁ hz)
    · rw [hother e1, hother e2] at he
      rw [hother e1] at hz
      exact h.distinct r1 h₁ r2 h₂ hz he
  · refine hi.issued_mono h.bounded ?_
    by_cases he : r' = r
    · exact .inr (by rw [he, hself])
    · rw [hother he] at hz ⊢
      exact .inl (h.issued r' hr' hz)
  · by_cases e1 : o1 = o <;> by_cases e2 : o2 = o
    · exact e1.trans e2.symm
    · rw [e1, hoself, hoother e2] at he
      rw [hoother e2] at hl2
      exact absurd he.symm (hids o2 h₂ e2 hl2)
    · rw [e2, hoself, hoother e1] at he
      rw [hoother e1] at hl1
      exact absurd he (hids o1 h₁ e1 hl1)
    · rw [hoother e1, hoother e2] at he
      rw [hoother e1] at hl1
      rw [hoother e2] at hl2
      exact h.unique o1 h₁ o2 h₂ hl1 hl2 he
  · rcases hkind with ⟨hold, hid, hled⟩ | ⟨hold, hnew, hled⟩
    · rw [hled, hobjs, retained_keep hid hold hlive, h.held]
    · rw [hled, hobjs, retained_add ho hold hlive, List.count_cons, h.held]
      by_cases he : object.id = id
      · subst he
        simp [hnew]
      · simp [he]
  · rw [hi.next]
    exact Nat.mod_lt _ (by decide)

lemma Tabled.close {r : Nat} (h : Tabled s) (hc : Closes s s' r) : Tabled s' := by
  obtain ⟨hr, hused, hnext, hrefs, hobjs, hled⟩ := hc
  have ho := h.inside r hr hused
  have hcount := h.counts _ ho
  have hpos : 0 < (users s (s.references r).object).card := Finset.card_pos.mpr ⟨r, mem_users.mpr ⟨hr, hused, rfl⟩⟩
  generalize ho' : (s.references r).object = o at *
  have hself : s'.references r = {} := hrefs ▸ setSlot_self
  have hother : ∀ {r'}, r' ≠ r → s'.references r' = s.references r' := fun hne => hrefs ▸ setSlot_ne hne
  have hoself : s'.objects o = (s.objects o).dropped := hobjs ▸ setSlot_self
  have hoother : ∀ {o'}, o' ≠ o → s'.objects o' = s.objects o' := fun hne => hobjs ▸ setSlot_ne hne
  have hne : ∀ {r'}, (s'.references r').token ≠ 0 → r' ≠ r := by
    rintro r' hz rfl
    exact hz (by rw [hself])
  -- What is live after the close was live before, under the same identity.
  have hback : ∀ o', (s'.objects o').references ≠ 0 → (s.objects o').references ≠ 0 ∧
      (s'.objects o').id = (s.objects o').id := by
    intro o' hl
    by_cases he : o' = o
    · subst he
      rw [hoself] at hl ⊢
      unfold Object.dropped at hl ⊢
      split at hl
      · exact absurd rfl hl
      · rename_i hone
        rw [if_neg hone]
        exact ⟨by omega, rfl⟩
    · rw [hoother he] at hl ⊢
      exact ⟨hl, rfl⟩
  refine ⟨fun o' hlt => ?_, fun r' hr' hz => ?_, fun r1 h₁ r2 h₂ hz he => ?_, fun r' hr' hz => ?_,
    fun o1 h₁ o2 h₂ hl1 hl2 he => ?_, fun id => ?_, hnext ▸ h.bounded⟩
  · rw [users_close hr hused hrefs, ho']
    by_cases he : o' = o
    · subst he
      rw [hoself, if_pos rfl, ← hcount]
      unfold Object.dropped
      split
      · rename_i hone
        rw [hone]
      · rfl
    · rw [hoother he, if_neg (Ne.symm he), h.counts o' hlt, Nat.sub_zero]
  · have e := hne hz
    rw [hother e] at hz ⊢
    exact h.inside r' hr' hz
  · have e1 := hne hz
    have e2 := hne (he ▸ hz)
    rw [hother e1, hother e2] at he
    rw [hother e1] at hz
    exact h.distinct r1 h₁ r2 h₂ hz he
  · have e := hne hz
    rw [hother e] at hz ⊢
    unfold Issued
    rw [hnext]
    exact h.issued r' hr' hz
  · obtain ⟨b1, i1⟩ := hback o1 hl1
    obtain ⟨b2, i2⟩ := hback o2 hl2
    exact h.unique o1 h₁ o2 h₂ b1 b2 (i1.symm.trans (he.trans i2))
  · have hl : (s.objects o).references ≠ 0 := by omega
    rw [hled, hobjs]
    unfold Object.dropped
    split
    · rw [retained_drop fun i hi hl' he => h.unique i hi o ho hl' hl he, List.count_erase, h.held]
      by_cases he : (s.objects o).id = id
      · subst he
        simp [retained_iff.mpr ⟨o, ho, hl, rfl⟩]
      · simp [he]
    · rename_i hone
      have hkeep : retained (setSlot s.objects o { s.objects o with references := (s.objects o).references - 1 }) id =
          retained s.objects id := by
        refine retained_keep ?_ hl ?_ id
        · rfl
        · dsimp only
          omega
      rw [hkeep, h.held]

lemma Tabled.turns (h : Tabled s) (ht : Turns s s') : Tabled s' := by
  induction ht with
  | refl => exact h
  | still _ hs ih => exact ih.still hs
  | issue _ hi ih => exact ih.issue hi
  | close _ hc ih => exact ih.close hc

lemma Tabled.tokens (h : Tabled s) (ht : Turns s s') : (∀ t, Issued s t → Issued s' t) ∧
    ∀ r, (s'.references r).token ≠ 0 → s'.references r = s.references r ∨ ¬Issued s (s'.references r).token := by
  induction ht with
  | refl => exact ⟨fun _ h => h, fun _ _ => .inl rfl⟩
  | still _ hs ih =>
    unfold Issued at ih ⊢
    rw [hs.nextToken, hs.references]
    exact ih
  | issue ht hi ih =>
    have hb := (h.turns ht).bounded
    refine ⟨fun t h => hi.issued_mono hb (.inl (ih.1 t h)), fun r hz => ?_⟩
    obtain ⟨r', o, object, access, -, -, -, hrefs, -⟩ := hi.slots
    rw [hrefs] at hz ⊢
    by_cases he : r = r'
    · subst he
      rw [setSlot_self]
      exact .inr fun h => hi.not_issued (ih.1 _ h)
    · rw [setSlot_ne he] at hz ⊢
      exact ih.2 r hz
  | @close _ _ r' _ hc ih =>
    refine ⟨fun t h => ?_, fun r hz => ?_⟩
    · unfold Issued
      rw [hc.next]
      exact ih.1 t h
    · rw [hc.references] at hz ⊢
      by_cases he : r = r'
      · subst he
        rw [setSlot_self] at hz
        exact absurd rfl hz
      · rw [setSlot_ne he] at hz ⊢
        exact ih.2 r hz

/-! ## The mount and the busy flag -/

structure Seated (s s' : Namespace σ) : Prop where
  mounted : s'.mounted = s.mounted
  generation : s'.generation = s.generation
  ready : s'.ready = s.ready

instance : IsPreorder (Namespace σ) Seated where
  refl _ := ⟨rfl, rfl, rfl⟩
  trans _ _ _ h h' := ⟨h'.1.trans h.1, h'.2.trans h.2, h'.3.trans h.3⟩

lemma Sat.backend {m : Prog σ FsError α} : Sat Seated (backend m) := fun _ => ⟨rfl, rfl, rfl⟩

lemma walk_seated (b : Backend σ) (l : Location) (names : List Name) : Sat Seated (walk b l names) := by
  induction names generalizing l with
  | nil => exact .pure
  | cons name names ih =>
    refine .bind (.ite .fail_bind <| .ite .pure <| .ite .pure <| .ite .fail_bind <| .bind Sat.backend fun _ => ?_) ih
    exact .ite .fail_bind .pure

lemma contextObject_seated (c : Context) : Sat Seated (contextObject c : NsM σ Object) := by
  refine .bind .get fun s => ?_
  split
  · exact .fail
  · exact .ite .fail_bind .pure

lemma resolveFrom_seated (b : Backend σ) (plan : FsPath) (count : Nat) (cwd : Option Object) :
    Sat Seated (resolveFrom b plan count cwd) := by
  have hend : ∀ l, Sat Seated (do
      let l ← walk b l (plan.input.names.take count)
      if count = plan.input.names.length ∧ plan.input.directory ∧ l.node.kind ≠ .directory then fail .notDirectory
      return l) := fun l => .bind (walk_seated b _ _) fun l => .ite .fail_bind .pure
  refine .bind (.bind .get fun _ => .ite .fail_bind <| .bind Sat.backend fun _ => .ite .fail_bind .pure) fun l => ?_
  cases cwd with
  | none => exact hend l
  | some object =>
    refine .ite (hend l) (.bind ?_ hend)
    exact .bind (walk_seated b _ _) fun l => .ite .fail_bind .pure

lemma resolve_seated (b : Backend σ) (context : Option Context) (plan : FsPath) (count : Nat) :
    Sat Seated (resolve b context plan count) := by
  cases context with
  | none => exact resolveFrom_seated b plan count none
  | some c => exact .bind (contextObject_seated c) fun object => resolveFrom_seated b plan count (some object)

lemma newReference_seated (b : Backend σ) (node : FsNode) (access : Nat) : Sat Seated (newReference b node access) := by
  refine .ite .fail_bind <| .ite .fail_bind <| .bind .get fun s => .ite .fail_bind ?_
  have hmodify : ∀ {f : Namespace σ → Namespace σ}, (∀ s, Seated s (f s)) →
    Sat Seated (modify f : NsM σ Unit) := fun h => h
  split
  · exact .fail
  · exact .fail
  · exact .ite .fail_bind (.bind (hmodify fun _ => ⟨rfl, rfl, rfl⟩) fun _ => .pure)
  · exact .bind Sat.backend fun _ => .bind (hmodify fun _ => ⟨rfl, rfl, rfl⟩) fun _ => .pure

lemma closeReference_seated (b : Backend σ) (token : Nat) : Sat Seated (closeReference b token) := by
  refine .bind .get fun s => ?_
  split
  · exact .fail
  · refine .bind (fun _ => ⟨rfl, rfl, rfl⟩) fun _ => .ite Sat.backend .pure

lemma operation_fails {body : NsM σ α} (h : Fails Seated body) : Fails Seated (operation body) := by
  intro s e s' hm
  rw [operation_run] at hm
  split_ifs at hm
  · cases hm
    exact refl_of Seated s
  · cases hm
    exact refl_of Seated s
  · rcases hr : body.run { s with busy := true } with ⟨e' | a, s1⟩
    · rw [hr] at hm
      cases hm
      obtain ⟨h1, h2, h3⟩ := h _ _ _ hr
      exact ⟨h1, h2, h3⟩
    · rw [hr] at hm
      cases hm

lemma operation_seated {body : NsM σ α} (h : Sat Seated body) : Sat Seated (operation body) := fun s => by
  have hb := h { s with busy := true }
  rw [operation_run]
  split_ifs
  · exact refl_of Seated s
  · exact refl_of Seated s
  · exact ⟨hb.mounted, hb.generation, hb.ready⟩

lemma preflight_seated (context : Option Context) (path : List Byte) :
    Sat Seated (preflight context path : NsM σ FsPath) := by
  cases context with
  | none => exact .lift
  | some c => exact .ite .fail .lift

lemma fsOpen_seated (b : Backend σ) (context : Option Context) (path : List Byte) (access : Nat) :
    Sat Seated (fsOpen b context path access) :=
  .ite .fail_bind (.bind (preflight_seated context path) fun _ => operation_seated <|
    .bind (resolve_seated b _ _ _) fun _ => newReference_seated b _ _)

lemma fsDuplicate_seated (b : Backend σ) (token : Nat) : Sat Seated (fsDuplicate b token) := by
  refine operation_seated (.bind (.bind .get fun s => ?_) fun _ => newReference_seated b _ _)
  split
  · exact .fail
  · exact .pure

lemma contextInitialize_seated (b : Backend σ) (c : Context) : Sat Seated (contextInitialize b c) :=
  .ite .fail_bind (.bind (fsOpen_seated b none _ _) fun _ => .pure)

lemma contextClone_seated (b : Backend σ) (c d : Context) : Sat Seated (contextClone b c d) := by
  refine .ite .fail_bind (.ite (.bind (.attempt (contextInitialize_seated b d)) fun r => ?_) (operation_seated ?_))
  · split
    · exact .pure
    · exact .pure
    · exact .fail
  · exact .bind (contextObject_seated c) fun _ => .bind (newReference_seated b _ _) fun _ => .pure

lemma contextChdir_seated (b : Backend σ) (c : Context) (path : List Byte) : Sat Seated (contextChdir b c path) :=
  .bind (preflight_seated _ _) fun _ => operation_seated <| .bind (resolve_seated b _ _ _) fun _ => .ite .fail_bind <|
    .bind (newReference_seated b _ _) fun _ => .bind (.attempt (closeReference_seated b _)) fun _ => .pure

lemma contextDestroy_seated (b : Backend σ) (c : Context) : Sat Seated (contextDestroy b c) :=
  .ite .pure (.bind (operation_seated (closeReference_seated b _)) fun _ => .pure)

lemma mountDisk_fails (b : Backend σ) (volume : σ) : Fails Seated (mountDisk b volume) :=
  .ite (.of_sat .fail_bind)
    (operation_fails <| .bind .get fun _ => .ite (.of_sat .fail_bind) <| .ite (.of_sat .fail_bind) <|
    .bind .lift fun _ => .ite (.of_sat .fail_bind) .modify)

lemma unmountDisk_fails (after : σ → σ) : Fails Seated (unmountDisk after) :=
  operation_fails <| .bind .get fun _ => .ite (.of_sat .fail_bind) <| .ite (.of_sat .fail_bind) .modify

def Cleared (s s' : Namespace σ) : Prop := s.busy = false → s'.busy = false

instance : IsPreorder (Namespace σ) Cleared where
  refl _ := id
  trans _ _ _ h h' := h' ∘ h

lemma operation_cleared (body : NsM σ α) : Sat Cleared (operation body) := fun s hs => by
  rw [operation_run]
  split_ifs
  · exact hs
  · exact hs
  · rfl

lemma preflight_cleared (context : Option Context) (path : List Byte) :
    Sat Cleared (preflight context path : NsM σ FsPath) := by
  cases context with
  | none => exact .lift
  | some c => exact .ite .fail .lift

lemma fsOpen_cleared (b : Backend σ) (context : Option Context) (path : List Byte) (access : Nat) :
    Sat Cleared (fsOpen b context path access) :=
  .ite .fail_bind (.bind (preflight_cleared context path) fun _ => operation_cleared _)

lemma contextInitialize_cleared (b : Backend σ) (c : Context) : Sat Cleared (contextInitialize b c) :=
  .ite .fail_bind (.bind (fsOpen_cleared b none _ _) fun _ => .pure)

lemma contextClone_cleared (b : Backend σ) (c d : Context) : Sat Cleared (contextClone b c d) := by
  refine .ite .fail_bind (.ite (.bind (.attempt (contextInitialize_cleared b d)) fun r => ?_) (operation_cleared _))
  split
  · exact .pure
  · exact .pure
  · exact .fail

/-! ## Runs -/

namespace Filesystem

variable {f : Filesystem σ}

/-- The filesystem between calls. -/
structure Exact (f : Filesystem σ) : Prop where
  tabled : Tabled f.names
  idle : f.names.busy = false

/-- The token is in the table. -/
def Live (f : Filesystem σ) (token : Nat) : Prop := token ≠ 0 ∧ ∃ r < referenceLimit,
    (f.names.references r).token = token

/-- What a call does: a failure leaves everything but the backend's own state alone. -/
structure Does (f : Filesystem σ) (r : Except FsError Unit × Filesystem σ) : Prop where
  turns : Turns f.names r.2.names
  fails : ∀ e, r.1 = .error e → Still f.names r.2.names ∧ Seated f.names r.2.names ∧ r.2.contexts = f.contexts
  cleared : Cleared f.names r.2.names

lemma carry_does {m : NsM (σ × List Nat) α} {g : α → Filesystem σ → Filesystem σ} (hm : Calls m) (hf : Fails Seated m)
    (hc : Sat Cleared m) (hs : ∀ a f, (g a f).names = f.names) : f.Does (f.carry m g) := by
  have hm := hm f.names
  have hc := hc f.names
  unfold Ends at hm
  unfold carry
  rcases hr : m.run f.names with ⟨e | a, s'⟩
  · rw [hr] at hm hc
    exact ⟨Turns.refl.still hm, fun _ _ => ⟨hm, hf _ _ _ hr, rfl⟩, hc⟩
  · rw [hr] at hm hc
    dsimp only
    refine ⟨?_, nofun, ?_⟩
    · rw [hs]
      exact hm
    · rw [hs]
      exact hc

lemma perform_does (f : Filesystem σ) (call : TableCall σ) : f.Does (f.perform call) := by
  cases call with
  | fsOpen context path access =>
    exact carry_does (fsOpen_calls f.backend _ _ _) (.of_sat (fsOpen_seated _ _ _ _))
      (fsOpen_cleared _ _ _ _) fun _ _ => rfl
  | fsDuplicate token =>
    exact carry_does (fsDuplicate_calls f.backend token) (.of_sat (fsDuplicate_seated _ _))
      (operation_cleared _) fun _ _ => rfl
  | fsClose token =>
    exact carry_does (fsClose_calls f.backend token) (.of_sat (operation_seated (closeReference_seated _ _)))
      (operation_cleared _) fun _ _ => rfl
  | contextInitialize i =>
    exact carry_does (contextInitialize_calls f.backend _) (.of_sat (contextInitialize_seated _ _))
      (contextInitialize_cleared _ _) fun _ _ => rfl
  | contextClone i j =>
    exact carry_does (contextClone_calls f.backend _ _) (.of_sat (contextClone_seated _ _ _))
      (contextClone_cleared _ _ _) fun _ _ => rfl
  | contextChdir i path =>
    exact carry_does (contextChdir_calls f.backend _ _) (.of_sat (contextChdir_seated _ _ _))
      (.bind (preflight_cleared _ _) fun _ => operation_cleared _) fun _ _ => rfl
  | contextDestroy i =>
    exact carry_does (contextDestroy_calls f.backend _) (.of_sat (contextDestroy_seated _ _))
      (.ite .pure (.bind (operation_cleared _) fun _ => .pure)) fun _ _ => rfl
  | mount b volume =>
    have hc : Sat Cleared (mountDisk b volume) := .ite .fail_bind (operation_cleared _)
    exact carry_does (g := fun _ f => { f with backend := b }) (mountDisk_calls b volume) (mountDisk_fails b volume) hc
      fun _ _ => rfl
  | unmount after =>
    exact carry_does (unmountDisk_calls after) (unmountDisk_fails after) (operation_cleared _) fun _ _ => rfl

lemma run_turns (f : Filesystem σ) (calls : List (TableCall σ)) :
    Turns f.names (f.run calls).names ∧ Cleared f.names (f.run calls).names := by
  induction calls generalizing f with
  | nil => exact ⟨.refl, id⟩
  | cons call calls ih =>
    have hd := f.perform_does call
    obtain ⟨ht, hc⟩ := ih (f.perform call).2
    exact ⟨hd.turns.trans ht, hc ∘ hd.cleared⟩

lemma Exact.run (h : f.Exact) (calls : List (TableCall σ)) : (f.run calls).Exact :=
  ⟨h.tabled.turns (f.run_turns calls).1, (f.run_turns calls).2 h.idle⟩

lemma Exact.dead (h : f.Exact) (call : TableCall σ) (hl : f.Live token) (hd : ¬(f.perform call).2.Live token)
    (calls : List (TableCall σ)) : ¬((f.perform call).2.run calls).Live token := by
  rintro ⟨h0, r, hr, he⟩
  obtain ⟨-, r0, hr0, he0⟩ := hl
  have hissued : Issued f.names token := he0 ▸ h.tabled.issued r0 hr0 (he0 ▸ h0)
  have hdoes := f.perform_does call
  have hlater := ((h.tabled.tokens hdoes.turns).1 token hissued)
  rcases ((h.tabled.turns hdoes.turns).tokens ((f.perform call).2.run_turns calls).1).2 r (he ▸ h0) with hsame | hnew
  · exact hd ⟨h0, r, hr, hsame ▸ he⟩
  · exact hnew (he ▸ hlater)

end Filesystem

end RumKernel.Fs
