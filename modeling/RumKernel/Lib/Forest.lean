import Mathlib

/-!
# Directory forests

A forest gives every directory an ordered list of slots with entries; an entry may lead to a directory and may have a
name. `Reach` are the directories reachable from the root, `Obj` the entries found in them. `Same` keeps every reachable
directory; `Edit` adds, removes or replaces one entry of one directory. What every path leads to follows from these two.
-/

namespace RumKernel.Lib

variable {D S E N : Type}

/-- How a directory search treats an entry: passed over, an error that ends the search, or a name. -/
inductive Tag (N : Type) where
  | skip
  | broken
  | named (n : N)
  deriving DecidableEq

variable {tag : E → Tag N}

/-- Directories, their slots and what the entries in them mean. -/
structure Forest (D S E N : Type) where
  root : D
  kids : D → List (S × E)
  sub : E → Option D
  tag : E → Tag N

namespace Forest

/-- The directories reachable from the root. -/
inductive Reach (F : Forest D S E N) : D → Prop where
  | root : Reach F F.root
  | sub {d s e d'} : Reach F d → (s, e) ∈ F.kids d → F.sub e = some d' → Reach F d'

variable {F F' : Forest D S E N} {d d' d0 : D} {s s' i0 : S} {e e' : E} {o n : Option E}

/-- The entry `e` is in slot `s` of the reachable directory `d`. -/
def Obj (F : Forest D S E N) (d : D) (s : S) (e : E) : Prop := F.Reach d ∧ (s, e) ∈ F.kids d

/-- A forest is proper when slots are never shared and every directory other than the root is entered
through one slot only. -/
structure Proper (F : Forest D S E N) : Prop where
  nodup : ∀ {d}, F.Reach d → ((F.kids d).map Prod.fst).Nodup
  slot : ∀ {d d' s e e'}, F.Obj d s e → F.Obj d' s e' → d = d' ∧ e = e'
  entered : ∀ {d d' s s' e e' x}, F.Obj d s e → F.Obj d' s' e' → F.sub e = some x → F.sub e' = some x → s = s'
  not_root : ∀ {d s e}, F.Obj d s e → F.sub e ≠ some F.root

/-! ## Unchanged forests -/

/-- `F'` has the same reachable directories as `F`, entry by entry. -/
structure Same (F F' : Forest D S E N) : Prop where
  root : F'.root = F.root
  sub : F'.sub = F.sub
  kids : ∀ d, F.Reach d → F'.kids d = F.kids d
  tag : ∀ d s e, F.Obj d s e → F'.tag e = F.tag e

lemma Same.reach (h : Same F F') : F'.Reach d ↔ F.Reach d := by
  constructor
  · intro hr
    induction hr with
    | root => exact h.root ▸ .root
    | sub _ hm hs ih => exact .sub ih (h.kids _ ih ▸ hm) (by rw [← h.sub]; exact hs)
  · intro hr
    induction hr with
    | root => exact h.root ▸ .root
    | sub hr hm hs ih => exact .sub ih ((h.kids _ hr).symm ▸ hm) (by rw [h.sub]; exact hs)

lemma Same.obj (h : Same F F') : F'.Obj d s e ↔ F.Obj d s e := by
  unfold Obj
  rw [h.reach]
  constructor
  · rintro ⟨hr, hm⟩
    exact ⟨hr, h.kids d hr ▸ hm⟩
  · rintro ⟨hr, hm⟩
    exact ⟨hr, (h.kids d hr).symm ▸ hm⟩

lemma Same.trans {F'' : Forest D S E N} (h : Same F F') (h' : Same F' F'') : Same F F'' :=
  ⟨h'.root.trans h.root, h'.sub.trans h.sub,
    fun d hr => (h'.kids d (h.reach.mpr hr)).trans (h.kids d hr),
    fun d s e ho => (h'.tag d s e (h.obj.mpr ho)).trans (h.tag d s e ho)⟩

/-! ## Editing one slot -/

def slotList (i : S) (o : Option E) : List (S × E) := o.toList.map fun e => (i, e)

@[simp] lemma mem_slotList {i : S} {o : Option E} {x : S × E} :
    x ∈ slotList i o ↔ ∃ e, o = some e ∧ x = (i, e) := by
  simp [slotList, eq_comm]

/-- `F'` is `F` with slot `i0` of the directory `d0` changed from `o` to `n`. -/
structure Edit (F F' : Forest D S E N) (d0 : D) (i0 : S) (o n : Option E) (pre post : List (S × E)) :
    Prop where
  root : F'.root = F.root
  sub : F'.sub = F.sub
  at_reach : F.Reach d0
  kids : ∀ d, F.Reach d → d ≠ d0 → F'.kids d = F.kids d
  kids_old : F.kids d0 = pre ++ slotList i0 o ++ post
  kids_new : F'.kids d0 = pre ++ slotList i0 n ++ post
  tag : ∀ d s e, F.Obj d s e → s ≠ i0 → F'.tag e = F.tag e
  fresh : ∀ d e, F.Obj d i0 e → d = d0 ∧ o = some e
  old_leaf : ∀ e d, o = some e → F.sub e = some d → F.kids d = []
  new_leaf : ∀ e d, n = some e → F.sub e = some d → F'.kids d = [] ∧ ¬F.Reach d

namespace Edit

variable {pre post : List (S × E)}

section
variable (h : Edit F F' d0 i0 o n pre post)
include h

lemma old_obj (ho : o = some e) : F.Obj d0 i0 e := by
  refine ⟨h.at_reach, ?_⟩
  simp [h.kids_old, ho]

lemma other_slot (hp : F.Proper) (hm : (s, e) ∈ pre ∨ (s, e) ∈ post) : F.Obj d0 s e ∧ s ≠ i0 := by
  have hk : (s, e) ∈ F.kids d0 := by
    rw [h.kids_old]
    rcases hm with hm | hm <;> simp [hm]
  refine ⟨⟨h.at_reach, hk⟩, ?_⟩
  rintro rfl
  obtain ⟨-, rfl⟩ := h.fresh d0 e ⟨h.at_reach, hk⟩
  -- the slot would stand twice in the directory
  have hnd := hp.nodup h.at_reach
  rw [h.kids_old] at hnd
  simp only [slotList, Option.toList_some, List.map_cons, List.map_nil, List.append_assoc,
    List.map_append, List.nodup_append, List.mem_map, List.mem_append, List.mem_singleton] at hnd
  rcases hm with hm | hm
  · exact hnd.2.2 s ⟨_, hm, rfl⟩ s (.inl rfl) rfl
  · exact hnd.2.1.2.2 s rfl s ⟨_, hm, rfl⟩ rfl

lemma old_sub_ne (ho : o = some e) : F.sub e ≠ some d0 := by
  intro hs
  have hk := h.old_leaf e d0 ho hs
  have hm := (h.old_obj ho).2
  simp [hk] at hm

lemma reach_of_reach (hr : F.Reach d) (hd : ∀ e, o = some e → F.sub e ≠ some d) : F'.Reach d := by
  induction hr with
  | root => exact h.root ▸ .root
  | @sub d s e d' hr hm hs ih =>
    have hne : ∀ e, o = some e → F.sub e ≠ some d := by
      intro eo ho hsub
      simp [h.old_leaf eo d ho hsub] at hm
    refine .sub (s := s) (ih hne) ?_ (by rw [h.sub]; exact hs)
    by_cases hd0 : d = d0
    · subst hd0
      rw [h.kids_old] at hm
      rw [h.kids_new]
      simp only [List.mem_append, mem_slotList] at hm ⊢
      rcases hm with (hm | ⟨eo, ho, e'⟩) | hm
      · exact .inl (.inl hm)
      · cases e'
        exact absurd hs (hd _ ho)
      · exact .inr hm
    · rwa [h.kids d hr hd0]

lemma at_reach' : F'.Reach d0 :=
  h.reach_of_reach h.at_reach fun _ ho => h.old_sub_ne ho

lemma reach (hp : F.Proper) : F'.Reach d ↔
    (F.Reach d ∧ ∀ e, o = some e → F.sub e ≠ some d) ∨ ∃ e, n = some e ∧ F.sub e = some d := by
  constructor
  · intro hr
    induction hr with
    | root =>
      rw [h.root]
      exact .inl ⟨.root, fun e ho => hp.not_root (h.old_obj ho)⟩
    | @sub d s e d' hr hm hs ih =>
      rw [h.sub] at hs
      rcases ih with ⟨hrd, -⟩ | ⟨en, hn, hsn⟩
      · -- an entry that was there before leads where it led, and not to the removed directory
        have old : F.Obj d s e → s ≠ i0 → (F.Reach d' ∧ ∀ e, o = some e → F.sub e ≠ some d') := by
          intro hobj hsi
          refine ⟨.sub hobj.1 hobj.2 hs, fun eo ho hso => ?_⟩
          exact hsi (hp.entered hobj (h.old_obj ho) hs hso)
        by_cases hd0 : d = d0
        · subst hd0
          rw [h.kids_new] at hm
          simp only [List.mem_append, mem_slotList] at hm
          rcases hm with (hm | ⟨en, hn, e'⟩) | hm
          · obtain ⟨hobj, hsi⟩ := h.other_slot hp (.inl hm)
            exact .inl (old hobj hsi)
          · cases e'
            exact .inr ⟨_, hn, hs⟩
          · obtain ⟨hobj, hsi⟩ := h.other_slot hp (.inr hm)
            exact .inl (old hobj hsi)
        · rw [h.kids d hrd hd0] at hm
          refine .inl (old ⟨hrd, hm⟩ ?_)
          rintro rfl
          exact hd0 (h.fresh d e ⟨hrd, hm⟩).1
      · simp [(h.new_leaf en d hn hsn).1] at hm
  · rintro (⟨hr, hd⟩ | ⟨e, hn, hs⟩)
    · exact h.reach_of_reach hr hd
    · refine .sub (s := i0) (e := e) h.at_reach' ?_ (by rw [h.sub]; exact hs)
      simp [h.kids_new, hn]

lemma obj (hp : F.Proper) : F'.Obj d s e ↔ (F.Obj d s e ∧ s ≠ i0) ∨ (d = d0 ∧ s = i0 ∧ n = some e) := by
  constructor
  · rintro ⟨hr, hm⟩
    by_cases hd0 : d = d0
    · subst hd0
      rw [h.kids_new] at hm
      simp only [List.mem_append, mem_slotList] at hm
      rcases hm with (hm | ⟨en, hn, e'⟩) | hm
      · exact .inl (h.other_slot hp (.inl hm))
      · cases e'
        exact .inr ⟨rfl, rfl, hn⟩
      · exact .inl (h.other_slot hp (.inr hm))
    · rcases (h.reach hp).mp hr with ⟨hrd, -⟩ | ⟨en, hn, hsn⟩
      · rw [h.kids d hrd hd0] at hm
        refine .inl ⟨⟨hrd, hm⟩, ?_⟩
        rintro rfl
        exact hd0 (h.fresh d e ⟨hrd, hm⟩).1
      · simp [(h.new_leaf en d hn hsn).1] at hm
  · rintro (⟨⟨hr, hm⟩, hsi⟩ | ⟨rfl, rfl, hn⟩)
    · refine ⟨h.reach_of_reach hr fun eo ho hso => ?_, ?_⟩
      · simp [h.old_leaf eo d ho hso] at hm
      · by_cases hd0 : d = d0
        · subst hd0
          rw [h.kids_old] at hm
          rw [h.kids_new]
          simp only [List.mem_append, mem_slotList] at hm ⊢
          rcases hm with (hm | ⟨eo, -, e'⟩) | hm
          · exact .inl (.inl hm)
          · cases e'
            exact absurd rfl hsi
          · exact .inr hm
        · rwa [h.kids d hr hd0]
    · refine ⟨h.at_reach', ?_⟩
      simp [h.kids_new, hn]

end

end Edit

/-! ## Names and paths -/

section paths
variable [DecidableEq N] {F F' : Forest D S E N} {pre post l : List (S × E)} {x : S × E} {m k : N}
  {p q : List N}

/-- The first entry called `k`, unless a broken entry comes before it. -/
def findIn (tag : E → Tag N) (k : N) : List (S × E) → Option (S × E)
  | [] => none
  | x :: l =>
    match tag x.2 with
    | .skip => findIn tag k l
    | .broken => none
    | .named m => if m = k then some x else findIn tag k l

/-- Search a directory for a name. -/
def find (F : Forest D S E N) (d : D) (k : N) : Option (S × E) := findIn F.tag k (F.kids d)

/-- The directory a path leads to from the root. -/
def dir (F : Forest D S E N) (p : List N) : Option D :=
  p.foldlM (fun d k => (F.find d k).bind fun x => F.sub x.2) F.root

/-- The entry called `k` in the directory at `p`. -/
def entry (F : Forest D S E N) (p : List N) (k : N) : Option (S × E) := (F.dir p).bind fun d => F.find d k

@[simp] lemma dir_nil : F.dir [] = some F.root := rfl

@[simp] lemma dir_snoc : F.dir (p ++ [k]) = (F.entry p k).bind fun x => F.sub x.2 := by
  simp [dir, entry, List.foldlM_append, Option.bind_assoc]

lemma findIn_some (h : findIn tag k l = some x) : x ∈ l ∧ tag x.2 = .named k := by
  induction l with
  | nil => cases h
  | cons y l ih =>
    simp only [findIn] at h
    split at h
    · exact ⟨List.mem_cons_of_mem _ (ih h).1, (ih h).2⟩
    · cases h
    · split at h
      · rename_i ht hm
        cases h
        exact ⟨List.mem_cons_self, by rw [ht, hm]⟩
      · exact ⟨List.mem_cons_of_mem _ (ih h).1, (ih h).2⟩

lemma findIn_congr {tag' : E → Tag N} (h : ∀ x ∈ l, tag' x.2 = tag x.2) : findIn tag' k l = findIn tag k l := by
  induction l with
  | nil => rfl
  | cons y l ih =>
    simp only [findIn, h y List.mem_cons_self, ih fun x hx => h x (List.mem_cons_of_mem _ hx)]

/-- No entry of the list is called `k` or ends the search. -/
def Clear (tag : E → Tag N) (k : N) (l : List (S × E)) : Prop :=
  ∀ x ∈ l, tag x.2 ≠ .broken ∧ tag x.2 ≠ .named k

lemma Clear.append (h : Clear tag k pre) : findIn tag k (pre ++ post) = findIn tag k post := by
  induction pre with
  | nil => rfl
  | cons y l ih =>
    have hy := h y List.mem_cons_self
    have hl := ih fun x hx => h x (List.mem_cons_of_mem _ hx)
    simp only [List.cons_append, findIn]
    split
    · exact hl
    · exact absurd ‹_› hy.1
    · rename_i m hm
      rw [if_neg (fun e => hy.2 (by rw [hm, e])), hl]

lemma findIn_insert (hx : tag x.2 = .named m) (hm : m ≠ k) :
    findIn tag k (pre ++ x :: post) = findIn tag k (pre ++ post) := by
  induction pre with
  | nil => simp [findIn, hx, hm]
  | cons y l ih => simp only [List.cons_append, findIn, ih]

lemma dir_reach (h : F.dir p = some d) : F.Reach d := by
  induction p using List.reverseRecOn generalizing d with
  | nil =>
    cases h
    exact .root
  | append_singleton p k ih =>
    rw [dir_snoc] at h
    obtain ⟨x, hx, hs⟩ := Option.bind_eq_some_iff.mp h
    obtain ⟨c, hc, hf⟩ := Option.bind_eq_some_iff.mp hx
    exact .sub (s := x.1) (e := x.2) (ih hc) (findIn_some hf).1 hs

lemma entry_obj (h : F.entry p k = some x) : ∃ d, F.dir p = some d ∧ F.Obj d x.1 x.2 ∧ F.tag x.2 = .named k := by
  obtain ⟨d, hd, hf⟩ := Option.bind_eq_some_iff.mp h
  exact ⟨d, hd, ⟨dir_reach hd, (findIn_some hf).1⟩, (findIn_some hf).2⟩

lemma entry_none (h : ∀ d, F.dir p = some d → F.kids d = []) : F.entry p k = none := by
  unfold entry
  cases hd : F.dir p with
  | none => rfl
  | some d => simp [find, h d hd, findIn]

lemma dir_inj (hp : F.Proper) (h : F.dir p = some d) (h' : F.dir q = some d) : p = q := by
  induction p using List.reverseRecOn generalizing d q with
  | nil =>
    cases h
    rcases List.eq_nil_or_concat q with rfl | ⟨q, k, rfl⟩
    · rfl
    · rw [List.concat_eq_append, dir_snoc] at h'
      obtain ⟨x, hx, hs⟩ := Option.bind_eq_some_iff.mp h'
      obtain ⟨c, -, ho, -⟩ := entry_obj hx
      exact absurd hs (hp.not_root ho)
  | append_singleton p k ih =>
    rw [dir_snoc] at h
    obtain ⟨x, hx, hs⟩ := Option.bind_eq_some_iff.mp h
    obtain ⟨c, hc, ho, ht⟩ := entry_obj hx
    rcases List.eq_nil_or_concat q with rfl | ⟨q, k', rfl⟩
    · cases h'
      exact absurd hs (hp.not_root ho)
    · rw [List.concat_eq_append, dir_snoc] at h'
      obtain ⟨x', hx', hs'⟩ := Option.bind_eq_some_iff.mp h'
      obtain ⟨c', hc', ho', ht'⟩ := entry_obj hx'
      have es := hp.entered ho ho' hs hs'
      obtain ⟨rfl, ee⟩ := hp.slot ho (es ▸ ho')
      rw [ih hc hc']
      have : Tag.named k = Tag.named k' := by rw [← ht, ← ht', ee]
      cases this
      simp

lemma Same.find (h : Same F F') (hr : F.Reach d) : F'.find d k = F.find d k := by
  unfold Forest.find
  rw [h.kids d hr]
  exact findIn_congr fun x hx => h.tag d x.1 x.2 ⟨hr, hx⟩

lemma Same.dir (h : Same F F') : F'.dir p = F.dir p := by
  induction p using List.reverseRecOn with
  | nil => simp [h.root]
  | append_singleton p k ih =>
    rw [dir_snoc, dir_snoc, entry, entry, ih, h.sub]
    cases hd : F.dir p with
    | none => rfl
    | some d => simp [h.find (dir_reach hd)]

lemma Same.entry (h : Same F F') : F'.entry p k = F.entry p k := by
  unfold Forest.entry
  rw [h.dir]
  cases hd : F.dir p with
  | none => rfl
  | some d => simp [h.find (dir_reach hd)]

namespace Edit

variable {o n : Option E} {eo en : E}

lemma find_other (h : Edit F F' d0 i0 o n pre post) (hr : F.Reach d) (hd : d ≠ d0) : F'.find d k = F.find d k := by
  unfold Forest.find
  rw [h.kids d hr hd]
  refine findIn_congr fun x hx => h.tag d x.1 x.2 ⟨hr, hx⟩ ?_
  intro e
  exact hd (h.fresh d x.2 ⟨hr, e ▸ hx⟩).1

omit [DecidableEq N] in
lemma tag_around (h : Edit F F' d0 i0 o n pre post) (hp : F.Proper) (hx : x ∈ pre ++ post) :
    F'.tag x.2 = F.tag x.2 := by
  obtain ⟨ho, hs⟩ := h.other_slot hp (s := x.1) (e := x.2) (List.mem_append.mp hx)
  exact h.tag d0 x.1 x.2 ho hs

/-- A search that leads into the edited slot's place, seen before and after. -/
structure Naming (F F' : Forest D S E N) (d0 : D) (i0 : S) (o n : Option E) (k : N) : Prop where
  old : F.find d0 k = o.map fun e => (i0, e)
  new : F'.find d0 k = n.map fun e => (i0, e)
  other : ∀ m, m ≠ k → F'.find d0 m = F.find d0 m

lemma naming_create (h : Edit F F' d0 i0 none (some en) pre post) (hp : F.Proper)
    (hc : Clear F.tag k (pre ++ post)) (hk : F'.tag en = .named k) : Naming F F' d0 i0 none (some en) k := by
  have hold : F.kids d0 = pre ++ post := by simpa [slotList] using h.kids_old
  have hnew : F'.kids d0 = pre ++ (i0, en) :: post := by simpa [slotList] using h.kids_new
  refine ⟨?_, ?_, ?_⟩
  · have hnone : findIn F.tag k (pre ++ post ++ []) = none := hc.append
    simpa [Forest.find, hold] using hnone
  · have hpre : Clear F'.tag k pre := fun x hx => by
      rw [h.tag_around hp (List.mem_append_left _ hx)]
      exact hc x (List.mem_append_left _ hx)
    unfold Forest.find
    rw [hnew, hpre.append]
    simp [findIn, hk]
  · intro m hm
    unfold Forest.find
    rw [hnew, findIn_insert hk hm.symm, hold]
    exact findIn_congr fun x hx => h.tag_around hp hx

lemma naming_remove (h : Edit F F' d0 i0 (some eo) none pre post) (hp : F.Proper)
    (hc : Clear F.tag k pre) (hk : F.tag eo = .named k) (hpost : ∀ x ∈ post, F.tag x.2 ≠ .named k) :
    Naming F F' d0 i0 (some eo) none k := by
  have hold : F.kids d0 = pre ++ (i0, eo) :: post := by simpa [slotList] using h.kids_old
  have hnew : F'.kids d0 = pre ++ post := by simpa [slotList] using h.kids_new
  refine ⟨?_, ?_, ?_⟩
  · unfold Forest.find
    rw [hold, hc.append]
    simp [findIn, hk]
  · unfold Forest.find
    rw [hnew, findIn_congr fun x hx => h.tag_around hp hx, hc.append]
    rw [Option.map_none, Option.eq_none_iff_forall_ne_some]
    intro x hx
    exact hpost x (findIn_some hx).1 (findIn_some hx).2
  · intro m hm
    unfold Forest.find
    rw [hold, findIn_insert hk hm.symm, hnew]
    exact findIn_congr fun x hx => h.tag_around hp hx

section
variable (h : Edit F F' d0 i0 o n pre post) (hk : Naming F F' d0 i0 o n k)
include h hk

lemma dir_cases (p : List N) : F'.dir p = F.dir p ∨
      ((∀ d, F.dir p = some d → d ≠ d0 ∧ F.kids d = []) ∧ ∀ d, F'.dir p = some d → d ≠ d0 ∧ F'.kids d = []) := by
  induction p using List.reverseRecOn with
  | nil => exact .inl (by simp [h.root])
  | append_singleton p m ih =>
    rw [dir_snoc, dir_snoc, entry, entry, h.sub]
    rcases ih with ih | ⟨ih, ih'⟩
    · rw [ih]
      cases hd : F.dir p with
      | none => exact .inl rfl
      | some d =>
        simp only [Option.bind_some]
        by_cases hd0 : d = d0
        · subst hd0
          by_cases hm : m = k
          · subst hm
            refine .inr ⟨fun c hc => ?_, fun c hc => ?_⟩
            · rw [hk.old] at hc
              obtain ⟨x, hx, hs⟩ := Option.bind_eq_some_iff.mp hc
              obtain ⟨e, ho, rfl⟩ := Option.map_eq_some_iff.mp hx
              exact ⟨fun e' => h.old_sub_ne ho (e' ▸ hs), h.old_leaf e c ho hs⟩
            · rw [hk.new] at hc
              obtain ⟨x, hx, hs⟩ := Option.bind_eq_some_iff.mp hc
              obtain ⟨e, hn, rfl⟩ := Option.map_eq_some_iff.mp hx
              exact ⟨fun e' => (h.new_leaf e c hn hs).2 (e' ▸ h.at_reach), (h.new_leaf e c hn hs).1⟩
          · rw [hk.other m hm]
            exact .inl rfl
        · rw [h.find_other (dir_reach hd) hd0]
          exact .inl rfl
    · have h1 := entry_none (k := m) fun d hd => (ih d hd).2
      have h2 := entry_none (k := m) fun d hd => (ih' d hd).2
      unfold Forest.entry at h1 h2
      rw [h1, h2]
      exact .inl rfl

/-- The edited name in the edited directory leads to the new entry. -/
theorem entry_edited (hd : F.dir p = some d0) : F'.entry p k = n.map fun e => (i0, e) := by
  unfold Forest.entry
  rcases h.dir_cases hk p with e | ⟨hl, -⟩
  · rw [e, hd, Option.bind_some, hk.new]
  · exact absurd rfl (hl d0 hd).1

/-- Every other path leads to what it led to before. -/
theorem entry_other (hne : ¬(F.dir p = some d0 ∧ m = k)) : F'.entry p m = F.entry p m := by
  rcases h.dir_cases hk p with e | ⟨hl, hl'⟩
  · unfold Forest.entry
    rw [e]
    cases hd : F.dir p with
    | none => rfl
    | some d =>
      simp only [Option.bind_some]
      by_cases hd0 : d = d0
      · subst hd0
        exact hk.other m fun hm => hne ⟨hd, hm⟩
      · exact h.find_other (dir_reach hd) hd0
  · rw [entry_none fun d hd => (hl d hd).2, entry_none fun d hd => (hl' d hd).2]

end

section update
variable [DecidableEq S]

/-- The entry after the edit in place of the one before it. -/
def updated (i0 : S) (en : E) (x : S × E) : S × E := if x.1 = i0 then (i0, en) else x

section
variable (h : Edit F F' d0 i0 (some eo) (some en) pre post) (hp : F.Proper) (ht : F'.tag en = F.tag eo)
include h hp ht

lemma find_update (hr : F.Reach d) : F'.find d k = (F.find d k).map (updated i0 en) := by
  have keep : ∀ (l : List (S × E)), (∀ x ∈ l, x.1 ≠ i0 ∧ F'.tag x.2 = F.tag x.2) →
      findIn F'.tag k l = (findIn F.tag k l).map (updated i0 en) := by
    intro l hl
    rw [findIn_congr fun x hx => (hl x hx).2]
    cases hf : findIn F.tag k l with
    | none => rfl
    | some x => simp [updated, (hl x (findIn_some hf).1).1]
  by_cases hd0 : d = d0
  · subst hd0
    have around : ∀ x, x ∈ pre ∨ x ∈ post → x.1 ≠ i0 ∧ F'.tag x.2 = F.tag x.2 := fun x hx =>
      ⟨(h.other_slot hp hx).2, h.tag_around hp (List.mem_append.mpr hx)⟩
    unfold Forest.find
    rw [h.kids_old, h.kids_new]
    simp only [slotList, Option.toList_some, List.map_cons, List.map_nil, List.append_assoc,
      List.singleton_append]
    -- induction over the entries before the edited one
    have hpre : ∀ x ∈ pre, x.1 ≠ i0 ∧ F'.tag x.2 = F.tag x.2 := fun x hx => around x (.inl hx)
    have hpost := keep post fun x hx => around x (.inr hx)
    clear h around
    induction pre with
    | nil =>
      simp only [List.nil_append, findIn, ht, hpost]
      split
      · rfl
      · rfl
      · split
        · simp [updated]
        · rfl
    | cons y l ih =>
      have hy := hpre y List.mem_cons_self
      have hl := ih fun x hx => hpre x (List.mem_cons_of_mem _ hx)
      simp only [List.cons_append, findIn, hy.2, hl]
      split
      · rfl
      · rfl
      · split
        · simp [updated, hy.1]
        · rfl
  · rw [h.find_other hr hd0]
    cases hf : F.find d k with
    | none => rfl
    | some x =>
      have hne : x.1 ≠ i0 := fun e => hd0 (h.fresh d x.2 ⟨hr, e ▸ (findIn_some hf).1⟩).1
      simp [updated, hne]

lemma dir_update (ho : F.sub eo = none) (hn : F.sub en = none) : F'.dir p = F.dir p := by
  induction p using List.reverseRecOn with
  | nil => simp [h.root]
  | append_singleton p k ih =>
    rw [dir_snoc, dir_snoc, entry, entry, ih, h.sub]
    cases hd : F.dir p with
    | none => rfl
    | some d =>
      simp only [Option.bind_some, h.find_update hp ht (dir_reach hd)]
      cases hf : F.find d k with
      | none => rfl
      | some x =>
        by_cases hx : x.1 = i0
        · obtain ⟨-, e⟩ := h.fresh d x.2 ⟨dir_reach hd, hx ▸ (findIn_some hf).1⟩
          cases e
          simp [updated, hx, hn, ho]
        · simp [updated, hx]

/-- **Paths after replacing a file entry.** Every path leads to the slot it led to before. -/
theorem entry_update (ho : F.sub eo = none) (hn : F.sub en = none) :
    F'.entry p k = (F.entry p k).map (updated i0 en) := by
  unfold Forest.entry
  rw [h.dir_update hp ht ho hn]
  cases hd : F.dir p with
  | none => rfl
  | some d => simp [h.find_update hp ht (dir_reach hd)]

end

end update

end Edit

end paths

end Forest

end RumKernel.Lib
