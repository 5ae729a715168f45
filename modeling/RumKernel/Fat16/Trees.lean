import RumKernel.Fat16.Consistency

/-!
# The tree after a mutation

What the valid plans of the mutations do to the tree of directories and byte strings: a new entry binds one
path, a changed entry changes the bytes at one path, a deleted entry unbinds one path.
-/

namespace RumKernel.Fat16
open Lib Fs

variable {x : Image} {p : Plan} {d n i id : Nat} {pre post new grow old : List Nat} {name k : Name} {e : Entry}
variable {eo : Entry} {q : List Name} {t t' : Tree} {c : List Name → Name → Prop} {v : Option Node} {y : Image}

/-! ## Searches -/

namespace Image

lemma Holds.tag_file {cs : List Nat} (h : x.Holds e cs) (hk : entryKind e = .file) (hn : entryName e = .ok name) :
    x.tag e = .named name := by
  rw [h.tag, hn]
  simp [tooLong, hk]

lemma Holds.tag_directory (h : x.Holds e [n]) (hn : entryName e = .ok name) : x.tag e = .named name := by
  have hc := x.geo.clusterBytes_le
  have ht : tooLong x.geo e [n].length = false := by
    unfold clusterSectorLimit at hc
    unfold tooLong directoryEntryLimit
    simp
    omega
  rw [h.tag, hn]
  simp only [ht, Bool.false_eq_true, if_false]

end Image

namespace Plan.Valid

section
variable (h : p.Valid x d pre post new grow old)
include h

lemma quiet : Image.Quiet x (p.cleared x) := h.prepared.trans h.cleared

lemma tree_final : (p.final x).tree = (p.published x).tree :=
  (h.agree.quiet h.put.sound').tree

lemma node_other {d' s : Nat} (ho : x.forest.Obj d' s e) : (p.published x).node e = x.node e := by
  rw [show (p.published x).node e = _ from h.put.node_other (h.quiet.same.obj.mpr ho), h.quiet.node ho]

lemma tree_created
    (hold : Image.liveOption ((p.cleared x).entry p.slot) = none) (hl : Image.liveOption p.entry = some p.entry)
    (ht : (p.cleared x).tag p.entry = .named k) (hc : Forest.Clear x.tag k (x.live d)) (q : List Name) (m : Name) :
    (p.published x).tree (q ++ [m]) =
      if x.forest.dir q = some d ∧ m = k then some ((p.published x).node p.entry) else x.tree (q ++ [m]) := by
  have hedit := h.put.edit
  rw [hold, hl] at hedit
  have hsame := h.quiet.same
  have hreach := hsame.reach.mp h.put.reach
  have hlive : (p.cleared x).live d = x.live d := hsame.kids d hreach
  have hclear : Forest.Clear (p.cleared x).forest.tag k
      (Image.Editable.front (p.cleared x) d pre ++ Image.Editable.back (p.cleared x) post) := by
    intro y hy
    have hm : y ∈ x.live d := by
      rw [← hlive, h.put.toEditable.live_old, hold]
      simpa [Forest.slotList] using hy
    have htag : (p.cleared x).forest.tag y.2 = x.tag y.2 := hsame.tag d y.1 y.2 ⟨hreach, hm⟩
    rw [htag]
    exact hc y hm
  have hnam := hedit.naming_create h.put.sound.proper hclear ht
  rw [Image.tree_snoc, Image.tree_snoc, ← hsame.dir]
  split
  · rename_i hd
    rw [hd.2]
    rw [show (p.published x).forest.entry q k = _ from hedit.entry_edited hnam hd.1]
    rfl
  · rename_i hd
    rw [show (p.published x).forest.entry q m = _ from hedit.entry_other hnam hd, hsame.entry]
    cases hf : x.forest.entry q m with
    | none => rfl
    | some y =>
      obtain ⟨d', -, ho, -⟩ := Forest.entry_obj hf
      simp [h.node_other ho]

lemma tree_updated
    (hold : Image.liveOption ((p.cleared x).entry p.slot) = some eo) (hl : Image.liveOption p.entry = some p.entry)
    (ht : (p.cleared x).tag p.entry = (p.cleared x).tag eo) (ho : subdirectory eo = none)
    (hn : subdirectory p.entry = none) (q : List Name) (m : Name) : (p.published x).tree (q ++ [m]) =
      if (x.forest.entry q m).map Prod.fst = some p.slot then some ((p.published x).node p.entry)
      else x.tree (q ++ [m]) := by
  have hedit := h.put.edit
  rw [hold, hl] at hedit
  have hsame := h.quiet.same
  rw [Image.tree_snoc, Image.tree_snoc,
    show (p.published x).forest.entry q m = _ from hedit.entry_update h.put.sound.proper ht ho hn, hsame.entry]
  cases hf : x.forest.entry q m with
  | none => rfl
  | some y =>
    obtain ⟨d', -, hobj, -⟩ := Forest.entry_obj hf
    simp only [Option.map_some, Option.some.injEq, Forest.Edit.updated]
    split
    · rfl
    · rw [h.node_other hobj]

lemma tree_removed (hx : p.cleared x = x)
    (hold : Image.liveOption (x.entry p.slot) = some eo) (hl : Image.liveOption p.entry = none)
    (ht : x.tag eo = .named k) (hclear : Forest.Clear x.tag k (x.read pre))
    (hone : ∀ y ∈ x.live d, x.tag y.2 = .named k → y.1 = p.slot) (q : List Name) (m : Name) :
    (p.published x).tree (q ++ [m]) = if x.forest.dir q = some d ∧ m = k then none else x.tree (q ++ [m]) := by
  have hedit := h.put.edit
  have hpub : (p.cleared x).withSlot p.slot p.entry = p.published x := rfl
  rw [hpub, hx, hold, hl] at hedit
  have hput := h.put
  rw [hx] at hput
  have hpre : Forest.Clear x.forest.tag k (Image.Editable.front x d pre) := fun y hy =>
    hclear y (List.mem_of_mem_drop (List.mem_filter.mp hy).1)
  have hpost : ∀ y ∈ Image.Editable.back x post, x.forest.tag y.2 ≠ .named k := by
    intro y hy hk
    have hslot : y.1 = p.slot := by
      refine hone y ?_ hk
      rw [hput.toEditable.live_old]
      simp [hy]
    exact (hedit.other_slot hput.sound.proper (s := y.1) (e := y.2) (.inr hy)).2 hslot
  have hnam := hedit.naming_remove hput.sound.proper hpre ht hpost
  rw [Image.tree_snoc, Image.tree_snoc]
  split
  · rename_i hd
    rw [hd.2, show (p.published x).forest.entry q k = _ from hedit.entry_edited hnam hd.1]
    rfl
  · rename_i hd
    rw [show (p.published x).forest.entry q m = _ from hedit.entry_other hnam hd]
    cases hf : x.forest.entry q m with
    | none => rfl
    | some y =>
      obtain ⟨d', -, ho, -⟩ := Forest.entry_obj hf
      simp [h.node_other ho]

end

end Plan.Valid

/-! ## Identifiers and paths -/

namespace Image

/-- The identifier of the object at a path. -/
def idAt (x : Image) (path : List Name) : Option Nat :=
  match path.getLast? with
  | none => some rootId
  | some m => (x.forest.entry path.dropLast m).map Prod.fst

@[simp] lemma idAt_nil : x.idAt [] = some rootId := rfl

@[simp] lemma idAt_snoc {q : List Name} {m : Name} : x.idAt (q ++ [m]) = (x.forest.entry q m).map Prod.fst := by
  simp [idAt]

lemma Sound.dir_iff (hs : x.Sound) (hd : DirId x id d) : x.forest.dir q = some d ↔ x.idAt q = some id := by
  rcases List.eq_nil_or_concat q with rfl | ⟨q, m, rfl⟩
  · rcases hd with ⟨rfl, rfl⟩ | ⟨p, e, ho, hk, he⟩
    · simp
    · have h2 := hs.two_le_slot ho.1 (mem_live ho.2).1
      have hr := hs.proper.not_root ho
      rw [forest_sub, subdirectory_eq_some.mpr ⟨hk, he⟩] at hr
      refine ⟨fun h => absurd h.symm hr, fun h => ?_⟩
      simp only [idAt_nil, rootId, Option.some.injEq] at h
      omega
  · rw [List.concat_eq_append, Forest.dir_snoc, idAt_snoc]
    cases hf : x.forest.entry q m with
    | none => simp
    | some y =>
      obtain ⟨d', -, hy, -⟩ := Forest.entry_obj hf
      have h2 := hs.two_le_slot hy.1 (mem_live hy.2).1
      rcases hd with ⟨rfl, rfl⟩ | ⟨p, e, ho, hk, he⟩
      · have hr := hs.proper.not_root hy
        refine ⟨fun h => absurd h hr, fun h => ?_⟩
        simp only [Option.map_some, rootId, Option.some.injEq] at h
        omega
      · have hsub : x.forest.sub e = some d := subdirectory_eq_some.mpr ⟨hk, he⟩
        constructor
        · intro h
          simp [hs.proper.entered hy ho h hsub]
        · intro h
          obtain rfl : y.1 = id := by simpa using h
          obtain ⟨-, rfl⟩ := hs.proper.slot hy ho
          exact hsub

lemma Sound.idAt_inj {r : List Name} (hs : x.Sound) (h : x.idAt q = some id) (h' : x.idAt r = some id) : q = r := by
  have hslot : ∀ {q : List Name} {m : Name}, x.idAt (q ++ [m]) ≠ some rootId := by
    intro q m h
    rw [idAt_snoc] at h
    obtain ⟨y, hf, hy⟩ := Option.map_eq_some_iff.mp h
    obtain ⟨d', -, ho, -⟩ := Forest.entry_obj hf
    have h2 := hs.two_le_slot ho.1 (mem_live ho.2).1
    rw [hy] at h2
    exact absurd h2 (by decide)
  rcases List.eq_nil_or_concat q with rfl | ⟨q, m, rfl⟩ <;> rcases List.eq_nil_or_concat r with rfl | ⟨r, n, rfl⟩
  · rfl
  · cases h
    exact absurd (by simpa using h') (hslot (q := r) (m := n))
  · cases h'
    exact absurd (by simpa using h) (hslot (q := q) (m := m))
  · rw [List.concat_eq_append, idAt_snoc] at h h'
    obtain ⟨y, hf, hy⟩ := Option.map_eq_some_iff.mp h
    obtain ⟨z, hf', hz⟩ := Option.map_eq_some_iff.mp h'
    obtain ⟨d, hd, ho, ht⟩ := Forest.entry_obj hf
    obtain ⟨d', hd', ho', ht'⟩ := Forest.entry_obj hf'
    obtain ⟨rfl, he⟩ := hs.proper.slot ho (hz.trans hy.symm ▸ ho')
    rw [he, ht'] at ht
    obtain rfl := Forest.dir_inj hs.proper hd hd'
    cases ht
    rfl

end Image

/-! ## Single changes -/

/-- The tree with one path changed. -/
def Tree.set (t : Tree) (path : List Name) (n : Option Node) : Tree := fun q => if q = path then n else t q

/-- Nothing is found below a path. -/
def Tree.Leaf (t : Tree) (path : List Name) : Prop := ∀ m, t (path ++ [m]) = none

/-- The tree differs from that of `x` at one path: the one made from the path that leads to `id`. It is the same
tree when no path leads to `id`. -/
structure Image.ChangesAt (x : Image) (id : Nat) (under : List Name → List Name) (n : Option Node) (t : Tree) :
    Prop where
  named : ∀ q, x.idAt q = some id → t = x.tree.set (under q) n
  unnamed : (∀ q, x.idAt q ≠ some id) → t = x.tree

lemma Tree.eq_set [∀ q m, Decidable (c q m)] {path : List Name}
    (h0 : t' [] = t []) (h : ∀ q m, t' (q ++ [m]) = if c q m then v else t (q ++ [m]))
    (hne : path ≠ []) (hc : ∀ q m, c q m ↔ q ++ [m] = path) : t' = t.set path v := by
  funext r
  rcases List.eq_nil_or_concat r with rfl | ⟨q, m, rfl⟩
  · rw [h0, Tree.set, if_neg hne.symm]
  · rw [List.concat_eq_append, h, Tree.set]
    exact if_congr (hc q m) rfl rfl

lemma Tree.eq_same [∀ q m, Decidable (c q m)]
    (h0 : t' [] = t []) (h : ∀ q m, t' (q ++ [m]) = if c q m then v else t (q ++ [m]))
    (hc : ∀ q m, ¬c q m) : t' = t := by
  funext r
  rcases List.eq_nil_or_concat r with rfl | ⟨q, m, rfl⟩
  · exact h0
  · rw [List.concat_eq_append, h, if_neg (hc q m)]

lemma Image.changesAt_name (hs : x.Sound) (hd : DirId x id d)
    (h : ∀ q m, y.tree (q ++ [m]) = if x.forest.dir q = some d ∧ m = k then v else x.tree (q ++ [m])) :
    x.ChangesAt id (· ++ [k]) v y.tree where
  named q hq := by
    refine Tree.eq_set rfl h (by simp) fun r m => ?_
    rw [hs.dir_iff hd]
    constructor
    · rintro ⟨hr, rfl⟩
      rw [hs.idAt_inj hq hr]
    · intro e
      obtain ⟨hqr, hmk⟩ := List.append_inj' e rfl
      exact ⟨hqr ▸ hq, (List.cons.inj hmk).1⟩
  unnamed hn := by
    refine Tree.eq_same rfl h fun q m hc => hn q ?_
    rw [← hs.dir_iff hd]
    exact hc.1

lemma Image.changesAt_slot (hs : x.Sound) (hid : id ≠ rootId)
    (h : ∀ q m, y.tree (q ++ [m]) = if (x.forest.entry q m).map Prod.fst = some id then v else x.tree (q ++ [m])) :
    x.ChangesAt id (fun q => q) v y.tree where
  named q hq := by
    refine Tree.eq_set rfl h ?_ fun r m => ?_
    · rintro rfl
      exact hid (Option.some.inj hq).symm
    · rw [← Image.idAt_snoc]
      exact ⟨fun e => hs.idAt_inj e hq, fun e => e ▸ hq⟩
  unnamed hn := Tree.eq_same rfl h fun q m hc => hn (q ++ [m]) (by rw [Image.idAt_snoc]; exact hc)

end RumKernel.Fat16
