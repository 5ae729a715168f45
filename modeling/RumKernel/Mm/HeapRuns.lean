import RumKernel.Mm.Blocks

/-!
# The kernel heap over whole runs

Every call keeps the block list in order and the window backed by pages, and a call that fails changes nothing but the
answers that are left.
-/

namespace RumKernel.Mm
open Function Lib

/-! ## Pages behind the window -/

section pages

variable {π : Type} [Pages π]

lemma addPages_eq (start fuel added : Nat) (s : π) : addPages start (fuel + 1) added s =
    if (Pages.allocatePage s).1 = 0 then (added, (Pages.allocatePage s).2)
    else
      let r := Pages.mapPage (Pages.allocatePage s).2 (start + added * pageSize) (Pages.allocatePage s).1
      if r.1 then addPages start fuel
        (added + 1) r.2 else (added, (Pages.freePage r.2 (Pages.allocatePage s).1).2) := rfl

end pages

/-- What the heap needs of its pages: the loops of `grow` back the window further, or take everything back. -/
class LawfulPages (π : Type) [Pages π] where
  /-- The window is backed up to so many bytes. -/
  Backs : π → Nat → Prop
  /-- Nothing has changed for the heap. -/
  Same : π → π → Prop
  same_refl : ∀ s, Same s s
  backs_same : ∀ {s s' mapped}, Backs s mapped → Same s s' → Backs s' mapped
  grows : ∀ {s s' mapped n}, Backs s mapped → mapped % pageSize = 0 → mapped + n * pageSize ≤ heapLimit →
    addPages (heapBase + mapped) n 0 s = (n, s') → Backs s' (mapped + n * pageSize)
  undone : ∀ {s s' mapped n added}, Backs s mapped → mapped % pageSize = 0 → mapped + n * pageSize ≤ heapLimit →
    addPages (heapBase + mapped) n 0 s = (added, s') → added ≠ n → Same s (dropPages (heapBase + mapped) added s')

namespace Supply

variable {s s' : Supply}

/-- The same pages and frames. -/
def Same (s s' : Supply) : Prop := s'.window = s.window ∧ s'.owned = s.owned

lemma dropPages_none {start n : Nat} (h : s.window (start + n * pageSize) = none) :
    dropPages start (n + 1) s = dropPages start n (s.unmapPage (start + n * pageSize)).2 := by
  have hpage : Pages.unmapPage s (start + n * pageSize) = (none, (s.unmapPage (start + n * pageSize)).2) :=
    Prod.ext h rfl
  rw [dropPages, hpage]

lemma dropPages_some {start n physical : Nat} (h : s.window (start + n * pageSize) = some physical) :
    dropPages start (n + 1) s = dropPages start n ((s.unmapPage (start + n * pageSize)).2.freePage physical).2 := by
  have hpage : Pages.unmapPage s (start + n * pageSize) = (some physical, (s.unmapPage (start + n * pageSize)).2) :=
    Prod.ext h rfl
  rw [dropPages, hpage]
  rfl

lemma Same.unmapPage (h : s.Same s') (a : Nat) : (s.unmapPage a).2.Same (s'.unmapPage a).2 := by
  refine ⟨?_, h.2⟩
  simp only [Supply.unmapPage, h.1]

lemma dropPages_same (h : s.Same s') (start n : Nat) : (dropPages start n s).Same (dropPages start n s') := by
  induction n generalizing s s' with
  | zero => exact h
  | succ n ih =>
    have hpage := h.unmapPage (start + n * pageSize)
    cases hp : s.window (start + n * pageSize) with
    | none =>
      rw [dropPages_none hp, dropPages_none (h.1 ▸ hp)]
      exact ih hpage
    | some physical =>
      rw [dropPages_some hp, dropPages_some (h.1 ▸ hp)]
      exact ih ⟨hpage.1, congrArg (List.erase · physical) hpage.2⟩

lemma allocatePage_cases (s : Supply) : (s.allocatePage.1 = 0 ∧ s.Same s.allocatePage.2) ∨
    ∃ physical, physical ≠ 0 ∧ s.allocatePage = (physical, { s with owned := physical :: s.owned }) := by
  unfold allocatePage
  split
  · exact .inl ⟨rfl, rfl, rfl⟩
  · exact .inl ⟨rfl, rfl, rfl⟩
  all_goals
    split
    · exact .inl ⟨rfl, rfl, rfl⟩
    · rename_i hp
      exact .inr ⟨_, hp, rfl⟩

lemma mapPage_cases {a : Nat} (physical : Nat) (hw : s.window a = none) :
    (∃ s', s.mapPage a physical = (false, s') ∧ s.Same s') ∨
    ∃ s', s.mapPage a physical = (true, s') ∧ s'.window = update s.window a (some physical) ∧ s'.owned = s.owned := by
  unfold mapPage
  rw [hw]
  split
  · exact .inr ⟨_, rfl, rfl, rfl⟩
  · exact .inl ⟨_, rfl, rfl, rfl⟩

lemma addPages_succ {start fuel added : Nat} (hw : s.window (start + added * pageSize) = none) :
    (∃ s', addPages start (fuel + 1) added s = (added, s') ∧ s.Same s') ∨
    ∃ s' physical, addPages start (fuel + 1) added s = addPages start fuel (added + 1) s' ∧
      s'.window = update s.window (start + added * pageSize) (some physical) ∧ s'.owned = physical :: s.owned := by
  rcases allocatePage_cases s with ⟨h0, hs⟩ | ⟨physical, hp, ha⟩
  · exact .inl ⟨s.allocatePage.2, if_pos h0, hs⟩
  · rw [addPages_eq, show Pages.allocatePage s = _ from ha, if_neg hp]
    rcases mapPage_cases (s := { s with owned := physical :: s.owned }) physical hw with ⟨s', hm, h1,
      h2⟩ | ⟨s', hm, h1, h2⟩
    · rw [show Pages.mapPage _ _ _ = _ from hm]
      refine .inl ⟨_, if_neg Bool.false_ne_true, h1, ?_⟩
      change s'.owned.erase physical = s.owned
      rw [h2]
      exact List.erase_cons_head ..
    · rw [show Pages.mapPage _ _ _ = _ from hm]
      exact .inr ⟨s', physical, if_pos rfl, h1, h2⟩

lemma dropPages_addPages {start fuel added : Nat} (hw : ∀ i, added ≤ i → s.window (start + i * pageSize) = none) :
    (dropPages start added s).Same
        (dropPages start (addPages start fuel added s).1 (addPages start fuel added s).2) := by
  induction fuel generalizing added s with
  | zero => exact ⟨rfl, rfl⟩
  | succ fuel ih =>
    have hstep := @addPages_succ s start fuel added (hw added (Nat.le_refl _))
    rcases hstep with ⟨s', he, hs⟩ | ⟨s', physical, he, hw', ho⟩
    · rw [he]
      exact dropPages_same hs ..
    · rw [he]
      have hnone : ∀ i, added + 1 ≤ i → s'.window (start + i * pageSize) = none := fun i hi => by
        have hne : start + i * pageSize ≠ start + added * pageSize := by
          simp only [pageSize]
          omega
        rw [hw', update_of_ne hne]
        exact hw i (by omega)
      -- the page that was added is dropped first
      have hlast : s'.window (start + added * pageSize) = some physical := by rw [hw', update_self]
      have hback : s.Same ((s'.unmapPage (start + added * pageSize)).2.freePage physical).2 := by
        refine ⟨?_, ?_⟩
        · change update s'.window _ none = _
          rw [hw', update_idem, update_eq_self_iff]
          exact (hw added (Nat.le_refl _)).symm
        · change s'.owned.erase physical = _
          rw [ho, List.erase_cons_head]
      obtain ⟨h1, h2⟩ := dropPages_same hback start added
      obtain ⟨h3, h4⟩ := ih hnone
      rw [dropPages_some hlast] at h3 h4
      exact ⟨h3.trans h1, h4.trans h2⟩

/-- The pages in the window are those up to `mapped`, each with a frame. -/
structure Backs (s : Supply) (mapped : Nat) : Prop where
  window : ∀ a, (s.window a).isSome = true ↔ a % pageSize = 0 ∧ heapBase ≤ a ∧ a < heapBase + mapped
  owned : s.owned.length * pageSize = mapped

lemma Backs.none {mapped i : Nat} (h : s.Backs mapped) (hi : mapped ≤ i) : s.window (heapBase + i) = none := by
  rw [← Option.not_isSome_iff_eq_none, h.window]
  omega

lemma Backs.addPages {mapped fuel added : Nat} (h : s.Backs (mapped + added * pageSize)) (hm : mapped % pageSize = 0) :
    (addPages (heapBase + mapped) fuel added s).2.Backs
      (mapped + (addPages (heapBase + mapped) fuel added s).1 * pageSize) := by
  induction fuel generalizing added s with
  | zero => exact h
  | succ fuel ih =>
    have hw : s.window (heapBase + mapped + added * pageSize) = Option.none := by
      rw [Nat.add_assoc]
      exact h.none (Nat.le_refl _)
    have hstep := @addPages_succ s (heapBase + mapped) fuel added hw
    rcases hstep with ⟨s', he, hs⟩ | ⟨s', physical, he, hw', ho⟩
    · rw [he]
      refine ⟨fun a => ?_, ?_⟩
      · rw [hs.1]
        exact h.window a
      · rw [hs.2]
        exact h.owned
    · rw [he]
      refine ih ⟨fun a => ?_, ?_⟩
      · have hbase : heapBase % pageSize = 0 := by decide
        rcases eq_or_ne a (heapBase + mapped + added * pageSize) with rfl | hne
        · rw [hw', update_self]
          simp only [Option.isSome_some, true_iff, pageSize] at hm hbase ⊢
          omega
        · rw [hw', update_of_ne hne, h.window a]
          simp only [pageSize] at hm hbase hne ⊢
          omega
      · rw [ho, List.length_cons, Nat.succ_mul, h.owned, Nat.succ_mul, Nat.add_assoc]

instance : LawfulPages Supply where
  Backs := Backs
  Same := Same
  same_refl _ := ⟨rfl, rfl⟩
  backs_same h hs := by
    refine ⟨fun a => ?_, ?_⟩
    · rw [hs.1]
      exact h.window a
    · rw [hs.2]
      exact h.owned
  grows {s s' mapped n} h hm _ he := by
    have hadd := @Backs.addPages s mapped n 0 (by simpa using h) hm
    rw [he] at hadd
    exact hadd
  undone {s s' mapped n added} h hm _ he _ := by
    have hdrop := @dropPages_addPages s (heapBase + mapped) n 0 fun i _ => by
      rw [Nat.add_assoc]
      exact h.none (Nat.le_add_right _ _)
    rw [he] at hdrop
    exact hdrop

end Supply

/-! ## The invariant -/

namespace Heap

lemma keeps_extend {π : Type} (h : Heap π) (growth : Nat) : (h.extend growth).mapped = h.mapped + growth ∧
    (h.extend growth).ready = h.ready ∧ (h.extend growth).data = h.data ∧ (h.extend growth).pages = h.pages := by
  unfold Heap.extend
  dsimp only
  split
  · split <;> exact ⟨rfl, rfl, rfl, rfl⟩
  · exact ⟨rfl, rfl, rfl, rfl⟩

section invariant

variable {π : Type} [Pages π] [LawfulPages π] {h h' : Heap π} {es xs ys : List Extent} {e d : Extent} {size : Nat}

/-- The invariant of the heap. -/
structure Tiled (h : Heap π) (es : List Extent) : Prop where
  holds : h.Holds es
  proper : Proper es
  bounded : h.mapped ≤ heapLimit
  paged : h.mapped % pageSize = 0
  backed : LawfulPages.Backs h.pages h.mapped
  nonempty : h.ready = true → es ≠ []

lemma Tiled.exists_last (ht : h.Tiled es) (hready : h.ready = true) : ∃ xs d, es = xs ++ [d] :=
  ⟨_, _, (List.dropLast_concat_getLast (ht.nonempty hready)).symm⟩

/-- Nothing has changed but the answers that are left. -/
def Unchanged (h h' : Heap π) : Prop := ∃ s, h' = { h with pages := s } ∧ LawfulPages.Same h.pages s

lemma Unchanged.refl (h : Heap π) : h.Unchanged h := ⟨h.pages, rfl, LawfulPages.same_refl _⟩

lemma Tiled.unchanged (ht : h.Tiled es) (hu : h.Unchanged h') : h'.Tiled es := by
  obtain ⟨s, rfl, hs⟩ := hu
  exact ⟨⟨ht.holds.row, ht.holds.first, ht.holds.last, ht.holds.mapped⟩, ht.proper, ht.bounded, ht.paged,
    LawfulPages.backs_same ht.backed hs, ht.nonempty⟩

lemma Tiled.keeps (ht : h.Tiled es) (hk : h.Keeps h') (hh : h'.Holds ys) (hp : Proper ys) (hne : ys ≠ []) :
    h'.Tiled ys where
  holds := hh
  proper := hp
  bounded := hk.mapped ▸ ht.bounded
  paged := hk.mapped ▸ ht.paged
  backed := hk.mapped ▸ hk.pages ▸ ht.backed
  nonempty _ := hne

lemma Tiled.grow (ht : h.Tiled es) (bytes : Nat) : (∃ h', h.grow bytes = (false, h') ∧ h.Unchanged h') ∨
    ∃ h' growth, h.grow bytes = (true, h') ∧ bytes ≤ growth ∧ (growth - headerSize) % heapAlignment = 0 ∧
      h'.Tiled (coalesce (es ++ [⟨growth - headerSize, true⟩])) ∧ h'.ready = h.ready ∧ h'.data = h.data := by
  unfold Heap.grow
  dsimp only
  generalize hgrowth : (bytes + pageSize - 1) / pageSize * pageSize = growth
  split
  · exact .inl ⟨h, rfl, .refl h⟩
  rename_i hc
  have hbounded := ht.bounded
  have hpaged := ht.paged
  obtain ⟨n, rfl, hn, hle⟩ : ∃ n, growth = n * pageSize ∧ 0 < n ∧ h.mapped + n * pageSize ≤ heapLimit := by
    refine ⟨_, hgrowth.symm, ?_, ?_⟩
    · refine Nat.pos_of_ne_zero fun h0 => hc (.inl ?_)
      rw [← hgrowth, h0, Nat.zero_mul]
    · rw [hgrowth]
      omega
  have hbytes : bytes ≤ n * pageSize := by
    have : n = (bytes + pageSize - 1) / pageSize := Nat.eq_of_mul_eq_mul_right (by decide) hgrowth.symm
    rw [this]
    simp only [pageSize]
    omega
  rw [Nat.mul_div_cancel _ (by decide)]
  rcases hadd : addPages (heapBase + h.mapped) n 0 h.pages with ⟨added, s⟩
  dsimp only
  split
  · rename_i hne
    refine .inl ⟨_, rfl, _, rfl, LawfulPages.undone ht.backed ht.paged hle hadd fun he => hne ?_⟩
    rw [he]
  · rename_i hne
    obtain rfl : added = n := Nat.eq_of_mul_eq_mul_right (by decide) (not_not.mp hne)
    have hsize : headerSize ≤ added * pageSize := by
      simp only [headerSize, pageSize]
      omega
    have hmod : (added * pageSize - headerSize) % heapAlignment = 0 := by
      simp only [headerSize, pageSize, heapAlignment]
      omega
    have hh : { h with pages := s }.Holds es := ⟨ht.holds.row, ht.holds.first, ht.holds.last, ht.holds.mapped⟩
    obtain ⟨k1, k2, k3, k4⟩ := keeps_extend { h with pages := s } (added * pageSize)
    refine .inr ⟨_, added * pageSize, rfl, hbytes, hmod,
      ⟨hh.extend ht.proper hsize hmod, ?_, ?_, ?_, ?_, fun _ => ?_⟩, k2, k3⟩
    · refine .coalesce fun d hd => ?_
      rcases List.mem_append.mp hd with hd | hd
      · exact ht.proper.aligned d hd
      · rw [List.mem_singleton.mp hd]
        exact hmod
    · rw [k1]
      exact hle
    · rw [k1]
      simp only [pageSize] at hpaged ⊢
      omega
    · rw [k1, k4]
      exact LawfulPages.grows ht.backed ht.paged hle hadd
    · intro hnil
      have hspan := congrArg span hnil
      rw [span_coalesce] at hspan
      simp only [span_append, span_cons, span_nil] at hspan
      have : 0 < headerSize := by decide
      omega

/-! ## Taking a block -/

lemma aligned_mod (size : Nat) : aligned size % heapAlignment = 0 := by
  unfold aligned
  split
  · rfl
  · exact Nat.mul_mod_left ..

lemma cut_proper (hx : Proper xs) (hy : Proper ys) (he : e.size % heapAlignment = 0) (hf : e.free = false)
    (hs : size % heapAlignment = 0) : Proper (xs ++ cut e size ys) := by
  unfold cut
  split
  · exact hx.insert hy hf he
  · refine hx.insert (hy.fuse ?_) hf hs
    change (e.size - size - headerSize) % heapAlignment = 0
    simp only [heapAlignment, headerSize] at he hs ⊢
    omega

lemma live_cut {a : Nat} (hf : e.free = false) (hs : size ≤ e.size) :
    ∃ d, size ≤ d ∧ live a (cut e size ys) = (a, d) :: live (a + (headerSize + e.size)) ys := by
  unfold cut
  split
  · exact ⟨e.size, hs, by rw [live_cons, hf]; rfl⟩
  · rename_i hc
    refine ⟨size, Nat.le_refl _, ?_⟩
    have ha : a + (headerSize + size) + (headerSize + (e.size - size - headerSize)) = a + (headerSize + e.size) := by
      simp only [headerSize, heapAlignment] at hc ⊢
      omega
    rw [live_cons, live_fuse, live_cons, ha, hf]
    rfl

lemma cut_ne_nil : xs ++ cut e size ys ≠ [] := by
  obtain ⟨d, zs, hcut⟩ := cut_cons e size ys
  rw [show cut e size ys = _ from hcut e.free]
  exact List.append_ne_nil_of_right_ne_nil _ (List.cons_ne_nil _ _)

/-- The answer of an allocation: nothing, or a block behind which the others stay. -/
def Allocated (h : Heap π) (es : List Extent) (r : Option Nat × Heap π) : Prop :=
  (r.1 = none ∧ h.Unchanged r.2) ∨
    ∃ p es', r.1 = some p ∧ r.2.Tiled es' ∧ ∀ x ∈ live heapBase es, x ∈ live heapBase es'

lemma Tiled.taken (ht : h.Tiled (xs ++ e :: ys)) (hs : size ≤ e.size) (hm : size % heapAlignment = 0) :
    (h.take (behind xs) size).2.Tiled (xs ++ cut ⟨e.size, false⟩ size ys) := by
  obtain ⟨hh, hk⟩ := ht.holds.take hs
  obtain ⟨px, py⟩ := ht.proper.append
  have pys : Proper ys := (show Proper ([e] ++ ys) from py).append.2
  exact ht.keeps hk hh (cut_proper px pys (py.aligned e (.head _)) rfl hm) cut_ne_nil

lemma Tiled.take (ht : h.Tiled (xs ++ e :: ys)) (hf : e.free = true) (hs : size ≤ e.size)
    (hm : size % heapAlignment = 0) : ∃ es', (h.take (behind xs) size).2.Tiled es' ∧
      ∀ x ∈ live heapBase (xs ++ e :: ys), x ∈ live heapBase es' := by
  refine ⟨_, ht.taken hs hm, fun x hx => ?_⟩
  obtain ⟨d, -, hd⟩ := @live_cut ys ⟨e.size, false⟩ size (heapBase + span xs) rfl hs
  rw [live_append, hd]
  rw [live_append, live_cons, hf] at hx
  rcases List.mem_append.mp hx with hx | hx
  · exact List.mem_append_left _ hx
  · exact List.mem_append_right _ (.tail _ hx)

lemma coalesce_last (hp : Proper (xs ++ [d])) (he : e.size % heapAlignment = 0) :
    coalesce (xs ++ [d] ++ [e]) = xs ++ fuse d [e] := by
  have hfuse : Proper (xs ++ fuse d [e]) := hp.fuse_append ⟨fun c hc => List.mem_singleton.mp hc ▸ he, .singleton _⟩
  rw [List.append_assoc, coalesce_append]
  exact foldr_fuse hfuse

lemma grown_last {growth needed : Nat} (hneeded : needed = if d.free then size - d.size else size + headerSize)
    (hg : needed ≤ growth) : ∃ zs c, xs ++ fuse d [⟨growth - headerSize, true⟩] = zs ++ [c] ∧ c.free = true ∧
        size ≤ c.size := by
  cases hd : d.free with
  | true =>
    rw [hd, if_pos rfl] at hneeded
    refine ⟨xs, d.join ⟨growth - headerSize, true⟩, ?_, hd, ?_⟩
    · rw [fuse_cons, hd]
      rfl
    · change size ≤ d.size + (headerSize + (growth - headerSize))
      omega
  | false =>
    rw [hd, if_neg Bool.false_ne_true] at hneeded
    refine ⟨xs ++ [d], ⟨growth - headerSize, true⟩, ?_, rfl, ?_⟩
    · rw [fuse_used hd, List.append_assoc]
      rfl
    · change size ≤ growth - headerSize
      omega

omit [Pages π] [LawfulPages π] in
lemma Holds.fits (hh : h.Holds (xs ++ e :: ys))
    (hP : ((h.headers (behind xs)).free && decide (size ≤ (h.headers (behind xs)).size)) = true) :
    e.free = true ∧ size ≤ e.size := by
  obtain ⟨hf, hs⟩ := Bool.and_eq_true_iff.mp hP
  exact ⟨(congrArg Extent.free hh.header).symm.trans hf,
    (of_decide_eq_true hs).trans_eq (congrArg Extent.size hh.header)⟩

lemma Tiled.allocate (ht : h.Tiled es) (bytes : Nat) : h.Allocated es (h.allocate bytes) := by
  have hm := aligned_mod bytes
  unfold Heap.allocate
  generalize aligned bytes = size at hm ⊢
  dsimp only
  split
  · exact .inl ⟨rfl, .refl h⟩
  rename_i hready
  have hready : h.ready = true := by
    cases hr : h.ready with
    | true => rfl
    | false => exact absurd (by rw [hr]; rfl) hready
  rcases ht.holds.walk (P := fun _ header => header.free && decide (size ≤ header.size)) ht.bounded with
    ⟨xs, e, ys, rfl, hP, hw⟩ | ⟨-, hw⟩
  · rw [hw]
    obtain ⟨hf, hs⟩ := ht.holds.fits hP
    obtain ⟨es', ht', hl⟩ := ht.take hf hs hm
    exact .inr ⟨_, es', rfl, ht', hl⟩
  · rw [hw]
    obtain ⟨xs, d, rfl⟩ := ht.exists_last hready
    rw [ht.holds.last_block]
    dsimp only
    have hd := ht.holds.header
    rw [free_of_extent hd, size_of_extent hd]
    rcases ht.grow (if d.free then size - d.size else size + headerSize) with
      ⟨h', hg, hu⟩ | ⟨h', growth, hg, hle, hmod, ht', -, -⟩
    · rw [hg]
      exact .inl ⟨rfl, hu⟩
    · rw [hg]
      rw [coalesce_last ht.proper hmod] at ht'
      obtain ⟨zs, c, hz, hc, hs⟩ := grown_last rfl hle
      rw [hz] at ht'
      dsimp only
      rw [ht'.holds.last_block]
      obtain ⟨es', ht'', hl⟩ := ht'.take hc hs hm
      refine .inr ⟨_, es', rfl, ht'', fun x hx => hl x ?_⟩
      rw [← hz, live_append, live_fuse, ← live_append, List.append_cons, live_append]
      exact List.mem_append_left _ hx

/-! ## Giving a block up -/

lemma exists_of_mem_live {a n : Nat} (hx : (a, n) ∈ live heapBase es) :
    ∃ xs e ys, es = xs ++ e :: ys ∧ a = behind xs ∧ e.free = false ∧ e.size = n := by
  obtain ⟨x, hx, hn⟩ := List.mem_map.mp hx
  obtain ⟨hx, hf⟩ := List.mem_filter.mp hx
  obtain ⟨xs, ys, hes, ha⟩ := exists_of_mem_place hx
  cases hn
  exact ⟨xs, x.2, ys, hes, ha, by simpa using hf, rfl⟩

lemma mem_live (hf : e.free = false) : (behind xs, e.size) ∈ live heapBase (xs ++ e :: ys) := by
  rw [live_append, live_cons, hf]
  exact List.mem_append_right _ (.head _)

lemma Tiled.find (ht : h.Tiled es) (pointer : Nat) : h.find pointer = none ∨
    ∃ xs e ys, es = xs ++ e :: ys ∧ e.free = false ∧ h.find pointer = some (behind xs) := by
  rcases ht.holds.walk (P := fun block header => block + headerSize == pointer && !header.free) ht.bounded with
    ⟨xs, e, ys, rfl, hP, hw⟩ | ⟨-, hw⟩
  · have hP := (Bool.and_eq_true_iff.mp hP).2
    rw [free_of_extent ht.holds.header] at hP
    exact .inr ⟨xs, e, ys, rfl, by simpa using hP, hw⟩
  · exact .inl hw

lemma Tiled.release (ht : h.Tiled (xs ++ e :: ys)) :
    (h.release (behind xs)).Tiled (coalesce (xs ++ ⟨e.size, true⟩ :: ys)) := by
  obtain ⟨hh, hk⟩ := ht.holds.release ht.proper
  refine ht.keeps hk hh (.coalesce fun d hd => ?_) fun hnil => ?_
  · rcases List.mem_append.mp hd with hd | hd
    · exact ht.proper.aligned d (List.mem_append_left _ hd)
    · rcases List.mem_cons.mp hd with rfl | hd
      · exact ht.proper.aligned e (by simp)
      · exact ht.proper.aligned d (by simp [hd])
  · have hspan := congrArg span hnil
    rw [span_coalesce, span_append, span_cons, span_nil] at hspan
    have : 0 < headerSize := by decide
    omega

/-! ## The calls -/

/-- What a call does: it fails and changes nothing, or leaves a heap in order. -/
def Answered (h : Heap π) (r : Bool × Heap π) : Prop :=
  (r.1 = false ∧ h.Unchanged r.2) ∨ (r.1 = true ∧ ∃ es, r.2.Tiled es)

lemma Allocated.answered {r : Option Nat × Heap π} (hr : h.Allocated es r) : h.Answered (r.1.isSome, r.2) := by
  rcases hr with ⟨hn, hu⟩ | ⟨p, es', hp, ht, -⟩
  · exact .inl ⟨by rw [hn]; rfl, hu⟩
  · exact .inr ⟨by rw [hp]; rfl, es', ht⟩

lemma Tiled.copied (ht : h.Tiled es) (data : Nat → UInt8) : { h with data }.Tiled es :=
  ⟨⟨ht.holds.row, ht.holds.first, ht.holds.last, ht.holds.mapped⟩, ht.proper, ht.bounded, ht.paged, ht.backed,
    ht.nonempty⟩

lemma Tiled.kcalloc (ht : h.Tiled es) (count bytes : Nat) :
    h.Answered ((h.kcalloc count bytes).1.isSome, (h.kcalloc count bytes).2) := by
  unfold Heap.kcalloc
  split
  · exact .inl ⟨rfl, .refl h⟩
  · have ha := ht.allocate (count * bytes)
    unfold Heap.kmalloc
    rcases hr : h.allocate (count * bytes) with ⟨_ | p, h'⟩
    · rw [hr] at ha
      exact ha.answered
    · rw [hr] at ha
      rcases ha with ⟨hn, -⟩ | ⟨_, es', -, ht', -⟩
      · cases hn
      · exact .inr ⟨rfl, es', ht'.copied _⟩

lemma Tiled.kfree (ht : h.Tiled es) (pointer : Option Nat) : h.Answered (h.kfree pointer) := by
  cases pointer with
  | none => exact .inr ⟨rfl, es, ht⟩
  | some pointer =>
    unfold Heap.kfree
    dsimp only
    rcases ht.find pointer with hf | ⟨xs, e, ys, rfl, -, hf⟩
    · rw [hf]
      exact .inl ⟨rfl, .refl h⟩
    · rw [hf]
      exact .inr ⟨rfl, _, ht.release⟩

lemma Tiled.split (ht : h.Tiled (xs ++ e :: ys)) (hf : e.free = false) (hs : size ≤ e.size)
    (hm : size % heapAlignment = 0) : (h.split (behind xs) size).Tiled (xs ++ cut e size ys) := by
  obtain ⟨hh, hk⟩ := ht.holds.split hs
  obtain ⟨px, py⟩ := ht.proper.append
  have pys : Proper ys := (show Proper ([e] ++ ys) from py).append.2
  exact ht.keeps hk hh (cut_proper px pys (py.aligned e (.head _)) hf hm) cut_ne_nil

lemma Tiled.joinNext (ht : h.Tiled (xs ++ e :: d :: ys)) (hf : e.free = false) :
    (h.joinNext (behind xs)).Tiled (xs ++ e.join d :: ys) := by
  obtain ⟨hh, hk⟩ := ht.holds.joinNext
  obtain ⟨px, py⟩ := ht.proper.append
  have pys : Proper ys := (show Proper ([e, d] ++ ys) from py).append.2
  have he := py.aligned e (.head _)
  have hd := py.aligned d (.tail _ (.head _))
  refine ht.keeps hk hh (px.insert pys hf ?_) (List.append_ne_nil_of_right_ne_nil _ (List.cons_ne_nil _ _))
  change (e.size + (headerSize + d.size)) % heapAlignment = 0
  simp only [heapAlignment, headerSize] at he hd ⊢
  omega

lemma Tiled.resize (ht : h.Tiled (xs ++ e :: ys)) (hf : e.free = false) {wanted pointer : Nat}
    (hm : wanted % heapAlignment = 0) :
    h.Answered ((h.resize pointer (behind xs) wanted).1.isSome, (h.resize pointer (behind xs) wanted).2) := by
  have hsize : (h.headers (behind xs)).size = e.size := congrArg Extent.size ht.holds.header
  unfold Heap.resize
  dsimp only
  rw [hsize, ht.holds.next]
  split
  · rename_i hw
    exact .inr ⟨rfl, _, ht.split hf hw hm⟩
  split
  · rename_i hw
    -- The next block is free, so there is one.
    cases ys with
    | nil => exact absurd (Bool.and_eq_true_iff.mp hw).1 Bool.false_ne_true
    | cons d ys =>
      have hw := of_decide_eq_true (Bool.and_eq_true_iff.mp hw).2
      rw [following_place (List.cons_ne_nil _ _), Option.getD_some,
        show (h.headers (behind xs + (headerSize + e.size))).size = d.size from
          congrArg Extent.size ht.holds.next_header] at hw
      refine .inr ⟨rfl, _, (ht.joinNext hf).split hf ?_ hm⟩
      change wanted ≤ e.size + (headerSize + d.size)
      omega
  · have ha := ht.allocate wanted
    rcases hr : h.allocate wanted with ⟨_ | result, h'⟩
    · rw [hr] at ha
      exact ha.answered
    · rw [hr] at ha
      rcases ha with ⟨hn, -⟩ | ⟨_, es', -, ht', hl⟩
      · cases hn
      -- The old block is still in use where it was.
      · obtain ⟨xs', e', ys', rfl, hb, -, -⟩ := exists_of_mem_live (hl _ (mem_live hf))
        rw [hb]
        exact .inr ⟨rfl, _, (ht'.copied _).release⟩

lemma Tiled.krealloc (ht : h.Tiled es) (pointer : Option Nat) (bytes : Nat) :
    h.Answered ((HeapCall.krealloc pointer bytes).perform h) := by
  unfold HeapCall.perform Heap.krealloc
  cases pointer with
  | none => exact (ht.allocate bytes).answered
  | some pointer =>
    dsimp only
    by_cases h0 : bytes = 0
    · subst h0
      exact ht.kfree (some pointer)
    · have hb : (bytes == 0) = false := beq_false_of_ne h0
      rw [if_neg h0, hb, Bool.and_false, if_neg Bool.false_ne_true]
      rcases ht.find pointer with hf | ⟨xs, e, ys, rfl, he, hf⟩
      · rw [hf]
        exact .inl ⟨rfl, .refl h⟩
      · rw [hf]
        dsimp only
        split
        · exact .inl ⟨rfl, .refl h⟩
        · exact ht.resize he (aligned_mod bytes)

lemma Tiled.perform (ht : h.Tiled es) (call : HeapCall) : h.Answered (call.perform h) := by
  cases call with
  | kmalloc bytes => exact (ht.allocate bytes).answered
  | kcalloc count bytes => exact ht.kcalloc count bytes
  | krealloc pointer bytes => exact ht.krealloc pointer bytes
  | kfree pointer => exact ht.kfree pointer

lemma Answered.tiled {r : Bool × Heap π} (ht : h.Tiled es) (hr : h.Answered r) : ∃ es', r.2.Tiled es' := by
  rcases hr with ⟨-, hu⟩ | ⟨-, ht'⟩
  · exact ⟨es, ht.unchanged hu⟩
  · exact ht'

end invariant

/-! ## The block list -/

section blocks

variable {π : Type} {h : Heap π} {p : Option Nat} {a : Nat} {es : List Extent}

def rowBlocks (h : Heap π) (a : Nat) (es : List Extent) : List (Nat × Block) :=
  (place a es).map fun x => (x.1, h.headers x.1)

lemma rowBlocks_cons {e : Extent} :
    h.rowBlocks a (e :: es) = (a, h.headers a) :: h.rowBlocks (a + (headerSize + e.size)) es :=
  rfl

/-- Two blocks one behind the other: the second starts where the first ends, their links agree, and not both are free.
-/
def Neighbours (x y : Nat × Block) : Prop :=
  y.1 = x.1 + headerSize + x.2.size ∧ x.2.next = some y.1 ∧ y.2.previous = some x.1 ∧
    ¬(x.2.free = true ∧ y.2.free = true)

section
variable (hr : h.Row p a es none)
include hr

lemma Row.neighbours (hp : Proper es) : (h.rowBlocks a es).IsChain Neighbours := by
  induction es generalizing p a with
  | nil => exact .nil
  | cons e es ih =>
    cases es with
    | nil => exact .singleton _
    | cons d es =>
      obtain ⟨h1, -, h3, h4⟩ := row_cons.mp hr
      obtain ⟨d1, d2, -, -⟩ := row_cons.mp h4
      have happ := (List.isChain_cons_cons.mp hp.apart)
      rw [rowBlocks_cons, rowBlocks_cons]
      refine List.isChain_cons_cons.mpr ⟨⟨?_, h3, d2, ?_⟩, ?_⟩
      · change a + (headerSize + e.size) = a + headerSize + (h.headers a).size
        rw [size_of_extent h1, Nat.add_assoc]
      · rw [free_of_extent h1,
          show (h.headers (a + (headerSize + e.size))).free = d.free from congrArg Extent.free d1]
        exact happ.1
      · exact ih h4 ⟨fun c hc => hp.aligned c (.tail _ hc), happ.2⟩

lemma Row.disjoint : (h.rowBlocks a es).Pairwise fun x y => x.1 + headerSize + x.2.size ≤ y.1 := by
  induction es generalizing p a with
  | nil => exact .nil
  | cons e es ih =>
    obtain ⟨h1, -, -, h4⟩ := row_cons.mp hr
    rw [rowBlocks_cons]
    refine List.pairwise_cons.mpr ⟨fun y hy => ?_, ih h4⟩
    obtain ⟨x, hx, rfl⟩ := List.mem_map.mp hy
    have hle := (mem_place hx).1
    rw [size_of_extent h1]
    omega

lemma Row.foot :
    ∀ x ∈ (h.rowBlocks a es).getLast?, x.2.next = none ∧ x.1 + headerSize + x.2.size = a + span es := by
  induction es generalizing p a with
  | nil => nofun
  | cons e es ih =>
    obtain ⟨h1, -, h3, h4⟩ := row_cons.mp hr
    intro x hx
    cases es with
    | nil =>
      cases hx
      refine ⟨h3, ?_⟩
      change a + headerSize + (h.headers a).size = _
      rw [size_of_extent h1, span_cons, span_nil]
      omega
    | cons d es =>
      obtain ⟨hn, he⟩ := ih h4 x hx
      refine ⟨hn, ?_⟩
      rw [span_cons]
      omega

lemma Row.extent : ∀ x ∈ h.rowBlocks a es, (x.1, x.2.extent) ∈ place a es := by
  induction es generalizing p a with
  | nil => nofun
  | cons e es ih =>
    obtain ⟨h1, -, -, h4⟩ := row_cons.mp hr
    intro x hx
    rcases List.mem_cons.mp hx with rfl | hx
    · rw [place, h1]
      exact .head _
    · exact .tail _ (ih h4 x hx)

lemma Row.total :
    ((h.rowBlocks a es).map fun x => x.2.size).sum + headerSize * (h.rowBlocks a es).length = span es := by
  induction es generalizing p a with
  | nil => rfl
  | cons e es ih =>
    obtain ⟨h1, -, -, h4⟩ := row_cons.mp hr
    have := ih h4
    rw [rowBlocks_cons, List.map_cons, List.sum_cons, List.length_cons, span_cons, Nat.mul_succ,
      size_of_extent h1]
    omega

end

lemma span_aligned (hes : ∀ e ∈ es, e.size % heapAlignment = 0) : span es % heapAlignment = 0 := by
  induction es with
  | nil => rfl
  | cons e es ih =>
    have h1 := ih fun d hd => hes d (.tail _ hd)
    have h2 := hes e (.head _)
    rw [span_cons]
    simp only [heapAlignment, headerSize] at h1 h2 ⊢
    omega

lemma stats_loop (xs : List (Nat × Block)) (stats : HeapStatistics) :
    let r := xs.foldl (fun stats block =>
      if block.2.free then { stats with freeBytes := stats.freeBytes + block.2.size }
      else { stats with usedBytes := stats.usedBytes + block.2.size, allocations := stats.allocations + 1 }) stats
    r.mappedBytes = stats.mappedBytes ∧
      r.usedBytes + r.freeBytes = stats.usedBytes + stats.freeBytes + (xs.map fun x => x.2.size).sum := by
  induction xs generalizing stats with
  | nil => exact ⟨rfl, rfl⟩
  | cons x xs ih =>
    dsimp only
    rw [List.foldl_cons, List.map_cons, List.sum_cons]
    split
    · obtain ⟨h1, h2⟩ := ih { stats with freeBytes := stats.freeBytes + x.2.size }
      exact ⟨h1, h2.trans (by dsimp only; omega)⟩
    · obtain ⟨h1, h2⟩ := ih { stats with usedBytes := stats.usedBytes + x.2.size, allocations := stats.allocations + 1 }
      exact ⟨h1, h2.trans (by dsimp only; omega)⟩

lemma blockLoop_pages (s : π) (fuel : Nat) (block : Option Nat) :
    { h with pages := s }.blockLoop fuel block = h.blockLoop fuel block := by
  induction fuel generalizing block with
  | zero => rfl
  | succ fuel ih =>
    cases block with
    | none => rfl
    | some block => exact congrArg (_ :: ·) (ih _)

end blocks

/-- A heap in order, in terms of its block list. -/
structure Structured (h : Heap Supply) : Prop where
  first : h.first = h.blocks.head?.map Prod.fst
  last : h.last = h.blocks.getLast?.map Prod.fst
  head : ∀ x ∈ h.blocks.head?, x.1 = heapBase ∧ x.2.previous = none
  neighbours : h.blocks.IsChain Neighbours
  foot : ∀ x ∈ h.blocks.getLast?, x.2.next = none ∧ x.1 + headerSize + x.2.size = heapBase + h.mapped
  sizes : ∀ x ∈ h.blocks, x.2.size % 16 = 0
  payloads : ∀ x ∈ h.blocks, (x.1 + headerSize) % 16 = 0
  disjoint : h.blocks.Pairwise fun x y => x.1 + headerSize + x.2.size ≤ y.1
  total : h.heapStats.usedBytes + h.heapStats.freeBytes + headerSize * h.blocks.length = h.mapped
  stats : h.heapStats.mappedBytes = h.mapped
  bounded : h.mapped ≤ heapLimit
  backed : h.pages.Backs h.mapped
  ready : h.ready = true → h.blocks ≠ []

/-- Two heaps have the same blocks, the same mapped range and the same frames. -/
structure Alike (h h' : Heap Supply) : Prop where
  blocks : h'.blocks = h.blocks
  first : h'.first = h.first
  last : h'.last = h.last
  mapped : h'.mapped = h.mapped
  window : h'.pages.window = h.pages.window
  owned : h'.pages.owned = h.pages.owned

variable {h h' : Heap Supply} {es : List Extent}

lemma Tiled.structured (ht : h.Tiled es) : h.Structured := by
  have hr := ht.holds.row
  have hb : h.blocks = h.rowBlocks heapBase es := ht.holds.blocks ht.bounded
  have hs := stats_loop h.blocks { mappedBytes := h.mapped }
  refine ⟨?_, ?_, ?_, ?_, ?_, ?_, ?_, ?_, ?_, hs.1, ht.bounded, ht.backed, ?_⟩
  · rw [hb, ht.holds.first]
    cases es <;> rfl
  · rw [hb, ht.holds.last, rowBlocks, List.getLast?_map, Option.map_map]
    exact Option.or_none ..
  · rw [hb]
    intro x hx
    cases es with
    | nil => cases hx
    | cons e es =>
      cases hx
      exact ⟨rfl, (row_cons.mp hr).2.1⟩
  · exact hb ▸ hr.neighbours ht.proper
  · rw [hb, ht.holds.mapped]
    exact hr.foot
  · intro x hx
    rw [hb] at hx
    obtain ⟨xs, ys, hes, -⟩ := exists_of_mem_place (hr.extent x hx)
    exact ht.proper.aligned x.2.extent (by rw [hes]; simp)
  · intro x hx
    rw [hb] at hx
    obtain ⟨xs, ys, hes, ha⟩ := exists_of_mem_place (hr.extent x hx)
    have hxs := span_aligned fun d hd => ht.proper.aligned d (by rw [hes]; exact List.mem_append_left _ hd)
    dsimp only at ha
    rw [ha]
    simp only [heapAlignment, headerSize, heapBase] at hxs ⊢
    omega
  · exact hb ▸ hr.disjoint
  · have htotal := hr.total
    rw [← hb, ← ht.holds.mapped] at htotal
    have := hs.2
    change h.heapStats.usedBytes + h.heapStats.freeBytes = 0 + 0 + _ at this
    omega
  · intro hready hnil
    refine ht.nonempty hready (List.eq_nil_of_length_eq_zero ?_)
    have hlen := congrArg List.length (hb.symm.trans hnil)
    rw [rowBlocks, List.length_map] at hlen
    cases es with
    | nil => rfl
    | cons e es => cases hlen

lemma tiled_initial (answers : List PageAnswer) : (initial answers).Tiled [] where
  holds := ⟨trivial, rfl, rfl, rfl⟩
  proper := .nil
  bounded := Nat.zero_le _
  paged := Nat.zero_mod _
  backed := by
    refine ⟨fun a => ⟨nofun, fun ha => ?_⟩, Nat.zero_mul _⟩
    have hlt : a < heapBase + 0 := ha.2.2
    omega
  nonempty := nofun

section
variable (ht : h.Tiled es)
include ht

lemma Tiled.heapInitialize : ∃ es', h.heapInitialize.2.Tiled es' := by
  unfold Heap.heapInitialize
  split
  · exact ⟨es, ht⟩
  · rcases ht.grow pageSize with ⟨h', hg, hu⟩ | ⟨h', growth, hg, -, -, ht', -, -⟩
    · rw [hg]
      exact ⟨es, ht.unchanged hu⟩
    · rw [hg]
      refine ⟨_, ⟨ht'.holds.row, ht'.holds.first, ht'.holds.last, ht'.holds.mapped⟩, ht'.proper, ht'.bounded, ht'.paged,
        ht'.backed, fun _ hnil => ?_⟩
      have hspan := congrArg span hnil
      rw [span_coalesce, span_append, span_cons, span_nil] at hspan
      have : 0 < headerSize := by decide
      omega

lemma Tiled.answers (answers : List PageAnswer) : { h with pages := { h.pages with answers } }.Tiled es :=
  ht.unchanged ⟨_, rfl, rfl, rfl⟩

lemma Tiled.step (call : HeapCall) (answers : List PageAnswer) : ∃ es', (h.step call answers).2.Tiled es' :=
  ((ht.answers answers).perform call).tiled (ht.answers answers)

lemma Tiled.run (calls : List (HeapCall × List PageAnswer)) : ∃ es', (h.run calls).Tiled es' := by
  induction calls generalizing h es with
  | nil => exact ⟨es, ht⟩
  | cons call calls ih =>
    obtain ⟨es', ht'⟩ := ht.step call.1 call.2
    exact ih ht'

lemma Tiled.failed {call : HeapCall} {answers : List PageAnswer} (hf : (h.step call answers).1 = false) :
    h.Alike (h.step call answers).2 := by
  rcases (ht.answers answers).perform call with ⟨-, s, hs, hw, ho⟩ | ⟨hok, -⟩
  · have hs : (h.step call answers).2 = { h with pages := s } := hs
    rw [hs]
    exact ⟨blockLoop_pages .., rfl, rfl, rfl, hw, ho⟩
  · exact absurd (hf.symm.trans hok) Bool.false_ne_true

end

/-- The heap is in order behind `heap_initialize` and every sequence of calls, whatever pages they find, and a call that
fails leaves the blocks, the mapped range and the frames as they were. -/
theorem heap_structure (answers : List PageAnswer) (calls : List (HeapCall × List PageAnswer)) :
    ((initial answers).heapInitialize.2.run calls).Structured ∧
      ∀ call answers', (((initial answers).heapInitialize.2.run calls).step call answers').1 = false →
        ((initial answers).heapInitialize.2.run calls).Alike
          (((initial answers).heapInitialize.2.run calls).step call answers').2 := by
  obtain ⟨es, ht⟩ := (tiled_initial answers).heapInitialize
  obtain ⟨es', ht'⟩ := ht.run calls
  exact ⟨ht'.structured, fun call answers' hf => ht'.failed hf⟩

end Heap

end RumKernel.Mm
