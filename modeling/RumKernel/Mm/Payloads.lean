import RumKernel.Mm.Arena

/-!
# The payloads of the heap

What the functions of `heap.c` do to the blocks in use and to the bytes behind their headers. A block in use is an
address with a size; a function is described by the blocks in use behind it and by the payloads that it leaves alone.
-/

namespace RumKernel.Mm
open Function Lib

variable {bytes c : Nat}

/-! ## Where the blocks lie -/

namespace Heap

section places

variable {a b n : Nat} {es xs ys : List Extent} {e : Extent} {x y : Nat × Extent}

lemma place_apart (hx : x ∈ place a es) (hy : y ∈ place a es) :
    x = y ∨ x.1 + (headerSize + x.2.size) ≤ y.1 ∨ y.1 + (headerSize + y.2.size) ≤ x.1 := by
  induction es generalizing a with
  | nil => cases hx
  | cons e es ih =>
    rcases List.mem_cons.mp hx with rfl | hx
    · rcases List.mem_cons.mp hy with rfl | hy
      · exact .inl rfl
      · exact .inr (.inl (mem_place hy).1)
    · rcases List.mem_cons.mp hy with rfl | hy
      · exact .inr (.inr (mem_place hx).1)
      · exact ih hx hy

lemma mem_live_iff : (b, n) ∈ live a es ↔ (b, ⟨n, false⟩) ∈ place a es := by
  unfold live
  constructor
  · intro h
    obtain ⟨⟨c, e⟩, hx, he⟩ := List.mem_map.mp h
    obtain ⟨hx, hf⟩ := List.mem_filter.mp hx
    cases he
    have he : e = ⟨e.size, false⟩ := Extent.ext rfl (by simpa using hf)
    rwa [he] at hx
  · intro h
    exact List.mem_map.mpr ⟨_, List.mem_filter.mpr ⟨h, rfl⟩, rfl⟩

lemma live_size {m : Nat} (hn : (b, n) ∈ live a es) (hm : (b, m) ∈ live a es) : n = m := by
  have : 0 < headerSize := by decide
  rcases place_apart (mem_live_iff.mp hn) (mem_live_iff.mp hm) with h | h | h
  · cases h
    rfl
  · dsimp only at h
    omega
  · dsimp only at h
    omega

lemma live_apart {m : Nat} (hb : (b, n) ∈ live a es) (hc : (c, m) ∈ live a es) (hne : b ≠ c) :
    b + headerSize + n ≤ c ∨ c + headerSize + m ≤ b := by
  rcases place_apart (mem_live_iff.mp hb) (mem_live_iff.mp hc) with h | h | h
  · cases h
    exact absurd rfl hne
  · exact .inl (by dsimp only at h; omega)
  · exact .inr (by dsimp only at h; omega)

/-- Where the headers of a list of extents are. -/
def slots (es : List Extent) : List Nat := (place heapBase es).map Prod.fst

lemma mem_slots (h : b ∈ slots es) : ∃ xs e ys, es = xs ++ e :: ys ∧ b = behind xs := by
  obtain ⟨x, hx, rfl⟩ := List.mem_map.mp h
  obtain ⟨xs, ys, hes, hb⟩ := exists_of_mem_place hx
  exact ⟨xs, x.2, ys, hes, hb⟩

lemma mem_place_behind : (behind xs, e) ∈ place heapBase (xs ++ e :: ys) := by
  rw [place_append]
  exact List.mem_append_right _ (.head _)

lemma behind_mem_slots : behind xs ∈ slots (xs ++ e :: ys) := List.mem_map.mpr ⟨_, mem_place_behind, rfl⟩

lemma slot_clear (ha : a ∈ slots es) (hb : (b, n) ∈ live heapBase es) : a ≤ b ∨ b + headerSize + n ≤ a := by
  obtain ⟨x, hx, rfl⟩ := List.mem_map.mp ha
  rcases place_apart hx (mem_live_iff.mp hb) with h | h | h
  · exact .inl (h ▸ Nat.le_refl _)
  · exact .inl (by dsimp only at h; omega)
  · exact .inr (by dsimp only at h; omega)

lemma slot_aligned (hp : Proper es) (ha : a ∈ slots es) : a % heapAlignment = 0 := by
  obtain ⟨xs, e, ys, rfl, rfl⟩ := mem_slots ha
  have hxs := span_aligned hp.append.1.aligned
  simp only [behind, heapAlignment, heapBase] at hxs ⊢
  omega

end places

variable {π : Type} [Pages π] [LawfulPages π] {h h' : Heap π} {es : List Extent} {a n : Nat}

section
variable (ht : h.Tiled es)
include ht

lemma Tiled.next_slot (ha : a ∈ slots es) (hn : (h.headers a).next = some n) : n ∈ slots es := by
  obtain ⟨xs, e, ys, rfl, rfl⟩ := mem_slots ha
  rw [ht.holds.next] at hn
  cases ys with
  | nil => cases hn
  | cons d ys =>
    rw [following_place (List.cons_ne_nil _ _), ← behind_append_cons] at hn
    cases hn
    rw [List.append_cons]
    exact behind_mem_slots

lemma Tiled.previous_slot (ha : a ∈ slots es) (hn : (h.headers a).previous = some n) : n ∈ slots es := by
  obtain ⟨xs, e, ys, rfl, rfl⟩ := mem_slots ha
  rw [(row_cons.mp (holds_iff.mp ht.holds).2.1).2.1] at hn
  rcases List.eq_nil_or_concat xs with rfl | ⟨zs, d, rfl⟩
  · cases hn
  · rw [List.concat_eq_append, place_append, preceding_append] at hn
    cases hn
    rw [List.concat_eq_append, List.append_assoc]
    exact behind_mem_slots

lemma Tiled.first_slot (hn : h.first = some n) : n ∈ slots es := by
  rw [ht.holds.first] at hn
  cases es with
  | nil => cases hn
  | cons e es =>
    cases hn
    exact .head _

lemma Tiled.last_slot (hn : h.last = some n) : n ∈ slots es := by
  rcases List.eq_nil_or_concat es with rfl | ⟨xs, e, rfl⟩
  · rw [ht.holds.last] at hn
    cases hn
  · rw [List.concat_eq_append] at ht ⊢
    rw [ht.holds.last_block] at hn
    cases hn
    exact behind_mem_slots

lemma Tiled.congr (hh : ∀ a ∈ slots es, h'.headers a = h.headers a) (hf : h'.first = h.first)
    (hl : h'.last = h.last) (hm : h'.mapped = h.mapped) (hr : h'.ready = h.ready) (hp : h'.pages = h.pages) :
      h'.Tiled es where
  holds := ⟨ht.holds.row.congr fun x hx => hh _ (List.mem_map.mpr ⟨x, hx, rfl⟩), hf.trans ht.holds.first,
    hl.trans ht.holds.last, hm.trans ht.holds.mapped⟩
  proper := ht.proper
  bounded := hm ▸ ht.bounded
  paged := hm ▸ ht.paged
  backed := hp ▸ hm ▸ ht.backed
  nonempty hready := ht.nonempty (hr ▸ hready)

end

/-! ## The blocks in use -/

section live

variable {es xs ys : List Extent} {e d : Extent} {x : Nat × Nat} {size n : Nat}

lemma live_beside (hx : x ∈ live heapBase (xs ++ e :: ys)) (hne : x.1 ≠ behind xs) :
    x.1 + headerSize + x.2 ≤ behind xs ∨ behind xs + (headerSize + e.size) ≤ x.1 := by
  have he : (behind xs, e) ∈ place heapBase (xs ++ e :: ys) := mem_place_behind
  rcases place_apart (mem_live_iff.mp hx) he with h | h | h
  · exact absurd (congrArg Prod.fst h) hne
  · exact .inl (by dsimp only at h; omega)
  · exact .inr h

lemma free_not_live (hf : e.free = true) : (behind xs, n) ∉ live heapBase (xs ++ e :: ys) := by
  intro hn
  have he : (behind xs, e) ∈ place heapBase (xs ++ e :: ys) := mem_place_behind
  have : 0 < headerSize := by decide
  rcases place_apart (mem_live_iff.mp hn) he with h | h | h
  · cases h
    cases hf
  · dsimp only at h
    omega
  · dsimp only at h
    omega

lemma mem_live_taken (hf : e.free = true) (hs : size ≤ e.size) : ∃ d, size ≤ d ∧
    ∀ x, x ∈ live heapBase (xs ++ cut ⟨e.size, false⟩ size ys) ↔ x ∈ live heapBase (xs ++ e :: ys) ∨
        x = (behind xs, d) := by
  obtain ⟨d, hd, hcut⟩ := @live_cut ys ⟨e.size, false⟩ size (heapBase + span xs) rfl hs
  refine ⟨d, hd, fun x => ?_⟩
  rw [live_append, hcut, live_append, live_cons, hf, if_pos rfl, List.nil_append, List.mem_append, List.mem_cons,
    List.mem_append]
  exact ⟨fun h => by tauto, fun h => by tauto⟩

section
variable (hf : e.free = false)
include hf

lemma mem_live_cons : x ∈ live heapBase (xs ++ e :: ys) ↔
    x ∈ live heapBase xs ∨ x = (behind xs, e.size) ∨ x ∈ live (behind xs + (headerSize + e.size)) ys := by
  rw [live_append, live_cons, hf, List.mem_append]
  exact or_congr_right List.mem_cons

lemma mem_live_others : x ∈ live heapBase (xs ++ e :: ys) ∧ x.1 ≠ behind xs ↔
    x ∈ live heapBase xs ∨ x ∈ live (behind xs + (headerSize + e.size)) ys := by
  have hpos : 0 < headerSize := by decide
  have hlow : x ∈ live heapBase xs → x.1 ≠ behind xs := fun hx => by
    have := mem_place (mem_live_iff.mp hx)
    unfold behind
    dsimp only at this
    omega
  have hhigh : x ∈ live (behind xs + (headerSize + e.size)) ys → x.1 ≠ behind xs := fun hx => by
    have := mem_place (mem_live_iff.mp hx)
    dsimp only at this
    omega
  rw [mem_live_cons hf]
  constructor
  · rintro ⟨h | rfl | h, hne⟩
    · exact .inl h
    · exact absurd rfl hne
    · exact .inr h
  · rintro (h | h)
    · exact ⟨.inl h, hlow h⟩
    · exact ⟨.inr (.inr h), hhigh h⟩

lemma mem_live_released : x ∈ live heapBase (coalesce (xs ++ ⟨e.size, true⟩ :: ys)) ↔
    x ∈ live heapBase (xs ++ e :: ys) ∧ x.1 ≠ behind xs := by
  rw [mem_live_others hf, live_coalesce, live_append, live_cons, if_pos rfl, List.nil_append, List.mem_append]

lemma mem_live_carved (hs : size ≤ e.size) : ∃ d, size ≤ d ∧ ∀ x, x ∈ live heapBase (xs ++ cut e size ys) ↔
      x ∈ live heapBase (xs ++ e :: ys) ∧ x.1 ≠ behind xs ∨ x = (behind xs, d) := by
  obtain ⟨d, hd, hcut⟩ := @live_cut ys e size (heapBase + span xs) hf hs
  refine ⟨d, hd, fun x => ?_⟩
  rw [mem_live_others hf, live_append, hcut, List.mem_append, List.mem_cons]
  change _ ∨ x = (behind xs, d) ∨ x ∈ live (behind xs + (headerSize + e.size)) ys ↔ _
  exact ⟨fun h => by tauto, fun h => by tauto⟩

end

end live

end Heap

/-- The bytes that `grow` adds. -/
def growth (bytes : Nat) : Nat := (bytes + pageSize - 1) / pageSize * pageSize

lemma le_aligned (h : aligned bytes ≠ 0) : bytes ≤ aligned bytes := by
  unfold aligned at h ⊢
  split at h
  · exact absurd rfl h
  · rename_i hc
    rw [if_neg hc]
    unfold heapAlignment
    omega

/-- What `allocate` needs behind the last block. -/
def needed (last : Extent) (size : Nat) : Nat := if last.free then size - last.size else size + headerSize

namespace Arena

section blocks

variable {π : Type} [Pages π] [LawfulPages π] {r r' : Arena π} {es xs ys : List Extent} {e d : Extent}
  {L : List (Nat × Nat)} {a b m n size : Nat}

/-- Every payload of a list is in a block in use. -/
def Covered (es : List Extent) (L : List (Nat × Nat)) : Prop := ∀ x ∈ L, ∃ n, (x.1, n) ∈ live heapBase es ∧ x.2 ≤ n

lemma covered_live : Covered es (live heapBase es) := fun x hx => ⟨x.2, hx, Nat.le_refl _⟩

lemma safe_slots (ht : r.view.Tiled es) (hL : Covered es L) : Safe L (· ∈ Heap.slots es) r where
  aligned ha := Heap.slot_aligned ht.proper ha
  clear ha x hx := by
    obtain ⟨n, hn, hle⟩ := hL x hx
    rcases Heap.slot_clear ha hn with h | h
    · exact .inl h
    · exact .inr (by omega)
  next ha hn := ht.next_slot ha (by rwa [headers_view (Heap.slot_aligned ht.proper ha)])
  previous ha hn := ht.previous_slot ha (by rwa [headers_view (Heap.slot_aligned ht.proper ha)])

lemma take_spec (ht : r.view.Tiled (xs ++ e :: ys)) (hf : e.free = true) (hs : size ≤ e.size)
    (hm : size % heapAlignment = 0) : ∃ r' es' d,
      r.take (Heap.behind xs) size = (some (Heap.behind xs + headerSize), r') ∧ r'.view.Tiled es' ∧ size ≤ d ∧
      (∀ x, x ∈ live heapBase es' ↔ x ∈ live heapBase (xs ++ e :: ys) ∨ x = (Heap.behind xs, d)) ∧
      (∀ n, (Heap.behind xs, n) ∉ live heapBase (xs ++ e :: ys)) ∧ r.Kept (live heapBase (xs ++ e :: ys)) r' := by
  have hsafe := safe_slots ht covered_live
  have hclear : Clear (live heapBase (xs ++ e :: ys)) (Heap.behind xs + headerSize + size) := fun x hx => by
    have hne : x.1 ≠ Heap.behind xs := fun he => Heap.free_not_live hf (he ▸ (show (x.1, x.2) ∈ _ from hx))
    rcases Heap.live_beside hx hne with h | h
    · exact .inr (by omega)
    · exact .inl (by omega)
  obtain ⟨hp, Q, hfollows⟩ := hsafe.take Heap.behind_mem_slots hm hclear
  obtain ⟨d, hd, hlive⟩ := @Heap.mem_live_taken xs ys e size hf hs
  refine ⟨(r.take (Heap.behind xs) size).2, _, d, Prod.ext hp rfl, ?_, hd, hlive, fun n => Heap.free_not_live hf,
    hfollows.kept⟩
  rw [hfollows.view]
  exact ht.taken hs hm

section
variable (ht : r.view.Tiled es)
include ht

lemma release_spec (hb : (b, n) ∈ live heapBase es) : ∃ es', (r.release b).view.Tiled es' ∧
    (∀ x, x ∈ live heapBase es' ↔ x ∈ live heapBase es ∧ x.1 ≠ b) ∧ r.Kept (live heapBase es) (r.release b) := by
  obtain ⟨xs, e, ys, rfl, rfl, hf, -⟩ := Heap.exists_of_mem_live hb
  have hfollows := (safe_slots ht covered_live).release Heap.behind_mem_slots
  refine ⟨_, ?_, fun x => Heap.mem_live_released hf, hfollows.kept⟩
  rw [hfollows.view]
  exact ht.release

lemma split_spec (hb : (b, n) ∈ live heapBase es) (hs : size ≤ n) (hm : size % heapAlignment = 0)
    (hL : Covered es L) (hsize : ∀ x ∈ L, x.1 = b → x.2 ≤ size) : ∃ es' d, (r.split b size).view.Tiled es' ∧ size ≤ d ∧
      (∀ x, x ∈ live heapBase es' ↔ x ∈ live heapBase es ∧ x.1 ≠ b ∨ x = (b, d)) ∧ r.Kept L (r.split b size) := by
  obtain ⟨xs, e, ys, rfl, rfl, hf, rfl⟩ := Heap.exists_of_mem_live hb
  have hclear : Clear L (Heap.behind xs + headerSize + size) := fun x hx => by
    by_cases hx1 : x.1 = Heap.behind xs
    · have := hsize x hx hx1
      exact .inr (by omega)
    · obtain ⟨k, hk, hle⟩ := hL x hx
      rcases Heap.live_beside hk hx1 with h | h
      · exact .inr (by dsimp only at h; omega)
      · exact .inl (by dsimp only at h; omega)
  obtain ⟨Q, -, hfollows⟩ := (safe_slots ht hL).split Heap.behind_mem_slots hm hclear
  obtain ⟨d, hd, hlive⟩ := @Heap.mem_live_carved xs ys e size hf hs
  refine ⟨_, d, ?_, hd, hlive, hfollows.kept⟩
  rw [hfollows.view]
  exact ht.split hf hs hm

lemma walk_view (p : Nat → Block → Bool) :
    r.walk p Heap.walkFuel r.first = r.view.walk p Heap.walkFuel r.view.first :=
  (safe_slots ht covered_live).walk p Heap.walkFuel ht.first_slot

lemma find_live (hb : (b, n) ∈ live heapBase es) : r.find (b + headerSize) = some b := by
  unfold Arena.find
  rw [walk_view ht]
  rcases ht.holds.walk (P := fun block header => block + headerSize == b + headerSize && !header.free) ht.bounded with
    ⟨xs, e, ys, -, hP, hw⟩ | ⟨hnone, -⟩
  · rw [hw]
    have := (Bool.and_eq_true_iff.mp hP).1
    simp only [beq_iff_eq, Nat.add_right_cancel_iff] at this
    rw [this]
  · obtain ⟨xs, e, ys, rfl, rfl, hf, -⟩ := Heap.exists_of_mem_live hb
    have := hnone _ Heap.mem_place_behind
    rw [free_of_extent ht.holds.header, hf] at this
    simp at this

lemma find_unused {p : Nat} (hp : ∀ x ∈ live heapBase es, x.1 + headerSize ≠ p) : r.find p = none := by
  unfold Arena.find
  rw [walk_view ht]
  rcases ht.holds.walk (P := fun block header => block + headerSize == p && !header.free) ht.bounded with
    ⟨xs, e, ys, rfl, hP, -⟩ | ⟨-, hw⟩
  · obtain ⟨h1, h2⟩ := Bool.and_eq_true_iff.mp hP
    rw [free_of_extent ht.holds.header] at h2
    exact absurd (beq_iff_eq.mp h1) (hp (Heap.behind xs, e.size) (Heap.mem_live (by simpa using h2)))
  · exact hw

end

end blocks

section grow

variable {π : Type} [Pages π] [LawfulPages π] {r r' : Arena π} {es xs ys : List Extent} {e d : Extent}
  {L : List (Nat × Nat)} {a b m n size : Nat}

/-- Nothing changes but the pages that are left. -/
def withPages (r : Arena π) (s : π) : Arena π := { r with pages := s }

/-- The window cannot grow by so many bytes. -/
def Stuck (r : Arena π) (bytes : Nat) : Prop :=
  heapLimit - r.mapped < growth bytes ∨
    (addPages (heapBase + r.mapped) (growth bytes / pageSize) 0 r.pages).1 * pageSize ≠ growth bytes

lemma grow_view (ht : r.view.Tiled es) (hb : 0 < bytes) :
    r.view.grow bytes = ((r.grow bytes).1, (r.grow bytes).2.view) ∧ r.Kept (live heapBase es) (r.grow bytes).2 ∧
    ((r.grow bytes).1 = false → r.Stuck bytes ∧ ∃ s, (r.grow bytes).2 = r.withPages s) := by
  have hpos : growth bytes ≠ 0 := by
    unfold growth pageSize
    omega
  unfold Arena.grow Heap.grow Stuck
  change growth bytes ≠ 0 at hpos
  rw [show r.view.mapped = r.mapped from rfl, show r.view.pages = r.pages from rfl,
    show (bytes + pageSize - 1) / pageSize * pageSize = growth bytes from rfl]
  dsimp only
  by_cases hc : growth bytes = 0 ∨ growth bytes > heapLimit - r.mapped
  · rw [if_pos hc, if_pos hc]
    exact ⟨rfl, .refl r, fun _ => ⟨.inl (hc.resolve_left hpos), r.pages, rfl⟩⟩
  · rw [if_neg hc, if_neg hc]
    rcases addPages (heapBase + r.mapped) (growth bytes / pageSize) 0 r.pages with ⟨added, s⟩
    dsimp only
    by_cases ha : added * pageSize ≠ growth bytes
    · rw [if_pos ha, if_pos ha]
      exact ⟨rfl, (Kept.refl r).of_eq rfl rfl, fun _ => ⟨.inr ha, _, rfl⟩⟩
    · rw [if_neg ha, if_neg ha]
      have hsafe := safe_slots ht covered_live
      have hmapped : r.mapped % heapAlignment = 0 := by
        have := ht.paged
        change r.mapped % pageSize = 0 at this
        simp only [pageSize, heapAlignment] at this ⊢
        omega
      have hclear : Clear (live heapBase es) (heapBase + r.mapped) := fun x hx => by
        have hend := mem_place (Heap.mem_live_iff.mp hx)
        have hspan : r.mapped = span es := ht.holds.mapped
        exact .inr (by dsimp only at hend; omega)
      have hs : Safe (live heapBase es) (· ∈ Heap.slots es) { r with pages := s } :=
        ⟨hsafe.aligned, hsafe.clear, hsafe.next, hsafe.previous⟩
      obtain ⟨h1, h2⟩ := hs.extend ht.last_slot hmapped hclear (growth bytes)
      exact ⟨by rw [h1]; rfl, ⟨h2.ready, h2.bytes⟩, fun hf => by cases hf⟩

lemma grow_spec (ht : r.view.Tiled es) (hb : 0 < bytes) :
    (∃ s, r.grow bytes = (false, r.withPages s) ∧ LawfulPages.Same r.pages s ∧ r.Stuck bytes) ∨
    ∃ r' g, r.grow bytes = (true, r') ∧ bytes ≤ g ∧ (g - headerSize) % heapAlignment = 0 ∧
      r'.view.Tiled (coalesce (es ++ [⟨g - headerSize, true⟩])) ∧ r.Kept (live heapBase es) r' := by
  obtain ⟨hview, hkept, hstuck⟩ := grow_view ht hb
  rcases hg : r.grow bytes with ⟨ok, r'⟩
  rw [hg] at hview hkept hstuck
  rcases ht.grow bytes with ⟨h', hfail, s, rfl, hsame⟩ | ⟨h', g, hok, hle, hmod, ht', -, -⟩
  · obtain ⟨rfl, hr'⟩ := Prod.mk.inj (hview.symm.trans hfail)
    obtain ⟨hst, s', rfl⟩ := hstuck rfl
    have hs : s' = s := congrArg Heap.pages hr'
    exact .inl ⟨s', rfl, hs ▸ hsame, hst⟩
  · obtain ⟨rfl, rfl⟩ := Prod.mk.inj (hview.symm.trans hok)
    exact .inr ⟨r', g, rfl, hle, hmod, ht', hkept⟩

lemma live_grown {g : Nat} : live heapBase (coalesce (es ++ [⟨g, true⟩])) = live heapBase es := by
  rw [live_coalesce, live_append, live_cons, if_pos rfl]
  exact List.append_nil _

/-- `allocate` finds no room. -/
def Refuses (r : Arena π) (es : List Extent) (size : Nat) : Prop :=
  (∀ e ∈ es, e.free = true → e.size < size) ∧ ∀ xs d, es = xs ++ [d] → r.Stuck (needed d size)

lemma allocate_spec (ht : r.view.Tiled es) (hready : r.ready = true) (bytes : Nat) :
    (∃ s, r.allocate bytes = (none, r.withPages s) ∧ LawfulPages.Same r.pages s ∧
      (aligned bytes = 0 ∨ r.Refuses es (aligned bytes))) ∨
    ∃ r' es' b d, r.allocate bytes = (some (b + headerSize), r') ∧ r'.view.Tiled es' ∧ bytes ≤ d ∧
      (∀ x, x ∈ live heapBase es' ↔ x ∈ live heapBase es ∨ x = (b, d)) ∧ (∀ n, (b, n) ∉ live heapBase es) ∧
      r.Kept (live heapBase es) r' := by
  have hm := Heap.aligned_mod bytes
  have hle := @le_aligned bytes
  unfold Arena.allocate
  generalize aligned bytes = size at hm hle ⊢
  dsimp only
  rw [hready, Bool.not_true, Bool.false_or, walk_view ht]
  by_cases h0 : size = 0
  · rw [if_pos (by rw [h0]; rfl)]
    exact .inl ⟨r.pages, rfl, LawfulPages.same_refl _, .inl h0⟩
  rw [if_neg (by simpa using h0)]
  rcases ht.holds.walk (P := fun _ header => header.free && decide (size ≤ header.size)) ht.bounded with
    ⟨xs, e, ys, rfl, hP, hw⟩ | ⟨hnone, hw⟩
  · rw [hw]
    obtain ⟨hf, hs⟩ := ht.holds.fits hP
    obtain ⟨r', es', d, htake, ht', hd, hlive, hfresh, hkept⟩ := take_spec ht hf hs hm
    exact .inr ⟨r', es', Heap.behind xs, d, htake, ht', (hle h0).trans hd, hlive, hfresh, hkept⟩
  · rw [hw]
    obtain ⟨xs, d, rfl⟩ := ht.exists_last hready
    have hsmall : ∀ e ∈ xs ++ [d], e.free = true → e.size < size := fun e he hf => by
      obtain ⟨ys, zs, hes⟩ := List.append_of_mem he
      have hh := ht.holds
      rw [hes] at hh hnone
      have hno := hnone _ Heap.mem_place_behind
      rw [free_of_extent hh.header, size_of_extent hh.header, hf] at hno
      simpa using hno
    have hlast : r.last = some (Heap.behind xs) := ht.holds.last_block
    have hhead : r.header (Heap.behind xs) = r.view.headers (Heap.behind xs) :=
      (headers_view (Heap.slot_aligned ht.proper Heap.behind_mem_slots)).symm
    rw [hlast]
    dsimp only
    rw [hhead, free_of_extent ht.holds.header, size_of_extent ht.holds.header,
      show (if d.free = true then size - d.size else size + headerSize) = needed d size from rfl]
    have hneeded : 0 < needed d size := by
      unfold needed
      split
      · rename_i hf
        have := hsmall d (by simp) hf
        omega
      · omega
    rcases grow_spec ht hneeded with ⟨s, hg, hsame, hstuck⟩ | ⟨r1, g, hg, hg', hmod, ht1, hkept1⟩
    · rw [hg]
      refine .inl ⟨s, rfl, hsame, .inr ⟨hsmall, fun ys c hes => ?_⟩⟩
      obtain ⟨-, hc⟩ := List.append_inj' hes rfl
      cases hc
      exact hstuck
    · rw [hg]
      have hlive1 : live heapBase (coalesce (xs ++ [d] ++ [⟨g - headerSize, true⟩])) =
        live heapBase (xs ++ [d]) := live_grown
      rw [Heap.coalesce_last ht.proper hmod] at ht1 hlive1
      obtain ⟨zs, c, hz, hc, hs⟩ := @Heap.grown_last xs d size g (needed d size) rfl hg'
      rw [hz] at ht1 hlive1
      dsimp only
      rw [show r1.last = some (Heap.behind zs) from ht1.holds.last_block]
      obtain ⟨r', es', k, htake, ht', hd, hlive, hfresh, hkept⟩ := take_spec ht1 hc hs hm
      rw [hlive1] at hlive hfresh hkept
      exact .inr ⟨r', es', Heap.behind zs, k, htake, ht', (hle h0).trans hd, hlive, hfresh, hkept1.trans hkept⟩

end grow

section resize

variable {π : Type} [Pages π] [LawfulPages π] {r r' : Arena π} {es xs ys : List Extent} {e d : Extent}
  {L : List (Nat × Nat)} {a b m n size : Nat} {cells : Nat → Cell}

lemma header_live (ht : r.view.Tiled es) (hb : (b, n) ∈ live heapBase es) : (r.header b).extent = ⟨n, false⟩ := by
  obtain ⟨xs, e, ys, rfl, rfl, hf, rfl⟩ := Heap.exists_of_mem_live hb
  rw [← headers_view (Heap.slot_aligned ht.proper Heap.behind_mem_slots), ht.holds.header]
  exact Extent.ext rfl hf

lemma fill_spec (ht : r.view.Tiled es) (hb : (b, n) ∈ live heapBase es) (hlow : b + headerSize ≤ a)
    (hhigh : a + size ≤ b + headerSize + n) : (r.fill a size cells).view.Tiled es := by
  refine ht.congr (fun c hc => ?_) rfl rfl rfl rfl rfl
  have hc' := Heap.slot_aligned ht.proper hc
  rw [headers_view hc', headers_view hc']
  refine header_fill ?_
  rcases Heap.slot_clear hc hb with h | h
  · exact .inl (by omega)
  · exact .inr (by omega)

omit [Pages π] [LawfulPages π] in
lemma memory_fill (hb : (b, n) ∈ live heapBase es) (hlow : b + headerSize ≤ a) (hhigh : a + size ≤ b + headerSize + n)
    {k i : Nat} (hc : (c, k) ∈ live heapBase es) (hne : c ≠ b) (hi : i < k) :
    (r.fill a size cells).memory (c + headerSize + i) = r.memory (c + headerSize + i) := by
  refine if_neg ?_
  have := Heap.live_apart hc hb hne
  omega

/-- The blocks other than one. -/
def others (es : List Extent) (b : Nat) : List (Nat × Nat) := (live heapBase es).filter fun x => x.1 ≠ b

lemma mem_others {x : Nat × Nat} : x ∈ others es b ↔ x ∈ live heapBase es ∧ x.1 ≠ b := by
  rw [others, List.mem_filter, decide_eq_true_eq]

/-- What a resized block is: one of the wanted size, with the bytes of the old one, and nothing else has changed. -/
structure Resized (r : Arena π) (es : List Extent) (b n wanted : Nat) (r' : Arena π) (es' : List Extent) (b' d : Nat) :
    Prop where
  tiled : r'.view.Tiled es'
  room : wanted ≤ d
  live : ∀ x, x ∈ live heapBase es' ↔ x ∈ live heapBase es ∧ x.1 ≠ b ∨ x = (b', d)
  fresh : b' = b ∨ ∀ k, (b', k) ∉ Mm.live heapBase es
  bytes : ∀ i, i < n → i < wanted → r'.memory (b' + headerSize + i) = r.memory (b + headerSize + i)
  kept : r.Kept (others es b) r'

lemma split_resized (ht : r.view.Tiled es) (hb : (b, n) ∈ live heapBase es) (hs : size ≤ n)
    (hm : size % heapAlignment = 0) : ∃ es' d, Resized r es b n size (r.split b size) es' b d := by
  have hL : Covered es ((b, size) :: others es b) := fun x hx => by
    rcases List.mem_cons.mp hx with rfl | hx
    · exact ⟨n, hb, hs⟩
    · exact covered_live x (mem_others.mp hx).1
  obtain ⟨es', d, ht', hd, hlive, hkept⟩ := split_spec ht hb hs hm hL fun x hx he => by
    rcases List.mem_cons.mp hx with rfl | hx
    · exact Nat.le_refl _
    · exact absurd he (mem_others.mp hx).2
  exact ⟨es', d, ht', hd, hlive, .inl rfl, fun i _ hi => hkept.bytes _ (.head _) i hi, hkept.ready,
    fun x hx => hkept.bytes x (.tail _ hx)⟩

lemma joinNext_spec (ht : r.view.Tiled (xs ++ e :: d :: ys)) (hf : e.free = false) :
    (r.joinNext (Heap.behind xs)).view.Tiled (xs ++ e.join d :: ys) ∧
    r.Kept (live heapBase (xs ++ e :: d :: ys)) (r.joinNext (Heap.behind xs)) := by
  have hfollows := (safe_slots ht covered_live).joinNext Heap.behind_mem_slots
  rw [hfollows.view]
  exact ⟨ht.joinNext hf, hfollows.kept⟩

lemma live_joined (hf : e.free = false) (hd : d.free = true) {x : Nat × Nat} :
    x ∈ live heapBase (xs ++ e.join d :: ys) ∧ x.1 ≠ Heap.behind xs ↔
      x ∈ live heapBase (xs ++ e :: d :: ys) ∧ x.1 ≠ Heap.behind xs := by
  rw [Heap.mem_live_others (show (e.join d).free = false from hf), Heap.mem_live_others hf, live_cons, hd, if_pos rfl,
    List.nil_append]
  change _ ∨ x ∈ live (Heap.behind xs + (headerSize + (e.size + (headerSize + d.size)))) ys ↔ _
  rw [show Heap.behind xs + (headerSize + (e.size + (headerSize + d.size))) =
    Heap.behind xs + (headerSize + e.size) + (headerSize + d.size) by omega]

lemma join_resized (ht : r.view.Tiled es) (hb : (b, n) ∈ live heapBase es) (hm : size % heapAlignment = 0)
    (hn : n ≤ size) (hfree : r.isFree (r.header b).next = true)
    (hs : size ≤ n + headerSize + (r.header ((r.header b).next.getD 0)).size) :
    ∃ es' d, Resized r es b n size ((r.joinNext b).split b size) es' b d := by
  obtain ⟨xs, e, ys, rfl, rfl, hf, rfl⟩ := Heap.exists_of_mem_live hb
  have hslot : ∀ {a}, a ∈ Heap.slots (xs ++ e :: ys) → r.header a = r.view.headers a := fun ha =>
    (headers_view (Heap.slot_aligned ht.proper ha)).symm
  rw [hslot Heap.behind_mem_slots, ht.holds.next] at hfree hs
  -- The next block is free, so there is one.
  cases ys with
  | nil => cases hfree
  | cons d ys =>
    have hnext : Heap.behind xs + (headerSize + e.size) ∈ Heap.slots (xs ++ e :: d :: ys) := by
      rw [← Heap.behind_append_cons, List.append_cons]
      exact Heap.behind_mem_slots
    rw [following_place (List.cons_ne_nil _ _)] at hfree hs
    have hd : d.free = true := by
      have := congrArg Extent.free ht.holds.next_header
      rw [← hslot hnext] at this
      exact this.symm.trans hfree
    rw [Option.getD_some, hslot hnext,
      show (r.view.headers (Heap.behind xs + (headerSize + e.size))).size = d.size from
        congrArg Extent.size ht.holds.next_header] at hs
    obtain ⟨ht1, hkept1⟩ := joinNext_spec ht hf
    have hb1 : (Heap.behind xs, (e.join d).size) ∈ live heapBase (xs ++ e.join d :: ys) := Heap.mem_live hf
    have hsize : (e.join d).size = e.size + (headerSize + d.size) := rfl
    obtain ⟨es', k, hres⟩ := split_resized ht1 hb1 (by omega) hm
    refine ⟨es', k, hres.tiled, hres.room, fun x => ?_, .inl rfl, fun i hi hw => ?_,
      hres.kept.ready.trans hkept1.ready, fun x hx i hi => ?_⟩
    · rw [hres.live, live_joined hf hd]
    · rw [hres.bytes i (by omega) hw]
      exact hkept1.bytes _ hb i hi
    · have hx₁ := mem_others.mpr ((live_joined hf hd).mpr (mem_others.mp hx))
      rw [hres.kept.bytes x hx₁ i hi]
      exact hkept1.bytes x (mem_others.mp hx).1 i hi

lemma resize_spec (ht : r.view.Tiled es) (hready : r.ready = true) (hb : (b, n) ∈ live heapBase es) {wanted : Nat}
    (hm : wanted % heapAlignment = 0) :
    (∃ s, r.resize (b + headerSize) b wanted = (none, r.withPages s) ∧ LawfulPages.Same r.pages s) ∨
    ∃ r' es' b' d, r.resize (b + headerSize) b wanted = (some (b' + headerSize), r') ∧
        Resized r es b n wanted r' es' b' d := by
  have hsize : (r.header b).size = n := congrArg Extent.size (header_live ht hb)
  unfold Arena.resize
  dsimp only
  rw [hsize]
  split
  · rename_i hw
    obtain ⟨es', d, hres⟩ := split_resized ht hb hw hm
    exact .inr ⟨_, es', b, d, rfl, hres⟩
  rename_i hw
  split
  · rename_i hnext
    obtain ⟨h1, h2⟩ := Bool.and_eq_true_iff.mp hnext
    obtain ⟨es', d, hres⟩ := join_resized ht hb hm (by omega) h1 (of_decide_eq_true h2)
    exact .inr ⟨_, es', b, d, rfl, hres⟩
  · rcases allocate_spec ht hready wanted with ⟨s, ha, hsame, -⟩ | ⟨r1, es1, b1, d1, ha, ht1, hd1, hlive1,
      hfresh1, hkept1⟩
    · rw [ha]
      exact .inl ⟨s, rfl, hsame⟩
    · rw [ha]
      dsimp only
      have hb1 : (b, n) ∈ live heapBase es1 := (hlive1 _).mpr (.inl hb)
      have hnew : (b1, d1) ∈ live heapBase es1 := (hlive1 _).mpr (.inr rfl)
      have hne : b1 ≠ b := fun e => hfresh1 n (e ▸ hb)
      rw [show (r1.header b).size = n from congrArg Extent.size (header_live ht1 hb1)]
      have ht2 : (r1.fill (b1 + headerSize) n fun i => r1.memory (b + headerSize + i)).view.Tiled es1 :=
        fill_spec ht1 hnew (Nat.le_refl _) (by omega)
      obtain ⟨es3, ht3, hlive3, hkept3⟩ := release_spec ht2 hb1
      refine .inr ⟨_, es3, b1, d1, rfl, ht3, hd1, fun x => ?_, .inr hfresh1, fun i hi _ => ?_,
        hkept3.ready.trans hkept1.ready, fun x hx i hi => ?_⟩
      · rw [hlive3, hlive1]
        constructor
        · rintro ⟨h | rfl, hx⟩
          · exact .inl ⟨h, hx⟩
          · exact .inr rfl
        · rintro (⟨h, hx⟩ | rfl)
          · exact ⟨.inl h, hx⟩
          · exact ⟨.inr rfl, hne⟩
      · rw [hkept3.bytes _ hnew i (show i < d1 by omega)]
        refine (if_pos ⟨by omega, by omega⟩).trans ?_
        rw [show b1 + headerSize + i - (b1 + headerSize) = i by omega]
        exact hkept1.bytes _ hb i hi
      · obtain ⟨hx, hxb⟩ := mem_others.mp hx
        have hx₁ := (hlive1 x).mpr (.inl hx)
        have hxb1 : x.1 ≠ b1 := fun e => hfresh1 x.2 (e ▸ (show (x.1, x.2) ∈ _ from hx))
        rw [hkept3.bytes x hx₁ i hi, memory_fill hnew (Nat.le_refl _) (by omega) (show (x.1, x.2) ∈ _ from hx₁) hxb1 hi]
        exact hkept1.bytes x hx i hi

end resize

end Arena

end RumKernel.Mm
