import RumKernel.Lib.Bitmap

/-!
# The physical page allocator

`pmm.c` after boot: two bitmaps, a cached count of free pages and a rotating cursor. `Valid` says how they
belong together. Every operation keeps it and is described in terms of the set of free pages.
-/

namespace RumKernel.Mm
open Lib

def pageSize : Nat := 4096

def physicalLimit : Nat := 0x40000000

def pageCount : Nat := physicalLimit / pageSize

def lowReservedEnd : Nat := 0x100000

/-- The static variables of `pmm.c`, with the fields of `statistics`. -/
structure Pmm where
  managed : Bitmap := .empty
  allocated : Bitmap := .empty
  usablePages : Nat := 0
  managedPages : Nat := 0
  freePages : Nat := 0
  limit : Nat := 0
  nextPage : Nat := 0
  ready : Bool := false

namespace Pmm

def pages (s : Pmm) : Nat := s.limit / pageSize

/-- A page that may be handed out. -/
def isFree (s : Pmm) (page : Nat) : Bool := s.managed.bit page && !s.allocated.bit page

/-- The loop of `pmm_allocate_page`, `fuel` pages being left to scan. -/
def scan (pages : Nat) : Nat → Pmm → Nat × Pmm
  | 0, s => (0, s)
  | fuel + 1, s =>
    let page := s.nextPage
    let s := { s with nextPage := (s.nextPage + 1) % pages }
    if s.managed.bit page && !s.allocated.bit page then
      (page * pageSize, { s with allocated := s.allocated.set page true, freePages := s.freePages - 1 })
    else scan pages fuel s

def allocatePage (s : Pmm) : Nat × Pmm :=
  if s.ready && s.freePages != 0 then scan s.pages s.pages s else (0, s)

def isManaged (s : Pmm) (physical : Nat) : Bool :=
  s.ready && physical % pageSize == 0 && physical < s.limit && s.managed.bit (physical / pageSize)

/-- The loop of `pmm_allocate_contiguous` at `page`, behind `run` free pages. -/
def runLoop (count : Nat) : Nat → Nat → Nat → Pmm → Nat × Pmm
  | 0, _, _, s => (0, s)
  | fuel + 1, page, run, s =>
    let run := if s.managed.bit page && !s.allocated.bit page then run + 1 else 0
    if run = count then
      let first := page + 1 - count
      (first * pageSize,
        { s with allocated := s.allocated.setRange first true count, freePages := s.freePages - count })
    else runLoop count fuel (page + 1) run s

def allocateContiguous (s : Pmm) (count : Nat) : Nat × Pmm :=
  if s.ready && count != 0 && count ≤ s.freePages then
    runLoop count (s.pages - lowReservedEnd / pageSize) (lowReservedEnd / pageSize) 0 s
  else (0, s)

def freeContiguous (s : Pmm) (physical count : Nat) : Bool × Pmm :=
  let first := physical / pageSize
  let valid := s.ready && count != 0 && physical % pageSize == 0 && physical < s.limit &&
    count ≤ (s.limit - physical) / pageSize &&
    (List.range count).all fun i => s.managed.bit (first + i) && s.allocated.bit (first + i)
  if valid then
    (true, { s with
      allocated := s.allocated.setRange first false count
      freePages := s.freePages + count
      nextPage := if first < s.nextPage then first else s.nextPage })
  else (false, s)

def isAllocated (s : Pmm) (physical : Nat) : Bool := s.isManaged physical && s.allocated.bit (physical / pageSize)

def freePage (s : Pmm) (physical : Nat) : Bool × Pmm :=
  if s.isAllocated physical then
    let page := physical / pageSize
    (true, { s with
      allocated := s.allocated.set page false
      freePages := s.freePages + 1
      nextPage := if page < s.nextPage then page else s.nextPage })
  else (false, s)

def free (s : Pmm) : Finset Nat := (Finset.range pageCount).filter fun page => s.isFree page

/-- How the variables belong together once `pmm_initialize` has succeeded. -/
structure Valid (s : Pmm) : Prop where
  ready : s.ready = true
  limit_le : s.limit ≤ physicalLimit
  limit_mod : s.limit % pageSize = 0
  managed : ∀ {page}, s.managed.bit page = true → lowReservedEnd / pageSize ≤ page ∧ page < s.pages
  owned : ∀ {page}, s.allocated.bit page = true → s.managed.bit page = true
  freePages : s.freePages = s.free.card
  next : s.nextPage < pageCount
  cursor : lowReservedEnd / pageSize < s.pages → s.nextPage < s.pages

/-! ## Handing pages out and taking them back -/

variable {s : Pmm} {page first count next physical : Nat}

lemma isFree_iff : s.isFree page = true ↔ s.managed.bit page = true ∧ s.allocated.bit page = false := by
  simp [isFree]

lemma Valid.pages_le (h : s.Valid) : s.pages ≤ pageCount := Nat.div_le_div_right h.limit_le

lemma Valid.mem_free (h : s.Valid) : page ∈ s.free ↔ s.isFree page = true := by
  refine ⟨fun hp => (Finset.mem_filter.mp hp).2, fun hp => ?_⟩
  have hm := h.managed (isFree_iff.mp hp).1
  have hl := h.pages_le
  exact Finset.mem_filter.mpr ⟨Finset.mem_range.mpr (by omega), hp⟩

lemma Valid.allocated_iff (h : s.Valid) : s.allocated.bit page = true ↔ s.managed.bit page = true ∧ page ∉ s.free := by
  rw [h.mem_free, isFree_iff]
  have := @h.owned page
  grind

/-- The state after `count` pages from `first` were handed out. -/
def hand (s : Pmm) (first count next : Nat) : Pmm :=
  { s with allocated := s.allocated.setRange first true count, freePages := s.freePages - count, nextPage := next }

/-- The state after `count` pages from `first` were taken back. -/
def take (s : Pmm) (first count : Nat) : Pmm :=
  { s with
    allocated := s.allocated.setRange first false count
    freePages := s.freePages + count
    nextPage := if first < s.nextPage then first else s.nextPage }

lemma isFree_hand : (s.hand first count next).isFree page = true ↔
    s.isFree page = true ∧ ¬(first ≤ page ∧ page < first + count) := by
  rw [isFree_iff, isFree_iff]
  show s.managed.bit page = true ∧ (s.allocated.setRange first true count).bit page = false ↔ _
  rw [Bitmap.bit_setRange]
  split <;> simp_all

lemma isFree_take : (s.take first count).isFree page = true ↔
    s.isFree page = true ∨ (s.managed.bit page = true ∧ first ≤ page ∧ page < first + count) := by
  rw [isFree_iff, isFree_iff]
  show s.managed.bit page = true ∧ (s.allocated.setRange first false count).bit page = false ↔ _
  rw [Bitmap.bit_setRange]
  split <;> simp_all

lemma free_hand : (s.hand first count next).free = s.free \ Finset.Ico first (first + count) := by
  ext page
  simp only [free, Finset.mem_filter, Finset.mem_sdiff, Finset.mem_Ico, isFree_hand, and_assoc]

lemma Valid.hand (h : s.Valid) (hf : ∀ page, first ≤ page → page < first + count → page ∈ s.free)
    (hn : next < pageCount) (hc : lowReservedEnd / pageSize < s.pages → next < s.pages) :
    (s.hand first count next).Valid where
  ready := h.ready
  limit_le := h.limit_le
  limit_mod := h.limit_mod
  managed := h.managed
  owned := by
    intro page hp
    change (s.allocated.setRange first true count).bit page = true at hp
    rw [Bitmap.bit_setRange] at hp
    split at hp
    · rename_i hr
      exact (isFree_iff.mp (h.mem_free.mp (hf page hr.1 hr.2))).1
    · exact h.owned hp
  freePages := by
    have hsub : Finset.Ico first (first + count) ⊆ s.free := fun page hp =>
      hf page (Finset.mem_Ico.mp hp).1 (Finset.mem_Ico.mp hp).2
    rw [free_hand, Finset.card_sdiff_of_subset hsub, Nat.card_Ico, ← h.freePages]
    show s.freePages - count = _
    omega
  next := hn
  cursor := hc

lemma Valid.take (h : s.Valid) (ha : ∀ page, first ≤ page → page < first + count → s.allocated.bit page = true) :
    (s.take first count).Valid ∧ (s.take first count).free = s.free ∪ Finset.Ico first (first + count) := by
  have hfree : (s.take first count).free = s.free ∪ Finset.Ico first (first + count) := by
    ext page
    simp only [free, Finset.mem_filter, Finset.mem_union, Finset.mem_Ico, isFree_take, Finset.mem_range]
    constructor
    · rintro ⟨hp, hf | ⟨-, hr⟩⟩
      · exact .inl ⟨hp, hf⟩
      · exact .inr hr
    · rintro (⟨hp, hf⟩ | hr)
      · exact ⟨hp, .inl hf⟩
      · have hm := h.owned (ha page hr.1 hr.2)
        have hb := h.managed hm
        have hl := h.pages_le
        exact ⟨by omega, .inr ⟨hm, hr⟩⟩
  have hdisj : Disjoint s.free (Finset.Ico first (first + count)) := by
    rw [Finset.disjoint_left]
    intro page hp hr
    obtain ⟨h1, h2⟩ := Finset.mem_Ico.mp hr
    have hfalse := (isFree_iff.mp (h.mem_free.mp hp)).2
    rw [ha page h1 h2] at hfalse
    cases hfalse
  refine ⟨⟨h.ready, h.limit_le, h.limit_mod, h.managed, ?_, ?_, ?_, ?_⟩, hfree⟩
  · intro page hp
    change (s.allocated.setRange first false count).bit page = true at hp
    rw [Bitmap.bit_setRange] at hp
    split at hp
    · cases hp
    · exact h.owned hp
  · rw [hfree, Finset.card_union_of_disjoint hdisj, Nat.card_Ico, ← h.freePages]
    show s.freePages + count = _
    omega
  · have hn := h.next
    show (if first < s.nextPage then first else s.nextPage) < pageCount
    split <;> omega
  · intro hlow
    have hn := h.cursor hlow
    show (if first < s.nextPage then first else s.nextPage) < s.pages
    split <;> omega

/-! ## The operations -/

lemma scan_spec {pages : Nat} (fuel : Nat) (hn : s.nextPage < pages) :
    (∀ k < fuel, s.isFree ((s.nextPage + k) % pages) = false) ∨ ∃ page next, s.isFree page = true ∧ next < pages ∧
        scan pages fuel s = (page * pageSize, s.hand page 1 next) := by
  induction fuel generalizing s with
  | zero => exact .inl fun k hk => absurd hk (Nat.not_lt_zero k)
  | succ fuel ih =>
    have hnext : (s.nextPage + 1) % pages < pages := Nat.mod_lt _ (by omega)
    cases hfree : s.isFree s.nextPage with
    | true =>
      refine .inr ⟨s.nextPage, (s.nextPage + 1) % pages, hfree, hnext, ?_⟩
      unfold scan
      exact if_pos hfree
    | false =>
      have hstep : scan pages (fuel + 1) s = scan pages fuel { s with nextPage := (s.nextPage + 1) % pages } := by
        rw [scan]
        exact if_neg (by simpa [isFree] using hfree)
      rcases ih (s := { s with nextPage := (s.nextPage + 1) % pages }) hnext with hnone | ⟨page, next, h1, h2, h3⟩
      · refine .inl fun k hk => ?_
        cases k with
        | zero => rwa [Nat.add_zero, Nat.mod_eq_of_lt hn]
        | succ k =>
          have hk' := hnone k (by omega)
          change s.isFree (((s.nextPage + 1) % pages + k) % pages) = false at hk'
          rwa [Nat.mod_add_mod, Nat.add_assoc, Nat.add_comm 1 k] at hk'
      · exact .inr ⟨page, next, h1, h2, hstep.trans h3⟩

/-- `pmm_allocate_page` hands out a free page when there is one. -/
theorem Valid.allocatePage (h : s.Valid) : (s.free = ∅ ∧ s.allocatePage = (0, s)) ∨
    ∃ page ∈ s.free, ∃ next, (s.hand page 1 next).Valid ∧
      s.allocatePage = (page * pageSize, s.hand page 1 next) := by
  by_cases hempty : s.free = ∅
  · refine .inl ⟨hempty, ?_⟩
    have h0 : s.freePages = 0 := by rw [h.freePages, hempty, Finset.card_empty]
    simp [Pmm.allocatePage, h0]
  · refine .inr ?_
    obtain ⟨free, hmem⟩ := Finset.nonempty_iff_ne_empty.mpr hempty
    have hfree := h.mem_free.mp hmem
    have hm := h.managed (isFree_iff.mp hfree).1
    have hcur := h.cursor (by omega)
    have h0 : s.freePages ≠ 0 := by
      rw [h.freePages]
      exact Finset.card_ne_zero_of_mem hmem
    have hscan : s.allocatePage = scan s.pages s.pages s := by
      simp [Pmm.allocatePage, h.ready, h0]
    rcases scan_spec s.pages hcur with hnone | ⟨page, next, h1, h2, h3⟩
    · -- the scan meets every page once
      have hk := hnone ((free + s.pages - s.nextPage) % s.pages) (Nat.mod_lt _ (by omega))
      rw [Nat.add_mod_mod, show s.nextPage + (free + s.pages - s.nextPage) = free + s.pages by omega,
        Nat.add_mod_right, Nat.mod_eq_of_lt hm.2, hfree] at hk
      cases hk
    · have hp := h.mem_free.mpr h1
      have hl := h.pages_le
      refine ⟨page, hp, next, h.hand (fun q hq hq' => ?_) (by omega) fun _ => h2, hscan.trans h3⟩
      obtain rfl : q = page := by omega
      exact hp

/-- The `count` pages from `first` are free. -/
def Run (s : Pmm) (first count : Nat) : Prop := ∀ page, first ≤ page → page < first + count → s.isFree page = true

lemma runLoop_succ {fuel run : Nat} : runLoop count (fuel + 1) page run s =
    if (if s.isFree page then run + 1 else 0) = count then
      ((page + 1 - count) * pageSize, s.hand (page + 1 - count) count s.nextPage)
    else runLoop count fuel (page + 1) (if s.isFree page then run + 1 else 0) s := rfl

lemma runLoop_spec (fuel page run : Nat) (hlt : run < count) (hle : run ≤ page)
    (hrun : s.Run (page - run) run) (hmax : page = run ∨ s.isFree (page - run - 1) = false)
    (hnone : ∀ f, f + count ≤ page → ¬s.Run f count) :
    (runLoop count fuel page run s = (0, s) ∧ ∀ f, f + count ≤ page + fuel → ¬s.Run f count) ∨
      ∃ f, s.Run f count ∧ (∀ g < f, ¬s.Run g count) ∧
        runLoop count fuel page run s = (f * pageSize, s.hand f count s.nextPage) := by
  induction fuel generalizing page run with
  | zero => exact .inl ⟨rfl, hnone⟩
  | succ fuel ih =>
    rw [runLoop_succ]
    cases hfree : s.isFree page with
    | false =>
      simp only [Bool.false_eq_true, if_false]
      rw [if_neg (by omega)]
      have hih := ih (page + 1) 0 (by omega) (by omega) (fun q h1 h2 => by omega)
        (.inr (by simpa using hfree)) fun f hf hr => ?_
      · rwa [show page + 1 + fuel = page + (fuel + 1) by omega] at hih
      · by_cases hlast : f + count = page + 1
        · have := hr page (by omega) (by omega)
          rw [hfree] at this
          cases this
        · exact hnone f (by omega) hr
    | true =>
      simp only [if_true]
      have hext : s.Run (page - run) (run + 1) := fun q h1 h2 => by
        by_cases hq : q = page
        · rw [hq, hfree]
        · exact hrun q h1 (by omega)
      by_cases hfull : run + 1 = count
      · rw [if_pos hfull]
        have hfirst : page + 1 - count = page - run := by omega
        refine .inr ⟨page - run, hfull ▸ hext, fun g hg hr => ?_, by rw [hfirst]⟩
        rcases hmax with hz | hz
        · omega
        · by_cases hend : g + count ≤ page
          · exact hnone g hend hr
          · have := hr (page - run - 1) (by omega) (by omega)
            rw [hz] at this
            cases this
      · rw [if_neg hfull]
        have hih := ih (page + 1) (run + 1) (by omega) (by omega)
          (by rwa [Nat.add_sub_add_right]) (by
            rw [Nat.add_sub_add_right]
            rcases hmax with hz | hz
            · exact .inl (by omega)
            · exact .inr hz) fun f hf hr => ?_
        · rwa [show page + 1 + fuel = page + (fuel + 1) by omega] at hih
        · by_cases hlast : f + count = page + 1
          · -- the run would begin before the pages counted so far
            rcases hmax with hz | hz
            · omega
            · have := hr (page - run - 1) (by omega) (by omega)
              rw [hz] at this
              cases this
          · exact hnone f (by omega) hr

/-- `pmm_allocate_contiguous` hands out the lowest run of free pages when there is one. -/
theorem Valid.allocateContiguous (h : s.Valid) (hc : 0 < count) :
    ((∀ f, ¬s.Run f count) ∧ s.allocateContiguous count = (0, s)) ∨
      ∃ f, s.Run f count ∧ (∀ g < f, ¬s.Run g count) ∧ (s.hand f count s.nextPage).Valid ∧
        s.allocateContiguous count = (f * pageSize, s.hand f count s.nextPage) := by
  have hbound : ∀ f, s.Run f count → lowReservedEnd / pageSize ≤ f ∧ f + count ≤ s.pages := by
    intro f hr
    have h1 := h.managed (isFree_iff.mp (hr f (by omega) (by omega))).1
    have h2 := h.managed (isFree_iff.mp (hr (f + count - 1) (by omega) (by omega))).1
    omega
  by_cases hle : count ≤ s.freePages
  · have hloop : s.allocateContiguous count =
        runLoop count (s.pages - lowReservedEnd / pageSize) (lowReservedEnd / pageSize) 0 s := by
      have hc0 : count ≠ 0 := by omega
      simp [Pmm.allocateContiguous, h.ready, hc0, hle]
    have hlow : lowReservedEnd / pageSize = 0 ∨ s.isFree (lowReservedEnd / pageSize - 0 - 1) = false := by
      refine .inr (Bool.eq_false_iff.mpr fun hf => ?_)
      have hm := h.managed (isFree_iff.mp hf).1
      unfold lowReservedEnd pageSize at hm
      omega
    rcases runLoop_spec (s := s) (s.pages - lowReservedEnd / pageSize) _ _ hc (Nat.zero_le _)
      (fun q h1 h2 => by omega) hlow (fun f hf hr => by have := hbound f hr; omega) with ⟨h1, h2⟩ | ⟨f, h1, h2, h3⟩
    · refine .inl ⟨fun f hr => h2 f ?_ hr, hloop.trans h1⟩
      have := hbound f hr
      omega
    · exact .inr ⟨f, h1, h2, h.hand (fun q hq hq' => h.mem_free.mpr (h1 q hq hq')) h.next h.cursor, hloop.trans h3⟩
  · refine .inl ⟨fun f hr => hle ?_, ?_⟩
    · have hsub : Finset.Ico f (f + count) ⊆ s.free := fun q hq =>
        h.mem_free.mpr (hr q (Finset.mem_Ico.mp hq).1 (Finset.mem_Ico.mp hq).2)
      have hcard := Finset.card_le_card hsub
      rw [Nat.card_Ico, ← h.freePages] at hcard
      omega
    · simp [Pmm.allocateContiguous, hle]

/-- `pmm_free_contiguous` takes back a range of which every page was handed out, and rejects any other. -/
theorem Valid.freeContiguous (h : s.Valid) (physical count : Nat) :
    (count ≠ 0 ∧ physical % pageSize = 0 ∧ (∀ i < count, s.allocated.bit (physical / pageSize + i) = true) ∧
      (s.take (physical / pageSize) count).Valid ∧
      s.freeContiguous physical count = (true, s.take (physical / pageSize) count)) ∨
    (¬(count ≠ 0 ∧ physical % pageSize = 0 ∧ ∀ i < count, s.allocated.bit (physical / pageSize + i) = true) ∧
      s.freeContiguous physical count = (false, s)) := by
  by_cases hok : count ≠ 0 ∧ physical % pageSize = 0 ∧ ∀ i < count, s.allocated.bit (physical / pageSize + i) = true
  · obtain ⟨hc, hmod, hall⟩ := hok
    have hlast := h.managed (h.owned (hall (count - 1) (by omega)))
    have hmod' := h.limit_mod
    have hlt : physical < s.limit ∧ count ≤ (s.limit - physical) / pageSize := by
      unfold Pmm.pages pageSize at *
      omega
    have hmanaged : ∀ i < count, s.managed.bit (physical / pageSize + i) = true ∧
        s.allocated.bit (physical / pageSize + i) = true := fun i hi => ⟨h.owned (hall i hi), hall i hi⟩
    refine .inl ⟨hc, hmod, hall, (h.take fun page h1 h2 => ?_).1, ?_⟩
    · have := hall (page - physical / pageSize) (by omega)
      rwa [Nat.add_sub_cancel' h1] at this
    · unfold Pmm.freeContiguous
      simp only
      rw [if_pos]
      · rfl
      · simpa [h.ready, hc, hmod, hlt] using hmanaged
  · refine .inr ⟨hok, if_neg fun hv => hok ?_⟩
    simp only [Bool.and_eq_true, bne_iff_ne, beq_iff_eq, decide_eq_true_eq, List.all_eq_true, List.mem_range] at hv
    exact ⟨hv.1.1.1.1.2, hv.1.1.1.2, fun i hi => (hv.2 i hi).2⟩

lemma Valid.freePage_eq (h : s.Valid) (physical : Nat) : s.freePage physical = s.freeContiguous physical 1 := by
  have hiff : s.isAllocated physical = true ↔ physical % pageSize = 0 ∧
      s.allocated.bit (physical / pageSize) = true := by
    simp only [isAllocated, isManaged, h.ready, Bool.true_and, Bool.and_eq_true, beq_iff_eq, decide_eq_true_eq]
    constructor
    · rintro ⟨⟨⟨h1, -⟩, -⟩, h2⟩
      exact ⟨h1, h2⟩
    · rintro ⟨h1, h2⟩
      have hm := h.owned h2
      have hb := h.managed hm
      refine ⟨⟨⟨h1, ?_⟩, hm⟩, h2⟩
      unfold Pmm.pages pageSize at *
      omega
  unfold Pmm.freePage
  rcases h.freeContiguous physical 1 with ⟨-, h1, h2, -, h3⟩ | ⟨h1, h2⟩
  · rw [if_pos (hiff.mpr ⟨h1, h2 0 (by omega)⟩), h3]
    rfl
  · rw [if_neg fun hv => h1 ?_, h2]
    obtain ⟨ha, hb⟩ := hiff.mp hv
    refine ⟨by omega, ha, fun i hi => ?_⟩
    obtain rfl : i = 0 := by omega
    exact hb

end Pmm

/-! ## Runs -/

inductive PmmCall where
  | allocatePage
  | allocateContiguous (count : Nat)
  | freePage (physical : Nat)
  | freeContiguous (physical count : Nat)

namespace PmmCall

def next (s : Pmm) : PmmCall → Pmm
  | allocatePage => s.allocatePage.2
  | allocateContiguous count => (s.allocateContiguous count).2
  | freePage physical => (s.freePage physical).2
  | freeContiguous physical count => (s.freeContiguous physical count).2

/-- The page range `[first, first + count)` as a set; no page when the address is 0. -/
def range (physical count : Nat) : Finset Nat :=
  if physical = 0 then ∅ else Finset.Ico (physical / pageSize) (physical / pageSize + count)

def handed (s : Pmm) : PmmCall → Finset Nat
  | allocatePage => range s.allocatePage.1 1
  | allocateContiguous count => range (s.allocateContiguous count).1 count
  | _ => ∅

def returned (s : Pmm) : PmmCall → Finset Nat
  | freePage physical => if (s.freePage physical).1 then range physical 1 else ∅
  | freeContiguous physical count => if (s.freeContiguous physical count).1 then range physical count else ∅
  | _ => ∅

/-- What the answer of a call means for the free pages. -/
def Answers (s : Pmm) : PmmCall → Prop
  | allocatePage =>
    (s.allocatePage.1 = 0 ↔ s.free = ∅) ∧ s.allocatePage.1 % pageSize = 0 ∧
      (s.allocatePage.1 = 0 → s.allocatePage.2 = s)
  | allocateContiguous count =>
    (s.allocateContiguous count).1 % pageSize = 0 ∧
    ((s.allocateContiguous count).1 = 0 → (s.allocateContiguous count).2 = s) ∧
    (0 < count → ((s.allocateContiguous count).1 = 0 ↔ ∀ first, ¬s.Run first count) ∧
      ((s.allocateContiguous count).1 ≠ 0 → s.Run ((s.allocateContiguous count).1 / pageSize) count ∧
        ∀ first < (s.allocateContiguous count).1 / pageSize, ¬s.Run first count))
  | freePage physical =>
    ((s.freePage physical).1 = true ↔ physical % pageSize = 0 ∧ s.allocated.bit (physical / pageSize) = true) ∧
    ((s.freePage physical).1 = false → (s.freePage physical).2 = s)
  | freeContiguous physical count =>
    ((s.freeContiguous physical count).1 = true ↔ count ≠ 0 ∧ physical % pageSize = 0 ∧
      ∀ i < count, s.allocated.bit (physical / pageSize + i) = true) ∧
    ((s.freeContiguous physical count).1 = false → (s.freeContiguous physical count).2 = s)

/-- What one call does: it keeps the invariant, hands out free pages only, and frees what it takes back. -/
structure Step (s : Pmm) (call : PmmCall) : Prop where
  valid : (call.next s).Valid
  answers : call.Answers s
  handed : call.handed s ⊆ s.free
  free : (call.next s).free = (s.free \ call.handed s) ∪ call.returned s

variable {s : Pmm} {page physical count first next : Nat}

lemma range_page (h : page ≠ 0) : range (page * pageSize) count = Finset.Ico page (page + count) := by
  unfold range pageSize
  rw [if_neg (by omega), Nat.mul_div_cancel _ (by omega)]

section
variable (h : s.Valid)
include h

lemma page_ne_zero (hp : page ∈ s.free) : page ≠ 0 := by
  have hm := h.managed (Pmm.isFree_iff.mp (h.mem_free.mp hp)).1
  unfold lowReservedEnd pageSize at hm
  omega

lemma step_allocatePage : Step s allocatePage := by
  rcases h.allocatePage with ⟨hempty, he⟩ | ⟨page, hp, next, hv, he⟩
  · refine ⟨?_, ⟨?_, ?_, ?_⟩, ?_, ?_⟩ <;>
      simp [PmmCall.next, PmmCall.handed, PmmCall.returned, he, h, hempty, range]
  · have h0 := page_ne_zero h hp
    have hpos : 0 < pageSize := by decide
    refine ⟨?_, ⟨?_, ?_, ?_⟩, ?_, ?_⟩
    · simpa only [PmmCall.next, he] using hv
    · rw [he]
      exact ⟨fun hz => absurd hz (by simp; omega), fun hempty => by simp [hempty] at hp⟩
    · rw [he]
      exact Nat.mul_mod_left page pageSize
    · rw [he]
      exact fun hz => absurd hz (by simp; omega)
    · rw [PmmCall.handed, he, range_page h0]
      intro q hq
      obtain rfl : q = page := by
        have := Finset.mem_Ico.mp hq
        omega
      exact hp
    · simp only [PmmCall.next, PmmCall.handed, PmmCall.returned, he, range_page h0, Pmm.free_hand, Finset.union_empty]

lemma step_allocateContiguous : Step s (allocateContiguous count) := by
  have hnone (he : s.allocateContiguous count = (0, s)) (hr : 0 < count → ∀ f, ¬s.Run f count) :
      Step s (allocateContiguous count) := by
    refine ⟨?_, ⟨?_, ?_, fun hc => ⟨?_, ?_⟩⟩, ?_, ?_⟩
    · simpa only [PmmCall.next, he] using h
    · rw [he]
      rfl
    · rw [he]
      exact fun _ => rfl
    · rw [he]
      exact ⟨fun _ => hr hc, fun _ => rfl⟩
    · rw [he]
      exact fun hz => absurd rfl hz
    · simp [PmmCall.handed, he, range]
    · simp [PmmCall.next, PmmCall.handed, PmmCall.returned, he, range]
  by_cases hc : 0 < count
  · rcases h.allocateContiguous hc with ⟨hr, he⟩ | ⟨first, hrun, hmin, hv, he⟩
    · exact hnone he fun _ => hr
    · have hmem : ∀ q, first ≤ q → q < first + count → q ∈ s.free := fun q h1 h2 => h.mem_free.mpr (hrun q h1 h2)
      have h0 := page_ne_zero h (hmem first (by omega) (by omega))
      have hpos : 0 < pageSize := by decide
      have hne : first * pageSize ≠ 0 := by simp; omega
      have hdiv : first * pageSize / pageSize = first := Nat.mul_div_cancel _ hpos
      refine ⟨?_, ⟨?_, ?_, fun _ => ⟨?_, ?_⟩⟩, ?_, ?_⟩
      · simpa only [PmmCall.next, he] using hv
      · rw [he]
        exact Nat.mul_mod_left first pageSize
      · rw [he]
        exact fun hz => absurd hz hne
      · rw [he]
        exact ⟨fun hz => absurd hz hne, fun hr => absurd hrun (hr first)⟩
      · simp only [he, hdiv]
        exact fun _ => ⟨hrun, hmin⟩
      · rw [PmmCall.handed, he, range_page h0]
        exact fun q hq => hmem q (Finset.mem_Ico.mp hq).1 (Finset.mem_Ico.mp hq).2
      · simp only [PmmCall.next, PmmCall.handed, PmmCall.returned, he, range_page h0, Pmm.free_hand,
          Finset.union_empty]
  · refine hnone ?_ fun hc' => absurd hc' hc
    have : count = 0 := by omega
    simp [Pmm.allocateContiguous, this]

lemma step_freeContiguous (physical count : Nat) : Step s (freeContiguous physical count) := by
  rcases h.freeContiguous physical count with ⟨hc, hm, hall, hv, he⟩ | ⟨hno, he⟩
  · have hphys : physical ≠ 0 := by
      have hb := h.managed (h.owned (hall 0 (by omega)))
      rintro rfl
      simp [lowReservedEnd, pageSize] at hb
    have htake := (h.take fun page (h1 : physical / pageSize ≤ page) (h2 : page < physical / pageSize + count) => by
      have := hall (page - physical / pageSize) (by omega)
      rwa [Nat.add_sub_cancel' h1] at this).2
    refine ⟨by simpa only [PmmCall.next, he] using hv, ⟨?_, ?_⟩, ?_, ?_⟩
    · rw [he]
      exact ⟨fun _ => ⟨hc, hm, hall⟩, fun _ => rfl⟩
    · rw [he]
      exact fun hf => absurd hf (by simp)
    · simp [PmmCall.handed]
    · simp only [PmmCall.next, PmmCall.handed, PmmCall.returned, he, if_true, Finset.sdiff_empty, range,
        if_neg hphys, htake]
  · refine ⟨by simpa only [PmmCall.next, he] using h, ⟨?_, ?_⟩, ?_, ?_⟩
    · rw [he]
      exact ⟨fun hf => absurd hf (by simp), fun hy => absurd hy hno⟩
    · rw [he]
      exact fun _ => rfl
    · simp [PmmCall.handed]
    · simp [PmmCall.next, PmmCall.handed, PmmCall.returned, he]

lemma step_freePage : Step s (freePage physical) := by
  have he := h.freePage_eq physical
  have hs := step_freeContiguous h physical 1
  refine ⟨?_, ⟨?_, ?_⟩, ?_, ?_⟩
  · simpa only [PmmCall.next, he] using hs.valid
  · rw [he]
    refine hs.answers.1.trans ⟨fun hy => ⟨hy.2.1, hy.2.2 0 (by omega)⟩, fun hy => ⟨by omega, hy.1, fun i hi => ?_⟩⟩
    obtain rfl : i = 0 := by omega
    exact hy.2
  · rw [he]
    exact hs.answers.2
  · simp [PmmCall.handed]
  · simpa only [PmmCall.next, PmmCall.handed, PmmCall.returned, he] using hs.free

lemma next_managed (call : PmmCall) : (call.next s).managed = s.managed := by
  cases call with
  | allocatePage =>
    rcases h.allocatePage with ⟨-, he⟩ | ⟨_, -, _, -, he⟩ <;> exact congrArg (Pmm.managed ·.2) he
  | allocateContiguous count =>
    rcases Nat.eq_zero_or_pos count with rfl | hc
    · simp [PmmCall.next, Pmm.allocateContiguous]
    · rcases h.allocateContiguous hc with ⟨-, he⟩ | ⟨_, -, -, -, he⟩ <;> exact congrArg (Pmm.managed ·.2) he
  | freePage physical =>
    unfold PmmCall.next Pmm.freePage
    dsimp only
    split <;> rfl
  | freeContiguous physical count =>
    unfold PmmCall.next Pmm.freeContiguous
    dsimp only
    split <;> rfl

/-- **One call** of the allocator. -/
theorem step (call : PmmCall) : call.Step s := by
  cases call with
  | allocatePage => exact step_allocatePage h
  | allocateContiguous count => exact step_allocateContiguous h
  | freePage physical => exact step_freePage h
  | freeContiguous physical count => exact step_freeContiguous h physical count

/-- What is allocated after a call: what it hands out, and what was before and it does not take back. -/
lemma allocated_next (call : PmmCall) : (call.next s).allocated.bit page = true ↔
    page ∈ call.handed s ∨ s.allocated.bit page = true ∧ page ∉ call.returned s := by
  have hs := call.step h
  have hmanaged : page ∈ s.free → s.managed.bit page = true := fun hp => (Pmm.isFree_iff.mp (h.mem_free.mp hp)).1
  have hhanded : page ∈ call.handed s → page ∈ s.free := @hs.handed page
  have hone : page ∈ call.handed s → page ∉ call.returned s := by
    cases call <;> simp [PmmCall.handed, PmmCall.returned]
  rw [hs.valid.allocated_iff, h.allocated_iff, next_managed h, hs.free, Finset.mem_union, Finset.mem_sdiff]
  constructor
  · rintro ⟨hm, hno⟩
    by_cases hp : page ∈ call.handed s
    · exact .inl hp
    · exact .inr ⟨⟨hm, fun hf => hno (.inl ⟨hf, hp⟩)⟩, fun hr => hno (.inr hr)⟩
  · rintro (hp | ⟨⟨hm, hf⟩, hr⟩)
    · exact ⟨hmanaged (hhanded hp), fun hno => hno.elim (fun h' => h'.2 hp) (hone hp)⟩
    · exact ⟨hm, fun hno => hno.elim (fun h' => hf h'.1) hr⟩

end

end PmmCall

/-- The state after a sequence of calls. -/
def runCalls (calls : List PmmCall) (s : Pmm) : Pmm := calls.foldl (fun s call => call.next s) s

lemma runCalls_valid {s : Pmm} (h : s.Valid) (calls : List PmmCall) : (runCalls calls s).Valid := by
  induction calls generalizing s with
  | nil => exact h
  | cons call calls ih => exact ih (call.step h).valid

lemma free_of_runCalls {s : Pmm} {page : Nat} (h : s.Valid) (calls : List PmmCall)
    (hp : page ∈ (runCalls calls s).free) :
    page ∈ s.free ∨ ∃ pre call post, calls = pre ++ call :: post ∧ page ∈ call.returned (runCalls pre s) := by
  induction calls generalizing s with
  | nil => exact .inl hp
  | cons call calls ih =>
    rcases ih (call.step h).valid hp with hfree | ⟨pre, c, post, rfl, hc⟩
    · rw [(call.step h).free, Finset.mem_union, Finset.mem_sdiff] at hfree
      rcases hfree with ⟨hfree, -⟩ | hret
      · exact .inl hfree
      · exact .inr ⟨[], call, calls, rfl, hret⟩
    · exact .inr ⟨call :: pre, c, post, rfl, hc⟩

lemma handed_twice {s : Pmm} {page : Nat} (h : s.Valid) (call : PmmCall) (mid : List PmmCall) (call' : PmmCall)
    (hp : page ∈ call.handed s) (hp' : page ∈ call'.handed (runCalls mid (call.next s))) :
    ∃ pre c post, mid = pre ++ c :: post ∧ page ∈ c.returned (runCalls pre (call.next s)) := by
  have hs := call.step h
  have hfree := (call'.step (runCalls_valid hs.valid mid)).handed hp'
  rcases free_of_runCalls hs.valid mid hfree with hbad | hgood
  · rw [hs.free, Finset.mem_union, Finset.mem_sdiff] at hbad
    rcases hbad with ⟨-, hno⟩ | hret
    · exact absurd hp hno
    · cases call <;> simp [PmmCall.handed, PmmCall.returned] at hp hret
  · exact hgood

/-- The call is turned away: no page, no change. -/
def PmmCall.Refused (s : Pmm) : PmmCall → Prop
  | allocatePage => s.allocatePage = (0, s)
  | allocateContiguous count => s.allocateContiguous count = (0, s)
  | freePage physical => s.freePage physical = (false, s)
  | freeContiguous physical count => s.freeContiguous physical count = (false, s)

lemma PmmCall.refused {s : Pmm} (h : s.ready = false) (call : PmmCall) : call.Refused s := by
  cases call with
  | allocatePage => simp [Refused, Pmm.allocatePage, h]
  | allocateContiguous count => simp [Refused, Pmm.allocateContiguous, h]
  | freePage physical => simp [Refused, Pmm.freePage, Pmm.isAllocated, Pmm.isManaged, h]
  | freeContiguous physical count => simp [Refused, Pmm.freeContiguous, h]

lemma PmmCall.Refused.next {s : Pmm} {call : PmmCall} (h : call.Refused s) : call.next s = s := by
  cases call <;> exact congrArg Prod.snd h

end RumKernel.Mm
