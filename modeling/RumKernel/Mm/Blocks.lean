import RumKernel.Lib.Doubly
import RumKernel.Mm.Heap

/-!
# The block list of the heap

The abstract heap is a list of extents, one behind the other from the start of the window. Here is how the headers hold
it, and what splitting, joining and growing do to it.
-/

namespace RumKernel.Mm
open Function Lib

variable {fuel growth size : Nat} {P : Nat → Block → Bool}

/-- What a block is apart from its links. -/
@[ext]
structure Extent where
  size : Nat
  free : Bool
deriving DecidableEq

def Block.extent (b : Block) : Extent := ⟨b.size, b.free⟩

lemma size_of_extent {b : Block} {e : Extent} (h : b.extent = e) : b.size = e.size := congrArg Extent.size h

lemma free_of_extent {b : Block} {e : Extent} (h : b.extent = e) : b.free = e.free := congrArg Extent.free h

/-- The bytes of a list of extents, with their headers. -/
def span (es : List Extent) : Nat := (es.map fun e => headerSize + e.size).sum

/-- The extents one behind the other. -/
def place (a : Nat) : List Extent → List (Nat × Extent)
  | [] => []
  | e :: es => (a, e) :: place (a + (headerSize + e.size)) es

variable {a b : Nat} {e d : Extent} {es xs ys : List Extent} {x : Nat × Extent}

@[simp]
lemma span_nil : span [] = 0 := rfl

@[simp]
lemma span_cons : span (e :: es) = headerSize + e.size + span es := List.sum_cons

@[simp]
lemma span_append : span (xs ++ ys) = span xs + span ys := by simp [span]

lemma place_append : place a (xs ++ ys) = place a xs ++ place (a + span xs) ys := by
  induction xs generalizing a with
  | nil => rfl
  | cons e es ih => simp only [List.cons_append, place, ih, span_cons, Nat.add_assoc]

lemma mem_place (h : x ∈ place a es) : a ≤ x.1 ∧ x.1 + (headerSize + x.2.size) ≤ a + span es := by
  induction es generalizing a with
  | nil => cases h
  | cons e es ih =>
    rw [span_cons]
    rcases List.mem_cons.mp h with rfl | h
    · exact ⟨Nat.le_refl _, by dsimp only; omega⟩
    · have := ih h
      omega

lemma place_ne (h : x ∈ place a es) (hb : b < a ∨ a + span es ≤ b) : x.1 ≠ b := by
  have := mem_place h
  have : 0 < headerSize := by decide
  omega

lemma following_place (h : es ≠ []) : following (place a es) none = some a := by
  cases es with
  | nil => exact absurd rfl h
  | cons e es => rfl

lemma preceding_place {p q : Option Nat} (h : es ≠ []) : preceding p (place a es) = preceding q (place a es) := by
  cases es with
  | nil => exact absurd rfl h
  | cons e es => rw [place, preceding_cons, preceding_cons]

/-! ## Joining neighbours -/

def Extent.join (e d : Extent) : Extent := { e with size := e.size + (headerSize + d.size) }

/-- A free extent in front of a free one takes it in. -/
def fuse (e : Extent) : List Extent → List Extent
  | [] => [e]
  | d :: es => if e.free && d.free then e.join d :: es else e :: d :: es

/-- Free neighbours are joined. -/
def coalesce (es : List Extent) : List Extent := es.foldr fuse []

def Extent.Apart (e d : Extent) : Prop := ¬(e.free = true ∧ d.free = true)

/-- What holds of the extents of a heap. -/
structure Proper (es : List Extent) : Prop where
  aligned : ∀ e ∈ es, e.size % heapAlignment = 0
  apart : es.IsChain Extent.Apart

/-- The extents in use, with their addresses. -/
def live (a : Nat) (es : List Extent) : List (Nat × Nat) :=
  ((place a es).filter fun x => !x.2.free).map fun x => (x.1, x.2.size)

lemma fuse_cons : fuse e (d :: es) = if e.free && d.free then e.join d :: es else e :: d :: es := rfl

lemma fuse_used (h : e.free = false) : fuse e es = e :: es := by
  cases es with
  | nil => rfl
  | cons d es => simp [fuse_cons, h]

@[simp]
lemma span_fuse : span (fuse e es) = span (e :: es) := by
  cases es with
  | nil => rfl
  | cons d es =>
    rw [fuse_cons]
    split
    · simp only [span_cons, Extent.join]
      omega
    · rfl

@[simp]
lemma span_coalesce : span (coalesce es) = span es := by
  induction es with
  | nil => rfl
  | cons e es ih =>
    change span (fuse e (coalesce es)) = _
    rw [span_fuse, span_cons, ih, span_cons]

lemma live_cons : live a (e :: es) = (if e.free then [] else [(a, e.size)]) ++ live (a + (headerSize + e.size)) es := by
  unfold live
  cases h : e.free <;> simp [place, h]

lemma live_append : live a (xs ++ ys) = live a xs ++ live (a + span xs) ys := by
  simp [live, place_append]

@[simp]
lemma live_fuse : live a (fuse e es) = live a (e :: es) := by
  cases es with
  | nil => rfl
  | cons d es =>
    rw [fuse_cons]
    split
    · rename_i hf
      obtain ⟨he, hd⟩ := Bool.and_eq_true_iff.mp hf
      have ha : a + (headerSize + (e.join d).size) = a + (headerSize + e.size) + (headerSize + d.size) := by
        simp only [Extent.join]
        omega
      rw [live_cons, live_cons, live_cons, ha]
      simp [Extent.join, he, hd]
    · rfl

@[simp]
lemma live_coalesce : live a (coalesce es) = live a es := by
  induction es generalizing a with
  | nil => rfl
  | cons e es ih =>
    change live a (fuse e (coalesce es)) = _
    rw [live_fuse, live_cons, live_cons, ih]

namespace Proper

lemma nil : Proper [] := ⟨nofun, .nil⟩

lemma append (h : Proper (xs ++ ys)) : Proper xs ∧ Proper ys := by
  obtain ⟨h1, h2, -⟩ := List.isChain_append.mp h.apart
  exact ⟨⟨fun e he => h.aligned e (List.mem_append_left _ he), h1⟩,
    ⟨fun e he => h.aligned e (List.mem_append_right _ he), h2⟩⟩

lemma fuse (h : Proper es) (he : e.size % heapAlignment = 0) : Proper (fuse e es) := by
  cases es with
  | nil => exact ⟨fun d hd => List.mem_singleton.mp hd ▸ he, .singleton _⟩
  | cons d es =>
    have hd := h.aligned d (.head _)
    rw [fuse_cons]
    split
    · rename_i hf
      rw [Bool.and_eq_true] at hf
      refine ⟨fun x hx => ?_, ?_⟩
      · rcases List.mem_cons.mp hx with rfl | hx
        · simp only [Extent.join, heapAlignment, headerSize] at he hd ⊢
          omega
        · exact h.aligned x (.tail _ hx)
      · refine List.isChain_cons.mpr ⟨fun y hy => ?_, h.apart.tail⟩
        have := (List.isChain_cons.mp h.apart).1 y hy
        unfold Extent.Apart at this ⊢
        rw [hf.2] at this
        exact fun hj => this ⟨rfl, hj.2⟩
    · rename_i hf
      refine ⟨fun x hx => ?_, List.isChain_cons_cons.mpr ⟨fun hj => ?_, h.apart⟩⟩
      · rcases List.mem_cons.mp hx with rfl | hx
        · exact he
        · exact h.aligned x hx
      · exact hf (Bool.and_eq_true_iff.mpr hj)

lemma coalesce (h : ∀ e ∈ es, e.size % heapAlignment = 0) : Proper (coalesce es) := by
  induction es with
  | nil => exact nil
  | cons e es ih => exact (ih fun d hd => h d (.tail _ hd)).fuse (h e (.head _))

lemma insert (hx : Proper xs) (hy : Proper ys) (hf : e.free = false) (he : e.size % heapAlignment = 0) :
    Proper (xs ++ e :: ys) := by
  refine ⟨fun d hd => ?_, ?_⟩
  · rcases List.mem_append.mp hd with hd | hd
    · exact hx.aligned d hd
    · rcases List.mem_cons.mp hd with rfl | hd
      · exact he
      · exact hy.aligned d hd
  · refine List.isChain_append.mpr ⟨hx.apart, List.isChain_cons.mpr ⟨fun y _ hj => ?_, hy.apart⟩, fun x _ y hy hj => ?_⟩
    · cases hf.symm.trans hj.1
    · obtain rfl := Option.some.inj hy
      cases hf.symm.trans hj.2

end Proper

lemma foldr_fuse (hx : Proper (xs ++ ys)) : xs.foldr fuse ys = xs ++ ys := by
  induction xs with
  | nil => rfl
  | cons e es ih =>
    have htail : Proper (es ++ ys) := ⟨fun d hd => hx.aligned d (.tail _ hd), hx.apart.tail⟩
    rw [List.foldr_cons, ih htail]
    cases h : es ++ ys with
    | nil =>
      rw [List.cons_append, h]
      rfl
    | cons d ds =>
      have hap : e.Apart d := (List.isChain_cons_cons.mp (h ▸ hx.apart : (e :: d :: ds).IsChain _)).1
      rw [List.cons_append, h]
      exact if_neg fun hf => hap (Bool.and_eq_true_iff.mp hf)

lemma coalesce_append : coalesce (xs ++ ys) = xs.foldr fuse (coalesce ys) := List.foldr_append ..

lemma coalesce_proper (h : Proper es) : coalesce es = es := by
  have happ : Proper (es ++ []) := by rwa [List.append_nil]
  have := foldr_fuse happ
  rwa [List.append_nil] at this

lemma Proper.fuse_append (h : Proper (xs ++ [e])) (hy : Proper ys) : Proper (xs ++ Mm.fuse e ys) := by
  have hf := hy.fuse (h.aligned e (by simp))
  obtain ⟨h1, -, h3⟩ := List.isChain_append.mp h.apart
  refine ⟨fun d hd => ?_, List.isChain_append.mpr ⟨h1, hf.apart, fun x hx y hm => ?_⟩⟩
  · rcases List.mem_append.mp hd with hd | hd
    · exact h.append.1.aligned d hd
    · exact hf.aligned d hd
  · -- what is in front sees the same extent, free or not
    have hfree : y.free = e.free := by
      cases ys with
      | nil => rw [← Option.some.inj hm]
      | cons d ys =>
        rw [fuse_cons] at hm
        split at hm
        · rw [← Option.some.inj hm]
          rfl
        · rw [← Option.some.inj hm]
    have := h3 x hx e rfl
    unfold Extent.Apart at this ⊢
    rwa [hfree]

lemma exists_of_mem_place (h : x ∈ place a es) : ∃ xs ys, es = xs ++ x.2 :: ys ∧ x.1 = a + span xs := by
  induction es generalizing a with
  | nil => cases h
  | cons e es ih =>
    rcases List.mem_cons.mp h with rfl | h
    · exact ⟨[], es, rfl, rfl⟩
    · obtain ⟨xs, ys, rfl, he⟩ := ih h
      exact ⟨e :: xs, ys, rfl, by rw [he, span_cons, Nat.add_assoc]⟩

lemma length_le_span : es.length * headerSize ≤ span es := by
  induction es with
  | nil => exact Nat.le_refl _
  | cons e es ih =>
    rw [List.length_cons, span_cons, Nat.succ_mul]
    omega

namespace Heap

variable {π : Type} {h : Heap π}

/-- The memory holds extents from `a` on, between two blocks. -/
def Row (h : Heap π) (p : Option Nat) (a : Nat) (es : List Extent) (n : Option Nat) : Prop :=
  Held Block.extent Block.previous Block.next h.headers p (place a es) n

structure Holds (h : Heap π) (es : List Extent) : Prop where
  row : h.Row none heapBase es none
  first : h.first = following (place heapBase es) none
  last : h.last = preceding none (place heapBase es)
  mapped : h.mapped = span es

variable {p p' n : Option Nat} {block : Block}

lemma row_append : h.Row p a (xs ++ ys) n ↔
    h.Row p a xs (following (place (a + span xs) ys) n) ∧ h.Row (preceding p (place a xs)) (a + span xs) ys n := by
  unfold Row
  rw [place_append, Held.append]

lemma row_cons : h.Row p a (e :: es) n ↔ (h.headers a).extent = e ∧ (h.headers a).previous = p ∧
    (h.headers a).next = following (place (a + (headerSize + e.size)) es) n ∧
    h.Row (some a) (a + (headerSize + e.size)) es n := .rfl

lemma Row.write (hr : h.Row p a es n) (hb : b < a ∨ a + span es ≤ b) : (h.write b block).Row p a es n :=
  hr.congr fun _ hx => update_of_ne (place_ne hx hb) ..

lemma Row.write_head (hr : h.Row p a (e :: es) n) (he : block.extent = d) (hs : d.size = e.size)
    (hp : block.previous = p') (hn : block.next = (h.headers a).next) : (h.write a block).Row p' a (d :: es) n := by
  obtain ⟨h1, h2, h3, h4⟩ := row_cons.mp hr
  have hw : (h.write a block).headers a = block := update_self ..
  refine row_cons.mpr ⟨?_, ?_, ?_, ?_⟩
  · rw [hw, he]
  · rw [hw, hp]
  · rw [hw, hn, h3, hs]
  · rw [hs]
    exact h4.write (.inl (by have : 0 < headerSize := by decide
                             omega))

/-- Changes that leave alone all but the headers and the last block. -/
structure Keeps (h h' : Heap π) : Prop where
  first : h'.first = h.first
  mapped : h'.mapped = h.mapped
  ready : h'.ready = h.ready
  data : h'.data = h.data
  pages : h'.pages = h.pages

lemma Keeps.refl (h : Heap π) : h.Keeps h := ⟨rfl, rfl, rfl, rfl, rfl⟩

lemma Keeps.trans {h h' h'' : Heap π} (h1 : h.Keeps h') (h2 : h'.Keeps h'') : h.Keeps h'' where
  first := h2.first.trans h1.first
  mapped := h2.mapped.trans h1.mapped
  ready := h2.ready.trans h1.ready
  data := h2.data.trans h1.data
  pages := h2.pages.trans h1.pages

lemma headers_write (h : Heap π) (a : Nat) (block : Block) : (h.write a block).headers a = block := update_self ..

lemma keeps_write (h : Heap π) (a : Nat) (block : Block) : h.Keeps (h.write a block) := ⟨rfl, rfl, rfl, rfl, rfl⟩

/-! ## Pointing back -/

lemma keeps_pointBack (h : Heap π) (a : Nat) : h.Keeps (h.pointBack a) := by
  unfold pointBack
  split <;> exact ⟨rfl, rfl, rfl, rfl, rfl⟩

section pointBack

variable {c : Nat} (hn : (h.headers a).next = following (place c es) none)
include hn

lemma headers_pointBack (hb : b < c) : (h.pointBack a).headers b = h.headers b := by
  unfold pointBack
  cases es with
  | nil =>
    rw [hn]
    rfl
  | cons e es =>
    rw [hn]
    exact update_of_ne hb.ne ..

lemma row_pointBack (hr : h.Row p c es none) : (h.pointBack a).Row (some a) c es none := by
  unfold pointBack
  cases es with
  | nil => trivial
  | cons e es =>
    rw [hn]
    exact hr.write_head (row_cons.mp hr).1 rfl rfl rfl

lemma last_pointBack (hl : es ≠ [] → h.last = preceding none (place c es)) :
    (h.pointBack a).last = preceding (some a) (place c es) := by
  unfold pointBack
  cases es with
  | nil =>
    rw [hn]
    rfl
  | cons e es =>
    rw [hn]
    exact hl nofun

end pointBack

/-! ## The heap around a block -/

/-- The address of the block behind some extents. -/
abbrev behind (xs : List Extent) : Nat := heapBase + span xs

lemma holds_iff : h.Holds (xs ++ e :: ys) ↔ h.Row none heapBase xs (some (behind xs)) ∧
    h.Row (preceding none (place heapBase xs)) (behind xs) (e :: ys) none ∧
    h.first = following (place heapBase xs) (some (behind xs)) ∧
    h.last = preceding (some (behind xs)) (place (behind xs + (headerSize + e.size)) ys) ∧
        h.mapped = span (xs ++ e :: ys) := by
  have hf : following (place heapBase (xs ++ e :: ys)) none = following (place heapBase xs) (some (behind xs)) := by
    rw [place_append, following_append]
    rfl
  have hl : preceding none (place heapBase (xs ++ e :: ys)) =
      preceding (some (behind xs)) (place (behind xs + (headerSize + e.size)) ys) := by
    rw [place_append, preceding_append]
    exact preceding_cons ..
  constructor
  · rintro ⟨h1, h2, h3, h4⟩
    obtain ⟨g1, g2⟩ := row_append.mp h1
    exact ⟨g1, g2, h2.trans hf, h3.trans hl, h4⟩
  · rintro ⟨g1, g2, h2, h3, h4⟩
    exact ⟨row_append.mpr ⟨g1, g2⟩, h2.trans hf.symm, h3.trans hl.symm, h4⟩

lemma Row.below {h' : Heap π} (hr : h.Row p a es n) (he : ∀ b < a + span es, h'.headers b = h.headers b) :
    h'.Row p a es n :=
  hr.congr fun x hx => he _ (by
    have := mem_place hx
    have : 0 < headerSize := by decide
    omega)

lemma Holds.write (hh : h.Holds (xs ++ e :: ys)) (hs : d.size = e.size) (he : block.extent = d)
    (hp : block.previous = (h.headers (behind xs)).previous) (hn : block.next = (h.headers (behind xs)).next) :
    (h.write (behind xs) block).Holds (xs ++ d :: ys) := by
  obtain ⟨h1, h2, h3, h4, h5⟩ := holds_iff.mp hh
  refine holds_iff.mpr ⟨h1.write (.inr (Nat.le_refl _)), ?_, h3, ?_, ?_⟩
  · exact h2.write_head he hs (hp.trans (row_cons.mp h2).2.1) hn
  · rw [hs]
    exact h4
  · rw [show (h.write (behind xs) block).mapped = h.mapped from rfl, h5]
    simp only [span_append, span_cons, hs]

lemma Holds.joinNext (hh : h.Holds (xs ++ e :: d :: ys)) : (h.joinNext (behind xs)).Holds (xs ++ e.join d :: ys) ∧
    h.Keeps (h.joinNext (behind xs)) := by
  obtain ⟨h1, h2, h3, h4, h5⟩ := holds_iff.mp hh
  obtain ⟨e1, e2, e3, e4⟩ := row_cons.mp h2
  obtain ⟨d1, d2, d3, d4⟩ := row_cons.mp e4
  have hpos : 0 < headerSize := by decide
  have hsize : (e.join d).size = e.size + (headerSize + d.size) := rfl
  -- the header of the joined block
  obtain ⟨blk, hblk, b1, b2, b3⟩ : ∃ blk, h.joinNext (behind xs) = (h.write (behind xs) blk).pointBack (behind xs) ∧
      blk.extent = e.join d ∧ blk.previous = (h.headers (behind xs)).previous ∧
      blk.next = (h.headers (behind xs + (headerSize + e.size))).next := by
    refine ⟨{ h.headers (behind xs) with
      size := (h.headers (behind xs)).size + (headerSize + (h.headers (behind xs + (headerSize + e.size))).size)
      next := (h.headers (behind xs + (headerSize + e.size))).next }, ?_, ?_, rfl, rfl⟩
    · unfold Heap.joinNext
      rw [e3]
      rfl
    · exact congrArg₂ Extent.join e1 d1
  have hself : (h.write (behind xs) blk).headers (behind xs) = blk := update_self ..
  have hplace : behind xs + (headerSize + (e.join d).size) =
      behind xs + (headerSize + e.size) + (headerSize + d.size) := by omega
  have hn : ((h.write (behind xs) blk).headers (behind xs)).next =
      following (place (behind xs + (headerSize + (e.join d).size)) ys) none := by
    rw [hself, b3, d3, hplace]
  have hk := (keeps_write h (behind xs) blk).trans (keeps_pointBack _ (behind xs))
  rw [hblk]
  refine ⟨holds_iff.mpr ⟨?_, row_cons.mpr ⟨?_, ?_, ?_, ?_⟩, ?_, ?_, ?_⟩, hk⟩
  · refine h1.below fun b hb => ?_
    rw [headers_pointBack hn (Nat.lt_add_right _ hb)]
    exact update_of_ne hb.ne ..
  · rw [headers_pointBack hn (by omega), hself, b1]
  · rw [headers_pointBack hn (by omega), hself, b2, e2]
  · rw [headers_pointBack hn (by omega)]
    exact hn
  · refine row_pointBack hn (p := some (behind xs + (headerSize + e.size))) ?_
    rw [hplace]
    exact d4.write (.inl (by omega))
  · rw [hk.first, h3]
  · refine last_pointBack hn fun hy => ?_
    rw [show (h.write (behind xs) blk).last = h.last from rfl, h4, hplace, place, preceding_cons]
    exact preceding_place hy
  · rw [hk.mapped, h5]
    simp only [span_append, span_cons, hsize]
    omega

lemma Holds.header (hh : h.Holds (xs ++ e :: ys)) : (h.headers (behind xs)).extent = e :=
  (row_cons.mp (holds_iff.mp hh).2.1).1

lemma Holds.next (hh : h.Holds (xs ++ e :: ys)) :
    (h.headers (behind xs)).next = following (place (behind xs + (headerSize + e.size)) ys) none :=
  (row_cons.mp (holds_iff.mp hh).2.1).2.2.1

lemma behind_append_cons : behind (xs ++ [e]) = behind xs + (headerSize + e.size) := by
  simp only [behind, span_append, span_cons, span_nil]
  omega

lemma Holds.next_header (hh : h.Holds (xs ++ e :: d :: ys)) :
    (h.headers (behind xs + (headerSize + e.size))).extent = d := by
  rw [← behind_append_cons]
  have hh' : h.Holds ((xs ++ [e]) ++ d :: ys) := by
    rw [List.append_assoc]
    exact hh
  exact hh'.header

lemma Holds.joinFree (hh : h.Holds (xs ++ e :: ys)) (he : e.free = true) :
    (h.joinFree (behind xs)).Holds (xs ++ fuse e ys) ∧ h.Keeps (h.joinFree (behind xs)) := by
  unfold Heap.joinFree
  rw [hh.next]
  cases ys with
  | nil => exact ⟨hh, .refl h⟩
  | cons d ys =>
    have hd : h.isFree (following (place (behind xs + (headerSize + e.size)) (d :: ys)) none) = d.free :=
      congrArg Extent.free hh.next_header
    rw [hd, fuse_cons, he, Bool.true_and]
    split
    · exact hh.joinNext
    · exact ⟨hh, .refl h⟩

/-- What `split` leaves of a block. -/
def cut (e : Extent) (size : Nat) (ys : List Extent) : List Extent :=
  if e.size - size < headerSize + heapAlignment then e :: ys
  else ⟨size, e.free⟩ :: fuse ⟨e.size - size - headerSize, true⟩ ys

lemma Holds.carve (hh : h.Holds (xs ++ e :: ys)) (hs : size + headerSize ≤ e.size) {h₁ h₃ : Heap π} {rest : Nat}
    (hrest : rest = behind xs + (headerSize + size)) (h1 : h₁ = h.write rest
      { size := e.size - size - headerSize, previous := some (behind xs), next := (h.headers (behind xs)).next,
        free := true })
    (h3 : h₃ = (h₁.pointBack rest).write (behind xs)
      { (h₁.pointBack rest).headers (behind xs) with next := some rest, size }) :
    h₃.Holds (xs ++ ⟨size, e.free⟩ :: ⟨e.size - size - headerSize, true⟩ :: ys) ∧ h.Keeps h₃ := by
  obtain ⟨g1, g2, g3, g4, g5⟩ := holds_iff.mp hh
  obtain ⟨e1, e2, e3, e4⟩ := row_cons.mp g2
  have hpos : 0 < headerSize := by decide
  have hplace : rest + (headerSize + (e.size - size - headerSize)) = behind xs + (headerSize + e.size) := by omega
  have hself : h₁.headers rest =
      ⟨e.size - size - headerSize, some (behind xs), (h.headers (behind xs)).next, true⟩ := by
    rw [h1]
    exact update_self ..
  have hother : ∀ b ≠ rest, h₁.headers b = h.headers b := fun b hb => by
    rw [h1]
    exact update_of_ne hb ..
  have hn : (h₁.headers rest).next = following (place (behind xs + (headerSize + e.size)) ys) none := by
    rw [hself, e3]
  -- the headers below the block behind
  have hback : ∀ b < behind xs + (headerSize + e.size), (h₁.pointBack rest).headers b = h₁.headers b :=
    fun b hb => headers_pointBack hn hb
  have hblock : h₃.headers (behind xs) = { h.headers (behind xs) with next := some rest, size } := by
    rw [h3, hback _ (by omega), hother _ (by omega)]
    exact update_self ..
  have hrow : h₃.headers rest = h₁.headers rest := by
    rw [h3, ← hback _ (by omega)]
    exact update_of_ne (by omega) ..
  have hk : h.Keeps h₃ := by
    rw [h3]
    refine .trans ?_ (keeps_write _ _ _)
    refine .trans ?_ (keeps_pointBack _ _)
    rw [h1]
    exact keeps_write ..
  refine ⟨holds_iff.mpr ⟨?_, row_cons.mpr ⟨?_, ?_, ?_, row_cons.mpr ⟨?_, ?_, ?_, ?_⟩⟩, ?_, ?_, ?_⟩, hk⟩
  · refine g1.below fun b hb => ?_
    have hlt : b < behind xs := hb
    rw [h3, ← hother b (by omega), ← hback b (by omega)]
    exact update_of_ne hlt.ne ..
  · rw [hblock]
    exact congrArg (fun d : Extent => (⟨size, d.free⟩ : Extent)) e1
  · rw [hblock]
    exact e2
  · rw [hblock]
    exact congrArg some hrest
  · rw [← hrest, hrow, hself]
    rfl
  · rw [← hrest, hrow, hself]
  · rw [← hrest, hrow, hplace]
    exact hn
  · rw [← hrest, hplace, h3]
    refine Row.write (row_pointBack hn (p := some (behind xs)) ?_) (.inl (by omega))
    rw [h1]
    exact e4.write (.inl (by omega))
  · rw [hk.first, g3]
  · rw [place, preceding_cons, ← hrest, hplace, h3]
    refine last_pointBack hn fun hy => ?_
    rw [h1, show (h.write rest _).last = h.last from rfl, g4]
    exact preceding_place hy
  · rw [hk.mapped, g5]
    simp only [span_append, span_cons]
    omega

lemma Holds.split (hh : h.Holds (xs ++ e :: ys)) (hs : size ≤ e.size) :
    (h.split (behind xs) size).Holds (xs ++ cut e size ys) ∧ h.Keeps (h.split (behind xs) size) := by
  have hsize : (h.headers (behind xs)).size = e.size := congrArg Extent.size hh.header
  unfold Heap.split cut
  rw [hsize]
  split
  · exact ⟨hh, .refl h⟩
  · rename_i hc
    have hle : size + headerSize ≤ e.size := by omega
    obtain ⟨h1, h2⟩ := hh.carve hle (Nat.add_assoc ..) rfl rfl
    have hmid : ∀ {zs : List Extent} {d : Extent}, xs ++ d :: zs = (xs ++ [d]) ++ zs := by simp
    rw [hmid] at h1
    obtain ⟨h3, h4⟩ := h1.joinFree rfl
    have hb : behind (xs ++ [⟨size, e.free⟩]) = behind xs + headerSize + size := by
      rw [behind_append_cons]
      exact (Nat.add_assoc ..).symm
    rw [hb, ← hmid] at h3
    rw [hb] at h4
    exact ⟨h3, h2.trans h4⟩

lemma cut_cons (e : Extent) (size : Nat) (ys : List Extent) : ∃ d zs, ∀ free,
    cut ⟨e.size, free⟩ size ys = ⟨d, free⟩ :: zs := by
  unfold cut
  by_cases hc : e.size - size < headerSize + heapAlignment
  · exact ⟨e.size, ys, fun free => if_pos hc⟩
  · exact ⟨size, fuse ⟨e.size - size - headerSize, true⟩ ys, fun free => if_neg hc⟩

lemma Holds.take (hh : h.Holds (xs ++ e :: ys)) (hs : size ≤ e.size) :
    (h.take (behind xs) size).2.Holds (xs ++ cut ⟨e.size, false⟩ size ys) ∧ h.Keeps (h.take (behind xs) size).2 := by
  obtain ⟨h1, h2⟩ := hh.split hs
  obtain ⟨d, zs, hcut⟩ := cut_cons e size ys
  rw [show cut e size ys = _ from hcut e.free] at h1
  rw [hcut false]
  refine ⟨h1.write rfl ?_ rfl rfl, h2.trans (keeps_write ..)⟩
  exact congrArg (fun d : Extent => (⟨d.size, false⟩ : Extent)) h1.header

lemma Holds.joinPrevious (hh : h.Holds (xs ++ [d] ++ e :: ys)) (he : e.free = true) :
    (h.joinPrevious (behind (xs ++ [d]))).Holds (xs ++ fuse d (e :: ys)) ∧
        h.Keeps (h.joinPrevious (behind (xs ++ [d]))) := by
  have hp : (h.headers (behind (xs ++ [d]))).previous = some (behind xs) := by
    rw [(row_cons.mp (holds_iff.mp hh).2.1).2.1, place_append, preceding_append]
    rfl
  rw [List.append_assoc] at hh
  have hfree : (h.headers (behind xs)).free = d.free := congrArg Extent.free (Holds.header hh)
  unfold Heap.joinPrevious
  rw [hp, fuse_cons, he, Bool.and_true]
  dsimp only
  rw [hfree]
  split
  · exact hh.joinNext
  · exact ⟨hh, .refl h⟩

lemma Holds.joinPrevious_first (hh : h.Holds (e :: ys)) : h.joinPrevious heapBase = h := by
  unfold Heap.joinPrevious
  rw [(row_cons.mp hh.row).2.1]

lemma fuse_eq_cons (e : Extent) (ys : List Extent) : ∃ d zs, fuse e ys = d :: zs ∧ d.free = e.free := by
  cases ys with
  | nil => exact ⟨e, [], rfl, rfl⟩
  | cons d ys =>
    rw [fuse_cons]
    split
    · exact ⟨_, _, rfl, rfl⟩
    · exact ⟨_, _, rfl, rfl⟩

lemma Holds.release (hh : h.Holds (xs ++ e :: ys)) (hp : Proper (xs ++ e :: ys)) :
    (h.release (behind xs)).Holds (coalesce (xs ++ ⟨e.size, true⟩ :: ys)) ∧ h.Keeps (h.release (behind xs)) := by
  have h1 : (h.write (behind xs) { h.headers (behind xs) with free := true }).Holds (xs ++ ⟨e.size, true⟩ :: ys) :=
    hh.write rfl (congrArg (fun d : Extent => (⟨d.size, true⟩ : Extent)) hh.header) rfl rfl
  obtain ⟨h2, k2⟩ := h1.joinFree rfl
  have hk := (keeps_write ..).trans k2
  obtain ⟨d, zs, hfuse, hd⟩ := fuse_eq_cons ⟨e.size, true⟩ ys
  obtain ⟨px, py⟩ := hp.append
  have hys : Proper ys := (show Proper ([e] ++ ys) from py).append.2
  have hrest : coalesce (⟨e.size, true⟩ :: ys) = fuse ⟨e.size, true⟩ ys := congrArg (fuse _) (coalesce_proper hys)
  rw [coalesce_append, hrest]
  rw [hfuse] at h2
  rcases List.eq_nil_or_concat xs with rfl | ⟨ws, p, rfl⟩
  · have he : h.release (behind []) = _ := Holds.joinPrevious_first h2
    rw [he, hfuse]
    exact ⟨h2, hk⟩
  · rw [List.concat_eq_append] at *
    obtain ⟨h3, k3⟩ := h2.joinPrevious hd
    have hlist : (ws ++ [p]).foldr fuse (fuse ⟨e.size, true⟩ ys) = ws ++ fuse p (d :: zs) := by
      rw [List.foldr_append, hfuse]
      refine foldr_fuse (px.fuse_append ?_)
      rw [← hfuse]
      exact hys.fuse (hp.aligned e (by simp))
    rw [hlist]
    exact ⟨h3, hk.trans k3⟩

/-! ## Growing -/

lemma Holds.last_block (hh : h.Holds (xs ++ [e])) : h.last = some (behind xs) := by
  obtain ⟨-, -, -, h4, -⟩ := holds_iff.mp hh
  exact h4

lemma Holds.extend_free (hh : h.Holds (xs ++ [e])) (he : e.free = true) (hg : headerSize ≤ growth) :
    (h.extend growth).Holds (xs ++ [e.join ⟨growth - headerSize, true⟩]) := by
  obtain ⟨h1, h2, h3, h4, h5⟩ := holds_iff.mp hh
  obtain ⟨e1, e2, e3, -⟩ := row_cons.mp h2
  have hfree : (h.headers (behind xs)).free = true := (congrArg Extent.free e1).trans he
  obtain ⟨h', heq, k1, k2, k3, k4, k5⟩ : ∃ h', h.extend growth = h' ∧ (∀ b < behind xs, h'.headers b = h.headers b) ∧
      h'.headers (behind xs) = { h.headers (behind xs) with size := (h.headers (behind xs)).size + growth } ∧
      h'.first = h.first ∧ h'.last = h.last ∧ h'.mapped = h.mapped + growth := by
    refine ⟨_, rfl, ?_⟩
    unfold Heap.extend
    rw [hh.last_block]
    dsimp only
    rw [if_pos hfree]
    exact ⟨fun b hb => update_of_ne hb.ne .., update_self .., rfl, hh.last_block, rfl⟩
  rw [heq]
  refine holds_iff.mpr ⟨h1.below k1, row_cons.mpr ⟨?_, ?_, ?_, trivial⟩, k3.trans h3, k4.trans h4, ?_⟩
  · rw [k2]
    have hsize : (h.headers (behind xs)).size = e.size := congrArg Extent.size e1
    have hf : (h.headers (behind xs)).free = e.free := congrArg Extent.free e1
    refine Extent.ext ?_ hf
    change (h.headers (behind xs)).size + growth = e.size + (headerSize + (growth - headerSize))
    omega
  · exact (congrArg Block.previous k2).trans e2
  · exact (congrArg Block.next k2).trans e3
  · rw [k5, h5]
    simp only [span_append, span_cons, span_nil, Extent.join]
    omega

lemma Holds.extend_used (hh : h.Holds (xs ++ [e])) (he : e.free = false) (hg : headerSize ≤ growth) :
    (h.extend growth).Holds (xs ++ [e] ++ [⟨growth - headerSize, true⟩]) := by
  obtain ⟨h1, h2, h3, h4, h5⟩ := holds_iff.mp hh
  obtain ⟨e1, e2, e3, -⟩ := row_cons.mp h2
  have hfree : ¬(h.headers (behind xs)).free = true := by
    rw [free_of_extent e1, he]
    exact nofun
  have hstart : heapBase + h.mapped = behind (xs ++ [e]) := by rw [h5]
  have hlt : behind xs < behind (xs ++ [e]) := by
    have : 0 < headerSize := by decide
    rw [behind_append_cons]
    omega
  have hne := update_of_ne hlt.ne
    ({ size := growth - headerSize, previous := some (behind xs), free := true } : Block) h.headers
  obtain ⟨h', heq, k1, k2, k3, k4, k5⟩ : ∃ h', h.extend growth = h' ∧ (∀ b < behind xs, h'.headers b = h.headers b) ∧
      h'.headers (behind xs) = { h.headers (behind xs) with next := some (behind (xs ++ [e])) } ∧
      h'.headers (behind (xs ++ [e])) = { size := growth - headerSize, previous := some (behind xs), free := true } ∧
      h'.first = h.first ∧ h'.last = some (behind (xs ++ [e])) ∧ h'.mapped = h.mapped + growth := by
    refine ⟨_, rfl, ?_⟩
    unfold Heap.extend
    rw [hh.last_block, hstart]
    dsimp only
    rw [if_neg hfree]
    refine ⟨fun b hb => ?_, ?_, ?_, rfl, rfl, rfl⟩
    · exact (update_of_ne hb.ne ..).trans (update_of_ne (hb.trans hlt).ne ..)
    · refine (update_self ..).trans ?_
      rw [show (h.write _ _).headers (behind xs) = _ from hne]
    · exact (update_of_ne hlt.ne' ..).trans (update_self ..)
  rw [heq]
  refine holds_iff.mpr ⟨row_append.mpr ⟨h1.below k1, row_cons.mpr ⟨?_, ?_, ?_, trivial⟩⟩,
    row_cons.mpr ⟨?_, ?_, ?_, trivial⟩, ?_, k5.1, ?_⟩
  · exact (congrArg Block.extent k2).trans e1
  · exact (congrArg Block.previous k2).trans e2
  · exact congrArg Block.next k2
  · exact congrArg Block.extent k3
  · refine (congrArg Block.previous k3).trans ?_
    rw [place_append, preceding_append]
    rfl
  · exact congrArg Block.next k3
  · rw [k4, h3, place_append, following_append]
    rfl
  · rw [k5.2, h5]
    simp only [span_append, span_cons, span_nil]
    omega

lemma Holds.extend_nil (hh : h.Holds []) (hg : headerSize ≤ growth) :
    (h.extend growth).Holds [⟨growth - headerSize, true⟩] := by
  have hstart : heapBase + h.mapped = heapBase := by rw [hh.mapped, span_nil, Nat.add_zero]
  obtain ⟨h', heq, k1, k2, k3, k4⟩ : ∃ h', h.extend growth = h' ∧
      h'.headers heapBase = { size := growth - headerSize, free := true } ∧ h'.first = some heapBase ∧
      h'.last = some heapBase ∧ h'.mapped = h.mapped + growth := by
    refine ⟨_, rfl, ?_⟩
    unfold Heap.extend
    rw [show h.last = none from hh.last, hstart]
    dsimp only
    exact ⟨headers_write .., rfl, rfl, rfl⟩
  rw [heq]
  refine ⟨row_cons.mpr ⟨?_, ?_, ?_, trivial⟩, k2, k3, ?_⟩
  · exact congrArg Block.extent k1
  · exact congrArg Block.previous k1
  · exact congrArg Block.next k1
  · rw [k4, hh.mapped]
    simp only [span_cons, span_nil]
    omega

lemma Holds.extend (hh : h.Holds es) (hp : Proper es) (hg : headerSize ≤ growth)
    (hm : (growth - headerSize) % heapAlignment = 0) :
    (h.extend growth).Holds (coalesce (es ++ [⟨growth - headerSize, true⟩])) := by
  rcases List.eq_nil_or_concat es with rfl | ⟨xs, e, rfl⟩
  · exact hh.extend_nil hg
  · rw [List.concat_eq_append] at *
    have hnew : Proper [⟨growth - headerSize, true⟩] := ⟨fun d hd => List.mem_singleton.mp hd ▸ hm, .singleton _⟩
    have hlist : coalesce (xs ++ [e] ++ [⟨growth - headerSize, true⟩]) = xs ++
        fuse e [⟨growth - headerSize, true⟩] := by
      rw [coalesce_append, List.foldr_append]
      exact foldr_fuse (hp.fuse_append hnew)
    rw [hlist, fuse_cons, Bool.and_true]
    split
    · rename_i he
      exact hh.extend_free he hg
    · rename_i he
      have := hh.extend_used (Bool.eq_false_iff.mpr he) hg
      rwa [List.append_assoc] at this

/-! ## Walking along the blocks -/

lemma walk_row (hr : h.Row p a es none) (hf : es.length < fuel) :
    h.walk P fuel (following (place a es) none) = ((place a es).find? fun x => P x.1 (h.headers x.1)).map Prod.fst := by
  induction es generalizing p a fuel with
  | nil =>
    obtain ⟨fuel, rfl⟩ := Nat.exists_eq_succ_of_ne_zero (Nat.ne_of_gt hf)
    rfl
  | cons e es ih =>
    obtain ⟨fuel, rfl⟩ := Nat.exists_eq_succ_of_ne_zero (Nat.ne_zero_of_lt hf)
    obtain ⟨-, -, hn, hr⟩ := row_cons.mp hr
    change (if P a (h.headers a) then some a else h.walk P fuel (h.headers a).next) = _
    rw [place, List.find?_cons, hn, ih hr (Nat.lt_of_succ_lt_succ hf)]
    cases P a (h.headers a) <;> rfl

lemma blockLoop_row (hr : h.Row p a es none) (hf : es.length < fuel) :
    h.blockLoop fuel (following (place a es) none) = (place a es).map fun x => (x.1, h.headers x.1) := by
  induction es generalizing p a fuel with
  | nil =>
    obtain ⟨fuel, rfl⟩ := Nat.exists_eq_succ_of_ne_zero (Nat.ne_of_gt hf)
    rfl
  | cons e es ih =>
    obtain ⟨fuel, rfl⟩ := Nat.exists_eq_succ_of_ne_zero (Nat.ne_zero_of_lt hf)
    obtain ⟨-, -, hn, hr⟩ := row_cons.mp hr
    change (a, h.headers a) :: h.blockLoop fuel (h.headers a).next = _
    rw [hn, ih hr (Nat.lt_of_succ_lt_succ hf)]
    rfl

section
variable (hh : h.Holds es) (hm : h.mapped ≤ heapLimit)
include hh hm

lemma Holds.length_lt : es.length < walkFuel := by
  have h1 : es.length * headerSize ≤ span es := length_le_span
  rw [← hh.mapped] at h1
  exact Nat.lt_succ_of_le ((Nat.le_div_iff_mul_le (by decide)).mpr (h1.trans hm))

lemma Holds.walk : (∃ xs e ys, es = xs ++ e :: ys ∧ P (behind xs) (h.headers (behind xs)) = true ∧
      h.walk P walkFuel h.first = some (behind xs)) ∨
    (∀ x ∈ place heapBase es, P x.1 (h.headers x.1) = false) ∧ h.walk P walkFuel h.first = none := by
  rw [hh.first, walk_row hh.row (hh.length_lt hm)]
  cases hx : (place heapBase es).find? fun x => P x.1 (h.headers x.1) with
  | none => exact .inr ⟨fun x hm => Bool.eq_false_iff.mpr (List.find?_eq_none.mp hx x hm), rfl⟩
  | some x =>
    obtain ⟨xs, ys, he, ha⟩ := exists_of_mem_place (List.mem_of_find?_eq_some hx)
    have hp := List.find?_some hx
    refine .inl ⟨xs, x.2, ys, he, ?_, ?_⟩
    · rw [ha] at hp
      exact hp
    · rw [Option.map_some, ha]

lemma Holds.blocks : h.blocks = (place heapBase es).map fun x => (x.1, h.headers x.1) := by
  unfold Heap.blocks
  rw [hh.first, blockLoop_row hh.row (hh.length_lt hm)]

end

end Heap

end RumKernel.Mm
