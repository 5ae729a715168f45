import RumKernel.Mm.HeapRuns

/-!
# The bytes of the heap

`heap.c` keeps its headers in the window, between the payloads. Here the window is one memory; its headers, read at
multiples of 16, are the heap of blocks, and every function changes them as the function on blocks does.
-/

namespace RumKernel.Mm
open Function

deriving instance DecidableEq for Block

/-- A byte of the window: one of a payload, or one of a header as it was written. -/
inductive Cell
  | byte (value : UInt8)
  | header (block : Block) (offset : Nat)
deriving DecidableEq

def Block.cells (block : Block) : List Cell := (List.range headerSize).map (.header block)

/-- The static variables of `heap.c`, with the bytes of the window and the pages behind it. `decode` is what bytes read
as that are not a header as it was written. -/
structure Arena (π : Type) where
  memory : Nat → Cell
  decode : List Cell → Block
  first : Option Nat := none
  last : Option Nat := none
  mapped : Nat := 0
  ready : Bool := false
  pages : π

namespace Arena

variable {π : Type}

/-- The bytes where a header lies. -/
def cells (r : Arena π) (a : Nat) : List Cell := (List.range headerSize).map fun i => r.memory (a + i)

def header (r : Arena π) (a : Nat) : Block :=
  match r.cells a with
  | .header block _ :: _ => if r.cells a = block.cells then block else r.decode (r.cells a)
  | _ => r.decode (r.cells a)

def fill (r : Arena π) (a size : Nat) (cells : Nat → Cell) : Arena π :=
  { r with memory := fun b => if a ≤ b ∧ b < a + size then cells (b - a) else r.memory b }

def write (r : Arena π) (a : Nat) (block : Block) : Arena π := r.fill a headerSize (.header block)

/-- `grow` behind its loops. -/
def extend (r : Arena π) (growth : Nat) : Arena π :=
  let start := heapBase + r.mapped
  let r := match r.last with
    | some last =>
      if (r.header last).free then r.write last { r.header last with size := (r.header last).size + growth }
      else
        let r := r.write start { size := growth - headerSize, previous := some last, free := true }
        { r.write last { r.header last with next := some start } with last := some start }
    | none =>
      { r.write start { size := growth - headerSize, free := true } with first := some start, last := some start }
  { r with mapped := r.mapped + growth }

def grow [Pages π] (r : Arena π) (bytes : Nat) : Bool × Arena π :=
  let growth := (bytes + pageSize - 1) / pageSize * pageSize
  if growth = 0 ∨ growth > heapLimit - r.mapped then (false, r)
  else
    let start := heapBase + r.mapped
    let (added, pages) := addPages start (growth / pageSize) 0 r.pages
    if added * pageSize ≠ growth then (false, { r with pages := dropPages start added pages })
    else (true, { r with pages }.extend growth)

/-- The loops over the blocks: the first block from `block` on that has a property. -/
def walk (r : Arena π) (p : Nat → Block → Bool) : Nat → Option Nat → Option Nat
  | 0, _ => none
  | _ + 1, none => none
  | fuel + 1, some block => if p block (r.header block) then some block else walk r p fuel (r.header block).next

def find (r : Arena π) (pointer : Nat) : Option Nat :=
  r.walk (fun block header => block + headerSize == pointer && !header.free) Heap.walkFuel r.first

/-- The next block points back to a block, or the block is the last one. -/
def pointBack (r : Arena π) (block : Nat) : Arena π :=
  match (r.header block).next with
  | some next => r.write next { r.header next with previous := some block }
  | none => { r with last := some block }

/-- `join_next`. Its callers have seen a next block. -/
def joinNext (r : Arena π) (block : Nat) : Arena π :=
  match (r.header block).next with
  | none => r
  | some next =>
    (r.write block { r.header block with
      size := (r.header block).size + (headerSize + (r.header next).size)
      next := (r.header next).next }).pointBack block

def isFree (r : Arena π) : Option Nat → Bool
  | some block => (r.header block).free
  | none => false

/-- The next block is joined if it is free. -/
def joinFree (r : Arena π) (block : Nat) : Arena π :=
  if r.isFree (r.header block).next then r.joinNext block else r

/-- The block is joined to a free one in front of it. -/
def joinPrevious (r : Arena π) (block : Nat) : Arena π :=
  match (r.header block).previous with
  | some previous => if (r.header previous).free then r.joinNext previous else r
  | none => r

def split (r : Arena π) (block size : Nat) : Arena π :=
  if (r.header block).size - size < headerSize + heapAlignment then r
  else
    let rest := block + headerSize + size
    let r := r.write rest
      { size := (r.header block).size - size - headerSize
        previous := some block
        next := (r.header block).next
        free := true }
    let r := r.pointBack rest
    (r.write block { r.header block with next := some rest, size }).joinFree rest

/-- The end of `allocate` at the block it takes. -/
def take (r : Arena π) (block size : Nat) : Option Nat × Arena π :=
  let r := r.split block size
  (some (block + headerSize), r.write block { r.header block with free := false })

/-- `allocate`. There is a last block once the heap is ready. -/
def allocate [Pages π] (r : Arena π) (size : Nat) : Option Nat × Arena π :=
  let size := aligned size
  if !r.ready || size == 0 then (none, r)
  else
    match r.walk (fun _ header => header.free && size ≤ header.size) Heap.walkFuel r.first, r.last with
    | some block, _ => r.take block size
    | none, none => (none, r)
    | none, some last =>
      let needed := if (r.header last).free then size - (r.header last).size else size + headerSize
      match r.grow needed with
      | (false, r) => (none, r)
      | (true, r) =>
        match r.last with
        | none => (none, r)
        | some block => r.take block size

def release (r : Arena π) (block : Nat) : Arena π :=
  ((r.write block { r.header block with free := true }).joinFree block).joinPrevious block

def heapInitialize [Pages π] (r : Arena π) : Bool × Arena π :=
  if r.ready then (false, r)
  else
    match r.grow pageSize with
    | (true, r) => (true, { r with ready := true })
    | (false, r) => (false, r)

def kmalloc [Pages π] (r : Arena π) (size : Nat) : Option Nat × Arena π := r.allocate size

def kcalloc [Pages π] (r : Arena π) (count size : Nat) : Option Nat × Arena π :=
  if count = 0 ∨ size = 0 ∨ count > (2 ^ 32 - 1) / size then (none, r)
  else
    match r.kmalloc (count * size) with
    | (none, r) => (none, r)
    | (some pointer, r) =>
      (some pointer, r.fill pointer (count * size) fun _ => .byte 0)

def kfree (r : Arena π) : Option Nat → Bool × Arena π
  | none => (true, r)
  | some pointer =>
    match r.find pointer with
    | some block => (true, r.release block)
    | none => (false, r)

/-- `krealloc` of a block. -/
def resize [Pages π] (r : Arena π) (pointer block wanted : Nat) : Option Nat × Arena π :=
  let size := (r.header block).size
  if wanted ≤ size then (some pointer, r.split block wanted)
  else if r.isFree (r.header block).next &&
      wanted ≤ size + headerSize + (r.header ((r.header block).next.getD 0)).size then
    (some pointer, (r.joinNext block).split block wanted)
  else
    match r.allocate wanted with
    | (none, r) => (none, r)
    | (some result, r) =>
      let size := (r.header block).size
      (some result, (r.fill result size fun i => r.memory (pointer + i)).release block)

def krealloc [Pages π] (r : Arena π) (pointer : Option Nat) (size : Nat) : Option Nat × Arena π :=
  match pointer with
  | none => r.kmalloc size
  | some pointer =>
    if size = 0 then (none, (r.kfree (some pointer)).2)
    else
      let wanted := aligned size
      match r.find pointer with
      | some block => if wanted = 0 then (none, r) else r.resize pointer block wanted
      | none => (none, r)

def blockLoop (r : Arena π) : Nat → Option Nat → List (Nat × Block)
  | 0, _ => []
  | _ + 1, none => []
  | fuel + 1, some block => (block, r.header block) :: blockLoop r fuel (r.header block).next

def blocks (r : Arena π) : List (Nat × Block) := r.blockLoop Heap.walkFuel r.first

end Arena

/-- What a function of `heap.h` returns. -/
inductive HeapAnswer
  | pointer (pointer : Option Nat)
  | freed (success : Bool)

namespace Arena

variable {π : Type}

def perform [Pages π] (r : Arena π) : HeapCall → HeapAnswer × Arena π
  | .kmalloc size => let q := r.kmalloc size; (.pointer q.1, q.2)
  | .kcalloc count size => let q := r.kcalloc count size; (.pointer q.1, q.2)
  | .krealloc pointer size => let q := r.krealloc pointer size; (.pointer q.1, q.2)
  | .kfree pointer => let q := r.kfree pointer; (.freed q.1, q.2)

/-! ## The blocks -/

/-- The heap of blocks in the bytes. -/
def view (r : Arena π) : Heap π where
  headers a := if a % heapAlignment = 0 then r.header a else {}
  first := r.first
  last := r.last
  mapped := r.mapped
  ready := r.ready
  pages := r.pages

variable {r r' : Arena π} {a b n : Nat} {d : Block}

lemma headers_view (ha : a % heapAlignment = 0) : r.view.headers a = r.header a := if_pos ha

lemma header_cells (h : r.cells a = d.cells) : r.header a = d := by
  have hcons : d.cells = .header d 0 :: (List.range' 1 15).map (.header d) := rfl
  unfold header
  rw [h, hcons]
  exact if_pos rfl

lemma header_congr (hd : r'.decode = r.decode) (h : r'.cells a = r.cells a) : r'.header a = r.header a := by
  unfold header
  rw [h, hd]

lemma cells_fill {size : Nat} {cells : Nat → Cell} (h : a + headerSize ≤ b ∨ b + size ≤ a) :
    (r.fill b size cells).cells a = r.cells a := by
  refine List.map_congr_left fun i hi => if_neg ?_
  have := List.mem_range.mp hi
  omega

lemma header_fill {size : Nat} {cells : Nat → Cell} (h : a + headerSize ≤ b ∨ b + size ≤ a) :
    (r.fill b size cells).header a = r.header a :=
  header_congr rfl (cells_fill h)

lemma header_write_self : (r.write a d).header a = d := by
  refine header_cells (List.map_congr_left fun i hi => ?_)
  have hlt := List.mem_range.mp hi
  change (if a ≤ a + i ∧ a + i < a + headerSize then Cell.header d (a + i - a) else _) = _
  rw [if_pos ⟨Nat.le_add_right .., by omega⟩, Nat.add_sub_cancel_left]

lemma header_write_of_ne (ha : a % heapAlignment = 0) (hb : b % heapAlignment = 0) (hne : a ≠ b) :
    (r.write b d).header a = r.header a := by
  refine header_fill ?_
  simp only [heapAlignment, headerSize] at ha hb ⊢
  omega

lemma view_write (ha : a % heapAlignment = 0) : (r.write a d).view = r.view.write a d := by
  unfold view Heap.write
  congr 1
  funext b
  rcases eq_or_ne b a with rfl | hne
  · rw [update_self, if_pos ha, header_write_self]
  · rw [update_of_ne hne]
    dsimp only
    by_cases hb : b % heapAlignment = 0
    · rw [if_pos hb, if_pos hb, header_write_of_ne hb ha hne]
    · rw [if_neg hb, if_neg hb]

/-! ## Payloads -/

variable {L : List (Nat × Nat)} {P Q : Nat → Prop} {h' h'' : Heap π} {size : Nat}

/-- The payloads of a list of blocks are as they were. -/
structure Kept (r : Arena π) (L : List (Nat × Nat)) (r' : Arena π) : Prop where
  ready : r'.ready = r.ready
  bytes : ∀ x ∈ L, ∀ i < x.2, r'.memory (x.1 + headerSize + i) = r.memory (x.1 + headerSize + i)

/-- A header at an address lies outside the payloads. -/
def Clear (L : List (Nat × Nat)) (a : Nat) : Prop := ∀ x ∈ L, a ≤ x.1 ∨ x.1 + headerSize + x.2 ≤ a

lemma Kept.refl (r : Arena π) : r.Kept L r := ⟨rfl, fun _ _ _ _ => rfl⟩

lemma Kept.trans {r'' : Arena π} (h1 : r.Kept L r') (h2 : r'.Kept L r'') : r.Kept L r'' :=
  ⟨h2.ready.trans h1.ready, fun x hx i hi => (h2.bytes x hx i hi).trans (h1.bytes x hx i hi)⟩

lemma Kept.of_eq {r'' : Arena π} (h : r.Kept L r') (hm : r''.memory = r'.memory) (hr : r''.ready = r'.ready) :
    r.Kept L r'' :=
  ⟨hr.trans h.ready, fun x hx i hi => (congrFun hm _).trans (h.bytes x hx i hi)⟩

lemma kept_write (ha : Clear L a) : r.Kept L (r.write a d) := by
  refine ⟨rfl, fun x hx i hi => if_neg ?_⟩
  have := ha x hx
  omega

/-- The addresses at which headers are written: they are clear of the payloads, and the links of their headers do not
lead out of them. -/
structure Safe (L : List (Nat × Nat)) (P : Nat → Prop) (r : Arena π) : Prop where
  aligned : ∀ {a}, P a → a % heapAlignment = 0
  clear : ∀ {a}, P a → Clear L a
  next : ∀ {a n}, P a → (r.header a).next = some n → P n
  previous : ∀ {a n}, P a → (r.header a).previous = some n → P n

/-- A function on the bytes does what a function on the blocks does, and leaves the payloads alone. -/
structure Follows (L : List (Nat × Nat)) (P : Nat → Prop) (r r' : Arena π) (h' : Heap π) : Prop where
  view : r'.view = h'
  kept : r.Kept L r'
  safe : Safe L P r'

lemma Safe.refl (hs : Safe L P r) : Follows L P r r r.view := ⟨rfl, .refl r, hs⟩

lemma Follows.trans {r'' : Arena π} (h1 : Follows L P r r' h') (h2 : Follows L Q r' r'' h'') : Follows L Q r r'' h'' :=
  ⟨h2.view, h1.kept.trans h2.kept, h2.safe⟩

lemma Safe.write_new (hs : Safe L P r) (ha : a % heapAlignment = 0) (hc : Clear L a) (hPQ : ∀ {b}, Q b ↔ P b ∨ b = a)
    (hn : ∀ {n}, d.next = some n → Q n) (hp : ∀ {n}, d.previous = some n → Q n) :
    Follows L Q r (r.write a d) (r.view.write a d) where
  view := view_write ha
  kept := kept_write hc
  safe := by
    have haligned : ∀ {b}, Q b → b % heapAlignment = 0 := fun hb => by
      rcases hPQ.mp hb with hb | rfl
      · exact hs.aligned hb
      · exact ha
    refine ⟨haligned, fun hb => ?_, fun {b n} hb hlink => ?_, fun {b n} hb hlink => ?_⟩
    · rcases hPQ.mp hb with hb | rfl
      · exact hs.clear hb
      · exact hc
    · rcases eq_or_ne b a with rfl | hne
      · rw [header_write_self] at hlink
        exact hn hlink
      · rw [header_write_of_ne (haligned hb) ha hne] at hlink
        exact hPQ.mpr (.inl (hs.next ((hPQ.mp hb).resolve_right hne) hlink))
    · rcases eq_or_ne b a with rfl | hne
      · rw [header_write_self] at hlink
        exact hp hlink
      · rw [header_write_of_ne (haligned hb) ha hne] at hlink
        exact hPQ.mpr (.inl (hs.previous ((hPQ.mp hb).resolve_right hne) hlink))

lemma Safe.write (hs : Safe L P r) (ha : P a) (hn : ∀ {n}, d.next = some n → P n)
    (hp : ∀ {n}, d.previous = some n → P n) : Follows L P r (r.write a d) (r.view.write a d) :=
  hs.write_new (hs.aligned ha) (hs.clear ha) ⟨.inl, fun hb => hb.elim id fun e => e ▸ ha⟩ hn hp

/-! ## The functions that write headers -/

section
variable (hs : Safe L P r)
include hs

lemma Safe.pointBack (ha : P a) : Follows L P r (r.pointBack a) (r.view.pointBack a) := by
  unfold Arena.pointBack Heap.pointBack
  rw [headers_view (hs.aligned ha)]
  cases hn : (r.header a).next with
  | none => exact ⟨rfl, ⟨rfl, fun _ _ _ _ => rfl⟩, hs.aligned, hs.clear, hs.next, hs.previous⟩
  | some n =>
    have hPn := hs.next ha hn
    dsimp only
    rw [headers_view (hs.aligned hPn)]
    exact hs.write hPn (hs.next hPn) fun hm => Option.some.inj hm ▸ ha

lemma Safe.joinNext (ha : P a) : Follows L P r (r.joinNext a) (r.view.joinNext a) := by
  unfold Arena.joinNext Heap.joinNext
  rw [headers_view (hs.aligned ha)]
  cases hn : (r.header a).next with
  | none => exact hs.refl
  | some n =>
    have hPn := hs.next ha hn
    dsimp only
    rw [headers_view (hs.aligned hPn)]
    have hw := hs.write (d := ⟨(r.header a).size + (headerSize + (r.header n).size), (r.header a).previous,
      (r.header n).next, (r.header a).free⟩) ha (hs.next hPn) (hs.previous ha)
    have hb := hw.safe.pointBack ha
    rw [hw.view] at hb
    exact hw.trans hb

lemma Safe.isFree {link : Option Nat} (hl : ∀ {n}, link = some n → P n) : r.isFree link = r.view.isFree link := by
  cases link with
  | none => rfl
  | some n => exact congrArg Block.free (headers_view (hs.aligned (hl rfl))).symm

lemma Safe.joinFree (ha : P a) : Follows L P r (r.joinFree a) (r.view.joinFree a) := by
  unfold Arena.joinFree Heap.joinFree
  rw [headers_view (hs.aligned ha), ← hs.isFree (hs.next ha)]
  split
  · exact hs.joinNext ha
  · exact hs.refl

lemma Safe.joinPrevious (ha : P a) : Follows L P r (r.joinPrevious a) (r.view.joinPrevious a) := by
  unfold Arena.joinPrevious Heap.joinPrevious
  rw [headers_view (hs.aligned ha)]
  cases hp : (r.header a).previous with
  | none => exact hs.refl
  | some p =>
    have hPp := hs.previous ha hp
    dsimp only
    rw [headers_view (hs.aligned hPp)]
    split
    · exact hs.joinNext hPp
    · exact hs.refl

lemma Safe.split (ha : P a) (hsize : size % heapAlignment = 0) (hc : Clear L (a + headerSize + size)) :
    ∃ Q, (∀ {b}, P b → Q b) ∧ Follows L Q r (r.split a size) (r.view.split a size) := by
  have haligned := hs.aligned ha
  unfold Arena.split Heap.split
  rw [headers_view haligned]
  split
  · exact ⟨P, id, hs.refl⟩
  · have hrest : (a + headerSize + size) % heapAlignment = 0 := by
      simp only [heapAlignment, headerSize] at haligned hsize ⊢
      omega
    let Q : Nat → Prop := fun b => P b ∨ b = a + headerSize + size
    have hQ : ∀ {b}, Q b ↔ P b ∨ b = a + headerSize + size := Iff.rfl
    refine ⟨Q, .inl, ?_⟩
    have h1 := hs.write_new (d := ⟨(r.header a).size - size - headerSize, some a, (r.header a).next, true⟩) hrest hc hQ
      (fun hn => .inl (hs.next ha hn)) fun hm => .inl (Option.some.inj hm ▸ ha)
    have h2 := h1.safe.pointBack (.inr rfl)
    rw [h1.view] at h2
    dsimp only
    generalize (r.write (a + headerSize + size) _).pointBack (a + headerSize + size) = r2 at h2 ⊢
    have h3 := h2.safe.write
      (d := ⟨size, (r2.header a).previous, some (a + headerSize + size), (r2.header a).free⟩) (.inl ha)
      (fun hm => .inr (Option.some.inj hm).symm) (h2.safe.previous (.inl ha))
    have h4 := h3.safe.joinFree (.inr rfl)
    rw [h3.view] at h4
    rw [← h2.view, headers_view haligned]
    exact ((h1.trans h2).trans h3).trans h4

lemma Safe.take (ha : P a) (hsize : size % heapAlignment = 0) (hc : Clear L (a + headerSize + size)) :
    (r.take a size).1 = some (a + headerSize) ∧ ∃ Q, Follows L Q r (r.take a size).2 (r.view.take a size).2 := by
  obtain ⟨Q, hPQ, h1⟩ := hs.split ha hsize hc
  refine ⟨rfl, Q, ?_⟩
  unfold Arena.take Heap.take
  dsimp only
  rw [← h1.view, headers_view (hs.aligned ha)]
  exact h1.trans (h1.safe.write (hPQ ha) (h1.safe.next (hPQ ha)) (h1.safe.previous (hPQ ha)))

lemma Safe.release (ha : P a) : Follows L P r (r.release a) (r.view.release a) := by
  unfold Arena.release Heap.release
  rw [headers_view (hs.aligned ha)]
  have h1 := hs.write (d := { r.header a with free := true }) ha (hs.next ha) (hs.previous ha)
  have h2 := h1.safe.joinFree ha
  rw [h1.view] at h2
  have h3 := h2.safe.joinPrevious ha
  rw [h2.view] at h3
  exact (h1.trans h2).trans h3

lemma Safe.extend (hl : ∀ {n}, r.last = some n → P n) (hm : r.mapped % heapAlignment = 0)
    (hc : Clear L (heapBase + r.mapped)) (growth : Nat) :
    (r.extend growth).view = r.view.extend growth ∧ r.Kept L (r.extend growth) := by
  have hstart : (heapBase + r.mapped) % heapAlignment = 0 := by
    simp only [heapAlignment, heapBase] at hm ⊢
    omega
  let Q : Nat → Prop := fun b => P b ∨ b = heapBase + r.mapped
  have hQ : ∀ {b}, Q b ↔ P b ∨ b = heapBase + r.mapped := Iff.rfl
  unfold Arena.extend Heap.extend
  dsimp only
  rw [show r.view.last = r.last from rfl]
  cases hlast : r.last with
  | none =>
    refine ⟨?_, (kept_write (d := ⟨growth - headerSize, none, none, true⟩) hc).of_eq rfl rfl⟩
    exact congrArg (fun h : Heap π => { h with
      first := some (heapBase + r.mapped), last := some (heapBase + r.mapped), mapped := r.mapped + growth })
        (view_write hstart)
  | some last =>
    have hP := hl hlast
    dsimp only
    rw [headers_view (hs.aligned hP)]
    split
    · have h1 := hs.write (d := { r.header last with size := (r.header last).size + growth }) hP (hs.next hP)
        (hs.previous hP)
      exact ⟨congrArg (fun h : Heap π => { h with mapped := r.mapped + growth }) h1.view, h1.kept.of_eq rfl rfl⟩
    · have h1 := hs.write_new (d := ⟨growth - headerSize, some last, none, true⟩) hstart hc hQ (fun hn => by cases hn)
        fun hm => .inl (Option.some.inj hm ▸ hP)
      generalize r.write (heapBase + r.mapped) _ = r1 at h1 ⊢
      have h2 := h1.safe.write (d := { r1.header last with next := some (heapBase + r.mapped) }) (.inl hP)
        (fun hm => .inr (Option.some.inj hm).symm) (h1.safe.previous (.inl hP))
      have hview : (r1.write last { r1.header last with next := some (heapBase + r.mapped) }).view =
          let h := r.view.write (heapBase + r.mapped) ⟨growth - headerSize, some last, none, true⟩
          h.write last { h.headers last with next := some (heapBase + r.mapped) } := by
        rw [← h1.view]
        dsimp only
        rw [headers_view (hs.aligned hP)]
        exact h2.view
      exact ⟨congrArg (fun h : Heap π =>
        { h with last := some (heapBase + r.mapped), mapped := h.mapped + growth }) hview,
        (h1.trans h2).kept.of_eq rfl rfl⟩

end

/-! ## The loops -/

lemma Safe.walk (hs : Safe L P r) (p : Nat → Block → Bool) (fuel : Nat) {link : Option Nat}
    (hl : ∀ {n}, link = some n → P n) : r.walk p fuel link = r.view.walk p fuel link := by
  induction fuel generalizing link with
  | zero => rfl
  | succ fuel ih =>
    cases link with
    | none => rfl
    | some n =>
      unfold Arena.walk Heap.walk
      rw [headers_view (hs.aligned (hl rfl)), ih (hs.next (hl rfl))]

lemma Safe.blockLoop (hs : Safe L P r) (fuel : Nat) {link : Option Nat} (hl : ∀ {n}, link = some n → P n) :
    r.blockLoop fuel link = r.view.blockLoop fuel link := by
  induction fuel generalizing link with
  | zero => rfl
  | succ fuel ih =>
    cases link with
    | none => rfl
    | some n =>
      unfold Arena.blockLoop Heap.blockLoop
      rw [headers_view (hs.aligned (hl rfl)), ih (hs.next (hl rfl))]

end Arena

end RumKernel.Mm
