import RumKernel.Mm.Pmm

/-!
# The kernel heap

`heap.c`: a first-fit allocator whose blocks lie behind their headers in one window of addresses. The window grows by
whole pages, which come from the page allocator and are mapped one by one.

An address is a number and `NULL` is `none`. The headers are kept apart from the bytes of the payloads.
-/

namespace RumKernel.Mm
open Function

structure Block where
  size : Nat := 0
  previous : Option Nat := none
  next : Option Nat := none
  free : Bool := false

/-- `sizeof(struct block)`. -/
def headerSize : Nat := 16

def heapAlignment : Nat := 16

def heapBase : Nat := 0x40000000

def heapLimit : Nat := 0x400000

/-- What the heap calls of `pmm.c` and `paging.c`: `pmm_allocate_page`, `pmm_free_page`, and `paging_map_page` and
`paging_unmap_page` in the kernel space. -/
class Pages (π : Type) where
  allocatePage : π → Nat × π
  freePage : π → Nat → Bool × π
  mapPage : π → Nat → Nat → Bool × π
  unmapPage : π → Nat → Option Nat × π

/-- The static variables of `heap.c`, with the memory in the window and the pages behind it. -/
structure Heap (π : Type) where
  headers : Nat → Block := fun _ => {}
  data : Nat → UInt8 := fun _ => 0
  first : Option Nat := none
  last : Option Nat := none
  mapped : Nat := 0
  ready : Bool := false
  pages : π

structure HeapStatistics where
  mappedBytes : Nat := 0
  usedBytes : Nat := 0
  freeBytes : Nat := 0
  allocations : Nat := 0

def aligned (size : Nat) : Nat :=
  if size = 0 ∨ size > heapLimit - headerSize then 0
  else (size + heapAlignment - 1) / heapAlignment * heapAlignment

section pages

variable {π : Type} [Pages π]

/-- The first loop of `grow`, with `fuel` pages left to add behind `added` others: how many there are at its end. -/
def addPages (start : Nat) : Nat → Nat → π → Nat × π
  | 0, added, s => (added, s)
  | fuel + 1, added, s =>
    let (physical, s) := Pages.allocatePage s
    if physical = 0 then (added, s)
    else
      let (mapped, s) := Pages.mapPage s (start + added * pageSize) physical
      if mapped then addPages start fuel (added + 1) s
      else (added, (Pages.freePage s physical).2)

/-- The second loop of `grow`, with `added` pages left to drop. -/
def dropPages (start : Nat) : Nat → π → π
  | 0, s => s
  | added + 1, s =>
    let (physical, s) := Pages.unmapPage s (start + added * pageSize)
    dropPages start added (match physical with
      | some physical => (Pages.freePage s physical).2
      | none => s)

end pages

namespace Heap

variable {π : Type}

def write (h : Heap π) (a : Nat) (block : Block) : Heap π := { h with headers := update h.headers a block }

/-- `grow` behind its loops. -/
def extend (h : Heap π) (growth : Nat) : Heap π :=
  let start := heapBase + h.mapped
  let h := match h.last with
    | some last =>
      if (h.headers last).free then h.write last { h.headers last with size := (h.headers last).size + growth }
      else
        let h := h.write start { size := growth - headerSize, previous := some last, free := true }
        { h.write last { h.headers last with next := some start } with last := some start }
    | none =>
      { h.write start { size := growth - headerSize, free := true } with first := some start, last := some start }
  { h with mapped := h.mapped + growth }

def grow [Pages π] (h : Heap π) (bytes : Nat) : Bool × Heap π :=
  let growth := (bytes + pageSize - 1) / pageSize * pageSize
  if growth = 0 ∨ growth > heapLimit - h.mapped then (false, h)
  else
    let start := heapBase + h.mapped
    let (added, pages) := addPages start (growth / pageSize) 0 h.pages
    if added * pageSize ≠ growth then (false, { h with pages := dropPages start added pages })
    else (true, { h with pages }.extend growth)

/-- The loops over the blocks: the first block from `block` on that has a property. -/
def walk (h : Heap π) (p : Nat → Block → Bool) : Nat → Option Nat → Option Nat
  | 0, _ => none
  | _ + 1, none => none
  | fuel + 1, some block => if p block (h.headers block) then some block else walk h p fuel (h.headers block).next

/-- As many steps as headers fit into the window. -/
def walkFuel : Nat := heapLimit / headerSize + 1

def find (h : Heap π) (pointer : Nat) : Option Nat :=
  h.walk (fun block header => block + headerSize == pointer && !header.free) walkFuel h.first

/-- The next block points back to a block, or the block is the last one. -/
def pointBack (h : Heap π) (block : Nat) : Heap π :=
  match (h.headers block).next with
  | some next => h.write next { h.headers next with previous := some block }
  | none => { h with last := some block }

/-- `join_next`. Its callers have seen a next block. -/
def joinNext (h : Heap π) (block : Nat) : Heap π :=
  match (h.headers block).next with
  | none => h
  | some next =>
    (h.write block { h.headers block with
      size := (h.headers block).size + (headerSize + (h.headers next).size)
      next := (h.headers next).next }).pointBack block

def isFree (h : Heap π) : Option Nat → Bool
  | some block => (h.headers block).free
  | none => false

/-- The next block is joined if it is free. -/
def joinFree (h : Heap π) (block : Nat) : Heap π :=
  if h.isFree (h.headers block).next then h.joinNext block else h

/-- The block is joined to a free one in front of it. -/
def joinPrevious (h : Heap π) (block : Nat) : Heap π :=
  match (h.headers block).previous with
  | some previous => if (h.headers previous).free then h.joinNext previous else h
  | none => h

def split (h : Heap π) (block size : Nat) : Heap π :=
  if (h.headers block).size - size < headerSize + heapAlignment then h
  else
    let rest := block + headerSize + size
    let h := h.write rest
      { size := (h.headers block).size - size - headerSize
        previous := some block
        next := (h.headers block).next
        free := true }
    let h := h.pointBack rest
    (h.write block { h.headers block with next := some rest, size }).joinFree rest

/-- The end of `allocate` at the block it takes. -/
def take (h : Heap π) (block size : Nat) : Option Nat × Heap π :=
  let h := h.split block size
  (some (block + headerSize), h.write block { h.headers block with free := false })

/-- `allocate`. There is a last block once the heap is ready. -/
def allocate [Pages π] (h : Heap π) (size : Nat) : Option Nat × Heap π :=
  let size := aligned size
  if !h.ready || size == 0 then (none, h)
  else
    match h.walk (fun _ header => header.free && size ≤ header.size) walkFuel h.first, h.last with
    | some block, _ => h.take block size
    | none, none => (none, h)
    | none, some last =>
      let needed := if (h.headers last).free then size - (h.headers last).size else size + headerSize
      match h.grow needed with
      | (false, h) => (none, h)
      | (true, h) =>
        match h.last with
        | none => (none, h)
        | some block => h.take block size

def release (h : Heap π) (block : Nat) : Heap π :=
  ((h.write block { h.headers block with free := true }).joinFree block).joinPrevious block

def heapInitialize [Pages π] (h : Heap π) : Bool × Heap π :=
  if h.ready then (false, h)
  else
    match h.grow pageSize with
    | (true, h) => (true, { h with ready := true })
    | (false, h) => (false, h)

def kmalloc [Pages π] (h : Heap π) (size : Nat) : Option Nat × Heap π := h.allocate size

def kcalloc [Pages π] (h : Heap π) (count size : Nat) : Option Nat × Heap π :=
  if count = 0 ∨ size = 0 ∨ count > (2 ^ 32 - 1) / size then (none, h)
  else
    match h.kmalloc (count * size) with
    | (none, h) => (none, h)
    | (some pointer, h) =>
      (some pointer, { h with data := fun a => if pointer ≤ a ∧ a < pointer + count * size then 0 else h.data a })

def kfree (h : Heap π) : Option Nat → Bool × Heap π
  | none => (true, h)
  | some pointer =>
    match h.find pointer with
    | some block => (true, h.release block)
    | none => (false, h)

/-- `krealloc` of a block. -/
def resize [Pages π] (h : Heap π) (pointer block wanted : Nat) : Option Nat × Heap π :=
  let size := (h.headers block).size
  if wanted ≤ size then (some pointer, h.split block wanted)
  else if h.isFree (h.headers block).next &&
      wanted ≤ size + headerSize + (h.headers ((h.headers block).next.getD 0)).size then
    (some pointer, (h.joinNext block).split block wanted)
  else
    match h.allocate wanted with
    | (none, h) => (none, h)
    | (some result, h) =>
      let size := (h.headers block).size
      let h := { h with
        data := fun a => if result ≤ a ∧ a < result + size then h.data (pointer + (a - result)) else h.data a }
      (some result, h.release block)

def krealloc [Pages π] (h : Heap π) (pointer : Option Nat) (size : Nat) : Option Nat × Heap π :=
  match pointer with
  | none => h.kmalloc size
  | some pointer =>
    if size = 0 then (none, (h.kfree (some pointer)).2)
    else
      let wanted := aligned size
      match h.find pointer with
      | some block => if wanted = 0 then (none, h) else h.resize pointer block wanted
      | none => (none, h)

def blockLoop (h : Heap π) : Nat → Option Nat → List (Nat × Block)
  | 0, _ => []
  | _ + 1, none => []
  | fuel + 1, some block => (block, h.headers block) :: blockLoop h fuel (h.headers block).next

def blocks (h : Heap π) : List (Nat × Block) := h.blockLoop walkFuel h.first

def heapStats (h : Heap π) : HeapStatistics :=
  h.blocks.foldl (fun stats block =>
    if block.2.free then { stats with freeBytes := stats.freeBytes + block.2.size }
    else { stats with usedBytes := stats.usedBytes + block.2.size, allocations := stats.allocations + 1 })
    { mappedBytes := h.mapped }

end Heap

/-! ## Calls -/

/-- The functions of `heap.h` once the heap is ready. -/
inductive HeapCall
  | kmalloc (size : Nat)
  | kcalloc (count size : Nat)
  | krealloc (pointer : Option Nat) (size : Nat)
  | kfree (pointer : Option Nat)

namespace HeapCall

variable {π : Type} [Pages π]

/-- A call: whether it succeeded, and the state behind it. To give up a block with `krealloc` succeeds when `kfree`
does. -/
def perform (h : Heap π) : HeapCall → Bool × Heap π
  | kmalloc size => let r := h.kmalloc size; (r.1.isSome, r.2)
  | kcalloc count size => let r := h.kcalloc count size; (r.1.isSome, r.2)
  | krealloc pointer size =>
    let r := h.krealloc pointer size
    (if pointer.isSome && size == 0 then (h.kfree pointer).1 else r.1.isSome, r.2)
  | kfree pointer => h.kfree pointer

end HeapCall

/-- What becomes of a page that `grow` asks for: no frame, or a frame that `paging_map_page` maps or not. -/
inductive PageAnswer
  | noFrame
  | refused (physical : Nat)
  | mapped (physical : Nat)

/-- Pages that may fail at any point: the answers to come, the pages mapped in the window, and the frames that the heap
has. -/
structure Supply where
  answers : List PageAnswer := []
  window : Nat → Option Nat := fun _ => none
  owned : List Nat := []

namespace Supply

def allocatePage (s : Supply) : Nat × Supply :=
  match s.answers with
  | [] => (0, s)
  | .noFrame :: rest => (0, { s with answers := rest })
  | .refused physical :: _ | .mapped physical :: _ =>
    if physical = 0 then (0, { s with answers := s.answers.tail }) else (physical,
      { s with owned := physical :: s.owned })

def freePage (s : Supply) (physical : Nat) : Bool × Supply :=
  (decide (physical ∈ s.owned), { s with owned := s.owned.erase physical })

def mapPage (s : Supply) (address physical : Nat) : Bool × Supply :=
  match s.answers with
  | .mapped _ :: rest =>
    if (s.window address).isSome then (false, { s with answers := rest })
    else (true, { s with answers := rest, window := update s.window address (some physical) })
  | _ => (false, { s with answers := s.answers.tail })

def unmapPage (s : Supply) (address : Nat) : Option Nat × Supply :=
  (s.window address, { s with window := update s.window address none })

instance : Pages Supply := ⟨allocatePage, freePage, mapPage, unmapPage⟩

end Supply

namespace Heap

/-- The heap before `heap_initialize`. -/
def initial (answers : List PageAnswer) : Heap Supply := { pages := { answers } }

/-- A call, with the answers for the pages it asks for. -/
def step (h : Heap Supply) (call : HeapCall) (answers : List PageAnswer) : Bool × Heap Supply :=
  call.perform { h with pages := { h.pages with answers } }

def run (h : Heap Supply) (calls : List (HeapCall × List PageAnswer)) : Heap Supply :=
  calls.foldl (fun h call => (h.step call.1 call.2).2) h

end Heap

end RumKernel.Mm
