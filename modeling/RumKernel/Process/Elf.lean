import RumKernel.Lib.Bytes

/-!
# Executable images

Two validators of one format, written apart with their tests in different groups and orders: `plan_image` of the
loader and `read_image` of the build-time checker `check-user-elf`. Both are translated, and they accept the same
images.
-/

namespace RumKernel.Process
open Lib

variable {α β : Type}

/-- `RUM_PAGE_SIZE`, `RUM_ABI_PAGE_SIZE`. -/
def elfPage : Nat := 0x1000

/-- `RUM_USER_BASE`, `RUM_ABI_PROGRAM_BASE`. -/
def programBase : Nat := 0x80000000

/-- `RUM_USER_PROGRAM_END`, `RUM_ABI_PROGRAM_END`. -/
def programEnd : Nat := 0xBFC00000

/-- `STACK_PAGES`: the pages of the user stack. -/
def stackPages : Nat := 0x00010000 / elfPage

/-- `RUM_PROCESS_USER_BYTES / RUM_PAGE_SIZE`. -/
def pageBudget : Nat := 0x01000000 / elfPage

def imageLimit : Nat := 65536

def programLimit : Nat := 16

def ptNull : Nat := 0

def ptLoad : Nat := 1

def ptGnuStack : Nat := 0x6474E551

def pfX : Nat := 1

def pfW : Nat := 2

def pfR : Nat := 4

/-- The fields of `struct rum_elf_header` that are read. -/
structure ElfHeader where
  ident : List Byte
  type : Nat
  machine : Nat
  version : Nat
  entry : Nat
  phoff : Nat
  flags : Nat
  ehsize : Nat
  phentsize : Nat
  phnum : Nat

/-- `sizeof(struct rum_elf_header)`. -/
def headerBytes : Nat := 52

/-- `struct rum_elf_program` without the physical address, which nothing reads. -/
structure ElfProgram where
  type : Nat
  offset : Nat
  address : Nat
  fileBytes : Nat
  memoryBytes : Nat
  flags : Nat
  alignment : Nat
  deriving DecidableEq

/-- `sizeof(struct rum_elf_program)`. -/
def elfProgramBytes : Nat := 32

def imageMem (image : List Byte) : Mem := fun i => image.getD i 0

/-- The header at the start of an image. -/
def elfHeader (m : Mem) : ElfHeader where
  ident := (List.range 16).map m
  type := u16 m 16
  machine := u16 m 18
  version := u32 m 20
  entry := u32 m 24
  phoff := u32 m 28
  flags := u32 m 36
  ehsize := u16 m 40
  phentsize := u16 m 42
  phnum := u16 m 44

/-- The program header at offset `o`. -/
def elfProgram (m : Mem) (o : Nat) : ElfProgram where
  type := u32 m o
  offset := u32 m (o + 4)
  address := u32 m (o + 8)
  fileBytes := u32 m (o + 16)
  memoryBytes := u32 m (o + 20)
  flags := u32 m (o + 24)
  alignment := u32 m (o + 28)

/-- The first bytes of an ELF32 little-endian System V image. -/
def elfIdent : List Byte := [0x7f, 0x45, 0x4c, 0x46, 1, 1, 1, 0, 0]

/-- `x & ~(RUM_PAGE_SIZE - 1)`. -/
def pageFloor (x : Nat) : Nat := x / elfPage * elfPage

/-! ## The kernel's loader -/

structure LoadSegment where
  program : ElfProgram
  start : Nat
  pages : Nat
  deriving DecidableEq

/-- `struct load_plan`; the count is the length of the list. -/
structure LoadPlan where
  entry : Nat
  segments : List LoadSegment
  deriving DecidableEq

/-- The local variables of the loop in `plan_image`. -/
structure Planning where
  segments : List LoadSegment := []
  entry : Bool := false
  stack : Bool := false
  previousEnd : Nat := programBase
  pages : Nat := stackPages

/-- The body of the loop in `plan_image`. -/
def planProgram (bytes entry : Nat) (p : ElfProgram) (s : Planning) : Option Planning :=
  if p.type = ptNull then some s
  else if p.type = ptGnuStack then
    if s.stack ∨ p.flags ≠ pfR ||| pfW ∨ p.fileBytes ≠ 0 ∨ p.memoryBytes ≠ 0 then none
    else some { s with stack := true }
  else if p.type ≠ ptLoad ∨ p.fileBytes > p.memoryBytes ∨ p.offset > bytes ∨ p.fileBytes > bytes - p.offset ∨
      p.flags &&& pfR = 0 ∨ p.flags &&& 0xfffffff8 ≠ 0 ∨ p.flags &&& (pfW ||| pfX) = pfW ||| pfX then none
  else if p.memoryBytes = 0 then some s
  else if (p.alignment > 1 ∧ (p.alignment &&& (p.alignment - 1) ≠ 0 ∨
        p.address % p.alignment ≠ p.offset % p.alignment)) ∨
      p.address % elfPage ≠ p.offset % elfPage ∨ p.address < programBase ∨ p.address ≥ programEnd ∨
      p.memoryBytes > programEnd - p.address then none
  else
    let start := pageFloor p.address
    let finish := pageFloor ((p.address + p.memoryBytes + elfPage - 1) % 2 ^ 32)
    let count := (finish - start) / elfPage
    if start < s.previousEnd ∨ count > pageBudget - s.pages then none
    else some {
      segments := s.segments ++ [{ program := p, start, pages := count }]
      entry := s.entry || decide (p.flags &&& pfX ≠ 0 ∧ entry ≥ p.address ∧ entry - p.address < p.fileBytes)
      stack := s.stack
      previousEnd := finish
      pages := s.pages + count }

/-- The loop of `plan_image` over `n` more program headers from number `i` on. -/
def planLoop (m : Mem) (bytes : Nat) (header : ElfHeader) : Nat → Nat → Planning → Option Planning
  | 0, _, s => some s
  | n + 1, i, s =>
    match planProgram bytes header.entry (elfProgram m (header.phoff + i * elfProgramBytes)) s with
    | none => none
    | some s => planLoop m bytes header n (i + 1) s

/-- `plan_image`; a null image is not modelled. -/
def planImage (image : List Byte) : Option LoadPlan :=
  let bytes := image.length
  if bytes < headerBytes ∨ bytes > imageLimit then none
  else
    let header := elfHeader (imageMem image)
    let programBytes := header.phnum * elfProgramBytes
    if header.ident.take 9 ≠ elfIdent ∨ header.type ≠ 2 ∨ header.machine ≠ 3 ∨ header.version ≠ 1 ∨
        header.flags ≠ 0 ∨ header.ehsize ≠ headerBytes ∨ header.phentsize ≠ elfProgramBytes ∨ header.phnum = 0 ∨
        header.phnum > programLimit ∨ header.phoff < headerBytes ∨ header.phoff > bytes ∨
        programBytes > bytes - header.phoff then none
    else
      match planLoop (imageMem image) bytes header header.phnum 0 {} with
      | none => none
      | some s => if s.entry && s.stack then some { entry := header.entry, segments := s.segments } else none

/-! ## The build-time checker -/

/-- The local variables of the loop in `read_image`. -/
structure Checking where
  entry : Bool := false
  stack : Bool := false
  previousEnd : Nat := programBase
  pages : Nat := stackPages

/-- The body of the loop in `read_image`, with the reason of a failure. -/
def checkProgram (bytes entry : Nat) (p : ElfProgram) (s : Checking) : Except String Checking := do
  if p.type = ptNull then return s
  if p.type = ptGnuStack then
    if s.stack ∨ p.flags ≠ pfR ||| pfW ∨ p.fileBytes ≠ 0 ∨ p.memoryBytes ≠ 0 then
      throw "expected one nonexecutable empty stack descriptor"
    return { s with stack := true }
  if p.type ≠ ptLoad then throw "unsupported interpreter, dynamic, TLS or program header"
  if p.fileBytes > p.memoryBytes ∨ p.offset > bytes ∨ p.fileBytes > bytes - p.offset ∨ p.flags &&& pfR = 0 ∨
      p.flags &&& 0xfffffff8 ≠ 0 ∨ p.flags &&& (pfW ||| pfX) = pfW ||| pfX then
    throw "invalid segment size, bounds or permissions"
  if p.memoryBytes = 0 then return s
  if (p.alignment > 1 ∧ (p.alignment &&& (p.alignment - 1) ≠ 0 ∨ p.address % p.alignment ≠ p.offset % p.alignment)) ∨
      p.address % elfPage ≠ p.offset % elfPage then
    throw "invalid segment alignment"
  if p.address < programBase ∨ p.address ≥ programEnd ∨ p.memoryBytes > programEnd - p.address then
    throw "segment outside user program window"
  let start := pageFloor p.address
  let finish := pageFloor ((p.address + p.memoryBytes + elfPage - 1) % 2 ^ 32)
  if start < s.previousEnd then throw "unordered or page-overlapping segments"
  let s := { s with previousEnd := finish }
  let count := (finish - start) / elfPage
  if count > pageBudget - s.pages then throw "mapped image plus user stack exceeds process budget"
  let s := { s with pages := s.pages + count }
  if p.flags &&& pfX ≠ 0 ∧ entry ≥ p.address ∧ entry - p.address < p.fileBytes then return { s with entry := true }
  return s

/-- The loop of `read_image` over the program headers it has copied. -/
def checkLoop (bytes entry : Nat) : List ElfProgram → Checking → Except String Checking
  | [], s => return s
  | p :: rest, s => do
    let s ← checkProgram bytes entry p s
    checkLoop bytes entry rest s

/-- `read_image` of a file with the bytes `image`, which can be opened and read and for which memory is found. -/
def readImage (image : List Byte) (asset : Bool) : Except String Unit := do
  let length := image.length
  if ¬(length ≥ headerBytes ∧ length ≤ 64 * 1024 * 1024 ∧ (asset = false ∨ length ≤ imageLimit)) then
    throw "invalid file size, read failure or 64 KiB asset limit"
  let header := elfHeader (imageMem image)
  if header.ident.take 9 ≠ elfIdent ∨ header.type ≠ 2 ∨ header.machine ≠ 3 ∨ header.version ≠ 1 ∨
      header.flags ≠ 0 ∨ header.ehsize ≠ headerBytes ∨ header.phentsize ≠ elfProgramBytes ∨ header.phnum = 0 ∨
      header.phnum > programLimit ∨ header.phoff < headerBytes ∨ header.phoff > length ∨
      header.phnum * header.phentsize > length - header.phoff then
    throw "expected static System V little-endian i386 ELF32 ET_EXEC"
  let programs := (List.range header.phnum).map fun i =>
    elfProgram (imageMem image) (header.phoff + i * elfProgramBytes)
  let s ← checkLoop length header.entry programs {}
  if s.entry = false ∨ s.stack = false then
    throw "missing file-backed executable entry or stack descriptor"
  return ()

/-! ## Agreement -/

/-- The variables that both loops keep. -/
def Planning.view (s : Planning) : Checking where
  entry := s.entry
  stack := s.stack
  previousEnd := s.previousEnd
  pages := s.pages

/-- The answer of the checker without its reason. -/
def accepted {α : Type} : Except String α → Option α
  | .ok a => some a
  | .error _ => none

@[simp] lemma accepted_ite (c : Prop) [Decidable c] (m n : Except String α) :
    accepted (if c then m else n) = if c then accepted m else accepted n := by
  split <;> rfl

@[simp] lemma accepted_throw (why : String) (k : α → Except String β) :
    accepted ((throw why : Except String α) >>= k) = none :=
  rfl

@[simp] lemma accepted_pure (a : α) : accepted (pure a) = some a :=
  rfl

lemma accepted_bind (m : Except String α) (k : α → Except String β) :
    accepted (m >>= k) = (accepted m).bind fun a => accepted (k a) := by
  cases m <;> rfl

lemma refuse_or (a b : Prop) [Decidable a] [Decidable b] (x : Option α) :
    (if a ∨ b then none else x) = if a then none else if b then none else x := by
  by_cases ha : a <;> simp [ha]

lemma planProgram_view (bytes entry : Nat) (p : ElfProgram) (s : Planning) :
    (planProgram bytes entry p s).map Planning.view = accepted (checkProgram bytes entry p s.view) := by
  simp only [planProgram, checkProgram, accepted_ite, accepted_throw, accepted_pure, refuse_or,
    apply_ite (Option.map Planning.view), Option.map_none, Option.map_some]
  -- Test by test the two sides are the same; only the entry flag is set in another way.
  by_cases hx : p.flags &&& pfX ≠ 0 ∧ entry ≥ p.address ∧ entry - p.address < p.fileBytes
  · simp only [if_pos hx, decide_eq_true hx, Bool.or_true]
    rfl
  · simp only [if_neg hx, decide_eq_false hx, Bool.or_false]
    rfl

lemma planLoop_view (m : Mem) (bytes : Nat) (header : ElfHeader) (n i : Nat) (s : Planning) :
    (planLoop m bytes header n i s).map Planning.view =
      accepted (checkLoop bytes header.entry ((List.range' i n).map fun i =>
        elfProgram m (header.phoff + i * elfProgramBytes)) s.view) := by
  induction n generalizing i s with
  | zero => rfl
  | succ n ih =>
    have h := planProgram_view bytes header.entry (elfProgram m (header.phoff + i * elfProgramBytes)) s
    rw [List.range'_succ, List.map_cons]
    simp only [planLoop, checkLoop]
    cases hp : planProgram bytes header.entry (elfProgram m (header.phoff + i * elfProgramBytes)) s with
    | none =>
      rw [hp] at h
      cases hc : checkProgram bytes header.entry (elfProgram m (header.phoff + i * elfProgramBytes)) s.view with
      | error why => rfl
      | ok t => rw [hc] at h; cases h
    | some t =>
      rw [hp] at h
      cases hc : checkProgram bytes header.entry (elfProgram m (header.phoff + i * elfProgramBytes)) s.view with
      | error why => rw [hc] at h; cases h
      | ok u =>
        rw [hc] at h
        cases h
        exact ih (i + 1) t

lemma finish_view (s : Planning) (entry : Nat) :
    (if s.entry && s.stack then some { entry, segments := s.segments : LoadPlan } else none).map (fun _ => ()) =
      accepted (if s.view.entry = false ∨ s.view.stack = false then
        throw "missing file-backed executable entry or stack descriptor" else pure ()) := by
  obtain ⟨segments, e, t, _, _⟩ := s
  cases e <;> cases t <;> rfl

lemma asset_size (n : Nat) :
    ¬(n ≥ headerBytes ∧ n ≤ 64 * 1024 * 1024 ∧ (true = false ∨ n ≤ imageLimit)) ↔ n < headerBytes ∨ n > imageLimit := by
  simp only [headerBytes, imageLimit, Bool.true_eq_false, false_or]
  omega

lemma planImage_view (image : List Byte) :
    (planImage image).map (fun _ => ()) = accepted (readImage image true) := by
  simp only [planImage, readImage, accepted_ite, accepted_throw, asset_size, apply_ite (Option.map _), Option.map_none]
  by_cases hl : image.length < headerBytes ∨ image.length > imageLimit
  · rw [if_pos hl, if_pos hl]
  rw [if_neg hl, if_neg hl]
  by_cases hp : (elfHeader (imageMem image)).phentsize = elfProgramBytes
  · rw [hp]
    refine ite_congr rfl (fun _ => rfl) fun _ => ?_
    have h := planLoop_view (imageMem image) image.length (elfHeader (imageMem image))
      (elfHeader (imageMem image)).phnum 0 {}
    rw [← List.range_eq_range'] at h
    cases hs : planLoop (imageMem image) image.length (elfHeader (imageMem image))
        (elfHeader (imageMem image)).phnum 0 {} with
    | none =>
      rw [hs] at h
      rw [accepted_bind]
      exact congrArg (Option.bind · _) h
    | some s =>
      rw [hs] at h
      rw [accepted_bind]
      refine Eq.trans ?_ (congrArg (Option.bind · _) h)
      exact finish_view s _
  · simp [hp]

/-- The loader accepts an image exactly when the checker accepts it as an asset. -/
theorem plan_iff_checked (image : List Byte) : (planImage image).isSome = true ↔ readImage image true = .ok () := by
  have h := planImage_view image
  cases hc : readImage image true with
  | error why =>
    rw [hc] at h
    simp [Option.map_eq_none_iff.mp h]
  | ok u =>
    rw [hc] at h
    obtain ⟨plan, hp, -⟩ := Option.map_eq_some_iff.mp h
    simp [hp]

end RumKernel.Process
