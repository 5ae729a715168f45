import RumKernel.Lib.Program
import RumKernel.Lib.Bytes
import RumKernel.Mm.Pmm

/-!
# Boot memory discovery

`pmm_initialize` and the functions it calls: two passes over the Multiboot memory map and the reservations of the kernel
image and of what the boot loader left. Memory is what it was when the kernel was started. `fit` gives every sum and
product its width and records in `wrapped` that one left it; the source has no such variable.
-/

namespace RumKernel.Mm
open Lib Prog

/-- Why `pmm_initialize` stopped: it returned false, or the walk over the map was cut off. -/
inductive Refusal where
  | invalid
  | unfinished
  deriving DecidableEq

/-- The variables of `pmm.c` during `pmm_initialize`. -/
structure Boot where
  pmm : Pmm := {}
  wrapped : Bool := false

/-- A function of `pmm_initialize`. -/
abbrev BootM (α : Type) : Type := Prog Boot Refusal α

/-- The value of an expression of `width` bits. -/
def fit (width n : Nat) : BootM Nat := do
  if n ≥ 2 ^ width then modify fun b => { b with wrapped := true }
  return n % 2 ^ width

def addressSpaceEnd : Nat := 2 ^ 32

/-- The fields of `struct multiboot_info` that are read. -/
structure MultibootInfo where
  flags : Nat
  cmdline : Nat
  modsCount : Nat
  modsAddr : Nat
  symbols0 : Nat
  symbols1 : Nat
  symbols2 : Nat
  mmapLength : Nat
  mmapAddr : Nat
  drivesLength : Nat
  drivesAddr : Nat
  configTable : Nat
  bootLoaderName : Nat
  apmTable : Nat
  vbeControlInfo : Nat
  vbeModeInfo : Nat
  vbeInterfaceSeg : Nat
  vbeInterfaceOff : Nat
  vbeInterfaceLen : Nat
  framebufferAddr : Nat
  framebufferPitch : Nat
  framebufferHeight : Nat
  framebufferType : Nat
  palette : Nat
  colors : Nat

/-- Eight bytes, least significant first. -/
def u64 (m : Mem) (i : Nat) : Nat := u32 m i + 4294967296 * u32 m (i + 4)

/-- `sizeof(struct multiboot_info)`. -/
def infoSize : Nat := 116

/-- The information structure at address `a`. -/
def MultibootInfo.read (m : Mem) (a : Nat) : MultibootInfo where
  flags := u32 m a
  cmdline := u32 m (a + 16)
  modsCount := u32 m (a + 20)
  modsAddr := u32 m (a + 24)
  symbols0 := u32 m (a + 28)
  symbols1 := u32 m (a + 32)
  symbols2 := u32 m (a + 36)
  mmapLength := u32 m (a + 44)
  mmapAddr := u32 m (a + 48)
  drivesLength := u32 m (a + 52)
  drivesAddr := u32 m (a + 56)
  configTable := u32 m (a + 60)
  bootLoaderName := u32 m (a + 64)
  apmTable := u32 m (a + 68)
  vbeControlInfo := u32 m (a + 72)
  vbeModeInfo := u32 m (a + 76)
  vbeInterfaceSeg := u16 m (a + 82)
  vbeInterfaceOff := u16 m (a + 84)
  vbeInterfaceLen := u16 m (a + 86)
  framebufferAddr := u64 m (a + 88)
  framebufferPitch := u32 m (a + 96)
  framebufferHeight := u32 m (a + 104)
  framebufferType := (m (a + 109)).toNat
  palette := u32 m (a + 110)
  colors := u16 m (a + 114)

structure MmapEntry where
  size : Nat
  address : Nat
  length : Nat
  type : Nat

/-- `sizeof(struct multiboot_mmap_entry)`. -/
def entrySize : Nat := 24

/-- The map entry at address `a`. -/
def MmapEntry.read (m : Mem) (a : Nat) : MmapEntry where
  size := u32 m a
  address := u64 m (a + 4)
  length := u64 m (a + 12)
  type := u32 m (a + 20)

/-- `range`: mark the pages of `[start, end)`. Available RAM needs a whole page; a reservation blocks partial
pages. -/
def range (start «end» : Nat) (usable : Bool) : BootM Unit := do
  if start ≥ physicalLimit then return ()
  let «end» := if «end» > physicalLimit then physicalLimit else «end»
  let up ← fit 64 ((if usable then start else «end») + pageSize)
  let first := if usable then (up - 1) / pageSize else start / pageSize
  let last := if usable then «end» / pageSize else (up - 1) / pageSize
  modify fun b => { b with pmm := { b.pmm with managed := b.pmm.managed.setRange first usable (last - first) } }

def reserve (address bytes : Nat) : BootM Unit := do
  if address ≥ addressSpaceEnd ∨ bytes > addressSpaceEnd - address then fail .invalid
  if bytes ≠ 0 then
    let «end» ← fit 64 (address + bytes)
    range address «end» false

/-- The loop of `reserve_string`, `fuel` bytes being left of a page. -/
def stringLoop (m : Mem) (address : Nat) : Nat → Nat → BootM Unit
  | 0, _ => fail .invalid
  | fuel + 1, size => do
    let «at» ← fit 64 (address + size)
    if «at» ≥ addressSpaceEnd then fail .invalid
    if m «at» = 0 then
      let bytes ← fit 32 (size + 1)
      reserve address bytes
    else stringLoop m address fuel (size + 1)

def reserveString (m : Mem) (address : Nat) : BootM Unit :=
  if address = 0 then return () else stringLoop m address pageSize 0

/-- The loop of `map_pass` at `offset`. -/
def mapLoop (m : Mem) (i : MultibootInfo) (available : Bool) : Nat → Nat → BootM Unit
  | 0, _ => fail .unfinished
  | fuel + 1, offset => do
    if offset ≥ i.mmapLength then return ()
    if i.mmapLength - offset < entrySize then fail .invalid
    let «at» ← fit 32 (i.mmapAddr + offset)
    let entry := MmapEntry.read m «at»
    let stride ← fit 64 (entry.size + 4)
    if entry.size < 20 ∨ stride > i.mmapLength - offset ∨ entry.length > 2 ^ 64 - 1 - entry.address then
      fail .invalid
    if entry.length ≠ 0 ∧ (entry.type = 1 ↔ available = true) then
      let «end» ← fit 64 (entry.address + entry.length)
      range entry.address «end» available
    let offset ← fit 32 (offset + stride)
    mapLoop m i available fuel offset

def mapPass (m : Mem) (i : MultibootInfo) (available : Bool) : BootM Unit :=
  mapLoop m i available (i.mmapLength + 1) 0

/-- The loop over the modules, from number `k`. -/
def moduleLoop (m : Mem) (i : MultibootInfo) : Nat → Nat → BootM Unit
  | 0, _ => return ()
  | fuel + 1, k => do
    let «at» ← fit 32 (i.modsAddr + k * 16)
    let start := u32 m «at»
    let «end» := u32 m («at» + 4)
    if «end» < start then fail .invalid
    reserve start («end» - start)
    reserveString m (u32 m («at» + 8))
    moduleLoop m i fuel (k + 1)

/-- The loop over the section headers, from number `k`. -/
def sectionLoop (m : Mem) (i : MultibootInfo) : Nat → Nat → BootM Unit
  | 0, _ => return ()
  | fuel + 1, k => do
    let addressAt ← fit 32 (i.symbols2 + k * i.symbols1 + 12)
    let sizeAt ← fit 32 (i.symbols2 + k * i.symbols1 + 20)
    if u32 m addressAt ≠ 0 then reserve (u32 m addressAt) (u32 m sizeAt)
    sectionLoop m i fuel (k + 1)

/-- The strings of `reserve_boot_data`, behind the structure and the map. -/
def reserveStrings (m : Mem) (i : MultibootInfo) : BootM Unit := do
  if i.flags.testBit 2 then reserveString m i.cmdline
  if i.flags.testBit 9 then reserveString m i.bootLoaderName

/-- The modules of `reserve_boot_data`. -/
def reserveModules (m : Mem) (i : MultibootInfo) : BootM Unit := do
  if i.flags.testBit 3 then
    let bytes ← fit 64 (i.modsCount * 16)
    if bytes ≠ 0 ∧ i.modsAddr = 0 then fail .invalid
    reserve i.modsAddr bytes
    moduleLoop m i i.modsCount 0

/-- The symbols of `reserve_boot_data`; those of a.out and ELF are exclusive. -/
def reserveSymbols (m : Mem) (i : MultibootInfo) : BootM Unit := do
  if i.flags.testBit 4 ∧ i.flags.testBit 5 then fail .invalid
  if i.flags.testBit 4 then
    let bytes ← fit 64 (i.symbols0 + i.symbols1)
    reserve i.symbols2 bytes
  if i.flags.testBit 5 then
    let bytes ← fit 64 (i.symbols0 * i.symbols1)
    if bytes ≠ 0 ∧ (i.symbols2 = 0 ∨ i.symbols1 < 40) then fail .invalid
    reserve i.symbols2 bytes
    sectionLoop m i i.symbols0 0

/-- The drive table in `reserve_boot_data`. -/
def reserveDrives (i : MultibootInfo) : BootM Unit := do
  if i.flags.testBit 7 then reserve i.drivesAddr i.drivesLength

/-- The configuration table in `reserve_boot_data`. -/
def reserveConfiguration (m : Mem) (i : MultibootInfo) : BootM Unit := do
  if i.flags.testBit 8 ∧ i.configTable ≠ 0 then
    let «end» ← fit 64 (i.configTable + 2)
    if «end» > addressSpaceEnd then fail .invalid
    let bytes ← fit 32 (u16 m i.configTable + 2)
    reserve i.configTable bytes

/-- The APM table in `reserve_boot_data`. -/
def reserveApm (i : MultibootInfo) : BootM Unit := do
  if i.flags.testBit 10 then reserve i.apmTable 20

/-- The VBE tables in `reserve_boot_data`. -/
def reserveVbe (i : MultibootInfo) : BootM Unit := do
  if i.flags.testBit 11 then
    reserve i.vbeControlInfo 512
    reserve i.vbeModeInfo 256
    let interface ← fit 32 (i.vbeInterfaceSeg * 16 + i.vbeInterfaceOff)
    reserve interface i.vbeInterfaceLen

/-- The frame buffer and its palette in `reserve_boot_data`. -/
def reserveFramebuffer (i : MultibootInfo) : BootM Unit := do
  if i.flags.testBit 12 then
    let bytes ← fit 64 (i.framebufferPitch * i.framebufferHeight)
    if bytes > 2 ^ 64 - 1 - i.framebufferAddr then fail .invalid
    if bytes ≠ 0 then
      let «end» ← fit 64 (i.framebufferAddr + bytes)
      range i.framebufferAddr «end» false
    if i.framebufferType = 0 then
      let bytes ← fit 32 (i.colors * 3)
      reserve i.palette bytes

/-- `reserve_boot_data` for the structure `i` at address `info`. -/
def reserveBootData (m : Mem) (info : Nat) (i : MultibootInfo) : BootM Unit := do
  reserve info infoSize
  reserve i.mmapAddr i.mmapLength
  reserveStrings m i
  reserveModules m i
  reserveSymbols m i
  reserveDrives i
  reserveConfiguration m i
  reserveApm i
  reserveVbe i
  reserveFramebuffer i

/-- The loop that counts the usable pages and finds the end of the last one. -/
def usable (managed : Bitmap) : Nat × Nat :=
  (List.range pageCount).foldl (fun r page => if managed.bit page then (r.1 + 1, (page + 1) * pageSize) else r) (0, 0)

/-- The statistics that loop leaves, `r` being its result. -/
def Pmm.measure (s : Pmm) (r : Nat × Nat) : Pmm := { s with usablePages := r.1, limit := r.2 }

/-- The end of `pmm_initialize`: the pages left are counted and the allocator is ready. -/
def Pmm.publish (s : Pmm) : Pmm :=
  { s with
    managedPages := (List.range s.pages).countP s.managed.bit
    freePages := (List.range s.pages).countP s.managed.bit
    nextPage := lowReservedEnd / pageSize
    ready := true }

/-- `pmm_initialize` for the structure at `info`, which is 0 for a null pointer. -/
def pmmInitialize (m : Mem) (info kernelStart kernelEnd : UInt32) : BootM Unit := do
  modify fun b => { b with pmm := { nextPage := b.pmm.nextPage } }
  if info.toNat = 0 then fail .invalid
  let «end» ← fit 64 (info.toNat + infoSize)
  if «end» > addressSpaceEnd then fail .invalid
  let i := MultibootInfo.read m info.toNat
  if ¬i.flags.testBit 6 ∨ i.mmapAddr = 0 ∨ i.mmapLength = 0 then fail .invalid
  let «end» ← fit 64 (i.mmapAddr + i.mmapLength)
  if «end» > addressSpaceEnd then fail .invalid
  if kernelEnd.toNat < kernelStart.toNat ∨ kernelEnd.toNat > physicalLimit then fail .invalid
  mapPass m i true
  mapPass m i false
  let up ← fit 64 (kernelEnd.toNat + pageSize)
  let first := kernelStart.toNat / pageSize
  let b ← get
  if (List.range ((up - 1) / pageSize - first)).any fun k => !b.pmm.managed.bit (first + k) then fail .invalid
  modify fun b => { b with pmm := b.pmm.measure (usable b.pmm.managed) }
  let b ← get
  if b.pmm.limit = 0 then fail .invalid
  reserve 0 lowReservedEnd
  reserve kernelStart.toNat (kernelEnd.toNat - kernelStart.toNat)
  reserveBootData m info.toNat i
  modify fun b => { b with pmm := b.pmm.publish }

end RumKernel.Mm
