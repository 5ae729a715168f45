import RumKernel.Lib.Program
import RumKernel.Lib.Disk
import RumKernel.Fs.Types

/-!
# The mounted FAT16 volume and its device

`fat16-internal.h` and the device requests of `fat16.c` and `fat16-write.c`. The geometry record carries what
`geometry()` has checked. The block device is an arbitrary one: its answer to the `n`-th request is `oracle n`, and a
failed transfer leaves what that answer says in the buffer or in the sector.
-/

namespace RumKernel.Fat16
open Lib Fs

def rootId : Nat := 1

def firstReserved : Nat := 0xfff0

def firstEnd : Nat := 0xfff8

def maxClusters : Nat := 65524

def fatSectorLimit : Nat := 256

def clusterSectorLimit : Nat := 64

def directoryEntryLimit : Nat := 65536

def writeEntryLimit : Nat := 65536

/-- The geometry fields of `struct fat16_information`, with what `geometry()` guarantees about them. -/
structure Geometry where
  sectors : Nat
  clusters : Nat
  clusterBytes : Nat
  fatStart : Nat
  fatSectors : Nat
  rootStart : Nat
  rootEntries : Nat
  dataStart : Nat
  clusters_ge : 4085 ≤ clusters
  clusters_le : clusters ≤ maxClusters
  clusterBytes_mod : clusterBytes % 512 = 0
  clusterBytes_ge : 512 ≤ clusterBytes
  clusterBytes_le : clusterBytes ≤ clusterSectorLimit * 512
  fatStart_pos : 0 < fatStart
  fatSectors_pos : 0 < fatSectors
  fatSectors_le : fatSectors ≤ fatSectorLimit
  rootStart_eq : rootStart = fatStart + 2 * fatSectors
  rootEntries_pos : 0 < rootEntries
  rootEntries_lt : rootEntries < 65536
  rootEntries_mod : rootEntries % 16 = 0
  dataStart_eq : dataStart = rootStart + rootEntries / 16
  data_end : dataStart + clusters * (clusterBytes / 512) ≤ sectors
  sectors_lt : sectors < 4294967296
  fat_capacity : (clusters + 2) * 2 ≤ fatSectors * 512

def Geometry.fatBytes (g : Geometry) : Nat := g.fatSectors * 512

structure Pin where
  id : Nat := 0
  count : Nat := 0

/-- How the device answers one request: a result code, the sectors completed when not all that were asked
for, the driver's diagnostics, and what a failed transfer leaves behind. `memory` answers `kmalloc`. -/
structure Outcome where
  error : BlockError := .ok
  completed : Option Nat := none
  status : Byte := 0
  deviceError : Byte := 0
  contents : Mem := fun _ => 0
  memory : Bool := true

/-- The error of a request that expected `expected` completed sectors; `none` is `FS_OK`. -/
def Outcome.code (o : Outcome) (expected : Nat) : Option FsError :=
  match fsErrorFromBlock o.error with
  | some e => some e
  | none => if o.completed.getD expected = expected then none else some .ioError

/-- The fields of `struct block_device` that mounting reads; `canWrite` and `canFlush` say whether the
driver has these operations. -/
structure Device where
  online : Bool
  readOnly : Bool
  sectorSize : Nat
  sectorCount : Nat
  canWrite : Bool
  canFlush : Bool

/-- `struct fat16_volume` with its block device. `started` and `committed` are the variables of the
running mutation that the C code passes by address; `trace` records the writes and flushes issued. -/
structure World where
  geo : Geometry
  mounted : Bool
  writable : Bool
  faulted : Bool
  fat : Mem
  sector : Mem
  cachedSector : Nat
  cacheValid : Bool
  owners : Nat → Bool
  pins : Nat → Pin
  lastIo : FsIoResult
  ready : Bool
  audited : Bool
  started : Bool
  committed : Bool
  device : Device
  medium : Mem
  oracle : Nat → Outcome
  clock : Nat
  trace : List Request

/-- A backend function: it works on the volume and may return an error code. -/
abbrev FatM (α : Type) : Type := Prog World FsError α

open Prog

/-- The device's answer to the next request. -/
def nextOutcome : FatM Outcome := ⟨fun w => (.ok (w.oracle w.clock), { w with clock := w.clock + 1 })⟩

/-- The result record kept from a request (`fat16_volume.last_io`). -/
def Outcome.ioResult (o : Outcome) (expected : Nat) : FsIoResult :=
  { error := o.code expected, deviceStatus := o.status, deviceError := o.deviceError }

/-- `fat16_read_sectors` into `buffer`: the error code and the buffer afterwards. -/
def readSectors (sector count : Nat) (buffer : Mem) : FatM (Option FsError × Mem) := do
  let w ← get
  if sector ≥ w.geo.sectors ∨ count > w.geo.sectors - sector then return (some .range, buffer)
  let o ← nextOutcome
  modify fun w => { w with lastIo := o.ioResult count }
  return (o.code count, if o.code count = none then slice w.medium (sector * 512) (count * 512) else o.contents)

/-- `fat16_sector`: make sector `number` the cached one. -/
def fat16Sector (number : Nat) : FatM Unit := do
  let w ← get
  if w.cacheValid ∧ number = w.cachedSector then return ()
  modify fun w => { w with cacheValid := false }
  let (error, data) ← readSectors number 1 w.sector
  modify fun w => { w with sector := data }
  match error with
  | some e => fail e
  | none => modify fun w => { w with cachedSector := number, cacheValid := true }

/-- `write_sector`. The `started` flag is raised before the request is made. -/
def writeSector (sector : Nat) (data : Mem) : FatM Unit := do
  let w ← get
  if sector < w.geo.fatStart ∨ sector ≥ w.geo.sectors then fail .range
  if w.device.readOnly then fail .readOnly
  modify fun w => { w with started := true, cacheValid := false }
  let o ← nextOutcome
  modify fun w => { w with
    lastIo := o.ioResult 1
    trace := w.trace ++ [.write sector data]
    medium := setBlock w.medium sector (if o.code 1 = none then data else o.contents) }
  match o.code 1 with
  | some e => fail e
  | none => return ()

def flushDevice : FatM Unit := do
  let o ← nextOutcome
  modify fun w => { w with lastIo := o.ioResult 0, trace := w.trace ++ [.flush] }
  match o.code 0 with
  | some e => fail e
  | none => return ()

/-- `kmalloc`: whether memory was found. -/
def kmalloc : FatM Bool := do
  let o ← nextOutcome
  return o.memory

/-- `finish`: after an attempted write an error makes the mount faulted. -/
def finish {α : Type} (body : FatM α) : FatM α := ⟨fun w =>
  match body.run w with
  | (.ok a, w') => (.ok a, w')
  | (.error e, w') =>
    (.error e, if w'.started then { w' with faulted := true, writable := false, cacheValid := false } else w')⟩

lemma finish_run {α : Type} {body : FatM α} {w : World} : (finish body).run w = match body.run w with
    | (.ok a, w') => (.ok a, w')
    | (.error e, w') =>
      (.error e, if w'.started then { w' with faulted := true, writable := false, cacheValid := false } else w') := rfl

end RumKernel.Fat16
