import RumKernel.Fat16.Layout

/-!
# Reading the volume

The backend operations of `fat16.c`: lookup, stat, pins, file reads and directory iteration, and mounting
and unmounting.
-/

namespace RumKernel.Fat16
open Lib Fs Prog

/-- `entry_read`: the entry in a directory slot. -/
def entryRead (id : Nat) : FatM Entry := do
  let w ← get
  match slotOffset w.geo id with
  | none => fail .range
  | some offset =>
    fat16Sector (offset / 512)
    let w ← get
    return slice w.sector (offset % 512) 32

def describe (id : Nat) : FatM Description := do
  let w ← get
  if !w.ready then fail .unavailable
  if w.faulted then fail .ioError
  if id = rootId then return rootDescription
  let entry ← entryRead id
  let w ← get
  match decode w.geo w.fat entry id with
  | .error .end => fail .notFound
  | .error e => fail e
  | .ok (d, _) => return d

def directoryEntry (directory : Description) (cursor : Nat) : FatM (Description × Name) := do
  let w ← get
  let id ← lift (directorySlot w.geo w.fat directory cursor)
  let entry ← entryRead id
  let w ← get
  lift (decode w.geo w.fat entry id)

/-- The loop of `lookup` from `cursor`, `fuel` slots being left. -/
def lookupLoop (directory : Description) (name : Name) : Nat → Nat → FatM FsNode
  | 0, _ => fail .notFound
  | fuel + 1, cursor => do
    match ← attempt (directoryEntry directory cursor) with
    | .error .end => fail .notFound
    | .error .notFound => lookupLoop directory name fuel (cursor + 1)
    | .error e => fail e
    | .ok (entry, decoded) =>
      if decoded = name then return entry.node else lookupLoop directory name fuel (cursor + 1)

def lookup (parent : Nat) (name : Name) : FatM FsNode := do
  let directory ← describe parent
  if directory.node.kind ≠ .directory then fail .notDirectory
  let w ← get
  lookupLoop directory name (directorySlots w.geo directory) 0

def statNode (id : Nat) : FatM FsNode := do
  let d ← describe id
  return d.node

/-- The first pin slot at or after `i` that is in use for `id`. -/
def findPin (pins : Nat → Pin) (id : Nat) : Option Nat :=
  (List.range objectLimit).find? fun i => (pins i).count ≠ 0 ∧ (pins i).id = id

def emptyPin (pins : Nat → Pin) : Option Nat :=
  (List.range objectLimit).find? fun i => (pins i).count = 0

def setPin (pins : Nat → Pin) (i : Nat) (pin : Pin) : Nat → Pin := fun j => if j = i then pin else pins j

/-- `retain`: pin a slot identifier. -/
def retain (id : Nat) : FatM Unit := do
  let w ← get
  if !w.ready then fail .unavailable
  if id ≠ rootId ∧ slotOffset w.geo id = none then fail .range
  match findPin w.pins id with
  | some i =>
    if (w.pins i).count = 4294967295 then fail .noSpace
    modify fun w => { w with pins := setPin w.pins i { id, count := (w.pins i).count + 1 } }
  | none =>
    match emptyPin w.pins with
    | none => fail .noSpace
    | some i => modify fun w => { w with pins := setPin w.pins i { id, count := 1 } }

def release (id : Nat) : FatM Unit := do
  let w ← get
  match findPin w.pins id with
  | none => return ()
  | some i => modify fun w => { w with pins := setPin w.pins i { id, count := (w.pins i).count - 1 } }

def pinned (pins : Nat → Pin) (id : Nat) : Bool := (findPin pins id).isSome

/-- The loop of `read_file`: `done` are the bytes copied so far, of `bytes`. -/
def readLoop (bytes : Nat) : Nat → Nat → Nat → List Byte → FatM (Option FsError × List Byte)
  | 0, _, _, done => return (none, done)
  | fuel + 1, cluster, offset, done => do
    if done.length ≥ bytes then return (none, done)
    let w ← get
    let within := offset % w.geo.clusterBytes
    match ← attempt (fat16Sector (clusterSector w.geo cluster + within / 512)) with
    | .error e => return (some e, done)
    | .ok _ =>
      let w ← get
      let amount := min (512 - within % 512) (bytes - done.length)
      let done := done ++ (List.range amount).map fun j => w.sector (within % 512 + j)
      let offset := offset + amount
      let cluster :=
        if offset % w.geo.clusterBytes = 0 ∧ done.length < bytes then nextCluster w.fat cluster else cluster
      readLoop bytes fuel cluster offset done

/-- `read_file`: the result and the bytes stored in the caller's buffer. -/
def readFile (id offset bytes : Nat) : FatM (FsIoResult × List Byte) := do
  modify fun w => { w with lastIo := {} }
  let (error, data) ← (do
    match ← attempt (describe id) with
    | .error e => return (some e, [])
    | .ok d =>
      if d.node.kind ≠ .file then return (some .isDirectory, [])
      if offset ≥ d.node.size then return (none, [])
      let w ← get
      let bytes := min bytes (d.node.size - offset)
      readLoop bytes bytes (clusterAt w.fat d.first (offset / w.geo.clusterBytes)) offset [])
  let w ← get
  let result : FsIoResult := { error, transferred := data.length }
  if error ≠ none then
    return ({ result with deviceStatus := w.lastIo.deviceStatus, deviceError := w.lastIo.deviceError }, data)
  return (result, data)

/-- The loop of `readdir_node`. -/
def readdirLoop (directory : Description) : Nat → Nat → FatM (Description × Name × Nat)
  | 0, _ => fail .end
  | fuel + 1, cursor => do
    match ← attempt (directoryEntry directory cursor) with
    | .error .notFound => readdirLoop directory fuel (cursor + 1)
    | .error e => fail e
    | .ok (entry, name) => return (entry, name, cursor + 1)

/-- `readdir_node`: the entry at or after `cursor` and the cursor behind it. -/
def readdirNode (id cursor : Nat) : FatM (Description × Name × Nat) := do
  let directory ← describe id
  if directory.node.kind ≠ .directory then fail .notDirectory
  let w ← get
  readdirLoop directory (directorySlots w.geo directory - cursor) cursor

/-- `detach`: forget the volume. -/
def detach : FatM Unit :=
  modify fun w => { w with
    mounted := false, writable := false, faulted := false, ready := false, audited := false
    cacheValid := false, pins := fun _ => {}, lastIo := {}, owners := fun _ => false }

/-- `geometry` on a boot sector, for a device of `sectorCount` sectors. -/
def geometry (sectorCount : Nat) (boot : Mem) : Except FsError Geometry :=
  let perCluster := (boot 13).toNat
  let reserved := u16 boot 14
  let entries := u16 boot 17
  let small := u16 boot 19
  let large := u32 boot 32
  let fatSectors := u16 boot 22
  let total := if small ≠ 0 then small else large
  if hv : boot 510 ≠ 0x55 ∨ boot 511 ≠ 0xaa ∨ reserved = 0 ∨ entries = 0 ∨ entries % 16 ≠ 0 ∨
      fatSectors = 0 ∨ total = 0 ∨ (small ≠ 0 ∧ large ≠ 0) ∨ perCluster = 0 ∨
      perCluster &&& (perCluster - 1) ≠ 0 ∨ u32 boot 28 ≠ 0 ∨ (boot 21 ≠ 0xf0 ∧ boot 21 < 0xf8) then
    .error .invalid
  else if hu : u16 boot 11 ≠ 512 ∨ (boot 16).toNat ≠ 2 ∨ perCluster > clusterSectorLimit ∨
      fatSectors > fatSectorLimit then .error .unsupported
  else if total > sectorCount then .error .range
  else
    let rootStart := reserved + 2 * fatSectors
    let dataStart := rootStart + entries / 16
    if hd : dataStart ≥ total then .error .range
    else
      let clusters := (total - dataStart) / perCluster
      if hc : clusters < 4085 ∨ clusters > maxClusters then .error .unsupported
      else if hf : (clusters + 2) * 2 > fatSectors * 512 then .error .range
      else .ok {
        sectors := total, clusters, clusterBytes := perCluster * 512, fatStart := reserved, fatSectors
        rootStart, rootEntries := entries, dataStart
        clusters_ge := by omega
        clusters_le := by omega
        clusterBytes_mod := by omega
        clusterBytes_ge := by omega
        clusterBytes_le := by omega
        fatStart_pos := by omega
        fatSectors_pos := by omega
        fatSectors_le := by omega
        rootStart_eq := rfl
        rootEntries_pos := by omega
        rootEntries_lt := u16_lt
        rootEntries_mod := by omega
        dataStart_eq := rfl
        data_end := by
          have h : clusters * perCluster ≤ total - dataStart := Nat.div_mul_le_self _ _
          rw [Nat.mul_div_cancel _ (by omega : 0 < 512)]
          omega
        sectors_lt := by
          have h1 := u16_lt (m := boot) (i := 19)
          have h2 := u32_lt (m := boot) (i := 32)
          simp only [total]
          split <;> omega
        fat_capacity := by omega }

/-- The comparison loop of `mount_volume`: sector `i` of the second FAT copy against the cached first. -/
def compareLoop (start : Nat) (fat : Mem) : Nat → Nat → FatM Unit
  | 0, _ => return ()
  | fuel + 1, i => do
    let (error, buffer) ← readSectors (start + i) 1 (fun _ => 0)
    match error with
    | some e => fail e
    | none =>
      if sameBytes (slice fat (i * 512) 512) buffer 512 then compareLoop start fat fuel (i + 1)
      else fail .ioError

/-- `mount_volume`; `registered` is the answer of `fs_mount_disk`. A failed mount forgets the volume. -/
def mountVolume (readOnly : Bool) (registered : Except FsError Unit) : FatM Unit := do
  let w ← get
  if w.ready then fail .busy
  let body : FatM Unit := do
    let w ← get
    if !w.device.online then fail .unavailable
    if w.device.sectorSize ≠ 512 then fail .unsupported
    let o ← nextOutcome
    match o.code 1 with
    | some e => fail e
    | none =>
      let boot := block w.medium 0
      let g ← lift (geometry w.device.sectorCount boot)
      modify fun w => { w with geo := g, mounted := false, writable := false, faulted := false }
      if !(← kmalloc) then fail .noMemory
      let (error, fat) ← readSectors g.fatStart g.fatSectors (fun _ => 0)
      match error with
      | some e => fail e
      | none =>
        modify fun w => { w with fat }
        compareLoop (g.fatStart + g.fatSectors) fat g.fatSectors 0
        if u16 fat 0 ≠ 0xff00 + (boot 21).toNat ∨ u16 fat 2 % 0x4000 ≠ 0x3fff then fail .ioError
        modify fun w => { w with
          writable := !readOnly && !w.device.readOnly && w.device.canWrite && w.device.canFlush
          ready := true }
        lift registered
        modify fun w => { w with mounted := true }
  match ← attempt body with
  | .ok _ => return ()
  | .error e =>
    detach
    fail e

end RumKernel.Fat16
