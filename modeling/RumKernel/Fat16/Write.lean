import RumKernel.Fat16.Read

/-!
# Mutations

`fat16-write.c`: the write audit, the search for a directory slot, the allocator on a copied FAT, the
copy-on-write of file contents and the five mutations with their write ordering.
-/

namespace RumKernel.Fat16
open Lib Fs Prog

structure Target where
  directory : Description := { node := { id := 0, size := 0, kind := .file } }
  old : Description := { node := { id := 0, size := 0, kind := .file } }
  id : Nat := 0
  cursor : Nat := 0
  entry : Entry := fun _ => 0
  «exists» : Bool := false
  «end» : Bool := false
  grow : Bool := false
  longName : Bool := false

def setCluster (fat : Mem) (cluster next : Nat) : Mem := put16 fat (cluster * 2) next

/-- `entry_write`: read the slot's sector, replace the 32 bytes of the slot and write it back. -/
def entryWrite (id : Nat) (entry : Entry) : FatM Unit := do
  let w ← get
  match slotOffset w.geo id with
  | none => fail .range
  | some offset =>
    fat16Sector (offset / 512)
    let w ← get
    let data : Mem := fun j =>
      if offset % 512 ≤ j ∧ j < offset % 512 + 32 then entry (j - offset % 512) else w.sector j
    writeSector (offset / 512) data

/-- The sector loop of `persist_fat` for one copy: write the sectors that differ from the cached FAT and
tell whether there were any. -/
def persistSectors (fat : Mem) (copy : Nat) : Nat → Nat → Bool → FatM Bool
  | 0, _, changed => return changed
  | fuel + 1, i, changed => do
    let w ← get
    if sameBytes (slice fat (i * 512) 512) (slice w.fat (i * 512) 512) 512 then
      persistSectors fat copy fuel (i + 1) changed
    else
      writeSector (w.geo.fatStart + copy * w.geo.fatSectors + i) (slice fat (i * 512) 512)
      persistSectors fat copy fuel (i + 1) true

/-- One round of the copy loop of `persist_fat`. -/
def persistCopy (fat : Mem) (copy : Nat) : FatM Unit := do
  let w ← get
  if ← persistSectors fat copy w.geo.fatSectors 0 false then flushDevice

/-- `persist_fat`: both copies, each flushed, before the cached FAT changes. -/
def persistFat (fat : Mem) : FatM Unit := do
  persistCopy fat 0
  persistCopy fat 1
  modify fun w => { w with fat := copyInto w.fat fat w.geo.fatBytes }

/-- `own_chain`: claim `length` clusters from `cluster` in the ownership bitmap. -/
def ownChain : Nat → Nat → FatM Unit
  | 0, _ => return ()
  | length + 1, cluster => do
    let w ← get
    if w.owners cluster then fail .ioError
    modify fun w => { w with owners := fun c => c == cluster || w.owners c }
    ownChain length (nextCluster w.fat cluster)

/-- `dot`: the padded name `.`, or `..` for a parent entry. -/
def dotEntry (entry : Entry) (parent : Bool) : Bool :=
  entry 0 == dotByte && entry 1 == (if parent then dotByte else 32) &&
    (List.range 9).all fun i => entry (i + 2) == 32

/-- The test of `audit_directory` on the first two slots of a subdirectory. -/
def dotsOk (entry : Entry) (parent : Bool) (expected : Nat) : Bool :=
  dotEntry entry parent && attr entry == 0x10 && u16 entry 20 == 0 && entryFirst entry == expected &&
    entrySize entry == 0

/-- The slot loop of `audit_directory`; `recurse` audits a subdirectory. The result is the budget left. -/
def auditLoop (recurse : Description → Nat → Nat → FatM Nat) (directory : Description) (parent : Nat) :
    Nat → Nat → Nat → FatM Nat
  | 0, _, budget => return budget
  | fuel + 1, cursor, budget => do
    if budget = 0 then fail .unsupported
    let budget := budget - 1
    let w ← get
    let id ← lift (directorySlot w.geo w.fat directory cursor)
    let entry ← entryRead id
    let sub := directory.node.id ≠ rootId
    if sub ∧ cursor < 2 then
      if !dotsOk entry (cursor ≠ 0) (if cursor ≠ 0 then parent else directory.first) then fail .ioError
      auditLoop recurse directory parent fuel (cursor + 1) budget
    else if entry 0 = 0 then return budget
    else if entry 0 = 0xe5 ∨ attr entry = 0x0f then
      auditLoop recurse directory parent fuel (cursor + 1) budget
    else if attr entry &&& 8 ≠ 0 then
      if attr entry ≠ 8 ∨ u16 entry 20 ≠ 0 ∨ entryFirst entry ≠ 0 ∨ entrySize entry ≠ 0 then fail .ioError
      auditLoop recurse directory parent fuel (cursor + 1) budget
    else if dotEntry entry false ∨ dotEntry entry true ∨ attr entry &&& 0xc0 ≠ 0 ∨ u16 entry 20 ≠ 0 then
      fail .ioError
    else if entryKind entry = .file ∧ entrySize entry = 0 then
      if entryFirst entry ≠ 0 then fail .ioError
      auditLoop recurse directory parent fuel (cursor + 1) budget
    else
      let w ← get
      let length ← lift (fat16Chain w.geo w.fat (entryFirst entry))
      let child : Description :=
        { node := { id, size := entrySize entry, kind := entryKind entry }, first := entryFirst entry, length }
      if child.node.kind = .directory then
        if child.node.size ≠ 0 then fail .ioError
        if length * w.geo.clusterBytes / 32 > directoryEntryLimit then fail .unsupported
      else if clustersFor w.geo child.node.size ≠ length then fail .ioError
      ownChain length child.first
      if child.node.kind = .directory then
        let budget ← recurse child (if sub then directory.first else 0) budget
        auditLoop recurse directory parent fuel (cursor + 1) budget
      else auditLoop recurse directory parent fuel (cursor + 1) budget

/-- `audit_directory`; `fuel = 0` is a depth beyond `FS_PATH_DEPTH`. -/
def auditDirectory : Nat → Description → Nat → Nat → FatM Nat
  | 0, _, _, _ => fail .tooDeep
  | fuel + 1, directory, parent, budget => do
    let w ← get
    auditLoop (auditDirectory fuel) directory parent (directorySlots w.geo directory) 0 budget

/-- `writable`: the tests before every mutation, with the audit before the first one. -/
def writable : FatM Unit := do
  let w ← get
  if !w.ready then fail .unavailable
  if w.faulted then fail .ioError
  if !w.writable ∨ w.device.readOnly then fail .readOnly
  if !w.audited then
    modify fun w => { w with owners := fun _ => false }
    let _ ← auditDirectory (pathDepth + 1) rootDescription 0 writeEntryLimit
    modify fun w => { w with audited := true }

/-- The local variables of the search loop in `find_target`. -/
structure Search where
  reusable : Nat
  id : Nat
  «end» : Bool
  longName : Bool

/-- The slot loop of `find_target`: the target when the name is found, else the search state and whether
the end marker was met. -/
def findLoop (directory : Description) (name : Name) (count : Nat) :
    Nat → Nat → Search → FatM ((Search × Bool) ⊕ Target)
  | 0, _, s => return .inl (s, false)
  | fuel + 1, cursor, s => do
    let w ← get
    let id ← lift (directorySlot w.geo w.fat directory cursor)
    let entry ← entryRead id
    if entry 0 = 0xe5 ∨ entry 0 = 0 then
      if s.longName then fail .unsupported
      let s : Search :=
        if s.reusable = count then { reusable := cursor, id, «end» := entry 0 = 0, longName := false }
        else { s with longName := false }
      if entry 0 = 0 then return .inl (s, true)
      findLoop directory name count fuel (cursor + 1) s
    else if attr entry = 0x0f then
      findLoop directory name count fuel (cursor + 1) { s with longName := true }
    else
      let w ← get
      match decode w.geo w.fat entry id with
      | .ok (old, decoded) =>
        if decoded = name then
          return .inr { directory, old, id, cursor, entry, «exists» := true, longName := s.longName }
        findLoop directory name count fuel (cursor + 1) { s with longName := false }
      | .error .notFound => findLoop directory name count fuel (cursor + 1) { s with longName := false }
      | .error e => fail e

/-- The search of `find_target` in a directory that has been described. -/
def findSlot (parent : Nat) (directory : Description) (name : Name) : FatM Target := do
  let w ← get
  let count := directorySlots w.geo directory
  match ← findLoop directory name count count 0 { reusable := count, id := 0, «end» := false, longName := false } with
  | .inr target => return target
  | .inl (s, ended) =>
    let grow : Bool := s.reusable == count && !ended
    if grow ∧ parent = rootId then fail .noSpace
    if grow ∧ count + w.geo.clusterBytes / 32 > directoryEntryLimit then fail .noSpace
    return { directory, id := s.id, cursor := s.reusable, «end» := s.end, grow }

/-- `find_target`: the entry called `name`, or the slot where it would go. -/
def findTarget (parent : Nat) (name : Name) : FatM Target := do
  let directory ← describe parent
  if directory.node.kind ≠ .directory then fail .notDirectory
  findSlot parent directory name

def fatCopy : FatM Mem := do
  if !(← kmalloc) then fail .noMemory
  let w ← get
  return w.fat

/-- The loop of `allocate` from `cluster`; `last` is the cluster taken before, 0 at the start. -/
def allocLoop (g : Geometry) : Nat → Nat → Nat → Nat → Nat → Mem → Except FsError (Mem × Nat)
  | 0, _, count, _, first, fat => if count = 0 then .ok (fat, first) else .error .noSpace
  | fuel + 1, cluster, count, last, first, fat =>
    if count = 0 then .ok (fat, first)
    else if !validCluster g cluster ∨ nextCluster fat cluster ≠ 0 then
      allocLoop g fuel (cluster + 1) count last first fat
    else
      let fat := if last ≠ 0 then setCluster fat last cluster else fat
      allocLoop g fuel (cluster + 1) (count - 1) cluster (if last ≠ 0 then first else cluster)
        (setCluster fat cluster 0xffff)

/-- `allocate`: take `count` free clusters in ascending order and link them; the new table and the first
cluster. -/
def allocate (g : Geometry) (fat : Mem) (count : Nat) : Except FsError (Mem × Nat) :=
  allocLoop g g.clusters 2 count 0 0 fat

/-- The loop of `free_chain`, following the cached table. -/
def freeLoop (cached : Mem) : Nat → Nat → Mem → Mem
  | 0, _, fat => fat
  | length + 1, cluster, fat => freeLoop cached length (nextCluster cached cluster) (setCluster fat cluster 0)

def freeChain (cached fat : Mem) (old : Description) : Mem := freeLoop cached old.length old.first fat

/-- Store the characters of a name, jumping to the extension field at the dot. -/
def putName : Name → Nat → Entry → Entry
  | [], _, entry => entry
  | c :: rest, offset, entry =>
    if c = dotByte then putName rest 8 entry
    else putName rest (offset + 1) fun j => if j = offset then c else entry j

def makeEntry (name : Name) (directory : Bool) (first size : Nat) : Entry :=
  let entry := putName name 0 fun j => if j < 11 then 32 else 0
  let entry : Entry := fun j => if j = 11 then (if directory then 0x10 else 0x20) else entry j
  put32 (put16 (put16 (put16 (put16 entry 16 0x21) 18 0x21) 24 0x21) 26 first) 28 size

/-- One dot entry of a new directory: `.` or, for `parent`, `..`. -/
def dotSlot (parent : Bool) (first : Nat) : Entry :=
  let entry : Entry := fun j =>
    if j = 0 ∨ (parent ∧ j = 1) then dotByte else if j < 11 then 32 else if j = 11 then 0x10 else 0
  put16 (put16 (put16 (put16 entry 26 first) 16 0x21) 18 0x21) 24 0x21

/-- The first sector of a new directory: its dot entries, or zeroes when `self` is 0. -/
def firstSector (self parent : Nat) : Mem :=
  if self ≠ 0 then fun j =>
    if j < 32 then dotSlot false self j else if j < 64 then dotSlot true parent (j - 32) else 0
  else fun _ => 0

/-- The sector loop of `zero_cluster`. -/
def zeroLoop (start : Nat) : Nat → Nat → Mem → FatM Unit
  | 0, _, _ => return ()
  | fuel + 1, i, data => do
    writeSector (start + i) data
    zeroLoop start fuel (i + 1) (if i = 0 then fun _ => 0 else data)

def zeroCluster (cluster self parent : Nat) : FatM Unit := do
  let w ← get
  zeroLoop (clusterSector w.geo cluster) w.geo.perCluster 0 (firstSector self parent)

/-- `grow_directory`: link one zeroed cluster behind the directory; the target's new slot and the table. -/
def growDirectory (target : Target) (fat : Mem) : FatM (Target × Mem) := do
  if !target.grow then return (target, fat)
  let w ← get
  let (fat, cluster) ← lift (allocate w.geo fat 1)
  let last := clusterAt w.fat target.directory.first (target.directory.length - 1)
  zeroCluster cluster 0 0
  return ({ target with id := clusterSector w.geo cluster * 16 + 2 }, setCluster fat last cluster)

/-- The first part of `publish`: keep an end marker behind a consumed one. -/
def clearNext (target : Target) : FatM Unit := do
  let w ← get
  if target.end ∧ target.cursor + 1 < directorySlots w.geo target.directory then
    let next ← lift (directorySlot w.geo w.fat target.directory (target.cursor + 1))
    let following ← entryRead next
    if following 0 ≠ 0 then
      entryWrite next fun _ => 0
      flushDevice

/-- `publish`: see to the end marker, then write the entry; each step is flushed. -/
def publish (target : Target) (entry : Entry) : FatM Unit := do
  clearNext target
  entryWrite target.id entry
  flushDevice

/-- The steps `rewrite` and `fat16_mkdir_node` share: flush the data, write the table, publish the entry. -/
def commit (target : Target) (fat : Mem) (entry : Entry) : FatM Unit := do
  flushDevice
  persistFat fat
  publish target entry

/-- Lay the part of `patch` that falls into the sector at `base` over `data`; `patch` starts at `offset`. -/
def patchSector (data : Mem) (base size offset : Nat) (patch : List Byte) : Mem :=
  let start := max base offset
  let stop := min (min (base + 512) (offset + patch.length)) size
  fun j => if start ≤ base + j ∧ base + j < stop then patch.getD (base + j - offset) 0 else data j

/-- The sector loop of `copy_contents` inside one cluster; the result is the next `base`. -/
def copySectors (old : Description) (size offset : Nat) (patch : List Byte) (keep : Bool)
    (cluster oldCluster : Nat) : Nat → Nat → Nat → FatM Nat
  | 0, _, base => return base
  | fuel + 1, i, base => do
    let w ← get
    let data ←
      if keep ∧ base < size ∧ base < old.node.size then do
        fat16Sector (clusterSector w.geo oldCluster + i)
        let w ← get
        pure (slice w.sector 0 (min (min (old.node.size - base) 512) (size - base)))
      else pure fun _ => 0
    writeSector (clusterSector w.geo cluster + i) (patchSector data base size offset patch)
    copySectors old size offset patch keep cluster oldCluster fuel (i + 1) (base + 512)

/-- The cluster loop of `copy_contents`. -/
def copyLoop (old : Description) (fat : Mem) (size offset : Nat) (patch : List Byte) (keep : Bool) :
    Nat → Nat → Nat → Nat → Nat → FatM Unit
  | 0, _, _, _, _ => return ()
  | fuel + 1, cluster, index, oldCluster, base => do
    if base ≥ size then return ()
    let w ← get
    let base ← copySectors old size offset patch keep cluster oldCluster w.geo.perCluster 0 base
    let oldCluster := if keep ∧ index + 1 < old.length then nextCluster w.fat oldCluster else oldCluster
    copyLoop old fat size offset patch keep fuel (nextCluster fat cluster) (index + 1) oldCluster base

/-- `copy_contents`: fill the chain that starts at `first` in `fat` with `size` bytes taken from the old
file (when `keep`), `patch` at `offset`, and zeroes. -/
def copyContents (old : Description) (fat : Mem) (first size offset : Nat) (patch : List Byte)
    (keep : Bool) : FatM Unit :=
  copyLoop old fat size offset patch keep size first 0 (if keep then old.first else 0) 0

/-- The number of free usable clusters of a table. -/
def freeCount (g : Geometry) (fat : Mem) : Nat :=
  ((List.range g.clusters).filter fun i => validCluster g (i + 2) && nextCluster fat (i + 2) == 0).length

/-- The entry `rewrite` publishes: the target's entry with a new first cluster and size. -/
def rewriteEntry (entry : Entry) (first size : Nat) : Entry := fun j =>
  if j = 11 then entry 11 ||| 0x20 else put32 (put16 entry 26 first) 28 size j

/-- The steps of `rewrite` on the copied table: write a new chain, publish the entry, free the old chain. -/
def rewriteBody (target : Target) (size offset : Nat) (data : List Byte) (keep : Bool) (fat : Mem) :
    FatM Unit := do
  let w ← get
  let (fat, first) ← lift (allocate w.geo fat (clustersFor w.geo size))
  if target.grow ∧ freeCount w.geo fat = 0 then fail .noSpace
  copyContents target.old fat first size offset data keep
  let (target, fat) ← growDirectory target fat
  commit target fat (rewriteEntry target.entry first size)
  modify fun w => { w with committed := true }
  let w ← get
  persistFat (freeChain w.fat fat target.old)

def rewrite (target : Target) (size offset : Nat) (data : List Byte) (keep : Bool) : FatM Unit := do
  modify fun w => { w with committed := false }
  let w ← get
  if size > 4294967295 ∨ size > w.geo.clusters * w.geo.clusterBytes then fail .range
  if target.exists ∧ target.entry 11 &&& 1 ≠ 0 then fail .access
  let fat ← fatCopy
  modify fun w => { w with started := false }
  finish (rewriteBody target size offset data keep fat)

def replaceFile (parent : Nat) (name : Name) (data : List Byte) : FatM Unit := do
  writable
  let target ← findTarget parent name
  if target.exists ∧ target.old.node.kind ≠ .file then fail .isDirectory
  let w ← get
  if target.exists ∧ pinned w.pins target.id then fail .busy
  let target := if target.exists then target else { target with entry := makeEntry name false 0 0 }
  rewrite target data.length 0 data false

def byId (id : Nat) : FatM Target := do
  let old ← describe id
  if old.node.kind ≠ .file then fail .isDirectory
  let entry ← entryRead id
  return { old, id, «exists» := true, entry }

/-- The part of `fat16_write_file` that can fail. -/
def writeBody (id offset : Nat) (data : List Byte) : FatM Unit := do
  writable
  let target ← byId id
  if offset > target.old.node.size ∨ data.length > 4294967295 ∨ offset > 4294967295 - data.length then
    fail .range
  rewrite target (max (offset + data.length) target.old.node.size) offset data true

def writeFile (id offset : Nat) (data : List Byte) : FatM FsIoResult := do
  modify fun w => { w with lastIo := {}, committed := false }
  let r ← attempt (writeBody id offset data)
  let w ← get
  let error := match r with
    | .ok _ => none
    | .error e => some e
  return {
    error
    transferred := if w.committed then data.length else 0
    deviceStatus := w.lastIo.deviceStatus
    deviceError := w.lastIo.deviceError }

def truncateFile (id size : Nat) : FatM Unit := do
  writable
  let target ← byId id
  if target.entry 11 &&& 1 ≠ 0 then fail .access
  if size = target.old.node.size then return ()
  rewrite target size 0 [] true

/-- The directory growth of `fat16_mkdir_node` by the second reserved cluster. -/
def mkdirGrow (target : Target) (extra : Nat) (fat : Mem) : FatM (Target × Mem) := do
  if !target.grow then return (target, fat)
  let w ← get
  zeroCluster extra 0 0
  return ({ target with id := clusterSector w.geo extra * 16 + 2 },
    setCluster fat (clusterAt w.fat target.directory.first (target.directory.length - 1)) extra)

/-- The steps of `fat16_mkdir_node` on the copied table. -/
def mkdirBody (parent : Nat) (name : Name) (target : Target) (fat : Mem) : FatM Unit := do
  let w ← get
  let (fat, cluster) ← lift (allocate w.geo fat (if target.grow then 2 else 1))
  -- the two reservations are linked by the allocator and separated here
  let extra := if target.grow then nextCluster fat cluster else 0
  zeroCluster cluster cluster (if parent = rootId then 0 else target.directory.first)
  let (target, fat) ← mkdirGrow target extra (setCluster fat cluster 0xffff)
  commit target fat (makeEntry name true cluster 0)

def mkdirNode (parent : Nat) (name : Name) : FatM Unit := do
  writable
  let target ← findTarget parent name
  if target.exists then fail .exists
  let fat ← fatCopy
  modify fun w => { w with started := false }
  finish (mkdirBody parent name target fat)

/-- The emptiness test of `fat16_remove_node` on the slots from `cursor`. -/
def emptyLoop (directory : Description) : Nat → Nat → FatM Unit
  | 0, _ => return ()
  | fuel + 1, cursor => do
    let w ← get
    let id ← lift (directorySlot w.geo w.fat directory cursor)
    let entry ← entryRead id
    if entry 0 = 0 then return ()
    if entry 0 ≠ 0xe5 then fail .notEmpty
    emptyLoop directory fuel (cursor + 1)

/-- The entry `fat16_remove_node` leaves in the slot. -/
def deletedEntry (entry : Entry) : Entry := fun j => if j = 0 then 0xe5 else entry j

/-- The steps of `fat16_remove_node` on the copied table. -/
def removeBody (target : Target) (fat : Mem) : FatM Unit := do
  entryWrite target.id (deletedEntry target.entry)
  flushDevice
  let w ← get
  persistFat (freeChain w.fat fat target.old)

def removeNode (parent : Nat) (name : Name) : FatM Unit := do
  writable
  let target ← findTarget parent name
  if !target.exists then fail .notFound
  let w ← get
  if pinned w.pins target.id then fail .busy
  if target.entry 11 &&& 1 ≠ 0 then fail .access
  if target.longName then fail .unsupported
  if target.old.node.kind = .directory then emptyLoop target.old (directorySlots w.geo target.old - 2) 2
  let fat ← fatCopy
  modify fun w => { w with started := false }
  finish (removeBody target fat)

def fat16Flush : FatM Unit := do
  let w ← get
  if !w.ready then fail .unavailable
  if w.faulted then fail .ioError
  if !w.writable then return ()
  modify fun w => { w with started := true }
  finish flushDevice

end RumKernel.Fat16
