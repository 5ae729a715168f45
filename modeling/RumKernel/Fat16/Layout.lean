import RumKernel.Fat16.Volume
import RumKernel.Fs.Name

/-!
# Clusters, slots and directory entries

The functions of `fat16.c` that read only the geometry and a FAT: cluster chains, the arithmetic between
clusters, sectors and directory slots, and the decoding of a 32-byte directory entry. They take the
geometry `g` and the FAT `fat` as arguments, so that they can be read on the cached table and on either
copy on the medium.
-/

namespace RumKernel.Fat16
open Lib Fs

structure Description where
  node : FsNode
  first : Nat := 0
  length : Nat := 0
  deriving DecidableEq

def rootDescription : Description := { node := { id := rootId, size := 0, kind := .directory } }

/-- A directory entry of `ENTRY_BYTES` (32) bytes. -/
abbrev Entry := Mem

def validCluster (g : Geometry) (cluster : Nat) : Bool :=
  2 ≤ cluster && cluster < firstReserved && cluster ≤ g.clusters + 1

def nextCluster (fat : Mem) (cluster : Nat) : Nat := u16 fat (cluster * 2)

/-- The loop of `fat16_chain` after `count - 1` clusters, with the visited bitmap. -/
def chainLoop (g : Geometry) (fat : Mem) : Nat → Nat → (Nat → Bool) → Nat → Except FsError Nat
  | 0, _, _, _ => .error .ioError
  | fuel + 1, count, visited, cluster =>
    if !validCluster g cluster then .error .ioError
    else if visited cluster then .error .ioError
    else if nextCluster fat cluster ≥ firstEnd then .ok count
    else if !validCluster g (nextCluster fat cluster) then .error .ioError
    else chainLoop g fat fuel (count + 1) (fun c => c == cluster || visited c) (nextCluster fat cluster)

/-- `fat16_chain`: the length of the chain that starts at `first`. -/
def fat16Chain (g : Geometry) (fat : Mem) (first : Nat) : Except FsError Nat :=
  chainLoop g fat g.clusters 1 (fun _ => false) first

/-- `fat16_slot_offset`: the byte address of a directory slot. -/
def slotOffset (g : Geometry) (id : Nat) : Option Nat :=
  if id < 2 ∨ id - 2 > (2 ^ 64 - 1) / 32 then none
  else
    let bytes := (id - 2) * 32
    let root := g.rootStart * 512
    let data := g.dataStart * 512
    if (root ≤ bytes ∧ bytes - root < g.rootEntries * 32) ∨
        (data ≤ bytes ∧ bytes < data + g.clusters * g.clusterBytes) then some bytes
    else none

/-- The bytes left of a space-padded field of `count` bytes at `start`. -/
def trimmed (entry : Entry) (start : Nat) : Nat → Nat
  | 0 => 0
  | count + 1 => if entry (start + count) = 32 then trimmed entry start count else count + 1

/-- One field of a short name: a space or a zero inside it is an error. -/
def namePart (entry : Entry) (start : Nat) : Nat → Except FsError (List Byte)
  | 0 => .ok []
  | count + 1 =>
    match namePart entry start count with
    | .error e => .error e
    | .ok part =>
      if entry (start + count) = 32 ∨ entry (start + count) = 0 then .error .ioError
      else .ok (part ++ [upper (entry (start + count))])

/-- `short_name`. Names outside the common subset are not found. -/
def shortName (entry : Entry) : Except FsError Name :=
  if trimmed entry 0 8 = 0 then .error .ioError
  else
    match namePart entry 0 (trimmed entry 0 8), namePart entry 8 (trimmed entry 8 3) with
    | .ok stem, .ok ext =>
      let name := stem ++ (if trimmed entry 8 3 = 0 then [] else dotByte :: ext)
      if fsNameCheck name = .ok () then .ok name else .error .notFound
    | _, _ => .error .ioError

def attr (entry : Entry) : Byte := entry 11

/-- The first-cluster field of an entry. -/
def entryFirst (entry : Entry) : Nat := u16 entry 26

def entrySize (entry : Entry) : Nat := u32 entry 28

/-- The kind an entry's attribute gives it. -/
def entryKind (entry : Entry) : FsKind := if attr entry &&& 0x10 ≠ 0 then .directory else .file

/-- Clusters needed for `size` bytes. -/
def clustersFor (g : Geometry) (size : Nat) : Nat := (size + g.clusterBytes - 1) / g.clusterBytes

/-- The checks of `fat16_decode` on the chain of an entry that has a supported name. -/
def decodeChain (g : Geometry) (fat : Mem) (entry : Entry) (id : Nat) : Except FsError Description :=
  let d : Description := { node := { id, size := entrySize entry, kind := entryKind entry }, first := entryFirst entry }
  if d.node.kind = .directory then
    if d.node.size ≠ 0 then .error .ioError
    else
      match fat16Chain g fat d.first with
      | .error e => .error e
      | .ok length =>
        if length * g.clusterBytes / 32 > directoryEntryLimit then .error .unsupported
        else .ok { d with length }
  else if d.node.size = 0 then
    if d.first ≠ 0 then .error .ioError else .ok d
  else if clustersFor g d.node.size > g.clusters then .error .ioError
  else
    match fat16Chain g fat d.first with
    | .error e => .error e
    | .ok length => if length = clustersFor g d.node.size then .ok { d with length } else .error .ioError

/-- `fat16_decode`: the description and the name of an entry. -/
def decode (g : Geometry) (fat : Mem) (entry : Entry) (id : Nat) : Except FsError (Description × Name) :=
  if entry 0 = 0 then .error .end
  else if entry 0 = 0xe5 ∨ attr entry &&& 8 ≠ 0 then .error .notFound
  else if entry 0 = dotByte ∧ entry 1 = 32 then .error .notFound
  else if entry 0 = dotByte ∧ entry 1 = dotByte ∧ entry 2 = 32 then .error .notFound
  else
    match shortName entry with
    | .error e => .error e
    | .ok name =>
      if attr entry &&& 0xc0 ≠ 0 ∨ u16 entry 20 ≠ 0 then .error .ioError
      else
        match decodeChain g fat entry id with
        | .error e => .error e
        | .ok d => .ok (d, name)

/-- `fat16_cluster_at`: follow `index` links. -/
def clusterAt (fat : Mem) (cluster : Nat) : Nat → Nat
  | 0 => cluster
  | index + 1 => clusterAt fat (nextCluster fat cluster) index

@[irreducible] def Geometry.perCluster (g : Geometry) : Nat := g.clusterBytes / 512

def clusterSector (g : Geometry) (cluster : Nat) : Nat := g.dataStart + (cluster - 2) * g.perCluster

def directorySlots (g : Geometry) (d : Description) : Nat :=
  if d.node.id = rootId then g.rootEntries else d.length * g.clusterBytes / 32

/-- `fat16_directory_slot`: the identifier of the slot at `cursor`. -/
def directorySlot (g : Geometry) (fat : Mem) (d : Description) (cursor : Nat) : Except FsError Nat :=
  if cursor ≥ directorySlots g d then .error .end
  else if d.node.id = rootId then .ok ((g.rootStart + cursor / 16) * 16 + cursor % 16 + 2)
  else
    let perCluster := g.clusterBytes / 32
    let cluster := clusterAt fat d.first (cursor / perCluster)
    let within := cursor % perCluster
    .ok ((clusterSector g cluster + within / 16) * 16 + within % 16 + 2)

end RumKernel.Fat16
