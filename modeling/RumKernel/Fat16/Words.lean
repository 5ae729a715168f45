import RumKernel.Fat16.Codec

/-!
# The layout in machine words

The geometry record of the source has 32-bit fields, slot identifiers and byte addresses have 64 bits. Here the
functions between them are written over these types. For every geometry that is accepted they give the numbers of the
model over natural numbers, so that nothing wraps, inside the volume and the fixed buffers.
-/

namespace RumKernel.Fat16
open Lib Fs

variable {n : Nat} {fatSectors perCluster : UInt32}

/-! ## The functions over words -/

/-- The geometry fields of `struct fat16_information` with their types. -/
structure Information where
  sectors : UInt32
  clusters : UInt32
  clusterBytes : UInt32
  fatStart : UInt32
  fatSectors : UInt32
  rootStart : UInt32
  rootEntries : UInt32
  dataStart : UInt32
  deriving DecidableEq

/-- The fields of `struct description` that directory arithmetic reads, with their types. -/
structure DescriptionWords where
  id : UInt64
  first : UInt32
  length : UInt32

/-- Bytes of the `visited` and `owners` arrays. -/
def bitmapBytes : Nat := (maxClusters + 2 + 7) / 8

/-- `geometry` on a boot sector, for a device of `sectorCount` sectors. -/
def geometryWords (sectorCount : UInt64) (boot : Mem) : Except FsError Information :=
  let bytes := UInt32.ofNat (u16 boot 11)
  let perCluster := UInt32.ofNat (boot 13).toNat
  let reserved := UInt32.ofNat (u16 boot 14)
  let copies := UInt32.ofNat (boot 16).toNat
  let entries := UInt32.ofNat (u16 boot 17)
  let small := UInt32.ofNat (u16 boot 19)
  let large := UInt32.ofNat (u32 boot 32)
  let fatSectors := UInt32.ofNat (u16 boot 22)
  let total := if small ≠ 0 then small else large
  if boot 510 ≠ 0x55 ∨ boot 511 ≠ 0xaa ∨ reserved = 0 ∨ entries = 0 ∨ entries % 16 ≠ 0 ∨ fatSectors = 0 ∨ total = 0 ∨
      (small ≠ 0 ∧ large ≠ 0) ∨ perCluster = 0 ∨ perCluster &&& (perCluster - 1) ≠ 0 ∨ u32 boot 28 ≠ 0 ∨
      (boot 21 ≠ 0xf0 ∧ boot 21 < 0xf8) then .error .invalid
  else if bytes ≠ 512 ∨ copies ≠ 2 ∨ perCluster > 64 ∨ fatSectors > 256 then .error .unsupported
  else if total.toUInt64 > sectorCount then .error .range
  else
    let rootStart := reserved.toUInt64 + copies.toUInt64 * fatSectors.toUInt64
    let dataStart := rootStart + entries.toUInt64 / 16
    if dataStart ≥ total.toUInt64 then .error .range
    else
      let clusters := (total.toUInt64 - dataStart) / perCluster.toUInt64
      if clusters < 4085 ∨ clusters > 65524 then .error .unsupported
      else if (clusters + 2) * 2 > fatSectors.toUInt64 * 512 then .error .range
      else .ok {
        sectors := total, clusters := clusters.toUInt32, clusterBytes := perCluster * 512, fatStart := reserved
        fatSectors, rootStart := rootStart.toUInt32, rootEntries := entries, dataStart := dataStart.toUInt32 }

namespace Information

def validCluster (w : Information) (cluster : UInt32) : Bool :=
  2 ≤ cluster && cluster < 0xfff0 && cluster ≤ w.clusters + 1

def clusterSector (w : Information) (cluster : UInt32) : UInt32 :=
  w.dataStart + (cluster - 2) * (w.clusterBytes / 512)

def slotOffset (w : Information) (id : UInt64) : Option UInt64 :=
  if id < 2 ∨ id - 2 > 0xffffffffffffffff / 32 then none
  else
    let bytes := (id - 2) * 32
    let root := w.rootStart.toUInt64 * 512
    let data := w.dataStart.toUInt64 * 512
    let last := data + w.clusters.toUInt64 * w.clusterBytes.toUInt64
    if (bytes ≥ root ∧ bytes - root < w.rootEntries.toUInt64 * 32) ∨ (bytes ≥ data ∧ bytes < last) then some bytes
    else none

def directorySlots (w : Information) (d : DescriptionWords) : UInt64 :=
  if d.id = 1 then w.rootEntries.toUInt64 else d.length.toUInt64 * w.clusterBytes.toUInt64 / 32

end Information

/-- `fat16_next_cluster`. -/
def nextClusterWord (fat : Mem) (cluster : UInt32) : UInt32 := UInt32.ofNat (u16 fat (cluster * 2).toNat)

/-- The loop of `fat16_cluster_at`. -/
def clusterAtWord (fat : Mem) (cluster : UInt32) : Nat → UInt32
  | 0 => cluster
  | index + 1 => clusterAtWord fat (nextClusterWord fat cluster) index

def Information.directorySlot (w : Information) (fat : Mem) (d : DescriptionWords) (cursor : UInt64) :
    Except FsError UInt64 :=
  if cursor ≥ w.directorySlots d then .error .end
  else if d.id = 1 then
    let number := w.rootStart + (cursor / 16).toUInt32
    let slot := (cursor % 16).toUInt32
    .ok (number.toUInt64 * 16 + slot.toUInt64 + 2)
  else
    let perCluster := w.clusterBytes / 32
    let cluster := clusterAtWord fat d.first (cursor / perCluster.toUInt64).toUInt32.toNat
    let within := (cursor % perCluster.toUInt64).toUInt32
    let number := w.clusterSector cluster + within / 16
    let slot := within % 16
    .ok (number.toUInt64 * 16 + slot.toUInt64 + 2)

/-! ## Agreement with the model over natural numbers -/

/-- The words hold the numbers of a geometry. -/
structure Represents (w : Information) (g : Geometry) : Prop where
  sectors : w.sectors.toNat = g.sectors
  clusters : w.clusters.toNat = g.clusters
  clusterBytes : w.clusterBytes.toNat = g.clusterBytes
  fatStart : w.fatStart.toNat = g.fatStart
  fatSectors : w.fatSectors.toNat = g.fatSectors
  rootStart : w.rootStart.toNat = g.rootStart
  rootEntries : w.rootEntries.toNat = g.rootEntries
  dataStart : w.dataStart.toNat = g.dataStart

lemma toNat_word (h : n < 4294967296) : (UInt32.ofNat n).toNat = n := UInt32.toNat_ofNat_of_lt h

variable {w : Information} {g : Geometry} {boot fat : Mem} {sectorCount : UInt64} {c c' : UInt32}

variable (boot) in
lemma u16_word (i : Nat) : ∃ n : UInt32, UInt32.ofNat (u16 boot i) = n ∧ u16 boot i = n.toNat :=
  ⟨_, rfl, (toNat_word (Nat.lt_trans u16_lt (by decide))).symm⟩

variable (boot) in
lemma u32_word (i : Nat) : ∃ n : UInt32, UInt32.ofNat (u32 boot i) = n ∧ u32 boot i = n.toNat :=
  ⟨_, rfl, (toNat_word u32_lt).symm⟩

lemma byte_word (b : Byte) : ∃ n : UInt32, UInt32.ofNat b.toNat = n ∧ b.toNat = n.toNat :=
  ⟨_, rfl, (toNat_word (Nat.lt_trans b.toNat_lt (by decide))).symm⟩

lemma invalid_iff {reserved entries total small large : UInt32} {p q r s : Prop} :
    (p ∨ q ∨ reserved = 0 ∨ entries = 0 ∨ entries % 16 ≠ 0 ∨ fatSectors = 0 ∨ total = 0 ∨
      (small ≠ 0 ∧ large ≠ 0) ∨ perCluster = 0 ∨ perCluster &&& (perCluster - 1) ≠ 0 ∨ r ∨ s) ↔
    (p ∨ q ∨ reserved.toNat = 0 ∨ entries.toNat = 0 ∨ entries.toNat % 16 ≠ 0 ∨ fatSectors.toNat = 0 ∨ total.toNat = 0 ∨
      (small.toNat ≠ 0 ∧ large.toNat ≠ 0) ∨ perCluster.toNat = 0 ∨ perCluster.toNat &&& (perCluster.toNat - 1) ≠ 0 ∨
      r ∨ s) := by
  by_cases hp : perCluster.toNat = 0
  · have hp' : perCluster = 0 := UInt32.toNat_inj.mp hp
    simp [hp']
  · have h1 : 1 ≤ perCluster := UInt32.le_iff_toNat_le.mpr (Nat.one_le_iff_ne_zero.mpr hp)
    simp only [ne_eq, ← UInt32.toNat_inj, UInt32.toNat_and, UInt32.toNat_sub_of_le _ _ h1, UInt32.toNat_mod]
    rfl

lemma unsupported_iff {bytes copies : UInt32} : (bytes ≠ 512 ∨ copies ≠ 2 ∨ perCluster > 64 ∨ fatSectors > 256) ↔
    (bytes.toNat ≠ 512 ∨ copies.toNat ≠ 2 ∨ perCluster.toNat > clusterSectorLimit ∨
        fatSectors.toNat > fatSectorLimit) := by
  simp only [ne_eq, ← UInt32.toNat_inj, gt_iff_lt, UInt32.lt_iff_toNat_lt]
  rfl

lemma clusters_iff {n : UInt64} : (n < 4085 ∨ n > 65524) ↔ (n.toNat < 4085 ∨ n.toNat > maxClusters) := by
  simp only [gt_iff_lt, UInt64.lt_iff_toNat_lt]
  rfl

lemma capacity_iff {n : UInt64} {f : UInt32} (hn : n.toNat ≤ 65524) (hf : f.toNat ≤ 256) :
    (n + 2) * 2 > f.toUInt64 * 512 ↔ (n.toNat + 2) * 2 > f.toNat * 512 := by
  rw [gt_iff_lt, UInt64.lt_iff_toNat_lt, UInt64.toNat_mul, UInt64.toNat_mul, UInt64.toNat_add, UInt32.toNat_toUInt64]
  change f.toNat * 512 % _ < (n.toNat + 2) % _ * 2 % _ ↔ _
  omega

lemma toNat_total (small large : UInt32) :
    (if small ≠ 0 then small else large).toNat = if small.toNat ≠ 0 then small.toNat else large.toNat := by
  by_cases h : small = 0
  · simp [h]
  · have h' : small.toNat ≠ 0 := fun e => h (UInt32.toNat_inj.mp e)
    rw [if_pos h, if_pos h']

/-- The words come out as the numbers do. -/
def Agrees (x : Except FsError Information) : Except FsError Geometry → Prop
  | .error r => x = .error r
  | .ok g => ∃ w, x = .ok w ∧ Represents w g

/-- A check on words and the same check on numbers. -/
lemma Agrees.check {p q : Prop} [Decidable p] [Decidable q] {r : FsError} {y : ¬q → Except FsError Geometry}
    (hpq : p ↔ q) (h : ∀ hq, Agrees x (y hq)) :
    Agrees (if p then .error r else x) (if hq : q then .error r else y hq) := by
  by_cases hq : q
  · rw [if_pos (hpq.mpr hq), dif_pos hq]
    rfl
  · rw [if_neg (mt hpq.mp hq), dif_neg hq]
    exact h hq

/-- The start of the root directory does not overflow. -/
lemma rootStart_toNat {reserved copies : UInt32} (hr : reserved.toNat < 65536) (hc : copies.toNat = 2)
    (hf : fatSectors.toNat ≤ 256) :
    (reserved.toUInt64 + copies.toUInt64 * fatSectors.toUInt64).toNat = reserved.toNat + 2 * fatSectors.toNat := by
  simp only [UInt64.toNat_add, UInt64.toNat_mul, UInt32.toNat_toUInt64, hc]
  omega

lemma dataStart_toNat {root : UInt64} {entries : UInt32} (hr : root.toNat < 131072) (he : entries.toNat < 65536) :
    (root + entries.toUInt64 / 16).toNat = root.toNat + entries.toNat / 16 := by
  rw [UInt64.toNat_add, UInt64.toNat_div, UInt32.toNat_toUInt64]
  change (_ + entries.toNat / 16) % _ = _
  omega

variable (sectorCount boot) in
lemma geometryWords_eq : Agrees (geometryWords sectorCount boot) (geometry sectorCount.toNat boot) := by
  unfold geometry geometryWords
  obtain ⟨bytes, eb, eb'⟩ := u16_word boot 11
  obtain ⟨reserved, er, er'⟩ := u16_word boot 14
  obtain ⟨entries, ee, ee'⟩ := u16_word boot 17
  obtain ⟨small, es, es'⟩ := u16_word boot 19
  obtain ⟨large, el, el'⟩ := u32_word boot 32
  obtain ⟨fatSectors, ef, ef'⟩ := u16_word boot 22
  obtain ⟨perCluster, ep, ep'⟩ := byte_word (boot 13)
  obtain ⟨copies, ec, ec'⟩ := byte_word (boot 16)
  have hreserved : reserved.toNat < 65536 := er' ▸ u16_lt
  have hentries : entries.toNat < 65536 := ee' ▸ u16_lt
  simp only [eb, er, ee, es, el, ef, ep, ec]
  have et := toNat_total small large
  rw [← es', ← el'] at et
  generalize (if small ≠ 0 then small else large) = total at et ⊢
  have ht : total.toUInt64.toNat = total.toNat := UInt32.toNat_toUInt64 _
  refine .check ?_ fun hv => .check ?_ fun hu => ?_
  · rw [← et, er', ee', ef', es', el', ep']
    exact invalid_iff
  · rw [eb', ec', ep', ef']
    exact unsupported_iff
  unfold clusterSectorLimit fatSectorLimit at hu
  have hfat : fatSectors.toNat ≤ 256 := by omega
  have hroot := rootStart_toNat hreserved (by omega : copies.toNat = 2) hfat
  generalize reserved.toUInt64 + copies.toUInt64 * fatSectors.toUInt64 = rootStart at hroot ⊢
  have hdata := dataStart_toNat (by omega : rootStart.toNat < 131072) hentries
  generalize rootStart + entries.toUInt64 / 16 = dataStart at hdata ⊢
  rw [hroot, ← er', ← ef', ← ee'] at hdata
  rw [← er', ← ef'] at hroot
  simp only [← et]
  rw [← dite_eq_ite (P := total.toNat > _)]
  refine .check ?_ fun _ => .check ?_ fun hd => ?_
  · rw [gt_iff_lt, UInt64.lt_iff_toNat_lt, ht]
  · rw [ge_iff_le, UInt64.le_iff_toNat_le, ht, hdata]
  have hle : dataStart ≤ total.toUInt64 := by
    rw [UInt64.le_iff_toNat_le, ht, hdata]
    omega
  have hclusters : ((total.toUInt64 - dataStart) / perCluster.toUInt64).toNat =
      (total.toNat - (u16 boot 14 + 2 * u16 boot 22 + u16 boot 17 / 16)) / (boot 13).toNat := by
    rw [UInt64.toNat_div, UInt64.toNat_sub_of_le _ _ hle, ht, hdata, UInt32.toNat_toUInt64, ep']
  generalize (total.toUInt64 - dataStart) / perCluster.toUInt64 = clusters at hclusters ⊢
  refine .check ?_ fun hc => .check ?_ fun _ => ?_
  · rw [← hclusters]
    exact clusters_iff
  all_goals rw [← hclusters, maxClusters] at hc
  · rw [← hclusters, ef']
    exact capacity_iff (by omega) hfat
  refine ⟨_, rfl, rfl, ?_, ?_, er'.symm, ef'.symm, ?_, ee'.symm, ?_⟩
  · rw [UInt64.toNat_toUInt32, Nat.mod_eq_of_lt (by omega), hclusters]
  · rw [UInt32.toNat_mul, ← ep']
    exact Nat.mod_eq_of_lt (Nat.lt_of_le_of_lt (Nat.mul_le_mul_right 512 (by omega : (boot 13).toNat ≤ 64)) (by decide))
  · rw [UInt64.toNat_toUInt32, Nat.mod_eq_of_lt (by omega), hroot]
  · rw [UInt64.toNat_toUInt32, Nat.mod_eq_of_lt (by omega), hdata]

/-! ## Clusters and slots -/

namespace Represents

lemma validCluster (h : Represents w g) : w.validCluster c = Fat16.validCluster g c.toNat := by
  have hle := g.clusters_le
  have hn : (w.clusters + 1).toNat = g.clusters + 1 := by
    rw [UInt32.toNat_add, h.clusters]
    change (_ + 1) % _ = _
    unfold maxClusters at hle
    omega
  unfold Information.validCluster Fat16.validCluster
  simp only [UInt32.le_iff_toNat_le, UInt32.lt_iff_toNat_lt, hn]
  rfl

lemma clusterSector (h : Represents w g) (hc : Fat16.validCluster g c.toNat = true) :
    (w.clusterSector c).toNat = Fat16.clusterSector g c.toNat := by
  have h2 : 2 ≤ c := UInt32.le_iff_toNat_le.mpr (validCluster_range hc).1
  have hpos : 0 < g.perCluster := by
    have := g.clusterBytes_ge
    have := g.perCluster_mul
    omega
  have hb := (clusterSector_bounds hc hpos).2
  have hl := g.sectors_lt
  have hper : (w.clusterBytes / 512).toNat = g.perCluster := by
    rw [UInt32.toNat_div, h.clusterBytes]
    unfold Geometry.perCluster
    rfl
  unfold Information.clusterSector
  unfold Fat16.clusterSector at hb ⊢
  rw [UInt32.toNat_add, UInt32.toNat_mul, UInt32.toNat_sub_of_le _ _ h2, hper, h.dataStart]
  change (_ + (c.toNat - 2) * g.perCluster % _) % _ = _
  generalize (c.toNat - 2) * g.perCluster = n at hb ⊢
  omega

end Represents

variable (fat) in
lemma nextClusterWord_toNat (hc : c.toNat < 65536) :
    (nextClusterWord fat c).toNat = nextCluster fat c.toNat ∧ (nextClusterWord fat c).toNat < 65536 := by
  have hm : (c * 2).toNat = c.toNat * 2 := by
    rw [UInt32.toNat_mul]
    change c.toNat * 2 % _ = _
    omega
  have hn : (nextClusterWord fat c).toNat = nextCluster fat c.toNat := by
    unfold nextClusterWord nextCluster
    rw [hm]
    exact toNat_word (Nat.lt_trans u16_lt (by decide))
  exact ⟨hn, hn ▸ u16_lt⟩

lemma clusterAtWord_toNat {k : Nat} (hc : c.toNat < 65536) :
    (clusterAtWord fat c k).toNat = clusterAt fat c.toNat k := by
  induction k generalizing c with
  | zero => rfl
  | succ k ih =>
    obtain ⟨hn, hlt⟩ := nextClusterWord_toNat fat hc
    rw [clusterAtWord, clusterAt, ih hlt, hn]

lemma slotArea_iff {b r s d l : UInt64} : (b ≥ r ∧ b - r < s) ∨ (b ≥ d ∧ b < l) ↔
    (r.toNat ≤ b.toNat ∧ b.toNat - r.toNat < s.toNat) ∨ (d.toNat ≤ b.toNat ∧ b.toNat < l.toNat) := by
  refine or_congr ?_ Iff.rfl
  constructor
  · rintro ⟨h1, h2⟩
    exact ⟨h1, UInt64.toNat_sub_of_le _ _ h1 ▸ UInt64.lt_iff_toNat_lt.mp h2⟩
  · rintro ⟨h1, h2⟩
    have h1' := UInt64.le_iff_toNat_le.mpr h1
    rw [← UInt64.toNat_sub_of_le _ _ h1'] at h2
    exact ⟨h1', UInt64.lt_iff_toNat_lt.mpr h2⟩

lemma Represents.slotOffset (h : Represents w g) (id : UInt64) :
    (w.slotOffset id).map UInt64.toNat = Fat16.slotOffset g id.toNat := by
  have he := g.data_end_bytes
  have hl := g.sectors_lt
  have hd := g.dataStart_eq
  have hr := g.rootEntries_lt
  unfold Information.slotOffset Fat16.slotOffset
  by_cases h2 : id < 2
  · rw [if_pos (.inl h2), if_pos (.inl (UInt64.lt_iff_toNat_lt.mp h2))]
    rfl
  have h2' : 2 ≤ id.toNat := Nat.not_lt.mp fun hlt => h2 (UInt64.lt_iff_toNat_lt.mpr hlt)
  have hs : (id - 2).toNat = id.toNat - 2 := UInt64.toNat_sub_of_le _ _ (UInt64.le_iff_toNat_le.mpr h2')
  have hi : id - 2 > 0xffffffffffffffff / 32 ↔ id.toNat - 2 > (2 ^ 64 - 1) / 32 := by
    rw [gt_iff_lt, UInt64.lt_iff_toNat_lt, hs]
    rfl
  by_cases hb : id - 2 > 0xffffffffffffffff / 32
  · rw [if_pos (.inr hb), if_pos (.inr (hi.mp hb))]
    rfl
  have hb' := mt hi.mpr hb
  have hbytes : ((id - 2) * 32).toNat = (id.toNat - 2) * 32 := by
    rw [UInt64.toNat_mul, hs]
    change (id.toNat - 2) * 32 % _ = _
    omega
  have hroot : (w.rootStart.toUInt64 * 512).toNat = g.rootStart * 512 := by
    rw [UInt64.toNat_mul, UInt32.toNat_toUInt64, h.rootStart]
    change g.rootStart * 512 % _ = _
    omega
  have hdata : (w.dataStart.toUInt64 * 512).toNat = g.dataStart * 512 := by
    rw [UInt64.toNat_mul, UInt32.toNat_toUInt64, h.dataStart]
    change g.dataStart * 512 % _ = _
    omega
  have hsize : (w.rootEntries.toUInt64 * 32).toNat = g.rootEntries * 32 := by
    rw [UInt64.toNat_mul, UInt32.toNat_toUInt64, h.rootEntries]
    change g.rootEntries * 32 % _ = _
    omega
  have hlast : (w.dataStart.toUInt64 * 512 + w.clusters.toUInt64 * w.clusterBytes.toUInt64).toNat =
      g.dataStart * 512 + g.clusters * g.clusterBytes := by
    rw [UInt64.toNat_add, UInt64.toNat_mul w.clusters.toUInt64, hdata, UInt32.toNat_toUInt64, UInt32.toNat_toUInt64,
      h.clusters, h.clusterBytes]
    omega
  rw [if_neg (not_or.mpr ⟨h2, hb⟩), if_neg (not_or.mpr ⟨Nat.not_lt.mpr h2', hb'⟩)]
  dsimp only
  have hin := slotArea_iff (b := (id - 2) * 32) (r := w.rootStart.toUInt64 * 512) (s := w.rootEntries.toUInt64 * 32)
    (d := w.dataStart.toUInt64 * 512)
    (l := w.dataStart.toUInt64 * 512 + w.clusters.toUInt64 * w.clusterBytes.toUInt64)
  rw [hbytes, hroot, hdata, hsize, hlast] at hin
  rw [if_congr hin rfl rfl, apply_ite (Option.map UInt64.toNat), Option.map_some, hbytes]
  rfl

/-! ## Directories -/

variable {d d' : Description} {dw : DescriptionWords} {e : Entry} {id : Nat} {name : Name}

/-- The root directory, or a directory that `fat16_describe` has decoded. -/
inductive Validated (g : Geometry) (fat : Mem) : Description → Prop where
  | root : Validated g fat rootDescription
  | entry {d : Description} {e : Entry} {id a : Nat} {name : Name} : slotOffset g id = some a →
      decode g fat e id = .ok (d, name) → d.node.kind = .directory → Validated g fat d

/-- The words hold the numbers of a description. -/
structure DescriptionWords.Holds (dw : DescriptionWords) (d : Description) : Prop where
  id : dw.id.toNat = d.node.id
  first : dw.first.toNat = d.first
  length : dw.length.toNat = d.length

/-- The image with a geometry and a table; directory slots do not depend on the medium. -/
def tableImage (g : Geometry) (fat : Mem) : Image := ⟨g, fat, fun _ => 0⟩

lemma decode_directory (h : decode g fat e id = .ok (d, name)) (hk : d.node.kind = .directory) :
    d.node.id = id ∧ ∃ cs, IsChain g fat d.first cs ∧ d.length = cs.length ∧
      d.length * g.clusterBytes / 32 ≤ directoryEntryLimit := by
  obtain ⟨cs, hh, rfl, hlong⟩ := decode_holds (x := tableImage g fat) h
  have hkind : entryKind e = .directory := hk
  cases hh with
  | empty hfile => rw [hkind] at hfile; cases hfile
  | file hfile => rw [hkind] at hfile; cases hfile
  | directory _ _ hc =>
    refine ⟨rfl, cs, hc, rfl, Nat.not_lt.mp fun hgt => ?_⟩
    simp only [Image.tooLong, hkind, decide_true, Bool.true_and, decide_eq_false_iff_not] at hlong
    exact hlong hgt

namespace Validated

lemma dirDesc (h : Validated g fat d) :
    ∃ n, DirDesc (tableImage g fat) n d ∧ ((tableImage g fat).slots n).Nodup := by
  cases h with
  | root => exact ⟨0, .inl ⟨rfl, rfl⟩, rootSlots_nodup⟩
  | @entry d e id a name ha hd hk =>
    obtain ⟨rfl, cs, hcs, hlen, -⟩ := decode_directory hd hk
    have hid : d.node.id ≠ rootId := by
      have := (slotOffset_bounds ha).2.1
      unfold rootId
      omega
    exact ⟨d.first, .inr ⟨hid, hk, rfl, cs, hcs, hlen⟩, Image.slots_nodup_chain hcs⟩

lemma fits (h : Validated g fat d) : ∃ dw : DescriptionWords, dw.Holds d := by
  cases h with
  | root => exact ⟨⟨1, 0, 0⟩, rfl, rfl, rfl⟩
  | @entry d e id a name ha hd hk =>
    obtain ⟨rfl, cs, hcs, hlen, -⟩ := decode_directory hd hk
    have hfirst := validCluster_range (hcs.valid hcs.head_mem)
    have hlength : d.length ≤ g.clusters := hlen ▸ hcs.length_le
    have hclusters := g.clusters_le
    have hsectors := g.sectors_lt
    obtain ⟨rfl, h2, -, hlt⟩ := slotOffset_bounds ha
    unfold slotBase at hlt
    unfold maxClusters at hclusters
    refine ⟨⟨UInt64.ofNat d.node.id, UInt32.ofNat d.first, UInt32.ofNat d.length⟩,
      UInt64.toNat_ofNat_of_lt (show _ < 2 ^ 64 by omega), toNat_word (by omega), toNat_word (by omega)⟩

end Validated

lemma DescriptionWords.Holds.root_iff (hd : dw.Holds d) : dw.id = 1 ↔ d.node.id = rootId := by
  rw [← UInt64.toNat_inj, hd.id]
  rfl

lemma Represents.directorySlots (h : Represents w g) (hd : dw.Holds d) (hv : Validated g fat d) :
    (w.directorySlots dw).toNat = Fat16.directorySlots g d := by
  unfold Information.directorySlots Fat16.directorySlots
  rw [if_congr hd.root_iff rfl rfl]
  split
  · rw [UInt32.toNat_toUInt64, h.rootEntries]
  · rename_i hr
    cases hv with
    | root => exact absurd rfl hr
    | @entry d e id a name ha hdec hk =>
      obtain ⟨-, cs, hcs, hlen, hl⟩ := decode_directory hdec hk
      unfold directoryEntryLimit at hl
      rw [UInt64.toNat_div, UInt64.toNat_mul, UInt32.toNat_toUInt64, UInt32.toNat_toUInt64, hd.length, h.clusterBytes]
      change d.length * g.clusterBytes % _ / 32 = _
      omega

def slotAddress (g : Geometry) (fat : Mem) (d : Description) (cursor : Nat) : Nat :=
  if d.node.id = rootId then g.rootStart * 512 + cursor * 32
  else clusterBase g (clusterAt fat d.first (cursor / (g.clusterBytes / 32))) + cursor % (g.clusterBytes / 32) * 32

namespace Validated

variable {k k' i i' : Nat}

lemma slot (hv : Validated g fat d) (hk : k < directorySlots g d) :
    ∃ i, directorySlot g fat d k = .ok i ∧ 2 ≤ i ∧ slotOffset g i = some (slotAddress g fat d k) := by
  obtain ⟨n, hd, -⟩ := hv.dirDesc
  have hk' : k < ((tableImage g fat).slots n).length := Nat.lt_of_lt_of_eq hk hd.slot_count
  have hslot : directorySlot g fat d k = .ok ((tableImage g fat).slots n)[k] := hd.directorySlot hk'
  have hoff := slotOffset_of_mem hd (List.getElem_mem hk')
  have h2 := (slotOffset_bounds hoff).2.1
  generalize ((tableImage g fat).slots n)[k] = i at hslot hoff h2
  dsimp only [tableImage] at hoff
  refine ⟨i, hslot, h2, hoff.trans (congrArg some ?_)⟩
  unfold directorySlot at hslot
  rw [if_neg (Nat.not_le.mpr hk)] at hslot
  unfold slotBase slotAddress
  split at hslot
  · rename_i hr
    cases hslot
    rw [if_pos hr]
    omega
  · rename_i hr
    cases hslot
    rw [if_neg hr]
    unfold clusterBase
    omega

lemma slot_inj (hv : Validated g fat d) (hk : k < directorySlots g d) (hk' : k' < directorySlots g d)
    (h : directorySlot g fat d k = .ok i) (h' : directorySlot g fat d k' = .ok i) : k = k' := by
  obtain ⟨n, hd, hnodup⟩ := hv.dirDesc
  have hl : k < ((tableImage g fat).slots n).length := Nat.lt_of_lt_of_eq hk hd.slot_count
  have hl' : k' < ((tableImage g fat).slots n).length := Nat.lt_of_lt_of_eq hk' hd.slot_count
  have e : directorySlot g fat d k = .ok ((tableImage g fat).slots n)[k] := hd.directorySlot hl
  have e' : directorySlot g fat d k' = .ok ((tableImage g fat).slots n)[k'] := hd.directorySlot hl'
  rw [h, Except.ok.injEq] at e
  rw [h', Except.ok.injEq] at e'
  exact (hnodup.getElem_inj_iff).mp (e.symm.trans e')

end Validated

lemma slotId_toNat {number slot : UInt32} (h : slot.toNat < 16) :
    (number.toUInt64 * 16 + slot.toUInt64 + 2).toNat = number.toNat * 16 + slot.toNat + 2 := by
  have := number.toNat_lt
  rw [UInt64.toNat_add, UInt64.toNat_add, UInt64.toNat_mul, UInt32.toNat_toUInt64, UInt32.toNat_toUInt64]
  change ((number.toNat * 16 % _ + slot.toNat) % _ + 2) % _ = _
  omega

lemma Represents.directorySlot (h : Represents w g) (hd : dw.Holds d) (hv : Validated g fat d) {cursor : UInt64} :
    (w.directorySlot fat dw cursor).map UInt64.toNat = Fat16.directorySlot g fat d cursor.toNat := by
  have hcount := h.directorySlots hd hv
  unfold Information.directorySlot Fat16.directorySlot
  by_cases hc : cursor ≥ w.directorySlots dw
  · have hc' := UInt64.le_iff_toNat_le.mp hc
    rw [hcount] at hc'
    rw [if_pos hc, if_pos hc']
    rfl
  have hc' := mt UInt64.le_iff_toNat_le.mpr hc
  rw [hcount] at hc'
  rw [if_neg hc, if_neg hc', if_congr hd.root_iff rfl rfl]
  split
  · rename_i hr
    unfold Fat16.directorySlots at hc'
    rw [if_pos hr] at hc'
    have hentries := g.rootEntries_lt
    have hdata := g.dataStart_eq
    have hend := g.data_end
    have hlt := g.sectors_lt
    have hmod : ((cursor % 16).toUInt32).toNat = cursor.toNat % 16 := by
      rw [UInt64.toNat_toUInt32, UInt64.toNat_mod]
      change cursor.toNat % 16 % _ = _
      omega
    have hnum : (w.rootStart + (cursor / 16).toUInt32).toNat = g.rootStart + cursor.toNat / 16 := by
      rw [UInt32.toNat_add, UInt64.toNat_toUInt32, UInt64.toNat_div, h.rootStart]
      change (g.rootStart + cursor.toNat / 16 % _) % _ = _
      omega
    rw [Except.map, slotId_toNat (by omega), hmod, hnum]
  · rename_i hr
    cases hv with
    | root => exact absurd rfl hr
    | @entry d e id a name ha hdec hk =>
      obtain ⟨-, cs, hcs, hlen, hl⟩ := decode_directory hdec hk
      unfold Fat16.directorySlots at hc'
      rw [if_neg hr, hlen] at hc'
      have hper : (w.clusterBytes / 32).toUInt64.toNat = g.clusterBytes / 32 := by
        rw [UInt32.toNat_toUInt64, UInt32.toNat_div, h.clusterBytes]
        rfl
      have hslots := g.slots_mul
      have hge := g.clusterBytes_ge
      have hle := g.clusterBytes_le
      unfold clusterSectorLimit at hle
      have hindex : cursor.toNat / (g.clusterBytes / 32) < cs.length := by
        rw [Nat.div_lt_iff_lt_mul (by omega)]
        rw [← hslots, ← Nat.mul_assoc, Nat.mul_div_cancel _ (by omega)] at hc'
        omega
      have hwithin : cursor.toNat % (g.clusterBytes / 32) < g.clusterBytes / 32 := Nat.mod_lt _ (by omega)
      have hlength := hcs.length_le
      have hclusters := g.clusters_le
      unfold maxClusters at hclusters
      have hat : (cursor / (w.clusterBytes / 32).toUInt64).toUInt32.toNat = cursor.toNat / (g.clusterBytes / 32) := by
        rw [UInt64.toNat_toUInt32, UInt64.toNat_div, hper]
        exact Nat.mod_eq_of_lt (by omega)
      have hpos : (cursor % (w.clusterBytes / 32).toUInt64).toUInt32.toNat = cursor.toNat % (g.clusterBytes / 32) := by
        rw [UInt64.toNat_toUInt32, UInt64.toNat_mod, hper]
        exact Nat.mod_eq_of_lt (by omega)
      have hfirst := validCluster_range (hcs.valid hcs.head_mem)
      have hcluster : (clusterAtWord fat dw.first (cursor.toNat / (g.clusterBytes / 32))).toNat =
          clusterAt fat d.first (cursor.toNat / (g.clusterBytes / 32)) := by
        rw [clusterAtWord_toNat (by rw [hd.first]; omega), hd.first]
      have hvalid : Fat16.validCluster g (clusterAt fat d.first (cursor.toNat / (g.clusterBytes / 32))) = true := by
        rw [clusterAt_eq hcs hindex]
        exact hcs.valid (List.getElem_mem hindex)
      simp only [hat]
      have hsector := h.clusterSector (hcluster ▸ hvalid)
      rw [hcluster] at hsector
      have hbound := (clusterSector_bounds hvalid (i := cursor.toNat % (g.clusterBytes / 32) / 16) (by
        have := g.perCluster_mul
        omega)).2
      have hsectors := g.sectors_lt
      generalize (cursor % (w.clusterBytes / 32).toUInt64).toUInt32 = within at hpos ⊢
      have hmod : (within % 16).toNat = cursor.toNat % (g.clusterBytes / 32) % 16 := by
        rw [UInt32.toNat_mod, hpos]
        rfl
      have hnum : (w.clusterSector
          (clusterAtWord fat dw.first (cursor.toNat / (g.clusterBytes / 32))) + within / 16).toNat =
          Fat16.clusterSector g (clusterAt fat d.first (cursor.toNat / (g.clusterBytes / 32))) +
            cursor.toNat % (g.clusterBytes / 32) / 16 := by
        rw [UInt32.toNat_add, UInt32.toNat_div, hsector, hpos]
        exact Nat.mod_eq_of_lt (Nat.lt_trans hbound hsectors)
      rw [Except.map, slotId_toNat (by omega), hmod, hnum]

/-! ## The limits -/

lemma geometry_sectors_le (h : geometry n boot = .ok g) : g.sectors ≤ n := by
  unfold geometry at h
  extract_lets perCluster reserved entries small large fatSectors total rootStart dataStart clusters at h
  split at h
  · cases h
  split at h
  · cases h
  split at h
  · cases h
  rename_i hle
  split at h
  · cases h
  split at h
  · cases h
  split at h
  · cases h
  · cases h
    exact Nat.not_lt.mp hle

lemma geometry_areas (h : geometry n boot = .ok g) : 0 < g.fatStart ∧ 0 < g.fatSectors ∧
    g.fatStart + g.fatSectors + g.fatSectors = g.rootStart ∧
    g.rootStart * 512 + g.rootEntries * 32 = g.dataStart * 512 ∧ g.dataStart + g.clusters * g.perCluster ≤ g.sectors ∧
    g.sectors ≤ n := by
  have h1 := g.rootStart_eq
  have h2 := g.dataStart_eq
  have h3 := g.rootEntries_mod
  have h4 := g.data_end
  refine ⟨g.fatStart_pos, g.fatSectors_pos, by omega, by omega, ?_, geometry_sectors_le h⟩
  unfold Geometry.perCluster
  exact h4

lemma clusterSector_apart {a b : Nat} (ha : validCluster g a = true) (hab : a < b) :
    clusterSector g a + g.perCluster ≤ clusterSector g b := by
  have h2 := (validCluster_range ha).1
  have hm : (a - 2 + 1) * g.perCluster ≤ (b - 2) * g.perCluster := Nat.mul_le_mul_right _ (by omega)
  rw [Nat.add_mul, Nat.one_mul] at hm
  unfold clusterSector
  omega

lemma cluster_inside (hc : Fat16.validCluster g c.toNat = true) : g.dataStart ≤ Fat16.clusterSector g c.toNat ∧
    Fat16.clusterSector g c.toNat + g.perCluster ≤ g.dataStart + g.clusters * g.perCluster ∧
    (c * 2).toNat = c.toNat * 2 ∧ c.toNat * 2 + 2 ≤ g.fatBytes ∧ (c / 8).toNat < bitmapBytes := by
  obtain ⟨h2, hlt, hle⟩ := validCluster_range hc
  have hcap := g.fat_capacity
  have hm : (c.toNat - 2 + 1) * g.perCluster ≤ g.clusters * g.perCluster := Nat.mul_le_mul_right _ (by omega)
  rw [Nat.add_mul, Nat.one_mul] at hm
  refine ⟨Nat.le_add_right _ _, ?_, ?_, ?_, ?_⟩
  · unfold Fat16.clusterSector
    omega
  · rw [UInt32.toNat_mul]
    change c.toNat * 2 % _ = _
    omega
  · unfold Geometry.fatBytes
    omega
  · rw [UInt32.toNat_div]
    change c.toNat / 8 < (65524 + 2 + 7) / 8
    omega

/-- **Accepted geometry keeps every access in bounds**, and no computation wraps. The words of an accepted boot sector
hold the numbers of a geometry whose areas follow one another inside the device. A valid cluster has its sectors in the
cluster area, its table word in the cached table and its bit in the bitmaps, and no other cluster has one of its
sectors. Slots of the root and of validated directories have identifiers that `fat16_slot_offset` inverts. All functions
over words give the numbers of the model. -/
theorem accepted_geometry_bounds {sectorCount : UInt64} {boot : Mem} {w : Information} (fat : Mem)
    (h : geometryWords sectorCount boot = .ok w) : ∃ g, geometry sectorCount.toNat boot = .ok g ∧ Represents w g ∧
      (0 < g.fatStart ∧ 0 < g.fatSectors ∧ g.fatStart + g.fatSectors + g.fatSectors = g.rootStart ∧
        g.rootStart * 512 + g.rootEntries * 32 = g.dataStart * 512 ∧
        g.dataStart + g.clusters * g.perCluster ≤ g.sectors ∧ g.sectors ≤ sectorCount.toNat) ∧
      (∀ c : UInt32, w.validCluster c = validCluster g c.toNat ∧ (w.validCluster c = true →
        (w.clusterSector c).toNat = clusterSector g c.toNat ∧ g.dataStart ≤ clusterSector g c.toNat ∧
        clusterSector g c.toNat + g.perCluster ≤ g.dataStart + g.clusters * g.perCluster ∧
        (c * 2).toNat = c.toNat * 2 ∧ c.toNat * 2 + 2 ≤ g.fatBytes ∧ (c / 8).toNat < bitmapBytes ∧
        (nextClusterWord fat c).toNat = nextCluster fat c.toNat ∧ ∀ c' : UInt32, w.validCluster c' = true → c ≠ c' →
          clusterSector g c.toNat + g.perCluster ≤ clusterSector g c'.toNat ∨
          clusterSector g c'.toNat + g.perCluster ≤ clusterSector g c.toNat)) ∧
      (∀ id : UInt64, (w.slotOffset id).map UInt64.toNat = slotOffset g id.toNat) ∧
      ∀ d, Validated g fat d → (∃ dw : DescriptionWords, dw.Holds d) ∧
        (∀ dw : DescriptionWords, dw.Holds d → (w.directorySlots dw).toNat = directorySlots g d ∧
          ∀ cursor : UInt64, (w.directorySlot fat dw cursor).map UInt64.toNat = directorySlot g fat d cursor.toNat) ∧
        (∀ k < directorySlots g d, ∃ i, directorySlot g fat d k = .ok i ∧ i ≠ rootId ∧
          slotOffset g i = some (slotAddress g fat d k) ∧ slotAddress g fat d k / 512 < g.sectors ∧
          (∀ k' < directorySlots g d, directorySlot g fat d k' = .ok i → k = k') ∧
          ∀ d', Validated g fat d' → ∀ k' < directorySlots g d', directorySlot g fat d' k' = .ok i →
            slotAddress g fat d' k' = slotAddress g fat d k) := by
  have heq := geometryWords_eq boot sectorCount
  cases hg : geometry sectorCount.toNat boot with
  | error r =>
    simp only [hg, h] at heq
    cases heq
  | ok g =>
    simp only [hg, h, Agrees, Except.ok.injEq, exists_eq_left'] at heq
    refine ⟨g, rfl, heq, geometry_areas hg, fun c => ⟨heq.validCluster, fun hc => ?_⟩, heq.slotOffset, fun d hv =>
      ⟨hv.fits, fun dw hd => ⟨heq.directorySlots hd hv, fun cursor => heq.directorySlot hd hv⟩, fun k hk => ?_⟩⟩
    · rw [heq.validCluster] at hc
      obtain ⟨hlow, hhigh, hword, hfat, hbit⟩ := cluster_inside hc
      have hlt := validCluster_range hc
      refine ⟨heq.clusterSector hc, hlow, hhigh, hword, hfat, hbit, (nextClusterWord_toNat fat (by omega)).1, ?_⟩
      intro c' hc' hne
      rw [heq.validCluster] at hc'
      rcases Nat.lt_or_gt_of_ne (mt UInt32.toNat_inj.mp hne) with hab | hab
      · exact .inl (clusterSector_apart hc hab)
      · exact .inr (clusterSector_apart hc' hab)
    · obtain ⟨i, hi, h2, ha⟩ := hv.slot hk
      refine ⟨i, hi, ?_, ha, (slotOffset_bounds ha).2.2.2, fun k' hk' hi' => hv.slot_inj hk hk' hi hi', ?_⟩
      · unfold rootId
        omega
      · intro d' hv' k' hk' hi'
        obtain ⟨i', hi'', -, ha'⟩ := hv'.slot hk'
        rw [hi', Except.ok.injEq] at hi''
        rw [← hi'', ha, Option.some.injEq] at ha'
        exact ha'.symm

/-- A boot sector of a volume of 4085 clusters. -/
def smallBoot : Mem := fun j =>
  if j = 12 then 2 else if j = 13 then 1 else if j = 14 then 1 else if j = 16 then 2 else if j = 17 then 16
  else if j = 19 then 0x17 else if j = 20 then 0x10 else if j = 21 then 0xf8 else if j = 22 then 16
  else if j = 510 then 0x55 else if j = 511 then 0xaa else 0

theorem smallBoot_bounds : geometryWords 5000 smallBoot = .ok ⟨4119, 4085, 512, 1, 16, 33, 16, 34⟩ ∧
    ∃ g, geometry 5000 smallBoot = .ok g ∧ g.sectors ≤ 5000 := by
  have h : geometryWords 5000 smallBoot = .ok ⟨4119, 4085, 512, 1, 16, 33, 16, 34⟩ := by decide
  obtain ⟨g, hg, -, ⟨-, -, -, -, -, hs⟩, -⟩ := accepted_geometry_bounds (fun _ => 0) h
  exact ⟨h, g, hg, hs⟩

end RumKernel.Fat16
