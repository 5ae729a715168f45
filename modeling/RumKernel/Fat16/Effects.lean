import RumKernel.Fat16.Search

/-!
# What the write functions do on a healthy device

Each function that writes is described by the list of sector writes it issues, taken from the state it
starts in. `Vol.writes` performs such a list, and `Phase` is a list followed by a flush.
-/

namespace RumKernel.Fat16
open Lib Fs Prog

variable {v v' : Vol} {x : Image} {c d i id k n : Nat} {e : Entry} {cs : List Nat}
variable {Q : Except FsError Unit → Vol → Prop}
variable {content fat m : Mem} {a base copy fuel parent self : Nat} {g : Geometry}

/-- The volume after a list of completed sector writes. -/
def Vol.writes (v : Vol) (ws : List Write) : Vol :=
  { v with started := v.started || !ws.isEmpty, medium := applyWrites v.medium ws, trace := v.trace ++ writeLog ws }

section fields
variable {data : Mem} {ws : List Write}

@[simp] lemma Vol.write_geo : (v.write n data).geo = v.geo := rfl
@[simp] lemma Vol.write_fat : (v.write n data).fat = v.fat := rfl
@[simp] lemma Vol.writes_geo : (v.writes ws).geo = v.geo := rfl
@[simp] lemma Vol.writes_fat : (v.writes ws).fat = v.fat := rfl
@[simp] lemma Vol.writes_device : (v.writes ws).device = v.device := rfl
@[simp] lemma Vol.writes_medium : (v.writes ws).medium = applyWrites v.medium ws := rfl

end fields

lemma Vol.writes_nil : v.writes [] = v := by
  simp [Vol.writes, writeLog]

lemma Vol.write_eq {data : Mem} : v.write n data = v.writes [(n, data)] := by
  simp [Vol.write, Vol.writes, writeLog]

lemma Vol.writes_writes {ws vs : List Write} : (v.writes ws).writes vs = v.writes (ws ++ vs) := by
  simp only [Vol.writes, applyWrites_append, writeLog_append, List.append_assoc]
  cases ws <;> simp

lemma Vol.write_writes {data : Mem} {ws : List Write} :
    (v.write n data).writes ws = v.writes ((n, data) :: ws) := by
  rw [Vol.write_eq, Vol.writes_writes]
  rfl

/-- A phase of the protocol: writes and a flush, or nothing. -/
def Phase (v : Vol) (ws : List Write) (v' : Vol) : Prop := v' = (v.writes ws).flush ∨ (ws = [] ∧ v' = v)

lemma Phase.medium {ws : List Write} (h : Phase v ws v') : v'.medium = applyWrites v.medium ws := by
  rcases h with rfl | ⟨rfl, rfl⟩
  · rfl
  · rfl

/-- Phases change the medium, the log and the flag of an attempted write. -/
structure SameButDisk (v v' : Vol) : Prop where
  geo : v'.geo = v.geo
  writable : v'.writable = v.writable
  faulted : v'.faulted = v.faulted
  fat : v'.fat = v.fat
  owners : v'.owners = v.owners
  pins : v'.pins = v.pins
  ready : v'.ready = v.ready
  audited : v'.audited = v.audited
  committed : v'.committed = v.committed
  device : v'.device = v.device

lemma Phase.same {ws : List Write} (h : Phase v ws v') : SameButDisk v v' := by
  rcases h with rfl | ⟨rfl, rfl⟩
  · exact ⟨rfl, rfl, rfl, rfl, rfl, rfl, rfl, rfl, rfl, rfl⟩
  · exact ⟨rfl, rfl, rfl, rfl, rfl, rfl, rfl, rfl, rfl, rfl⟩

lemma Phase.trace {ws : List Write} (h : Phase v ws v') : ∃ l, v'.trace = v.trace ++ l ∧ Phased [ws] l := by
  rcases h with rfl | ⟨rfl, rfl⟩
  · exact ⟨writeLog ws ++ [.flush], by simp [Vol.flush, Vol.writes], .phase .nil⟩
  · exact ⟨[], by simp, .skip .nil⟩

/-! ## Directory entries -/

lemma entryWrite_runs (hi : slotOffset v.geo i = some (slotBase i)) (hro : v.device.readOnly = false)
    (hQ : ∀ data, setBlock v.medium (slotBase i / 512) data = Image.setSlot v.medium i e →
      Q (.ok ()) (v.writes [(slotBase i / 512, data)])) : Runs v (entryWrite i e) Q := by
  obtain ⟨-, h2, hlo, hlt⟩ := slotOffset_bounds hi
  have hstart := v.geo.rootStart_eq
  unfold entryWrite
  refine Runs.get_bind fun h => ?_
  simp only [mkWorld_geo, hi]
  refine fat16Sector_get hlt fun h hsec => ?_
  refine writeSector_runs (by omega) hlt hro ?_
  rw [Vol.write_eq]
  refine hQ _ ?_
  funext a
  rw [mkWorld_sector, hsec]
  have hb : slotBase i % 512 + 32 ≤ 512 := by
    unfold slotBase
    omega
  unfold setBlock Image.setSlot
  by_cases ha : a / 512 = slotBase i / 512
  · rw [if_pos ha]
    beta_reduce
    by_cases hin : slotBase i ≤ a ∧ a < slotBase i + 32
    · rw [if_pos hin, if_pos (by omega)]
      congr 1
      omega
    · rw [if_neg hin, if_neg (by omega), block_apply (by omega)]
      congr 1
      omega
  · rw [if_neg ha, if_neg (by omega)]

/-! ## The allocation tables -/

def fatAt (g : Geometry) (copy : Nat) : Nat := (g.fatStart + copy * g.fatSectors) * 512

/-- The sectors of a table that changed, as writes to one of the copies. -/
def fatWrites (g : Geometry) (old new : Mem) (copy : Nat) : List Nat → List Write
  | [] => []
  | i :: l =>
    if sameBytes (slice new (i * 512) 512) (slice old (i * 512) 512) 512 then fatWrites g old new copy l
    else (g.fatStart + copy * g.fatSectors + i, slice new (i * 512) 512) :: fatWrites g old new copy l

lemma persistSectors_runs {Q : Except FsError Bool → Vol → Prop} {changed : Bool}
    (hcopy : copy < 2) (hro : v.device.readOnly = false) (hfuel : i + fuel ≤ v.geo.fatSectors)
    (hQ : Q (.ok (changed || !(fatWrites v.geo v.fat fat copy (List.range' i fuel)).isEmpty))
      (v.writes (fatWrites v.geo v.fat fat copy (List.range' i fuel)))) :
    Runs v (persistSectors fat copy fuel i changed) Q := by
  induction fuel generalizing v i changed with
  | zero =>
    rw [List.range'_zero, fatWrites, Vol.writes_nil, List.isEmpty_nil, Bool.not_true, Bool.or_false] at hQ
    exact Runs.pure hQ
  | succ fuel ih =>
    have h1 := v.geo.rootStart_eq
    have h2 := v.geo.dataStart_eq
    have h3 := v.geo.data_end
    have hcs : copy * v.geo.fatSectors ≤ 1 * v.geo.fatSectors := Nat.mul_le_mul_right _ (by omega)
    unfold persistSectors
    refine Runs.get_bind fun h => ?_
    simp only [List.range'_succ, fatWrites] at hQ
    simp only [mkWorld_fat, mkWorld_geo]
    refine Runs.ite (fun hs => ?_) fun hs => ?_
    · rw [if_pos hs] at hQ
      exact ih hro (by omega) hQ
    · rw [if_neg hs] at hQ
      refine Runs.bind (writeSector_runs (by omega) (by omega) hro ?_)
      refine ih hro (v := v.write _ _) (by show i + 1 + fuel ≤ v.geo.fatSectors; omega) ?_
      rw [Vol.write_writes]
      simpa using hQ

lemma persistCopy_runs (hcopy : copy < 2) (hro : v.device.readOnly = false)
    (hQ : ∀ v', Phase v (fatWrites v.geo v.fat fat copy (List.range v.geo.fatSectors)) v' → Q (.ok ()) v') :
    Runs v (persistCopy fat copy) Q := by
  unfold persistCopy
  refine Runs.get_bind fun h => ?_
  simp only [mkWorld_geo]
  refine Runs.bind (persistSectors_runs hcopy hro (by omega) ?_)
  rw [← List.range_eq_range']
  refine Runs.ite (fun hc => flushDevice_runs (hQ _ (.inl rfl))) fun hc => Runs.pure (hQ _ ?_)
  have hnil : fatWrites v.geo v.fat fat copy (List.range v.geo.fatSectors) = [] := by
    simpa using hc
  rw [hnil, Vol.writes_nil]
  exact .inr ⟨rfl, rfl⟩

/-- The cached table after a successful `persist_fat`. -/
def Vol.setFat (v : Vol) (fat : Mem) : Vol := { v with fat := copyInto v.fat fat v.geo.fatBytes }

lemma persistFat_runs (hro : v.device.readOnly = false)
    (hQ : ∀ v1 v2, Phase v (fatWrites v.geo v.fat fat 0 (List.range v.geo.fatSectors)) v1 →
      Phase v1 (fatWrites v.geo v.fat fat 1 (List.range v.geo.fatSectors)) v2 →
      Q (.ok ()) (v2.setFat fat)) : Runs v (persistFat fat) Q := by
  unfold persistFat
  refine Runs.bind (persistCopy_runs (by omega) hro fun v1 h₁ => ?_)
  have hs := h₁.same
  refine Runs.bind (persistCopy_runs (by omega) (hs.device ▸ hro) fun v2 h₂ => ?_)
  rw [hs.geo, hs.fat] at h₂
  exact Runs.modify (v2.setFat fat) (fun h => ⟨h, rfl, rfl, rfl, rfl, rfl⟩) rfl (hQ v1 v2 h₁ h₂)

/-! ## Cluster contents -/

/-- The writes of the sectors `l` of cluster `c`, whose contents begin at `base` of `content`. -/
def sectorWrites (g : Geometry) (content : Mem) (c base : Nat) (l : List Nat) : List Write :=
  l.map fun i => (clusterSector g c + i, slice content (base + i * 512) 512)

/-- The writes that fill the clusters with `content` from `base` on. -/
def contentWrites (g : Geometry) (content : Mem) : List Nat → Nat → List Write
  | [], _ => []
  | c :: cs, base => sectorWrites g content c base (List.range g.perCluster) ++
      contentWrites g content cs (base + g.clusterBytes)

lemma mem_contentWrites {w : Write}
    (h : w ∈ contentWrites g content cs base) : ∃ c ∈ cs, ∃ i < g.perCluster, w.1 = clusterSector g c + i := by
  induction cs generalizing base with
  | nil => cases h
  | cons c cs ih =>
    rcases List.mem_append.mp h with h | h
    · obtain ⟨i, hi, rfl⟩ := List.mem_map.mp h
      exact ⟨c, List.mem_cons_self, i, List.mem_range.mp hi, rfl⟩
    · obtain ⟨c', hc', i, hi, e⟩ := ih h
      exact ⟨c', List.mem_cons_of_mem _ hc', i, hi, e⟩

lemma sector_in_cluster (hi : i < g.perCluster) (ha : a / 512 = clusterSector g c + i) :
    clusterBase g c ≤ a ∧ a < clusterBase g c + g.clusterBytes := by
  have hp := g.perCluster_mul
  unfold clusterBase
  generalize clusterSector g c = s at *
  generalize g.perCluster = p at *
  omega

lemma contentWrites_other {ws : List Write} (hw : ∀ w ∈ ws, w ∈ contentWrites g content cs base)
    (ha : ∀ c ∈ cs, ¬(clusterBase g c ≤ a ∧ a < clusterBase g c + g.clusterBytes)) : applyWrites m ws a = m a := by
  refine applyWrites_other fun w hm e => ?_
  obtain ⟨c, hc, i, hi, e'⟩ := mem_contentWrites (hw w hm)
  exact ha c hc (sector_in_cluster hi (e.trans e'))

lemma sectorWrites_nodup : ((sectorWrites g content c base (List.range g.perCluster)).map Prod.fst).Nodup := by
  unfold sectorWrites
  rw [List.map_map]
  exact List.nodup_range.map fun a b h => by simpa using h

lemma contentWrites_apply {off : Nat} (hn : cs.Nodup)
    (hv : ∀ c ∈ cs, validCluster g c = true) (hk : k < cs.length) (hoff : off < g.clusterBytes) :
    applyWrites m (contentWrites g content cs base) (clusterBase g cs[k] + off) =
      content (base + k * g.clusterBytes + off) := by
  induction cs generalizing base k m with
  | nil => cases hk
  | cons c cs ih =>
    obtain ⟨hc, hn'⟩ := List.nodup_cons.mp hn
    rw [contentWrites, applyWrites_append]
    cases k with
    | zero =>
      -- the later clusters do not touch this one
      have e1 : ∀ s, (s + off / 512) * 512 + off % 512 = s * 512 + off := fun s => by omega
      have hp := g.perCluster_mul
      rw [List.getElem_cons_zero, contentWrites_other (fun w hw => hw)]
      · have hi : off / 512 < g.perCluster := by
          rw [Nat.div_lt_iff_lt_mul (by omega)]
          omega
        have hw : (clusterSector g c + off / 512, slice content (base + off / 512 * 512) 512) ∈
            sectorWrites g content c base (List.range g.perCluster) :=
          List.mem_map.mpr ⟨off / 512, List.mem_range.mpr hi, rfl⟩
        have h1 := applyWrites_of_mem (m := m) sectorWrites_nodup hw (Nat.mod_lt off (by omega : 512 > 0))
        rw [e1] at h1
        rw [clusterBase, h1]
        simp only
        rw [slice_apply (Nat.mod_lt _ (by omega))]
        congr 1
        omega
      · intro c' hc' hin
        have hl : clusterBase g c ≤ clusterBase g c + off := Nat.le_add_right _ _
        have hu := Nat.add_lt_add_left hoff (clusterBase g c)
        exact hc (cluster_unique (hv c List.mem_cons_self) (hv c' (List.mem_cons_of_mem _ hc')) hl hu
          hin.1 hin.2 ▸ hc')
    | succ k =>
      rw [List.getElem_cons_succ, ih hn' (fun c' hc' => hv c' (List.mem_cons_of_mem _ hc'))
        (Nat.lt_of_succ_lt_succ hk)]
      congr 1
      rw [Nat.succ_mul]
      omega

/-! ### `zero_cluster` -/

lemma firstSector_zero {j : Nat} (hj : 64 ≤ j) : firstSector self parent j = 0 := by
  unfold firstSector
  split
  · beta_reduce
    rw [if_neg (by omega), if_neg (by omega)]
  · rfl

lemma slice_firstSector : slice (firstSector self parent) 0 512 = firstSector self parent := by
  funext j
  unfold slice
  split
  · rw [Nat.zero_add]
  · exact (firstSector_zero (by omega)).symm

lemma slice_firstSector_zero {i : Nat} (hi : 0 < i) :
    slice (firstSector self parent) (i * 512) 512 = fun _ => 0 := by
  funext j
  unfold slice
  split
  · exact firstSector_zero (by omega)
  · rfl

lemma zeroLoop_runs (self parent : Nat) {data : Mem}
    (hc : validCluster v.geo c = true) (hro : v.device.readOnly = false) (hf : i + fuel = v.geo.perCluster)
    (hdata : data = slice (firstSector self parent) (i * 512) 512)
    (hQ : Q (.ok ()) (v.writes (sectorWrites v.geo (firstSector self parent) c 0 (List.range' i fuel)))) :
    Runs v (zeroLoop (clusterSector v.geo c) fuel i data) Q := by
  induction fuel generalizing v i data with
  | zero =>
    rw [List.range'_zero, sectorWrites, List.map_nil, Vol.writes_nil] at hQ
    exact Runs.pure hQ
  | succ fuel ih =>
    have hb := clusterSector_bounds (g := v.geo) (i := i) hc (by omega)
    have h1 := v.geo.dataStart_eq
    have h2 := v.geo.rootStart_eq
    unfold zeroLoop
    refine Runs.bind (writeSector_runs (by omega) hb.2 hro ?_)
    refine ih (v := v.write _ _) (i := i + 1) hc hro (by show i + 1 + fuel = v.geo.perCluster; omega) ?_ ?_
    · rw [slice_firstSector_zero (by omega)]
      split
      · rfl
      · rw [hdata, slice_firstSector_zero (by omega)]
    · rw [Vol.write_writes, hdata]
      simpa [sectorWrites, List.range'_succ] using hQ

lemma zeroCluster_runs (hc : validCluster v.geo c = true) (hro : v.device.readOnly = false)
    (hQ : Q (.ok ()) (v.writes (contentWrites v.geo (firstSector self parent) [c] 0))) :
    Runs v (zeroCluster c self parent) Q := by
  unfold zeroCluster
  refine Runs.get_bind fun h => ?_
  refine zeroLoop_runs self parent (v := v) hc hro (Nat.zero_add _) ?_ ?_
  · rw [Nat.zero_mul, slice_firstSector]
  · rw [← List.range_eq_range']
    simpa [contentWrites] using hQ

/-! ## Growing and publishing -/

lemma allocLoop_one {r : FsError} (h : allocLoop g fuel a 1 0 0 fat = .error r) :
    ∀ c, a ≤ c → c < a + fuel → ¬(validCluster g c = true ∧ nextCluster fat c = 0) := by
  induction fuel generalizing a with
  | zero => omega
  | succ fuel ih =>
    simp only [allocLoop, Nat.one_ne_zero, if_false] at h
    split at h
    · rename_i hn
      intro c h1 h2 hc
      by_cases e : c = a
      · subst e
        simp [hc.1, hc.2] at hn
      · exact ih h c (by omega) (by omega) hc
    · exfalso
      cases fuel <;> simp [allocLoop] at h

lemma allocate_one (h : freeCount g fat ≠ 0) : ∃ fat' n, allocate g fat 1 = .ok (fat', n) := by
  cases ha : allocate g fat 1 with
  | ok r => exact ⟨r.1, r.2, rfl⟩
  | error r =>
    exfalso
    apply h
    unfold freeCount
    rw [List.length_eq_zero_iff, List.filter_eq_nil_iff]
    intro k hk
    have := allocLoop_one ha (k + 2) (by omega) (by have := List.mem_range.mp hk; omega)
    simpa using this

lemma growDirectory_runs {Q : Except FsError (Target × Mem) → Vol → Prop} {t : Target}
    (hro : v.device.readOnly = false) (hfree : t.grow = true → freeCount v.geo fat ≠ 0)
    (hno : t.grow = false → Q (.ok (t, fat)) v) (hyes : t.grow = true → ∀ fat' n, Allocated v.geo fat fat' [n] →
      Q (.ok ({ t with id := clusterSector v.geo n * 16 + 2 },
          setCluster fat' (clusterAt v.fat t.directory.first (t.directory.length - 1)) n))
        (v.writes (contentWrites v.geo (firstSector 0 0) [n] 0))) :
    Runs v (growDirectory t fat) Q := by
  unfold growDirectory
  cases hg : t.grow with
  | false =>
    simp only [Bool.not_false, if_true]
    exact Runs.pure (hno hg)
  | true =>
    simp only [Bool.not_true, Bool.false_eq_true, if_false]
    refine Runs.get_bind fun h => ?_
    obtain ⟨fat', n, ha⟩ := allocate_one (hfree hg)
    obtain ⟨taken, hal, hlen, hhead⟩ := allocate_ok ha
    obtain ⟨n', rfl⟩ := List.length_eq_one_iff.mp hlen
    obtain rfl : n = n' := by simpa using hhead
    refine Runs.bind (Runs.lift ?_)
    rw [mkWorld_geo, ha]
    refine Runs.bind (zeroCluster_runs (hal.valid n (by simp)) hro (Runs.pure ?_))
    have hy := hyes hg fat' n hal
    rw [hg] at hy
    exact hy

end RumKernel.Fat16
