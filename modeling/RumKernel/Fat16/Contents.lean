import RumKernel.Fat16.Effects

/-!
# Copying file contents

`copy_contents` fills the new chain of a file sector by sector from the old chain, the patch and zeroes.
Its effect is a single list of sector writes, those of `fileContent`: the patch inside its window, the old
bytes where they are kept, zero elsewhere.
-/

namespace RumKernel.Fat16
open Lib Fs Prog

variable {v : Vol} {g : Geometry} {m : Mem} {oldcs : List Nat} {oldSize size offset : Nat}
  {patch : List Byte} {keep : Bool}
variable {Q : Except FsError Unit → Vol → Prop}
variable {base c fuel i idx oc : Nat} {old : Description} {fat : Mem} {cs : List Nat}

/-- The bytes of the new chain: `patch` at `offset`, the kept bytes of the old file around it. -/
def fileContent (g : Geometry) (m : Mem) (oldcs : List Nat) (oldSize size offset : Nat) (patch : List Byte)
    (keep : Bool) : Mem := fun k =>
  if offset ≤ k ∧ k < offset + patch.length ∧ k < size then patch.getD (k - offset) 0
  else if keep = true ∧ k < oldSize ∧ k < size then
    m (clusterBase g (oldcs.getD (k / g.clusterBytes) 0) + k % g.clusterBytes)
  else 0

/-- The old bytes of one sector as `copy_contents` reads them. -/
def oldSector (g : Geometry) (m : Mem) (c i base oldSize size : Nat) (keep : Bool) : Mem :=
  if keep = true ∧ base < size ∧ base < oldSize then
    slice (block m (clusterSector g c + i)) 0 (min (min (oldSize - base) 512) (size - base))
  else fun _ => 0

lemma oldSector_apply {j : Nat} (hj : j < 512) : oldSector g m c i base oldSize size keep j =
    if keep = true ∧ base + j < oldSize ∧ base + j < size then m (clusterBase g c + (i * 512 + j)) else 0 := by
  unfold oldSector
  by_cases hk : keep = true ∧ base < size ∧ base < oldSize
  · rw [if_pos hk]
    unfold slice
    by_cases hin : j < min (min (oldSize - base) 512) (size - base)
    · have e : (clusterSector g c + i) * 512 + (0 + j) = clusterSector g c * 512 + (i * 512 + j) := by
        rw [Nat.add_mul, Nat.zero_add, Nat.add_assoc]
      rw [if_pos hin, if_pos ⟨hk.1, by omega, by omega⟩, block_apply (by omega), e]
      rfl
    · rw [if_neg hin, if_neg (fun h => hin (by omega))]
  · rw [if_neg hk, if_neg fun h => hk ⟨h.1, by omega, by omega⟩]

lemma patchSector_eq (hbase : base = idx * g.clusterBytes + i * 512)
    (hi : i < g.perCluster) (hc : keep = true → base < oldSize → c = oldcs.getD idx 0) :
    patchSector (oldSector g m c i base oldSize size keep) base size offset patch =
      slice (fileContent g m oldcs oldSize size offset patch keep) base 512 := by
  have hp := g.perCluster_mul
  have hi' : i * 512 + 512 ≤ g.clusterBytes := by
    have : (i + 1) * 512 ≤ g.perCluster * 512 := Nat.mul_le_mul_right _ hi
    omega
  clear hp
  funext j
  unfold patchSector slice
  by_cases hj : j < 512
  · rw [if_pos hj]
    unfold fileContent
    by_cases hin : offset ≤ base + j ∧ base + j < offset + patch.length ∧ base + j < size
    · rw [if_pos hin, if_pos (by omega)]
    · rw [if_neg hin, if_neg (by omega), oldSector_apply hj]
      by_cases hk : keep = true ∧ base + j < oldSize ∧ base + j < size
      · have hdiv : (base + j) / g.clusterBytes = idx := by
          rw [hbase, Nat.add_assoc, Nat.add_comm, Nat.add_mul_div_right _ _ (by omega),
            Nat.div_eq_of_lt (by omega), Nat.zero_add]
        have hmod : (base + j) % g.clusterBytes = i * 512 + j := by
          rw [hbase, Nat.add_assoc, Nat.add_comm, Nat.add_mul_mod_self_right, Nat.mod_eq_of_lt (by omega)]
        rw [if_pos hk, if_pos hk, hdiv, hmod, hc hk.1 (by omega)]
      · rw [if_neg hk, if_neg hk]
  · rw [if_neg hj, if_neg (by omega)]
    unfold oldSector slice
    split
    · exact if_neg (by omega)
    · rfl

variable (m oldcs) in
lemma copySectors_runs {Q : Except FsError Nat → Vol → Prop}
    (idx : Nat) (hcv : validCluster v.geo c = true) (hro : v.device.readOnly = false)
    (hf : i + fuel = v.geo.perCluster) (hbase : base = idx * v.geo.clusterBytes + i * 512)
    (hoc : keep = true → idx * v.geo.clusterBytes < old.node.size → oc = oldcs.getD idx 0 ∧
      validCluster v.geo oc = true ∧ oc ≠ c ∧
      ∀ a, clusterBase v.geo oc ≤ a → a < clusterBase v.geo oc + v.geo.clusterBytes → v.medium a = m a)
    (hQ : Q (.ok (base + fuel * 512)) (v.writes (sectorWrites v.geo
      (fileContent v.geo m oldcs old.node.size size offset patch keep) c (idx * v.geo.clusterBytes)
      (List.range' i fuel)))) : Runs v (copySectors old size offset patch keep c oc fuel i base) Q := by
  induction fuel generalizing v i base with
  | zero =>
    rw [List.range'_zero, sectorWrites, List.map_nil, Vol.writes_nil, Nat.zero_mul, Nat.add_zero] at hQ
    exact Runs.pure hQ
  | succ fuel ih =>
    have hi : i < v.geo.perCluster := by omega
    have hb := clusterSector_bounds (g := v.geo) hcv hi
    have h1 := v.geo.dataStart_eq
    have h2 := v.geo.rootStart_eq
    -- the sector write and the rest of the loop, once the old bytes are known
    have rest : ∀ data : Mem, data = oldSector v.geo m oc i base old.node.size size keep →
        Runs v (writeSector (clusterSector v.geo c + i) (patchSector data base size offset patch) >>=
          fun _ => copySectors old size offset patch keep c oc fuel (i + 1) (base + 512)) Q := by
      rintro data rfl
      refine Runs.bind (writeSector_runs (by omega) hb.2 hro ?_)
      refine ih (v := v.write _ _) hcv hro (by show i + 1 + fuel = v.geo.perCluster; omega) ?_ ?_ ?_
      · show base + 512 = idx * v.geo.clusterBytes + (i + 1) * 512
        omega
      · intro hk hlt
        obtain ⟨e1, e2, e3, e4⟩ := hoc hk hlt
        refine ⟨e1, e2, e3, fun a ha ha' => ?_⟩
        show setBlock v.medium _ _ a = m a
        rw [setBlock_apply_other, e4 a ha ha']
        intro e
        have hin := sector_in_cluster (g := v.geo) hi e
        exact e3 (cluster_unique e2 hcv ha ha' hin.1 hin.2)
      · rw [Vol.write_writes, patchSector_eq hbase hi fun hk hlt => (hoc hk (by omega)).1]
        have e : base + 512 + fuel * 512 = base + (fuel + 1) * 512 := by omega
        rw [e]
        simpa [sectorWrites, List.range'_succ, hbase] using hQ
    unfold copySectors
    refine Runs.get_bind fun h => ?_
    simp only [mkWorld_geo]
    refine Runs.ite (fun hk => ?_) fun hk => ?_
    · obtain ⟨e1, e2, e3, e4⟩ := hoc hk.1 (by omega)
      refine fat16Sector_get (clusterSector_bounds e2 hi).2 fun h hsec => ?_
      refine Runs.bind (Runs.pure (rest _ ?_))
      unfold oldSector
      rw [if_pos hk, mkWorld_sector, hsec]
      congr 1
      refine slice_congr fun j hj => e4 _ ?_ ?_
      · exact (sector_in_cluster (g := v.geo) hi (by omega)).1
      · exact (sector_in_cluster (g := v.geo) hi (by omega)).2
    · refine Runs.bind (Runs.pure (rest _ ?_))
      unfold oldSector
      rw [if_neg hk]

/-- The old file that a description stands for: its clusters `oldcs` are the chain of the cached table. -/
structure OldFile (g : Geometry) (fat : Mem) (old : Description) (oldcs : List Nat) : Prop where
  length : old.length = oldcs.length
  chain : old.node.size ≠ 0 → IsChain g fat old.first oldcs ∧ oldcs.length = clustersFor g old.node.size

lemma lt_clustersFor : idx < clustersFor g size ↔ idx * g.clusterBytes < size := by
  rw [← Nat.not_le, clustersFor_le, Nat.not_le]

lemma copyLoop_runs (idx : Nat) (hro : v.device.readOnly = false)
    (hbase : base = idx * v.geo.clusterBytes) (hchain : ∀ c' tl, cs = c' :: tl → IsChain v.geo fat c cs)
      (hlen : idx + cs.length = clustersFor v.geo size)
    (hfuel : cs.length ≤ fuel) (hold : keep = true → OldFile v.geo v.fat old oldcs) (hdisj : ∀ c' ∈ cs, c' ∉ oldcs)
    (hm : ∀ c' ∈ oldcs, ∀ a, clusterBase v.geo c' ≤ a → a < clusterBase v.geo c' + v.geo.clusterBytes →
      v.medium a = m a) (hov : ∀ c' ∈ oldcs, validCluster v.geo c' = true)
    (hoc : keep = true → idx * v.geo.clusterBytes < old.node.size → oldcs[idx]? = some oc)
    (hQ : Q (.ok ()) (v.writes (contentWrites v.geo
      (fileContent v.geo m oldcs old.node.size size offset patch keep) cs (idx * v.geo.clusterBytes)))) :
    Runs v (copyLoop old fat size offset patch keep fuel c idx oc base) Q := by
  subst hbase
  induction cs generalizing v idx fuel c oc with
  | nil =>
    rw [contentWrites, Vol.writes_nil] at hQ
    have hge : idx * v.geo.clusterBytes ≥ size := clustersFor_le.mp (by simpa using hlen.ge)
    cases fuel with
    | zero => exact Runs.pure hQ
    | succ fuel =>
      unfold copyLoop
      exact Runs.ite (fun _ => Runs.pure hQ) fun h => absurd hge h
  | cons c' cs ih =>
    have hch := hchain c' cs rfl
    obtain ⟨tl, e⟩ := Chain.head_eq hch
    obtain ⟨rfl, -⟩ : c' = c ∧ cs = tl := by simpa using e
    have hcv := hch.valid hch.head_mem
    have hlt : idx * v.geo.clusterBytes < size := lt_clustersFor.mp (by simp at hlen; omega)
    obtain ⟨fuel, rfl⟩ : ∃ k, fuel = k + 1 := ⟨fuel - 1, by simp at hfuel; omega⟩
    have hp := v.geo.perCluster_mul
    unfold copyLoop
    refine Runs.ite (fun h => absurd h (by omega)) fun _ => ?_
    refine Runs.get_bind fun h => ?_
    simp only [mkWorld_geo, mkWorld_fat]
    refine Runs.bind (copySectors_runs m oldcs idx hcv hro (Nat.zero_add _) (by omega) ?_ ?_)
    · intro hk hsz
      obtain ⟨h1, h2⟩ := List.getElem?_eq_some_iff.mp (hoc hk hsz)
      have hmem : oc ∈ oldcs := h2 ▸ List.getElem_mem h1
      have hv : validCluster v.geo oc = true := ((hold hk).chain (by omega)).1.valid hmem
      refine ⟨?_, hv, fun e => hdisj c' List.mem_cons_self (e ▸ hmem), hm oc hmem⟩
      rw [List.getD_eq_getElem?_getD, hoc hk hsz]
      rfl
    · rw [← List.range_eq_range', hp]
      set ws := sectorWrites v.geo (fileContent v.geo m oldcs old.node.size size offset patch keep) c'
        (idx * v.geo.clusterBytes) (List.range v.geo.perCluster) with hws
      have hwc : ∀ w ∈ ws, w ∈ contentWrites v.geo
          (fileContent v.geo m oldcs old.node.size size offset patch keep) [c'] (idx * v.geo.clusterBytes) := by
        intro w hw
        simpa [contentWrites] using hw
      have e1 : idx * v.geo.clusterBytes + v.geo.clusterBytes = (idx + 1) * v.geo.clusterBytes := by
        rw [Nat.succ_mul]
      rw [e1]
      refine ih (v := v.writes ws) (idx + 1) hro ?_ (by simp at hlen ⊢; omega) (by simpa using hfuel) hold
        (fun x hx => hdisj x (List.mem_cons_of_mem _ hx)) ?_ hov ?_ ?_
      · intro d tl e
        subst e
        cases hch with
        | link _ _ h' => exact h'
      · intro x hx a ha ha'
        show applyWrites v.medium ws a = m a
        rw [contentWrites_other hwc, hm x hx a ha ha']
        intro y hy hin
        obtain rfl : y = c' := by simpa using hy
        have hxv := hov x hx
        exact hdisj y List.mem_cons_self (cluster_unique hxv hcv ha ha' hin.1 hin.2 ▸ hx)
      · intro hk hsz
        have hsz' : (idx + 1) * v.geo.clusterBytes < old.node.size := hsz
        obtain ⟨hoch, holen⟩ := (hold hk).chain (by omega)
        have hlt' : idx + 1 < oldcs.length := by
          rw [holen]
          exact lt_clustersFor.mpr hsz'
        have hcur := hoc hk (by omega)
        rw [List.getElem?_eq_getElem (by omega)] at hcur
        rw [if_pos ⟨hk, by rw [(hold hk).length]; exact hlt'⟩, ← Option.some.inj hcur,
          Chain.next_getElem hoch hlt', List.getElem?_eq_getElem hlt']
      · rw [Vol.writes_writes]
        show Q (.ok ()) (v.writes (ws ++ contentWrites v.geo
          (fileContent v.geo m oldcs old.node.size size offset patch keep) cs ((idx + 1) * v.geo.clusterBytes)))
        rw [← e1]
        exact hQ

/-- **`copy_contents`** fills the new chain `cs` with the file's new contents. -/
theorem copyContents_runs {first : Nat}
    (hro : v.device.readOnly = false) (hchain : ∀ c' tl, cs = c' :: tl → IsChain v.geo fat first cs)
    (hlen : cs.length = clustersFor v.geo size) (hold : keep = true → OldFile v.geo v.fat old oldcs)
    (hdisj : ∀ c ∈ cs, c ∉ oldcs) (hov : ∀ c ∈ oldcs, validCluster v.geo c = true)
    (hQ : Q (.ok ()) (v.writes (contentWrites v.geo
      (fileContent v.geo v.medium oldcs old.node.size size offset patch keep) cs 0))) :
    Runs v (copyContents old fat first size offset patch keep) Q := by
  have hb := v.geo.clusterBytes_ge
  have hsize : cs.length ≤ size := by
    rw [hlen, clustersFor_le]
    exact Nat.le_mul_of_pos_right _ (by omega)
  unfold copyContents
  refine copyLoop_runs 0 hro (Nat.zero_mul _).symm hchain (by omega) hsize hold hdisj
    (fun _ _ _ _ _ => rfl) hov ?_ ?_
  · intro hk hsz
    obtain ⟨hoch, -⟩ := (hold hk).chain (by omega)
    obtain ⟨tl, rfl⟩ := Chain.head_eq hoch
    simp [hk]
  · rw [Nat.zero_mul]
    exact hQ

end RumKernel.Fat16
