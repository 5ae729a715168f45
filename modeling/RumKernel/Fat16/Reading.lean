import RumKernel.Fat16.Codec
import RumKernel.Fat16.Refinement

/-!
# Reading a file

`read_file` walks the sectors of a file with a position and a cluster that advance at different boundaries, through
the one-sector cache. Over a device with any answers it returns the requested bytes, or those of the sectors before
the one that could not be read.
-/

namespace RumKernel.Fat16
open Lib Fs Prog

variable {amount cb j : Nat}

def World.image (w : World) : Image := ⟨w.geo, w.fat, w.medium⟩

@[simp] lemma World.image_geo {w : World} : w.image.geo = w.geo := rfl

variable {w w' : World} {x : Image} {cs : List Nat} {first n k start offset bytes cluster : Nat} {done : List Byte}
  {d : Description}

lemma Looked.image (h : Looked w w') : w'.image = w.image := by
  have hv := h.vol
  unfold World.image
  rw [show w'.geo = w.geo from congrArg Vol.geo hv, show w'.fat = w.fat from congrArg Vol.fat hv,
    show w'.medium = w.medium from congrArg Vol.medium hv]

/-! ## One sector -/

/-- A request for a sector has just failed with an error. -/
structure SectorFailed (w w' : World) (e : FsError) : Prop where
  cache : w'.cacheValid = false
  clock : 0 < w'.clock
  code : (w.oracle (w'.clock - 1)).code 1 = some e

/-- What `fat16_sector` can do on a coherent cache. -/
inductive SectorRead (w : World) (n : Nat) : Except FsError Unit × World → Prop where
  | ok {w' : World} : Looked w w' → w'.sector = block w.medium n → SectorRead w n (.ok (), w')
  | failed {w' : World} {e : FsError} : Looked w w' → SectorFailed w w' e → SectorRead w n (.error e, w')

lemma fat16Sector_cases (hc : Coherent w) (hn : n < w.geo.sectors) : SectorRead w n ((fat16Sector n).run w) := by
  have hl : Looked w ((fat16Sector n).run w).2 := Looks.fat16Sector w
  by_cases hv : w.cacheValid = true ∧ n = w.cachedSector
  · have e : (fat16Sector n).run w = (.ok (), w) := by
      simp only [fat16Sector, bind_run, get_run, hv]
      rfl
    rw [e] at hl ⊢
    refine .ok hl ?_
    rw [hv.2]
    exact hc hv.1
  · have hr : ¬(n ≥ w.geo.sectors ∨ 1 > w.geo.sectors - n) := by omega
    revert hl
    simp only [fat16Sector, readSectors, bind_run, get_run, hv, hr, if_false, modify_run, nextOutcome]
    cases hcode : (w.oracle w.clock).code 1 with
    | some e => exact fun hl => .failed hl ⟨rfl, Nat.succ_pos _, hcode⟩
    | none =>
      refine fun hl => .ok hl ?_
      simp only [if_true]
      rw [Nat.one_mul]
      rfl

lemma fat16Sector_asks (h : w.cacheValid = false) (hn : n < w.geo.sectors) :
    ((fat16Sector n).run w).2.clock = w.clock + 1 := by
  have hv : ¬(w.cacheValid = true ∧ n = w.cachedSector) := by simp [h]
  have hr : ¬(n ≥ w.geo.sectors ∨ 1 > w.geo.sectors - n) := by omega
  simp only [fat16Sector, readSectors, bind_run, get_run, hv, hr, if_false, modify_run, nextOutcome]
  cases (w.oracle w.clock).code 1 <;> rfl

/-- Sectors are asked for one after the other through the cache: all of them are there, or the last one fails. -/
inductive Fetched : World → List Nat → Option FsError → World → Prop where
  | nil {w : World} : Fetched w [] none w
  | cons {w w1 w' : World} {n : Nat} {l : List Nat} {error : Option FsError} :
    (fat16Sector n).run w = (.ok (), w1) → Fetched w1 l error w' → Fetched w (n :: l) error w'
  | failed {w w' : World} {n : Nat} {e : FsError} :
    (fat16Sector n).run w = (.error e, w') → Fetched w [n] (some e) w'

/-! ## The loop -/

/-- The byte at a position of the chain `cs`. -/
def chainByte (x : Image) (cs : List Nat) (k : Nat) : Byte :=
  x.medium (clusterBase x.geo (cs.getD (k / x.geo.clusterBytes) 0) + k % x.geo.clusterBytes)

/-- The sector that holds a position of the chain `cs`. -/
def chainSector (x : Image) (cs : List Nat) (k : Nat) : Nat :=
  clusterSector x.geo (cs.getD (k / x.geo.clusterBytes) 0) + k % x.geo.clusterBytes / 512

/-- The sectors that hold `n` bytes of the chain `cs`, in order. -/
def chainSectors (x : Image) (cs : List Nat) (offset n : Nat) : List Nat :=
  ((List.range' offset n).filter fun k => k = offset ∨ k % 512 = 0).map (chainSector x cs)

lemma chainSectors_one : chainSectors x cs offset 1 = [chainSector x cs offset] := by simp [chainSectors]

/-- The bytes of the first sector, and those of the sectors behind it. -/
lemma chainSectors_add (ha : 0 < amount) (hle : amount ≤ 512 - offset % 512)
    (hn : n = 0 ∨ (offset + amount) % 512 = 0) :
    chainSectors x cs offset (amount + n) = chainSector x cs offset :: chainSectors x cs (offset + amount) n := by
  obtain ⟨a, rfl⟩ : ∃ a, amount = a + 1 := ⟨amount - 1, by omega⟩
  have hfirst : (List.range' (offset + 1) a).filter (fun k => k = offset ∨ k % 512 = 0) = [] := by
    rw [List.filter_eq_nil_iff]
    intro k hk
    rw [List.mem_range'_1] at hk
    simp only [decide_eq_true_eq]
    omega
  have hrest : (List.range' (offset + (a + 1)) n).filter (fun k => k = offset ∨ k % 512 = 0) =
      (List.range' (offset + (a + 1)) n).filter fun k => k = offset + (a + 1) ∨ k % 512 = 0 := by
    refine List.filter_congr fun k hk => ?_
    rw [List.mem_range'_1] at hk
    simp only [decide_eq_decide]
    omega
  unfold chainSectors
  rw [← List.range'_append_1, List.filter_append, hrest, List.range'_succ, List.filter_cons_of_pos (by simp), hfirst]
  rfl

/-- How a read from `start` of `bytes` bytes of a chain ends. -/
structure ReadEnd (w : World) (cs : List Nat) (start bytes : Nat) (r : Option FsError × List Byte) (w' : World) :
    Prop where
  looked : Looked w w'
  data : r.2 = (List.range r.2.length).map fun j => chainByte w.image cs (start + j)
  le : r.2.length ≤ bytes
  complete : r.1 = none → r.2.length = bytes
  failed : ∀ e, r.1 = some e → r.2.length < bytes ∧ (r.2 = [] ∨ (start + r.2.length) % 512 = 0) ∧ SectorFailed w w' e

lemma clusterAt_succ {fat : Mem} {c i : Nat} : clusterAt fat c (i + 1) = nextCluster fat (clusterAt fat c i) := by
  induction i generalizing c with
  | zero => rfl
  | succ i ih => rw [clusterAt, ih, clusterAt]

lemma chainSector_lt (hc : IsChain x.geo x.fat first cs) (hk : k / x.geo.clusterBytes < cs.length) :
    chainSector x cs k < x.geo.sectors := by
  unfold chainSector
  rw [List.getD_eq_getElem _ _ hk]
  refine (clusterSector_bounds (hc.valid (List.getElem_mem hk)) ?_).2
  have h1 := x.geo.perCluster_mul
  have h2 := x.geo.clusterBytes_ge
  have h3 := Nat.mod_lt k (show 0 < x.geo.clusterBytes by omega)
  omega

lemma position_add (hcb : cb % 512 = 0) (hpos : 0 < cb) (hj : offset % cb % 512 + j < 512) :
    (offset + j) / cb = offset / cb ∧ (offset + j) % cb = offset % cb + j := by
  have hlt := Nat.mod_lt offset hpos
  have hdvd : cb = cb / 512 * 512 := by omega
  have hbound : offset % cb + j < cb := by
    have : offset % cb / 512 < cb / 512 := by
      rw [Nat.div_lt_iff_lt_mul (by omega), ← hdvd]
      exact hlt
    omega
  have hsum : offset + j = cb * (offset / cb) + (offset % cb + j) := by
    have := Nat.div_add_mod offset cb
    omega
  constructor
  · rw [hsum, Nat.mul_add_div hpos, Nat.div_eq_of_lt hbound, Nat.add_zero]
  · rw [hsum, Nat.mul_add_mod, Nat.mod_eq_of_lt hbound]

lemma block_chainByte (hj : offset % x.geo.clusterBytes % 512 + j < 512) :
    block x.medium (chainSector x cs offset) (offset % x.geo.clusterBytes % 512 + j) = chainByte x cs (offset + j) := by
  have hge := x.geo.clusterBytes_ge
  obtain ⟨hdiv, hmod⟩ := position_add x.geo.clusterBytes_mod (show 0 < x.geo.clusterBytes by omega) hj
  unfold chainByte
  rw [block_apply hj, hdiv, hmod]
  refine congrArg x.medium ?_
  unfold chainSector clusterBase
  omega

variable (offset) in
lemma position_next (hcb : cb % 512 = 0) (hpos : 0 < cb) (ha : 0 < amount)
    (hle : amount ≤ 512 - offset % cb % 512) :
    (offset + amount) / cb = if (offset + amount) % cb = 0 then offset / cb + 1 else offset / cb := by
  obtain ⟨hdiv, -⟩ := position_add hcb hpos (show offset % cb % 512 + (amount - 1) < 512 by omega)
  have hlast : offset + amount = offset + (amount - 1) + 1 := by omega
  rw [hlast, Nat.succ_div, hdiv]
  by_cases h0 : (offset + (amount - 1) + 1) % cb = 0
  · rw [if_pos h0, if_pos (Nat.dvd_of_mod_eq_zero h0)]
  · rw [if_neg h0, if_neg (mt Nat.mod_eq_zero_of_dvd h0), Nat.add_zero]

variable (offset) in
lemma mod_512 (hcb : cb % 512 = 0) : offset % cb % 512 = offset % 512 :=
  Nat.mod_mod_of_dvd offset (Nat.dvd_of_mod_eq_zero hcb)

lemma chainBytes_append (f : Nat → Byte)
    (hdone : done = (List.range done.length).map fun j => chainByte x cs (start + j))
    (hf : ∀ j < amount, f j = chainByte x cs (start + done.length + j)) :
    done ++ (List.range amount).map f =
      (List.range (done.length + amount)).map fun j => chainByte x cs (start + j) := by
  rw [List.range_add, List.map_append, ← hdone, List.map_map]
  refine congrArg (done ++ ·) (List.map_congr_left fun j hj => ?_)
  rw [hf j (List.mem_range.mp hj), Function.comp_apply, Nat.add_assoc]

/-- Nothing is left to copy. -/
lemma readEnd_none (hdone : done = (List.range done.length).map fun j => chainByte w.image cs (start + j))
    (hle : done.length ≤ bytes) (hd : bytes ≤ done.length) : ReadEnd w cs start bytes (none, done) w ∧
      Fetched w (chainSectors w.image cs offset (done.length + 0 - done.length)) none w := by
  rw [Nat.add_sub_cancel_left]
  exact ⟨⟨refl_of Looked w, hdone, hle, fun _ => Nat.le_antisymm hle hd, fun e he => by cases he⟩, .nil⟩

/-- **The loop of `read_file`.** It asks for the sectors of the bytes it copies, and for the one that fails. -/
lemma readLoop_ends {fuel : Nat} (hw : Coherent w) (hc : IsChain w.geo w.fat first cs)
    (hsize : start + bytes ≤ cs.length * w.geo.clusterBytes) (hfuel : bytes ≤ done.length + fuel)
    (hoff : offset = start + done.length)
    (hdone : done = (List.range done.length).map fun j => chainByte w.image cs (start + j)) (hle : done.length ≤ bytes)
    (halign : done = [] ∨ offset % 512 = 0 ∨ done.length = bytes)
    (hcluster : done.length < bytes → cluster = clusterAt w.fat first (offset / w.geo.clusterBytes)) :
    ∃ r w', (readLoop bytes fuel cluster offset done).run w = (.ok r, w') ∧ done.length ≤ r.2.length ∧
      ReadEnd w cs start bytes r w' ∧
      Fetched w (chainSectors w.image cs offset (r.2.length + r.1.toList.length - done.length)) r.1 w' := by
  induction fuel generalizing w cluster offset done with
  | zero => exact ⟨(none, done), w, rfl, Nat.le_refl _, readEnd_none hdone hle hfuel⟩
  | succ fuel ih =>
    by_cases hd : done.length ≥ bytes
    · refine ⟨(none, done), w, ?_, Nat.le_refl _, readEnd_none hdone hle hd⟩
      rw [readLoop, if_pos hd]
      rfl
    have hlt : done.length < bytes := Nat.not_le.mp hd
    have hcl := hcluster hlt
    have hpos : 0 < w.geo.clusterBytes := Nat.lt_of_lt_of_le (by omega) w.geo.clusterBytes_ge
    have hindex : offset / w.geo.clusterBytes < cs.length := by
      rw [Nat.div_lt_iff_lt_mul hpos]
      omega
    have hsector : clusterSector w.geo cluster + offset % w.geo.clusterBytes / 512 = chainSector w.image cs offset := by
      unfold chainSector
      rw [World.image_geo, hcl, clusterAt_eq hc hindex, List.getD_eq_getElem cs 0 hindex]
    have hin : chainSector w.image cs offset < w.geo.sectors := chainSector_lt (x := w.image) hc hindex
    have hread := fat16Sector_cases hw hin
    rw [readLoop, if_neg hd]
    simp only [bind_run, get_run, attempt_run, hsector]
    generalize hout : (fat16Sector (chainSector w.image cs offset)).run w = out at hread ⊢
    cases hread with
    | @failed w1 e hl hfail =>
      refine ⟨(some e, done), w1, rfl, Nat.le_refl _, ⟨hl, hdone, hle, nofun, fun e' he => ?_⟩, ?_⟩
      · cases he
        refine ⟨hlt, ?_, hfail⟩
        rcases halign with h | h | h
        · exact .inl h
        · exact .inr (hoff ▸ h)
        · omega
      · dsimp only [Option.toList_some, List.length_singleton]
        rw [Nat.add_sub_cancel_left, chainSectors_one]
        exact .failed hout
    | @ok w1 hl hs =>
      have himage := hl.image
      have hgeo : w1.geo = w.geo := congrArg Image.geo himage
      have hfat : w1.fat = w.fat := congrArg Image.fat himage
      simp only [bind_run, get_run, hgeo, hfat]
      have hmod := mod_512 offset w.geo.clusterBytes_mod
      generalize hamount : min (512 - offset % w.geo.clusterBytes % 512) (bytes - done.length) = amount
      have hamount0 : 0 < amount := by omega
      have hbytes : ∀ j < amount, w1.sector (offset % w.geo.clusterBytes % 512 + j) =
          chainByte w.image cs (start + done.length + j) := by
        intro j hj
        rw [hs, ← hoff]
        exact block_chainByte (x := w.image) (show offset % w.geo.clusterBytes % 512 + j < 512 by omega)
      have hext := chainBytes_append _ hdone hbytes
      have hlen : (done ++ (List.range amount).map fun j => w1.sector (offset % w.geo.clusterBytes % 512 + j)).length =
          done.length + amount := by simp
      generalize (done ++ (List.range amount).map fun j => w1.sector (offset % w.geo.clusterBytes % 512 + j)) = done'
        at hext hlen ⊢
      rw [← hlen] at hext
      have halign' : done' = [] ∨ (offset + amount) % 512 = 0 ∨ done'.length = bytes := by
        by_cases hfull : done'.length = bytes
        · exact .inr (.inr hfull)
        · exact .inr (.inl (by omega))
      have hcluster' : done'.length < bytes →
          (if (offset + amount) % w.geo.clusterBytes = 0 ∧ done'.length < bytes then nextCluster w.fat cluster
            else cluster) = clusterAt w1.fat first ((offset + amount) / w1.geo.clusterBytes) := by
        intro hlt'
        rw [hgeo, hfat, position_next offset w.geo.clusterBytes_mod hpos hamount0 (by omega), hcl]
        by_cases h0 : (offset + amount) % w.geo.clusterBytes = 0
        · rw [if_pos ⟨h0, hlt'⟩, if_pos h0, clusterAt_succ]
        · rw [if_neg fun h => h0 h.1, if_neg h0]
      obtain ⟨r, w2, hrun, hmore, hend, hfetch⟩ :=
        ih (hl.coherent hw) (hgeo ▸ hfat ▸ hc) (hgeo ▸ hsize) (by omega) (by omega)
        (himage ▸ hext) (by omega) halign' hcluster'
      refine ⟨r, w2, hrun, by omega, ⟨trans_of Looked hl hend.looked, ?_, hend.le, hend.complete, fun e he => ?_⟩, ?_⟩
      · have hdata := hend.data
        rw [himage] at hdata
        exact hdata
      · obtain ⟨hshort, haligned, hfail⟩ := hend.failed e he
        exact ⟨hshort, haligned, hfail.cache, hfail.clock, hl.oracle ▸ hfail.code⟩
      · have hrest : r.2.length + r.1.toList.length - done'.length = 0 ∨ (offset + amount) % 512 = 0 := by
          rcases halign' with h | h | h
          · rw [h] at hlen
            simp only [List.length_nil] at hlen
            omega
          · exact .inr h
          · refine .inl ?_
            have hbytes := hend.le
            cases he : r.1 with
            | none => simp only [Option.toList_none, List.length_nil]; omega
            | some e => exact absurd (hend.failed e he).1 (by omega)
        rw [show r.2.length + r.1.toList.length - done.length =
          amount + (r.2.length + r.1.toList.length - done'.length) by omega,
          chainSectors_add hamount0 (by omega) hrest]
        rw [himage] at hfetch
        exact .cons hout hfetch

/-! ## The description -/

variable {e : Entry} {id a : Nat} {name : Name}

lemma slice_block_entry : slice (block x.medium (slotBase id / 512)) (slotBase id % 512) 32 = x.entry id := by
  have hb : slotBase id % 512 + 32 ≤ 512 := by
    unfold slotBase
    omega
  unfold block Image.entry
  rw [slice_slice hb]
  congr 1
  omega

lemma entryRead_cases (hw : Coherent w) (ha : slotOffset w.geo id = some a) :
    (∃ w', (entryRead id).run w = (.ok (w.image.entry id), w') ∧ Looked w w' ∧
      (fat16Sector (slotBase id / 512)).run w = (.ok (), w')) ∨
    ∃ e w', (entryRead id).run w = (.error e, w') ∧ Looked w w' ∧ SectorFailed w w' e ∧
      (fat16Sector (slotBase id / 512)).run w = (.error e, w') := by
  obtain ⟨rfl, -, -, hlt⟩ := slotOffset_bounds ha
  have hread := fat16Sector_cases hw hlt
  have hentry : (entryRead id).run w = match (fat16Sector (slotBase id / 512)).run w with
      | (.ok _, w1) => (.ok (slice w1.sector (slotBase id % 512) 32), w1)
      | (.error e, w1) => (.error e, w1) := by
    unfold entryRead
    simp only [bind_run, get_run, ha]
    rcases (fat16Sector (slotBase id / 512)).run w with ⟨r, w1⟩
    cases r <;> rfl
  rw [hentry]
  generalize (fat16Sector (slotBase id / 512)).run w = out at hread ⊢
  cases hread with
  | @failed w1 e hl hfail => exact .inr ⟨e, w1, rfl, hl, hfail, rfl⟩
  | @ok w1 hl hs =>
    refine .inl ⟨w1, ?_, hl, rfl⟩
    dsimp only
    rw [hs]
    exact congrArg (fun e => (Except.ok e, w1)) (slice_block_entry (x := w.image))

lemma describe_run (hr : w.ready = true) (hf : w.faulted = false) (hne : id ≠ rootId) :
    (describe id).run w = match (entryRead id).run w with
      | (.ok e, w1) => (match decode w1.geo w1.fat e id with
        | .error .end => (.error .notFound, w1)
        | .error r => (.error r, w1)
        | .ok (d, _) => (.ok d, w1))
      | (.error e, w1) => (.error e, w1) := by
  unfold describe
  simp only [bind_run, get_run, hr, hf, hne, Bool.not_true, Bool.false_eq_true, if_false]
  rcases (entryRead id).run w with ⟨r, w1⟩
  cases r with
  | error e => rfl
  | ok e =>
    dsimp only
    cases decode w1.geo w1.fat e id with
    | error r => cases r <;> rfl
    | ok p => rfl

lemma describe_cases (hw : Coherent w) (hr : w.ready = true) (hf : w.faulted = false)
    (ha : slotOffset w.geo id = some a) (hd : decode w.geo w.fat (w.image.entry id) id = .ok (d, name)) :
    (∃ w', (describe id).run w = (.ok d, w') ∧ Looked w w' ∧
      (fat16Sector (slotBase id / 512)).run w = (.ok (), w')) ∨
    ∃ e w', (describe id).run w = (.error e, w') ∧ Looked w w' ∧ SectorFailed w w' e ∧
      (fat16Sector (slotBase id / 512)).run w = (.error e, w') := by
  have h2 := (slotOffset_bounds ha).2.1
  rw [describe_run hr hf (by unfold rootId; omega)]
  rcases entryRead_cases hw ha with ⟨w1, hread, hl, hsector⟩ | ⟨e, w1, hread, hl, hfail, hsector⟩
  · have hgeo : w1.geo = w.geo := congrArg Image.geo hl.image
    have hfat : w1.fat = w.fat := congrArg Image.fat hl.image
    refine .inl ⟨w1, ?_, hl, hsector⟩
    rw [hread]
    dsimp only
    rw [hgeo, hfat, hd]
  · rw [hread]
    exact .inr ⟨e, w1, rfl, hl, hfail, hsector⟩

/-! ## `read_file` -/

variable {w1 w2 : World} {error : Option FsError} {data : List Byte} {r : FsError}

variable (offset bytes) in
lemma readFile_undescribed (h : (describe id).run { w with lastIo := {} } = (.error r, w1)) :
    ∃ result, (readFile id offset bytes).run w = (.ok (result, []), w1) ∧ result.error = some r ∧
      result.transferred = 0 := by
  simp only [readFile, bind_run, modify_run, attempt_run, h]
  exact ⟨_, rfl, rfl, rfl⟩

variable (bytes) in
lemma readFile_past (h : (describe id).run { w with lastIo := {} } = (.ok d, w1)) (hk : d.node.kind = .file)
    (ho : offset ≥ d.node.size) :
    ∃ result, (readFile id offset bytes).run w = (.ok (result, []), w1) ∧ result.error = none ∧
      result.transferred = 0 := by
  simp only [readFile, bind_run, modify_run, attempt_run, h]
  simp only [hk, ho]
  exact ⟨_, rfl, rfl, rfl⟩

lemma readFile_inside (h : (describe id).run { w with lastIo := {} } = (.ok d, w1)) (hk : d.node.kind = .file)
    (ho : ¬offset ≥ d.node.size)
    (hl : (readLoop (min bytes (d.node.size - offset)) (min bytes (d.node.size - offset))
      (clusterAt w1.fat d.first (offset / w1.geo.clusterBytes)) offset []).run w1 = (.ok (error, data), w2)) :
    ∃ result, (readFile id offset bytes).run w = (.ok (result, data), w2) ∧ result.error = error ∧
      result.transferred = data.length := by
  simp only [readFile, bind_run, modify_run, attempt_run, h]
  simp only [hk, ho, if_false, ne_eq, not_true_eq_false, bind_run, get_run, hl]
  cases error with
  | none => exact ⟨_, rfl, rfl, rfl⟩
  | some r => exact ⟨_, rfl, rfl, rfl⟩

lemma chainBytes_eq (hh : x.Holds e cs) (hk : entryKind e = .file) (hle : offset + n ≤ entrySize e) :
    ((List.range n).map fun j => chainByte x cs (offset + j)) = ((x.bytes e).drop offset).take n := by
  have hb := hh.bytes_eq hk
  refine List.ext_getElem ?_ fun j h1 h2 => ?_
  · rw [List.length_map, List.length_range, List.length_take, List.length_drop, Image.bytes_length]
    omega
  · rw [List.getElem_map, List.getElem_range, List.getElem_take, List.getElem_drop, List.getElem_of_eq hb,
      List.getElem_map, List.getElem_range]
    rfl

/-- How a read of a part of a file ends, over any device. -/
structure FileRead (w w' : World) (e : Entry) (offset bytes : Nat) (error : Option FsError) (data : List Byte) :
    Prop where
  looked : Looked w w'
  le : data.length ≤ min bytes (entrySize e - offset)
  slice : data = ((w.image.bytes e).drop offset).take data.length
  complete : error = none → data.length = min bytes (entrySize e - offset)
  failed : ∀ r, error = some r → SectorFailed w w' r ∧ (data = [] ∨ (offset + data.length) % 512 = 0)

variable (bytes) in
lemma readLoop_file (hl : Looked w w1) (hw : Coherent w) (hh : w.image.Holds e cs) (hk : entryKind e = .file)
    (ho : offset < entrySize e) : ∃ error data w2,
    (readLoop (min bytes (entrySize e - offset)) (min bytes (entrySize e - offset))
      (clusterAt w1.fat (entryFirst e) (offset / w1.geo.clusterBytes)) offset []).run w1 = (.ok (error, data), w2) ∧
      FileRead w w2 e offset bytes error data ∧
      Fetched w1 (chainSectors w.image cs offset (data.length + error.toList.length)) error w2 := by
  cases hh with
  | empty _ hz => omega
  | directory hk' => rw [hk] at hk'; cases hk'
  | file hfile hz hc hlen =>
    have hh : w.image.Holds e cs := .file hfile hz hc hlen
    have himage := hl.image
    have hgeo : w1.geo = w.geo := congrArg Image.geo himage
    have hfat : w1.fat = w.fat := congrArg Image.fat himage
    have hc' : IsChain w1.geo w1.fat (entryFirst e) cs := hgeo ▸ hfat ▸ hc
    have hsize : entrySize e ≤ cs.length * w1.geo.clusterBytes := by
      rw [hgeo]
      exact clustersFor_le.mp (Nat.le_of_eq hlen.symm)
    generalize hm : min bytes (entrySize e - offset) = m
    obtain ⟨⟨error, data⟩, w2, hrun, -, hend, hfetch⟩ : ∃ r w2, (readLoop m m
        (clusterAt w1.fat (entryFirst e) (offset / w1.geo.clusterBytes)) offset []).run w1 = (.ok r, w2) ∧
        0 ≤ r.2.length ∧ ReadEnd w1 cs offset m r w2 ∧
        Fetched w1 (chainSectors w1.image cs offset (r.2.length + r.1.toList.length)) r.1 w2 :=
      readLoop_ends (hl.coherent hw) hc' (by omega) (Nat.le_add_left _ _) rfl rfl (Nat.zero_le _)
        (.inl rfl) fun _ => rfl
    rw [← hm] at hend
    rw [himage] at hfetch
    refine ⟨error, data, w2, hrun, ⟨trans_of Looked hl hend.looked, hend.le, ?_, hend.complete, fun r hr => ?_⟩, hfetch⟩
    · have hdata := hend.data
      rw [himage] at hdata
      have hle := hend.le
      dsimp only at hle hdata
      exact hdata.trans (chainBytes_eq hh hk (by omega))
    · obtain ⟨-, halign, hfail⟩ := hend.failed r hr
      exact ⟨⟨hfail.cache, hfail.clock, hl.oracle ▸ hfail.code⟩, halign⟩

/-- The sector of the slot is asked for, and then the sectors of the bytes of a chain that are copied, with the one that
fails; if the first one fails, nothing is copied. -/
def ReadAsks (w w' : World) (id : Nat) (cs : List Nat) (offset : Nat) (error : Option FsError) (data : List Byte) :
    Prop :=
  Fetched w (slotBase id / 512 :: chainSectors w.image cs offset (data.length + error.toList.length)) error w' ∨
    data = [] ∧ error ≠ none ∧ Fetched w [slotBase id / 512] error w'

/-- `read_file` on the slot of a file, over any device. -/
lemma readFile_reads (hw : Coherent w) (hr : w.ready = true) (hf : w.faulted = false)
    (ha : slotOffset w.geo id = some a) (hd : decode w.geo w.fat (w.image.entry id) id = .ok (d, name))
    (hk : d.node.kind = .file) (offset bytes : Nat) :
    d.node.size = entrySize (w.image.entry id) ∧ ∃ cs result data w', w.image.Holds (w.image.entry id) cs ∧
      (readFile id offset bytes).run w = (.ok (result, data), w') ∧ result.transferred = data.length ∧
      FileRead w w' (w.image.entry id) offset bytes result.error data ∧
      ReadAsks { w with lastIo := {} } w' id cs offset result.error data := by
  obtain ⟨cs, hh, rfl, -⟩ := decode_holds (x := w.image) hd
  refine ⟨rfl, cs, ?_⟩
  have hl0 : Looked w { w with lastIo := {} } := ⟨rfl, rfl, fun h => h⟩
  rcases @describe_cases { w with lastIo := {} } _ _ _ _ hw hr hf ha hd with
    ⟨w1, hdesc, hl, hsector⟩ | ⟨r, w1, hdesc, hl, hfail, hsector⟩
  · have hl1 := trans_of Looked hl0 hl
    by_cases ho : offset ≥ entrySize (w.image.entry id)
    · obtain ⟨result, hrun, herr, htr⟩ := readFile_past bytes hdesc hk ho
      refine ⟨result, [], w1, hh, hrun, htr, ⟨hl1, Nat.zero_le _, rfl, fun _ => ?_, fun r hr' => ?_⟩, .inl ?_⟩
      · simp only [List.length_nil]
        omega
      · rw [herr] at hr'
        cases hr'
      · rw [herr]
        exact .cons hsector .nil
    · obtain ⟨error, data, w2, hloop, hread, hfetch⟩ := readLoop_file bytes hl1 hw hh hk (Nat.not_le.mp ho)
      obtain ⟨result, hrun, rfl, htr⟩ := readFile_inside hdesc hk ho hloop
      exact ⟨result, data, w2, hh, hrun, htr, hread, .inl (.cons hsector hfetch)⟩
  · obtain ⟨result, hrun, herr, htr⟩ := readFile_undescribed offset bytes hdesc
    refine ⟨result, [], w1, hh, hrun, htr, ⟨trans_of Looked hl0 hl, Nat.zero_le _, rfl, fun h => ?_, fun r' hr' => ?_⟩,
      .inr ⟨rfl, ?_⟩⟩
    · rw [herr] at h
      cases h
    · rw [herr] at hr'
      cases hr'
      exact ⟨⟨hfail.cache, hfail.clock, hfail.code⟩, .inl rfl⟩
    · rw [herr]
      exact ⟨by simp, .failed hsector⟩

/-- **Reads return exactly the file's bytes.** On the slot of a file, over any device and with a coherent cache,
`read_file` changes nothing but the cache and stores a prefix of the requested part of the file. Without an error this
is all of it. It asks for the sector of the slot and then, in the order of the chain, for the sectors of the bytes it
stores; it stops at the first one that fails, whose error it returns, and stores all the bytes before that sector. The
cache is then invalid, so that every sector is asked for again. A healthy device gives no error. -/
theorem readFile_exact {w : World} {id a : Nat} {d : Description} {name : Name} (hw : Coherent w)
    (hr : w.ready = true) (hf : w.faulted = false) (ha : slotOffset w.geo id = some a)
    (hd : decode w.geo w.fat (w.image.entry id) id = .ok (d, name)) (hk : d.node.kind = .file) (offset bytes : Nat) :
    ∃ cs result data w', w.image.Holds (w.image.entry id) cs ∧
      (readFile id offset bytes).run w = (.ok (result, data), w') ∧ Looked w w' ∧ Coherent w' ∧
      result.transferred = data.length ∧ data.length ≤ min bytes (d.node.size - offset) ∧
      data = ((w.image.bytes (w.image.entry id)).drop offset).take data.length ∧
      (result.error = none → result.transferred = min bytes (d.node.size - offset) ∧
        data = ((w.image.bytes (w.image.entry id)).drop offset).take bytes) ∧
      (∀ e, result.error = some e → SectorFailed w w' e ∧ (data = [] ∨ (offset + data.length) % 512 = 0) ∧
        ∀ n < w.geo.sectors, ((fat16Sector n).run w').2.clock = w'.clock + 1) ∧
      ReadAsks { w with lastIo := {} } w' id cs offset result.error data ∧ (Healthy w → result.error = none) := by
  obtain ⟨hsize, cs, result, data, w', hh, hrun, htransferred, hread, hasks⟩ :=
    readFile_reads hw hr hf ha hd hk offset bytes
  rw [hsize]
  refine ⟨cs, result, data, w', hh, hrun, hread.looked, hread.looked.coherent hw, htransferred, hread.le, hread.slice,
    fun h => ?_, fun r h => ?_, hasks, fun h => ?_⟩
  · have hlen := hread.complete h
    refine ⟨htransferred.trans hlen, hread.slice.trans ?_⟩
    have hb : (w.image.bytes (w.image.entry id)).length = entrySize (w.image.entry id) := Image.bytes_length
    rw [hlen, ← hb, ← List.length_drop, Nat.min_comm, ← List.take_take]
    exact List.take_of_length_le (List.length_take_le' _ _)
  · obtain ⟨hfail, halign⟩ := hread.failed r h
    refine ⟨hfail, halign, fun n hn => fat16Sector_asks hfail.cache ?_⟩
    rw [show w'.geo = w.geo from congrArg Image.geo hread.looked.image]
    exact hn
  · cases herr : result.error with
    | none => rfl
    | some r =>
      have hcode := (hread.failed r herr).1.code
      rw [Outcome.code_none (h _).1 (h _).2] at hcode
      cases hcode

/-- The table of a volume with the chain of the clusters 2 and 3. -/
def oneFileTable : Mem := fun j => if j = 4 then 3 else if j = 6 ∨ j = 7 then 255 else 0

/-- A medium with the file `A` of 600 bytes in the first slot of the root. -/
def oneFileMedium : Mem := fun j =>
  if j = 16896 then 65 else if j < 16896 then 0 else if j < 16907 then 32 else if j = 16907 then 0x20
  else if j = 16922 then 2 else if j = 16924 then 88 else if j = 16925 then 2 else if j < 17408 then 0 else 7

/-- A device that does not give the sector it is asked for third. -/
def tornWorld : World :=
  { smallWorld oneFileTable oneFileMedium with oracle := fun n => { error := if n = 2 then .ioError else .ok } }

lemma tornWorld_reads : ((readFile 530 500 50).run tornWorld).1.map (fun p => (p.1.error, p.2.length)) =
    .ok (some .ioError, 12) := by
  decide +kernel

/-- The file is read around the end of its first sector: the bytes of the first sector are there, the second one fails.
-/
theorem readFile_exact_torn :
    decode smallGeometry oneFileTable (tornWorld.image.entry 530) 530 = .ok (⟨⟨530, 600, .file⟩, 2, 2⟩, [65]) ∧
    ∃ cs result data w', (readFile 530 500 50).run tornWorld = (.ok (result, data), w') ∧
      result.error = some .ioError ∧ result.transferred = 12 ∧
      data = ((tornWorld.image.bytes (tornWorld.image.entry 530)).drop 500).take 12 ∧
      ReadAsks tornWorld w' 530 cs 500 (some .ioError) data := by
  have hd : decode smallGeometry oneFileTable (tornWorld.image.entry 530) 530 =
      .ok (⟨⟨530, 600, .file⟩, 2, 2⟩, [65]) := by rfl
  have ha : slotOffset smallGeometry 530 = some 16896 := by decide
  have hcoherent : Coherent tornWorld := fun h => by cases h
  obtain ⟨cs, result, data, w', -, hrun, -, -, htr, -, hslice, -, -, hasks, -⟩ :=
    readFile_exact hcoherent rfl rfl ha hd rfl 500 50
  have heval := tornWorld_reads
  rw [hrun] at heval
  obtain ⟨herr, hlen⟩ := Prod.mk.inj (Except.ok.inj heval)
  rw [herr] at hasks
  rw [hlen] at hslice htr
  exact ⟨hd, cs, result, data, w', hrun, herr, htr, hslice, hasks⟩

end RumKernel.Fat16
