import RumKernel.Fat16.Contents

/-!
# The write ordering

Every mutation goes through the same phases, each made durable by a flush before the next begins: contents of free
clusters, the table with these allocated (first copy, second copy), an end marker if the old one is consumed, the entry,
the table with the replaced clusters freed. A `Plan` holds what is written, `Plan.Valid` what it does to the tree,
`Plan.Performed` the disk states of a run; by `Plan.crash` one copy always shows the tree from before or from after.
-/

namespace RumKernel.Fat16
open Lib Fs

variable {g : Geometry} {m m' fat fat' old new : Mem} {c i k n : Nat} {e : Entry}

/-! ## The areas of the medium -/

/-- The media agree on the root directory and the clusters. -/
def SameData (g : Geometry) (m m' : Mem) : Prop := ∀ a, g.rootStart * 512 ≤ a → m' a = m a

namespace SameData

lemma refl : SameData g m m := fun _ _ => rfl

lemma trans {m'' : Mem} (h : SameData g m m') (h' : SameData g m' m'') : SameData g m m'' :=
  fun a ha => (h' a ha).trans (h a ha)

lemma setSlot (h : SameData g m m') : SameData g (Image.setSlot m i e) (Image.setSlot m' i e) := by
  intro a ha
  unfold Image.setSlot
  split
  · rfl
  · exact h a ha

end SameData

/-- Copy `k` of the table on the medium is `fat`. -/
def CopyIs (g : Geometry) (m : Mem) (k : Nat) (fat : Mem) : Prop :=
  ∀ j < g.fatBytes, m (fatAt g k + j) = fat j

/-- The table in copy `k` of a medium. -/
def diskFat (g : Geometry) (m : Mem) (k : Nat) : Mem := slice m (fatAt g k) g.fatBytes

lemma fatAt_bounds (g : Geometry) : fatAt g 0 + g.fatBytes = fatAt g 1 ∧
    fatAt g 1 + g.fatBytes = g.rootStart * 512 := by
  have h := g.rootStart_eq
  unfold fatAt Geometry.fatBytes
  omega

lemma CopyIs.congr (h : CopyIs g m k fat) (hm : ∀ j < g.fatBytes, m' (fatAt g k + j) = m (fatAt g k + j)) :
    CopyIs g m' k fat :=
  fun j hj => (hm j hj).trans (h j hj)

lemma nextCluster_copy (h : ∀ j < g.fatBytes, fat' j = fat j) (hc : c ≤ g.clusters + 1) :
    nextCluster fat' c = nextCluster fat c := by
  have hcap := g.fat_capacity
  refine nextCluster_congr fun j hj => h j ?_
  unfold Geometry.fatBytes
  omega

lemma nextCluster_diskFat (h : CopyIs g m k fat) (hc : c ≤ g.clusters + 1) :
    nextCluster (diskFat g m k) c = nextCluster fat c :=
  nextCluster_copy (fun j hj => by rw [diskFat, slice_apply hj, h j hj]) hc

/-! ## Writes to the tables -/

lemma mem_fatWrites {l : List Nat} {w : Write} : w ∈ fatWrites g old new k l ↔
    ∃ i ∈ l, sameBytes (slice new (i * 512) 512) (slice old (i * 512) 512) 512 = false ∧
      w = (g.fatStart + k * g.fatSectors + i, slice new (i * 512) 512) := by
  induction l with
  | nil => simp [fatWrites]
  | cons a l ih =>
    rw [fatWrites]
    split
    · rename_i hs
      rw [ih]
      simp [hs]
    · rename_i hs
      simp only [List.mem_cons, ih]
      simp [hs]

lemma fatWrites_nodup {l : List Nat} (hl : l.Nodup) : ((fatWrites g old new k l).map Prod.fst).Nodup := by
  induction l with
  | nil => simp [fatWrites]
  | cons a l ih =>
    obtain ⟨ha, hl'⟩ := List.nodup_cons.mp hl
    rw [fatWrites]
    split
    · exact ih hl'
    · rw [List.map_cons, List.nodup_cons]
      refine ⟨fun hm => ?_, ih hl'⟩
      obtain ⟨w, hw, e⟩ := List.mem_map.mp hm
      obtain ⟨b, hb, -, rfl⟩ := mem_fatWrites.mp hw
      simp only at e
      exact ha (by rwa [show a = b by omega])

/-- The writes of one table copy. -/
abbrev tableWrites (g : Geometry) (old new : Mem) (k : Nat) : List Write :=
  fatWrites g old new k (List.range g.fatSectors)

lemma tableWrites_copy (h : CopyIs g m k old) : CopyIs g (applyWrites m (tableWrites g old new k)) k new := by
  intro j hj
  unfold Geometry.fatBytes at hj
  have hi : j / 512 < g.fatSectors := by omega
  have ea : fatAt g k + j = (g.fatStart + k * g.fatSectors + j / 512) * 512 + j % 512 := by
    unfold fatAt
    omega
  have ej : j / 512 * 512 + j % 512 = j := by omega
  have hlt : j % 512 < 512 := Nat.mod_lt _ (by omega)
  by_cases hs : sameBytes (slice new (j / 512 * 512) 512) (slice old (j / 512 * 512) 512) 512 = true
  · rw [applyWrites_other, h j hj]
    · have := sameBytes_iff.mp hs (j % 512) hlt
      rw [slice_apply hlt, slice_apply hlt, ej] at this
      exact this.symm
    · intro w hw e
      obtain ⟨i, hi', hs', rfl⟩ := mem_fatWrites.mp hw
      have : j / 512 = i := by
        simp only at e
        omega
      rw [this, hs'] at hs
      cases hs
  · have hw : (g.fatStart + k * g.fatSectors + j / 512, slice new (j / 512 * 512) 512) ∈
        tableWrites g old new k :=
      mem_fatWrites.mpr ⟨j / 512, List.mem_range.mpr hi, by simpa using hs, rfl⟩
    rw [ea, applyWrites_of_mem (fatWrites_nodup List.nodup_range) hw hlt]
    exact (slice_apply hlt).trans (by rw [ej])

lemma tableWrites_other {ws : List Write} {a : Nat} (hw : ∀ w ∈ ws, w ∈ tableWrites g old new k)
    (ha : a < fatAt g k ∨ fatAt g k + g.fatBytes ≤ a) : applyWrites m ws a = m a := by
  refine applyWrites_other fun w hm e => ?_
  obtain ⟨i, hi, -, rfl⟩ := mem_fatWrites.mp (hw w hm)
  have := List.mem_range.mp hi
  unfold fatAt Geometry.fatBytes at ha
  simp only at e
  omega

lemma tableWrites_data {ws : List Write} (hk : k < 2) (hw : ∀ w ∈ ws, w ∈ tableWrites g old new k) :
    SameData g m (applyWrites m ws) := by
  have hb := fatAt_bounds g
  intro a ha
  refine tableWrites_other hw (.inr ?_)
  have : k = 0 ∨ k = 1 := by omega
  rcases this with rfl | rfl <;> omega

lemma CopyIs.writes {ws : List Write} (h : CopyIs g m k fat) (hk : k < 2)
    (hw : ∀ w ∈ ws, g.rootStart ≤ w.1) : CopyIs g (applyWrites m ws) k fat := by
  refine h.congr fun j hj => applyWrites_other fun w hm e => ?_
  have hb := fatAt_bounds g
  have := hw w hm
  have : k = 0 ∨ k = 1 := by omega
  rcases this with rfl | rfl <;> omega

lemma CopyIs.table {ws : List Write} {k' : Nat} {f : Mem} (h : CopyIs g m k f) (hk : k < 2) (hk' : k' < 2)
    (hne : k ≠ k') (hw : ∀ w ∈ ws, w ∈ tableWrites g old new k') : CopyIs g (applyWrites m ws) k f := by
  refine h.congr fun j hj => tableWrites_other hw ?_
  have hb := fatAt_bounds g
  have : (k = 0 ∧ k' = 1) ∨ (k = 1 ∧ k' = 0) := by omega
  rcases this with ⟨rfl, rfl⟩ | ⟨rfl, rfl⟩ <;> omega

lemma fatWrites_congr {l : List Nat} (h : ∀ j < g.fatBytes, fat' j = fat j)
    (hl : ∀ i ∈ l, i < g.fatSectors) : fatWrites g fat' new k l = fatWrites g fat new k l := by
  induction l with
  | nil => rfl
  | cons a l ih =>
    have ha := hl a List.mem_cons_self
    have e : slice fat' (a * 512) 512 = slice fat (a * 512) 512 := slice_congr fun j hj => h _ (by
      unfold Geometry.fatBytes
      omega)
    rw [fatWrites, fatWrites, e, ih fun i hi => hl i (List.mem_cons_of_mem _ hi)]

/-! ## Plans -/

/-- What a mutation writes: `data` to clusters that were free (`reserved`), the table `fat1` in which they
are allocated, the end marker at slot `clear`, the entry, and the table `fat2` without the old chain. -/
structure Plan where
  reserved : List Nat
  data : List Write
  fat1 : Mem
  clear : Option Nat
  slot : Nat
  entry : Entry
  fat2 : Mem

namespace Plan

variable {x : Image} {p : Plan}

/-- The image with the reserved clusters filled and allocated. -/
def prepared (p : Plan) (x : Image) : Image := ⟨x.geo, p.fat1, applyWrites x.medium p.data⟩

/-- The image with the end marker behind the slot. -/
def cleared (p : Plan) (x : Image) : Image :=
  match p.clear with
  | none => p.prepared x
  | some j => (p.prepared x).withSlot j fun _ => 0

/-- The image with the new entry. -/
def published (p : Plan) (x : Image) : Image := (p.cleared x).withSlot p.slot p.entry

/-- The image after the mutation. -/
def final (p : Plan) (x : Image) : Image := { p.published x with fat := p.fat2 }

@[simp] lemma cleared_geo : (p.cleared x).geo = x.geo := by
  unfold cleared
  split <;> rfl

@[simp] lemma cleared_fat : (p.cleared x).fat = p.fat1 := by
  unfold cleared
  split <;> rfl

@[simp] lemma published_geo : (p.published x).geo = x.geo := cleared_geo

@[simp] lemma published_fat : (p.published x).fat = p.fat1 := cleared_fat

@[simp] lemma final_geo : (p.final x).geo = x.geo := cleared_geo

/-- The plan's steps are steps of the image: nothing in the tree changes until the entry is put into slot
`p.slot` of the directory `d`. The entry owns the chain `new` and replaces one that owned `old`; the
directory may have grown by `grow`. -/
structure Valid (p : Plan) (x : Image) (d : Nat) (pre post new grow old : List Nat) : Prop where
  sound : x.Sound
  free : ∀ c ∈ p.reserved, validCluster x.geo c = true ∧ nextCluster x.fat c = 0
  filled : ∀ w ∈ p.data, ∃ c ∈ p.reserved, ∃ i < x.geo.perCluster, w.1 = clusterSector x.geo c + i
  prepared : Image.Quiet x (p.prepared x)
  cleared : Image.Quiet (p.prepared x) (p.cleared x)
  clear_at : ∀ j, p.clear = some j → slotOffset x.geo j = some (slotBase j)
  slot_at : slotOffset x.geo p.slot = some (slotBase p.slot)
  put : Image.Put (p.cleared x) d p.slot pre post p.entry new
  old_holds : ∀ f, Image.liveOption ((p.cleared x).entry p.slot) = some f → (p.cleared x).Holds f old
  old_none : Image.liveOption ((p.cleared x).entry p.slot) = none → old = []
  freed : ∀ c, nextCluster p.fat2 c = if c ∈ old then 0 else nextCluster p.fat1 c
  owned : ∀ c, (p.cleared x).Owned c ↔ x.Owned c ∨ c ∈ grow
  new_live : new ≠ [] → Image.liveOption p.entry ≠ none
  taken : ∀ c, nextCluster p.fat1 c ≠ 0 ↔ nextCluster x.fat c ≠ 0 ∨ c ∈ new ∨ c ∈ grow
  reserved_mem : ∀ c, c ∈ p.reserved ↔ c ∈ new ∨ c ∈ grow

namespace Valid

variable {d : Nat} {pre post new grow old : List Nat}

section
variable (h : Valid p x d pre post new grow old)
include h

lemma old_owned (hc : c ∈ old) : (p.cleared x).Owned c := by
  cases hl : Image.liveOption ((p.cleared x).entry p.slot) with
  | none => simp [h.old_none hl] at hc
  | some f => exact ⟨d, p.slot, f, old, h.put.edit.old_obj hl, h.old_holds f hl, hc⟩

lemma owned' : (p.published x).Owned c ↔ ((x.Owned c ∨ c ∈ grow) ∧ c ∉ old) ∨ c ∈ new := by
  have hp := h.put.owned (c := c) h.old_holds h.old_none
  rw [h.owned c] at hp
  refine hp.trans (or_congr_right ⟨fun hn => hn.2, fun hn => ⟨h.new_live ?_, hn⟩⟩)
  exact List.ne_nil_of_mem hn

lemma agree : Image.Agree (p.published x) (p.final x) := by
  refine ⟨rfl, fun _ _ _ => rfl, fun _ _ _ _ _ => rfl, fun c hc => ?_⟩
  have hn : c ∉ old := by
    rcases h.owned'.mp hc with ⟨-, hn⟩ | hn
    · exact hn
    · exact fun ho => h.put.new_fresh c hn (h.old_owned ho)
  rw [published_fat]
  exact (h.freed c).trans (if_neg hn)

lemma sound' : (p.final x).Sound := h.agree.sound h.put.sound'

lemma lost : (p.final x).Lost c ↔ x.Lost c := by
  have hfree : c ∈ new ∨ c ∈ grow → nextCluster x.fat c = 0 := fun hc => (h.free c ((h.reserved_mem c).mpr hc)).2
  have hold : c ∈ old → x.Owned c ∨ c ∈ grow := fun hc => (h.owned c).mp (h.old_owned hc)
  have hnext : nextCluster (p.final x).fat c ≠ 0 ↔
      c ∉ old ∧ (nextCluster x.fat c ≠ 0 ∨ c ∈ new ∨ c ∈ grow) := by
    rw [← h.taken c, show nextCluster (p.final x).fat c = _ from h.freed c]
    by_cases hc : c ∈ old <;> simp [hc]
  unfold Image.Lost
  rw [h.agree.owned h.put.sound', h.owned', hnext, final_geo]
  constructor
  · rintro ⟨h2, hle, ⟨hno, hn⟩, hown⟩
    refine ⟨h2, hle, ?_, fun ho => hown (.inl ⟨.inl ho, hno⟩)⟩
    rcases hn with hn | hn | hn
    · exact hn
    · exact absurd (.inr hn) hown
    · exact absurd (.inl ⟨.inr hn, hno⟩) hown
  · rintro ⟨h2, hle, hn, hown⟩
    have hg : ¬(c ∈ new ∨ c ∈ grow) := fun hc => hn (hfree hc)
    have ho : c ∉ old := fun hc => (hold hc).elim hown fun hc => hg (.inr hc)
    refine ⟨h2, hle, ⟨ho, .inl hn⟩, ?_⟩
    rintro (⟨hx | hx, -⟩ | hx)
    · exact hown hx
    · exact hg (.inr hx)
    · exact hg (.inl hx)

lemma agree_data {ws : List Write} (hw : ∀ w ∈ ws, w ∈ p.data) :
    Image.Agree x ⟨x.geo, x.fat, applyWrites x.medium ws⟩ := by
  have hout : ∀ c ∈ p.reserved, validCluster x.geo c = true ∧ ¬x.Owned c := fun c hc =>
    ⟨(h.free c hc).1, fun ho => ho.next_ne_zero (h.free c hc).2⟩
  refine ⟨rfl, fun a _ ha => ?_, fun c hc a h1 h2 => ?_, fun _ _ => rfl⟩
  · refine applyWrites_other fun w hm e => ?_
    obtain ⟨c, hc, i, hi, e'⟩ := h.filled w (hw w hm)
    have := clusterBase_bounds (hout c hc).1
    have := sector_in_cluster hi (e.trans e')
    omega
  · refine applyWrites_other fun w hm e => ?_
    obtain ⟨c', hc', i, hi, e'⟩ := h.filled w (hw w hm)
    obtain ⟨h3, h4⟩ := sector_in_cluster hi (e.trans e')
    obtain rfl := cluster_unique hc.valid (hout c' hc').1 h1 h2 h3 h4
    exact (hout c hc').2 hc

lemma data_behind {w : Write} (hw : w ∈ p.data) : x.geo.rootStart ≤ w.1 := by
  obtain ⟨c, hc, i, -, e⟩ := h.filled w hw
  have := x.geo.dataStart_eq
  rw [e]
  unfold clusterSector
  omega

end

end Valid

/-- The phases of a plan on a volume with the table `fat`; `clear` and `put` are the sector writes of the
end marker and of the entry. -/
def phases (p : Plan) (g : Geometry) (fat : Mem) (clear put : List Write) : List (List Write) :=
  [p.data, tableWrites g fat p.fat1 0, tableWrites g fat p.fat1 1, clear, put,
    tableWrites g p.fat1 p.fat2 0, tableWrites g p.fat1 p.fat2 1]

end Plan

/-! ## Runs of a plan -/

/-- The write `ws` of one sector puts `e` into slot `i`. -/
def SlotWrite (m : Mem) (i : Nat) (e : Entry) (ws : List Write) : Prop :=
  ∃ data, ws = [(slotBase i / 512, data)] ∧ setBlock m (slotBase i / 512) data = Image.setSlot m i e

lemma SlotWrite.apply {ws : List Write} (h : SlotWrite m i e ws) : applyWrites m ws = Image.setSlot m i e := by
  obtain ⟨data, rfl, h⟩ := h
  exact h

lemma SlotWrite.kept {ws kept : List Write} (h : SlotWrite m i e ws) (hk : kept.Sublist ws) :
    kept = [] ∨ kept = ws := by
  obtain ⟨data, rfl, -⟩ := h
  exact List.sublist_singleton.mp hk

lemma SlotWrite.behind {ws : List Write} (h : SlotWrite m i e ws) (hi : slotOffset g i = some (slotBase i)) :
    ∀ w ∈ ws, g.rootStart ≤ w.1 := by
  obtain ⟨data, rfl, -⟩ := h
  intro w hw
  obtain rfl := List.mem_singleton.mp hw
  exact (slotOffset_bounds hi).2.2.1

/-- The writes of an end marker into slot `clear`, if there is one to write. -/
def ClearWrite (m : Mem) (clear : Option Nat) (ws : List Write) : Prop :=
  match clear with
  | none => ws = []
  | some j => SlotWrite m j (fun _ => 0) ws

lemma ClearWrite.kept {clear : Option Nat} {ws kept : List Write} (h : ClearWrite m clear ws)
    (hk : kept.Sublist ws) : kept = [] ∨ kept = ws := by
  cases clear with
  | none =>
    obtain rfl : ws = [] := h
    exact .inl (List.sublist_nil.mp hk)
  | some j => exact SlotWrite.kept h hk

/-- From `v` to `v'` the disk went through the phases `ps`. -/
structure Did (v : Vol) (ps : List (List Write)) (v' : Vol) : Prop where
  medium : v'.medium = applyWrites v.medium ps.flatten
  trace : ∃ l, v'.trace = v.trace ++ l ∧ Phased ps l

section did
variable {v v' v'' : Vol} {ps qs : List (List Write)}

lemma Did.nil (hm : v'.medium = v.medium) (ht : v'.trace = v.trace) : Did v [] v' :=
  ⟨hm, [], by simpa using ht, .nil⟩

lemma Did.trans (h : Did v ps v') (h' : Did v' qs v'') : Did v (ps ++ qs) v'' := by
  obtain ⟨l, hl, hp⟩ := h.trace
  obtain ⟨k, hk, hq⟩ := h'.trace
  exact ⟨by rw [h'.medium, h.medium, List.flatten_append, applyWrites_append],
    l ++ k, by rw [hk, hl, List.append_assoc], hp.append hq⟩

lemma Phase.did {ws : List Write} (h : Phase v ws v') : Did v [ws] v' :=
  ⟨by simpa using h.medium, h.trace⟩

end did

/-- Both copies of the table on the medium are the cached table. -/
def Synced (v : Vol) : Prop := CopyIs v.geo v.medium 0 v.fat ∧ CopyIs v.geo v.medium 1 v.fat

namespace Plan

/-- The run from `v` to `v'` carried out the plan. -/
structure Performed (p : Plan) (v v' : Vol) (clear put : List Write) : Prop where
  did : Did v (p.phases v.geo v.fat clear put) v'
  clear_eq : ClearWrite (applyWrites v.medium (p.data ++ (tableWrites v.geo v.fat p.fat1 0 ++
        tableWrites v.geo v.fat p.fat1 1))) p.clear clear
  put_eq : SlotWrite (applyWrites v.medium (p.data ++ (tableWrites v.geo v.fat p.fat1 0 ++
        (tableWrites v.geo v.fat p.fat1 1 ++ clear)))) p.slot p.entry put
  geo : v'.geo = v.geo
  fat : ∀ j < v.geo.fatBytes, v'.fat j = p.fat2 j

end Plan

/-- The medium `m` holds the image `y` behind the tables and the tables `f0` and `f1` in the copies. -/
structure Stage (g : Geometry) (y : Image) (m f0 f1 : Mem) : Prop where
  geo : y.geo = g
  data : SameData g y.medium m
  first : CopyIs g m 0 f0
  second : CopyIs g m 1 f1

namespace Stage

variable {y z : Image} {f0 f1 : Mem} {ws : List Write}

lemma agree_of_copy (hg : y.geo = g) (hm : SameData g y.medium m) (hk : CopyIs g m k y.fat) :
    Image.Agree y ⟨g, diskFat g m k, m⟩ := by
  subst hg
  have h1 := y.geo.dataStart_eq
  refine ⟨rfl, fun a ha _ => hm a ha, fun c hc a ha _ => hm a ?_, fun c hc => ?_⟩
  · have := clusterBase_bounds hc.valid
    omega
  · have := validCluster_range hc.valid
    exact nextCluster_diskFat hk (by omega)

lemma read_first (h : Stage g y m y.fat f1) : Image.Agree y ⟨g, diskFat g m 0, m⟩ :=
  agree_of_copy h.geo h.data h.first

lemma torn_first (h : Stage g y m f0 y.fat) (hw : ∀ w ∈ ws, w ∈ tableWrites g old new 0) :
    Image.Agree y ⟨g, diskFat g (applyWrites m ws) 1, applyWrites m ws⟩ :=
  agree_of_copy h.geo (h.data.trans (tableWrites_data (by omega) hw))
    (h.second.table (by omega) (by omega) (by omega) hw)

lemma torn_second (h : Stage g y m y.fat f1) (hw : ∀ w ∈ ws, w ∈ tableWrites g old new 1) :
    Image.Agree y ⟨g, diskFat g (applyWrites m ws) 0, applyWrites m ws⟩ :=
  agree_of_copy h.geo (h.data.trans (tableWrites_data (by omega) hw))
    (h.first.table (by omega) (by omega) (by omega) hw)

lemma write_first (h : Stage g y m old f1) (new : Mem) : Stage g y (applyWrites m (tableWrites g old new 0)) new f1 :=
  ⟨h.geo, h.data.trans (tableWrites_data (by omega) fun _ hw => hw), tableWrites_copy h.first,
    h.second.table (by omega) (by omega) (by omega) fun _ hw => hw⟩

lemma write_second (h : Stage g y m f0 old) (new : Mem) : Stage g y (applyWrites m (tableWrites g old new 1)) f0 new :=
  ⟨h.geo, h.data.trans (tableWrites_data (by omega) fun _ hw => hw),
    h.first.table (by omega) (by omega) (by omega) fun _ hw => hw, tableWrites_copy h.second⟩

lemma slot (h : Stage g y m f0 f1) (hw : SlotWrite m i e ws) (hi : slotOffset g i = some (slotBase i)) :
    Stage g (y.withSlot i e) (applyWrites m ws) f0 f1 := by
  refine ⟨h.geo, ?_, h.first.writes (by omega) (hw.behind hi), h.second.writes (by omega) (hw.behind hi)⟩
  rw [hw.apply]
  exact h.data.setSlot

end Stage

namespace Plan.Performed
open Stage

variable {p : Plan} {v v' : Vol} {clear put : List Write} {d : Nat} {pre post new grow old : List Nat}

section
variable (h : p.Valid v.image d pre post new grow old) (hp : p.Performed v v' clear put) (hs : Synced v)
include h hp hs

lemma stages
 : ∃ m1 m2 m3 m4 m5 m6 m7,
      (m1 = applyWrites v.medium p.data ∧ Stage v.geo (p.prepared v.image) m1 v.fat v.fat) ∧
      (m2 = applyWrites m1 (tableWrites v.geo v.fat p.fat1 0) ∧
        Stage v.geo (p.prepared v.image) m2 p.fat1 v.fat) ∧
      (m3 = applyWrites m2 (tableWrites v.geo v.fat p.fat1 1) ∧
        Stage v.geo (p.prepared v.image) m3 p.fat1 p.fat1) ∧
      (m4 = applyWrites m3 clear ∧ Stage v.geo (p.cleared v.image) m4 p.fat1 p.fat1) ∧
      (m5 = applyWrites m4 put ∧ Stage v.geo (p.published v.image) m5 p.fat1 p.fat1) ∧
      (m6 = applyWrites m5 (tableWrites v.geo p.fat1 p.fat2 0) ∧
        Stage v.geo (p.published v.image) m6 p.fat2 p.fat1) ∧
      (m7 = applyWrites m6 (tableWrites v.geo p.fat1 p.fat2 1) ∧
        Stage v.geo (p.final v.image) m7 p.fat2 p.fat2) := by
  have s1 : Stage v.geo (p.prepared v.image) (applyWrites v.medium p.data) v.fat v.fat :=
    ⟨rfl, .refl, hs.1.writes (by omega) fun _ hw => h.data_behind hw,
      hs.2.writes (by omega) fun _ hw => h.data_behind hw⟩
  have s3 := (s1.write_first p.fat1).write_second p.fat1
  have s4 : Stage v.geo (p.cleared v.image) (applyWrites (applyWrites (applyWrites (applyWrites v.medium p.data)
      (tableWrites v.geo v.fat p.fat1 0)) (tableWrites v.geo v.fat p.fat1 1)) clear) p.fat1 p.fat1 := by
    have hc := hp.clear_eq
    unfold Plan.cleared
    cases hj : p.clear with
    | none =>
      rw [hj] at hc
      rw [show clear = [] from hc]
      exact s3
    | some j =>
      simp only [hj, ClearWrite, applyWrites_append] at hc
      exact s3.slot hc (h.clear_at j hj)
  have hput := hp.put_eq
  simp only [applyWrites_append] at hput
  have s5 := s4.slot hput h.slot_at
  have s7 := (s5.write_first p.fat2).write_second p.fat2
  exact ⟨_, _, _, _, _, _, _, ⟨rfl, s1⟩, ⟨rfl, s1.write_first _⟩, ⟨rfl, s3⟩, ⟨rfl, s4⟩, ⟨rfl, s5⟩,
    ⟨rfl, s5.write_first _⟩, rfl, s7.geo, s7.data, s7.first, s7.second⟩

lemma agree_final : Synced v' ∧ Image.Agree (p.final v.image) v'.image := by
  obtain ⟨m1, m2, m3, m4, m5, m6, m7, ⟨e1, -⟩, ⟨e2, -⟩, ⟨e3, -⟩, ⟨e4, -⟩, ⟨e5, -⟩, ⟨e6, -⟩, e7, s⟩ :=
    stages h hp hs
  have hm : v'.medium = m7 := by
    rw [hp.did.medium, e7, e6, e5, e4, e3, e2, e1]
    simp [phases, applyWrites_append]
  have hg := hp.geo
  have hb := v.geo.dataStart_eq
  refine ⟨⟨?_, ?_⟩, ?_⟩
  · rw [hg, hm]
    exact fun j hj => (s.first j hj).trans (hp.fat j hj).symm
  · rw [hg, hm]
    exact fun j hj => (s.second j hj).trans (hp.fat j hj).symm
  · refine ⟨hg.trans (final_geo (x := v.image)).symm, fun a ha _ => ?_, fun c hc a ha _ => ?_, fun c hc => ?_⟩
    · rw [final_geo] at ha
      exact (congrFun hm a).trans (s.data a ha)
    · have hc' := clusterBase_bounds hc.valid
      rw [final_geo, Vol.image_geo] at hc' ha
      exact (congrFun hm a).trans (s.data a (by omega))
    · have hv := validCluster_range hc.valid
      rw [final_geo, Vol.image_geo] at hv
      exact nextCluster_copy hp.fat (by omega)

/-- **Crashes.** Whatever the interrupted run left on the disk, one of the copies of the table shows one
of the images the plan goes through. -/
theorem crash {l : List Request} {z : Mem} (hl : v'.trace = v.trace ++ l) (hz : Survives v.medium l z) :
    ∃ k < 2, ∃ y ∈ [v.image, p.prepared v.image, p.cleared v.image, p.published v.image, p.final v.image],
      Image.Agree y ⟨v.geo, diskFat v.geo z k, z⟩ := by
  obtain ⟨m1, m2, m3, m4, m5, m6, m7, ⟨e1, s1⟩, ⟨e2, s2⟩, ⟨e3, s3⟩, ⟨e4, s4⟩, ⟨e5, s5⟩, ⟨e6, s6⟩, e7, s7⟩ :=
    stages h hp hs
  obtain ⟨l', hl', hph⟩ := hp.did.trace
  obtain rfl : l = l' := List.append_cancel_left (hl.symm.trans hl')
  -- the data: the clusters were free, so either copy will do
  have hdata : ∀ kept : List Write, (∀ w ∈ kept, w ∈ p.data) →
      Stage v.geo ⟨v.geo, v.fat, applyWrites v.medium kept⟩ (applyWrites v.medium kept) v.fat v.fat :=
    fun kept hk => ⟨rfl, .refl, hs.1.writes (by omega) fun w hw => h.data_behind (hk w hw),
      hs.2.writes (by omega) fun w hw => h.data_behind (hk w hw)⟩
  rcases hz.cons hph with ⟨kept, hk, rfl⟩ | ⟨_, hph, hz⟩
  · have hk' : ∀ w ∈ kept, w ∈ p.data := fun _ hw => hk.subset hw
    exact ⟨0, by omega, v.image, by simp, (h.agree_data hk').trans h.sound (hdata kept hk').read_first⟩
  -- the first copy while the second one is old, then the second one while the first one is new
  rcases hz.cons hph with ⟨kept, hk, rfl⟩ | ⟨_, hph, hz⟩
  · exact ⟨1, by omega, v.image, by simp, (h.agree_data fun _ hw => hw).trans h.sound
      ((hdata p.data fun _ hw => hw).torn_first fun _ hw => hk.subset hw)⟩
  rw [← e1, ← e2] at hz
  rcases hz.cons hph with ⟨kept, hk, rfl⟩ | ⟨_, hph, hz⟩
  · exact ⟨0, by omega, p.prepared v.image, by simp, s2.torn_second fun _ hw => hk.subset hw⟩
  -- the end marker and the entry are single sectors
  rw [← e3] at hz
  rcases hz.cons hph with ⟨kept, hk, rfl⟩ | ⟨_, hph, hz⟩
  · rcases hp.clear_eq.kept hk with rfl | rfl
    · exact ⟨0, by omega, p.prepared v.image, by simp, s3.read_first⟩
    · refine ⟨0, by omega, p.cleared v.image, by simp, ?_⟩
      rw [← e4]
      exact agree_of_copy s4.geo s4.data (by rw [cleared_fat]; exact s4.first)
  rw [← e4] at hz
  rcases hz.cons hph with ⟨kept, hk, rfl⟩ | ⟨_, hph, hz⟩
  · rcases hp.put_eq.kept hk with rfl | rfl
    · exact ⟨0, by omega, p.cleared v.image, by simp,
        agree_of_copy s4.geo s4.data (by rw [cleared_fat]; exact s4.first)⟩
    · refine ⟨0, by omega, p.published v.image, by simp, ?_⟩
      rw [← e5]
      exact agree_of_copy s5.geo s5.data (by rw [published_fat]; exact s5.first)
  rw [← e5] at hz
  -- the old chain is freed in the first copy while the second one still has it
  rcases hz.cons hph with ⟨kept, hk, rfl⟩ | ⟨_, hph, hz⟩
  · rw [← published_fat (p := p) (x := v.image)] at s5
    exact ⟨1, by omega, p.published v.image, by simp, s5.torn_first fun _ hw => hk.subset hw⟩
  rw [← e6] at hz
  rcases hz.cons hph with ⟨kept, hk, rfl⟩ | ⟨_, hph, hz⟩
  · have s6' : Stage v.geo (p.final v.image) m6 p.fat2 p.fat1 := ⟨s6.geo, s6.data, s6.first, s6.second⟩
    exact ⟨0, by omega, p.final v.image, by simp, s6'.torn_second fun _ hw => hk.subset hw⟩
  rw [← e7] at hz
  rw [hz.nil hph]
  exact ⟨0, by omega, p.final v.image, by simp, s7.read_first⟩

end

end Plan.Performed

end RumKernel.Fat16
