import RumKernel.Fat16.Protocol

/-!
# Writing the tables and the entry

The end of `rewrite` and `fat16_mkdir_node` in the driver: flush the data, write both copies of the table,
see to the end marker and write the entry.
-/

namespace RumKernel.Fat16
open Lib Fs

variable {v v' : Vol} {x y : Image} {d i id k n : Nat} {e : Entry} {cs pre post : List Nat} {t : Target}
variable {Q : Except FsError Unit → Vol → Prop} {wc wp : List Write} {p : Plan}

/-- What stands behind a slot that may have been the end marker: if it `needed` one, another end marker, or
a slot that has to become one. -/
inductive Behind (y : Image) (post : List Nat) (needed : Prop) : Option Nat → Prop where
  | keep : (needed → ∀ j tl, post = j :: tl → y.entry j 0 = 0) → Behind y post needed none
  | clear {j tl} : needed → post = j :: tl → Behind y post needed (some j)

/-- The entry is to take the place of an end marker that has slots behind it. -/
def NeedsEnd (g : Geometry) (t : Target) : Prop :=
  t.end = true ∧ t.cursor + 1 < directorySlots g t.directory

section

variable (hro : v.device.readOnly = false) (hat : NeedsEnd v.geo t → DirDesc v.image d t.directory ∧
  v.image.slots d = pre ++ t.id :: post ∧ t.cursor = pre.length)
include hro hat

lemma clearNext_runs (hQ : ∀ clear wc v1, Behind v.image post (NeedsEnd v.geo t) clear →
    ClearWrite v.medium clear wc → Phase v wc v1 → Q (.ok ()) v1) : Runs v (clearNext t) Q := by
  refine Runs.get_bind fun h => ?_
  simp only [mkWorld_geo, mkWorld_fat]
  refine Runs.ite (fun hn => ?_) fun hn => .pure (hQ none [] v (.keep fun h => absurd h hn) rfl (.inr ⟨rfl, rfl⟩))
  obtain ⟨hd, hsl, hcur⟩ := hat hn
  have hlt : t.cursor + 1 < (v.image.slots d).length := by
    have := hn.2
    rwa [show directorySlots v.geo t.directory = _ from hd.slot_count] at this
  obtain ⟨j, tl, rfl⟩ : ∃ j tl, post = j :: tl := by
    cases post with
    | nil =>
      rw [hsl, hcur] at hlt
      simp at hlt
    | cons j tl => exact ⟨j, tl, rfl⟩
  have hj : (v.image.slots d)[t.cursor + 1] = j := by
    simp [hsl, hcur]
  have hoj : slotOffset v.geo j = some (slotBase j) := by
    have := slotOffset_of_mem hd (List.getElem_mem hlt)
    rwa [hj] at this
  refine Runs.bind (Runs.lift ?_)
  rw [show directorySlot v.geo v.fat t.directory (t.cursor + 1) = _ from hd.directorySlot hlt, hj]
  refine Runs.bind (entryRead_runs hoj ?_)
  refine Runs.ite (fun h0 => ?_) fun h0 => ?_
  · refine Runs.bind (entryWrite_runs hoj hro fun data he => ?_)
    exact flushDevice_runs (hQ (some j) _ _ (.clear hn rfl) ⟨data, rfl, he⟩ (.inl rfl))
  · refine .pure (hQ none [] v (.keep fun _ j' tl' e => ?_) rfl (.inr ⟨rfl, rfl⟩))
    obtain ⟨rfl, -⟩ : j = j' ∧ tl = tl' := by simpa using e
    simpa using h0

lemma publish_runs (hi : slotOffset v.geo t.id = some (slotBase t.id))
    (hQ : ∀ clear wc v1 wp v2, Behind v.image post (NeedsEnd v.geo t) clear → ClearWrite v.medium clear wc →
      Phase v wc v1 → SlotWrite v1.medium t.id e wp → Phase v1 wp v2 → Q (.ok ()) v2) : Runs v (publish t e) Q := by
  refine Runs.bind (clearNext_runs hro hat fun clear wc v1 hb hc hph => ?_)
  have hs := hph.same
  refine Runs.bind (entryWrite_runs (by rw [hs.geo]; exact hi) (hs.device ▸ hro) fun data he => ?_)
  exact flushDevice_runs (hQ clear wc v1 _ _ hb hc hph ⟨data, rfl, he⟩ (.inl rfl))

end

/-- The mount's own state is as before. -/
structure SameMount (v v' : Vol) : Prop where
  geo : v'.geo = v.geo
  writable : v'.writable = v.writable
  faulted : v'.faulted = v.faulted
  pins : v'.pins = v.pins
  ready : v'.ready = v.ready
  device : v'.device = v.device

lemma SameMount.trans {v'' : Vol} (h : SameMount v v') (h' : SameMount v' v'') : SameMount v v'' :=
  ⟨h'.geo.trans h.geo, h'.writable.trans h.writable, h'.faulted.trans h.faulted, h'.pins.trans h.pins,
    h'.ready.trans h.ready, h'.device.trans h.device⟩

lemma SameButDisk.mount (h : SameButDisk v v') : SameMount v v' :=
  ⟨h.geo, h.writable, h.faulted, h.pins, h.ready, h.device⟩

/-- The volume `v'` after writing the data, the table `fat1` and the entry `e` in slot `i` on `v`. -/
structure Committed (v : Vol) (data : List Write) (fat1 : Mem) (clear : Option Nat) (i : Nat) (e : Entry)
    (wc wp : List Write) (v' : Vol) : Prop where
  did : Did v [data, tableWrites v.geo v.fat fat1 0, tableWrites v.geo v.fat fat1 1, wc, wp] v'
  clear_eq : ClearWrite (applyWrites v.medium (data ++ (tableWrites v.geo v.fat fat1 0 ++
    tableWrites v.geo v.fat fat1 1))) clear wc
  put_eq : SlotWrite (applyWrites v.medium (data ++ (tableWrites v.geo v.fat fat1 0 ++
    (tableWrites v.geo v.fat fat1 1 ++ wc)))) i e wp
  fat : v'.fat = copyInto v.fat fat1 v.geo.fatBytes
  mount : SameMount v v'
  committed : v'.committed = v.committed

lemma DirDesc.congr {desc : Description} (h : DirDesc x d desc) (hg : y.geo = x.geo)
    (hn : ∀ c, c ≤ x.geo.clusters + 1 → nextCluster y.fat c = nextCluster x.fat c) :
    DirDesc y d desc ∧ y.slots d = x.slots d := by
  rcases h with ⟨rfl, rfl⟩ | ⟨hid, hk, hf, cs, hc, hl⟩
  · refine ⟨.inl ⟨rfl, rfl⟩, ?_⟩
    rw [Image.slots_root, Image.slots_root, hg]
  · have hc' : IsChain y.geo y.fat d cs := by
      rw [hg]
      refine hc.congr fun c hm => hn c ?_
      have := validCluster_range (hc.valid hm)
      omega
    refine ⟨.inr ⟨hid, hk, hf, cs, hc', hl⟩, ?_⟩
    rw [Image.slots_chain hc, Image.slots_chain hc', hg]

/-- Flushing the data, writing the table and publishing the entry. -/
theorem commit_runs {data : List Write} {fat1 : Mem} (d : Nat) (pre post : List Nat)
    (hro : v.device.readOnly = false) (hi : slotOffset v.geo t.id = some (slotBase t.id))
    (hat : NeedsEnd v.geo t → DirDesc ⟨v.geo, fat1, applyWrites v.medium data⟩ d t.directory ∧
      Image.slots ⟨v.geo, fat1, applyWrites v.medium data⟩ d = pre ++ t.id :: post ∧ t.cursor = pre.length)
    (hQ : ∀ clear wc wp v', Behind ⟨v.geo, fat1, applyWrites v.medium data⟩ post (NeedsEnd v.geo t) clear →
      Committed v data fat1 clear t.id e wc wp v' → Q (.ok ()) v') : Runs (v.writes data) (commit t fat1 e) Q := by
  unfold commit
  refine Runs.bind (flushDevice_runs ?_)
  refine Runs.bind (persistFat_runs (by exact hro) fun v1 v2 h1 h2 => ?_)
  have hph : Phase v data (v.writes data).flush := .inl rfl
  have hs := hph.same.mount.trans (h1.same.mount.trans h2.same.mount)
  have hg : (v2.setFat fat1).geo = v.geo := hs.geo
  have hfat : (v2.setFat fat1).fat = copyInto v.fat fat1 v.geo.fatBytes := by
    show copyInto v2.fat fat1 v2.geo.fatBytes = _
    rw [hs.geo, h2.same.fat, h1.same.fat]
    rfl
  have hcopy : ∀ j < v.geo.fatBytes, (v2.setFat fat1).fat j = fat1 j := fun j hj => by
    rw [hfat, copyInto, if_pos hj]
  have hmed : (v2.setFat fat1).medium = applyWrites v.medium (data ++
      (tableWrites v.geo v.fat fat1 0 ++ tableWrites v.geo v.fat fat1 1)) := by
    show v2.medium = _
    rw [h2.medium, h1.medium, hph.medium, applyWrites_append, applyWrites_append]
    rfl
  have hdata : SameData v.geo (applyWrites v.medium data) (v2.setFat fat1).medium := by
    rw [hmed, applyWrites_append, applyWrites_append]
    exact (tableWrites_data (by omega) fun _ hw => hw).trans (tableWrites_data (by omega) fun _ hw => hw)
  have hdid : Did v [data, tableWrites v.geo v.fat fat1 0, tableWrites v.geo v.fat fat1 1] (v2.setFat fat1) :=
    (hph.did.trans (h1.did.trans h2.did)).trans (.nil rfl rfl)
  have hat' : NeedsEnd (v2.setFat fat1).geo t → DirDesc (v2.setFat fat1).image d t.directory ∧
      (v2.setFat fat1).image.slots d = pre ++ t.id :: post ∧ t.cursor = pre.length := by
    intro hn
    obtain ⟨hd, hsl, hc⟩ := hat (hg ▸ hn)
    obtain ⟨hd', hsl'⟩ := hd.congr (y := (v2.setFat fat1).image) hg fun c hc => nextCluster_copy hcopy hc
    exact ⟨hd', hsl'.trans hsl, hc⟩
  refine publish_runs (by rw [show (v2.setFat fat1).device = _ from hs.device]; exact hro) hat' (hg ▸ hi)
    fun clear wc v3 wp v4 hb hc h₃ hp h4 => ?_
  refine hQ clear wc wp v4 ?_ ?_
  · rw [hg] at hb
    cases hb with
    | keep hk =>
      refine .keep fun hn j tl e => ?_
      have hj : slotOffset v.geo j = some (slotBase j) := by
        obtain ⟨hd, hsl, -⟩ := hat hn
        have ho := slotOffset_of_mem (i := j) hd (by rw [hsl, e]; simp)
        exact ho
      have hlo := (slotOffset_bounds hj).2.2.1
      have he : (v2.setFat fat1).image.entry j = Image.entry ⟨v.geo, fat1, applyWrites v.medium data⟩ j :=
        slice_congr fun a _ => hdata (slotBase j + a) (by omega)
      rw [← he]
      exact hk hn j tl e
    | clear hn e => exact .clear hn e
  · have hm3 := h₃.medium
    rw [hmed] at hc hm3
    rw [hm3, ← applyWrites_append, List.append_assoc, List.append_assoc] at hp
    refine ⟨(hdid.trans (h₃.did.trans h4.did)), hc, hp, ?_, ?_, ?_⟩
    · rw [h4.same.fat, h₃.same.fat, hfat]
    · have hs' : SameMount v (v2.setFat fat1) := ⟨hs.geo, hs.writable, hs.faulted, hs.pins, hs.ready,
        hs.device⟩
      exact hs'.trans (h₃.same.mount.trans h4.same.mount)
    · rw [h4.same.committed, h₃.same.committed]
      exact h2.same.committed.trans h1.same.committed

/-! ## The performed plan -/

lemma tableWrites_self {g : Geometry} {fat : Mem} : tableWrites g fat fat k = [] := by
  rw [List.eq_nil_iff_forall_not_mem]
  intro w hw
  obtain ⟨i, -, hs, -⟩ := mem_fatWrites.mp hw
  rw [sameBytes_iff.mpr fun _ _ => rfl] at hs
  cases hs

lemma Committed.entry_only (h : SlotWrite v.medium i e wp) (hph : Phase v wp v') :
    Committed v [] v.fat none i e [] wp v' := by
  have hself : ∀ k, tableWrites v.geo v.fat v.fat k = [] := fun _ => tableWrites_self
  have hskip : Did v [[], [], [], []] v := ⟨rfl, [], by simp, .skip (.skip (.skip (.skip .nil)))⟩
  refine ⟨?_, rfl, ?_, ?_, hph.same.mount, hph.same.committed⟩
  · rw [hself, hself]
    exact hskip.trans hph.did
  · rw [hself, hself]
    exact h
  · rw [hph.same.fat]
    funext j
    simp [copyInto]

lemma Committed.performed_done
    (h : Committed v p.data p.fat1 p.clear p.slot p.entry wc wp v') (hf : p.fat2 = p.fat1) :
    p.Performed v v' wc wp := by
  have hskip : Did v' [[], []] v' := ⟨rfl, [], by simp, .skip (.skip .nil)⟩
  have hdid := h.did.trans hskip
  refine ⟨?_, h.clear_eq, h.put_eq, h.mount.geo, fun j hj => ?_⟩
  · unfold Plan.phases
    rw [hf, tableWrites_self, tableWrites_self]
    exact hdid
  · rw [h.fat, hf, copyInto, if_pos hj]

lemma Committed.performed {u v1 v2 : Vol} {b : Bool} (h : Committed v p.data p.fat1 p.clear p.slot p.entry wc wp u)
    (h1 : Phase { u with committed := b } (tableWrites u.geo u.fat p.fat2 0) v1)
    (h2 : Phase v1 (tableWrites u.geo u.fat p.fat2 1) v2) (hv : v' = v2.setFat p.fat2) :
    p.Performed v v' wc wp ∧ SameMount v v' := by
  have hmount : SameMount v v' := by
    have h0 : SameMount u { u with committed := b } := ⟨rfl, rfl, rfl, rfl, rfl, rfl⟩
    have h3 : SameMount v2 v' := by
      rw [hv]
      exact ⟨rfl, rfl, rfl, rfl, rfl, rfl⟩
    exact h.mount.trans (h0.trans (h1.same.mount.trans (h2.same.mount.trans h3)))
  have hcong : ∀ k, tableWrites u.geo u.fat p.fat2 k = tableWrites v.geo p.fat1 p.fat2 k := by
    intro k
    rw [h.mount.geo]
    refine fatWrites_congr (fun j hj => ?_) fun i hi => List.mem_range.mp hi
    rw [h.fat, copyInto, if_pos hj]
  rw [hcong] at h1 h2
  have hu : Did u [] { u with committed := b } := .nil rfl rfl
  have hv' : Did v2 [] v' := .nil (by rw [hv]; rfl) (by rw [hv]; rfl)
  have hdid : Did v (p.phases v.geo v.fat wc wp) v' :=
    h.did.trans (hu.trans (h1.did.trans (h2.did.trans hv')))
  refine ⟨⟨hdid, h.clear_eq, h.put_eq, hmount.geo, fun j hj => ?_⟩, hmount⟩
  have hg : v2.geo = v.geo := by rw [← hmount.geo, hv]; rfl
  rw [hv]
  show copyInto v2.fat p.fat2 v2.geo.fatBytes j = _
  rw [hg, copyInto, if_pos hj]

end RumKernel.Fat16
