import RumKernel.Fat16.Refinement

/-!
# Slots of long names

The short entry behind a run of long-name slots takes over the long name, so a new entry must not stand there.
`find_target` refuses a free slot behind such a run. It does not look at the end of a full directory: there the new
entry goes into the next cluster, behind whatever the last slot holds.
-/

namespace RumKernel.Fat16
open Lib Fs Prog

variable {x : Image} {v v' : Vol} {d : Nat} {t : Target} {p : Plan} {name : Name} {pre post new grow old : List Nat}
variable {d' i : Nat} {e : Entry}

/-- An entry of `x'` that is not in `x`. -/
def Image.New (x x' : Image) (d i : Nat) (e : Entry) : Prop := x'.forest.Obj d i e ∧ ∀ e', ¬x.forest.Obj d i e'

/-- The slot before `i` in the directory `d` is no slot of a long name. -/
def Image.Apart (x : Image) (d i : Nat) : Prop := ∀ pre post, x.slots d = pre ++ i :: post → Unattached (x.read pre)

/-- A directory without a free slot does not end with a slot of a long name. -/
def Image.Closed (x : Image) (d : Nat) : Prop :=
  (∀ p ∈ x.listing d, p.2 0 ≠ 0 ∧ p.2 0 ≠ 0xe5) → Unattached (x.listing d)

lemma Image.read_congr {y : Image} {l : List Nat} (h : ∀ j ∈ l, y.entry j = x.entry j) : y.read l = x.read l :=
  List.map_congr_left fun j hj => by rw [h j hj]

/-- The slots before a new entry end with one of a long name exactly if the directory is full and ends with one. -/
lemma Placed.unattached_iff (h : Placed x d t p pre) (hloc : Located x d name t) (hne : t.exists = false)
    (hs : x.Sound) (hr : x.forest.Reach d) : Unattached ((p.cleared x).read pre) ↔ x.Closed d := by
  rw [Image.read_congr h.kept]
  cases hloc with
  | existing _ _ he => exact absurd (hne.symm.trans he) (by decide)
  | vacant pre' post' _ hg _ hv =>
    obtain ⟨post, hsl⟩ := h.slot hg
    -- the slots of a sound directory are distinct, so the two splittings are one
    have hat : Image.SlotAt x d t.id pre post := ⟨hr, hsl⟩
    have heq := (List.append_cons_inj_of_notMem (hat.not_mem hs).1 (hat.not_mem hs).2).mp
      (hsl.symm.trans hv.slots)
    rw [heq.1]
    refine iff_of_true hv.unattached fun hfull => ?_
    have hused := hfull (t.id, x.entry t.id) (List.mem_map.mpr ⟨t.id, by rw [hsl]; simp, rfl⟩)
    rcases hv.state with ⟨hdel, -⟩ | ⟨hend, -⟩
    · exact absurd hdel hused.2
    · exact absurd hend hused.1
  | full cs _ hg _ _ hf =>
    rw [← h.behind hg]
    exact ⟨fun hu _ => hu, fun hend => hend fun q hq => ⟨hf.full q hq, hf.used q hq⟩⟩

lemma Done.agree (h : Done v p d pre post new grow old v') (hs : Synced v) :
    Image.Agree (p.published v.image) v'.image := by
  obtain ⟨-, ha⟩ := h.agree_final hs
  exact h.valid.agree.trans h.valid.put.sound' ha

/-- The one new entry of a mutation is in the slot of its plan, and the slots before it are as they were. -/
lemma Done.new_entry (h : Done v p d pre post new grow old v') (hs : Synced v)
    (hnew : v.image.New v'.image d' i e) : d' = d ∧ Image.liveOption ((p.cleared v.image).entry p.slot) = none ∧
      (v'.image.Apart d' i ↔ Unattached ((p.cleared v.image).read pre)) := by
  have ha := h.agree hs
  have hput := h.valid.put
  obtain ⟨hobj, hold⟩ := hnew
  rcases hput.obj.mp ((ha.same hput.sound').obj.mp hobj) with ⟨ho, -⟩ | ⟨rfl, rfl, hlive⟩
  · exact absurd (h.valid.quiet.same.obj.mp ho) (hold e)
  have hreach : (p.published v.image).forest.Reach d' := ((ha.same hput.sound').obj.mp hobj).1
  have hslots : (p.published v.image).slots d' = pre ++ p.slot :: post := hput.slots
  have hslots' : v'.image.slots d' = pre ++ p.slot :: post := (ha.slots hput.sound' hreach).trans hslots
  have hnot := hput.toSlotAt.not_mem hput.sound
  have hread : v'.image.read pre = (p.cleared v.image).read pre := by
    refine Image.read_congr fun j hj => ?_
    rw [ha.entry hput.sound' hreach (by rw [hslots]; exact List.mem_append_left _ hj)]
    exact hput.toSlotAt.entry_other hput.sound hput.reach (by rw [hput.slots]; exact List.mem_append_left _ hj)
      fun e => hnot.1 (e ▸ hj)
  refine ⟨rfl, ?_, fun hap => hread ▸ hap pre post hslots', fun hun pre' post' hsl => ?_⟩
  · cases hl : Image.liveOption ((p.cleared v.image).entry p.slot) with
    | none => rfl
    | some f => exact absurd (h.valid.quiet.same.obj.mp (hput.edit.old_obj hl)) (hold f)
  · obtain ⟨rfl, -, -⟩ := (List.append_cons_inj_of_notMem hnot.1 hnot.2).mp (hslots'.symm.trans hsl)
    rwa [hread]

lemma Placed.of_replace (h : Placed x d (replaceTarget t name) p pre) : Placed x d t p pre := by
  have hg : (replaceTarget t name).grow = t.grow := by
    unfold replaceTarget
    split <;> rfl
  have hi : (replaceTarget t name).id = t.id := by
    unfold replaceTarget
    split <;> rfl
  exact ⟨h.kept, fun hf => hi ▸ h.slot (hg.trans hf), fun hf => h.behind (hg.trans hf)⟩

lemma Mutation.Result.new_apart_iff {op : Mutation} {parent : Nat} (h : Mutation.Result v op v')
    (hc : Consistent v) (hop : (∃ data, op = .replace parent name data) ∨ op = .mkdir parent name)
    (hnew : v.image.New v'.image d' i e) : DirId v.image parent d' ∧ (v'.image.Apart d' i ↔ v.image.Closed d') := by
  rcases hop with ⟨data, rfl⟩ | rfl
  · cases h with
    | @replace _ _ _ t d old p pre post new grow _ h =>
      obtain ⟨rfl, hnone, hiff⟩ := h.rewritten.toDone.new_entry hc.synced hnew
      refine ⟨h.parent, hiff.trans ?_⟩
      rcases Bool.eq_false_or_eq_true t.exists with he | he
      · -- an existing target is a live entry in the slot that is rewritten
        have ht : replaceTarget t name = t := by simp [replaceTarget, he]
        obtain ⟨hg, hend', pre', post', hx⟩ := h.located.existing_of he
        have hold := h.rewritten.old_entry
        rw [ht] at hold
        rcases hold with ⟨-, -, -, h4⟩ | ⟨h4, -⟩
        · rw [h4, hx.live] at hnone
          cases hnone
        · rw [hg, hend'] at h4
          simp at h4
      · exact h.rewritten.placed.of_replace.unattached_iff h.located he hc.sound h.parent.reach
  · cases h with
    | @mkdir _ _ t d n p pre post grow _ h =>
      obtain ⟨rfl, -, hiff⟩ := h.made.toDone.new_entry hc.synced hnew
      exact ⟨h.parent, hiff.trans (h.made.placed.unattached_iff h.located h.absent hc.sound h.parent.reach)⟩

/-- **When an orphan is attached.** A new entry of a successful `fat16_replace_file` or `fat16_mkdir_node` is in the
parent directory. The slot before it is one of a long name exactly if the directory was full and ended with such a slot.
-/
theorem new_entry_unattached {w w' : World} {op : Mutation} {parent d i : Nat} {e : Entry} (hcache : Coherent w)
    (hc : Consistent w.vol) (hl : op.Legal w.vol.image)
    (hop : (∃ data, op = .replace parent name data) ∨ op = .mkdir parent name) (hrun : op.run.run w = (.ok (), w'))
    (hnew : w.vol.image.New w'.vol.image d i e) :
    DirId w.vol.image parent d ∧ (w'.vol.image.Apart d i ↔ w.vol.image.Closed d) := by
  have hheal := Replays.mutation op w () w' hrun
  have hres := ((op.runs hc.sound hl).apply (World.heal_good hcache) rfl).2
  rw [hheal] at hres
  have hres : op.Result w.vol w'.vol := hres
  exact hres.new_apart_iff hc hop hnew

/-- The new directory is in the first slot of the root, before which there is none. -/
theorem new_entry_unattached_mkdir : ∃ e, blank.vol.image.New madeA.vol.image 0 530 e ∧
    madeA.vol.image.Apart 0 530 := by
  obtain ⟨hempty, hslot, ⟨hok, -⟩, hlive, -⟩ := blank_facts
  have hm : 530 ∈ (madeA.vol.image.live 0).map Prod.fst := by rw [hlive]; exact List.mem_singleton_self 530
  obtain ⟨⟨i, e⟩, he, rfl⟩ := List.mem_map.mp hm
  have hnew : blank.vol.image.New madeA.vol.image 0 530 e := by
    refine ⟨⟨.root, he⟩, fun e' ho => ?_⟩
    have hold : (530, e') ∈ blank.vol.image.live 0 := ho.2
    rw [List.eq_nil_of_length_eq_zero hempty] at hold
    cases hold
  have hclosed : blank.vol.image.Closed 0 := fun hfull =>
    absurd rfl (hfull (530, blank.vol.image.entry 530) (List.mem_map.mpr ⟨530, hslot, rfl⟩)).1
  exact ⟨e, hnew, (new_entry_unattached blank_good.2 blank_consistent legal_makeA (.inr rfl)
    (makeA.run_eq hok) hnew).2.mpr hclosed⟩

/-! ## A full directory that ends with a long name -/

/-- The bytes of a slot of a long name. -/
def longBytes : Entry := fun j => if j = 0 then 0x41 else if j = 11 then 0x0f else 0

/-- A medium with the directory `A`, whose one cluster is filled with long-name slots behind the dot entries. -/
def longMedium : Mem := fun a =>
  if a = 516 ∨ a = 517 ∨ a = 8708 ∨ a = 8709 then 0xff
  else if 16896 ≤ a ∧ a < 16928 then makeEntry [65] true 2 0 (a - 16896)
  else if 17408 ≤ a ∧ a < 17440 then dotSlot false 2 (a - 17408)
  else if 17440 ≤ a ∧ a < 17472 then dotSlot true 0 (a - 17440)
  else if 17472 ≤ a ∧ a < 17920 then longBytes ((a - 17472) % 32)
  else 0

lemma long_copy {k : Nat} (hk : k < 2) : CopyIs smallGeometry longMedium k twinFat := by
  intro j hj
  have hj' : j < 8192 := hj
  have he : fatAt smallGeometry k = 512 + k * 8192 := by
    simp only [fatAt, smallGeometry]
    omega
  rw [he]
  unfold longMedium twinFat
  by_cases h : j = 4 ∨ j = 5
  · rw [if_pos (by omega), if_pos h]
  · rw [if_neg (by omega), if_neg (by omega), if_neg (by omega), if_neg (by omega), if_neg (by omega), if_neg h]

/-- The volume with the full directory. -/
def longWorld : World := smallWorld twinFat longMedium

/-- Making the directory `B` in the full directory. -/
def longCall : Mutation := .mkdir 530 [66]

set_option maxRecDepth 100000 in
/-- The volume holds one directory in cluster 2, without live entries behind its dot entries. The call makes an entry in
the first slot of a new cluster. -/
lemma long_facts : ((longWorld.vol.image.live 0).map Prod.fst = [530] ∧ (longWorld.vol.image.live 2).map Prod.fst = [] ∧
    (entryKind (longWorld.vol.image.entry 530) = .directory ∧ entryFirst (longWorld.vol.image.entry 530) = 2 ∧
      entrySize (longWorld.vol.image.entry 530) = 0) ∧
    (validCluster longWorld.vol.image.geo 2 = true ∧ firstEnd ≤ nextCluster longWorld.vol.image.fat 2) ∧
    longWorld.vol.image.slots 2 = 546 :: 547 :: (longWorld.vol.image.slots 2).drop 2 ∧
    dotsOk (longWorld.vol.image.entry 546) false 2 = true ∧ dotsOk (longWorld.vol.image.entry 547) true 0 = true) ∧
    (longCall.run.run longWorld).1 = .ok () ∧ (longCall.run.run longWorld).2.vol.image.slots 2 =
      (List.range 15).map (· + 546) ++ 561 :: 578 :: (List.range 15).map (· + 579) ∧
    longSlot ((longCall.run.run longWorld).2.vol.image.entry 561) = true ∧
    530 ∈ ((longCall.run.run longWorld).2.vol.image.live 0).map Prod.fst ∧
    578 ∈ ((longCall.run.run longWorld).2.vol.image.live 2).map Prod.fst ∧
    subdirectory ((longCall.run.run longWorld).2.vol.image.entry 530) = some 2 := by
  decide +kernel

lemma long_live : longWorld.vol.image.live 0 = [(530, longWorld.vol.image.entry 530)] := by
  obtain ⟨y, hy, h1⟩ := List.map_eq_singleton_iff.mp long_facts.1.1
  have he := (Image.mem_live (x := longWorld.vol.image) (d := 0) (hy ▸ List.mem_singleton_self y)).2.1
  rw [hy]
  exact congrArg (fun z => [z]) (Prod.ext h1 (h1 ▸ he))

lemma long_live_sub : longWorld.vol.image.live 2 = [] := List.map_eq_nil_iff.mp long_facts.1.2.1

lemma long_entry : entryKind (longWorld.vol.image.entry 530) = .directory ∧
    entryFirst (longWorld.vol.image.entry 530) = 2 ∧ entrySize (longWorld.vol.image.entry 530) = 0 :=
  long_facts.1.2.2.1

lemma long_obj {d : Nat} : longWorld.vol.image.forest.Obj d i e ↔
    d = 0 ∧ i = 530 ∧ e = longWorld.vol.image.entry 530 := by
  have hreach : ∀ d, longWorld.vol.image.forest.Reach d → d = 0 ∨ d = 2 := by
    intro d hr
    induction hr with
    | root => exact .inl rfl
    | sub _ hm hsub ih =>
      rcases ih with rfl | rfl
      · rw [Image.forest_kids, long_live, List.mem_singleton] at hm
        cases hm
        rw [Image.forest_sub, Image.subdirectory_eq_some] at hsub
        exact .inr (hsub.2.symm.trans long_entry.2.1)
      · rw [Image.forest_kids, long_live_sub] at hm
        cases hm
  constructor
  · rintro ⟨hr, hm⟩
    rcases hreach d hr with rfl | rfl
    · rw [Image.forest_kids, long_live, List.mem_singleton] at hm
      cases hm
      exact ⟨rfl, rfl, rfl⟩
    · rw [Image.forest_kids, long_live_sub] at hm
      cases hm
  · rintro ⟨rfl, rfl, rfl⟩
    exact ⟨.root, by rw [Image.forest_kids, long_live]; exact List.mem_singleton_self _⟩

lemma long_consistent : Consistent longWorld.vol where
  synced := ⟨long_copy (by omega), long_copy (by omega)⟩
  sound := by
    refine ⟨fun ho => ?_, fun ho _ => ?_, fun ho ho' hne _ _ => ?_⟩
    · obtain ⟨-, -, rfl⟩ := long_obj.mp ho
      refine ⟨[2], .directory long_entry.1 long_entry.2.2 ?_⟩
      rw [long_entry.2.1]
      exact .last long_facts.1.2.2.2.1.1 long_facts.1.2.2.2.1.2
    · obtain ⟨rfl, -, rfl⟩ := long_obj.mp ho
      rw [long_entry.2.1]
      exact ⟨546, 547, (longWorld.vol.image.slots 2).drop 2, long_facts.1.2.2.2.2⟩
    · obtain ⟨-, rfl, -⟩ := long_obj.mp ho
      obtain ⟨-, rfl, -⟩ := long_obj.mp ho'
      exact absurd rfl hne

/-- The new entry goes into slot 578 directly behind slot 561, which is part of a long name. -/
theorem mkdir_attaches_orphan : Consistent longWorld.vol ∧ Good longWorld ∧ longCall.Legal longWorld.vol.image ∧
    (longCall.run.run longWorld).1 = .ok () ∧ longSlot ((longCall.run.run longWorld).2.vol.image.entry 561) = true ∧
    ∃ e, longWorld.vol.image.New (longCall.run.run longWorld).2.vol.image 2 578 e ∧
      ¬(longCall.run.run longWorld).2.vol.image.Apart 2 578 := by
  obtain ⟨hok, hslots, hlong, h0, h2, hsub⟩ := long_facts.2
  refine ⟨long_consistent, smallWorld_good, ⟨.inr ⟨0, _, long_obj.mpr ⟨rfl, rfl, rfl⟩⟩, by decide⟩, hok, hlong, ?_⟩
  obtain ⟨⟨i, e⟩, hi, rfl⟩ := List.mem_map.mp h0
  obtain ⟨⟨j, f⟩, hj, rfl⟩ := List.mem_map.mp h2
  have ho : (longCall.run.run longWorld).2.vol.image.forest.Obj 2 578 f :=
    ⟨.sub .root hi (by rw [(Image.mem_live hi).2.1]; exact hsub), hj⟩
  refine ⟨f, ⟨ho, fun e' h => by simpa using (long_obj.mp h).1⟩, fun hap => ?_⟩
  have hfree := hap ((List.range 15).map (· + 546) ++ [561]) _ (by rw [hslots, List.append_assoc]; rfl)
    (561, (longCall.run.run longWorld).2.vol.image.entry 561) (by simp [Image.read])
  rw [hlong] at hfree
  cases hfree

end RumKernel.Fat16
