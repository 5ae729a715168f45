import RumKernel.Fat16.Placement

/-!
# The steps of the mutations

On a healthy device the bodies of `rewrite`, `fat16_mkdir_node` and `fat16_remove_node` carry out valid
plans: each either fails before its first write or ends with the plan performed.
-/

namespace RumKernel.Fat16
open Lib Fs Prog

variable {v v' : Vol} {x : Image} {d i id k n last : Nat} {e : Entry} {t : Target} {fat1 fat2 content : Mem}
  {cs new grow old pre post : List Nat} {name : Name}
variable {y : Image} {Q : Except FsError Unit → Vol → Prop} {p : Plan} {size : Nat} {wc wp : List Write}

/-- Where an entry can go in the directory `d`: a slot before the end marker, the end marker itself, or the
cluster a full directory grows by. -/
inductive Spot (x : Image) (d : Nat) (t : Target) : Prop where
  | used (pre post : List Nat) : t.grow = false → t.end = false → Image.Editable x d t.id pre post → Spot x d t
  | last (pre post : List Nat) : t.grow = false → t.end = true → t.cursor = pre.length →
    DirDesc x d t.directory → Image.SlotAt x d t.id pre post → (∀ j ∈ pre, x.entry j 0 ≠ 0) →
    (d ≠ 0 → 2 ≤ pre.length) → x.entry t.id 0 = 0 → Spot x d t
  | full (cs : List Nat) (name : Name) : t.grow = true → t.cursor = directorySlots x.geo t.directory →
    DirDesc x d t.directory → x.forest.Reach d → Full x d name cs → Spot x d t

lemma Located.spot (h : Located x d name t) (hd : DirDesc x d t.directory) (hr : x.forest.Reach d) : Spot x d t := by
  cases h with
  | existing pre post _ hg he hx => exact .used pre post hg he hx.toEditable
  | vacant pre post _ hg _ hv =>
    rcases hv.state with ⟨h5, he⟩ | ⟨h0, he, hc⟩
    · refine .used pre post hg he ⟨hv.toSlotAt, hv.before, hv.depth, fun h0 => ?_⟩
      rw [h0] at h5
      exact absurd h5 (by decide)
    · exact .last pre post hg he hc hd hv.toSlotAt hv.before hv.depth h0
  | full cs _ hg _ hc hf => exact .full cs name hg hc hd hr hf

/-- The plan of a mutation that fills `new` with `content` and grows a directory by `grow`. -/
def plan (g : Geometry) (new grow : List Nat) (content fat1 : Mem) (clear : Option Nat) (slot : Nat) (e : Entry)
    (fat2 : Mem) : Plan :=
  { reserved := new ++ grow, data := fill g content new grow, fat1, clear, slot, entry := e, fat2 }

/-- The entry that stands in the spot before the new one: the old one, or none that is live. -/
def OldEntry (x : Image) (t : Target) (p : Plan) : Prop :=
  (t.end = false ∧ t.grow = false ∧ p.slot = t.id ∧ (p.cleared x).entry p.slot = x.entry t.id) ∨
    ((t.end = true ∨ t.grow = true) ∧ Image.liveOption ((p.cleared x).entry p.slot) = none)

/-- Where the plan puts its entry: behind the slots `pre`, which keep their entries, in the target's slot or in the
first one behind the full directory. -/
structure Placed (x : Image) (d : Nat) (t : Target) (p : Plan) (pre : List Nat) : Prop where
  kept : ∀ j ∈ pre, (p.cleared x).entry j = x.entry j
  slot : t.grow = false → ∃ post, x.slots d = pre ++ t.id :: post
  behind : t.grow = true → x.slots d = pre

/-- Where in the image a plan writes its entry, its end marker and its table: into a slot of the directory or of the
cluster it grows by, into the slot right behind an end marker that the entry replaces, and into the words of the
clusters it takes and of the last cluster of a directory that grows. No slot of the directory moves. -/
structure Places (x : Image) (d : Nat) (p : Plan) (new grow : List Nat) : Prop where
  reach : x.forest.Reach d
  slot : (grow = [] ∧ p.slot ∈ x.slots d) ∨ ∃ c ∈ grow, p.slot ∈ clusterSlots x.geo c
  behind : ∀ j, p.clear = some j → x.entry p.slot 0 = 0 ∧ ∃ pre tl, x.slots d = pre ++ p.slot :: j :: tl
  slots : x.slots d <+: (p.cleared x).slots d
  words : ∀ c, c ∉ new → c ∉ grow → nextCluster p.fat1 c ≠ nextCluster x.fat c →
    grow ≠ [] ∧ ∃ cs, IsChain x.geo x.fat d cs ∧ cs.getLast? = some c

lemma DirDesc.of_agree {desc : Description} (h : DirDesc x d desc) (hs : x.Sound)
    (hr : x.forest.Reach d) (ha : Image.Agree x y) : DirDesc y d desc := by
  rcases h with h | ⟨hid, hk, hf, cs, hc, hl⟩
  · exact .inl h
  · refine .inr ⟨hid, hk, hf, cs, ha.isChain hc fun c hm => hs.clusters_owned hr ?_, hl⟩
    rwa [Image.clusters_eq hc]

lemma Spot.runs (h : Spot v.image d t) (fat2 : Mem) (hs : v.image.Sound)
    (hro : v.device.readOnly = false) (hg : t.grow = false) (hr : Reserved v.geo v.fat fat1 new [])
    (hQ : ∀ p pre post wc wp v', p.entry = e → p.fat1 = fat1 → p.fat2 = fat2 →
      Placement p v.image d pre post new [] content → OldEntry v.image t p →
      Placed v.image d t p pre → Places v.image d p new [] →
      Committed v p.data p.fat1 p.clear p.slot p.entry wc wp v' → Q (.ok ()) v') :
    Runs (v.writes (fill v.geo content new [])) (commit t fat1 e) Q := by
  have hbase : ∀ clear, Grounded (plan v.geo new [] content fat1 clear t.id e fat2) v.image new [] content ∧
      Image.Agree v.image ((plan v.geo new [] content fat1 clear t.id e fat2).prepared v.image) :=
    fun clear => Reserved.grounded hs hr rfl rfl
  have ha := (hbase none).2
  cases h with
  | used pre post _ he hed =>
    refine commit_runs d pre post hro (hs.slotOffset hed.reach hed.mem) ?_ ?_
    · intro hn
      rw [hn.1] at he
      cases he
    · intro clear wc wp v' hb hc
      have hnone : clear = none := by
        cases hb with
        | keep _ => rfl
        | clear hn _ =>
          rw [hn.1] at he
          cases he
      subst hnone
      have hp := (hbase none).1.place rfl (hed.of_agree hs ha)
      refine hQ _ pre post wc wp v' rfl rfl rfl hp (.inl ?_)
        ⟨fun j hj => ?_, fun _ => ⟨post, hed.slots⟩, fun hg' => ?_⟩
        ⟨hed.reach, .inl ⟨rfl, hed.mem⟩, nofun, (hed.slots.trans hp.editable.slots.symm) ▸ List.prefix_rfl,
          fun c h1 h2 hne => absurd (hr.other c h1 h2) hne⟩ hc
      · exact ⟨he, hg, rfl, ha.entry hs hed.reach hed.mem⟩
      · exact ha.entry hs hed.reach (by simp [hed.slots, hj])
      · rw [hg] at hg'
        cases hg'
  | last pre post _ he hcur hdesc hat hbefore hdepth h0 =>
    refine commit_runs d pre post hro (hs.slotOffset hat.reach hat.mem)
      (fun _ => ⟨hdesc.of_agree hs hat.reach ha, (ha.slots hs hat.reach).trans hat.slots, hcur⟩) ?_
    intro clear wc wp v' hb hc
    obtain ⟨hbase, ha⟩ := hbase clear
    have hneed : ¬NeedsEnd v.geo t → post = [] := by
      intro hn
      have hlen := hdesc.slot_count
      rw [hat.slots, List.length_append, List.length_cons] at hlen
      have : ¬t.cursor + 1 < directorySlots v.geo t.directory := fun h => hn ⟨he, h⟩
      rw [show directorySlots v.geo t.directory = _ from hlen] at this
      exact List.length_eq_zero_iff.mp (by omega)
    have hentry : ∀ j ∈ pre ++ t.id :: post, _ = v.image.entry j := fun j hj =>
      ha.entry hs hat.reach (by rwa [hat.slots])
    have hat' : Image.SlotAt ((plan v.geo new [] content fat1 clear t.id e fat2).prepared v.image) d t.id pre post :=
      ⟨(ha.same hs).reach.mpr hat.reach, (ha.slots hs hat.reach).trans hat.slots⟩
    obtain ⟨hp, hz, hkeep⟩ := hbase.place_end hat' (fun j hj => by rw [hentry j (by simp [hj])]; exact hbefore j hj)
      hdepth (by
        show Image.entry _ t.id 0 = 0
        rw [hentry t.id (by simp)]
        exact h0) hneed hb
    refine hQ _ pre post wc wp v' rfl rfl rfl hp (.inr ⟨.inl he, by simp [Image.liveOption, hz]⟩)
      ⟨fun j hj => ?_, fun _ => ⟨post, hat.slots⟩, fun hg' => ?_⟩
      ⟨hat.reach, .inl ⟨rfl, hat.mem⟩, fun j hj => ⟨h0, ?_⟩,
        (hat.slots.trans hp.editable.slots.symm) ▸ List.prefix_rfl,
        fun c h1 h2 hne => absurd (hr.other c h1 h2) hne⟩ hc
    · rw [hkeep j hj]
      exact hentry j (by simp [hj])
    · rw [hg] at hg'
      cases hg'
    · cases hb with
      | keep _ => cases hj
      | clear _ hpost =>
        cases hj
        exact ⟨pre, _, hpost ▸ hat.slots⟩
  | full cs name hg' => rw [hg] at hg'; cases hg'

lemma Spot.runs_grown (h : Spot v.image d t) (fat2 : Mem) (hs : v.image.Sound)
    (hro : v.device.readOnly = false) (hg : t.grow = true) (hr : Reserved v.geo v.fat fat1 new [n])
    (hl : last = clusterAt v.fat t.directory.first (t.directory.length - 1))
    (hQ : ∀ p pre post wc wp v', p.entry = e → p.fat1 = setCluster fat1 last n → p.fat2 = fat2 →
      Placement p v.image d pre post new [n] content → OldEntry v.image t p →
      Placed v.image d t p pre → Places v.image d p new [n] →
        Committed v p.data p.fat1 p.clear p.slot p.entry wc wp v' → Q (.ok ()) v') :
    Runs (v.writes (fill v.geo content new [n]))
      (commit { t with id := clusterSector v.geo n * 16 + 2 } (setCluster fat1 last n) e) Q := by
  cases h with
  | used _ _ hg' => rw [hg] at hg'; cases hg'
  | last _ _ hg' => rw [hg] at hg'; cases hg'
  | full cs name _ hcur hdesc hreach hf =>
    have hlast : cs.getLast? = some last := by
      rcases hdesc with ⟨rfl, -⟩ | ⟨-, -, hfirst, cs', hc, hlen⟩
      · have := validCluster_range (hf.chain.valid hf.chain.head_mem)
        omega
      · obtain rfl := hf.chain.det hc
        rw [hl, hfirst, hlen]
        exact clusterAt_last hf.chain
    have hbase : Grounded (plan v.geo new [n] content (setCluster fat1 last n) none
        (clusterSector v.geo n * 16 + 2) e fat2) v.image new [n] content :=
      Reserved.grounded_grown hs hreach hf hr hlast rfl rfl rfl
    obtain ⟨⟨rest, hed⟩, hkeep⟩ := hf.editable hs hreach hr hlast content
    have hp := hbase.place rfl hed
    have hn : ¬NeedsEnd v.geo { t with id := clusterSector v.geo n * 16 + 2 } := by
      intro hn
      have h2 : t.cursor + 1 < directorySlots v.geo t.directory := hn.2
      rw [show t.cursor = directorySlots v.geo t.directory from hcur] at h2
      omega
    refine commit_runs d (v.image.slots d) rest hro hp.slot_at (fun h => absurd h hn) ?_
    intro clear wc wp v' hb hc
    have hnone : clear = none := by
      cases hb with
      | keep _ => rfl
      | clear h _ => exact absurd h hn
    subst hnone
    obtain ⟨tl, htl⟩ := clusterSlots_cons (g := v.geo) (c := n)
    have hmem : clusterSector v.geo n * 16 + 2 ∈ clusterSlots v.image.geo n := by
      rw [Vol.image_geo, htl]
      simp
    refine hQ _ _ rest wc wp v' rfl rfl rfl hp (.inr ⟨.inr hg, ?_⟩)
      ⟨hkeep, fun hg' => absurd (hg.symm.trans hg') (by decide), fun _ => rfl⟩
      ⟨hreach, .inr ⟨n, by simp, hmem⟩, nofun, ⟨_, hp.editable.slots.symm⟩,
        fun c h1 h2 hne => ⟨by simp, cs, hf.chain, ?_⟩⟩ hc
    rotate_left
    · by_cases hcl : c = last
      · rw [hcl]
        exact hlast
      · exact absurd ((nextCluster_setCluster_other hcl).trans (hr.other c h1 h2)) hne
    have hz := Reserved.zero_eq (x := v.image) (i := clusterSector v.geo n * 16 + 2) (k := 0) hr content hmem (by omega)
    exact if_neg fun h => h.1 hz

/-- The file a target stands for, with the chain `old` it owns; none when there is nothing in the slot. -/
structure OldTarget (x : Image) (t : Target) (old : List Nat) : Prop where
  file : OldFile x.geo x.fat t.old old
  chain : old ≠ [] → IsChain x.geo x.fat t.old.first old
  live : t.end = false → t.grow = false → ∀ f, Image.liveOption (x.entry t.id) = some f →
    entryKind f = .file ∧ x.Holds f old
  present : old ≠ [] → t.end = false ∧ t.grow = false ∧ Image.liveOption (x.entry t.id) ≠ none

/-- The plan `p` was valid and has been carried out. -/
structure Done (v : Vol) (p : Plan) (d : Nat) (pre post new grow old : List Nat) (v' : Vol) : Prop where
  valid : p.Valid v.image d pre post new grow old
  performed : ∃ wc wp, p.Performed v v' wc wp
  places : Places v.image d p new grow
  mount : SameMount v v'

lemma Done.agree_final (h : Done v p d pre post new grow old v') (hs : Synced v) :
    Synced v' ∧ Image.Agree (p.final v.image) v'.image := by
  obtain ⟨wc, wp, hp⟩ := h.performed
  exact Plan.Performed.agree_final h.valid hp hs

lemma Reserved.holds (h : Reserved x.geo x.fat fat1 new []) (hg : y.geo = x.geo) (hf : y.fat = fat1)
    (hh : x.Holds e cs) : y.Holds e cs := by
  have hn : ∀ c ∈ cs, nextCluster y.fat c = nextCluster x.fat c := by
    intro c hc
    rw [hf]
    exact h.other c (fun hm => hh.next_ne_zero hc (h.free c (.inl hm)).2) (by simp)
  cases hh with
  | empty h1 h2 h3 => exact .empty h1 h2 h3
  | file h1 h2 h3 h4 => exact .file h1 h2 (hg ▸ h3.congr hn) (hg ▸ h4)
  | directory h1 h2 h3 => exact .directory h1 h2 (hg ▸ h3.congr hn)

lemma OldTarget.freed (h : OldTarget x t old) (hr : Reserved x.geo x.fat fat1 new grow)
    (hkeep : ∀ c ∈ old, nextCluster fat2 c = nextCluster fat1 c) :
    nextCluster (freeChain (copyInto x.fat fat2 x.geo.fatBytes) fat2 t.old) k =
      if k ∈ old then 0 else nextCluster fat2 k := by
  unfold freeChain
  rw [h.file.length]
  by_cases ho : old = []
  · subst ho
    simp [freeLoop]
  · have hc := h.chain ho
    refine nextCluster_freeLoop (IsChain.congr hc fun c hm => ?_)
    have hv := validCluster_range (IsChain.valid hc hm)
    rw [nextCluster_copy (g := x.geo) (fun j hj => by rw [copyInto, if_pos hj]) (by omega), hkeep c hm]
    refine hr.other c (fun hn => ?_) fun hn => ?_
    · exact IsChain.next_ne_zero hc hm (hr.free c (.inl hn)).2
    · exact IsChain.next_ne_zero hc hm (hr.free c (.inr hn)).2

/-- The entry of a file that is to be written. -/
structure FileEntry (e : Entry) : Prop where
  clipped : slice e 0 32 = e
  nonzero : e 0 ≠ 0
  live : liveEntry e = true
  kind : entryKind e = .file

lemma Placement.valid_rewrite (h : Placement p v.image d pre post new grow content)
    (he : FileEntry t.entry) (hentry : p.entry = rewriteEntry t.entry (new.head?.getD 0) size)
    (hsize : size < 4294967296) (hlen : new.length = clustersFor v.geo size) (ho : OldTarget v.image t old)
    (hold : OldEntry v.image t p)
    (hholds : t.grow = false → ∀ f, v.image.Holds f old → (p.cleared v.image).Holds f old)
    (hfreed : ∀ c, nextCluster p.fat2 c = if c ∈ old then 0 else nextCluster p.fat1 c) :
    p.Valid v.image d pre post new grow old ∧
      (p.published v.image).bytes p.entry = (List.range size).map content := by
  have hfirst : new.head?.getD 0 < 65536 := by
    cases hn : new with
    | nil => simp
    | cons c tl =>
      have := validCluster_range (h.free c (.inl (by simp [hn]))).1
      simp only [List.head?_cons, Option.getD_some]
      omega
  have e1 : entryFirst p.entry = new.head?.getD 0 := by rw [hentry, rewriteEntry_first hfirst]
  have e2 : entrySize p.entry = size := by rw [hentry, rewriteEntry_size hsize]
  have hlen' : new.length = clustersFor v.image.geo (entrySize p.entry) := by rw [e2]; exact hlen
  refine ⟨h.valid_file ?_ (fun hf => ?_) hfreed ?_ ?_ ?_ hlen' e1 fun f hf => ?_, ?_⟩
  · rw [hentry]
    exact rewriteEntry_clipped he.clipped
  · by_contra hne
    obtain ⟨h1, h2, h3⟩ := ho.present hne
    rcases hold with ⟨-, -, -, h4⟩ | ⟨h4, -⟩
    · rw [h4] at hf
      exact h3 hf
    · rcases h4 with h4 | h4 <;> simp_all
  · rw [hentry, rewriteEntry_apply (by omega) (by omega)]
    exact he.nonzero
  · rw [hentry, rewriteEntry_live]
    exact he.live
  · rw [hentry, rewriteEntry_kind]
    exact he.kind
  · rcases hold with ⟨h1, h2, -, h4⟩ | ⟨-, h4⟩
    · rw [h4] at hf
      obtain ⟨hk, hh⟩ := ho.live h1 h2 f hf
      exact ⟨hk, hholds h2 f hh⟩
    · rw [h4] at hf
      cases hf
  · rw [h.bytes_new hlen' e1, e2]

/-- What a completed `rewrite` of the target has done. -/
structure Rewritten (v : Vol) (t : Target) (d : Nat) (old : List Nat) (size : Nat) (content : Mem) (p : Plan)
    (pre post new grow : List Nat) (v' : Vol) : Prop extends Done v p d pre post new grow old v' where
  entry : p.entry = rewriteEntry t.entry (new.head?.getD 0) size
  old_entry : OldEntry v.image t p
  placed : Placed v.image d t p pre
  bytes : (p.published v.image).bytes p.entry = (List.range size).map content
  committed : v'.committed = true

lemma rewrite_end {u : Vol}
    (hro : v.device.readOnly = false)
    (hc : Committed v p.data p.fat1 p.clear p.slot p.entry wc wp u)
    (hv : p.Valid v.image d pre post new grow old)
    (hentry : p.entry = rewriteEntry t.entry (new.head?.getD 0) size) (hold : OldEntry v.image t p)
    (hplaced : Placed v.image d t p pre) (hplaces : Places v.image d p new grow)
    (hbytes : (p.published v.image).bytes p.entry = (List.range size).map content)
    (hfat2 : p.fat2 = freeChain (copyInto v.fat p.fat1 v.geo.fatBytes) p.fat1 t.old)
    (hok : ∀ v', Rewritten v t d old size content p pre post new grow v' → Q (.ok ()) v') :
    Runs u (do
      modify fun w : World => { w with committed := true }
      let w ← get
      persistFat (freeChain w.fat p.fat1 t.old)) Q := by
  refine Runs.bind (Runs.modify { u with committed := true } (fun h => ⟨h, rfl, rfl, rfl, rfl, rfl⟩) rfl ?_)
  refine Runs.get_bind fun h => ?_
  have hf : freeChain u.fat p.fat1 t.old = p.fat2 := by rw [hc.fat, hfat2]
  show Runs _ (persistFat (freeChain u.fat p.fat1 t.old)) Q
  rw [hf]
  refine persistFat_runs (by rw [show Vol.device _ = _ from hc.mount.device]; exact hro) fun v1 v2 h₁ h₂ => hok _ ?_
  obtain ⟨hp, hm⟩ := hc.performed h₁ h₂ rfl
  exact ⟨⟨hv, ⟨wc, wp, hp⟩, hplaces, hm⟩, hentry, hold, hplaced, hbytes, h₂.same.committed.trans h₁.same.committed⟩

theorem rewriteBody_runs {offset : Nat} {data : List Byte}
    {keep : Bool} (hs : v.image.Sound) (hro : v.device.readOnly = false) (hspot : Spot v.image d t)
    (he : FileEntry t.entry) (ho : OldTarget v.image t old) (hsize : size < 4294967296) (herr : ∀ r, Q (.error r) v)
    (hok : ∀ p pre post new grow v', Rewritten v t d old size
      (fileContent v.geo v.medium old t.old.node.size size offset data keep) p pre post new grow v' →
        Q (.ok ()) v') : Runs v (rewriteBody t size offset data keep v.fat) Q := by
  unfold rewriteBody
  refine Runs.get_bind fun h => ?_
  simp only [mkWorld_geo]
  refine Runs.bind (Runs.lift ?_)
  cases ha : allocate v.geo v.fat (clustersFor v.geo size) with
  | error r => exact herr r
  | ok r =>
    obtain ⟨fatA, first⟩ := r
    obtain ⟨new, hal, hlen, hfirst⟩ := allocate_ok ha
    have hr := hal.reserved
    simp only
    refine Runs.ite (fun _ => Runs.fail_bind (herr _)) fun hfree => ?_
    have hov : ∀ c ∈ old, validCluster v.geo c = true := fun c hc =>
      IsChain.valid (ho.chain (List.ne_nil_of_mem hc)) hc
    have hdisj : ∀ c ∈ new, c ∉ old := fun c hc hco =>
      IsChain.next_ne_zero (ho.chain (List.ne_nil_of_mem hco)) hco (hal.free c hc)
    refine Runs.bind (copyContents_runs hro
      (fun c tl e => by
        have hc := hal.chain c tl e
        rw [hfirst]
        simpa [e] using hc)
      hlen (fun _ => ho.file) hdisj hov ?_)
    simp only
    refine Runs.bind (growDirectory_runs hro (fun hg => ?_) (fun hg => ?_) fun hg fat' n hn => ?_)
    · intro h0
      exact hfree ⟨hg, h0⟩
    · rw [show contentWrites v.geo _ new 0 = fill v.geo
        (fileContent v.geo v.medium old t.old.node.size size offset data keep) new [] by simp [fill, contentWrites]]
      refine Runs.bind (hspot.runs (freeChain (copyInto v.fat fatA v.geo.fatBytes) fatA t.old) hs hro hg hr
        fun p pre post wc wp u e1 e2 e3 hp hold hplaced hplaces hc => ?_)
      simp only at e1 e2 e3 ⊢
      have hentry : p.entry = rewriteEntry t.entry (new.head?.getD 0) size := by rw [e1, hfirst]
      obtain ⟨hv, hb⟩ := hp.valid_rewrite he hentry hsize hlen ho hold
        (fun _ f hh => hr.holds Plan.cleared_geo (Plan.cleared_fat.trans e2) hh)
        (fun c => by
          rw [e3, e2]
          exact ho.freed hr fun _ _ => rfl)
      rw [← e2]
      exact rewrite_end hro hc hv hentry hold hplaced hplaces hb (by rw [e3, e2]) fun v' => hok p pre post new [] v'
    · have hr' := hr.more hn
      have hnone : old = [] := by
        by_contra hne
        have hg' := (ho.present hne).2.1
        rw [hg] at hg'
        cases hg'
      rw [Vol.writes_writes]
      refine Runs.bind (hspot.runs_grown (freeChain (copyInto v.fat (setCluster fat' (clusterAt v.fat
        t.directory.first (t.directory.length - 1)) n) v.geo.fatBytes) (setCluster fat' (clusterAt v.fat
        t.directory.first (t.directory.length - 1)) n) t.old) hs hro hg hr' rfl
        fun p pre post wc wp u e1 e2 e3 hp hold hplaced hplaces hc => ?_)
      simp only at e1 e2 e3 ⊢
      have hentry : p.entry = rewriteEntry t.entry (new.head?.getD 0) size := by rw [e1, hfirst]
      obtain ⟨hv, hb⟩ := hp.valid_rewrite he hentry hsize hlen ho hold
        (fun hg' => by rw [hg] at hg'; cases hg')
        (fun c => by
          rw [e3, e2]
          exact ho.freed hr' (by simp [hnone]))
      rw [← e2]
      exact rewrite_end hro hc hv hentry hold hplaced hplaces hb (by rw [e3, e2]; rfl) fun v' =>
        hok p pre post new [n] v'

/-! ## New directories -/

/-- What a completed `fat16_mkdir_node` has done: the directory has the cluster `n`. -/
structure Made (v : Vol) (t : Target) (name : Name) (d n : Nat) (p : Plan) (pre post grow : List Nat) (v' : Vol) :
    Prop extends Done v p d pre post [n] grow [] v' where
  entry : p.entry = makeEntry name true n 0
  old_none : Image.liveOption ((p.cleared v.image).entry p.slot) = none
  placed : Placed v.image d t p pre

lemma Placement.made (h : Placement p v.image d pre post [n] grow (firstSector n d))
    (hname : fsNameCheck name = .ok ()) (hd : d < 65536) (hentry : p.entry = makeEntry name true n 0)
    (hfat : p.fat2 = p.fat1) (hold : OldEntry v.image t p) (hplaced : Placed v.image d t p pre)
    (hplaces : Places v.image d p [n] grow)
    (hdead : t.end = false → t.grow = false → Image.liveOption (v.image.entry t.id) = none)
    (hc : Committed v p.data p.fat1 p.clear p.slot p.entry wc wp v') : Made v t name d n p pre post grow v' := by
  obtain ⟨stem, ext, hsh⟩ := nameShape_of_check hname
  have hv := validCluster_range (h.free n (by simp)).1
  have hnone : Image.liveOption ((p.cleared v.image).entry p.slot) = none := by
    rcases hold with ⟨h1, h2, -, h4⟩ | ⟨-, h4⟩
    · rw [h4]
      exact hdead h1 h2
    · exact h4
  have hvalid : p.Valid v.image d pre post [n] grow [] := by
    refine h.valid_directory hd ?_ ?_ ?_ ?_ ?_ ?_ hnone hfat <;> rw [hentry]
    · exact makeEntry_clipped hsh
    · exact (makeEntry_zero _ _ _ hsh).1
    · exact makeEntry_live hsh
    · exact makeEntry_kind hsh
    · exact makeEntry_size (by omega)
    · exact makeEntry_first (by omega)
  exact ⟨⟨hvalid, ⟨wc, wp, hc.performed_done hfat⟩, hplaces, hc.mount⟩, hentry, hnone, hplaced⟩

theorem mkdirBody_runs {parent : Nat} (hs : v.image.Sound)
    (hro : v.device.readOnly = false) (hspot : Spot v.image d t) (hname : fsNameCheck name = .ok ())
    (hpar : (if parent = rootId then 0 else t.directory.first) = d)
    (hdead : t.end = false → t.grow = false → Image.liveOption (v.image.entry t.id) = none)
    (hreach : v.image.forest.Reach d) (herr : ∀ r, Q (.error r) v)
    (hok : ∀ p n pre post grow v', Made v t name d n p pre post grow v' → Q (.ok ()) v') :
    Runs v (mkdirBody parent name t v.fat) Q := by
  have hd : d < 65536 := by
    rcases hs.reach_owned hreach with rfl | ho
    · omega
    · have := validCluster_range ho.valid
      omega
  unfold mkdirBody
  refine Runs.get_bind fun h => ?_
  simp only [mkWorld_geo, hpar]
  refine Runs.bind (Runs.lift ?_)
  cases ha : allocate v.geo v.fat (if t.grow = true then 2 else 1) with
  | error r => exact herr r
  | ok r =>
    obtain ⟨fatA, first⟩ := r
    obtain ⟨taken, hal, hlen, hfirst⟩ := allocate_ok ha
    obtain ⟨grow, rfl⟩ : ∃ grow, taken = first :: grow := by
      cases taken with
      | nil => split at hlen <;> simp at hlen
      | cons c tl => exact ⟨tl, by rw [hfirst]; rfl⟩
    have hr := hal.split (by
      simp only [List.length_cons] at hlen
      split at hlen <;> omega)
    simp only
    refine Runs.bind (zeroCluster_runs (hal.valid first (by simp)) hro ?_)
    simp only
    unfold mkdirGrow
    cases hg : t.grow with
    | false =>
      obtain rfl : grow = [] := by simpa [hg] using hlen
      rw [show contentWrites v.geo (firstSector first d) [first] 0 =
        fill v.geo (firstSector first d) [first] [] by simp [fill, contentWrites]]
      refine Runs.bind (Runs.pure ?_)
      refine hspot.runs (setCluster fatA first 0xffff) hs hro hg hr
        fun p pre post wc wp u e1 e2 e3 hp hold hplaced hplaces hc => ?_
      exact hok p first pre post [] u (hp.made hname hd e1 (e3.trans e2.symm) hold hplaced hplaces hdead hc)
    | true =>
      obtain ⟨n, rfl⟩ : ∃ n, grow = [n] := List.length_eq_one_iff.mp (by simpa [hg] using hlen)
      have hnext : nextCluster fatA first = n := Chain.next_getElem (hal.chain first [n] rfl) (i := 0) (by simp)
      simp only [Bool.not_true, Bool.false_eq_true, if_false, if_true, hnext]
      refine Runs.bind (Runs.get_bind fun h => Runs.bind (zeroCluster_runs (hr.free n (by simp)).1 hro (Runs.pure ?_)))
      rw [Vol.writes_writes]
      refine hspot.runs_grown (setCluster (setCluster fatA first 0xffff) (clusterAt v.fat t.directory.first
        (t.directory.length - 1)) n) hs hro hg hr rfl fun p pre post wc wp u e1 e2 e3 hp hold hplaced hplaces hc => ?_
      exact hok p first pre post [n] u (hp.made hname hd e1 (e3.trans e2.symm) hold hplaced hplaces hdead hc)

/-! ## Removed entries -/

/-- The entry in the target's slot, with the chain `old` it owns; a directory among them is empty. -/
structure Removable (x : Image) (t : Target) (d : Nat) (pre post old : List Nat) : Prop where
  editable : Image.Editable x d t.id pre post
  entry_eq : x.entry t.id = t.entry
  live : Image.liveOption t.entry ≠ none
  holds : x.Holds t.entry old
  first : t.old.first = entryFirst t.entry
  length : t.old.length = old.length
  leaf : ∀ f, subdirectory t.entry = some f → x.live f = []

/-- What a completed `fat16_remove_node` has done. -/
structure Removed (v : Vol) (t : Target) (d : Nat) (p : Plan) (pre post old : List Nat) (v' : Vol) : Prop
    extends Done v p d pre post [] [] old v' where
  slot : p.slot = t.id
  entry : p.entry = deletedEntry t.entry
  cleared : p.cleared v.image = v.image

lemma Removable.freed (h : Removable x t d pre post old) :
    nextCluster (freeChain x.fat x.fat t.old) k = if k ∈ old then 0 else nextCluster x.fat k := by
  unfold freeChain
  rw [h.length, h.first]
  cases h.holds with
  | empty => simp [freeLoop]
  | file _ _ hc => exact nextCluster_freeLoop hc
  | directory _ _ hc => exact nextCluster_freeLoop hc

theorem removeBody_runs (hs : v.image.Sound)
    (hro : v.device.readOnly = false) (h : Removable v.image t d pre post old)
    (hok : ∀ p v', Removed v t d p pre post old v' → Q (.ok ()) v') : Runs v (removeBody t v.fat) Q := by
  obtain ⟨p, hp⟩ : ∃ p, p = plan v.geo [] [] (fun _ => 0) v.fat none t.id (deletedEntry t.entry)
    (freeChain v.fat v.fat t.old) := ⟨_, rfl⟩
  have hprep : p.prepared v.image = v.image := by rw [hp]; rfl
  have hclr : p.cleared v.image = v.image := by rw [hp]; rfl
  have hbase : Grounded p v.image [] [] fun _ => 0 :=
    (Reserved.grounded hs (by rw [hp]; exact Allocated.refl.reserved) (by rw [hp]; rfl) (by rw [hp]; rfl)).1
  have hplace : Placement p v.image d pre post [] [] fun _ => 0 :=
    hbase.place (by rw [hp]; rfl) (by rw [hprep, hp]; exact h.editable)
  have hslot : p.slot = t.id := by rw [hp]; rfl
  have hclip : slice t.entry 0 32 = t.entry := by
    rw [← h.entry_eq, Image.entry, slice_slice (by omega), Nat.add_zero]
  have hvalid : p.Valid v.image d pre post [] [] old := by
    refine hplace.valid_deleted (by rw [hp]; exact deletedEntry_clipped hclip) ?_ ?_ rfl (by rw [hp]; rfl) ?_ ?_
    · rw [hclr, hslot, h.entry_eq]
      exact fun hn => absurd hn h.live
    · intro c
      rw [hp]
      exact h.freed
    · rw [hclr, hslot, h.entry_eq]
      exact fun f _ hf => h.leaf f hf
    · rw [hclr, hslot, h.entry_eq]
      intro f hf
      obtain ⟨rfl, -⟩ := Image.liveOption_some.mp hf
      exact h.holds
  have hi := hs.slotOffset h.editable.reach h.editable.mem
  unfold removeBody
  refine Runs.bind (entryWrite_runs hi hro fun data hdata => ?_)
  refine Runs.bind (flushDevice_runs ?_)
  refine Runs.get_bind fun hh => ?_
  have hph : Phase v [(slotBase t.id / 512, data)] (v.writes [(slotBase t.id / 512, data)]).flush := .inl rfl
  have hc : Committed v p.data p.fat1 p.clear p.slot p.entry [] [(slotBase t.id / 512, data)]
      (v.writes [(slotBase t.id / 512, data)]).flush := by
    rw [hp]
    exact Committed.entry_only ⟨data, rfl, hdata⟩ hph
  have hfat : freeChain v.fat v.fat t.old = p.fat2 := by rw [hp]; rfl
  show Runs _ (persistFat (freeChain v.fat v.fat t.old)) Q
  rw [hfat]
  refine persistFat_runs hro fun v1 v2 h₁ h₂ => hok p _ ?_
  obtain ⟨hperf, hm⟩ := hc.performed h₁ h₂ rfl
  have hplaces : Places v.image d p [] [] := by
    refine ⟨h.editable.reach, .inl ⟨rfl, hslot ▸ h.editable.mem⟩, fun j hj => ?_, ?_, fun c _ _ hne => ?_⟩
    · rw [hp] at hj
      cases hj
    · rw [hclr]
    · rw [hp] at hne
      exact absurd rfl hne
  exact ⟨⟨hvalid, ⟨_, _, hperf⟩, hplaces, hm⟩, hslot, by rw [hp]; rfl, hclr⟩

end RumKernel.Fat16
