import RumKernel.Fat16.Refinement

/-!
# Slots that stay

A mutation writes one slot of one directory. Seen from an open, and so pinned, directory the slots keep their
positions and only grow in number, and the slot that is written loses its entry, keeps its name, or gets a name the
directory did not have.
-/

namespace RumKernel.Fat16
open Lib Fs Prog

variable {v v' : Vol} {x x' : Image} {p : Plan} {c d d0 i id k n s : Nat} {e f : Entry} {name : Name}
variable {t : Target} {parent : Nat}
variable {pre post new grow old cs : List Nat}

/-! ## Slots by their position -/

namespace Image

/-- The slots up to position `k` of the directory `d` stand before its end marker. -/
def InFront (x : Image) (d k : Nat) : Prop := ∀ j ≤ k, ∃ s, (x.slots d)[j]? = some s ∧ x.entry s 0 ≠ 0

lemma takeWhile_getElem? {α : Type} {P : α → Bool} {l : List α} {y : α} : (l.takeWhile P)[k]? = some y ↔
    l[k]? = some y ∧ ∀ j ≤ k, ∃ z, l[j]? = some z ∧ P z = true := by
  induction l generalizing k with
  | nil => simp
  | cons b l ih =>
    by_cases hb : P b = true
    · rw [List.takeWhile_cons_of_pos hb]
      cases k with
      | zero => simp [hb]
      | succ k =>
        rw [List.getElem?_cons_succ, List.getElem?_cons_succ, ih]
        refine and_congr_right fun _ => ⟨fun h j hj => ?_, fun h j hj => ?_⟩
        · cases j with
          | zero => exact ⟨b, rfl, hb⟩
          | succ j => exact h j (by omega)
        · exact h (j + 1) (by omega)
    · rw [List.takeWhile_cons_of_neg hb]
      refine ⟨nofun, fun ⟨_, h⟩ => ?_⟩
      obtain ⟨z, hz, hP⟩ := h 0 (Nat.zero_le _)
      cases hz
      exact absurd hP hb

lemma mem_live_iff : (s, e) ∈ x.live d ↔ ∃ k, (x.slots d)[k]? = some s ∧ x.InFront d k ∧ (d ≠ 0 → 2 ≤ k) ∧
    e = x.entry s ∧ liveEntry e = true := by
  have hat : ∀ (k t : Nat) (f : Entry), (x.listing d)[k]? = some (t, f) ↔ (x.slots d)[k]? = some t ∧ f = x.entry t := by
    intro k t f
    rw [listing, List.getElem?_map, Option.map_eq_some_iff]
    constructor
    · rintro ⟨u, hu, he⟩
      cases he
      exact ⟨hu, rfl⟩
    · rintro ⟨hu, rfl⟩
      exact ⟨t, hu, rfl⟩
  have hfront : ∀ k, (∀ j ≤ k, ∃ z, (x.listing d)[j]? = some z ∧ (z.2 0 != 0) = true) ↔ x.InFront d k := by
    refine fun k => forall₂_congr fun j _ => ⟨?_, ?_⟩
    · rintro ⟨⟨t, f⟩, hz, h0⟩
      obtain ⟨hs, rfl⟩ := (hat j _ _).mp hz
      exact ⟨t, hs, by simpa using h0⟩
    · rintro ⟨t, hs, h0⟩
      exact ⟨(t, x.entry t), (hat j _ _).mpr ⟨hs, rfl⟩, by simpa using h0⟩
  unfold live scan
  rw [List.mem_filter, List.mem_iff_getElem?]
  constructor
  · rintro ⟨⟨k, hk⟩, hl⟩
    rw [List.getElem?_drop] at hk
    obtain ⟨hk, hf⟩ := takeWhile_getElem?.mp hk
    obtain ⟨hs, he⟩ := (hat _ _ _).mp hk
    refine ⟨_, hs, (hfront _).mp hf, fun hd => ?_, he, hl⟩
    rw [if_neg hd]
    exact Nat.le_add_right 2 k
  · rintro ⟨k, hs, hf, hd, he, hl⟩
    refine ⟨⟨k - if d = 0 then 0 else 2, ?_⟩, hl⟩
    have hk : (if d = 0 then 0 else 2) + (k - if d = 0 then 0 else 2) = k := by
      split
      · omega
      · have := hd ‹_›
        omega
    rw [List.getElem?_drop, hk]
    exact takeWhile_getElem?.mpr ⟨(hat _ _ _).mpr ⟨hs, he⟩, (hfront _).mpr hf⟩

lemma obj_position (ho : x.forest.Obj d s e) (hs : x.Sound) (hk : (x.slots d)[k]? = some s) :
    x.InFront d k ∧ (d ≠ 0 → 2 ≤ k) := by
  obtain ⟨j, hj, hf, hd, -⟩ := mem_live_iff.mp ho.2
  have hlt := (List.getElem?_eq_some_iff.mp hk).1
  obtain rfl := (List.getElem?_inj hlt (hs.slots_nodup ho.1)).mp (hk.trans hj.symm)
  exact ⟨hf, hd⟩

end Image

/-! ## What a mutation leaves of a directory -/

section
variable (h : Done v p d0 pre post new grow old v')
include h

lemma Done.obj (hs : Synced v) : v'.image.forest.Obj d s f ↔
    (v.image.forest.Obj d s f ∧ s ≠ p.slot) ∨ (d = d0 ∧ s = p.slot ∧ Image.liveOption p.entry = some f) := by
  have hfinal := (h.agree_final hs).2
  have hq := h.valid.quiet
  rw [(hfinal.same h.valid.sound').obj, (h.valid.agree.same h.valid.put.sound').obj]
  refine h.valid.put.obj.trans (or_congr_left (and_congr_left fun _ => hq.same.obj))

lemma Done.tag (hs : Synced v) (ho : v.image.forest.Obj d s f)
    (hne : s ≠ p.slot) : v'.image.tag f = v.image.tag f := by
  have hfinal := (h.agree_final hs).2
  have hq := h.valid.quiet
  have ho1 : (p.published v.image).forest.Obj d s f := h.valid.put.obj.mpr (.inl ⟨hq.same.obj.mpr ho, hne⟩)
  have ho2 := (h.valid.agree.same h.valid.put.sound').obj.mpr ho1
  rw [hfinal.tag h.valid.sound' ho2, h.valid.agree.tag h.valid.put.sound' ho1]
  exact hq.same.tag d s f ho

lemma Done.tag_new (hs : Synced v)
    (hl : Image.liveOption p.entry = some f) : v'.image.tag f = (p.cleared v.image).tag f := by
  have hfinal := (h.agree_final hs).2
  have ho1 : (p.published v.image).forest.Obj d0 p.slot f := h.valid.put.obj.mpr (.inr ⟨rfl, rfl, hl⟩)
  have ho2 := (h.valid.agree.same h.valid.put.sound').obj.mpr ho1
  rw [hfinal.tag h.valid.sound' ho2, h.valid.agree.tag h.valid.put.sound' ho1]
  rfl

lemma Done.entry_new (hs : Synced v) : v'.image.entry p.slot = p.entry := by
  have hfinal := (h.agree_final hs).2
  have hr : (p.published v.image).forest.Reach d0 := h.valid.put.edit.at_reach'
  have hm : p.slot ∈ (p.published v.image).slots d0 := by
    show p.slot ∈ (p.cleared v.image).slots d0
    exact h.valid.put.mem
  have hr' := (h.valid.agree.same h.valid.put.sound').reach.mpr hr
  have hm' : p.slot ∈ (p.final v.image).slots d0 := (h.valid.agree.slots h.valid.put.sound' hr).symm ▸ hm
  rw [hfinal.entry h.valid.sound' hr' hm', h.valid.agree.entry h.valid.put.sound' hr hm]
  exact Image.entry_withSlot_same h.valid.put.clipped

lemma Done.not_behind (hr : v.image.forest.Reach d)
    (hk : (v.image.slots d)[k]? = some s) (hf : v.image.InFront d k) : p.clear ≠ some s := by
  intro hc
  obtain ⟨h0, A, B, hslots⟩ := h.places.behind s hc
  obtain rfl := h.valid.sound.slot_unique hr h.places.reach (List.mem_of_getElem? hk) (by simp [hslots])
  have hnd := h.valid.sound.slots_nodup hr
  have hlt := (List.getElem?_eq_some_iff.mp hk).1
  have hpos : (v.image.slots d)[A.length + 1]? = some s := by simp [hslots]
  have hmark : (v.image.slots d)[A.length]? = some p.slot := by simp [hslots]
  obtain rfl := (List.getElem?_inj hlt hnd).mp (hk.trans hpos.symm)
  obtain ⟨t, ht, hne⟩ := hf A.length (Nat.le_succ _)
  rw [hmark] at ht
  cases ht
  exact hne h0

lemma Done.chain_other (hr : v.image.forest.Reach d) (hne : d ≠ d0)
    (hc : IsChain v.image.geo v.image.fat d cs) (hcm : c ∈ cs) : nextCluster p.fat1 c = nextCluster v.image.fat c := by
  have hs := h.valid.sound
  have hmem : c ∈ v.image.clusters d := by rwa [Image.clusters_eq hc]
  have hused : nextCluster v.image.fat c ≠ 0 := (hs.clusters_owned hr hmem).next_ne_zero
  have hres : ∀ b, b ∈ new ∨ b ∈ grow → nextCluster v.image.fat b = 0 := fun b hb =>
    (h.valid.free b ((h.valid.reserved_mem b).mpr hb)).2
  by_contra hword
  obtain ⟨-, ds, hds, hlast⟩ := h.places.words c (fun hn => hused (hres c (.inl hn)))
    (fun hg => hused (hres c (.inr hg))) hword
  have hcd : c ∈ ds := List.mem_of_getLast? hlast
  rcases hs.dir_cases hr with rfl | ⟨q, t, f, cs', ho, -, hf, hh, hc'⟩
  · have := validCluster_range (hc.valid hc.head_mem)
    omega
  rcases hs.dir_cases h.places.reach with rfl | ⟨q', t', f', ds', ho', -, hf', hh', hds'⟩
  · have := validCluster_range (hds.valid hds.head_mem)
    omega
  obtain rfl := hc.det hc'
  obtain rfl := hds.det hds'
  refine hs.disjoint ho ho' (fun heq => hne ?_) hh hh' hcm hcd
  subst heq
  rw [← hf, ← hf', Image.obj_entry ho, Image.obj_entry ho']

lemma Done.slots (hs : Synced v) (hr : v.image.forest.Reach d)
    (hr' : v'.image.forest.Reach d) : v.image.slots d <+: v'.image.slots d := by
  have hfinal := (h.agree_final hs).2
  have hr2 := (hfinal.same h.valid.sound').reach.mp hr'
  have hr1 := (h.valid.agree.same h.valid.put.sound').reach.mp hr2
  rw [hfinal.slots h.valid.sound' hr2, h.valid.agree.slots h.valid.put.sound' hr1]
  show _ <+: (p.cleared v.image).slots d
  by_cases hd : d = d0
  · subst hd
    exact h.places.slots
  rcases h.valid.sound.dir_cases hr with rfl | ⟨q, t, f, cs, ho, -, -, hh, hc⟩
  · rw [Image.slots_root, Image.slots_root, Plan.cleared_geo]
  · have hc' : IsChain (p.cleared v.image).geo (p.cleared v.image).fat d cs := by
      rw [Plan.cleared_geo, Plan.cleared_fat]
      exact hc.congr fun c hcm => h.chain_other hr hd hc hcm
    rw [Image.slots_chain hc, Image.slots_chain hc', Plan.cleared_geo]

lemma Done.entry_kept (hs : Synced v) (hr : v.image.forest.Reach d)
    (hr' : v'.image.forest.Reach d) (hk : (v.image.slots d)[k]? = some s) (hf : v.image.InFront d k)
    (hne : s ≠ p.slot) : v'.image.entry s = v.image.entry s := by
  have hfinal := (h.agree_final hs).2
  have hr2 := (hfinal.same h.valid.sound').reach.mp hr'
  have hm : s ∈ v.image.slots d := List.mem_of_getElem? hk
  have h2 : 2 ≤ s := h.valid.sound.two_le_slot hr hm
  have hslot2 : 2 ≤ p.slot := (slotOffset_bounds h.valid.slot_at).2.1
  have hm2 : s ∈ (p.final v.image).slots d := by
    rw [← hfinal.slots h.valid.sound' hr2]
    exact (h.slots hs hr hr').subset hm
  have hprep : (p.prepared v.image).entry s = v.image.entry s :=
    (h.valid.agree_data fun _ hw => hw).entry h.valid.sound hr hm
  have hclear : (p.cleared v.image).entry s = (p.prepared v.image).entry s := by
    unfold Plan.cleared
    cases hc : p.clear with
    | none => rfl
    | some j =>
      have hj : s ≠ j := by
        rintro rfl
        exact h.not_behind hr hk hf hc
      exact Image.entry_withSlot_other (slotOffset_bounds (h.valid.clear_at j hc)).2.1 h2 hj
  calc v'.image.entry s = (p.final v.image).entry s := hfinal.entry h.valid.sound' hr2 hm2
    _ = (p.cleared v.image).entry s := Image.entry_withSlot_other hslot2 h2 hne
    _ = v.image.entry s := hclear.trans hprep

end

/-- What a mutation makes of the entry in the slot it writes. -/
inductive Turned (v : Vol) (p : Plan) (d : Nat) : Prop where
  | removed : Image.liveOption p.entry = none → liveEntry p.entry = false → pinned v.pins p.slot = false → Turned v p d
  | updated {f : Entry} : v.image.forest.Obj d p.slot f → entryKind f = .file →
    Image.liveOption p.entry = some p.entry → (p.cleared v.image).tag p.entry = v.image.tag f → Turned v p d
  | created {name : Name} : Image.liveOption ((p.cleared v.image).entry p.slot) = none →
    Image.liveOption p.entry = some p.entry → (p.cleared v.image).tag p.entry = .named name →
    Forest.Clear v.image.tag name (v.image.live d) → Turned v p d

lemma Rewritten.turned {size : Nat} {content : Mem} (h : Rewritten v t d old size content p pre post new grow v')
    (ho : v.image.forest.Obj d t.id t.entry) (hk : entryKind t.entry = .file) (hg : t.grow = false)
    (hend : t.end = false) : Turned v p d := by
  obtain ⟨-, hlive, htag⟩ := h.tag_kept ho hk
  rcases h.old_entry with ⟨-, -, hslot, -⟩ | ⟨h1, -⟩
  · exact .updated (hslot ▸ ho) hk hlive (htag.trans (h.valid.quiet.same.tag d t.id t.entry ho))
  · simp [hg, hend] at h1

lemma Replaced.turned {data : List Byte}
    (h : Replaced v parent name data t d old p pre post new grow v') (hname : fsNameCheck name = .ok ())
    (hu : name.map upper = name) : Turned v p d := by
  have hr := h.rewritten
  rcases Bool.eq_false_or_eq_true t.exists with he | he
  · obtain ⟨hg, hend, pre', post', hx⟩ := h.located.existing_of he
    rw [show replaceTarget t name = t by simp [replaceTarget, he]] at hr
    exact hr.turned hx.obj (h.kind he) hg hend
  · obtain ⟨hold, hlive, htag, -⟩ := h.created hname hu he
    exact .created hold hlive htag (h.located.clear_live he)

lemma MadeIn.turned (h : MadeIn v parent name t d n p pre post grow v')
    (hname : fsNameCheck name = .ok ()) (hu : name.map upper = name) : Turned v p d := by
  obtain ⟨hlive, htag, -⟩ := h.created hname hu
  exact .created h.made.old_none hlive htag (h.located.clear_live h.absent)

lemma RemovedFrom.turned (h : RemovedFrom v parent name t d p pre post old v') : Turned v p d := by
  have hl : liveEntry p.entry = false := by
    rw [h.removed.entry]
    exact deletedEntry_live
  exact .removed (by simp [Image.liveOption, hl]) hl (by rw [h.removed.slot]; exact h.unpinned)

lemma Mutation.Result.turned {op : Mutation} (h : Mutation.Result v op v') (hl : op.Legal v.image) (hu : op.Canonical) :
    Flags v v' ∨ ∃ p d pre post new grow old, Done v p d pre post new grow old v' ∧ Turned v p d := by
  cases h with
  | replace h => exact .inr ⟨_, _, _, _, _, _, _, h.rewritten.toDone, h.turned hl.2 hu⟩
  | write _ h | truncate h =>
    exact .inr ⟨_, _, _, _, _, _, _, h.rewritten.toDone, h.rewritten.turned h.obj h.kind rfl rfl⟩
  | same _ _ _ h => exact .inl h
  | mkdir h => exact .inr ⟨_, _, _, _, _, _, _, h.made.toDone, h.turned hl.2 hu⟩
  | remove h => exact .inr ⟨_, _, _, _, _, _, _, h.removed.toDone, h.turned⟩

/-! ## A directory under a cursor -/

/-- The directory `d` with the identifier `id`, behind whose first `c` slots a cursor stands: they come before the end
marker and none of them ends a search, and no two entries have one name. -/
structure Held (x : Image) (id d c : Nat) : Prop where
  sound : x.Sound
  dir : DirId x id d
  passed : ∀ k < c, ∃ s, (x.slots d)[k]? = some s ∧ x.entry s 0 ≠ 0 ∧ x.tag (x.entry s) ≠ .broken
  names : ∀ i j e f name, x.forest.Obj d i e → x.forest.Obj d j f → x.tag e = .named name →
    x.tag f = .named name → i = j

lemma Held.inFront (h : Held x id d c) (hk : k < c) : x.InFront d k := fun j hj => by
  obtain ⟨s, hs, h0, -⟩ := h.passed j (by omega)
  exact ⟨s, hs, h0⟩

lemma tag_of_notFound (h : entryName e = .error .notFound) : x.tag e = .skip := by
  rw [tag_eq_decode 0, decode_eq, h]

lemma entryName_dots {b : Bool} (h : dotsOk e b n = true) : entryName e = .error .notFound := by
  simp only [dotsOk, dotEntry, Bool.and_eq_true, beq_iff_eq, List.all_eq_true, List.mem_range] at h
  obtain ⟨⟨⟨⟨⟨⟨h0, h1⟩, hrest⟩, -⟩, -⟩, -⟩, -⟩ := h
  have h2 := hrest 0 (by omega)
  cases b with
  | false => simp [entryName, h0, h1, dotByte]
  | true => simp [entryName, h0, h1, h2, dotByte]

lemma entryName_dead (h0 : e 0 ≠ 0) (hl : liveEntry e = false) : entryName e = .error .notFound := by
  unfold entryName
  rw [if_neg h0, if_pos]
  simpa [liveEntry, or_iff_not_imp_left] using hl

section
variable (h : Turned v p d0) (hd : Done v p d0 pre post new grow old v')
include h hd

lemma Turned.slot_ne
    (ho : v.image.forest.Obj n id e) (hk : entryKind e = .directory) (hp : pinned v.pins id = true) : id ≠ p.slot := by
  rintro rfl
  cases h with
  | removed _ _ hu =>
    rw [hp] at hu
    cases hu
  | updated hf hfile _ _ =>
    rw [Image.obj_entry hf, ← Image.obj_entry ho, hk] at hfile
    cases hfile
  | created hnone _ _ _ =>
    have hq := hd.valid.quiet
    obtain ⟨-, he, h0, hl⟩ := Image.mem_live (hq.same.obj.mpr ho).2
    rw [Image.liveOption, if_pos (he ▸ ⟨h0, hl⟩)] at hnone
    cases hnone

lemma Turned.dirId (hs : Synced v)
    (hp : pinned v.pins id = true) (hid : DirId v.image id d) : DirId v'.image id d := by
  rcases hid with hroot | ⟨n, e, ho, hk, he⟩
  · exact .inl hroot
  · exact .inr ⟨n, e, (hd.obj hs).mpr (.inl ⟨ho, h.slot_ne hd ho hk hp⟩), hk, he⟩

lemma Turned.tag (hs : Synced v)
    (hb : ∀ f, v.image.forest.Obj d0 p.slot f → v.image.tag f ≠ .broken) : v'.image.tag p.entry ≠ .broken := by
  cases h with
  | removed hnone hl _ =>
    rw [tag_of_notFound (entryName_dead hd.valid.put.nonzero hl)]
    nofun
  | updated ho _ hl ht =>
    rw [hd.tag_new hs hl, ht]
    exact hb _ ho
  | created _ hl ht _ =>
    rw [hd.tag_new hs hl, ht]
    nofun

lemma Turned.names (hs : Synced v)
    (hn : ∀ i j e f name, v.image.forest.Obj d i e → v.image.forest.Obj d j f → v.image.tag e = .named name →
      v.image.tag f = .named name → i = j) (hi : v'.image.forest.Obj d i e) (hj : v'.image.forest.Obj d k f)
    (he : v'.image.tag e = .named name) (hf : v'.image.tag f = .named name) : i = k := by
  -- the entry that is turned against one that is not
  have key : ∀ {j g}, v.image.forest.Obj d0 j g → j ≠ p.slot → v.image.tag g = .named name →
      v'.image.tag p.entry = .named name → Image.liveOption p.entry = some p.entry → d = d0 → False := by
    intro j g hg hne ht hnew hl hdd
    subst hdd
    rw [hd.tag_new hs hl] at hnew
    cases h with
    | removed hnone _ _ =>
      rw [hnone] at hl
      cases hl
    | updated ho _ _ htag => exact hne (hn _ _ _ _ _ hg ho ht (htag.symm.trans hnew))
    | created _ _ htag hclear =>
      rw [htag] at hnew
      cases hnew
      exact (hclear _ hg.2).2 ht
  rcases (hd.obj hs).mp hi with ⟨hi, hi'⟩ | ⟨hd1, rfl, hl⟩ <;>
    rcases (hd.obj hs).mp hj with ⟨hj, hj'⟩ | ⟨hd2, rfl, hl'⟩
  · rw [hd.tag hs hi hi'] at he
    rw [hd.tag hs hj hj'] at hf
    exact hn _ _ _ _ _ hi hj he hf
  · obtain ⟨rfl, -⟩ := Image.liveOption_some.mp hl'
    rw [hd.tag hs hi hi'] at he
    exact (key (hd2 ▸ hi) hi' he hf hl' hd2).elim
  · obtain ⟨rfl, -⟩ := Image.liveOption_some.mp hl
    rw [hd.tag hs hj hj'] at hf
    exact (key (hd1 ▸ hj) hj' hf he hl hd1).elim
  · rfl

end

lemma Image.Sound.dots_at (hs : x.Sound) (hid : DirId x id d) (hd : d ≠ 0) (hk : k < 2)
    (hslot : (x.slots d)[k]? = some s) : entryName (x.entry s) = .error .notFound := by
  rcases hid with ⟨-, rfl⟩ | ⟨n, e, ho, hdir, rfl⟩
  · exact absurd rfl hd
  obtain ⟨i, j, rest, hl, h1, h2⟩ := hs.dots ho hdir
  rw [hl] at hslot
  match k, hk with
  | 0, _ =>
    cases hslot
    exact entryName_dots h1
  | 1, _ =>
    cases hslot
    exact entryName_dots h2

lemma Image.InFront.cases (hf : x.InFront d k) (hs : x.Sound) (hid : DirId x id d) (hk : (x.slots d)[k]? = some s) :
    x.forest.Obj d s (x.entry s) ∨ entryName (x.entry s) = .error .notFound := by
  obtain ⟨t, ht, h0⟩ := hf k (Nat.le_refl k)
  obtain rfl : s = t := Option.some.inj (hk.symm.trans ht)
  by_cases hd : d ≠ 0 ∧ k < 2
  · exact .inr (hs.dots_at hid hd.1 hd.2 hk)
  by_cases hl : liveEntry (x.entry s) = true
  · exact .inl ⟨hid.reach, Image.mem_live_iff.mpr ⟨k, hk, hf, fun h => by omega, rfl, hl⟩⟩
  · exact .inr (entryName_dead h0 (by simpa using hl))

section
variable (h : Held v.image id d c) (hd : Done v p d0 pre post new grow old v') (ht : Turned v p d0) (hs : Synced v)
include h hd ht hs

lemma Held.turn (hp : pinned v.pins id = true) : Held v'.image id d c := by
  have hdir : DirId v'.image id d := ht.dirId hd hs hp h.dir
  refine ⟨(hd.consistent hs).1.sound, hdir, fun k hk => ?_, fun _ _ _ _ _ => ht.names hd hs h.names⟩
  obtain ⟨s, hslot, h0, hb⟩ := h.passed k hk
  have hat : (v'.image.slots d)[k]? = some s := by
    obtain ⟨l, hl⟩ := hd.slots hs h.dir.reach hdir.reach
    rw [← hl, List.getElem?_append_left (List.getElem?_eq_some_iff.mp hslot).1]
    exact hslot
  refine ⟨s, hat, ?_⟩
  by_cases hne : s = p.slot
  · subst hne
    rw [hd.entry_new hs]
    refine ⟨hd.valid.put.nonzero, ht.tag hd hs fun f ho => ?_⟩
    rwa [Image.obj_entry ho]
  · rw [hd.entry_kept hs h.dir.reach hdir.reach hslot (h.inFront hk) hne]
    refine ⟨h0, ?_⟩
    rcases (h.inFront hk).cases h.sound h.dir hslot with ho | hskip
    · rwa [hd.tag hs ho hne]
    · rw [tag_of_notFound hskip]
      nofun

lemma Held.slot_kept (hp : pinned v.pins id = true) : v.image.slots d <+: v'.image.slots d :=
  hd.slots hs h.dir.reach (ht.dirId hd hs hp h.dir).reach

end

end RumKernel.Fat16
