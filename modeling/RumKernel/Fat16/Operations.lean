import RumKernel.Fat16.Mutations
import RumKernel.Fat16.Looks

/-!
# The mutations on a healthy device

The backend's five mutations from their entry points: on a sound volume each either fails and leaves the
volume as it was, or succeeds and has carried out a valid plan.
-/

namespace RumKernel.Fat16
open Lib Fs Prog

variable {v v' : Vol} {x : Image} {d i id k n parent : Nat} {e : Entry} {t : Target} {content : Mem}
  {cs new grow old pre post : List Nat} {name : Name} {p : Plan}
variable {Q : Except FsError Unit → Vol → Prop}
variable {u : Vol} {offset size : Nat} {data : List Byte} {keep : Bool}

abbrev Vol.flagged (v : Vol) (s c : Bool) (o : Nat → Bool) (a : Bool) : Vol :=
  { v with started := s, committed := c, owners := o, audited := a }

/-- Only the bookkeeping of the running operation differs. -/
def Flags (v v' : Vol) : Prop :=
  ∃ s c o a, v' = { v with started := s, committed := c, owners := o, audited := a }

lemma Flags.refl : Flags v v := ⟨_, _, _, _, rfl⟩

lemma Flags.trans {v'' : Vol} (h : Flags v v') (h' : Flags v' v'') : Flags v v'' := by
  obtain ⟨s, c, o, a, rfl⟩ := h
  obtain ⟨s', c', o', a', rfl⟩ := h'
  exact ⟨s', c', o', a', rfl⟩

lemma Flags.image (h : Flags v v') : v'.image = v.image := by
  obtain ⟨s, c, o, a, rfl⟩ := h
  rfl

lemma Done.of_flags (hu : Flags v u) (h : Done u p d pre post new grow old v') :
    Done v p d pre post new grow old v' := by
  obtain ⟨s, c, o, a, rfl⟩ := hu
  obtain ⟨wc, wp, hp⟩ := h.performed
  exact ⟨h.valid, ⟨wc, wp, ⟨hp.did.medium, hp.did.trace⟩, hp.clear_eq, hp.put_eq, hp.geo, hp.fat⟩, h.places,
    h.mount.geo, h.mount.writable, h.mount.faulted, h.mount.pins, h.mount.ready, h.mount.device⟩

lemma writable_runs (herr : ∀ r v', Flags v v' → Q (.error r) v')
    (hok : ∀ a b o c, Flags v (v.flagged a b o c) → v.ready = true → v.faulted = false →
      v.device.readOnly = false → Q (.ok ()) (v.flagged a b o c)) : Runs v writable Q := by
  unfold writable
  refine Runs.get_bind fun h => ?_
  simp only [mkWorld_ready, mkWorld_faulted, mkWorld_writable, mkWorld_device, mkWorld_audited]
  refine Runs.ite (fun _ => Runs.fail_bind (herr _ _ .refl)) fun hr => ?_
  refine Runs.ite (fun _ => Runs.fail_bind (herr _ _ .refl)) fun hf => ?_
  refine Runs.ite (fun _ => Runs.fail_bind (herr _ _ .refl)) fun hw => ?_
  have hr' : v.ready = true := by simpa using hr
  have hf' : v.faulted = false := by simpa using hf
  have hro : v.device.readOnly = false := by
    simp only [not_or, Bool.not_eq_true] at hw
    exact hw.2
  refine Runs.ite (fun _ => Runs.of_looked ?_ fun r o a => ?_) fun _ => Runs.pure (hok _ _ _ _ .refl hr' hf' hro)
  · exact .bind (Looks.update fun w => ⟨rfl, rfl, fun h => h⟩) fun _ => .bind Looks.looking.auditDirectory fun _ =>
      Looks.update fun w => ⟨rfl, rfl, fun h => h⟩
  · cases r with
    | ok u => exact hok _ _ _ _ ⟨_, _, _, _, rfl⟩ hr' hf' hro
    | error r => exact herr _ _ ⟨_, _, _, _, rfl⟩

lemma fatCopy_runs {Q : Except FsError Mem → Vol → Prop} (herr : ∀ r, Q (.error r) v) (hok : Q (.ok v.fat) v) :
    Runs v fatCopy Q := by
  refine Runs.bind (Runs.kmalloc fun b => ?_)
  exact Runs.ite (fun _ => Runs.fail_bind (herr _)) fun _ => Runs.get_bind fun h => Runs.pure hok

/-- `rewrite` on a healthy device. -/
theorem rewrite_runs
    (hs : v.image.Sound) (hro : v.device.readOnly = false) (hspot : Spot v.image d t) (he : FileEntry t.entry)
    (ho : OldTarget v.image t old) (herr : ∀ r v', Flags v v' → Q (.error r) v')
    (hok : ∀ p pre post new grow v', Rewritten v t d old size
      (fileContent v.geo v.medium old t.old.node.size size offset data keep) p pre post new grow v' →
        Q (.ok ()) v') : Runs v (rewrite t size offset data keep) Q := by
  unfold rewrite
  refine Runs.bind (Runs.modify { v with committed := false } (fun h => ⟨h, rfl, rfl, rfl, rfl, rfl⟩) rfl ?_)
  refine Runs.get_bind fun h => ?_
  refine Runs.ite (fun _ => Runs.fail_bind (herr _ _ ⟨_, _, _, _, rfl⟩)) fun hsize => ?_
  refine Runs.ite (fun _ => Runs.fail_bind (herr _ _ ⟨_, _, _, _, rfl⟩)) fun _ => ?_
  refine Runs.bind (fatCopy_runs (fun r => herr _ _ ⟨_, _, _, _, rfl⟩) ?_)
  refine Runs.bind (Runs.modify { v with committed := false, started := false }
    (fun h => ⟨h, rfl, rfl, rfl, rfl, rfl⟩) rfl ?_)
  have hflags : Flags v { v with committed := false, started := false } := ⟨_, _, _, _, rfl⟩
  refine finish_runs (rewriteBody_runs (v := { v with committed := false, started := false }) hs hro hspot he ho
    (by omega) (fun r => ⟨rfl, herr _ _ hflags⟩) fun p pre post new grow v' hr => ?_)
  exact hok p pre post new grow v'
    ⟨hr.toDone.of_flags hflags, hr.entry, hr.old_entry, hr.placed, hr.bytes, hr.committed⟩

/-! ## Targets -/

lemma Image.Editable.obj (h : Image.Editable x d i pre post) (hl : Image.liveOption (x.entry i) = some e) :
    x.forest.Obj d i e := by
  refine ⟨h.reach, ?_⟩
  rw [Image.forest_kids, h.live_old, hl]
  simp [Forest.slotList]

lemma Image.Editable.of_obj (ho : x.forest.Obj d i e) : ∃ pre post, Image.Editable x d i pre post := by
  have hm : (i, e) ∈ (x.scan d).drop (if d = 0 then 0 else 2) := (List.mem_filter.mp ho.2).1
  obtain ⟨A, B, hAB⟩ := List.append_of_mem hm
  obtain ⟨R, hR⟩ : ∃ R, x.listing d = x.scan d ++ R := (List.takeWhile_prefix _).imp fun _ h => h.symm
  have hsplit : x.scan d = (x.scan d).take (if d = 0 then 0 else 2) ++ A ++ (i, e) :: B := by
    rw [List.append_assoc, ← hAB, List.take_append_drop]
  have hl : x.listing d = ((x.scan d).take (if d = 0 then 0 else 2) ++ A) ++ (i, e) :: (B ++ R) := by
    conv_lhs => rw [hR, hsplit]
    simp
  obtain ⟨pre, post, hsl, e1, -, e3⟩ := Image.listing_split hl
  have hnz : ∀ q ∈ x.scan d, q.2 0 ≠ 0 := fun q hq => by simpa using List.mem_takeWhile_imp hq
  refine ⟨pre, post, ⟨ho.1, hsl⟩, fun j hj => ?_, fun hd => ?_, fun h0 => ?_⟩
  · refine hnz (j, x.entry j) ?_
    rw [hsplit, e1]
    exact List.mem_append_left _ (List.mem_map.mpr ⟨j, hj, rfl⟩)
  · have hlen : (x.read pre).length = pre.length := List.length_map _
    rw [← hlen, ← e1, List.length_append, List.length_take, if_neg hd]
    have : 2 < (x.scan d).length := by
      by_contra hlt
      rw [if_neg hd, List.drop_eq_nil_of_le (by omega)] at hm
      cases hm
    omega
  · rw [← e3] at h0
    exact absurd h0 (mem_live ho.2).2.2.1

namespace Existing

section
variable (h : Existing x d name t pre post)
include h

lemma live : Image.liveOption (x.entry t.id) = some t.entry := by
  obtain ⟨-, h0, hl, -⟩ := decode_ok h.decoded
  rw [h.entry_eq]
  exact Image.liveOption_some.mpr ⟨rfl, h0, hl⟩

lemma obj : x.forest.Obj d t.id t.entry := h.toEditable.obj h.live

lemma tag : x.tag t.entry = .named name := tag_named_of_decode h.decoded

lemma old_eq (hh : x.Holds t.entry cs) : t.old = Image.describes t.entry t.id cs := by
  have hd := h.decoded
  rw [decode_eq, hh.decodeChain] at hd
  cases hn : entryName t.entry with
  | error r => simp [hn] at hd
  | ok m =>
    simp only [hn] at hd
    by_cases ht : Image.tooLong x.geo t.entry cs.length = true
    · simp [ht] at hd
    · simp only [ht, Bool.false_eq_true, if_false, Except.ok.injEq, Prod.mk.injEq] at hd
      exact hd.1.symm

end

end Existing

lemma clipped_entry : slice (x.entry i) 0 32 = x.entry i := by
  rw [Image.entry, slice_slice (by omega), Nat.add_zero]

lemma OldTarget.of_file (hx : x.entry t.id = t.entry) (hl : Image.liveOption t.entry ≠ none)
    (hk : entryKind t.entry = .file) (hh : x.Holds t.entry cs) (ht : t.old = Image.describes t.entry t.id cs)
    (hg : t.grow = false) (he : t.end = false) : OldTarget x t cs := by
  have hchain : entrySize t.entry ≠ 0 → IsChain x.geo x.fat (entryFirst t.entry) cs ∧
      cs.length = clustersFor x.geo (entrySize t.entry) := by
    intro hne
    cases hh with
    | empty _ h2 => exact absurd h2 hne
    | file _ _ h3 h4 => exact ⟨h3, h4⟩
    | directory h1 => rw [hk] at h1; cases h1
  refine ⟨⟨by rw [ht]; rfl, by rw [ht]; exact hchain⟩, fun hne => ?_, fun _ _ f hf => ?_, fun _ => ⟨he, hg, hx ▸ hl⟩⟩
  · rw [ht]
    refine (hchain ?_).1
    intro h0
    cases hh with
    | empty => exact hne rfl
    | file _ h2 => exact h2 h0
    | directory h1 => rw [hk] at h1; cases h1
  · rw [hx] at hf
    obtain ⟨rfl, -⟩ := Image.liveOption_some.mp hf
    exact ⟨hk, hh⟩

lemma OldTarget.of_vacant (ht : t.old = ({} : Target).old)
    (hdead : t.end = false → t.grow = false → Image.liveOption (x.entry t.id) = none) : OldTarget x t [] := by
  refine ⟨⟨by rw [ht]; rfl, by rw [ht]; exact fun h => absurd rfl h⟩, fun h => absurd rfl h,
    fun h1 h2 f hf => ?_, fun h => absurd rfl h⟩
  rw [hdead h1 h2] at hf
  cases hf

section
variable (h : Located x d name t)
include h

lemma Located.dead (hne : t.exists = false) : t.old = ({} : Target).old ∧
      (t.end = false → t.grow = false → Image.liveOption (x.entry t.id) = none) := by
  cases h with
  | existing _ _ he => rw [hne] at he; cases he
  | vacant pre post _ _ ho hv =>
    refine ⟨ho, fun h1 _ => ?_⟩
    rcases hv.state with ⟨h5, -⟩ | ⟨-, h2, -⟩
    · simp [Image.liveOption, liveEntry, h5]
    · rw [h1] at h2
      cases h2
  | full _ _ hg ho => exact ⟨ho, fun _ h2 => by rw [hg] at h2; cases h2⟩

lemma Located.existing_of (he : t.exists = true) :
    t.grow = false ∧ t.end = false ∧ ∃ pre post, Existing x d name t pre post := by
  cases h with
  | existing pre post _ h1 h2 hx => exact ⟨h1, h2, pre, post, hx⟩
  | vacant _ _ h1 => rw [he] at h1; cases h1
  | full _ h1 => rw [he] at h1; cases h1

lemma Located.clear (hne : t.exists = false) : Forest.Clear x.tag name (x.scan d) := by
  cases h with
  | existing _ _ he => rw [hne] at he; cases he
  | vacant _ _ _ _ _ hv => exact hv.clear
  | full _ _ _ _ _ hf => exact hf.clear

end

lemma Spot.with_entry (h : Spot x d t) : Spot x d { t with entry := e } := by
  cases h with
  | used pre post h1 h2 h3 => exact .used pre post h1 h2 h3
  | last pre post h1 h2 h3 h4 h5 h6 h7 h8 => exact .last pre post h1 h2 h3 h4 h5 h6 h7 h8
  | full cs name h1 h2 h3 h4 h5 => exact .full cs name h1 h2 h3 h4 h5

/-! ## The five mutations -/

/-- The target of `fat16_replace_file` with the entry it starts from. -/
def replaceTarget (t : Target) (name : Name) : Target :=
  if t.exists then t else { t with entry := makeEntry name false 0 0 }

lemma FileEntry.make (hname : fsNameCheck name = .ok ()) : FileEntry (makeEntry name false 0 0) := by
  obtain ⟨stem, ext, hsh⟩ := nameShape_of_check hname
  exact ⟨makeEntry_clipped hsh, (makeEntry_zero _ _ _ hsh).1, makeEntry_live hsh, makeEntry_kind hsh⟩

/-- What a completed `fat16_replace_file` has done. -/
structure Replaced (v : Vol) (parent : Nat) (name : Name) (data : List Byte) (t : Target) (d : Nat) (old : List Nat)
    (p : Plan) (pre post new grow : List Nat) (v' : Vol) : Prop where
  parent : DirId v.image parent d
  located : Located v.image d name t
  unpinned : t.exists = true → pinned v.pins t.id = false
  kind : t.exists = true → entryKind t.entry = .file
  rewritten : Rewritten v (replaceTarget t name) d old data.length
    (fileContent v.geo v.medium old t.old.node.size data.length 0 data false) p pre post new grow v'

lemma Rewritten.of_flags (hu : Flags v u) (h : Rewritten u t d old size content p pre post new grow v') :
    Rewritten v t d old size content p pre post new grow v' := by
  have hd := h.toDone.of_flags hu
  obtain ⟨s, c, o, a, rfl⟩ := hu
  exact ⟨hd, h.entry, h.old_entry, h.placed, h.bytes, h.committed⟩

theorem replaceFile_runs (hs : v.image.Sound) (hid : IsObject v.image parent) (hname : fsNameCheck name = .ok ())
    (herr : ∀ r v', Flags v v' → Q (.error r) v')
    (hok : ∀ t d old p pre post new grow v', Replaced v parent name data t d old p pre post new grow v' →
      Q (.ok ()) v') : Runs v (replaceFile parent name data) Q := by
  unfold replaceFile
  refine Runs.bind (writable_runs herr fun a b o c hflags hready hf hro => ?_)
  refine Runs.bind (findTarget_runs hready hf hs hid (fun r => herr r _ hflags) fun d t hdir hdesc hloc => ?_)
  simp only
  refine Runs.ite (fun _ => Runs.fail_bind (herr _ _ hflags)) fun hkind => ?_
  refine Runs.get_bind fun h => ?_
  refine Runs.ite (fun _ => Runs.fail_bind (herr _ _ hflags)) fun hpin => ?_
  have hspot := hloc.spot hdesc hdir.reach
  have hpin' : t.exists = true → pinned v.pins t.id = false := fun he => by
    simpa [he] using hpin
  have herr' : ∀ r v', Flags (v.flagged a b o c) v' → Q (.error r) v' :=
    fun r v' hv' => herr r v' (hflags.trans hv')
  show Runs _ (rewrite (replaceTarget t name) data.length 0 data false) Q
  rcases Bool.eq_false_or_eq_true t.exists with he | he
  · have ht : replaceTarget t name = t := by simp [replaceTarget, he]
    rw [ht]
    obtain ⟨hg, hend, pre, post, hx⟩ := hloc.existing_of he
    obtain ⟨cs, hh⟩ := hs.holds hx.obj
    have hold := hx.old_eq hh
    have hk : entryKind t.entry = .file := by
      have : t.old.node.kind = .file := by simpa [he] using hkind
      rwa [hold] at this
    obtain ⟨-, h0, hl, -⟩ := decode_ok hx.decoded
    have hfe : FileEntry t.entry := ⟨by rw [← hx.entry_eq]; exact clipped_entry, h0, hl, hk⟩
    have hot := OldTarget.of_file hx.entry_eq (by simp [Image.liveOption, h0, hl]) hk hh hold hg hend
    refine rewrite_runs (v := v.flagged a b o c) hs hro hspot hfe hot
      herr' fun p pre post new grow v' hr => ?_
    refine hok t d cs p pre post new grow v' ⟨hdir, hloc, hpin', fun _ => hk, ?_⟩
    rw [ht]
    exact hr.of_flags hflags
  · have ht : replaceTarget t name = { t with entry := makeEntry name false 0 0 } := by simp [replaceTarget, he]
    rw [ht]
    obtain ⟨hold, hdead⟩ := hloc.dead he
    have hot : OldTarget v.image { t with entry := makeEntry name false 0 0 } [] := OldTarget.of_vacant hold hdead
    refine rewrite_runs (v := v.flagged a b o c) hs hro
      hspot.with_entry (FileEntry.make hname) hot herr' fun p pre post new grow v' hr => ?_
    refine hok t d [] p pre post new grow v' ⟨hdir, hloc, hpin', fun h => absurd (he.symm.trans h) (by decide), ?_⟩
    rw [ht]
    exact hr.of_flags hflags

/-- The target of a mutation of an open file. -/
def fileTarget (e : Entry) (id : Nat) (cs : List Nat) : Target :=
  { old := Image.describes e id cs, id, «exists» := true, entry := e }

lemma rewrite_file (hs : v.image.Sound) (hro : v.device.readOnly = false) (ho : v.image.forest.Obj d id e)
    (hh : v.image.Holds e cs) (hk : entryKind e = .file) (herr : ∀ r v', Flags v v' → Q (.error r) v')
    (hok : ∀ p pre post new grow v', Rewritten v (fileTarget e id cs) d cs size
      (fileContent v.geo v.medium cs (entrySize e) size offset data keep) p pre post new grow v' → Q (.ok ()) v') :
    Runs v (rewrite (fileTarget e id cs) size offset data keep) Q := by
  obtain ⟨pre, post, hed⟩ := Image.Editable.of_obj ho
  obtain ⟨-, he, h0, hl⟩ := Image.mem_live ho.2
  have hfe : FileEntry e := ⟨by rw [he]; exact clipped_entry, h0, hl, hk⟩
  have hot : OldTarget v.image (fileTarget e id cs) cs :=
    .of_file he.symm (by simp [fileTarget, Image.liveOption, h0, hl]) hk hh rfl rfl rfl
  exact rewrite_runs hs hro (.used pre post rfl rfl hed) hfe hot herr hok

/-- What a completed mutation of the file `id` to `size` bytes has done, `data` having been laid over its old
contents at `offset`. -/
structure Written (v : Vol) (id size offset : Nat) (data : List Byte) (e : Entry) (d : Nat) (cs : List Nat) (p : Plan)
    (pre post new grow : List Nat) (v' : Vol) : Prop where
  obj : v.image.forest.Obj d id e
  holds : v.image.Holds e cs
  kind : entryKind e = .file
  rewritten : Rewritten v (fileTarget e id cs) d cs size
    (fileContent v.geo v.medium cs (entrySize e) size offset data true) p pre post new grow v'

section
variable (hs : v.image.Sound) (hid : IsObject v.image id) (herr : ∀ r v', Flags v v' → Q (.error r) v')
include hs hid herr

theorem writeBody_runs
    (hok : ∀ e d cs p pre post new grow v', offset ≤ entrySize e →
      Written v id (max (offset + data.length) (entrySize e)) offset data e d cs p pre post new grow v' →
        Q (.ok ()) v') : Runs v (writeBody id offset data) Q := by
  unfold writeBody
  refine Runs.bind (writable_runs herr fun a b o c hflags hready hf hro => ?_)
  rcases hid with rfl | ⟨d, e, ho⟩
  · refine Runs.bind (byId_root hready hf (herr _ _ hflags))
  · obtain ⟨cs, hh⟩ := hs.holds ho
    refine Runs.bind (byId_runs hready hf hs ho hh (fun r => herr r _ hflags) fun n _ hk => ?_)
    simp only
    refine Runs.ite (fun _ => Runs.fail_bind (herr _ _ hflags)) fun hoff => ?_
    refine rewrite_file (v := v.flagged a b o c) hs hro ho hh hk
      (fun r v' hv' => herr r v' (hflags.trans hv')) fun p pre post new grow v' hr => ?_
    have hle : offset ≤ entrySize e := by
      simp only [Image.describes, not_or] at hoff
      omega
    exact hok e d cs p pre post new grow v' hle ⟨ho, hh, hk, hr.of_flags hflags⟩

theorem truncateFile_runs
    (hsame : ∀ e d v', v.image.forest.Obj d id e → entryKind e = .file → size = entrySize e → Flags v v' →
      Q (.ok ()) v')
    (hok : ∀ e d cs p pre post new grow v', Written v id size 0 [] e d cs p pre post new grow v' → Q (.ok ()) v') :
    Runs v (truncateFile id size) Q := by
  unfold truncateFile
  refine Runs.bind (writable_runs herr fun a b o c hflags hready hf hro => ?_)
  rcases hid with rfl | ⟨d, e, ho⟩
  · refine Runs.bind (byId_root hready hf (herr _ _ hflags))
  · obtain ⟨cs, hh⟩ := hs.holds ho
    refine Runs.bind (byId_runs hready hf hs ho hh (fun r => herr r _ hflags) fun n _ hk => ?_)
    simp only
    refine Runs.ite (fun _ => Runs.fail_bind (herr _ _ hflags)) fun _ => ?_
    refine Runs.ite (fun heq => Runs.pure (hsame e d _ ho hk heq hflags)) fun _ => ?_
    refine rewrite_file (v := v.flagged a b o c) hs hro ho hh hk
      (fun r v' hv' => herr r v' (hflags.trans hv')) fun p pre post new grow v' hr => ?_
    exact hok e d cs p pre post new grow v' ⟨ho, hh, hk, hr.of_flags hflags⟩

end

/-- What a completed `fat16_mkdir_node` has done. -/
structure MadeIn (v : Vol) (parent : Nat) (name : Name) (t : Target) (d n : Nat) (p : Plan) (pre post grow : List Nat)
    (v' : Vol) : Prop where
  parent : DirId v.image parent d
  located : Located v.image d name t
  absent : t.exists = false
  made : Made v t name d n p pre post grow v'

lemma DirId.parent_first (h : DirId x parent d) (hs : x.Sound) (hd : DirDesc x d t.directory) :
    (if parent = rootId then 0 else t.directory.first) = d := by
  rcases h with ⟨rfl, rfl⟩ | ⟨p, e, ho, hk, he⟩
  · rw [if_pos rfl]
  · have h2 := hs.two_le_slot ho.1 (Image.mem_live ho.2).1
    rw [if_neg (by unfold rootId; omega)]
    rcases hd with ⟨rfl, -⟩ | ⟨-, -, hf, -⟩
    · obtain ⟨cs, hh⟩ := hs.holds ho
      have hc := hh.chain hk
      have := validCluster_range (hc.valid hc.head_mem)
      omega
    · exact hf

theorem mkdirNode_runs (hs : v.image.Sound) (hid : IsObject v.image parent) (hname : fsNameCheck name = .ok ())
    (herr : ∀ r v', Flags v v' → Q (.error r) v')
    (hok : ∀ t d n p pre post grow v', MadeIn v parent name t d n p pre post grow v' → Q (.ok ()) v') :
    Runs v (mkdirNode parent name) Q := by
  unfold mkdirNode
  refine Runs.bind (writable_runs herr fun a b o c hflags hready hf hro => ?_)
  refine Runs.bind (findTarget_runs hready hf hs hid (fun r => herr r _ hflags) fun d t hdir hdesc hloc => ?_)
  simp only
  refine Runs.ite (fun _ => Runs.fail_bind (herr _ _ hflags)) fun hne => ?_
  have hne' : t.exists = false := by simpa using hne
  refine Runs.bind (fatCopy_runs (fun r => herr _ _ hflags) ?_)
  refine Runs.bind (Runs.modify (v.flagged false b o c)
    (fun h => ⟨h, rfl, rfl, rfl, rfl, rfl⟩) rfl ?_)
  have hflags' : Flags v (v.flagged false b o c) := ⟨_, _, _, _, rfl⟩
  refine finish_runs (mkdirBody_runs (v := v.flagged false b o c)
    hs hro (hloc.spot hdesc hdir.reach) hname (hdir.parent_first hs hdesc) (hloc.dead hne').2 hdir.reach
    (fun r => ⟨rfl, herr _ _ hflags'⟩) fun p n pre post grow v' hm => ?_)
  exact hok t d n p pre post grow v' ⟨hdir, hloc, hne', hm.toDone.of_flags hflags', hm.entry, hm.old_none, hm.placed⟩

/-- What a completed `fat16_remove_node` has done. -/
structure RemovedFrom (v : Vol) (parent : Nat) (name : Name) (t : Target) (d : Nat) (p : Plan) (pre post old : List Nat)
    (v' : Vol) : Prop where
  parent : DirId v.image parent d
  found : Existing v.image d name t pre post
  unpinned : pinned v.pins t.id = false
  removable : Removable v.image t d pre post old
  removed : Removed v t d p pre post old v'

lemma emptyLoop_entry (hs : v.image.Sound) (ho : v.image.forest.Obj d i e)
    (hk : entryKind e = .directory) (hh : v.image.Holds e cs) (herr : ∀ r, Q (.error r) v)
    (hok : v.image.live (entryFirst e) = [] → Q (.ok ()) v) :
    Runs v (emptyLoop (Image.describes e i cs) (directorySlots v.geo (Image.describes e i cs) - 2) 2) Q := by
  have h2 := hs.two_le_slot ho.1 (Image.mem_live ho.2).1
  have hc := hh.chain hk
  have hv := validCluster_range (hc.valid hc.head_mem)
  have hd : DirDesc v.image (entryFirst e) (Image.describes e i cs) :=
    .inr ⟨by simp only [Image.describes, rootId]; omega, hk, rfl, cs, hc, rfl⟩
  obtain ⟨a, b, rest, hsl, -, -⟩ := hs.dots ho hk
  have hlist : v.image.listing (entryFirst e) = [(a, v.image.entry a), (b, v.image.entry b)] ++ v.image.read rest := by
    rw [Image.listing_eq, hsl]
    rfl
  have hlen : directorySlots v.geo (Image.describes e i cs) - 2 = (v.image.read rest).length := by
    rw [show directorySlots v.geo (Image.describes e i cs) = _ from hd.slot_count, hsl]
    simp [Image.read]
  rw [hlen]
  refine emptyLoop_runs hd herr (fun hall => hok ?_) hlist (by simp)
  unfold Image.live
  rw [if_neg (by omega), List.filter_eq_nil_iff]
  intro q hq
  simp [liveEntry, hall q hq]

theorem removeNode_runs (hs : v.image.Sound)
    (hid : IsObject v.image parent) (herr : ∀ r v', Flags v v' → Q (.error r) v')
    (hok : ∀ t d p pre post old v', RemovedFrom v parent name t d p pre post old v' → Q (.ok ()) v') :
    Runs v (removeNode parent name) Q := by
  unfold removeNode
  refine Runs.bind (writable_runs herr fun a b o c hflags hready hf hro => ?_)
  refine Runs.bind (findTarget_runs hready hf hs hid (fun r => herr r _ hflags) fun d t hdir hdesc hloc => ?_)
  simp only
  refine Runs.ite (fun _ => Runs.fail_bind (herr _ _ hflags)) fun he => ?_
  obtain ⟨-, -, pre, post, hx⟩ := hloc.existing_of (by simpa using he)
  obtain ⟨cs, hh⟩ := hs.holds hx.obj
  have hold := hx.old_eq hh
  refine Runs.get_bind fun h => ?_
  refine Runs.ite (fun _ => Runs.fail_bind (herr _ _ hflags)) fun hpin => ?_
  refine Runs.ite (fun _ => Runs.fail_bind (herr _ _ hflags)) fun _ => ?_
  refine Runs.ite (fun _ => Runs.fail_bind (herr _ _ hflags)) fun _ => ?_
  -- what follows the emptiness test
  have hrest : (∀ f, subdirectory t.entry = some f → v.image.live f = []) →
      Runs (v.flagged a b o c) (do
        let fat ← fatCopy
        modify fun w : World => { w with started := false }
        finish (removeBody t fat)) Q := by
    intro hleaf
    have hrem : Removable v.image t d pre post cs :=
      ⟨hx.toEditable, hx.entry_eq,
        by rw [← hx.entry_eq, hx.live]; simp, hh, by rw [hold]; rfl, by rw [hold]; rfl, hleaf⟩
    refine Runs.bind (fatCopy_runs (fun r => herr _ _ hflags) ?_)
    refine Runs.bind (Runs.modify (v.flagged false b o c)
      (fun h => ⟨h, rfl, rfl, rfl, rfl, rfl⟩) rfl ?_)
    have hflags' : Flags v (v.flagged false b o c) := ⟨_, _, _, _, rfl⟩
    refine finish_runs (removeBody_runs (v := v.flagged false b o c)
      hs hro hrem fun p v' hm => ?_)
    exact hok t d p pre post cs v' ⟨hdir, hx, by simpa using hpin, hrem,
      hm.toDone.of_flags hflags', hm.slot, hm.entry, hm.cleared⟩
  refine Runs.ite (fun hk => ?_) fun hk => ?_
  · have hk' : entryKind t.entry = .directory := by rwa [hold] at hk
    rw [hold]
    refine Runs.bind (emptyLoop_entry (v := v.flagged a b o c) hs hx.obj
      hk' hh (fun r => herr _ _ hflags) fun hlive => hrest fun f hf => ?_)
    obtain ⟨-, rfl⟩ := Image.subdirectory_eq_some.mp hf
    exact hlive
  · refine hrest fun f hf => ?_
    obtain ⟨hk', -⟩ := Image.subdirectory_eq_some.mp hf
    rw [hold] at hk
    exact absurd hk' hk

end RumKernel.Fat16
