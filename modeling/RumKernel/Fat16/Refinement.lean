import RumKernel.Fat16.Trees
import RumKernel.Fat16.Replay

/-!
# The abstract tree

The backend refines a tree of directories and byte strings: every mutation that succeeds changes the tree
at one path, in the way its name says.
-/

namespace RumKernel.Fat16
open Lib Fs Prog

variable {v v' : Vol} {x : Image} {p : Plan} {d n id parent size offset : Nat} {pre post new grow old cs : List Nat}
  {name : Name} {e : Entry} {t : Target} {data : List Byte}
variable {content : Mem} {q : List Name}

/-! ## Contents -/

lemma Image.Holds.bytes_eq (h : x.Holds e cs) (hk : entryKind e = .file) : x.bytes e =
    (List.range (entrySize e)).map fun k =>
      x.medium (clusterBase x.geo (cs.getD (k / x.geo.clusterBytes) 0) + k % x.geo.clusterBytes) := by
  unfold Image.bytes
  cases h with
  | empty _ h2 => simp [h2]
  | file _ _ h3 => rw [Image.clusters_eq h3]
  | directory h1 => rw [hk] at h1; cases h1

lemma Image.bytes_length : (x.bytes e).length = entrySize e := by simp [Image.bytes]

lemma content_replaced {g : Geometry} {m : Mem} {oldSize : Nat} :
    (List.range data.length).map (fileContent g m cs oldSize data.length 0 data false) = data := by
  refine List.ext_getElem (by simp) fun i h1 h2 => ?_
  simp [fileContent, h2]

lemma content_written (h : x.Holds e cs) (hk : entryKind e = .file) (ho : offset ≤ entrySize e) :
    (List.range (max (offset + data.length) (entrySize e))).map (fileContent x.geo x.medium cs (entrySize e)
      (max (offset + data.length) (entrySize e)) offset data true) =
    (x.bytes e).take offset ++ data ++ (x.bytes e).drop (offset + data.length) := by
  have hlen : (x.bytes e).length = entrySize e := Image.bytes_length
  refine List.ext_getElem (by simp [hlen]; omega) fun i h1 h2 => ?_
  have hi : i < max (offset + data.length) (entrySize e) := by simpa using h1
  rw [List.getElem_map, List.getElem_range]
  unfold fileContent
  by_cases hlo : i < offset
  · rw [if_neg (by omega), if_pos ⟨rfl, by omega, hi⟩, List.getElem_append_left (by simp [hlen]; omega),
      List.getElem_append_left (by simp [hlen]; omega), List.getElem_take]
    simp [h.bytes_eq hk]
  by_cases hin : i < offset + data.length
  · rw [if_pos ⟨by omega, hin, hi⟩, List.getElem_append_left (by simp [hlen]; omega),
      List.getElem_append_right (by simp [hlen]; omega), List.getD_eq_getElem _ _ (by omega)]
    simp [hlen, ho]
  · rw [if_neg (by omega), if_pos ⟨rfl, by omega, hi⟩, List.getElem_append_right (by simp [hlen]; omega),
      List.getElem_drop]
    have e1 : offset + data.length + (i - ((x.bytes e).take offset ++ data).length) = i := by
      simp [hlen, ho]
      omega
    simp only [e1]
    simp [h.bytes_eq hk]

lemma content_truncated (h : x.Holds e cs) (hk : entryKind e = .file) :
    (List.range size).map (fileContent x.geo x.medium cs (entrySize e) size 0 [] true) =
    (x.bytes e).take size ++ List.replicate (size - (x.bytes e).length) 0 := by
  have hlen : (x.bytes e).length = entrySize e := Image.bytes_length
  refine List.ext_getElem (by simp [hlen]; omega) fun i h1 h2 => ?_
  have hi : i < size := by simpa using h1
  rw [List.getElem_map, List.getElem_range]
  unfold fileContent
  rw [if_neg (by simp)]
  by_cases hin : i < entrySize e
  · rw [if_pos ⟨rfl, hin, hi⟩, List.getElem_append_left (by simp [hlen]; omega), List.getElem_take]
    simp [h.bytes_eq hk]
  · rw [if_neg (by omega), List.getElem_append_right (by simp [hlen]; omega), List.getElem_replicate]

/-! ## The change of each mutation -/

lemma Existing.find (h : Existing x d name t pre post) : x.forest.find d name = some (t.id, t.entry) := by
  have hc : Forest.Clear x.tag name (Image.Editable.front x d pre) := fun y hy =>
    h.clear y (List.mem_of_mem_drop (List.mem_filter.mp hy).1)
  show Forest.findIn x.tag name (x.live d) = _
  rw [h.toEditable.live_old, h.live, List.append_assoc, hc.append]
  simp [Forest.slotList, Forest.findIn, h.tag]

lemma Existing.entry_iff (h : Existing x d name t pre post) (hs : x.Sound) (q : List Name) (m : Name) :
    (x.forest.entry q m).map Prod.fst = some t.id ↔ x.forest.dir q = some d ∧ m = name := by
  constructor
  · intro hm
    obtain ⟨y, hf, hy⟩ := Option.map_eq_some_iff.mp hm
    obtain ⟨d', hd, ho, ht⟩ := Forest.entry_obj hf
    rw [hy] at ho
    obtain ⟨rfl, he⟩ := hs.proper.slot ho h.obj
    rw [he] at ht
    obtain rfl : name = m := Tag.named.inj (h.tag.symm.trans ht)
    exact ⟨hd, rfl⟩
  · rintro ⟨hd, rfl⟩
    unfold Forest.entry
    rw [hd, Option.bind_some, h.find]
    rfl

lemma Located.clear_live (h : Located x d name t) (hne : t.exists = false) : Forest.Clear x.tag name (x.live d) :=
  fun y hy => h.clear hne y (List.mem_of_mem_drop (List.mem_filter.mp hy).1)

section
variable (h : Rewritten v t d old size content p pre post new grow v')
include h

lemma Rewritten.file (he : FileEntry t.entry) : FileEntry p.entry ∧ Image.liveOption p.entry = some p.entry ∧
      entryName p.entry = entryName t.entry ∧
      (p.published v.image).node p.entry = .file ((List.range size).map content) := by
  have hf : FileEntry p.entry := by
    rw [h.entry]
    refine ⟨rewriteEntry_clipped he.clipped, ?_, by rw [rewriteEntry_live]; exact he.live, by
      rw [rewriteEntry_kind]; exact he.kind⟩
    rw [rewriteEntry_apply (by omega) (by omega)]
    exact he.nonzero
  refine ⟨hf, Image.liveOption_some.mpr ⟨rfl, hf.nonzero, hf.live⟩, by rw [h.entry, rewriteEntry_entryName], ?_⟩
  simp only [Image.node, hf.kind, h.bytes]

lemma Rewritten.tag_kept (ho : v.image.forest.Obj d t.id t.entry) (hk : entryKind t.entry = .file) :
    FileEntry p.entry ∧ Image.liveOption p.entry = some p.entry ∧
      (p.cleared v.image).tag p.entry = (p.cleared v.image).tag t.entry := by
  obtain ⟨-, hx, h0, hl⟩ := Image.mem_live ho.2
  obtain ⟨hf, hlive, hname, -⟩ := h.file ⟨by rw [hx]; exact clipped_entry, h0, hl, hk⟩
  obtain ⟨cs, hh⟩ := h.valid.put.sound.holds (h.valid.quiet.same.obj.mpr ho)
  refine ⟨hf, hlive, ?_⟩
  rw [(h.valid.put.new_holds (by simp [hlive])).tag, hh.tag, hname]
  simp [Image.tooLong, hf.kind, hk]

lemma Rewritten.tree_updated
    (ho : v.image.forest.Obj d t.id t.entry) (hk : entryKind t.entry = .file) (hg : t.grow = false)
    (hend : t.end = false) (q : List Name) (m : Name) :
    (p.published v.image).tree (q ++ [m]) = if (v.image.forest.entry q m).map Prod.fst = some t.id
      then some (.file ((List.range size).map content)) else v.image.tree (q ++ [m]) := by
  obtain ⟨-, hx, h0, hl⟩ := Image.mem_live ho.2
  obtain ⟨hf, hlive, ht⟩ := h.tag_kept ho hk
  have hnode : (p.published v.image).node p.entry = .file ((List.range size).map content) := by
    simp only [Image.node, hf.kind, h.bytes]
  have hv := h.valid
  rcases h.old_entry with ⟨-, -, hslot, hold⟩ | ⟨h1, -⟩
  · have hold' : Image.liveOption ((p.cleared v.image).entry p.slot) = some t.entry := by
      rw [hold, ← hx]
      exact Image.liveOption_some.mpr ⟨rfl, h0, hl⟩
    rw [hv.tree_updated hold' hlive ht (by simp [subdirectory, hk]) (by simp [subdirectory, hf.kind]), hnode, hslot]
  · simp [hg, hend] at h1

end

section
variable (h : Replaced v parent name data t d old p pre post new grow v')
include h

lemma Replaced.created (hname : fsNameCheck name = .ok ()) (hu : name.map upper = name) (he : t.exists = false) :
    Image.liveOption ((p.cleared v.image).entry p.slot) = none ∧ Image.liveOption p.entry = some p.entry ∧
      (p.cleared v.image).tag p.entry = .named name ∧ (p.published v.image).node p.entry = .file data := by
  have hr := h.rewritten
  have ht : replaceTarget t name = { t with entry := makeEntry name false 0 0 } := by simp [replaceTarget, he]
  rw [ht] at hr
  obtain ⟨hf, hlive, hen, hnode⟩ := hr.file (FileEntry.make hname)
  refine ⟨?_, hlive, ?_, by rw [hnode, content_replaced]⟩
  · rcases hr.old_entry with ⟨h1, h2, -, h4⟩ | ⟨-, h4⟩
    · rw [h4]
      exact (h.located.dead he).2 h1 h2
    · exact h4
  · exact (hr.valid.put.new_holds (by simp [hlive])).tag_file hf.kind (hen.trans (makeEntry_entryName hname hu))

lemma Replaced.tree (hs : v.image.Sound)
    (hname : fsNameCheck name = .ok ()) (hu : name.map upper = name) (q : List Name) (m : Name) :
    (p.published v.image).tree (q ++ [m]) =
      if v.image.forest.dir q = some d ∧ m = name then some (.file data) else v.image.tree (q ++ [m]) := by
  have hr := h.rewritten
  rcases Bool.eq_false_or_eq_true t.exists with he | he
  · obtain ⟨hg, hend, pre', post', hx⟩ := h.located.existing_of he
    have ht : replaceTarget t name = t := by simp [replaceTarget, he]
    rw [ht] at hr
    rw [hr.tree_updated hx.obj (h.kind he) hg hend, content_replaced]
    exact if_congr (hx.entry_iff hs q m) rfl rfl
  · obtain ⟨hold, hlive, htag, hnode⟩ := h.created hname hu he
    rw [hr.valid.tree_created hold hlive htag (h.located.clear_live he), hnode]

end

section
variable (h : MadeIn v parent name t d n p pre post grow v') (hname : fsNameCheck name = .ok ())
    (hu : name.map upper = name)
include h hname hu

lemma MadeIn.created
 : Image.liveOption p.entry = some p.entry ∧
      (p.cleared v.image).tag p.entry = .named name ∧ (p.published v.image).node p.entry = .directory := by
  obtain ⟨stem, ext, hsh⟩ := nameShape_of_check hname
  have he := h.made.entry
  have hlive : Image.liveOption p.entry = some p.entry := by
    rw [he]
    exact Image.liveOption_some.mpr ⟨rfl, (makeEntry_zero _ _ _ hsh).1, makeEntry_live hsh⟩
  refine ⟨hlive, ?_, by simp [Image.node, he, makeEntry_kind hsh]⟩
  exact (h.made.valid.put.new_holds (by simp [hlive])).tag_directory (by rw [he]; exact makeEntry_entryName hname hu)

lemma MadeIn.tree (q : List Name) (m : Name) : (p.published v.image).tree (q ++ [m]) =
      if v.image.forest.dir q = some d ∧ m = name then some .directory else v.image.tree (q ++ [m]) := by
  obtain ⟨hlive, htag, hnode⟩ := h.created hname hu
  rw [h.made.valid.tree_created h.made.old_none hlive htag (h.located.clear_live h.absent), hnode]

end

lemma RemovedFrom.tree (h : RemovedFrom v parent name t d p pre post old v')
    (hone : ∀ y ∈ v.image.live d, v.image.tag y.2 = .named name → y.1 = t.id) (q : List Name) (m : Name) :
    (p.published v.image).tree (q ++ [m]) =
      if v.image.forest.dir q = some d ∧ m = name then none else v.image.tree (q ++ [m]) := by
  have hr := h.removed
  have hslot := hr.slot
  refine hr.valid.tree_removed hr.cleared (by rw [hslot]; exact h.found.live) ?_ h.found.tag h.found.clear
    (by rw [hslot]; exact hone) q m
  rw [hr.entry]
  simp [Image.liveOption, deletedEntry_live]

/-! ## Leaves -/

lemma Image.leaf_of {m : Name} (h : ∀ y, x.forest.entry q m = some y → ∀ f,
    subdirectory y.2 = some f → x.live f = []) : x.tree.Leaf (q ++ [m]) := by
  intro k
  rw [Image.tree_snoc]
  have hnone : x.forest.entry (q ++ [m]) k = none := by
    refine Forest.entry_none fun f hf => ?_
    rw [Forest.dir_snoc] at hf
    obtain ⟨y, hy, hf⟩ := Option.bind_eq_some_iff.mp hf
    exact h y hy f hf
  rw [hnone]
  rfl

lemma Tree.Leaf.set {t : Tree} {v : Option Node} (h : t.Leaf q) : (t.set q v).Leaf q := by
  intro m
  rw [Tree.set, if_neg (by simp)]
  exact h m

lemma Located.entry_none (h : Located x d name t) (hne : t.exists = false)
    (hd : x.forest.dir q = some d) : x.forest.entry q name = none := by
  unfold Forest.entry
  rw [hd, Option.bind_some]
  have hc : Forest.findIn x.tag name (x.live d ++ []) = none := (h.clear_live hne).append
  rwa [List.append_nil] at hc

/-! ## The mutations on the abstract tree -/

namespace Mutation

/-- The mutation on the abstract tree of the image `x`: from `x.tree` to `t`. -/
def Effect (x : Image) (t : Tree) : Mutation → Prop
  | replace parent name data => x.ChangesAt parent (· ++ [name]) (some (.file data)) t
  | write id offset data => ∃ old, (∀ q, x.idAt q = some id → x.tree q = some (.file old)) ∧ offset ≤ old.length ∧
      x.ChangesAt id (fun q => q) (some (.file (old.take offset ++ data ++ old.drop (offset + data.length)))) t
  | truncate id size => ∃ old, (∀ q, x.idAt q = some id → x.tree q = some (.file old)) ∧
      x.ChangesAt id (fun q => q) (some (.file (old.take size ++ List.replicate (size - old.length) 0))) t
  | mkdir parent name => (∀ q, x.idAt q = some parent → x.tree (q ++ [name]) = none ∧ t.Leaf (q ++ [name])) ∧
      x.ChangesAt parent (· ++ [name]) (some .directory) t
  | remove parent name => (∀ q, x.idAt q = some parent → x.tree (q ++ [name]) ≠ none ∧ x.tree.Leaf (q ++ [name])) ∧
      x.ChangesAt parent (· ++ [name]) none t

/-- The name of a new entry is in upper case, as `fs_path_parse` leaves every component. -/
def Canonical : Mutation → Prop
  | replace _ name _ => name.map upper = name
  | mkdir _ name => name.map upper = name
  | _ => True

/-- No two entries of the directory that `remove` works on have the removed name. -/
def Distinct (x : Image) : Mutation → Prop
  | remove parent name => ∀ d, DirId x parent d → ∀ y ∈ x.live d, ∀ z ∈ x.live d,
      x.tag y.2 = .named name → x.tag z.2 = .named name → y.1 = z.1
  | _ => True

lemma tree_at (hs : x.Sound) (ho : x.forest.Obj d id e) (hk : entryKind e = .file)
    (hq : x.idAt q = some id) : x.tree q = some (.file (x.bytes e)) := by
  have h2 := hs.two_le_slot ho.1 (Image.mem_live ho.2).1
  rcases List.eq_nil_or_concat q with rfl | ⟨q, m, rfl⟩
  · simp only [Image.idAt_nil, rootId, Option.some.injEq] at hq
    omega
  · rw [List.concat_eq_append, Image.idAt_snoc] at hq
    rw [List.concat_eq_append, Image.tree_snoc]
    obtain ⟨y, hf, hy⟩ := Option.map_eq_some_iff.mp hq
    obtain ⟨d', -, hobj, -⟩ := Forest.entry_obj hf
    rw [hy] at hobj
    obtain ⟨-, he⟩ := hs.proper.slot hobj ho
    simp [hf, he, Image.node, hk]

lemma tree_written (hs : v.image.Sound) {offset' : Nat} {data' : List Byte}
    (h : Written v id size offset' data' e d cs p pre post new grow v') : v.image.ChangesAt id (fun q => q)
      (some (.file ((List.range size).map
        (fileContent v.geo v.medium cs (entrySize e) size offset' data' true)))) (p.published v.image).tree := by
  have h2 := hs.two_le_slot h.obj.1 (Image.mem_live h.obj.2).1
  refine Image.changesAt_slot hs (by unfold rootId; omega) fun q m => ?_
  exact h.rewritten.tree_updated (t := fileTarget e id cs) h.obj h.kind rfl rfl q m

end Mutation

lemma MadeIn.effect (h : MadeIn v parent name t d n p pre post grow v') (hs : v.image.Sound)
    (hname : fsNameCheck name = .ok ()) (hu : name.map upper = name) :
    (Mutation.mkdir parent name).Effect v.image (p.published v.image).tree := by
  have hc := Image.changesAt_name hs h.parent (h.tree hname hu)
  refine ⟨fun q hq => ?_, hc⟩
  have hnone := h.located.entry_none h.absent ((hs.dir_iff h.parent).mpr hq)
  refine ⟨by rw [Image.tree_snoc, hnone]; rfl, ?_⟩
  rw [hc.named q hq]
  refine Tree.Leaf.set (Image.leaf_of fun y hy => ?_)
  rw [hnone] at hy
  cases hy

lemma RemovedFrom.effect (h : RemovedFrom v parent name t d p pre post old v') (hs : v.image.Sound)
    (hd : (Mutation.remove parent name).Distinct v.image) :
    (Mutation.remove parent name).Effect v.image (p.published v.image).tree := by
  have hx := h.found
  have hone : ∀ y ∈ v.image.live d, v.image.tag y.2 = .named name → y.1 = t.id := fun y hy ht =>
    hd d h.parent y hy _ hx.obj.2 ht hx.tag
  refine ⟨fun q hq => ?_, Image.changesAt_name hs h.parent (h.tree hone)⟩
  have hentry : v.image.forest.entry q name = some (t.id, t.entry) := by
    unfold Forest.entry
    rw [(hs.dir_iff h.parent).mpr hq, Option.bind_some, hx.find]
  refine ⟨by rw [Image.tree_snoc, hentry]; simp, Image.leaf_of fun y hy f hf => ?_⟩
  rw [hentry] at hy
  cases hy
  exact h.removable.leaf f hf

namespace Mutation

/-- A result changes the tree as its mutation says, at the moment its entry is written. -/
theorem Result.effect {op : Mutation} (h : Result v op v') (hs : v.image.Sound) (hl : op.Legal v.image)
    (hu : op.Canonical) (hd : op.Distinct v.image) : (Flags v v' ∧ op.Effect v.image v.image.tree) ∨
      ∃ p d pre post new grow old, Done v p d pre post new grow old v' ∧
        op.Effect v.image (p.published v.image).tree := by
  cases h with
  | replace h =>
    exact .inr ⟨_, _, _, _, _, _, _, h.rewritten.toDone, Image.changesAt_name hs h.parent (h.tree hs hl.2 hu)⟩
  | write hle h =>
    refine .inr ⟨_, _, _, _, _, _, _, h.rewritten.toDone, _, fun q hq => tree_at hs h.obj h.kind hq, ?_, ?_⟩
    · rwa [Image.bytes_length]
    · rw [← content_written h.holds h.kind hle]
      exact tree_written hs h
  | truncate h =>
    refine .inr ⟨_, _, _, _, _, _, _, h.rewritten.toDone, _, fun q hq => tree_at hs h.obj h.kind hq, ?_⟩
    rw [← content_truncated h.holds h.kind]
    exact tree_written hs h
  | same ho hk he hf =>
    refine .inl ⟨hf, _, fun q hq => tree_at hs ho hk hq, fun q hq => ?_, fun _ => rfl⟩
    have hlen : (v.image.bytes ‹Entry›).length = entrySize ‹Entry› := Image.bytes_length
    rw [he, ← hlen, List.take_length, Nat.sub_self, List.replicate_zero, List.append_nil]
    funext r
    unfold Tree.set
    split
    · rename_i hr
      rw [hr, tree_at hs ho hk hq]
    · rfl
  | mkdir h => exact .inr ⟨_, _, _, _, _, _, _, h.made.toDone, h.effect hs hl.2 hu⟩
  | remove h => exact .inr ⟨_, _, _, _, _, _, _, h.removed.toDone, h.effect hs hd⟩

end Mutation

lemma Done.tree (h : Done v p d pre post new grow old v') (hs : Synced v) :
    v'.image.tree = (p.published v.image).tree := by
  obtain ⟨-, ha⟩ := h.agree_final hs
  rw [(ha.quiet h.valid.sound').tree, h.valid.tree_final]

/-- **Refinement.** A mutation that returns `FS_OK` changes the abstract tree as its name says, on every device
and for every consistent volume whose directory has the removed name once. -/
theorem mutation_refines_tree {w w' : World} {op : Mutation} (hcache : Coherent w) (hc : Consistent w.vol)
    (hl : op.Legal w.vol.image) (hu : op.Canonical) (hd : op.Distinct w.vol.image)
    (hrun : op.run.run w = (.ok (), w')) : op.Effect w.vol.image w'.vol.image.tree := by
  have hheal := Replays.mutation op w () w' hrun
  have hres := ((op.runs hc.sound hl).apply (World.heal_good hcache) rfl).2
  rw [hheal] at hres
  replace hres : Mutation.Result w.vol op w'.vol := hres
  rcases hres.effect hc.sound hl hu hd with ⟨hf, he⟩ | ⟨p, d, pre, post, new, grow, old, hdone, he⟩
  · rwa [hf.image]
  · rwa [hdone.tree hc.synced]

theorem mutation_refines_tree_replace : writeB.Effect blank.vol.image (writeB.next blank).vol.image.tree :=
  mutation_refines_tree blank_good.2 blank_consistent legal_writeB (show [66].map upper = [66] by decide) trivial
    (writeB.run_eq blank_facts.2.2.1.2.2.1)

/-! ## Two entries of one name -/

/-- The cached table of a volume with one used cluster. -/
def twinFat : Mem := fun j => if j = 4 ∨ j = 5 then 0xff else 0

/-- A medium whose root directory has two entries called `A`: an empty file and a file of one byte. -/
def twinMedium : Mem := fun a =>
  if a = 516 ∨ a = 517 ∨ a = 8708 ∨ a = 8709 then 0xff
  else if 16896 ≤ a ∧ a < 16928 then makeEntry [65] false 0 0 (a - 16896)
  else if 16928 ≤ a ∧ a < 16960 then makeEntry [65] false 2 1 (a - 16928)
  else 0

lemma twin_copy {k : Nat} (hk : k < 2) : CopyIs smallGeometry twinMedium k twinFat := by
  intro j hj
  have hj' : j < 8192 := hj
  have he : fatAt smallGeometry k = 512 + k * 8192 := by
    simp only [fatAt, smallGeometry]
    omega
  rw [he]
  unfold twinMedium twinFat
  by_cases h : j = 4 ∨ j = 5
  · rw [if_pos (by omega), if_pos h]
  · rw [if_neg (by omega), if_neg (by omega), if_neg (by omega), if_neg h]

/-- The volume with the two entries. -/
def twinWorld : World := smallWorld twinFat twinMedium

set_option maxRecDepth 100000 in
/-- The volume holds an empty file and a file of one byte in cluster 2. A removal takes the first one, and the second
one shows. -/
lemma twin_facts : (twinWorld.vol.image.live 0).map Prod.fst = [530, 531] ∧
    (entryKind (twinWorld.vol.image.entry 530) = .file ∧ entrySize (twinWorld.vol.image.entry 530) = 0 ∧
      entryFirst (twinWorld.vol.image.entry 530) = 0) ∧
    (entryKind (twinWorld.vol.image.entry 531) = .file ∧ entrySize (twinWorld.vol.image.entry 531) = 1 ∧
      entryFirst (twinWorld.vol.image.entry 531) = 2) ∧
    (validCluster twinWorld.vol.image.geo 2 = true ∧ firstEnd ≤ nextCluster twinWorld.vol.image.fat 2) ∧
    twinWorld.vol.image.tree [[65]] = some (.file []) ∧ (removeA.run.run twinWorld).1 = .ok () ∧
    (removeA.run.run twinWorld).2.vol.image.tree [[65]] = some (.file [0]) := by
  decide +kernel

lemma twin_consistent : Consistent twinWorld.vol := by
  obtain ⟨hslots, ⟨k0, z0, f0⟩, ⟨k1, z1, f1⟩, ⟨c1, c2⟩, -⟩ := twin_facts
  have hlive : ∀ y ∈ twinWorld.vol.image.live 0, y = (530, twinWorld.vol.image.entry 530) ∨
      y = (531, twinWorld.vol.image.entry 531) := by
    intro y hy
    have hm := List.mem_map_of_mem (f := Prod.fst) hy
    have he := (Image.mem_live hy).2.1
    rw [hslots] at hm
    simp only [List.mem_cons, List.not_mem_nil, or_false] at hm
    rcases hm with hm | hm
    · exact .inl (Prod.ext hm (hm ▸ he))
    · exact .inr (Prod.ext hm (hm ▸ he))
  have h0 : twinWorld.vol.image.Holds (twinWorld.vol.image.entry 530) [] := .empty k0 z0 f0
  have h1 : twinWorld.vol.image.Holds (twinWorld.vol.image.entry 531) [2] := by
    refine .file k1 (by rw [z1]; decide) ?_ (by rw [z1]; rfl)
    rw [f1]
    exact .last c1 c2
  refine ⟨⟨twin_copy (by omega), twin_copy (by omega)⟩, Image.sound_of_files (fun y hy => ?_) (fun y hy => ?_)
    fun y hy z hz hne cs ds hcs hds => ?_⟩
  · rcases hlive y hy with rfl | rfl
    · exact k0
    · exact k1
  · rcases hlive y hy with rfl | rfl
    · exact ⟨_, h0⟩
    · exact ⟨_, h1⟩
  · rcases hlive y hy with rfl | rfl <;> rcases hlive z hz with rfl | rfl
    · exact absurd rfl hne
    · rw [hcs.det h0]
      exact List.disjoint_nil_left _
    · rw [hds.det h0]
      exact List.disjoint_nil_right _
    · exact absurd rfl hne

theorem remove_keeps_twin : Consistent twinWorld.vol ∧ Good twinWorld ∧ (removeA.run.run twinWorld).1 = .ok () ∧
    twinWorld.vol.image.tree [[65]] = some (.file []) ∧ (removeA.run.run twinWorld).2.vol.image.tree [[65]] =
      some (.file [0]) ∧ ¬removeA.Effect twinWorld.vol.image (removeA.run.run twinWorld).2.vol.image.tree := by
  obtain ⟨-, -, -, -, hold, hok, htree⟩ := twin_facts
  refine ⟨twin_consistent, smallWorld_good, hok, hold, htree, fun he => ?_⟩
  rw [he.2.named [] rfl] at htree
  cases htree

end RumKernel.Fat16
