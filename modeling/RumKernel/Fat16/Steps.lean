import RumKernel.Fat16.Image

/-!
# Image steps

The elementary changes a mutation makes to an image, each with its effect on the tree: bytes and table
words outside the live clusters (`Agree`), one empty cluster linked behind a full directory (`grow`), and
one directory slot overwritten (`setSlot`), which is either behind the end marker or an edit of the tree.
-/

namespace RumKernel.Fat16
open Lib Fs

variable {g : Geometry} {id j : Nat} {y : Image} {f : Entry}
variable {l : List (Nat × Entry)}

/-! ## Names and chains of entries -/

/-- The checks of `fat16_decode` that do not look at the table. -/
def entryName (e : Entry) : Except FsError Name :=
  if e 0 = 0 then .error .end
  else if e 0 = 0xe5 ∨ attr e &&& 8 ≠ 0 then .error .notFound
  else if e 0 = dotByte ∧ e 1 = 32 then .error .notFound
  else if e 0 = dotByte ∧ e 1 = dotByte ∧ e 2 = 32 then .error .notFound
  else
    match shortName e with
    | .error e => .error e
    | .ok name => if attr e &&& 0xc0 ≠ 0 ∨ u16 e 20 ≠ 0 then .error .ioError else .ok name

lemma decode_eq {fat : Mem} {e : Entry} : decode g fat e id = match entryName e with
    | .error r => .error r
    | .ok name =>
      match decodeChain g fat e id with
      | .error r => .error r
      | .ok d => .ok (d, name) := by
  unfold decode entryName
  by_cases h1 : e 0 = 0
  · rw [if_pos h1, if_pos h1]
  rw [if_neg h1, if_neg h1]
  by_cases h2 : e 0 = 0xe5 ∨ attr e &&& 8 ≠ 0
  · rw [if_pos h2, if_pos h2]
  rw [if_neg h2, if_neg h2]
  by_cases h3 : e 0 = dotByte ∧ e 1 = 32
  · rw [if_pos h3, if_pos h3]
  rw [if_neg h3, if_neg h3]
  by_cases h4 : e 0 = dotByte ∧ e 1 = dotByte ∧ e 2 = 32
  · rw [if_pos h4, if_pos h4]
  rw [if_neg h4, if_neg h4]
  cases shortName e with
  | error r => rfl
  | ok name =>
    simp only
    split <;> rfl

lemma clustersFor_le {size n : Nat} : clustersFor g size ≤ n ↔ size ≤ n * g.clusterBytes := by
  have h := g.clusterBytes_ge
  unfold clustersFor
  rw [← Nat.lt_succ_iff, Nat.div_lt_iff_lt_mul (by omega), Nat.succ_mul]
  omega

namespace Image

variable {x x' : Image} {c d d' i s s' : Nat} {e e' : Entry} {cs ds : List Nat}

/-- The description of an entry that owns the chain `cs`. -/
def describes (e : Entry) (id : Nat) (cs : List Nat) : Description :=
  { node := { id, size := entrySize e, kind := entryKind e }, first := entryFirst e, length := cs.length }

/-- A directory of `n` clusters has more slots than the driver supports. -/
def tooLong (g : Geometry) (e : Entry) (n : Nat) : Bool :=
  entryKind e = .directory && n * g.clusterBytes / 32 > directoryEntryLimit

lemma Holds.decodeChain (h : x.Holds e cs) : decodeChain x.geo x.fat e id =
    if tooLong x.geo e cs.length then .error .unsupported else .ok (describes e id cs) := by
  cases h with
  | empty h1 h2 h3 =>
    simp [Fat16.decodeChain, tooLong, h1, h2, h3, describes]
  | file h1 h2 h3 h4 =>
    have hle : ¬clustersFor x.geo (entrySize e) > x.geo.clusters := by
      have := h3.length_le
      omega
    simp [Fat16.decodeChain, tooLong, h1, h2, h3.fat16Chain, h4, hle, describes]
  | directory h1 h2 h3 =>
    simp [Fat16.decodeChain, tooLong, h1, h2, h3.fat16Chain, describes]

lemma Holds.tag (h : x.Holds e cs) : x.tag e = match entryName e with
    | .ok name => if tooLong x.geo e cs.length then .broken else .named name
    | .error .notFound => .skip
    | .error _ => .broken := by
  unfold Image.tag
  rw [decode_eq, h.decodeChain]
  cases hn : entryName e with
  | error r => cases r <;> rfl
  | ok name => by_cases ht : tooLong x.geo e cs.length = true <;> simp [ht]

lemma bytes_congr (hg : x'.geo = x.geo) (h : x.Holds e cs) (h' : x'.Holds e cs) (hk : entryKind e = .file)
    (hm : ∀ c ∈ cs, ∀ a, clusterBase x.geo c ≤ a → a < clusterBase x.geo c + x.geo.clusterBytes →
      x'.medium a = x.medium a) : x'.bytes e = x.bytes e := by
  cases h with
  | empty _ h2 _ => simp [Image.bytes, h2]
  | file _ h2 h3 h4 =>
    have h3' : IsChain x'.geo x'.fat (entryFirst e) cs := by
      cases h' with
      | empty _ h0 _ => exact absurd h0 h2
      | file _ _ h3' _ => exact h3'
      | directory h1 => rw [hk] at h1; cases h1
    unfold Image.bytes
    rw [clusters_eq h3, clusters_eq h3', hg]
    refine List.map_congr_left fun k hk' => ?_
    have hb := x.geo.clusterBytes_ge
    have hlt : k / x.geo.clusterBytes < cs.length := by
      rw [Nat.div_lt_iff_lt_mul (by omega)]
      have := clustersFor_le.mp (Nat.le_of_eq h4.symm)
      have := List.mem_range.mp hk'
      omega
    have hlt' := Nat.mod_lt k (show x.geo.clusterBytes > 0 by omega)
    have hmem : cs.getD (k / x.geo.clusterBytes) 0 ∈ cs := by
      rw [List.getD_eq_getElem?_getD, List.getElem?_eq_getElem hlt]
      exact List.getElem_mem _
    exact hm _ hmem _ (Nat.le_add_right _ _) (Nat.add_lt_add_left hlt' _)
  | directory h1 => rw [hk] at h1; cases h1

/-! ## The same tree in another image -/

/-- The tree and the contents of `x` stand in `x'` as well, and `x'` is sound. -/
structure Quiet (x x' : Image) : Prop where
  same : Forest.Same x.forest x'.forest
  sound : x'.Sound
  bytes : ∀ d s e, x.forest.Obj d s e → entryKind e = .file → x'.bytes e = x.bytes e

lemma Quiet.trans (h : Quiet x x') (h' : Quiet x' y) : Quiet x y :=
  ⟨h.same.trans h'.same, h'.sound, fun d s e ho hk => by
    rw [h'.bytes d s e (h.same.obj.mpr ho) hk, h.bytes d s e ho hk]⟩

lemma Quiet.node (h : Quiet x x') (ho : x.forest.Obj d s e) : x'.node e = x.node e := by
  unfold Image.node
  cases hk : entryKind e with
  | directory => rfl
  | file => rw [h.bytes d s e ho hk]

lemma Quiet.tree (h : Quiet x x') : x'.tree = x.tree := by
  funext p
  rcases List.eq_nil_or_concat p with rfl | ⟨q, n, rfl⟩
  · rfl
  · rw [List.concat_eq_append, tree_snoc, tree_snoc, h.same.entry]
    cases hf : x.forest.entry q n with
    | none => rfl
    | some y =>
      obtain ⟨d, -, ho, -⟩ := Forest.entry_obj hf
      simp [h.node ho]

/-! ## Changes outside the live clusters -/

/-- The images agree on the root directory and on all that belongs to live entries. -/
structure Agree (x x' : Image) : Prop where
  geo : x'.geo = x.geo
  root : ∀ a, x.geo.rootStart * 512 ≤ a → a < x.geo.dataStart * 512 → x'.medium a = x.medium a
  data : ∀ c, x.Owned c → ∀ a, clusterBase x.geo c ≤ a → a < clusterBase x.geo c + x.geo.clusterBytes →
    x'.medium a = x.medium a
  next : ∀ c, x.Owned c → nextCluster x'.fat c = nextCluster x.fat c

namespace Agree

section
variable (h : Agree x x')
include h

lemma isChain (hc : IsChain x.geo x.fat c cs) (ho : ∀ y ∈ cs, x.Owned y) : IsChain x'.geo x'.fat c cs := by
  rw [h.geo]
  exact hc.congr fun y hy => h.next y (ho y hy)

lemma holds (hh : x.Holds e cs) (ho : ∀ y ∈ cs, x.Owned y) : x'.Holds e cs := by
  cases hh with
  | empty h1 h2 h3 => exact .empty h1 h2 h3
  | file h1 h2 h3 h4 => exact .file h1 h2 (h.isChain h3 ho) (by rw [h.geo]; exact h4)
  | directory h1 h2 h3 => exact .directory h1 h2 (h.isChain h3 ho)

lemma obj_holds (ho : x.forest.Obj d s e) (hh : x.Holds e cs) : x'.Holds e cs :=
  h.holds hh fun _ hy => ⟨d, s, e, cs, ho, hh, hy⟩

section
variable (hs : x.Sound)
include hs

lemma slots (hr : x.forest.Reach d) : x'.slots d = x.slots d := by
  rcases hs.dir_cases hr with rfl | ⟨p, s, e, cs, ho, -, -, hh, hc⟩
  · rw [slots_root, slots_root, h.geo]
  · have hc' := h.isChain hc fun y hy => ⟨p, s, e, cs, ho, hh, hy⟩
    rw [slots_chain hc, slots_chain hc', h.geo]

lemma entry (hr : x.forest.Reach d) (hi : i ∈ x.slots d) : x'.entry i = x.entry i := by
  refine slice_congr fun j hj => ?_
  rcases hs.slot_cases hr hi with ⟨-, h0⟩ | ⟨p, s, e, cs, c, ho, -, -, hh, hc, hic⟩
  · have hb := slotBase_root h0
    exact h.root _ (by omega) (by omega)
  · have hb := slotBase_cluster hic
    exact h.data c ⟨p, s, e, cs, ho, hh, hc⟩ _ (by omega) (by omega)

lemma live (hr : x.forest.Reach d) : x'.live d = x.live d := by
  have hl : x'.listing d = x.listing d := by
    unfold listing
    rw [h.slots hs hr]
    exact List.map_congr_left fun i hi => by rw [h.entry hs hr hi]
  unfold Image.live scan
  rw [hl]

lemma tag (ho : x.forest.Obj d s e) : x'.tag e = x.tag e := by
  obtain ⟨cs, hh⟩ := hs.holds ho
  rw [hh.tag, (h.obj_holds ho hh).tag, h.geo]

lemma same : Forest.Same x.forest x'.forest :=
  ⟨rfl, rfl, fun _ hr => h.live hs hr, fun _ _ _ ho => h.tag hs ho⟩

lemma holds_iff (ho : x.forest.Obj d s e) : x'.Holds e cs ↔ x.Holds e cs := by
  refine ⟨fun hh => ?_, h.obj_holds ho⟩
  obtain ⟨ds, hd⟩ := hs.holds ho
  rwa [hh.det (h.obj_holds ho hd)]

lemma owned : x'.Owned c ↔ x.Owned c := by
  constructor
  · rintro ⟨d, s, e, cs, ho, hh, hc⟩
    have ho' := (h.same hs).obj.mp ho
    exact ⟨d, s, e, cs, ho', (h.holds_iff hs ho').mp hh, hc⟩
  · rintro ⟨d, s, e, cs, ho, hh, hc⟩
    exact ⟨d, s, e, cs, (h.same hs).obj.mpr ho, h.obj_holds ho hh, hc⟩

lemma dots (hr : x.forest.Reach d) (hd : x.Dots d d') : x'.Dots d d' := by
  obtain ⟨i, j, rest, hl, h1, h2⟩ := hd
  refine ⟨i, j, rest, (h.slots hs hr).trans hl, ?_, ?_⟩
  · rwa [h.entry hs hr (by simp [hl])]
  · rwa [h.entry hs hr (by simp [hl])]

lemma sound : x'.Sound where
  holds ho := by
    have ho' := (h.same hs).obj.mp ho
    obtain ⟨cs, hh⟩ := hs.holds ho'
    exact ⟨cs, h.obj_holds ho' hh⟩
  dots ho hk := by
    have ho' := (h.same hs).obj.mp ho
    exact h.dots hs (.sub ho'.1 ho'.2 (subdirectory_eq_some.mpr ⟨hk, rfl⟩)) (hs.dots ho' hk)
  disjoint ho1 ho2 hne hh1 hh2 := by
    have ho1' := (h.same hs).obj.mp ho1
    have ho2' := (h.same hs).obj.mp ho2
    exact hs.disjoint ho1' ho2' hne ((h.holds_iff hs ho1').mp hh1) ((h.holds_iff hs ho2').mp hh2)

lemma bytes (ho : x.forest.Obj d s e) (hk : entryKind e = .file) : x'.bytes e = x.bytes e := by
  obtain ⟨cs, hh⟩ := hs.holds ho
  exact bytes_congr h.geo hh (h.obj_holds ho hh) hk fun c hc => h.data c ⟨d, s, e, cs, ho, hh, hc⟩

lemma trans (h' : Agree x' y) : Agree x y := by
  have hg := h.geo
  refine ⟨h'.geo.trans hg, fun a h1 h2 => ?_, fun c hc a h1 h2 => ?_, fun c hc => ?_⟩
  · rw [h'.root a (hg ▸ h1) (hg ▸ h2), h.root a h1 h2]
  · rw [h'.data c ((h.owned hs).mpr hc) a (hg ▸ h1) (hg ▸ h2), h.data c hc a h1 h2]
  · rw [h'.next c ((h.owned hs).mpr hc), h.next c hc]

lemma quiet : Quiet x x' :=
  ⟨h.same hs, h.sound hs, fun _ _ _ ho hk => h.bytes hs ho hk⟩

end

end

end Agree

/-! ## Linking a cluster behind a full directory -/

/-- The directory `d` with the clusters `cs` is full, and the unowned cluster `n` can be its next one: it
ends its own chain and holds no entries. -/
structure Growth (x : Image) (d : Nat) (cs : List Nat) (last n : Nat) : Prop where
  reach : x.forest.Reach d
  chain : IsChain x.geo x.fat d cs
  last_eq : cs.getLast? = some last
  valid : validCluster x.geo n = true
  fresh : ¬x.Owned n
  ends : firstEnd ≤ nextCluster x.fat n
  zero : ∀ i ∈ clusterSlots x.geo n, x.entry i 0 = 0
  full : ∀ p ∈ x.listing d, p.2 0 ≠ 0
  limit : (cs.length + 1) * x.geo.clusterBytes / 32 ≤ directoryEntryLimit

/-- The image after linking `n` behind `last`. -/
def grown (x : Image) (last n : Nat) : Image := { x with fat := setCluster x.fat last n }

namespace Growth

variable {last n : Nat}

section
variable (h : Growth x d cs last n)
include h

lemma entry_obj (hs : x.Sound) :
    ∃ p s e, x.forest.Obj p s e ∧ entryKind e = .directory ∧ entryFirst e = d ∧ x.Holds e cs := by
  rcases hs.dir_cases h.reach with rfl | ⟨p, s, e, cs', ho, hk, he, hh, hc⟩
  · have := validCluster_range (h.chain.valid h.chain.head_mem)
    omega
  · exact ⟨p, s, e, ho, hk, he, h.chain.det hc ▸ hh⟩

lemma last_mem : last ∈ cs := List.mem_of_mem_getLast? h.last_eq

section
variable (hs : x.Sound)
include hs

lemma owned_cs (hc : c ∈ cs) : x.Owned c := by
  obtain ⟨p, s, e, ho, -, -, hh⟩ := h.entry_obj hs
  exact ⟨p, s, e, cs, ho, hh, hc⟩

lemma not_mem : n ∉ cs := fun hm => h.fresh (h.owned_cs hs hm)

lemma chain' : IsChain (x.grown last n).geo (x.grown last n).fat d (cs ++ [n]) := by
  have hv := validCluster_range h.valid
  have hnl : n ≠ last := fun e => h.not_mem hs (e ▸ h.last_mem)
  refine Chain.snoc h.chain h.valid ?_ ?_ ?_ ?_
  · unfold firstEnd
    omega
  · show firstEnd ≤ nextCluster (setCluster x.fat last n) n
    rw [nextCluster_setCluster_other hnl]
    exact h.ends
  · intro y hy
    obtain rfl : last = y := by simpa [h.last_eq] using hy
    exact nextCluster_setCluster_same (by omega)
  · intro y _ hne
    exact nextCluster_setCluster_other fun e => hne (e ▸ h.last_eq)

lemma holds_other (ho : x.forest.Obj d' s e)
    (hne : ¬(entryKind e = .directory ∧ entryFirst e = d)) (hh : x.Holds e ds) : (x.grown last n).Holds e ds := by
  obtain ⟨p, s0, e0, ho0, hk0, he0, hh0⟩ := h.entry_obj hs
  have hss : s ≠ s0 := by
    rintro rfl
    obtain ⟨-, rfl⟩ := hs.proper.slot ho ho0
    exact hne ⟨hk0, he0⟩
  have hkeep : ∀ y ∈ ds, nextCluster (setCluster x.fat last n) y = nextCluster x.fat y := by
    intro y hy
    refine nextCluster_setCluster_other ?_
    rintro rfl
    exact hs.disjoint ho ho0 hss hh hh0 hy h.last_mem
  cases hh with
  | empty h1 h2 h3 => exact .empty h1 h2 h3
  | file h1 h2 h3 h4 => exact .file h1 h2 (h3.congr hkeep) h4
  | directory h1 h2 h3 => exact .directory h1 h2 (h3.congr hkeep)

lemma holds_self (ho : x.forest.Obj d' s e)
    (hk : entryKind e = .directory) (he : entryFirst e = d) : (x.grown last n).Holds e (cs ++ [n]) := by
  obtain ⟨ds, hh⟩ := hs.holds ho
  cases hh with
  | empty h1 => rw [hk] at h1; cases h1
  | file h1 => rw [hk] at h1; cases h1
  | directory _ h2 _ => exact .directory hk h2 (he ▸ h.chain' hs)

lemma slots_other (hr : x.forest.Reach d') (hd : d' ≠ d) : (x.grown last n).slots d' = x.slots d' := by
  rcases hs.dir_cases hr with rfl | ⟨p, s, e, ds, ho, hk, he, hh, hc⟩
  · rfl
  · have hne : ¬(entryKind e = .directory ∧ entryFirst e = d) := fun hx => hd (he ▸ hx.2)
    have hc' := (h.holds_other hs ho hne hh).chain hk
    rw [he] at hc'
    rw [slots_chain hc, slots_chain hc']
    rfl

lemma slots_self : (x.grown last n).slots d = x.slots d ++ clusterSlots x.geo n := by
  rw [slots_chain h.chain, slots_chain (h.chain' hs)]
  simp [grown]

lemma scan_eq (hr : x.forest.Reach d') : (x.grown last n).scan d' = x.scan d' := by
  by_cases hd : d' = d
  · subst hd
    have hfull : (x.listing d').takeWhile (fun p => p.2 0 != 0) = x.listing d' := by
      rw [List.takeWhile_eq_self_iff]
      exact fun p hp => by simpa using h.full p hp
    have hzero : ((clusterSlots x.geo n).map fun i => (i, x.entry i)).takeWhile
        (fun p => p.2 0 != 0) = [] := by
      rw [List.takeWhile_eq_nil_iff]
      intro hl
      have hm := List.get_mem ((clusterSlots x.geo n).map fun i => (i, x.entry i)) ⟨0, hl⟩
      obtain ⟨i, hi, e⟩ := List.mem_map.mp hm
      rw [← e]
      simp [h.zero i hi]
    have hl : (x.grown last n).listing d' =
        x.listing d' ++ (clusterSlots x.geo n).map fun i => (i, x.entry i) := by
      unfold listing
      rw [h.slots_self hs, List.map_append]
      rfl
    unfold scan
    rw [hl, List.takeWhile_append_of_pos (fun p hp => by simpa using h.full p hp), hzero, hfull,
      List.append_nil]
  · unfold scan listing
    rw [h.slots_other hs hr hd]
    rfl

lemma tag (ho : x.forest.Obj d' s e) : (x.grown last n).tag e = x.tag e := by
  by_cases hd : entryKind e = .directory ∧ entryFirst e = d
  · have hh' := h.holds_self hs ho hd.1 hd.2
    obtain ⟨ds, hh⟩ := hs.holds ho
    have e1 : ds = cs := (hh.chain hd.1).det (hd.2 ▸ h.chain)
    subst e1
    have hl := h.limit
    have h1 : tooLong x.geo e (ds ++ [n]).length = false := by
      simp only [tooLong, List.length_append, List.length_singleton, Bool.and_eq_false_imp]
      intro _
      simpa using hl
    have h2 : tooLong x.geo e ds.length = false := by
      simp only [tooLong, Bool.and_eq_false_imp]
      intro _
      have : ds.length * x.geo.clusterBytes ≤ (ds.length + 1) * x.geo.clusterBytes :=
        Nat.mul_le_mul_right _ (by omega)
      simp only [gt_iff_lt, decide_eq_false_iff_not]
      omega
    rw [hh.tag, hh'.tag, h2]
    show (match entryName e with
      | .ok name => if tooLong x.geo e (ds ++ [n]).length = true then Tag.broken else Tag.named name
      | .error .notFound => Tag.skip
      | .error _ => Tag.broken) = _
    rw [h1]
  · obtain ⟨ds, hh⟩ := hs.holds ho
    rw [hh.tag, (h.holds_other hs ho hd hh).tag]
    rfl

lemma same : Forest.Same x.forest (x.grown last n).forest := by
  refine ⟨rfl, rfl, fun d' hr => ?_, fun _ _ _ ho => h.tag hs ho⟩
  show (x.grown last n).live d' = x.live d'
  unfold live
  rw [h.scan_eq hs hr]

lemma holds_cases (ho : x.forest.Obj d' s e) (hh : (x.grown last n).Holds e ds) :
    (entryKind e = .directory ∧ entryFirst e = d ∧ ds = cs ++ [n] ∧ x.Holds e cs) ∨ x.Holds e ds := by
  obtain ⟨es, hx⟩ := hs.holds ho
  by_cases hd : entryKind e = .directory ∧ entryFirst e = d
  · refine .inl ⟨hd.1, hd.2, hh.det (h.holds_self hs ho hd.1 hd.2), ?_⟩
    rwa [h.chain.det (hd.2 ▸ hx.chain hd.1)]
  · refine .inr ?_
    rwa [hh.det (h.holds_other hs ho hd hx)]

lemma owned : (x.grown last n).Owned c ↔ x.Owned c ∨ c = n := by
  constructor
  · rintro ⟨p, s, e, ds, ho, hh, hc⟩
    have ho' := (h.same hs).obj.mp ho
    rcases h.holds_cases hs ho' hh with ⟨-, -, rfl, hx⟩ | hx
    · rcases List.mem_append.mp hc with hc | hc
      · exact .inl ⟨p, s, e, cs, ho', hx, hc⟩
      · exact .inr (by simpa using hc)
    · exact .inl ⟨p, s, e, ds, ho', hx, hc⟩
  · rintro (⟨p, s, e, ds, ho, hh, hc⟩ | rfl)
    · have ho' := (h.same hs).obj.mpr ho
      by_cases hd : entryKind e = .directory ∧ entryFirst e = d
      · have e1 : ds = cs := (hh.chain hd.1).det (hd.2 ▸ h.chain)
        exact ⟨p, s, e, _, ho', h.holds_self hs ho hd.1 hd.2, by simp [← e1, hc]⟩
      · exact ⟨p, s, e, ds, ho', h.holds_other hs ho hd hh, hc⟩
    · obtain ⟨p, s, e, ho, hk, he, -⟩ := h.entry_obj hs
      exact ⟨p, s, e, _, (h.same hs).obj.mpr ho, h.holds_self hs ho hk he, by simp⟩

lemma sound : (x.grown last n).Sound where
  holds := by
    intro p s e ho
    have ho' := (h.same hs).obj.mp ho
    obtain ⟨ds, hh⟩ := hs.holds ho'
    by_cases hd : entryKind e = .directory ∧ entryFirst e = d
    · exact ⟨_, h.holds_self hs ho' hd.1 hd.2⟩
    · exact ⟨ds, h.holds_other hs ho' hd hh⟩
  dots := by
    intro p s e ho hk
    have ho' := (h.same hs).obj.mp ho
    obtain ⟨i, j, rest, hl, h1, h2⟩ := hs.dots ho' hk
    by_cases hd : entryFirst e = d
    · refine ⟨i, j, rest ++ clusterSlots x.geo n, ?_, h1, h2⟩
      rw [hd] at hl ⊢
      rw [h.slots_self hs, hl]
      rfl
    · refine ⟨i, j, rest, ?_, h1, h2⟩
      rw [h.slots_other hs (.sub ho'.1 ho'.2 (subdirectory_eq_some.mpr ⟨hk, rfl⟩)) hd, hl]
  disjoint := by
    intro p p' s s' e e' ds ds' ho ho' hne hh hh'
    have hx := (h.same hs).obj.mp ho
    have hx' := (h.same hs).obj.mp ho'
    rcases h.holds_cases hs hx hh with ⟨hk, he, rfl, hc⟩ | hc <;>
      rcases h.holds_cases hs hx' hh' with ⟨hk', he', rfl, hc'⟩ | hc'
    · exact absurd (hs.proper.entered hx hx' (subdirectory_eq_some.mpr ⟨hk, he⟩)
        (subdirectory_eq_some.mpr ⟨hk', he'⟩)) hne
    · intro y hy hy'
      rcases List.mem_append.mp hy with hy | hy
      · exact hs.disjoint hx hx' hne hc hc' hy hy'
      · obtain rfl : y = n := by simpa using hy
        exact h.fresh ⟨p', s', e', ds', hx', hc', hy'⟩
    · intro y hy hy'
      rcases List.mem_append.mp hy' with hy' | hy'
      · exact hs.disjoint hx hx' hne hc hc' hy hy'
      · obtain rfl : y = n := by simpa using hy'
        exact h.fresh ⟨p, s, e, ds, hx, hc, hy⟩
    · exact hs.disjoint hx hx' hne hc hc'

lemma quiet : Quiet x (x.grown last n) := by
  refine ⟨h.same hs, h.sound hs, fun p s e ho hk => ?_⟩
  have hne : ¬(entryKind e = .directory ∧ entryFirst e = d) := fun hx => by rw [hk] at hx; cases hx.1
  obtain ⟨ds, hh⟩ := hs.holds ho
  exact bytes_congr rfl hh (h.holds_other hs ho hne hh) hk fun _ _ _ _ _ => rfl

end

end

end Growth

/-! ## Overwriting a slot -/

/-- The medium with the entry `e` in slot `i`. -/
def setSlot (m : Mem) (i : Nat) (e : Entry) : Mem := fun a =>
  if slotBase i ≤ a ∧ a < slotBase i + 32 then e (a - slotBase i) else m a

/-- The image with the entry `e` in slot `i`. -/
def withSlot (x : Image) (i : Nat) (e : Entry) : Image := { x with medium := setSlot x.medium i e }

def read (x : Image) (l : List Nat) : List (Nat × Entry) := l.map fun j => (j, x.entry j)

lemma listing_eq : x.listing d = x.read (x.slots d) := rfl

lemma read_append {l k : List Nat} : x.read (l ++ k) = x.read l ++ x.read k := List.map_append

lemma entry_withSlot_same (he : slice e 0 32 = e) : (x.withSlot i e).entry i = e := by
  conv_rhs => rw [← he]
  funext j
  unfold Image.entry slice withSlot setSlot
  by_cases hj : j < 32
  · simp [hj]
  · simp [hj]

lemma entry_withSlot_other (h2 : 2 ≤ i) (hj : 2 ≤ j) (hne : j ≠ i) : (x.withSlot i e).entry j = x.entry j := by
  refine slice_congr fun k hk => ?_
  show setSlot x.medium i e (slotBase j + k) = x.medium (slotBase j + k)
  unfold setSlot slotBase
  rw [if_neg (by omega)]

lemma read_withSlot {l : List Nat} (h2 : 2 ≤ i) (hl : ∀ j ∈ l, 2 ≤ j) (hn : i ∉ l) :
    (x.withSlot i e).read l = x.read l :=
  List.map_congr_left fun j hj => by
    rw [entry_withSlot_other h2 (hl j hj) fun e => hn (e ▸ hj)]

lemma holds_withSlot : (x.withSlot i e).Holds f cs ↔ x.Holds f cs := by
  constructor <;> intro h <;> cases h with
  | empty h1 h2 h3 => exact .empty h1 h2 h3
  | file h1 h2 h3 h4 => exact .file h1 h2 h3 h4
  | directory h1 h2 h3 => exact .directory h1 h2 h3

lemma Sound.two_le_slot (hs : x.Sound) (hr : x.forest.Reach d) (hi : i ∈ x.slots d) : 2 ≤ i := by
  rcases hs.slot_cases hr hi with ⟨-, h⟩ | ⟨_, _, _, _, c, -, -, -, -, -, h⟩
  · exact two_le_of_mem_slots (c := 0) (.inr h)
  · exact two_le_of_mem_slots (.inl h)

/-- Slot `i` of the reachable directory `d`, with the slots before and behind it. -/
structure SlotAt (x : Image) (d i : Nat) (pre post : List Nat) : Prop where
  reach : x.forest.Reach d
  slots : x.slots d = pre ++ i :: post

namespace SlotAt

variable {pre post : List Nat}

section
variable (h : SlotAt x d i pre post)
include h

lemma mem : i ∈ x.slots d := by simp [h.slots]

lemma not_mem (hs : x.Sound) : i ∉ pre ∧ i ∉ post := by
  have hn := hs.slots_nodup h.reach
  rw [h.slots, List.nodup_append] at hn
  exact ⟨fun hm => hn.2.2 i hm i List.mem_cons_self rfl, (List.nodup_cons.mp hn.2.1).1⟩

lemma two_le (hs : x.Sound) : 2 ≤ i ∧ (∀ j ∈ pre, 2 ≤ j) ∧ ∀ j ∈ post, 2 ≤ j := by
  have hall : ∀ j ∈ x.slots d, 2 ≤ j := fun j hj => hs.two_le_slot h.reach hj
  rw [h.slots] at hall
  exact ⟨hall i (by simp), fun j hj => hall j (by simp [hj]), fun j hj => hall j (by simp [hj])⟩

lemma entry_other (hs : x.Sound) (hr : x.forest.Reach d')
    (hj : j ∈ x.slots d') (hne : j ≠ i) : (x.withSlot i e).entry j = x.entry j :=
  entry_withSlot_other (h.two_le hs).1 (hs.two_le_slot hr hj) hne

lemma listing_other (hs : x.Sound) (hr : x.forest.Reach d') (hd : d' ≠ d) :
    (x.withSlot i e).listing d' = x.listing d' :=
  read_withSlot (h.two_le hs).1 (fun _ hj => hs.two_le_slot hr hj)
    fun hm => hd (hs.slot_unique hr h.reach hm h.mem)

lemma listing_old : x.listing d = x.read pre ++ (i, x.entry i) :: x.read post := by
  rw [listing_eq, h.slots, read_append]
  rfl

section
variable (hs : x.Sound)
include hs

lemma listing_new (he : slice e 0 32 = e) : (x.withSlot i e).listing d = x.read pre ++ (i, e) :: x.read post := by
  obtain ⟨h1, h2⟩ := h.not_mem hs
  obtain ⟨h3, h4, h5⟩ := h.two_le hs
  rw [listing_eq, show (x.withSlot i e).slots d = x.slots d from rfl, h.slots, read_append,
    read_withSlot h3 h4 h1]
  show _ ++ (i, (x.withSlot i e).entry i) :: (x.withSlot i e).read post = _
  rw [entry_withSlot_same he, read_withSlot h3 h5 h2]

lemma live_other (hr : x.forest.Reach d') (hd : d' ≠ d) : (x.withSlot i e).live d' = x.live d' := by
  unfold live scan
  rw [h.listing_other hs hr hd]

lemma dots (hlen : d ≠ 0 → 2 ≤ pre.length) {p : Nat}
    (hr : x.forest.Reach d') (hd' : d' ≠ 0) (hd : x.Dots d' p) : (x.withSlot i e).Dots d' p := by
  obtain ⟨a, b, rest, hl, h1, h2⟩ := hd
  have hne : a ≠ i ∧ b ≠ i := by
    by_cases hdd : d' = d
    · subst hdd
      have hn := (h.not_mem hs).1
      have hlen := hlen hd'
      rw [h.slots] at hl
      match pre, hlen with
      | u :: v :: l, _ =>
        simp only [List.cons_append, List.cons.injEq] at hl
        simp only [List.mem_cons, not_or] at hn
        exact ⟨fun e => hn.1 (by rw [← e, ← hl.1]), fun e => hn.2.1 (by rw [← e, ← hl.2.1])⟩
    · have hn : i ∉ x.slots d' := fun hm => hdd (hs.slot_unique hr h.reach hm h.mem)
      rw [hl] at hn
      simp only [List.mem_cons, not_or] at hn
      exact ⟨fun e => hn.1 e.symm, fun e => hn.2.1 e.symm⟩
  refine ⟨a, b, rest, hl, ?_, ?_⟩
  · rwa [h.entry_other hs hr (by simp [hl]) hne.1]
  · rwa [h.entry_other hs hr (by simp [hl]) hne.2]

lemma byte_outside (hv : validCluster x.geo c = true)
    (hc : c ∉ x.clusters d) {a : Nat} (h1 : clusterBase x.geo c ≤ a)
    (h2 : a < clusterBase x.geo c + x.geo.clusterBytes) : setSlot x.medium i e a = x.medium a := by
  unfold setSlot
  rw [if_neg]
  rintro ⟨h3, h4⟩
  rcases hs.dir_cases h.reach with rfl | ⟨p, s, e, cs, ho, hk, he, hh, hch⟩
  · have hb := slotBase_root (g := x.geo) h.mem
    have hb' := clusterBase_bounds hv
    omega
  · have hm := h.mem
    rw [slots_chain hch] at hm
    obtain ⟨c', hc', hic'⟩ := List.mem_flatMap.mp hm
    have hb := slotBase_cluster hic'
    rw [clusters_eq hch] at hc
    exact hc (cluster_unique hv (hch.valid hc') h1 h2 (by omega) (by omega) ▸ hc')

lemma bytes (hk : entryKind f = .file)
    (hh : x.Holds f cs) (hc : ∀ c ∈ cs, c ∉ x.clusters d) : (x.withSlot i e).bytes f = x.bytes f :=
  bytes_congr rfl hh (holds_withSlot.mpr hh) hk fun c hm _ h1 h2 =>
    h.byte_outside hs (hh.valid hm) (hc c hm) h1 h2

end

end

end SlotAt

lemma clusters_root : x.clusters 0 = [] := by
  unfold clusters
  cases hf : fat16Chain x.geo x.fat 0 with
  | error r => rfl
  | ok k =>
    obtain ⟨es, hes, -⟩ := fat16Chain_ok_iff.mp hf
    have := validCluster_range (hes.valid hes.head_mem)
    omega

lemma Sound.clusters_owned (hs : x.Sound) (hr : x.forest.Reach d) (hc : c ∈ x.clusters d) : x.Owned c := by
  rcases hs.dir_cases hr with rfl | ⟨p, s, f, cs, ho, -, -, hh, hch⟩
  · simp [clusters_root] at hc
  · rw [clusters_eq hch] at hc
    exact ⟨p, s, f, cs, ho, hh, hc⟩

namespace SlotAt

variable {pre post : List Nat}

lemma file_outside (h : SlotAt x d i pre post) (hs : x.Sound) (ho : x.forest.Obj d' s e)
    (hk : entryKind e = .file) (hh : x.Holds e cs) (hc : c ∈ cs) : c ∉ x.clusters d := by
  intro hm
  rcases hs.dir_cases h.reach with rfl | ⟨p, s', e', ds, ho', hk', he', hh', hch⟩
  · simp [clusters_root] at hm
  · rw [clusters_eq hch] at hm
    have hne : s ≠ s' := by
      rintro rfl
      obtain ⟨-, rfl⟩ := hs.proper.slot ho ho'
      rw [hk] at hk'
      cases hk'
    exact hs.disjoint ho ho' hne hh hh' hc hm

lemma quiet (h : SlotAt x d i pre post) (hs : x.Sound) (he : slice e 0 32 = e)
    (hlen : d ≠ 0 → 2 ≤ pre.length) (hend : ∃ j ∈ pre, x.entry j 0 = 0) : Quiet x (x.withSlot i e) := by
  have hscan : (x.withSlot i e).scan d = x.scan d := by
    have hstop : ¬∀ p ∈ x.read pre, (p.2 0 != 0) = true := by
      obtain ⟨j, hj, h0⟩ := hend
      intro hall
      have := hall (j, x.entry j) (List.mem_map.mpr ⟨j, hj, rfl⟩)
      simp [h0] at this
    unfold scan
    rw [h.listing_old, h.listing_new hs he, List.takeWhile_append, List.takeWhile_append]
    have hlt : ((x.read pre).takeWhile fun p => p.2 0 != 0).length ≠ (x.read pre).length := by
      intro hl
      have := (List.takeWhile_sublist fun p : Nat × Entry => p.2 0 != 0).eq_of_length hl
      exact hstop (List.takeWhile_eq_self_iff.mp this)
    rw [if_neg hlt, if_neg hlt]
  have hsame : Forest.Same x.forest (x.withSlot i e).forest := by
    refine ⟨rfl, rfl, fun d' hr => ?_, fun _ _ _ _ => rfl⟩
    show (x.withSlot i e).live d' = x.live d'
    by_cases hd : d' = d
    · subst hd
      unfold live
      rw [hscan]
    · exact h.live_other hs hr hd
  refine ⟨hsame, ⟨?_, ?_, ?_⟩, ?_⟩
  · intro p s f ho
    obtain ⟨cs, hh⟩ := hs.holds (hsame.obj.mp ho)
    exact ⟨cs, holds_withSlot.mpr hh⟩
  · intro p s f ho hk
    have ho' := hsame.obj.mp ho
    have hv := validCluster_range (((hs.holds ho').choose_spec.chain hk).valid
      ((hs.holds ho').choose_spec.chain hk).head_mem)
    exact h.dots hs hlen (.sub ho'.1 ho'.2 (subdirectory_eq_some.mpr ⟨hk, rfl⟩)) (by omega) (hs.dots ho' hk)
  · intro p p' s s' f f' cs ds ho ho' hne hh hh'
    exact hs.disjoint (hsame.obj.mp ho) (hsame.obj.mp ho') hne (holds_withSlot.mp hh) (holds_withSlot.mp hh')
  · intro p s f ho hk
    obtain ⟨cs, hh⟩ := hs.holds ho
    exact h.bytes hs hk hh fun c hc => h.file_outside hs ho hk hh hc

end SlotAt

/-! ## Editing the tree -/

/-- The live entry in a slot, if any. -/
def liveOption (e : Entry) : Option Entry := if e 0 ≠ 0 ∧ liveEntry e = true then some e else none

lemma liveOption_some : liveOption e = some f ↔ e = f ∧ e 0 ≠ 0 ∧ liveEntry e = true := by
  unfold liveOption
  split
  · rename_i hl
    exact ⟨fun h => ⟨Option.some.inj h, hl⟩, fun h => congrArg some h.1⟩
  · rename_i hl
    exact ⟨fun h => absurd h (by simp), fun h => absurd h.2 hl⟩

lemma filter_live_cons (h0 : e 0 ≠ 0) : ((i, e) :: l).filter (fun p => liveEntry p.2) =
      Forest.slotList i (liveOption e) ++ l.filter fun p => liveEntry p.2 := by
  unfold liveOption
  by_cases hl : liveEntry e = true
  · simp [hl, h0, Forest.slotList]
  · simp [hl, Forest.slotList]

/-- Slot `i` of `d` may take an entry: it is not behind the end marker, not a dot entry, and if it is the
end marker itself there is another one behind it or no slot at all. -/
structure Editable (x : Image) (d i : Nat) (pre post : List Nat) : Prop extends SlotAt x d i pre post where
  before : ∀ j ∈ pre, x.entry j 0 ≠ 0
  depth : d ≠ 0 → 2 ≤ pre.length
  behind : x.entry i 0 = 0 → (x.read post).takeWhile (fun p => p.2 0 != 0) = []

namespace Editable

variable {pre post : List Nat}

/-- The live entries before the slot. -/
def front (x : Image) (d : Nat) (pre : List Nat) : List (Nat × Entry) :=
  ((x.read pre).drop (if d = 0 then 0 else 2)).filter fun p => liveEntry p.2

/-- The live entries behind the slot. -/
def back (x : Image) (post : List Nat) : List (Nat × Entry) :=
  ((x.read post).takeWhile fun p => p.2 0 != 0).filter fun p => liveEntry p.2

section
variable (h : Editable x d i pre post)
include h

lemma drop_append :
    (x.read pre ++ l).drop (if d = 0 then 0 else 2) = (x.read pre).drop (if d = 0 then 0 else 2) ++ l := by
  have hlen : (x.read pre).length = pre.length := List.length_map _
  refine List.drop_append_of_le_length ?_
  split
  · exact Nat.zero_le _
  · rw [hlen]
    exact h.depth ‹_›

lemma takeWhile_pre : (x.read pre ++ l).takeWhile (fun p => p.2 0 != 0) =
      x.read pre ++ l.takeWhile fun p => p.2 0 != 0 := by
  refine List.takeWhile_append_of_pos fun p hp => ?_
  obtain ⟨j, hj, rfl⟩ := List.mem_map.mp hp
  simpa using h.before j hj

lemma live_old : x.live d = front x d pre ++ Forest.slotList i (liveOption (x.entry i)) ++ back x post := by
  unfold live scan
  rw [h.listing_old, h.takeWhile_pre, h.drop_append, List.filter_append]
  by_cases h0 : x.entry i 0 = 0
  · have hb : back x post = [] := by
      unfold back
      rw [h.behind h0]
      rfl
    simp [h0, hb, liveOption, Forest.slotList, front]
  · rw [List.takeWhile_cons_of_pos (by simpa using h0), filter_live_cons h0]
    simp [front, back]

section
variable (hs : x.Sound) (he : slice e 0 32 = e) (h0 : e 0 ≠ 0)
include hs he h0

lemma live_new : (x.withSlot i e).live d = front x d pre ++ Forest.slotList i (liveOption e) ++ back x post := by
  unfold live scan
  rw [h.listing_new hs he, h.takeWhile_pre, h.drop_append, List.filter_append,
    List.takeWhile_cons_of_pos (by simpa using h0), filter_live_cons h0]
  simp [front, back]

lemma edit (hold : ∀ f, liveOption (x.entry i) ≠ none → subdirectory (x.entry i) = some f → x.live f = [])
    (hnew : ∀ f, liveOption e ≠ none → subdirectory e = some f → (x.withSlot i e).live f = [] ∧ ¬x.forest.Reach f) :
    Forest.Edit x.forest (x.withSlot i e).forest d i (liveOption (x.entry i)) (liveOption e)
      (front x d pre) (back x post) where
  root := rfl
  sub := rfl
  at_reach := h.reach
  kids d' hr hd := h.live_other hs hr hd
  kids_old := h.live_old
  kids_new := h.live_new hs he h0
  tag _ _ _ _ _ := rfl
  fresh d' f ho := by
    have hm := mem_live ho.2
    refine ⟨hs.slot_unique ho.1 h.reach hm.1 h.mem, ?_⟩
    rw [liveOption_some]
    exact ⟨hm.2.1.symm, hm.2.1 ▸ hm.2.2⟩
  old_leaf f d' ho hsub := by
    obtain ⟨rfl, -⟩ := liveOption_some.mp ho
    exact hold d' (by simp [ho]) hsub
  new_leaf f d' hn hsub := by
    obtain ⟨rfl, -⟩ := liveOption_some.mp hn
    exact hnew d' (by simp [hn]) hsub

end

end

end Editable

/-- The entry `e` may be put into slot `i` of `d`: what it owns (`new`) is unowned, what it replaces or adds
holds no entries. -/
structure Put (x : Image) (d i : Nat) (pre post : List Nat) (e : Entry) (new : List Nat) : Prop
    extends Editable x d i pre post where
  sound : x.Sound
  clipped : slice e 0 32 = e
  nonzero : e 0 ≠ 0
  old_leaf : ∀ f, liveOption (x.entry i) ≠ none → subdirectory (x.entry i) = some f → x.live f = []
  new_leaf : ∀ f, liveOption e ≠ none → subdirectory e = some f →
    (x.withSlot i e).live f = [] ∧ ¬x.forest.Reach f
  new_holds : liveOption e ≠ none → x.Holds e new
  new_fresh : ∀ c ∈ new, ¬x.Owned c
  new_dots : liveOption e ≠ none → entryKind e = .directory → (x.withSlot i e).Dots (entryFirst e) d

namespace Put

variable {pre post new : List Nat}

section
variable (h : Put x d i pre post e new)
include h

lemma edit : Forest.Edit x.forest (x.withSlot i e).forest d i (liveOption (x.entry i)) (liveOption e)
      (Editable.front x d pre) (Editable.back x post) :=
  h.toEditable.edit h.sound h.clipped h.nonzero h.old_leaf h.new_leaf

lemma obj : (x.withSlot i e).forest.Obj d' s f ↔
    (x.forest.Obj d' s f ∧ s ≠ i) ∨ (d' = d ∧ s = i ∧ liveOption e = some f) :=
  h.edit.obj h.sound.proper

lemma sound' : (x.withSlot i e).Sound where
  holds := by
    intro p s f ho
    rcases h.obj.mp ho with ⟨ho, -⟩ | ⟨rfl, rfl, hf⟩
    · obtain ⟨cs, hh⟩ := h.sound.holds ho
      exact ⟨cs, holds_withSlot.mpr hh⟩
    · obtain ⟨rfl, -⟩ := liveOption_some.mp hf
      exact ⟨new, holds_withSlot.mpr (h.new_holds (by simp [hf]))⟩
  dots := by
    intro p s f ho hk
    rcases h.obj.mp ho with ⟨ho, -⟩ | ⟨rfl, rfl, hf⟩
    · obtain ⟨cs, hh⟩ := h.sound.holds ho
      have hv := validCluster_range ((hh.chain hk).valid (hh.chain hk).head_mem)
      exact h.dots h.sound h.depth (.sub ho.1 ho.2 (subdirectory_eq_some.mpr ⟨hk, rfl⟩)) (by omega)
        (h.sound.dots ho hk)
    · obtain ⟨rfl, -⟩ := liveOption_some.mp hf
      exact h.new_dots (by simp [hf]) hk
  disjoint := by
    intro p p' s s' f f' cs ds ho ho' hne hh hh'
    rw [holds_withSlot] at hh hh'
    rcases h.obj.mp ho with ⟨hx, -⟩ | ⟨rfl, rfl, hf⟩ <;> rcases h.obj.mp ho' with ⟨hx', -⟩ | ⟨rfl, rfl, hf'⟩
    · exact h.sound.disjoint hx hx' hne hh hh'
    · obtain ⟨rfl, -⟩ := liveOption_some.mp hf'
      intro y hy hy'
      rw [hh'.det (h.new_holds (by simp [hf']))] at hy'
      exact h.new_fresh y hy' ⟨p, s, f, cs, hx, hh, hy⟩
    · obtain ⟨rfl, -⟩ := liveOption_some.mp hf
      intro y hy hy'
      rw [hh.det (h.new_holds (by simp [hf]))] at hy
      exact h.new_fresh y hy ⟨p', s', f', ds, hx', hh', hy'⟩
    · exact absurd rfl hne

lemma owned {old : List Nat}
    (ho : ∀ f, liveOption (x.entry i) = some f → x.Holds f old) (hn : liveOption (x.entry i) = none → old = []) :
    (x.withSlot i e).Owned c ↔ (x.Owned c ∧ c ∉ old) ∨ (liveOption e ≠ none ∧ c ∈ new) := by
  constructor
  · rintro ⟨p, s, f, cs, hobj, hh, hc⟩
    rw [holds_withSlot] at hh
    rcases h.obj.mp hobj with ⟨hobj, hne⟩ | ⟨rfl, rfl, hf⟩
    · refine .inl ⟨⟨p, s, f, cs, hobj, hh, hc⟩, fun hold => ?_⟩
      cases hl : liveOption (x.entry i) with
      | none => simp [hn hl] at hold
      | some g => exact h.sound.disjoint hobj (h.edit.old_obj hl) hne hh (ho g hl) hc hold
    · obtain ⟨rfl, -⟩ := liveOption_some.mp hf
      refine .inr ⟨by simp [hf], ?_⟩
      rwa [← hh.det (h.new_holds (by simp [hf]))]
  · rintro (⟨⟨p, s, f, cs, hobj, hh, hc⟩, hold⟩ | ⟨hl, hc⟩)
    · refine ⟨p, s, f, cs, h.obj.mpr (.inl ⟨hobj, ?_⟩), holds_withSlot.mpr hh, hc⟩
      rintro rfl
      obtain ⟨-, hf⟩ := h.edit.fresh p f hobj
      exact hold (hh.det (ho f hf) ▸ hc)
    · obtain ⟨f, hf⟩ := Option.ne_none_iff_exists'.mp hl
      obtain ⟨rfl, -⟩ := liveOption_some.mp hf
      exact ⟨d, i, e, new, h.obj.mpr (.inr ⟨rfl, rfl, hf⟩), holds_withSlot.mpr (h.new_holds hl), hc⟩

lemma node_other (ho : x.forest.Obj d' s f) : (x.withSlot i e).node f = x.node f := by
  unfold Image.node
  cases hk : entryKind f with
  | directory => rfl
  | file =>
    obtain ⟨cs, hh⟩ := h.sound.holds ho
    simp only
    rw [h.bytes h.sound hk hh fun c hc => h.file_outside h.sound ho hk hh hc]

end

end Put

end Image

end RumKernel.Fat16
