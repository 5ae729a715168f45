import RumKernel.Lib.Forest
import RumKernel.Fat16.Chains

/-!
# Volume images

An image is a medium read through one allocation table: the slots of a directory, the live entries before its end
marker, the chain each entry owns and the tree that paths lead to. `Sound` is the well-formedness of that tree: proper
chains of the right length, no cluster with two owners, dot entries first. A directory is named by its first cluster.
-/

namespace RumKernel.Fat16
open Lib Fs

/-- A medium read through the table `fat`. -/
structure Image where
  geo : Geometry
  fat : Mem
  medium : Mem

/-! ## Addresses -/

/-- The address of a cluster's first byte. -/
def clusterBase (g : Geometry) (c : Nat) : Nat := clusterSector g c * 512

/-- The slot identifiers of a cluster. -/
def clusterSlots (g : Geometry) (c : Nat) : List Nat :=
  (List.range (g.clusterBytes / 32)).map fun j => clusterSector g c * 16 + j + 2

/-- The slot identifiers of the root directory. -/
def rootSlots (g : Geometry) : List Nat := (List.range g.rootEntries).map fun j => g.rootStart * 16 + j + 2

def slotBase (i : Nat) : Nat := (i - 2) * 32

section addresses
variable {g : Geometry} {c c' i j a : Nat}

lemma Geometry.perCluster_mul (g : Geometry) : g.perCluster * 512 = g.clusterBytes := by
  have h := g.clusterBytes_mod
  unfold Geometry.perCluster
  omega

lemma Geometry.slots_mul (g : Geometry) : g.clusterBytes / 32 * 32 = g.clusterBytes := by
  have h := g.clusterBytes_mod
  omega

lemma clusterBase_eq : clusterBase g c = g.dataStart * 512 + (c - 2) * g.clusterBytes := by
  rw [← g.perCluster_mul]
  unfold clusterBase clusterSector
  ring

lemma clusterBase_mono (h : 2 ≤ c) (hlt : c < c') : clusterBase g c + g.clusterBytes ≤ clusterBase g c' := by
  rw [clusterBase_eq, clusterBase_eq]
  have : (c - 2 + 1) * g.clusterBytes ≤ (c' - 2) * g.clusterBytes := Nat.mul_le_mul_right _ (by omega)
  rw [Nat.add_mul, Nat.one_mul] at this
  omega

lemma clusterBase_bounds (h : validCluster g c = true) : g.dataStart * 512 ≤ clusterBase g c ∧
    clusterBase g c + g.clusterBytes ≤ g.dataStart * 512 + g.clusters * g.clusterBytes := by
  have hr := validCluster_range h
  rw [clusterBase_eq]
  have : (c - 2 + 1) * g.clusterBytes ≤ g.clusters * g.clusterBytes := Nat.mul_le_mul_right _ (by omega)
  rw [Nat.add_mul, Nat.one_mul] at this
  omega

lemma Geometry.data_end_bytes (g : Geometry) :
    g.dataStart * 512 + g.clusters * g.clusterBytes ≤ g.sectors * 512 := by
  have h := g.data_end
  have e : g.clusters * (g.clusterBytes / 512) * 512 = g.clusters * g.clusterBytes := by
    have hm := g.clusterBytes_mod
    rw [Nat.mul_assoc, Nat.div_mul_cancel (Nat.dvd_of_mod_eq_zero hm)]
  omega

lemma clusterSector_bounds (h : validCluster g c = true) (hi : i < g.perCluster) :
    g.dataStart ≤ clusterSector g c + i ∧ clusterSector g c + i < g.sectors := by
  have hb := clusterBase_bounds h
  have he := g.data_end_bytes
  have hp := g.perCluster_mul
  unfold clusterBase at hb
  generalize clusterSector g c = s at *
  generalize g.perCluster = p at *
  omega

lemma mem_clusterSlots : i ∈ clusterSlots g c ↔ ∃ j < g.clusterBytes / 32, i = clusterSector g c * 16 + j + 2 := by
  simp [clusterSlots, eq_comm]

lemma mem_rootSlots : i ∈ rootSlots g ↔ ∃ j < g.rootEntries, i = g.rootStart * 16 + j + 2 := by
  simp [rootSlots, eq_comm]

lemma slotBase_cluster (h : i ∈ clusterSlots g c) :
    clusterBase g c ≤ slotBase i ∧ slotBase i + 32 ≤ clusterBase g c + g.clusterBytes := by
  obtain ⟨j, hj, rfl⟩ := mem_clusterSlots.mp h
  have := g.slots_mul
  unfold slotBase clusterBase
  omega

lemma slotBase_root (h : i ∈ rootSlots g) :
    g.rootStart * 512 ≤ slotBase i ∧ slotBase i + 32 ≤ g.dataStart * 512 := by
  obtain ⟨j, hj, rfl⟩ := mem_rootSlots.mp h
  have h1 := g.dataStart_eq
  have h2 := g.rootEntries_mod
  unfold slotBase
  omega

lemma two_le_of_mem_slots (h : i ∈ clusterSlots g c ∨ i ∈ rootSlots g) : 2 ≤ i := by
  rcases h with h | h
  · obtain ⟨j, -, rfl⟩ := mem_clusterSlots.mp h
    omega
  · obtain ⟨j, -, rfl⟩ := mem_rootSlots.mp h
    omega

lemma slotOffset_cluster (hc : validCluster g c = true) (h : i ∈ clusterSlots g c) :
    slotOffset g i = some (slotBase i) := by
  have h2 := two_le_of_mem_slots (.inl h)
  have hb := clusterBase_bounds hc
  have hs := slotBase_cluster h
  have he := g.data_end_bytes
  have hl := g.sectors_lt
  unfold slotBase at hs ⊢
  unfold slotOffset
  rw [if_neg (by omega), if_pos (.inr (by omega))]

lemma slotOffset_root (h : i ∈ rootSlots g) : slotOffset g i = some (slotBase i) := by
  have h2 := two_le_of_mem_slots (c := 0) (.inr h)
  have hs := slotBase_root h
  have he := g.data_end_bytes
  have hl := g.sectors_lt
  obtain ⟨j, hj, rfl⟩ := mem_rootSlots.mp h
  unfold slotBase at hs ⊢
  unfold slotOffset
  rw [if_neg (by omega), if_pos (.inl (by omega))]

lemma slotOffset_bounds (h : slotOffset g i = some a) :
    a = slotBase i ∧ 2 ≤ i ∧ g.rootStart ≤ a / 512 ∧ a / 512 < g.sectors := by
  have he := g.data_end_bytes
  have h1 := g.dataStart_eq
  have h2 := g.rootEntries_mod
  have h3 := g.data_end
  unfold slotOffset at h
  split at h
  · cases h
  · simp only at h
    split at h
    · cases h
      unfold slotBase
      rename_i hr
      refine ⟨rfl, by omega, ?_, ?_⟩ <;> rcases hr with hr | hr <;> omega
    · cases h

section
variable (h : validCluster g c = true)
include h

lemma cluster_unique (h' : validCluster g c' = true)
    (hl : clusterBase g c ≤ a) (hu : a < clusterBase g c + g.clusterBytes)
    (hl' : clusterBase g c' ≤ a) (hu' : a < clusterBase g c' + g.clusterBytes) : c = c' := by
  rcases Nat.lt_trichotomy c c' with hlt | e | hlt
  · have := clusterBase_mono (g := g) (validCluster_range h).1 hlt
    omega
  · exact e
  · have := clusterBase_mono (g := g) (validCluster_range h').1 hlt
    omega

lemma clusterSlots_disjoint (h' : validCluster g c' = true)
    (hi : i ∈ clusterSlots g c) (hi' : i ∈ clusterSlots g c') : c = c' := by
  have h1 := slotBase_cluster hi
  have h2 := slotBase_cluster hi'
  exact cluster_unique (a := slotBase i) h h' (by omega) (by omega) (by omega) (by omega)

lemma rootSlots_disjoint (hi : i ∈ clusterSlots g c) : i ∉ rootSlots g := by
  intro hr
  have h1 := slotBase_cluster hi
  have h2 := slotBase_root hr
  have h3 := clusterBase_bounds h
  omega

end

lemma clusterSlots_nodup : (clusterSlots g c).Nodup :=
  List.nodup_range.map fun _ _ h => by simpa using h

lemma rootSlots_nodup : (rootSlots g).Nodup :=
  List.nodup_range.map fun _ _ h => by simpa using h

lemma clusterSlots_cons : ∃ rest, clusterSlots g c =
    (clusterSector g c * 16 + 2) :: (clusterSector g c * 16 + 3) :: rest := by
  have h := g.clusterBytes_ge
  obtain ⟨n, hn⟩ : ∃ n, g.clusterBytes / 32 = n + 2 := ⟨g.clusterBytes / 32 - 2, by omega⟩
  unfold clusterSlots
  rw [hn, List.range_succ_eq_map, List.range_succ_eq_map]
  exact ⟨_, rfl⟩

end addresses

/-! ## Directories -/

/-- The first `n` clusters from `c`. -/
def follow (fat : Mem) : Nat → Nat → List Nat
  | 0, _ => []
  | n + 1, c => c :: follow fat n (nextCluster fat c)

/-- A live short entry: neither deleted nor a label or part of a long name. -/
def liveEntry (e : Entry) : Bool := e 0 != 0xe5 && attr e &&& 8 == 0

/-- The directory an entry leads to. -/
def subdirectory (e : Entry) : Option Nat := if entryKind e = .directory then some (entryFirst e) else none

namespace Image

def entry (x : Image) (i : Nat) : Entry := slice x.medium (slotBase i) 32

/-- The clusters of the chain from `first`, none when there is no proper chain. -/
def clusters (x : Image) (first : Nat) : List Nat :=
  match fat16Chain x.geo x.fat first with
  | .ok n => follow x.fat n first
  | .error _ => []

/-- The slots of a directory in order. -/
def slots (x : Image) (d : Nat) : List Nat :=
  if d = 0 then rootSlots x.geo else (x.clusters d).flatMap (clusterSlots x.geo)

def listing (x : Image) (d : Nat) : List (Nat × Entry) := (x.slots d).map fun i => (i, x.entry i)

/-- The entries before the end marker. -/
def scan (x : Image) (d : Nat) : List (Nat × Entry) := (x.listing d).takeWhile fun p => p.2 0 != 0

/-- The live entries of a directory; the first two slots of a subdirectory are its dot entries. -/
def live (x : Image) (d : Nat) : List (Nat × Entry) :=
  ((x.scan d).drop (if d = 0 then 0 else 2)).filter fun p => liveEntry p.2

/-- How a directory search treats an entry. -/
def tag (x : Image) (e : Entry) : Tag Name :=
  match decode x.geo x.fat e 0 with
  | .ok (_, name) => .named name
  | .error .notFound => .skip
  | .error _ => .broken

/-- The directory tree of an image. -/
def forest (x : Image) : Forest Nat Nat Entry Name :=
  { root := 0, kids := x.live, sub := subdirectory, tag := x.tag }

/-- The clusters an entry owns: a file's chain has the length its size asks for and is missing when the
file is empty; a directory has a chain and the size 0. -/
inductive Holds (x : Image) (e : Entry) : List Nat → Prop where
  | empty : entryKind e = .file → entrySize e = 0 → entryFirst e = 0 → Holds x e []
  | file {cs} : entryKind e = .file → entrySize e ≠ 0 → IsChain x.geo x.fat (entryFirst e) cs →
    cs.length = clustersFor x.geo (entrySize e) → Holds x e cs
  | directory {cs} : entryKind e = .directory → entrySize e = 0 →
    IsChain x.geo x.fat (entryFirst e) cs → Holds x e cs

/-- The directory `d` begins with its dot entries. -/
def Dots (x : Image) (d parent : Nat) : Prop :=
  ∃ i j rest, x.slots d = i :: j :: rest ∧ dotsOk (x.entry i) false d = true ∧
    dotsOk (x.entry j) true parent = true

/-- The well-formedness of the tree of live entries. -/
structure Sound (x : Image) : Prop where
  holds : ∀ {d s e}, x.forest.Obj d s e → ∃ cs, x.Holds e cs
  dots : ∀ {d s e}, x.forest.Obj d s e → entryKind e = .directory → x.Dots (entryFirst e) d
  disjoint : ∀ {d d' s s' e e' cs ds}, x.forest.Obj d s e → x.forest.Obj d' s' e' → s ≠ s' →
    x.Holds e cs → x.Holds e' ds → cs.Disjoint ds

/-- The cluster belongs to a live entry. -/
def Owned (x : Image) (c : Nat) : Prop := ∃ d s e cs, x.forest.Obj d s e ∧ x.Holds e cs ∧ c ∈ cs

/-- The clusters marked as used that belong to no live entry. -/
def Lost (x : Image) (c : Nat) : Prop :=
  2 ≤ c ∧ c ≤ x.geo.clusters + 1 ∧ nextCluster x.fat c ≠ 0 ∧ ¬x.Owned c

def bytes (x : Image) (e : Entry) : List Byte :=
  (List.range (entrySize e)).map fun k =>
    x.medium (clusterBase x.geo ((x.clusters (entryFirst e)).getD (k / x.geo.clusterBytes) 0) +
      k % x.geo.clusterBytes)

end Image

inductive Node where
  | directory
  | file (bytes : List Byte)
  deriving DecidableEq

/-- The tree of directories and byte strings: what each path leads to. -/
abbrev Tree := List Name → Option Node

namespace Image

def node (x : Image) (e : Entry) : Node :=
  match entryKind e with
  | .directory => .directory
  | .file => .file (x.bytes e)

def tree (x : Image) : Tree := fun p =>
  match p.getLast? with
  | none => some .directory
  | some n => (x.forest.entry p.dropLast n).map fun s => x.node s.2

variable {x : Image} {c d d' i s s' : Nat} {e e' : Entry} {cs ds : List Nat}

@[simp] lemma tree_snoc {p : List Name} {n : Name} :
    x.tree (p ++ [n]) = (x.forest.entry p n).map fun s => x.node s.2 := by
  simp [tree]

@[simp] lemma forest_kids : x.forest.kids d = x.live d := rfl

@[simp] lemma forest_root : x.forest.root = 0 := rfl

@[simp] lemma forest_sub : x.forest.sub = subdirectory := rfl

lemma subdirectory_eq_some : subdirectory e = some d ↔ entryKind e = .directory ∧ entryFirst e = d := by
  simp [subdirectory]

lemma follow_eq {fat : Mem} {g : Geometry} (h : IsChain g fat c cs) : follow fat cs.length c = cs := by
  unfold IsChain at h
  induction h with
  | last => rfl
  | link _ _ _ ih => simp only [List.length_cons, follow, ih]

lemma clusters_eq (h : IsChain x.geo x.fat c cs) : x.clusters c = cs := by
  unfold clusters
  rw [h.fat16Chain]
  exact follow_eq h

lemma slots_root : x.slots 0 = rootSlots x.geo := rfl

lemma slots_chain (h : IsChain x.geo x.fat d cs) : x.slots d = cs.flatMap (clusterSlots x.geo) := by
  have := validCluster_range (h.valid h.head_mem)
  unfold slots
  rw [if_neg (by omega), clusters_eq h]

section
variable (h : x.Holds e cs)
include h

lemma Holds.det (h' : x.Holds e ds) : cs = ds := by
  cases h with
  | empty h1 h2 _ =>
    cases h' with
    | empty => rfl
    | file _ h4 => exact absurd h2 h4
    | directory h4 => rw [h1] at h4; cases h4
  | file h1 h2 h3 =>
    cases h' with
    | empty _ h4 => exact absurd h4 h2
    | file _ _ h4 => exact h3.det h4
    | directory h4 => rw [h1] at h4; cases h4
  | directory h1 _ h3 =>
    cases h' with
    | empty h4 => rw [h1] at h4; cases h4
    | file h4 => rw [h1] at h4; cases h4
    | directory _ _ h4 => exact h3.det h4

lemma Holds.valid (hc : c ∈ cs) : validCluster x.geo c = true := by
  cases h with
  | empty => cases hc
  | file _ _ h => exact h.valid hc
  | directory _ _ h => exact h.valid hc

lemma Holds.next_ne_zero (hc : c ∈ cs) : nextCluster x.fat c ≠ 0 := by
  cases h with
  | empty => cases hc
  | file _ _ h => exact h.next_ne_zero hc
  | directory _ _ h => exact h.next_ne_zero hc

lemma Holds.chain (hk : entryKind e = .directory) : IsChain x.geo x.fat (entryFirst e) cs := by
  cases h with
  | empty h1 => rw [hk] at h1; cases h1
  | file h1 => rw [hk] at h1; cases h1
  | directory _ _ h => exact h

end

lemma Owned.valid (h : x.Owned c) : validCluster x.geo c = true := by
  obtain ⟨d, s, e, cs, -, hh, hc⟩ := h
  exact hh.valid hc

lemma Owned.next_ne_zero (h : x.Owned c) : nextCluster x.fat c ≠ 0 := by
  obtain ⟨d, s, e, cs, -, hh, hc⟩ := h
  exact hh.next_ne_zero hc

lemma mem_live (h : (i, e) ∈ x.live d) : i ∈ x.slots d ∧ e = x.entry i ∧ e 0 ≠ 0 ∧ liveEntry e = true := by
  unfold live at h
  obtain ⟨hm, hl⟩ := List.mem_filter.mp h
  have hs := List.mem_of_mem_drop hm
  have hne := List.mem_takeWhile_imp hs
  obtain ⟨k, hk, e'⟩ := List.mem_map.mp ((List.takeWhile_sublist _).subset hs)
  cases e'
  exact ⟨hk, rfl, by simpa using hne, hl⟩

section
variable (h : x.Sound) (hr : x.forest.Reach d)
include h hr

lemma Sound.dir_cases : d = 0 ∨ ∃ p s e cs, x.forest.Obj p s e ∧ entryKind e = .directory ∧ entryFirst e = d ∧
      x.Holds e cs ∧ IsChain x.geo x.fat d cs := by
  cases hr with
  | root => exact .inl rfl
  | @sub p s e _ hr hm hs =>
    obtain ⟨hk, rfl⟩ := subdirectory_eq_some.mp hs
    obtain ⟨cs, hh⟩ := h.holds (d := p) (s := s) ⟨hr, hm⟩
    exact .inr ⟨p, s, e, cs, ⟨hr, hm⟩, hk, rfl, hh, hh.chain hk⟩

lemma Sound.reach_owned : d = 0 ∨ x.Owned d := by
  rcases h.dir_cases hr with h0 | ⟨p, s, e, cs, ho, -, -, hh, hc⟩
  · exact .inl h0
  · exact .inr ⟨p, s, e, cs, ho, hh, hc.head_mem⟩

lemma Sound.slot_cases (hi : i ∈ x.slots d) :
    (d = 0 ∧ i ∈ rootSlots x.geo) ∨ ∃ p s e cs c, x.forest.Obj p s e ∧ entryKind e = .directory ∧
      entryFirst e = d ∧ x.Holds e cs ∧ c ∈ cs ∧ i ∈ clusterSlots x.geo c := by
  rcases h.dir_cases hr with rfl | ⟨p, s, e, cs, ho, hk, he, hh, hc⟩
  · exact .inl ⟨rfl, hi⟩
  · rw [slots_chain hc] at hi
    obtain ⟨c, hcm, hic⟩ := List.mem_flatMap.mp hi
    exact .inr ⟨p, s, e, cs, c, ho, hk, he, hh, hcm, hic⟩

end

lemma obj_entry (h : x.forest.Obj d s e) : e = x.entry s := (mem_live h.2).2.1

lemma Sound.slot_unique (h : x.Sound) (hr : x.forest.Reach d) (hr' : x.forest.Reach d')
    (hi : i ∈ x.slots d) (hi' : i ∈ x.slots d') : d = d' := by
  rcases h.slot_cases hr hi with ⟨rfl, h0⟩ | ⟨p, s, e, cs, c, ho, -, he, hh, hc, hic⟩ <;>
    rcases h.slot_cases hr' hi' with ⟨rfl, h0'⟩ | ⟨p', s', e', cs', c', ho', -, he', hh', hc', hic'⟩
  · rfl
  · exact absurd h0 (rootSlots_disjoint (hh'.valid hc') hic')
  · exact absurd h0' (rootSlots_disjoint (hh.valid hc) hic)
  · have hcc := clusterSlots_disjoint (hh.valid hc) (hh'.valid hc') hic hic'
    subst hcc
    have hs : s = s' := by
      by_contra hne
      exact h.disjoint ho ho' hne hh hh' hc hc'
    subst hs
    rw [← he, ← he', obj_entry ho, obj_entry ho']

lemma slots_nodup_chain (hc : IsChain x.geo x.fat d cs) : (x.slots d).Nodup := by
  rw [slots_chain hc, List.nodup_flatMap]
  refine ⟨fun c _ => clusterSlots_nodup, ?_⟩
  refine hc.nodup.imp_of_mem fun ha hb hne => ?_
  intro i hi hi'
  exact hne (clusterSlots_disjoint (hc.valid ha) (hc.valid hb) hi hi')

lemma Sound.slots_nodup (h : x.Sound) (hr : x.forest.Reach d) : (x.slots d).Nodup := by
  rcases h.dir_cases hr with rfl | ⟨p, s, e, cs, -, -, -, -, hc⟩
  · exact rootSlots_nodup
  · exact slots_nodup_chain hc

lemma listing_fst : (x.listing d).map Prod.fst = x.slots d := by
  simp [listing, Function.comp_def]

lemma live_sublist : ((x.live d).map Prod.fst).Sublist (x.slots d) := by
  rw [← listing_fst]
  refine List.Sublist.map _ ?_
  exact List.filter_sublist.trans ((List.drop_sublist _ _).trans (List.takeWhile_sublist _))

lemma Sound.proper (h : x.Sound) : x.forest.Proper where
  nodup hr := live_sublist.nodup (h.slots_nodup hr)
  slot ho ho' := by
    refine ⟨h.slot_unique ho.1 ho'.1 (mem_live ho.2).1 (mem_live ho'.2).1, ?_⟩
    rw [obj_entry ho, obj_entry ho']
  entered := by
    intro d d' s s' e e' y ho ho' hs hs'
    obtain ⟨hk, e1⟩ := subdirectory_eq_some.mp hs
    obtain ⟨hk', e2⟩ := subdirectory_eq_some.mp hs'
    obtain ⟨cs, hh⟩ := h.holds ho
    obtain ⟨ds, hh'⟩ := h.holds ho'
    by_contra hne
    exact h.disjoint ho ho' hne hh hh' (e1 ▸ (hh.chain hk).head_mem) (e2 ▸ (hh'.chain hk').head_mem)
  not_root := by
    intro d s e ho hs
    obtain ⟨hk, e1⟩ := subdirectory_eq_some.mp hs
    obtain ⟨cs, hh⟩ := h.holds ho
    have hv := validCluster_range ((hh.chain hk).valid (hh.chain hk).head_mem)
    simp only [forest_root] at e1
    omega

end Image

end RumKernel.Fat16
