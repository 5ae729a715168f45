import RumKernel.Fat16.Replay

/-!
# The write audit

`writable` walks the whole tree once before the first mutation. A walk that ends with `FS_OK` has seen every live
entry exactly once, with a proper chain of its own, and every directory begins with its dot entries within the depth
limit.
-/

namespace RumKernel.Fat16
open Lib Fs Prog

variable {c : Nat} {B : List (Nat × Entry)} {recurse : Description → Nat → Nat → FatM Nat} {w w' : World}

section mark
variable {cs : List Nat} {o : Nat → Bool}

/-- The ownership bitmap with the clusters `cs` marked. -/
def mark (cs : List Nat) (o : Nat → Bool) : Nat → Bool := fun c => cs.contains c || o c

lemma mark_eq_true : mark cs o c = true ↔ c ∈ cs ∨ o c = true := by simp [mark]

lemma mark_eq_false : mark cs o c = false ↔ c ∉ cs ∧ o c = false := by simp [mark]

@[simp] lemma mark_nil : mark [] o = o := by
  funext c
  simp [mark]

lemma mark_cons : mark (c :: cs) o = mark cs fun y => y == c || o y := by
  funext y
  simp only [mark, List.contains_cons]
  cases y == c <;> simp

end mark

namespace Image

/-- What a completed walk over the entries `l` of the directory `d` has found, when `n` more levels were allowed:
the bitmap `o` has become `o'`. -/
inductive Swept (x : Image) : Nat → Nat → List (Nat × Entry) → (Nat → Bool) → (Nat → Bool) → Prop where
  | nil {n d o} : Swept x n d [] o o
  | file {n d i e cs l o o'} : entryKind e = .file → x.Holds e cs → (∀ c ∈ cs, o c = false) →
    Swept x n d l (mark cs o) o' → Swept x n d ((i, e) :: l) o o'
  | directory {n d i e cs l o o1 o'} : entryKind e = .directory → x.Holds e cs → (∀ c ∈ cs, o c = false) →
    x.Dots (entryFirst e) d → (x.slots (entryFirst e)).length ≤ directoryEntryLimit →
    Swept x n (entryFirst e) (x.live (entryFirst e)) (mark cs o) o1 → Swept x (n + 1) d l o1 o' →
    Swept x (n + 1) d ((i, e) :: l) o o'

/-- The entry `e` stands in slot `i` of the directory `d'`, `k` levels below the entries `l` of `d`. -/
inductive Below (x : Image) : Nat → List (Nat × Entry) → Nat → Nat → Nat → Entry → Prop where
  | here {d l i e} : (i, e) ∈ l → Below x d l 0 d i e
  | sub {d l j f k d' i e} : (j, f) ∈ l → entryKind f = .directory →
    Below x (entryFirst f) (x.live (entryFirst f)) k d' i e → Below x d l (k + 1) d' i e

/-- The directory `d` lies `k` levels below the root. -/
inductive Level (x : Image) : Nat → Nat → Prop where
  | root : Level x 0 0
  | sub {d k i e} : Level x d k → (i, e) ∈ x.live d → entryKind e = .directory → Level x (entryFirst e) (k + 1)

variable {x : Image} {v : Vol} {d d' i j k n : Nat} {e f : Entry} {cs ds : List Nat} {l : List (Nat × Entry)}
  {o o' : Nat → Bool}

namespace Below

lemma cons (h : x.Below d ((j, f) :: l) k d' i e) : (k = 0 ∧ d' = d ∧ i = j ∧ e = f) ∨
      (∃ m, k = m + 1 ∧ entryKind f = .directory ∧
        x.Below (entryFirst f) (x.live (entryFirst f)) m d' i e) ∨ x.Below d l k d' i e := by
  cases h with
  | here hm =>
    rcases List.mem_cons.mp hm with he | hm
    · cases he
      exact .inl ⟨rfl, rfl, rfl, rfl⟩
    · exact .inr (.inr (.here hm))
  | sub hm hk hb =>
    rcases List.mem_cons.mp hm with he | hm
    · cases he
      exact .inr (.inl ⟨_, rfl, hk, hb⟩)
    · exact .inr (.inr (.sub hm hk hb))

lemma step (h : x.Below d l k d' j f) (hk : entryKind f = .directory) (hm : (i, e) ∈ x.live (entryFirst f)) :
    x.Below d l (k + 1) (entryFirst f) i e := by
  induction h with
  | here hl => exact .sub hl hk (.here hm)
  | sub hl hf _ ih => exact .sub hl hf (ih hk hm)

lemma of_level (h : x.Level d k) (hm : (i, e) ∈ x.live d) : x.Below 0 (x.live 0) k d i e := by
  induction h generalizing i e with
  | root => exact .here hm
  | sub _ hf hk ih => exact (ih hf).step hk hm

end Below

lemma exists_level (h : x.forest.Reach d) : ∃ k, x.Level d k := by
  induction h with
  | root => exact ⟨0, .root⟩
  | sub _ hm hsub ih =>
    obtain ⟨k, hk⟩ := ih
    obtain ⟨h1, rfl⟩ := subdirectory_eq_some.mp hsub
    exact ⟨k + 1, .sub hk hm h1⟩

namespace Swept

section
variable (h : x.Swept n d l o o')
include h

lemma mono (hc : o c = true) : o' c = true := by
  induction h with
  | nil => exact hc
  | file _ _ _ _ ih => exact ih (mark_eq_true.mpr (.inr hc))
  | directory _ _ _ _ _ _ _ ih1 ih2 => exact ih2 (ih1 (mark_eq_true.mpr (.inr hc)))

lemma holds (hb : x.Below d l k d' i e) : ∃ cs, x.Holds e cs ∧ ∀ c ∈ cs, o c = false ∧ o' c = true := by
  induction h generalizing k d' i e with
  | nil =>
    cases hb with
    | here hm => cases hm
    | sub hm => cases hm
  | file hk hh hfree hl ih =>
    rcases hb.cons with ⟨-, -, -, rfl⟩ | ⟨m, -, hf, -⟩ | hb
    · exact ⟨_, hh, fun c hc => ⟨hfree c hc, hl.mono (mark_eq_true.mpr (.inl hc))⟩⟩
    · exact absurd (hk.symm.trans hf) (by decide)
    · obtain ⟨cs, hc, hown⟩ := ih hb
      exact ⟨cs, hc, fun c hm => ⟨(mark_eq_false.mp (hown c hm).1).2, (hown c hm).2⟩⟩
  | directory hk hh hfree _ _ hs hl ih1 ih2 =>
    rcases hb.cons with ⟨-, -, -, rfl⟩ | ⟨m, -, -, hb⟩ | hb
    · exact ⟨_, hh, fun c hc => ⟨hfree c hc, hl.mono (hs.mono (mark_eq_true.mpr (.inl hc)))⟩⟩
    · obtain ⟨cs, hc, hown⟩ := ih1 hb
      exact ⟨cs, hc, fun c hm => ⟨(mark_eq_false.mp (hown c hm).1).2, hl.mono (hown c hm).2⟩⟩
    · obtain ⟨cs, hc, hown⟩ := ih2 hb
      refine ⟨cs, hc, fun c hm => ⟨?_, (hown c hm).2⟩⟩
      -- a cluster owned before would still be owned when the rest of the entries is met
      by_contra hne
      have := hs.mono (mark_eq_true.mpr (.inr (by simpa using hne)) : mark _ _ c = true)
      rw [(hown c hm).1] at this
      cases this

lemma subdirectory (hb : x.Below d l k d' i e) (hk : entryKind e = .directory) :
    x.Dots (entryFirst e) d' ∧ (x.slots (entryFirst e)).length ≤ directoryEntryLimit ∧ k + 1 ≤ n := by
  induction h generalizing k d' i e with
  | nil =>
    cases hb with
    | here hm => cases hm
    | sub hm => cases hm
  | file hf _ _ _ ih =>
    rcases hb.cons with ⟨-, -, -, rfl⟩ | ⟨m, -, hf', -⟩ | hb
    · exact absurd (hk.symm.trans hf) (by decide)
    · exact absurd (hf.symm.trans hf') (by decide)
    · exact ih hb hk
  | directory _ _ _ hd hlim _ _ ih1 ih2 =>
    rcases hb.cons with ⟨rfl, rfl, -, rfl⟩ | ⟨m, rfl, -, hb⟩ | hb
    · exact ⟨hd, hlim, by omega⟩
    · obtain ⟨h1, h2, h3⟩ := ih1 hb hk
      exact ⟨h1, h2, by omega⟩
    · exact ih2 hb hk

lemma disjoint {d1 d2 i1 i2 k1 k2 : Nat} {e1 e2 : Entry} (hb1 : x.Below d l k1 d1 i1 e1)
    (hb2 : x.Below d l k2 d2 i2 e2) (hne : i1 ≠ i2) (hh1 : x.Holds e1 cs) (hh2 : x.Holds e2 ds) :
    cs.Disjoint ds := by
  induction h generalizing k1 k2 d1 d2 i1 i2 e1 e2 cs ds with
  | nil =>
    cases hb1 with
    | here hm => cases hm
    | sub hm => cases hm
  | @file n d i e es l o o' hk hh hfree hl ih =>
    -- the rest of the entries own what was free once `e` had its chain
    have hrest : ∀ {k d' i f fs}, x.Below d l k d' i f → x.Holds f fs → ∀ c ∈ fs, c ∉ es := by
      intro k d' i f fs hb hf c hc
      obtain ⟨gs, hg, hown⟩ := hl.holds hb
      exact (mark_eq_false.mp (hown c (hf.det hg ▸ hc)).1).1
    rcases hb1.cons with ⟨-, -, rfl, rfl⟩ | ⟨m, -, hf, -⟩ | hr1
    · obtain rfl := hh1.det hh
      rcases hb2.cons with ⟨-, -, rfl, rfl⟩ | ⟨m, -, hf, -⟩ | hr2
      · exact absurd rfl hne
      · exact absurd (hk.symm.trans hf) (by decide)
      · exact fun c hc hc' => hrest hr2 hh2 c hc' hc
    · exact absurd (hk.symm.trans hf) (by decide)
    · rcases hb2.cons with ⟨-, -, rfl, rfl⟩ | ⟨m, -, hf, -⟩ | hr2
      · obtain rfl := hh2.det hh
        exact fun c hc hc' => hrest hr1 hh1 c hc hc'
      · exact absurd (hk.symm.trans hf) (by decide)
      · exact ih hr1 hr2 hne hh1 hh2
  | @directory n d i e es l o o1 o' hk hh hfree _ _ hs hl ih1 ih2 =>
    have hinner : ∀ {k d' i f fs}, x.Below (entryFirst e) (x.live (entryFirst e)) k d' i f → x.Holds f fs →
        ∀ c ∈ fs, c ∉ es ∧ o1 c = true := by
      intro k d' i f fs hb hf c hc
      obtain ⟨gs, hg, hown⟩ := hs.holds hb
      have := hown c (hf.det hg ▸ hc)
      exact ⟨(mark_eq_false.mp this.1).1, this.2⟩
    have hrest : ∀ {k d' i f fs}, x.Below d l k d' i f → x.Holds f fs → ∀ c ∈ fs, o1 c = false := by
      intro k d' i f fs hb hf c hc
      obtain ⟨gs, hg, hown⟩ := hl.holds hb
      exact (hown c (hf.det hg ▸ hc)).1
    have hself : ∀ c ∈ es, o1 c = true := fun c hc => hs.mono (mark_eq_true.mpr (.inl hc))
    have hclash : ∀ {fs gs : List Nat}, (∀ c ∈ fs, o1 c = true) → (∀ c ∈ gs, o1 c = false) → fs.Disjoint gs := by
      intro fs gs h1 h2 c hc hc'
      have := h1 c hc
      rw [h2 c hc'] at this
      cases this
    rcases hb1.cons with ⟨-, -, rfl, rfl⟩ | ⟨m, -, -, hi1⟩ | hr1 <;>
      rcases hb2.cons with ⟨-, -, rfl, rfl⟩ | ⟨m', -, -, hi2⟩ | hr2
    · exact absurd rfl hne
    · obtain rfl := hh1.det hh
      exact fun c hc hc' => (hinner hi2 hh2 c hc').1 hc
    · obtain rfl := hh1.det hh
      exact hclash hself (hrest hr2 hh2)
    · obtain rfl := hh2.det hh
      exact fun c hc hc' => (hinner hi1 hh1 c hc).1 hc'
    · exact ih1 hi1 hi2 hne hh1 hh2
    · exact hclash (fun c hc => (hinner hi1 hh1 c hc).2) (hrest hr2 hh2)
    · obtain rfl := hh2.det hh
      exact (hclash hself (hrest hr1 hh1)).symm
    · exact (hclash (fun c hc => (hinner hi2 hh2 c hc).2) (hrest hr1 hh1)).symm
    · exact ih2 hr1 hr2 hne hh1 hh2

end

section
variable (h : x.Swept n 0 (x.live 0) o o')
include h

/-- **A walk from the root** that ends well leaves a sound image. -/
lemma sound : x.Sound where
  holds ho := by
    obtain ⟨k, hk⟩ := exists_level ho.1
    obtain ⟨cs, hc, -⟩ := h.holds (.of_level hk ho.2)
    exact ⟨cs, hc⟩
  dots ho hd := by
    obtain ⟨k, hk⟩ := exists_level ho.1
    exact (h.subdirectory (.of_level hk ho.2) hd).1
  disjoint ho ho' hne hh hh' := by
    obtain ⟨k, hk⟩ := exists_level ho.1
    obtain ⟨k', hk'⟩ := exists_level ho'.1
    exact h.disjoint (.of_level hk ho.2) (.of_level hk' ho'.2) hne hh hh'

lemma depth (hl : x.Level d k) : k ≤ n := by
  cases hl with
  | root => omega
  | sub hd hm hk => exact (h.subdirectory (.of_level hd hm) hk).2.2

lemma slots_le (hl : x.Level d k) : (x.slots d).length ≤ directoryEntryLimit := by
  cases hl with
  | root =>
    have := x.geo.rootEntries_lt
    simp only [slots_root, rootSlots, List.length_map, List.length_range, directoryEntryLimit]
    omega
  | sub hd hm hk => exact (h.subdirectory (.of_level hd hm) hk).2.1

end

end Swept

end Image

/-! ## The walk of the code -/

variable {x : Image} {v : Vol} {d i k n : Nat} {e : Entry} {cs : List Nat} {l : List (Nat × Entry)}
  {desc : Description}

/-- The volume with another ownership bitmap. -/
def Vol.own (v : Vol) (o : Nat → Bool) : Vol := { v with owners := o }

lemma ownChain_runs {Q : Except FsError Unit → Vol → Prop} {length : Nat} (herr : ∀ r v', Q (.error r) v')
    (hok : (∀ y ∈ follow v.fat length c, v.owners y = false) →
      Q (.ok ()) (v.own (mark (follow v.fat length c) v.owners))) : Runs v (ownChain length c) Q := by
  induction length generalizing v c with
  | zero => exact Runs.pure (hok fun y hy => by cases hy)
  | succ length ih =>
    refine Runs.get_bind fun h => Runs.ite (fun _ => Runs.fail_bind (herr _ _)) fun hfree => ?_
    have hfree : v.owners c = false := by simpa using hfree
    refine Runs.bind (Runs.modify (v.own fun y => y == c || v.owners y)
      (fun h => ⟨h, rfl, rfl, rfl, rfl, rfl⟩) rfl (ih fun hrest => ?_))
    simp only [follow, mark_cons, List.mem_cons, forall_eq_or_imp] at hok
    refine hok ⟨hfree, fun y hy => ?_⟩
    have hy' : (y == c || v.owners y) = false := hrest y hy
    rw [Bool.or_eq_false_iff] at hy'
    exact hy'.2

/-- The audit of the entries `l` of `d` left the volume as it was but for the owners. -/
def Sweeps (v : Vol) (n d : Nat) (l : List (Nat × Entry)) (r : Except FsError Nat) (v' : Vol) : Prop :=
  ∀ b, r = .ok b → ∃ o, v' = v.own o ∧ v.image.Swept n d l v.owners o

/-- The entries of a directory that the walk looks into, from the slots that are left. -/
def rest (B : List (Nat × Entry)) : List (Nat × Entry) :=
  (B.takeWhile fun p => p.2 0 != 0).filter fun p => liveEntry p.2

lemma rest_skip (h0 : e 0 ≠ 0) (hl : liveEntry e = false) : rest ((i, e) :: B) = rest B := by
  unfold rest
  rw [List.takeWhile_cons_of_pos (by simpa using h0), List.filter_cons_of_neg (by simp [hl])]

lemma rest_live (h0 : e 0 ≠ 0) (hl : liveEntry e = true) : rest ((i, e) :: B) = (i, e) :: rest B := by
  unfold rest
  rw [List.takeWhile_cons_of_pos (by simpa using h0), List.filter_cons_of_pos (by simp [hl])]

/-- What the audit of the directory `d'` below `d` establishes. -/
def SweepsDir (v : Vol) (n d d' : Nat) (r : Except FsError Nat) (v' : Vol) : Prop :=
  ∀ b, r = .ok b → ∃ m o, n = m + 1 ∧ v' = v.own o ∧ v.image.Dots d' d ∧
    v.image.Swept m d' (v.image.live d') v.owners o

/-- The slots the walk passes over are not live. -/
lemma skipped_dead (h : e 0 = 0xe5 ∨ attr e = 0x0f) : liveEntry e = false := by
  rcases h with h5 | hlfn
  · simp [liveEntry, h5]
  · have h8 : attr e &&& 8 ≠ 0 := by
      rw [hlfn]
      decide
    simp [liveEntry, h8]

lemma DirDesc.parent_cluster (hd : DirDesc x d desc) : (if desc.node.id ≠ rootId then desc.first else 0) = d := by
  rcases hd with ⟨rfl, rfl⟩ | ⟨hid, -, hf, -⟩
  · rfl
  · rw [if_pos hid, hf]

/-- A directory entry with a chain describes a directory. -/
lemma DirDesc.child {cs : List Nat} (h2 : 2 ≤ i) (hk : entryKind e = .directory)
    (hc : IsChain x.geo x.fat (entryFirst e) cs) : DirDesc x (entryFirst e)
      { node := { id := i, size := entrySize e, kind := entryKind e }, first := entryFirst e, length := cs.length } :=
  .inr ⟨by simp only [rootId]; omega, hk, rfl, cs, hc, rfl⟩

lemma auditLoop_runs (hd : DirDesc v.image d desc) (parent : Nat)
    (hrec : ∀ child d' o b, child.node.id ≠ rootId → DirDesc v.image d' child →
      Runs (v.own o) (recurse child d b) (SweepsDir (v.own o) n d d'))
    {A : List (Nat × Entry)} (hAB : v.image.listing d = A ++ B) (hA : desc.node.id ≠ rootId → 2 ≤ A.length)
    (o : Nat → Bool) (budget : Nat) : Runs (v.own o) (auditLoop recurse desc parent B.length A.length budget)
      (Sweeps (v.own o) n d (rest B)) := by
  induction B generalizing A o budget with
  | nil => exact Runs.pure fun b _ => ⟨o, rfl, .nil⟩
  | cons p B ih =>
    obtain ⟨i, e⟩ := p
    have next : ∀ o' b, Runs (v.own o') (auditLoop recurse desc parent B.length (A.length + 1) b)
        (Sweeps (v.own o') n d (rest B)) := by
      intro o' b
      have := ih (A := A ++ [(i, e)]) (by simpa using hAB) (fun h => by have := hA h; simp; omega) o' b
      simpa using this
    have herr : ∀ r v', Sweeps (v.own o) n d (rest ((i, e) :: B)) (.error r) v' :=
      fun r v' b hb => by cases hb
    have skip : e 0 ≠ 0 → liveEntry e = false → ∀ b,
        Runs (v.own o) (auditLoop recurse desc parent B.length (A.length + 1) b)
          (Sweeps (v.own o) n d (rest ((i, e) :: B))) := by
      intro h0 hl b
      rw [rest_skip h0 hl]
      exact next o b
    simp only [List.length_cons, auditLoop]
    refine Runs.ite (fun _ => Runs.fail_bind (herr _ _)) fun _ => ?_
    refine slot_runs (v := v.own o) hd hAB ?_
    refine Runs.ite (fun h => absurd (hA h.1) (by have := h.2; omega)) fun _ => ?_
    refine Runs.ite (fun h0 => Runs.pure fun b _ => ⟨o, rfl, ?_⟩) fun h0 => ?_
    · rw [show rest ((i, e) :: B) = [] by simp [rest, h0]]
      exact .nil
    refine Runs.ite (fun hdel => skip h0 ?_ _) fun hdel => ?_
    · exact skipped_dead hdel
    refine Runs.ite (fun hlab => Runs.ite (fun _ => Runs.fail_bind (herr _ _)) fun _ => skip h0 ?_ _) fun hlab => ?_
    · simp [liveEntry, hlab]
    have hlive : liveEntry e = true := by
      simp only [not_or, ne_eq, not_not] at hdel hlab
      simp [liveEntry, hdel, hlab]
    refine Runs.ite (fun _ => Runs.fail (herr _ _)) fun _ => ?_
    rw [rest_live h0 hlive] at herr ⊢
    refine Runs.ite (fun hempty => Runs.ite (fun _ => Runs.fail_bind (herr _ _)) fun hfirst => ?_) fun hempty => ?_
    · refine (next o _).conseq fun r v' hr b hb => ?_
      obtain ⟨o', rfl, hs⟩ := hr b hb
      have hfirst : entryFirst e = 0 := by simpa using hfirst
      exact ⟨o', rfl, .file hempty.1 (.empty hempty.1 hempty.2 hfirst) (by simp) (by simpa using hs)⟩
    have hi : i ∈ v.image.slots d := by
      obtain ⟨pre, post, hsl, -⟩ := Image.listing_split hAB
      simp [hsl]
    obtain ⟨-, h2, -⟩ := slotOffset_bounds (slotOffset_of_mem hd hi)
    refine Runs.get_bind fun h => Runs.bind (Runs.lift ?_)
    cases hch : fat16Chain (mkWorld (v.own o) h).geo (mkWorld (v.own o) h).fat (entryFirst e) with
    | error r => exact herr r _
    | ok length =>
      obtain ⟨cs, hc, rfl⟩ := fat16Chain_ok_iff.mp hch
      have hfollow : follow (v.own o).fat cs.length (entryFirst e) = cs := Image.follow_eq hc
      simp only
      refine Runs.ite (fun hk => Runs.ite (fun _ => Runs.fail_bind (herr _ _)) fun hsize =>
        Runs.ite (fun _ => Runs.fail_bind (herr _ _)) fun hlim => ?_) fun hk =>
          Runs.ite (fun _ => Runs.fail_bind (herr _ _)) fun hlen => ?_
      · have hsize : entrySize e = 0 := by simpa using hsize
        refine Runs.bind (ownChain_runs (fun r v' => herr r v') fun hfree => Runs.ite (fun _ => ?_) fun h =>
          absurd hk h)
        rw [hfollow] at hfree ⊢
        have hchild := DirDesc.child (x := v.image) h2 hk hc
        have hslots : (v.image.slots (entryFirst e)).length ≤ directoryEntryLimit := by
          rw [← hchild.slot_count]
          unfold directorySlots
          rw [if_neg (by simp only [rootId]; omega)]
          exact Nat.le_of_not_gt hlim
        refine Runs.bind ?_
        simp only [hd.parent_cluster]
        refine (hrec _ _ (mark cs o) _ (by simp only [rootId]; omega) hchild).conseq fun r v' hr => ?_
        cases r with
        | error r => exact herr r v'
        | ok b =>
          obtain ⟨m, o1, rfl, rfl, hdots, hsub⟩ := hr b rfl
          refine (next o1 b).conseq fun r v' hr b hb => ?_
          obtain ⟨o', rfl, hs⟩ := hr b hb
          exact ⟨o', rfl, .directory hk (.directory hk hsize hc) hfree hdots hslots hsub hs⟩
      · have hk' : entryKind e = .file := by
          cases hk' : entryKind e with
          | file => rfl
          | directory => exact absurd hk' hk
        have hlen : cs.length = clustersFor v.geo (entrySize e) := (not_not.mp hlen).symm
        refine Runs.bind (ownChain_runs (fun r v' => herr r v') fun hfree =>
          Runs.ite (fun h => absurd h hk) fun _ => ?_)
        rw [hfollow] at hfree ⊢
        refine (next (mark cs o) _).conseq fun r v' hr b hb => ?_
        obtain ⟨o', rfl, hs⟩ := hr b hb
        exact ⟨o', rfl, .file hk' (.file hk' (fun h0 => hempty ⟨hk', h0⟩) hc hlen) hfree hs⟩

lemma DirDesc.slots_cons (hd : DirDesc x d desc) (hid : desc.node.id ≠ rootId) :
    desc.first = d ∧ d ≠ 0 ∧ ∃ i j l, x.slots d = i :: j :: l := by
  rcases hd with ⟨-, rfl⟩ | ⟨-, -, hf, cs, hc, -⟩
  · exact absurd rfl hid
  · have hv := validCluster_range (hc.valid hc.head_mem)
    have hlen : 2 ≤ (x.slots d).length := by
      rw [Image.slots_chain hc, length_flatMap_const (n := x.geo.clusterBytes / 32) (by simp [clusterSlots])]
      have h1 : 0 < cs.length := List.length_pos_of_mem hc.head_mem
      have h2 : 16 ≤ x.geo.clusterBytes / 32 := by
        have := x.geo.clusterBytes_ge
        omega
      exact le_trans (by omega) (Nat.le_mul_of_pos_left _ h1)
    refine ⟨hf, by omega, ?_⟩
    rcases hs : x.slots d with - | ⟨i, - | ⟨j, l⟩⟩
    · simp [hs] at hlen
    · simp [hs] at hlen
    · exact ⟨i, j, l, rfl⟩

lemma dotsOk_nonzero {b : Bool} (h : dotsOk e b c = true) : e 0 ≠ 0 := by
  simp only [dotsOk, dotEntry, Bool.and_eq_true, beq_iff_eq] at h
  rw [h.1.1.1.1.1.1]
  decide

lemma live_behind_dots {e f : Entry} (hd : d ≠ 0) (he : e 0 ≠ 0) (hf : f 0 ≠ 0)
    (hl : x.listing d = (i, e) :: (k, f) :: B) : x.live d = rest B := by
  unfold Image.live Image.scan rest
  rw [hl, if_neg hd, List.takeWhile_cons_of_pos (by simpa using he), List.takeWhile_cons_of_pos (by simpa using hf)]
  rfl

lemma auditLoop_dots (hd : DirDesc v.image d desc) (hid : desc.node.id ≠ rootId) (parent : Nat)
    (hrec : ∀ child d' o b, child.node.id ≠ rootId → DirDesc v.image d' child →
      Runs (v.own o) (recurse child d b) (SweepsDir (v.own o) n d d')) (o : Nat → Bool) (budget : Nat) :
    Runs (v.own o) (auditLoop recurse desc parent (v.image.listing d).length 0 budget) fun r v' => ∀ b, r = .ok b →
      v.image.Dots d parent ∧ ∃ o', v' = v.own o' ∧ v.image.Swept n d (v.image.live d) o o' := by
  obtain ⟨hfirst, hd0, i, j, l, hsl⟩ := hd.slots_cons hid
  have hlist : v.image.listing d = (i, v.image.entry i) :: (j, v.image.entry j) :: v.image.read l := by
    rw [Image.listing_eq, hsl]
    rfl
  have herr : ∀ r (v' : Vol) b, (.error r : Except FsError Nat) = .ok b →
      v.image.Dots d parent ∧ ∃ o', v' = v.own o' ∧ v.image.Swept n d (v.image.live d) o o' :=
    fun r v' b hb => by cases hb
  rw [hlist]
  simp only [List.length_cons, auditLoop]
  refine Runs.ite (fun _ => Runs.fail_bind (herr _ _)) fun _ => ?_
  refine slot_runs (v := v.own o) (A := []) hd hlist ?_
  refine Runs.ite (fun _ => Runs.ite (fun _ => Runs.fail_bind (herr _ _)) fun h1 => ?_) fun h =>
    absurd ⟨hid, by decide⟩ h
  have h1 : dotsOk (v.image.entry i) false d = true := by simpa [hfirst] using h1
  refine Runs.ite (fun _ => Runs.fail_bind (herr _ _)) fun _ => ?_
  refine slot_runs (v := v.own o) (A := [(i, v.image.entry i)]) hd hlist ?_
  refine Runs.ite (fun _ => Runs.ite (fun _ => Runs.fail_bind (herr _ _)) fun h2 => ?_) fun h =>
    absurd ⟨hid, by decide⟩ h
  have h2 : dotsOk (v.image.entry j) true parent = true := by simpa using h2
  rw [live_behind_dots hd0 (dotsOk_nonzero h1) (dotsOk_nonzero h2) hlist]
  refine (auditLoop_runs (A := [(i, v.image.entry i), (j, v.image.entry j)]) hd parent hrec hlist (fun _ => le_rfl)
    o _).conseq fun r v' hr b hb => ?_
  obtain ⟨o', rfl, hs⟩ := hr b hb
  exact ⟨⟨i, j, l, hsl, h1, h2⟩, o', rfl, hs⟩

/-- **`audit_directory`** of a directory that is described. -/
lemma auditDirectory_runs (hd : DirDesc v.image d desc) (parent : Nat) (o : Nat → Bool) (budget : Nat) :
    Runs (v.own o) (auditDirectory n desc parent budget) fun r v' => ∀ b, r = .ok b →
      ∃ m o', n = m + 1 ∧ v' = v.own o' ∧ (desc.node.id ≠ rootId → v.image.Dots d parent) ∧
        v.image.Swept m d (v.image.live d) o o' := by
  induction n generalizing desc d parent o budget with
  | zero => exact Runs.fail fun b hb => by cases hb
  | succ n ih =>
    have hrec : ∀ child d' o b, child.node.id ≠ rootId → DirDesc v.image d' child →
        Runs (v.own o) (auditDirectory n child d b) (SweepsDir (v.own o) n d d') := by
      intro child d' o b hid hc
      refine (ih hc d o b).conseq fun r v' hr b hb => ?_
      obtain ⟨m, o', hn, hv, hdots, hs⟩ := hr b hb
      exact ⟨m, o', hn, hv, hdots hid, hs⟩
    have hcount : directorySlots (v.own o).geo desc = (v.image.listing d).length := by
      rw [show directorySlots (v.own o).geo desc = _ from hd.slot_count]
      simp [Image.listing]
    refine Runs.get_bind fun h => ?_
    rw [mkWorld_geo, hcount]
    by_cases hid : desc.node.id = rootId
    · refine (auditLoop_runs (A := []) hd parent hrec rfl (fun h => absurd hid h) o budget).conseq
        fun r v' hr b hb => ?_
      obtain ⟨o', rfl, hs⟩ := hr b hb
      rcases hd with ⟨rfl, -⟩ | ⟨hne, -⟩
      · exact ⟨n, o', rfl, rfl, fun h => absurd hid h, hs⟩
      · exact absurd hid hne
    · refine (auditLoop_dots hd hid parent hrec o budget).conseq fun r v' hr b hb => ?_
      obtain ⟨hdots, o', rfl, hs⟩ := hr b hb
      exact ⟨n, o', rfl, rfl, fun _ => hdots, hs⟩

/-- **The first `writable`** of a mount that returns `FS_OK` has walked the whole tree. -/
lemma writable_sweeps (ha : v.audited = false) : Runs v writable fun r _ => r = .ok () →
    ∃ o, v.image.Swept pathDepth 0 (v.image.live 0) (fun _ => false) o := by
  have herr : ∀ r, (.error r : Except FsError Unit) = .ok () →
      ∃ o, v.image.Swept pathDepth 0 (v.image.live 0) (fun _ => false) o := fun r hr => by cases hr
  unfold writable
  refine Runs.get_bind fun h => ?_
  refine Runs.ite (fun _ => Runs.fail_bind (herr _)) fun _ => ?_
  refine Runs.ite (fun _ => Runs.fail_bind (herr _)) fun _ => ?_
  refine Runs.ite (fun _ => Runs.fail_bind (herr _)) fun _ => ?_
  refine Runs.ite (fun _ => ?_) fun h => absurd (by simpa using h) (by simp [ha])
  refine Runs.bind (Runs.modify (v.own fun _ => false) (fun h => ⟨h, rfl, rfl, rfl, rfl, rfl⟩) rfl ?_)
  refine Runs.bind ((auditDirectory_runs (v := v) (.inl ⟨rfl, rfl⟩) 0 (fun _ => false) writeEntryLimit).conseq
    fun r v' hr => ?_)
  cases r with
  | error r => exact herr r
  | ok b =>
    obtain ⟨m, o, hm, rfl, -, hs⟩ := hr b rfl
    obtain rfl : pathDepth = m := by omega
    refine Runs.modify { v.own o with audited := true } (fun h => ⟨h, rfl, rfl, rfl, rfl, rfl⟩) rfl fun _ => ⟨o, hs⟩

/-! ## Mounting -/

lemma readSectors_ok {sector count : Nat} {buffer data : Mem}
    (h : (readSectors sector count buffer).run w = (.ok (none, data), w')) :
    data = slice w.medium (sector * 512) (count * 512) ∧ ∃ c r, w' = { w with clock := c, lastIo := r } := by
  rw [readSectors_run] at h
  split at h
  · cases h
  · simp only [Prod.mk.injEq, Except.ok.injEq] at h
    obtain ⟨⟨h1, h2⟩, rfl⟩ := h
    rw [if_pos h1] at h2
    exact ⟨h2.symm, _, _, rfl⟩

lemma compareLoop_ok {start fuel i : Nat} {fat : Mem} (h : (compareLoop start fat fuel i).run w = (.ok (), w')) :
    (∃ c r, w' = { w with clock := c, lastIo := r }) ∧
      ∀ j < fuel * 512, fat (i * 512 + j) = w.medium ((start + i) * 512 + j) := by
  induction fuel generalizing i w with
  | zero =>
    cases h
    exact ⟨⟨_, _, rfl⟩, by omega⟩
  | succ fuel ih =>
    obtain ⟨⟨error, buffer⟩, w1, hread, h⟩ := bind_ok h
    cases error with
    | some e => cases h
    | none =>
      obtain ⟨rfl, c, r, rfl⟩ := readSectors_ok hread
      simp only at h
      split at h
      · rename_i hsame
        obtain ⟨⟨c, r, hw⟩, hrest⟩ := ih h
        refine ⟨⟨c, r, hw⟩, fun j hj => ?_⟩
        by_cases hlt : j < 512
        · have := sameBytes_iff.mp hsame j hlt
          rwa [slice_apply hlt, slice_apply (by omega)] at this
        · have := hrest (j - 512) (by omega)
          rw [show (i + 1) * 512 + (j - 512) = i * 512 + j by omega,
            show (start + (i + 1)) * 512 + (j - 512) = (start + i) * 512 + j by omega] at this
          exact this
      · cases h

lemma mountVolume_ok {readOnly : Bool} {registered : Except FsError Unit}
    (h : (mountVolume readOnly registered).run (detach.run w).2 = (.ok (), w')) :
    Synced w'.vol ∧ w'.cacheValid = false ∧ w'.audited = false ∧ w'.medium = w.medium := by
  unfold mountVolume at h
  rw [bind_run_ok get_run, if_neg (by simp [detach])] at h
  obtain ⟨r, w1, hbody, hend⟩ := bind_ok h
  rw [attempt_run] at hbody
  cases r with
  | error e =>
    obtain ⟨-, w2, -, hf⟩ := bind_ok hend
    cases hf
  | ok u =>
    cases hend
    replace hbody := attempt_ok hbody
    rw [bind_run_ok get_run] at hbody
    obtain ⟨-, hbody⟩ := guard_ok hbody
    obtain ⟨-, hbody⟩ := guard_ok hbody
    obtain ⟨o, w2, ho, hbody⟩ := bind_ok hbody
    cases ho
    split at hbody
    · cases hbody
    obtain ⟨g, w3, hg, hbody⟩ := bind_ok hbody
    obtain ⟨rfl⟩ : w3 = _ := (congrArg Prod.snd hg).symm
    obtain ⟨_, w4, hw4, hbody⟩ := bind_ok hbody
    cases hw4
    obtain ⟨b, w5, hw5, hbody⟩ := bind_ok hbody
    cases hw5
    obtain ⟨-, hbody⟩ := guard_ok hbody
    obtain ⟨⟨error, fat⟩, w6, hread, hbody⟩ := bind_ok hbody
    cases error with
    | some e => cases hbody
    | none =>
      obtain ⟨rfl, c, r, rfl⟩ := readSectors_ok hread
      obtain ⟨_, w7, hw7, hbody⟩ := bind_ok hbody
      cases hw7
      obtain ⟨_, w8, hw8, hbody⟩ := bind_ok hbody
      obtain ⟨⟨c, r, rfl⟩, hsame⟩ := compareLoop_ok hw8
      obtain ⟨-, hbody⟩ := guard_ok hbody
      obtain ⟨_, w9, hw9, hbody⟩ := bind_ok hbody
      cases hw9
      obtain ⟨_, w10, hw10, hbody⟩ := bind_ok hbody
      obtain ⟨rfl⟩ : w10 = _ := (congrArg Prod.snd hw10).symm
      cases hbody
      refine ⟨⟨fun j hj => ?_, fun j hj => ?_⟩, rfl, rfl, rfl⟩
      · show w.medium ((g.fatStart + 0 * g.fatSectors) * 512 + j) =
          slice w.medium (g.fatStart * 512) (g.fatSectors * 512) j
        rw [Nat.zero_mul, Nat.add_zero, slice_apply (show j < g.fatSectors * 512 from hj)]
      · have hsecond : slice w.medium (g.fatStart * 512) (g.fatSectors * 512) (0 * 512 + j) =
            w.medium ((g.fatStart + g.fatSectors + 0) * 512 + j) := hsame j hj
        rw [Nat.zero_mul, Nat.zero_add, Nat.add_zero] at hsecond
        show w.medium ((g.fatStart + 1 * g.fatSectors) * 512 + j) =
          slice w.medium (g.fatStart * 512) (g.fatSectors * 512) j
        rw [Nat.one_mul, hsecond]

/-- What the audit vouches for: every live entry has a terminated chain of its own, of the length its size asks for,
without repetition and inside the volume; every subdirectory begins with its dot entries; no directory has too many
slots or lies too deep. -/
structure Image.Audited (x : Image) : Prop where
  sound : x.Sound
  nodup : ∀ {d s e cs}, x.forest.Obj d s e → x.Holds e cs → cs.Nodup
  inside : ∀ {d s e cs}, x.forest.Obj d s e → x.Holds e cs → ∀ c ∈ cs, validCluster x.geo c = true
  slots : ∀ {d}, x.forest.Reach d → (x.slots d).length ≤ directoryEntryLimit
  depth : ∀ {d k}, x.Level d k → k ≤ pathDepth

lemma Image.Swept.audited {o o' : Nat → Bool} (h : x.Swept pathDepth 0 (x.live 0) o o') : x.Audited where
  sound := h.sound
  nodup _ hh := by
    cases hh with
    | empty => exact List.nodup_nil
    | file _ _ hc => exact hc.nodup
    | directory _ _ hc => exact hc.nodup
  inside _ hh c hm := by
    cases hh with
    | empty => cases hm
    | file _ _ hc => exact hc.valid hm
    | directory _ _ hc => exact hc.valid hm
  slots hr := by
    obtain ⟨k, hk⟩ := exists_level hr
    exact h.slots_le hk
  depth hl := h.depth hl

/-- **The write audit.** `writable` ends on every volume and issues no write, and the first call after a mount that
returns `FS_OK`, whatever was read before it and whatever the device answered, has checked the whole image. -/
theorem write_audit_sound : (∀ w, (writable.run w).2.trace = w.trace ∧ (writable.run w).2.medium = w.medium) ∧
    ∀ {w w0 w1 w2 : World} {readOnly : Bool} {registered : Except FsError Unit},
      (mountVolume readOnly registered).run (detach.run w).2 = (.ok (), w0) → Looked w0 w1 → w1.audited = false →
      writable.run w1 = (.ok (), w2) → w1.medium = w.medium ∧ Synced w1.vol ∧ w1.vol.image.Audited := by
  refine ⟨fun w => ?_, fun hmount hlook ha hrun => ?_⟩
  · have hl := Looks.looking.writable w
    exact ⟨congrArg Vol.trace hl.vol, congrArg Vol.medium hl.vol⟩
  · obtain ⟨hsync, hcache, -, hmedium⟩ := mountVolume_ok hmount
    have hvol := hlook.vol
    have hcoh := hlook.coherent fun h => by rw [hcache] at h; cases h
    refine ⟨(congrArg Vol.medium hvol).trans hmedium, ?_, ?_⟩
    · rw [hvol]
      exact hsync
    · have hheal := Replays.writing.writable _ () _ hrun
      obtain ⟨-, hs⟩ := (writable_sweeps (v := _) ha).apply (World.heal_good hcoh) rfl
      obtain ⟨o, hswept⟩ := hs (congrArg Prod.fst hheal)
      exact hswept.audited

/-- An empty volume: its boot sector, and the first four bytes of its tables. -/
def formatted : Mem := fun j =>
  let i := if 8704 ≤ j then j - 8192 else j
  if 516 ≤ i then 0 else ([(12, 2), (13, 1), (14, 1), (16, 2), (17, 16), (19, 0x17), (20, 0x10), (21, 0xf8), (22, 16),
    (510, 0x55), (511, 0xaa), (512, 0xf8), (513, 0xff), (514, 0xff), (515, 0xff)].lookup i).getD 0

def mountFormatted : Except FsError Unit × World :=
  (mountVolume false (.ok ())).run (detach.run (smallWorld (fun _ => 0) formatted)).2

lemma mountFormatted_facts : mountFormatted.1 = .ok () ∧ mountFormatted.2.audited = false ∧
    (writable.run mountFormatted.2).1 = .ok () := by
  decide +kernel

/-- It is mounted, and passes the audit. -/
theorem write_audit_sound_formatted : mountFormatted.2.vol.image.Audited := by
  obtain ⟨h1, h2, h3⟩ := mountFormatted_facts
  exact (write_audit_sound.2 (Prod.ext h1 rfl) (refl_of Looked _) h2 (Prod.ext h3 rfl)).2.2

end RumKernel.Fat16
