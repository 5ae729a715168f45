import RumKernel.Fat16.Healthy
import RumKernel.Fat16.Steps

/-!
# Directory searches on a healthy device

What the driver's directory functions return, in terms of the image of the volume: reading a slot,
describing an object, and `find_target`, which yields the entry of a name, a slot for a new one or the
wish to grow the directory.
-/

namespace RumKernel.Fat16
open Lib Fs Prog

variable {B : List (Nat × Entry)} {g : Geometry} {fat : Mem} {o : Description}

/-- The image of a volume, read through the cached table. -/
def Vol.image (v : Vol) : Image := ⟨v.geo, v.fat, v.medium⟩

@[simp] lemma Vol.image_geo {v : Vol} : v.image.geo = v.geo := rfl

section lists
variable {α β : Type} {f : α → List β} {n : Nat}

lemma getElem?_flatMap_const {l : List α} (hf : ∀ a, (f a).length = n) (hn : 0 < n) {k : Nat} :
    (l.flatMap f)[k]? = l[k / n]?.bind fun a => (f a)[k % n]? := by
  induction l generalizing k with
  | nil => simp
  | cons a l ih =>
    rw [List.flatMap_cons, List.getElem?_append, hf a]
    by_cases hk : k < n
    · simp [hk, Nat.div_eq_of_lt hk, Nat.mod_eq_of_lt hk]
    · have h1 : k / n = (k - n) / n + 1 := by
        rw [Nat.div_eq k n, if_pos ⟨hn, by omega⟩]
      have h2 : k % n = (k - n) % n := Nat.mod_eq_sub_mod (by omega)
      rw [if_neg hk, ih, h1, h2, List.getElem?_cons_succ]

lemma length_flatMap_const {l : List α} (hf : ∀ a, (f a).length = n) : (l.flatMap f).length = l.length * n := by
  induction l with
  | nil => simp
  | cons a l ih => rw [List.flatMap_cons, List.length_append, hf, ih, List.length_cons, Nat.succ_mul, Nat.add_comm]

end lists

variable {v : Vol} {x : Image} {d i id k parent : Nat} {e : Entry} {cs : List Nat} {desc : Description}
  {name : Name}

/-! ## Directories and their slots -/

/-- The description `desc` is that of the directory `d`. -/
def DirDesc (x : Image) (d : Nat) (desc : Description) : Prop :=
  (d = 0 ∧ desc = rootDescription) ∨
    (desc.node.id ≠ rootId ∧ desc.node.kind = .directory ∧ desc.first = d ∧
      ∃ cs, IsChain x.geo x.fat d cs ∧ desc.length = cs.length)

namespace DirDesc

lemma kind (h : DirDesc x d desc) : desc.node.kind = .directory := by
  rcases h with ⟨-, rfl⟩ | ⟨-, h, -⟩
  · rfl
  · exact h

lemma slot_count (h : DirDesc x d desc) : directorySlots x.geo desc = (x.slots d).length := by
  rcases h with ⟨rfl, rfl⟩ | ⟨hid, -, -, cs, hc, hl⟩
  · simp [directorySlots, rootDescription, Image.slots_root, rootSlots]
  · have hs := x.geo.slots_mul
    rw [Image.slots_chain hc, length_flatMap_const (n := x.geo.clusterBytes / 32) (by simp [clusterSlots])]
    unfold directorySlots
    rw [if_neg hid, hl, ← hs, ← Nat.mul_assoc, Nat.mul_div_cancel _ (by omega), Nat.mul_div_cancel _ (by omega)]

lemma directorySlot (h : DirDesc x d desc) (hk : k < (x.slots d).length) :
    directorySlot x.geo x.fat desc k = .ok (x.slots d)[k] := by
  have hcount := h.slot_count
  unfold Fat16.directorySlot
  rw [if_neg (by omega)]
  rcases h with ⟨rfl, rfl⟩ | ⟨hid, -, hf, cs, hc, hl⟩
  · simp only [Image.slots_root, rootSlots, List.getElem_map, List.getElem_range, rootDescription, if_true]
    congr 1
    omega
  · rw [if_neg hid]
    have hper : 0 < x.geo.clusterBytes / 32 := by
      have := x.geo.clusterBytes_ge
      omega
    have hslots := Image.slots_chain hc
    have hg := getElem?_flatMap_const (f := clusterSlots x.geo) (l := cs) (k := k)
      (n := x.geo.clusterBytes / 32) (by simp [clusterSlots]) hper
    rw [← hslots, List.getElem?_eq_getElem hk] at hg
    have hlt : k / (x.geo.clusterBytes / 32) < cs.length := by
      by_contra hge
      rw [List.getElem?_eq_none (by omega)] at hg
      simp at hg
    have hm := Nat.mod_lt k hper
    rw [List.getElem?_eq_getElem hlt, Option.bind_some] at hg
    simp only [clusterSlots, List.getElem?_map, List.getElem?_range hm, Option.map_some,
      Option.some.injEq] at hg
    simp only [hf, clusterAt_eq hc hlt, Except.ok.injEq]
    rw [hg]
    omega

end DirDesc

lemma slotOffset_of_mem (hd : DirDesc x d desc) (hi : i ∈ x.slots d) : slotOffset x.geo i = some (slotBase i) := by
  rcases hd with ⟨rfl, -⟩ | ⟨-, -, -, cs, hc, -⟩
  · exact slotOffset_root hi
  · rw [Image.slots_chain hc] at hi
    obtain ⟨c, hcm, hic⟩ := List.mem_flatMap.mp hi
    exact slotOffset_cluster (hc.valid hcm) hic

lemma entryRead_runs {Q : Except FsError Entry → Vol → Prop} {a : Nat} (hi : slotOffset v.geo i = some a)
    (hQ : Q (.ok (v.image.entry i)) v) : Runs v (entryRead i) Q := by
  obtain ⟨rfl, h2, -, hlt⟩ := slotOffset_bounds hi
  unfold entryRead
  refine Runs.get_bind fun h => ?_
  simp only [mkWorld_geo, hi]
  refine fat16Sector_get hlt fun h hsec => Runs.pure ?_
  have e : slice (mkWorld v h).sector (slotBase i % 512) 32 = v.image.entry i := by
    rw [mkWorld_sector, hsec]
    unfold block Image.entry
    have hb : slotBase i % 512 + 32 ≤ 512 := by
      unfold slotBase
      omega
    rw [slice_slice hb]
    congr 1
    omega
  rw [e]
  exact hQ

lemma slot_runs {α : Type} {f : Nat → Entry → FatM α} {Q : Except FsError α → Vol → Prop}
    {A : List (Nat × Entry)} (hd : DirDesc v.image d desc) (hAB : v.image.listing d = A ++ (i, e) :: B)
    (hQ : Runs v (f i e) Q) :
    Runs v (Prog.get >>= fun w => Prog.lift (directorySlot w.geo w.fat desc A.length) >>= fun id =>
      entryRead id >>= fun entry => f id entry) Q := by
  have hlen := congrArg List.length hAB
  have hk : A.length < (v.image.slots d).length := by
    simp only [Image.listing, List.length_map, List.length_append, List.length_cons] at hlen
    omega
  have hat : ((v.image.slots d)[A.length], v.image.entry (v.image.slots d)[A.length]) = (i, e) := by
    have h1 : (v.image.listing d)[A.length]? = some (i, e) := by simp [hAB]
    simpa only [Image.listing, List.getElem?_map, List.getElem?_eq_getElem hk, Option.map_some,
      Option.some.injEq] using h1
  rw [Prod.mk.injEq] at hat
  have ho := slotOffset_of_mem hd (List.getElem_mem hk)
  refine Runs.get_bind fun h => Runs.bind (Runs.lift ?_)
  rw [show directorySlot (mkWorld v h).geo (mkWorld v h).fat desc A.length = _ from hd.directorySlot hk]
  refine Runs.bind (entryRead_runs ho ?_)
  rw [hat.2, hat.1]
  exact hQ

/-! ## Decoding -/

lemma decodeChain_id : decodeChain g fat e id =
    (decodeChain g fat e 0).map fun o => { o with node := { o.node with id } } := by
  unfold decodeChain
  by_cases hk : entryKind e = .directory
  · simp only [hk, if_true]
    split
    · rfl
    · cases fat16Chain g fat (entryFirst e) with
      | error r => rfl
      | ok n =>
        simp only
        split <;> rfl
  · simp only [hk, if_false]
    split
    · split <;> rfl
    · split
      · rfl
      · cases fat16Chain g fat (entryFirst e) with
        | error r => rfl
        | ok n =>
          simp only
          split <;> rfl

lemma tag_eq_decode (id : Nat) : x.tag e = match decode x.geo x.fat e id with
    | .ok (_, name) => .named name
    | .error .notFound => .skip
    | .error _ => .broken := by
  unfold Image.tag
  rw [show decode x.geo x.fat e id = _ from decode_eq, decode_eq,
    show decodeChain x.geo x.fat e id = _ from decodeChain_id]
  cases entryName e with
  | error r => rfl
  | ok name =>
    cases decodeChain x.geo x.fat e 0 with
    | error r => rfl
    | ok o => rfl

lemma tag_skip_of_decode (h : decode x.geo x.fat e id = .error .notFound) : x.tag e = .skip := by
  rw [tag_eq_decode id, h]

lemma tag_named_of_decode (h : decode x.geo x.fat e id = .ok (o, name)) : x.tag e = .named name := by
  rw [tag_eq_decode id, h]

lemma decode_ok (h : decode g fat e id = .ok (o, name)) :
    entryName e = .ok name ∧ e 0 ≠ 0 ∧ liveEntry e = true ∧ (∀ b, dotEntry e b = false) := by
  have hn : entryName e = .ok name := by
    rw [decode_eq] at h
    cases hn : entryName e with
    | error r => simp [hn] at h
    | ok n =>
      simp only [hn] at h
      cases hc : decodeChain g fat e id with
      | error r => simp [hc] at h
      | ok o' =>
        simp only [hc, Except.ok.injEq, Prod.mk.injEq] at h
        rw [h.2]
  refine ⟨hn, ?_, ?_, ?_⟩
  · intro h0
    simp [entryName, h0] at hn
  · unfold entryName at hn
    split at hn <;> try cases hn
    split at hn <;> try cases hn
    rename_i hl
    simp only [not_or, ne_eq, not_not] at hl
    simp [liveEntry, hl]
  · intro b
    by_contra hd
    simp only [Bool.not_eq_false, dotEntry, Bool.and_eq_true, beq_iff_eq, List.all_eq_true,
      List.mem_range] at hd
    obtain ⟨⟨h0, h1⟩, hr⟩ := hd
    have h2 := hr 0 (by omega)
    unfold entryName at hn
    cases b with
    | false => simp [h0, h1, dotByte] at hn
    | true => simp [h0, h1, h2, dotByte] at hn

namespace Image

lemma listing_split {A : List (Nat × Entry)} (h : x.listing d = A ++ (i, e) :: B) :
    ∃ pre post, x.slots d = pre ++ i :: post ∧ A = x.read pre ∧ B = x.read post ∧ e = x.entry i := by
  obtain ⟨pre, rest, hs, hA, hB⟩ := List.map_eq_append_iff.mp h
  obtain ⟨j, post, hr, hj, hp⟩ := List.map_eq_cons_iff.mp hB
  cases hj
  exact ⟨pre, post, by rw [hs, hr], hA.symm, hp.symm, rfl⟩

lemma Sound.depth (hs : x.Sound) (hr : x.forest.Reach d) {pre post : List Nat}
    (hsl : x.slots d = pre ++ i :: post) (hnd : ∀ b, dotEntry (x.entry i) b = false) : d ≠ 0 → 2 ≤ pre.length := by
  intro hd
  rcases hs.dir_cases hr with rfl | ⟨p, s, f, cs, ho, hk, he, -, -⟩
  · exact absurd rfl hd
  · obtain ⟨a, b, rest, hl, h1, h2⟩ := hs.dots ho hk
    rw [he, hsl] at hl
    simp only [dotsOk, Bool.and_eq_true] at h1 h2
    match pre with
    | [] =>
      simp only [List.nil_append, List.cons.injEq] at hl
      have := hnd false
      rw [hl.1, h1.1.1.1.1] at this
      cases this
    | [u] =>
      simp only [List.cons_append, List.nil_append, List.cons.injEq] at hl
      have := hnd true
      rw [hl.2.1, h2.1.1.1.1] at this
      cases this
    | _ :: _ :: _ => simp

lemma dotEntry_eq_false (h : e 0 ≠ dotByte) (b : Bool) : dotEntry e b = false := by
  simp [dotEntry, h]

lemma Sound.slotOffset (hs : x.Sound) (hr : x.forest.Reach d) (hi : i ∈ x.slots d) :
    slotOffset x.geo i = some (slotBase i) := by
  rcases hs.slot_cases hr hi with ⟨-, h⟩ | ⟨p, s, f, cs, c, -, -, -, hh, hc, h⟩
  · exact slotOffset_root h
  · exact slotOffset_cluster (hh.valid hc) h

end Image

/-! ## `fat16_describe` -/

section describe
variable {Q : Except FsError Description → Vol → Prop}

lemma describe_root (hr : v.ready = true) (hf : v.faulted = false) (hQ : Q (.ok rootDescription) v) :
    Runs v (describe rootId) Q := by
  unfold describe
  refine Runs.get_bind fun h => ?_
  simp only [mkWorld_ready, mkWorld_faulted, hr, hf]
  exact Runs.pure hQ

lemma describe_obj (hr : v.ready = true) (hf : v.faulted = false) (hs : v.image.Sound)
    (ho : v.image.forest.Obj d id e) (hh : v.image.Holds e cs) (herr : ∀ r, Q (.error r) v)
    (hok : ∀ n, entryName e = .ok n → Image.tooLong v.geo e cs.length = false →
      Q (.ok (Image.describes e id cs)) v) : Runs v (describe id) Q := by
  have hm := Image.mem_live ho.2
  have h2 := hs.two_le_slot ho.1 hm.1
  have hne : ¬id = rootId := by
    unfold rootId
    omega
  have hoff := hs.slotOffset ho.1 hm.1
  unfold describe
  refine Runs.get_bind fun h => ?_
  simp only [mkWorld_ready, mkWorld_faulted, hr, hf, hne]
  refine Runs.bind (entryRead_runs hoff ?_)
  rw [← hm.2.1]
  refine Runs.get_bind fun h => ?_
  have hdec : decode v.image.geo v.image.fat e id = _ := decode_eq
  rw [hh.decodeChain] at hdec
  simp only [mkWorld_geo, mkWorld_fat]
  rw [show decode v.geo v.fat e id = _ from hdec]
  cases hn : entryName e with
  | error r => cases r <;> exact Runs.fail (herr _)
  | ok n =>
    cases ht : Image.tooLong v.image.geo e cs.length with
    | true => exact Runs.fail (herr _)
    | false => exact Runs.pure (hok n hn ht)

end describe

/-! ## `find_target` -/

/-- A slot of a long name that has not been deleted. -/
def longSlot (e : Entry) : Bool := e 0 != 0 && e 0 != 0xe5 && attr e == 0x0f

/-- No slot of a long name stands at the end of the entries. -/
def Unattached (A : List (Nat × Entry)) : Prop := ∀ p ∈ A.getLast?, longSlot p.2 = false

/-- What the search knows after the entries `A`: none of them ends the search, and the first deleted one,
which no part of a long name precedes, is the reusable slot. -/
structure Scanned (x : Image) (name : Name) (count : Nat) (A : List (Nat × Entry)) (s : Search) : Prop where
  nonzero : ∀ p ∈ A, p.2 0 ≠ 0
  clear : Forest.Clear x.tag name A
  unused : s.reusable = count → ∀ p ∈ A, p.2 0 ≠ 0xe5
  long : s.longName = false → Unattached A
  reusable : s.reusable = count ∨ ∃ A1 A2 e, A = A1 ++ (s.id, e) :: A2 ∧ s.reusable = A1.length ∧
    e 0 = 0xe5 ∧ s.end = false ∧ Unattached A1

namespace Scanned

variable {count : Nat} {A : List (Nat × Entry)} {s s' : Search}

lemma start : Scanned x name count [] { reusable := count, id := 0, «end» := false, longName := false } :=
  ⟨by simp, by simp [Forest.Clear], by simp, by simp [Unattached], .inl rfl⟩

lemma pass (h : Scanned x name count A s) (h0 : e 0 ≠ 0) (ht : x.tag e ≠ .broken ∧ x.tag e ≠ .named name)
    (hu : s.reusable = count → e 0 ≠ 0xe5) (hl : s'.longName = false → longSlot e = false)
    (hr : s'.reusable = s.reusable) (hi : s'.id = s.id) (he : s'.end = s.end) :
    Scanned x name count (A ++ [(i, e)]) s' := by
  refine ⟨?_, ?_, ?_, ?_, ?_⟩
  · intro p hp
    rcases List.mem_append.mp hp with hp | hp
    · exact h.nonzero p hp
    · obtain rfl := by simpa using hp
      exact h0
  · intro p hp
    rcases List.mem_append.mp hp with hp | hp
    · exact h.clear p hp
    · obtain rfl := by simpa using hp
      exact ht
  · intro hc p hp
    rcases List.mem_append.mp hp with hp | hp
    · exact h.unused (hr ▸ hc) p hp
    · obtain rfl := by simpa using hp
      exact hu (hr ▸ hc)
  · intro hlong p hp
    obtain rfl : (i, e) = p := by simpa using hp
    exact hl hlong
  · rcases h.reusable with h1 | ⟨A1, A2, f, e1, e2, e3, e4, e5⟩
    · exact .inl (hr.trans h1)
    · exact .inr ⟨A1, A2 ++ [(i, e)], f, by simp [e1, hi], by rw [hr, e2], e3, by rw [he, e4], e5⟩

lemma reuse (h : Scanned x name count A s) (hlen : A.length < count) (hlong : s.longName = false) (h5 : e 0 = 0xe5)
    (ht : x.tag e = .skip) (hr : s'.reusable = A.length) (hi : s'.id = i) (he : s'.end = false) :
    Scanned x name count (A ++ [(i, e)]) s' := by
  refine ⟨?_, ?_, fun hc => ?_, fun _ p hp => ?_, ?_⟩
  · intro p hp
    rcases List.mem_append.mp hp with hp | hp
    · exact h.nonzero p hp
    · obtain rfl := by simpa using hp
      simp [h5]
  · intro p hp
    rcases List.mem_append.mp hp with hp | hp
    · exact h.clear p hp
    · obtain rfl := by simpa using hp
      simp [ht]
  · omega
  · obtain rfl : (i, e) = p := by simpa using hp
    simp [longSlot, h5]
  · exact .inr ⟨A, [], e, by rw [hi], hr, h5, he, h.long hlong⟩

end Scanned

/-- The slot search ended at the end marker in slot `i`: the slot to use is the first deleted one or the
end marker itself. -/
def Ended (x : Image) (name : Name) (count : Nat) (A : List (Nat × Entry)) (i : Nat) (s : Search) : Prop :=
  ∃ s0, Scanned x name count A s0 ∧ Unattached A ∧
    ((s.reusable = A.length ∧ s.id = i ∧ s.end = true) ∨
      (s.reusable = s0.reusable ∧ s.id = s0.id ∧ s.end = s0.end ∧ s0.reusable ≠ count))

/-- The entry called `name` was found behind the entries `A`. -/
structure FoundAt (x : Image) (desc : Description) (name : Name) (A : List (Nat × Entry)) (t : Target) :
    Prop where
  nonzero : ∀ p ∈ A, p.2 0 ≠ 0
  clear : Forest.Clear x.tag name A
  decoded : decode x.geo x.fat t.entry t.id = .ok (t.old, name)
  «exists» : t.exists = true
  directory : t.directory = desc
  grow : t.grow = false
  «end» : t.end = false

lemma tag_deleted (h : e 0 = 0xe5) : x.tag e = .skip := by
  have hd : decode x.geo x.fat e 0 = .error .notFound := by
    unfold decode
    rw [if_neg (by rw [h]; decide), if_pos (.inl h)]
  exact tag_skip_of_decode hd

lemma tag_label (h0 : e 0 ≠ 0) (h : attr e &&& 8 ≠ 0) : x.tag e = .skip := by
  have hd : decode x.geo x.fat e 0 = .error .notFound := by
    unfold decode
    rw [if_neg h0, if_pos (.inr h)]
  exact tag_skip_of_decode hd

lemma findLoop_runs {Q : Except FsError ((Search × Bool) ⊕ Target) → Vol → Prop}
    (hd : DirDesc v.image d desc) {count : Nat} (herr : ∀ r, Q (.error r) v)
    (hfound : ∀ A B t, v.image.listing d = A ++ (t.id, t.entry) :: B → FoundAt v.image desc name A t →
      Q (.ok (.inr t)) v) (hend : ∀ A B i e s, v.image.listing d = A ++ (i, e) :: B → e 0 = 0 →
      Ended v.image name count A i s → Q (.ok (.inl (s, true))) v)
    (hfull : ∀ s, Scanned v.image name count (v.image.listing d) s → Q (.ok (.inl (s, false))) v)
    (hcount : count = (v.image.listing d).length) {A : List (Nat × Entry)} {s : Search}
    (hAB : v.image.listing d = A ++ B) (hsc : Scanned v.image name count A s) :
    Runs v (findLoop desc name count B.length A.length s) Q := by
  induction B generalizing A s with
  | nil =>
    rw [List.append_nil] at hAB
    exact Runs.pure (hfull s (hAB ▸ hsc))
  | cons p B ih =>
    obtain ⟨i, e⟩ := p
    have next : ∀ s', Scanned v.image name count (A ++ [(i, e)]) s' →
        Runs v (findLoop desc name count B.length (A.length + 1) s') Q := by
      intro s' hs'
      have := ih (A := A ++ [(i, e)]) (s := s') (by simpa using hAB) hs'
      simpa using this
    simp only [List.length_cons, findLoop]
    refine slot_runs hd hAB ?_
    refine Runs.ite (fun hdel => ?_) fun hnd => ?_
    · refine Runs.ite (fun _ => Runs.fail_bind (herr _)) fun hlong => ?_
      have hlong : s.longName = false := by simpa using hlong
      by_cases h0 : e 0 = 0
      · simp only [h0, if_true]
        refine Runs.pure (hend A B i e _ hAB h0 ⟨s, hsc, hsc.long hlong, ?_⟩)
        by_cases hr : s.reusable = count
        · exact .inl (by simp [hr])
        · exact .inr (by simp [hr])
      · have h5 : e 0 = 0xe5 := hdel.resolve_right h0
        simp only [h0, if_false]
        refine next _ ?_
        by_cases hr : s.reusable = count
        · refine hsc.reuse ?_ hlong h5 (tag_deleted h5) ?_ ?_ ?_ <;> simp [hr, hcount, hAB]
        · refine hsc.pass h0 (by simp [tag_deleted h5]) (fun hc => absurd hc hr) (by simp [longSlot, h5]) ?_ ?_ ?_ <;>
            simp [hr]
    · have h0 : e 0 ≠ 0 := fun h => hnd (.inr h)
      have hu : s.reusable = count → e 0 ≠ 0xe5 := fun _ h => hnd (.inl h)
      refine Runs.ite (fun hlfn => ?_) fun hshort => ?_
      · have ht : v.image.tag e = .skip := tag_label h0 (by rw [hlfn]; decide)
        exact next _ (hsc.pass h0 (by simp [ht]) hu (by simp) rfl rfl rfl)
      · refine Runs.get_bind fun h => ?_
        simp only [mkWorld_geo, mkWorld_fat]
        cases hdec : decode v.geo v.fat e i with
        | error r =>
          cases r
          case notFound =>
            have ht : v.image.tag e = .skip := tag_skip_of_decode (x := v.image) hdec
            exact next _ (hsc.pass h0 (by simp [ht]) hu (by simp [longSlot, hshort]) rfl rfl rfl)
          all_goals exact Runs.fail (herr _)
        | ok o =>
          obtain ⟨old, decoded⟩ := o
          refine Runs.ite (fun hn => ?_) fun hn => ?_
          · refine Runs.pure (hfound A B _ hAB ?_)
            subst hn
            exact ⟨hsc.nonzero, hsc.clear, hdec, rfl, rfl, rfl, rfl⟩
          · have ht : v.image.tag e = .named decoded := tag_named_of_decode (x := v.image) hdec
            exact next _ (hsc.pass h0 (by simp [ht, hn]) hu (by simp [longSlot, hshort]) rfl rfl rfl)

/-- The identifier of the directory `d`: the root's, or the slot of its entry. -/
def DirId (x : Image) (id d : Nat) : Prop :=
  (id = rootId ∧ d = 0) ∨ ∃ p e, x.forest.Obj p id e ∧ entryKind e = .directory ∧ entryFirst e = d

/-- The identifier of an object: the root's, or the slot of a live entry. -/
def IsObject (x : Image) (id : Nat) : Prop := id = rootId ∨ ∃ p e, x.forest.Obj p id e

lemma DirId.reach (h : DirId x id d) : x.forest.Reach d := by
  rcases h with ⟨-, rfl⟩ | ⟨p, e, ho, hk, he⟩
  · exact .root
  · exact .sub ho.1 ho.2 (Image.subdirectory_eq_some.mpr ⟨hk, he⟩)

/-- The target is the entry called `name` in `d`, the first one of that name. -/
structure Existing (x : Image) (d : Nat) (name : Name) (t : Target) (pre post : List Nat) : Prop
    extends Image.Editable x d t.id pre post where
  entry_eq : x.entry t.id = t.entry
  decoded : decode x.geo x.fat t.entry t.id = .ok (t.old, name)
  clear : Forest.Clear x.tag name (x.read pre)

/-- The target is a slot of `d` for a new entry: a deleted one, or the end marker. -/
structure Vacant (x : Image) (d : Nat) (name : Name) (t : Target) (pre post : List Nat) : Prop
    extends Image.SlotAt x d t.id pre post where
  before : ∀ j ∈ pre, x.entry j 0 ≠ 0
  depth : d ≠ 0 → 2 ≤ pre.length
  clear : Forest.Clear x.tag name (x.scan d)
  state : (x.entry t.id 0 = 0xe5 ∧ t.end = false) ∨
    (x.entry t.id 0 = 0 ∧ t.end = true ∧ t.cursor = pre.length)
  unattached : Unattached (x.read pre)

/-- The directory `d` has no slot for a new entry, but may grow. -/
structure Full (x : Image) (d : Nat) (name : Name) (cs : List Nat) : Prop where
  chain : IsChain x.geo x.fat d cs
  full : ∀ p ∈ x.listing d, p.2 0 ≠ 0
  used : ∀ p ∈ x.listing d, p.2 0 ≠ 0xe5
  clear : Forest.Clear x.tag name (x.scan d)
  limit : (cs.length + 1) * x.geo.clusterBytes / 32 ≤ directoryEntryLimit

/-- What `find_target` returns. -/
inductive Located (x : Image) (d : Nat) (name : Name) (t : Target) : Prop where
  | existing (pre post : List Nat) : t.exists = true → t.grow = false → t.end = false →
    Existing x d name t pre post → Located x d name t
  | vacant (pre post : List Nat) : t.exists = false → t.grow = false → t.old = ({} : Target).old →
    Vacant x d name t pre post → Located x d name t
  | full (clusters : List Nat) : t.exists = false → t.grow = true → t.old = ({} : Target).old →
    t.cursor = directorySlots x.geo t.directory → Full x d name clusters → Located x d name t

lemma scan_ended {A : List (Nat × Entry)} (h : x.listing d = A ++ (i, e) :: B) (h0 : e 0 = 0)
    (hA : ∀ p ∈ A, p.2 0 ≠ 0) : x.scan d = A := by
  unfold Image.scan
  rw [h, List.takeWhile_append_of_pos (fun p hp => by simpa using hA p hp),
    List.takeWhile_cons_of_neg (by simp [h0]), List.append_nil]

lemma scan_full (h : ∀ p ∈ x.listing d, p.2 0 ≠ 0) : x.scan d = x.listing d := by
  unfold Image.scan
  rw [List.takeWhile_eq_self_iff]
  exact fun p hp => by simpa using h p hp

lemma Scanned.vacant {count : Nat} {A A1 A2 : List (Nat × Entry)} {s : Search} {f : Entry} {t : Target}
    (hs : x.Sound) (hr : x.forest.Reach d) (h : Scanned x name count A s) (hl : x.listing d = A ++ B)
    (hA : A = A1 ++ (t.id, f) :: A2) (h5 : f 0 = 0xe5) (hte : t.end = false) (hun : Unattached A1)
    (hscan : x.scan d = A) : ∃ pre post, Vacant x d name t pre post := by
  have hl' : x.listing d = A1 ++ (t.id, f) :: (A2 ++ B) := by simp [hl, hA]
  obtain ⟨pre, post, hsl, e1, -, e3⟩ := Image.listing_split hl'
  refine ⟨pre, post, ⟨hr, hsl⟩, fun j hj => ?_, ?_, ?_, .inl ⟨by rw [← e3, h5], hte⟩, e1 ▸ hun⟩
  · refine h.nonzero (j, x.entry j) ?_
    rw [hA, e1]
    exact List.mem_append_left _ (List.mem_map.mpr ⟨j, hj, rfl⟩)
  · refine hs.depth hr hsl fun b => Image.dotEntry_eq_false ?_ b
    rw [← e3, h5]
    decide
  · rw [hscan]
    exact h.clear

lemma findSlot_runs {Q : Except FsError Target → Vol → Prop} (hs : v.image.Sound)
    (hr : v.image.forest.Reach d) (hd : DirDesc v.image d desc) (hroot : d = 0 → parent = rootId)
    (herr : ∀ r, Q (.error r) v) (hok : ∀ t, t.directory = desc → Located v.image d name t → Q (.ok t) v) :
    Runs v (findSlot parent desc name) Q := by
  have hcount : directorySlots v.geo desc = (v.image.listing d).length := by
    rw [show directorySlots v.geo desc = _ from hd.slot_count]
    simp [Image.listing]
  unfold findSlot
  refine Runs.get_bind fun h => ?_
  simp only [mkWorld_geo]
  refine Runs.bind ?_
  nth_rewrite 2 [hcount]
  refine findLoop_runs (A := []) hd herr ?_ ?_ ?_ hcount rfl Scanned.start
  · intro A B t hl hf
    refine Runs.pure (hok t hf.directory ?_)
    obtain ⟨pre, post, hsl, e1, e2, e3⟩ := Image.listing_split hl
    obtain ⟨hn, h0, hlive, hdot⟩ := decode_ok hf.decoded
    refine .existing pre post hf.exists hf.grow hf.end ⟨⟨⟨hr, hsl⟩, fun j hj => ?_, ?_, ?_⟩, e3.symm, hf.decoded, ?_⟩
    · exact hf.nonzero (j, v.image.entry j) (e1 ▸ List.mem_map.mpr ⟨j, hj, rfl⟩)
    · exact hs.depth hr hsl (e3 ▸ hdot)
    · intro h0'
      exact absurd (e3 ▸ h0') h0
    · exact e1 ▸ hf.clear
  · rintro A B i e s hl h0 ⟨s0, hsc, hun, hcase⟩
    have hscan := scan_ended hl h0 hsc.nonzero
    simp only [Bool.not_true, Bool.and_false, Bool.false_eq_true, false_and, if_false]
    refine Runs.pure (hok _ rfl ?_)
    rcases hcase with ⟨h1, h2, h3⟩ | ⟨h1, h2, h3, h4⟩
    · obtain ⟨pre, post, hsl, e1, e2, e3⟩ := Image.listing_split hl
      refine .vacant pre post rfl rfl rfl ⟨⟨hr, h2 ▸ hsl⟩, fun j hj => ?_, ?_, ?_, .inr ⟨?_, h3, ?_⟩, e1 ▸ hun⟩
      · exact hsc.nonzero (j, v.image.entry j) (e1 ▸ List.mem_map.mpr ⟨j, hj, rfl⟩)
      · refine hs.depth hr hsl fun b => Image.dotEntry_eq_false ?_ b
        rw [← e3, h0]
        decide
      · rw [hscan]
        exact hsc.clear
      · show v.image.entry s.id 0 = 0
        rw [h2, ← e3, h0]
      · show s.reusable = pre.length
        rw [h1, e1]
        simp [Image.read]
    · rcases hsc.reusable with h5 | ⟨A1, A2, f, e1, e2, e3, e4, e5⟩
      · exact absurd h5 h4
      · obtain ⟨pre, post, hv⟩ :=
          hsc.vacant (t := { directory := desc, id := s.id, cursor := s.reusable, «end» := s.end })
          hs hr hl (h2 ▸ e1) e3 (h3.trans e4) e5 hscan
        exact .vacant pre post rfl rfl rfl hv
  · intro s hsc
    have hscan := scan_full hsc.nonzero
    by_cases hg : s.reusable = directorySlots v.geo desc
    · simp only [hg, beq_self_eq_true, Bool.not_false, Bool.and_self, true_and]
      refine Runs.ite (fun _ => Runs.fail_bind (herr _)) fun hnr => ?_
      refine Runs.ite (fun _ => Runs.fail_bind (herr _)) fun hlim => Runs.pure (hok _ rfl ?_)
      rcases hd with ⟨h0, -⟩ | ⟨hid, hk, hfirst, cs, hc, hlen⟩
      · exact absurd (hroot h0) hnr
      · refine .full cs rfl rfl rfl rfl ⟨hc, hsc.nonzero, hsc.unused hg, ?_, ?_⟩
        · rw [hscan]
          exact hsc.clear
        · have hm := v.geo.slots_mul
          have : directorySlots v.geo desc = cs.length * v.geo.clusterBytes / 32 := by
            unfold directorySlots
            rw [if_neg hid, hlen]
          rw [this] at hlim
          show (cs.length + 1) * v.geo.clusterBytes / 32 ≤ directoryEntryLimit
          rw [Nat.add_mul, Nat.one_mul]
          omega
    · have hb : (s.reusable == directorySlots v.geo desc) = false := by simpa using hg
      simp only [hb, Bool.false_and, Bool.false_eq_true, false_and, if_false]
      rcases hsc.reusable with h5 | ⟨A1, A2, f, e1, e2, e3, e4, e5⟩
      · exact absurd h5 hg
      · obtain ⟨pre, post, hv⟩ :=
          hsc.vacant (t := { directory := desc, id := s.id, cursor := s.reusable, «end» := s.end })
          hs hr (B := []) (by simp) e1 e3 e4 e5 hscan
        exact Runs.pure (hok _ rfl (.vacant pre post rfl rfl rfl hv))

/-- **`find_target`** on a sound volume changes nothing and locates the name in the directory. -/
theorem findTarget_runs {Q : Except FsError Target → Vol → Prop} (hr : v.ready = true)
    (hf : v.faulted = false) (hs : v.image.Sound) (hid : IsObject v.image parent) (herr : ∀ r, Q (.error r) v)
    (hok : ∀ d t, DirId v.image parent d → DirDesc v.image d t.directory → Located v.image d name t →
      Q (.ok t) v) : Runs v (findTarget parent name) Q := by
  unfold findTarget
  refine Runs.bind ?_
  rcases hid with rfl | ⟨p, e, ho⟩
  · refine describe_root hr hf (Runs.ite (fun hk => absurd rfl hk) fun _ => ?_)
    have hd : DirDesc v.image 0 rootDescription := .inl ⟨rfl, rfl⟩
    exact findSlot_runs hs .root hd (fun _ => rfl) herr fun t ht hl =>
      hok 0 t (.inl ⟨rfl, rfl⟩) (ht ▸ hd) hl
  · obtain ⟨cs, hh⟩ := hs.holds ho
    refine describe_obj hr hf hs ho hh herr fun n _ _ => ?_
    refine Runs.ite (fun _ => Runs.fail_bind (herr _)) fun hk => ?_
    have hk' : entryKind e = .directory := by simpa [Image.describes] using hk
    have h2 := hs.two_le_slot ho.1 (Image.mem_live ho.2).1
    have hc := hh.chain hk'
    have hid : DirId v.image parent (entryFirst e) := .inr ⟨p, e, ho, hk', rfl⟩
    have hd : DirDesc v.image (entryFirst e) (Image.describes e parent cs) :=
      .inr ⟨by simp only [Image.describes, rootId]; omega, hk', rfl, cs, hc, rfl⟩
    have hne : entryFirst e ≠ 0 := by
      have := validCluster_range (hc.valid hc.head_mem)
      omega
    exact findSlot_runs hs hid.reach hd (fun h0 => absurd h0 hne) herr fun t ht hl =>
      hok _ t hid (ht ▸ hd) hl

/-! ## The object of an identifier, and the emptiness test -/

lemma byId_root {Q : Except FsError Target → Vol → Prop} (hr : v.ready = true) (hf : v.faulted = false)
    (herr : Q (.error .isDirectory) v) : Runs v (byId rootId) Q := by
  unfold byId
  refine Runs.bind (describe_root hr hf (Runs.ite (fun _ => Runs.fail_bind herr) fun hk => ?_))
  exact absurd (show rootDescription.node.kind ≠ .file by decide) hk

lemma byId_runs {Q : Except FsError Target → Vol → Prop} (hr : v.ready = true) (hf : v.faulted = false)
    (hs : v.image.Sound) (ho : v.image.forest.Obj d id e) (hh : v.image.Holds e cs) (herr : ∀ r, Q (.error r) v)
    (hok : ∀ n, entryName e = .ok n → entryKind e = .file →
      Q (.ok { old := Image.describes e id cs, id, «exists» := true, entry := e }) v) :
    Runs v (byId id) Q := by
  have hm := Image.mem_live ho.2
  unfold byId
  refine Runs.bind (describe_obj hr hf hs ho hh herr fun n hn _ => ?_)
  refine Runs.ite (fun _ => Runs.fail_bind (herr _)) fun hk => ?_
  refine Runs.bind (entryRead_runs (hs.slotOffset ho.1 hm.1) (Runs.pure ?_))
  rw [← hm.2.1]
  exact hok n hn (by simpa [Image.describes] using hk)

lemma emptyLoop_runs {Q : Except FsError Unit → Vol → Prop} (hd : DirDesc v.image d desc)
    (herr : ∀ r, Q (.error r) v) (hok : (∀ p ∈ (v.image.scan d).drop 2, p.2 0 = 0xe5) → Q (.ok ()) v)
    {A : List (Nat × Entry)} (hAB : v.image.listing d = A ++ B) (hA : ∀ p ∈ A.drop 2, p.2 0 = 0xe5) :
    Runs v (emptyLoop desc B.length A.length) Q := by
  induction B generalizing A with
  | nil =>
    rw [List.append_nil] at hAB
    refine Runs.pure (hok fun p hp => hA p ?_)
    unfold Image.scan at hp
    rw [hAB] at hp
    exact ((List.takeWhile_prefix _).drop 2).subset hp
  | cons p B ih =>
    obtain ⟨i, e⟩ := p
    simp only [List.length_cons, emptyLoop]
    refine slot_runs hd hAB ?_
    refine Runs.ite (fun h0 => Runs.pure (hok fun q hq => hA q ?_)) fun h0 => ?_
    · -- the scan stops inside `A`
      have hpre : (v.image.scan d) <+: A := by
        unfold Image.scan
        rw [hAB, List.takeWhile_append]
        split
        · rw [List.takeWhile_cons_of_neg (by simp [h0]), List.append_nil]
        · exact List.takeWhile_prefix _
      exact (hpre.drop 2).subset hq
    · refine Runs.ite (fun _ => Runs.fail_bind (herr _)) fun h5 => ?_
      have := ih (A := A ++ [(i, e)]) (by simpa using hAB) ?_
      · simpa using this
      · intro q hq
        rw [List.drop_append] at hq
        rcases List.mem_append.mp hq with hq | hq
        · exact hA q hq
        · have := List.mem_of_mem_drop hq
          obtain rfl := by simpa using this
          simpa using h5

end RumKernel.Fat16
