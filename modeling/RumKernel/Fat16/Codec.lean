import RumKernel.Fat16.Consistency

/-!
# The directory entry codec

`make_entry` writes the 32 bytes of an entry and `fat16_decode` reads them back as they were. In the other direction the
eleven name bytes of a slot that is read are those that would be written for its name, up to letter case, unless the
first name field holds a dot: a dot there with an empty second field gives the same text.
-/

namespace RumKernel.Fat16
open Lib Fs

variable {g : Geometry} {fat : Mem} {e e' : Entry} {name : Name} {stem ext part rest rest' : List Byte}
  {start n id first size length : Nat} {dir : Bool} {kind : FsKind} {x : Image} {d : Description}

/-! ## What is written is read back -/

/-- The table holds the chain of an entry of a kind and a size: for a directory one that stays within the slot limit,
for an empty file none. -/
inductive ChainFor (g : Geometry) (fat : Mem) : FsKind → Nat → Nat → Nat → Prop where
  | directory {first n : Nat} : fat16Chain g fat first = .ok n → n * g.clusterBytes / 32 ≤ directoryEntryLimit →
      ChainFor g fat .directory first 0 n
  | empty : ChainFor g fat .file 0 0 0
  | file {first size : Nat} : size ≠ 0 → fat16Chain g fat first = .ok (clustersFor g size) →
      ChainFor g fat .file first size (clustersFor g size)

lemma first_lt_of_chain (h : fat16Chain g fat first = .ok n) : first < 65536 := by
  obtain ⟨cs, hcs, -⟩ := fat16Chain_ok_iff.mp h
  have := validCluster_range (hcs.valid hcs.head_mem)
  omega

lemma ChainFor.first_lt (h : ChainFor g fat kind first size n) : first < 65536 := by
  cases h with
  | directory hc _ => exact first_lt_of_chain hc
  | empty => exact Nat.zero_lt_succ _
  | file _ hc => exact first_lt_of_chain hc

lemma ChainFor.decodeChain (h : ChainFor g fat kind first size n) (hk : entryKind e = kind) (hf : entryFirst e = first)
    (hs : entrySize e = size) : decodeChain g fat e id = .ok ⟨⟨id, size, kind⟩, first, n⟩ := by
  subst hk hf hs
  unfold Fat16.decodeChain
  generalize entryKind e = kind, entryFirst e = first, entrySize e = size at h
  cases h with
  | directory hc hl =>
    dsimp only
    rw [if_pos rfl, if_neg (not_not.mpr rfl), hc]
    exact if_neg (Nat.not_lt.mpr hl)
  | empty => rfl
  | file hne hc =>
    obtain ⟨cs, hcs, hlen⟩ := fat16Chain_ok_iff.mp hc
    have hle : ¬clustersFor g size > g.clusters := by
      rw [← hlen]
      exact Nat.not_lt.mpr hcs.length_le
    dsimp only
    rw [if_neg nofun, if_neg hne, if_neg hle, hc]
    exact if_pos rfl

lemma shortName_makeEntry (hc : fsNameCheck name = .ok ()) (hu : name.map upper = name) :
    shortName (makeEntry name dir first size) = .ok name := by
  obtain ⟨stem, ext, hs⟩ := nameShape_of_check hc
  exact shortName_eq hc hu hs fun j hj => makeEntry_name_bytes hs hj

/-- **Entries round-trip.** The entry made for an upper-case name, with a chain that is valid for it, is decoded to the
same name, kind, size and first cluster. It is no end marker, deleted slot, dot entry, label or long-name slot, and the
name bytes of different names differ. -/
theorem makeEntry_round_trips :
    (∀ (g : Geometry) (fat : Mem) (name : Name) (kind : FsKind) (first size length id : Nat),
      fsNameCheck name = .ok () → name.map upper = name → size < 2 ^ 32 → ChainFor g fat kind first size length →
      let e := makeEntry name (kind = .directory) first size
      decode g fat e id = .ok (⟨⟨id, size, kind⟩, first, length⟩, name) ∧ e 0 ≠ 0 ∧ e 0 ≠ 0xe5 ∧ e 0 ≠ dotByte ∧
        attr e &&& 8 = 0 ∧ attr e ≠ 0x0f) ∧
    ∀ (name name' : Name) (dir dir' : Bool) (first first' size size' : Nat), fsNameCheck name = .ok () →
      fsNameCheck name' = .ok () → name.map upper = name → name'.map upper = name' →
      (∀ j < 11, makeEntry name dir first size j = makeEntry name' dir' first' size' j) → name = name' := by
  refine ⟨fun g fat name kind first size length id hc hu hs h => ?_, fun name name' _ _ _ _ _ _ hc hc' hu hu' he => ?_⟩
  · obtain ⟨stem, ext, hn⟩ := nameShape_of_check hc
    obtain ⟨h0, h1, h2⟩ := makeEntry_zero first size (kind = .directory) hn
    have hattr : attr (makeEntry name (kind = .directory) first size) = _ := makeEntry_attr hn
    have hkind : entryKind (makeEntry name (kind = .directory) first size) = kind := by
      rw [makeEntry_kind hn]
      cases kind <;> rfl
    refine ⟨?_, h0, h1, h2, ?_, ?_⟩
    · rw [decode_eq, makeEntry_entryName hc hu, h.decodeChain hkind (makeEntry_first h.first_lt) (makeEntry_size hs)]
    · rw [hattr]
      cases kind <;> rfl
    · rw [hattr]
      cases kind <;> decide
  · have h' := shortName_congr he
    rw [shortName_makeEntry hc hu, shortName_makeEntry hc' hu'] at h'
    cases h'
    rfl

/-- The empty file `A`. -/
theorem makeEntry_round_trips_empty :
    decode smallGeometry (fun _ => 0) (makeEntry [65] false 0 0) 2 = .ok (⟨⟨2, 0, .file⟩, 0, 0⟩, [65]) :=
  (makeEntry_round_trips.1 smallGeometry (fun _ => 0) [65] .file 0 0 0 2 rfl rfl (by decide) .empty).1

/-! ## What decoding establishes -/

lemma decodeChain_holds (h : decodeChain x.geo x.fat e id = .ok d) : ∃ cs, x.Holds e cs ∧
    d = Image.describes e id cs := by
  unfold decodeChain at h
  dsimp only at h
  by_cases hk : entryKind e = .directory
  · rw [if_pos hk] at h
    by_cases hs : entrySize e = 0
    · rw [if_neg (not_not.mpr hs)] at h
      cases hc : fat16Chain x.geo x.fat (entryFirst e) with
      | error r => simp [hc] at h
      | ok n =>
        obtain ⟨cs, hcs, rfl⟩ := fat16Chain_ok_iff.mp hc
        simp only [hc] at h
        split at h
        · cases h
        · cases h
          exact ⟨cs, .directory hk hs hcs, rfl⟩
    · rw [if_pos hs] at h
      cases h
  · have hfile : entryKind e = .file := by
      cases hkind : entryKind e with
      | file => rfl
      | directory => exact absurd hkind hk
    rw [if_neg hk] at h
    by_cases hs : entrySize e = 0
    · rw [if_pos hs] at h
      split at h
      · cases h
      · rename_i hfirst
        cases h
        exact ⟨[], .empty hfile hs (not_not.mp hfirst), rfl⟩
    · rw [if_neg hs] at h
      split at h
      · cases h
      · cases hc : fat16Chain x.geo x.fat (entryFirst e) with
        | error r => simp [hc] at h
        | ok n =>
          obtain ⟨cs, hcs, rfl⟩ := fat16Chain_ok_iff.mp hc
          simp only [hc] at h
          split at h
          · rename_i hlen
            cases h
            exact ⟨cs, .file hfile hs hcs hlen, rfl⟩
          · cases h

lemma decode_holds (h : decode x.geo x.fat e id = .ok (d, name)) :
    ∃ cs, x.Holds e cs ∧ d = Image.describes e id cs ∧ Image.tooLong x.geo e cs.length = false := by
  rw [decode_eq] at h
  cases hn : entryName e with
  | error r => simp [hn] at h
  | ok n =>
    cases hc : decodeChain x.geo x.fat e id with
    | error r => simp [hn, hc] at h
    | ok o =>
      simp only [hn, hc, Except.ok.injEq, Prod.mk.injEq] at h
      obtain ⟨rfl, -⟩ := h
      obtain ⟨cs, hh, hd⟩ := decodeChain_holds hc
      refine ⟨cs, hh, hd, ?_⟩
      by_contra hlong
      rw [hh.decodeChain, if_pos (by simpa using hlong)] at hc
      cases hc

/-! ## What is read is what would be written -/

lemma namePart_ok (h : namePart e start n = .ok part) : part = (List.range n).map fun k => upper (e (start + k)) := by
  induction n generalizing part with
  | zero =>
    cases h
    rfl
  | succ n ih =>
    rw [namePart] at h
    cases hp : namePart e start n with
    | error r => simp [hp] at h
    | ok front =>
      simp only [hp] at h
      split at h
      · cases h
      · cases h
        rw [ih hp, List.range_succ, List.map_append]
        rfl

lemma trimmed_le : trimmed e start n ≤ n := by
  induction n with
  | zero => exact Nat.le_refl 0
  | succ n ih =>
    rw [trimmed]
    split
    · exact Nat.le_succ_of_le ih
    · exact Nat.le_refl _

lemma trimmed_padding {k : Nat} (hk : trimmed e start n ≤ k) (hn : k < n) : e (start + k) = 32 := by
  induction n with
  | zero => exact absurd hn (Nat.not_lt_zero k)
  | succ n ih =>
    rw [trimmed] at hk
    split at hk
    · rename_i h32
      rcases Nat.lt_succ_iff_lt_or_eq.mp hn with hlt | rfl
      · exact ih hk hlt
      · exact h32
    · omega

lemma field_getD (h : namePart e start (trimmed e start n) = .ok part) {k : Nat} (hk : k < n) :
    part.getD k 32 = upper (e (start + k)) := by
  rw [namePart_ok h]
  by_cases ht : k < trimmed e start n
  · rw [List.getD_eq_getElem _ _ (by simpa using ht)]
    simp
  · rw [List.getD_eq_default _ _ (by simpa using ht), trimmed_padding (Nat.not_lt.mp ht) hk]
    rfl

lemma split_at_dot (hs : ∀ c ∈ stem, c ≠ dotByte) (hp : ∀ c ∈ part, c ≠ dotByte)
    (he : stem ++ dotByte :: rest = part ++ dotByte :: rest') : stem = part ∧ rest = rest' := by
  induction stem generalizing part with
  | nil =>
    cases part with
    | nil => exact ⟨rfl, (List.cons.inj he).2⟩
    | cons c part => exact absurd (List.cons.inj he).1.symm (hp c List.mem_cons_self)
  | cons c stem ih =>
    cases part with
    | nil => exact absurd (List.cons.inj he).1 (hs c List.mem_cons_self)
    | cons c' part =>
      obtain ⟨rfl, he'⟩ := List.cons.inj he
      obtain ⟨rfl, hr⟩ := ih (fun x hx => hs x (List.mem_cons_of_mem _ hx))
        (fun x hx => hp x (List.mem_cons_of_mem _ hx)) he'
      exact ⟨rfl, hr⟩

lemma shortName_ok (h : shortName e = .ok name) : ∃ stem ext, namePart e 0 (trimmed e 0 8) = .ok stem ∧
    namePart e 8 (trimmed e 8 3) = .ok ext ∧ name = stem ++ (if ext = [] then [] else dotByte :: ext) ∧
    fsNameCheck name = .ok () := by
  unfold shortName at h
  split at h
  · cases h
  · cases hs : namePart e 0 (trimmed e 0 8) with
    | error r => simp [hs] at h
    | ok stem =>
      cases hx : namePart e 8 (trimmed e 8 3) with
      | error r => simp [hs, hx] at h
      | ok ext =>
        have hz : trimmed e 8 3 = 0 ↔ ext = [] := by
          rw [namePart_ok hx, List.map_eq_nil_iff, List.range_eq_nil]
        simp only [hs, hx, hz] at h
        by_cases hc : fsNameCheck (stem ++ if ext = [] then [] else dotByte :: ext) = .ok ()
        · rw [if_pos hc] at h
          cases h
          exact ⟨stem, ext, rfl, rfl, rfl, hc⟩
        · rw [if_neg hc] at h
          cases h

lemma nameShape_parts (h : NameShape name stem ext) (hs : ∀ c ∈ part, c ≠ dotByte)
    (he : name = part ++ (if rest = [] then [] else dotByte :: rest)) : part = stem ∧ rest = ext := by
  have hstem : ∀ c ∈ stem, c ≠ dotByte := fun c hc => (h.stem_valid c hc).2
  have heq := he.symm.trans h.name_eq
  -- the dot stands on both sides or on neither
  by_cases hr : rest = []
  · by_cases hx : ext = []
    · rw [if_pos hr, if_pos hx, List.append_nil, List.append_nil] at heq
      exact ⟨heq, hr.trans hx.symm⟩
    · rw [if_pos hr, if_neg hx, List.append_nil] at heq
      exact absurd rfl (hs dotByte (by simp [heq]))
  · by_cases hx : ext = []
    · rw [if_neg hr, if_pos hx, List.append_nil] at heq
      exact absurd rfl (hstem dotByte (by simp [← heq]))
    · rw [if_neg hr, if_neg hx] at heq
      exact split_at_dot hs hstem heq

lemma decode_shortName {d : Description} (h : decode g fat e id = .ok (d, name)) : shortName e = .ok name := by
  obtain ⟨hn, -⟩ := decode_ok h
  unfold entryName at hn
  repeat' split at hn
  all_goals cases hn
  assumption

lemma makeEntry_of_shortName (h : shortName e = .ok name) (hd : ∀ j < 8, e j ≠ dotByte) {j : Nat} (hj : j < 11) :
    makeEntry name dir first size j = upper (e j) := by
  obtain ⟨part, rest, hp, hr, he, hc⟩ := shortName_ok h
  obtain ⟨stem, ext, hs⟩ := nameShape_of_check hc
  have hplain : ∀ c ∈ part, c ≠ dotByte := by
    rw [namePart_ok hp]
    intro c hm
    obtain ⟨k, hk, rfl⟩ := List.mem_map.mp hm
    have hk8 := (List.mem_range.mp hk).trans_le trimmed_le
    rw [ne_eq, upper_eq_dot, Nat.zero_add]
    exact hd k hk8
  obtain ⟨rfl, rfl⟩ := nameShape_parts hs hplain he
  rw [makeEntry_name_bytes hs hj, nameField]
  split
  · rename_i h8
    rw [field_getD hp h8, Nat.zero_add]
  · rw [field_getD hr (by omega), show 8 + (j - 8) = j by omega]

lemma makeEntry_ne_dot (hc : fsNameCheck name = .ok ()) {j : Nat} (hj : j < 8) :
    makeEntry name dir first size j ≠ dotByte := by
  obtain ⟨stem, ext, hs⟩ := nameShape_of_check hc
  rw [makeEntry_name_bytes hs (by omega), nameField, if_pos hj]
  by_cases hl : j < stem.length
  · rw [List.getD_eq_getElem _ _ hl]
    exact (hs.stem_valid _ (List.getElem_mem hl)).2
  · rw [List.getD_eq_default _ _ (Nat.not_lt.mp hl)]
    decide

/-- **Decoded names are canonical**, exactly when the first name field has no dot: then the name bytes of the slot are
those of the entry made for its name, up to letter case, and two such slots of one name have the same name bytes. -/
theorem decoded_name_canonical (g : Geometry) (fat : Mem) (e : Entry) (id : Nat) (d : Description) (name : Name) :
    (∀ (dir : Bool) (first size : Nat), decode g fat e id = .ok (d, name) →
      ((∀ j < 11, makeEntry name dir first size j = upper (e j)) ↔ ∀ j < 8, e j ≠ dotByte)) ∧
    ∀ (g' : Geometry) (fat' : Mem) (e' : Entry) (id' : Nat) (d' : Description),
      decode g fat e id = .ok (d, name) → decode g' fat' e' id' = .ok (d', name) → (∀ j < 8, e j ≠ dotByte) →
      (∀ j < 8, e' j ≠ dotByte) → ∀ j < 11, upper (e j) = upper (e' j) := by
  refine ⟨fun dir first size h => ⟨fun he j hj hd => ?_, fun hd j hj => ?_⟩,
    fun g' fat' e' id' d' h h' hd hd' j hj => ?_⟩
  · obtain ⟨-, -, -, -, -, hc⟩ := shortName_ok (decode_shortName h)
    have hne : makeEntry name dir first size j ≠ dotByte := makeEntry_ne_dot hc hj
    apply hne
    rw [he j (by omega), upper_eq_dot]
    exact hd
  · exact makeEntry_of_shortName (decode_shortName h) hd hj
  · have h1 : makeEntry name false 0 0 j = upper (e j) := makeEntry_of_shortName (decode_shortName h) hd hj
    exact h1.symm.trans (makeEntry_of_shortName (decode_shortName h') hd' hj)

/-- The slot of an empty file whose first name field is `A.B`. -/
def dottedSlot : Entry := fun j =>
    if j = 0 then 65 else if j = 1 then dotByte else if j = 2 then 66 else if j < 11 then 32 else 0

/-- The slot of an empty file with the fields `A` and `B`. -/
def plainSlot : Entry := fun j => if j = 0 then 65 else if j = 8 then 66 else if j < 11 then 32 else 0

/-- Its name encodes its bytes. -/
theorem decoded_name_canonical_plain : ∀ j < 11, makeEntry [65, dotByte, 66] false 0 0 j = upper (plainSlot j) :=
  ((decoded_name_canonical smallGeometry (fun _ => 0) plainSlot 3 _ _).1 false 0 0 rfl).mpr (by decide)

/-- Two slots with different name bytes are both read as the file `A.B`. -/
theorem dotted_slot_decodes :
    decode smallGeometry (fun _ => 0) dottedSlot 2 = .ok (⟨⟨2, 0, .file⟩, 0, 0⟩, [65, dotByte, 66]) ∧
    decode smallGeometry (fun _ => 0) plainSlot 3 = .ok (⟨⟨3, 0, .file⟩, 0, 0⟩, [65, dotByte, 66]) ∧
    makeEntry [65, dotByte, 66] false 0 0 1 ≠ upper (dottedSlot 1) ∧ upper (dottedSlot 1) ≠ upper (plainSlot 1) := by
  refine ⟨rfl, rfl, by decide, by decide⟩

end RumKernel.Fat16
