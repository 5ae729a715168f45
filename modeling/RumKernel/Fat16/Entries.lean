import RumKernel.Fat16.Steps

/-!
# The entries the driver writes

`make_entry` spells a checked name so that `short_name` reads it back, `rewrite` changes the size and the
chain of an entry and nothing else a search looks at, and the dot entries of a new directory pass the audit.
-/

namespace RumKernel.Fat16
open Lib Fs

variable {e e' : Entry} {name : Name} {stem ext l : List Byte} {first size start j n : Nat} {dir : Bool}

/-! ## Names -/

/-- The eleven name bytes of an entry, padded with spaces. -/
def nameField (stem ext : List Byte) : Mem := fun j =>
  if j < 8 then stem.getD j 32 else if j < 11 then ext.getD (j - 8) 32 else 0

lemma putName_plain (hl : ∀ c ∈ l, c ≠ dotByte) : putName l start e j =
    if start ≤ j ∧ j < start + l.length then l.getD (j - start) 32 else e j := by
  induction l generalizing start e with
  | nil => rw [putName, if_neg (by simp)]
  | cons c l ih =>
    rw [putName, if_neg (hl c List.mem_cons_self), ih fun x hx => hl x (List.mem_cons_of_mem _ hx)]
    rcases Nat.lt_trichotomy j start with h | rfl | h
    · rw [if_neg (by omega), if_neg (by omega), if_neg (by omega)]
    · rw [if_neg (by omega), if_pos rfl, if_pos (by simp), Nat.sub_self]
      rfl
    · by_cases hlt : j < start + 1 + l.length
      · rw [if_pos (by omega), if_pos (by simp only [List.length_cons]; omega),
          show j - start = (j - (start + 1)) + 1 by omega]
        rfl
      · rw [if_neg (by omega), if_neg (by omega), if_neg (by simp only [List.length_cons]; omega)]

lemma putName_append {rest : Name} (hl : ∀ c ∈ l, c ≠ dotByte) :
    putName (l ++ rest) start e = putName rest (start + l.length) (putName l start e) := by
  induction l generalizing start e with
  | nil => rfl
  | cons c l ih =>
    have hc := hl c List.mem_cons_self
    rw [List.cons_append, putName, if_neg hc, ih fun x hx => hl x (List.mem_cons_of_mem _ hx), putName,
      if_neg hc, List.length_cons, Nat.add_assoc, Nat.add_comm 1]

lemma putName_eq (h : NameShape name stem ext) :
    putName name 0 (fun j => if j < 11 then 32 else 0) = nameField stem ext := by
  have hs : ∀ c ∈ stem, c ≠ dotByte := fun c hc => (h.stem_valid c hc).2
  have hx : ∀ c ∈ ext, c ≠ dotByte := fun c hc => (h.ext_valid c hc).2
  have h8 := h.stem_le
  have h3 := h.ext_le
  have hstem : putName stem 0 (fun j => if j < 11 then 32 else 0) = nameField stem [] := by
    funext j
    rw [putName_plain hs]
    unfold nameField
    by_cases hj : j < stem.length
    · rw [if_pos (by omega), if_pos (by omega), Nat.sub_zero]
    · rw [if_neg (by omega)]
      by_cases h8' : j < 8
      · rw [if_pos (by omega), if_pos h8', List.getD_eq_default _ _ (by omega)]
      · rw [if_neg h8']
        simp
  rw [h.name_eq]
  by_cases hne : ext = []
  · rw [if_pos hne, List.append_nil, hstem, hne]
  · rw [if_neg hne, putName_append hs, putName, if_pos rfl, hstem]
    funext j
    rw [putName_plain hx]
    unfold nameField
    by_cases h8' : j < 8
    · rw [if_neg (by omega), if_pos h8', if_pos h8']
    · rw [if_neg h8', if_neg h8']
      by_cases hj : j < 8 + ext.length
      · rw [if_pos (by omega), if_pos (by omega)]
      · rw [if_neg (by omega)]
        by_cases h11 : j < 11
        · rw [if_pos h11, if_pos h11, List.getD_nil, List.getD_eq_default _ _ (by omega)]
        · rw [if_neg h11, if_neg h11]

lemma validByte_ne {c : Byte} (h : validByte c = true) : c ≠ 32 ∧ c ≠ 0 ∧ c ≠ 0xe5 := by
  refine ⟨?_, ?_, ?_⟩ <;> rintro rfl <;> revert h <;> decide

lemma trimmed_eq (hl : ∀ c ∈ l, validByte c = true) (hn : l.length ≤ n)
    (he : ∀ k < n, e (start + k) = l.getD k 32) : trimmed e start n = l.length := by
  induction n with
  | zero => exact (Nat.le_zero.mp hn).symm
  | succ n ih =>
    rw [trimmed, he n (by omega)]
    by_cases hlen : l.length ≤ n
    · rw [if_pos (List.getD_eq_default _ _ hlen)]
      exact ih hlen fun k hk => he k (by omega)
    · rw [List.getD_eq_getElem _ _ (by omega), if_neg (validByte_ne (hl _ (List.getElem_mem _))).1]
      omega

lemma namePart_eq (hl : ∀ c ∈ l, validByte c = true) (hn : n ≤ l.length)
    (he : ∀ k < n, e (start + k) = l.getD k 32) : namePart e start n = .ok ((l.take n).map upper) := by
  induction n with
  | zero => rfl
  | succ n ih =>
    have hv := validByte_ne (hl l[n] (List.getElem_mem _))
    rw [namePart, ih (by omega) fun k hk => he k (by omega)]
    simp only
    rw [he n (by omega), List.getD_eq_getElem _ _ (by omega), if_neg (by simp [hv.1, hv.2.1]),
      List.take_add_one, List.getElem?_eq_getElem (by omega), Option.toList_some, List.map_append]
    rfl

lemma shortName_congr (h : ∀ j < 11, e' j = e j) : shortName e' = shortName e := by
  have ht : ∀ start n, start + n ≤ 11 → trimmed e' start n = trimmed e start n := by
    intro start n hn
    induction n with
    | zero => rfl
    | succ n ih => rw [trimmed, trimmed, h _ (by omega), ih (by omega)]
  have hp : ∀ start n, start + n ≤ 11 → namePart e' start n = namePart e start n := by
    intro start n hn
    induction n with
    | zero => rfl
    | succ n ih => rw [namePart, namePart, h _ (by omega), ih (by omega)]
  have hle : ∀ start n, trimmed e start n ≤ n := by
    intro start n
    induction n with
    | zero => exact Nat.le_refl _
    | succ n ih =>
      rw [trimmed]
      split
      · omega
      · exact Nat.le_refl _
  have h8 := hle 0 8
  have h3 := hle 8 3
  unfold shortName
  rw [ht 0 8 (by omega), ht 8 3 (by omega), hp 0 _ (by omega), hp 8 _ (by omega)]

lemma shortName_eq (hc : fsNameCheck name = .ok ()) (hu : name.map upper = name)
    (h : NameShape name stem ext) (he : ∀ j < 11, e j = nameField stem ext j) : shortName e = .ok name := by
  have hs : ∀ c ∈ stem, validByte c = true := fun c hc => (h.stem_valid c hc).1
  have hx : ∀ c ∈ ext, validByte c = true := fun c hc => (h.ext_valid c hc).1
  have h8 := h.stem_le
  have h3 := h.ext_le
  have hp := List.length_pos_iff.mpr h.stem_pos
  have es : ∀ k < 8, e (0 + k) = stem.getD k 32 := fun k hk => by
    rw [he _ (by omega), nameField, if_pos (by omega), Nat.zero_add]
  have ex : ∀ k < 3, e (8 + k) = ext.getD k 32 := fun k hk => by
    rw [he _ (by omega), nameField, if_neg (by omega), if_pos (by omega), Nat.add_sub_cancel_left]
  have e1 := trimmed_eq hs h8 es
  have e2 := trimmed_eq hx h3 ex
  unfold shortName
  rw [e1, e2, if_neg (by omega), namePart_eq hs (Nat.le_refl _) fun k hk => es k (by omega),
    namePart_eq hx (Nat.le_refl _) fun k hk => ex k (by omega)]
  simp only [List.take_length, List.length_eq_zero_iff]
  have e3 : stem.map upper ++ (if ext = [] then [] else dotByte :: ext.map upper) = name := by
    conv_rhs => rw [← hu, h.name_eq]
    by_cases hne : ext = []
    · simp [hne]
    · simp [hne, upper, dotByte]
  rw [e3, if_pos hc]

lemma entryName_congr (h : ∀ j < 11, e' j = e j) (h8 : attr e' &&& 8 = attr e &&& 8)
    (hc : attr e' &&& 0xc0 = attr e &&& 0xc0) (hw : u16 e' 20 = u16 e 20) : entryName e' = entryName e := by
  unfold entryName
  rw [h 0 (by omega), h 1 (by omega), h 2 (by omega), h8, hc, hw, shortName_congr h]

/-! ## `make_entry` -/

section make

section
variable (h : NameShape name stem ext)
include h

lemma makeEntry_apply (hj : j < 16) : makeEntry name dir first size j =
    if j = 11 then (if dir then 0x10 else 0x20) else nameField stem ext j := by
  unfold makeEntry
  rw [put32_apply_other (by omega), put16_apply_other (by omega) (by omega), put16_apply_other (by omega) (by omega),
    put16_apply_other (by omega) (by omega), put16_apply_other (by omega) (by omega), putName_eq h]

lemma makeEntry_name_bytes (hj : j < 11) : makeEntry name dir first size j = nameField stem ext j := by
  rw [makeEntry_apply h (by omega), if_neg (by omega)]

lemma makeEntry_attr : attr (makeEntry name dir first size) = if dir then 0x10 else 0x20 := by
  unfold attr
  rw [makeEntry_apply h (by omega), if_pos rfl]

lemma makeEntry_unused (hj : 20 ≤ j ∧ j < 22 ∨ 32 ≤ j) : makeEntry name dir first size j = 0 := by
  unfold makeEntry
  rw [put32_apply_other (by omega), put16_apply_other (by omega) (by omega), put16_apply_other (by omega) (by omega),
    put16_apply_other (by omega) (by omega), put16_apply_other (by omega) (by omega), putName_eq h,
    if_neg (by omega), nameField, if_neg (by omega), if_neg (by omega)]

lemma makeEntry_high : u16 (makeEntry name dir first size) 20 = 0 := by
  unfold u16
  rw [makeEntry_unused h (by omega), makeEntry_unused h (by omega)]
  rfl

lemma makeEntry_clipped : slice (makeEntry name dir first size) 0 32 = makeEntry name dir first size := by
  funext j
  unfold slice
  split
  · rw [Nat.zero_add]
  · exact (makeEntry_unused h (by omega)).symm

end

lemma makeEntry_first (hf : first < 65536) : entryFirst (makeEntry name dir first size) = first := by
  unfold entryFirst makeEntry
  rw [u16_congr (put32_apply_other (by omega)) (put32_apply_other (by omega)), u16_put16_same hf]

lemma makeEntry_size (hs : size < 4294967296) : entrySize (makeEntry name dir first size) = size :=
  u32_put32_same hs

lemma makeEntry_kind (h : NameShape name stem ext) :
    entryKind (makeEntry name dir first size) = if dir then .directory else .file := by
  unfold entryKind
  rw [makeEntry_attr h]
  cases dir <;> rfl

variable (first size dir) in
lemma makeEntry_zero (h : NameShape name stem ext) : makeEntry name dir first size 0 ≠ 0 ∧
    makeEntry name dir first size 0 ≠ 0xe5 ∧ makeEntry name dir first size 0 ≠ dotByte := by
  have hp := List.length_pos_iff.mpr h.stem_pos
  have hv := h.stem_valid stem[0] (List.getElem_mem _)
  rw [makeEntry_name_bytes h (by omega), nameField, if_pos (by omega), List.getD_eq_getElem _ _ hp]
  exact ⟨(validByte_ne hv.1).2.1, (validByte_ne hv.1).2.2, hv.2⟩

lemma makeEntry_live (h : NameShape name stem ext) : liveEntry (makeEntry name dir first size) = true := by
  unfold liveEntry
  rw [makeEntry_attr h]
  have h5 := (makeEntry_zero first size dir h).2.1
  cases dir <;> simp [h5] <;> decide

lemma makeEntry_entryName (hc : fsNameCheck name = .ok ()) (hu : name.map upper = name) :
    entryName (makeEntry name dir first size) = .ok name := by
  obtain ⟨stem, ext, h⟩ := nameShape_of_check hc
  obtain ⟨h0, h5, hd⟩ := makeEntry_zero first size dir h
  unfold entryName
  rw [shortName_eq hc hu h fun j hj => makeEntry_name_bytes h hj, makeEntry_attr h, makeEntry_high h]
  have h8 : (if dir = true then 0x10 else 0x20 : Byte) &&& 8 = 0 := by cases dir <;> decide
  have hc0 : (if dir = true then 0x10 else 0x20 : Byte) &&& 0xc0 = 0 := by cases dir <;> decide
  simp [h0, h5, hd, h8, hc0]

end make

/-! ## Changed and deleted entries -/

section change

lemma rewriteEntry_apply (hj : j < 26 ∨ 32 ≤ j) (h11 : j ≠ 11) : rewriteEntry e first size j = e j := by
  unfold rewriteEntry
  rw [if_neg h11, put32_apply_other (by omega), put16_apply_other (by omega) (by omega)]

lemma rewriteEntry_clipped (h : slice e 0 32 = e) :
    slice (rewriteEntry e first size) 0 32 = rewriteEntry e first size := by
  funext j
  by_cases hj : j < 32
  · rw [slice_apply hj, Nat.zero_add]
  · rw [rewriteEntry_apply (by omega) (by omega), ← h]
    simp [slice, hj]

lemma rewriteEntry_attr {mask : Byte} (hm : (0x20 : Byte) &&& mask = 0) :
    attr (rewriteEntry e first size) &&& mask = attr e &&& mask :=
  byte_or_and hm

lemma rewriteEntry_kind : entryKind (rewriteEntry e first size) = entryKind e := by
  unfold entryKind
  rw [rewriteEntry_attr (by decide)]

lemma rewriteEntry_live : liveEntry (rewriteEntry e first size) = liveEntry e := by
  unfold liveEntry
  rw [rewriteEntry_attr (by decide), rewriteEntry_apply (by omega) (by omega)]

lemma rewriteEntry_first (hf : first < 65536) : entryFirst (rewriteEntry e first size) = first := by
  have h : ∀ j, j ≠ 11 → j < 28 → rewriteEntry e first size j = put16 e 26 first j := by
    intro j h1 h2
    unfold rewriteEntry
    rw [if_neg h1, put32_apply_other (by omega)]
  unfold entryFirst
  rw [u16_congr (h 26 (by omega) (by omega)) (h 27 (by omega) (by omega)), u16_put16_same hf]

lemma rewriteEntry_size (hs : size < 4294967296) : entrySize (rewriteEntry e first size) = size := by
  have h : ∀ j, 28 ≤ j → rewriteEntry e first size j = put32 (put16 e 26 first) 28 size j := by
    intro j h1
    unfold rewriteEntry
    rw [if_neg (by omega)]
  unfold entrySize
  rw [u32_congr fun j _ => h (28 + j) (by omega), u32_put32_same hs]

lemma rewriteEntry_entryName : entryName (rewriteEntry e first size) = entryName e :=
  entryName_congr (fun j hj => rewriteEntry_apply (by omega) (by omega)) (rewriteEntry_attr (by decide))
    (rewriteEntry_attr (by decide))
    (u16_congr (rewriteEntry_apply (by omega) (by omega)) (rewriteEntry_apply (by omega) (by omega)))

lemma deletedEntry_clipped (h : slice e 0 32 = e) : slice (deletedEntry e) 0 32 = deletedEntry e := by
  funext j
  by_cases hj : j < 32
  · rw [slice_apply hj, Nat.zero_add]
  · unfold deletedEntry
    rw [if_neg (by omega), ← h]
    simp [slice, hj]

lemma deletedEntry_live : liveEntry (deletedEntry e) = false := rfl

end change

/-! ## Dot entries -/

lemma dotsOk_slice {parent : Bool} : dotsOk (slice e 0 32) parent n = dotsOk e parent n := by
  have hs : ∀ j < 32, slice e 0 32 j = e j := fun j hj => by rw [slice_apply hj, Nat.zero_add]
  have hall : ((List.range 9).all fun i => slice e 0 32 (i + 2) == 32) =
      (List.range 9).all fun i => e (i + 2) == 32 := by
    rw [Bool.eq_iff_iff, List.all_eq_true, List.all_eq_true]
    refine forall₂_congr fun i hi => ?_
    rw [hs _ (by have := List.mem_range.mp hi; omega)]
  unfold dotsOk dotEntry attr entryFirst entrySize u32 u16
  rw [hall]
  simp only [hs, Nat.reduceAdd, Nat.reduceLT]

lemma dotSlot_ok {parent : Bool} (hf : first < 65536) : dotsOk (dotSlot parent first) parent first = true := by
  have hlo : ∀ j < 16, dotSlot parent first j =
      if j = 0 ∨ (parent = true ∧ j = 1) then dotByte else if j < 11 then 32 else if j = 11 then 0x10 else 0 := by
    intro j hj
    unfold dotSlot
    rw [put16_apply_other (by omega) (by omega), put16_apply_other (by omega) (by omega),
      put16_apply_other (by omega) (by omega), put16_apply_other (by omega) (by omega)]
  have hhi : ∀ j, j = 20 ∨ j = 21 ∨ 28 ≤ j → dotSlot parent first j = 0 := by
    intro j hj
    unfold dotSlot
    rw [put16_apply_other (by omega) (by omega), put16_apply_other (by omega) (by omega),
      put16_apply_other (by omega) (by omega), put16_apply_other (by omega) (by omega), if_neg (by omega),
      if_neg (by omega), if_neg (by omega)]
  have hfirst : entryFirst (dotSlot parent first) = first := by
    unfold entryFirst dotSlot
    rw [u16_put16_other (by omega), u16_put16_other (by omega), u16_put16_other (by omega), u16_put16_same hf]
  have hsize : entrySize (dotSlot parent first) = 0 := by
    simp [entrySize, u32, u16, hhi]
  have hpad : (List.range 9).all (fun i => dotSlot parent first (i + 2) == 32) = true := by
    rw [List.all_eq_true]
    intro i hi
    have hi := List.mem_range.mp hi
    rw [hlo _ (by omega), if_neg (by omega), if_pos (by omega)]
    rfl
  unfold dotsOk dotEntry attr
  rw [hfirst, hsize, hpad, hlo 0 (by omega), hlo 1 (by omega), hlo 11 (by omega)]
  simp only [u16, hhi 20 (by omega), hhi 21 (by omega)]
  cases parent <;> simp

end RumKernel.Fat16
