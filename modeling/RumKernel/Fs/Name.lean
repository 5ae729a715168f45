import RumKernel.Fs.Types

/-!
# Component names

`fs_name_check` of `path.c`: the 8.3 names shared by the namespace and the FAT16 backend.
-/

namespace RumKernel.Fs
open Lib

variable {name : Name}

/-- The byte `.`. -/
def dotByte : Byte := 46

/-- The byte `/`. -/
def slashByte : Byte := 47

/-- Upper-case an ASCII letter. -/
def upper (c : Byte) : Byte := if 97 ≤ c ∧ c ≤ 122 then c - 32 else c

/-- `valid_byte`: letters, digits, `.`, `_` and `-`. -/
def validByte (c : Byte) : Bool :=
  (97 ≤ c && c ≤ 122) || (65 ≤ c && c ≤ 90) || (48 ≤ c && c ≤ 57) || c == dotByte || c == 95 || c == 45

/-- The loop of `fs_name_check` at index `i`, with `base` and `extension` bytes counted so far. -/
def nameLoop : List Byte → Nat → Nat → Nat → Bool → Except FsError Unit
  | [], _, _, extension, dot => if dot && extension == 0 then .error .invalid else .ok ()
  | c :: rest, i, base, extension, dot =>
    if i ≥ nameCapacity - 1 then .error .nameTooLong
    else if !validByte c then .error .invalid
    else if c == dotByte then
      if dot || base == 0 then .error .invalid else nameLoop rest (i + 1) base extension true
    else if dot then
      if extension + 1 > 3 then .error .nameTooLong else nameLoop rest (i + 1) base (extension + 1) dot
    else if base + 1 > 8 then .error .nameTooLong
    else nameLoop rest (i + 1) (base + 1) extension dot

/-- `fs_name_check` with `FS_NAMES_FAT83`, the only naming there is. -/
def fsNameCheck (name : Name) : Except FsError Unit :=
  if name = [] ∨ name = [dotByte] ∨ name = [dotByte, dotByte] then .error .invalid
  else nameLoop name 0 0 0 false

/-- The names `fs_name_check` accepts: 1 to 8 bytes, then optionally `.` and 1 to 3 bytes. -/
structure NameShape (name : Name) (stem ext : List Byte) : Prop where
  name_eq : name = stem ++ (if ext = [] then [] else dotByte :: ext)
  stem_pos : stem ≠ []
  stem_le : stem.length ≤ 8
  ext_le : ext.length ≤ 3
  stem_valid : ∀ c ∈ stem, validByte c = true ∧ c ≠ dotByte
  ext_valid : ∀ c ∈ ext, validByte c = true ∧ c ≠ dotByte

lemma nameLoop_ext {rest i base extension} (h : nameLoop rest i base extension true = .ok ()) :
    (∀ c ∈ rest, validByte c = true ∧ c ≠ dotByte) ∧ extension + rest.length ≤ max extension 3 ∧
      extension + rest.length ≠ 0 := by
  induction rest generalizing i extension with
  | nil =>
    simp only [nameLoop, Bool.true_and] at h
    split at h
    · cases h
    · rename_i hne
      simp at hne
      simp [hne]
  | cons c rest ih =>
    simp only [nameLoop] at h
    split at h <;> try cases h
    split at h <;> try cases h
    split at h
    · simp at h
    · rename_i hv hd
      simp only [if_true] at h
      split at h <;> try cases h
      obtain ⟨h1, h2, h3⟩ := ih h
      refine ⟨?_, ?_, ?_⟩
      · intro x hx
        rcases List.mem_cons.mp hx with rfl | hx
        · exact ⟨by simpa using hv, by simpa using hd⟩
        · exact h1 x hx
      · simp only [List.length_cons]; omega
      · simp

lemma nameLoop_base {rest i base} (h : nameLoop rest i base 0 false = .ok ()) :
    ∃ stem ext, rest = stem ++ (if ext = [] then [] else dotByte :: ext) ∧
      (∀ c ∈ stem, validByte c = true ∧ c ≠ dotByte) ∧ (∀ c ∈ ext, validByte c = true ∧ c ≠ dotByte) ∧
      base + stem.length ≤ max base 8 ∧ ext.length ≤ 3 ∧ (ext ≠ [] → base + stem.length ≠ 0) := by
  induction rest generalizing i base with
  | nil => exact ⟨[], [], by simp, by simp, by simp, by simp, by simp, by simp⟩
  | cons c rest ih =>
    simp only [nameLoop] at h
    split at h <;> try cases h
    split at h <;> try cases h
    split at h
    · rename_i hd
      split at h <;> try cases h
      rename_i hb
      simp only [Bool.false_or, beq_iff_eq] at hb hd
      obtain ⟨h1, h2, h3⟩ := nameLoop_ext h
      have hne : rest ≠ [] := by rintro rfl; simp at h3
      refine ⟨[], rest, ?_, by simp, h1, by simp, by omega, fun _ => by simpa using hb⟩
      simp [hne, hd]
    · rename_i hv hd
      simp only [Bool.false_eq_true, if_false] at h
      split at h <;> try cases h
      obtain ⟨stem, ext, e, h1, h2, h3, h4, h5⟩ := ih h
      refine ⟨c :: stem, ext, by rw [e]; rfl, ?_, h2, ?_, h4, ?_⟩
      · intro x hx
        rcases List.mem_cons.mp hx with rfl | hx
        · exact ⟨by simpa using hv, by simpa using hd⟩
        · exact h1 x hx
      · simp only [List.length_cons]; omega
      · intro _; simp

lemma nameShape_of_check (h : fsNameCheck name = .ok ()) : ∃ stem ext, NameShape name stem ext := by
  unfold fsNameCheck at h
  split at h
  · cases h
  · rename_i hne
    obtain ⟨stem, ext, e, h1, h2, h3, h4, h5⟩ := nameLoop_base h
    refine ⟨stem, ext, e, ?_, by omega, h4, h1, h2⟩
    rintro rfl
    by_cases hx : ext = []
    · simp [hx] at e
      exact hne (.inl e)
    · exact h5 hx rfl

/-! ## Upper case -/

lemma upper_byte (c : Byte) :
    validByte (upper c) = validByte c ∧ (upper c = dotByte ↔ c = dotByte) ∧ upper (upper c) = upper c :=
  forall_byte (p := fun c => validByte (upper c) = validByte c ∧ (upper c = dotByte ↔ c = dotByte) ∧
    upper (upper c) = upper c) (by decide +kernel) c

lemma validByte_upper (c : Byte) : validByte (upper c) = validByte c := (upper_byte c).1

lemma upper_eq_dot (c : Byte) : upper c = dotByte ↔ c = dotByte := (upper_byte c).2.1

lemma upper_upper (c : Byte) : upper (upper c) = upper c := (upper_byte c).2.2

lemma map_upper_upper (name : Name) : (name.map upper).map upper = name.map upper := by
  simp [upper_upper]

lemma nameLoop_upper {rest i base extension dot} :
    nameLoop (rest.map upper) i base extension dot = nameLoop rest i base extension dot := by
  induction rest generalizing i base extension dot with
  | nil => rfl
  | cons c rest ih =>
    have hd : (upper c == dotByte) = (c == dotByte) := by
      rw [Bool.eq_iff_iff, beq_iff_eq, beq_iff_eq, upper_eq_dot]
    simp only [List.map_cons, nameLoop, validByte_upper, hd, ih]

lemma map_upper_eq_dot : name.map upper = [dotByte] ↔ name = [dotByte] := by
  rcases name with _ | ⟨a, _ | ⟨b, l⟩⟩ <;> simp [upper_eq_dot]

lemma map_upper_eq_dots : name.map upper = [dotByte, dotByte] ↔ name = [dotByte, dotByte] := by
  rcases name with _ | ⟨a, _ | ⟨b, _ | ⟨c, l⟩⟩⟩ <;> simp [upper_eq_dot]

lemma fsNameCheck_upper : fsNameCheck (name.map upper) = fsNameCheck name := by
  simp only [fsNameCheck, nameLoop_upper, List.map_eq_nil_iff, map_upper_eq_dot, map_upper_eq_dots]

lemma NameShape.text {name stem ext} (h : NameShape name stem ext) :
    name ≠ [] ∧ name.length ≤ 12 ∧ ∀ c ∈ name, validByte c = true := by
  have hl := h.stem_le
  have hx := h.ext_le
  have hp := h.stem_pos
  refine ⟨?_, ?_, ?_⟩
  · rw [h.name_eq]
    simp [hp]
  · rw [h.name_eq]
    split <;> simp <;> omega
  · rw [h.name_eq]
    intro c hc
    rcases List.mem_append.mp hc with hc | hc
    · exact (h.stem_valid c hc).1
    · split at hc
      · cases hc
      · rcases List.mem_cons.mp hc with rfl | hc
        · decide
        · exact (h.ext_valid c hc).1

lemma validByte_ne_slash {c : Byte} (h : validByte c = true) : c ≠ slashByte := by
  rintro rfl
  revert h
  decide

lemma not_dots_of_check (h : fsNameCheck name = .ok ()) : name ≠ [dotByte] ∧ name ≠ [dotByte, dotByte] := by
  constructor <;> rintro rfl <;> revert h <;> decide

end RumKernel.Fs
