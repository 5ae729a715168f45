import RumKernel.Fs.Path

/-!
# The grammar of paths

Which texts `fs_path_parse` accepts, and why it rejects the others. `Parses` is the grammar in its own terms: the
components of a text are what stands between its slashes, and the depth is that of the folded components.
-/

namespace RumKernel.Fs
open Lib

variable {path names : List Name} {name : Name} {text : List Byte}
variable {rest : List Byte} {extension i n : Nat} {e : FsError}

/-! ## Names -/

lemma nameLoop_stem {stem : List Byte} {base : Nat} (h : ∀ c ∈ stem, validByte c = true ∧ c ≠ dotByte)
    (hi : i + stem.length < nameCapacity) (hb : base + stem.length ≤ 8) :
    nameLoop (stem ++ rest) i base 0 false = nameLoop rest (i + stem.length) (base + stem.length) 0 false := by
  induction stem generalizing i base with
  | nil => rfl
  | cons c stem ih =>
    obtain ⟨⟨hv, hd⟩, hs⟩ := List.forall_mem_cons.mp h
    simp only [List.length_cons] at hi hb
    rw [List.cons_append, nameLoop, if_neg (by unfold nameCapacity at *; omega), if_neg (by simp [hv]),
      if_neg (by simpa using hd), if_neg (by simp), if_neg (by omega), ih hs (by omega) (by omega)]
    congr 1 <;> simp only [List.length_cons] <;> omega

lemma nameLoop_extension {ext : List Byte} {base : Nat} (h : ∀ c ∈ ext, validByte c = true ∧ c ≠ dotByte)
    (hi : i + ext.length < nameCapacity) (hx : extension + ext.length ≤ 3) (hp : extension + ext.length ≠ 0) :
    nameLoop ext i base extension true = .ok () := by
  induction ext generalizing i extension with
  | nil => simpa [nameLoop] using hp
  | cons c ext ih =>
    obtain ⟨⟨hv, hd⟩, hs⟩ := List.forall_mem_cons.mp h
    simp only [List.length_cons] at hi hx
    rw [nameLoop, if_neg (by unfold nameCapacity at *; omega), if_neg (by simp [hv]), if_neg (by simpa using hd),
      if_pos rfl, if_neg (by omega)]
    exact ih hs (by omega) (by omega) (by omega)

lemma fsNameCheck_iff : fsNameCheck name = .ok () ↔ ∃ stem ext, NameShape name stem ext := by
  refine ⟨nameShape_of_check, ?_⟩
  rintro ⟨stem, ext, h⟩
  have hl := h.stem_le
  have hx := h.ext_le
  have hpos := List.length_pos_iff.mpr h.stem_pos
  obtain ⟨c, stem', hstem⟩ := List.exists_cons_of_ne_nil h.stem_pos
  have hc : c ≠ dotByte := (h.stem_valid c (by rw [hstem]; exact List.mem_cons_self)).2
  have hname : name = c :: (stem' ++ if ext = [] then [] else dotByte :: ext) := by
    rw [h.name_eq, hstem, List.cons_append]
  unfold fsNameCheck
  rw [if_neg (by rw [hname]; simp [hc]), h.name_eq,
    nameLoop_stem h.stem_valid (by unfold nameCapacity; omega) (by omega)]
  by_cases he : ext = []
  · rw [if_pos he]
    rfl
  · rw [if_neg he, nameLoop, if_neg (by unfold nameCapacity; omega), if_neg (by simp [validByte, dotByte]),
      if_pos (by simp), if_neg (by simpa using h.stem_pos)]
    have := List.length_pos_iff.mpr he
    exact nameLoop_extension h.ext_valid (by unfold nameCapacity; omega) (by omega) (by omega)

lemma nameLoop_error {base : Nat} {dot : Bool}
    (h : nameLoop rest i base extension dot = .error e) : e = .invalid ∨ e = .nameTooLong := by
  induction rest generalizing i base extension dot with
  | nil =>
    simp only [nameLoop] at h
    split at h
    · cases h
      exact .inl rfl
    · cases h
  | cons c rest ih =>
    simp only [nameLoop] at h
    repeat' split at h
    all_goals first | exact ih h | (cases h; simp)

lemma fsNameCheck_error (h : fsNameCheck name = .error e) : e = .invalid ∨ e = .nameTooLong := by
  unfold fsNameCheck at h
  split at h
  · cases h
    exact .inl rfl
  · exact nameLoop_error h

/-! ## Components -/

/-- The components of a text: what stands between its slashes. -/
def components (text : List Byte) : List Name := (text.splitOn slashByte).filter (· ≠ [])

lemma splitNames_eq {current : Name} :
    splitNames text current = ((text.splitOn slashByte).modifyHead (current ++ ·)).filter (· ≠ []) := by
  induction text generalizing current with
  | nil => by_cases h : current = [] <;> simp [splitNames, h]
  | cons c text ih =>
    have hid : (fun name : Name => [] ++ name) = id := rfl
    rw [splitNames, List.splitOn, List.splitOnP_cons_eq_if_modifyHead]
    by_cases hc : c = slashByte
    · have hnil : splitNames text [] = ((text.splitOn slashByte).filter (· ≠ [])) := by
        rw [ih, hid, List.modifyHead_id]
        rfl
      subst hc
      by_cases h : current = []
      · simp [h, hnil, List.splitOn]
      · simp [h, hnil, List.splitOn]
    · have hbeq : (c == slashByte) = false := by simpa using hc
      rw [if_neg hc, ih, hbeq, if_neg (by simp), List.modifyHead_modifyHead, List.splitOn]
      congr 2
      funext name
      simp

lemma splitNames_components : splitNames text [] = components text := by
  have hid : (fun name : Name => [] ++ name) = id := rfl
  rw [splitNames_eq, hid, List.modifyHead_id]
  rfl

lemma length_splitNames_le (text : List Byte) (current : Name) :
    2 * (splitNames text current).length ≤ text.length + (if current = [] then 1 else 2) := by
  induction text generalizing current with
  | nil => by_cases h : current = [] <;> simp [splitNames, h]
  | cons c text ih =>
    rw [splitNames]
    by_cases hc : c = slashByte
    · have := ih []
      rw [if_pos rfl] at this
      by_cases h : current = []
      · simp only [hc, h, if_true, List.length_cons]
        omega
      · simp only [hc, h, if_true, if_false, List.length_cons]
        omega
    · have := ih (current ++ [c])
      rw [if_neg (by simp)] at this
      rw [if_neg hc, List.length_cons]
      split <;> omega

lemma length_components_le (h : text.length < pathCapacity) : (components text).length ≤ tokenLimit := by
  have := length_splitNames_le text []
  rw [splitNames_components, if_pos rfl] at this
  unfold pathCapacity at h
  unfold tokenLimit
  omega

/-- A text `collect` takes: not empty, fitting its buffer, and of path bytes only. -/
structure PathText (text : List Byte) : Prop where
  nonempty : text ≠ []
  short : text.length < pathCapacity
  bytes : ∀ c ∈ text, c = slashByte ∨ validByte c = true

lemma scanPath_cases (text : List Byte) (hn : n ≤ pathCapacity) :
    (scanPath text n = .ok () ∧ n + text.length < pathCapacity ∧ ∀ c ∈ text, c = slashByte ∨ validByte c = true) ∨
    (scanPath text n = .error .invalid ∧ ∃ c ∈ text, ¬(c = slashByte ∨ validByte c = true)) ∨
    (scanPath text n = .error .pathTooLong ∧ pathCapacity ≤ n + text.length) := by
  induction text generalizing n with
  | nil =>
    by_cases h : n = pathCapacity
    · exact .inr (.inr ⟨by rw [scanPath, if_pos h], by simp [h]⟩)
    · exact .inl ⟨by rw [scanPath, if_neg h], by simp; omega, by simp⟩
  | cons c text ih =>
    by_cases h : n = pathCapacity
    · exact .inr (.inr ⟨by rw [scanPath, if_pos h], by simp [h]⟩)
    by_cases hc : c = slashByte ∨ validByte c = true
    · have hgo : scanPath (c :: text) n = scanPath text (n + 1) := by
        rw [scanPath, if_neg h, if_neg]
        rintro ⟨h1, h2⟩
        rcases hc with hc | hc
        · exact h1 hc
        · simp [hc] at h2
      rw [hgo, List.length_cons]
      rcases ih (n := n + 1) (by omega) with ⟨h1, h2, h3⟩ | ⟨h1, d, hd, h2⟩ | ⟨h1, h2⟩
      · exact .inl ⟨h1, by omega, List.forall_mem_cons.mpr ⟨hc, h3⟩⟩
      · exact .inr (.inl ⟨h1, d, List.mem_cons_of_mem c hd, h2⟩)
      · exact .inr (.inr ⟨h1, by omega⟩)
    · refine .inr (.inl ⟨?_, c, List.mem_cons_self, hc⟩)
      rw [scanPath, if_neg h, if_pos]
      simpa using hc

lemma checkNames_cases (names : List Name) (hn : n + names.length ≤ tokenLimit) :
    (checkNames names n = .ok () ∧ ∀ name ∈ names, name.length < nameCapacity) ∨
    (checkNames names n = .error .nameTooLong ∧ ∃ name ∈ names, nameCapacity ≤ name.length) := by
  induction names generalizing n with
  | nil => exact .inl ⟨rfl, by simp⟩
  | cons name names ih =>
    simp only [List.length_cons] at hn
    by_cases h : name.length ≥ nameCapacity
    · exact .inr ⟨by rw [checkNames, if_neg (by omega), if_pos h], name, List.mem_cons_self, h⟩
    · rw [checkNames, if_neg (by omega), if_neg h]
      rcases ih (n := n + 1) (by omega) with ⟨h1, h2⟩ | ⟨h1, long, hm, h2⟩
      · exact .inl ⟨h1, List.forall_mem_cons.mpr ⟨by omega, h2⟩⟩
      · exact .inr ⟨h1, long, List.mem_cons_of_mem name hm, h2⟩

def tokensOf (text : List Byte) : Tokens where
  names := components text
  absolute := text.head? == some slashByte
  directory := text.getLast? == some slashByte || ((components text).getLast?.map isDots).getD false

lemma collect_cases (text : List Byte) :
    (collect text = .ok (tokensOf text) ∧ PathText text ∧ ∀ name ∈ components text, name.length < nameCapacity) ∨
    ∃ e, collect text = .error e ∧ ¬(PathText text ∧ ∀ name ∈ components text, name.length < nameCapacity) ∧
      e ≠ .tooDeep ∧ (e = .pathTooLong → pathCapacity ≤ text.length) := by
  unfold collect
  by_cases hne : text = []
  · refine .inr ⟨.invalid, by rw [if_pos hne]; rfl, fun h => h.1.nonempty hne, by decide, nofun⟩
  rw [if_neg hne, splitNames_components]
  rcases scanPath_cases text (Nat.zero_le pathCapacity) with ⟨h1, h2, h3⟩ | ⟨h1, c, hc, h2⟩ | ⟨h1, h2⟩
  · rw [Nat.zero_add] at h2
    have hcount := length_components_le h2
    rcases checkNames_cases (components text)
      (by omega : 0 + (components text).length ≤ tokenLimit) with ⟨h4, h5⟩ | ⟨h4, long, hm, h5⟩
    · refine .inl ⟨?_, ⟨hne, h2, h3⟩, h5⟩
      simp only [h1, h4, bind, Except.bind]
      rfl
    · refine .inr ⟨.nameTooLong, by simp only [h1, h4, bind, Except.bind], fun h => ?_, by decide, nofun⟩
      exact absurd (h.2 long hm) (by omega)
  · exact .inr ⟨.invalid, by rw [h1]; rfl, fun h => h2 (h.1.bytes c hc), by decide, nofun⟩
  · refine .inr ⟨.pathTooLong, by rw [h1]; rfl, fun h => ?_, by decide, fun _ => by omega⟩
    have := h.1.short
    omega

/-! ## Folding -/

/-- No prefix of the components, folded from `path`, is deeper than a path may be. -/
def Shallow (path names : List Name) : Prop := ∀ done, done <+: names → (done.foldl walkName path).length ≤ pathDepth

lemma Shallow.start (h : Shallow path names) : path.length ≤ pathDepth := h [] (List.nil_prefix)

lemma shallow_cons : Shallow path (name :: names) ↔ path.length ≤ pathDepth ∧ Shallow (walkName path name) names := by
  constructor
  · intro h
    exact ⟨h.start, fun done hd => h (name :: done) ((List.cons_prefix_cons).mpr ⟨rfl, hd⟩)⟩
  · rintro ⟨hp, h⟩ done hd
    cases done with
    | nil => exact hp
    | cons n done =>
      obtain ⟨rfl, hrest⟩ := List.cons_prefix_cons.mp hd
      exact h done hrest

lemma Canonical.length_le (h : Canonical path) : (render path).length ≤ 1 + 13 * path.length := by
  have hsum : (path.flatMap fun name => slashByte :: name).length ≤ 13 * path.length := by
    have hshort : ∀ name ∈ path, name.length ≤ 12 := fun name hn => by
      obtain ⟨stem, ext, hs⟩ := nameShape_of_check (h.checked name hn)
      exact hs.text.2.1
    clear h
    induction path with
    | nil => simp
    | cons name path ih =>
      obtain ⟨hn, hp⟩ := List.forall_mem_cons.mp hshort
      have := ih hp
      simp only [List.flatMap_cons, List.length_append, List.length_cons] at this ⊢
      omega
  by_cases hp : path = []
  · subst hp
    simp [render]
  · rw [render_of_ne hp]
    omega

lemma Canonical.room (h : Canonical path) (hn : fsNameCheck name = .ok ()) (hd : path.length < pathDepth) :
    ¬name.length ≥ pathCapacity - (render path).length - (if path = [] then 0 else 1) := by
  obtain ⟨stem, ext, hs⟩ := nameShape_of_check hn
  have hname := hs.text.2.1
  have hlen := h.length_le
  unfold pathDepth at hd
  unfold pathCapacity
  split <;> omega

lemma applyNames_cases (names : List Name) (hp : Canonical path) :
    (applyNames path names = .ok (names.foldl walkName path) ∧ Shallow path names ∧ ∀ name ∈ names, Component name) ∨
    ∃ e, applyNames path names = .error e ∧ ¬(Shallow path names ∧ ∀ name ∈ names, Component name) ∧
      e ≠ .pathTooLong ∧ (e = .tooDeep → ¬Shallow path names) := by
  induction names generalizing path with
  | nil =>
    refine .inl ⟨rfl, fun done hd => ?_, by simp⟩
    rw [List.prefix_nil.mp hd]
    exact hp.depth
  | cons name names ih =>
    -- the first component is taken, and the rest goes on from the longer or shorter path
    have hstep : ∀ next, Canonical next → walkName path name = next → Component name →
        applyNames path (name :: names) = applyNames next names →
        (applyNames path (name :: names) = .ok ((name :: names).foldl walkName path) ∧ Shallow path (name :: names) ∧
          ∀ n ∈ name :: names, Component n) ∨
        ∃ e, applyNames path (name :: names) = .error e ∧
          ¬(Shallow path (name :: names) ∧ ∀ n ∈ name :: names, Component n) ∧
          e ≠ .pathTooLong ∧ (e = .tooDeep → ¬Shallow path (name :: names)) := by
      rintro next hnext rfl hcomp hgo
      rw [hgo, shallow_cons, List.forall_mem_cons, List.foldl_cons]
      rcases ih hnext with ⟨h1, h2, h3⟩ | ⟨e, h1, h2, h3, h4⟩
      · exact .inl ⟨h1, ⟨hp.depth, h2⟩, hcomp, h3⟩
      · exact .inr ⟨e, h1, fun h => h2 ⟨h.1.2, h.2.2⟩, h3, fun he h => h4 he h.2⟩
    by_cases h1 : name = [dotByte]
    · exact hstep path hp (by rw [walkName, if_pos h1]) (.inl h1) (by rw [applyNames, if_pos h1])
    by_cases h2 : name = [dotByte, dotByte]
    · exact hstep path.dropLast hp.dropLast (by rw [walkName, if_neg h1, if_pos h2]) (.inr (.inl h2))
        (by rw [applyNames, if_neg h1, if_pos h2])
    cases hcheck : fsNameCheck name with
    | error e =>
      have hkind := fsNameCheck_error hcheck
      refine .inr ⟨e, by rw [applyNames, if_neg h1, if_neg h2, hcheck], fun h => ?_, ?_, ?_⟩
      · rcases h.2 name List.mem_cons_self with hc | hc | hc
        · exact h1 hc
        · exact h2 hc
        · rw [hcheck] at hc
          cases hc
      · rcases hkind with rfl | rfl <;> decide
      · rintro rfl
        rcases hkind with h | h <;> cases h
    | ok u =>
      have hwalk : walkName path name = path ++ [name.map upper] := by rw [walkName, if_neg h1, if_neg h2]
      by_cases hd : path.length = pathDepth
      · have hdeep : ¬Shallow path (name :: names) := by
          intro h
          have := (shallow_cons.mp h).2.start
          rw [hwalk, List.length_append, List.length_singleton] at this
          omega
        refine .inr ⟨.tooDeep, ?_, fun h => hdeep h.1, by decide, fun _ => hdeep⟩
        rw [applyNames, if_neg h1, if_neg h2, hcheck]
        exact if_pos hd
      · have hroom := hp.room hcheck (lt_of_le_of_ne hp.depth hd)
        refine hstep _ (hp.snoc hcheck hd hroom) hwalk (.inr (.inr hcheck)) ?_
        rw [applyNames, if_neg h1, if_neg h2, hcheck]
        exact (if_neg hd).trans (if_neg hroom)

/-! ## Parsing -/

/-- The path the input is resolved from. -/
def startOf (base input : List Byte) : List Name :=
  if input.head? = some slashByte then [] else (components base).foldl walkName []

def resolved (base input : List Byte) : List Name := (components input).foldl walkName (startOf base input)

/-- A component of the grammar: `.`, `..` or an 8.3 name. -/
def ComponentShape (name : Name) : Prop :=
  name = [dotByte] ∨ name = [dotByte, dotByte] ∨ ∃ stem ext, NameShape name stem ext

/-- The grammar of a base path and an input. -/
structure Parses (base input : List Byte) : Prop where
  base_text : PathText base
  input_text : PathText input
  rooted : base.head? = some slashByte
  names : ∀ name ∈ components base ++ components input, ComponentShape name
  base_shallow : Shallow [] (components base)
  input_shallow : Shallow (startOf base input) (components input)

/-- The plan of an accepted base path and input. -/
def planOf (base input : List Byte) : FsPath where
  base := (tokensOf base).upper
  input := (tokensOf input).upper
  canonical := resolved base input
  depth := (resolved base input).length

lemma component_iff : Component name ↔ ComponentShape name := by
  unfold Component ComponentShape
  rw [fsNameCheck_iff]

lemma ComponentShape.short (h : ComponentShape name) : name.length < nameCapacity := by
  rcases h with rfl | rfl | ⟨stem, ext, h⟩
  · decide
  · decide
  · have := h.text.2.1
    unfold nameCapacity
    omega

/-- **Parsing.** `fs_path_parse` accepts exactly its grammar. A text is too long only by its own bytes, and a path is
too deep only by its folded components. -/
lemma fsPathParse_cases (base input : List Byte) :
    (fsPathParse base input = .ok (planOf base input) ∧ Parses base input) ∨
    ∃ e, fsPathParse base input = .error e ∧ ¬Parses base input ∧
      (e = .pathTooLong → pathCapacity ≤ base.length ∨ pathCapacity ≤ input.length) ∧
      (e = .tooDeep → ¬(Shallow [] (components base) ∧ Shallow (startOf base input) (components input))) := by
  have hshort : Parses base input → (∀ name ∈ components base, name.length < nameCapacity) ∧
      ∀ name ∈ components input, name.length < nameCapacity := fun h =>
    ⟨fun name hn => (h.names name (List.mem_append_left _ hn)).short,
      fun name hn => (h.names name (List.mem_append_right _ hn)).short⟩
  have hcomp : Parses base input → (∀ name ∈ components base, Component name) ∧
      ∀ name ∈ components input, Component name := fun h =>
    ⟨fun name hn => component_iff.mpr (h.names name (List.mem_append_left _ hn)),
      fun name hn => component_iff.mpr (h.names name (List.mem_append_right _ hn))⟩
  unfold fsPathParse
  rcases collect_cases base with ⟨hb, hbt, hbn⟩ | ⟨e, hb, h1, h2, h3⟩
  rotate_left
  · refine .inr ⟨e, by rw [hb]; rfl, fun h => h1 ⟨h.base_text, (hshort h).1⟩, fun he => .inl (h3 he), fun he => ?_⟩
    exact absurd he h2
  rw [hb]
  by_cases hroot : base.head? = some slashByte
  rotate_left
  · refine .inr ⟨.invalid, ?_, fun h => hroot h.rooted, nofun, nofun⟩
    have habs : (tokensOf base).absolute = false := by simpa [tokensOf] using hroot
    simp [habs, bind, Except.bind]
  have habs : (tokensOf base).absolute = true := by simpa [tokensOf] using hroot
  rcases collect_cases input with ⟨hi, hit, hin⟩ | ⟨e, hi, h1, h2, h3⟩
  rotate_left
  · refine .inr ⟨e, ?_, fun h => h1 ⟨h.input_text, (hshort h).2⟩, fun he => .inr (h3 he), fun he => absurd he h2⟩
    simp [habs, hi, bind, Except.bind]
  have hnames : (tokensOf base).names = components base := rfl
  have hnames' : (tokensOf input).names = components input := rfl
  rcases applyNames_cases (components base) .nil with ⟨ha, has, hac⟩ | ⟨e, ha, h1, h2, h3⟩
  rotate_left
  · refine .inr ⟨e, ?_, fun h => h1 ⟨h.base_shallow, (hcomp h).1⟩, fun he => absurd he h2, fun he h => h3 he h.1⟩
    simp [habs, hi, hnames, ha, bind, Except.bind]
  have hstart : (if (tokensOf input).absolute = true then [] else (components base).foldl walkName []) =
      startOf base input := by simp [tokensOf, startOf]
  have hcanon : Canonical (startOf base input) := by
    unfold startOf
    split
    · exact .nil
    · exact (applyNames_ok .nil ha).1
  rcases applyNames_cases (components input) hcanon with ⟨hr, hrs, hrc⟩ | ⟨e, hr, h1, h2, h3⟩
  · refine .inl ⟨?_, hbt, hit, hroot, fun name hn => ?_, has, hrs⟩
    · simp only [habs, hi, hnames, hnames', ha, hstart, hr, bind, Except.bind]
      rfl
    · rcases List.mem_append.mp hn with hn | hn
      · exact component_iff.mp (hac name hn)
      · exact component_iff.mp (hrc name hn)
  · refine .inr ⟨e, ?_, fun h => h1 ⟨h.input_shallow, (hcomp h).2⟩, fun he => absurd he h2, fun he h => h3 he h.2⟩
    simp only [habs, hi, hnames, hnames', ha, hstart, hr, bind, Except.bind]
    rfl

lemma Parses.canonical {base input : List Byte} (h : Parses base input) : Canonical (resolved base input) := by
  have hcomp : ∀ name ∈ components base ++ components input, Component name :=
    fun name hn => component_iff.mpr (h.names name hn)
  have hbase : applyNames [] (components base) = .ok ((components base).foldl walkName []) := by
    rcases applyNames_cases (components base) .nil with ⟨ha, -⟩ | ⟨e, -, hno, -⟩
    · exact ha
    · exact absurd ⟨h.base_shallow, fun name hn => hcomp name (List.mem_append_left _ hn)⟩ hno
  have hstart : Canonical (startOf base input) := by
    unfold startOf
    split
    · exact .nil
    · exact (applyNames_ok .nil hbase).1
  rcases applyNames_cases (components input) hstart with ⟨ha, -⟩ | ⟨e, -, hno, -⟩
  · exact (applyNames_ok hstart ha).1
  · exact absurd ⟨h.input_shallow, fun name hn => hcomp name (List.mem_append_right _ hn)⟩ hno

lemma render_eq_intercalate : render path = slashByte :: [slashByte].intercalate path := by
  cases path with
  | nil => rfl
  | cons name path =>
    rw [render_of_ne (by simp)]
    induction path generalizing name with
    | nil => simp
    | cons next path ih =>
      rw [List.flatMap_cons, ih next]
      simp

lemma fsPathParse_again {base : List Byte} {plan : FsPath} (h : Canonical path)
    (hb : fsPathParse base [slashByte] = .ok plan) :
    ∃ again, fsPathParse base (render path) = .ok again ∧ again.canonical = path ∧ again.depth = path.length := by
  have hself : applyNames [] path = .ok path := by
    have : applyNames [] path = .ok ([] ++ path) := applyNames_self (by simpa using h)
    rwa [List.nil_append] at this
  unfold fsPathParse at hb ⊢
  rw [collect_render h]
  cases hc : collect base with
  | error e => simp [hc, bind, Except.bind] at hb
  | ok tokens =>
    cases habs : tokens.absolute with
    | false => simp [hc, habs, bind, Except.bind] at hb
    | true =>
      cases ha : applyNames [] tokens.names with
      | error e =>
        have hroot : collect [slashByte] = .ok { names := [], absolute := true, directory := true } := rfl
        simp [hc, habs, ha, hroot, bind, Except.bind] at hb
      | ok start =>
        let input : Tokens := { names := path, absolute := true, directory := path = [] }
        refine ⟨{ base := tokens.upper, input := input.upper, canonical := path, depth := path.length }, ?_, rfl, rfl⟩
        simp [input, habs, ha, hself, bind, Except.bind, pure, Except.pure]

end RumKernel.Fs
