import RumKernel.Fs.Grammar

/-!
# Paths in fixed buffers

`collect`, `apply` and `fs_path_parse` as `path.c` runs them: tokens are cut in place by NUL bytes and found by offsets,
and the canonical text is one buffer that grows and is cut back. A write outside its buffer is an outcome of its own, so
that the refinement of the functions on lists says that it does not happen.
-/

namespace RumKernel.Fs.Buffered
open Lib

variable {fuel n start : Nat}

/-- An error of the source, or `none` for a write outside a buffer. -/
abbrev Checked := Except (Option FsError)

/-- Store a byte in a buffer of `FS_PATH_CAPACITY` bytes. -/
def store (m : Mem) (i : Nat) (c : Byte) : Checked Mem :=
  if i < pathCapacity then .ok (Function.update m i c) else .error none

/-- `memcpy` into a buffer of `FS_PATH_CAPACITY` bytes. -/
def memcpy (dst : Mem) (d : Nat) (src : Mem) (s : Nat) : Nat → Checked Mem
  | 0 => .ok dst
  | n + 1 => do
    let dst ← memcpy dst d src s n
    store dst (d + n) (src (s + n))

/-- `equal`, against a literal. -/
def equal (m : Mem) : Nat → List Byte → Bool
  | i, [] => m i == 0
  | i, c :: rest => m i == c && equal m (i + 1) rest

/-- The bytes before the NUL, as a callee reads them. -/
def stringAt (m : Mem) : Nat → Nat → List Byte
  | 0, _ => []
  | fuel + 1, i => if m i = 0 then [] else m i :: stringAt m fuel (i + 1)

/-- `struct fs_tokens`. -/
structure TokenBuffer where
  text : Mem := fun _ => 0
  offsets : Nat → Nat := fun _ => 0
  count : Nat := 0
  absolute : Bool := false
  directory : Bool := false

/-- `tokens->offsets[tokens->count++] = (uint16_t)start`. -/
def TokenBuffer.push (t : TokenBuffer) (start : Nat) : Checked TokenBuffer :=
  if t.count < tokenLimit then
    .ok { t with offsets := Function.update t.offsets t.count (start % 65536), count := t.count + 1 }
  else .error none

def clearSlashes (length : Nat) : Nat → Mem → Nat → Checked (Mem × Nat)
  | 0, text, i => .ok (text, i)
  | fuel + 1, text, i =>
    if i < length ∧ text i = slashByte then do
      let text ← store text i 0
      clearSlashes length fuel text (i + 1)
    else .ok (text, i)

/-- The loop over the bytes of a component. -/
def nameEnd (text : Mem) (length : Nat) : Nat → Nat → Nat
  | 0, i => i
  | fuel + 1, i => if i < length ∧ text i ≠ slashByte then nameEnd text length fuel (i + 1) else i

/-- The second loop of `collect`. -/
def tokenLoop (length : Nat) : Nat → TokenBuffer → Nat → Checked TokenBuffer
  | 0, t, _ => .ok t
  | fuel + 1, t, i =>
    if i < length then do
      let (text, start) ← clearSlashes length length t.text i
      if start = length then .ok { t with text }
      else if t.count = tokenLimit then .error (some .tooDeep)
      else
        let stop := nameEnd text length length start
        if stop - start ≥ nameCapacity then .error (some .nameTooLong)
        else do
          let t ← TokenBuffer.push { t with text } start
          if stop < length then do
            let text ← store t.text stop 0
            tokenLoop length fuel { t with text } (stop + 1)
          else tokenLoop length fuel t stop
    else .ok t

def collect (input : List Byte) : Checked TokenBuffer :=
  if input = [] then .error (some .invalid)
  else
    match scanPath input 0 with
    | .error e => .error (some e)
    | .ok _ => do
      let text ← memcpy (fun _ => 0) 0 (fun j => input.getD j 0) 0 (input.length + 1)
      let t ← tokenLoop input.length input.length { text
                                                    absolute := input.head? == some slashByte
                                                    directory := input.getLast? == some slashByte } 0
      if t.count = 0 then .ok t
      else
        let last := t.offsets (t.count - 1)
        .ok { t with directory := t.directory || (equal t.text last [dotByte] || equal t.text last [dotByte, dotByte]) }

/-- `struct canonical`. -/
structure CanonicalBuffer where
  text : Mem
  length : Nat := 1
  count : Nat := 0
  previous : Nat → Nat := fun _ => 0

variable {t : TokenBuffer} {b : CanonicalBuffer}

/-- `path->previous[path->count++] = path->length`. -/
def CanonicalBuffer.save (path : CanonicalBuffer) : Checked CanonicalBuffer :=
  if path.count < pathDepth + 1 then
    .ok { path with previous := Function.update path.previous path.count path.length, count := path.count + 1 }
  else .error none

/-- The upper-casing loop of `apply`. -/
def upperLoop (name : Nat) : Nat → Mem → Nat → Checked (Mem × Nat)
  | 0, text, length => .ok (text, length)
  | fuel + 1, text, length =>
    let c := text (name + length)
    if c = 0 then .ok (text, length)
    else do
      let text ← if 97 ≤ c ∧ c ≤ 122 then store text (name + length) (c - 32) else .ok text
      upperLoop name fuel text (length + 1)

/-- A name of `apply`, once `fs_name_check` and the depth allow it. -/
def appendName (path : CanonicalBuffer) (text : Mem) (name : Nat) : Checked (CanonicalBuffer × Mem) := do
  let (text, length) ← upperLoop name pathCapacity text 0
  let slash := if path.length > 1 then 1 else 0
  if length ≥ pathCapacity - path.length - slash then .error (some .pathTooLong)
  else
    let path ← path.save
    let canonical ← if slash = 1 then store path.text path.length slashByte else .ok path.text
    let canonical ← memcpy canonical (path.length + slash) text name (length + 1)
    return ({ path with text := canonical, length := path.length + slash + length }, text)

/-- A round of the loop of `apply`. -/
def applyName (path : CanonicalBuffer) (text : Mem) (name : Nat) : Checked (CanonicalBuffer × Mem) :=
  if equal text name [dotByte] then .ok (path, text)
  else if equal text name [dotByte, dotByte] then do
    let path :=
      if path.count = 0 then path
      else { path with length := path.previous (path.count - 1), count := path.count - 1 }
    let canonical ← store path.text path.length 0
    return ({ path with text := canonical }, text)
  else
    match fsNameCheck (stringAt text pathCapacity name) with
    | .error e => .error (some e)
    | .ok _ => if path.count = pathDepth then .error (some .tooDeep) else appendName path text name

/-- The loop of `apply` from token `k`, with `n` tokens left. -/
def applyLoop (offsets : Nat → Nat) : Nat → Nat → CanonicalBuffer → Mem → Checked (CanonicalBuffer × Mem)
  | 0, _, path, text => .ok (path, text)
  | n + 1, k, path, text => do
    let (path, text) ← applyName path text (offsets k)
    applyLoop offsets n (k + 1) path text

def apply (path : CanonicalBuffer) (t : TokenBuffer) : Checked (CanonicalBuffer × TokenBuffer) := do
  let (path, text) ← applyLoop t.offsets t.count 0 path t.text
  return (path, { t with text })

/-- `struct fs_path`, without the mount. -/
structure PathBuffer where
  base : TokenBuffer
  input : TokenBuffer
  canonical : Mem
  depth : Nat

def fsPathParse (base input : List Byte) : Checked PathBuffer := do
  let base ← collect base
  if !base.absolute then .error (some .invalid)
  else
    let input ← collect input
    let canonical ← store (fun _ => 0) 0 slashByte
    let (path, base) ← apply { text := canonical } base
    let path ← if input.absolute then (do
        let canonical ← store path.text 1 0
        return { text := canonical })
      else .ok path
    let (path, input) ← apply path input
    return { base, input, canonical := path.text, depth := path.count % 65536 }

/-! ## Strings in a buffer -/

variable {m m' text : Mem} {i k low length : Nat} {s rest : List Byte} {c : Byte} {offsets : Nat → Nat}
variable {name : Name} {names path : List Name}

def CString (m : Mem) (i : Nat) (s : List Byte) : Prop := ∀ j ≤ s.length, m (i + j) = s.getD j 0

lemma CString.congr (h : CString m i s) (hm : ∀ j, i ≤ j → j ≤ i + s.length → m' j = m j) : CString m' i s :=
  fun j hj => (hm (i + j) (by omega) (by omega)).trans (h j hj)

@[simp] lemma cstring_nil : CString m i [] ↔ m i = 0 := by simp [CString]

lemma cstring_cons : CString m i (c :: s) ↔ m i = c ∧ CString m (i + 1) s := by
  constructor
  · intro h
    refine ⟨h 0 (by simp), fun j hj => ?_⟩
    have := h (j + 1) (by simpa using hj)
    rwa [List.getD_cons_succ, ← Nat.add_assoc, Nat.add_right_comm] at this
  · rintro ⟨h0, h⟩ j hj
    cases j with
    | zero => exact h0
    | succ j =>
      have := h j (by simpa using hj)
      rwa [Nat.add_right_comm, Nat.add_assoc] at this

lemma CString.append (h : CString m i (s ++ rest)) :
    (∀ j < s.length, m (i + j) = s.getD j 0) ∧ CString m (i + s.length) rest := by
  constructor
  · intro j hj
    rw [h j (by simp; omega), List.getD_append _ _ _ _ hj]
  · intro j hj
    rw [Nat.add_assoc, h (s.length + j) (by simp; omega), List.getD_append_right _ _ _ _ (by omega)]
    congr 1
    omega

lemma CString.of_append (h : ∀ j < s.length, m (i + j) = s.getD j 0) (hr : CString m (i + s.length) rest) :
    CString m i (s ++ rest) := by
  intro j hj
  rw [List.length_append] at hj
  by_cases hjs : j < s.length
  · rw [h j hjs, List.getD_append _ _ _ _ hjs]
  · have := hr (j - s.length) (by omega)
    rw [Nat.add_assoc, Nat.add_sub_cancel' (by omega)] at this
    rw [this, List.getD_append_right _ _ _ _ (by omega)]

lemma CString.cut (h : CString m i (s ++ rest)) : CString (Function.update m (i + s.length) 0) i s := by
  intro j hj
  by_cases hjs : j = s.length
  · subst hjs
    simp
  · rw [Function.update_of_ne (by omega), h.append.1 j (by omega)]

lemma store_ok (h : i < pathCapacity) : store m i c = .ok (Function.update m i c) := if_pos h

lemma memcpy_ok {dst src : Mem} {d s : Nat} (h : d + n ≤ pathCapacity) :
    memcpy dst d src s n = .ok fun j => if d ≤ j ∧ j < d + n then src (s + (j - d)) else dst j := by
  induction n with
  | zero =>
    rw [memcpy]
    congr 1
    funext j
    rw [if_neg (by omega)]
  | succ n ih =>
    rw [memcpy, ih (by omega)]
    refine (store_ok (by omega)).trans (congrArg Except.ok (funext fun j => ?_))
    by_cases hj : j = d + n
    · subst hj
      rw [Function.update_self, if_pos (by omega), Nat.add_sub_cancel_left]
    · rw [Function.update_of_ne hj]
      split <;> split <;> first | rfl | omega

lemma equal_iff {lit : List Byte} (h : CString m i s) (hs : 0 ∉ s) (hl : 0 ∉ lit) : equal m i lit = true ↔ s = lit := by
  induction lit generalizing i s with
  | nil =>
    rw [equal, beq_iff_eq]
    cases s with
    | nil => exact iff_of_true (cstring_nil.mp h) rfl
    | cons c s =>
      rw [(cstring_cons.mp h).1]
      exact iff_of_false (fun e => hs (e ▸ List.mem_cons_self)) nofun
  | cons d lit ih =>
    rw [equal, Bool.and_eq_true, beq_iff_eq]
    cases s with
    | nil =>
      rw [cstring_nil.mp h]
      exact iff_of_false (fun e => hl (e.1 ▸ List.mem_cons_self)) nofun
    | cons c s =>
      obtain ⟨h0, h⟩ := cstring_cons.mp h
      rw [h0, ih h (fun e => hs (List.mem_cons_of_mem c e)) (fun e => hl (List.mem_cons_of_mem d e)), List.cons.injEq]

lemma stringAt_eq (h : CString m i s) (hs : 0 ∉ s) (hf : s.length < fuel) : stringAt m fuel i = s := by
  induction s generalizing i fuel with
  | nil =>
    obtain ⟨fuel, rfl⟩ := Nat.exists_eq_succ_of_ne_zero (by omega : fuel ≠ 0)
    rw [stringAt, if_pos (cstring_nil.mp h)]
  | cons c s ih =>
    obtain ⟨fuel, rfl⟩ := Nat.exists_eq_succ_of_ne_zero (by omega : fuel ≠ 0)
    obtain ⟨h0, h⟩ := cstring_cons.mp h
    rw [stringAt, if_neg (by rw [h0]; exact fun e => hs (e ▸ List.mem_cons_self)), h0,
      ih h (fun e => hs (List.mem_cons_of_mem c e)) (by simpa using hf)]

/-! ## Cutting a text into tokens -/

/-- The tokens from index `k` on are the names, one after another, none of them below `low`. -/
def NamesAt (m : Mem) (offsets : Nat → Nat) : Nat → Nat → List Name → Prop
  | _, _, [] => True
  | k, low, name :: rest =>
    low ≤ offsets k ∧ offsets k + name.length < pathCapacity ∧ CString m (offsets k) name ∧
      NamesAt m offsets (k + 1) (offsets k + name.length + 1) rest

lemma NamesAt.congr (h : NamesAt m offsets k low names) (hm : ∀ j, low ≤ j → m' j = m j) :
    NamesAt m' offsets k low names := by
  induction names generalizing k low with
  | nil => trivial
  | cons name names ih =>
    obtain ⟨h1, h2, h3, h4⟩ := h
    exact ⟨h1, h2, h3.congr fun j hj _ => hm j (by omega), ih h4 fun j hj => hm j (by omega)⟩

lemma NamesAt.get (h : NamesAt m offsets k low names) (hn : n < names.length) :
    CString m (offsets (k + n)) names[n] := by
  induction names generalizing k low n with
  | nil => cases hn
  | cons name names ih =>
    obtain ⟨-, -, h3, h4⟩ := h
    cases n with
    | zero => exact h3
    | succ n =>
      have := ih h4 (n := n) (by simpa using hn)
      rwa [Nat.add_right_comm, Nat.add_assoc] at this

lemma clearSlashes_spec (h : CString m i s) (hi : i + s.length = length) (hl : length < pathCapacity)
    (hf : s.length ≤ fuel) :
    ∃ m' rest, clearSlashes length fuel m i = .ok (m', length - rest.length) ∧ CString m' (length - rest.length) rest ∧
      rest <:+ s ∧ rest.head? ≠ some slashByte ∧ (∀ j < i, m' j = m j) ∧ splitNames s [] = splitNames rest [] := by
  induction s generalizing m i fuel with
  | nil =>
    have hend : i = length := by simpa using hi
    subst hend
    refine ⟨m, [], ?_, h, List.suffix_refl [], by simp, fun _ _ => rfl, rfl⟩
    cases fuel with
    | zero => rfl
    | succ fuel => rw [clearSlashes, if_neg (by omega)]; rfl
  | cons c s ih =>
    obtain ⟨fuel, rfl⟩ := Nat.exists_eq_succ_of_ne_zero (by simp at hf; omega : fuel ≠ 0)
    simp only [List.length_cons] at hi hf
    obtain ⟨h0, hs⟩ := cstring_cons.mp h
    by_cases hc : c = slashByte
    · have hs' : CString (Function.update m i 0) (i + 1) s :=
        hs.congr fun j hj _ => Function.update_of_ne (by omega) _ _
      obtain ⟨m', rest, h1, h2, h3, h4, h5, h6⟩ := ih hs' (by omega) (by omega : s.length ≤ fuel)
      refine ⟨m', rest, ?_, h2, h3.trans (List.suffix_cons c s), h4, fun j hj => ?_, ?_⟩
      · rw [clearSlashes, if_pos ⟨by omega, h0.trans hc⟩, store_ok (by omega)]
        exact h1
      · rw [h5 j (by omega), Function.update_of_ne (by omega)]
      · rw [splitNames, if_pos hc, if_pos rfl, h6]
    · refine ⟨m, c :: s, ?_, ?_, List.suffix_refl _, by simpa using hc, fun _ _ => rfl, rfl⟩
      · rw [clearSlashes, if_neg (by rw [h0]; exact fun e => hc e.2)]
        congr 2
        simp only [List.length_cons]
        omega
      · rwa [show length - (c :: s).length = i by simp only [List.length_cons]; omega]

lemma nameEnd_spec (h : CString m i s) (hi : i + s.length = length) (hf : s.length ≤ fuel) :
    ∃ name rest, s = name ++ rest ∧ (∀ c ∈ name, c ≠ slashByte) ∧ (rest = [] ∨ ∃ r, rest = slashByte :: r) ∧
      nameEnd m length fuel i = i + name.length := by
  induction s generalizing i fuel with
  | nil =>
    refine ⟨[], [], rfl, by simp, .inl rfl, ?_⟩
    cases fuel with
    | zero => rfl
    | succ fuel => rw [nameEnd, if_neg (by simp at hi; omega)]; rfl
  | cons c s ih =>
    obtain ⟨fuel, rfl⟩ := Nat.exists_eq_succ_of_ne_zero (by simp at hf; omega : fuel ≠ 0)
    simp only [List.length_cons] at hi hf
    obtain ⟨h0, hs⟩ := cstring_cons.mp h
    by_cases hc : c = slashByte
    · refine ⟨[], c :: s, rfl, by simp, .inr ⟨s, by rw [hc]⟩, ?_⟩
      rw [nameEnd, if_neg (by rw [h0]; exact fun e => e.2 hc)]
      rfl
    · obtain ⟨name, rest, h1, h2, h3, h4⟩ := ih hs (by omega) (by omega : s.length ≤ fuel)
      refine ⟨c :: name, rest, by rw [h1]; rfl, List.forall_mem_cons.mpr ⟨hc, h2⟩, h3, ?_⟩
      rw [nameEnd, if_pos ⟨by omega, by rw [h0]; exact hc⟩, h4, List.length_cons]
      omega

/-- What the token loop has added to a buffer, from index `i` of the text on. -/
structure Listed (t t' : TokenBuffer) (i : Nat) (names : List Name) : Prop where
  count : t'.count = t.count + names.length
  text : ∀ j < i, t'.text j = t.text j
  offsets : ∀ k < t.count, t'.offsets k = t.offsets k
  names : NamesAt t'.text t'.offsets t.count i names
  absolute : t'.absolute = t.absolute
  directory : t'.directory = t.directory

/-- A buffered computation does what a function on lists says. -/
def Refines {α β : Type} (x : Checked α) (y : Except FsError β) (R : α → β → Prop) : Prop :=
  match y with
  | .error e => x = .error (some e)
  | .ok b => ∃ a, x = .ok a ∧ R a b

lemma splitNames_first {name rest : List Byte} (hn : ∀ c ∈ name, c ≠ slashByte) (hne : name ≠ [])
    (hr : rest = [] ∨ ∃ r, rest = slashByte :: r) :
    splitNames (name ++ rest) [] = name :: splitNames rest.tail [] := by
  rw [splitNames_append hn, List.nil_append]
  rcases hr with rfl | ⟨r, rfl⟩
  · rw [splitNames, if_neg hne]
    rfl
  · rw [splitNames, if_pos rfl, if_neg hne]
    rfl

lemma Listed.cons {next t' : TokenBuffer} (h : Listed next t' (start + name.length + 1) names)
    (hc : next.count = t.count + 1) (ho : next.offsets = Function.update t.offsets t.count start)
    (ha : next.absolute = t.absolute) (hd : next.directory = t.directory) (ht : ∀ j < i, next.text j = t.text j)
    (hi : i ≤ start) (hn : CString next.text start name) (hb : start + name.length < pathCapacity) :
    Listed t t' i (name :: names) := by
  have hat : t'.offsets t.count = start := by rw [h.offsets t.count (by omega), ho, Function.update_self]
  refine ⟨?_, fun j hj => ?_, fun k hk => ?_, ?_, h.absolute.trans ha, h.directory.trans hd⟩
  · rw [h.count, hc, List.length_cons]
    omega
  · rw [h.text j (by omega), ht j hj]
  · rw [h.offsets k (by omega), ho, Function.update_of_ne (by omega)]
  · have hrest := h.names
    rw [hc] at hrest
    rw [NamesAt, hat]
    exact ⟨hi, hb, hn.congr fun j _ hj => h.text j (by omega), hrest⟩

lemma Listed.nil {text : Mem} (h : ∀ j < i, text j = t.text j) : Listed t { t with text } i [] :=
  ⟨rfl, h, fun _ _ => rfl, trivial, rfl, rfl⟩

lemma tokenLoop_end : tokenLoop length fuel t length = .ok t := by
  cases fuel with
  | zero => rfl
  | succ fuel => rw [tokenLoop, if_neg (by omega)]

lemma tokenLoop_spec (h : CString t.text i s) (hi : i + s.length = length)
    (hl : length < pathCapacity) (hf : s.length ≤ fuel) (ht : t.count ≤ tokenLimit) :
    Refines (tokenLoop length fuel t i) (checkNames (splitNames s []) t.count)
      fun t' _ => Listed t t' i (splitNames s []) := by
  induction fuel generalizing t i s with
  | zero =>
    obtain rfl := List.length_eq_zero_iff.mp (Nat.le_zero.mp hf)
    exact ⟨t, rfl, .nil fun _ _ => rfl⟩
  | succ fuel ih =>
    by_cases hlt : i < length
    rotate_left
    · obtain rfl := List.length_eq_zero_iff.mp (by omega : s.length = 0)
      exact ⟨t, by rw [tokenLoop, if_neg hlt], .nil fun _ _ => rfl⟩
    obtain ⟨m', rest, h1, h2, h3, h4, h5, h6⟩ := clearSlashes_spec h hi hl (by omega : s.length ≤ length)
    have hlen := h3.length_le
    rw [h6, tokenLoop, if_pos hlt, h1]
    change Refines (if length - rest.length = length then _ else _) _ _
    by_cases hrest : rest = []
    · subst hrest
      exact ⟨{ t with text := m' }, if_pos rfl, .nil h5⟩
    have hpos := List.length_pos_iff.mpr hrest
    rw [if_neg (by omega)]
    obtain ⟨name, tail, hsplit, hname, htail, hend⟩ := nameEnd_spec h2
      (by omega : length - rest.length + rest.length = length) (by omega : rest.length ≤ length)
    have hne : name ≠ [] := by
      rintro rfl
      rcases htail with rfl | ⟨r, rfl⟩
      · exact hrest hsplit
      · exact h4 (by rw [hsplit]; rfl)
    have hlenr : rest.length = name.length + tail.length := by rw [hsplit, List.length_append]
    generalize hstart : length - rest.length = start at h2 hend ⊢
    rw [hsplit] at h2
    rw [hsplit, splitNames_first hname hne htail, checkNames]
    by_cases hfull : t.count = tokenLimit
    · rw [if_pos hfull, if_pos hfull]
      rfl
    rw [if_neg hfull, if_neg hfull]
    simp only [hend, Nat.add_sub_cancel_left]
    by_cases hlong : name.length ≥ nameCapacity
    · simp only [if_pos hlong]
      rfl
    have hmod : start % 65536 = start := Nat.mod_eq_of_lt (by unfold pathCapacity at hl; omega)
    have hpush : TokenBuffer.push { t with text := m' } start =
        .ok { t with text := m', offsets := Function.update t.offsets t.count start, count := t.count + 1 } := by
      rw [TokenBuffer.push, if_pos (lt_of_le_of_ne ht hfull), hmod]
    simp only [if_neg hlong, hpush]
    rcases htail with rfl | ⟨r, rfl⟩
    · -- the name ends with the text, where its NUL already is
      have hstop : start + name.length = length := by simp at hlenr; omega
      rw [List.append_nil] at h2
      let next : TokenBuffer :=
        { t with text := m', offsets := Function.update t.offsets t.count start, count := t.count + 1 }
      have hnil : Listed next next (start + name.length + 1) [] := .nil fun _ _ => rfl
      refine ⟨next, ?_, hnil.cons rfl rfl rfl rfl h5 (by omega) h2 (by omega)⟩
      rw [hstop]
      exact (if_neg (lt_irrefl length)).trans tokenLoop_end
    · have hrun := ih (t := { t with text := Function.update m' (start + name.length) 0,
                                     offsets := Function.update t.offsets t.count start, count := t.count + 1 })
        (i := start + name.length + 1) (s := r)
        ((cstring_cons.mp h2.append.2).2.congr fun j hj _ => Function.update_of_ne (by omega) _ _)
        (by simp at hlenr; omega) (by simp at hlenr; omega) (lt_of_le_of_ne ht hfull)
      have hgo : (if start + name.length < length then (do
            let text ← store m' (start + name.length) 0
            tokenLoop length fuel { t with text, offsets := Function.update t.offsets t.count start,
                                           count := t.count + 1 } (start + name.length + 1))
          else tokenLoop length fuel { t with text := m', offsets := Function.update t.offsets t.count start,
                                              count := t.count + 1 } (start + name.length)) =
          tokenLoop length fuel { t with text := Function.update m' (start + name.length) 0,
                                         offsets := Function.update t.offsets t.count start,
                                         count := t.count + 1 } (start + name.length + 1) := by
        rw [if_pos (by simp at hlenr; omega), store_ok (by simp at hlenr; omega)]
        rfl
      change Refines (if start + name.length < length then _ else _) _ _
      refine (congrArg (Refines · _ _) hgo).mpr ?_
      cases hcheck : checkNames (splitNames r []) (t.count + 1) with
      | error e =>
        rw [hcheck] at hrun
        simp only [List.tail_cons, hcheck]
        exact hrun
      | ok u =>
        rw [hcheck] at hrun
        obtain ⟨t', hr, hlisted⟩ := hrun
        simp only [List.tail_cons, hcheck]
        refine ⟨t', hr, hlisted.cons rfl rfl rfl rfl (fun j hj => ?_) (by omega) h2.cut (by omega)⟩
        exact (Function.update_of_ne (by omega) _ _).trans (h5 j hj)

structure Holds (t : TokenBuffer) (tokens : Tokens) : Prop where
  count : t.count = tokens.names.length
  names : NamesAt t.text t.offsets 0 0 tokens.names
  nonzero : ∀ name ∈ tokens.names, 0 ∉ name
  absolute : t.absolute = tokens.absolute
  directory : t.directory = tokens.directory

lemma mem_splitNames {current : Name} (h : name ∈ splitNames s current) (hc : c ∈ name) : c ∈ s ∨ c ∈ current := by
  induction s generalizing current with
  | nil =>
    rw [splitNames] at h
    split at h
    · cases h
    · rw [List.mem_singleton.mp h] at hc
      exact .inr hc
  | cons d s ih =>
    rw [splitNames] at h
    split at h
    · split at h
      · rcases ih h with hm | hm
        · exact .inl (List.mem_cons_of_mem d hm)
        · cases hm
      · rcases List.mem_cons.mp h with rfl | h
        · exact .inr hc
        · rcases ih h with hm | hm
          · exact .inl (List.mem_cons_of_mem d hm)
          · cases hm
    · rcases ih h with hm | hm
      · exact .inl (List.mem_cons_of_mem d hm)
      · rcases List.mem_append.mp hm with hm | hm
        · exact .inr hm
        · exact .inl (List.mem_singleton.mp hm ▸ List.mem_cons_self)

lemma not_mem_zero (h : ∀ c ∈ s, c = slashByte ∨ validByte c = true) : 0 ∉ s := by
  intro h0
  rcases h 0 h0 with h | h <;> revert h <;> decide

lemma collect_refines (input : List Byte) : Refines (collect input) (Fs.collect input) Holds := by
  unfold collect Fs.collect
  by_cases hne : input = []
  · rw [if_pos hne, if_pos hne]
    rfl
  rw [if_neg hne, if_neg hne]
  rcases scanPath_cases input (Nat.zero_le pathCapacity) with ⟨h1, h2, h3⟩ | ⟨h1, -⟩ | ⟨h1, -⟩
  rotate_left
  · rw [h1]
    rfl
  · rw [h1]
    rfl
  rw [Nat.zero_add] at h2
  simp only [h1, memcpy_ok (by omega : 0 + (input.length + 1) ≤ pathCapacity)]
  let t : TokenBuffer :=
    { text := fun j => if 0 ≤ j ∧ j < 0 + (input.length + 1) then input.getD (0 + (j - 0)) 0 else 0
      absolute := input.head? == some slashByte
      directory := input.getLast? == some slashByte }
  have htext : CString t.text 0 input := by
    intro j hj
    simp only [t, Nat.zero_add, Nat.sub_zero]
    rw [if_pos (by omega)]
  have hloop := tokenLoop_spec htext (Nat.zero_add _) h2 le_rfl (Nat.zero_le tokenLimit)
  cases hcheck : checkNames (splitNames input []) 0 with
  | error e =>
    rw [show t.count = 0 from rfl, hcheck] at hloop
    change Refines (tokenLoop input.length input.length t 0 >>= _) _ _
    rw [show tokenLoop input.length input.length t 0 = .error (some e) from hloop]
    rfl
  | ok u =>
    rw [show t.count = 0 from rfl, hcheck] at hloop
    obtain ⟨t', hrun, hlisted⟩ := hloop
    have hcount : t'.count = (splitNames input []).length := by rw [hlisted.count, show t.count = 0 from rfl]; omega
    have hnames : NamesAt t'.text t'.offsets 0 0 (splitNames input []) := hlisted.names
    have hzero : ∀ name ∈ splitNames input [], 0 ∉ name := fun name hn h0 => by
      rcases mem_splitNames hn h0 with hm | hm
      · exact not_mem_zero h3 hm
      · cases hm
    have hgo : (tokenLoop input.length input.length t 0 >>= fun t =>
        if t.count = 0 then Except.ok t
        else
          .ok { t with directory := t.directory || (equal t.text (t.offsets (t.count - 1)) [dotByte] ||
                                                     equal t.text (t.offsets (t.count - 1)) [dotByte, dotByte]) }) =
        if t'.count = 0 then Except.ok t'
        else
          .ok { t' with directory := t'.directory || (equal t'.text (t'.offsets (t'.count - 1)) [dotByte] ||
                                              equal t'.text (t'.offsets (t'.count - 1)) [dotByte, dotByte]) } := by
      rw [hrun]
      rfl
    refine (congrArg (Refines · _ _) hgo).mpr ?_
    by_cases hnil : splitNames input [] = []
    · rw [if_pos (by rw [hcount, hnil]; rfl)]
      refine ⟨t', rfl, hcount, hnames, hzero, hlisted.absolute, hlisted.directory.trans ?_⟩
      simp [t, hnil]
    · have hpos := List.length_pos_iff.mpr hnil
      rw [if_neg (by omega)]
      have hlt : t'.count - 1 < (splitNames input []).length := by omega
      have hlast := hnames.get hlt
      rw [Nat.zero_add] at hlast
      have hget : (splitNames input []).getLast? = some ((splitNames input [])[t'.count - 1]) := by
        rw [List.getLast?_eq_getElem?, ← hcount]
        exact List.getElem?_eq_getElem hlt
      have hmem : (splitNames input [])[t'.count - 1] ∈ splitNames input [] := List.getElem_mem _
      refine ⟨_, rfl, hcount, hnames, hzero, hlisted.absolute, ?_⟩
      have heq : ∀ lit : List Byte, 0 ∉ lit →
          equal t'.text (t'.offsets (t'.count - 1)) lit = ((splitNames input [])[t'.count - 1] == lit) := by
        intro lit hl
        rw [Bool.eq_iff_iff, equal_iff hlast (hzero _ hmem) hl, beq_iff_eq]
      simp only [heq [dotByte] (by decide), heq [dotByte, dotByte] (by decide), hget, Option.map_some, Option.getD_some,
        isDots, hlisted.directory, t]

/-! ## Folding tokens into the canonical text -/

structure Spells (b : CanonicalBuffer) (path : List Name) : Prop where
  text : CString b.text 0 (render path)
  length : b.length = (render path).length
  count : b.count = path.length
  previous : ∀ k < path.length, b.previous k = (render (path.take k)).length

lemma upperLoop_spec {at_ : Nat} (h : CString m (at_ + k) s) (hs : 0 ∉ s) (hb : at_ + k + s.length < pathCapacity)
    (hf : s.length < fuel) :
    ∃ m', upperLoop at_ fuel m k = .ok (m', k + s.length) ∧ CString m' (at_ + k) (s.map upper) ∧
      ∀ j, j < at_ + k ∨ at_ + k + s.length ≤ j → m' j = m j := by
  induction s generalizing m k fuel with
  | nil =>
    obtain ⟨fuel, rfl⟩ := Nat.exists_eq_succ_of_ne_zero (by omega : fuel ≠ 0)
    refine ⟨m, ?_, h, fun _ _ => rfl⟩
    rw [upperLoop]
    exact if_pos (cstring_nil.mp h)
  | cons c s ih =>
    obtain ⟨fuel, rfl⟩ := Nat.exists_eq_succ_of_ne_zero (by omega : fuel ≠ 0)
    simp only [List.length_cons] at hb hf
    obtain ⟨h0, hrest⟩ := cstring_cons.mp h
    have hc : c ≠ 0 := fun e => hs (e ▸ List.mem_cons_self)
    -- the byte is stored only when it changes
    have hstep : (if 97 ≤ c ∧ c ≤ 122 then store m (at_ + k) (c - 32) >>= fun text => upperLoop at_ fuel text (k + 1)
        else Except.ok m >>= fun text => upperLoop at_ fuel text (k + 1)) =
        upperLoop at_ fuel (Function.update m (at_ + k) (upper c)) (k + 1) := by
      unfold upper
      split
      · rw [store_ok (by omega)]
        rfl
      · rw [← h0, Function.update_eq_self]
        rfl
    obtain ⟨m', h1, h2, h3⟩ := ih (m := Function.update m (at_ + k) (upper c)) (k := k + 1)
      (hrest.congr fun j hj _ => Function.update_of_ne (by omega) _ _)
      (fun e => hs (List.mem_cons_of_mem c e)) (by omega) (by omega : s.length < fuel)
    refine ⟨m', ?_, ?_, fun j hj => ?_⟩
    · rw [upperLoop]
      simp only [h0, if_neg hc]
      refine (hstep.trans h1).trans ?_
      congr 2
      simp only [List.length_cons]
      omega
    · rw [List.map_cons, cstring_cons]
      refine ⟨?_, h2⟩
      rw [h3 (at_ + k) (by omega), Function.update_self]
    · simp only [List.length_cons] at hj
      rw [h3 j (by omega), Function.update_of_ne (by omega)]

lemma applyNames_cons {rest : List Name} :
    applyNames path (name :: rest) = applyNames path [name] >>= fun next => applyNames next rest := by
  rw [applyNames, applyNames]
  by_cases h1 : name = [dotByte]
  · rw [if_pos h1, if_pos h1]
    rfl
  by_cases h2 : name = [dotByte, dotByte]
  · rw [if_neg h1, if_neg h1, if_pos h2, if_pos h2]
    rfl
  rw [if_neg h1, if_neg h1, if_neg h2, if_neg h2]
  cases fsNameCheck name with
  | error e => rfl
  | ok u =>
    simp only
    by_cases hd : path.length = pathDepth
    · rw [if_pos hd, if_pos hd]
      rfl
    rw [if_neg hd, if_neg hd]
    by_cases hl : name.length ≥ pathCapacity - (render path).length - (if path = [] then 0 else 1)
    · rw [if_pos hl, if_pos hl]
      rfl
    · rw [if_neg hl, if_neg hl]
      rfl

lemma render_dropLast_prefix (path : List Name) : render path.dropLast <+: render path := by
  rcases List.eq_nil_or_concat path with rfl | ⟨init, last, rfl⟩
  · exact List.prefix_refl _
  rw [List.concat_eq_append, List.dropLast_concat, render_snoc]
  by_cases h : init = []
  · subst h
    exact ⟨last, rfl⟩
  · rw [if_neg h]
    exact List.prefix_append _ _

lemma render_length_gt (h : ∀ name ∈ path, name ≠ []) : (render path).length > 1 ↔ path ≠ [] := by
  cases path with
  | nil => simp [render]
  | cons name path =>
    have := List.length_pos_iff.mpr (h name List.mem_cons_self)
    rw [render_of_ne (by simp), List.flatMap_cons, List.length_append, List.length_cons]
    simp
    omega

lemma Spells.parent (h : Spells b path) (hc : Canonical path) (text : Mem) :
    ∃ b', (do
        let b := if b.count = 0 then b else { b with length := b.previous (b.count - 1), count := b.count - 1 }
        let canonical ← store b.text b.length 0
        return ({ b with text := canonical }, text) : Checked (CanonicalBuffer × Mem)) = .ok (b', text) ∧
      Spells b' path.dropLast := by
  obtain ⟨tail, htail⟩ := render_dropLast_prefix path
  have hcut : CString (Function.update b.text (render path.dropLast).length 0) 0 (render path.dropLast) := by
    have := h.text
    rw [← htail] at this
    simpa using this.cut
  have hlen : (render path.dropLast).length < pathCapacity := hc.dropLast.length
  by_cases hp : path = []
  · subst hp
    refine ⟨{ b with text := Function.update b.text b.length 0 }, ?_, ?_, h.length, h.count, h.previous⟩
    · simp only [h.count, List.length_nil, if_true]
      rw [store_ok (by rw [h.length]; exact hlen)]
      rfl
    · rw [h.length]
      exact hcut
  · have hpos := List.length_pos_iff.mpr hp
    have hprev : b.previous (b.count - 1) = (render path.dropLast).length := by
      rw [h.count, h.previous _ (by omega), List.dropLast_eq_take]
    refine ⟨{ b with text := Function.update b.text (render path.dropLast).length 0
                     length := (render path.dropLast).length, count := b.count - 1 }, ?_, hcut, rfl, ?_, fun k hk => ?_⟩
    · simp only [if_neg (by rw [h.count]; omega : b.count ≠ 0), hprev]
      rw [store_ok hlen]
      rfl
    · rw [List.length_dropLast, h.count]
    · rw [List.length_dropLast] at hk
      rw [h.previous k (by omega), List.dropLast_eq_take, List.take_take, Nat.min_eq_left (by omega)]

/-- The canonical text of a path with a name of the token text copied behind it. -/
def joined (canonical : Mem) (path : List Name) (text : Mem) (start length : Nat) : Mem := fun j =>
  let stop := (render path).length + (if path = [] then 0 else 1)
  if stop ≤ j ∧ j < stop + (length + 1) then text (start + (j - stop))
  else if path = [] then canonical j else Function.update canonical (render path).length slashByte j

lemma Spells.text_snoc (h : Spells b path) (hs : CString text start name) :
    CString (joined b.text path text start name.length) 0 (render (path ++ [name])) := by
  have hname : CString (joined b.text path text start name.length)
      ((render path).length + (if path = [] then 0 else 1)) name := by
    intro j hj
    simp only [joined]
    rw [if_pos (by omega), Nat.add_sub_cancel_left, hs j hj]
  rw [render_snoc]
  by_cases hp : path = []
  · subst hp
    simp only [if_true, List.nil_append] at hname ⊢
    exact cstring_cons.mpr ⟨h.text 0 (Nat.zero_le _), hname⟩
  · rw [if_neg hp] at hname ⊢
    refine CString.of_append (fun j hj => ?_) ?_
    · simp only [joined, if_neg hp]
      rw [if_neg (by omega), Function.update_of_ne (by omega)]
      exact h.text j hj.le
    · refine cstring_cons.mpr ⟨?_, by rwa [Nat.zero_add]⟩
      simp only [joined, if_neg hp, Nat.zero_add]
      rw [if_neg (by omega), Function.update_self]

lemma Spells.append (h : Spells b path) (hc : Canonical path)
    (hd : path.length ≠ pathDepth) (hs : CString text start name) (hz : 0 ∉ name)
    (hb : start + name.length < pathCapacity)
    (hl : ¬name.length ≥ pathCapacity - (render path).length - (if path = [] then 0 else 1)) :
    ∃ b' text', appendName b text start = .ok (b', text') ∧ Spells b' (path ++ [name.map upper]) ∧
      CString text' start (name.map upper) ∧ ∀ j, j < start ∨ start + name.length ≤ j → text' j = text j := by
  have hne : ∀ n ∈ path, n ≠ [] := fun n hm => by
    obtain ⟨stem, ext, hshape⟩ := nameShape_of_check (hc.checked n hm)
    exact hshape.text.1
  obtain ⟨text', h1, h2, h3⟩ := upperLoop_spec (k := 0) hs hz hb (by omega : name.length < pathCapacity)
  rw [Nat.zero_add] at h1
  rw [Nat.add_zero] at h2 h3
  have hdepth := hc.depth
  have hslash : (if (render path).length > 1 then 1 else 0) = if path = [] then 0 else 1 := by
    by_cases hp : path = []
    · rw [if_pos hp, if_neg (by rw [render_length_gt hne]; exact fun e => e hp)]
    · rw [if_neg hp, if_pos ((render_length_gt hne).mpr hp)]
  have hfit : (render path).length + (if path = [] then 0 else 1) + (name.length + 1) ≤ pathCapacity := by
    split at hl <;> split <;> omega
  have hsave : b.save = .ok { b with previous := Function.update b.previous b.count b.length, count := b.count + 1 } :=
    if_pos (by rw [h.count]; omega)
  have htext := h.text_snoc h2
  rw [List.length_map] at htext
  refine ⟨{ text := joined b.text path text' start name.length
            length := (render path).length + (if path = [] then 0 else 1) + name.length
            count := b.count + 1
            previous := Function.update b.previous b.count b.length }, text', ?_, ⟨htext, ?_, ?_, ?_⟩, h2, h3⟩
  · rw [appendName, h1]
    simp only [bind, Except.bind, hslash, h.length, if_neg hl, hsave]
    by_cases hp : path = []
    · have hjoin : joined b.text path text' start name.length = fun j =>
          if (render path).length + 0 ≤ j ∧ j < (render path).length + 0 + (name.length + 1) then
            text' (start + (j - ((render path).length + 0)))
          else b.text j := funext fun j => by simp only [joined, if_pos hp]
      simp only [if_pos hp] at hfit ⊢
      rw [if_neg (by omega), memcpy_ok hfit, hjoin]
      rfl
    · have hjoin : joined b.text path text' start name.length = fun j =>
          if (render path).length + 1 ≤ j ∧ j < (render path).length + 1 + (name.length + 1) then
            text' (start + (j - ((render path).length + 1)))
          else Function.update b.text (render path).length slashByte j := funext fun j => by
        simp only [joined, if_neg hp]
      simp only [if_neg hp, if_true] at hfit ⊢
      rw [store_ok (by omega)]
      simp only [memcpy_ok hfit, hjoin]
      rfl
  · rw [render_snoc]
    by_cases hp : path = []
    · subst hp
      simp [render]
      omega
    · simp only [if_neg hp, List.length_append, List.length_cons, List.length_map]
      omega
  · simp [h.count]
  · intro k hk
    simp only [List.length_append, List.length_singleton] at hk
    by_cases hkn : k = path.length
    · subst hkn
      simp only [h.count, Function.update_self, h.length, List.take_left]
    · simp only [h.count, Function.update_of_ne hkn]
      rw [h.previous k (by omega), List.take_append_of_le_length (by omega)]

/-- What a round of `apply` leaves in the token text: the name in upper case, and nothing else changed. -/
def Cased (text text' : Mem) (start : Nat) (name : Name) : Prop :=
  CString text' start (name.map upper) ∧ ∀ j, j < start ∨ start + name.length ≤ j → text' j = text j

lemma applyName_refines (h : Spells b path) (hc : Canonical path)
    (hs : CString text start name) (hz : 0 ∉ name) (hb : start + name.length < pathCapacity) :
    Refines (applyName b text start) (applyNames path [name])
      fun r next => Spells r.1 next ∧ Cased text r.2 start name := by
  rw [applyName, applyNames]
  by_cases h1 : name = [dotByte]
  · rw [if_pos ((equal_iff hs hz (by decide)).mpr h1), if_pos h1]
    exact ⟨_, rfl, h, by subst h1; exact hs, fun _ _ => rfl⟩
  rw [if_neg (by rw [equal_iff hs hz (by decide)]; exact h1), if_neg h1]
  by_cases h2 : name = [dotByte, dotByte]
  · rw [if_pos ((equal_iff hs hz (by decide)).mpr h2), if_pos h2]
    obtain ⟨b', hrun, hsp⟩ := h.parent hc text
    exact ⟨(b', text), hrun, hsp, by subst h2; exact hs, fun _ _ => rfl⟩
  rw [if_neg (by rw [equal_iff hs hz (by decide)]; exact h2), if_neg h2, stringAt_eq hs hz (by omega)]
  cases hcheck : fsNameCheck name with
  | error e => rfl
  | ok u =>
    simp only [h.count]
    by_cases hd : path.length = pathDepth
    · rw [if_pos hd, if_pos hd]
      rfl
    rw [if_neg hd, if_neg hd]
    have hroom := hc.room hcheck (lt_of_le_of_ne hc.depth hd)
    rw [if_neg hroom]
    obtain ⟨b', text', hrun, hsp, hcs, hother⟩ := h.append hc hd hs hz hb hroom
    exact ⟨(b', text'), hrun, hsp, hcs, hother⟩

lemma applyLoop_refines (h : Spells b path) (hc : Canonical path)
    (hn : NamesAt text offsets k low names) (hz : ∀ name ∈ names, 0 ∉ name) :
    Refines (applyLoop offsets names.length k b text) (applyNames path names) fun r next =>
      Spells r.1 next ∧ NamesAt r.2 offsets k low (names.map (·.map upper)) ∧ ∀ j < low, r.2 j = text j := by
  induction names generalizing k low b path text with
  | nil => exact ⟨(b, text), rfl, h, trivial, fun _ _ => rfl⟩
  | cons name names ih =>
    obtain ⟨hlow, hb, hs, hrest⟩ := hn
    obtain ⟨hz0, hz⟩ := List.forall_mem_cons.mp hz
    have hfirst := applyName_refines h hc hs hz0 hb
    rw [applyNames_cons, List.length_cons, applyLoop]
    cases hone : applyNames path [name] with
    | error e =>
      rw [hone] at hfirst
      rw [show applyName b text (offsets k) = .error (some e) from hfirst]
      rfl
    | ok next =>
      rw [hone] at hfirst
      obtain ⟨⟨b', text'⟩, hrun, hsp, hcs, hother⟩ := hfirst
      have hnext : Canonical next := (applyNames_ok hc hone).1
      have hafter := hrest.congr fun j hj => hother j (.inr (by omega))
      have htail := ih hsp hnext hafter hz
      rw [hrun]
      change Refines (applyLoop offsets names.length (k + 1) b' text') (applyNames next names) _
      cases hmore : applyNames next names with
      | error e =>
        rw [hmore] at htail
        exact htail
      | ok last =>
        rw [hmore] at htail
        obtain ⟨r, hr, hsp', hnames, hkeep⟩ := htail
        refine ⟨r, hr, hsp', ⟨hlow, by simpa using hb, ?_, by simpa using hnames⟩, fun j hj => ?_⟩
        · refine hcs.congr fun j _ hj => hkeep j ?_
          rw [List.length_map] at hj
          omega
        · rw [hkeep j (by omega), hother j (.inl (by omega))]

lemma upper_eq_zero (h : upper c = 0) : c = 0 := by
  unfold upper at h
  split at h
  · rename_i hc
    have : c = 32 := by rw [← UInt8.sub_add_cancel c 32, h, UInt8.zero_add]
    subst this
    exact absurd hc (by decide)
  · exact h

lemma apply_refines {tokens : Tokens} (h : Spells b path) (hc : Canonical path) (ht : Holds t tokens) :
    Refines (apply b t) (applyNames path tokens.names) fun r next => Spells r.1 next ∧ Holds r.2 tokens.upper := by
  have hloop := applyLoop_refines h hc ht.names ht.nonzero
  rw [← ht.count] at hloop
  rw [apply]
  cases hr : applyNames path tokens.names with
  | error e =>
    rw [hr] at hloop
    rw [show applyLoop t.offsets t.count 0 b t.text = .error (some e) from hloop]
    rfl
  | ok next =>
    rw [hr] at hloop
    obtain ⟨⟨b', text'⟩, hrun, hsp, hnames, -⟩ := hloop
    rw [hrun]
    refine ⟨(b', { t with text := text' }), rfl, hsp, ?_, hnames, fun name hn h0 => ?_, ht.absolute, ht.directory⟩
    · exact ht.count.trans (List.length_map _).symm
    · obtain ⟨raw, hraw, rfl⟩ := List.mem_map.mp hn
      obtain ⟨c, hcm, hcz⟩ := List.mem_map.mp h0
      exact ht.nonzero raw hraw (upper_eq_zero hcz ▸ hcm)

/-- **Parsing in buffers.** `fs_path_parse` over its buffers does what it does on lists; no write leaves a buffer. -/
lemma fsPathParse_refines (base input : List Byte) :
    Refines (fsPathParse base input) (Fs.fsPathParse base input) fun r plan =>
      CString r.canonical 0 (render plan.canonical) ∧ r.depth = plan.depth ∧ Holds r.base plan.base ∧
        Holds r.input plan.input := by
  have hbase := collect_refines base
  have hinput := collect_refines input
  rw [fsPathParse, Fs.fsPathParse]
  cases hb : Fs.collect base with
  | error e =>
    rw [hb] at hbase
    rw [show collect base = .error (some e) from hbase]
    rfl
  | ok tokens =>
  rw [hb] at hbase
  obtain ⟨t, ht, hholds⟩ := hbase
  simp only [ht, bind, Except.bind, hholds.absolute]
  cases habs : tokens.absolute with
  | false => rfl
  | true =>
  simp only [Bool.not_true, Bool.false_eq_true, if_false]
  cases hi : Fs.collect input with
  | error e =>
    rw [hi] at hinput
    rw [show collect input = .error (some e) from hinput]
    rfl
  | ok tokens' =>
  rw [hi] at hinput
  obtain ⟨t', ht', hholds'⟩ := hinput
  simp only [ht', store_ok (by decide : 0 < pathCapacity)]
  have hroot : Spells { text := Function.update (fun _ => 0) 0 slashByte } [] :=
    ⟨cstring_cons.mpr ⟨rfl, cstring_nil.mpr rfl⟩, rfl, rfl, nofun⟩
  have hone := apply_refines hroot .nil hholds
  cases ha : applyNames [] tokens.names with
  | error e =>
    rw [ha] at hone
    rw [show apply _ t = .error (some e) from hone]
    rfl
  | ok start =>
  rw [ha] at hone
  obtain ⟨⟨b, t1⟩, hr, hsp, ht1⟩ := hone
  simp only [hr]
  have hstart : Canonical start := (applyNames_ok .nil ha).1
  -- the second pass starts from the root again, or from where the first one ended
  have hagain : ∃ b', Spells b' (if tokens'.absolute = true then [] else start) ∧
      ∀ next : CanonicalBuffer → Checked PathBuffer, (if t'.absolute = true then
          (store b.text 1 0 >>= fun canonical => pure { text := canonical }) >>= next else next b) = next b' := by
    rw [hholds'.absolute]
    by_cases hrel : tokens'.absolute = true
    · refine ⟨{ text := Function.update b.text 1 0 }, ?_, fun next => ?_⟩
      · rw [if_pos hrel]
        have hfirst := hsp.text
        rw [render_eq_intercalate, cstring_cons] at hfirst
        refine ⟨cstring_cons.mpr ⟨?_, cstring_nil.mpr (Function.update_self 1 0 b.text)⟩, rfl, rfl, nofun⟩
        exact (Function.update_of_ne Nat.zero_ne_one 0 b.text).trans hfirst.1
      · rw [if_pos hrel, store_ok (by decide)]
        rfl
    · exact ⟨b, by rw [if_neg hrel]; exact hsp, fun next => if_neg hrel⟩
  obtain ⟨b', hsp', hgo⟩ := hagain
  have hcan : Canonical (if tokens'.absolute = true then [] else start) := by
    split
    · exact .nil
    · exact hstart
  have htwo := apply_refines hsp' hcan hholds'
  refine (congrArg (Refines · _ _) (hgo fun path => apply path t' >>= fun r =>
    pure { base := t1, input := r.2, canonical := r.1.text, depth := r.1.count % 65536 })).mpr ?_
  cases hlast : applyNames (if tokens'.absolute = true then [] else start) tokens'.names with
  | error e =>
    rw [hlast] at htwo
    rw [show apply b' t' = .error (some e) from htwo]
    rfl
  | ok result =>
    rw [hlast] at htwo
    obtain ⟨⟨b2, t2⟩, hr2, hsp2, ht2⟩ := htwo
    rw [hr2]
    have hdepth : b2.count % 65536 = result.length := by
      have := (applyNames_ok hcan hlast).1.depth
      unfold pathDepth at this
      rw [show b2.count = result.length from hsp2.count, Nat.mod_eq_of_lt (by omega)]
    exact ⟨_, rfl, hsp2.text, hdepth, ht1, ht2⟩

/-- **Path parsing.** No write leaves a buffer, and `fs_path_parse` accepts exactly its grammar. An accepted pair gives
the canonical text, its depth, and the components of the input in upper case; the canonical text, read again from any
accepted base path, gives itself. A text is too long only by its own bytes and a path too deep only by its folded
components, so neither the token limit nor the length of the canonical text ever rejects anything. -/
theorem path_parse_grammar (base input : List Byte) : fsPathParse base input ≠ .error none ∧
    ((∃ r, fsPathParse base input = .ok r) ↔ Parses base input) ∧ (∀ r, fsPathParse base input = .ok r →
      CString r.canonical 0 (slashByte :: [slashByte].intercalate (resolved base input)) ∧
      r.depth = (resolved base input).length ∧ r.input.count = (components input).length ∧
      (∀ k (hk : k < (components input).length),
        CString r.input.text (r.input.offsets k) ((components input)[k].map upper)) ∧
      ∀ other, (∃ r', fsPathParse other [slashByte] = .ok r') →
        ∃ again, fsPathParse other (render (resolved base input)) = .ok again ∧
          CString again.canonical 0 (render (resolved base input)) ∧ again.depth = r.depth) ∧
    (fsPathParse base input = .error (some .pathTooLong) →
      pathCapacity ≤ base.length ∨ pathCapacity ≤ input.length) ∧ (fsPathParse base input = .error (some .tooDeep) →
      ¬(Shallow [] (components base) ∧ Shallow (startOf base input) (components input))) := by
  have href := fsPathParse_refines base input
  rcases fsPathParse_cases base input with ⟨hok, hparses⟩ | ⟨e, herr, hno, hlong, hdeep⟩
  · rw [hok] at href
    obtain ⟨r, hr, hcanon, hdepth, -, hinput⟩ := href
    rw [hr]
    refine ⟨by simp, iff_of_true ⟨r, rfl⟩ hparses, ?_, by simp, by simp⟩
    rintro r' ⟨⟩
    refine ⟨?_, hdepth, ?_, fun k hk => ?_, ?_⟩
    · rw [← render_eq_intercalate]
      exact hcanon
    · exact hinput.count.trans (List.length_map _)
    · have hname := hinput.names.get (n := k) (by simpa [planOf, Tokens.upper, tokensOf] using hk)
      rw [Nat.zero_add] at hname
      simpa [planOf, Tokens.upper, tokensOf] using hname
    · rintro other ⟨r', hother⟩
      have hroot := fsPathParse_refines other [slashByte]
      have hagain := fsPathParse_refines other (render (resolved base input))
      cases hplan : Fs.fsPathParse other [slashByte] with
      | error e =>
        rw [hplan, hother] at hroot
        cases hroot
      | ok plan =>
        obtain ⟨plan', hp', hc', hd'⟩ := fsPathParse_again hparses.canonical hplan
        rw [hp'] at hagain
        obtain ⟨again, ha, hac, had, -⟩ := hagain
        exact ⟨again, ha, hc' ▸ hac, (had.trans hd').trans hdepth.symm⟩
  · rw [herr] at href
    have hrun : fsPathParse base input = .error (some e) := href
    rw [hrun]
    refine ⟨by simp, iff_of_false (by rintro ⟨r, h⟩; cases h) hno, by rintro r ⟨⟩, fun h => ?_, fun h => ?_⟩
    · exact hlong (Option.some.inj (Except.error.inj h))
    · exact hdeep (Option.some.inj (Except.error.inj h))

end RumKernel.Fs.Buffered
