import RumKernel.Fs.Name

/-!
# Paths

`path.c`: the lexical part of path handling. `collect` cuts a text into components, `apply` folds them
into a canonical path, upper-casing names and removing dot components, and `fs_path_parse` does both for a
base path and an input. A canonical path is kept as the list of its components; `render` is its text.
-/

namespace RumKernel.Fs
open Lib

structure Tokens where
  names : List Name
  absolute : Bool
  directory : Bool

/-- `struct fs_path`, without the mount, of which there is one. -/
structure FsPath where
  base : Tokens
  input : Tokens
  canonical : List Name
  depth : Nat

def render : List Name → List Byte
  | [] => [slashByte]
  | names => names.flatMap fun name => slashByte :: name

/-- The first loop of `collect`, `length` bytes having been looked at. -/
def scanPath : List Byte → Nat → Except FsError Unit
  | [], length => if length = pathCapacity then .error .pathTooLong else .ok ()
  | c :: rest, length =>
    if length = pathCapacity then .error .pathTooLong
    else if c ≠ slashByte ∧ !validByte c then .error .invalid
    else scanPath rest (length + 1)

/-- The components of a text; `name` is the part of the current one. -/
def splitNames : List Byte → Name → List Name
  | [], name => if name = [] then [] else [name]
  | c :: rest, name =>
    if c = slashByte then if name = [] then splitNames rest [] else name :: splitNames rest []
    else splitNames rest (name ++ [c])

/-- The limits `collect` puts on the components, `count` of them having been stored. -/
def checkNames : List Name → Nat → Except FsError Unit
  | [], _ => .ok ()
  | name :: rest, count =>
    if count = tokenLimit then .error .tooDeep
    else if name.length ≥ nameCapacity then .error .nameTooLong
    else checkNames rest (count + 1)

/-- A component that is `.` or `..`. -/
def isDots (name : Name) : Bool := name == [dotByte] || name == [dotByte, dotByte]

def collect (input : List Byte) : Except FsError Tokens := do
  if input = [] then .error .invalid
  scanPath input 0
  let names := splitNames input []
  checkNames names 0
  return {
    names
    absolute := input.head? == some slashByte
    directory := input.getLast? == some slashByte || (names.getLast?.map isDots).getD false }

/-- `apply`: fold components into the canonical path. -/
def applyNames : List Name → List Name → Except FsError (List Name)
  | path, [] => .ok path
  | path, name :: rest =>
    if name = [dotByte] then applyNames path rest
    else if name = [dotByte, dotByte] then applyNames path.dropLast rest
    else
      match fsNameCheck name with
      | .error e => .error e
      | .ok _ =>
        if path.length = pathDepth then .error .tooDeep
        else if name.length ≥ pathCapacity - (render path).length - (if path = [] then 0 else 1) then
          .error .pathTooLong
        else applyNames (path ++ [name.map upper]) rest

/-- The components after `apply`, which stores the upper-case letters in place. -/
def Tokens.upper (t : Tokens) : Tokens := { t with names := t.names.map fun name => name.map Fs.upper }

def fsPathParse (base input : List Byte) : Except FsError FsPath := do
  let base ← collect base
  if !base.absolute then .error .invalid
  let input ← collect input
  let start ← applyNames [] base.names
  let canonical ← applyNames (if input.absolute then [] else start) input.names
  return { base := base.upper, input := input.upper, canonical, depth := canonical.length }

/-! ## Canonical paths -/

/-- A path as `fs_path_parse` leaves it. -/
structure Canonical (path : List Name) : Prop where
  checked : ∀ name ∈ path, fsNameCheck name = .ok ()
  upper : ∀ name ∈ path, name.map Fs.upper = name
  depth : path.length ≤ pathDepth
  length : (render path).length < pathCapacity

variable {path names : List Name} {name : Name} {rest : List Byte}

lemma Canonical.nil : Canonical [] := ⟨by simp, by simp, by decide, by decide⟩

lemma render_of_ne (h : path ≠ []) : render path = path.flatMap fun name => slashByte :: name := by
  cases path with
  | nil => exact absurd rfl h
  | cons => rfl

lemma render_snoc : render (path ++ [name]) = (if path = [] then [] else render path) ++ slashByte :: name := by
  rw [render_of_ne (by simp)]
  by_cases h : path = []
  · simp [h]
  · simp [h, render_of_ne h]

lemma length_render_le (h : path <+: names) : (render path).length ≤ (render names).length := by
  obtain ⟨tail, rfl⟩ := h
  by_cases hp : path = []
  · subst hp
    cases tail with
    | nil => exact le_rfl
    | cons n tail => simp [render]
  · rw [render_of_ne hp, render_of_ne (by simp [hp])]
    simp

lemma Canonical.of_prefix (h : Canonical names) (hp : path <+: names) : Canonical path :=
  ⟨fun n hn => h.checked n (hp.subset hn), fun n hn => h.upper n (hp.subset hn), hp.length_le.trans h.depth,
    (length_render_le hp).trans_lt h.length⟩

lemma Canonical.dropLast (h : Canonical path) : Canonical path.dropLast := h.of_prefix (List.dropLast_prefix path)

/-- The canonical path after one component. -/
def walkName (path : List Name) (name : Name) : List Name :=
  if name = [dotByte] then path else if name = [dotByte, dotByte] then path.dropLast else path ++ [name.map upper]

/-- A component `apply` accepts: a dot component or a checked name. -/
def Component (name : Name) : Prop := name = [dotByte] ∨ name = [dotByte, dotByte] ∨ fsNameCheck name = .ok ()

lemma walkName_upper : walkName path (name.map upper) = walkName path name := by
  simp only [walkName, map_upper_eq_dot, map_upper_eq_dots, map_upper_upper]

lemma Component.upper (h : Component name) : Component (name.map upper) := by
  rcases h with rfl | rfl | h
  · exact .inl rfl
  · exact .inr (.inl rfl)
  · exact .inr (.inr (fsNameCheck_upper.trans h))

lemma Canonical.snoc (h : Canonical path) (hn : fsNameCheck name = .ok ()) (hd : path.length ≠ pathDepth)
    (hl : ¬name.length ≥ pathCapacity - (render path).length - (if path = [] then 0 else 1)) :
    Canonical (path ++ [name.map Fs.upper]) := by
  have hdepth := h.depth
  refine ⟨fun n hm => ?_, fun n hm => ?_, by simp; omega, ?_⟩
  · rcases List.mem_append.mp hm with hm | hm
    · exact h.checked n hm
    · rw [List.mem_singleton.mp hm, fsNameCheck_upper]
      exact hn
  · rcases List.mem_append.mp hm with hm | hm
    · exact h.upper n hm
    · rw [List.mem_singleton.mp hm, map_upper_upper]
  · rw [render_snoc]
    by_cases hp : path = []
    · subst hp
      simp [render, pathCapacity] at hl ⊢
      omega
    · simp only [hp, if_false, List.length_append, List.length_cons, List.length_map] at hl ⊢
      omega

lemma applyNames_ok {result : List Name} (hp : Canonical path) (h : applyNames path names = .ok result) :
    Canonical result ∧ result = names.foldl walkName path ∧ ∀ name ∈ names, Component name := by
  induction names generalizing path with
  | nil =>
    cases h
    exact ⟨hp, rfl, by simp⟩
  | cons name names ih =>
    unfold applyNames at h
    by_cases h1 : name = [dotByte]
    · rw [if_pos h1] at h
      obtain ⟨hc, hr, hn⟩ := ih hp h
      refine ⟨hc, ?_, List.forall_mem_cons.mpr ⟨.inl h1, hn⟩⟩
      rw [List.foldl_cons, walkName, if_pos h1, hr]
    by_cases h2 : name = [dotByte, dotByte]
    · rw [if_neg h1, if_pos h2] at h
      obtain ⟨hc, hr, hn⟩ := ih hp.dropLast h
      refine ⟨hc, ?_, List.forall_mem_cons.mpr ⟨.inr (.inl h2), hn⟩⟩
      rw [List.foldl_cons, walkName, if_neg h1, if_pos h2, hr]
    rw [if_neg h1, if_neg h2] at h
    cases hcheck : fsNameCheck name with
    | error e => simp [hcheck] at h
    | ok u =>
      simp only [hcheck] at h
      by_cases hd : path.length = pathDepth
      · simp [hd] at h
      rw [if_neg hd] at h
      by_cases hl : name.length ≥ pathCapacity - (render path).length - (if path = [] then 0 else 1)
      · rw [if_pos hl] at h
        cases h
      rw [if_neg hl] at h
      obtain ⟨hc, hr, hn⟩ := ih (hp.snoc hcheck hd hl) h
      refine ⟨hc, ?_, List.forall_mem_cons.mpr ⟨.inr (.inr hcheck), hn⟩⟩
      rw [List.foldl_cons, walkName, if_neg h1, if_neg h2, hr]

lemma applyNames_self (h : Canonical (path ++ names)) : applyNames path names = .ok (path ++ names) := by
  induction names generalizing path with
  | nil => simp [applyNames]
  | cons name names ih =>
    have hn := h.checked name (by simp)
    have hu := h.upper name (by simp)
    obtain ⟨h1, h2⟩ := not_dots_of_check hn
    have hnext : Canonical (path ++ [name]) := h.of_prefix ⟨names, by simp⟩
    have hd := hnext.depth
    have hl := hnext.length
    have hlen : ¬name.length ≥ pathCapacity - (render path).length - (if path = [] then 0 else 1) := by
      rw [render_snoc] at hl
      by_cases hp : path = []
      · subst hp
        simp [render, pathCapacity] at hl ⊢
        omega
      · simp only [hp, if_false, List.length_append, List.length_cons] at hl ⊢
        omega
    have hdepth : path.length ≠ pathDepth := by
      simp only [List.length_append, List.length_cons, List.length_nil] at hd
      omega
    unfold applyNames
    simp only [h1, h2, if_false, hn, hdepth, hlen, hu]
    rw [ih (by simpa using h)]
    simp

/-! ## Reading a canonical path back -/

lemma splitNames_append {current : Name} (h : ∀ c ∈ name, c ≠ slashByte) :
    splitNames (name ++ rest) current = splitNames rest (current ++ name) := by
  induction name generalizing current with
  | nil => simp
  | cons c name ih =>
    obtain ⟨hc, hn⟩ := List.forall_mem_cons.mp h
    rw [List.cons_append, splitNames, if_neg hc, ih hn]
    simp

lemma splitNames_render {current : Name} (h : ∀ name ∈ names, name ≠ [] ∧ ∀ c ∈ name, c ≠ slashByte) :
    splitNames (names.flatMap fun name => slashByte :: name) current =
      if current = [] then names else current :: names := by
  induction names generalizing current with
  | nil => rfl
  | cons name names ih =>
    obtain ⟨⟨hne, hs⟩, hn⟩ := List.forall_mem_cons.mp h
    rw [List.flatMap_cons, List.cons_append, splitNames, if_pos rfl, splitNames_append hs, List.nil_append, ih hn,
      if_neg hne]

lemma scanPath_ok {text : List Byte} {n : Nat} (h : ∀ c ∈ text, c = slashByte ∨ validByte c = true)
    (hl : n + text.length < pathCapacity) : scanPath text n = .ok () := by
  induction text generalizing n with
  | nil =>
    rw [scanPath, if_neg]
    simp at hl
    omega
  | cons c text ih =>
    obtain ⟨hc, ht⟩ := List.forall_mem_cons.mp h
    simp only [List.length_cons] at hl
    rw [scanPath, if_neg (by omega), if_neg, ih ht (by omega)]
    rintro ⟨h1, h2⟩
    rcases hc with hc | hc
    · exact h1 hc
    · simp [hc] at h2

lemma checkNames_ok {n : Nat} (h : ∀ name ∈ names, name.length < nameCapacity) (hl : n + names.length ≤ tokenLimit) :
    checkNames names n = .ok () := by
  induction names generalizing n with
  | nil => rfl
  | cons name names ih =>
    obtain ⟨hn, ht⟩ := List.forall_mem_cons.mp h
    simp only [List.length_cons] at hl
    rw [checkNames, if_neg (by omega), if_neg (by omega), ih ht (by omega)]

lemma collect_render (h : Canonical path) : collect (render path) =
    .ok { names := path, absolute := true, directory := path = [] } := by
  have hshape : ∀ name ∈ path, name ≠ [] ∧ name.length ≤ 12 ∧ ∀ c ∈ name, validByte c = true := by
    intro name hn
    obtain ⟨stem, ext, hs⟩ := nameShape_of_check (h.checked name hn)
    exact hs.text
  by_cases hp : path = []
  · subst hp
    rfl
  have hsplit : splitNames (render path) [] = path := by
    rw [render_of_ne hp, splitNames_render fun name hn => ⟨(hshape name hn).1, fun c hc =>
      validByte_ne_slash ((hshape name hn).2.2 c hc)⟩, if_pos rfl]
  have hscan : scanPath (render path) 0 = .ok () := by
    refine scanPath_ok (fun c hc => ?_) (by rw [Nat.zero_add]; exact h.length)
    rw [render_of_ne hp] at hc
    obtain ⟨name, hn, hc⟩ := List.mem_flatMap.mp hc
    rcases List.mem_cons.mp hc with rfl | hc
    · exact .inl rfl
    · exact .inr ((hshape name hn).2.2 c hc)
  have hcheck : checkNames path 0 = .ok () := by
    refine checkNames_ok (fun name hn => ?_) ?_
    · have := (hshape name hn).2.1
      unfold nameCapacity
      omega
    · have := h.depth
      unfold pathDepth at this
      unfold tokenLimit
      omega
  obtain ⟨init, last, rfl⟩ : ∃ init last, path = init ++ [last] := by
    rcases List.eq_nil_or_concat path with e | ⟨init, last, e⟩
    · exact absurd e hp
    · exact ⟨init, last, by rw [e, List.concat_eq_append]⟩
  obtain ⟨hne, -, hv⟩ := hshape last (by simp)
  have hdots := not_dots_of_check (h.checked last (by simp))
  have hhead : (render (init ++ [last])).head? = some slashByte := by
    rw [render_of_ne (by simp)]
    cases init <;> rfl
  have hlast : (render (init ++ [last])).getLast? ≠ some slashByte := by
    obtain ⟨body, c, rfl⟩ : ∃ body c, last = body ++ [c] := by
      rcases List.eq_nil_or_concat last with e | ⟨body, c, e⟩
      · exact absurd e hne
      · exact ⟨body, c, by rw [e, List.concat_eq_append]⟩
    rw [render_snoc, ← List.cons_append, ← List.append_assoc, List.getLast?_concat]
    exact fun e => validByte_ne_slash (hv c (by simp)) (Option.some.inj e)
  have hfalse : ((init ++ [last]).getLast?.map isDots).getD false = false := by
    simp [isDots, hdots.1, hdots.2]
  have hlast' : ((render (init ++ [last])).getLast? == some slashByte) = false := by simpa using hlast
  have hne' : render (init ++ [last]) ≠ [] := fun e => by rw [e] at hhead; cases hhead
  simp only [collect, hne', if_false, hscan, hsplit, hcheck, hhead, hlast', hfalse]
  simp
  rfl

/-- **Parsing.** What a plan made from a canonical base path says. -/
lemma fsPathParse_ok {input : List Byte} {plan : FsPath} (hp : Canonical path)
    (h : fsPathParse (render path) input = .ok plan) : plan.base.names = path ∧ Canonical plan.canonical ∧
      plan.canonical = plan.input.names.foldl walkName (if plan.input.absolute then [] else path) ∧
      ∀ name ∈ plan.input.names, Component name ∧ name.map upper = name := by
  unfold fsPathParse at h
  rw [collect_render hp] at h
  cases hi : collect input with
  | error e => simp [hi, bind, Except.bind] at h
  | ok tokens =>
    have hself : applyNames [] path = .ok ([] ++ path) := applyNames_self (by simpa using hp)
    rw [List.nil_append] at hself
    cases hc : applyNames (if tokens.absolute = true then [] else path) tokens.names with
    | error e => simp [hi, hself, hc, bind, Except.bind] at h
    | ok canonical =>
      simp only [hi, hself, hc, bind, Except.bind, pure, Except.pure, Bool.not_true, Bool.false_eq_true, if_false,
        Except.ok.injEq] at h
      subst h
      have hstart : Canonical (if tokens.absolute = true then [] else path) := by
        split
        · exact .nil
        · exact hp
      obtain ⟨hcan, hfold, hcomp⟩ := applyNames_ok hstart hc
      refine ⟨?_, hcan, ?_, ?_⟩
      · exact (List.map_congr_left fun name hn => hp.upper name hn).trans (List.map_id' path)
      · simp only [Tokens.upper, List.foldl_map, walkName_upper]
        exact hfold
      · intro name hn
        obtain ⟨raw, hraw, rfl⟩ := List.mem_map.mp hn
        exact ⟨(hcomp raw hraw).upper, map_upper_upper raw⟩

end RumKernel.Fs
