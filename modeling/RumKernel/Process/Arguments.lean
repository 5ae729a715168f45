import RumKernel.Lib.Strings

/-!
# Argument packets

`elf_arguments_valid` of `elf.c`, `build_arguments` of `process.c`, and `tool_word` and `tool_arguments` of the tools
library. The kernel splits the words of a command line itself, the tools split a copy in place; both write the packet of
the same vector, and the loader accepts exactly the packets of vectors within the limits.
-/

namespace RumKernel.Process
open Lib

variable {k stop : Nat} {argv : List Mem}

/-! ## The functions -/

def argumentLimit : Nat := 32

def argumentBytes : Nat := 4096

/-- `struct rum_arguments`. -/
@[ext] structure Packet where
  argc : Nat := 0
  stringBytes : Nat := 0
  offsets : Nat → Nat := fun _ => 0
  strings : Mem := fun _ => 0

def Blank (c : Byte) : Prop := c = 32 ∨ c = 9

instance : DecidablePred Blank := fun _ => inferInstanceAs (Decidable (_ ∨ _))

namespace Packet

/-- The loop of `elf_arguments_valid` with `count` strings left: the cursor at the end. -/
def validLoop (p : Packet) : Nat → Nat → Nat → Option Nat
  | 0, _, cursor => some cursor
  | count + 1, i, cursor =>
    if p.offsets i ≠ cursor then none
    else
      let stop := scanWhile (fun j => j < p.stringBytes ∧ p.strings j ≠ 0) p.stringBytes cursor
      if stop = p.stringBytes then none else p.validLoop count (i + 1) (stop + 1)

def elfArgumentsValid (p : Packet) : Bool :=
  if p.argc = 0 ∨ p.argc > argumentLimit ∨ p.stringBytes = 0 ∨ p.stringBytes > argumentBytes then false
  else p.validLoop p.argc 0 0 = some p.stringBytes

def addArgument (p : Packet) (text : Mem) (start bytes : Nat) : Option Packet :=
  if bytes = 0 ∨ p.argc ≥ argumentLimit ∨ bytes ≥ argumentBytes - p.stringBytes then none
  else
    let offset := p.stringBytes
    let strings := copyAt p.strings offset text start bytes
    some {
      argc := p.argc + 1
      stringBytes := p.stringBytes + (bytes + 1)
      offsets := fun i => if i = p.argc then offset else p.offsets i
      strings := fun j => if j = offset + bytes then 0 else strings j }

/-- The loop of `build_arguments` over the words of a text that ends within `n` bytes. -/
def buildLoop (n : Nat) (text : Mem) : Nat → Nat → Packet → Option Packet
  | 0, _, p => some p
  | fuel + 1, i, p =>
    if text i = 0 then some p
    else
      let word := scanWhile (fun j => Blank (text j)) n i
      if text word = 0 then some p
      else
        let stop := scanWhile (fun j => text j ≠ 0 ∧ ¬ Blank (text j)) n word
        match p.addArgument text word (stop - word) with
        | none => none
        | some p => buildLoop n text fuel stop p

/-- `build_arguments` on strings that end within `n` bytes. -/
def buildArguments (n : Nat) (program text : Mem) : Option Packet :=
  if program 0 = 0 then none
  else
    let bytes := scanWhile (fun j => program j ≠ 0) n 0
    match addArgument {} program 0 bytes with
    | none => none
    | some p => buildLoop n text (n + 1) 0 p

end Packet

/-- `tool_word` on the text at `i`: the start of the word, the memory, and the rest of the text. -/
def toolWord (n : Nat) (text : Mem) (i : Nat) : Option Nat × Mem × Nat :=
  let start := scanWhile (fun j => Blank (text j)) n i
  if text start = 0 then (none, text, start)
  else
    let stop := scanWhile (fun j => text j ≠ 0 ∧ ¬ Blank (text j)) n start
    if text stop ≠ 0 then (some start, fun j => if j = stop then 0 else text j, stop + 1) else (some start, text, stop)

/-- `tool_word` until it finds no word: the starts of the words, and the memory. -/
def toolWordLoop (n : Nat) : Nat → Mem → Nat → List Nat × Mem
  | 0, text, _ => ([], text)
  | fuel + 1, text, i =>
    match toolWord n text i with
    | (none, text, _) => ([], text)
    | (some start, text, i) => (start :: (toolWordLoop n fuel text i).1, (toolWordLoop n fuel text i).2)

/-- The words of a text as pointers into its memory, once it is split. -/
def toolWords (n : Nat) (text : Mem) : List Mem :=
  (toolWordLoop n (n + 1) text 0).1.map fun start j => (toolWordLoop n (n + 1) text 0).2 (start + j)

/-- `tool_length` of a string that ends within `n` bytes. -/
def toolLength (n : Nat) (s : Mem) : Nat := scanWhile (fun j => s j ≠ 0) n 0

/-- The loop of `tool_arguments`. -/
def toolArgumentsLoop (n : Nat) : List Mem → Packet → Option Packet
  | [], p => some p
  | arg :: argv, p =>
    let size := toolLength n arg + 1
    if size > argumentBytes - p.stringBytes then none
    else toolArgumentsLoop n argv {
      argc := p.argc + 1
      stringBytes := p.stringBytes + size
      offsets := fun i => if i = p.argc then p.stringBytes else p.offsets i
      strings := copyAt p.strings p.stringBytes arg 0 size }

/-- `tool_arguments`; none for `RUM_E2BIG`. -/
def toolArguments (n : Nat) (argv : List Mem) : Option Packet :=
  if argv.length < 1 ∨ argv.length > argumentLimit then none else toolArgumentsLoop n argv {}

/-! ## The packet of a vector -/

/-- The strings of a vector, each with its NUL. -/
def encode (args : List (List Byte)) : List Byte := args.flatMap (· ++ [0])

def startOf (args : List (List Byte)) (i : Nat) : Nat := (encode (args.take i)).length

def packetOf (args : List (List Byte)) : Packet where
  argc := args.length
  stringBytes := (encode args).length
  offsets i := if i < args.length then startOf args i else 0
  strings j := (encode args).getD j 0

@[simp] lemma packetOf_argc {args : List (List Byte)} : (packetOf args).argc = args.length := rfl

@[simp] lemma packetOf_stringBytes {args : List (List Byte)} : (packetOf args).stringBytes = (encode args).length := rfl

def Fits (args : List (List Byte)) : Prop := args.length ≤ argumentLimit ∧ (encode args).length ≤ argumentBytes

variable {m source : Mem} {n i j start bytes offset count cursor fuel : Nat} {s w l : List Byte}
  {args done words : List (List Byte)} {p : Packet} {c : Byte}

@[simp] lemma encode_nil : encode [] = [] := rfl

@[simp] lemma encode_cons : encode (w :: args) = w ++ 0 :: encode args := by simp [encode]

lemma encode_append : encode (done ++ words) = encode done ++ encode words := by simp [encode]

@[simp] lemma startOf_zero : startOf args 0 = 0 := rfl

@[simp] lemma startOf_succ : startOf (w :: args) (i + 1) = w.length + 1 + startOf args i := by
  simp [startOf]
  omega

lemma window_nul (h : window m start (encode (w :: args)).length = encode (w :: args)) : m (start + w.length) = 0 := by
  have hb := window_byte? h (j := w.length) (by simp)
  simp only [encode_cons, List.getElem?_append_right le_rfl, Nat.sub_self, List.getElem?_cons_zero] at hb
  exact (Option.some.inj hb).symm

/-! ## Accepted packets -/

/-- The strings from `cursor` to `stop`, and the offsets from the index `i` on. -/
structure Packet.Strings (p : Packet) (count i cursor stop : Nat) (args : List (List Byte)) : Prop where
  length_eq : args.length = count
  nonzero : ∀ a ∈ args, ∀ c ∈ a, c ≠ 0
  stop_eq : stop = cursor + (encode args).length
  within : stop ≤ p.stringBytes
  bytes : window p.strings cursor (encode args).length = encode args
  offsets : ∀ t < count, p.offsets (i + t) = cursor + startOf args t

lemma Packet.exists_stop (h : cursor ≤ p.stringBytes) : ∃ k, cursor + k ≤ p.stringBytes ∧
    (∀ j < k, cursor + j < p.stringBytes ∧ p.strings (cursor + j) ≠ 0) ∧
    (cursor + k = p.stringBytes ∨ p.strings (cursor + k) = 0) := by
  have hex : ∃ k, cursor + k = p.stringBytes ∨ p.strings (cursor + k) = 0 := ⟨p.stringBytes - cursor, .inl (by omega)⟩
  have hle : Nat.find hex ≤ p.stringBytes - cursor := Nat.find_min' hex (.inl (by omega))
  refine ⟨Nat.find hex, by omega, fun j hj => ?_, Nat.find_spec hex⟩
  have := Nat.find_min hex hj
  simp only [not_or] at this
  exact ⟨by omega, this.2⟩

lemma Packet.scan_eq (hk : cursor + k ≤ p.stringBytes)
    (hall : ∀ j < k, cursor + j < p.stringBytes ∧ p.strings (cursor + j) ≠ 0)
    (hstop : cursor + k = p.stringBytes ∨ p.strings (cursor + k) = 0) :
    scanWhile (fun j => j < p.stringBytes ∧ p.strings j ≠ 0) p.stringBytes cursor = cursor + k := by
  refine scanWhile_eq (by omega) (fun j hj => by simpa using hall j hj) ?_
  rcases hstop with h | h
  · simp [h]
  · simp [h]

lemma Packet.Strings.cons (hoff : p.offsets i = cursor) (hall : ∀ j < k, p.strings (cursor + j) ≠ 0)
    (hnul : p.strings (cursor + k) = 0) (h : p.Strings count (i + 1) (cursor + k + 1) stop args) :
    p.Strings (count + 1) i cursor stop (window p.strings cursor k :: args) := by
  have hlen : (encode (window p.strings cursor k :: args)).length = k + (1 + (encode args).length) := by
    simp
    omega
  refine ⟨by simp [h.length_eq], ?_, ?_, h.within, ?_, ?_⟩
  · rintro a (_ | ⟨_, ha⟩) c hc
    · obtain ⟨j, hj, rfl⟩ := List.mem_map.mp hc
      exact hall j (List.mem_range.mp hj)
    · exact h.nonzero a ha c hc
  · rw [h.stop_eq, hlen]
    omega
  · rw [hlen, window_add, window_add, encode_cons, h.bytes]
    simp [window, hnul]
  · intro t ht
    cases t with
    | zero => simpa using hoff
    | succ t =>
      have := h.offsets t (by omega)
      rw [show i + (t + 1) = i + 1 + t by omega, this]
      simp
      omega

lemma Packet.Strings.tail (h : p.Strings (count + 1) i cursor stop (w :: args)) :
    p.Strings count (i + 1) (cursor + w.length + 1) stop args := by
  have hlen : (encode (w :: args)).length = w.length + (1 + (encode args).length) := by
    simp
    omega
  refine ⟨by simpa using h.length_eq, fun a ha => h.nonzero a (List.mem_cons_of_mem w ha), ?_, h.within, ?_, ?_⟩
  · rw [h.stop_eq, hlen]
    omega
  · have hbytes := h.bytes
    rw [hlen, window_add, window_add, encode_cons] at hbytes
    have hrest := (List.append_inj hbytes (by simp)).2
    rw [← List.singleton_append] at hrest
    exact (List.append_inj hrest (by simp)).2
  · intro t ht
    have := h.offsets (t + 1) (by omega)
    rw [show i + 1 + t = i + (t + 1) by omega, this]
    simp
    omega

lemma Packet.Strings.first (h : p.Strings (count + 1) i cursor stop (w :: args))
    (hall : ∀ j < k, p.strings (cursor + j) ≠ 0) (hend : cursor + k = p.stringBytes ∨ p.strings (cursor + k) = 0) :
    k = w.length := by
  have hwithin := h.within
  rw [h.stop_eq] at hwithin
  have hlen : (encode (w :: args)).length = w.length + (1 + (encode args).length) := by
    simp
    omega
  rcases lt_trichotomy k w.length with hlt | heq | hgt
  · have hnul := hend.resolve_left (by omega)
    have hk0 := window_byte? h.bytes (j := k) (by omega)
    rw [hnul, encode_cons, List.getElem?_append_left hlt] at hk0
    exact absurd rfl (h.nonzero w List.mem_cons_self 0 (List.mem_of_getElem? hk0))
  · exact heq
  · exact absurd (window_nul h.bytes) (hall w.length hgt)

lemma Packet.validLoop_iff (hc : cursor ≤ p.stringBytes) :
    p.validLoop count i cursor = some stop ↔ ∃ args, p.Strings count i cursor stop args := by
  induction count generalizing i cursor with
  | zero =>
    rw [validLoop]
    constructor
    · intro h
      obtain rfl := Option.some.inj h
      exact ⟨[], rfl, nofun, rfl, hc, rfl, nofun⟩
    · rintro ⟨args, h⟩
      obtain rfl : args = [] := List.length_eq_zero_iff.mp h.length_eq
      exact congrArg some h.stop_eq.symm
  | succ count ih =>
    have hcons {args : List (List Byte)} (h : p.Strings (count + 1) i cursor stop args) :
        ∃ w rest, args = w :: rest := List.exists_cons_of_length_eq_add_one h.length_eq
    rw [validLoop]
    by_cases hoff : p.offsets i = cursor
    · rw [if_neg (not_not.mpr hoff)]
      obtain ⟨k, hk, hall, hend⟩ := exists_stop hc
      have hne (j : Nat) (hj : j < k) := (hall j hj).2
      simp only [scan_eq hk hall hend]
      by_cases hlast : cursor + k = p.stringBytes
      · rw [if_pos hlast]
        refine ⟨nofun, ?_⟩
        rintro ⟨args, h⟩
        obtain ⟨w, rest, rfl⟩ := hcons h
        -- the NUL of the first string is before the end of the packet
        obtain rfl := h.first hne hend
        have hwithin := h.tail.within
        rw [h.tail.stop_eq] at hwithin
        omega
      · rw [if_neg hlast, ih (by omega)]
        constructor
        · rintro ⟨rest, h⟩
          exact ⟨_, .cons hoff hne (hend.resolve_left hlast) h⟩
        · rintro ⟨args, h⟩
          obtain ⟨w, rest, rfl⟩ := hcons h
          obtain rfl := h.first hne hend
          exact ⟨rest, h.tail⟩
    · rw [if_pos hoff]
      refine ⟨nofun, ?_⟩
      rintro ⟨args, h⟩
      have := h.offsets 0 (by omega)
      simp only [Nat.add_zero, startOf_zero] at this
      exact absurd this hoff

lemma Packet.elfArgumentsValid_iff : p.elfArgumentsValid = true ↔
    1 ≤ p.argc ∧ p.argc ≤ argumentLimit ∧ 1 ≤ p.stringBytes ∧ p.stringBytes ≤ argumentBytes ∧
      ∃ args : List (List Byte), args.length = p.argc ∧ (∀ a ∈ args, ∀ c ∈ a, c ≠ 0) ∧
        window p.strings 0 p.stringBytes = encode args ∧ ∀ i < p.argc, p.offsets i = startOf args i := by
  unfold elfArgumentsValid
  split
  · rename_i h
    refine ⟨nofun, ?_⟩
    rintro ⟨h1, h2, h3, h4, -⟩
    omega
  · rename_i h
    rw [decide_eq_true_eq, validLoop_iff (Nat.zero_le _)]
    constructor
    · rintro ⟨args, hs⟩
      have hstop := hs.stop_eq
      rw [Nat.zero_add] at hstop
      refine ⟨by omega, by omega, by omega, by omega, args, hs.length_eq, hs.nonzero, ?_, fun i hi => ?_⟩
      · rw [hstop]
        exact hs.bytes
      · simpa using hs.offsets i hi
    · rintro ⟨-, -, -, -, args, hcount, hnonzero, hbytes, hoff⟩
      have hlen : p.stringBytes = (encode args).length := by rw [← hbytes, length_window]
      refine ⟨args, hcount, hnonzero, by rw [Nat.zero_add, hlen], le_rfl, ?_, fun t ht => ?_⟩
      · rw [← hlen]
        exact hbytes
      · simpa using hoff t ht

/-! ## Building packets -/

lemma packetOf_valid (hne : args ≠ []) (hfits : Fits args) (hnonzero : ∀ a ∈ args, ∀ c ∈ a, c ≠ 0) :
    (packetOf args).elfArgumentsValid = true := by
  rw [Packet.elfArgumentsValid_iff]
  have hlen : 1 ≤ (encode args).length := by
    obtain ⟨w, rest, rfl⟩ := List.exists_cons_of_ne_nil hne
    simp
    omega
  refine ⟨List.length_pos_iff.mpr hne, hfits.1, hlen, hfits.2, args, rfl, hnonzero, ?_, fun i hi => if_pos hi⟩
  refine List.ext_getElem? fun j => ?_
  by_cases hj : j < (encode args).length
  · show (window _ 0 (encode args).length)[j]? = _
    rw [getElem?_window hj, Nat.zero_add]
    simp [packetOf, List.getD_eq_getElem?_getD, List.getElem?_eq_getElem hj]
  · rw [List.getElem?_eq_none (by rw [length_window, packetOf_stringBytes]; omega), List.getElem?_eq_none (by omega)]

lemma packetOf_append {strings : Mem} (hstrings : ∀ j, strings j = (encode (done ++ [w])).getD j 0) :
    (⟨done.length + 1, (encode done).length + (w.length + 1),
      fun i => if i = done.length then (encode done).length else (packetOf done).offsets i, strings⟩ : Packet) =
      packetOf (done ++ [w]) := by
  have hlen : (encode (done ++ [w])).length = (encode done).length + (w.length + 1) := by simp [encode_append]
  refine Packet.ext (by simp [packetOf]) hlen.symm ?_ (funext hstrings)
  funext i
  show (if i = _ then _ else if i < done.length then startOf done i else 0) =
    if i < (done ++ [w]).length then startOf (done ++ [w]) i else 0
  have hl : (done ++ [w]).length = done.length + 1 := by simp
  unfold startOf
  rcases lt_trichotomy i done.length with h | h | h
  · rw [if_neg (by omega), if_pos h, if_pos (by omega), List.take_append_of_le_length h.le]
  · rw [if_pos h, if_pos (by omega), List.take_append_of_le_length h.le, h, List.take_length]
  · rw [if_neg (by omega), if_neg (by omega), if_neg (by omega)]

lemma encode_getD (hw : window source start w.length = w) : (encode (done ++ [w])).getD j 0 =
      if j = (encode done).length + w.length then 0
      else copyAt (packetOf done).strings (encode done).length source start w.length j := by
  have henc : encode (done ++ [w]) = encode done ++ (w ++ [0]) := by simp [encode_append]
  unfold copyAt
  rw [henc, List.getD_eq_getElem?_getD]
  show _ = if j = (encode done).length + w.length then 0
    else if _ then _ else (encode done).getD j 0
  rw [List.getD_eq_getElem?_getD]
  rcases lt_or_ge j (encode done).length with hj | hj
  · rw [List.getElem?_append_left hj, if_neg (by omega), if_neg (by omega)]
  · rw [List.getElem?_append_right hj]
    rcases lt_trichotomy (j - (encode done).length) w.length with h | h | h
    · rw [List.getElem?_append_left h, if_neg (by omega), if_pos (by omega), window_byte? hw h, Option.getD_some]
    · rw [h, if_pos (by omega)]
      simp
    · rw [if_neg (by omega), if_neg (by omega), List.getElem?_eq_none (by simp; omega),
        List.getElem?_eq_none (by omega)]

/-- The result is the packet of a vector, or nothing if that is beyond the limits. -/
def Packs (result : Option Packet) (args : List (List Byte)) : Prop :=
  (result = some (packetOf args) ∧ Fits args) ∨ (result = none ∧ ¬ Fits args)

lemma Packs.unique {r r' : Option Packet} (h : Packs r args) (h' : Packs r' args) : r = r' := by
  rcases h with ⟨rfl, hf⟩ | ⟨rfl, hf⟩ <;> rcases h' with ⟨rfl, hf'⟩ | ⟨rfl, hf'⟩
  · rfl
  · exact absurd hf hf'
  · exact absurd hf' hf
  · rfl

lemma Fits.left (words : List (List Byte)) (h : Fits (done ++ words)) : Fits done := by
  obtain ⟨hcount, hbytes⟩ := h
  rw [encode_append, List.length_append] at hbytes
  rw [List.length_append] at hcount
  exact ⟨by omega, by omega⟩

lemma addArgument_packetOf (hw : window source start w.length = w) (hne : w ≠ [])
    (hdone : (encode done).length ≤ argumentBytes) :
    Packs ((packetOf done).addArgument source start w.length) (done ++ [w]) := by
  have hpos : w.length ≠ 0 := by simpa using hne
  have hlen : (encode (done ++ [w])).length = (encode done).length + (w.length + 1) := by simp [encode_append]
  have hcount : (done ++ [w]).length = done.length + 1 := by simp
  have hfits : Fits (done ++ [w]) ↔ ¬ (w.length = 0 ∨ (packetOf done).argc ≥ argumentLimit ∨
      w.length ≥ argumentBytes - (packetOf done).stringBytes) := by
    unfold Fits
    rw [hlen, hcount, packetOf_argc, packetOf_stringBytes]
    omega
  unfold Packet.addArgument
  by_cases h : Fits (done ++ [w])
  · rw [if_neg (hfits.mp h)]
    exact .inl ⟨congrArg some (packetOf_append fun j => (encode_getD hw).symm), h⟩
  · rw [if_pos (not_not.mp (mt hfits.mpr h))]
    exact .inr ⟨rfl, h⟩

lemma toolArgumentsLoop_packetOf (hs : StringAt source 0 w) (hn : w.length ≤ n)
    (hdone : (encode done).length ≤ argumentBytes) : toolArgumentsLoop n (source :: argv) (packetOf done) =
      if (encode (done ++ [w])).length ≤
          argumentBytes then toolArgumentsLoop n argv (packetOf (done ++ [w])) else none := by
  have hlen : (encode (done ++ [w])).length = (encode done).length + (w.length + 1) := by simp [encode_append]
  have hsize : toolLength n source = w.length := by
    unfold toolLength
    rw [hs.scan_all hn, Nat.zero_add]
  rw [toolArgumentsLoop, hsize, hlen]
  show (if w.length + 1 > argumentBytes - (encode done).length then none else toolArgumentsLoop n argv
    ⟨done.length + 1, (encode done).length + (w.length + 1),
      fun i => if i = done.length then (encode done).length else (packetOf done).offsets i,
      copyAt (packetOf done).strings (encode done).length source 0 (w.length + 1)⟩) = _
  by_cases h : w.length + 1 > argumentBytes - (encode done).length
  · rw [if_pos h, if_neg (by omega)]
  · rw [if_neg h, if_pos (by omega)]
    congr 1
    refine packetOf_append fun j => ?_
    rw [encode_getD hs.bytes]
    unfold copyAt
    by_cases hj : j = (encode done).length + w.length
    · rw [if_pos (by omega), if_pos hj, hj, Nat.add_sub_cancel_left]
      exact hs.nul
    · rw [if_neg hj]
      by_cases hin : (encode done).length ≤ j ∧ j < (encode done).length + w.length
      · rw [if_pos (by omega), if_pos hin]
      · rw [if_neg (by omega), if_neg hin]

/-! ## Splitting words -/

inductive Splits : List Byte → List (List Byte) → Prop where
  | blanks {b : List Byte} (hb : ∀ c ∈ b, Blank c) : Splits b []
  | last {b w : List Byte} (hb : ∀ c ∈ b, Blank c) (hw : ∀ c ∈ w, ¬ Blank c) (hne : w ≠ []) : Splits (b ++ w) [w]
  | more {b w rest : List Byte} {words : List (List Byte)} (sep : Byte) (hb : ∀ c ∈ b, Blank c)
      (hw : ∀ c ∈ w, ¬ Blank c) (hne : w ≠ []) (hsep : Blank sep) (hrest : Splits rest words) :
      Splits (b ++ (w ++ sep :: rest)) (w :: words)

lemma Splits.blank_cons (hc : Blank c) (h : Splits s words) : Splits (c :: s) words := by
  have hcons {b : List Byte} (hb : ∀ c ∈ b, Blank c) : ∀ d ∈ c :: b, Blank d := by
    rintro d (_ | ⟨_, hd⟩)
    · exact hc
    · exact hb d hd
  cases h with
  | blanks hb => exact .blanks (hcons hb)
  | last hb hw hne => exact .last (hcons hb) hw hne
  | more sep hb hw hne hsep hrest => exact .more sep (hcons hb) hw hne hsep hrest

lemma Splits.word_cons (hc : ¬ Blank c) (h : Splits s words) : ∃ words', Splits (c :: s) words' := by
  have hcons {w : List Byte} (hw : ∀ c ∈ w, ¬ Blank c) : ∀ d ∈ c :: w, ¬ Blank d := by
    rintro d (_ | ⟨_, hd⟩)
    · exact hc
    · exact hw d hd
  have hone : ∀ d ∈ [c], ¬ Blank d := by simpa using hc
  cases h with
  | blanks hb =>
    cases s with
    | nil => exact ⟨_, .last (b := []) nofun hone (by simp)⟩
    | cons d b =>
      have hb' : ∀ e ∈ b, Blank e := fun e he => hb e (List.mem_cons_of_mem d he)
      exact ⟨_, .more (b := []) (w := [c]) d nofun hone (by simp) (hb d List.mem_cons_self) (.blanks hb')⟩
  | @last b w hb hw hne =>
    cases b with
    | nil => exact ⟨_, .last (b := []) nofun (hcons hw) (by simp)⟩
    | cons d b =>
      have hb' : ∀ e ∈ b, Blank e := fun e he => hb e (List.mem_cons_of_mem d he)
      exact ⟨_, .more (b := []) (w := [c]) d nofun hone (by simp) (hb d List.mem_cons_self) (.last hb' hw hne)⟩
  | @more b w rest words sep hb hw hne hsep hrest =>
    cases b with
    | nil => exact ⟨_, .more (b := []) (w := c :: w) sep nofun (hcons hw) (by simp) hsep hrest⟩
    | cons d b =>
      have hb' : ∀ e ∈ b, Blank e := fun e he => hb e (List.mem_cons_of_mem d he)
      exact ⟨_, .more (b := []) (w := [c]) d nofun hone (by simp) (hb d List.mem_cons_self)
        (.more sep hb' hw hne hsep hrest)⟩

lemma exists_splits (s : List Byte) : ∃ words, Splits s words := by
  induction s with
  | nil => exact ⟨[], .blanks nofun⟩
  | cons c s ih =>
    obtain ⟨words, h⟩ := ih
    by_cases hc : Blank c
    · exact ⟨words, h.blank_cons hc⟩
    · exact h.word_cons hc

lemma not_blank_zero : ¬ Blank 0 := by decide

lemma Splits.first (h : Splits s words) : ((∀ c ∈ s, Blank c) ∧ words = []) ∨
    ∃ b w r words', s = b ++ (w ++ r) ∧ words = w :: words' ∧ (∀ c ∈ b, Blank c) ∧ (∀ c ∈ w, ¬ Blank c) ∧ w ≠ [] ∧
      Splits r words' ∧ (r = [] ∨ ∃ sep rest, r = sep :: rest ∧ Blank sep ∧ Splits rest words') := by
  cases h with
  | blanks hb => exact .inl ⟨hb, rfl⟩
  | @last b w hb hw hne => exact .inr ⟨b, w, [], [], by simp, rfl, hb, hw, hne, .blanks nofun, .inl rfl⟩
  | @more b w rest words sep hb hw hne hsep hrest =>
    exact .inr ⟨b, w, sep :: rest, words, rfl, rfl, hb, hw, hne, hrest.blank_cons hsep,
      .inr ⟨sep, rest, rfl, hsep, hrest⟩⟩

end RumKernel.Process

namespace RumKernel.Lib.StringAt
open Process

variable {m : Mem} {n start : Nat} {s w l : List Byte} {words : List (List Byte)}

lemma scan_blanks (h : StringAt m start (l ++ s)) (hl : ∀ c ∈ l, Blank c) (hs : ¬ Blank (m (start + l.length)))
    (hn : (l ++ s).length ≤ n) : scanWhile (fun j => Blank (m j)) n start = start + l.length := by
  rw [List.length_append] at hn
  exact h.scan (fun c => Blank c) (by simpa using hl) (by simpa using hs) (by omega)

lemma scan_word (h : StringAt m start (l ++ s)) (hl : ∀ c ∈ l, ¬ Blank c)
    (hs : m (start + l.length) = 0 ∨ Blank (m (start + l.length))) (hn : (l ++ s).length ≤ n) :
    scanWhile (fun j => m j ≠ 0 ∧ ¬ Blank (m j)) n start = start + l.length := by
  rw [List.length_append] at hn
  refine h.scan (fun c => c ≠ 0 ∧ ¬ Blank c) (fun c hc => ?_) ?_ (by omega)
  · simpa using ⟨h.nonzero c (List.mem_append_left s hc), hl c hc⟩
  · rcases hs with hs | hs
    · simp [hs]
    · simp [hs]

lemma head_ne (h : StringAt m start (w ++ s)) (hne : w ≠ []) (hw : ∀ c ∈ w, ¬ Blank c) :
    m start ≠ 0 ∧ ¬ Blank (m start) := by
  obtain ⟨c, w, rfl⟩ := List.exists_cons_of_ne_nil hne
  have hb := h.byte (j := 0) (by simp)
  have hc : m start = c := by simpa using hb
  rw [hc]
  exact ⟨h.nonzero c (by simp), hw c List.mem_cons_self⟩

lemma behind {r : List Byte} (h : StringAt m start (w ++ r))
    (hr : r = [] ∨ ∃ sep rest, r = sep :: rest ∧ Blank sep ∧ Splits rest words) :
    (r = [] ∧ m (start + w.length) = 0) ∨ (m (start + w.length) ≠ 0 ∧ Blank (m (start + w.length)) ∧
        ∃ sep rest, r = sep :: rest ∧ StringAt m (start + w.length + 1) rest ∧ Splits rest words) := by
  rcases hr with rfl | ⟨sep, rest, rfl, hsep, hrest⟩
  · left
    exact ⟨rfl, by simpa using h.nul⟩
  · right
    have hd := h.drop
    have hbyte : m (start + w.length) = sep := hd.byte (j := 0) (Nat.succ_pos _)
    rw [hbyte]
    exact ⟨hd.nonzero sep List.mem_cons_self, hsep, sep, rest, rfl, drop (l := [sep]) hd, hrest⟩

lemma find_word {b r : List Byte} (h : StringAt m start (b ++ (w ++ r))) (hb : ∀ c ∈ b, Blank c)
    (hw : ∀ c ∈ w, ¬ Blank c) (hne : w ≠ []) (hn : (b ++ (w ++ r)).length ≤ n)
    (hr : r = [] ∨ ∃ sep rest, r = sep :: rest ∧ Blank sep ∧ Splits rest words) :
    scanWhile (fun j => Blank (m j)) n start = start + b.length ∧ m (start + b.length) ≠ 0 ∧
      scanWhile (fun j => m j ≠ 0 ∧ ¬ Blank (m j)) n (start + b.length) = start + b.length + w.length := by
  obtain ⟨h0, hblank⟩ := h.drop.head_ne hne hw
  refine ⟨h.scan_blanks hb hblank hn, h0, h.drop.scan_word hw ?_ ?_⟩
  · rcases h.drop.behind hr with ⟨-, hz⟩ | ⟨-, hz, -⟩
    · exact .inl hz
    · exact .inr hz
  · rw [List.length_append] at hn
    omega

lemma find_none (h : StringAt m start s) (hs : ∀ c ∈ s, Blank c) (hn : s.length ≤ n) :
    scanWhile (fun j => Blank (m j)) n start = start + s.length := by
  have h' : StringAt m start (s ++ []) := by rwa [List.append_nil]
  exact h'.scan_blanks hs (by rw [h.nul]; exact not_blank_zero) (by simpa using hn)

end RumKernel.Lib.StringAt

namespace RumKernel.Process
open Lib

variable {m : Mem} {n i fuel : Nat} {s : List Byte} {done words : List (List Byte)}

section
variable (h : Splits s words) (hs : StringAt m i s) (hn : s.length ≤ n) (hfuel : s.length < fuel)
include h hs hn hfuel

lemma buildLoop_packs
    (hdone : Fits done) : Packs (Packet.buildLoop n m fuel i (packetOf done)) (done ++ words) := by
  induction fuel generalizing s words i done with
  | zero => omega
  | succ fuel ih =>
    rw [Packet.buildLoop]
    rcases h.first with ⟨hblank, rfl⟩ | ⟨b, w, r, words', rfl, rfl, hb, hw, hne, hrest, hr⟩
    · rw [List.append_nil]
      split
      · exact .inl ⟨rfl, hdone⟩
      · simp only [hs.find_none hblank hn, hs.nul, if_true]
        exact .inl ⟨rfl, hdone⟩
    · obtain ⟨hscan, h0, hstop⟩ := hs.find_word hb hw hne hn hr
      have hi0 : m i ≠ 0 := by
        have hpos := List.length_pos_iff.mpr hne
        simpa using hs.byte_ne (j := 0) (by simp; omega)
      rw [if_neg hi0]
      simp only [hscan, hstop, Nat.add_sub_cancel_left]
      rw [if_neg h0]
      rcases addArgument_packetOf hs.drop.window_left hne hdone.2 with ⟨hadd, hfits⟩ | ⟨hadd, hfits⟩
      · rw [hadd]
        have hpos := List.length_pos_iff.mpr hne
        simp only [List.length_append] at hn hfuel
        have := ih hrest hs.drop.drop (by omega) (by omega) hfits
        rwa [List.append_assoc] at this
      · rw [hadd]
        refine .inr ⟨rfl, fun hall => hfits ?_⟩
        rw [← List.singleton_append, ← List.append_assoc] at hall
        exact Fits.left _ hall

lemma toolWordLoop_words :
    List.Forall₂ (fun start w => StringAt (toolWordLoop n fuel m i).2 start w) (toolWordLoop n fuel m i).1 words ∧
      ∀ j ≤ i, (toolWordLoop n fuel m i).2 j = m j := by
  induction fuel generalizing s words m i with
  | zero => omega
  | succ fuel ih =>
    rcases h.first with ⟨hblank, rfl⟩ | ⟨b, w, r, words', rfl, rfl, hb, hw, hne, hrest, hr⟩
    · have hnone : toolWord n m i = (none, m, i + s.length) := by
        unfold toolWord
        simp only [hs.find_none hblank hn, hs.nul, if_true]
      rw [toolWordLoop, hnone]
      exact ⟨.nil, fun _ _ => rfl⟩
    · obtain ⟨hscan, h0, hstop⟩ := hs.find_word hb hw hne hn hr
      have hpos := List.length_pos_iff.mpr hne
      simp only [List.length_append] at hn hfuel
      rcases hs.drop.behind hr with ⟨rfl, hz⟩ | ⟨hz, -, sep, rest, rfl, hrs, hsplit⟩
      · have hlast : toolWord n m i = (some (i + b.length), m, i + b.length + w.length) := by
          unfold toolWord
          simp only [hscan, hstop]
          rw [if_neg h0, if_neg (not_not.mpr hz)]
        rw [toolWordLoop, hlast]
        obtain ⟨hwords, hframe⟩ := ih hrest hs.drop.drop (by omega) (by omega)
        refine ⟨.cons ?_ hwords, fun j hj => hframe j (by omega)⟩
        have hword := hs.drop
        rw [List.append_nil] at hword
        exact hword.congr fun j _ hj => hframe j hj
      · let m' : Mem := fun j => if j = i + b.length + w.length then 0 else m j
        have hmore : toolWord n m i = (some (i + b.length), m', i + b.length + w.length + 1) := by
          unfold toolWord
          simp only [hscan, hstop]
          rw [if_neg h0, if_pos hz]
        rw [toolWordLoop, hmore]
        have hm' (j : Nat) (hj : j ≠ i + b.length + w.length) : m' j = m j := if_neg hj
        have hrs' : StringAt m' (i + b.length + w.length + 1) rest := hrs.congr fun j hj _ => hm' j (by omega)
        simp only [List.length_cons] at hn hfuel
        obtain ⟨hwords, hframe⟩ := ih hsplit hrs' (by omega) (by omega)
        have hword : StringAt m' (i + b.length) w := by
          refine ⟨?_, fun c hc => hs.nonzero c (by simp [hc]), if_pos rfl⟩
          refine (List.map_congr_left fun j hj => ?_).trans hs.drop.window_left
          have := List.mem_range.mp hj
          exact hm' _ (by omega)
        refine ⟨.cons (hword.congr fun j _ hj => hframe j (by omega)) hwords, fun j hj => ?_⟩
        exact (hframe j (by omega)).trans (hm' j (by omega))

end

lemma Splits.length_le (h : Splits s words) : ∀ w ∈ words, w.length ≤ s.length := by
  induction h with
  | blanks hb => exact nofun
  | last hb hw hne => simp
  | more sep hb hw hne hsep hrest ih =>
    intro w hw'
    simp only [List.length_append, List.length_cons]
    rcases List.mem_cons.mp hw' with rfl | hmem
    · omega
    · have := ih w hmem
      omega

lemma Splits.mem (h : Splits s words) : ∀ w ∈ words, ∀ c ∈ w, c ∈ s := by
  induction h with
  | blanks hb => exact nofun
  | last hb hw hne =>
    intro w hw' c hc
    rw [List.mem_singleton.mp hw'] at hc
    exact List.mem_append_right _ hc
  | more sep hb hw hne hsep hrest ih =>
    intro w hw' c hc
    refine List.mem_append_right _ ?_
    rcases List.mem_cons.mp hw' with rfl | hmem
    · exact List.mem_append_left _ hc
    · exact List.mem_append_right _ (List.mem_cons_of_mem sep (ih w hmem c hc))

lemma toolArgumentsLoop_eq (h : List.Forall₂ (fun a w => StringAt a 0 w ∧ w.length ≤ n) argv words)
    (hdone : (encode done).length ≤ argumentBytes) : toolArgumentsLoop n argv (packetOf done) =
      if (encode (done ++ words)).length ≤ argumentBytes then some (packetOf (done ++ words)) else none := by
  induction h generalizing done with
  | nil =>
    rw [List.append_nil, if_pos hdone]
    rfl
  | @cons a w argv words ha hrest ih =>
    rw [toolArgumentsLoop_packetOf ha.1 ha.2 hdone]
    by_cases hfit : (encode (done ++ [w])).length ≤ argumentBytes
    · rw [if_pos hfit, ih hfit, List.append_assoc]
      rfl
    · rw [if_neg hfit, if_neg fun hall => hfit ?_]
      rw [← List.singleton_append, ← List.append_assoc, encode_append, List.length_append] at hall
      omega

lemma toolArguments_packs (h : List.Forall₂ (fun a w => StringAt a 0 w ∧ w.length ≤ n) argv words)
    (hne : words ≠ []) : Packs (toolArguments n argv) words := by
  have hlen := h.length_eq
  have hpos := List.length_pos_iff.mpr hne
  unfold toolArguments Packs Fits
  by_cases hcount : words.length ≤ argumentLimit
  · rw [if_neg (by omega)]
    have hnil : (encode []).length ≤ argumentBytes := Nat.zero_le _
    have hloop := toolArgumentsLoop_eq h hnil
    rw [List.nil_append] at hloop
    rw [show ({} : Packet) = packetOf [] from rfl, hloop]
    by_cases hbytes : (encode words).length ≤ argumentBytes
    · rw [if_pos hbytes]
      exact .inl ⟨rfl, hcount, hbytes⟩
    · rw [if_neg hbytes]
      exact .inr ⟨rfl, fun hf => hbytes hf.2⟩
  · rw [if_pos (by omega)]
    exact .inr ⟨rfl, fun hf => hcount hf.1⟩

lemma buildArguments_packs {program text : Mem} {name : List Byte} (hp : StringAt program 0 name) (hname : name ≠ [])
    (ht : StringAt text 0 s) (hn : name.length ≤ n) (hsn : s.length ≤ n) (h : Splits s words) :
    Packs (Packet.buildArguments n program text) (name :: words) := by
  have h0 : program 0 ≠ 0 := by
    simpa using hp.byte_ne (j := 0) (List.length_pos_iff.mpr hname)
  unfold Packet.buildArguments
  rw [if_neg h0]
  simp only [hp.scan_all hn, Nat.zero_add]
  rw [show ({} : Packet) = packetOf [] from rfl]
  have hnil : (encode []).length ≤ argumentBytes := Nat.zero_le _
  rcases addArgument_packetOf hp.bytes hname hnil with ⟨hadd, hfits⟩ | ⟨hadd, hfits⟩
  · rw [hadd]
    exact buildLoop_packs h ht hsn (by omega) hfits
  · rw [hadd]
    exact .inr ⟨rfl, fun hall => hfits (Fits.left words hall)⟩

/-- **Argument packets have one meaning.** The loader accepts exactly the packets whose bytes are the strings of a
vector within the limits, at their offsets. For every non-empty program name and every text, the kernel and the tools
build a packet for the same command lines, the packets are the same, and the loader accepts them. -/
theorem arguments_one_meaning : (∀ p : Packet, p.elfArgumentsValid = true ↔
      1 ≤ p.argc ∧ p.argc ≤ argumentLimit ∧ 1 ≤ p.stringBytes ∧ p.stringBytes ≤ argumentBytes ∧
        ∃ args : List (List Byte), args.length = p.argc ∧ (∀ a ∈ args, ∀ c ∈ a, c ≠ 0) ∧
          window p.strings 0 p.stringBytes = args.flatMap (· ++ [0]) ∧
          ∀ i < p.argc, p.offsets i = ((args.take i).flatMap (· ++ [0])).length) ∧
    ∀ (program text : Mem) (name line : List Byte) (n : Nat), StringAt program 0 name → name ≠ [] →
      StringAt text 0 line → name.length ≤ n → line.length ≤ n →
      Packet.buildArguments n program text = toolArguments n (program :: toolWords n text) ∧
        ∀ p, Packet.buildArguments n program text = some p → p.elfArgumentsValid = true := by
  refine ⟨fun p => Packet.elfArgumentsValid_iff, fun program text name line n hp hname ht hn hline => ?_⟩
  obtain ⟨words, h⟩ := exists_splits line
  have hbuild := buildArguments_packs hp hname ht hn hline h
  have hwords := (toolWordLoop_words h ht hline (Nat.lt_succ_of_le hline)).1
  have hargv : List.Forall₂ (fun a w => StringAt a 0 w ∧ w.length ≤ n) (program :: toolWords n text)
      (name :: words) := by
    refine .cons ⟨hp, hn⟩ ?_
    have hlength (w : List Byte) (hw : w ∈ words) : w.length ≤ n := (h.length_le w hw).trans hline
    have hboth := ((List.forall₂_and_left _ _).mpr ⟨hlength, hwords.flip⟩).flip
    rw [toolWords, List.forall₂_map_left_iff]
    exact hboth.imp fun start w hw => ⟨hw.2.pointer, hw.1⟩
  refine ⟨hbuild.unique (toolArguments_packs hargv (List.cons_ne_nil _ _)), fun p hb => ?_⟩
  rcases hbuild with ⟨hsome, hfits⟩ | ⟨hnone, -⟩
  · obtain rfl := Option.some.inj (hsome.symm.trans hb)
    refine packetOf_valid (List.cons_ne_nil _ _) hfits fun a ha => ?_
    rcases List.mem_cons.mp ha with rfl | hmem
    · exact hp.nonzero
    · exact fun c hc => ht.nonzero c (h.mem a hmem c hc)
  · rw [hnone] at hb
    cases hb

/-- The words of a command line with two blanks. -/
theorem arguments_one_meaning_echo : StringAt (fun j => [101, 99, 104, 111].getD j 0) 0 [101, 99, 104, 111] ∧
      StringAt (fun j => [32, 97, 9, 98].getD j 0) 0 [32, 97, 9, 98] ∧
      Packet.buildArguments 4 (fun j => [101, 99, 104, 111].getD j 0) (fun j => [32, 97, 9, 98].getD j 0) =
        toolArguments 4 ((fun j => [101, 99, 104, 111].getD j 0) :: toolWords 4 fun j => [32, 97, 9, 98].getD j 0) := by
  have hname : StringAt (fun j => [101, 99, 104, 111].getD j 0) 0 [101, 99, 104, 111] := ⟨rfl, by simp, rfl⟩
  have hline : StringAt (fun j => [32, 97, 9, 98].getD j 0) 0 [32, 97, 9, 98] := ⟨rfl, by simp, rfl⟩
  exact ⟨hname, hline,
    (arguments_one_meaning.2 _ _ _ _ 4 hname (by simp) hline (by decide) (by decide)).1⟩

end RumKernel.Process
