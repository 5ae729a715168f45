import RumKernel.Lib.Strings

/-!
# User memory

The functions of `paging.c` that reach user memory through the page tables of a private space. Tables and pages are
read from one physical memory, identity-mapped for the kernel.
-/

namespace RumKernel.Arch
open Lib

/-! ## The functions -/

def userBase : Nat := 0x80000000

def userEnd : Nat := 0xc0000000

def pageSize : Nat := 4096

def frameMask : Nat := 0xfffff000

/-- The fields of `struct paging_space` that address user memory. -/
structure Space where
  directoryPhysical : Nat
  privateTables : Nat → Nat

/-- The static variables of `paging.c`, and the physical memory. The spaces are named by their pointers, the kernel
space by 0; the others are linked behind it. -/
structure Paging where
  enabled : Bool
  registry : List Nat
  record : Nat → Space
  memory : Mem

variable (P : Paging) (space : Nat)

namespace Paging

/-- `known_space(space) && space != &kernel_space`. -/
def knownPrivate : Bool := P.enabled && P.registry.contains space && space != 0

def privateTableOwned (index : Nat) : Bool :=
  if index < userBase / 0x400000 ∨ index ≥ userEnd / 0x400000 then false
  else
    let bit := index - userBase / 0x400000
    (P.record space).privateTables (bit / 32) &&& 1 <<< (bit % 32) ≠ 0

/-- `directory(space)[index]`. -/
def directoryEntry (index : Nat) : Nat := u32 P.memory ((P.record space).directoryPhysical + 4 * index)

def privateTableValid (index : Nat) : Bool :=
  let entry := P.directoryEntry space index
  P.privateTableOwned space index && entry &&& (frameMask ||| 0x67) == entry && entry &&& 7 == 7

/-- `user_entry`: the entry of a page that is present for the user. -/
def userEntry (virtual : Nat) : Option Nat :=
  let index := virtual >>> 22
  if P.privateTableValid space index then
    let entry := u32 P.memory ((P.directoryEntry space index &&& frameMask) + 4 * ((virtual >>> 12) &&& 1023))
    if entry &&& 5 = 5 then some entry else none
  else none

/-- The physical address behind an entry. -/
def physical (entry virtual : Nat) : Nat := (entry &&& frameMask) + (virtual &&& (pageSize - 1))

/-- The loop of `user_bytes` from a page on, with at most `fuel` further pages. -/
def pagesMapped (writable : Bool) (last : Nat) : Nat → Nat → Bool
  | fuel, page =>
    match P.userEntry space page with
    | none => false
    | some entry =>
      if writable ∧ entry &&& 2 = 0 then false
      else if page = last then true
      else
        match fuel with
        | 0 => false
        | fuel + 1 => pagesMapped writable last fuel (page + pageSize)

def userBytes (address bytes : Nat) (writable : Bool) : Bool :=
  if !P.knownPrivate space then false
  else if bytes = 0 then true
  else if address < userBase ∨ address ≥ userEnd ∨ bytes > userEnd - address then false
  else
    P.pagesMapped space writable ((address + bytes - 1) &&& frameMask) (bytes / pageSize + 1) (address &&& frameMask)

/-- The loop of `copy_user_bytes` to a kernel buffer, from `offset` in the buffer on. -/
def copyFromUserLoop : Nat → Nat → Mem → Nat → Nat → Mem
  | 0, _, buffer, _, _ => buffer
  | fuel + 1, user, buffer, offset, bytes =>
    if bytes = 0 then buffer
    else
      let entry := (P.userEntry space user).getD 0
      let chunk := min (pageSize - (user &&& (pageSize - 1))) bytes
      let buffer := copyAt buffer offset P.memory (physical entry user) chunk
      copyFromUserLoop fuel ((user + chunk) % 2 ^ 32) buffer (offset + chunk) (bytes - chunk)

/-- `copy_user_bytes` with `to_user` false. -/
def copyUserBytes (user : Nat) (buffer : Mem) (offset bytes : Nat) : Mem :=
  P.copyFromUserLoop space bytes user buffer offset bytes

/-- `paging_copy_from_user` to `destination + offset`. -/
def copyFromUser (destination : Mem) (offset source bytes : Nat) : Bool × Mem :=
  if P.userBytes space source bytes false then (true, P.copyUserBytes space source destination offset bytes)
  else (false, destination)

/-- The loop of `paging_copy_string_from_user` with room for `left` more bytes: the number of bytes looked at, none if
one of them cannot be read. -/
def stringLoop (source : Nat) : Nat → Nat → Option Nat
  | 0, bytes => some bytes
  | left + 1, bytes =>
    if source < userBase ∨ source ≥ userEnd ∨ bytes > userEnd - source - 1 then none
    else
      let address := source + bytes
      match P.userEntry space address with
      | none => none
      | some entry =>
        if P.memory (physical entry address) = 0 then some (bytes + 1) else stringLoop source left (bytes + 1)

/-- `paging_copy_string_from_user`: whether it succeeds, the destination and the length; a missing length is a null
pointer. -/
def copyStringFromUser (destination : Mem) (capacity source : Nat) (length : Option Nat) : Bool × Mem × Option Nat :=
  if capacity = 0 then (false, destination, length)
  else if !P.knownPrivate space then (false, destination, length)
  else
    match P.stringLoop space source capacity 0 with
    | none => (false, destination, length)
    | some bytes =>
      let address := source + (bytes - 1)
      if bytes = 0 ∨ bytes > capacity ∨ P.memory (physical ((P.userEntry space address).getD 0) address) ≠ 0 then
        (false, destination, length)
      else (true, P.copyUserBytes space source destination 0 bytes, length.map fun _ => bytes - 1)

end Paging

/-! ## The bytes of user memory -/

/-- The byte at a user address, none if the address is not in the user window or not mapped. -/
def Paging.userByte (address : Nat) : Option Byte :=
  if userBase ≤ address ∧ address < userEnd then
    (P.userEntry space address).map fun entry => P.memory (Paging.physical entry address)
  else none

variable {P space} {m buffer destination : Mem} {a b c n offset bytes left fuel source capacity : Nat} {s : List Byte}
  {byte : Nat → Option Byte}

lemma userEntry_page (h : a / pageSize = b / pageSize) : P.userEntry space a = P.userEntry space b := by
  have h12 : a >>> 12 = b >>> 12 := by
    rw [Nat.shiftRight_eq_div_pow, Nat.shiftRight_eq_div_pow]
    exact h
  have h22 : a >>> 22 = b >>> 22 := by
    rw [show 22 = 12 + 10 from rfl, Nat.shiftRight_add, Nat.shiftRight_add, h12]
  unfold Paging.userEntry
  rw [h12, h22]

lemma and_page (a : Nat) : a &&& (pageSize - 1) = a % pageSize := Nat.and_two_pow_sub_one_eq_mod a 12

lemma physical_add {entry : Nat} (h : a % pageSize + n < pageSize) :
    Paging.physical entry (a + n) = Paging.physical entry a + n := by
  have hmod : (a + n) % pageSize = a % pageSize + n := by
    unfold pageSize at *
    omega
  unfold Paging.physical
  rw [and_page, and_page, hmod, Nat.add_assoc]

lemma div_page (h : a % pageSize + n < pageSize) : (a + n) / pageSize = a / pageSize := by
  unfold pageSize at *
  omega

lemma copyFromUserLoop_eq (hfuel : bytes ≤ fuel) (hmapped : ∀ j < bytes, (P.userByte space (a + j)).isSome) :
    P.copyFromUserLoop space fuel a buffer offset bytes = fun j =>
      if offset ≤ j ∧ j < offset + bytes then (P.userByte space (a + (j - offset))).getD 0 else buffer j := by
  induction fuel generalizing a buffer offset bytes with
  | zero =>
    obtain rfl : bytes = 0 := by omega
    funext j
    rw [if_neg (by omega)]
    rfl
  | succ fuel ih =>
    rw [Paging.copyFromUserLoop]
    by_cases h0 : bytes = 0
    · subst h0
      rw [if_pos rfl]
      funext j
      rw [if_neg (by omega)]
    rw [if_neg h0, and_page]
    have hlt : a % pageSize < pageSize := Nat.mod_lt _ (by decide)
    generalize hchunk : min (pageSize - a % pageSize) bytes = chunk
    have hpos : 0 < chunk := by omega
    have hend : a + bytes ≤ userEnd := by
      have hlast := hmapped (bytes - 1) (by omega)
      unfold Paging.userByte at hlast
      split at hlast
      · omega
      · cases hlast
    have hwrap : (a + chunk) % 2 ^ 32 = a + chunk := Nat.mod_eq_of_lt (by unfold userEnd at hend; omega)
    simp only [hwrap]
    rw [ih (by omega) fun j hj => by rw [Nat.add_assoc]; exact hmapped (chunk + j) (by omega)]
    funext j
    by_cases hin : offset ≤ j ∧ j < offset + chunk
    · -- a byte of this page
      have hj : a % pageSize + (j - offset) < pageSize := by omega
      have hsome := hmapped (j - offset) (by omega)
      rw [if_neg (by omega), if_pos (by omega)]
      unfold copyAt
      rw [if_pos hin, ← physical_add hj]
      unfold Paging.userByte at hsome ⊢
      split at hsome
      · rename_i hwindow
        rw [if_pos hwindow, userEntry_page (div_page hj)]
        rw [userEntry_page (div_page hj)] at hsome
        cases he : P.userEntry space a with
        | none =>
          rw [he] at hsome
          cases hsome
        | some entry => rfl
      · cases hsome
    · by_cases hrest : offset + chunk ≤ j ∧ j < offset + chunk + (bytes - chunk)
      · rw [if_pos hrest, if_pos (by omega), show a + chunk + (j - (offset + chunk)) = a + (j - offset) by omega]
      · rw [if_neg hrest, if_neg (by omega)]
        exact if_neg hin

lemma frame_div (h : a < 2 ^ 32) : (a &&& frameMask) / pageSize = a / pageSize := by
  have hmask : frameMask >>> 12 = 2 ^ 20 - 1 := rfl
  have hshift : (a &&& frameMask) >>> 12 = a >>> 12 := by
    rw [Nat.shiftRight_and_distrib, hmask, Nat.and_two_pow_sub_one_eq_mod, Nat.shiftRight_eq_div_pow]
    exact Nat.mod_eq_of_lt (by omega)
  rwa [Nat.shiftRight_eq_div_pow, Nat.shiftRight_eq_div_pow] at hshift

lemma userBytes_one (hknown : P.knownPrivate space = true) :
    P.userBytes space a 1 false = (P.userByte space a).isSome := by
  unfold Paging.userBytes Paging.userByte
  rw [hknown]
  simp only [Bool.not_true, Bool.false_eq_true, if_false, Nat.one_ne_zero, Nat.add_sub_cancel]
  by_cases hwindow : userBase ≤ a ∧ a < userEnd
  · rw [if_neg (by omega), if_pos hwindow]
    have hentry : P.userEntry space (a &&& frameMask) = P.userEntry space a :=
      userEntry_page (frame_div (hwindow.2.trans (by decide)))
    unfold Paging.pagesMapped
    rw [hentry]
    cases P.userEntry space a with
    | none => rfl
    | some entry => simp
  · rw [if_pos (by omega), if_neg hwindow]
    rfl

/-! ## Strings in user memory -/

/-- What is found when bytes are read up to a NUL: a string, no NUL within the bound, or a byte that cannot be read. -/
inductive Found where
  | string (s : List Byte)
  | long
  | fault

/-- A byte in front of what is found. -/
def Found.cons (c : Byte) : Found → Found
  | string s => string (c :: s)
  | long => long
  | fault => fault

/-- Read at most `n` bytes from `a` on. -/
def find (byte : Nat → Option Byte) : Nat → Nat → Found
  | 0, _ => .long
  | n + 1, a =>
    match byte a with
    | none => .fault
    | some c => if c = 0 then .string [] else (find byte n (a + 1)).cons c

/-- A string and its NUL can be read from `a` on. -/
def Spells (byte : Nat → Option Byte) : Nat → List Byte → Prop
  | a, [] => byte a = some 0
  | a, c :: s => byte a = some c ∧ c ≠ 0 ∧ Spells byte (a + 1) s

lemma find_string_iff : find byte n a = .string s ↔ s.length < n ∧ Spells byte a s := by
  induction n generalizing a s with
  | zero => simp [find]
  | succ n ih =>
    rw [find]
    cases hb : byte a with
    | none => cases s <;> simp [Spells, hb]
    | some c =>
      simp only
      by_cases h0 : c = 0
      · rw [if_pos h0]
        cases s with
        | nil => simp [Spells, hb, h0]
        | cons d s =>
          simp only [Spells, hb, Option.some.injEq, reduceCtorEq, Found.string.injEq, false_iff, not_and]
          rintro - rfl h
          exact absurd h0 h
      · rw [if_neg h0]
        have hfind := fun s => ih (a := a + 1) (s := s)
        cases s with
        | nil =>
          have : (find byte n (a + 1)).cons c ≠ .string [] := by cases find byte n (a + 1) <;> simp [Found.cons]
          simp [Spells, hb, h0, this]
        | cons d s =>
          have hcons : (find byte n (a + 1)).cons c = .string (d :: s) ↔ c = d ∧ find byte n (a + 1) = .string s := by
            cases find byte n (a + 1) <;> simp [Found.cons]
          rw [hcons, hfind]
          simp only [Spells, hb, Option.some.injEq, List.length_cons, Nat.add_lt_add_iff_right]
          constructor
          · rintro ⟨rfl, hlt, hs⟩
            exact ⟨hlt, rfl, h0, hs⟩
          · rintro ⟨hlt, rfl, -, hs⟩
            exact ⟨rfl, hlt, hs⟩

lemma find_long_iff : find byte n a = .long ↔ ∀ j < n, ∃ c, c ≠ 0 ∧ byte (a + j) = some c := by
  induction n generalizing a with
  | zero => simp [find]
  | succ n ih =>
    rw [find, Nat.forall_lt_succ_left]
    cases hb : byte a with
    | none => simp
    | some c =>
      simp only [Option.some.injEq, exists_eq_right']
      by_cases h0 : c = 0
      · rw [if_pos h0]
        simp [h0]
      · rw [if_neg h0]
        have hcons : (find byte n (a + 1)).cons c = .long ↔ find byte n (a + 1) = .long := by
          cases find byte n (a + 1) <;> simp [Found.cons]
        rw [hcons, ih]
        simp [h0, Nat.add_assoc, Nat.add_comm 1]

lemma Spells.isSome (h : Spells byte a s) : ∀ j < s.length + 1, (byte (a + j)).isSome := by
  induction s generalizing a with
  | nil =>
    intro j hj
    obtain rfl : j = 0 := by simpa using hj
    rw [Nat.add_zero, show byte a = some 0 from h]
    rfl
  | cons c s ih =>
    obtain ⟨hb, -, hs⟩ := h
    intro j hj
    cases j with
    | zero =>
      rw [Nat.add_zero, hb]
      rfl
    | succ j =>
      have := ih hs j (by simpa using hj)
      rwa [Nat.add_assoc, Nat.add_comm 1] at this

lemma Spells.stringAt (h : Spells byte a s) (hm : ∀ j < s.length + 1, m (b + j) = (byte (a + j)).getD 0) :
    StringAt m b s := by
  induction s generalizing a b with
  | nil =>
    refine ⟨rfl, nofun, ?_⟩
    have := hm 0 (by simp)
    rwa [Nat.add_zero a, show byte a = some 0 from h] at this
  | cons c s ih =>
    obtain ⟨hb, hc, hs⟩ := h
    have htail : StringAt m (b + 1) s := by
      refine ih hs fun j hj => ?_
      rw [Nat.add_assoc, Nat.add_assoc, Nat.add_comm 1]
      exact hm (j + 1) (by simpa using hj)
    have hhead : m b = c := by
      have := hm 0 (by simp)
      rwa [Nat.add_zero, Nat.add_zero, hb] at this
    refine ⟨?_, ?_, ?_⟩
    · rw [List.length_cons, Nat.add_comm, window_add, htail.bytes]
      simp [window, hhead]
    · rintro d (_ | ⟨_, hd⟩)
      · exact hc
      · exact htail.nonzero d hd
    · have := htail.nul
      rwa [Nat.add_assoc, Nat.add_comm 1] at this

/-! ## Copying strings -/

lemma stringLoop_eq (hbase : userBase ≤ source) (hlt : source < userEnd) : P.stringLoop space source left bytes =
      match find (P.userByte space) left (source + bytes) with
      | .string s => some (bytes + (s.length + 1))
      | .long => some (bytes + left)
      | .fault => none := by
  induction left generalizing bytes with
  | zero => rfl
  | succ left ih =>
    rw [Paging.stringLoop, find]
    by_cases hend : bytes > userEnd - source - 1
    · have hnone : P.userByte space (source + bytes) = none := if_neg (by omega)
      rw [if_pos (.inr (.inr hend)), hnone]
    · have hbyte : P.userByte space (source + bytes) = (P.userEntry space (source + bytes)).map fun entry =>
          P.memory (Paging.physical entry (source + bytes)) := if_pos (by omega)
      rw [if_neg (by omega), hbyte]
      dsimp only
      cases P.userEntry space (source + bytes) with
      | none => rfl
      | some entry =>
        simp only [Option.map_some]
        by_cases h0 : P.memory (Paging.physical entry (source + bytes)) = 0
        · rw [if_pos h0, if_pos h0]
          rfl
        · rw [if_neg h0, if_neg h0, ih, Nat.add_assoc]
          cases find (P.userByte space) left (source + (bytes + 1)) with
          | string s | long => simp [Found.cons, Nat.add_comm, Nat.add_left_comm]
          | fault => rfl

lemma stringLoop_outside (h : ¬ (userBase ≤ source ∧ source < userEnd)) (hcapacity : 0 < capacity) :
    P.stringLoop space source capacity 0 = none ∧ find (P.userByte space) capacity source = .fault := by
  obtain ⟨left, rfl⟩ : ∃ left, capacity = left + 1 := ⟨capacity - 1, by omega⟩
  have hnone : P.userByte space source = none := if_neg h
  rw [Paging.stringLoop, find, hnone, if_pos (by omega)]
  exact ⟨rfl, rfl⟩

lemma userByte_some {c : Byte} (h : P.userByte space a = some c) :
    P.memory (Paging.physical ((P.userEntry space a).getD 0) a) = c := by
  unfold Paging.userByte at h
  split at h
  · obtain ⟨entry, he, hc⟩ := Option.map_eq_some_iff.mp h
    rw [he]
    exact hc
  · cases h

lemma Spells.nul (h : Spells byte a s) : byte (a + s.length) = some 0 := by
  induction s generalizing a with
  | nil => exact h
  | cons c s ih =>
    have := ih h.2.2
    rwa [Nat.add_assoc, Nat.add_comm 1] at this

/-- The buffer with the bytes of a string from `offset` on. -/
def holding (P : Paging) (space : Nat) (buffer : Mem) (offset source bytes : Nat) : Mem := fun j =>
  if offset ≤ j ∧ j < offset + bytes then (P.userByte space (source + (j - offset))).getD 0 else buffer j

lemma copyStringFromUser_eq (hknown : P.knownPrivate space = true) (hcapacity : 0 < capacity) (destination : Mem)
    (source : Nat) (length : Option Nat) : P.copyStringFromUser space destination capacity source length =
      match find (P.userByte space) capacity source with
      | .string s =>
        (true, holding P space destination 0 source (s.length + 1), length.map fun _ => s.length)
      | _ => (false, destination, length) := by
  unfold Paging.copyStringFromUser
  rw [if_neg (by omega), hknown]
  simp only [Bool.not_true, Bool.false_eq_true, if_false]
  by_cases hwindow : userBase ≤ source ∧ source < userEnd
  · rw [stringLoop_eq hwindow.1 hwindow.2, Nat.add_zero]
    cases hfind : find (P.userByte space) capacity source with
    | string s =>
      obtain ⟨hlt, hspells⟩ := find_string_iff.mp hfind
      simp only [Nat.zero_add, Nat.add_sub_cancel]
      have hfits : ¬ (s.length + 1 = 0 ∨ s.length + 1 > capacity ∨
          P.memory (Paging.physical ((P.userEntry space (source + s.length)).getD 0) (source + s.length)) ≠ 0) := by
        rw [userByte_some hspells.nul]
        simp
        omega
      rw [if_neg hfits]
      unfold Paging.copyUserBytes
      rw [copyFromUserLoop_eq le_rfl hspells.isSome]
      rfl
    | long =>
      obtain ⟨c, hc, hbyte⟩ := find_long_iff.mp hfind (capacity - 1) (by omega)
      rw [← userByte_some hbyte] at hc
      simp only [Nat.zero_add]
      rw [if_pos (.inr (.inr hc))]
    | fault => rfl
  · have hout : P.stringLoop space source capacity 0 = none ∧ find (P.userByte space) capacity source = .fault :=
      stringLoop_outside hwindow hcapacity
    rw [hout.1, hout.2]

end RumKernel.Arch
