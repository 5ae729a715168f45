import RumKernel.Arch.UserMemory
import RumKernel.Process.Seek

/-!
# Paths from user space

`copy_path` of `syscall.c` reads a path byte by byte, each with its own check. It agrees with
`paging_copy_string_from_user`, which looks at the bytes first and copies them at once.
-/

namespace RumKernel.Process
open Lib Arch

def pathCapacity : Nat := 256

variable (P : Paging) (space : Nat)

def memoryRangeContains (base stop address bytes : Nat) : Bool :=
  address ≥ base ∧ address < stop ∧ bytes ≤ stop - address

def accessible (address bytes : Nat) (write : Bool) : Bool :=
  bytes = 0 ∨ (memoryRangeContains userBase userEnd address bytes ∧ P.userBytes space address bytes write)

/-- The loop of `copy_path` with room for `left` more bytes. -/
def copyPathLoop (address : Nat) : Nat → Nat → Mem → Int × Mem
  | 0, _, path => (Errno.enametoolong.result, path)
  | left + 1, i, path =>
    if i > 2 ^ 32 - 1 - address ∨ !accessible P space (address + i) 1 false then (-efault, path)
    else
      match P.copyFromUser space path i (address + i) 1 with
      | (false, path) => (-efault, path)
      | (true, path) =>
        if path i = 0 then (if i ≠ 0 then 0 else Errno.einval.result, path)
        else copyPathLoop address left (i + 1) path

/-- `copy_path`: the result and the buffer. -/
def copyPath (address : Nat) (path : Mem) : Int × Mem := copyPathLoop P space address pathCapacity 0 path

variable {P space} {address i left : Nat} {path : Mem}

lemma copyPathLoop_succ (hknown : P.knownPrivate space = true) : copyPathLoop P space address (left + 1) i path =
      match P.userByte space (address + i) with
      | none => (-efault, path)
      | some c =>
        if c = 0 then (if i ≠ 0 then 0 else Errno.einval.result, fun j => if j = i then c else path j)
        else copyPathLoop P space address left (i + 1) fun j => if j = i then c else path j := by
  rw [copyPathLoop]
  unfold Paging.copyFromUser
  rw [userBytes_one hknown]
  cases hbyte : P.userByte space (address + i) with
  | none =>
    have hno : accessible P space (address + i) 1 false = false := by
      unfold accessible
      rw [userBytes_one hknown, hbyte]
      simp
    rw [if_pos (.inr (by rw [hno]; rfl))]
  | some c =>
    have hwindow : userBase ≤ address + i ∧ address + i < userEnd := by
      by_contra hout
      rw [Paging.userByte, if_neg hout] at hbyte
      cases hbyte
    have hyes : accessible P space (address + i) 1 false = true := by
      unfold accessible memoryRangeContains
      rw [userBytes_one hknown, hbyte]
      have hroom : 1 ≤ userEnd - (address + i) := by omega
      simp [hwindow, hroom]
    have hcopy : P.copyUserBytes space (address + i) path i 1 = fun j => if j = i then c else path j := by
      unfold Paging.copyUserBytes
      rw [copyFromUserLoop_eq le_rfl]
      · funext j
        by_cases hj : j = i
        · rw [if_pos (by omega), if_pos hj, hj, Nat.sub_self, Nat.add_zero, hbyte]
          rfl
        · rw [if_neg (by omega), if_neg hj]
      · intro j hj
        obtain rfl : j = 0 := by omega
        rw [Nat.add_zero, hbyte]
        rfl
    have hnowrap : ¬ (i > 2 ^ 32 - 1 - address) := by
      have := hwindow.2
      unfold userEnd at this
      omega
    rw [if_neg (by rw [hyes]; simpa using hnowrap), Option.isSome_some, if_pos rfl, hcopy]
    simp

lemma copyPathLoop_eq (hknown : P.knownPrivate space = true) (address left i : Nat) (path : Mem) : ∃ path',
    copyPathLoop P space address left i path = (match find (P.userByte space) left (address + i) with
      | .string s => if i + s.length = 0 then Errno.einval.result else 0
      | .long => Errno.enametoolong.result
      | .fault => -efault, path') ∧
    (∀ j < i, path' j = path j) ∧ ∀ s, find (P.userByte space) left (address + i) = .string s →
      ∀ j < s.length + 1, path' (i + j) = (P.userByte space (address + i + j)).getD 0 := by
  induction left generalizing i path with
  | zero => exact ⟨path, rfl, fun _ _ => rfl, by rintro s ⟨⟩⟩
  | succ left ih =>
    rw [copyPathLoop_succ hknown, find]
    cases hbyte : P.userByte space (address + i) with
    | none => exact ⟨path, rfl, fun _ _ => rfl, by rintro s ⟨⟩⟩
    | some c =>
      have hstore : (fun j => if j = i then c else path j) i = c := if_pos rfl
      have hkeep (j : Nat) (hj : j < i) : (fun j => if j = i then c else path j) j = path j := if_neg (by omega)
      simp only
      generalize (fun j => if j = i then c else path j) = stored at hstore hkeep ⊢
      by_cases h0 : c = 0
      · rw [if_pos h0, if_pos h0]
        refine ⟨stored, ?_, hkeep, ?_⟩
        · by_cases hi : i = 0 <;> simp [hi]
        · rintro s ⟨⟩ j hj
          obtain rfl : j = 0 := by simpa using hj
          rw [Nat.add_zero, Nat.add_zero, hbyte, hstore]
          rfl
      · rw [if_neg h0, if_neg h0]
        obtain ⟨path', hrun, hframe, hbytes⟩ := ih (i + 1) stored
        refine ⟨path', ?_, fun j hj => (hframe j (by omega)).trans (hkeep j hj), ?_⟩
        · rw [hrun, Nat.add_assoc]
          cases find (P.userByte space) left (address + (i + 1)) <;> simp [Found.cons]
        · intro s hs j hj
          rw [← Nat.add_assoc] at hbytes
          cases hfind : find (P.userByte space) left (address + i + 1) with
          | string t =>
            rw [hfind] at hs
            obtain rfl : c :: t = s := by simpa [Found.cons] using hs
            cases j with
            | zero => rw [Nat.add_zero, Nat.add_zero, hbyte, hframe i (by omega), hstore]; rfl
            | succ j =>
              have := hbytes t hfind j (by simpa using hj)
              rwa [show i + 1 + j = i + (j + 1) by omega, show address + i + 1 + j = address + i + (j + 1) by omega]
                at this
          | long =>
            rw [hfind] at hs
            cases hs
          | fault =>
            rw [hfind] at hs
            cases hs

lemma stringAt_unique {m : Mem} {start : Nat} {s t : List Byte} (hs : StringAt m start s) (ht : StringAt m start t) :
    s = t := by
  have hlen : s.length = t.length := by
    rcases lt_trichotomy s.length t.length with h | h | h
    · exact absurd hs.nul (ht.byte_ne h)
    · exact h
    · exact absurd ht.nul (hs.byte_ne h)
  rw [← hs.bytes, ← ht.bytes, hlen]

lemma holding_stringAt {m : Mem} {source : Nat} {s : List Byte} (h : Spells (P.userByte space) source s) :
    StringAt (holding P space m 0 source (s.length + 1)) 0 s := by
  refine h.stringAt fun j hj => ?_
  unfold holding
  rw [if_pos (by omega), Nat.zero_add, Nat.sub_zero]

lemma copyPath_eq (hknown : P.knownPrivate space = true) (address : Nat) (path : Mem) : ∃ path',
    copyPath P space address path = (match find (P.userByte space) pathCapacity address with
      | .string s => if s.length = 0 then Errno.einval.result else 0
      | .long => Errno.enametoolong.result
      | .fault => -efault, path') ∧
    ∀ s, find (P.userByte space) pathCapacity address = .string s → StringAt path' 0 s := by
  obtain ⟨path', hrun, -, hbytes⟩ := copyPathLoop_eq hknown address pathCapacity 0 path
  simp only [Nat.add_zero, Nat.zero_add] at hrun hbytes
  refine ⟨path', hrun, fun s hs => ?_⟩
  refine (find_string_iff.mp hs).2.stringAt fun j hj => ?_
  rw [Nat.zero_add]
  exact hbytes s hs j hj

section
variable (hprivate : P.knownPrivate space = true) (source : Nat) (destination path : Mem) (length : Option Nat)
include hprivate

lemma copyString_spec {capacity : Nat} (hcapacity : 0 < capacity) :
    let r := P.copyStringFromUser space destination capacity source length
    (r.1 = true ↔ ∃ s : List Byte, s.length < capacity ∧ Spells (P.userByte space) source s) ∧
      (∀ s : List Byte, s.length < capacity → Spells (P.userByte space) source s →
        StringAt r.2.1 0 s ∧ (∀ j, s.length < j → r.2.1 j = destination j) ∧ r.2.2 = length.map fun _ => s.length) ∧
      (r.1 = false → r = (false, destination, length)) := by
  intro r
  have hr : r = _ := copyStringFromUser_eq hprivate hcapacity destination source length
  cases hfind : find (P.userByte space) capacity source with
  | string s =>
    rw [hfind] at hr
    have hs := find_string_iff.mp hfind
    rw [hr]
    refine ⟨⟨fun _ => ⟨s, hs⟩, fun _ => rfl⟩, fun t ht hspells => ?_, nofun⟩
    obtain rfl : s = t := Found.string.inj (hfind.symm.trans (find_string_iff.mpr ⟨ht, hspells⟩))
    exact ⟨holding_stringAt hspells, fun j hj => if_neg (by omega), rfl⟩
  | long | fault =>
    rw [hfind] at hr
    have hnone (s : List Byte) (hlt : s.length < capacity) (hs : Spells (P.userByte space) source s) : False :=
      absurd (hfind.symm.trans (find_string_iff.mpr ⟨hlt, hs⟩)) nofun
    rw [hr]
    exact ⟨⟨nofun, fun ⟨s, hlt, hs⟩ => (hnone s hlt hs).elim⟩, fun s hlt hs => (hnone s hlt hs).elim, fun _ => rfl⟩

lemma copyPath_spec :
    let r := copyPath P space source path
    (∀ s : List Byte, (r.1 = 0 ∧ StringAt r.2 0 s) ↔
        s ≠ [] ∧ s.length < pathCapacity ∧ Spells (P.userByte space) source s) ∧
      (r.1 = Errno.einval.result ↔ P.userByte space source = some 0) ∧
      (r.1 = Errno.enametoolong.result ↔ ∀ j < pathCapacity, ∃ c, c ≠ 0 ∧ P.userByte space (source + j) = some c) ∧
      (r.1 = 0 ∨ r.1 = Errno.einval.result ∨ r.1 = Errno.enametoolong.result ∨ r.1 = -efault) := by
  intro r
  obtain ⟨path', hr, hstring⟩ := copyPath_eq hprivate source path
  have hr' : r = _ := hr
  have hempty : P.userByte space source = some 0 ↔ find (P.userByte space) pathCapacity source = .string [] := by
    rw [find_string_iff]
    exact ⟨fun h => ⟨by decide, h⟩, fun h => h.2⟩
  simp only [hempty, ← find_long_iff, ← find_string_iff]
  rw [hr']
  cases hfind : find (P.userByte space) pathCapacity source with
  | string t =>
    have ht := hstring t hfind
    simp only
    by_cases h0 : t.length = 0
    · obtain rfl : t = [] := List.length_eq_zero_iff.mp h0
      simp [Errno.result, Errno.number]
    · have hne : t ≠ [] := by simpa using h0
      rw [if_neg h0]
      refine ⟨fun s => ⟨fun h => ?_, fun h => ?_⟩, by simp [Errno.result, Errno.number, hne],
        by simp [Errno.result, Errno.number], .inl rfl⟩
      · obtain rfl := stringAt_unique ht h.2
        exact ⟨hne, rfl⟩
      · obtain ⟨-, h⟩ := h
        obtain rfl := Found.string.inj h
        exact ⟨rfl, ht⟩
  | long => simp [Errno.result, Errno.number]
  | fault => simp [Errno.result, Errno.number, efault]

end

/-- **The two ways of reading a user string agree.** `paging_copy_string_from_user` succeeds exactly if a NUL is within
the capacity and every byte up to it can be read; it then copies these bytes and returns the length, and otherwise
changes nothing. `copy_path` succeeds with a string exactly if that call with the capacity of a path succeeds with it
and it is not empty; it fails with `RUM_EINVAL` for the empty string, with `RUM_ENAMETOOLONG` if no byte of a whole path
is a NUL, and with `RUM_EFAULT` otherwise. -/
theorem user_strings_agree (P : Paging) (space source : Nat) (hprivate : P.knownPrivate space = true)
    (destination path : Mem) (length : Option Nat) : (∀ capacity, 0 < capacity →
      let r := P.copyStringFromUser space destination capacity source length
      (r.1 = true ↔ ∃ s : List Byte, s.length < capacity ∧ Spells (P.userByte space) source s) ∧
        (∀ s : List Byte, s.length < capacity → Spells (P.userByte space) source s →
          StringAt r.2.1 0 s ∧ (∀ j, s.length < j → r.2.1 j = destination j) ∧ r.2.2 = length.map fun _ => s.length) ∧
        (r.1 = false → r = (false, destination, length))) ∧
    let r := copyPath P space source path
    let c := P.copyStringFromUser space destination pathCapacity source length
    (∀ s : List Byte, (r.1 = 0 ∧ StringAt r.2 0 s) ↔ s ≠ [] ∧ c.1 = true ∧ StringAt c.2.1 0 s) ∧
      (r.1 = Errno.einval.result ↔ c.1 = true ∧ StringAt c.2.1 0 []) ∧
      (r.1 = Errno.enametoolong.result ↔ ∀ j < pathCapacity, ∃ b, b ≠ 0 ∧ P.userByte space (source + j) = some b) ∧
      (r.1 = 0 ∨ r.1 = Errno.einval.result ∨ r.1 = Errno.enametoolong.result ∨ r.1 = -efault) := by
  refine ⟨fun capacity hcapacity => copyString_spec hprivate source destination length hcapacity, ?_⟩
  intro r c
  obtain ⟨hsuccess, hcopied, -⟩ := copyString_spec hprivate source destination length (show 0 < pathCapacity by decide)
  obtain ⟨hzero, hempty, hlong, hall⟩ := copyPath_spec hprivate source path
  have hstring (s : List Byte) : (c.1 = true ∧ StringAt c.2.1 0 s) ↔
      s.length < pathCapacity ∧ Spells (P.userByte space) source s := by
    constructor
    · rintro ⟨hc, hs⟩
      obtain ⟨t, hlt, ht⟩ := hsuccess.mp hc
      obtain rfl := stringAt_unique hs (hcopied t hlt ht).1
      exact ⟨hlt, ht⟩
    · rintro ⟨hlt, hs⟩
      exact ⟨hsuccess.mpr ⟨s, hlt, hs⟩, (hcopied s hlt hs).1⟩
  refine ⟨fun s => (hzero s).trans (and_congr_right fun _ => (hstring s).symm), ?_, hlong, hall⟩
  rw [hempty, hstring]
  exact ⟨fun h => ⟨by decide, h⟩, fun h => h.2⟩

/-- A space with one page, at the start of the user window, that holds the string of one letter. -/
def onePage : Paging where
  enabled := true
  registry := [1]
  record _ := { directoryPhysical := 0x1000, privateTables := fun _ => 1 }
  memory j :=
    if j = 0x1800 then 0x07 else if j = 0x1801 then 0x20
    else if j = 0x2000 then 0x07 else if j = 0x2001 then 0x30
    else if j = 0x3000 then 97 else 0

/-- The string is read both ways. -/
theorem user_strings_agree_letter : onePage.knownPrivate 1 = true ∧
    (copyPath onePage 1 userBase fun _ => 0).1 = 0 ∧ StringAt (copyPath onePage 1 userBase fun _ => 0).2 0 [97] := by
  have hprivate : onePage.knownPrivate 1 = true := by decide
  have h := user_strings_agree onePage 1 userBase hprivate (fun _ => 0) (fun _ => 0) none
  have hspells : Spells (onePage.userByte 1) userBase [97] :=
    ⟨by decide, by decide, show onePage.userByte 1 (userBase + 1) = some 0 by decide⟩
  have hcopy := h.1 pathCapacity (by decide)
  refine ⟨hprivate, (h.2.1 [97]).mpr ⟨by simp, hcopy.1.mpr ⟨[97], by decide, hspells⟩, ?_⟩⟩
  exact (hcopy.2.1 [97] (by decide) hspells).1

end RumKernel.Process
