import RumKernel.Lib.Bytes

/-!
# Strings in memory

A C string stands in a byte memory from its start on, up to its terminating NUL. A loop that moves an index forward
stops at the first place where its condition fails.
-/

namespace RumKernel.Lib

/-- The bytes of a memory from `start` on. -/
def window (m : Mem) (start bytes : Nat) : List Byte := (List.range bytes).map fun j => m (start + j)

/-- The bytes from `start` on are copied to `offset`. -/
def copyAt (m : Mem) (offset : Nat) (source : Mem) (start bytes : Nat) : Mem := fun j =>
  if offset ≤ j ∧ j < offset + bytes then source (start + (j - offset)) else m j

/-- `while (condition) ++i`, for at most `fuel` steps. -/
def scanWhile (condition : Nat → Bool) : Nat → Nat → Nat
  | 0, i => i
  | fuel + 1, i => if condition i then scanWhile condition fuel (i + 1) else i

variable {m : Mem} {n i j start bytes fuel : Nat} {s l : List Byte}

@[simp] lemma length_window : (window m start bytes).length = bytes := by simp [window]

lemma window_add : window m start (i + j) = window m start i ++ window m (start + i) j := by
  simp [window, List.range_add, Nat.add_assoc, Function.comp_def]

lemma getElem?_window (h : j < bytes) : (window m start bytes)[j]? = some (m (start + j)) := by
  simp [window, h]

lemma window_byte? (h : window m start l.length = l) (hj : j < l.length) : l[j]? = some (m (start + j)) := by
  rw [← getElem?_window hj, h]

lemma window_byte (h : window m start l.length = l) (hj : j < l.length) : m (start + j) = l[j] := by
  have hb := window_byte? h hj
  rw [List.getElem?_eq_getElem hj] at hb
  exact (Option.some.inj hb).symm

/-! ## Scanning -/

lemma scanWhile_eq {condition : Nat → Bool} {k : Nat} (hk : k ≤ fuel) (hall : ∀ j < k, condition (i + j) = true)
    (hstop : condition (i + k) = false) : scanWhile condition fuel i = i + k := by
  induction k generalizing i fuel with
  | zero =>
    cases fuel with
    | zero => rfl
    | succ fuel =>
      rw [scanWhile, if_neg (by simpa using hstop)]
      rfl
  | succ k ih =>
    obtain ⟨fuel, rfl⟩ : ∃ f, fuel = f + 1 := ⟨fuel - 1, by omega⟩
    have hnext (j : Nat) : i + 1 + j = i + (j + 1) := by omega
    rw [scanWhile, if_pos (by simpa using hall 0 (by omega)), ih (by omega) (fun j hj => by
      rw [hnext]
      exact hall (j + 1) (by omega)) (by rw [hnext]; exact hstop), hnext]

/-- A string with its terminating NUL stands in memory. -/
structure StringAt (m : Mem) (start : Nat) (s : List Byte) : Prop where
  bytes : window m start s.length = s
  nonzero : ∀ c ∈ s, c ≠ 0
  nul : m (start + s.length) = 0

namespace StringAt

lemma byte (h : StringAt m start s) (hj : j < s.length) : m (start + j) = s[j] := window_byte h.bytes hj

lemma byte_ne (h : StringAt m start s) (hj : j < s.length) : m (start + j) ≠ 0 := by
  rw [h.byte hj]
  exact h.nonzero _ (List.getElem_mem hj)

section
variable (h : StringAt m start (l ++ s))
include h

lemma drop : StringAt m (start + l.length) s := by
  have hb := h.bytes
  rw [List.length_append, window_add] at hb
  refine ⟨(List.append_inj hb (by simp)).2, fun c hc => h.nonzero c (List.mem_append_right l hc), ?_⟩
  have hn := h.nul
  rwa [List.length_append, ← Nat.add_assoc] at hn

lemma window_left : window m start l.length = l := by
  have hb := h.bytes
  rw [List.length_append, window_add] at hb
  exact (List.append_inj hb (by simp)).1

lemma scan (condition : Byte → Bool) (hl : ∀ c ∈ l, condition c = true)
    (hs : condition (m (start + l.length)) = false) (hn : l.length ≤ n) :
    scanWhile (fun j => condition (m j)) n start = start + l.length := by
  refine scanWhile_eq hn (fun j hj => ?_) hs
  rw [window_byte h.window_left hj]
  exact hl _ (List.getElem_mem hj)

end

lemma scan_all (h : StringAt m start s) (hn : s.length ≤ n) :
    scanWhile (fun j => m j ≠ 0) n start = start + s.length := by
  have h' : StringAt m start (s ++ []) := by rwa [List.append_nil]
  refine h'.scan (fun c => c ≠ 0) (fun c hc => ?_) ?_ hn
  · simpa using h.nonzero c hc
  · simpa using h.nul

end StringAt

lemma StringAt.congr {m' : Mem} (h : StringAt m start s) (hm : ∀ j, start ≤ j → j ≤ start + s.length → m' j = m j) :
    StringAt m' start s := by
  refine ⟨?_, h.nonzero, by rw [hm _ (by omega) le_rfl, h.nul]⟩
  refine (List.map_congr_left fun j hj => ?_).trans h.bytes
  have := List.mem_range.mp hj
  exact hm _ (by omega) (by omega)

lemma StringAt.pointer (h : StringAt m start s) : StringAt (fun j => m (start + j)) 0 s := by
  refine ⟨?_, h.nonzero, by simpa using h.nul⟩
  refine Eq.trans ?_ h.bytes
  simp [window]

end RumKernel.Lib
