import Mathlib

/-!
# Bitmaps of 32-bit words

A bitmap is an array of words; bit `i` is bit `i % 32` of word `i / 32`. Reading and setting single bits with
masks is shown to be reading and updating a function from indices to truth values.
-/

namespace RumKernel.Lib

/-- An array of 32-bit words. -/
abbrev Bitmap := Nat → BitVec 32

namespace Bitmap

variable {m : Bitmap} {i j first n : Nat} {v : Bool}

/-- The word with bit `i % 32` set. -/
def mask (i : Nat) : BitVec 32 := 1#32 <<< (i % 32)

/-- Read bit `i`. -/
def bit (m : Bitmap) (i : Nat) : Bool := m (i / 32) &&& mask i != 0#32

/-- Set bit `i` to `v`. -/
def set (m : Bitmap) (i : Nat) (v : Bool) : Bitmap := fun w =>
  if w = i / 32 then if v then m w ||| mask i else m w &&& ~~~mask i else m w

/-- Set the `n` bits from `first` to `v`, in ascending order. -/
def setRange (m : Bitmap) (first : Nat) (v : Bool) : Nat → Bitmap
  | 0 => m
  | n + 1 => (setRange m first v n).set (first + n) v

/-- The bitmap without a set bit. -/
def empty : Bitmap := fun _ => 0#32

lemma getLsbD_mask {k : Nat} (hk : k < 32) : (mask i).getLsbD k = decide (k = i % 32) := by
  unfold mask
  rw [BitVec.getLsbD_shiftLeft, BitVec.getLsbD_one]
  by_cases h : k = i % 32
  · simp [h]
    omega
  · have hlt : k < i % 32 ∨ i % 32 < k := by omega
    rcases hlt with hlt | hlt
    · simp [hlt, h]
    · have : k - i % 32 ≠ 0 := by omega
      simp [h, this]

lemma bit_eq : m.bit i = (m (i / 32)).getLsbD (i % 32) := by
  have hi : i % 32 < 32 := Nat.mod_lt _ (by omega)
  rw [bit, Bool.eq_iff_iff, bne_iff_ne, ne_eq]
  constructor
  · intro h
    by_contra hb
    refine h (BitVec.eq_of_getLsbD_eq fun k hk => ?_)
    rw [BitVec.getLsbD_and, getLsbD_mask hk, BitVec.getLsbD_zero]
    by_cases e : k = i % 32
    · rw [e]
      simpa using hb
    · simp [e]
  · intro h e
    have hk : (m (i / 32) &&& mask i).getLsbD (i % 32) = true := by
      rw [BitVec.getLsbD_and, getLsbD_mask hi, h]
      simp
    rw [e, BitVec.getLsbD_zero] at hk
    cases hk

lemma bit_empty : empty.bit i = false := by
  rw [bit_eq]
  exact BitVec.getLsbD_zero

/-- **Setting one bit** changes that bit only. -/
theorem bit_set : (m.set i v).bit j = if j = i then v else m.bit j := by
  have hj : j % 32 < 32 := Nat.mod_lt _ (by omega)
  rw [bit_eq, bit_eq]
  unfold set
  by_cases hw : j / 32 = i / 32
  · rw [if_pos hw]
    by_cases h : j = i
    · subst h
      cases v with
      | true => simp [getLsbD_mask hj]
      | false =>
        simp only [Bool.false_eq_true, if_false, BitVec.getLsbD_and, BitVec.getLsbD_not, getLsbD_mask hj]
        simp
    · have hne : j % 32 ≠ i % 32 := by omega
      rw [if_neg h]
      cases v with
      | true => simp [getLsbD_mask hj, hne]
      | false =>
        simp only [Bool.false_eq_true, if_false, BitVec.getLsbD_and, BitVec.getLsbD_not, getLsbD_mask hj]
        simp [hne, hj]
  · rw [if_neg hw, if_neg fun h => hw (by rw [h])]

/-- Setting a range changes the bits of the range only. -/
theorem bit_setRange : (m.setRange first v n).bit j = if first ≤ j ∧ j < first + n then v else m.bit j := by
  induction n with
  | zero => rw [setRange, if_neg (by omega)]
  | succ n ih =>
    rw [setRange, bit_set, ih]
    by_cases h : j = first + n
    · rw [if_pos h, if_pos (by omega)]
    · rw [if_neg h]
      exact if_congr (by omega) rfl rfl

end Bitmap

end RumKernel.Lib
