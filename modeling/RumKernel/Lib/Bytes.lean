import Mathlib

/-!
# Byte memories

A byte memory is a function from addresses to bytes. Storage is read and written in blocks of 512 bytes,
and numbers are stored little-endian, as the kernel's `u16`/`u32`/`put16`/`put32` do.
-/

namespace RumKernel.Lib

variable {base i j n : Nat}

/-- A byte (`unsigned char`). -/
abbrev Byte := UInt8

abbrev Mem := Nat → Byte

variable {data m m' : Mem}

/-- The bytes of `m` from `base`, `n` of them; the rest of the buffer is zero. -/
def slice (m : Mem) (base n : Nat) : Mem := fun j => if j < n then m (base + j) else 0

/-- `memcpy` of `n` bytes of `src` over the start of `dst`. -/
def copyInto (dst src : Mem) (n : Nat) : Mem := fun j => if j < n then src j else dst j

/-- `memcmp` of `n` bytes: true when they are equal. -/
@[irreducible] def sameBytes (a b : Mem) (n : Nat) : Bool := (List.range n).all fun j => a j == b j

/-- The 512-byte block number `n`. -/
def block (m : Mem) (n : Nat) : Mem := slice m (n * 512) 512

/-- Overwrite block `n`. -/
def setBlock (m : Mem) (n : Nat) (data : Mem) : Mem :=
  fun a => if a / 512 = n then data (a % 512) else m a

/-- `u16`: two bytes, least significant first. -/
def u16 (m : Mem) (i : Nat) : Nat := (m i).toNat + 256 * (m (i + 1)).toNat

/-- `u32`: four bytes, least significant first. -/
def u32 (m : Mem) (i : Nat) : Nat := u16 m i + 65536 * u16 m (i + 2)

/-- `put16`: store the low 16 bits of `n`. -/
def put16 (m : Mem) (i n : Nat) : Mem :=
  fun j => if j = i then UInt8.ofNat n else if j = i + 1 then UInt8.ofNat (n / 256) else m j

/-- `put32`: store the low 32 bits of `n`. -/
def put32 (m : Mem) (i n : Nat) : Mem := put16 (put16 m i n) (i + 2) (n / 65536)

lemma byte_ext {a b : Byte} (h : a.toNat = b.toNat) : a = b := UInt8.toNat_inj.mp h

lemma byte_or_and {a b mask : Byte} (h : b &&& mask = 0) : (a ||| b) &&& mask = a &&& mask := by
  apply byte_ext
  have h' : b.toNat &&& mask.toNat = 0 := by rw [← UInt8.toNat_and, h]; rfl
  rw [UInt8.toNat_and, UInt8.toNat_or, Nat.and_or_distrib_right, h', Nat.or_zero, UInt8.toNat_and]

lemma slice_apply (h : j < n) : slice m base n j = m (base + j) := if_pos h

lemma slice_congr (h : ∀ j < n, m (base + j) = m' (base + j)) : slice m base n = slice m' base n := by
  funext j
  unfold slice
  split
  · exact h j ‹_›
  · rfl

lemma slice_slice {b b' n' : Nat} (h : b' + n' ≤ n) : slice (slice m b n) b' n' = slice m (b + b') n' := by
  funext j
  unfold slice
  split
  · rw [if_pos (by omega), Nat.add_assoc]
  · rfl

lemma sameBytes_iff {a b : Mem} : sameBytes a b n = true ↔ ∀ j < n, a j = b j := by
  unfold sameBytes
  simp

lemma block_apply (h : j < 512) : block m n j = m (n * 512 + j) := slice_apply h

lemma setBlock_apply_same (h : j < 512) : setBlock m n data (n * 512 + j) = data j := by
  unfold setBlock
  rw [if_pos (by omega), show (n * 512 + j) % 512 = j by omega]

lemma setBlock_apply_other {a : Nat} (h : a / 512 ≠ n) : setBlock m n data a = m a := if_neg h

lemma u16_lt : u16 m i < 65536 := by
  have h1 := (m i).toNat_lt
  have h2 := (m (i + 1)).toNat_lt
  unfold u16
  omega

lemma u32_lt : u32 m i < 4294967296 := by
  have h1 := u16_lt (m := m) (i := i)
  have h2 := u16_lt (m := m) (i := i + 2)
  unfold u32
  omega

lemma u16_congr (h0 : m i = m' i) (h1 : m (i + 1) = m' (i + 1)) : u16 m i = u16 m' i := by
  unfold u16
  rw [h0, h1]

lemma u16_put16_mod : u16 (put16 m i n) i = n % 65536 := by
  simp only [u16, put16, if_true, UInt8.toNat_ofNat', show ¬i + 1 = i by omega, if_false]
  omega

lemma u16_put16_same (h : n < 65536) : u16 (put16 m i n) i = n := by
  rw [u16_put16_mod, Nat.mod_eq_of_lt h]

lemma u16_put16_other {k : Nat} (h : k + 1 < i ∨ i + 1 < k) : u16 (put16 m i n) k = u16 m k := by
  apply u16_congr
  · simp only [put16, show ¬k = i by omega, show ¬k = i + 1 by omega, if_false]
  · simp only [put16, show ¬k + 1 = i by omega, show ¬k + 1 = i + 1 by omega, if_false]

lemma put16_apply_other (h : j ≠ i) (h' : j ≠ i + 1) : put16 m i n j = m j := by
  simp only [put16, h, h', if_false]

lemma put32_apply_other (h : j < i ∨ i + 4 ≤ j) : put32 m i n j = m j := by
  unfold put32
  rw [put16_apply_other (by omega) (by omega), put16_apply_other (by omega) (by omega)]

lemma u32_put32_same (h : n < 4294967296) : u32 (put32 m i n) i = n := by
  unfold u32 put32
  rw [u16_put16_other (by omega), u16_put16_mod, u16_put16_mod]
  omega

lemma u32_congr (h : ∀ j < 4, m (i + j) = m' (i + j)) : u32 m i = u32 m' i := by
  have lo : u16 m i = u16 m' i := u16_congr (by simpa using h 0 (by omega)) (h 1 (by omega))
  have hi : u16 m (i + 2) = u16 m' (i + 2) := u16_congr (h 2 (by omega)) (h 3 (by omega))
  unfold u32
  rw [lo, hi]

lemma forall_byte {p : Byte → Prop} (h : ∀ n < 256, p (UInt8.ofNat n)) (c : Byte) : p c := by
  have hc := h c.toNat c.toNat_lt
  rwa [UInt8.ofNat_toNat] at hc

end RumKernel.Lib
