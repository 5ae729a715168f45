import Mathlib

/-!
# Reference counts

Slots `ι` that point to objects `ρ` or to nothing, and one counter for each object. The counters are exact when
each of them is the number of slots that point to its object. Emptying a slot together with a decrement and
filling an empty slot together with an increment keep them exact, and an exact counter is never decremented at 0.
-/

namespace RumKernel.Lib
open Function

variable {ι ρ : Type} {p q : ι → Option ρ} {c d : ρ → Nat} {i : ι} {m : ρ}

/-- The slots that point to `m`. -/
def holders (p : ι → Option ρ) (m : ρ) : Set ι := {i | p i = some m}

@[simp] lemma mem_holders : i ∈ holders p m ↔ p i = some m := Iff.rfl

/-- The counters `c` are exact for the slots `p`. -/
structure Counted (p : ι → Option ρ) (c : ρ → Nat) : Prop where
  finite : ∀ m, (holders p m).Finite
  count : ∀ m, c m = (holders p m).ncard

namespace Counted

lemma empty : Counted (fun _ : ι => (none : Option ρ)) fun _ => 0 where
  finite m := by simp [holders]
  count m := by simp [holders]

lemma eq_zero_iff (h : Counted p c) : c m = 0 ↔ ∀ i, p i ≠ some m := by
  rw [h.count, Set.ncard_eq_zero (h.finite m), Set.eq_empty_iff_forall_notMem]
  rfl

lemma pos (h : Counted p c) (hi : p i = some m) : 0 < c m := by
  rw [Nat.pos_iff_ne_zero, Ne, h.eq_zero_iff]
  exact fun hno => hno i hi

section update

variable [DecidableEq ι]

lemma holders_drop : holders (update p i none) m = holders p m \ {i} := by
  ext j
  by_cases hj : j = i
  · subst hj
    simp
  · simp [hj]

lemma holders_point_self : holders (update p i (some m)) m = insert i (holders p m) := by
  ext j
  by_cases hj : j = i
  · subst hj
    simp
  · simp [hj]

lemma holders_point_of_ne {n : ρ} (hn : n ≠ m) (hi : p i = none) : holders (update p i (some m)) n = holders p n := by
  ext j
  by_cases hj : j = i
  · subst hj
    simp [hi, hn.symm]
  · simp [hj]

lemma drop [DecidableEq ρ] (h : Counted p c) (hi : p i = some m) :
    Counted (update p i none) (update c m (c m - 1)) where
  finite n := by
    rw [holders_drop]
    exact (h.finite n).sdiff
  count n := by
    rw [holders_drop]
    by_cases hn : n = m
    · subst hn
      rw [update_self, h.count, Set.ncard_sdiff_singleton_of_mem (mem_holders.mpr hi)]
    · have hno : i ∉ holders p n := by
        rw [mem_holders, hi]
        exact fun he => hn (Option.some.inj he).symm
      rw [update_of_ne hn, h.count, Set.sdiff_singleton_eq_self hno]

lemma point [DecidableEq ρ] (h : Counted p c) (hi : p i = none) (m : ρ) :
    Counted (update p i (some m)) (update c m (c m + 1)) where
  finite n := by
    by_cases hn : n = m
    · subst hn
      rw [holders_point_self]
      exact (h.finite n).insert i
    · rw [holders_point_of_ne hn hi]
      exact h.finite n
  count n := by
    by_cases hn : n = m
    · subst hn
      have hno : i ∉ holders p n := by simp [hi]
      rw [holders_point_self, update_self, h.count, Set.ncard_insert_of_notMem hno (h.finite n)]
    · rw [holders_point_of_ne hn hi, update_of_ne hn, h.count]

end update

end Counted

end RumKernel.Lib
