import Mathlib

/-!
# Rings

The contents of a ring buffer: the `count` cells from `start` on, the index wrapping at `size`. Storing behind the last
cell appends to the contents, and moving the start forward removes the first of them.
-/

namespace RumKernel.Lib

variable {α : Type} {cells : Nat → α} {a : α} {start count size i j : Nat}

def ringView (cells : Nat → α) (start count size : Nat) : List α :=
  (List.range count).map fun i => cells ((start + i) % size)

@[simp] lemma ringView_zero : ringView cells start 0 size = [] := rfl

@[simp] lemma length_ringView : (ringView cells start count size).length = count := by simp [ringView]

lemma ring_index_inj (hi : i < size) (hj : j < size) (h : (start + i) % size = (start + j) % size) : i = j := by
  have hmod : i ≡ j [MOD size] := Nat.ModEq.add_left_cancel' start h
  rwa [Nat.ModEq, Nat.mod_eq_of_lt hi, Nat.mod_eq_of_lt hj] at hmod

lemma ringView_push (cells : Nat → α) (a : α) (start : Nat) (h : count < size) :
    ringView (fun j => if j = (start + count) % size then a else cells j) start (count + 1) size =
      ringView cells start count size ++ [a] := by
  unfold ringView
  rw [List.range_succ, List.map_append, List.map_singleton]
  congr 1
  · refine List.map_congr_left fun i hi => if_neg fun he => ?_
    have hi' := List.mem_range.mp hi
    have := ring_index_inj (by omega) h he
    omega
  · exact congrArg List.singleton (if_pos rfl)

lemma ringView_succ : ringView cells start (count + 1) size =
    cells (start % size) :: ringView cells ((start + 1) % size) count size := by
  unfold ringView
  rw [List.range_succ_eq_map, List.map_cons, List.map_map, Nat.add_zero]
  congr 1
  refine List.map_congr_left fun i _ => ?_
  rw [Function.comp_apply, Nat.mod_add_mod, Nat.succ_eq_add_one]
  congr 2
  omega

end RumKernel.Lib
