import Mathlib

/-!
# Doubly linked lists in memory

A list of addresses with the values at them is held by a memory of nodes when the links of every node are its
neighbours. The memory may change elsewhere, and neighbours may be put in or taken out.
-/

namespace RumKernel.Lib

variable {α β ν : Type} (value : ν → β) (previous next : ν → Option α)

/-- The first address of a list, or what follows it. -/
def following (xs : List (α × β)) (n : Option α) : Option α := (xs.head?.map Prod.fst).or n

/-- The last address of a list, or what precedes it. -/
def preceding (p : Option α) (xs : List (α × β)) : Option α := (xs.getLast?.map Prod.fst).or p

@[simp]
lemma following_nil (n : Option α) : following ([] : List (α × β)) n = n := rfl

@[simp]
lemma following_cons (x : α × β) (xs : List (α × β)) (n : Option α) : following (x :: xs) n = some x.1 := rfl

@[simp]
lemma preceding_nil (p : Option α) : preceding p ([] : List (α × β)) = p := rfl

@[simp]
lemma preceding_cons (p : Option α) (x : α × β) (xs : List (α × β)) :
    preceding p (x :: xs) = preceding (some x.1) xs := by
  cases h : xs.getLast? <;> simp [preceding, List.getLast?_cons, h]

lemma following_append (xs ys : List (α × β)) (n : Option α) :
    following (xs ++ ys) n = following xs (following ys n) := by
  cases xs <;> rfl

lemma preceding_append (p : Option α) (xs ys : List (α × β)) :
    preceding p (xs ++ ys) = preceding (preceding p xs) ys := by
  induction xs generalizing p with
  | nil => rfl
  | cons x xs ih => rw [List.cons_append, preceding_cons, preceding_cons, ih]

/-- The memory holds the list between the nodes `p` and `n`. -/
def Held (mem : α → ν) : Option α → List (α × β) → Option α → Prop
  | _, [], _ => True
  | p, x :: xs, n =>
    value (mem x.1) = x.2 ∧ previous (mem x.1) = p ∧ next (mem x.1) = following xs n ∧ Held mem (some x.1) xs n

namespace Held

variable {value previous next} {mem mem' : α → ν} {p p' n : Option α} {x : α × β} {xs ys : List (α × β)}

lemma append : Held value previous next mem p (xs ++ ys) n ↔
    Held value previous next mem p xs (following ys n) ∧ Held value previous next mem (preceding p xs) ys n := by
  induction xs generalizing p with
  | nil => simp [Held]
  | cons x xs ih => simp only [List.cons_append, Held, following_append, ih, preceding_cons, and_assoc]

lemma congr (h : Held value previous next mem p xs n) (he : ∀ x ∈ xs, mem' x.1 = mem x.1) :
    Held value previous next mem' p xs n := by
  induction xs generalizing p with
  | nil => trivial
  | cons x xs ih =>
    obtain ⟨h1, h2, h3, h4⟩ := h
    have hx := he x (.head _)
    refine ⟨?_, ?_, ?_, ih h4 fun y hy => he y (.tail _ hy)⟩
    · rw [hx, h1]
    · rw [hx, h2]
    · rw [hx, h3]

end Held

end RumKernel.Lib
