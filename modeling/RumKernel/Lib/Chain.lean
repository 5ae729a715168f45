import Mathlib

/-!
# Chains in a successor table

A table maps each cell to its successor; a chain follows the table through valid cells until a successor is
a stop value. A chain is determined by its first cell, never repeats a cell, and depends only on the
table's values at its own cells; it can be extended behind its last cell by a fresh one.
-/

namespace RumKernel.Lib

variable {α : Type}

/-- `Chain next valid stop c cs`: following `next` from `c` visits exactly `cs` and then stops. -/
inductive Chain (next : α → α) (valid stop : α → Prop) : α → List α → Prop where
  | last {c} : valid c → stop (next c) → Chain next valid stop c [c]
  | link {c cs} : valid c → ¬stop (next c) → Chain next valid stop (next c) cs →
    Chain next valid stop c (c :: cs)

namespace Chain

variable {next next' : α → α} {valid stop : α → Prop} {c c' x : α} {cs cs' ds : List α}

section
variable (h : Chain next valid stop c cs)
include h

lemma ne_nil : cs ≠ [] := by
  cases h <;> simp

lemma head_eq : ∃ tl, cs = c :: tl := by
  cases h with
  | last => exact ⟨[], rfl⟩
  | link _ _ _ => exact ⟨_, rfl⟩

lemma head_mem : c ∈ cs := by
  obtain ⟨tl, rfl⟩ := h.head_eq
  exact List.mem_cons_self

lemma all_valid : ∀ x ∈ cs, valid x := by
  induction h with
  | last hv _ => simpa using hv
  | link hv _ _ ih =>
    intro x hx
    rcases List.mem_cons.mp hx with rfl | hx
    · exact hv
    · exact ih x hx

lemma det (h' : Chain next valid stop c cs') : cs = cs' := by
  induction h generalizing cs' with
  | last _ hs =>
    cases h' with
    | last => rfl
    | link _ hn _ => exact absurd hs hn
  | link _ hn _ ih =>
    cases h' with
    | last _ hs => exact absurd hs hn
    | link _ _ h' => rw [ih h']

lemma suffix (hx : x ∈ cs) : ∃ pre suf, cs = pre ++ suf ∧ Chain next valid stop x suf := by
  induction h with
  | @last c hv hs =>
    obtain rfl : x = c := by simpa using hx
    exact ⟨[], [x], rfl, .last hv hs⟩
  | @link c cs hv hn h ih =>
    rcases List.mem_cons.mp hx with rfl | hx
    · exact ⟨[], _, rfl, .link hv hn h⟩
    · obtain ⟨pre, suf, rfl, hsuf⟩ := ih hx
      exact ⟨c :: pre, suf, rfl, hsuf⟩

lemma getElem_eq {i : Nat} (hi : i < cs.length) : cs[i] = next^[i] c := by
  induction h generalizing i with
  | last =>
    obtain rfl : i = 0 := by simpa using hi
    rfl
  | link _ _ _ ih =>
    cases i with
    | zero => rfl
    | succ i => exact ih (by simpa using hi)

end

lemma exists_iff {n : Nat} : (∃ cs, Chain next valid stop c cs ∧ cs.length = n) ↔
    0 < n ∧ (∀ i < n, valid (next^[i] c)) ∧ (∀ i < n, stop (next (next^[i] c)) ↔ i + 1 = n) := by
  induction n generalizing c with
  | zero =>
    constructor
    · rintro ⟨cs, h, hn⟩
      exact absurd (List.eq_nil_of_length_eq_zero hn) h.ne_nil
    · rintro ⟨h, -⟩
      omega
  | succ n ih =>
    constructor
    · rintro ⟨cs, h, hn⟩
      cases h with
      | last hv hs =>
        obtain rfl : n = 0 := by simpa using hn
        refine ⟨by omega, fun i hi => ?_, fun i hi => ?_⟩ <;> obtain rfl : i = 0 := by omega
        · exact hv
        · simpa using hs
      | @link _ tl hv hs h =>
        have htl : tl.length = n := by simpa using hn
        obtain ⟨hpos, hval, hstop⟩ := ih.mp ⟨tl, h, htl⟩
        refine ⟨by omega, fun i hi => ?_, fun i hi => ?_⟩
        · cases i with
          | zero => exact hv
          | succ i => exact hval i (by omega)
        · cases i with
          | zero =>
            simp only [Function.iterate_zero, id_eq, hs, false_iff]
            omega
          | succ i =>
            rw [Function.iterate_succ_apply, hstop i (by omega)]
            omega
    · rintro ⟨-, hval, hstop⟩
      have hv : valid c := hval 0 (by omega)
      by_cases hs : stop (next c)
      · have h1 : 0 + 1 = n + 1 := (hstop 0 (by omega)).mp hs
        exact ⟨[c], .last hv hs, by simp only [List.length_singleton]; omega⟩
      · have hn : 0 < n := by
          by_contra h0
          exact hs ((hstop 0 (by omega)).mpr (by omega))
        obtain ⟨tl, h, htl⟩ := (ih (c := next c)).mpr ⟨hn, fun i hi => hval (i + 1) (by omega), fun i hi => by
          rw [← Function.iterate_succ_apply, hstop (i + 1) (by omega)]
          omega⟩
        exact ⟨c :: tl, .link hv hs h, by simp [htl]⟩

section
variable (h : Chain next valid stop c cs)
include h

lemma nodup : cs.Nodup := by
  induction h with
  | last => simp
  | @link c cs hv hn h ih =>
    refine List.nodup_cons.mpr ⟨fun hmem => ?_, ih⟩
    -- a repeated start would give two chains of different length from `c`
    obtain ⟨pre, suf, e, hsuf⟩ := h.suffix hmem
    have hdet := hsuf.det (.link hv hn h)
    have hlen := congrArg List.length e
    rw [hdet] at hlen
    simp at hlen
    omega

lemma congr (hn : ∀ x ∈ cs, next' x = next x) : Chain next' valid stop c cs := by
  induction h with
  | last hv hs =>
    refine .last hv ?_
    rwa [hn _ (by simp)]
  | @link c cs hv hns h ih =>
    have e := hn c List.mem_cons_self
    refine .link hv (by rwa [e]) ?_
    rw [e]
    exact ih fun x hx => hn x (List.mem_cons_of_mem _ hx)

lemma snoc (hx : valid x) (hsx : ¬stop x) (hstop : stop (next' x)) (hlast : ∀ y, cs.getLast? = some y → next' y = x)
    (hn : ∀ y ∈ cs, cs.getLast? ≠ some y → next' y = next y) : Chain next' valid stop c (cs ++ [x]) := by
  induction h with
  | @last c hv hs =>
    have e := hlast c rfl
    refine .link hv (by rwa [e]) ?_
    rw [e]
    exact .last hx hstop
  | @link c cs hv hns h ih =>
    obtain ⟨d, rfl⟩ := h.head_eq
    have hnd : (c :: next c :: d).Nodup := nodup (.link hv hns h)
    have hl : (c :: next c :: d).getLast? = (next c :: d).getLast? := by simp
    have e : next' c = next c := by
      refine hn c List.mem_cons_self fun hc => ?_
      rw [hl] at hc
      exact (List.nodup_cons.mp hnd).1 (List.mem_of_mem_getLast? hc)
    refine .link hv (by rwa [e]) ?_
    rw [e]
    refine ih (fun y hy => hlast y (by rwa [hl])) fun y hy hne => ?_
    exact hn y (List.mem_cons_of_mem _ hy) (by rwa [hl])

lemma next_getElem {i : Nat} (hi : i + 1 < cs.length) : next (cs[i]) = cs[i + 1] := by
  induction h generalizing i with
  | last => simp at hi
  | @link c cs hv hns h ih =>
    cases i with
    | zero =>
      obtain ⟨d, rfl⟩ := h.head_eq
      rfl
    | succ i => exact ih (by simpa using hi)

lemma stop_getLast {y : α} (hy : cs.getLast? = some y) : stop (next y) := by
  induction h with
  | last _ hs =>
    obtain rfl := by simpa using hy
    exact hs
  | @link c cs hv hns h ih =>
    refine ih ?_
    obtain ⟨d, rfl⟩ := h.head_eq
    simpa using hy

end

end Chain

end RumKernel.Lib
