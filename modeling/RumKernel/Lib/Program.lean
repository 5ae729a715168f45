import Mathlib

/-!
# Programs over a state with an error exit

A C function over global records: a state goes in, a value or an error comes out with the state at that moment, and an
error stops the program but keeps every effect made before it. `Sat R m` relates the states before and after by a
preorder; `Mirrors f m` says that the runs that give a value stay the same when the states are changed by `f`.
-/

namespace RumKernel.Lib

variable {c : Prop}

/-- A program over the state `σ` that gives an `α` or stops with an error `ε`. -/
structure Prog (σ ε α : Type) where
  run : σ → Except ε α × σ

namespace Prog

variable {σ ε α β : Type}

instance : Monad (Prog σ ε) where
  pure a := ⟨fun s => (.ok a, s)⟩
  bind m f := ⟨fun s =>
    match m.run s with
    | (.ok a, s') => (f a).run s'
    | (.error e, s') => (.error e, s')⟩

/-- Stop with the error `e`. -/
def fail (e : ε) : Prog σ ε α := ⟨fun s => (.error e, s)⟩

def get : Prog σ ε σ := ⟨fun s => (.ok s, s)⟩

def modify (f : σ → σ) : Prog σ ε Unit := ⟨fun s => (.ok (), f s)⟩

/-- Run `m` and look at its outcome instead of leaving on an error. -/
def attempt (m : Prog σ ε α) : Prog σ ε (Except ε α) :=
  ⟨fun s => (.ok (m.run s).1, (m.run s).2)⟩

/-- A value that is already an outcome. -/
def lift (r : Except ε α) : Prog σ ε α := ⟨fun s => (r, s)⟩

@[simp] lemma pure_run {a : α} {s : σ} : (pure a : Prog σ ε α).run s = (.ok a, s) := rfl

@[simp] lemma fail_run {e : ε} {s : σ} : (fail e : Prog σ ε α).run s = (.error e, s) := rfl

@[simp] lemma get_run {s : σ} : (get : Prog σ ε σ).run s = (.ok s, s) := rfl

@[simp] lemma modify_run {f : σ → σ} {s : σ} : (modify f : Prog σ ε Unit).run s = (.ok (), f s) := rfl

@[simp] lemma attempt_run {m : Prog σ ε α} {s : σ} : (attempt m).run s = (.ok (m.run s).1, (m.run s).2) := rfl

@[simp] lemma lift_run {r : Except ε α} {s : σ} : (lift r : Prog σ ε α).run s = (r, s) := rfl

lemma bind_run {m : Prog σ ε α} {f : α → Prog σ ε β} {s : σ} : (m >>= f).run s = match m.run s with
      | (.ok a, s') => (f a).run s'
      | (.error e, s') => (.error e, s') := rfl

lemma bind_run_ok {m : Prog σ ε α} {f : α → Prog σ ε β} {s s' a} (h : m.run s = (.ok a, s')) :
    (m >>= f).run s = (f a).run s' := by
  rw [bind_run, h]

lemma bind_run_error {m : Prog σ ε α} {f : α → Prog σ ε β} {s s' e} (h : m.run s = (.error e, s')) :
    (m >>= f).run s = (.error e, s') := by
  rw [bind_run, h]

lemma bind_ok {m : Prog σ ε α} {f : α → Prog σ ε β} {s s' b} (h : (m >>= f).run s = (.ok b, s')) :
    ∃ a s1, m.run s = (.ok a, s1) ∧ (f a).run s1 = (.ok b, s') := by
  rw [bind_run] at h
  rcases hm : m.run s with ⟨r, s1⟩
  rw [hm] at h
  cases r with
  | error e => cases h
  | ok a => exact ⟨a, s1, rfl, h⟩

lemma attempt_ok {m : Prog σ ε α} {s s' a} (h : (attempt m).run s = (.ok (.ok a), s')) : m.run s = (.ok a, s') := by
  rw [attempt_run, Prod.mk.injEq, Except.ok.injEq] at h
  exact Prod.ext h.1 h.2

lemma guard_ok [Decidable c] {e : ε} {m : α → Prog σ ε β} {n : Prog σ ε β} {s s' b}
    (h : (if c then fail e >>= m else n).run s = (.ok b, s')) : ¬c ∧ n.run s = (.ok b, s') := by
  split at h
  · cases h
  · exact ⟨‹_›, h⟩

lemma bind_assoc {γ : Type} {m : Prog σ ε α} {f : α → Prog σ ε β} {g : β → Prog σ ε γ} :
    m >>= f >>= g = m >>= fun a => f a >>= g := by
  refine congrArg Prog.mk (funext fun s => ?_)
  rw [bind_run]
  rcases hm : m.run s with ⟨r, s'⟩
  cases r <;> rfl

/-! ## Preorders kept by every run -/

/-- `m` relates the state before to the state after by `R`, however it ends. -/
def Sat (R : σ → σ → Prop) (m : Prog σ ε α) : Prop := ∀ s, R s (m.run s).2

namespace Sat

variable {R : σ → σ → Prop} [IsPreorder σ R] {m : Prog σ ε α}

lemma pure {a : α} : Sat R (Pure.pure a : Prog σ ε α) := fun s => refl_of R s

lemma fail {e : ε} : Sat R (Prog.fail e : Prog σ ε α) := fun s => refl_of R s

lemma get : Sat R (Prog.get : Prog σ ε σ) := fun s => refl_of R s

lemma lift {r : Except ε α} : Sat R (Prog.lift r : Prog σ ε α) := fun s => refl_of R s

omit [IsPreorder σ R] in
lemma attempt (h : Sat R m) : Sat R (Prog.attempt m) := h

lemma bind {f : α → Prog σ ε β} (hm : Sat R m) (hf : ∀ a, Sat R (f a)) : Sat R (m >>= f) := by
  intro s
  have h := hm s
  rw [bind_run]
  rcases hms : m.run s with ⟨r, s'⟩
  rw [hms] at h
  cases r with
  | ok a => exact trans_of R h (hf a s')
  | error e => exact h

lemma fail_bind {e : ε} {f : α → Prog σ ε β} : Sat R (Prog.fail e >>= f) := fun s => refl_of R s

omit [IsPreorder σ R] in
lemma ite [Decidable c] {n : Prog σ ε α} (ht : Sat R m) (hf : Sat R n) : Sat R (if c then m else n) := by
  split
  · exact ht
  · exact hf

end Sat

/-- `m` relates the state before to the state after by `R` when it stops with an error. -/
def Fails (R : σ → σ → Prop) (m : Prog σ ε α) : Prop := ∀ s e s', m.run s = (.error e, s') → R s s'

namespace Fails

variable {R : σ → σ → Prop} [IsPreorder σ R] {m : Prog σ ε α}

omit [IsPreorder σ R] in
lemma of_sat (h : Sat R m) : Fails R m := fun s e s' hm => by
  have := h s
  rwa [hm] at this

omit [IsPreorder σ R] in
lemma modify {f : σ → σ} : Fails R (Prog.modify f : Prog σ ε Unit) := fun s e s' hm => by cases hm

lemma bind {f : α → Prog σ ε β} (hm : Sat R m) (hf : ∀ a, Fails R (f a)) : Fails R (m >>= f) := by
  intro s e s' h
  have hs := hm s
  rw [bind_run] at h
  rcases hr : m.run s with ⟨_ | a, s1⟩
  · rw [hr] at h hs
    cases h
    exact hs
  · rw [hr] at h hs
    exact trans_of R hs (hf a s1 e s' h)

omit [IsPreorder σ R] in
lemma ite [Decidable c] {n : Prog σ ε α} (ht : Fails R m) (hf : Fails R n) : Fails R (if c then m else n) := by
  split
  · exact ht
  · exact hf

end Fails

/-! ## Mirrored runs -/

/-- A run of `m` that gives a value gives the same value from the state changed by `f`, and ends in the final
state changed by `f`. -/
def Mirrors (f : σ → σ) (m : Prog σ ε α) : Prop :=
  ∀ s a s', m.run s = (.ok a, s') → m.run (f s) = (.ok a, f s')

namespace Mirrors

variable {f : σ → σ} {m : Prog σ ε α}

lemma pure {a : α} : Mirrors f (Pure.pure a : Prog σ ε α) := by
  intro s b s' h
  cases h
  rfl

lemma fail {e : ε} : Mirrors f (Prog.fail e : Prog σ ε α) := by
  intro s b s' h
  cases h

lemma fail_bind {e : ε} {k : α → Prog σ ε β} : Mirrors f (Prog.fail e >>= k) := by
  intro s b s' h
  cases h

lemma lift {r : Except ε α} : Mirrors f (Prog.lift r : Prog σ ε α) := by
  intro s b s' h
  cases h
  rfl

lemma modify {g : σ → σ} (h : ∀ s, g (f s) = f (g s)) : Mirrors f (Prog.modify g : Prog σ ε Unit) := by
  intro s b s' hr
  cases hr
  simp only [modify_run, h]

lemma bind {k : α → Prog σ ε β} (hm : Mirrors f m) (hk : ∀ a, Mirrors f (k a)) : Mirrors f (m >>= k) := by
  intro s b s' h
  rw [bind_run] at h
  rcases hms : m.run s with ⟨r, s1⟩
  rw [hms] at h
  cases r with
  | error e => cases h
  | ok a =>
    rw [bind_run, hm s a s1 hms]
    exact hk a s1 b s' h

lemma get_bind {k : σ → Prog σ ε β} (hf : ∀ s, k (f s) = k s) (hk : ∀ s, Mirrors f (k s)) :
    Mirrors f (Prog.get >>= k) := by
  intro s b s' h
  have h' := hk s s b s' h
  rw [← hf s] at h'
  exact h'

lemma ite [Decidable c] {n : Prog σ ε α} (ht : Mirrors f m) (hf : Mirrors f n) :
    Mirrors f (if c then m else n) := by
  split
  · exact ht
  · exact hf

end Mirrors

end Prog

end RumKernel.Lib
