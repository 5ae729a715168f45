import RumKernel.Process.Task

/-!
# The shell supervisor

The restart loop of `userspace_session` in `init.c`. The counter is set to 0 after a session of 30 seconds or more and
then incremented for that session as well, so the loop gives up when two short sessions follow any third one.
-/

namespace RumKernel.Core
open Process

def timerHz : Nat := 100

def shellRecoveryStatus : Int := 75

/-- What the loop sees of one session: whether `process_start_shell` fails, the timer after the start and after the
end, and the result of the shell's task. -/
structure Session where
  startFails : Bool := false
  started : UInt32
  ended : UInt32
  termination : Termination
  exitStatus : Int

/-- The ticks between the two readings of the timer, which may wrap in between. -/
def Session.duration (s : Session) : Nat := (s.ended - s.started).toNat

/-- The session lasted less than 30 seconds. -/
def Session.Short (s : Session) : Prop := s.duration < timerHz * 30

def Session.Recovers (s : Session) : Prop := s.termination = .exit ∧ s.exitStatus = shellRecoveryStatus

instance (s : Session) : Decidable s.Short := inferInstanceAs (Decidable (_ < _))

instance (s : Session) : Decidable s.Recovers := inferInstanceAs (Decidable (_ ∧ _))

/-- How one round of the loop ends: with another round, or with one of the three ways out. -/
inductive Outcome where
  | restarting (failures : Nat)
  | cannotStart
  | recovery
  | repeated
  deriving DecidableEq

def superviseRound (failures : Nat) (s : Session) : Outcome :=
  if s.startFails then .cannotStart
  else if s.Recovers then .recovery
  else
    let failures := if s.duration ≥ timerHz * 30 then 0 else failures
    if failures + 1 = 3 then .repeated else .restarting (failures + 1)

/-- The loop of `userspace_session` from a value of the counter: the number of sessions it has run and how it ended,
`restarting` when it waits for the next session. -/
def supervise (failures : Nat) : List Session → Nat × Outcome
  | [] => (0, .restarting failures)
  | s :: rest =>
    match superviseRound failures s with
    | .restarting failures => ((supervise failures rest).1 + 1, (supervise failures rest).2)
    | outcome => (1, outcome)

/-- `userspace_session` on the sessions that follow each other. -/
def userspaceSession (sessions : List Session) : Nat × Outcome := supervise 0 sessions

variable {s : Session} {l pre sessions : List Session} {f k n : Nat}

/-- The sessions `k - 2`, `k - 1` and `k` were short, counted from 1. -/
def ThreeShort (l : List Session) (k : Nat) : Prop :=
  3 ≤ k ∧ ∀ i, k ≤ i + 3 → i < k → ∃ s, l[i]? = some s ∧ s.Short

/-- There are three sessions up to `k`, and the last two of them were short. -/
def TwoShort (l : List Session) (k : Nat) : Prop :=
  3 ≤ k ∧ ∀ i, k ≤ i + 2 → i < k → ∃ s, l[i]? = some s ∧ s.Short

/-- The first number with a property. -/
def First (P : Nat → Prop) (k : Nat) : Prop := P k ∧ ∀ j < k, ¬P j

/-- The counter after the sessions `pre`, none of which was the last. -/
def counter (pre : List Session) : Nat :=
  match pre.getLast? with
  | none => 0
  | some s => if 2 ≤ pre.length ∧ s.Short then 2 else 1

lemma superviseRound_eq (hs : s.startFails = false) (hr : ¬s.Recovers) : superviseRound f s =
    if (if s.Short then f else 0) + 1 = 3 then .repeated else .restarting ((if s.Short then f else 0) + 1) := by
  unfold superviseRound
  have hlong : (if s.duration ≥ timerHz * 30 then 0 else f) = if s.Short then f else 0 := by
    by_cases h : s.Short
    · rw [if_pos h, if_neg (Nat.not_le.mpr h)]
    · rw [if_neg h, if_pos (Nat.not_lt.mp h)]
  simp only [hs, Bool.false_eq_true, if_false, hr, hlong]

lemma twoShort_succ : TwoShort (pre ++ s :: l) (pre.length + 1) ↔
    s.Short ∧ 2 ≤ pre.length ∧ ∃ t, pre.getLast? = some t ∧ t.Short := by
  constructor
  · rintro ⟨h3, h⟩
    obtain ⟨u, hu, hshort⟩ := h pre.length (by omega) (by omega)
    obtain ⟨t, ht, hshort'⟩ := h (pre.length - 1) (by omega) (by omega)
    rw [List.getElem?_append_right (Nat.le_refl _), Nat.sub_self, List.getElem?_cons_zero] at hu
    rw [List.getElem?_append_left (by omega)] at ht
    cases hu
    exact ⟨hshort, by omega, t, by rw [List.getLast?_eq_getElem?, ht], hshort'⟩
  · rintro ⟨hs, h2, t, ht, hshort⟩
    refine ⟨by omega, fun i h1 hi => ?_⟩
    by_cases he : i = pre.length
    · exact ⟨s, by simp [he], hs⟩
    · obtain rfl : i = pre.length - 1 := by omega
      rw [List.getLast?_eq_getElem?] at ht
      exact ⟨t, by rw [List.getElem?_append_left (by omega), ht], hshort⟩

lemma counter_snoc : counter (pre ++ [s]) = if 1 ≤ pre.length ∧ s.Short then 2 else 1 := by
  unfold counter
  rw [List.getLast?_concat]
  simp

lemma superviseRound_counter (hs : s.startFails = false) (hr : ¬s.Recovers)
    (hl : ¬TwoShort (pre ++ s :: l) (pre.length + 1)) :
    superviseRound (counter pre) s = .restarting (counter (pre ++ [s])) := by
  rw [superviseRound_eq hs hr, counter_snoc]
  rw [twoShort_succ] at hl
  by_cases hshort : s.Short
  · simp only [hshort, if_true, and_true]
    have hcount : counter pre = if 1 ≤ pre.length then 1 else 0 := by
      unfold counter
      cases hp : pre.getLast? with
      | none => rw [List.getLast?_eq_none_iff.mp hp]; rfl
      | some t =>
        have hpos : 1 ≤ pre.length := List.length_pos_of_mem (List.mem_of_getLast? hp)
        rw [if_pos hpos]
        exact if_neg fun h => hl ⟨hshort, h.1, t, hp, h.2⟩
    rw [hcount]
    split <;> rfl
  · simp [hshort]

lemma superviseRound_repeated (hs : s.startFails = false) (hr : ¬s.Recovers)
    (hl : TwoShort (pre ++ s :: l) (pre.length + 1)) : superviseRound (counter pre) s = .repeated := by
  obtain ⟨hshort, h2, t, ht, ht'⟩ := twoShort_succ.mp hl
  have hcount : counter pre = 2 := by
    unfold counter
    rw [ht]
    exact if_pos ⟨h2, ht'⟩
  rw [superviseRound_eq hs hr, if_pos hshort, hcount, if_pos rfl]

/-- The loop after the sessions `pre` stops for repeated stops after the first session that is the second of two short
ones, with a third before them. -/
lemma supervise_repeated_iff (hs : ∀ s ∈ l, s.startFails = false) (hr : ∀ s ∈ l, ¬s.Recovers)
    (hpre : ∀ j ≤ pre.length, ¬TwoShort (pre ++ l) j) :
    supervise (counter pre) l = (n, .repeated) ↔ First (TwoShort (pre ++ l)) (pre.length + n) := by
  induction l generalizing pre n with
  | nil =>
    constructor
    · intro h
      cases h
    · rintro ⟨⟨h3, hshort⟩, -⟩
      -- the window would have to end inside `pre`
      have hn : n = 0 := by
        obtain ⟨s, hs, -⟩ := hshort (pre.length + n - 1) (by omega) (by omega)
        have := (List.getElem?_eq_some_iff.mp hs).1
        rw [List.append_nil] at this
        omega
      subst hn
      exact absurd ⟨h3, hshort⟩ (hpre _ (Nat.le_refl _))
  | cons s l ih =>
    have hs' := hs s List.mem_cons_self
    have hr' := hr s List.mem_cons_self
    by_cases hstop : TwoShort (pre ++ s :: l) (pre.length + 1)
    · have hrun : supervise (counter pre) (s :: l) = (1, .repeated) := by
        rw [supervise, superviseRound_repeated hs' hr' hstop]
      have hfirst : First (TwoShort (pre ++ s :: l)) (pre.length + 1) := ⟨hstop, fun j hj => hpre j (by omega)⟩
      rw [hrun]
      constructor
      · intro h
        cases h
        exact hfirst
      · rintro ⟨hn, hmin⟩
        have h1 : ¬pre.length + 1 < pre.length + n := fun hlt => hmin _ hlt hstop
        have h2 : ¬pre.length + n < pre.length + 1 := fun hlt => hfirst.2 _ hlt hn
        obtain rfl : n = 1 := by omega
        rfl
    · have hround := superviseRound_counter hs' hr' hstop
      have happ : pre ++ s :: l = (pre ++ [s]) ++ l := by simp
      have hlen : (pre ++ [s]).length = pre.length + 1 := by simp
      have hpre' : ∀ j ≤ (pre ++ [s]).length, ¬TwoShort ((pre ++ [s]) ++ l) j := by
        intro j hj
        rw [← happ]
        by_cases he : j = pre.length + 1
        · rw [he]
          exact hstop
        · exact hpre j (by omega)
      have ih' := fun m => ih (n := m) (fun t ht => hs t (List.mem_cons_of_mem _ ht))
        (fun t ht => hr t (List.mem_cons_of_mem _ ht)) hpre'
      have hrun : supervise (counter pre) (s :: l) =
          ((supervise (counter (pre ++ [s])) l).1 + 1, (supervise (counter (pre ++ [s])) l).2) := by
        rw [supervise, hround]
      rw [hrun]
      constructor
      · intro h
        obtain ⟨m, rfl⟩ : ∃ m, n = m + 1 := ⟨_, (Prod.mk.inj h).1.symm⟩
        have hm : supervise (counter (pre ++ [s])) l = (m, .repeated) := by
          obtain ⟨h1, h2⟩ := Prod.mk.inj h
          exact Prod.ext (Nat.succ.inj h1) h2
        have := (ih' m).mp hm
        rwa [← happ, hlen, Nat.add_assoc, Nat.add_comm 1 m] at this
      · intro h
        obtain ⟨m, rfl⟩ : ∃ m, n = m + 1 := by
          refine ⟨n - 1, ?_⟩
          have : n ≠ 0 := by
            rintro rfl
            exact hpre _ (Nat.le_refl _) h.1
          omega
        have hm := (ih' m).mpr (by rwa [← happ, hlen, Nat.add_assoc, Nat.add_comm 1 m])
        rw [hm]

/-- The session at index `i` lasted 30 seconds or more, and the next two were short. -/
def LongFirst (l : List Session) (i : Nat) : Prop := TwoShort l (i + 3) ∧ ∃ s, l[i]? = some s ∧ ¬s.Short

/-- A long session right before two short ones comes only behind three short sessions in a row. -/
def Spared (l : List Session) : Prop := ∀ i, LongFirst l i → ∃ k ≤ i, ThreeShort l k

/-- Three short sessions are a session and two short ones. -/
lemma ThreeShort.two (h : ThreeShort l k) : TwoShort l k := ⟨h.1, fun i h1 hi => h.2 i (by omega) hi⟩

/-- Two short sessions behind a third one: the third is short as well, or it is a long one. -/
lemma TwoShort.cases (h : TwoShort l k) : ThreeShort l k ∨ ∃ i, k = i + 3 ∧ LongFirst l i := by
  obtain ⟨i, rfl⟩ : ∃ i, k = i + 3 := ⟨k - 3, (Nat.sub_add_cancel h.1).symm⟩
  obtain ⟨t, ht, -⟩ := h.2 (i + 1) (by omega) (by omega)
  have hlt : i < l.length := by
    have := (List.getElem?_eq_some_iff.mp ht).1
    omega
  by_cases hs : l[i].Short
  · refine .inl ⟨h.1, fun j h1 hj => ?_⟩
    by_cases he : j = i
    · subst he
      exact ⟨_, List.getElem?_eq_getElem hlt, hs⟩
    · exact h.2 j (by omega) hj
  · exact .inr ⟨i, rfl, h, _, List.getElem?_eq_getElem hlt, hs⟩

/-- The three short sessions of a window are not the long one. -/
lemma ThreeShort.le_of_longFirst {i : Nat} (h : ThreeShort l k) (hi : LongFirst l i) (hk : k ≤ i + 3) : k ≤ i := by
  obtain ⟨-, s, hs, hlong⟩ := hi
  by_contra hlt
  obtain ⟨t, ht, hshort⟩ := h.2 i (by omega) (by omega)
  rw [hs] at ht
  cases ht
  exact hlong hshort

/-- In a spared history two short sessions behind a third one come with three short ones. -/
lemma Spared.three (h : Spared l) (hk : TwoShort l k) : ∃ j ≤ k, ThreeShort l j := by
  rcases hk.cases with h3 | ⟨i, rfl, hi⟩
  · exact ⟨k, Nat.le_refl _, h3⟩
  · obtain ⟨j, hj, h3⟩ := h i hi
    exact ⟨j, by omega, h3⟩

/-- The two rules stop at the same session exactly in a spared history. -/
lemma spared_iff : (∀ k, First (TwoShort l) k ↔ First (ThreeShort l) k) ↔ Spared l := by
  constructor
  · intro h i hi
    obtain ⟨k, hk, hmin⟩ : ∃ k, TwoShort l k ∧ ∀ j < k, ¬TwoShort l j := by
      classical
      exact ⟨_, Nat.find_spec ⟨i + 3, hi.1⟩, fun j hj => Nat.find_min ⟨i + 3, hi.1⟩ hj⟩
    have hle : k ≤ i + 3 := Nat.le_of_not_lt fun hlt => hmin _ hlt hi.1
    have h3 := ((h k).mp ⟨hk, hmin⟩).1
    exact ⟨k, h3.le_of_longFirst hi hle, h3⟩
  · intro h k
    constructor
    · rintro ⟨hk, hmin⟩
      obtain ⟨j, hj, h3⟩ := h.three hk
      obtain rfl : j = k := Nat.le_antisymm hj (Nat.le_of_not_lt fun hlt => hmin j hlt h3.two)
      exact ⟨h3, fun i hi hi' => hmin i hi hi'.two⟩
    · rintro ⟨hk, hmin⟩
      refine ⟨hk.two, fun j hj h2 => ?_⟩
      obtain ⟨i, hi, h3⟩ := h.three h2
      exact hmin i (by omega) h3

/-- **Giving up**: the supervisor gives up after the first session that is the second of two short ones behind a third
one. This is the first session that ends three short ones in a row exactly if every long session right before two short
ones comes behind three short ones in a row. -/
theorem supervisor_gives_up (sessions : List Session) (hs : ∀ s ∈ sessions, s.startFails = false)
    (hr : ∀ s ∈ sessions, ¬s.Recovers) :
    (∀ k, userspaceSession sessions = (k, .repeated) ↔ First (TwoShort sessions) k) ∧
    ((∀ k, userspaceSession sessions = (k, .repeated) ↔ First (ThreeShort sessions) k) ↔ Spared sessions) := by
  have hnone : ∀ j ≤ ([] : List Session).length, ¬TwoShort ([] ++ sessions) j := by
    rintro j hj ⟨h3, -⟩
    rw [List.length_nil] at hj
    omega
  have h : ∀ k, userspaceSession sessions = (k, .repeated) ↔ First (TwoShort sessions) k := fun k => by
    have h := supervise_repeated_iff (n := k) hs hr hnone
    rwa [List.length_nil, Nat.zero_add, List.nil_append] at h
  refine ⟨h, Iff.trans ?_ spared_iff⟩
  exact forall_congr' fun k => iff_congr (h k) Iff.rfl

/-- A session of the given length that ends with status 0. -/
def plainSession (ticks : UInt32) : Session := { started := 0, ended := ticks, termination := .exit, exitStatus := 0 }

/-- Three short sessions, then a long one before two short ones. -/
def sparedSessions : List Session := [1, 1, 1, 360000, 1, 1].map plainSession

/-- The supervisor gives up after the third session, as three short sessions end there. -/
theorem supervisor_gives_up_short : userspaceSession sparedSessions = (3, .repeated) ∧ Spared sparedSessions ∧
    First (ThreeShort sparedSessions) 3 := by
  have hthree : ThreeShort sparedSessions 3 := by
    refine ⟨Nat.le_refl 3, fun i _ hi => ⟨plainSession 1, ?_, by decide⟩⟩
    interval_cases i <;> rfl
  have hspared : Spared sparedSessions := fun i hi => by
    obtain ⟨-, s, hs, hlong⟩ := hi
    have hlt := (List.getElem?_eq_some_iff.mp hs).1
    refine ⟨3, Nat.le_of_not_lt fun h3 => hlong ?_, hthree⟩
    interval_cases i <;> cases hs <;> decide
  have hrun : userspaceSession sparedSessions = (3, .repeated) := by decide
  exact ⟨hrun, hspared, (((supervisor_gives_up sparedSessions (by decide) (by decide)).2.mpr hspared) 3).mp hrun⟩

/-- A session of an hour followed by two short ones: the supervisor gives up after the third session, though only two
were short. -/
theorem supervisor_counts_long_session :
    (∀ s ∈ [plainSession 360000, plainSession 1, plainSession 1], s.startFails = false ∧ ¬s.Recovers) ∧
      userspaceSession [plainSession 360000, plainSession 1, plainSession 1] = (3, .repeated) ∧
      ¬ThreeShort [plainSession 360000, plainSession 1, plainSession 1] 3 := by
  refine ⟨by decide, by decide, fun h => ?_⟩
  obtain ⟨s, hs, hshort⟩ := h.2 0 (by omega) (by omega)
  cases hs
  exact absurd hshort (by decide)

end RumKernel.Core
