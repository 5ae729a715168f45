import RumKernel.Process.Rotation

/-!
# Timed waits

A task that waits with a deadline, the clock that wraps, and what may wake the task: the tick at which the deadline is
reached, a signal of its event, or a cancellation.
-/

namespace RumKernel.Process
open Function

def sleepMaxMs : Nat := 86400000

def timerHz : Nat := 100

def durationTicks (milliseconds : Nat) : Option Nat :=
  if milliseconds > sleepMaxMs then none
  else
    let duration := if milliseconds ≠ 0 then (milliseconds * timerHz + 999) / 1000 + 1 else 0
    if duration ≥ 2 ^ 31 then none else some duration

/-- An answer of `task_sleep`. -/
inductive SleepResult where
  | ok | range | busy | interrupted
  deriving DecidableEq, Repr

namespace Kernel

/-- The answer of `wait_common` to a task that runs again; with a registration left the kernel halts. -/
def resumeResult (k : Kernel) : Option WaitResult :=
  if k.task.waiting.isSome || k.task.deadlineActive || k.task.deadline != 0 then none
  else some (if k.currentCancelled then .cancelled else k.task.wakeReason)

/-- What `task_sleep` makes of the answer to its wait. -/
def sleepResult : WaitResult → SleepResult
  | .timeout => .ok
  | .cancelled => .interrupted
  | _ => .busy

/-- `task_sleep` at a time, up to the point where the caller has returned or another task may run. -/
def sleep (k : Kernel) (r : Releases) (milliseconds now : Nat) : Option SleepResult × Kernel :=
  match durationTicks milliseconds with
  | none => (some .range, k)
  | some duration =>
    if duration = 0 then
      let (done, k') := k.yield r
      if done then (none, k') else (some .busy, k)
    else
      let (reason, k) := k.wait r none 0 (some duration) now
      (reason.map sleepResult, k)

variable {k k' : Kernel} {i : TaskSlot} {r : Releases} {event : Option Event} {d now n : Nat}

/-! ## The clock -/

lemma deadlineReached_iff (hd : 0 < d) (hlt : d < 2 ^ 31) (hn : n ≤ d) :
    deadlineReached ((now + n) % 2 ^ 32) ((now + d) % 2 ^ 32) = true ↔ n = d := by
  unfold deadlineReached
  simp only [decide_eq_true_eq]
  omega

/-! ## Steps that a waiting task sees -/

/-- What happens while a task waits: the timer ticks, an event is signalled, the task is cancelled, or its record is
left alone. -/
inductive Passes (i : TaskSlot) : Kernel × Nat → Kernel × Nat → Prop
  | tick (k : Kernel) (clock : Nat) : Passes i (k, clock) (k.timerTick ((clock + 1) % 2 ^ 32), (clock + 1) % 2 ^ 32)
  | signal (k : Kernel) (clock : Nat) (e : Event) : Passes i (k, clock) (k.signal e, clock)
  | cancel (k : Kernel) (clock : Nat) : Passes i (k, clock) (k.cancel i, clock)
  | other {k k' : Kernel} (clock : Nat) (h : k'.tasks i = k.tasks i) : Passes i (k, clock) (k', clock)

/-- `n` ticks have passed, and neither a signal of the event nor a cancellation has reached the task. -/
inductive Elapses (i : TaskSlot) (event : Option Event) (start : Kernel × Nat) : Nat → Kernel × Nat → Prop
  | refl : Elapses i event start 0 start
  | tick {n k clock} (h : Elapses i event start n (k, clock)) :
      Elapses i event start (n + 1) (k.timerTick ((clock + 1) % 2 ^ 32), (clock + 1) % 2 ^ 32)
  | signal {n k clock} (h : Elapses i event start n (k, clock)) (e : Event) (he : event ≠ some e) :
      Elapses i event start n (k.signal e, clock)
  | other {n k clock} {k' : Kernel} (h : Elapses i event start n (k, clock)) (hk : k'.tasks i = k.tasks i) :
      Elapses i event start n (k', clock)

/-- The task is registered for an event and a deadline. -/
structure Waiting (t : Task) (event : Option Event) (deadline : Nat) : Prop where
  blocked : t.state = .blocked
  waiting : t.waiting = event
  active : t.deadlineActive = true
  deadline : t.deadline = deadline

/-- The task is no longer registered and knows why. -/
structure Woken (t : Task) (reason : WaitResult) : Prop where
  runnable : t.state = .runnable
  waiting : t.waiting = none
  active : t.deadlineActive = false
  deadline : t.deadline = 0
  reason : t.wakeReason = reason

lemma woken_wake (t : Task) (reason : WaitResult) : Woken (t.wake reason) reason := ⟨rfl, rfl, rfl, rfl, rfl⟩

lemma tasks_timerTick (k : Kernel) (now : Nat) (i : TaskSlot) : ∃ sliceTicks reschedule, (k.timerTick now).tasks i =
    { (if (k.tasks i).state = .blocked && ((k.tasks i).deadlineActive && deadlineReached now (k.tasks i).deadline) then
        (k.tasks i).wake .timeout else k.tasks i) with sliceTicks, reschedule } := by
  unfold timerTick
  dsimp only
  split
  · exact ⟨_, _, rfl⟩
  · rcases eq_or_ne i (k.wakeAll
      (fun t => t.deadlineActive && deadlineReached now t.deadline) .timeout).current with rfl | hne
    · exact ⟨_, _, update_self ..⟩
    · exact ⟨_, _, update_of_ne hne ..⟩

section
variable (h : Waiting (k.tasks i) event d)
include h

lemma Waiting.tick (hno : deadlineReached now d = false) : Waiting ((k.timerTick now).tasks i) event d := by
  obtain ⟨s, b, he⟩ := tasks_timerTick k now i
  rw [h.deadline, hno, Bool.and_false, Bool.and_false, if_neg Bool.false_ne_true] at he
  rw [he]
  exact ⟨h.blocked, h.waiting, h.active, h.deadline⟩

lemma Waiting.expire (hyes : deadlineReached now d = true) : Woken ((k.timerTick now).tasks i) .timeout := by
  obtain ⟨s, b, he⟩ := tasks_timerTick k now i
  rw [h.deadline, hyes, h.active, h.blocked, if_pos (by decide)] at he
  rw [he]
  exact ⟨rfl, rfl, rfl, rfl, rfl⟩

lemma Waiting.signal {e : Event} (he : event ≠ some e) : Waiting ((k.signal e).tasks i) event d := by
  have hsame : (k.signal e).tasks i = k.tasks i := by
    refine if_neg ?_
    simp only [Bool.and_eq_true, decide_eq_true_eq, beq_iff_eq, not_and]
    exact fun _ hw => he (h.waiting.symm.trans hw)
  rw [hsame]
  exact h

end

lemma Elapses.waiting (hd : 0 < d) (hlt : d < 2 ^ 31) (h0 : Waiting (k.tasks i) event ((now + d) % 2 ^ 32))
    (hnow : now < 2 ^ 32) {s : Kernel × Nat} (h : Elapses i event (k, now) n s) (hn : n < d) :
    Waiting (s.1.tasks i) event ((now + d) % 2 ^ 32) ∧ s.2 = (now + n) % 2 ^ 32 := by
  induction h with
  | refl => exact ⟨h0, (Nat.mod_eq_of_lt hnow).symm⟩
  | @tick n k clock _ ih =>
    obtain ⟨h1, h2⟩ := ih (by omega)
    have hclock : (clock + 1) % 2 ^ 32 = (now + (n + 1)) % 2 ^ 32 := by
      dsimp only at h2
      omega
    refine ⟨h1.tick ?_, hclock⟩
    rw [hclock, ← Bool.not_eq_true, deadlineReached_iff hd hlt hn.le]
    exact hn.ne
  | signal _ e he ih =>
    obtain ⟨h1, h2⟩ := ih hn
    exact ⟨h1.signal he, h2⟩
  | other _ hk ih =>
    obtain ⟨h1, h2⟩ := ih hn
    exact ⟨by rw [hk]; exact h1, h2⟩

lemma Woken.passes {reason : WaitResult} {s s' : Kernel × Nat} (h : Woken (s.1.tasks i) reason) (hs : Passes i s s') :
    Woken (s'.1.tasks i) reason := by
  have hb : ¬(s.1.tasks i).state = .blocked := by
    rw [h.runnable]
    exact nofun
  cases hs with
  | tick k clock =>
    obtain ⟨b, c, he⟩ := tasks_timerTick k ((clock + 1) % 2 ^ 32) i
    rw [if_neg (by simp only [hb, decide_false, Bool.false_and]; exact Bool.false_ne_true)] at he
    refine Eq.substr (p := fun t => Woken t reason) he ?_
    exact ⟨h.runnable, h.waiting, h.active, h.deadline, h.reason⟩
  | signal k clock e =>
    have hsame : (k.signal e).tasks i = k.tasks i := if_neg (by simp [hb])
    dsimp only
    rw [hsame]
    exact h
  | cancel k clock =>
    have hsame : (k.cancel i).tasks i = { k.tasks i with cancellationRequested := true } := by
      refine (update_self ..).trans ?_
      exact if_neg hb
    dsimp only
    rw [hsame]
    exact ⟨h.runnable, h.waiting, h.active, h.deadline, h.reason⟩
  | other clock hk =>
    dsimp only
    rw [hk]
    exact h

/-! ## Registration -/

lemma tasks_reapExited (hi : (k.tasks i).state ≠ .exited) (processes : Bool) :
    (k.reapExited r processes).tasks i = k.tasks i := by
  unfold reapExited
  generalize userSlots = l
  induction l generalizing k with
  | nil => rfl
  | cons j l ih =>
    have hslot : (k.reapSlot r j).2.tasks i = k.tasks i := by
      unfold reapSlot
      split
      · rename_i hc
        simp only [reapable, Bool.and_eq_true, beq_iff_eq] at hc
        refine update_of_ne ?_ ..
        rintro rfl
        exact hi hc.1.1.1.1.1.1.1.1.1.1
      · rfl
    rw [List.foldl_cons]
    split
    · rw [ih (hslot ▸ hi), hslot]
    · exact ih hi

lemma Waiting.schedule (h : Waiting k.task event d) (hi : k.current ≠ idleSlot) (hp : k.switchProtected = false) :
    Waiting ((k.schedule r).tasks k.current) event d := by
  have hpre : Waiting (k.preempted.tasks k.current) event d := by
    have he : k.preempted.tasks k.current = { k.task with reschedule := false } := by
      refine (update_self ..).trans ?_
      rw [if_neg (by rw [h.blocked]; exact nofun)]
    rw [he]
    exact ⟨h.blocked, h.waiting, h.active, h.deadline⟩
  have hne : k.preempted.successor k.current ≠ k.current := fun he => by
    rcases successor_spec k.preempted k.current with ⟨h1, -⟩ | ⟨-, h2, -⟩
    · exact hi (he.symm.trans h1)
    · rw [he, hpre.blocked] at h2
      cases h2
  have hdis : (k.preempted.dispatch (k.preempted.successor k.current)).tasks k.current = k.preempted.tasks k.current :=
    update_of_ne hne.symm ..
  rw [schedule_eq hp, if_neg hne, tasks_reapExited, hdis]
  · exact hpre
  · rw [hdis, hpre.blocked]
    exact nofun

lemma waitResult_none {observed : Nat} (hi : k.current ≠ idleSlot) (hp : k.switchProtected = false)
    (hc : k.currentCancelled = false) (he : ∀ e, event = some e → k.sequence e = observed) (hd : 0 < d)
      (hlt : d < 2 ^ 31) :
    k.waitResult event observed (some d) = none := by
  have hseq : (event.any fun e => k.sequence e != observed) = false := by
    cases event with
    | none => rfl
    | some e => simp [he e rfl]
  unfold waitResult
  rw [hp, hc, hseq]
  have hle : ¬2147483648 ≤ d := Nat.not_le.mpr hlt
  simp [hi, hle, hd.ne']

lemma Waiting.wait {observed : Nat} (r : Releases) (now : Nat) (hi : k.current ≠ idleSlot)
    (hp : k.switchProtected = false)
    (hc : k.currentCancelled = false) (he : ∀ e, event = some e → k.sequence e = observed) (hd : 0 < d)
      (hlt : d < 2 ^ 31) :
    (k.wait r event observed (some d) now).1 = none ∧
      Waiting ((k.wait r event observed (some d) now).2.tasks k.current) event ((now + d) % 2 ^ 32) := by
  have hwait : k.wait r event observed (some d) now =
      (none, (k.setTask k.current (k.task.block event (some d) now)).schedule r) := by
    unfold Kernel.wait
    rw [waitResult_none hi hp hc he hd hlt]
  have htask : (k.setTask k.current (k.task.block event (some d) now)).task = k.task.block event (some d) now :=
    update_self ..
  have hprot : (k.setTask k.current (k.task.block event (some d) now)).switchProtected = false := by
    unfold switchProtected
    rw [htask]
    exact hp
  rw [hwait]
  refine ⟨rfl, Waiting.schedule (k := k.setTask k.current (k.task.block event (some d) now)) ?_ hi hprot⟩
  rw [htask]
  exact ⟨rfl, rfl, rfl, rfl⟩

/-- **Timed waits.** A task that may wait blocks until the tick that is `d` ticks away, however the clock wraps, unless
its event is signalled or it is cancelled before; then it is runnable and registered nowhere. Whatever wakes it first
fixes the reason that it gets when it runs again, unless it is cancelled by then. A sleep of `ms` milliseconds is such a
wait without an event, and spans as many whole ticks as cover them. -/
theorem timed_wait :
    (∀ (k : Kernel) (r : Releases) (event : Option Event) (observed d now : Nat), k.current ≠ idleSlot →
      k.switchProtected = false → k.currentCancelled = false → (∀ e, event = some e → k.sequence e = observed) →
      0 < d → d < 2 ^ 31 → now < 2 ^ 32 → (k.wait r event observed (some d) now).1 = none ∧
      ∀ n s, Elapses k.current event ((k.wait r event observed (some d) now).2, now) n s →
        (n < d → Waiting (s.1.tasks k.current) event ((now + d) % 2 ^ 32) ∧ s.2 = (now + n) % 2 ^ 32) ∧
        (n + 1 = d → Woken ((s.1.timerTick ((s.2 + 1) % 2 ^ 32)).tasks k.current) .timeout)) ∧
    (∀ (k : Kernel) (i : TaskSlot) (event : Option Event) (deadline : Nat), Waiting (k.tasks i) event deadline →
      (∀ e, event = some e → Woken ((k.signal e).tasks i) .event) ∧ Woken ((k.cancel i).tasks i) .cancelled) ∧
    (∀ (i : TaskSlot) (s s' : Kernel × Nat) (reason : WaitResult), Woken (s.1.tasks i) reason →
      Relation.ReflTransGen (Passes i) s s' → Woken (s'.1.tasks i) reason) ∧
    (∀ (k : Kernel) (t : Task) (reason : WaitResult), Woken t reason →
      k.task = { t with state := .running, reschedule := false, sliceTicks := timeSliceTicks } →
      k.resumeResult = some (if t.kind = .process ∧ t.cancellationRequested = true then .cancelled else reason)) ∧
    (∀ ms, 1 ≤ ms → ms ≤ sleepMaxMs → ∃ d, durationTicks ms = some d ∧ d = (ms + 9) / 10 + 1 ∧ d < 2 ^ 31 ∧
      ∀ (k : Kernel) (r : Releases) (now : Nat), k.sleep r ms now =
        (((k.wait r none 0 (some d) now).1.map sleepResult), (k.wait r none 0 (some d) now).2)) := by
  refine ⟨fun k r event observed d now hi hp hc he hd hlt hnow => ?_, fun k i event deadline h => ⟨fun e hev => ?_, ?_⟩,
    fun i s s' reason h hs => ?_, fun k t reason h hk => ?_, fun ms h1 h2 => ?_⟩
  · obtain ⟨hnone, h0⟩ := Waiting.wait r now hi hp hc he hd hlt
    refine ⟨hnone, fun n s hs => ?_⟩
    refine ⟨fun hn => hs.waiting hd hlt h0 hnow hn, fun hn => ?_⟩
    obtain ⟨g1, g2⟩ := hs.waiting hd hlt h0 hnow (by omega)
    refine g1.expire ?_
    have hclock : (s.2 + 1) % 2 ^ 32 = (now + d) % 2 ^ 32 := by omega
    rw [hclock]
    exact (deadlineReached_iff hd hlt (Nat.le_refl d)).mpr rfl
  · have hwoken : (k.signal e).tasks i = (k.tasks i).wake .event := by
      refine if_pos ?_
      simp [h.blocked, h.waiting, hev]
    rw [hwoken]
    exact woken_wake ..
  · have hwoken : (k.cancel i).tasks i = Task.wake { k.tasks i with cancellationRequested := true } .cancelled := by
      refine (update_self ..).trans ?_
      exact if_pos h.blocked
    rw [hwoken]
    exact woken_wake ..
  · induction hs with
    | refl => exact h
    | tail _ hstep ih => exact ih.passes hstep
  · unfold resumeResult currentCancelled currentIsProcess
    rw [hk]
    simp [h.waiting, h.active, h.deadline, h.reason]
  · have hticks : (ms * timerHz + 999) / 1000 + 1 = (ms + 9) / 10 + 1 := by
      simp only [timerHz]
      omega
    have hle : (ms + 9) / 10 + 1 < 2 ^ 31 := by
      simp only [sleepMaxMs] at h2
      omega
    have hd : durationTicks ms = some ((ms + 9) / 10 + 1) := by
      unfold durationTicks
      rw [if_neg (Nat.not_lt.mpr h2)]
      dsimp only
      rw [if_pos (Nat.one_le_iff_ne_zero.mp h1), hticks, if_neg (Nat.not_le.mpr hle)]
    refine ⟨_, hd, rfl, hle, fun k r now => ?_⟩
    unfold sleep
    rw [hd]
    exact if_neg (Nat.succ_ne_zero _)

/-- The boot task sleeps for five ticks. -/
theorem timed_wait_initial : ∀ n s, Elapses bootSlot none ((initial.wait allReleased none 0 (some 5) 0).2, 0) n s →
    n + 1 = 5 → Woken ((s.1.timerTick ((s.2 + 1) % 2 ^ 32)).tasks bootSlot) .timeout := by
  intro n s hs
  have h := timed_wait.1 initial allReleased none 0 5 0 (by decide) rfl rfl nofun (by decide) (by decide) (by decide)
  exact (h.2 n s hs).2

end Kernel

end RumKernel.Process
