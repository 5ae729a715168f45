import RumKernel.Process.Invariant
import RumKernel.Process.Timers

/-!
# No lost wakeups

A task that waits for an event has taken its sequence number before it looked whether it has to wait. A signal counts
the event and wakes every task that is blocked on it; a task blocks only if the number is still the one it has taken.
-/

namespace RumKernel.Process
open Function

variable {c : Prop} {t : Task} {call : KernelCall} {now observed : Nat} {duration : Option Nat}

/-- The slot whose record holds an event. -/
def Event.slot : Event → Option TaskSlot
  | .children i | .console i => some i
  | .other _ => none

namespace Kernel

/-! ## The signals of a step -/

/-- The events that `signalParent` signals. -/
def parentEvents (k : Kernel) : List Event :=
  if k.currentIsProcess then
    match (List.finRange 18).find? fun i => (k.tasks i).state != .unused && (k.tasks i).id == k.task.parent with
    | none => []
    | some i => if k.console.isShell (some i) then [.children i, .console i] else [.children i]
  else []

/-- The events that `task_notify_shell_input` signals. -/
def shellEvents (k : Kernel) : List Event :=
  (userSlots.filter fun i =>
    (k.tasks i).state != .unused && k.console.isShell (some i) && k.console.owns (some i)).map .console

/-- The events that `terminate_current` signals. -/
def exitEvents (k : Kernel) (termination : Termination) (status : Int) (fault : Option Fault) (closed : Bool) :
    List Event :=
  if k.current = bootSlot || k.current = idleSlot || k.switchProtected || !closed then []
  else
    let k := k.record termination status fault
    (k.adoptAll k.abandons).leave.parentEvents

end Kernel

open Kernel

/-- The events that a step signals. -/
def KernelCall.signals (k : Kernel) : KernelCall → List Event
  | .signal e => [e]
  | .notifyShellInput => k.shellEvents
  | .exit _ status closed => k.exitEvents .exit status none closed
  | .fault _ f closed => if k.currentIsProcess then k.exitEvents .fault 0 (some f) closed else []
  | .cancelCurrentIfRequested _ closed => if k.currentCancelled then k.exitEvents .cancelled 0 none closed else []
  | .exitShellIfRequested _ closed =>
    match (k.console.records k.current).session with
    | none => []
    | some σ =>
      if k.currentIsShell && (k.console.sessions σ).exitRequested then
        k.exitEvents .exit (k.console.sessions σ).exitStatus none closed
      else []
  | .onUserReturn _ closed =>
    if !k.currentIsProcess || k.switchProtected then []
    else if k.currentCancelled then k.exitEvents .cancelled 0 none closed
    else []
  | _ => []

namespace Kernel

variable {k k' k'' : Kernel} {e : Event} {i : TaskSlot} {r : Releases}

lemma tasks_signal_eq (k : Kernel) (e : Event) (i : TaskSlot) : (k.signal e).tasks i =
    if (k.tasks i).state = .blocked && (k.tasks i).waiting == some e then (k.tasks i).wake .event else k.tasks i := rfl

def signalAll (k : Kernel) (es : List Event) : Kernel := es.foldl signal k

lemma signalParent_eq (k : Kernel) : k.signalParent = k.signalAll k.parentEvents := by
  unfold signalParent parentEvents
  generalize (List.finRange 18).find? (fun i => (k.tasks i).state != .unused && (k.tasks i).id == k.task.parent) = found
  split
  · cases found with
    | none => rfl
    | some i =>
      have hc : (k.signal (.children i)).console = k.console := rfl
      dsimp only
      rw [hc]
      split <;> rfl
  · rfl

lemma notifyShellInput_eq (k : Kernel) : k.notifyShellInput = k.signalAll k.shellEvents := by
  -- The signals before do not change which shells are told.
  have h : ∀ (l : List TaskSlot) (k' : Kernel), (∀ i, (k'.tasks i).state = .unused ↔ (k.tasks i).state = .unused) →
      k'.console = k.console →
      l.foldl (fun k i => if (k.tasks i).state != .unused && k.console.isShell (some i) && k.console.owns (some i)
        then k.signal (.console i) else k) k' =
      k'.signalAll ((l.filter fun i => (k.tasks i).state != .unused && k.console.isShell (some i) &&
        k.console.owns (some i)).map .console) := by
    intro l
    induction l with
    | nil => exact fun _ _ _ => rfl
    | cons i l ih =>
      intro k' hu hc
      have hi : ((k'.tasks i).state != .unused) = ((k.tasks i).state != .unused) := by
        rw [Bool.eq_iff_iff, bne_iff_ne, bne_iff_ne]
        exact not_congr (hu i)
      rw [List.foldl_cons, hi, hc, List.filter_cons]
      split
      · refine (ih (k'.signal (.console i)) (fun j => ?_) hc).trans rfl
        rw [← hu j]
        rw [tasks_signal_eq]
        split
        · rename_i hb
          have hb := of_decide_eq_true (Bool.and_eq_true_iff.mp hb).1
          rw [hb]
          exact ⟨by rintro ⟨⟩, by rintro ⟨⟩⟩
        · rfl
      · exact ih k' hu hc
  exact h userSlots k (fun _ => .rfl) rfl

/-! ## Counting -/

lemma sequence_signalAll (k : Kernel) (es : List Event) (e : Event) :
    (k.signalAll es).sequence e % 2 ^ 32 = (k.sequence e + es.count e) % 2 ^ 32 := by
  induction es generalizing k with
  | nil => rfl
  | cons d es ih =>
    refine (ih (k.signal d)).trans ?_
    change (update k.sequence d ((k.sequence d + 1) % 2 ^ 32) e + _) % _ = _
    rw [List.count_cons]
    by_cases he : e = d
    · subst he
      rw [update_self, beq_self_eq_true, if_pos rfl]
      omega
    · rw [update_of_ne he, if_neg (by simpa using Ne.symm he), Nat.add_zero]

/-! ## Nobody starts to wait -/

/-- The tasks that are blocked on an event were so before. -/
def Stirs (k k' : Kernel) : Prop := ∀ i e, (k'.tasks i).state = .blocked → (k'.tasks i).waiting = some e →
  (k.tasks i).state = .blocked ∧ (k.tasks i).waiting = some e

def Awake (k : Kernel) (e : Event) : Prop := ∀ i, (k.tasks i).state = .blocked → (k.tasks i).waiting ≠ some e

lemma Stirs.refl (k : Kernel) : Stirs k k := fun _ _ hb hw => ⟨hb, hw⟩

lemma Stirs.trans (h : Stirs k k') (h' : Stirs k' k'') : Stirs k k'' := fun i e hb hw =>
  have ⟨hb, hw⟩ := h' i e hb hw
  h i e hb hw

lemma Stirs.awake (h : Stirs k k') (ha : k.Awake e) : k'.Awake e := fun i hb hw =>
  have ⟨hb, hw⟩ := h i e hb hw
  ha i hb hw

lemma stirs_signal (k : Kernel) (e : Event) : Stirs k (k.signal e) := by
  intro i d hb hw
  rw [tasks_signal_eq] at hb hw
  split at hb
  · cases hb
  · rename_i hn
    rw [if_neg hn] at hw
    exact ⟨hb, hw⟩

lemma awake_signal (k : Kernel) (e : Event) : (k.signal e).Awake e := by
  intro i hb hw
  have hold := stirs_signal k e i e hb hw
  rw [tasks_signal_eq, hold.1, hold.2, beq_self_eq_true] at hb
  cases hb

lemma stirs_signalAll (k : Kernel) (es : List Event) : Stirs k (k.signalAll es) := by
  induction es generalizing k with
  | nil => exact .refl k
  | cons d es ih => exact (stirs_signal k d).trans (ih (k.signal d))

lemma awake_signalAll (k : Kernel) {es : List Event} (he : e ∈ es) : (k.signalAll es).Awake e := by
  induction es generalizing k with
  | nil => cases he
  | cons d es ih =>
    rcases List.mem_cons.mp he with rfl | he
    · exact (stirs_signalAll _ es).awake (awake_signal k e)
    · exact ih (k.signal d) he

/-! ## Released slots -/

lemma sequence_restart {f : Event → Nat} (he : e.slot ≠ some i) :
    update (update f (.children i) 0) (.console i) 0 e = f e := by
  have hc : e ≠ .children i := fun h => he (by rw [h]; rfl)
  have hd : e ≠ .console i := fun h => he (by rw [h]; rfl)
  exact (update_of_ne hd ..).trans (update_of_ne hc ..)

/-- Slots are released and tasks are dispatched: nobody starts to wait, and only events in released slots start again.
-/
structure Clears (k k' : Kernel) : Prop where
  stirs : Stirs k k'
  unused : ∀ i ∈ userSlots, (k.tasks i).state = .unused → (k'.tasks i).state = .unused
  sequence : ∀ e, k'.sequence e = k.sequence e ∨ ∃ i ∈ userSlots, e.slot = some i ∧ (k'.tasks i).state = .unused

namespace Clears

lemma refl (k : Kernel) : Clears k k := ⟨.refl k, fun _ _ h => h, fun _ => .inl rfl⟩

lemma trans (h : Clears k k') (h' : Clears k' k'') : Clears k k'' where
  stirs := h.stirs.trans h'.stirs
  unused i hi hu := h'.unused i hi (h.unused i hi hu)
  sequence e := by
    rcases h'.sequence e with he | hslot
    · rcases h.sequence e with hk | ⟨i, hi, hs, hu⟩
      · exact .inl (he.trans hk)
      · exact .inr ⟨i, hi, hs, h'.unused i hi hu⟩
    · exact .inr hslot

lemma ite [Decidable c] (h : Clears k k') (h' : Clears k k'') : Clears k (if c then k' else k'') := by
  split
  · exact h
  · exact h'

lemma setTask (hb : t.state = .blocked → (k.tasks i).state = .blocked ∧ t.waiting = (k.tasks i).waiting)
    (hu : i ∈ userSlots → (k.tasks i).state = .unused → t.state = .unused) : Clears k (k.setTask i t) where
  stirs j e hj hw := by
    change (update k.tasks i t j).state = .blocked at hj
    change (update k.tasks i t j).waiting = some e at hw
    by_cases h : j = i
    · subst h
      rw [update_self] at hj hw
      exact ⟨(hb hj).1, (hb hj).2 ▸ hw⟩
    · rw [update_of_ne h] at hj hw
      exact ⟨hj, hw⟩
  unused j hm hj := by
    change (update k.tasks i t j).state = .unused
    by_cases h : j = i
    · subst h
      rw [update_self]
      exact hu hm hj
    · rwa [update_of_ne h]
  sequence _ := .inl rfl

lemma reapSlot (hi : i ∈ userSlots) : Clears k (k.reapSlot r i).2 := by
  unfold Kernel.reapSlot
  split
  · have hself : ∀ c h, (({ k with console := c, halted := h } : Kernel).store i {} {}).tasks i = {} := fun _ _ =>
      update_self ..
    have hother : ∀ c h j, j ≠ i →
      (({ k with console := c, halted := h } : Kernel).store i {} {}).tasks j = k.tasks j :=
      fun _ _ _ hj => update_of_ne hj ..
    refine ⟨fun j e hb hw => ?_, fun j _ hj => ?_, fun e => ?_⟩
    · by_cases h : j = i
      · subst h
        rw [hself] at hb
        cases hb
      · rw [hother _ _ j h] at hb hw
        exact ⟨hb, hw⟩
    · by_cases h : j = i
      · subst h
        rw [hself]
      · rwa [hother _ _ j h]
    · by_cases he : e.slot = some i
      · exact .inr ⟨i, hi, he, by rw [hself]⟩
      · exact .inl (sequence_restart he)
  · exact .refl k

lemma reapExited (processes : Bool) : Clears k (k.reapExited r processes) := by
  have h : ∀ l : List TaskSlot, (∀ i ∈ l, i ∈ userSlots) → ∀ k : Kernel,
      Clears k (l.foldl (fun k i => if k.discards processes i then (k.reapSlot r i).2 else k) k) := by
    intro l
    induction l with
    | nil => exact fun _ k => .refl k
    | cons i l ih =>
      intro hl k
      rw [List.foldl_cons]
      refine Clears.trans ?_ (ih (fun j hj => hl j (.tail _ hj)) _)
      split
      · exact .reapSlot (hl i (.head _))
      · exact .refl k
  exact h userSlots (fun _ h => h) k

lemma dispatch (index : TaskSlot) : Clears k (k.dispatch (k.successor index)) := by
  have h : Clears k (k.setTask (k.successor index)
      { k.tasks (k.successor index) with state := .running, reschedule := false, sliceTicks := timeSliceTicks }) := by
    refine .setTask nofun fun hm hu => ?_
    rcases successor_spec k index with ⟨hs, -⟩ | ⟨-, hs, -⟩
    · rw [hs] at hm
      exact absurd hm (by decide)
    · exact nomatch hs.symm.trans hu
  exact ⟨h.stirs, h.unused, h.sequence⟩

lemma schedule : Clears k (k.schedule r) := by
  unfold Kernel.schedule
  split
  · exact ⟨.refl k, fun _ _ h => h, fun _ => .inl rfl⟩
  · have h1 : Clears k (k.setTask k.current { k.task with
        state := if k.task.state = .running then .runnable else k.task.state, reschedule := false }) := by
      refine .setTask (fun hb => ?_) fun _ hu => ?_
      · dsimp only at hb
        split at hb
        · cases hb
        · exact ⟨hb, rfl⟩
      · have hu : k.task.state = .unused := hu
        dsimp only
        rw [hu]
        rfl
    have h2 := h1.trans (.dispatch k.current)
    exact .ite h2 (h2.trans (.reapExited false))

lemma sequence_eq (h : Clears k k') (hu : ∀ i, e.slot = some i → (k'.tasks i).state ≠ .unused) :
    k'.sequence e = k.sequence e := by
  rcases h.sequence e with he | ⟨i, -, hs, hi⟩
  · exact he
  · exact absurd hi (hu i hs)

end Clears

/-! ## Steps -/

lemma sequence_adoptAll (k : Kernel) (p : TaskSlot → Bool) : (k.adoptAll p).sequence = k.sequence := by
  have h : ∀ (l : List TaskSlot) (k : Kernel),
      (l.foldl (fun k i => if p i then k.adopt i else k) k).sequence = k.sequence := by
    intro l
    induction l with
    | nil => exact fun _ => rfl
    | cons i l ih =>
      intro k
      rw [List.foldl_cons, ih]
      split <;> rfl
  exact h userSlots k

lemma availableSlot_unused {space : Option Nat} (h : k.availableSlot space = some i) : (k.tasks i).state = .unused := by
  unfold availableSlot at h
  split at h
  · cases h
  · have hi := List.find?_some h
    exact beq_iff_eq.mp hi

lemma terminateCurrent_signals (k : Kernel) (termination : Termination) (status : Int) (fault : Option Fault)
    (closed : Bool) : ∃ k' : Kernel, k'.sequence = k.sequence ∧
      Clears (k'.signalAll (k.exitEvents termination status fault closed))
          (k.terminateCurrent r termination status fault closed) := by
  unfold terminateCurrent exitEvents
  split
  · exact ⟨k, rfl, .refl k, fun _ _ h => h, fun _ => .inl rfl⟩
  · refine ⟨((k.record termination status fault).adoptAll (k.record termination status fault).abandons).leave,
      sequence_adoptAll .., ?_⟩
    dsimp only
    rw [signalParent_eq]
    exact .schedule

end Kernel

namespace KernelCall

variable {k : Kernel} {e : Event}

/-- A step signals its events: it counts them, and leaves nobody blocked on one of them. -/
structure Signals (k : Kernel) (call : KernelCall) : Prop where
  awake : ∀ e ∈ call.signals k, (call.perform k).Awake e
  counted : ∀ e, (∀ i, e.slot = some i → (k.tasks i).state ≠ .unused) →
    (∀ i, e.slot = some i → ((call.perform k).tasks i).state ≠ .unused) →
    (call.perform k).sequence e % 2 ^ 32 = (k.sequence e + (call.signals k).count e) % 2 ^ 32

namespace Signals

lemma none (hs : call.signals k = []) (hq : ∀ e, (∀ i, e.slot = some i → (k.tasks i).state ≠ .unused) →
      (∀ i, e.slot = some i → ((call.perform k).tasks i).state ≠ .unused) →
        (call.perform k).sequence e = k.sequence e) :
    Signals k call where
  awake e he := by
    rw [hs] at he
    cases he
  counted e hu hu' := by
    rw [hs, hq e hu hu']
    rfl

lemma all {k' : Kernel} (hk : k'.sequence = k.sequence)
    (hc : Clears (k'.signalAll (call.signals k)) (call.perform k)) : Signals k call where
  awake _ he := hc.stirs.awake (awake_signalAll k' he)
  counted e _ hu' := by
    rw [hc.sequence_eq hu', sequence_signalAll, hk]

lemma exits {r : Releases} {termination : Termination} {status : Int} {fault : Option Fault} {closed : Bool}
    (hs : call.signals k = k.exitEvents termination status fault closed)
    (hp : call.perform k = k.terminateCurrent r termination status fault closed) : Signals k call := by
  obtain ⟨k', hk, hc⟩ := @terminateCurrent_signals r k termination status fault closed
  rw [← hs, ← hp] at hc
  exact .all hk hc

lemma still (hs : call.signals k = []) (hp : (call.perform k).sequence = k.sequence) : Signals k call :=
  .none hs fun e _ _ => congrFun hp e

end Signals

end KernelCall

namespace Kernel

variable {k : Kernel} {e : Event}

lemma sequence_ite [Decidable c] {a b : Kernel} {n : Nat} (ha : a.sequence e = n) (hb : b.sequence e = n) :
    (if c then a else b).sequence e = n := by
  split
  · exact ha
  · exact hb

lemma sequence_create (owned : Option Nat) (l : Launch) (hu : ∀ i, e.slot = some i → (k.tasks i).state ≠ .unused) :
    (k.create owned l).2.sequence e = k.sequence e := by
  unfold create
  split
  · rfl
  · split
    · rfl
    · rename_i slot hs
      split
      · rfl
      · exact sequence_restart fun he => hu slot he (availableSlot_unused hs)

lemma sequence_createProcess (l : Launch) (foreground shell : Bool)
    (hu : ∀ i, e.slot = some i → (k.tasks i).state ≠ .unused) :
    (k.createProcess l foreground shell).2.sequence e = k.sequence e := by
  unfold createProcess
  split
  · rfl
  · split
    · rfl
    · rename_i slot hs
      split
      · rfl
      · have he : e.slot ≠ some slot := fun he => hu slot he (availableSlot_unused hs)
        unfold publish
        dsimp only
        split
        · exact sequence_restart he
        · exact sequence_restart he

lemma sequence_markShellCommand (id : Nat) (text : List UInt8) :
    (k.markShellCommand id text).2.sequence = k.sequence := by
  unfold markShellCommand
  split
  · rfl
  · split
    · rfl
    · dsimp only
      split <;> rfl

lemma clears_reapProcess (r : Releases) (id : Nat) : Clears k (k.reapProcess r id).2 := by
  unfold reapProcess
  split
  · exact .refl k
  · split
    · exact .refl k
    · rename_i i hi
      exact .reapSlot (List.mem_of_find?_eq_some hi)

lemma clears_foregroundEnd (id : Nat) : Clears k (k.foregroundEnd id).2 := by
  unfold foregroundEnd
  split
  · exact .refl k
  · split
    · exact .refl k
    · exact ⟨.refl k, fun _ _ h => h, fun _ => .inl rfl⟩

lemma clears_collectChild (r : Releases) (id : Nat) : Clears k (k.collectChild r id).2 := by
  unfold collectChild
  split
  · exact .refl k
  · split
    · exact .refl k
    · split
      · dsimp only
        split
        · exact (clears_foregroundEnd id).trans (clears_reapProcess r id)
        · exact .refl k
      · exact clears_reapProcess r id

lemma sequence_createShellProcess (l : Launch) (hu : ∀ i, e.slot = some i → (k.tasks i).state ≠ .unused) :
    (k.createShellProcess l).2.sequence e = k.sequence e := by
  unfold createShellProcess
  split
  · rfl
  · exact sequence_createProcess l _ _ hu

lemma sequence_markForegroundShell (id : Nat) : (k.markForegroundShell id).2.sequence = k.sequence := by
  unfold markForegroundShell
  split
  · rfl
  · split <;> rfl

lemma sequence_sessionControl (recovery : Bool) : (k.sessionControl recovery).2.sequence = k.sequence := by
  unfold sessionControl
  split <;> rfl

lemma sequence_timerTick (now : Nat) : (k.timerTick now).sequence = k.sequence := by
  unfold timerTick
  dsimp only
  split <;> rfl

lemma sequence_cancelForeground : k.cancelForeground.sequence = k.sequence := by
  unfold cancelForeground
  dsimp only
  split
  · rfl
  · split <;> rfl

lemma sequence_requestTermination (pid : Nat) (session : Bool) :
    (k.requestTermination pid session).2.sequence = k.sequence := by
  unfold requestTermination
  repeat' split
  all_goals rfl

lemma sequence_yield (hu : ∀ i, e.slot = some i → ((k.yield r).2.tasks i).state ≠ .unused) :
    (k.yield r).2.sequence e = k.sequence e := by
  unfold yield at hu ⊢
  split at hu
  · rename_i hc
    rw [if_pos hc]
  · rename_i hc
    rw [if_neg hc]
    exact Clears.schedule.sequence_eq hu

lemma sequence_wait {event : Option Event}
    (hu : ∀ i, e.slot = some i → ((k.wait r event observed duration now).2.tasks i).state ≠ .unused) :
    (k.wait r event observed duration now).2.sequence e = k.sequence e := by
  unfold wait at hu ⊢
  split at hu
  · rfl
  · exact Clears.schedule.sequence_eq hu

lemma clears_idle (r : Releases) : Clears k (k.idle r) := by
  unfold idle
  exact .ite (.ite ((Clears.reapExited false).trans .schedule) (.reapExited false)) (.refl k)

end Kernel

lemma KernelCall.exitShell_signals (k : Kernel) (r : Releases) (closed : Bool) :
    (KernelCall.exitShellIfRequested r closed).Signals k := by
  cases hσ : (k.console.records k.current).session with
  | none =>
    refine .still ?_ (congrArg Kernel.sequence (?_ : k.exitShellIfRequested r closed = k))
    · simp only [signals, hσ]
    · simp only [Kernel.exitShellIfRequested, hσ]
  | some σ =>
    by_cases hx : (k.currentIsShell && (k.console.sessions σ).exitRequested) = true
    · refine .exits ?_
        (?_ : k.exitShellIfRequested r closed =
          k.terminateCurrent r .exit (k.console.sessions σ).exitStatus none closed)
      · simp only [signals, hσ]
        exact if_pos hx
      · simp only [Kernel.exitShellIfRequested, hσ]
        exact if_pos hx
    · refine .still ?_ (congrArg Kernel.sequence (?_ : k.exitShellIfRequested r closed = k))
      · simp only [signals, hσ]
        exact if_neg hx
      · simp only [Kernel.exitShellIfRequested, hσ]
        exact if_neg hx

lemma KernelCall.perform_signals (k : Kernel) (call : KernelCall) : call.Signals k := by
  cases call with
  | create owned l => exact .none rfl fun e hu _ => sequence_create owned l hu
  | createProcess l | createForegroundProcess l => exact .none rfl fun e hu _ => sequence_createProcess l _ _ hu
  | createShellProcess l => exact .none rfl fun e hu _ => sequence_createShellProcess l hu
  | markForegroundShell id => exact .none rfl fun e _ _ => congrFun (sequence_markForegroundShell id) e
  | markShellCommand id text => exact .none rfl fun e _ _ => congrFun (sequence_markShellCommand id text) e
  | sessionControl recovery => exact .none rfl fun e _ _ => congrFun (sequence_sessionControl recovery) e
  | switchHold => exact .none rfl fun e _ _ => sequence_ite rfl rfl
  | switchRelease => exact .none rfl fun e _ _ => sequence_ite rfl rfl
  | handles n => exact .none rfl fun e _ _ => sequence_ite rfl rfl
  | operation active => exact .none rfl fun e _ _ => sequence_ite rfl rfl
  | yield r => exact .none rfl fun e _ hu => sequence_yield hu
  | idle r => exact .none rfl fun e _ hu => (clears_idle r).sequence_eq hu
  | wait r event observed duration now => exact .none rfl fun e _ hu => sequence_wait hu
  | signal d => exact .all rfl (.refl _)
  | notifyShellInput =>
    refine .all rfl ?_
    rw [show (notifyShellInput.perform k) = _ from notifyShellInput_eq k]
    exact .refl _
  | timerTick now => exact .none rfl fun e _ _ => congrFun (sequence_timerTick now) e
  | cancelForeground => exact .none rfl fun e _ _ => congrFun sequence_cancelForeground e
  | requestTermination pid session => exact .none rfl fun e _ _ => congrFun (sequence_requestTermination pid session) e
  | exit r status closed => exact .exits rfl rfl
  | fault r f closed =>
    by_cases hp : k.currentIsProcess = true
    · exact .exits (if_pos hp) (if_pos hp)
    · have hh : (KernelCall.fault r f closed).perform k = k.halt := if_neg hp
      exact .still (if_neg hp) (by rw [hh]; rfl)
  | cancelCurrentIfRequested r closed =>
    by_cases hc : k.currentCancelled = true
    · exact .exits (if_pos hc) (if_pos hc)
    · exact .still (if_neg hc) (congrArg Kernel.sequence (if_neg hc))
  | exitShellIfRequested r closed => exact exitShell_signals k r closed
  | onUserReturn r closed =>
    by_cases hp : (!k.currentIsProcess || k.switchProtected) = true
    · have hh : (KernelCall.onUserReturn r closed).perform k = k.halt := if_pos hp
      exact .still (if_pos hp) (by rw [hh]; rfl)
    · by_cases hc : k.currentCancelled = true
      · exact .exits ((if_neg hp).trans (if_pos hc)) ((if_neg hp).trans (if_pos hc))
      · refine .none ((if_neg hp).trans (if_neg hc)) fun e _ hu => Clears.sequence_eq ?_ hu
        rw [show (KernelCall.onUserReturn r closed).perform k = _ from (if_neg hp).trans (if_neg hc)]
        exact .ite .schedule (.refl k)
  | foregroundEnd id => exact .none rfl fun e _ hu => (clears_foregroundEnd id).sequence_eq hu
  | collectChild r id => exact .none rfl fun e _ hu => (clears_collectChild r id).sequence_eq hu
  | reapProcess r id => exact .none rfl fun e _ hu => (clears_reapProcess r id).sequence_eq hu
  | reap r =>
    have hc : Clears k (k.reapExited r true) := .reapExited true
    exact .none rfl fun e _ hu => Clears.sequence_eq hc hu

/-! ## Runs -/

namespace Kernel

variable {k : Kernel} {e : Event}

/-- How often an event is signalled in a run. -/
def signalCount (e : Event) : Kernel → List KernelCall → Nat
  | _, [] => 0
  | k, call :: calls => (if k.halted then 0 else (call.signals k).count e) + signalCount e (call.next k) calls

/-- The record that holds the event is in use. -/
def Holds (k : Kernel) (e : Event) : Prop := ∀ i, e.slot = some i → (k.tasks i).state ≠ .unused

/-- Something holds in every state of a run. -/
def Always (P : Kernel → Prop) : Kernel → List KernelCall → Prop
  | k, [] => P k
  | k, call :: calls => P k ∧ Always P (call.next k) calls

lemma Always.head {P : Kernel → Prop} {calls : List KernelCall} (h : Always P k calls) : P k := by
  cases calls with
  | nil => exact h
  | cons call calls => exact h.1

lemma sequence_run (calls : List KernelCall) (h : Always (Holds · e) k calls) :
    (k.run calls).sequence e % 2 ^ 32 = (k.sequence e + signalCount e k calls) % 2 ^ 32 := by
  induction calls generalizing k with
  | nil => rfl
  | cons call calls ih =>
    have hstep : (call.next k).sequence e % 2 ^ 32 =
        (k.sequence e + if k.halted then 0 else (call.signals k).count e) % 2 ^ 32 := by
      have hnext := h.2.head
      unfold KernelCall.next at hnext ⊢
      split
      · rfl
      · rename_i hh
        rw [if_neg hh] at hnext
        exact (KernelCall.perform_signals k call).counted e h.1 hnext
    have hrest := ih h.2
    change ((call.next k).run calls).sequence e % _ = _
    rw [hrest, signalCount]
    omega

/-! ## Records that stay -/

/-- The counter has passed an id, and only some slots may hold it. -/
structure Only (d : Nat) (P : TaskSlot → Prop) (k : Kernel) : Prop where
  passed : k.nextId = 0 ∨ d < k.nextId
  slots : ∀ j, k.Used j → (k.tasks j).id = d → P j

variable {d : Nat} {P : TaskSlot → Prop}

lemma Only.write (h : Only d P k) (ht : k'.tasks = update k.tasks i t) (hn : k'.nextId = 0 ∨ d < k'.nextId)
    (hi : t.state ≠ .unused → t.id = d → P i) : Only d P k' := by
  refine ⟨hn, fun j => ?_⟩
  unfold Used
  rw [ht]
  exact (forall_update_iff k.tasks fun j u => u.state ≠ .unused → u.id = d → P j).mpr ⟨hi, fun j _ => h.slots j⟩ j

lemma Only.next (h : Only d P k) (hid : k.nextId ≠ 0) (hb : k.nextId < 2 ^ 32) :
    k.nextId ≠ d ∧ ((k.nextId + 1) % 2 ^ 32 = 0 ∨ d < (k.nextId + 1) % 2 ^ 32) := by
  have := h.passed.resolve_left hid
  omega

lemma Only.act (h : Only d P k) (hreg : k.Registry) (ha : Act s k k') : Only d P k' := by
  cases ha with
  | quiet hf =>
    refine ⟨h.passed, fun i hi => ?_⟩
    rcases hf i with e | ⟨hu, hq⟩
    · unfold Used at hi
      dsimp only at hi ⊢
      rw [e] at hi ⊢
      exact h.slots i hi
    · dsimp only
      rw [hq.id]
      exact h.slots i hu
  | environment | halt | mark | request | endForeground => exact ⟨h.passed, h.slots⟩
  | @dispatch i _ hi => exact h.write rfl h.passed fun _ => h.slots i (by rw [Used, hi]; rintro ⟨⟩)
  | create _ _ hid =>
    obtain ⟨hne, hn⟩ := h.next hid hreg.bound
    exact h.write rfl hn fun _ he => absurd he hne
  | publish _ _ hid =>
    obtain ⟨hne, hn⟩ := h.next hid hreg.bound
    exact h.write tasks_publish.1 (by rw [tasks_publish.2]; exact hn) fun _ he => absurd he hne
  | @grant i _ _ hu => exact h.write rfl h.passed fun _ => h.slots i hu
  | @cancel i _ hp hu | @adopt i _ hp hu =>
    refine h.write rfl h.passed fun _ => ?_
    rw [Task.id_stop]
    exact h.slots i hu
  | leave _ _ hr =>
    exact h.write rfl h.passed fun _ => h.slots k.current (by rw [Used]; change k.task.state ≠ _; rw [hr]; rintro ⟨⟩)
  | reap => exact h.write rfl h.passed fun hu => absurd rfl hu

lemma always_used (calls : List KernelCall) (hready : k.Ready) (hu : k.Used i) (hu' : (k.run calls).Used i)
    (hid : ((k.run calls).tasks i).id = (k.tasks i).id) : Always (·.Used i) k calls := by
  induction calls generalizing k with
  | nil => exact hu
  | cons call calls ih =>
    have honly : Only (k.tasks i).id (· = i) k :=
      ⟨(hready.registry.issued hu).2, fun j hj he => hready.registry.ids hj hu he⟩
    have hnext : Only (k.tasks i).id (· = i) (call.next k) := hready.run_keeps Only.act honly [call]
    by_cases hk : (call.next k).Used i ∧ ((call.next k).tasks i).id = (k.tasks i).id
    · exact ⟨hu, ih (hready.next call) hk.1 hu' (hid.trans hk.2.symm)⟩
    · -- an id that no slot holds any more never comes back
      have hgone : Only (k.tasks i).id (fun _ => False) (call.next k) :=
        ⟨hnext.passed, fun j hj he => hk (by obtain rfl := hnext.slots j hj he; exact ⟨hj, he⟩)⟩
      exact (((hready.next call).run_keeps Only.act hgone calls).slots i hu' hid).elim

lemma Always.mono {P Q : Kernel → Prop} (hpq : ∀ k, P k → Q k) (calls : List KernelCall) (h : Always P k calls) :
    Always Q k calls := by
  induction calls generalizing k with
  | nil => exact hpq k h
  | cons call calls ih => exact ⟨hpq k h.1, ih h.2⟩

lemma Always.of_forall {P : Kernel → Prop} (h : ∀ k, P k) (calls : List KernelCall) : Always P k calls := by
  induction calls generalizing k with
  | nil => exact h k
  | cons call calls ih => exact ⟨h k, ih⟩

lemma always_holds (calls : List KernelCall) (hready : k.Ready) (hs : ∀ i, e.slot = some i → k.Used i ∧
    (k.run calls).Used i ∧ ((k.run calls).tasks i).id = (k.tasks i).id) : Always (Holds · e) k calls := by
  cases he : e.slot with
  | none => exact .of_forall (fun _ i hi => nomatch he.symm.trans hi) calls
  | some i =>
    obtain ⟨h1, h2, h3⟩ := hs i he
    refine (always_used calls hready h1 h2 h3).mono (fun k hu j hj => ?_) calls
    cases he.symm.trans hj
    exact hu

/-! ## No signal is lost -/

def Sleeps (k : Kernel) (i : TaskSlot) (e : Event) : Prop := (k.tasks i).state = .blocked ∧ (k.tasks i).waiting = some e

lemma signalCount_sleeps {i : TaskSlot} (calls : List KernelCall) (h : Always (Sleeps · i e) k calls) :
    signalCount e k calls = 0 := by
  induction calls generalizing k with
  | nil => rfl
  | cons call calls ih =>
    rw [signalCount, ih h.2, Nat.add_zero]
    have hnext := h.2.head
    unfold KernelCall.next at hnext
    split
    · rfl
    · rename_i hh
      rw [if_neg hh] at hnext
      refine List.count_eq_zero.mpr fun he => ?_
      exact (KernelCall.perform_signals k call).awake e he i hnext.1 hnext.2

lemma wait_blocks {r : Releases} (hr : k.task.state = .running)
    (hb : ((KernelCall.wait r (some e) observed duration now).next k).Sleeps k.current e) :
        k.sequence e = observed := by
  by_contra hne
  have hsome : ∃ reason, k.waitResult (some e) observed duration = some reason := by
    unfold waitResult
    split
    · exact ⟨_, rfl⟩
    · split
      · exact ⟨_, rfl⟩
      · rw [if_pos (by simpa using hne)]
        exact ⟨_, rfl⟩
  obtain ⟨reason, hw⟩ := hsome
  have hstay : (KernelCall.wait r (some e) observed duration now).next k = k := by
    unfold KernelCall.next
    split
    · rfl
    · change (k.wait r (some e) observed duration now).2 = k
      unfold Kernel.wait
      rw [hw]
  rw [hstay] at hb
  exact nomatch hr.symm.trans hb.1

/-- **No lost wakeup.** A task takes the number of an event, some steps happen, it waits with the number, and more steps
happen, in which it stays registered. An event in the record of a task is that of the same task when the number is taken
and when it is used. If fewer than `2 ^ 32` signals come before the task waits and it is still blocked on the event at
the end, then no signal has come since it took the number. A signal wakes only tasks that wait for its event, and a tick
only those whose deadline is reached. -/
theorem no_lost_wakeup :
    (∀ (before between after : List KernelCall) (r : Releases) (e : Event) (duration : Option Nat) (now : Nat),
      let k0 := initial.run before
      let k1 := k0.run between
      let k2 := (KernelCall.wait r (some e) (k0.sequence e) duration now).next k1
      (∀ i, e.slot = some i → k0.Used i ∧ k1.Used i ∧ (k1.tasks i).id = (k0.tasks i).id) →
      signalCount e k0 between < 2 ^ 32 → Always (Sleeps · k1.current e) k2 after →
      signalCount e k0 between = 0 ∧ signalCount e k2 after = 0) ∧
    (∀ (k : Kernel) (e : Event) (i : TaskSlot), (k.tasks i).state = .blocked → (k.tasks i).waiting ≠ some e →
      (k.signal e).tasks i = k.tasks i) ∧
    ∀ (k : Kernel) (now : Nat) (i : TaskSlot), (k.tasks i).state = .blocked →
      ¬((k.tasks i).deadlineActive = true ∧ deadlineReached now (k.tasks i).deadline = true) →
      ((k.timerTick now).tasks i).state = .blocked := by
  refine ⟨fun before between after r e duration now hheld hfew hsleeps => ⟨?_, signalCount_sleeps after hsleeps⟩,
    fun k e i _ hw => ?_, fun k now i hb hd => ?_⟩
  · have hrun : ((initial.run before).run between).task.state = .running := ((ready before).run between).running
    have hseq := wait_blocks hrun hsleeps.head
    have hcount := sequence_run between (always_holds between (ready before) hheld)
    rw [hseq] at hcount
    omega
  · rw [tasks_signal_eq, if_neg (by simp [hw])]
  · obtain ⟨sliceTicks, reschedule, ht⟩ := tasks_timerTick k now i
    rw [ht, if_neg (by rw [hb]; simpa using hd)]
    exact hb

instance (k : Kernel) (i : TaskSlot) (e : Event) : Decidable (k.Sleeps i e) := inferInstanceAs (Decidable (_ ∧ _))

instance Always.decidable {P : Kernel → Prop} [DecidablePred P] : ∀ k calls, Decidable (Always P k calls)
  | k, [] => inferInstanceAs (Decidable (P k))
  | k, call :: calls =>
    have := Always.decidable (P := P) (call.next k) calls
    inferInstanceAs (Decidable (_ ∧ _))

/-- The boot task launches a process. -/
def launch : List KernelCall := [.createProcess ⟨7, true, true, true⟩]

/-- Another event is signalled, and the process runs for a while. -/
def meanwhile : List KernelCall := [.signal (.other 0), .yield allReleased, .yield allReleased]

/-- The boot task waits for its children. -/
def napping : Kernel :=
  (KernelCall.wait allReleased (some (.children bootSlot)) ((initial.run launch).sequence (.children bootSlot)) (some 5)
    0).next ((initial.run launch).run meanwhile)

lemma napping_facts : (initial.run launch).Used bootSlot ∧ ((initial.run launch).run meanwhile).Used bootSlot ∧
    (((initial.run launch).run meanwhile).tasks bootSlot).id = ((initial.run launch).tasks bootSlot).id ∧
    signalCount (.children bootSlot) (initial.run launch) meanwhile < 2 ^ 32 ∧
    Always (Sleeps · ((initial.run launch).run meanwhile).current (.children bootSlot)) napping
      [.signal (.other 0), .timerTick 3] := by
  decide +kernel

/-- The boot task sleeps through the signals of another event and a tick before its deadline. -/
theorem no_lost_wakeup_boot : signalCount (.children bootSlot) (initial.run launch) meanwhile = 0 ∧
    signalCount (.children bootSlot) napping [.signal (.other 0), .timerTick 3] = 0 := by
  obtain ⟨hu, hu', hid, hfew, hsleeps⟩ := napping_facts
  refine no_lost_wakeup.1 launch meanwhile _ allReleased (.children bootSlot) (some 5) 0 (fun i hi => ?_) hfew hsleeps
  cases hi
  exact ⟨hu, hu', hid⟩

end Kernel

end RumKernel.Process
