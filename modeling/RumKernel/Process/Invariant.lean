import RumKernel.Process.Termination

/-!
# Runs of the kernel

Every step is a sequence of acts within its scope. So the registry invariant holds in every run.
-/

namespace RumKernel.Process
open Function

namespace Kernel

variable {k k' : Kernel} {i j : TaskSlot} {s : Scope} {r : Releases}

/-! ## Roles -/

lemma runnableChild_spec {id : Nat} (hf : k.runnableChild id = some i) :
    (k.tasks i).kind = .process ∧ (k.tasks i).state = .runnable ∧ (k.tasks i).parent = k.task.id := by
  have h := List.find?_some hf
  simp only [Bool.and_eq_true, beq_iff_eq] at h
  exact ⟨h.1.2, h.2, h.1.1.2⟩

lemma Calm.markForegroundShell (id : Nat) : Calm s k (k.markForegroundShell id).2 := by
  unfold Kernel.markForegroundShell
  split
  · exact .refl k
  split
  · exact .refl k
  · rename_i i hf
    exact .act (.mark (runnableChild_spec hf).1) rfl fun h => h

lemma Calm.markShellCommand (id : Nat) (text : List UInt8) : Calm s k (k.markShellCommand id text).2 := by
  unfold Kernel.markShellCommand
  split
  · exact .refl k
  rename_i hc
  simp only [Bool.or_eq_true, not_or, Bool.not_eq_true', Bool.not_eq_false, currentIsShell, currentIsProcess,
    Bool.and_eq_true, beq_iff_eq] at hc
  split
  · exact .refl k
  · rename_i i hf
    obtain ⟨h1, h2, h3⟩ := runnableChild_spec hf
    dsimp only
    split
    · rename_i hg
      have he : (k.tasks i).state ≠ .exited := by simp [h2]
      refine .act (.grant h1 (by simp [Used, h2]) he h3 hc.1.1.1 hg) rfl fun hr => ?_
      change (update k.tasks i _ k.current).state = .running
      rcases eq_or_ne k.current i with e | hne
      · rw [← e, update_self]
        exact hr
      · rwa [update_of_ne hne]
    · exact .refl k

lemma Calm.sessionControl (recovery : Bool) : Calm s k (k.sessionControl recovery).2 := by
  unfold Kernel.sessionControl
  split
  · exact .refl k
  · exact .act .request rfl fun h => h

lemma Calm.createShellProcess (h : k.Registry) (hr : k.task.state = .running) (l : Launch) :
    Calm s k (k.createShellProcess l).2 := by
  unfold Kernel.createShellProcess
  split
  · exact .refl k
  · rename_i hc
    refine .createProcess h hr l true true fun _ => ⟨rfl, ?_⟩
    cases hk : k.task.kind with
    | kernel => rfl
    | process => exact absurd (by simp [currentIsProcess, hk]) hc

/-- The hold and handle counts of the running task play no part in the registry. -/
lemma Calm.setCounters (h : k.Registry) (hr : k.task.state = .running) (holds n : Nat) :
    Calm s k (k.setTask k.current { k.task with switchHolds := holds, handles := n }) :=
  have hw := (h.regular k.current).waits
  .setCurrent h hr ⟨rfl, rfl, rfl, rfl, .rfl⟩ rfl rfl rfl hr ⟨hw.blocked, hw.deadline⟩

lemma Calm.reaches (h : Calm s k k') (hr : k.task.state = .running) : Reaches s k k' := ⟨h.acts, h.running hr⟩

end Kernel

namespace KernelCall

open Kernel

/-- A step is the termination of the running task. -/
def Terminates (k : Kernel) (call : KernelCall) : Prop := k.current ≠ bootSlot ∧ k.current ≠ idleSlot ∧
  ∃ r termination status fault closed, call.perform k = k.terminateCurrent r termination status fault closed

/-- The tasks that a step may cancel. -/
def Cancels (k : Kernel) (call : KernelCall) (i : TaskSlot) : Prop :=
  call = cancelForeground ∧ k.Interrupts i ∨
    (∃ pid session, call = requestTermination pid session ∧ k.Demands session i) ∨
    call.Terminates k ∧ i ≠ k.current ∧ k.Abandons i

/-- The exited processes that a step may release although they are no orphans. -/
def Collects (k : Kernel) : KernelCall → TaskSlot → Prop
  | collectChild _ id, i | reapProcess _ id, i => (k.tasks i).parent = k.task.id ∧ (k.tasks i).id = id
  | reap _, i => (k.tasks i).parent = k.task.id
  | _, _ => False

/-- What a step may do to other tasks. -/
def scope (k : Kernel) (call : KernelCall) : Scope := ⟨call.Cancels k, call.Collects k⟩

variable {k : Kernel}

/-- A step that terminates the running task cancels only the tasks it abandons. -/
lemma reaches_of_terminates (h : k.Registry) (hr : k.task.state = .running) {call : KernelCall} {f : Option Fault}
    (he : call.perform k = k.terminateCurrent r termination status f closed) :
    Reaches (call.scope k) k (call.perform k) := by
  rw [he]
  exact terminateCurrent_reaches h hr _ _ _ _ fun hb hid i hi ha =>
    .inr (.inr ⟨⟨hb, hid, _, _, _, _, _, he⟩, hi, ha⟩)

/-- Every step is a sequence of acts. -/
theorem perform_reaches (h : k.Registry) (hr : k.task.state = .running) (call : KernelCall) :
    Reaches (call.scope k) k (call.perform k) := by
  cases call with
  | create owned l => exact (Calm.create h hr owned l).reaches hr
  | createProcess l => exact (Calm.createProcess h hr l false false nofun).reaches hr
  | createForegroundProcess l => exact (Calm.createProcess h hr l true false nofun).reaches hr
  | createShellProcess l => exact (Calm.createShellProcess h hr l).reaches hr
  | markForegroundShell id => exact (Calm.markForegroundShell id).reaches hr
  | markShellCommand id text => exact (Calm.markShellCommand id text).reaches hr
  | sessionControl recovery => exact (Calm.sessionControl recovery).reaches hr
  | switchHold =>
    change Reaches _ k (if _ then _ else _)
    split
    · exact (Calm.setCounters h hr _ _).reaches hr
    · exact ⟨.refl, hr⟩
  | switchRelease =>
    change Reaches _ k (if _ then _ else _)
    split
    · exact ⟨.refl, hr⟩
    · exact (Calm.setCounters h hr _ _).reaches hr
  | handles n =>
    change Reaches _ k (if _ then _ else _)
    split
    · exact (Calm.setCounters h hr _ _).reaches hr
    · exact ⟨.refl, hr⟩
  | operation active =>
    change Reaches _ k (if _ then _ else _)
    split
    · exact ⟨.refl, hr⟩
    · exact ⟨.single (@Act.environment _ k k.sequence _), hr⟩
  | yield r => exact yield_reaches h hr
  | idle r => exact idle_reaches h hr
  | wait r event observed duration now => exact wait_reaches h hr event observed duration now
  | signal e => exact (Calm.signal h e).reaches hr
  | notifyShellInput => exact (Calm.notifyShellInput h).reaches hr
  | timerTick now => exact (Calm.timerTick h hr now).reaches hr
  | cancelForeground =>
    exact (Calm.cancelForeground (s := scope k cancelForeground) h fun _ hi => .inl ⟨rfl, hi⟩).reaches hr
  | requestTermination pid session =>
    exact (Calm.requestTermination (s := scope k (requestTermination pid session)) pid session
      fun _ hi => .inr (.inl ⟨pid, session, rfl, hi⟩)).reaches hr
  | exit r status closed => exact reaches_of_terminates h hr rfl
  | fault r f closed =>
    by_cases hc : k.currentIsProcess = true
    · exact reaches_of_terminates h hr (if_pos hc)
    · rw [show perform k (fault r f closed) = k.halt from if_neg hc]
      exact ⟨.single .halt, hr⟩
  | cancelCurrentIfRequested r closed =>
    by_cases hc : k.currentCancelled = true
    · exact reaches_of_terminates h hr (if_pos hc)
    · rw [show perform k (cancelCurrentIfRequested r closed) = k from if_neg hc]
      exact ⟨.refl, hr⟩
  | exitShellIfRequested r closed =>
    have he : perform k (exitShellIfRequested r closed) = k.exitShellIfRequested r closed := rfl
    unfold Kernel.exitShellIfRequested at he
    split at he
    · rw [he]
      exact ⟨.refl, hr⟩
    split at he
    · exact reaches_of_terminates h hr he
    · rw [he]
      exact ⟨.refl, hr⟩
  | onUserReturn r closed =>
    have he : perform k (onUserReturn r closed) = k.onUserReturn r closed := rfl
    unfold Kernel.onUserReturn at he
    split at he
    · rw [he]
      exact ⟨.single .halt, hr⟩
    split at he
    · exact reaches_of_terminates h hr he
    split at he
    · rw [he]
      exact preempt_reaches h hr
    · rw [he]
      exact ⟨.refl, hr⟩
  | foregroundEnd id => exact (Calm.foregroundEnd id).1.reaches hr
  | collectChild r id =>
    exact (Calm.collectChild (s := scope k (collectChild r id)) id fun _ h1 h2 => ⟨h1, h2⟩).reaches hr
  | reapProcess r id => exact (Calm.reapProcess (s := scope k (reapProcess r id)) id fun _ h1 h2 => ⟨h1, h2⟩).reaches hr
  | reap r => exact (Calm.reapExited h true fun _ _ hi => hi).reaches hr

end KernelCall

namespace Kernel

/-- The state between two steps. -/
structure Ready (k : Kernel) : Prop where
  registry : k.Registry
  running : k.task.state = .running

lemma initial_registry : initial.Registry where
  console := .empty
  boot := by decide
  idle := by decide
  fixed := by decide
  running := by decide
  regular := by
    have : ∀ i, (initial.tasks i).waiting = none ∧ (initial.tasks i).deadlineActive = false ∧
        (initial.tasks i).deadline = 0 ∧
        (initial.tasks i).state ≠ .blocked ∧ ((initial.tasks i).state = .unused → initial.tasks i = {}) ∧
        ((initial.tasks i).state ≠ .unused → 0 < (initial.tasks i).id) ∧ (initial.tasks i).kind = .kernel ∧
        (initial.tasks i).processId = 0 ∧ (initial.tasks i).parent = 0 ∧
          (initial.tasks i).cancellationRequested = false ∧
        (initial.tasks i).orphaned = false := by decide
    intro i
    obtain ⟨h1, h2, h3, h4, h5, h6, h7, h8, h9, h10, h11⟩ := this i
    refine ⟨⟨?_, fun h => absurd h3 h⟩, h5, h6, fun _ => ⟨h8, h9, h10, h11⟩, fun h => ?_, fun h => ?_⟩
    · simp [h1, h2, h4]
    · cases h7.symm.trans h
    · cases h11.symm.trans h
  matched i := by
    have h : (initial.tasks i).kind = .kernel := by
      revert i
      decide
    exact ⟨fun _ => rfl, fun hp => (nomatch h.symm.trans hp), fun hp => (nomatch h.symm.trans hp),
      fun hp => (nomatch h.symm.trans hp)⟩
  bound := by decide
  issued := by decide
  ids := by decide
  issuedProcess := by decide
  processIds := by decide
  spaces := by
    have h : ∀ i, (initial.tasks i).space = none := by decide
    intro i j a _ _ hi
    cases (h i).symm.trans hi
  parents := by
    have h : ∀ i, (initial.tasks i).kind = .kernel := by decide
    intro i _ hp
    cases (h i).symm.trans hp
  others := by decide

variable {k k' : Kernel} {i j : TaskSlot}

lemma Ready.next (h : k.Ready) (call : KernelCall) : (call.next k).Ready := by
  unfold KernelCall.next
  split
  · exact h
  · have hp := KernelCall.perform_reaches h.registry h.running call
    exact ⟨hp.acts.registry h.registry, hp.running⟩

lemma Ready.run (h : k.Ready) (calls : List KernelCall) : (k.run calls).Ready := by
  induction calls generalizing k with
  | nil => exact h
  | cons call calls ih => exact ih (h.next call)

/-- The record of a new process. -/
abbrev newTask (k : Kernel) (space : Nat) : Task :=
  { id := k.nextId, state := .runnable, processId := k.nextProcessId, parent := k.task.id, kind := .process,
    space := some space, ownsSpace := true, handles := 3 }

lemma tasks_publish {space : Nat} {foreground shell : Bool} :
    (k.publish i space foreground shell).tasks = update k.tasks i (k.newTask space) ∧
      (k.publish i space foreground shell).nextId = (k.nextId + 1) % 2 ^ 32 := by
  cases shell <;> exact ⟨rfl, rfl⟩

lemma Ready.run_keeps {I : Kernel → Prop} (hact : ∀ {s : Scope} {k k' : Kernel}, I k → k.Registry → Act s k k' → I k')
    (h : I k) (hready : k.Ready) (calls : List KernelCall) : I (k.run calls) := by
  induction calls generalizing k with
  | nil => exact h
  | cons call calls ih =>
    refine ih ?_ (hready.next call)
    unfold KernelCall.next
    split
    · exact h
    · obtain ⟨hacts, -⟩ := KernelCall.perform_reaches hready.registry hready.running call
      clear ih
      generalize call.perform k = k' at hacts
      induction hacts with
      | refl => exact h
      | tail hacts ha ih => exact hact ih (Acts.registry hacts hready.registry) ha

lemma initial_ready : initial.Ready := ⟨initial_registry, rfl⟩

lemma ready (calls : List KernelCall) : (initial.run calls).Ready := initial_ready.run calls

/-- **The task registry.** In every state that a run of steps reaches exactly the current task is running; wait
registrations belong to the blocked tasks; the ids of used slots are distinct values that the counter has had, but for
the two fixed tasks, and so are the process ids; no private space has two owners; the parent of a process is a used task
that has not exited; and an orphan is cancelled and belongs to the boot task. -/
theorem registry_invariant (calls : List KernelCall) :
    let k := initial.run calls
    (∀ i, (k.tasks i).state = .running ↔ i = k.current) ∧
    (∀ i, ((k.tasks i).waiting.isSome = true ∨ (k.tasks i).deadlineActive = true ↔ (k.tasks i).state = .blocked) ∧
      ((k.tasks i).deadline ≠ 0 → (k.tasks i).deadlineActive = true)) ∧
    (∀ i, k.Used i → (k.tasks i).id ≠ 0 ∧ (k.tasks i).id < 2 ^ 32 ∧ (k.nextId = 0 ∨ (k.tasks i).id < k.nextId) ∧
      (i = bootSlot ∧ (k.tasks i).id = 1 ∨ i = idleSlot ∧ (k.tasks i).id = 2 ∨ 3 ≤ (k.tasks i).id)) ∧
    (∀ i j, k.Used i → k.Used j → (k.tasks i).id = (k.tasks j).id → i = j) ∧
    (∀ i, k.Used i → ((k.tasks i).kind = .process ↔ 0 < (k.tasks i).processId) ∧
      (k.tasks i).processId < k.nextProcessId) ∧
    (∀ i j, 0 < (k.tasks i).processId → (k.tasks i).processId = (k.tasks j).processId → i = j) ∧
    (∀ i j a, k.Used i → k.Used j → (k.tasks i).space = some a → (k.tasks j).space = some a → i = j) ∧
    (∀ i, k.Used i → (k.tasks i).kind = .process →
      ∃ j, k.Used j ∧ (k.tasks j).state ≠ .exited ∧ (k.tasks j).id = (k.tasks i).parent) ∧
    (∀ i, (k.tasks i).orphaned = true →
      (k.tasks i).cancellationRequested = true ∧ (k.tasks i).parent = (k.tasks bootSlot).id) := by
  intro k
  obtain ⟨h, hr⟩ := ready calls
  refine ⟨fun i => ⟨h.running, ?_⟩, fun i => ⟨(h.regular i).waits.blocked, (h.regular i).waits.deadline⟩,
    fun i hi => ?_,
    fun i j => h.ids, fun i hi => ⟨⟨(h.regular i).process, fun hp => ?_⟩, h.issuedProcess hi⟩, fun i j => h.processIds,
    fun i j a => h.spaces, fun i => h.parents, fun i ho => ?_⟩
  · rintro rfl
    exact hr
  · refine ⟨((h.regular i).id hi).ne', (h.issued hi).1, (h.issued hi).2, ?_⟩
    by_cases hb : i = bootSlot
    · exact .inl ⟨hb, hb ▸ h.boot.1⟩
    by_cases hid : i = idleSlot
    · exact .inr (.inl ⟨hid, hid ▸ h.idle.1⟩)
    have hne1 : (k.tasks i).id ≠ 1 := fun e => hb (h.ids hi h.boot.2.2.1 (e.trans h.boot.1.symm))
    have hui : k.Used idleSlot := fun e => by
      rcases h.idle.2.2 with e' | e' <;> cases e.symm.trans e'
    have hne2 : (k.tasks i).id ≠ 2 := fun e => hid (h.ids hi hui (e.trans h.idle.1.symm))
    have hpos : 0 < (k.tasks i).id := (h.regular i).id hi
    exact .inr (.inr (by omega))
  · cases hk : (k.tasks i).kind with
    | process => rfl
    | kernel =>
      rw [((h.regular i).kernel hk).1] at hp
      cases hp
  · rw [h.boot.1]
    exact (h.regular i).orphan ho

end Kernel

end RumKernel.Process
