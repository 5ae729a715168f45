import RumKernel.Process.Registry

/-!
# Steps are acts

Every step of the kernel is a sequence of acts, and behind every step the running task is `TASK_RUNNING`.
-/

namespace RumKernel.Process
open Function

namespace Task

variable {t t' : Task}

lemma Quiet.wake (hb : t.state = .blocked) (reason : WaitResult) : t.Quiet (t.wake reason) where
  id := rfl
  processId := rfl
  kind := rfl
  space := rfl
  used := iff_of_false nofun (by simp [hb])
  parent := rfl
  cancellationRequested := rfl
  orphaned := rfl
  exited := iff_of_false nofun (by simp [hb])
  result h := nomatch h.symm.trans hb
  running := nofun
  waits := ⟨by simp [Task.wake, clearWait], fun h => absurd rfl h⟩

lemma Quiet.block (hr : t.state = .running) {event : Option Event} {duration : Option Nat}
    (h : event.isSome = true ∨ duration.isSome = true) (now : Nat) : t.Quiet (t.block event duration now) where
  id := rfl
  processId := rfl
  kind := rfl
  space := rfl
  used := iff_of_false nofun (by simp [hr])
  parent := rfl
  cancellationRequested := rfl
  orphaned := rfl
  exited := iff_of_false nofun (by simp [hr])
  result h := nomatch h.symm.trans hr
  running := nofun
  waits := by
    refine ⟨iff_of_true h rfl, fun hd => ?_⟩
    cases duration with
    | none => exact absurd rfl hd
    | some d => rfl

lemma id_stop (t : Task) : t.stop.id = t.id := by
  unfold stop
  dsimp only
  split <;> rfl

lemma parent_stop (t : Task) : t.stop.parent = t.parent := by
  unfold stop
  dsimp only
  split <;> rfl

lemma orphaned_stop (t : Task) : t.stop.orphaned = t.orphaned := by
  unfold stop
  dsimp only
  split <;> rfl

lemma kind_stop (t : Task) : t.stop.kind = t.kind := by
  unfold stop
  dsimp only
  split <;> rfl

lemma unused_stop (t : Task) : t.stop.state = .unused ↔ t.state = .unused := by
  unfold stop
  dsimp only
  split
  · rename_i hb
    exact iff_of_false nofun (by simp [hb])
  · rfl

end Task

namespace Kernel

variable {k k' : Kernel} {i j : TaskSlot} {s : Scope} {r : Releases}

lemma Acts.registry (h : Acts s k k') (hk : k.Registry) : k'.Registry := by
  induction h with
  | refl => exact hk
  | tail _ ha ih => exact ih.act ha

lemma Act.setTask (h : k.Registry) {t : Task} (hu : k.Used i) (hq : (k.tasks i).Quiet t)
    (hidle : i = idleSlot → t.state = .runnable ∨ t.state = .running) : Act s k (k.setTask i t) := by
  refine .quiet (f := update k.tasks i t) (fun j => ?_) ?_
  · rcases eq_or_ne j i with rfl | hne
    · rw [update_self]
      exact .inr ⟨hu, hq⟩
    · rw [update_of_ne hne]
      exact .inl rfl
  · rcases eq_or_ne idleSlot i with e | hne
    · rw [← e, update_self]
      exact hidle e.symm
    · rw [update_of_ne hne]
      exact h.idle.2.2

/-- Acts behind which the same task runs. -/
structure Calm (s : Scope) (k k' : Kernel) : Prop where
  acts : Acts s k k'
  current : k'.current = k.current
  running : k.task.state = .running → k'.task.state = .running

namespace Calm

lemma refl (k : Kernel) : Calm s k k := ⟨.refl, rfl, id⟩

lemma trans {k'' : Kernel} (h : Calm s k k') (h' : Calm s k' k'') : Calm s k k'' :=
  ⟨h.acts.trans h'.acts, h'.current.trans h.current, fun hr => h'.running (h.running hr)⟩

lemma act (h : Act s k k') (hc : k'.current = k.current)
    (hr : (k.tasks k.current).state = .running → (k'.tasks k.current).state = .running) : Calm s k k' := by
  refine ⟨.single h, hc, fun hrun => ?_⟩
  unfold task
  rw [hc]
  exact hr hrun

lemma registry (h : Calm s k k') (hk : k.Registry) : k'.Registry := h.acts.registry hk

lemma foldl {f : Kernel → TaskSlot → Kernel} {P : Kernel → Prop}
    (hf : ∀ k i, i ∈ userSlots → k.Registry → P k → Calm s k (f k i) ∧ P (f k i)) {l : List TaskSlot}
    (hl : ∀ i ∈ l, i ∈ userSlots) (h : k.Registry) (hP : P k) : Calm s k (l.foldl f k) ∧ P (l.foldl f k) := by
  induction l generalizing k with
  | nil => exact ⟨.refl k, hP⟩
  | cons i l ih =>
    obtain ⟨h1, h2⟩ := hf k i (hl i List.mem_cons_self) h hP
    obtain ⟨h3, h4⟩ := ih (fun j hj => hl j (List.mem_cons_of_mem i hj)) (h1.registry h) h2
    exact ⟨h1.trans h3, h4⟩

/-! ## Events -/

section
variable (h : k.Registry)
include h

lemma wakeAll (p : Task → Bool) (reason : WaitResult) : Calm s k (k.wakeAll p reason) := by
  have hwoken : ∀ i, (k.wakeAll p reason).tasks i = k.tasks i ∨
      (k.tasks i).state = .blocked ∧ (k.wakeAll p reason).tasks i = (k.tasks i).wake reason := fun i => by
    change (if _ then _ else _) = _ ∨ _ ∧ (if _ then _ else _) = _
    split
    · rename_i hc
      simp only [Bool.and_eq_true, decide_eq_true_eq] at hc
      exact .inr ⟨hc.1, rfl⟩
    · exact .inl rfl
  have hsame : ∀ {i}, (k.tasks i).state ≠ .blocked → (k.wakeAll p reason).tasks i = k.tasks i :=
    fun {i} hb => (hwoken i).resolve_right fun h => hb h.1
  refine .act (.quiet (f := (k.wakeAll p reason).tasks) (fun i => ?_) ?_) rfl ?_
  · refine (hwoken i).imp_right fun ⟨hb, e⟩ => ⟨by simp [Used, hb], ?_⟩
    rw [e]
    exact .wake hb reason
  · rw [hsame]
    · exact h.idle.2.2
    · rcases h.idle.2.2 with e | e <;> simp [e]
  · intro hr
    rw [hsame]
    · exact hr
    · simp [hr]

lemma signal (e : Event) : Calm s k (k.signal e) := by
  have h1 : Calm s k { k with sequence := update k.sequence e ((k.sequence e + 1) % 2 ^ 32) } :=
    .act (@Act.environment s k _ k.operation) rfl id
  exact h1.trans (.wakeAll (h1.registry h) _ _)

lemma notifyShellInput : Calm s k k.notifyShellInput := by
  refine (foldl (P := fun _ => True) (fun k i _ h _ => ⟨?_, trivial⟩) (fun _ => id) h trivial).1
  split
  · exact .signal h _
  · exact .refl k

lemma setTask {t : Task} (hu : k.Used i) (hq : (k.tasks i).Quiet t)
    (hidle : i = idleSlot → t.state = .runnable ∨ t.state = .running)
    (hr : i = k.current → (k.tasks i).state = .running → t.state = .running) : Calm s k (k.setTask i t) := by
  refine .act (.setTask h hu hq hidle) rfl fun hrun => ?_
  change (update k.tasks i t k.current).state = .running
  rcases eq_or_ne k.current i with e | hne
  · rw [e, update_self]
    exact hr e.symm (e ▸ hrun)
  · rwa [update_of_ne hne]

lemma setCurrent (hr : k.task.state = .running) {t : Task} (hs : k.task.Same t) (hp : t.parent = k.task.parent)
    (hc : t.cancellationRequested = k.task.cancellationRequested) (ho : t.orphaned = k.task.orphaned)
    (hst : t.state = .running) (hw : t.Waits) : Calm s k (k.setTask k.current t) := by
  have hr : (k.tasks k.current).state = .running := hr
  refine .setTask h (by simp [Used, hr]) ⟨hs, hp, hc, ho, ?_, ?_, fun _ => hr, hw⟩ (fun _ => .inr hst) fun _ _ => hst
  · rw [hst, hr]
  · rw [hr]
    rintro ⟨⟩

lemma timerTick (hr : k.task.state = .running) (now : Nat) : Calm s k (k.timerTick now) := by
  unfold Kernel.timerTick
  have h1 := wakeAll (s := s) h (fun t => t.deadlineActive && deadlineReached now t.deadline) .timeout
  set k1 := k.wakeAll (fun t => t.deadlineActive && deadlineReached now t.deadline) .timeout
  have hreg := h1.registry h
  have hw := (hreg.regular k1.current).waits
  dsimp only
  split
  · exact h1
  · exact h1.trans (.setCurrent hreg (h1.running hr) ⟨rfl, rfl, rfl, rfl, .rfl⟩ rfl rfl rfl (h1.running hr)
      ⟨hw.blocked, hw.deadline⟩)

end

/-! ## Release -/

lemma tasks_reapSlot (k : Kernel) (r : Releases) (i : TaskSlot) : (k.reapSlot r i).2 = k ∨
    i ≠ k.current ∧ (k.reapSlot r i).2.tasks = update k.tasks i {} ∧ (k.reapSlot r i).2.current = k.current := by
  unfold Kernel.reapSlot
  split
  · rename_i hc
    simp only [reapable, Bool.and_eq_true, bne_iff_ne, ne_eq] at hc
    exact .inr ⟨hc.1.1.1.1.1.1.1.1.1.2, rfl, rfl⟩
  · exact .inl rfl

lemma reapSlot (hi : i ∈ userSlots) (ho : (k.tasks i).kind = .process → (k.tasks i).orphaned = true ∨ s.collects i) :
    Calm s k (k.reapSlot r i).2 := by
  unfold Kernel.reapSlot
  split
  · rename_i hc
    simp only [reapable, Bool.and_eq_true, beq_iff_eq, bne_iff_ne, ne_eq] at hc
    obtain ⟨⟨⟨⟨⟨⟨⟨⟨⟨⟨he, hne⟩, -⟩, -⟩, -⟩, -⟩, -⟩, -⟩, -⟩, -⟩, -⟩ := hc
    refine .act (.reap hi he hne ho) rfl fun hr => ?_
    change (update k.tasks i {} k.current).state = .running
    rwa [update_of_ne (Ne.symm hne)]
  · exact .refl k

lemma reapExited (h : k.Registry) (processes : Bool)
    (hc : processes = true → ∀ i, (k.tasks i).parent = k.task.id → s.collects i) :
        Calm s k (k.reapExited r processes) := by
  -- a slot is as it was or is clear, and the running task is as it was
  refine (foldl (P := fun k' => (∀ j, k'.tasks j = k.tasks j ∨ k'.tasks j = {}) ∧ k'.task = k.task)
    (fun k' i hi _ ⟨h1, h2⟩ => ?_) (fun _ => id) h ⟨fun j => .inl rfl, rfl⟩).1
  split
  · rename_i hd
    simp only [discards, Bool.and_eq_true, Bool.or_eq_true, bne_iff_ne, ne_eq, beq_iff_eq] at hd
    obtain ⟨hu, hd⟩ := hd
    have hsame : k'.tasks i = k.tasks i := (h1 i).resolve_right fun e => hu (by rw [e])
    refine ⟨.reapSlot hi fun hp => ?_, ?_⟩
    · rcases hd with (hd | hd) | ⟨hd, hpar⟩
      · exact absurd hp hd
      · exact .inl hd
      · refine .inr (hc hd i ?_)
        rw [← hsame, ← h2]
        exact hpar
    · rcases tasks_reapSlot k' r i with e | ⟨hne, e, ec⟩
      · rw [e]
        exact ⟨h1, h2⟩
      · refine ⟨fun j => ?_, ?_⟩
        · rcases eq_or_ne j i with rfl | hj
          · rw [e, update_self]
            exact .inr rfl
          · rw [e, update_of_ne hj]
            exact h1 j
        · unfold task at h2 ⊢
          rw [e, ec, update_of_ne (Ne.symm hne)]
          exact h2
  · exact ⟨.refl k', h1, h2⟩

lemma reapProcess (id : Nat) (hc : ∀ i, (k.tasks i).parent = k.task.id → (k.tasks i).id = id → s.collects i) :
    Calm s k (k.reapProcess r id).2 := by
  unfold Kernel.reapProcess
  split
  · exact .refl k
  split
  · exact .refl k
  · rename_i i hf
    have hp := List.find?_some hf
    simp only [Bool.and_eq_true, beq_iff_eq] at hp
    exact .reapSlot (List.mem_of_find?_eq_some hf) fun _ => .inr (hc i hp.2 hp.1.1)

lemma foregroundEnd (id : Nat) : Calm s k (k.foregroundEnd id).2 ∧ (k.foregroundEnd id).2.tasks = k.tasks ∧
    (k.foregroundEnd id).2.current = k.current := by
  unfold Kernel.foregroundEnd
  split
  · exact ⟨.refl k, rfl, rfl⟩
  split
  · exact ⟨.refl k, rfl, rfl⟩
  · rename_i i hf
    have hp := List.find?_some hf
    simp only [Bool.and_eq_true, beq_iff_eq] at hp
    exact ⟨.act (.endForeground hp.1.1.1.2) rfl fun h => h, rfl, rfl⟩

lemma collectChild (id : Nat) (hc : ∀ i, (k.tasks i).parent = k.task.id → (k.tasks i).id = id → s.collects i) :
    Calm s k (k.collectChild r id).2 := by
  unfold Kernel.collectChild
  split
  · exact .refl k
  split
  · exact .refl k
  split
  · dsimp only
    split
    · obtain ⟨h1, h2, h3⟩ := foregroundEnd (s := s) (k := k) id
      refine h1.trans (.reapProcess id ?_)
      unfold task
      rw [h2, h3]
      exact hc
    · exact .refl k
  · exact .reapProcess id hc

end Calm

/-! ## Scheduling -/

/-- Acts behind which a task runs. -/
structure Reaches (s : Scope) (k k' : Kernel) : Prop where
  acts : Acts s k k'
  running : k'.task.state = .running

lemma runnable_successor (hidle : (k.tasks idleSlot).state = .runnable) (index : TaskSlot) :
    (k.tasks (k.successor index)).state = .runnable := by
  unfold successor
  cases hf : ((List.finRange 18).map fun offset => index + offset + 1).find? fun candidate =>
    candidate != idleSlot && (k.tasks candidate).state == .runnable with
  | none => exact hidle
  | some n =>
    have := List.find?_some hf
    simp only [Bool.and_eq_true, beq_iff_eq] at this
    exact this.2

lemma quiet_preempt {t : Task} (hw : t.Waits) (hu : t.state ≠ .unused) :
    t.Quiet { t with state := if t.state = .running then .runnable else t.state, reschedule := false } := by
  by_cases hr : t.state = .running
  · simp only [hr, if_true]
    exact ⟨⟨rfl, rfl, rfl, rfl, iff_of_false nofun hu⟩, rfl, rfl, rfl, iff_of_false nofun (by simp [hr]),
      fun h => (nomatch h.symm.trans hr), nofun, ⟨hw.blocked.trans (iff_of_false (by simp [hr]) nofun), hw.deadline⟩⟩
  · simp only [hr, if_false]
    exact ⟨⟨rfl, rfl, rfl, rfl, .rfl⟩, rfl, rfl, rfl, .rfl, fun _ => ⟨rfl, rfl, rfl⟩, id, ⟨hw.blocked, hw.deadline⟩⟩

lemma schedule_reaches (h : k.Registry) (hu : k.Used k.current) (hp : k.switchProtected = false) :
    Reaches s k (k.schedule r) := by
  unfold schedule
  rw [hp, if_neg (by decide)]
  dsimp only
  set t : Task :=
    { k.task with state := if k.task.state = .running then .runnable else k.task.state, reschedule := false }
  have hq : (k.tasks k.current).Quiet t := quiet_preempt (h.regular k.current).waits hu
  have hnr : t.state ≠ .running := by
    change (if k.task.state = .running then TaskState.runnable else k.task.state) ≠ .running
    split
    · exact nofun
    · assumption
  have ha : Act s k (k.setTask k.current t) := by
    refine .setTask h hu hq fun e => .inl ?_
    change (if k.task.state = .running then TaskState.runnable else k.task.state) = .runnable
    have := h.idle.2.2
    rw [← e] at this
    split
    · rfl
    · exact this.resolve_right ‹_›
  have h1 := h.act ha
  have hnone : ∀ j, ((k.setTask k.current t).tasks j).state ≠ .running := fun j hj => by
    obtain rfl := h1.running hj
    rw [show (k.setTask k.current t).tasks (k.setTask k.current t).current = t from update_self ..] at hj
    exact hnr hj
  have hrun := runnable_successor (h1.idle.2.2.resolve_right (hnone idleSlot)) k.current
  set next := (k.setTask k.current t).successor k.current
  have hd : Act s (k.setTask k.current t) ((k.setTask k.current t).dispatch next) := .dispatch hnone hrun
  have hdr : ((k.setTask k.current t).dispatch next).task.state = .running := by
    change (update (k.setTask k.current t).tasks next _ next).state = .running
    rw [update_self]
  split
  · exact ⟨.tail (.single ha) hd, hdr⟩
  · have hc := Calm.reapExited (s := s) (r := r) (h1.act hd) false nofun
    exact ⟨(Relation.ReflTransGen.tail (.single ha) hd).trans hc.acts, hc.running hdr⟩

lemma used_current (hr : k.task.state = .running) : k.Used k.current := fun e => nomatch hr.symm.trans e

section
variable (h : k.Registry)
include h

lemma preempt_reaches (hr : k.task.state = .running) : Reaches s k (k.schedule r) := by
  cases hp : k.switchProtected with
  | false => exact schedule_reaches h (used_current hr) hp
  | true =>
    have he : k.schedule r = k.halt := by
      unfold schedule
      rw [hp, if_pos rfl]
    rw [he]
    exact ⟨.single .halt, hr⟩

lemma suspend_reaches {t : Task} (hq : k.task.Quiet t) (hu : k.Used k.current)
    (hidle : k.current = idleSlot → t.state = .runnable ∨ t.state = .running) (hh : t.switchHolds = k.task.switchHolds)
    (hp : k.switchProtected = false) : Reaches s k ((k.setTask k.current t).schedule r) := by
  have ha : Act s k (k.setTask k.current t) := .setTask h hu hq hidle
  have hself : (k.setTask k.current t).task = t := update_self ..
  have h1 : Reaches s (k.setTask k.current t) ((k.setTask k.current t).schedule r) := by
    refine schedule_reaches (h.act ha) ?_ ?_
    · change (k.setTask k.current t).task.state ≠ .unused
      rw [hself]
      exact mt hq.used.mp hu
    · unfold switchProtected at hp ⊢
      rw [hself, hh]
      exact hp
  exact ⟨(Relation.ReflTransGen.single ha).trans h1.acts, h1.running⟩

lemma yield_reaches (hr : k.task.state = .running) : Reaches s k (k.yield r).2 := by
  unfold Kernel.yield
  split
  · exact ⟨.refl, hr⟩
  · rename_i hc
    simp only [Bool.or_eq_true, decide_eq_true_eq, not_or, Bool.not_eq_true] at hc
    have hw := (h.regular k.current).waits
    refine suspend_reaches h ⟨⟨rfl, rfl, rfl, rfl, iff_of_false nofun (used_current hr)⟩, rfl, rfl, rfl,
      iff_of_false nofun fun e => (nomatch hr.symm.trans e), fun e => (nomatch hr.symm.trans e), nofun, ?_, hw.deadline⟩
      (used_current hr) (fun e => absurd e hc.1) rfl hc.2
    exact hw.blocked.trans (iff_of_false (fun e => nomatch hr.symm.trans e) nofun)

lemma idle_reaches (hr : k.task.state = .running) : Reaches s k (k.idle r) := by
  unfold Kernel.idle
  split
  · have hc := Calm.reapExited (s := s) (r := r) h false nofun
    dsimp only
    split
    · have h1 : Reaches s _ ((k.reapExited r false).schedule r) := preempt_reaches (hc.registry h) (hc.running hr)
      exact ⟨hc.acts.trans h1.acts, h1.running⟩
    · exact ⟨hc.acts, hc.running hr⟩
  · exact ⟨.refl, hr⟩

lemma wait_reaches (hr : k.task.state = .running) (event : Option Event) (observed : Nat)
    (duration : Option Nat) (now : Nat) : Reaches s k (k.wait r event observed duration now).2 := by
  unfold Kernel.wait
  split
  · exact ⟨.refl, hr⟩
  · rename_i hw
    unfold waitResult at hw
    split at hw
    · cases hw
    rename_i hc
    simp only [Bool.or_eq_true, Bool.and_eq_true, Option.isNone_iff_eq_none, beq_iff_eq, not_or, not_and,
      Bool.not_eq_true] at hc
    obtain ⟨⟨⟨hsome, hidle⟩, hp⟩, -⟩ := hc
    refine suspend_reaches h (.block hr ?_ now) (used_current hr) (fun e => absurd e hidle) rfl hp
    cases event with
    | some e => exact .inl rfl
    | none => exact .inr (Option.isSome_iff_ne_none.mpr (hsome rfl))

end

/-! ## Publication -/

lemma availableSlot_spec (h : k.Registry) {space : Option Nat} (ha : k.availableSlot space = some i) :
    i ∈ userSlots ∧ (k.tasks i).state = .unused ∧ ∀ a, space = some a → k.Spare a := by
  unfold availableSlot at ha
  split at ha
  · cases ha
  · rename_i hany
    refine ⟨List.mem_of_find?_eq_some ha, by simpa using List.find?_some ha, ?_⟩
    rintro a rfl j hj hja
    simp only [List.any_eq_true, Option.isSome_some, Bool.true_and, Bool.and_eq_true, bne_iff_ne, ne_eq, beq_iff_eq,
      not_exists, not_and] at hany
    refine hany j (mem_userSlots.mpr ⟨?_, ?_⟩) hj hja
    · rintro rfl
      cases hja.symm.trans h.fixed.1
    · rintro rfl
      cases hja.symm.trans h.fixed.2

lemma Calm.create (h : k.Registry) (hr : k.task.state = .running) (owned : Option Nat) (l : Launch) :
    Calm s k (k.create owned l).2 := by
  unfold Kernel.create
  split
  · exact .refl k
  rename_i hc
  split
  · exact .refl k
  rename_i slot hs
  split
  · exact .refl k
  · obtain ⟨h1, h2, h3⟩ := availableSlot_spec h hs
    simp only [Bool.or_eq_true, decide_eq_true_eq, not_or] at hc
    refine .act (.create h1 h2 hc.1 h3) rfl fun hrun => ?_
    change (update k.tasks slot _ k.current).state = .running
    rw [update_of_ne]
    · exact hrun
    · rintro rfl
      cases hr.symm.trans h2

lemma Calm.createProcess (h : k.Registry) (hr : k.task.state = .running) (l : Launch) (foreground shell : Bool)
    (hsh : shell = true → foreground = true ∧ k.task.kind = .kernel) :
        Calm s k (k.createProcess l foreground shell).2 := by
  unfold Kernel.createProcess
  split
  · exact .refl k
  rename_i hc
  split
  · exact .refl k
  rename_i slot hs
  split
  · exact .refl k
  · obtain ⟨h1, h2, h3⟩ := availableSlot_spec h hs
    simp only [Bool.or_eq_true, decide_eq_true_eq, not_or, Bool.not_eq_true', Bool.not_eq_false] at hc
    refine .act (.publish h1 h2 hc.1.1.1.1.1 (h3 _ rfl) hr hc.1.1.2 hsh) ?_ fun hrun => ?_
    · cases shell <;> rfl
    · have ht : (k.publish slot l.space foreground shell).tasks k.current = k.tasks k.current := by
        cases shell <;> exact update_of_ne (by rintro rfl; cases hr.symm.trans h2) ..
      rw [ht]
      exact hrun

end Kernel

end RumKernel.Process
