import RumKernel.Process.Cancellation

/-!
# Completions

An exited process leaves its result in its slot. Acts leave the result alone until one of them releases the slot, and
the ids of a released process come back in no slot. So a result is there, unchanged, until the one step that takes it.
-/

namespace RumKernel.Process
open Function

/-- Who a task is and how it ended. -/
def Task.completion (t : Task) : Nat × Nat × TaskKind × Termination × Int × Fault :=
  (t.id, t.processId, t.kind, t.termination, t.exitStatus, t.fault)

/-- The record of an exited task still holds its result. -/
def Task.Keeps (t t' : Task) : Prop := t'.state = .exited ∧ t'.completion = t.completion

namespace Kernel

variable {k k' : Kernel} {i j : TaskSlot} {s : Scope} {n p : Nat}

/-! ## The result in a slot -/

/-- A step may release the slot of an exited process: its parent collects it, it is an orphan, or it becomes one because
the running task, from which it descends, terminates. -/
def Discharges (k : Kernel) (call : KernelCall) (i : TaskSlot) : Prop :=
  call.Collects k i ∨ (k.tasks i).orphaned = true ∨ call.Terminates k ∧ k.Abandons i

/-- What an act may write into the slot of an exited task: the same result, and an orphan only if it cancels. -/
def Leaves (s : Scope) (i : TaskSlot) (t t' : Task) : Prop :=
  t.Keeps t' ∧ (t'.orphaned = true → t.orphaned = true ∨ s.cancels i)

lemma keeps_stop {t : Task} (he : t.state = .exited) : t.Keeps t.stop := by
  unfold Task.stop
  rw [if_neg (by simp [he])]
  exact ⟨he, rfl⟩

lemma Act.keeps (h : Act s k k') (he : (k.tasks i).state = .exited) : Leaves s i (k.tasks i) (k'.tasks i) ∨
    k'.tasks i = {} ∧ ((k.tasks i).kind = .process → (k.tasks i).orphaned = true ∨ s.collects i) := by
  have hsame : k'.tasks i = k.tasks i → Leaves s i (k.tasks i) (k'.tasks i) := fun e => by
    rw [e]
    exact ⟨⟨he, rfl⟩, .inl⟩
  -- an act writes one slot; what it writes there matters only if the slot is this one
  have hset : ∀ {j : TaskSlot} {t : Task}, k'.tasks = update k.tasks j t →
      (i = j → Leaves s i (k.tasks i) t) → Leaves s i (k.tasks i) (k'.tasks i) := fun {j t} e hw => by
    rcases eq_or_ne i j with rfl | hne
    · rw [e, update_self]
      exact hw rfl
    · exact hsame (by rw [e, update_of_ne hne])
  have hclash : ∀ {j : TaskSlot} {st : TaskState}, (k.tasks j).state = st → st ≠ .exited → i ≠ j := by
    rintro j st hj hne rfl
    exact hne (hj.symm.trans he)
  cases h with
  | quiet hf =>
    rcases hf i with e | ⟨-, hq⟩
    · exact .inl (hsame e)
    · obtain ⟨h1, h2, h3⟩ := hq.result he
      refine .inl ⟨⟨hq.exited.mpr he, ?_⟩, fun ho => .inl (hq.orphaned.symm.trans ho)⟩
      unfold Task.completion
      dsimp only
      rw [hq.id, hq.processId, hq.kind, h1, h2, h3]
  | environment | halt | mark | request | endForeground => exact .inl (hsame rfl)
  | dispatch _ hr | leave _ _ hr => exact .inl (hset rfl fun e => absurd e (hclash hr (by simp)))
  | create _ hu => exact .inl (hset rfl fun e => absurd e (hclash hu (by simp)))
  | @publish _ _ _ shell _ hu => exact .inl (hset (by cases shell <;> rfl) fun e => absurd e (hclash hu (by simp)))
  | grant =>
    refine .inl (hset rfl ?_)
    rintro rfl
    exact ⟨⟨he, rfl⟩, .inl⟩
  | cancel hc =>
    refine .inl (hset rfl ?_)
    rintro rfl
    exact ⟨keeps_stop he, fun _ => .inr hc⟩
  | @adopt j hc =>
    refine .inl (hset rfl ?_)
    rintro rfl
    exact ⟨@keeps_stop { k.tasks i with parent := (k.tasks bootSlot).id, orphaned := true } he, fun _ => .inr hc⟩
  | @reap j halted hi hx hne ho =>
    rcases eq_or_ne i j with rfl | hij
    · exact .inr ⟨update_self .., ho⟩
    · exact .inl (hsame (update_of_ne hij ..))

/-! ## Ids that are gone -/

/-- The ids of a process were issued and are in no slot. -/
structure Gone (k : Kernel) (n p : Nat) : Prop where
  issued : k.Issued n
  process : 0 < p ∧ p < k.nextProcessId
  id : ∀ j, (k.tasks j).id ≠ n
  processId : ∀ j, (k.tasks j).processId ≠ p

lemma processId_stop (t : Task) : t.stop.processId = t.processId := by
  unfold Task.stop
  dsimp only
  split <;> rfl

lemma Act.processId (h : Act s k k') (hp : 0 < p ∧ p < k.nextProcessId) (hj : (k'.tasks j).processId = p) :
    (k.tasks j).processId = p := by
  have hset : ∀ {i : TaskSlot} {t : Task}, k'.tasks = update k.tasks i t →
      (t.processId = p → (k.tasks i).processId = p) → (k.tasks j).processId = p := fun {i t} e ht => by
    rw [e] at hj
    rcases eq_or_ne j i with rfl | hne
    · exact ht (by rwa [update_self] at hj)
    · rwa [update_of_ne hne] at hj
  cases h with
  | quiet hf =>
    rcases hf j with e | ⟨-, hq⟩
    · exact (congrArg Task.processId e).symm.trans hj
    · exact hq.processId.symm.trans hj
  | environment | halt | mark | request | endForeground => exact hj
  | dispatch | grant | leave => exact hset rfl fun e => e
  | create | reap => exact hset rfl fun e => absurd e hp.1.ne
  | @publish _ _ _ shell => exact hset (by cases shell <;> rfl) fun e => absurd e hp.2.ne'
  | cancel | adopt => exact hset rfl (processId_stop _).symm.trans

lemma Act.nextProcessId_le (h : Act s k k') : k.nextProcessId ≤ k'.nextProcessId := by
  cases h with
  | @publish _ _ _ shell => cases shell <;> exact Nat.le_succ _
  | _ => exact Nat.le_refl _

lemma Gone.act (h : k.Gone n p) (hreg : k.Registry) (ha : Act s k k') : k'.Gone n p where
  issued := ha.issued hreg h.issued
  process := ⟨h.process.1, h.process.2.trans_le ha.nextProcessId_le⟩
  id j hj := h.id j (ha.same h.issued h.issued.ne hj).1
  processId j hj := h.processId j (ha.processId h.process hj)

lemma Act.gone (hreg : k.Registry) (ha : Act s k k') (he : (k.tasks i).state = .exited)
    (hp : (k.tasks i).kind = .process) (hi : k'.tasks i = {}) : k'.Gone (k.tasks i).id (k.tasks i).processId := by
  have hu : k.Used i := by simp [Used, he]
  have hn : k.Issued (k.tasks i).id := ⟨((hreg.regular i).id hu).ne', (hreg.issued hu).2⟩
  have hpid := And.intro ((hreg.regular i).process hp) (hreg.issuedProcess hu)
  refine ⟨ha.issued hreg hn, ⟨hpid.1, hpid.2.trans_le ha.nextProcessId_le⟩, fun j hj => ?_, fun j hj => ?_⟩
  · have hj' := (ha.same hn hn.ne hj).1
    rw [hreg.ids (hreg.used_of_id hn hj') hu hj', hi] at hj
    exact hn.1 hj.symm
  · rw [← hreg.processIds hpid.1 (ha.processId hpid hj).symm, hi] at hj
    exact hpid.1.ne hj

/-! ## Steps and runs -/

lemma Acts.keeps (hreg : k.Registry) (h : Acts s k k') (he : (k.tasks i).state = .exited)
    (hp : (k.tasks i).kind = .process) : Leaves s i (k.tasks i) (k'.tasks i) ∨
    k'.Gone (k.tasks i).id (k.tasks i).processId ∧ ((k.tasks i).orphaned = true ∨ s.cancels i ∨ s.collects i) := by
  induction h with
  | refl => exact .inl ⟨⟨he, rfl⟩, .inl⟩
  | tail hacts ha ih =>
    have hreg1 := Acts.registry hacts hreg
    rcases ih with ⟨hk, ho⟩ | ⟨hg, ho⟩
    · have hid := congrArg Prod.fst hk.2
      have hpid := congrArg (fun c => c.2.1) hk.2
      have hkind := (congrArg (fun c => c.2.2.1) hk.2).trans hp
      rcases ha.keeps hk.1 with ⟨hk', ho'⟩ | ⟨hi, ho'⟩
      · exact .inl ⟨⟨hk'.1, hk'.2.trans hk.2⟩, fun h => (ho' h).elim ho .inr⟩
      · refine .inr ⟨?_, ?_⟩
        · rw [← show _ = (k.tasks i).id from hid, ← show _ = (k.tasks i).processId from hpid]
          exact ha.gone hreg1 hk.1 hkind hi
        · rcases ho' hkind with h | h
          · exact (ho h).imp_right .inl
          · exact .inr (.inr h)
    · exact .inr ⟨hg.act hreg1 ha, ho⟩

lemma keeps_requestTermination (he : (k.tasks i).state = .exited) (pid : Nat) (session : Bool) :
    (k.tasks i).Keeps ((k.requestTermination pid session).2.tasks i) := by
  have hsame : (k.tasks i).Keeps (k.tasks i) := ⟨he, rfl⟩
  unfold requestTermination
  iterate 5
    split
    · exact hsame
  rename_i t _ _ _
  change (k.tasks i).Keeps (update k.tasks t (k.tasks t).stop i)
  rcases eq_or_ne i t with rfl | hne
  · rw [update_self]
    exact keeps_stop he
  · rwa [update_of_ne hne]

lemma Ready.keeps (h : k.Ready) (call : KernelCall) (he : (k.tasks i).state = .exited)
    (hp : (k.tasks i).kind = .process) : (k.tasks i).Keeps ((call.next k).tasks i) ∨
    (call.next k).Gone (k.tasks i).id (k.tasks i).processId ∧ k.Discharges call i := by
  unfold KernelCall.next
  split
  · exact .inl ⟨he, rfl⟩
  rcases (KernelCall.perform_reaches h.registry h.running call).acts.keeps h.registry he hp with ⟨hk, -⟩ | ⟨hg,
    ho | hc | hc⟩
  · exact .inl hk
  · exact .inr ⟨hg, .inr (.inl ho)⟩
  · rcases hc with ⟨-, σ, -, -, -, hlive, -⟩ | ⟨pid, session, rfl, -⟩ | ⟨ht, -, ha⟩
    · exact absurd he (((h.registry.matched i).live hp).mp hlive)
    · exact .inl (keeps_requestTermination he pid session)
    · exact .inr ⟨hg, .inr (.inr ⟨ht, ha⟩)⟩
  · exact .inr ⟨hg, .inl hc⟩

lemma run_append (k : Kernel) (xs ys : List KernelCall) : k.run (xs ++ ys) = (k.run xs).run ys := List.foldl_append

lemma Ready.completion (h : k.Ready) (he : (k.tasks i).state = .exited) (hp : (k.tasks i).kind = .process)
    (after : List KernelCall) :
    (k.tasks i).Keeps ((k.run after).tasks i) ∨ ∃ pre call post, after = pre ++ call :: post ∧
      (k.tasks i).Keeps ((k.run pre).tasks i) ∧ (k.run pre).Discharges call i ∧
      ∀ later, (k.run (pre ++ call :: later)).Gone (k.tasks i).id (k.tasks i).processId := by
  induction after using List.reverseRecOn with
  | nil => exact .inl ⟨he, rfl⟩
  | append_singleton pre call ih =>
    rcases ih with hk | ⟨pre', call', post, rfl, hk, hd, hg⟩
    · have hid := congrArg Prod.fst hk.2
      have hpid := congrArg (fun c => c.2.1) hk.2
      rw [run_append]
      rcases (h.run pre).keeps call hk.1 ((congrArg (fun c => c.2.2.1) hk.2).trans hp) with hk' | ⟨hg, hd⟩
      · exact .inl ⟨hk'.1, hk'.2.trans hk.2⟩
      · refine .inr ⟨pre, call, [], rfl, hk, hd, fun later => ?_⟩
        rw [show ((k.run pre).tasks i).id = _ from hid, show ((k.run pre).tasks i).processId = _ from hpid] at hg
        rw [run_append]
        exact ((h.run pre).next call).run_keeps (fun hg hreg ha => Gone.act hg hreg ha) hg later
    · exact .inr ⟨pre', call', post ++ [call], by simp, hk, hd, hg⟩

lemma Gone.answers (h : k.Gone n p) (r : Releases) (session : Bool) :
    k.collectChild r n = (false, k) ∧ (k.requestTermination p session).1 ≠ .ok ∧
        (k.requestTermination p session).2 = k := by
  have hq : k.query n = none := by
    unfold query
    rw [if_neg h.issued.1, List.find?_eq_none]
    intro j _
    simp [h.id j]
  have ht : k.processOf p = none := by
    unfold processOf
    rw [List.find?_eq_none]
    intro j _
    simp [h.processId j]
  constructor
  · unfold collectChild
    rw [hq]
  · unfold requestTermination
    rw [ht]
    split
    · exact ⟨by simp, rfl⟩
    split
    · exact ⟨by simp, rfl⟩
    · exact ⟨by simp, rfl⟩

/-- A call takes an exited direct child of the running task and empties its slot, or it fails and takes nothing. -/
def Takes (k : Kernel) (n : Nat) (o : Bool × Kernel) : Prop :=
  (o.1 = false → o.2.tasks = k.tasks) ∧ (o.1 = true → ∃ i, (k.tasks i).state = .exited ∧ (k.tasks i).kind = .process ∧
    (k.tasks i).id = n ∧ (k.tasks i).parent = k.task.id ∧ o.2.tasks = update k.tasks i {})

lemma takes_nothing : k.Takes n (false, k) := ⟨fun _ => rfl, fun h => by cases h⟩

lemma reapProcess_takes (r : Releases) (n : Nat) : k.Takes n (k.reapProcess r n) := by
  unfold reapProcess
  split
  · exact takes_nothing
  split
  · exact takes_nothing
  · rename_i i hf
    have hp := List.find?_some hf
    simp only [Bool.and_eq_true, beq_iff_eq] at hp
    unfold reapSlot
    split
    · rename_i hc
      simp only [reapable, Bool.and_eq_true, beq_iff_eq] at hc
      exact ⟨fun h => (by cases h), fun _ => ⟨i, hc.1.1.1.1.1.1.1.1.1.1, hp.1.2, hp.1.1, hp.2, rfl⟩⟩
    · exact takes_nothing

lemma collectChild_takes (r : Releases) (n : Nat) : k.Takes n (k.collectChild r n) := by
  unfold collectChild
  split
  · exact takes_nothing
  split
  · exact takes_nothing
  split
  · dsimp only
    split
    · obtain ⟨-, h1, h2⟩ := @Calm.foregroundEnd k ⟨fun _ => False, fun _ => False⟩ n
      have hr := @reapProcess_takes (k.foregroundEnd n).2 r n
      unfold Takes task at hr ⊢
      rwa [h1, h2] at hr
    · exact takes_nothing
  · exact reapProcess_takes r n

/-- **A completion is consumed once.** In every run an exited process keeps its ids and its result in its slot, whatever
the tasks and interrupts do, up to one step: its parent collects it, or it is or becomes an orphan. From then on its ids
are in no slot and no task can collect or end the process. A call of `task_collect_child` that succeeds takes a direct
child of the caller that has exited, and one that fails takes nothing. -/
theorem completion_consumed_once (before : List KernelCall) :
    let k := initial.run before
    (∀ i, (k.tasks i).state = .exited → (k.tasks i).kind = .process → ∀ after,
      (k.tasks i).Keeps ((k.run after).tasks i) ∨ ∃ pre call post, after = pre ++ call :: post ∧
        (k.tasks i).Keeps ((k.run pre).tasks i) ∧ (k.run pre).Discharges call i ∧
        ∀ later, let k' := k.run (pre ++ call :: later)
          (∀ j, (k'.tasks j).id ≠ (k.tasks i).id ∧ (k'.tasks j).processId ≠ (k.tasks i).processId) ∧
          ∀ r session, k'.collectChild r (k.tasks i).id = (false, k') ∧
            (k'.requestTermination (k.tasks i).processId session).1 ≠ .ok ∧
            (k'.requestTermination (k.tasks i).processId session).2 = k') ∧
    ∀ r n, k.Takes n (k.collectChild r n) := by
  intro k
  refine ⟨fun i he hp after => ?_, fun r n => collectChild_takes r n⟩
  rcases (ready before).completion he hp after with hk | ⟨pre, call, post, hafter, hk, hd, hg⟩
  · exact .inl hk
  · refine .inr ⟨pre, call, post, hafter, hk, hd,
      fun later => ⟨fun j => ?_, fun r session => (hg later).answers r session⟩⟩
    exact ⟨(hg later).id j, (hg later).processId j⟩

/-- The boot task launches a process, which exits. -/
def finished : List KernelCall :=
  [.createProcess ⟨7, true, true, true⟩, .yield allReleased, .exit allReleased 0 true]

lemma finished_facts : ((initial.run finished).tasks 2).state = .exited ∧
    ((initial.run finished).tasks 2).kind = .process ∧ (initial.run finished).currentCancelled = false ∧
    ((initial.run finished).tasks 2).orphaned = false ∧
    ((initial.run finished).tasks 2).parent = (initial.run finished).task.id := by
  decide +kernel

theorem completion_consumed_once_finished : let k := initial.run finished
    ∀ after, (k.tasks 2).Keeps ((k.run after).tasks 2) ∨ ∃ pre call post, after = pre ++ call :: post ∧
      (k.run pre).Discharges call 2 := by
  obtain ⟨he, hp, -⟩ := finished_facts
  have h := (completion_consumed_once finished).1 2 he hp
  generalize initial.run finished = k at h ⊢
  exact fun after => (h after).imp_right fun ⟨pre, call, post, ha, _, hd, _⟩ => ⟨pre, call, post, ha, hd⟩

/-! ## Waiting for a result -/

/-- What `task_wait_child` finds; `alive` if no child has exited. -/
inductive ChildAnswer where
  | interrupted | exited (child : TaskSlot) | missing | alive

/-- A slot holds a child for which the running task waits; the PID 0 stands for every child. -/
def awaits (k : Kernel) (pid : Nat) (i : TaskSlot) : Bool :=
  (k.tasks i).state != .unused && (k.tasks i).kind == .process && !(k.tasks i).orphaned &&
    (k.tasks i).parent == k.task.id && (pid == 0 || (k.tasks i).processId == pid)

/-- One round of the loop of `task_wait_child`, up to the wait for the next event of the children. -/
def waitChild (k : Kernel) (pid : Nat) : ChildAnswer :=
  if k.currentCancelled then .interrupted
  else
    match userSlots.find? fun i => k.awaits pid i && (k.tasks i).state == .exited with
    | some i => .exited i
    | none => if userSlots.any (k.awaits pid) then .alive else .missing

lemma waitChild_eq (hreg : k.Registry) (hc : k.currentCancelled = false)
    (he : ∀ j, k.awaits p j = true → j = i ∧ (k.tasks i).state = .exited) :
    k.waitChild p = if k.awaits p i then .exited i else .missing := by
  have hslot : ∀ j, k.awaits p j = true → j ∈ userSlots := fun j hj => by
    simp only [awaits, Bool.and_eq_true, beq_iff_eq] at hj
    exact mem_userSlots.mpr ⟨hreg.ne_boot hj.1.1.1.2, hreg.ne_idle hj.1.1.1.2⟩
  unfold waitChild
  rw [if_neg (by simp [hc])]
  split
  · rename_i j hf
    have hj := List.find?_some hf
    rw [Bool.and_eq_true] at hj
    obtain ⟨rfl, -⟩ := he j hj.1
    rw [if_pos hj.1]
  · rename_i hf
    have hno : ∀ j, k.awaits p j ≠ true := fun j hj => by
      obtain ⟨rfl, hx⟩ := he j hj
      exact List.find?_eq_none.mp hf j (hslot j hj) (by simp [hj, hx])
    rw [if_neg (by simp [hno]), if_neg (hno i)]

/-- **A wait returns the completion.** After any further steps a task that waits for the PID of an exited process gets
its slot with the same result if the process is still its own child, and else there is no child with the PID. A wait for
any PID gives only exited children of the running task. -/
theorem wait_returns_completion (before after : List KernelCall) :
    let k := initial.run before
    let k' := k.run after
    (∀ i, (k.tasks i).state = .exited → (k.tasks i).kind = .process → k'.currentCancelled = false →
      let pid := (k.tasks i).processId
      k'.waitChild pid = (if k'.awaits pid i then .exited i else .missing) ∧
      (k'.awaits pid i → (k.tasks i).Keeps (k'.tasks i))) ∧
    ∀ pid i, k'.waitChild pid = .exited i → k'.awaits pid i ∧ (k'.tasks i).state = .exited := by
  intro k k'
  refine ⟨fun i he hp hc => ?_, fun pid i hw => ?_⟩
  · intro pid
    have hpid : 0 < pid := ((ready before).registry.regular i).process hp
    have hreg : k'.Registry := ((ready before).run after).registry
    have hof : ∀ j, k'.awaits pid j = true → (k'.tasks j).processId = pid := fun j hj => by
      simp only [awaits, Bool.and_eq_true, Bool.or_eq_true, beq_iff_eq] at hj
      exact hj.2.resolve_left hpid.ne'
    rcases (ready before).completion he hp after with hk | ⟨pre, call, post, rfl, -, -, hg⟩
    · have hi : (k'.tasks i).processId = pid := congrArg (fun c => c.2.1) hk.2
      exact ⟨waitChild_eq hreg hc fun j hj => ⟨hreg.processIds (hof j hj ▸ hpid) ((hof j hj).trans hi.symm), hk.1⟩,
        fun _ => hk⟩
    · have hno : ∀ j, k'.awaits pid j ≠ true := fun j hj => (hg post).processId j (hof j hj)
      exact ⟨waitChild_eq hreg hc fun j hj => absurd hj (hno j), fun hi => absurd hi (hno i)⟩
  · unfold waitChild at hw
    split at hw
    · cases hw
    split at hw
    · rename_i hf
      cases hw
      simpa using List.find?_some hf
    · split at hw <;> cases hw

/-- The boot task can wait for its child. -/
theorem wait_returns_completion_finished : let k := initial.run finished
    k.waitChild (k.tasks 2).processId = .exited 2 := by
  obtain ⟨he, hp, hc, ho, hpar⟩ := finished_facts
  have h := (wait_returns_completion finished []).1 2 he hp
  generalize initial.run finished = k at he hp hc ho hpar h ⊢
  exact (h hc).1.trans (if_pos (by simp [awaits, run, he, hp, ho, hpar]))

end Kernel

end RumKernel.Process
