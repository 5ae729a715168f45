import RumKernel.Process.Runs

/-!
# Round robin

`schedule` goes round the slots from the running task on. The distance from the running task to a task that stays
runnable gets smaller with every call, so that it is passed over a bounded number of times.
-/

namespace RumKernel.Process
open Function

namespace Kernel

variable {k : Kernel} {a c i : TaskSlot} {r : Releases}

/-- How many slots the search from `a` meets before `i`. -/
def steps (a i : TaskSlot) : Nat := (i.val + 17 - a.val) % 18

lemma steps_add (a o : TaskSlot) : steps a (a + o + 1) = o.val := by
  simp only [steps, Fin.val_add, Fin.val_one']
  omega

lemma eq_add_steps (a i : TaskSlot) : ∃ o : TaskSlot, i = a + o + 1 := by
  refine ⟨i - a - 1, ?_⟩
  revert a i
  decide

lemma steps_inj (h : steps a c = steps a i) : c = i := by
  have ha := a.isLt
  have hc := c.isLt
  have hi := i.isLt
  simp only [steps] at h
  exact Fin.ext (by omega)

lemma steps_lt (h : steps a c < steps a i) : steps c i < steps a i := by
  have ha := a.isLt
  have hc := c.isLt
  have hi := i.isLt
  simp only [steps] at h ⊢
  omega

lemma successor_spec (k : Kernel) (a : TaskSlot) :
    (k.successor a = idleSlot ∧ ∀ i, i ≠ idleSlot → (k.tasks i).state ≠ .runnable) ∨
    k.successor a ≠ idleSlot ∧ (k.tasks (k.successor a)).state = .runnable ∧
      ∀ i, i ≠ idleSlot → (k.tasks i).state = .runnable → steps a (k.successor a) ≤ steps a i := by
  unfold successor
  rw [List.find?_map]
  cases hf : (List.finRange 18).find? _ with
  | none =>
    refine .inl ⟨rfl, fun i hi hr => ?_⟩
    obtain ⟨o, rfl⟩ := eq_add_steps a i
    have := List.find?_eq_none.mp hf o (List.mem_finRange o)
    simp [hi, hr] at this
  | some o =>
    obtain ⟨hp, n, hn, hget, hbefore⟩ := List.find?_eq_some_iff_getElem.mp hf
    simp only [comp_apply, Bool.and_eq_true, bne_iff_ne, ne_eq, beq_iff_eq] at hp
    refine .inr ⟨hp.1, hp.2, fun i hi hr => ?_⟩
    obtain ⟨o', rfl⟩ := eq_add_steps a i
    rw [Option.map_some, Option.getD_some, steps_add, steps_add]
    have hval : o.val = n := by
      rw [← hget]
      simp
    by_contra hlt
    have := hbefore o'.val (by omega)
    simp [hi, hr] at this

lemma current_reapExited (k : Kernel) (r : Releases) (processes : Bool) :
    (k.reapExited r processes).current = k.current := by
  unfold reapExited
  generalize userSlots = l
  induction l generalizing k with
  | nil => rfl
  | cons i l ih =>
    rw [List.foldl_cons, ih]
    split
    · rcases Calm.tasks_reapSlot k r i with h | ⟨-, -, h⟩
      · rw [h]
      · exact h
    · rfl

/-- The registry in which `schedule` searches. -/
def preempted (k : Kernel) : Kernel :=
  k.setTask k.current
    { k.task with state := if k.task.state = .running then .runnable else k.task.state, reschedule := false }

lemma tasks_preempted (hi : i ≠ k.current) : k.preempted.tasks i = k.tasks i := update_of_ne hi ..

lemma schedule_eq (hp : k.switchProtected = false) : k.schedule r =
    if k.preempted.successor k.current = k.current then k.preempted.dispatch (k.preempted.successor k.current)
    else (k.preempted.dispatch (k.preempted.successor k.current)).reapExited r false :=
  if_neg (by rw [hp]; exact Bool.false_ne_true)

lemma current_schedule (hp : k.switchProtected = false) : (k.schedule r).current = k.preempted.successor k.current := by
  rw [schedule_eq hp]
  split
  · rfl
  · rw [current_reapExited]
    rfl

lemma state_preempted (hi : (k.tasks i).state = .runnable) : (k.preempted.tasks i).state = .runnable := by
  refine (forall_update_iff k.tasks fun j t => (k.tasks j).state = .runnable → t.state = .runnable).mpr
    ⟨fun h => ?_, fun _ _ h => h⟩ i hi
  have h' : k.task.state = .runnable := h
  change (if k.task.state = .running then _ else k.task.state) = _
  rw [h']
  rfl

/-- The slots, without idle, that may be selected before `i`. -/
def rivals (a i : TaskSlot) : Nat := steps a i - if steps idleSlot i < steps a i then 1 else 0

lemma rivals_lt (hi : i ≠ idleSlot) : rivals a i < 17 := by
  have ha := a.isLt
  have h := i.isLt
  have hne : i.val ≠ 1 := fun h => hi (Fin.ext h)
  have hidle : steps idleSlot i < 17 := by
    simp only [steps, idleSlot, Fin.val_one]
    omega
  have hsteps : steps a i < 18 := Nat.mod_lt _ (by decide)
  unfold rivals
  split
  · omega
  · omega

lemma rivals_schedule (hp : k.switchProtected = false) (hi : i ≠ idleSlot) (hr : (k.tasks i).state = .runnable)
    (hne : (k.schedule r).current ≠ i) : rivals (k.schedule r).current i < rivals k.current i := by
  rw [current_schedule hp] at hne ⊢
  have hrun := state_preempted hr
  rcases successor_spec k.preempted k.current with ⟨-, h⟩ | ⟨h1, -, h3⟩
  · exact absurd hrun (h i hi)
  · have hlt : steps k.current (k.preempted.successor k.current) < steps k.current i :=
      lt_of_le_of_ne (h3 i hi hrun) fun he => hne (steps_inj he)
    have hsteps := steps_lt hlt
    -- the selected slot is not idle, so that its distance is another
    have hidle : steps (k.preempted.successor k.current) i ≠ steps idleSlot i := by
      have hb := (k.preempted.successor k.current).isLt
      have hval : (k.preempted.successor k.current).val ≠ 1 := fun h => h1 (Fin.ext h)
      have hi' := i.isLt
      simp only [steps, idleSlot, Fin.val_one]
      omega
    unfold rivals
    split
    · split
      · omega
      · omega
    · split
      · omega
      · omega

/-- **Bounded bypass.** In any sequence of calls of `schedule`, whatever happens to the other tasks in between, a task
that stays runnable is selected by one of seventeen calls. Idle is selected only if nobody else can run. A task that
still runs while nobody else can is kept: nothing but its time slice changes. -/
theorem round_robin : (∀ (before : Nat → Kernel) (r : Nat → Releases) (i : TaskSlot), i ≠ idleSlot →
      (∀ n, (before n).switchProtected = false) →
      (∀ n, (before (n + 1)).current = ((before n).schedule (r n)).current) →
      (∀ n, (∀ m < n, ((before m).schedule (r m)).current ≠ i) → ((before n).tasks i).state = .runnable) →
      ∃ n < 17, ((before n).schedule (r n)).current = i) ∧
    (∀ (k : Kernel) (r : Releases), k.switchProtected = false → (k.schedule r).current = idleSlot →
      ∀ i, i ≠ idleSlot → (k.tasks i).state ≠ .runnable ∧ (i = k.current → (k.tasks i).state ≠ .running)) ∧
    (∀ (k : Kernel) (r : Releases), k.switchProtected = false → k.task.state = .running →
      (∀ i, i ≠ k.current → i ≠ idleSlot → (k.tasks i).state ≠ .runnable) →
      k.schedule r = k.setTask k.current { k.task with reschedule := false, sliceTicks := timeSliceTicks }) := by
  refine ⟨fun before r i hi hp hcur hrun => ?_, fun k r hp hidle i hi => ?_, fun k r hp hr halone => ?_⟩
  · by_contra hno
    have hnot : ∀ n < 17, ((before n).schedule (r n)).current ≠ i := fun n hn he => hno ⟨n, hn, he⟩
    -- the rivals before the first call bound the calls
    have hcount : ∀ n ≤ 17, rivals (before n).current i + n ≤ rivals (before 0).current i := fun n hn => by
      induction n with
      | zero => exact Nat.le_refl _
      | succ n ih =>
        have hlt := rivals_schedule (hp n) hi (hrun n fun m hm => hnot m (by omega)) (hnot n (by omega))
        rw [← hcur n] at hlt
        have := ih (by omega)
        omega
    have hfirst := rivals_lt (a := (before 0).current) hi
    have := hcount 17 (Nat.le_refl _)
    omega
  · rw [current_schedule hp] at hidle
    rcases successor_spec k.preempted k.current with ⟨-, h⟩ | ⟨h, -⟩
    · refine ⟨fun hr => h i hi (state_preempted hr), ?_⟩
      rintro rfl hr
      refine h k.current hi ?_
      refine (congrArg Task.state (update_self ..)).trans ?_
      exact if_pos hr
    · exact absurd hidle h
  · have hself : (k.preempted.tasks k.current).state = .runnable := by
      refine (congrArg Task.state (update_self ..)).trans ?_
      exact if_pos hr
    have hnext : k.preempted.successor k.current = k.current := by
      have hothers : ∀ i, i ≠ k.current → i ≠ idleSlot → (k.preempted.tasks i).state ≠ .runnable := fun i hc hi => by
        refine fun h => halone i hc hi ?_
        rwa [tasks_preempted hc] at h
      rcases successor_spec k.preempted k.current with ⟨h1, h2⟩ | ⟨h1, h2, -⟩
      · by_contra hne
        exact h2 k.current (fun h => hne (h1.trans h.symm)) hself
      · by_contra hne
        exact hothers _ hne h1 h2
    rw [schedule_eq hp, if_pos hnext, hnext]
    have htask : k.preempted.tasks k.current = { k.task with state := .runnable, reschedule := false } := by
      refine (update_self ..).trans ?_
      rw [if_pos hr]
    unfold dispatch
    rw [htask]
    unfold preempted setTask
    dsimp only
    rw [update_idem, ← hr]

/-- The boot task is alone at first. -/
theorem round_robin_initial : initial.schedule allReleased =
    initial.setTask bootSlot { initial.task with reschedule := false, sliceTicks := timeSliceTicks } :=
  round_robin.2.2 initial allReleased rfl rfl (by decide)

end Kernel

end RumKernel.Process
