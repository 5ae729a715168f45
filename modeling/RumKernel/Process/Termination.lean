import RumKernel.Process.Runs

/-!
# Termination and cancellation

Who ends with an exiting task, and on whose word a task is asked to end.
-/

namespace RumKernel.Process
open Function

variable {found : List TaskSlot} {fuel : Nat} {pending : List Nat}

namespace Kernel

variable {k k' : Kernel} {i j : TaskSlot} {s : Scope} {r : Releases}

/-! ## Descendants -/

/-- `j` is a child of `i`. -/
def Child (k : Kernel) (i j : TaskSlot) : Prop := k.Used j ∧ (k.tasks j).parent = (k.tasks i).id

/-- `j` is a descendant of `i`. -/
def Descends (k : Kernel) : TaskSlot → TaskSlot → Prop := Relation.TransGen k.Child

lemma Registry.child_process (h : k.Registry) (hi : k.Used i) (hc : k.Child i j) : (k.tasks j).kind = .process := by
  cases hk : (k.tasks j).kind with
  | process => rfl
  | kernel =>
    have := (h.regular i).id hi
    rw [← hc.2, ((h.regular j).kernel hk).2.1] at this
    cases this

lemma mem_findChildren {parent : Nat} : i ∈ k.findChildren parent found ↔
    i ∈ userSlots ∧ k.Used i ∧ i ≠ k.current ∧ i ∉ found ∧ (k.tasks i).parent = parent := by
  simp [findChildren, Used, and_assoc]

lemma descendants_sound
    (hp : ∀ p ∈ pending, ∃ i, p = (k.tasks i).id ∧ (i = k.current ∨ k.Used i ∧ k.Descends k.current i))
    (hj : j ∈ k.descendants fuel pending found) :
    j ∈ found ∨ j ∈ userSlots ∧ k.Used j ∧ j ≠ k.current ∧ k.Descends k.current j := by
  induction fuel generalizing pending found with
  | zero => exact .inl hj
  | succ fuel ih =>
    cases pending with
    | nil => exact .inl hj
    | cons parent pending =>
      obtain ⟨a, rfl, ha⟩ := hp parent List.mem_cons_self
      have hchild : ∀ i ∈ k.findChildren (k.tasks a).id found,
          i ∈ userSlots ∧ k.Used i ∧ i ≠ k.current ∧ k.Descends k.current i := fun i hi => by
        obtain ⟨h1, h2, h3, -, h5⟩ := mem_findChildren.mp hi
        refine ⟨h1, h2, h3, ?_⟩
        rcases ha with rfl | ⟨-, ha⟩
        · exact .single ⟨h2, h5⟩
        · exact ha.tail ⟨h2, h5⟩
      have hnext : ∀ p ∈ pending ++ (k.findChildren (k.tasks a).id found).map fun i => (k.tasks i).id,
          ∃ i, p = (k.tasks i).id ∧ (i = k.current ∨ k.Used i ∧ k.Descends k.current i) := fun p hp' => by
        rcases List.mem_append.mp hp' with h' | h'
        · exact hp p (List.mem_cons_of_mem _ h')
        · obtain ⟨i, hi, rfl⟩ := List.mem_map.mp h'
          exact ⟨i, rfl, .inr ⟨(hchild i hi).2.1, (hchild i hi).2.2.2⟩⟩
      rcases ih hnext hj with hmem | hmem
      · exact (List.mem_append.mp hmem).imp_right (hchild j)
      · exact .inr hmem

lemma mem_descendants_of_found (hj : j ∈ found) : j ∈ k.descendants fuel pending found := by
  induction fuel generalizing pending found with
  | zero => exact hj
  | succ fuel ih =>
    cases pending with
    | nil => exact hj
    | cons parent pending => exact ih (List.mem_append_left _ hj)

lemma mem_descendants_of_child (h : k.Registry) (hu : k.Used k.current) (hc : k.Child k.current j)
    (hj : j ≠ k.current) : j ∈ k.descendants 18 [k.task.id] [] := by
  have hp := h.child_process hu hc
  change j ∈ k.descendants 17 _ ([] ++ k.findChildren k.task.id [])
  exact mem_descendants_of_found (List.mem_append_right _ (mem_findChildren.mpr
    ⟨mem_userSlots.mpr ⟨h.ne_boot hp, h.ne_idle hp⟩, hc.1, hj, List.not_mem_nil, hc.2⟩))

/-- Who ends with the running task: its descendants, and the other members of a session whose root it is. -/
def Abandons (k : Kernel) (i : TaskSlot) : Prop :=
  k.Descends k.current i ∨ k.console.isRoot (some k.current) = true ∧
    k.console.sameSession (some i) (some k.current) = true

lemma abandons_spec (h : k.Registry) (hu : k.Used k.current) (hi : k.abandons i = true) :
    k.Abandons i ∧ k.Used i ∧ i ≠ k.current ∧ (k.tasks i).kind = .process := by
  unfold abandons at hi
  simp only [Bool.or_eq_true, List.contains_iff_mem, Bool.and_eq_true, bne_iff_ne, ne_eq] at hi
  rcases hi with hi | ⟨⟨⟨hroot, hused⟩, hne⟩, hsame⟩
  · rcases descendants_sound (fun p hp => ⟨k.current, List.mem_singleton.mp hp, .inl rfl⟩) hi with h' | ⟨-, h2, h3, h4⟩
    · cases h'
    · refine ⟨.inl h4, h2, h3, ?_⟩
      obtain ⟨a, ha, hai⟩ := Relation.TransGen.tail'_iff.mp h4
      refine h.child_process (i := a) ?_ hai
      rcases Relation.ReflTransGen.cases_tail ha with rfl | ⟨b, -, hb⟩
      · exact hu
      · exact hb.1
  · refine ⟨.inr ⟨hroot, hsame⟩, hused, hne, ?_⟩
    cases hk : (k.tasks i).kind with
    | process => rfl
    | kernel =>
      rw [Console.sameSession, (h.matched i).kernel hk] at hsame
      cases hsame

/-! ## Termination -/

/-- The processor is held, or an operation active, in one state as in the other. -/
structure Held (k k' : Kernel) : Prop where
  current : k'.current = k.current
  holds : k'.task.switchHolds = k.task.switchHolds
  operation : k'.operation = k.operation

lemma Held.trans {k'' : Kernel} (h : Held k k') (h' : Held k' k'') : Held k k'' :=
  ⟨h'.current.trans h.current, h'.holds.trans h.holds, h'.operation.trans h.operation⟩

lemma Held.switchProtected (h : Held k k') : k'.switchProtected = k.switchProtected := by
  unfold Kernel.switchProtected
  rw [h.holds, h.operation]

lemma task_signal (e : Event) (hb : k.task.state ≠ .blocked) : (k.signal e).task = k.task := by
  refine if_neg ?_
  simp only [Bool.and_eq_true, decide_eq_true_eq, not_and]
  exact fun h => absurd h hb

lemma signalParent_spec (h : k.Registry) (hb : k.task.state ≠ .blocked) :
    Acts s k k.signalParent ∧ k.signalParent.current = k.current ∧ k.signalParent.task = k.task ∧
      k.signalParent.operation = k.operation := by
  unfold signalParent
  split
  · split
    · exact ⟨.refl, rfl, rfl, rfl⟩
    · rename_i i _
      have h1 := Calm.signal (s := s) h (.children i)
      have e1 := task_signal (.children i) hb
      have e2 := task_signal (k := k.signal (.children i)) (.console i) (e1 ▸ hb)
      dsimp only
      split
      · exact ⟨h1.acts.trans (Calm.signal (h1.registry h) _).acts, rfl, e2.trans e1, rfl⟩
      · exact ⟨h1.acts, rfl, e1, rfl⟩
  · exact ⟨.refl, rfl, rfl, rfl⟩

lemma adopts_spec (h : k.Registry) {p : TaskSlot → Bool} (hp : ∀ i, p i = true → k.Used i ∧ i ≠ k.current ∧
    (k.tasks i).kind = .process ∧ s.cancels i) (l : List TaskSlot) :
    let k' := l.foldl (fun k i => if p i then k.adopt i else k) k
    Calm s k k' ∧ Held k k' ∧ k'.task = k.task ∧
      ∀ j, (j ∈ l → p j = true → (k'.tasks j).parent = 1) ∧ (¬(j ∈ l ∧ p j = true) → k'.tasks j = k.tasks j) := by
  induction l generalizing k with
  | nil => exact ⟨.refl k, ⟨rfl, rfl, rfl⟩, rfl, fun j => ⟨nofun, fun _ => rfl⟩⟩
  | cons i l ih =>
    rw [List.foldl_cons]
    cases hi : p i with
    | false =>
      obtain ⟨h1, h2, h3, h4⟩ := ih h hp
      refine ⟨h1, h2, h3, fun j =>
        ⟨fun hj hpj => ?_, fun hj => (h4 j).2 fun ⟨hj', hpj⟩ => hj ⟨List.mem_cons_of_mem i hj', hpj⟩⟩⟩
      refine (h4 j).1 ((List.mem_cons.mp hj).resolve_left ?_) hpj
      rintro rfl
      cases hi.symm.trans hpj
    | true =>
      obtain ⟨hu, hne, hpr, hsc⟩ := hp i hi
      have hother : ∀ {j}, j ≠ i → (k.adopt i).tasks j = k.tasks j := fun hj => update_of_ne hj ..
      have hself : (k.adopt i).tasks i =
        Task.stop { k.tasks i with parent := (k.tasks bootSlot).id, orphaned := true } :=
        update_self ..
      have htask : (k.adopt i).task = k.task := hother (Ne.symm hne)
      have h0 : Calm s k (k.adopt i) := .act (.adopt hsc hpr hu hne) rfl fun hr => by rwa [hother (Ne.symm hne)]
      have hp' : ∀ j, p j = true → (k.adopt i).Used j ∧ j ≠ (k.adopt i).current ∧
          ((k.adopt i).tasks j).kind = .process ∧ s.cancels j := fun j hj => by
        obtain ⟨h1, h2, h3, h4⟩ := hp j hj
        rcases eq_or_ne j i with rfl | e
        · rw [Used, hself, Task.kind_stop, ne_eq, Task.unused_stop]
          exact ⟨h1, h2, h3, h4⟩
        · rw [Used, hother e]
          exact ⟨h1, h2, h3, h4⟩
      have hheld : Held k (k.adopt i) := ⟨rfl, congrArg Task.switchHolds htask, rfl⟩
      obtain ⟨h1, h2, h3, h4⟩ := ih (h0.registry h) hp'
      rw [if_pos rfl]
      refine ⟨h0.trans h1, hheld.trans h2, h3.trans htask, fun j => ⟨fun hj hpj => ?_, fun hj => ?_⟩⟩
      · by_cases hl : j ∈ l
        · exact (h4 j).1 hl hpj
        · obtain rfl := (List.mem_cons.mp hj).resolve_right hl
          rw [(h4 j).2 fun h' => hl h'.1, hself, Task.parent_stop]
          exact h.boot.1
      · have hne' : j ≠ i := fun e => hj ⟨e ▸ List.mem_cons_self, e ▸ hi⟩
        rw [(h4 j).2 fun ⟨hj', hpj⟩ => hj ⟨List.mem_cons_of_mem i hj', hpj⟩, hother hne']

lemma record_spec (h : k.Registry) (hr : k.task.state = .running) (termination : Termination) (status : Int)
    (fault : Option Fault) : Calm s k (k.record termination status fault) ∧ Held k (k.record termination status fault) ∧
    (∀ i, ((k.record termination status fault).tasks i).id = (k.tasks i).id ∧
      ((k.record termination status fault).tasks i).parent = (k.tasks i).parent ∧
      ((k.record termination status fault).tasks i).state = (k.tasks i).state) := by
  have hw := (h.regular k.current).waits
  have hnw : k.task.waiting = none ∧ k.task.deadlineActive = false := by
    have : ¬(k.task.waiting.isSome = true ∨ k.task.deadlineActive = true) :=
      fun e => nomatch hr.symm.trans (hw.blocked.mp e)
    simpa using this
  refine ⟨.setCurrent h hr ⟨rfl, rfl, rfl, rfl, .rfl⟩ rfl rfl rfl hr ⟨?_, fun e => absurd rfl e⟩, ⟨rfl, ?_, rfl⟩, ?_⟩
  · exact iff_of_false (by simp [Task.clearWait]) (fun e => nomatch hr.symm.trans e)
  · change (update k.tasks k.current _ k.current).switchHolds = _
    rw [update_self]
    rfl
  · exact (forall_update_iff k.tasks fun i u => u.id = (k.tasks i).id ∧ u.parent = (k.tasks i).parent ∧
      u.state = (k.tasks i).state).mpr ⟨⟨rfl, rfl, rfl⟩, fun _ _ => ⟨rfl, rfl, rfl⟩⟩

lemma descends_congr (hs : ∀ i, (k'.tasks i).id = (k.tasks i).id ∧ (k'.tasks i).parent = (k.tasks i).parent ∧
    (k'.tasks i).state = (k.tasks i).state) : k'.Descends = k.Descends := by
  have : k'.Child = k.Child := by
    funext i j
    unfold Child Used
    rw [(hs i).1, (hs j).2.1, (hs j).2.2]
  unfold Descends
  rw [this]

lemma terminateCurrent_reaches (h : k.Registry) (hr : k.task.state = .running) (termination : Termination)
    (status : Int) (fault : Option Fault) (closed : Bool)
    (hs : k.current ≠ bootSlot → k.current ≠ idleSlot → ∀ i, i ≠ k.current → k.Abandons i → s.cancels i) :
    Reaches s k (k.terminateCurrent r termination status fault closed) := by
  unfold Kernel.terminateCurrent
  split
  · exact ⟨.single .halt, hr⟩
  rename_i hc
  simp only [Bool.or_eq_true, decide_eq_true_eq, not_or, Bool.not_eq_true] at hc
  obtain ⟨⟨⟨hb, hid⟩, hprot⟩, -⟩ := hc
  obtain ⟨hcalm, hheld, hsame⟩ := record_spec (s := s) h hr termination status fault
  dsimp only
  set k1 := k.record termination status fault
  have h₁ := hcalm.registry h
  have hr1 := hcalm.running hr
  have hcur : k1.current = k.current := hheld.current
  have hp : ∀ i, k1.abandons i = true → k1.Used i ∧ i ≠ k1.current ∧ (k1.tasks i).kind = .process ∧ s.cancels i := by
    intro i hi
    obtain ⟨h1, h2, h3, h4⟩ := abandons_spec h₁ (used_current hr1) hi
    refine ⟨h2, h3, h4, hs hb hid i (hcur ▸ h3) ?_⟩
    unfold Abandons at h1
    rw [descends_congr hsame] at h1
    exact h1
  obtain ⟨hcalm2, hheld2, htask2, hpar2⟩ := adopts_spec h₁ hp userSlots
  change Reaches s k ((((k1.adoptAll k1.abandons).leave).signalParent).schedule r)
  change Calm s k1 (k1.adoptAll k1.abandons) at hcalm2
  change Held k1 (k1.adoptAll k1.abandons) at hheld2
  change (k1.adoptAll k1.abandons).task = k1.task at htask2
  change ∀ j, (j ∈ userSlots → k1.abandons j = true → ((k1.adoptAll k1.abandons).tasks j).parent = 1) ∧
    (¬(j ∈ userSlots ∧ k1.abandons j = true) → (k1.adoptAll k1.abandons).tasks j = k1.tasks j) at hpar2
  set k2 := k1.adoptAll k1.abandons
  have h₂ := hcalm2.registry h₁
  have hr2 := hcalm2.running hr1
  have hcur2 : k2.current = k.current := hheld2.current.trans hcur
  -- no child of the exiting task is left
  have hno : ∀ j, k2.Used j → (k2.tasks j).parent ≠ k2.task.id := fun j hj hpar => by
    by_cases hab : j ∈ userSlots ∧ k1.abandons j = true
    · rw [(hpar2 j).1 hab.1 hab.2, ← h₂.boot.1] at hpar
      exact hb (hcur2 ▸ (h₂.ids h₂.boot.2.2.1 (used_current hr2) hpar).symm)
    · have hsame2 := (hpar2 j).2 hab
      rw [Used, hsame2] at hj
      rw [hsame2, htask2] at hpar
      have hne : j ≠ k1.current := by
        rintro rfl
        exact h₁.others hj hpar
      have hmem := mem_descendants_of_child h₁ (used_current hr1) ⟨hj, hpar⟩ hne
      have hpr := h₁.child_process (used_current hr1) ⟨hj, hpar⟩
      refine hab ⟨mem_userSlots.mpr ⟨h₁.ne_boot hpr, h₁.ne_idle hpr⟩, ?_⟩
      unfold abandons
      rw [List.contains_iff_mem.mpr hmem, Bool.true_or]
  have hleave : Act s k2 k2.leave := .leave (hcur2 ▸ hb) (hcur2 ▸ hid) hr2 hno
  have h₃ := h₂.act hleave
  have htask3 : k2.leave.task = { k2.task with state := .exited } := update_self ..
  obtain ⟨ha, hc4, ht4, ho4⟩ := signalParent_spec (s := s) h₃ (by rw [htask3]; rintro ⟨⟩)
  have h₄ := ha.registry h₃
  have hfinal : Reaches s k2.leave.signalParent (k2.leave.signalParent.schedule r) := by
    refine schedule_reaches h₄ ?_ ?_
    · change k2.leave.signalParent.task.state ≠ .unused
      rw [ht4, htask3]
      rintro ⟨⟩
    · have : k2.leave.signalParent.switchProtected = k2.switchProtected := by
        unfold switchProtected
        rw [ht4, htask3, ho4]
        rfl
      rw [this, hheld2.switchProtected, hheld.switchProtected]
      exact hprot
  refine ⟨?_, hfinal.running⟩
  exact ((hcalm.acts.trans hcalm2.acts).tail hleave).trans (ha.trans hfinal.acts)

/-! ## Cancellation -/

lemma Calm.cancel (hc : s.cancels i) (hp : (k.tasks i).kind = .process) (hu : k.Used i) : Calm s k (k.cancel i) := by
  refine .act (.cancel hc hp hu) rfl fun hr => ?_
  change (update k.tasks i _ k.current).state = .running
  rcases eq_or_ne k.current i with e | hne
  · rw [← e, update_self]
    unfold Task.stop
    dsimp only
    rw [hr, if_neg nofun]
  · rwa [update_of_ne hne]

/-- The task that Ctrl+C ends is the live owner of the active session, and no shell. -/
def Interrupts (k : Kernel) (i : TaskSlot) : Prop :=
  ∃ σ, k.console.active = some σ ∧ (k.console.sessions σ).closing = false ∧ (k.console.sessions σ).owner = some i ∧
    (k.console.records i).live = true ∧ (k.console.records i).shell = false

lemma Registry.live_process (h : k.Registry) (hl : (k.console.records i).live = true) :
    (k.tasks i).kind = .process ∧ k.Used i ∧ (k.tasks i).id = (k.console.records i).id := by
  have hk : (k.tasks i).kind = .process := by
    cases hk : (k.tasks i).kind with
    | process => rfl
    | kernel =>
      rw [(h.matched i).kernel hk] at hl
      cases hl
  refine ⟨hk, fun hu => ?_, ((h.matched i).id hk).symm⟩
  rw [(h.regular i).cleared hu] at hk
  cases hk

lemma Calm.cancelForeground (h : k.Registry) (hs : ∀ i, k.Interrupts i → s.cancels i) :
    Calm s k k.cancelForeground := by
  unfold Kernel.cancelForeground
  dsimp only
  split
  · exact .refl k
  rename_i htarget
  split
  · exact .refl k
  · rename_i i hf
    have hi := List.find?_some hf
    simp only [Bool.and_eq_true, beq_iff_eq, bne_iff_ne, ne_eq] at hi
    obtain ⟨⟨⟨hid, hp⟩, -⟩, hu⟩ := hi
    refine .cancel (hs i ?_) hp hu
    unfold Console.cancellationTarget at htarget hid
    split at htarget
    · exact absurd rfl htarget
    rename_i σ ha
    simp only [ha] at hid
    split at htarget
    · exact absurd rfl htarget
    rename_i m hm
    simp only [hm] at hid
    split at htarget
    · rename_i hl
      simp only [Bool.and_eq_true, Bool.not_eq_true'] at hl
      rw [if_pos (by simp [hl])] at hid
      obtain ⟨-, hum, hidm⟩ := h.live_process hl.1
      obtain rfl := h.ids hu hum (hid.trans hidm.symm)
      split at hm
      · cases hm
      · rename_i hclose
        exact ⟨σ, ha, Bool.not_eq_true _ ▸ hclose, hm, hl.1, hl.2⟩
    · exact absurd rfl htarget

/-- The running process may end `i`: as its parent, or as a command of the shell whose child `i` is. -/
def Demands (k : Kernel) (session : Bool) (i : TaskSlot) : Prop :=
  k.task.kind = .process ∧ i ≠ k.current ∧ (k.console.records i).shell = false ∧ (k.tasks i).orphaned = false ∧
    if session then ∃ shell, k.console.commandShell (some k.current) = some shell ∧
      k.console.sameSession (some i) (some shell) = true ∧ (k.tasks i).parent = (k.tasks shell).id
    else (k.tasks i).parent = k.task.id

lemma Calm.requestTermination (pid : Nat) (session : Bool) (hs : ∀ i, k.Demands session i → s.cancels i) :
    Calm s k (k.requestTermination pid session).2 := by
  unfold Kernel.requestTermination
  split
  · exact .refl k
  split
  · exact .refl k
  rename_i hproc
  split
  · exact .refl k
  rename_i i hf
  have hi := List.find?_some hf
  simp only [Bool.and_eq_true, beq_iff_eq, bne_iff_ne, ne_eq] at hi
  split
  · exact .refl k
  rename_i hno
  simp only [Bool.or_eq_true, not_or, Bool.not_eq_true, Bool.not_eq_false', beq_eq_false_iff_ne] at hno
  obtain ⟨⟨⟨hauth, hne⟩, hshell⟩, horphan⟩ := hno
  split
  · exact .refl k
  · refine .cancel (hs i ⟨?_, hne, hshell, horphan, ?_⟩) hi.1.2 hi.1.1
    · simpa [currentIsProcess] using hproc
    · unfold authorized at hauth
      cases session with
      | false => simpa using hauth
      | true =>
        simp only [if_true] at hauth ⊢
        split at hauth
        · cases hauth
        · rename_i shell _
          simp only [Bool.and_eq_true, beq_iff_eq] at hauth
          exact ⟨shell, hauth.1.1, hauth.1.2, hauth.2⟩

end Kernel

end RumKernel.Process
