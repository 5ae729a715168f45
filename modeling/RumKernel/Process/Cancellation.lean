import RumKernel.Process.Invariant

/-!
# Who may cancel a process

A process is asked to end only on the word of those that have authority over it: the user at the console, its
parent, a command of the shell whose child it is, or the end of an ancestor or of the root of its session. Nobody has
authority over a shell of the boot task.
-/

namespace RumKernel.Process
open Function

namespace Kernel

variable {k k' : Kernel} {i j : TaskSlot} {s : Scope} {n : Nat}

lemma Act.cancels (h : Act s k k') (hb : (k.tasks i).cancellationRequested = false)
    (ha : (k'.tasks i).cancellationRequested = true) : s.cancels i := by
  -- the slots that an act writes, and the others
  have hset : ∀ {j : TaskSlot} {t : Task}, (update k.tasks j t i).cancellationRequested = true → i = j ∧
    t.cancellationRequested = true :=
    fun {j t} h => by
      rcases eq_or_ne i j with rfl | hne
      · rw [update_self] at h
        exact ⟨rfl, h⟩
      · rw [update_of_ne hne, hb] at h
        cases h
  cases h with
  | quiet hf =>
    rcases hf i with e | ⟨-, hq⟩
    · cases hb.symm.trans ((congrArg Task.cancellationRequested e).symm.trans ha)
    · cases hb.symm.trans (hq.cancellationRequested.symm.trans ha)
  | environment | halt | mark | request | endForeground => cases hb.symm.trans ha
  | dispatch | grant | leave =>
    obtain ⟨rfl, ht⟩ := hset ha
    cases hb.symm.trans ht
  | create => cases (hset ha).2
  | @publish _ _ _ shell => cases shell <;> cases (hset ha).2
  | cancel hc =>
    obtain ⟨rfl, -⟩ := hset ha
    exact hc
  | adopt hc =>
    obtain ⟨rfl, -⟩ := hset ha
    exact hc
  | reap => cases (hset ha).2

lemma Acts.cancels (h : Acts s k k') (hb : (k.tasks i).cancellationRequested = false)
    (ha : (k'.tasks i).cancellationRequested = true) : s.cancels i := by
  induction h with
  | refl => cases hb.symm.trans ha
  | @tail k1 k2 _ hact ih =>
    cases h1 : (k1.tasks i).cancellationRequested with
    | true => exact ih h1
    | false => exact hact.cancels h1 ha

/-! ## The slot of a task -/

/-- The id is one that the counter has had. -/
def Issued (k : Kernel) (n : Nat) : Prop := n ≠ 0 ∧ (k.nextId = 0 ∨ n < k.nextId)

lemma Issued.succ (hb : k.nextId < 2 ^ 32) (hz : k.nextId ≠ 0) (h : k.Issued n)
    (hn : k'.nextId = (k.nextId + 1) % 2 ^ 32) : k'.Issued n := by
  refine ⟨h.1, ?_⟩
  have := h.2
  rw [hn]
  omega

lemma Act.issued (hreg : k.Registry) (h : Act s k k') (hn : k.Issued n) : k'.Issued n := by
  cases h with
  | create _ _ hz => exact hn.succ hreg.bound hz rfl
  | @publish _ _ _ shell _ _ hz =>
    refine hn.succ hreg.bound hz ?_
    cases shell <;> rfl
  | _ => exact hn

lemma Registry.used_of_id (h : k.Registry) (hn : k.Issued n) (hid : (k.tasks i).id = n) : k.Used i := fun hu => by
  rw [(h.regular i).cleared hu] at hid
  exact hn.1 hid.symm

lemma Act.same (h : Act s k k') (hn : k.Issued n) (hz : k.nextId ≠ n) (hid : (k'.tasks i).id = n) :
    (k.tasks i).id = n ∧ (k'.tasks i).kind = (k.tasks i).kind ∧
        ((k'.tasks i).parent = (k.tasks i).parent ∨ s.cancels i) := by
  -- the slots that an act writes, and the others
  have hset : ∀ {j : TaskSlot} {t : Task}, k'.tasks = update k.tasks j t → (t.id = n → (k.tasks j).id = n ∧
      t.kind = (k.tasks j).kind ∧ (t.parent = (k.tasks j).parent ∨ s.cancels j)) →
      (k.tasks i).id = n ∧ (k'.tasks i).kind = (k.tasks i).kind ∧
        ((k'.tasks i).parent = (k.tasks i).parent ∨ s.cancels i) :=
    fun {j t} he ht => by
      rw [he] at hid ⊢
      rcases eq_or_ne i j with rfl | hne
      · rw [update_self] at hid ⊢
        exact ht hid
      · rw [update_of_ne hne] at hid ⊢
        exact ⟨hid, rfl, .inl rfl⟩
  cases h with
  | quiet hf =>
    rcases hf i with e | ⟨-, hq⟩
    · dsimp only at hid ⊢
      rw [e] at hid ⊢
      exact ⟨hid, rfl, .inl rfl⟩
    · exact ⟨hq.id.symm.trans hid, hq.kind, .inl hq.parent⟩
  | environment | halt | mark | request | endForeground => exact ⟨hid, rfl, .inl rfl⟩
  | dispatch | grant | leave => exact hset rfl fun ht => ⟨ht, rfl, .inl rfl⟩
  | create => exact hset rfl fun ht => absurd ht hz
  | @publish _ _ _ shell => exact hset (by cases shell <;> rfl) fun ht => absurd ht hz
  | cancel hc | adopt hc =>
    refine hset rfl fun ht => ?_
    rw [Task.id_stop] at ht
    exact ⟨ht, Task.kind_stop _, .inr hc⟩
  | reap => exact hset rfl fun ht => absurd ht.symm hn.1

lemma Act.follows (hreg : k.Registry) (h : Act s k k') (hu : k'.Used i) :
    Relation.ReflTransGen (Links.Follows i) k.console.links k'.console.links := by
  have hsound := hreg.console.sound
  cases h with
  | quiet | environment | halt | dispatch => exact .refl
  | create _ hu' =>
    change Relation.ReflTransGen _ _ (k.console.setMember _ {}).links
    rw [hreg.setMember_unused hu']
  | @publish j space foreground shell _ hu' =>
    obtain ⟨hv, hmove⟩ := hreg.console.attach (some j) k.nextId k.member foreground
    have h1 := Relation.ReflTransGen.single (Links.Follows.move (x := i) hsound hmove nofun)
    rw [hreg.console_publish hu']
    cases shell with
    | false => exact h1
    | true => exact h1.tail (.move hv.sound (hv.markShell (some j)).2 nofun)
  | @mark j => exact .single (.move hsound (hreg.console.markShell (some j)).2 nofun)
  | @grant j => exact .single (.move hsound (hreg.console.grantCommand (some k.current) (some j)).2 nofun)
  | @request status => exact .single (.move hsound (hreg.console.requestExit (some k.current) status).2 nofun)
  | endForeground =>
    change Relation.ReflTransGen _ _ (k.console.setMember _ _).links
    rw [Console.links_setForeground]
    exact .single .foreground
  | @cancel j | @adopt j => exact .single (.move hsound (hreg.console.cancelMember (some j)).2 nofun)
  | leave => exact .single (.move hsound (hreg.console.memberExit (some k.current)).2 nofun)
  | @reap j halted _ he =>
    rw [hreg.console_reap he]
    refine .single (.move hsound (hreg.console.detach (some j)).2 fun e => hu ?_)
    obtain rfl := Option.some.inj (ConsoleCall.detach.inj e)
    exact congrArg Task.state (update_self j ({} : Task) k.tasks)

lemma Issued.ne (h : k.Issued n) : k.nextId ≠ n := by
  rintro rfl
  exact h.2.elim h.1 (Nat.lt_irrefl _)

lemma Acts.slot (hreg : k.Registry) (h : Acts s k k') (hn : k.Issued n) : k'.Issued n ∧ ∀ i, (k'.tasks i).id = n →
    (k.tasks i).id = n ∧ (k'.tasks i).kind = (k.tasks i).kind ∧
      ((k'.tasks i).parent = (k.tasks i).parent ∨ s.cancels i) ∧
      Relation.ReflTransGen (Links.Follows i) k.console.links k'.console.links := by
  induction h with
  | refl => exact ⟨hn, fun i hi => ⟨hi, rfl, .inl rfl, .refl⟩⟩
  | @tail k1 k2 hacts ha ih =>
    obtain ⟨hn1, ih⟩ := ih
    have hreg1 := Acts.registry hacts hreg
    have hn2 := ha.issued hreg1 hn1
    refine ⟨hn2, fun i hi => ?_⟩
    obtain ⟨h1, h2, h3⟩ := ha.same hn1 hn1.ne hi
    obtain ⟨h4, h5, h6, h7⟩ := ih i h1
    refine ⟨h4, h2.trans h5, ?_, h7.trans (ha.follows hreg1 ((hreg1.act ha).used_of_id hn2 hi))⟩
    rcases h3 with h3 | h3
    · exact h6.imp_left h3.trans
    · exact .inr h3

lemma Ready.next_slot (h : k.Ready) (hn : k.Issued n) (call : KernelCall) : (call.next k).Issued n ∧
    ∀ i, ((call.next k).tasks i).id = n →
      (k.tasks i).id = n ∧ Relation.ReflTransGen (Links.Follows i) k.console.links (call.next k).console.links := by
  unfold KernelCall.next
  split
  · exact ⟨hn, fun i hi => ⟨hi, .refl⟩⟩
  · obtain ⟨h1, h2⟩ := (KernelCall.perform_reaches h.registry h.running call).acts.slot h.registry hn
    exact ⟨h1, fun i hi => ⟨(h2 i hi).1, (h2 i hi).2.2.2⟩⟩

lemma Ready.slot (h : k.Ready) (hn : k.Issued n) (calls : List KernelCall) (hi : ((k.run calls).tasks i).id = n) :
    (k.tasks i).id = n ∧ Relation.ReflTransGen (Links.Follows i) k.console.links (k.run calls).console.links := by
  induction calls generalizing k with
  | nil => exact ⟨hi, .refl⟩
  | cons call calls ih =>
    have hstep := h.next_slot hn call
    obtain ⟨h1, h2⟩ := ih (h.next call) hstep.1 hi
    obtain ⟨h3, h4⟩ := hstep.2 i h1
    exact ⟨h3, h4.trans h2⟩

/-! ## The shell of the boot task -/

/-- The task with the id `n`, where there is one, is a shell of the boot task that nobody has cancelled. -/
structure Guards (k : Kernel) (n : Nat) : Prop where
  issued : k.Issued n
  slot : ∀ {i}, (k.tasks i).id = n → (k.tasks i).kind = .process ∧ (k.tasks i).parent = 1 ∧
    (k.tasks i).cancellationRequested = false ∧ k.console.links.shell i = true ∧
    ∃ σ, k.console.links.session i = some σ ∧ (k.console.links.root σ = some i ∨ k.console.links.closing σ = true)

section
variable (h : k.Guards n) (hready : k.Ready)
include h hready

lemma Guards.not_cancels (hi : (k.tasks i).id = n) (call : KernelCall) : ¬call.Cancels k i := by
  obtain ⟨hreg, hrun⟩ := hready
  obtain ⟨hp, hpar, -, hshell, σ, hsess, hroot⟩ := h.slot hi
  rintro (⟨-, τ, -, -, -, -, hno⟩ | ⟨_, _, -, -, -, hno, -⟩ | ⟨⟨hb, -, -⟩, hne, hab⟩)
  · cases hshell.symm.trans hno
  · cases hshell.symm.trans hno
  · rcases hab with hd | ⟨hr, hs⟩
    · -- the parent is the boot task, which is nobody's child
      obtain ⟨a, ha, hai⟩ := Relation.TransGen.tail'_iff.mp hd
      have hid : (k.tasks a).id = (k.tasks bootSlot).id := by rw [← hai.2, hpar, hreg.boot.1]
      rcases Relation.ReflTransGen.cases_tail ha with e | ⟨b, hb', hba⟩
      · exact hb (hreg.ids (e ▸ used_current hrun) hreg.boot.2.2.1 (e ▸ hid))
      · obtain rfl := hreg.ids hba.1 hreg.boot.2.2.1 hid
        have hub : k.Used b := by
          rcases Relation.ReflTransGen.cases_tail hb' with rfl | ⟨_, -, hc⟩
          · exact used_current hrun
          · exact hc.1
        cases (hreg.child_process hub hba).symm.trans hreg.boot.2.1
    · -- the root of the session is the shell itself, unless the session is closed
      have hs : k.console.links.session k.current = some σ := by
        simp only [Console.sameSession, Bool.and_eq_true, beq_iff_eq] at hs
        exact hs.2.symm.trans hsess
      have hr : k.console.links.root σ = some k.current := by
        unfold Console.isRoot at hr
        simp only [show (k.console.records k.current).session = some σ from hs, beq_iff_eq] at hr
        exact hr
      rcases hroot with hroot | hclosed
      · exact hne (Option.some.inj (hroot.symm.trans hr))
      · cases (hreg.console.sound.closed hclosed).1.symm.trans hr

lemma Guards.next (call : KernelCall) : (call.next k).Guards n := by
  unfold KernelCall.next
  split
  · exact h
  have hacts := (KernelCall.perform_reaches hready.registry hready.running call).acts
  obtain ⟨hn, hslot⟩ := hacts.slot hready.registry h.issued
  refine ⟨hn, fun {i} hi => ?_⟩
  obtain ⟨h1, h2, h3, h4⟩ := hslot i hi
  obtain ⟨g1, g2, g3, g4, σ, g5, g6⟩ := h.slot h1
  have hno : ¬(call.scope k).cancels i := h.not_cancels hready h1 call
  obtain ⟨e1, e3⟩ := Links.Follows.root h4 g5 g6
  refine ⟨h2.trans g1, (h3.resolve_right hno).trans g2, ?_, (Links.Follows.shell h4 g5 g4).2, σ, e1, e3⟩
  rw [← Bool.not_eq_true]
  exact fun hc => hno (hacts.cancels g3 hc)

lemma Guards.run (calls : List KernelCall) : (k.run calls).Guards n := by
  induction calls generalizing k with
  | nil => exact h
  | cons call calls ih => exact ih (h.next hready call) (hready.next call)

end

lemma Guards.publish (hready : k.Ready) (hb : k.current = bootSlot) (l : Launch) (hn : (k.createShellProcess l).1 ≠ 0) :
    (k.createShellProcess l).2.Guards (k.createShellProcess l).1 ∧ (k.createShellProcess l).1 = k.nextId := by
  obtain ⟨hreg, hrun⟩ := hready
  have hk : k.task.kind = .kernel := by
    unfold task
    rw [hb]
    exact hreg.boot.2.1
  have hmember : k.member = none := by simp [member, currentIsProcess, hk]
  have he : k.createShellProcess l = k.createProcess l true true := by simp [createShellProcess, currentIsProcess, hk]
  rw [he] at hn ⊢
  unfold createProcess at hn ⊢
  split at hn
  · exact absurd rfl hn
  rename_i hc
  rw [if_neg hc]
  split at hn
  · exact absurd rfl hn
  rename_i slot hs
  split at hn
  · exact absurd rfl hn
  rename_i hh
  rw [if_neg hh]
  refine ⟨?_, rfl⟩
  obtain ⟨h1, h2, h3⟩ := availableSlot_spec hreg hs
  simp only [Bool.or_eq_true, decide_eq_true_eq, not_or, Bool.not_eq_true', Bool.not_eq_false] at hc
  have hid : k.nextId ≠ 0 := hc.1.1.1.1.1
  have hlaunch : k.console.canLaunch none true = true := hmember ▸ hc.1.1.2
  have hrec := hreg.records_unused h2
  -- the console: the new member leads a session and is marked
  obtain ⟨σ, hclose, hl⟩ :=
    hreg.console.attach_root (m := slot) (congrArg Member.live hrec) (congrArg Member.session hrec) hid hlaunch
  set c := (k.console.attach (some slot) k.nextId none true).2
  have hmark := (Console.markShell_links (s := c) (m := slot) (σ := σ) (by simp [hl, Links.enter, Links.lead])
    (by simp [hl, Links.enter, Links.lead]) (by simp [hl, Links.enter, Links.lead])
      (by simp [hl, Links.enter, Links.lead])
    (by simp [hl, Links.enter, Links.lead, hclose]) (by simp [hl, Links.enter, Links.lead])
    (by simp [hl, Links.enter, Links.lead]) (by simp [hl, Links.enter, Links.lead])).2
  have hcons : (k.publish slot l.space true true).console.links =
      { c.links with shell := update c.links.shell slot true } := by
    rw [hreg.console_publish h2, hmember]
    exact hmark
  have hbound := hreg.bound
  refine ⟨⟨hid, ?_⟩, fun {i} hi => ?_⟩
  · change (k.nextId + 1) % 2 ^ 32 = 0 ∨ k.nextId < (k.nextId + 1) % 2 ^ 32
    omega
  · have hslot : i = slot := by
      by_contra hne
      change (update k.tasks slot _ i).id = k.nextId at hi
      rw [update_of_ne hne] at hi
      have hu : k.Used i := fun hu => by
        rw [(hreg.regular i).cleared hu] at hi
        exact hid hi.symm
      exact absurd hi ((hreg.issued hu).2.resolve_left hid).ne
    subst hslot
    have ht : (k.publish i l.space true true).tasks i = k.newTask l.space := update_self ..
    rw [ht, hcons, hl]
    refine ⟨rfl, ?_, rfl, update_self .., σ, ?_, .inl ?_⟩
    · change (k.tasks k.current).id = 1
      rw [hb]
      exact hreg.boot.1
    · simp [Links.enter, Links.lead]
    · simp [Links.enter, Links.lead]

lemma run_halted (h : k.halted = true) (calls : List KernelCall) : k.run calls = k := by
  induction calls with
  | nil => rfl
  | cons call calls ih =>
    change Kernel.run (call.next k) calls = k
    rw [KernelCall.next, if_pos h, ih]

/-- **Cancellation authority.** Whenever a step of a run cancels a process, the step is Ctrl+C and the process the live,
unmarked owner of the active session; or a request of its parent; or a request, for the session, of a process that holds
the authority of a command, the process being another child of the shell in the same session; or the termination of an
ancestor or of the root of its session. A shell that the boot task has published is never cancelled. -/
theorem cancellation_authority (calls : List KernelCall) :
    let k := initial.run calls
    (∀ (call : KernelCall) i, (k.tasks i).cancellationRequested = false →
      ((call.next k).tasks i).cancellationRequested = true →
      (call = .cancelForeground ∧ ∃ σ, k.console.active = some σ ∧ (k.console.sessions σ).owner = some i ∧
        (k.console.records i).live = true ∧ (k.console.records i).shell = false) ∨
      (∃ pid session, call = .requestTermination pid session ∧ (k.tasks i).parent = k.task.id) ∨
      (∃ pid shell, call = .requestTermination pid true ∧ k.console.commandShell (some k.current) = some shell ∧
        i ≠ k.current ∧ (k.tasks i).parent = (k.tasks shell).id ∧ k.console.sameSession (some i) (some shell) = true) ∨
      (call.Terminates k ∧ (k.Descends k.current i ∨
        k.console.isRoot (some k.current) = true ∧ k.console.sameSession (some i) (some k.current) = true))) ∧
    (∀ l rest i, k.current = bootSlot → (k.createShellProcess l).1 ≠ 0 →
      ((k.run (.createShellProcess l :: rest)).tasks i).id = (k.createShellProcess l).1 →
      ((k.run (.createShellProcess l :: rest)).tasks i).cancellationRequested = false) := by
  intro k
  have hready : k.Ready := ready calls
  constructor
  · intro call i hb ha
    unfold KernelCall.next at ha
    split at ha
    · cases hb.symm.trans ha
    have hacts := (KernelCall.perform_reaches hready.registry hready.running call).acts
    have hcan : call.Cancels k i := hacts.cancels hb ha
    rcases hcan with ⟨hc, σ, h1, -, h3, h4, h5⟩ | ⟨pid, session, hc, -, hne, -, -, hd⟩ | ⟨ht, -, hab⟩
    · exact .inl ⟨hc, σ, h1, h3, h4, h5⟩
    · cases session with
      | false => exact .inr (.inl ⟨pid, false, hc, hd⟩)
      | true =>
        obtain ⟨shell, d1, d2, d3⟩ := hd
        exact .inr (.inr (.inl ⟨pid, shell, hc, d1, hne, d3, d2⟩))
    · exact .inr (.inr (.inr ⟨ht, hab⟩))
  · intro l rest i hboot hn hi
    obtain ⟨hguards, hid⟩ := Guards.publish hready hboot l hn
    cases hh : k.halted with
    | true =>
      -- a halted kernel has not published the shell
      rw [run_halted hh, hid] at hi
      have hreg := hready.registry
      have hu : k.Used i := fun hu => by
        rw [(hreg.regular i).cleared hu] at hi
        exact hn (hid.trans hi.symm)
      exact absurd hi ((hreg.issued hu).2.resolve_left fun e => hn (hid.trans e)).ne
    | false =>
      have hstep : KernelCall.next k (.createShellProcess l) = (k.createShellProcess l).2 := by
        rw [KernelCall.next, hh]
        rfl
      have hguards' : (KernelCall.next k (.createShellProcess l)).Guards (k.createShellProcess l).1 := hstep ▸ hguards
      exact ((hguards'.run (hready.next _) rest).slot hi).2.2.1

/-- The first shell is not cancelled from the keyboard. -/
theorem cancellation_authority_shell :
    ((initial.run [.createShellProcess ⟨7, true, true, true⟩, .cancelForeground]).tasks 2).cancellationRequested =
      false :=
  (cancellation_authority []).2 ⟨7, true, true, true⟩ [.cancelForeground] 2 rfl (by decide +kernel) (by decide +kernel)

end Kernel

end RumKernel.Process
