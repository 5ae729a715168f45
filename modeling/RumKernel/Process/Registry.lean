import RumKernel.Process.Members
import RumKernel.Process.Task

/-!
# Acts on the registry

Every step of the kernel is a sequence of acts: records change without changing whose they are, a task is
dispatched, published, cancelled, adopted, leaves or is released, a role is given. Here is what an act may do, and
the invariant of the registry that every act keeps.
-/

namespace RumKernel.Process
open Function

variable {t : Task} {space : Nat} {foreground halted shell : Bool}

/-- A wait registration belongs to a blocked task. -/
structure Task.Waits (t : Task) : Prop where
  blocked : (t.waiting.isSome = true ∨ t.deadlineActive = true) ↔ t.state = .blocked
  deadline : t.deadline ≠ 0 → t.deadlineActive = true

/-- What a record says by itself. -/
structure Task.Regular (t : Task) : Prop where
  waits : t.Waits
  cleared : t.state = .unused → t = {}
  id : t.state ≠ .unused → 0 < t.id
  kernel : t.kind = .kernel → t.processId = 0 ∧ t.parent = 0 ∧ t.cancellationRequested = false ∧ t.orphaned = false
  process : t.kind = .process → 0 < t.processId
  orphan : t.orphaned = true → t.cancellationRequested = true ∧ t.parent = 1

/-- What a record says about the console member in it. -/
structure Task.Matches (t : Task) (i : TaskSlot) (s : Console TaskSlot) : Prop where
  kernel : t.kind = .kernel → s.records i = {}
  id : t.kind = .process → s.ids i = t.id
  live : t.kind = .process → (s.links.live i = true ↔ t.state ≠ .exited)
  cancelled : t.kind = .process → s.links.cancelled i = t.cancellationRequested

lemma Task.Matches.frame {i : TaskSlot} {c c' : Console TaskSlot} (h : t.Matches i c) (hv : c'.Valid)
    (hf : Links.Frame c.links c'.links i) (hid : c'.ids i = c.ids i) : t.Matches i c' where
  kernel hk := by
    have hr := h.kernel hk
    have hl : c.links.live i = false := congrArg Member.live hr
    refine hv.fresh (hf.live.trans hl) (hf.session.trans (congrArg Member.session hr))
      (hf.cancelled.trans (congrArg Member.cancelled hr)) (hf.shell.trans (congrArg Member.shell hr)) ?_
      (hf.foreground.trans (congrArg Member.foregroundLaunch hr)) (hid.trans (congrArg Member.id hr))
    rw [← Bool.not_eq_true]
    intro hc
    have : c.links.command i = false := congrArg Member.command hr
    rw [hf.command hc] at this
    cases this
  id hp := hid.trans (h.id hp)
  live hp := by
    rw [hf.live]
    exact h.live hp
  cancelled hp := hf.cancelled.trans (h.cancelled hp)

/-- A change that leaves alone who the task is. -/
structure Task.Same (t t' : Task) : Prop where
  id : t'.id = t.id
  processId : t'.processId = t.processId
  kind : t'.kind = t.kind
  space : t'.space = t.space
  used : t'.state = .unused ↔ t.state = .unused

lemma Task.Same.refl (t : Task) : t.Same t := ⟨rfl, rfl, rfl, rfl, .rfl⟩

/-- A change that leaves alone to whom the task belongs and whether it is to end. -/
structure Task.Quiet (t t' : Task) : Prop extends Task.Same t t' where
  parent : t'.parent = t.parent
  cancellationRequested : t'.cancellationRequested = t.cancellationRequested
  orphaned : t'.orphaned = t.orphaned
  exited : t'.state = .exited ↔ t.state = .exited
  result : t.state = .exited → t'.termination = t.termination ∧ t'.exitStatus = t.exitStatus ∧ t'.fault = t.fault
  running : t'.state = .running → t.state = .running
  waits : t'.Waits

/-- The slots that a step may cancel, and the exited processes it may release although they are no orphans. -/
structure Scope where
  cancels : TaskSlot → Prop
  collects : TaskSlot → Prop

namespace Kernel

def Used (k : Kernel) (i : TaskSlot) : Prop := (k.tasks i).state ≠ .unused

instance (k : Kernel) (i : TaskSlot) : Decidable (k.Used i) := inferInstanceAs (Decidable ((k.tasks i).state ≠ .unused))

lemma mem_userSlots {i : TaskSlot} : i ∈ userSlots ↔ i ≠ bootSlot ∧ i ≠ idleSlot := by
  revert i
  decide

/-- No used slot has a space. -/
def Spare (k : Kernel) (space : Nat) : Prop := ∀ j, k.Used j → (k.tasks j).space ≠ some space

/-- What the kernel does within a step. -/
inductive Act (s : Scope) (k : Kernel) : Kernel → Prop
  | quiet {f} (hf : ∀ i, f i = k.tasks i ∨ k.Used i ∧ (k.tasks i).Quiet (f i))
      (hidle : (f idleSlot).state = .runnable ∨ (f idleSlot).state = .running) : Act s k { k with tasks := f }
  | environment {sequence operation} : Act s k { k with sequence, operation }
  | halt : Act s k k.halt
  | dispatch {i} (hn : ∀ j, (k.tasks j).state ≠ .running) (hi : (k.tasks i).state = .runnable) : Act s k (k.dispatch i)
  | create {i owned} (hi : i ∈ userSlots) (hu : (k.tasks i).state = .unused) (hid : k.nextId ≠ 0)
      (hs : ∀ a, owned = some a → k.Spare a) : Act s k ({ k with nextId := (k.nextId + 1) % 2 ^ 32 }.store i
        { id := k.nextId, state := .runnable, space := owned, ownsSpace := owned.isSome } {})
  | publish {i space foreground shell} (hi : i ∈ userSlots) (hu : (k.tasks i).state = .unused) (hid : k.nextId ≠ 0)
      (hs : k.Spare space) (hr : k.task.state = .running) (hl : k.console.canLaunch k.member foreground = true)
      (hsh : shell = true → foreground = true ∧ k.task.kind = .kernel) : Act s k (k.publish i space foreground shell)
  | mark {i} (hi : (k.tasks i).kind = .process) : Act s k { k with console := (k.console.markShell (some i)).2 }
  | grant {i text} (hi : (k.tasks i).kind = .process) (hu : k.Used i) (he : (k.tasks i).state ≠ .exited)
      (hp : (k.tasks i).parent = k.task.id) (hc : k.task.kind = .process)
      (hg : (k.console.grantCommand (some k.current) (some i)).1 = true) :
      Act s k { k.setTask i { k.tasks i with commandText := text } with
        console := (k.console.grantCommand (some k.current) (some i)).2
        origin := update k.origin i { k.origin i with grantor := k.task.id } }
  | request {status} : Act s k { k with console := (k.console.requestExit (some k.current) status).2 }
  | endForeground {i} (hi : (k.tasks i).kind = .process) : Act s k
      { k with console := k.console.setMember i { k.console.records i with foregroundLaunch := false } }
  | cancel {i} (hc : s.cancels i) (hi : (k.tasks i).kind = .process) (hu : k.Used i) : Act s k (k.cancel i)
  | adopt {i} (hc : s.cancels i) (hi : (k.tasks i).kind = .process) (hu : k.Used i) (hne : i ≠ k.current) :
      Act s k (k.adopt i)
  | leave (hb : k.current ≠ bootSlot) (hid : k.current ≠ idleSlot) (hr : k.task.state = .running)
      (hno : ∀ j, k.Used j → (k.tasks j).parent ≠ k.task.id) : Act s k k.leave
  | reap {i halted} (hi : i ∈ userSlots) (he : (k.tasks i).state = .exited) (hne : i ≠ k.current)
      (ho : (k.tasks i).kind = .process → (k.tasks i).orphaned = true ∨ s.collects i) :
      Act s k ({ k with console := (k.console.detach (some i)).2, halted }.store i {} {})

/-- What the kernel does within steps. -/
def Acts (s : Scope) : Kernel → Kernel → Prop := Relation.ReflTransGen (Act s)

/-- The invariant of the registry. -/
structure Registry (k : Kernel) : Prop where
  console : k.console.Valid
  boot : (k.tasks bootSlot).id = 1 ∧ (k.tasks bootSlot).kind = .kernel ∧ k.Used bootSlot ∧
    (k.tasks bootSlot).state ≠ .exited
  idle : (k.tasks idleSlot).id = 2 ∧ (k.tasks idleSlot).kind = .kernel ∧
    ((k.tasks idleSlot).state = .runnable ∨ (k.tasks idleSlot).state = .running)
  fixed : (k.tasks bootSlot).space = none ∧ (k.tasks idleSlot).space = none
  running : ∀ {i}, (k.tasks i).state = .running → i = k.current
  regular : ∀ i, (k.tasks i).Regular
  matched : ∀ i, (k.tasks i).Matches i k.console
  bound : k.nextId < 2 ^ 32
  issued : ∀ {i}, k.Used i → (k.tasks i).id < 2 ^ 32 ∧ (k.nextId = 0 ∨ (k.tasks i).id < k.nextId)
  ids : ∀ {i j}, k.Used i → k.Used j → (k.tasks i).id = (k.tasks j).id → i = j
  issuedProcess : ∀ {i}, k.Used i → (k.tasks i).processId < k.nextProcessId
  processIds : ∀ {i j}, 0 < (k.tasks i).processId → (k.tasks i).processId = (k.tasks j).processId → i = j
  spaces : ∀ {i j a}, k.Used i → k.Used j → (k.tasks i).space = some a → (k.tasks j).space = some a → i = j
  parents : ∀ {i}, k.Used i → (k.tasks i).kind = .process →
    ∃ j, k.Used j ∧ (k.tasks j).state ≠ .exited ∧ (k.tasks j).id = (k.tasks i).parent
  others : ∀ {i}, k.Used i → (k.tasks i).parent ≠ (k.tasks i).id

variable {k k' : Kernel} {i j : TaskSlot} {s : Scope}

namespace Registry

/-! ## Changes to the records -/

section
variable (h : k.Registry)
include h

lemma ne_boot (hp : (k.tasks i).kind = .process) : i ≠ bootSlot := by
  rintro rfl
  exact nomatch hp.symm.trans h.boot.2.1

lemma ne_idle (hp : (k.tasks i).kind = .process) : i ≠ idleSlot := by
  rintro rfl
  exact nomatch hp.symm.trans h.idle.2.1

lemma setConsole {c : Console TaskSlot} (hv : c.Valid) (hm : ∀ i, (k.tasks i).Matches i c) :
    { k with console := c }.Registry where
  console := hv
  boot := h.boot
  idle := h.idle
  fixed := h.fixed
  running := h.running
  regular := h.regular
  matched := hm
  bound := h.bound
  issued := h.issued
  ids := h.ids
  issuedProcess := h.issuedProcess
  processIds := h.processIds
  spaces := h.spaces
  parents := h.parents
  others := h.others

lemma role {c : ConsoleCall TaskSlot} (hc : c.IsRole)
    (hp : ∀ i, c.target = some i → (k.tasks i).kind = .process) : { k with console := c.next k.console }.Registry := by
  obtain ⟨hv, hmove⟩ := h.console.next c
  obtain ⟨-, hlive, hcan⟩ := hmove.role hc
  refine h.setConsole hv fun i => ?_
  by_cases hi : c.target = some i
  · refine ⟨fun hk => (nomatch hk.symm.trans (hp i hi)), fun h' => ?_, fun h' => ?_, fun h' => ?_⟩
    · rw [Console.ids_role _ _ hc]
      exact (h.matched i).id h'
    · rw [hlive]
      exact (h.matched i).live h'
    · rw [hcan]
      exact (h.matched i).cancelled h'
  · exact (h.matched i).frame hv (hmove.frame hi) (Console.ids_next _ _ hi)

lemma endForeground (hp : (k.tasks i).kind = .process) :
    { k with console := k.console.setMember i { k.console.records i with foregroundLaunch := false } }.Registry := by
  have hv : (k.console.setMember i { k.console.records i with foregroundLaunch := false }).Valid :=
    h.console.setFlags rfl rfl rfl rfl
  refine h.setConsole hv fun j => ?_
  rcases eq_or_ne j i with rfl | hne
  · have hm := h.matched j
    refine ⟨fun hk => (nomatch hk.symm.trans hp), fun h' => ?_, fun h' => ?_, fun h' => ?_⟩
    · rw [Console.ids_setMember_self (by rfl)]
      exact hm.id h'
    · rw [← hm.live h', Console.links_setMember]
      simp [Console.links]
    · rw [← hm.cancelled h', Console.links_setMember]
      simp [Console.links]
  · refine (h.matched j).frame hv ?_ ?_
    · rw [Console.links_setMember]
      refine ⟨?_, ?_, ?_, ?_, ?_, ?_⟩ <;> simp [hne]
    · rw [Console.ids_setMember_self (by rfl)]

section
variable (hsame : ∀ i, (k.tasks i).Same (k'.tasks i))
include hsame

lemma change (hn : k'.nextId = k.nextId)
    (hnp : k'.nextProcessId = k.nextProcessId) (hv : k'.console.Valid) (hboot : (k'.tasks bootSlot).state ≠ .exited)
    (hidle : (k'.tasks idleSlot).state = .runnable ∨ (k'.tasks idleSlot).state = .running)
    (hrun : ∀ {i}, (k'.tasks i).state = .running → i = k'.current) (hreg : ∀ i, (k'.tasks i).Regular)
    (hmat : ∀ i, (k'.tasks i).Matches i k'.console) (hpar : ∀ {i}, k'.Used i → (k'.tasks i).kind = .process →
      ∃ j, k'.Used j ∧ (k'.tasks j).state ≠ .exited ∧ (k'.tasks j).id = (k'.tasks i).parent)
    (hoth : ∀ {i}, k'.Used i → (k'.tasks i).parent ≠ (k'.tasks i).id) : k'.Registry := by
  have hused : ∀ {i}, k'.Used i ↔ k.Used i := fun {i} => not_congr (hsame i).used
  exact {
    console := hv
    boot := ⟨(hsame _).id.trans h.boot.1, (hsame _).kind.trans h.boot.2.1, hused.mpr h.boot.2.2.1, hboot⟩
    idle := ⟨(hsame _).id.trans h.idle.1, (hsame _).kind.trans h.idle.2.1, hidle⟩
    fixed := ⟨(hsame _).space.trans h.fixed.1, (hsame _).space.trans h.fixed.2⟩
    running := hrun
    regular := hreg
    matched := hmat
    bound := hn ▸ h.bound
    issued := fun {i} hu => by
      rw [(hsame i).id, hn]
      exact h.issued (hused.mp hu)
    ids := fun {i j} hi hj e => by
      rw [(hsame i).id, (hsame j).id] at e
      exact h.ids (hused.mp hi) (hused.mp hj) e
    issuedProcess := fun {i} hu => by
      rw [(hsame i).processId, hnp]
      exact h.issuedProcess (hused.mp hu)
    processIds := fun {i j} hi e => by
      rw [(hsame i).processId] at hi e
      rw [(hsame j).processId] at e
      exact h.processIds hi e
    spaces := fun {i j a} hi hj ei ej => by
      rw [(hsame i).space] at ei
      rw [(hsame j).space] at ej
      exact h.spaces (hused.mp hi) (hused.mp hj) ei ej
    parents := hpar
    others := hoth }

lemma parents_of_same (hpar : ∀ i, (k'.tasks i).parent = (k.tasks i).parent)
    (hex : ∀ i, (k.tasks i).state ≠ .exited → (k'.tasks i).state ≠ .exited) (hu : k'.Used i)
    (hp : (k'.tasks i).kind = .process) :
    ∃ j, k'.Used j ∧ (k'.tasks j).state ≠ .exited ∧ (k'.tasks j).id = (k'.tasks i).parent := by
  obtain ⟨j, h1, h2, h3⟩ := h.parents (i := i) (mt (hsame i).used.mpr hu) ((hsame i).kind ▸ hp)
  refine ⟨j, mt (hsame j).used.mp h1, hex j h2, ?_⟩
  rw [(hsame j).id, hpar]
  exact h3

lemma others_of_same
    (hpar : ∀ i, (k'.tasks i).parent = (k.tasks i).parent) (hu : k'.Used i) :
        (k'.tasks i).parent ≠ (k'.tasks i).id := by
  rw [hpar, (hsame i).id]
  exact h.others (mt (hsame i).used.mpr hu)

end

lemma quiet {f : TaskSlot → Task} (hf : ∀ i, f i = k.tasks i ∨ k.Used i ∧ (k.tasks i).Quiet (f i))
    (hidle : (f idleSlot).state = .runnable ∨ (f idleSlot).state = .running) : { k with tasks := f }.Registry := by
  have hsame : ∀ i, (k.tasks i).Same (f i) := fun i => by
    rcases hf i with e | ⟨-, h3⟩
    · rw [e]
      exact .refl _
    · exact h3.toSame
  have hpar : ∀ i, (f i).parent = (k.tasks i).parent := fun i => (hf i).elim (congrArg Task.parent) fun h => h.2.parent
  have hex : ∀ i, (f i).state = .exited ↔ (k.tasks i).state = .exited := fun i => by
    rcases hf i with e | ⟨-, h3⟩
    · rw [e]
    · exact h3.exited
  refine h.change hsame rfl rfl h.console (mt (hex _).mp h.boot.2.2.2) hidle (fun {i} hr => ?_) (fun i => ?_)
    (fun i => ?_) (h.parents_of_same hsame hpar fun i => mt (hex i).mp) (h.others_of_same hsame hpar)
  · rcases hf i with e | ⟨-, h3⟩
    · exact h.running ((congrArg Task.state e).symm.trans hr)
    · exact h.running (h3.running hr)
  · change (f i).Regular
    rcases hf i with e | ⟨h1, h3⟩
    · rw [e]
      exact h.regular i
    · refine ⟨h3.waits, fun hu => absurd (h3.used.mp hu) h1, fun _ => ?_, fun hk => ?_, fun hp => ?_, fun ho => ?_⟩
      · rw [h3.id]
        exact (h.regular i).id h1
      · rw [h3.processId, h3.parent, h3.cancellationRequested, h3.orphaned]
        exact (h.regular i).kernel (h3.kind.symm.trans hk)
      · rw [h3.processId]
        exact (h.regular i).process (h3.kind.symm.trans hp)
      · rw [h3.cancellationRequested, h3.parent]
        exact (h.regular i).orphan (h3.orphaned.symm.trans ho)
  · change (f i).Matches i k.console
    rcases hf i with e | ⟨-, h3⟩
    · rw [e]
      exact h.matched i
    · refine ⟨fun hk => (h.matched i).kernel (h3.kind.symm.trans hk), fun hp => ?_, fun hp => ?_, fun hp => ?_⟩
      · exact ((h.matched i).id (h3.kind.symm.trans hp)).trans h3.id.symm
      · exact ((h.matched i).live (h3.kind.symm.trans hp)).trans (not_congr (hex i)).symm
      · exact ((h.matched i).cancelled (h3.kind.symm.trans hp)).trans h3.cancellationRequested.symm

lemma setTask (hsame : (k.tasks i).Same t) (hpar : t.parent = (k.tasks i).parent) {n : TaskSlot}
    (hidle : i = idleSlot → t.state = .runnable ∨ t.state = .running)
    (hex : t.state = .exited ↔ (k.tasks i).state = .exited)
    (hrun : ∀ j, (update k.tasks i t j).state = .running → j = n) (hreg : t.Regular)
    (hcan : t.cancellationRequested = (k.tasks i).cancellationRequested) :
    { k.setTask i t with current := n }.Registry := by
  have hall : ∀ j, (k.tasks j).Same (update k.tasks i t j) :=
    (forall_update_iff k.tasks fun j u => (k.tasks j).Same u).mpr ⟨hsame, fun j _ => .refl _⟩
  have hparents : ∀ j, (update k.tasks i t j).parent = (k.tasks j).parent :=
    (forall_update_iff k.tasks fun j u => u.parent = (k.tasks j).parent).mpr ⟨hpar, fun _ _ => rfl⟩
  have hexs : ∀ j, (update k.tasks i t j).state = .exited ↔ (k.tasks j).state = .exited :=
    (forall_update_iff k.tasks fun j u => u.state = .exited ↔ (k.tasks j).state = .exited).mpr ⟨hex, fun _ _ => .rfl⟩
  refine h.change hall rfl rfl h.console (mt (hexs _).mp h.boot.2.2.2) ?_ (hrun _) ?_ ?_
    (h.parents_of_same hall hparents fun j => mt (hexs j).mp) (h.others_of_same hall hparents)
  · change (update k.tasks i t idleSlot).state = .runnable ∨ (update k.tasks i t idleSlot).state = .running
    rcases eq_or_ne idleSlot i with e | hne
    · rw [← e, update_self]
      exact hidle e.symm
    · rw [update_of_ne hne]
      exact h.idle.2.2
  · exact (forall_update_iff k.tasks fun _ u => u.Regular).mpr ⟨hreg, fun j _ => h.regular j⟩
  · refine (forall_update_iff k.tasks fun j u => u.Matches j k.console).mpr ⟨?_, fun j _ => h.matched j⟩
    have hm := h.matched i
    refine ⟨fun hk => hm.kernel (hsame.kind ▸ hk), fun hp => ?_, fun hp => ?_, fun hp => ?_⟩
    · exact (hm.id (hsame.kind ▸ hp)).trans hsame.id.symm
    · exact (hm.live (hsame.kind ▸ hp)).trans (not_congr hex).symm
    · exact (hm.cancelled (hsame.kind ▸ hp)).trans hcan.symm

lemma dispatch (hn : ∀ j, (k.tasks j).state ≠ .running) (hi : (k.tasks i).state = .runnable) :
    (k.dispatch i).Registry := by
  have hw := (h.regular i).waits
  refine h.setTask (i := i)
    (t := { k.tasks i with state := .running, reschedule := false, sliceTicks := timeSliceTicks }) (n := i)
    ⟨rfl, rfl, rfl, rfl, ?_⟩ rfl (fun _ => .inr rfl) ?_ (fun j hj => ?_) ?_ rfl
  · simp [hi]
  · simp [hi]
  · by_contra hne
    rw [update_of_ne hne] at hj
    exact hn j hj
  · refine ⟨⟨?_, hw.deadline⟩, nofun, fun _ => (h.regular i).id (by simp [hi]), (h.regular i).kernel,
      (h.regular i).process, (h.regular i).orphan⟩
    exact hw.blocked.trans (iff_of_false (by simp [hi]) nofun)

lemma ask (hsame : (k.tasks i).Same t) (hp : (k.tasks i).kind = .process) (hu : k.Used i)
    (hpar : t.parent = (k.tasks i).parent ∨ t.parent = 1) (hreg : t.Regular) (hcan : t.cancellationRequested = true)
    (hex : t.state = .exited ↔ (k.tasks i).state = .exited) (hrun : t.state = .running → (k.tasks i).state = .running) :
    { k.setTask i t with console := k.console.cancelMember (some i) }.Registry := by
  have hv := (h.console.cancelMember (some i)).1
  have hall : ∀ j, (k.tasks j).Same (update k.tasks i t j) :=
    (forall_update_iff k.tasks fun j u => (k.tasks j).Same u).mpr ⟨hsame, fun j _ => .refl _⟩
  have hexs : ∀ j, (update k.tasks i t j).state = .exited ↔ (k.tasks j).state = .exited :=
    (forall_update_iff k.tasks fun j u => u.state = .exited ↔ (k.tasks j).state = .exited).mpr ⟨hex, fun _ _ => .rfl⟩
  -- the parent of the task is the old one or the boot task, the parents of the others are as before
  have hpars : ∀ j, (update k.tasks i t j).parent = (k.tasks j).parent ∨ j = i ∧ (update k.tasks i t j).parent = 1 :=
    (forall_update_iff k.tasks fun j u => u.parent = (k.tasks j).parent ∨ j = i ∧ u.parent = 1).mpr
      ⟨hpar.imp_right fun e => ⟨rfl, e⟩, fun _ _ => .inl rfl⟩
  refine h.change hall rfl rfl hv (mt (hexs _).mp h.boot.2.2.2) ?_ (fun {j} hj => ?_) ?_ (fun j => ?_)
    (fun {j} hj hjp => ?_) (fun {j} hj => ?_)
  · change (update k.tasks i t idleSlot).state = .runnable ∨ (update k.tasks i t idleSlot).state = .running
    rw [update_of_ne (h.ne_idle hp).symm]
    exact h.idle.2.2
  · refine h.running ?_
    change (update k.tasks i t j).state = .running at hj
    rcases eq_or_ne j i with rfl | hne
    · rw [update_self] at hj
      exact hrun hj
    · rwa [update_of_ne hne] at hj
  · exact (forall_update_iff k.tasks fun _ u => u.Regular).mpr ⟨hreg, fun j _ => h.regular j⟩
  · revert j
    refine (forall_update_iff k.tasks fun j u => u.Matches j (k.console.cancelMember (some i))).mpr
      ⟨?_, fun j hne => ?_⟩
    · have hm := h.matched i
      refine ⟨fun hk => (nomatch hp.symm.trans (hsame.kind.symm.trans hk)), fun _ => ?_, fun _ => ?_, fun _ => ?_⟩
      · rw [hsame.id, ← hm.id hp]
        exact congrFun Console.ids_cancelMember i
      · have hl : (k.console.cancelMember (some i)).links.live i = k.console.links.live i := by
          simp [Console.cancelMember, Console.links, Console.setMember]
        rw [hl, hm.live hp]
        exact not_congr hex.symm
      · rw [hcan]
        simp [Console.cancelMember, Console.links, Console.setMember]
    · have hne' : (ConsoleCall.cancelMember (some i)).target ≠ some j := fun e => hne (Option.some.inj e).symm
      exact (h.matched j).frame hv ((h.console.cancelMember (some i)).2.frame hne')
        (Console.ids_next k.console (.cancelMember (some i)) hne')
  · change ∃ a, (update k.tasks i t a).state ≠ .unused ∧ (update k.tasks i t a).state ≠ .exited ∧
      (update k.tasks i t a).id = (update k.tasks i t j).parent
    rcases hpars j with e | ⟨-, e⟩
    · obtain ⟨a, h1, h2, h3⟩ := h.parents (i := j) (mt (hall j).used.mpr hj) ((hall j).kind ▸ hjp)
      exact ⟨a, mt (hall a).used.mp h1, mt (hexs a).mp h2, (hall a).id.trans (h3.trans e.symm)⟩
    · exact ⟨bootSlot, mt (hall _).used.mp h.boot.2.2.1, mt (hexs _).mp h.boot.2.2.2,
        (hall _).id.trans (h.boot.1.trans e.symm)⟩
  · change (update k.tasks i t j).parent ≠ (update k.tasks i t j).id
    rw [(hall j).id]
    rcases hpars j with e | ⟨rfl, e⟩
    · rw [e]
      exact h.others (mt (hall j).used.mpr hj)
    · rw [e, ← h.boot.1]
      exact fun e => h.ne_boot hp (h.ids hu h.boot.2.2.1 e.symm)

end

lemma stop (hreg : t.Regular) (hp : t.kind = .process) (hu : t.state ≠ .unused) (u : Task) (hsame : t.Same u)
    (hw : u.waiting = t.waiting ∧ u.deadlineActive = t.deadlineActive ∧ u.deadline = t.deadline ∧ u.state = t.state)
    (ho : u.orphaned = true → u.parent = 1) :
    t.Same u.stop ∧ u.stop.parent = u.parent ∧ u.stop.Regular ∧ u.stop.cancellationRequested = true ∧
      (u.stop.state = .exited ↔ t.state = .exited) ∧ (u.stop.state = .running → t.state = .running) := by
  obtain ⟨hw1, hw2, hw3, hw4⟩ := hw
  have hk : u.kind ≠ .kernel := fun e => nomatch hp.symm.trans (hsame.kind.symm.trans e)
  have hpid : 0 < u.processId := hsame.processId ▸ hreg.process hp
  have hid : 0 < u.id := hsame.id ▸ hreg.id hu
  unfold Task.stop
  dsimp only
  split
  · rename_i hb
    refine ⟨⟨hsame.id, hsame.processId, hsame.kind, hsame.space, iff_of_false nofun hu⟩, rfl,
      ⟨⟨?_, fun h => absurd rfl h⟩,
      nofun, fun _ => hid, fun e => absurd e hk, fun _ => hpid, fun e => ⟨rfl, ho e⟩⟩, rfl,
        iff_of_false nofun ?_, nofun⟩
    · simp [Task.wake, Task.clearWait]
    · simp [← hw4, hb]
  · refine ⟨⟨hsame.id, hsame.processId, hsame.kind, hsame.space, hsame.used⟩, rfl,
      ⟨⟨?_, ?_⟩, fun e => absurd (hsame.used.mp e) hu,
      fun _ => hid, fun e => absurd e hk, fun _ => hpid, fun e => ⟨rfl, ho e⟩⟩, rfl, iff_of_eq (congrArg (· = _) hw4),
      hw4.symm.trans⟩
    · change (u.waiting.isSome = true ∨ u.deadlineActive = true) ↔ u.state = .blocked
      rw [hw1, hw2, hw4]
      exact hreg.waits.blocked
    · change u.deadline ≠ 0 → u.deadlineActive = true
      rw [hw2, hw3]
      exact hreg.waits.deadline

section
variable (h : k.Registry)
include h

section
variable (hp : (k.tasks i).kind = .process) (hu : k.Used i)
include hp hu

lemma cancel : (k.cancel i).Registry := by
  obtain ⟨h1, h2, h3, h4, h5, h6⟩ := stop (h.regular i) hp hu (k.tasks i) (.refl _) ⟨rfl, rfl, rfl, rfl⟩
    fun e => ((h.regular i).orphan e).2
  exact h.ask h1 hp hu (.inl h2) h3 h4 h5 h6

lemma adopt : (k.adopt i).Registry := by
  obtain ⟨h1, h2, h3, h4, h5, h6⟩ := stop (h.regular i) hp hu
    { k.tasks i with parent := (k.tasks bootSlot).id, orphaned := true } ⟨rfl, rfl, rfl, rfl, .rfl⟩ ⟨rfl, rfl, rfl, rfl⟩
    fun _ => h.boot.1
  exact h.ask h1 hp hu (.inr (h2.trans h.boot.1)) h3 h4 h5 h6

end

lemma leave (hb : k.current ≠ bootSlot) (hid : k.current ≠ idleSlot) (hr : k.task.state = .running)
    (hno : ∀ j, k.Used j → (k.tasks j).parent ≠ k.task.id) : k.leave.Registry := by
  have hr : (k.tasks k.current).state = .running := hr
  obtain ⟨hv, hexit, hdead⟩ := h.console.memberExit_some k.current
  let t : Task := { k.tasks k.current with state := .exited }
  have hused : k.Used k.current := by simp [Used, hr]
  have hall : ∀ j, (k.tasks j).Same (update k.tasks k.current t j) :=
    (forall_update_iff k.tasks fun j u => (k.tasks j).Same u).mpr
      ⟨⟨rfl, rfl, rfl, rfl, iff_of_false nofun hused⟩, fun j _ => .refl _⟩
  have hpars : ∀ j, (update k.tasks k.current t j).parent = (k.tasks j).parent :=
    (forall_update_iff k.tasks fun j u => u.parent = (k.tasks j).parent).mpr ⟨rfl, fun _ _ => rfl⟩
  refine h.change hall rfl rfl hv ?_ ?_ (fun {j} hj => ?_) ?_ (fun j => ?_) (fun {j} hj hjp => ?_)
    (h.others_of_same hall hpars)
  · change (update k.tasks k.current t bootSlot).state ≠ .exited
    rw [update_of_ne hb.symm]
    exact h.boot.2.2.2
  · change (update k.tasks k.current t idleSlot).state = .runnable ∨
      (update k.tasks k.current t idleSlot).state = .running
    rw [update_of_ne hid.symm]
    exact h.idle.2.2
  · change (update k.tasks k.current t j).state = .running at hj
    change j = k.current
    by_contra hne
    rw [update_of_ne hne] at hj
    exact hne (h.running hj)
  · refine (forall_update_iff k.tasks fun _ u => u.Regular).mpr ⟨?_, fun j _ => h.regular j⟩
    have hreg := h.regular k.current
    exact ⟨⟨hreg.waits.blocked.trans (iff_of_false (by simp [hr]) nofun), hreg.waits.deadline⟩, nofun,
      fun _ => hreg.id hused, hreg.kernel, hreg.process, hreg.orphan⟩
  · change (update k.tasks k.current t j).Matches j (k.console.memberExit (some k.current)).2
    revert j
    refine (forall_update_iff k.tasks fun j u => u.Matches j (k.console.memberExit (some k.current)).2).mpr
      ⟨?_, fun j hne => ?_⟩
    · have hm := h.matched k.current
      refine ⟨fun hk => ?_, fun hp => ?_, fun _ => ?_, fun hp => ?_⟩
      · -- a kernel task has no session to leave
        have hrec := hm.kernel hk
        have : (k.console.memberExit (some k.current)).2 = k.console := by
          unfold Console.memberExit
          simp [hrec]
        rw [this]
        exact hrec
      · rw [Console.ids_memberExit]
        exact hm.id hp
      · exact iff_of_false (by simp [hdead]) (fun h => h rfl)
      · rw [hexit.cancelled]
        exact hm.cancelled hp
    · have hne' : (ConsoleCall.memberExit (some k.current)).target ≠ some j := fun e => hne (Option.some.inj e).symm
      exact (h.matched j).frame hv (hexit.frame hne) (Console.ids_next k.console (.memberExit (some k.current)) hne')
  · change ∃ a, (update k.tasks k.current t a).state ≠ .unused ∧ (update k.tasks k.current t a).state ≠ .exited ∧
      (update k.tasks k.current t a).id = (update k.tasks k.current t j).parent
    have hj' : k.Used j := mt (hall j).used.mpr hj
    obtain ⟨a, h1, h2, h3⟩ := h.parents hj' ((hall j).kind ▸ hjp)
    have hne : a ≠ k.current := by
      rintro rfl
      exact hno j hj' h3.symm
    refine ⟨a, ?_, ?_, ?_⟩
    · rwa [update_of_ne hne]
    · rwa [update_of_ne hne]
    · rw [update_of_ne hne, hpars]
      exact h3

lemma records_unused (hu : (k.tasks i).state = .unused) : k.console.records i = {} := by
  refine (h.matched i).kernel ?_
  rw [(h.regular i).cleared hu]

omit h in
/-- What the new value shares with no old one, and no two old ones with each other, tells all slots apart. -/
lemma eq_of_update {t : Task} {P : Task → Task → Prop} (hsymm : ∀ {u v}, P u v → P v u)
    (hnew : ∀ j, ¬P t (k.tasks j)) (hold : ∀ {a b}, P (k.tasks a) (k.tasks b) → a = b) {a b : TaskSlot}
    (hab : P (update k.tasks i t a) (update k.tasks i t b)) : a = b := by
  rcases eq_or_ne a i with ea | ea <;> rcases eq_or_ne b i with eb | eb
  · rw [ea, eb]
  · rw [ea, update_self, update_of_ne eb] at hab
    exact absurd hab (hnew b)
  · rw [eb, update_self, update_of_ne ea] at hab
    exact absurd (hsymm hab) (hnew a)
  · rw [update_of_ne ea, update_of_ne eb] at hab
    exact hold hab

lemma enroll (hi : i ∈ userSlots) (hu : (k.tasks i).state = .unused) (hid : k.nextId ≠ 0)
    (ht : k'.tasks = update k.tasks i t) (hcur : k'.current = k.current) (hn : k'.nextId = (k.nextId + 1) % 2 ^ 32)
    (hnp : k.nextProcessId ≤ k'.nextProcessId)
    (htp : t.processId = 0 ∨ t.processId = k.nextProcessId) (htn : t.processId < k'.nextProcessId)
    (htid : t.id = k.nextId) (hts : t.state = .runnable) (hspace : ∀ a, t.space = some a → k.Spare a)
    (hpar : t.kind = .process → ∃ j, k.Used j ∧ (k.tasks j).state ≠ .exited ∧ (k.tasks j).id = t.parent)
    (hoth : t.parent ≠ k.nextId) (hreg : t.Regular) (hv : k'.console.Valid)
    (hmat : t.Matches i k'.console) (hmats : ∀ j, j ≠ i → (k.tasks j).Matches j k'.console) : k'.Registry := by
  obtain ⟨hib, hii⟩ := mem_userSlots.mp hi
  have hother : ∀ {j}, j ≠ i → k'.tasks j = k.tasks j := fun hne => by rw [ht, update_of_ne hne]
  -- what holds of the new record and of each old one
  have hall : ∀ {P : TaskSlot → Task → Prop}, P i t → (∀ j, j ≠ i → P j (k.tasks j)) → ∀ j, P j (k'.tasks j) := by
    intro P hnew hold
    rw [ht]
    exact (forall_update_iff k.tasks P).mpr ⟨hnew, hold⟩
  have hpair : ∀ {P : Task → Task → Prop}, (∀ {u v}, P u v → P v u) → (∀ j, ¬P t (k.tasks j)) →
      (∀ {a b}, P (k.tasks a) (k.tasks b) → a = b) → ∀ {a b}, P (k'.tasks a) (k'.tasks b) → a = b := by
    rw [ht]
    exact eq_of_update
  have hparent : ∀ {n}, (∃ a, k.Used a ∧ (k.tasks a).state ≠ .exited ∧ (k.tasks a).id = n) →
      ∃ a, k'.Used a ∧ (k'.tasks a).state ≠ .exited ∧ (k'.tasks a).id = n := by
    rintro n ⟨a, ha⟩
    refine ⟨a, ?_⟩
    rwa [Used, hother fun e : a = i => ha.1 (e ▸ hu)]
  -- the ids below the next one stay below the next one, unless they are used up
  have hbelow : ∀ {n}, n ≤ k.nextId → n < 2 ^ 32 ∧ (k'.nextId = 0 ∨ n < k'.nextId) := fun {n} hle => by
    have := h.bound
    rw [hn]
    omega
  have hfresh : ∀ {j}, k.Used j → (k.tasks j).id < k.nextId := fun hj => (h.issued hj).2.resolve_left hid
  have hpid : ∀ {j}, 0 < (k.tasks j).processId → (k.tasks j).processId < k.nextProcessId := fun {j} hj => by
    refine h.issuedProcess fun hun => ?_
    rw [(h.regular j).cleared hun] at hj
    exact absurd hj (by decide)
  exact {
    console := hv
    boot := by
      rw [Used, hother hib.symm]
      exact h.boot
    idle := by
      rw [hother hii.symm]
      exact h.idle
    fixed := by
      rw [hother hib.symm, hother hii.symm]
      exact h.fixed
    running := fun {j} => by
      rw [hcur]
      exact hall (P := fun j u => u.state = .running → j = k.current) (fun e => nomatch hts.symm.trans e)
        (fun j _ => h.running) j
    regular := hall hreg fun j _ => h.regular j
    matched := hall (P := fun j u => u.Matches j k'.console) hmat hmats
    bound := by
      rw [hn]
      exact Nat.mod_lt _ (by decide)
    issued := fun {j} => hall (P := fun _ u => u.state ≠ .unused → u.id < 2 ^ 32 ∧ (k'.nextId = 0 ∨ u.id < k'.nextId))
      (fun _ => htid ▸ hbelow le_rfl) (fun j _ hj => hbelow (hfresh hj).le) j
    ids := fun ha hb e => hpair (P := fun u v => u.state ≠ .unused ∧ v.state ≠ .unused ∧ u.id = v.id)
      (fun ⟨x, y, e⟩ => ⟨y, x, e.symm⟩) (fun j ⟨_, hj, e⟩ => (hfresh hj).ne (e.symm.trans htid))
      (fun ⟨x, y, e⟩ => h.ids x y e) ⟨ha, hb, e⟩
    issuedProcess := fun {j} => hall (P := fun _ u => u.state ≠ .unused → u.processId < k'.nextProcessId)
      (fun _ => htn) (fun j _ hj => (h.issuedProcess hj).trans_le hnp) j
    processIds := fun ha e => hpair (P := fun u v => 0 < u.processId ∧ u.processId = v.processId)
      (fun ⟨x, e⟩ => ⟨e ▸ x, e.symm⟩)
      (fun j ⟨x, e⟩ => (hpid (e ▸ x)).ne (e.symm.trans (htp.resolve_left x.ne')))
      (fun ⟨x, e⟩ => h.processIds x e) ⟨ha, e⟩
    spaces := fun {_ _ c} ha hb ea eb =>
      hpair (P := fun u v => (u.state ≠ .unused ∧ u.space = some c) ∧ v.state ≠ .unused ∧ v.space = some c) And.symm
        (fun j ⟨⟨_, x⟩, hj, y⟩ => hspace c x j hj y) (fun ⟨⟨x, ex⟩, y, ey⟩ => h.spaces x y ex ey) ⟨⟨ha, ea⟩, hb, eb⟩
    parents := fun {j} => hall (P := fun _ u => u.state ≠ .unused → u.kind = .process →
      ∃ a, k'.Used a ∧ (k'.tasks a).state ≠ .exited ∧ (k'.tasks a).id = u.parent)
      (fun _ hp => hparent (hpar hp)) (fun j _ hj hp => hparent (h.parents hj hp)) j
    others := fun {j} => hall (P := fun _ u => u.state ≠ .unused → u.parent ≠ u.id) (fun _ => htid ▸ hoth)
      (fun j _ hj => h.others hj) j }

lemma setMember_unused (hu : (k.tasks i).state = .unused) : k.console.setMember i {} = k.console := by
  unfold Console.setMember
  rw [← h.records_unused hu, update_eq_self]

lemma create {owned : Option Nat} (hi : i ∈ userSlots) (hu : (k.tasks i).state = .unused)
    (hid : k.nextId ≠ 0) (hs : ∀ a, owned = some a → k.Spare a) :
    ({ k with nextId := (k.nextId + 1) % 2 ^ 32 }.store i
      { id := k.nextId, state := .runnable, space := owned, ownsSpace := owned.isSome } {}).Registry := by
  have hc := h.setMember_unused hu
  have hpos : 0 < k.nextProcessId := (Nat.zero_le _).trans_lt (h.issuedProcess h.boot.2.2.1)
  refine h.enroll hi hu hid rfl rfl rfl le_rfl (.inl rfl) hpos rfl rfl hs nofun (Ne.symm hid) ?_ ?_ ?_ fun j _ => ?_
  · exact ⟨⟨by simp, fun h => absurd rfl h⟩, nofun, fun _ => Nat.pos_of_ne_zero hid, fun _ => ⟨rfl, rfl, rfl, rfl⟩,
      nofun, nofun⟩
  · change (k.console.setMember i {}).Valid
    rw [hc]
    exact h.console
  · change Task.Matches _ i (k.console.setMember i {})
    rw [hc]
    exact ⟨fun _ => h.records_unused hu, nofun, nofun, nofun⟩
  · change Task.Matches _ j (k.console.setMember i {})
    rw [hc]
    exact h.matched j

lemma console_publish (hu : (k.tasks i).state = .unused) :
    (k.publish i space foreground shell).console = if shell then
      ((k.console.attach (some i) k.nextId k.member foreground).2.markShell (some i)).2
    else (k.console.attach (some i) k.nextId k.member foreground).2 := by
  unfold Kernel.publish Kernel.store
  dsimp only
  rw [h.setMember_unused hu]
  cases shell <;> rfl

lemma publish (hi : i ∈ userSlots)
    (hu : (k.tasks i).state = .unused) (hid : k.nextId ≠ 0) (hs : k.Spare space) (hr : k.task.state = .running)
    (hl : k.console.canLaunch k.member foreground = true) : (k.publish i space foreground shell).Registry := by
  have hrec := h.records_unused hu
  obtain ⟨hv, hmove⟩ := h.console.attach (some i) k.nextId k.member foreground
  have hok := h.console.attach_ok (m := i) (congrArg Member.live hrec) (congrArg Member.session hrec) hid hl
  obtain ⟨_, hview⟩ := Console.view_attach (f := fun r => (r.id, r.live, r.cancelled)) (fun _ _ _ _ => rfl) hok
  obtain ⟨h1, h2⟩ := Prod.mk.inj hview
  obtain ⟨h2, h3⟩ := Prod.mk.inj h2
  set c := (k.console.attach (some i) k.nextId k.member foreground).2 with hcdef
  have hused : k.Used k.current := by
    intro e
    cases hr.symm.trans e
  have hne : k.current ≠ i := by
    rintro rfl
    cases hr.symm.trans hu
  have hpos : 0 < k.nextProcessId := (Nat.zero_le _).trans_lt (h.issuedProcess h.boot.2.2.1)
  -- the console before the new process is marked as a shell
  have hmats : (∀ j, j ≠ i → (k.tasks j).Matches j c) ∧ c.ids i = k.nextId ∧ c.links.live i = true ∧
      c.links.cancelled i = false := by
    refine ⟨fun j hj => ?_, h1, h2, h3⟩
    have hne' : (ConsoleCall.attach (some i) k.nextId k.member foreground).target ≠ some j := fun e =>
      hj (Option.some.inj e).symm
    exact (h.matched j).frame hv (hmove.frame hne') (Console.ids_next k.console (.attach ..) hne')
  have hfinal : ∃ c', (k.publish i space foreground shell).console = c' ∧ c'.Valid ∧
      (∀ j, j ≠ i → (k.tasks j).Matches j c') ∧ c'.ids i = k.nextId ∧ c'.links.live i = true ∧
      c'.links.cancelled i = false := by
    refine ⟨_, h.console_publish hu, ?_⟩
    rw [← hcdef]
    cases shell with
    | false => exact ⟨hv, hmats⟩
    | true =>
      obtain ⟨hv', hmove'⟩ := hv.markShell (some i)
      obtain ⟨-, e1, e2⟩ := hmove'.role trivial
      obtain ⟨hm, hi1, hi2, hi3⟩ := hmats
      refine ⟨hv', fun j hj => ?_, ?_, ?_, ?_⟩
      · have hne' : (ConsoleCall.markShell (some i)).target ≠ some j := fun e => hj (Option.some.inj e).symm
        exact (hm j hj).frame hv' (hmove'.frame hne') (Console.ids_next c (.markShell (some i)) hne')
      · exact (congrFun (Console.ids_role c (.markShell (some i)) trivial) i).trans hi1
      · exact (congrFun e1 i).trans hi2
      · exact (congrFun e2 i).trans hi3
  obtain ⟨c', hc', hv', hm', hi1, hi2, hi3⟩ := hfinal
  let t : Task := { id := k.nextId, state := .runnable, processId := k.nextProcessId, parent := k.task.id,
                    kind := .process, space := some space, ownsSpace := true, handles := 3 }
  have hreg : t.Regular :=
    ⟨⟨by simp [t], fun h => absurd rfl h⟩, nofun, fun _ => Nat.pos_of_ne_zero hid, nofun, fun _ => hpos, nofun⟩
  have hmat : t.Matches i c' := ⟨nofun, fun _ => hi1, fun _ => iff_of_true hi2 nofun, fun _ => hi3⟩
  have htasks : (k.publish i space foreground shell).tasks = update k.tasks i t := by
    cases shell <;> rfl
  have hcur : (k.publish i space foreground shell).current = k.current := by
    cases shell <;> rfl
  have hnid : (k.publish i space foreground shell).nextId = (k.nextId + 1) % 2 ^ 32 := by
    cases shell <;> rfl
  have hnpid : (k.publish i space foreground shell).nextProcessId = k.nextProcessId + 1 := by
    cases shell <;> rfl
  refine h.enroll hi hu hid htasks hcur hnid (hnpid ▸ Nat.le_succ _) (.inr rfl) (hnpid ▸ Nat.lt_succ_self _) rfl rfl ?_
    (fun _ => ⟨k.current, hused, ?_, rfl⟩) ((h.issued hused).2.resolve_left hid).ne hreg (hc' ▸ hv')
      (hc' ▸ hmat) (hc' ▸ hm')
  · rintro a ha
    obtain rfl := Option.some.inj ha
    exact hs
  · intro e
    cases hr.symm.trans e

lemma live_exited (he : (k.tasks i).state = .exited) : k.console.links.live i = false := by
  cases hk : (k.tasks i).kind with
  | kernel => exact congrArg Member.live ((h.matched i).kernel hk)
  | process =>
    rw [← Bool.not_eq_true]
    intro hl
    exact ((h.matched i).live hk).mp hl he

lemma console_reap (he : (k.tasks i).state = .exited) :
    ({ k with console := (k.console.detach (some i)).2, halted }.store i {} {}).console =
        (k.console.detach (some i)).2 := by
  change (k.console.detach (some i)).2.setMember i {} = _
  unfold Console.setMember
  rw [← Console.records_detach (h.console.detach_ok (h.live_exited he)), update_eq_self]

lemma reap (hi : i ∈ userSlots) (he : (k.tasks i).state = .exited) (hne : i ≠ k.current) :
    ({ k with console := (k.console.detach (some i)).2, halted }.store i {} {}).Registry := by
  obtain ⟨hib, hii⟩ := mem_userSlots.mp hi
  obtain ⟨hv, hmove⟩ := h.console.detach (some i)
  have hrec := Console.records_detach (h.console.detach_ok (h.live_exited he))
  have hc : ({ k with console := (k.console.detach (some i)).2, halted }.store i {} {}).console = _ := h.console_reap he
  set k' := ({ k with console := (k.console.detach (some i)).2, halted }.store i {} {}) with hk'
  have hself : k'.tasks i = {} := update_self ..
  have hother : ∀ {j}, j ≠ i → k'.tasks j = k.tasks j := fun hj => update_of_ne hj ..
  have hused : ∀ {j}, k'.Used j ↔ j ≠ i ∧ k.Used j := fun {j} => by
    rcases eq_or_ne j i with rfl | e
    · simp [Used, hself]
    · simp [Used, hother e, e]
  exact {
    console := hc ▸ hv
    boot := by
      rw [hused, hother hib.symm]
      exact ⟨h.boot.1, h.boot.2.1, ⟨hib.symm, h.boot.2.2.1⟩, h.boot.2.2.2⟩
    idle := by
      rw [hother hii.symm]
      exact h.idle
    fixed := by
      rw [hother hib.symm, hother hii.symm]
      exact h.fixed
    running := fun {j} hj => by
      rcases eq_or_ne j i with rfl | e
      · rw [hself] at hj
        cases hj
      · rw [hother e] at hj
        exact h.running hj
    regular := fun j => by
      rcases eq_or_ne j i with rfl | e
      · rw [hself]
        exact ⟨⟨by simp, fun h => absurd rfl h⟩, fun _ => rfl, fun h => absurd rfl h, fun _ => ⟨rfl, rfl, rfl, rfl⟩,
          nofun, nofun⟩
      · rw [hother e]
        exact h.regular j
    matched := fun j => by
      rw [hc]
      rcases eq_or_ne j i with rfl | e
      · rw [hself]
        exact ⟨fun _ => hrec, nofun, nofun, nofun⟩
      · rw [hother e]
        have hne' : (ConsoleCall.detach (some i)).target ≠ some j := fun h => e (Option.some.inj h).symm
        exact (h.matched j).frame hv (hmove.frame hne') (Console.ids_next k.console (.detach (some i)) hne')
    bound := h.bound
    issued := fun {j} hj => by
      obtain ⟨e, hj⟩ := hused.mp hj
      rw [hother e]
      exact h.issued hj
    ids := fun {a b} ha hb e => by
      obtain ⟨ea, ha⟩ := hused.mp ha
      obtain ⟨eb, hb⟩ := hused.mp hb
      rw [hother ea, hother eb] at e
      exact h.ids ha hb e
    issuedProcess := fun {j} hj => by
      obtain ⟨e, hj⟩ := hused.mp hj
      rw [hother e]
      exact h.issuedProcess hj
    processIds := fun {a b} ha e => by
      have hz : ∀ {j}, 0 < (k'.tasks j).processId → j ≠ i := by
        rintro j hj rfl
        rw [hself] at hj
        exact absurd hj (by decide)
      have ea := hz ha
      have eb := hz (e ▸ ha)
      rw [hother ea] at ha e
      rw [hother eb] at e
      exact h.processIds ha e
    spaces := fun {a b c} ha hb ea eb => by
      obtain ⟨na, ha⟩ := hused.mp ha
      obtain ⟨nb, hb⟩ := hused.mp hb
      rw [hother na] at ea
      rw [hother nb] at eb
      exact h.spaces ha hb ea eb
    parents := fun {j} hj hjp => by
      obtain ⟨e, hj⟩ := hused.mp hj
      rw [hother e] at hjp ⊢
      obtain ⟨a, h1, h2, h3⟩ := h.parents hj hjp
      have ha : a ≠ i := by
        rintro rfl
        exact h2 he
      refine ⟨a, hused.mpr ⟨ha, h1⟩, ?_⟩
      rw [hother ha]
      exact ⟨h2, h3⟩
    others := fun {j} hj => by
      obtain ⟨e, hj⟩ := hused.mp hj
      rw [hother e]
      exact h.others hj }

lemma congr (ht : k'.tasks = k.tasks) (hc : k'.console = k.console) (hcur : k'.current = k.current)
    (hn : k'.nextId = k.nextId) (hnp : k'.nextProcessId = k.nextProcessId) : k'.Registry := by
  refine h.change (fun i => ?_) hn hnp ?_ ?_ ?_ ?_ ?_ ?_ ?_ ?_
  all_goals simp only [Used, ht, hc, hcur]
  · exact .refl _
  · exact h.console
  · exact h.boot.2.2.2
  · exact h.idle.2.2
  · exact h.running
  · exact h.regular
  · exact h.matched
  · exact h.parents
  · exact h.others

lemma grant {c : ConsoleCall TaskSlot} (hc : c.IsRole) (hp : ∀ i, c.target = some i →
    (k.tasks i).kind = .process) (hu : k.Used i) {text : List UInt8} {origin : TaskSlot → Origin} :
    { k.setTask i { k.tasks i with commandText := text } with console := c.next k.console, origin }.Registry := by
  have hr := h.regular i
  have h1 : ({ k with console := c.next k.console }.setTask i { k.tasks i with commandText := text }).Registry := by
    refine (h.role hc hp).setTask (i := i) (t := { k.tasks i with commandText := text }) (n := k.current)
      ⟨rfl, rfl, rfl, rfl, .rfl⟩ rfl (fun e => ?_) .rfl (fun j hj => ?_) ?_ rfl
    · subst e
      exact h.idle.2.2
    · refine h.running ?_
      rcases eq_or_ne j i with rfl | hne
      · rwa [update_self] at hj
      · rwa [update_of_ne hne] at hj
    · exact ⟨⟨hr.waits.blocked, hr.waits.deadline⟩, fun e => absurd e hu, fun _ => hr.id hu, hr.kernel,
        hr.process, hr.orphan⟩
  exact h1.congr rfl rfl rfl rfl rfl

/-- **The registry invariant is kept by every act.** -/
theorem act (ha : Act s k k') : k'.Registry := by
  cases ha with
  | quiet hf hidle => exact h.quiet hf hidle
  | environment => exact h.congr rfl rfl rfl rfl rfl
  | halt => exact h.congr rfl rfl rfl rfl rfl
  | dispatch hn hi => exact h.dispatch hn hi
  | create hi hu hid hs => exact h.create hi hu hid hs
  | publish hi hu hid hs hr hl => exact h.publish hi hu hid hs hr hl
  | mark hi => exact h.role (c := .markShell _) trivial fun j hj => Option.some.inj hj ▸ hi
  | grant hi hu => exact h.grant (c := .grantCommand _ _) trivial (fun j hj => Option.some.inj hj ▸ hi) hu
  | request => exact h.role (c := .requestExit _ _) trivial nofun
  | endForeground hi => exact h.endForeground hi
  | cancel _ hi hu => exact h.cancel hi hu
  | adopt _ hi hu => exact h.adopt hi hu
  | leave hb hid hr hno => exact h.leave hb hid hr hno
  | reap hi he hne => exact h.reap hi he hne

end

end Registry

end Kernel

end RumKernel.Process
