import RumKernel.Process.Cancellation

/-!
# The authority of a shell's command

A process controls the session of its shell while the shell has launched it in the foreground, has made it a command,
and waits for it. Here is why nobody else gets this authority, and why it ends with the shell.
-/

namespace RumKernel.Process
open Function

variable {c : ConsoleCall TaskSlot} {t : Task} {σ : Slot}

namespace Kernel

variable {k k' : Kernel} {i j m r : TaskSlot} {s : Scope} {n : Nat}

/-- What the roles in the console say about how the processes came to be. -/
structure Origins (k : Kernel) : Prop where
  launched : ∀ {i}, (k.tasks i).kind = .process → (k.tasks i).parent = (k.origin i).launcher ∨
    (k.tasks i).orphaned = true
  restored : ∀ {i}, k.console.links.restore i ≠ none → (k.origin i).foreground = true
  granted : ∀ {m}, k.console.links.command m = true → k.console.links.live m = true ∧ ∃ σ r,
    k.console.links.session m = some σ ∧
    k.console.links.root σ = some r ∧ k.console.links.shell r = true ∧ (k.origin m).launcher = (k.tasks r).id ∧
    (k.origin m).foreground = true ∧ (k.origin m).grantor = (k.tasks r).id

namespace Origins

lemma initial : Kernel.initial.Origins where
  launched {i} hp := by
    have h : ∀ i, (Kernel.initial.tasks i).kind = .kernel := by decide
    cases (h i).symm.trans hp
  restored h := absurd rfl h
  granted := nofun

section
variable (h : k.Origins) (hs : k.console.links.Sound)
include h hs

lemma move (hm : k.console.links.Move c k'.console.links) (hcall : ∀ a b, c ≠ .grantCommand (some a) (some b))
    (hatt : ∀ x id p, c = .attach (some x) id (some p) true → (k'.origin x).foreground = true)
    (hlaunched : ∀ {i}, (k'.tasks i).kind = .process →
      (k'.tasks i).parent = (k'.origin i).launcher ∨ (k'.tasks i).orphaned = true)
    (hlive : ∀ i, k.console.links.live i = true → (k'.tasks i).id = (k.tasks i).id ∧ k'.origin i = k.origin i) :
      k'.Origins where
  launched := hlaunched
  restored {i} hi := by
    rcases hm.restored hi with h' | ⟨id, p, e⟩
    · obtain ⟨y, hy⟩ := Option.ne_none_iff_exists'.mp h'
      rw [(hlive i (hs.returns hy).1).2]
      exact h.restored h'
    · exact hatt i id p e
  granted {m} hc := by
    rcases hm.command hs hc with ⟨shell, e⟩ | ⟨hc', hl, hkeep⟩
    · exact absurd e (hcall shell m)
    · obtain ⟨h1, σ, r, h2, h3, h4, h5⟩ := h.granted hc'
      obtain ⟨e2, e3, e4⟩ := hkeep σ r h2 h3 h4
      refine ⟨hl.trans h1, σ, r, e2, e3, e4, ?_⟩
      rw [(hlive m h1).2, (hlive r (hs.rooted h3).1).1]
      exact h5

lemma congr (hm : k'.console.links = k.console.links) (hlaunched : ∀ {i}, (k'.tasks i).kind = .process →
      (k'.tasks i).parent = (k'.origin i).launcher ∨ (k'.tasks i).orphaned = true)
    (hlive : ∀ i, k.console.links.live i = true → (k'.tasks i).id = (k.tasks i).id ∧ k'.origin i = k.origin i) :
        k'.Origins := by
  refine h.move hs (c := .cancelMember none) ?_ nofun nofun hlaunched hlive
  rw [hm]
  exact .none

lemma write
    (ht : k'.tasks = update k.tasks i t) (hor : k'.origin = k.origin) (hm : k.console.links.Move c k'.console.links)
    (hcall : ∀ a b, c ≠ .grantCommand (some a) (some b)) (hatt : ∀ x id p, c ≠ .attach (some x) id (some p) true)
    (hid : t.id = (k.tasks i).id) (hk : t.kind = (k.tasks i).kind)
    (hp : t.parent = (k.tasks i).parent ∧ t.orphaned = (k.tasks i).orphaned ∨ t.orphaned = true) : k'.Origins := by
  refine h.move hs hm hcall (fun x id p e => absurd e (hatt x id p)) (fun {j} => ?_) fun j _ => ⟨?_, congrFun hor j⟩
  · rw [ht, hor]
    refine (forall_update_iff k.tasks fun j u => u.kind = .process → u.parent = (k.origin j).launcher ∨
      u.orphaned = true).mpr ⟨fun hpr => ?_, fun j _ => h.launched⟩ j
    rcases hp with ⟨h1, h2⟩ | h2
    · rw [h1, h2]
      exact h.launched (hk.symm.trans hpr)
    · exact .inr h2
  · rw [ht]
    exact (forall_update_iff k.tasks fun j u => u.id = (k.tasks j).id).mpr ⟨hid, fun _ _ => rfl⟩ j

lemma store {o : Origin} (ht : k'.tasks = update k.tasks i t) (hor : k'.origin = update k.origin i o)
    (hm : k.console.links.Move c k'.console.links) (hcall : ∀ a b, c ≠ .grantCommand (some a) (some b))
    (hatt : ∀ x id p, c = .attach (some x) id (some p) true → x = i ∧ o.foreground = true)
    (hlive : k.console.links.live i = false) (hp : t.kind = .process → t.parent = o.launcher) : k'.Origins := by
  refine h.move hs hm hcall (fun x id p e => ?_) (fun {j} => ?_) fun j hj => ?_
  · obtain ⟨rfl, ho⟩ := hatt x id p e
    rw [hor, update_self]
    exact ho
  · rw [ht, hor]
    rcases eq_or_ne j i with rfl | hne
    · rw [update_self, update_self]
      exact fun hpr => .inl (hp hpr)
    · rw [update_of_ne hne, update_of_ne hne]
      exact h.launched
  · have hne : j ≠ i := by
      rintro rfl
      cases hlive.symm.trans hj
    rw [ht, hor, update_of_ne hne, update_of_ne hne]
    exact ⟨rfl, rfl⟩

end

section
variable (h : k.Origins) (hreg : k.Registry)
include h hreg

lemma publish {space : Nat} {foreground shell : Bool} (hi : i ∈ userSlots)
    (hu : (k.tasks i).state = .unused) (hid : k.nextId ≠ 0) (hsp : k.Spare space) (hr : k.task.state = .running)
    (hl : k.console.canLaunch k.member foreground = true) : (k.publish i space foreground shell).Origins := by
  have hs := hreg.console.sound
  have h1 : (k.publish i space foreground false).Origins := by
    have hm := (hreg.console.attach (some i) k.nextId k.member foreground).2
    refine h.store hs rfl rfl (c := .attach (some i) k.nextId k.member foreground) ?_ nofun (fun x id p e => ?_)
      (congrArg Member.live (hreg.records_unused hu)) fun _ => rfl
    · rw [hreg.console_publish hu]
      exact hm
    · obtain ⟨e1, -, -, e2⟩ := ConsoleCall.attach.inj e
      exact ⟨(Option.some.inj e1).symm, e2⟩
  cases shell with
  | false => exact h1
  | true =>
    have hreg1 : (k.publish i space foreground false).Registry := hreg.publish hi hu hid hsp hr hl
    have hm := (hreg1.console.markShell (some i)).2
    refine h1.move hreg1.console.sound (c := .markShell (some i)) ?_ nofun nofun h1.launched fun _ _ => ⟨rfl, rfl⟩
    rw [hreg.console_publish hu] at hm
    rw [hreg.console_publish hu, hreg.console_publish hu]
    exact hm

lemma grant (hp : (k.tasks i).kind = .process) (hpar : (k.tasks i).parent = k.task.id) (hc : k.task.kind = .process)
    (hg : (k.console.grantCommand (some k.current) (some i)).1 = true)
    (htasks : ∀ j, (k'.tasks j).id = (k.tasks j).id ∧ (k'.tasks j).kind = (k.tasks j).kind ∧
      (k'.tasks j).parent = (k.tasks j).parent ∧ (k'.tasks j).orphaned = (k.tasks j).orphaned)
    (hcons : k'.console = (k.console.grantCommand (some k.current) (some i)).2)
    (hor : k'.origin = update k.origin i { k.origin i with grantor := k.task.id }) : k'.Origins := by
  obtain ⟨⟨σ, hroot, hshell, hsess, hrest, hl⟩, hlinks⟩ := Console.grantCommand_spec hg
  rw [← hcons] at hlinks
  -- the child still belongs to its launcher
  have hlaunch : (k.origin i).launcher = k.task.id := by
    rcases h.launched hp with e | e
    · exact e.symm.trans hpar
    · have hroot1 : k.task.id = 1 := hpar.symm.trans ((hreg.regular i).orphan e).2
      have hlive := (hreg.console.sound.rooted hroot).1
      have hcur := hreg.ids (hreg.live_process hlive).2.1 hreg.boot.2.2.1 (hroot1.trans hreg.boot.1.symm)
      exact absurd hcur (hreg.ne_boot hc)
  have hkeep : ∀ j, (k'.origin j).launcher = (k.origin j).launcher ∧
      (k'.origin j).foreground = (k.origin j).foreground := by
    rw [hor]
    exact (forall_update_iff k.origin fun j o => o.launcher = (k.origin j).launcher ∧
      o.foreground = (k.origin j).foreground).mpr ⟨⟨rfl, rfl⟩, fun _ _ => ⟨rfl, rfl⟩⟩
  refine ⟨fun {j} hj => ?_, fun {j} hj => ?_, fun {m} hm => ?_⟩
  · obtain ⟨-, h2, h3, h4⟩ := htasks j
    rw [h3, h4, (hkeep j).1]
    exact h.launched (h2.symm.trans hj)
  · rw [hlinks] at hj
    rw [(hkeep j).2]
    exact h.restored hj
  · rw [hlinks] at hm ⊢
    rw [(hkeep m).1, (hkeep m).2]
    rcases eq_or_ne m i with rfl | hne
    · refine ⟨hl, σ, k.current, hsess, hroot, hshell, ?_, h.restored (hrest ▸ nofun), ?_⟩
      · rw [(htasks k.current).1]
        exact hlaunch
      · rw [hor, update_self, (htasks k.current).1]
        rfl
    · change update k.console.links.command i true m = true at hm
      rw [update_of_ne hne] at hm
      obtain ⟨g1, τ, r, g2, g3, g4, g5, g6, g7⟩ := h.granted hm
      refine ⟨g1, τ, r, g2, g3, g4, ?_, g6, ?_⟩
      · rw [(htasks r).1]
        exact g5
      · rw [hor, update_of_ne hne, (htasks r).1]
        exact g7

lemma act (ha : Act s k k') : k'.Origins := by
  have hs := hreg.console.sound
  cases ha with
  | @quiet f hf hidle =>
    refine h.congr hs rfl (fun {i} hp => ?_) fun i _ => ⟨?_, rfl⟩
    · rcases hf i with e | ⟨-, hq⟩
      · dsimp only at hp ⊢
        rw [e] at hp ⊢
        exact h.launched hp
      · dsimp only at hp ⊢
        rw [hq.parent, hq.orphaned]
        exact h.launched (hq.kind.symm.trans hp)
    · exact (hf i).elim (congrArg Task.id) fun h => h.2.id
  | environment | halt => exact h.congr hs rfl h.launched fun i _ => ⟨rfl, rfl⟩
  | dispatch => exact h.write hs (c := .cancelMember none) rfl rfl .none nofun nofun rfl rfl (.inl ⟨rfl, rfl⟩)
  | @create j owned _ hu =>
    refine h.store hs rfl rfl (c := .cancelMember none) ?_ nofun nofun
      (congrArg Member.live (hreg.records_unused hu)) nofun
    change k.console.links.Move _ (k.console.setMember j {}).links
    rw [hreg.setMember_unused hu]
    exact .none
  | publish hi hu hid hsp hr hl => exact h.publish hreg hi hu hid hsp hr hl
  | @mark j => exact h.move hs (hreg.console.markShell (some j)).2 nofun nofun h.launched fun i _ => ⟨rfl, rfl⟩
  | grant hi _ _ hp hc hg =>
    refine h.grant hreg hi hp hc hg ?_ rfl rfl
    exact (forall_update_iff k.tasks fun j u => u.id = (k.tasks j).id ∧ u.kind = (k.tasks j).kind ∧
      u.parent = (k.tasks j).parent ∧ u.orphaned = (k.tasks j).orphaned).mpr
        ⟨⟨rfl, rfl, rfl, rfl⟩, fun _ _ => ⟨rfl, rfl, rfl, rfl⟩⟩
  | @request status =>
    exact h.move hs (hreg.console.requestExit (some k.current) status).2 nofun nofun h.launched fun i _ => ⟨rfl, rfl⟩
  | @endForeground j =>
    refine ⟨h.launched, fun {i} hi => ?_, fun {m} hc => ?_⟩
    · rw [Console.links_setForeground] at hi
      exact h.restored hi
    · rw [Console.links_setForeground] at hc ⊢
      exact h.granted hc
  | @cancel j =>
    exact h.write hs rfl rfl (hreg.console.cancelMember (some j)).2 nofun nofun (Task.id_stop _) (Task.kind_stop _)
      (.inl ⟨Task.parent_stop _, Task.orphaned_stop _⟩)
  | @adopt j =>
    exact h.write hs rfl rfl (hreg.console.cancelMember (some j)).2 nofun nofun (Task.id_stop _) (Task.kind_stop _)
      (.inr (Task.orphaned_stop _))
  | leave => exact h.write hs rfl rfl (hreg.console.memberExit (some k.current)).2 nofun nofun rfl rfl (.inl ⟨rfl, rfl⟩)
  | @reap j halted _ he =>
    refine h.store hs rfl rfl (c := .detach (some j)) ?_ nofun nofun (hreg.live_exited he) nofun
    rw [hreg.console_reap he]
    exact (hreg.console.detach (some j)).2

end

lemma run (h : k.Origins) (hready : k.Ready) (calls : List KernelCall) : (k.run calls).Origins :=
  hready.run_keeps act h calls

end Origins

lemma commandShell_spec {c : Console TaskSlot} (h : c.commandShell (some m) = some r) :
    c.owns (some m) = true ∧ (c.records m).command = true ∧ c.isShell (some r) = true ∧
        (c.records m).restore = some r := by
  simp only [Console.commandShell] at h
  rcases hs : (c.records m).session with - | σ
  · simp [hs] at h
  cases hown : c.owns (some m) && (c.records m).command with
  | false => simp [hs, hown, Console.isShell] at h
  | true =>
    rw [Bool.and_eq_true] at hown
    simp only [hs, hown, Bool.and_self, if_true] at h
    split at h
    · cases h
    · rename_i hc
      simp only [h, Bool.or_eq_true, Bool.not_eq_true', bne_iff_ne, ne_eq, not_or, Bool.not_eq_false, not_not] at hc
      exact ⟨hown.1, hown.2, hc⟩

lemma Registry.issued_attached (h : k.Registry) (hs : (k.console.records m).session = some σ) :
    k.Issued (k.tasks m).id := by
  have hu : k.Used m := fun hu => by
    have hk : (k.tasks m).kind = .kernel := congrArg Task.kind ((h.regular m).cleared hu)
    rw [(h.matched m).kernel hk] at hs
    cases hs
  exact ⟨((h.regular m).id hu).ne', (h.issued hu).2⟩

lemma closed_spec {c : Console TaskSlot} (hs : (c.records m).session = some σ) (hc : (c.sessions σ).closing = true) :
    c.owns (some m) = false ∧ c.isShell (some m) = false ∧ c.commandShell (some m) = none ∧
      ∀ foreground, c.canLaunch (some m) foreground = false := by
  have howns : c.owns (some m) = false := by simp [Console.owns, hs, hc]
  refine ⟨howns, by simp [Console.isShell, hs, hc], ?_, fun foreground => by simp [Console.canLaunch, hs, hc]⟩
  simp [Console.commandShell, hs, howns, Console.isShell]

/-- **The authority of a shell's command.** In every state that a run reaches at most one member has the authority of a
command. It is live, not cancelled, and owns the input of the active session, which is not closing; its return link is
the shell at the root of the session, and that shell launched it, in the foreground, and made it a command. Once the
root of a session has exited, no member of it owns the input, is a shell, is a command or can launch until it is
detached, whatever happens in between. -/
theorem command_authority (calls : List KernelCall) :
    let k := initial.run calls
    (∀ m m', (k.console.commandShell (some m)).isSome = true →
      (k.console.commandShell (some m')).isSome = true → m = m') ∧
    (∀ m r, k.console.commandShell (some m) = some r →
      (k.console.records m).live = true ∧ (k.console.records m).cancelled = false ∧
      (∃ σ, k.console.active = some σ ∧ (k.console.sessions σ).closing = false ∧
        (k.console.records m).session = some σ ∧
        (k.console.sessions σ).owner = some m ∧ (k.console.sessions σ).root = some r) ∧
      k.console.isShell (some r) = true ∧ (k.console.records m).restore = some r ∧
      (k.origin m).launcher = (k.tasks r).id ∧ (k.origin m).foreground = true ∧ (k.origin m).grantor = (k.tasks r).id) ∧
    (∀ (call : KernelCall) rest m σ r, (k.console.records m).session = some σ → (k.console.sessions σ).root = some r →
      ((call.next k).console.records r).live = false → (((call.next k).run rest).tasks m).id = (k.tasks m).id →
      let c := ((call.next k).run rest).console
      c.owns (some m) = false ∧ c.isShell (some m) = false ∧ c.commandShell (some m) = none ∧
        ∀ foreground, c.canLaunch (some m) foreground = false) := by
  intro k
  have hready : k.Ready := ready calls
  have horigins : k.Origins := Origins.initial.run initial_ready calls
  have hspec : ∀ m r, k.console.commandShell (some m) = some r → ∃ σ, k.console.active = some σ ∧
      (k.console.sessions σ).owner = some m := fun m r h => by
    obtain ⟨σ, -, -, -, h4, -, h6⟩ := Console.Valid.owns_iff.mp (commandShell_spec h).1
    exact ⟨σ, h4, h6⟩
  refine ⟨fun m m' hm hm' => ?_, fun m r h => ?_, fun call rest m σ r hs hr hdead hid => ?_⟩
  · obtain ⟨r, hr⟩ := Option.isSome_iff_exists.mp hm
    obtain ⟨r', hr'⟩ := Option.isSome_iff_exists.mp hm'
    obtain ⟨σ, h1, h2⟩ := hspec m r hr
    obtain ⟨τ, h3, h4⟩ := hspec m' r' hr'
    obtain rfl := Option.some.inj (h1.symm.trans h3)
    exact Option.some.inj (h2.symm.trans h4)
  · obtain ⟨howns, hcom, hshell, hrest⟩ := commandShell_spec h
    obtain ⟨σ, h1, h2, h3, h4, h5, h6⟩ := Console.Valid.owns_iff.mp howns
    obtain ⟨-, τ, r', g2, g3, -, g5⟩ := horigins.granted hcom
    obtain rfl := Option.some.inj (h3.symm.trans g2)
    -- the shell of the command is the root
    obtain ⟨τ, -, -, e3, -, e5⟩ := Console.Valid.isShell_iff.mp hshell
    obtain ⟨-, -, ρ, q1, q2⟩ := hready.registry.console.sound.returns hrest
    obtain rfl := Option.some.inj (h3.symm.trans q1)
    obtain rfl := Option.some.inj (q2.symm.trans e3)
    obtain rfl := Option.some.inj (g3.symm.trans e5)
    exact ⟨h1, h2, ⟨σ, h4, h5, h3, h6, g3⟩, hshell, hrest, g5⟩
  · have hissued := hready.registry.issued_attached hs
    have hstep := hready.next_slot hissued call
    obtain ⟨hid1, hrest⟩ := (hready.next call).slot hstep.1 rest hid
    -- the session has lost its root in the call, so it is closing
    obtain ⟨hs1, hr1⟩ := Links.Follows.root (hstep.2 m hid1).2 hs (.inl hr)
    have hc1 := hr1.resolve_left fun hr1 => by
      have hlive := ((hready.next call).registry.console.sound.rooted hr1).1
      cases hlive.symm.trans hdead
    obtain ⟨hs2, hc2⟩ := Links.Follows.closing hrest hs1 hc1
    exact closed_spec hs2 hc2

/-- A shell launches a command. -/
def commanded : List KernelCall :=
  [.createShellProcess ⟨7, true, true, true⟩, .yield allReleased, .createForegroundProcess ⟨8, true, true, true⟩,
    .markShellCommand 4 []]

theorem command_authority_commanded : let k := initial.run commanded
    (k.console.records 3).restore = some 2 ∧ (k.origin 3).launcher = (k.tasks 2).id ∧
      (k.origin 3).grantor = (k.tasks 2).id := by
  obtain ⟨-, -, -, -, hr, hl, -, hg⟩ := (command_authority commanded).2.1 3 2 (by decide +kernel)
  exact ⟨hr, hl, hg⟩

end Kernel

end RumKernel.Process
