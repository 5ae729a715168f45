import RumKernel.Process.Session

/-!
# The task registry

The functions of `task.c` that change the registry. A section of the source that runs with interrupts disabled is one
step; a call with several is one step at its last one: until then it has changed nothing that another task or an
interrupt reads. `struct task` and its `struct process_state` are one record. The answers of the page tables, the file
system and the heap are inputs of the steps.
-/

namespace RumKernel.Process
open Function

/-- A slot of the registry: a number below `TASK_SLOTS`. -/
abbrev TaskSlot : Type := Fin 18

/-- `BOOT`. -/
def bootSlot : TaskSlot := 0

/-- `IDLE`. -/
def idleSlot : TaskSlot := 1

/-- The slots behind the two fixed tasks. -/
def userSlots : List TaskSlot := (List.finRange 18).drop 2

def pidMax : Nat := 0x7FFFFFFF

def timeSliceTicks : Nat := 5

def commandTextCapacity : Nat := 256

inductive TaskState where
  | unused | runnable | running | blocked | exited
  deriving DecidableEq, Repr

inductive TaskKind where
  | kernel | process
  deriving DecidableEq, Repr

inductive Termination where
  | none | exit | fault | cancelled
  deriving DecidableEq, Repr

inductive WaitResult where
  | event | timeout | cancelled | invalid
  deriving DecidableEq, Repr

structure Fault where
  vector : Nat := 0
  error : Nat := 0
  address : Nat := 0
  instruction : Nat := 0
  stack : Nat := 0
  deriving DecidableEq, Repr

/-- The address of a `struct task_event`: in the record of a process, or elsewhere in the kernel. -/
inductive Event where
  | children (i : TaskSlot)
  | console (i : TaskSlot)
  | other (n : Nat)
  deriving DecidableEq, Repr

/-- `struct task` with its `struct process_state`. The kernel's own space is `none`; `handles` is the number of
open handles. -/
structure Task where
  id : Nat := 0
  state : TaskState := .unused
  switchHolds : Nat := 0
  sliceTicks : Nat := 0
  reschedule : Bool := false
  waiting : Option Event := none
  deadline : Nat := 0
  deadlineActive : Bool := false
  wakeReason : WaitResult := .event
  processId : Nat := 0
  parent : Nat := 0
  kind : TaskKind := .kernel
  space : Option Nat := none
  ownsSpace : Bool := false
  termination : Termination := .none
  exitStatus : Int := 0
  fault : Fault := {}
  handles : Nat := 0
  cancellationRequested : Bool := false
  orphaned : Bool := false
  commandText : List UInt8 := []
  deriving DecidableEq

namespace Task

def clearWait (t : Task) : Task := { t with waiting := none, deadlineActive := false, deadline := 0 }

/-- `wake_task`. -/
def wake (t : Task) (reason : WaitResult) : Task := { t.clearWait with wakeReason := reason, state := .runnable }

/-- The record of a task that is asked to end: a wait is over. -/
def stop (t : Task) : Task :=
  let t := { t with cancellationRequested := true }
  if t.state = .blocked then t.wake .cancelled else t

/-- The record of a task that waits for an event, for the end of a duration from a time, or for both. -/
def block (t : Task) (event : Option Event) (duration : Option Nat) (now : Nat) : Task :=
  { t with
    waiting := event
    deadlineActive := duration.isSome
    deadline := match duration with
      | some d => (now + d) % 2 ^ 32
      | none => 0
    state := .blocked }

end Task

/-- How a process came to be: the id of its launcher, whether it was launched in the foreground, and the id of the
shell that made it a command. The source keeps no such record. -/
structure Origin where
  launcher : Nat := 0
  foreground : Bool := false
  grantor : Nat := 0

/-- The registry with the console and the sequence numbers of the events. `operation` says that a file system or block
operation is active, `halted` that the kernel has stopped itself. -/
structure Kernel where
  tasks : TaskSlot → Task
  console : Console TaskSlot
  current : TaskSlot
  nextId : Nat
  nextProcessId : Nat
  sequence : Event → Nat
  operation : Bool
  halted : Bool
  origin : TaskSlot → Origin

/-- What the subsystems below answer when a slot is released: `fs_context_destroy`, `paging_space_destroy` and
`paging_kernel_stack_release`. -/
structure Releases where
  context : TaskSlot → Bool
  space : TaskSlot → Bool
  stack : TaskSlot → Bool

/-- The subsystems release whatever they are asked to. -/
def allReleased : Releases := ⟨fun _ => true, fun _ => true, fun _ => true⟩

/-- What a caller gives to `create_process`, and the answers of the subsystems below: the space is registered, private
and holds the frame; the file system context could be copied; there was a kernel stack. -/
structure Launch where
  space : Nat
  accepted : Bool
  cloned : Bool
  stack : Bool

namespace Kernel

/-- The state behind `task_initialize`. -/
def initial : Kernel where
  tasks i := if i = bootSlot then { id := 1, state := .running, sliceTicks := timeSliceTicks }
    else if i = idleSlot then { id := 2, state := .runnable } else {}
  console := {}
  current := bootSlot
  nextId := 3
  nextProcessId := 1
  sequence _ := 0
  operation := false
  halted := false
  origin _ := {}

def setTask (k : Kernel) (i : TaskSlot) (t : Task) : Kernel := { k with tasks := update k.tasks i t }

def halt (k : Kernel) : Kernel := { k with halted := true }

/-- The record of the running task. -/
def task (k : Kernel) : Task := k.tasks k.current

def currentIsProcess (k : Kernel) : Bool := k.task.kind == .process

/-- The console member of the running task, if it is a process. -/
def member (k : Kernel) : Option TaskSlot := if k.currentIsProcess then some k.current else none

def currentCancelled (k : Kernel) : Bool := k.currentIsProcess && k.task.cancellationRequested

def currentIsShell (k : Kernel) : Bool := k.currentIsProcess && k.console.isShell (some k.current)

def switchProtected (k : Kernel) : Bool := k.task.switchHolds != 0 || k.operation

/-! ## Publication -/

def availableSlot (k : Kernel) (space : Option Nat) : Option TaskSlot :=
  if userSlots.any fun i => space.isSome && (k.tasks i).state != .unused && (k.tasks i).space == space then none
  else userSlots.find? fun i => (k.tasks i).state == .unused

def backgroundCapacity (k : Kernel) : Bool :=
  !k.currentIsProcess || 1 < userSlots.countP fun i => (k.tasks i).state == .unused

/-- `task_switch_hold` succeeds. -/
def canHold (k : Kernel) : Bool := k.current != idleSlot && k.task.switchHolds != 2 ^ 32 - 1

/-- Overwrite the records of a slot; its events start again. -/
def store (k : Kernel) (i : TaskSlot) (t : Task) (o : Origin) : Kernel :=
  { k with
    tasks := update k.tasks i t
    console := k.console.setMember i {}
    sequence := update (update k.sequence (.children i) 0) (.console i) 0
    origin := update k.origin i o }

def create (k : Kernel) (owned : Option Nat) (l : Launch) : Nat × Kernel :=
  if k.nextId = 0 || owned.isSome && (!l.accepted || owned == k.task.space) then (0, k)
  else
    match k.availableSlot owned with
    | none => (0, k)
    | some slot =>
      if !k.canHold || !l.cloned || !l.stack then (0, k)
      else
        let t : Task := { id := k.nextId, state := .runnable, space := owned, ownsSpace := owned.isSome }
        (k.nextId, { k with nextId := (k.nextId + 1) % 2 ^ 32 }.store slot t {})

/-- The part of `create_process` behind its checks. -/
def publish (k : Kernel) (slot : TaskSlot) (space : Nat) (foreground shell : Bool) : Kernel :=
  let parent := k.member
  let id := k.nextId
  let t : Task := {
    id
    state := .runnable
    processId := k.nextProcessId
    parent := k.task.id
    kind := .process
    space := some space
    ownsSpace := true
    handles := 3 }
  let k := { k with nextId := (k.nextId + 1) % 2 ^ 32, nextProcessId := k.nextProcessId + 1 }.store slot t
    { launcher := k.task.id, foreground }
  let attached := k.console.attach (some slot) id parent foreground
  let k := { k with console := attached.2, halted := k.halted || !attached.1 }
  if shell then
    let marked := k.console.markShell (some slot)
    { k with console := marked.2, halted := k.halted || !marked.1 }
  else k

def createProcess (k : Kernel) (l : Launch) (foreground shell : Bool) : Nat × Kernel :=
  if k.nextId = 0 || pidMax < k.nextProcessId || !(foreground || k.backgroundCapacity) ||
      !k.console.canLaunch k.member foreground || !l.accepted || k.task.space == some l.space then (0, k)
  else
    match k.availableSlot (some l.space) with
    | none => (0, k)
    | some slot =>
      if !k.canHold || !l.cloned || !l.stack || k.currentCancelled then (0, k)
      else (k.nextId, k.publish slot l.space foreground shell)

def createShellProcess (k : Kernel) (l : Launch) : Nat × Kernel :=
  if k.currentIsProcess then (0, k) else k.createProcess l true true

/-! ## Roles -/

/-- The child of the running task with an id that has not run yet or has been preempted. -/
def runnableChild (k : Kernel) (id : Nat) : Option TaskSlot :=
  userSlots.find? fun i => (k.tasks i).id == id && (k.tasks i).parent == k.task.id && (k.tasks i).kind == .process &&
    (k.tasks i).state == .runnable

def markForegroundShell (k : Kernel) (id : Nat) : Bool × Kernel :=
  if id = 0 || k.currentIsProcess then (false, k)
  else
    match k.runnableChild id with
    | none => (false, k)
    | some i => ((k.console.markShell (some i)).1, { k with console := (k.console.markShell (some i)).2 })

def markShellCommand (k : Kernel) (id : Nat) (text : List UInt8) : Bool × Kernel :=
  if !k.currentIsShell || id = 0 || commandTextCapacity ≤ text.length then (false, k)
  else
    match k.runnableChild id with
    | none => (false, k)
    | some i =>
      let granted := k.console.grantCommand (some k.current) (some i)
      if granted.1 then
        (true, { k.setTask i { k.tasks i with commandText := text } with
          console := granted.2
          origin := update k.origin i { k.origin i with grantor := k.task.id } })
      else (false, k)

/-- The shell whose session the running command controls in `task_session_control`. -/
def controlledShell (k : Kernel) : Option TaskSlot :=
  match k.console.commandShell (some k.current) with
  | none => none
  | some shell =>
    if shell ∈ userSlots && (k.tasks shell).state != .unused && (k.tasks shell).id == k.task.parent &&
        k.console.isShell (some shell) && (k.tasks shell).state == .blocked &&
        (k.tasks shell).waiting == some (.children shell) then some shell
    else none

/-- `task_session_control` for the two actions that end the shell. `RUM_SESSION_CHDIR` changes the file system context
of the shell only. -/
def sessionControl (k : Kernel) (recovery : Bool) : Bool × Kernel :=
  match k.controlledShell with
  | none => (false, k)
  | some _ =>
    let asked := k.console.requestExit (some k.current) (if recovery then 75 else 0)
    (asked.1, { k with console := asked.2 })

/-! ## Release -/

/-- The conditions of `reap_slot`. The active space is the one of the running task. -/
def reapable (k : Kernel) (r : Releases) (i : TaskSlot) : Bool :=
  (k.tasks i).state == .exited && i != k.current && (k.tasks i).waiting.isNone && !(k.tasks i).deadlineActive &&
    (k.tasks i).deadline == 0 && (k.console.records i).references == 0 && !(k.console.records i).live &&
    !((k.tasks i).ownsSpace && (k.tasks i).space == k.task.space) && (k.tasks i).handles == 0 && r.context i &&
    (!(k.tasks i).ownsSpace || r.space i)

def reapSlot (k : Kernel) (r : Releases) (i : TaskSlot) : Bool × Kernel :=
  if k.reapable r i then
    let detached := k.console.detach (some i)
    (true, { k with console := detached.2, halted := k.halted || !r.stack i || !detached.1 }.store i {} {})
  else (false, k)

/-- A slot that `reap_exited` does not skip. -/
def discards (k : Kernel) (processes : Bool) (i : TaskSlot) : Bool :=
  (k.tasks i).state != .unused && ((k.tasks i).kind != .process || (k.tasks i).orphaned ||
    processes && (k.tasks i).parent == k.task.id)

def reapExited (k : Kernel) (r : Releases) (processes : Bool) : Kernel :=
  userSlots.foldl (fun k i => if k.discards processes i then (k.reapSlot r i).2 else k) k

def reapProcess (k : Kernel) (r : Releases) (id : Nat) : Bool × Kernel :=
  if id = 0 then (false, k)
  else
    match userSlots.find? fun i => (k.tasks i).id == id && (k.tasks i).kind == .process &&
      (k.tasks i).parent == k.task.id with
    | none => (false, k)
    | some i => k.reapSlot r i

def foregroundEnd (k : Kernel) (id : Nat) : Bool × Kernel :=
  if id = 0 then (false, k)
  else
    match userSlots.find? fun i => (k.tasks i).id == id && (k.tasks i).kind == .process &&
      (k.tasks i).parent == k.task.id && (k.tasks i).state == .exited && (k.console.records i).foregroundLaunch with
    | none => (false, k)
    | some i =>
      (true, { k with console := k.console.setMember i { k.console.records i with foregroundLaunch := false } })

def query (k : Kernel) (id : Nat) : Option TaskSlot :=
  if id = 0 then none
  else (List.finRange 18).find? fun i => (k.tasks i).state != .unused && (k.tasks i).id == id

def collectChild (k : Kernel) (r : Releases) (id : Nat) : Bool × Kernel :=
  match k.query id with
  | none => (false, k)
  | some i =>
    if (k.tasks i).parent != k.task.id || (k.tasks i).state != .exited then (false, k)
    else if userSlots.any fun j => (k.tasks j).id == id && (k.console.records j).foregroundLaunch then
      let ended := k.foregroundEnd id
      if ended.1 then ended.2.reapProcess r id else (false, k)
    else k.reapProcess r id

/-! ## Scheduling -/

/-- The next task that `schedule` finds in the circular search from a slot. -/
def successor (k : Kernel) (index : TaskSlot) : TaskSlot :=
  (((List.finRange 18).map fun offset => index + offset + 1).find? fun candidate =>
    candidate != idleSlot && (k.tasks candidate).state == .runnable).getD idleSlot

def dispatch (k : Kernel) (next : TaskSlot) : Kernel :=
  { k.setTask next { k.tasks next with state := .running, reschedule := false, sliceTicks := timeSliceTicks } with
    current := next }

/-- `schedule`, up to the point where the resumed task has discarded what it may. -/
def schedule (k : Kernel) (r : Releases) : Kernel :=
  if k.switchProtected then k.halt
  else
    let previous := k.current
    let t := k.task
    let k := k.setTask previous { t with
      state := if t.state = .running then .runnable else t.state
      reschedule := false }
    let next := k.successor previous
    let k := k.dispatch next
    if next = previous then k else k.reapExited r false

def yield (k : Kernel) (r : Releases) : Bool × Kernel :=
  if k.current = idleSlot || k.switchProtected then (false, k)
  else (true, (k.setTask k.current { k.task with state := .runnable }).schedule r)

/-- One round of `idle_loop`. -/
def idle (k : Kernel) (r : Releases) : Kernel :=
  if k.current = idleSlot then
    let k := k.reapExited r false
    if (List.finRange 18).any fun i => i != idleSlot && (k.tasks i).state == .runnable then k.schedule r else k
  else k

/-! ## Events -/

/-- Wake the tasks that a condition selects. -/
def wakeAll (k : Kernel) (p : Task → Bool) (reason : WaitResult) : Kernel :=
  { k with tasks := fun i =>
      if (k.tasks i).state = .blocked && p (k.tasks i) then (k.tasks i).wake reason else k.tasks i }

def signal (k : Kernel) (e : Event) : Kernel :=
  { k with sequence := update k.sequence e ((k.sequence e + 1) % 2 ^ 32) }.wakeAll (fun t => t.waiting == some e) .event

def notifyShellInput (k : Kernel) : Kernel :=
  userSlots.foldl (fun k i =>
    if (k.tasks i).state != .unused && k.console.isShell (some i) && k.console.owns (some i) then k.signal (.console i)
    else k) k

def deadlineReached (now deadline : Nat) : Bool := (now + 2 ^ 32 - deadline) % 2 ^ 32 < 2 ^ 31

def timerTick (k : Kernel) (now : Nat) : Kernel :=
  let k := k.wakeAll (fun t => t.deadlineActive && deadlineReached now t.deadline) .timeout
  if k.task.sliceTicks = 0 then k
  else k.setTask k.current { k.task with
    sliceTicks := k.task.sliceTicks - 1
    reschedule := k.task.reschedule || k.task.sliceTicks == 1 }

/-- What an uninterrupted caller of `wait_common` gets at once, if it does not block. -/
def waitResult (k : Kernel) (event : Option Event) (observed : Nat) (duration : Option Nat) : Option WaitResult :=
  if event.isNone && duration.isNone || k.current == idleSlot || k.switchProtected ||
      duration.any (2 ^ 31 ≤ ·) then some .invalid
  else if k.currentCancelled then some .cancelled
  else if event.any fun e => k.sequence e != observed then some .event
  else if duration == some 0 then some .timeout
  else none

/-- `wait_common` at a time, up to the point where the caller has returned or blocked; `duration` is `none` for a wait
without a deadline. -/
def wait (k : Kernel) (r : Releases) (event : Option Event) (observed : Nat) (duration : Option Nat) (now : Nat) :
    Option WaitResult × Kernel :=
  match k.waitResult event observed duration with
  | some reason => (some reason, k)
  | none => (none, (k.setTask k.current (k.task.block event duration now)).schedule r)

/-! ## Cancellation -/

def cancel (k : Kernel) (i : TaskSlot) : Kernel :=
  { k.setTask i (k.tasks i).stop with console := k.console.cancelMember (some i) }

def cancelForeground (k : Kernel) : Kernel :=
  let foreground := k.console.cancellationTarget
  if foreground = 0 then k
  else
    match userSlots.find? fun i => (k.tasks i).id == foreground && (k.tasks i).kind == .process &&
      (k.tasks i).state != .exited && (k.tasks i).state != .unused with
    | none => k
    | some i => k.cancel i

/-- An answer of `task_request_termination`. -/
inductive RequestResult where
  | ok | invalid | access | search
  deriving DecidableEq, Repr

/-- The last used process with an id. -/
def processOf (k : Kernel) (pid : Nat) : Option TaskSlot :=
  userSlots.reverse.find? fun i => (k.tasks i).state != .unused && (k.tasks i).kind == .process &&
    (k.tasks i).processId == pid

/-- The shell that is the parent of the running task. -/
def parentShell (k : Kernel) : Option TaskSlot :=
  userSlots.reverse.find? fun i => (k.tasks i).state != .unused && (k.tasks i).id == k.task.parent &&
    k.console.isShell (some i)

/-- The running process may end a target. -/
def authorized (k : Kernel) (session : Bool) (target : TaskSlot) : Bool :=
  if session then
    match k.parentShell with
    | none => false
    | some shell => k.console.commandShell (some k.current) == some shell &&
        k.console.sameSession (some target) (some shell) && (k.tasks target).parent == (k.tasks shell).id
  else (k.tasks target).parent == k.task.id

def requestTermination (k : Kernel) (pid : Nat) (session : Bool) : RequestResult × Kernel :=
  if pid = 0 || pidMax < pid then (.invalid, k)
  else if !k.currentIsProcess then (.access, k)
  else
    match k.processOf pid with
    | none => (.search, k)
    | some target =>
      if !k.authorized session target || target == k.current || (k.console.records target).shell ||
          (k.tasks target).orphaned then (.access, k)
      else if (k.tasks target).state = .exited then (.ok, k)
      else (.ok, k.cancel target)

/-! ## Termination -/

/-- One round of the search for descendants: the slots found so far, and the ids of the new ones. -/
def findChildren (k : Kernel) (parent : Nat) (found : List TaskSlot) : List TaskSlot :=
  userSlots.filter fun i => (k.tasks i).state != .unused && i != k.current && !found.contains i &&
    (k.tasks i).parent == parent

/-- The search for the descendants of the running task. Each slot is queued once, so that the queue of ids is empty
before `fuel` is. -/
def descendants (k : Kernel) : Nat → List Nat → List TaskSlot → List TaskSlot
  | 0, _, found => found
  | _, [], found => found
  | fuel + 1, parent :: pending, found =>
    let children := k.findChildren parent found
    descendants k fuel (pending ++ children.map fun i => (k.tasks i).id) (found ++ children)

/-- The tasks that end with the running one: its descendants and, if it is the root of a session, the other members. -/
def abandons (k : Kernel) (i : TaskSlot) : Bool :=
  (k.descendants 18 [k.task.id] []).contains i ||
    k.console.isRoot (some k.current) && (k.tasks i).state != .unused && i != k.current &&
      k.console.sameSession (some i) (some k.current)

/-- A descendant of an exiting task becomes a cancelled child of the boot task. -/
def adopt (k : Kernel) (i : TaskSlot) : Kernel :=
  { k.setTask i (Task.stop { k.tasks i with parent := (k.tasks bootSlot).id, orphaned := true }) with
    console := k.console.cancelMember (some i) }

/-- Adopt all slots that a condition selects. -/
def adoptAll (k : Kernel) (p : TaskSlot → Bool) : Kernel :=
  userSlots.foldl (fun k i => if p i then k.adopt i else k) k

/-- The running task leaves its session and is `TASK_EXITED`. -/
def leave (k : Kernel) : Kernel :=
  { k.setTask k.current { k.task with state := .exited } with console := (k.console.memberExit (some k.current)).2 }

/-- Tell the parent of the running task that it has exited. -/
def signalParent (k : Kernel) : Kernel :=
  if k.currentIsProcess then
    match (List.finRange 18).find? fun i => (k.tasks i).state != .unused && (k.tasks i).id == k.task.parent with
    | none => k
    | some i =>
      let k := k.signal (.children i)
      if k.console.isShell (some i) then k.signal (.console i) else k
  else k

/-- The fields that an exiting task records. -/
def record (k : Kernel) (termination : Termination) (status : Int) (fault : Option Fault) : Kernel :=
  k.setTask k.current { k.task.clearWait with
    termination
    exitStatus := status
    fault := fault.getD k.task.fault
    handles := 0 }

/-- `terminate_current`; `closed` says that all handles could be closed. -/
def terminateCurrent (k : Kernel) (r : Releases) (termination : Termination) (status : Int) (fault : Option Fault)
    (closed : Bool) : Kernel :=
  if k.current = bootSlot || k.current = idleSlot || k.switchProtected || !closed then k.halt
  else
    let k := k.record termination status fault
    ((k.adoptAll k.abandons).leave.signalParent).schedule r

def cancelCurrentIfRequested (k : Kernel) (r : Releases) (closed : Bool) : Kernel :=
  if k.currentCancelled then k.terminateCurrent r .cancelled 0 none closed else k

def exitShellIfRequested (k : Kernel) (r : Releases) (closed : Bool) : Kernel :=
  match (k.console.records k.current).session with
  | none => k
  | some σ =>
    if k.currentIsShell && (k.console.sessions σ).exitRequested then
      k.terminateCurrent r .exit (k.console.sessions σ).exitStatus none closed
    else k

/-- `task_on_user_return`, up to the point where another task may run. -/
def onUserReturn (k : Kernel) (r : Releases) (closed : Bool) : Kernel :=
  if !k.currentIsProcess || k.switchProtected then k.halt
  else if k.currentCancelled then k.terminateCurrent r .cancelled 0 none closed
  else if k.task.reschedule then k.schedule r
  else k

end Kernel

/-- A step of the kernel: an entry point of `task.c` called by the running task, or an interrupt. `handles` and
`operation` are the system calls that open or close handles and the start or the end of a file system or block
operation. -/
inductive KernelCall where
  | create (owned : Option Nat) (l : Launch)
  | createProcess (l : Launch)
  | createForegroundProcess (l : Launch)
  | createShellProcess (l : Launch)
  | markForegroundShell (id : Nat)
  | markShellCommand (id : Nat) (text : List UInt8)
  | sessionControl (recovery : Bool)
  | switchHold
  | switchRelease
  | handles (n : Nat)
  | operation (active : Bool)
  | yield (r : Releases)
  | idle (r : Releases)
  | wait (r : Releases) (event : Option Event) (observed : Nat) (duration : Option Nat) (now : Nat)
  | signal (e : Event)
  | notifyShellInput
  | timerTick (now : Nat)
  | cancelForeground
  | requestTermination (pid : Nat) (session : Bool)
  | exit (r : Releases) (status : Int) (closed : Bool)
  | fault (r : Releases) (f : Fault) (closed : Bool)
  | cancelCurrentIfRequested (r : Releases) (closed : Bool)
  | exitShellIfRequested (r : Releases) (closed : Bool)
  | onUserReturn (r : Releases) (closed : Bool)
  | foregroundEnd (id : Nat)
  | collectChild (r : Releases) (id : Nat)
  | reapProcess (r : Releases) (id : Nat)
  | reap (r : Releases)

namespace KernelCall

open Kernel

def perform (k : Kernel) : KernelCall → Kernel
  | create owned l => (k.create owned l).2
  | createProcess l => (k.createProcess l false false).2
  | createForegroundProcess l => (k.createProcess l true false).2
  | createShellProcess l => (k.createShellProcess l).2
  | markForegroundShell id => (k.markForegroundShell id).2
  | markShellCommand id text => (k.markShellCommand id text).2
  | sessionControl recovery => (k.sessionControl recovery).2
  | switchHold => if k.canHold then k.setTask k.current { k.task with switchHolds := k.task.switchHolds + 1 } else k
  | switchRelease =>
    if k.current = idleSlot then k else k.setTask k.current { k.task with switchHolds := k.task.switchHolds - 1 }
  | handles n => if k.currentIsProcess then k.setTask k.current { k.task with handles := n } else k
  | operation active => if k.current = idleSlot then k else { k with operation := active }
  | yield r => (k.yield r).2
  | idle r => k.idle r
  | wait r event observed duration now => (k.wait r event observed duration now).2
  | signal e => k.signal e
  | notifyShellInput => k.notifyShellInput
  | timerTick now => k.timerTick now
  | cancelForeground => k.cancelForeground
  | requestTermination pid session => (k.requestTermination pid session).2
  | exit r status closed => k.terminateCurrent r .exit status none closed
  | fault r f closed => if k.currentIsProcess then k.terminateCurrent r .fault 0 (some f) closed else k.halt
  | cancelCurrentIfRequested r closed => k.cancelCurrentIfRequested r closed
  | exitShellIfRequested r closed => k.exitShellIfRequested r closed
  | onUserReturn r closed => k.onUserReturn r closed
  | foregroundEnd id => (k.foregroundEnd id).2
  | collectChild r id => (k.collectChild r id).2
  | reapProcess r id => (k.reapProcess r id).2
  | reap r => k.reapExited r true

/-- A halted kernel takes no step. -/
def next (k : Kernel) (call : KernelCall) : Kernel := if k.halted then k else call.perform k

end KernelCall

def Kernel.run (k : Kernel) (calls : List KernelCall) : Kernel := calls.foldl KernelCall.next k

end RumKernel.Process
