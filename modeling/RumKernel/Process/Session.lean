import Mathlib

/-!
# Console sessions

The functions of `session.c`. The records of the members are embedded in records of their owners, so their
addresses are a parameter `ρ`; a null pointer is `none`. `underflowed` records that a counter was decremented
at 0; the source has no such variable.
-/

namespace RumKernel.Process
open Function

/-- A session of the pool, or an entry of a session's `members`: a number below `RUM_PROCESS_LIMIT`. -/
abbrev Slot : Type := Fin 16

structure Member (ρ : Type) where
  session : Option Slot := none
  restore : Option ρ := none
  id : Nat := 0
  references : Nat := 0
  live : Bool := false
  cancelled : Bool := false
  shell : Bool := false
  command : Bool := false
  foregroundLaunch : Bool := false

structure Session (ρ : Type) where
  references : Nat := 0
  closing : Bool := false
  exitRequested : Bool := false
  exitStatus : Int := 0
  root : Option ρ := none
  owner : Option ρ := none
  members : Slot → Option ρ := fun _ => none

/-- The member records, the pool of sessions and the active session. -/
structure Console (ρ : Type) where
  records : ρ → Member ρ := fun _ => {}
  sessions : Slot → Session ρ := fun _ => {}
  active : Option Slot := none
  underflowed : Bool := false

namespace Console

variable {ρ : Type} [DecidableEq ρ]

def setMember (s : Console ρ) (m : ρ) (r : Member ρ) : Console ρ := { s with records := update s.records m r }

def setSession (s : Console ρ) (σ : Slot) (v : Session ρ) : Console ρ := { s with sessions := update s.sessions σ v }

/-- `++member->references`. -/
def retain (s : Console ρ) (m : ρ) : Console ρ :=
  s.setMember m { s.records m with references := (s.records m).references + 1 }

/-- `--member->references`. -/
def release (s : Console ρ) (m : ρ) : Console ρ :=
  { s.setMember m { s.records m with references := (s.records m).references - 1 } with
    underflowed := s.underflowed || (s.records m).references == 0 }

/-- `++session->references`. -/
def retainSession (s : Console ρ) (σ : Slot) : Console ρ :=
  s.setSession σ { s.sessions σ with references := (s.sessions σ).references + 1 }

/-- `--session->references`. -/
def releaseSession (s : Console ρ) (σ : Slot) : Console ρ :=
  { s.setSession σ { s.sessions σ with references := (s.sessions σ).references - 1 } with
    underflowed := s.underflowed || (s.sessions σ).references == 0 }

def available (s : Console ρ) : Option Slot := (List.finRange 16).find? fun σ => (s.sessions σ).references == 0

def owns (s : Console ρ) : Option ρ → Bool
  | none => false
  | some m =>
    match (s.records m).session with
    | none => false
    | some σ => (s.records m).live && !(s.records m).cancelled && s.active == some σ && !(s.sessions σ).closing &&
        (s.sessions σ).owner == some m

def owner (s : Console ρ) (σ : Slot) (next : Option ρ) : Console ρ :=
  let s := match (s.sessions σ).owner with
    | some old => s.release old
    | none => s
  let s := s.setSession σ { s.sessions σ with owner := next }
  match next with
  | some new => s.retain new
  | none => s

def releaseReturn (s : Console ρ) (m : ρ) : Console ρ :=
  let s := match (s.records m).restore with
    | some target => s.release target
    | none => s
  s.setMember m { s.records m with restore := none }

/-- The loop of `previous` for a member of `session`, `fuel` candidates being left. -/
def previousLoop (s : Console ρ) (session : Option Slot) : Nat → Option ρ → Option ρ
  | _, none => none
  | 0, _ => none
  | fuel + 1, some candidate =>
    if (s.records candidate).live && !(s.records candidate).cancelled && (s.records candidate).session == session then
      some candidate
    else previousLoop s session fuel (s.records candidate).restore

def previous (s : Console ρ) (m : ρ) : Option ρ :=
  s.previousLoop (s.records m).session 16 (s.records m).restore

/-- The first free entry of a session. -/
def freeEntry (s : Console ρ) (σ : Slot) : Option Slot :=
  (List.finRange 16).find? fun i => ((s.sessions σ).members i).isNone

def canLaunch (s : Console ρ) (parent : Option ρ) (foreground : Bool) : Bool :=
  match parent with
  | none => !foreground || (s.active.isNone && s.available.isSome)
  | some p =>
    (s.records p).live && !(s.records p).cancelled && (!foreground || s.owns (some p)) &&
      match (s.records p).session with
      | none => true
      | some σ => !(s.sessions σ).closing && (s.freeEntry σ).isSome

/-- The part of `console_attach` behind its checks, for a member of a session. -/
def join (s : Console ρ) (m : ρ) (σ entry : Slot) (parent : Option ρ) (foreground : Bool) : Console ρ :=
  let s := s.setSession σ { s.sessions σ with members := update (s.sessions σ).members entry (some m) }
  let s := s.retainSession σ
  if foreground then
    let s := match parent with
      | some p => (s.setMember m { s.records m with restore := some p }).retain p
      | none =>
        let s := { s with active := some σ }.retainSession σ
        (s.setSession σ { s.sessions σ with root := some m }).retain m
    s.owner σ (some m)
  else s

def attach (s : Console ρ) (member : Option ρ) (id : Nat) (parent : Option ρ) (foreground : Bool) : Bool × Console ρ :=
  match member with
  | none => (false, s)
  | some m =>
    if id = 0 then (false, s)
    else if (s.records m).live || (s.records m).session.isSome || (s.records m).references != 0 ||
        !s.canLaunch parent foreground then (false, s)
    else
      let session := match parent with
        | some p => (s.records p).session
        | none => if foreground then s.available else none
      match session with
      | none => (true, s.setMember m { id, live := true, foregroundLaunch := foreground })
      | some σ =>
        match s.freeEntry σ with
        | none => (false, s)
        | some entry =>
          let s := s.setMember m { session := some σ, id, live := true, foregroundLaunch := foreground }
          (true, s.join m σ entry parent foreground)

def markShell (s : Console ρ) (member : Option ρ) : Bool × Console ρ :=
  match member with
  | none => (false, s)
  | some m =>
    match (s.records m).session with
    | none => (false, s)
    | some σ =>
      if s.owns (some m) && (s.sessions σ).root == some m && !(s.records m).shell then
        (true, s.setMember m { s.records m with shell := true })
      else (false, s)

def isShell (s : Console ρ) : Option ρ → Bool
  | none => false
  | some m =>
    match (s.records m).session with
    | none => false
    | some σ => (s.records m).live && (s.records m).shell && !(s.sessions σ).closing && (s.sessions σ).root == some m

def grantCommand (s : Console ρ) (shell child : Option ρ) : Bool × Console ρ :=
  match s.active, shell, child with
  | some σ, some m, some c =>
    if s.isShell (some m) && (s.records c).live && (s.records c).session == some σ && !(s.sessions σ).closing &&
        (s.sessions σ).owner == some c && (s.records c).session == (s.records m).session &&
        (s.records c).restore == some m && !(s.records c).command then
      (true, s.setMember c { s.records c with command := true })
    else (false, s)
  | _, _, _ => (false, s)

def commandShell (s : Console ρ) : Option ρ → Option ρ
  | none => none
  | some m =>
    match (s.records m).session with
    | none => none
    | some σ =>
      let shell := if s.owns (some m) && (s.records m).command then (s.sessions σ).root else none
      if !s.isShell shell || (s.records m).restore != shell then none else shell

def sameSession (s : Console ρ) (first second : Option ρ) : Bool :=
  match first, second with
  | some m, some n => (s.records m).session.isSome && (s.records m).session == (s.records n).session
  | _, _ => false

def isRoot (s : Console ρ) : Option ρ → Bool
  | none => false
  | some m =>
    match (s.records m).session with
    | none => false
    | some σ => (s.sessions σ).root == some m

def cancellationTarget (s : Console ρ) : Nat :=
  match s.active with
  | none => 0
  | some σ =>
    match if (s.sessions σ).closing then none else (s.sessions σ).owner with
    | none => 0
    | some m => if (s.records m).live && !(s.records m).shell then (s.records m).id else 0

def cancelMember (s : Console ρ) : Option ρ → Console ρ
  | none => s
  | some m => s.setMember m { s.records m with cancelled := true }

/-- One round of the loop that closes a session. -/
def closeEntry (s : Console ρ) (σ i : Slot) : Console ρ :=
  match (s.sessions σ).members i with
  | none => s
  | some other =>
    let s := s.releaseReturn other
    s.setMember other { s.records other with command := false }

/-- The exit of the root of `σ`. -/
def exitRoot (s : Console ρ) (m : ρ) (σ : Slot) : Console ρ :=
  let s := s.setSession σ { s.sessions σ with closing := true }
  let s := (List.finRange 16).foldl (fun s i => s.closeEntry σ i) s
  let s := (s.owner σ none).release m
  let s := s.setSession σ { s.sessions σ with root := none }
  if s.active = some σ then { s with active := none }.releaseSession σ else s

/-- The loop that looks for `m` on the return chain from `link`, `fuel` links being left. -/
def onChain (s : Console ρ) (m : ρ) : Nat → Option ρ → Bool
  | _, none => false
  | 0, _ => false
  | fuel + 1, some link => link == m || onChain s m fuel (s.records link).restore

/-- One round of the loop that removes the references to an exiting member. -/
def relinkEntry (s : Console ρ) (m : ρ) (σ i : Slot) : Console ρ :=
  match (s.sessions σ).members i with
  | none => s
  | some other =>
    if (s.records other).restore = some m then
      let s := s.releaseReturn other
      let s := s.setMember other { s.records other with restore := (s.records m).restore }
      match (s.records other).restore with
      | some target => s.retain target
      | none => s
    else s

/-- The exit of another member of `σ`. -/
def exitOther (s : Console ρ) (m : ρ) (σ : Slot) : Console ρ :=
  let returning := (s.sessions σ).owner == some m || s.onChain m 16 (s.sessions σ).owner
  let s := (List.finRange 16).foldl (fun s i => s.relinkEntry m σ i) s
  match (s.sessions σ).owner with
  | none => s
  | some old => if returning && (old == m || (s.records old).cancelled) then s.owner σ (s.previous old) else s

def memberExit (s : Console ρ) (member : Option ρ) : Bool × Console ρ :=
  match member with
  | none => (false, s)
  | some m =>
    if !(s.records m).live then (false, s)
    else
      let s := s.setMember m { s.records m with live := false, command := false }
      match (s.records m).session with
      | none => (false, s.releaseReturn m)
      | some σ =>
        if (s.sessions σ).root = some m then
          ((s.records m).shell, (s.exitRoot m σ).releaseReturn m)
        else if !(s.sessions σ).closing then
          (false, (s.exitOther m σ).releaseReturn m)
        else (false, s.releaseReturn m)

def detach (s : Console ρ) (member : Option ρ) : Bool × Console ρ :=
  match member with
  | none => (false, s)
  | some m =>
    if (s.records m).live || (s.records m).references != 0 || (s.records m).restore.isSome then (false, s)
    else
      match (s.records m).session with
      | none => (true, s.setMember m {})
      | some σ =>
        match (List.finRange 16).find? fun i => (s.sessions σ).members i == some m with
        | none => (false, s)
        | some i =>
          let s := s.setSession σ { s.sessions σ with members := update (s.sessions σ).members i none }
          let s := s.releaseSession σ
          let s := if (s.sessions σ).references = 0 then s.setSession σ {} else s
          (true, s.setMember m {})

def requestExit (s : Console ρ) (command : Option ρ) (status : Int) : Bool × Console ρ :=
  match command with
  | none => (false, s)
  | some m =>
    match (s.records m).session with
    | none => (false, s)
    | some σ =>
      if (s.commandShell (some m)).isSome then
        (true, s.setSession σ { s.sessions σ with exitRequested := true, exitStatus := status })
      else (false, s)

end Console

/-- A call of `session.c` that changes a record. -/
inductive ConsoleCall (ρ : Type) where
  | attach (member : Option ρ) (id : Nat) (parent : Option ρ) (foreground : Bool)
  | markShell (member : Option ρ)
  | grantCommand (shell child : Option ρ)
  | cancelMember (member : Option ρ)
  | memberExit (member : Option ρ)
  | detach (member : Option ρ)
  | requestExit (command : Option ρ) (status : Int)

def ConsoleCall.next {ρ : Type} [DecidableEq ρ] (s : Console ρ) : ConsoleCall ρ → Console ρ
  | attach member id parent foreground => (s.attach member id parent foreground).2
  | markShell member => (s.markShell member).2
  | grantCommand shell child => (s.grantCommand shell child).2
  | cancelMember member => s.cancelMember member
  | memberExit member => (s.memberExit member).2
  | detach member => (s.detach member).2
  | requestExit command status => (s.requestExit command status).2

end RumKernel.Process
