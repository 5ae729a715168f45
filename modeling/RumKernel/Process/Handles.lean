import RumKernel.Fs.Tables

/-!
# File handles

`process_handle_seek`, `process_handle_read` and `process_handle_write` of `handles.c` over an arbitrary backend. A
backend that fails behind a prefix reports a byte count and an error: the count is returned at once, the error is kept
in the handle for the next transfer.
-/

namespace RumKernel.Process
open Lib Fs

variable {σ α : Type}

/-! ## The functions -/

inductive HandleKind where
  | unused | input | output | file | directory
  deriving DecidableEq, Repr

structure Handle where
  reference : Nat := 0
  offset : UInt64 := 0
  access : Nat := 0
  kind : HandleKind := .unused
  pendingError : Int := 0

/-- The error numbers of `error.h` that handle operations return, without their sign. -/
inductive Errno where
  | einval | enomem | enosys | ebadf | eio | enoent | ebusy | eacces | erofs | enospc | enotdir | eisdir | eexist
  | enotempty | enametoolong | eoverflow | erange | etimedout | enodev
  deriving DecidableEq

def Errno.number : Errno → Nat
  | .einval => 1
  | .enomem => 3
  | .enosys => 4
  | .ebadf => 5
  | .eio => 6
  | .enoent => 7
  | .ebusy => 9
  | .eacces => 11
  | .erofs => 12
  | .enospc => 13
  | .enotdir => 15
  | .eisdir => 16
  | .eexist => 17
  | .enotempty => 18
  | .enametoolong => 19
  | .eoverflow => 20
  | .erange => 21
  | .etimedout => 22
  | .enodev => 23

/-- A `rum_result_t` that reports an error. -/
def Errno.result (e : Errno) : Int := -(e.number : Int)

/-- The error number of a filesystem error, none for the end of a directory. -/
def fsErrno : FsError → Option Errno
  | .end => none
  | .invalid | .mountEscape => some .einval
  | .unavailable => some .enodev
  | .notFound => some .enoent
  | .notDirectory => some .enotdir
  | .isDirectory => some .eisdir
  | .exists => some .eexist
  | .notEmpty => some .enotempty
  | .pathTooLong | .nameTooLong | .tooDeep => some .enametoolong
  | .range => some .erange
  | .access => some .eacces
  | .readOnly => some .erofs
  | .busy => some .ebusy
  | .noMemory => some .enomem
  | .noSpace => some .enospc
  | .unsupported => some .enosys
  | .timeout => some .etimedout
  | .ioError | .deviceFault => some .eio

def processFsError (error : Option FsError) : Int :=
  match error.bind fsErrno with
  | some e => e.result
  | none => 0

/-- A handle with the filesystem it works on. -/
structure Opened (σ : Type) where
  handle : Handle
  names : Namespace σ

/-- What a call returns: the result, the position of a seek and the bytes of a read. -/
structure Answer where
  result : Int
  position : Option UInt64 := none
  data : List Byte := []

/-- An answer that reports an error. -/
def Errno.answer (e : Errno) : Answer := { result := e.result }

namespace Opened

/-- The end of `process_handle_seek`, with the base found. -/
def place (s : Opened σ) (displacement base : UInt64) : Answer × Opened σ :=
  let negative : Bool := displacement >>> 63 ≠ 0
  let magnitude := if negative then ~~~displacement + 1 else displacement
  if (if negative then magnitude > base else magnitude > 0xffffffffffffffff - base) then (Errno.eoverflow.answer, s)
  else
    let position := if negative then base - magnitude else base + magnitude
    ({ result := 0, position := some position }, { s with handle := { s.handle with offset := position } })

/-- `process_handle_seek`; `position` says that the pointer is not null and `context` is the answer of
`process_filesystem_context`. -/
def seek (b : Backend σ) (s : Opened σ) (displacement : UInt64) (whence : Nat) (position context : Bool) :
    Answer × Opened σ :=
  if !position ∨ whence > 2 then (Errno.einval.answer, s)
  else if s.handle.kind = .input ∨ s.handle.kind = .output then (Errno.einval.answer, s)
  else if s.handle.kind = .directory ∧ (whence ≠ 0 ∨ displacement ≠ 0) then (Errno.einval.answer, s)
  else if !context then (Errno.ebusy.answer, s)
  else if whence = 2 then
    match (fsStat b s.handle.reference).run s.names with
    | (.error e, names) => ({ result := processFsError (some e) }, { s with names })
    | (.ok info, names) => place { s with names } displacement (UInt64.ofNat info.size)
  else place s displacement (if whence = 1 then s.handle.offset else 0)

/-- `fs_write` of the bytes of a buffer, or `fs_read`: the result record, the bytes read and the filesystem. -/
def fsIo (b : Backend σ) (names : Namespace σ) (token offset : Nat) (write : Bool) (buffer : Mem) (bytes : Nat) :
    FsIoResult × List Byte × Namespace σ :=
  if write then
    match (fsWrite b token offset ((List.range bytes).map buffer)).run names with
    | (.error e, names) => ({ error := some e }, [], names)
    | (.ok result, names) => (result, [], names)
  else
    match (fsRead b token offset bytes).run names with
    | (.error e, names) => ({ error := some e }, [], names)
    | (.ok (result, data), names) => (result, data, names)

/-- The access bit of a direction. -/
def direction (write : Bool) : Nat := if write then writeAccess else readAccess

/-- `transfer`; a missing buffer is a null pointer. -/
def transfer (b : Backend σ) (s : Opened σ) (buffer : Option Mem) (bytes : Nat) (write context : Bool) :
    Answer × Opened σ :=
  if s.handle.access &&& direction write = 0 then (Errno.ebadf.answer, s)
  else if s.handle.kind = .directory then (Errno.eisdir.answer, s)
  else if s.handle.kind ≠ .file ∨ (bytes ≠ 0 ∧ buffer = none) then (Errno.einval.answer, s)
  else if bytes > 2 ^ 31 - 1 ∨ bytes > 2 ^ 64 - 1 - s.handle.offset.toNat then (Errno.eoverflow.answer, s)
  else if bytes = 0 then ({ result := 0 }, s)
  else if !context then (Errno.ebusy.answer, s)
  else if s.handle.pendingError ≠ 0 then
    ({ result := s.handle.pendingError }, { s with handle := { s.handle with pendingError := 0 } })
  else
    let (result, data, names) :=
      fsIo b s.names s.handle.reference s.handle.offset.toNat write (buffer.getD fun _ => 0) bytes
    let error := processFsError result.error
    ({ result := if result.transferred ≠ 0 then (result.transferred : Int) else error, data },
      { handle := { s.handle with
          offset := s.handle.offset + UInt64.ofNat result.transferred
          pendingError := if result.transferred ≠ 0 ∧ error ≠ 0 then error else s.handle.pendingError }
        names })

end Opened

inductive HandleCall where
  | seek (displacement : UInt64) (whence : Nat) (position context : Bool)
  | read (buffer : Option Mem) (bytes : Nat) (context : Bool)
  | write (buffer : Option Mem) (bytes : Nat) (context : Bool)

/-- The direction and the length of a transfer. -/
def HandleCall.request : HandleCall → Option (Bool × Nat)
  | .seek .. => none
  | .read _ bytes _ => some (false, bytes)
  | .write _ bytes _ => some (true, bytes)

namespace Opened

def perform (b : Backend σ) (s : Opened σ) : HandleCall → Answer × Opened σ
  | .seek displacement whence position context => s.seek b displacement whence position context
  | .read buffer bytes context => s.transfer b buffer bytes false context
  | .write buffer bytes context => s.transfer b buffer bytes true context

def run (b : Backend σ) (s : Opened σ) (calls : List HandleCall) : Opened σ :=
  calls.foldl (fun s call => (s.perform b call).2) s

/-- A transfer that is not empty and passes every check. -/
def Transfers (s : Opened σ) (buffer : Option Mem) (bytes : Nat) (write context : Bool) : Prop :=
  s.handle.access &&& direction write ≠ 0 ∧ s.handle.kind = .file ∧ buffer ≠ none ∧ 0 < bytes ∧ bytes ≤ 2 ^ 31 - 1 ∧
    bytes ≤ 2 ^ 64 - 1 - s.handle.offset.toNat ∧ context = true

/-- The call is a transfer that is not empty and passes every check. -/
def Valid (s : Opened σ) : HandleCall → Prop
  | .seek .. => False
  | .read buffer bytes context => s.Transfers buffer bytes false context
  | .write buffer bytes context => s.Transfers buffer bytes true context

/-- None of the calls is such a transfer when it is made. -/
def Quiet (b : Backend σ) (s : Opened σ) : List HandleCall → Prop
  | [] => True
  | call :: calls => ¬s.Valid call ∧ Quiet b (s.perform b call).2 calls

/-- The same with another remembered error. -/
def withPending (s : Opened σ) (error : Int) : Opened σ := { s with handle := { s.handle with pendingError := error } }

end Opened

/-! ## A backend with a log -/

/-- A request of a backend and its answer. -/
structure Asked where
  write : Bool
  id : Nat
  offset : Nat
  bytes : Nat
  answer : FsIoResult

/-- A program that leaves the log alone. -/
def unlogged (m : Prog σ FsError α) : Prog (σ × List Asked) FsError α :=
  ⟨fun s => ((m.run s.1).1, ((m.run s.1).2, s.2))⟩

/-- A program whose answer is written to the log. -/
def logged (request : FsIoResult → Asked) (answer : α → FsIoResult) (m : Prog σ FsError α) :
    Prog (σ × List Asked) FsError α := ⟨fun s =>
  match m.run s.1 with
  | (.ok a, v) => (.ok a, (v, s.2 ++ [request (answer a)]))
  | (.error e, v) => (.error e, (v, s.2 ++ [request { error := some e }]))⟩

/-- A backend with a log of its reads and writes. -/
def watched (b : Backend σ) : Backend (σ × List Asked) where
  root := b.root
  readOnly := b.readOnly
  lookup id name := unlogged (b.lookup id name)
  stat id := unlogged (b.stat id)
  retain id := unlogged (b.retain id)
  release id := unlogged (b.release id)
  read id offset bytes := logged (⟨false, id, offset, bytes, ·⟩) Prod.fst (b.read id offset bytes)
  readdir id cursor := unlogged (b.readdir id cursor)
  write := b.write.map fun write id offset data =>
    logged (⟨true, id, offset, data.length, ·⟩) (fun r => r) (write id offset data)
  replace := b.replace.map fun replace id name data => unlogged (replace id name data)
  remove := b.remove.map fun remove id name => unlogged (remove id name)
  mkdir := b.mkdir.map fun mkdir id name => unlogged (mkdir id name)
  truncate := b.truncate.map fun truncate id size => unlogged (truncate id size)
  flush := b.flush.map unlogged

def Opened.log (s : Opened (σ × List Asked)) : List Asked := s.names.volume.2

variable {b : Backend σ} {names : Namespace (σ × List Asked)} {token offset bytes : Nat} {write context : Bool}
  {buffer : Mem}

/-- What is left of an answer by `io`: a count above the request is an error. -/
def kept (bytes : Nat) (answer : FsIoResult) : FsIoResult :=
  if answer.transferred > bytes then { error := some .ioError } else answer

/-- A result of `fs_read` or `fs_write`: refused before the backend was asked, or what is left of its answer. -/
inductive Asks (names : Namespace (σ × List Asked)) (write : Bool) (offset bytes : Nat) :
    FsIoResult → Namespace (σ × List Asked) → Prop where
  | refused {names' : Namespace (σ × List Asked)} (e : FsError) : names'.volume.2 = names.volume.2 →
      Asks names write offset bytes { error := some e } names'
  | answered {names' : Namespace (σ × List Asked)} (id : Nat) (answer : FsIoResult) :
      names'.volume.2 = names.volume.2 ++ [⟨write, id, offset, bytes, answer⟩] →
      Asks names write offset bytes (kept bytes answer) names'

def outcome (f : α → FsIoResult) : Except FsError α → FsIoResult
  | .ok a => f a
  | .error e => { error := some e }

/-- A call of the filesystem asks the backend at most once. -/
def Asking (write : Bool) (offset bytes : Nat) (f : α → FsIoResult) (names : Namespace (σ × List Asked))
    (m : NsM (σ × List Asked) α) : Prop :=
  Asks names write offset bytes (outcome f (m.run names).1) (m.run names).2

namespace Asking

variable {f : α → FsIoResult} {m n : NsM (σ × List Asked) α} {e : FsError} {β : Type}

lemma fail_bind {g : β → NsM (σ × List Asked) α} : Asking write offset bytes f names (Prog.fail e >>= g) :=
    .refused e rfl

lemma ite {c : Prop} [Decidable c] (hm : c → Asking write offset bytes f names m)
    (hn : ¬c → Asking write offset bytes f names n) : Asking write offset bytes f names (if c then m else n) := by
  split
  · exact hm ‹_›
  · exact hn ‹_›

lemma referenced {g : Object × Nat → NsM (σ × List Asked) α} (hg : ∀ a, Asking write offset bytes f names (g a)) :
    Asking write offset bytes f names (Fs.referenced token >>= g) := by
  unfold Asking Fs.referenced
  simp only [Prog.bind_run, Prog.get_run]
  cases findReference names.references token with
  | none => exact .refused .invalid rfl
  | some r => exact hg _

lemma operation (hm : ∀ names' : Namespace (σ × List Asked), names'.volume = names.volume →
    Asking write offset bytes f names' m) : Asking write offset bytes f names (Fs.operation m) := by
  unfold Asking
  rw [operation_run]
  split
  · exact .refused .unavailable rfl
  split
  · exact .refused .busy rfl
  have h := hm { names with busy := true } rfl
  unfold Asking at h
  revert h
  generalize outcome f (m.run { names with busy := true }).1 = result
  generalize (m.run { names with busy := true }).2 = names'
  intro h
  cases h with
  | refused e hv => exact .refused e hv
  | answered id answer hv => exact .answered id answer hv

lemma backend {id : Nat} {answer : β → FsIoResult} {p : Prog σ FsError β} {g : β → NsM (σ × List Asked) α}
    (hg : ∀ a names', ∃ a', (g a).run names' = (.ok a', names') ∧ f a' = kept bytes (answer a)) :
    Asking write offset bytes f names (Fs.backend (logged (⟨write, id, offset, bytes, ·⟩) answer p) >>= g) := by
  unfold Asking Fs.backend logged
  simp only [Prog.bind_run]
  rcases p.run names.volume.1 with ⟨r, v⟩
  cases r with
  | error e =>
    have h0 : kept bytes { error := some e } = { error := some e } := if_neg (Nat.not_lt_zero _)
    simp only [outcome]
    rw [← h0]
    exact .answered id { error := some e } rfl
  | ok a =>
    obtain ⟨a', hrun, hf⟩ := hg a { names with
      volume := (v, names.volume.2 ++ [⟨write, id, offset, bytes, answer a⟩]) }
    simp only [hrun, outcome, hf]
    exact .answered id (answer a) rfl

end Asking

variable (b names token offset) in
lemma fsRead_asking (h : bytes ≠ 0) :
    Asking false offset bytes Prod.fst names (fsRead (watched b) token offset bytes) := by
  unfold fsRead
  refine Asking.ite (fun _ => .fail_bind) fun _ => Asking.operation fun names' hv => ?_
  refine Asking.referenced fun ⟨object, access⟩ => ?_
  refine Asking.ite (fun _ => .fail_bind) fun _ => Asking.ite (fun _ => .fail_bind) fun _ => ?_
  refine Asking.ite (fun h0 => absurd h0 h) fun _ => ?_
  refine Asking.backend fun a names' => ?_
  dsimp only
  unfold kept
  split
  · exact ⟨_, rfl, rfl⟩
  · exact ⟨_, rfl, rfl⟩

variable (b names token offset) in
lemma fsWrite_asking {data : List Byte} (h : data.length ≠ 0) :
    Asking true offset data.length (fun r => r) names (fsWrite (watched b) token offset data) := by
  unfold fsWrite
  refine Asking.ite (fun _ => .fail_bind) fun _ => Asking.operation fun names' hv => ?_
  refine Asking.referenced fun ⟨object, access⟩ => ?_
  refine Asking.ite (fun _ => .fail_bind) fun _ => Asking.ite (fun _ => .fail_bind) fun _ => ?_
  refine Asking.ite (fun _ => .fail_bind) fun _ => Asking.ite (fun h0 => absurd h0 h) fun _ => ?_
  unfold supported watched
  cases b.write with
  | none => exact .fail_bind
  | some write =>
    refine Asking.backend fun a names' => ?_
    unfold kept
    split
    · exact ⟨_, rfl, rfl⟩
    · exact ⟨_, rfl, rfl⟩

variable (b names token offset write buffer) in
lemma fsIo_asks (h : bytes ≠ 0) : Asks names write offset bytes
    (Opened.fsIo (watched b) names token offset write buffer bytes).1
    (Opened.fsIo (watched b) names token offset write buffer bytes).2.2 := by
  unfold Opened.fsIo
  cases write with
  | true =>
    have hl : ((List.range bytes).map buffer).length = bytes := by simp
    have hne : ((List.range bytes).map buffer).length ≠ 0 := by
      rw [hl]
      exact h
    have ha := fsWrite_asking b names token offset hne
    rw [hl] at ha
    unfold Asking at ha
    rcases hrun : (fsWrite (watched b) token offset ((List.range bytes).map buffer)).run names with ⟨r, names'⟩
    rw [hrun] at ha
    cases r with
    | error e => exact ha
    | ok a => exact ha
  | false =>
    have ha := fsRead_asking b names token offset h
    unfold Asking at ha
    rcases hrun : (fsRead (watched b) token offset bytes).run names with ⟨r, names'⟩
    rw [hrun] at ha
    cases r with
    | error e => exact ha
    | ok a => exact ha

/-! ## One call -/

namespace Opened

variable {s : Opened (σ × List Asked)} {mem : Option Mem} {displacement base : UInt64} {whence : Nat} {position : Bool}
  {call : HandleCall} {error : Int}

@[simp] lemma withPending_handle (s : Opened σ) (error : Int) :
    (s.withPending error).handle = { s.handle with pendingError := error } := rfl

@[simp] lemma withPending_names (s : Opened σ) (error : Int) : (s.withPending error).names = s.names := rfl

lemma withPending_self (s : Opened σ) : s.withPending s.handle.pendingError = s := rfl

lemma errno_nonpos (e : Errno) : e.result ≤ 0 := by
  unfold Errno.result
  omega

lemma transfer_refused {b : Backend σ} {s : Opened σ} (h : ¬s.Transfers mem bytes write context) :
    ∃ r ≤ 0, ∀ error, (s.withPending error).transfer b mem bytes write context =
        ({ result := r }, s.withPending error) := by
  by_cases ha : s.handle.access &&& direction write = 0
  · exact ⟨_, errno_nonpos .ebadf, fun error => if_pos ha⟩
  by_cases hd : s.handle.kind = .directory
  · exact ⟨_, errno_nonpos .eisdir, fun error => (if_neg ha).trans (if_pos hd)⟩
  by_cases hk : s.handle.kind ≠ .file ∨ (bytes ≠ 0 ∧ mem = none)
  · exact ⟨_, errno_nonpos .einval, fun error => (if_neg ha).trans ((if_neg hd).trans (if_pos hk))⟩
  by_cases ho : bytes > 2 ^ 31 - 1 ∨ bytes > 2 ^ 64 - 1 - s.handle.offset.toNat
  · exact ⟨_, errno_nonpos .eoverflow,
      fun error => (if_neg ha).trans ((if_neg hd).trans ((if_neg hk).trans (if_pos ho)))⟩
  by_cases hz : bytes = 0
  · exact ⟨0, le_refl 0,
      fun error => (if_neg ha).trans ((if_neg hd).trans ((if_neg hk).trans ((if_neg ho).trans (if_pos hz))))⟩
  by_cases hc : context = true
  · simp only [not_or, not_and, not_not, Nat.not_lt] at hk ho
    exact absurd ⟨ha, hk.1, hk.2 hz, Nat.pos_of_ne_zero hz, ho.1, ho.2, hc⟩ h
  · have hc' : (!context) = true := by simpa using hc
    exact ⟨_, errno_nonpos .ebusy, fun error => (if_neg ha).trans ((if_neg hd).trans ((if_neg hk).trans
      ((if_neg ho).trans ((if_neg hz).trans (if_pos hc')))))⟩

lemma transfer_eq {b : Backend σ} {s : Opened σ} (h : s.Transfers mem bytes write context) :
    s.transfer b mem bytes write context =
      if s.handle.pendingError ≠ 0 then ({ result := s.handle.pendingError }, s.withPending 0)
      else
        let (result, data, names) :=
          fsIo b s.names s.handle.reference s.handle.offset.toNat write (mem.getD fun _ => 0) bytes
        let error := processFsError result.error
        ({ result := if result.transferred ≠ 0 then (result.transferred : Int) else error, data },
          { handle := { s.handle with
              offset := s.handle.offset + UInt64.ofNat result.transferred
              pendingError := if result.transferred ≠ 0 ∧ error ≠ 0 then error else s.handle.pendingError }
            names }) := by
  obtain ⟨ha, hk, hm, hz, h31, h64, hc⟩ := h
  unfold transfer
  rw [if_neg ha, if_neg (by simp [hk]), if_neg (by simp [hk, hm]), if_neg (by omega), if_neg (by omega),
    if_neg (by simp [hc])]
  rfl

/-- Everything a call can do to a handle. -/
inductive Accounted (b : Backend σ) (s : Opened (σ × List Asked)) (call : HandleCall) :
    Answer × Opened (σ × List Asked) → Prop where
  /-- A seek, or a transfer that is refused or empty: the remembered error plays no part. -/
  | aside {r : Answer × Opened (σ × List Asked)} : ¬s.Valid call →
      (∀ error, (s.withPending error).perform (watched b) call = (r.1, r.2.withPending error)) → r.2.log = s.log →
      r.2.handle.kind = s.handle.kind → (call.request ≠ none → r.1.result ≤ 0 ∧ r.2 = s) → Accounted b s call r
  /-- The remembered error is returned. -/
  | told : s.Valid call → s.handle.pendingError ≠ 0 →
      Accounted b s call ({ result := s.handle.pendingError }, s.withPending 0)
  /-- The filesystem does not ask the backend. -/
  | refused {r : Answer × Opened (σ × List Asked)} : s.Valid call → s.handle.pendingError = 0 → r.2.log = s.log →
      r.2.handle = s.handle → r.1.result ≤ 0 → Accounted b s call r
  /-- The backend has answered. -/
  | asked {r : Answer × Opened (σ × List Asked)} {write : Bool} {bytes : Nat} (id : Nat) (answer : FsIoResult) :
      s.Valid call → s.handle.pendingError = 0 → call.request = some (write, bytes) →
      r.2.log = s.log ++ [⟨write, id, s.handle.offset.toNat, bytes, answer⟩] →
      s.handle.offset.toNat + bytes < 2 ^ 64 → r.2.handle.kind = s.handle.kind →
      r.2.handle.offset.toNat = s.handle.offset.toNat + (kept bytes answer).transferred →
      r.1.result = (if (kept bytes answer).transferred ≠ 0 then ((kept bytes answer).transferred : Int)
        else processFsError (kept bytes answer).error) →
      r.2.handle.pendingError = (if (kept bytes answer).transferred ≠ 0 ∧
        processFsError (kept bytes answer).error ≠ 0 then processFsError (kept bytes answer).error else 0) →
      Accounted b s call r

lemma processFsError_nonpos (error : Option FsError) : processFsError error ≤ 0 := by
  unfold processFsError
  split
  · exact errno_nonpos _
  · exact le_refl 0

lemma processFsError_ne_zero {error : Option FsError} (h : error ≠ none) (h' : error ≠ some .end) :
    processFsError error ≠ 0 := by
  cases error with
  | none => exact absurd rfl h
  | some e => cases e <;> first | exact absurd rfl h' | decide

lemma kept_le (bytes : Nat) (answer : FsIoResult) : (kept bytes answer).transferred ≤ bytes := by
  unfold kept
  split
  · exact Nat.zero_le _
  · exact Nat.not_lt.mp ‹_›

lemma kept_eq {answer : FsIoResult} (h : (kept bytes answer).transferred ≠ 0) :
    answer.transferred ≤ bytes ∧ kept bytes answer = answer := by
  unfold kept at h ⊢
  split
  · rename_i hgt
    rw [if_pos hgt] at h
    exact absurd rfl h
  · rename_i hle
    exact ⟨Nat.not_lt.mp hle, rfl⟩

lemma transfer_accounted (hreq : call.request = some (write, bytes)) (hperform : ∀ s : Opened (σ × List Asked),
      s.perform (watched b) call = s.transfer (watched b) mem bytes write context)
    (hvalid : s.Valid call ↔ s.Transfers mem bytes write context) :
    Accounted b s call (s.perform (watched b) call) := by
  by_cases hv : s.Transfers mem bytes write context
  · by_cases hp : s.handle.pendingError = 0
    · have heq := transfer_eq (b := watched b) hv
      rw [if_neg (not_not.mpr hp)] at heq
      obtain ⟨-, -, -, hz, -, h64, -⟩ := id hv
      have hio := fsIo_asks b s.names s.handle.reference s.handle.offset.toNat write (mem.getD fun _ => 0)
        (Nat.ne_of_gt hz)
      rw [hperform, heq]
      generalize fsIo (watched b) s.names s.handle.reference s.handle.offset.toNat write (mem.getD fun _ => 0) bytes = r
        at hio ⊢
      obtain ⟨result, data, names'⟩ := r
      dsimp only at hio ⊢
      have hv' := hvalid.mpr hv
      cases hio with
      | refused e hlog =>
        refine .refused hv' hp hlog ?_ (processFsError_nonpos _)
        simp
      | answered id answer hlog =>
        have hle := kept_le bytes answer
        refine .asked id answer hv' hp hreq hlog (by omega) rfl ?_ rfl (by simp only [hp])
        rw [UInt64.toNat_add, UInt64.toNat_ofNat_of_lt' (show _ < 2 ^ 64 by omega)]
        exact Nat.mod_eq_of_lt (by omega)
    · have heq := transfer_eq (b := watched b) hv
      rw [if_pos hp] at heq
      rw [hperform, heq]
      exact .told (hvalid.mpr hv) hp
  · obtain ⟨r, hr, hall⟩ := transfer_refused (b := watched b) hv
    have hself := hall s.handle.pendingError
    rw [withPending_self] at hself
    rw [hperform, hself]
    refine .aside (mt hvalid.mp hv) (fun error => ?_) rfl rfl fun _ => ⟨hr, rfl⟩
    rw [hperform]
    exact hall error

lemma place_withPending (s : Opened σ) (error : Int) : (s.withPending error).place displacement base =
    ((s.place displacement base).1, (s.place displacement base).2.withPending error) := by
  unfold place
  dsimp only
  split <;> split <;> rfl

lemma place_kept (displacement base : UInt64) (s : Opened σ) : (s.place displacement base).2.names = s.names ∧
    (s.place displacement base).2.handle.kind = s.handle.kind := by
  unfold place
  dsimp only
  split <;> split <;> exact ⟨rfl, rfl⟩

variable (b names token) in
lemma fsStat_log : ((fsStat (watched b) token).run names).2.volume.2 = names.volume.2 := by
  unfold fsStat
  rw [operation_run]
  split
  · rfl
  split
  · rfl
  simp only [referenced, Prog.bind_run, Prog.get_run]
  cases findReference names.references token with
  | none => rfl
  | some r =>
    simp only [Prog.pure_run, backend, watched, unlogged]
    rcases (b.stat (names.objects (names.references r).object).id).run names.volume.1 with ⟨q, v⟩
    cases q with
    | error e => rfl
    | ok node =>
      dsimp only
      split <;> rfl

variable (b s displacement whence position context) in
lemma seek_aside : ∃ r : Answer × Opened (σ × List Asked),
    (∀ error, (s.withPending error).seek (watched b) displacement whence position context =
      (r.1, r.2.withPending error)) ∧ r.2.log = s.log ∧ r.2.handle.kind = s.handle.kind := by
  by_cases h1 : !position ∨ whence > 2
  · exact ⟨(Errno.einval.answer, s), fun error => if_pos h1, rfl, rfl⟩
  by_cases h2 : s.handle.kind = .input ∨ s.handle.kind = .output
  · exact ⟨(Errno.einval.answer, s), fun error => (if_neg h1).trans (if_pos h2), rfl, rfl⟩
  by_cases h3 : s.handle.kind = .directory ∧ (whence ≠ 0 ∨ displacement ≠ 0)
  · exact ⟨(Errno.einval.answer, s), fun error => (if_neg h1).trans ((if_neg h2).trans (if_pos h3)), rfl, rfl⟩
  by_cases h4 : !context
  · exact ⟨(Errno.ebusy.answer, s),
      fun error => (if_neg h1).trans ((if_neg h2).trans ((if_neg h3).trans (if_pos h4))), rfl, rfl⟩
  by_cases h5 : whence = 2
  · have hlog := fsStat_log b s.names s.handle.reference
    have hseek : ∀ error,
      (s.withPending error).seek (watched b) displacement whence position context = _ := fun error =>
      (if_neg h1).trans ((if_neg h2).trans ((if_neg h3).trans ((if_neg h4).trans (if_pos h5))))
    dsimp only [withPending_handle, withPending_names] at hseek
    generalize (fsStat (watched b) s.handle.reference).run s.names = q at hlog hseek
    obtain ⟨q, names'⟩ := q
    cases q with
    | error e => exact ⟨(_, { s with names := names' }), hseek, hlog, rfl⟩
    | ok info =>
      obtain ⟨hn, hk⟩ := place_kept displacement (UInt64.ofNat info.size) { s with names := names' }
      refine ⟨place { s with names := names' } displacement (UInt64.ofNat info.size), fun error => ?_, ?_, hk⟩
      · exact (hseek error).trans (place_withPending { s with names := names' } error)
      · exact (congrArg (fun n => n.volume.2) hn).trans hlog
  · obtain ⟨hn, hk⟩ := place_kept displacement (if whence = 1 then s.handle.offset else 0) s
    refine ⟨s.place displacement (if whence = 1 then s.handle.offset else 0), fun error => ?_, ?_, hk⟩
    · exact ((if_neg h1).trans ((if_neg h2).trans ((if_neg h3).trans ((if_neg h4).trans (if_neg h5))))).trans
        (place_withPending s error)
    · exact congrArg (fun n => n.volume.2) hn

lemma perform_accounted (b : Backend σ) (s : Opened (σ × List Asked)) (call : HandleCall) :
    Accounted b s call (s.perform (watched b) call) := by
  cases call with
  | seek displacement whence position context =>
    obtain ⟨r, hall, hlog, hkind⟩ := seek_aside b context s displacement whence position
    have hself : s.perform (watched b) (.seek displacement whence position context) = _ := hall s.handle.pendingError
    rw [hself]
    exact .aside id hall hlog hkind fun h => absurd rfl h
  | read mem bytes context | write mem bytes context => exact transfer_accounted rfl (fun _ => rfl) Iff.rfl

/-! ## Sequences of calls -/

variable {calls : List HandleCall}

lemma run_append {b : Backend σ} {s : Opened σ} {calls calls' : List HandleCall} :
    s.run b (calls ++ calls') = (s.run b calls).run b calls' := List.foldl_append

lemma Quiet.run (h : s.Quiet (watched b) calls) :
    (s.run (watched b) calls).handle.pendingError = s.handle.pendingError ∧ (s.run (watched b) calls).log = s.log := by
  induction calls generalizing s with
  | nil => exact ⟨rfl, rfl⟩
  | cons call calls ih =>
    obtain ⟨hv, hq⟩ := h
    obtain ⟨hp, hl⟩ := ih hq
    have ha := perform_accounted b s call
    change ((s.perform (watched b) call).2.run (watched b) calls).handle.pendingError = _ ∧
      ((s.perform (watched b) call).2.run (watched b) calls).log = _
    rw [hp, hl]
    generalize hr : s.perform (watched b) call = r at ha
    cases ha with
    | aside _ hall hlog _ _ =>
      refine ⟨?_, hlog⟩
      have hself := hall s.handle.pendingError
      rw [withPending_self, hr] at hself
      exact congrArg (fun r => r.2.handle.pendingError) hself
    | told hv' => exact absurd hv' hv
    | refused hv' => exact absurd hv' hv
    | asked _ _ hv' => exact absurd hv' hv

/-- A remembered error comes from the last transfer, which the backend answered with a prefix and this error. -/
def Owed (b : Backend σ) (s0 : Opened (σ × List Asked)) (calls : List HandleCall) (error : Int) : Prop :=
  ∃ before call between a, calls = before ++ call :: between ∧ (s0.run (watched b) before).Valid call ∧
    ((s0.run (watched b) before).perform (watched b) call).2.log = (s0.run (watched b) before).log ++ [a] ∧
    0 < a.answer.transferred ∧ a.answer.transferred ≤ a.bytes ∧ processFsError a.answer.error = error ∧
    ((s0.run (watched b) before).perform (watched b) call).2.Quiet (watched b) between

lemma Quiet.append_single {between : List HandleCall} (h : s.Quiet (watched b) between)
    (hv : ¬(s.run (watched b) between).Valid call) : s.Quiet (watched b) (between ++ [call]) := by
  induction between generalizing s with
  | nil => exact ⟨hv, trivial⟩
  | cons c cs ih => exact ⟨h.1, ih h.2 hv⟩

section
variable (s0 : Opened (σ × List Asked)) (hp : s0.handle.pendingError = 0)
include s0 hp

lemma run_owed (h : (s0.run (watched b) calls).handle.pendingError ≠ 0) :
    Owed b s0 calls (s0.run (watched b) calls).handle.pendingError := by
  induction calls using List.reverseRecOn with
  | nil => exact absurd hp h
  | append_singleton calls call ih =>
    rw [run_append] at h ⊢
    change ((s0.run (watched b) calls).perform (watched b) call).2.handle.pendingError ≠ 0 at h
    change Owed b s0 _ ((s0.run (watched b) calls).perform (watched b) call).2.handle.pendingError
    have ha := perform_accounted b (s0.run (watched b) calls) call
    generalize hr : (s0.run (watched b) calls).perform (watched b) call = r at ha h ⊢
    cases ha with
    | aside hv hall hlog _ _ =>
      have hself := hall (s0.run (watched b) calls).handle.pendingError
      rw [withPending_self, hr] at hself
      have hkeep : r.2.handle.pendingError = (s0.run (watched b) calls).handle.pendingError :=
        congrArg (fun r => r.2.handle.pendingError) hself
      rw [hkeep] at h ⊢
      obtain ⟨before, c, between, a, rfl, hc, hlog', h0, hle, he, hq⟩ := ih h
      refine ⟨before, c, between ++ [call], a, by simp, hc, hlog', h0, hle, he, hq.append_single ?_⟩
      rw [run_append] at hv
      exact hv
    | told => exact absurd rfl h
    | refused _ hp' _ hh =>
      rw [hh] at h
      exact absurd hp' h
    | @asked _ write bytes id answer hv hp' hreq hlog _ _ _ _ hpend =>
      rw [hpend] at h ⊢
      have hcond : (kept bytes answer).transferred ≠ 0 ∧ processFsError (kept bytes answer).error ≠ 0 := by
        by_contra hc
        exact h (if_neg hc)
      have hacc := kept_eq hcond.1
      rw [if_pos hcond, hacc.2]
      rw [hacc.2] at hcond
      refine ⟨calls, call, [], ⟨write, id, (s0.run (watched b) calls).handle.offset.toNat, bytes, answer⟩, rfl, hv, ?_,
        Nat.pos_of_ne_zero hcond.1, hacc.1, rfl, trivial⟩
      rw [hr]
      exact hlog

lemma run_pending_nonpos : (s0.run (watched b) calls).handle.pendingError ≤ 0 := by
  by_cases h : (s0.run (watched b) calls).handle.pendingError = 0
  · exact le_of_eq h
  · obtain ⟨before, call, between, a, -, -, -, -, -, he, -⟩ := run_owed s0 hp h
    rw [← he]
    exact processFsError_nonpos _

end

variable (b) in
lemma perform_told (hv : s.Valid call) (h : s.handle.pendingError ≠ 0) :
    s.perform (watched b) call = ({ result := s.handle.pendingError }, s.withPending 0) := by
  have ha := perform_accounted b s call
  generalize s.perform (watched b) call = r at ha ⊢
  cases ha with
  | aside hv' => exact absurd hv hv'
  | told => rfl
  | refused _ hp => exact absurd hp h
  | asked _ _ _ hp => exact absurd hp h

/-- What becomes of the backend's answer: its error is the result when it came without a prefix, and otherwise the
result of the next transfer that passes every check, which asks for nothing. -/
def Settles (b : Backend σ) (r : Answer × Opened (σ × List Asked)) (answer : FsIoResult) : Prop :=
  (answer.transferred = 0 → r.1.result = processFsError answer.error) ∧
  (0 < answer.transferred → r.1.result = answer.transferred ∧ (answer.error ≠ none → answer.error ≠ some .end →
    ∀ between next, r.2.Quiet (watched b) between →
      let s' := r.2.run (watched b) between
      s'.Valid next → (s'.perform (watched b) next).1.result = processFsError answer.error ∧
        (s'.perform (watched b) next).2 = s'.withPending 0 ∧ s'.log = r.2.log))

namespace Accounted

variable {r : Answer × Opened (σ × List Asked)}

lemma moves (h : Accounted b s call r) (hp : s.handle.pendingError ≤ 0) (hreq : call.request ≠ none) :
    (0 < r.1.result → (r.2.handle.offset.toNat : Int) = s.handle.offset.toNat + r.1.result) ∧
      (r.1.result ≤ 0 → r.2.handle.offset = s.handle.offset) := by
  cases h with
  | aside _ _ _ _ htransfer =>
    obtain ⟨hle, he⟩ := htransfer hreq
    exact ⟨fun hpos => absurd hle (Int.not_le.mpr hpos), fun _ => by rw [he]⟩
  | told => exact ⟨fun hpos => absurd hp (Int.not_le.mpr hpos), fun _ => rfl⟩
  | refused _ _ _ hh hle => exact ⟨fun hpos => absurd hle (Int.not_le.mpr hpos), fun _ => by rw [hh]⟩
  | @asked _ write bytes id answer _ _ _ _ _ _ hoff hres _ =>
    have hnonpos := processFsError_nonpos (kept bytes answer).error
    rw [hres, ← UInt64.toNat_inj, hoff]
    split
    · omega
    · omega

lemma apart (h : Accounted b s call r) (hv : ¬s.Valid call) (error : Int) :
    (s.withPending error).perform (watched b) call = (r.1, r.2.withPending error) := by
  cases h with
  | aside _ hall => exact hall error
  | told hv' => exact absurd hv' hv
  | refused hv' => exact absurd hv' hv
  | asked _ _ hv' => exact absurd hv' hv

lemma backend (h : Accounted b s call r) (hn : s.handle.pendingError ≤ 0) :
    (r.2.log = s.log ∧ (call.request ≠ none → r.1.result ≤ 0)) ∨ ∃ a, r.2.log = s.log ++ [a] ∧ s.Valid call ∧
      s.handle.pendingError = 0 ∧ call.request = some (a.write, a.bytes) ∧ a.offset = s.handle.offset.toNat ∧
      a.offset + a.bytes < 2 ^ 64 ∧ (a.answer.transferred ≤ a.bytes → Settles b r a.answer) := by
  cases h with
  | aside _ _ hlog _ htransfer => exact .inl ⟨hlog, fun hreq => (htransfer hreq).1⟩
  | told => exact .inl ⟨rfl, fun _ => hn⟩
  | refused _ _ hlog _ hle => exact .inl ⟨hlog, fun _ => hle⟩
  | @asked _ write bytes id answer hv hp hreq hlog hend _ _ hres hpend =>
    refine .inr ⟨_, hlog, hv, hp, hreq, rfl, hend, fun hle => ?_⟩
    have hacc : kept bytes answer = answer := if_neg (Nat.not_lt.mpr hle)
    rw [hacc] at hres hpend
    refine ⟨fun h0 => ?_, fun h0 => ⟨?_, fun hne hend' between next hq hnext => ?_⟩⟩
    · rw [hres, if_neg (not_not.mpr h0)]
    · rw [hres, if_pos (Nat.ne_of_gt h0)]
    · have he := processFsError_ne_zero hne hend'
      obtain ⟨hkeep, hlog'⟩ := hq.run
      rw [hpend, if_pos ⟨Nat.ne_of_gt h0, he⟩] at hkeep
      have htold := perform_told b hnext (hkeep ▸ he)
      dsimp only
      rw [htold]
      exact ⟨hkeep, rfl, hlog'⟩

end Accounted

/-- **Handle transfers account for every byte and every error.** After any calls on a file handle, over any backend:
* a positive result of a transfer advances the offset by it, any other result leaves it;
* the backend is asked at most once, by a transfer that passes every check, for the bytes at the offset, and its
  answer settles the result; a transfer that does not ask returns no bytes;
* a remembered error is owed by the last such transfer, is returned by the next one and then forgotten;
* no other call looks at it. -/
theorem transfers_accounted (b : Backend σ) (s0 : Opened (σ × List Asked)) (hp : s0.handle.pendingError = 0)
    (calls : List HandleCall) (call : HandleCall) :
    let s := s0.run (watched b) calls
    let r := s.perform (watched b) call
    (call.request ≠ none → (0 < r.1.result → (r.2.handle.offset.toNat : Int) = s.handle.offset.toNat + r.1.result) ∧
      (r.1.result ≤ 0 → r.2.handle.offset = s.handle.offset)) ∧
    ((r.2.log = s.log ∧ (call.request ≠ none → r.1.result ≤ 0)) ∨
      ∃ a, r.2.log = s.log ++ [a] ∧ s.Valid call ∧ s.handle.pendingError = 0 ∧
        call.request = some (a.write, a.bytes) ∧ a.offset = s.handle.offset.toNat ∧ a.offset + a.bytes < 2 ^ 64 ∧
        (a.answer.transferred ≤ a.bytes → Settles b r a.answer)) ∧
    (s.handle.pendingError ≠ 0 → Owed b s0 calls s.handle.pendingError ∧
      (s.Valid call → r = ({ result := s.handle.pendingError }, s.withPending 0))) ∧
    (¬s.Valid call → ∀ error, (s.withPending error).perform (watched b) call = (r.1, r.2.withPending error)) := by
  intro s r
  have ha : Accounted b s call r := perform_accounted b s call
  have hn : s.handle.pendingError ≤ 0 := run_pending_nonpos s0 hp
  refine ⟨ha.moves hn, ha.backend hn, fun hne => ⟨run_owed s0 hp hne, fun hv => ?_⟩, fun hv => ?_⟩
  · exact perform_told b hv hne
  · exact ha.apart hv

/-- A backend that reads three bytes and then fails. -/
def brokenDisk : Backend Unit where
  root := 1
  readOnly := true
  lookup _ _ := Prog.fail .notFound
  stat _ := Prog.fail .ioError
  retain _ := pure ()
  release _ := pure ()
  read _ _ bytes := pure ({ error := some .ioError, transferred := min 3 bytes }, List.replicate (min 3 bytes) 0)
  readdir _ _ := Prog.fail .end
  write := none
  replace := none
  remove := none
  mkdir := none
  truncate := none
  flush := none

/-- A handle on the file 5 of such a backend. -/
def brokenFile : Opened (Unit × List Asked) where
  handle := { reference := 7, access := readAccess, kind := .file }
  names := {
    objects := fun _ => { id := 5, references := 1 }, references := fun _ => { token := 7, access := readAccess }
    nextToken := 8, ready := true, busy := false, mounted := true, generation := 1, volume := ((), []) }

set_option maxRecDepth 8000 in
/-- The three bytes advance the offset. -/
theorem transfers_accounted_broken : brokenFile.handle.pendingError = 0 ∧
    (brokenFile.perform (watched brokenDisk) (.read (some fun _ => 0) 4 true)).1.result = 3 ∧
    (brokenFile.perform (watched brokenDisk) (.read (some fun _ => 0) 4 true)).2.handle.offset.toNat = 3 := by
  have h := (transfers_accounted brokenDisk brokenFile rfl [] (.read (some fun _ => 0) 4 true)).1 nofun
  have hr : (brokenFile.perform (watched brokenDisk) (.read (some fun _ => 0) 4 true)).1.result = 3 := by rfl
  refine ⟨rfl, hr, ?_⟩
  have ho := h.1 (by rw [show brokenFile.run (watched brokenDisk) [] = brokenFile from rfl, hr]; decide)
  rw [show brokenFile.run (watched brokenDisk) [] = brokenFile from rfl, hr] at ho
  exact Int.ofNat_inj.mp ho

end Opened

end RumKernel.Process
