import RumKernel.Fs.Types
import RumKernel.Lib.Strings

/-!
# The ATA disk

The polling driver `ata.c` and the request functions of `block.c`. The controller answers every port read from an
arbitrary stream of values; what the driver does to it is recorded: the port writes, the data words it reads, and the
outcome of each poll.
-/

namespace RumKernel.Drivers
open Lib Fs

variable {buffer' : Mem} {bytes completed : Nat}

/-! ## The driver -/

/-- The ports of the secondary channel that are written. -/
inductive Port where
  | data | count | lbaLow | lbaMid | lbaHigh | device | command | control
  deriving DecidableEq

inductive PollPhase where
  | idle | data | complete
  deriving DecidableEq

/-- What the driver does: it writes a port, reads a data word, or ends a poll. -/
inductive DiskEvent where
  | out (port : Port) (value : Nat)
  | word (value : Nat)
  | polled (phase : PollPhase) (ok : Bool)
  deriving DecidableEq

structure BlockResult where
  error : BlockError := .ok
  completed : Nat := 0
  status : Nat := 0
  deviceError : Nat := 0

/-- `result.error == BLOCK_OK`. -/
def BlockResult.ok (result : BlockResult) : Bool := result.error = .ok

/-- The static variables of `ata.c` and `block.c`; the controller's answers, with the number of those taken; and the
events so far. The sector size of the disk is always 512 and its operations are set. -/
structure Disk where
  sectorCount : Nat := 0
  online : Bool := false
  readOnly : Bool := false
  busy : Bool := false
  needsFlush : Bool := false
  activeRequests : Nat := 0
  answers : Nat → Nat
  taken : Nat := 0
  events : List DiskEvent := []

@[irreducible] def ataPollLimit : Nat := 1000000

@[irreducible] def ataFlushPollLimit : Nat := 50000000

def ataSectorSize : Nat := 512

def ataLbaLimit : Nat := 2 ^ 28

namespace Disk

def inb (d : Disk) : Nat × Disk := (d.answers d.taken % 2 ^ 8, { d with taken := d.taken + 1 })

def inw (d : Disk) : Nat × Disk :=
  let word := d.answers d.taken % 2 ^ 16
  (word, { d with taken := d.taken + 1, events := d.events ++ [.word word] })

def out (d : Disk) (port : Port) (value : Nat) : Disk := { d with events := d.events ++ [.out port value] }

def settle (d : Disk) : Disk := { d with taken := d.taken + 4 }

/-- The loop of `poll_limit` with `limit` rounds left. -/
def pollLoop (phase : PollPhase) : Nat → Nat → Disk → BlockResult × Disk
  | 0, status, d => ({ error := .timeout, status }, { d with online := false })
  | limit + 1, _, d =>
    let (status, d) := d.inb
    if status = 0 ∨ status = 0xff then ({ error := .noDevice, status }, { d with online := false })
    else if status &&& 0x80 ≠ 0 then pollLoop phase limit status d
    else if status &&& 0x20 ≠ 0 then
      let (deviceError, d) := inb { d with online := false }
      ({ error := .deviceFault, status, deviceError }, d)
    else if phase ≠ .idle ∧ status &&& 1 ≠ 0 then
      let (deviceError, d) := d.inb
      ({ error := .ioError, status, deviceError }, d)
    else if phase = .data ↔ status &&& 8 ≠ 0 then ({ status }, d)
    else pollLoop phase limit status d

def pollLimit (d : Disk) (phase : PollPhase) (limit : Nat) : BlockResult × Disk :=
  let (result, d) := pollLoop phase limit 0 d
  (result, { d with events := d.events ++ [.polled phase result.ok] })

def poll (d : Disk) (phase : PollPhase) : BlockResult × Disk := d.pollLimit phase ataPollLimit

def command (d : Disk) (lba opcode : Nat) : BlockResult × Disk :=
  let (result, d) := d.poll .idle
  if !result.ok then (result, d)
  else
    let d := (d.out .device ((0xe0 ||| lba >>> 24) % 2 ^ 8)).settle
    let (result, d) := d.poll .idle
    if !result.ok then (result, d)
    else
      let d := d.out .count 1
      let d := d.out .lbaLow (lba % 2 ^ 8)
      let d := d.out .lbaMid ((lba >>> 8) % 2 ^ 8)
      let d := d.out .lbaHigh ((lba >>> 16) % 2 ^ 8)
      let d := (d.out .command opcode).settle
      d.poll .data

/-- `inw` for the words of a sector, stored from `base` on, with `count` words left. -/
def readWords : Nat → Nat → Disk → Mem → Disk × Mem
  | 0, _, d, buffer => (d, buffer)
  | count + 1, base, d, buffer =>
    let (word, d) := d.inw
    readWords count (base + 2) d fun j =>
      if j = base then UInt8.ofNat word else if j = base + 1 then UInt8.ofNat (word >>> 8) else buffer j

/-- `outw` for the words of a sector. -/
def writeWords : Nat → Nat → Disk → Mem → Disk
  | 0, _, d, _ => d
  | count + 1, base, d, buffer =>
    writeWords count (base + 2) (d.out .data ((buffer base).toNat ||| (buffer (base + 1)).toNat <<< 8)) buffer

/-- A round of `transfer`: one sector, to or from `base` in the buffer. -/
def sector (d : Disk) (lba base : Nat) (buffer : Mem) (write : Bool) : BlockResult × Disk × Mem :=
  let (result, d) := d.command lba (if write then 0x30 else 0x20)
  if result.ok then
    let (d, buffer) := if write then (writeWords 256 base d buffer, buffer) else readWords 256 base d buffer
    let (result, d) := d.settle.poll .complete
    (result, d, buffer)
  else (result, d, buffer)

/-- The loop of `transfer` with `count` sectors left. -/
def transferLoop (lba : Nat) (write : Bool) : Nat → Nat → BlockResult → Disk → Mem → BlockResult × Disk × Mem
  | 0, _, result, d, buffer => (result, d, buffer)
  | count + 1, done, _, d, buffer =>
    let (result, d, buffer) := d.sector ((lba + done) % 2 ^ 32) (done * ataSectorSize) buffer write
    if !result.ok then ({ result with completed := done }, d, buffer)
    else transferLoop lba write count (done + 1) { result with completed := done + 1 } d buffer

def transfer (d : Disk) (lba count : Nat) (buffer : Mem) (write : Bool) : BlockResult × Disk × Mem :=
  transferLoop lba write count 0 {} d buffer

def flushCache (d : Disk) : BlockResult × Disk :=
  if !d.needsFlush then ({}, d)
  else
    let (result, d) := d.poll .idle
    if !result.ok then (result, d)
    else
      let d := (d.out .device 0xe0).settle
      let (result, d) := d.poll .idle
      if !result.ok then (result, d)
      else (d.out .command 0xe7).settle.pollLimit .complete ataFlushPollLimit

/-- The words of IDENTIFY DEVICE, from the answers. -/
def identifyWords : Nat → Disk → List Nat × Disk
  | 0, d => ([], d)
  | count + 1, d =>
    let (word, d) := d.inw
    (word :: (identifyWords count d).1, (identifyWords count d).2)

/-- The end of `ata_initialize`, with the identity read. -/
def configure (d : Disk) (result : BlockResult) (identify : List Nat) : BlockResult × Disk :=
  let id := fun i => identify.getD i 0
  let sectors := id 60 ||| id 61 <<< 16
  let geometryValid : Bool := id 106 &&& 0xc000 = 0x4000
  let longSector : Bool := geometryValid ∧ id 106 &&& 1 <<< 12 ≠ 0
  let words := id 117 ||| id 118 <<< 16
  let commandsValid : Bool := id 83 &&& 0xc000 = 0x4000
  let flushSupported : Bool := commandsValid ∧ id 83 &&& 1 <<< 12 ≠ 0
  let writeCache : Bool := id 85 &&& 1 <<< 5 ≠ 0
  if id 0 &&& 0x8000 ≠ 0 ∨ id 49 &&& 1 <<< 9 = 0 ∨ sectors = 0 ∨ sectors > ataLbaLimit ∨ (longSector ∧ words ≠ 256) ∨
      (writeCache ∧ !flushSupported) then
    ({ error := .unsupported }, d)
  else (result, { d with sectorCount := sectors, needsFlush := flushSupported, online := true })

/-- `ata_initialize` once the device has data: the identity is read and checked. -/
def readIdentity (d : Disk) : BlockResult × Disk :=
  let (identify, d) := identifyWords 256 d
  let (result, d) := d.settle.poll .complete
  if !result.ok then (result, d) else d.configure result identify

/-- `ata_initialize` from the command IDENTIFY DEVICE on. -/
def identifyDevice (d : Disk) : BlockResult × Disk :=
  let d := (((d.out .count 0).out .lbaLow 0).out .lbaMid 0).out .lbaHigh 0
  let (result, d) := (d.out .command 0xec).settle.poll .data
  if result.ok then d.readIdentity
  else if result.error = .ioError then
    -- the signature of a device that is not a disk
    let (mid, d) := d.inb
    if mid ≠ 0 then ({ result with error := .unsupported }, d)
    else
      let (high, d) := d.inb
      (if high ≠ 0 then { result with error := .unsupported } else result, d)
  else (result, d)

def ataInitialize (d : Disk) : BlockResult × Disk :=
  let d := { d with
    sectorCount := 0, online := false, readOnly := false, busy := false, needsFlush := false }
  let (result, d) := ((d.out .control 2).out .device 0xa0).settle.poll .idle
  if !result.ok then (result, d) else d.identifyDevice

/-! ## Requests -/

def acquire (d : Disk) : BlockError × Disk :=
  let error : BlockError :=
    if !d.online then .noDevice else if d.busy ∨ d.activeRequests = 2 ^ 32 - 1 then .busy else .ok
  (error, if error = .ok then { d with busy := true, activeRequests := d.activeRequests + 1 } else d)

def release (d : Disk) : Disk := { d with busy := false, activeRequests := d.activeRequests - 1 }

/-- `validate`; a missing buffer is a null pointer. -/
def validate (d : Disk) (lba count : Nat) (buffer : Option Mem) (bytes : Nat) : BlockError :=
  if lba > d.sectorCount ∨ count > d.sectorCount - lba then .range
  else if count ≠ 0 ∧ (buffer = none ∨ count > (2 ^ 32 - 1) / ataSectorSize ∨
    count > bytes / ataSectorSize) then .invalid
  else .ok

/-- `block_read` and `block_write`. -/
def block (d : Disk) (lba count : Nat) (buffer : Option Mem) (bytes : Nat) (write : Bool) :
    BlockResult × Disk × Option Mem :=
  let (error, d) := d.acquire
  if error ≠ .ok then ({ error }, d, buffer)
  else
    let error := d.validate lba count buffer bytes
    if error = .ok ∧ count ≠ 0 then
      if write ∧ d.readOnly then ({ error := .readOnly }, d.release, buffer)
      else
        let (result, d, memory) := d.transfer lba count (buffer.getD fun _ => 0) write
        (result, d.release, buffer.map fun _ => memory)
    else ({ error }, d.release, buffer)

def flush (d : Disk) : BlockResult × Disk :=
  let (error, d) := d.acquire
  if error ≠ .ok then ({ error }, d)
  else
    let (result, d) := d.flushCache
    (result, d.release)

end Disk

/-! ## Events -/

def DiskEvent.failed : DiskEvent → Bool
  | .polled _ ok => !ok
  | _ => false

def Good (l : List DiskEvent) : Prop := ∀ e ∈ l, e.failed = false

/-- No poll failed, or only the last one. -/
def Ends (l : List DiskEvent) (ok : Bool) : Prop :=
  if ok then Good l else ∃ before last, l = before ++ [last] ∧ Good before ∧ last.failed = true

/-- The words that go over the data port, in either direction. -/
def wordsOf (l : List DiskEvent) : List Nat :=
  l.filterMap fun
    | .word value | .out .data value => some value
    | _ => none

/-- The polls for the completion of a command that succeeded. -/
def completions (l : List DiskEvent) : Nat := l.count (.polled .complete true)

/-- The registers of the controller. -/
structure Registers where
  count : Nat := 0
  low : Nat := 0
  mid : Nat := 0
  high : Nat := 0
  device : Nat := 0

def Registers.after (r : Registers) : DiskEvent → Registers
  | .out .count value => { r with count := value }
  | .out .lbaLow value => { r with low := value }
  | .out .lbaMid value => { r with mid := value }
  | .out .lbaHigh value => { r with high := value }
  | .out .device value => { r with device := value }
  | _ => r

/-- The sector the registers name. -/
def Registers.lba (r : Registers) : Nat := r.low + 2 ^ 8 * r.mid + 2 ^ 16 * r.high + 2 ^ 24 * (r.device % 2 ^ 4)

/-- A command as the controller sees it. -/
structure Issued where
  opcode : Nat
  lba : Nat
  count : Nat

/-- The command that an event issues, if any. -/
def DiskEvent.issues (r : Registers) : DiskEvent → List Issued
  | .out .command opcode => [⟨opcode, r.lba, r.count⟩]
  | _ => []

/-- The commands that the controller sees. -/
def decode : Registers → List DiskEvent → List Issued
  | _, [] => []
  | r, e :: l => e.issues r ++ decode (r.after e) l

variable {d d' d'' : Disk} {l l' : List DiskEvent} {ok : Bool} {r : Registers} {e : DiskEvent} {phase : PollPhase}
  {lba opcode base count limit : Nat} {buffer : Mem} {write : Bool}

lemma Good.append (h : Good l) (h' : Good l') : Good (l ++ l') := fun e he =>
  (List.mem_append.mp he).elim (h e) (h' e)

lemma Ends.append (h : Good l) (h' : Ends l' ok) : Ends (l ++ l') ok := by
  unfold Ends at h' ⊢
  cases ok with
  | true => exact h.append h'
  | false =>
    obtain ⟨before, last, rfl, hb, hl⟩ := h'
    exact ⟨l ++ before, last, by simp, h.append hb, hl⟩

lemma ends_polled : Ends [.polled phase ok] ok := by
  cases ok with
  | true => simp [Ends, Good, DiskEvent.failed]
  | false => exact ⟨[], _, rfl, nofun, rfl⟩

lemma decode_append : decode r (l ++ l') = decode r l ++ decode (l.foldl Registers.after r) l' := by
  induction l generalizing r with
  | nil => rfl
  | cons e l ih => simp [decode, ih]

@[simp] lemma wordsOf_append : wordsOf (l ++ l') = wordsOf l ++ wordsOf l' := List.filterMap_append

@[simp] lemma completions_append : completions (l ++ l') = completions l + completions l' := List.count_append

/-! ## Polls and commands -/

/-- From `d` to `d'` the driver did `l`; the device record is as before, but that a failed poll may have taken the disk
offline. -/
structure Did (d d' : Disk) (l : List DiskEvent) : Prop where
  events : d'.events = d.events ++ l
  sectorCount : d'.sectorCount = d.sectorCount
  readOnly : d'.readOnly = d.readOnly
  busy : d'.busy = d.busy
  activeRequests : d'.activeRequests = d.activeRequests
  online : d'.online = d.online ∨ (d'.online = false ∧ ¬ Good l)

namespace Did

lemma trans (h : Did d d' l) (h' : Did d' d'' l') : Did d d'' (l ++ l') := by
  refine ⟨by rw [h'.events, h.events, List.append_assoc], h'.sectorCount.trans h.sectorCount,
    h'.readOnly.trans h.readOnly, h'.busy.trans h.busy, h'.activeRequests.trans h.activeRequests, ?_⟩
  rcases h'.online with ho' | ⟨ho', hbad'⟩
  · rcases h.online with ho | ⟨ho, hbad⟩
    · exact .inl (ho'.trans ho)
    · exact .inr ⟨ho'.trans ho, fun hg => hbad fun e he => hg e (List.mem_append_left l' he)⟩
  · exact .inr ⟨ho', fun hg => hbad' fun e he => hg e (List.mem_append_right l he)⟩

lemma settle (h : Did d d' l) : Did d d'.settle l :=
    ⟨h.events, h.sectorCount, h.readOnly, h.busy, h.activeRequests, h.online⟩

lemma out (h : Did d d' l) (port : Port) (value : Nat) : Did d (d'.out port value) (l ++ [.out port value]) :=
  h.trans ⟨rfl, rfl, rfl, rfl, rfl, .inl rfl⟩

end Did

/-- What a poll does: it takes answers, and takes the disk offline only when it fails. -/
structure Polls (d : Disk) (q : BlockResult × Disk) : Prop where
  completed : q.1.completed = 0
  state : ∃ taken online, q.2 = { d with taken, online } ∧ (online = d.online ∨ (online = false ∧ q.1.error ≠ .ok))

lemma pollLoop_polls (phase : PollPhase) (limit status : Nat) (d : Disk) :
    Polls d (Disk.pollLoop phase limit status d) := by
  induction limit generalizing status d with
  | zero => exact ⟨rfl, d.taken, false, rfl, .inr ⟨rfl, nofun⟩⟩
  | succ limit ih =>
    rw [Disk.pollLoop]
    obtain ⟨status', d', hd'⟩ : ∃ status' d', d.inb = (status', d') := ⟨_, _, rfl⟩
    obtain rfl : { d with taken := d.taken + 1 } = d' := congrArg Prod.snd hd'
    have hnext := ih status' { d with taken := d.taken + 1 }
    have hagain : Polls d (Disk.pollLoop phase limit status' { d with taken := d.taken + 1 }) := ⟨hnext.1, hnext.2⟩
    rw [hd']
    simp only [Disk.inb]
    split
    · exact ⟨rfl, _, false, rfl, .inr ⟨rfl, nofun⟩⟩
    split
    · exact hagain
    split
    · exact ⟨rfl, _, false, rfl, .inr ⟨rfl, nofun⟩⟩
    split
    · exact ⟨rfl, _, d.online, rfl, .inl rfl⟩
    split
    · exact ⟨rfl, _, d.online, rfl, .inl rfl⟩
    · exact hagain

structure Polled (d : Disk) (phase : PollPhase) (q : BlockResult × Disk) : Prop where
  did : Did d q.2 [.polled phase q.1.ok]
  completed : q.1.completed = 0

lemma pollLimit_polled (d : Disk) (phase : PollPhase) (limit : Nat) : Polled d phase (d.pollLimit phase limit) := by
  obtain ⟨hc, taken, online, hd, ho⟩ := pollLoop_polls phase limit 0 d
  unfold Disk.pollLimit
  obtain ⟨result, d', hq⟩ : ∃ result d', Disk.pollLoop phase limit 0 d = (result, d') := ⟨_, _, rfl⟩
  rw [hq] at hc hd ho ⊢
  obtain rfl : d' = _ := hd
  refine ⟨⟨rfl, rfl, rfl, rfl, rfl, ?_⟩, hc⟩
  rcases ho with ho | ⟨ho, herror⟩
  · exact .inl ho
  · refine .inr ⟨ho, fun hg => ?_⟩
    have := hg _ List.mem_cons_self
    simp [DiskEvent.failed, BlockResult.ok, herror] at this

lemma poll_polled (d : Disk) (phase : PollPhase) : Polled d phase (d.poll phase) := pollLimit_polled d phase _

/-- The events of a command, up to the last poll. -/
def commandEvents (lba opcode : Nat) : List DiskEvent :=
  [.polled .idle true, .out .device ((0xe0 ||| lba >>> 24) % 2 ^ 8), .polled .idle true, .out .count 1,
    .out .lbaLow (lba % 2 ^ 8), .out .lbaMid ((lba >>> 8) % 2 ^ 8), .out .lbaHigh ((lba >>> 16) % 2 ^ 8),
    .out .command opcode]

lemma decode_commandEvents (r : Registers) (opcode : Nat) (h : lba < ataLbaLimit) :
    decode r (commandEvents lba opcode) = [⟨opcode, lba, 1⟩] := by
  have hor : (0xe0 ||| lba >>> 24) % 2 ^ 8 % 2 ^ 4 = lba >>> 24 := by
    have hlt : lba >>> 24 < 2 ^ 4 := by
      rw [Nat.shiftRight_eq_div_pow]
      unfold ataLbaLimit at h
      omega
    rw [Nat.mod_mod_of_dvd _ (by decide), Nat.or_mod_two_pow, Nat.mod_eq_of_lt hlt]
    simp
  simp only [commandEvents, decode, DiskEvent.issues, Registers.after, List.nil_append, List.append_nil, Registers.lba,
    hor]
  congr 2
  simp only [Nat.shiftRight_eq_div_pow]
  unfold ataLbaLimit at h
  omega

/-- A command: the events, and how they end. -/
structure CommandTrace (lba opcode : Nat) (ok : Bool) (l : List DiskEvent) : Prop where
  ends : Ends l ok
  issued : (∀ r, decode r l = [⟨opcode, lba, 1⟩]) ∨ (ok = false ∧ ∀ r, decode r l = [])
  completions : completions l = 0
  words : wordsOf l = []

def Commands (d : Disk) (lba opcode : Nat) (q : BlockResult × Disk) : Prop :=
  ∃ l, Did d q.2 l ∧ CommandTrace lba opcode q.1.ok l ∧ q.1.completed = 0

lemma command_commands (d : Disk) (h : lba < ataLbaLimit) (opcode : Nat) :
    Commands d lba opcode (d.command lba opcode) := by
  unfold Disk.command
  obtain ⟨r1, d1, hq1⟩ : ∃ r1 d1, d.poll .idle = (r1, d1) := ⟨_, _, rfl⟩
  have h1 := poll_polled d .idle
  rw [hq1] at h1 ⊢
  obtain ⟨h1, hc1⟩ := h1
  simp only at h1 hc1 ⊢
  cases he1 : r1.ok with
  | false =>
    refine ⟨_, h1, ⟨ends_polled, .inr ⟨he1, fun _ => rfl⟩, ?_, rfl⟩, hc1⟩
    simp [completions]
  | true =>
    rw [he1] at h1
    have h2' := (h1.out .device ((0xe0 ||| lba >>> 24) % 2 ^ 8)).settle
    have h2 := poll_polled (d1.out .device ((0xe0 ||| lba >>> 24) % 2 ^ 8)).settle .idle
    obtain ⟨r2, d2, hq2⟩ : ∃ r2 d2, (d1.out .device ((0xe0 ||| lba >>> 24) % 2 ^ 8)).settle.poll .idle = (r2, d2) :=
      ⟨_, _, rfl⟩
    simp only [Bool.not_true, Bool.false_eq_true, if_false]
    rw [hq2] at h2 ⊢
    obtain ⟨h2, hc2⟩ := h2
    have h2 := h2'.trans h2
    simp only at h2 hc2 ⊢
    cases he2 : r2.ok with
    | false =>
      refine ⟨_, h2, ⟨Ends.append ?_ ends_polled, .inr ⟨he2, fun _ => rfl⟩, ?_, rfl⟩, hc2⟩
      · simp [Good, DiskEvent.failed]
      · simp [completions]
    | true =>
      rw [he2] at h2
      have h3' := ((((((h2.out .count 1).out .lbaLow (lba % 2 ^ 8)).out .lbaMid ((lba >>> 8) % 2 ^ 8)).out .lbaHigh
        ((lba >>> 16) % 2 ^ 8)).out .command opcode).settle)
      simp only [Bool.not_true, Bool.false_eq_true, if_false]
      generalize ((((((d2.out .count 1).out .lbaLow (lba % 2 ^ 8)).out .lbaMid ((lba >>> 8) % 2 ^ 8)).out .lbaHigh
        ((lba >>> 16) % 2 ^ 8)).out .command opcode).settle) = d3 at h3' ⊢
      have h3 := poll_polled d3 .data
      refine ⟨_, h3'.trans h3.did, ⟨Ends.append ?_ ends_polled, .inl fun r => ?_, ?_, rfl⟩, h3.completed⟩
      · simp [Good, DiskEvent.failed]
      · have := decode_commandEvents r opcode h
        rw [decode_append]
        simpa [commandEvents, decode, DiskEvent.issues] using this
      · simp [completions]

/-! ## Sectors -/

/-- The bytes of the words, each with its low byte first. -/
def bytesOf (words : List Nat) : List Byte := words.flatMap fun word => [UInt8.ofNat word, UInt8.ofNat (word >>> 8)]

@[simp] lemma length_bytesOf (words : List Nat) : (bytesOf words).length = 2 * words.length := by
  induction words with
  | nil => rfl
  | cons word words ih =>
    simp only [bytesOf, List.flatMap_cons, List.length_append, List.length_cons, List.length_nil] at ih ⊢
    omega

@[simp] lemma bytesOf_append {words words' : List Nat} :
    bytesOf (words ++ words') = bytesOf words ++ bytesOf words' := by
  simp [bytesOf]

/-- Events that are neither commands nor polls. -/
structure DataTrace (l : List DiskEvent) : Prop where
  good : Good l
  issued : ∀ r, decode r l = []
  completions : completions l = 0

lemma DataTrace.cons (he : e.failed = false) (hi : ∀ r, e.issues r = []) (hc : e ≠ .polled .complete true)
    (h : DataTrace l) : DataTrace (e :: l) := by
  refine ⟨?_, fun r => by rw [decode, hi, h.issued]; rfl, ?_⟩
  · rintro e' (_ | ⟨_, he'⟩)
    · exact he
    · exact h.good e' he'
  · rw [Drivers.completions, List.count_cons_of_ne hc]
    exact h.completions

lemma readWords_spec (count base : Nat) (d : Disk) (buffer : Mem) : ∃ l,
    Did d (Disk.readWords count base d buffer).1 l ∧ DataTrace l ∧ (wordsOf l).length = count ∧
      window (Disk.readWords count base d buffer).2 base (2 * count) = bytesOf (wordsOf l) ∧
      ∀ j, (j < base ∨ base + 2 * count ≤ j) → (Disk.readWords count base d buffer).2 j = buffer j := by
  induction count generalizing base d buffer with
  | zero =>
    exact ⟨[], ⟨by simp [Disk.readWords], rfl, rfl, rfl, rfl, .inl rfl⟩, ⟨nofun, fun _ => rfl, rfl⟩, rfl, rfl,
      fun _ _ => rfl⟩
  | succ count ih =>
    rw [Disk.readWords]
    obtain ⟨word, d1, hq⟩ : ∃ word d1, d.inw = (word, d1) := ⟨_, _, rfl⟩
    have hd1 : Did d d1 [.word word] := by
      obtain ⟨rfl, rfl⟩ := Prod.mk.inj hq
      exact ⟨rfl, rfl, rfl, rfl, rfl, .inl rfl⟩
    rw [hq]
    simp only
    obtain ⟨buffer1, hb, hlow, hhigh, hrest⟩ : ∃ buffer1 : Mem, buffer1 = (fun j => if j = base then UInt8.ofNat word
          else if j = base + 1 then UInt8.ofNat (word >>> 8) else buffer j) ∧
        buffer1 base = UInt8.ofNat word ∧ buffer1 (base + 1) = UInt8.ofNat (word >>> 8) ∧
        ∀ j, (j < base ∨ base + 2 ≤ j) → buffer1 j = buffer j := by
      refine ⟨_, rfl, if_pos rfl, ?_, fun j hj => ?_⟩
      · simp
      · rw [if_neg (by omega), if_neg (by omega)]
    rw [← hb]
    obtain ⟨l, hdid, hdata, hlen, hwindow, hframe⟩ := ih (base + 2) d1 buffer1
    have hcons : wordsOf (.word word :: l) = word :: wordsOf l := rfl
    refine ⟨.word word :: l, hd1.trans hdid, hdata.cons rfl (fun _ => rfl) nofun, by rw [hcons, List.length_cons, hlen],
      ?_, fun j hj => (hframe j (by omega)).trans (hrest j (by omega))⟩
    have htwo : window (Disk.readWords count (base + 2) d1 buffer1).2 base 2 =
        [UInt8.ofNat word, UInt8.ofNat (word >>> 8)] := by
      rw [← hlow, ← hhigh, ← hframe base (by omega), ← hframe (base + 1) (by omega)]
      rfl
    rw [show 2 * (count + 1) = 2 + 2 * count by omega, window_add, htwo, hwindow, hcons]
    rfl

/-- The bytes of a word that is put together from two bytes. -/
lemma ofNat_word (low high : Byte) : UInt8.ofNat (low.toNat ||| high.toNat <<< 8) = low ∧
    UInt8.ofNat ((low.toNat ||| high.toNat <<< 8) >>> 8) = high := by
  have hlow := low.toNat_lt
  have hhigh := high.toNat_lt
  rw [Nat.or_comm, ← Nat.shiftLeft_add_eq_or_of_lt hlow, Nat.shiftLeft_eq, Nat.shiftRight_eq_div_pow]
  constructor <;> rw [← UInt8.toNat_inj, UInt8.toNat_ofNat'] <;> omega

lemma writeWords_spec (count base : Nat) (d : Disk) (buffer : Mem) : ∃ l,
    Did d (Disk.writeWords count base d buffer) l ∧ DataTrace l ∧ (wordsOf l).length = count ∧
      window buffer base (2 * count) = bytesOf (wordsOf l) := by
  induction count generalizing base d with
  | zero => exact ⟨[], ⟨by simp [Disk.writeWords], rfl, rfl, rfl, rfl, .inl rfl⟩, ⟨nofun, fun _ => rfl, rfl⟩, rfl, rfl⟩
  | succ count ih =>
    rw [Disk.writeWords]
    obtain ⟨hlow, hhigh⟩ := ofNat_word (buffer base) (buffer (base + 1))
    generalize (buffer base).toNat ||| (buffer (base + 1)).toNat <<< 8 = value at hlow hhigh ⊢
    obtain ⟨l, hdid, hdata, hlen, hwindow⟩ := ih (base + 2) (d.out .data value)
    have hout : Did d (d.out .data value) [.out .data value] := ⟨rfl, rfl, rfl, rfl, rfl, .inl rfl⟩
    have hcons : wordsOf (.out .data value :: l) = value :: wordsOf l := rfl
    refine ⟨.out .data value :: l, hout.trans hdid, hdata.cons rfl (fun _ => rfl) nofun,
      by rw [hcons, List.length_cons, hlen], ?_⟩
    have htwo : window buffer base 2 = [UInt8.ofNat value, UInt8.ofNat (value >>> 8)] := by
      rw [hlow, hhigh]
      rfl
    rw [show 2 * (count + 1) = 2 + 2 * count by omega, window_add, htwo, hwindow, hcons]
    rfl

def opcodeOf (write : Bool) : Nat := if write then 0x30 else 0x20

/-- What a round of `transfer` does to the controller. -/
structure SectorTrace (lba : Nat) (write ok : Bool) (l : List DiskEvent) : Prop where
  ends : Ends l ok
  issued : (∀ r, decode r l = [⟨opcodeOf write, lba, 1⟩]) ∨ (ok = false ∧ ∀ r, decode r l = [])
  completions : completions l = if ok then 1 else 0

/-- What it does to the buffer: if it succeeds, the words are those of a sector of the buffer, and nothing else is
touched. -/
structure SectorData (base : Nat) (write ok : Bool) (l : List DiskEvent) (buffer buffer' : Mem) : Prop where
  filled : ok = true → (wordsOf l).length = 256 ∧ window buffer' base 512 = bytesOf (wordsOf l)
  kept : write = true → buffer' = buffer
  frame : ∀ j, (j < base ∨ base + 512 ≤ j) → buffer' j = buffer j

/-- A round of `transfer`. -/
def Rounds (d : Disk) (lba base : Nat) (buffer : Mem) (write : Bool) (q : BlockResult × Disk × Mem) : Prop :=
  ∃ l, Did d q.2.1 l ∧ SectorTrace lba write q.1.ok l ∧ SectorData base write q.1.ok l buffer q.2.2

lemma sector_rounds (d : Disk) (h : lba < ataLbaLimit) (base : Nat) (buffer : Mem) (write : Bool) :
    Rounds d lba base buffer write (d.sector lba base buffer write) := by
  unfold Disk.sector
  obtain ⟨l1, h1, ht1, -⟩ := command_commands d h (opcodeOf write)
  rw [show (if write then 0x30 else 0x20) = opcodeOf write from rfl]
  obtain ⟨r1, d1, hq1⟩ : ∃ r1 d1, d.command lba (opcodeOf write) = (r1, d1) := ⟨_, _, rfl⟩
  rw [hq1] at h1 ht1 ⊢
  simp only at h1 ht1 ⊢
  cases he1 : r1.ok with
  | false =>
    simp only [Bool.false_eq_true, if_false]
    refine ⟨l1, h1, ⟨ht1.ends, ht1.issued, ?_⟩, ⟨fun hok => ?_, fun _ => rfl, fun _ _ => rfl⟩⟩
    · rw [ht1.completions, he1]
      rfl
    · rw [he1] at hok
      cases hok
  | true =>
    simp only [if_true]
    rw [he1] at ht1
    have hissued := ht1.issued.resolve_right (by simp)
    obtain ⟨l2, d2, buffer2, hq2, h2, hdata, hwords, hkept, hframe⟩ : ∃ l2 d2 buffer2,
        (if write then (Disk.writeWords 256 base d1 buffer, buffer) else Disk.readWords 256 base d1 buffer) =
          (d2, buffer2) ∧ Did d1 d2 l2 ∧ DataTrace l2 ∧
        ((wordsOf l2).length = 256 ∧ window buffer2 base 512 = bytesOf (wordsOf l2)) ∧
        (write = true → buffer2 = buffer) ∧
        ∀ j, (j < base ∨ base + 512 ≤ j) → buffer2 j = buffer j := by
      cases write with
      | true =>
        obtain ⟨l, hdid, hdata, hwords⟩ := writeWords_spec 256 base d1 buffer
        exact ⟨l, _, buffer, rfl, hdid, hdata, hwords, fun _ => rfl, fun _ _ => rfl⟩
      | false =>
        obtain ⟨l, hdid, hdata, hlen, hwindow, hframe⟩ := readWords_spec 256 base d1 buffer
        exact ⟨l, _, _, Prod.mk.eta.symm, hdid, hdata, ⟨hlen, hwindow⟩, nofun, hframe⟩
    rw [hq2]
    simp only
    have h3 := poll_polled d2.settle .complete
    have hdid := (h1.trans h2).settle.trans h3.did
    generalize d2.settle.poll .complete = q at h3 hdid ⊢
    have hw : wordsOf (l1 ++ l2 ++ [.polled .complete q.1.ok]) = wordsOf l2 := by
      rw [wordsOf_append, wordsOf_append, ht1.words]
      exact List.append_nil _
    refine ⟨_, hdid, ⟨?_, .inl fun r => ?_, ?_⟩, ⟨fun _ => ?_, hkept, hframe⟩⟩
    · exact Ends.append (Good.append ht1.ends hdata.good) ends_polled
    · rw [decode_append, decode_append, hissued, hdata.issued]
      rfl
    · rw [completions_append, completions_append, ht1.completions, hdata.completions]
      cases q.1.ok <;> rfl
    · rw [hw]
      exact hwords

/-! ## Transfers -/

/-- What `transfer` does to the controller from a sector on: the commands name the sectors in order, and the number of
completed ones is that of the completion polls that succeeded. -/
structure TransferTrace (lba count : Nat) (write ok : Bool) (completed : Nat) (l : List DiskEvent) : Prop where
  ends : Ends l ok
  completions : completions l = completed
  le : completed ≤ count
  issued : ∃ k, (k = completed ∨ (k = completed + 1 ∧ ok = false)) ∧ k ≤ count ∧
    ∀ r, decode r l = (List.range k).map fun i => ⟨opcodeOf write, lba + i, 1⟩
  all : ok = true → completed = count

/-- What `transfer` does to the buffer from `base` on. -/
structure TransferData (base : Nat) (write ok : Bool) (completed : Nat) (l : List DiskEvent) (buffer buffer' : Mem) :
    Prop where
  filled : 512 * completed ≤ (bytesOf (wordsOf l)).length ∧
    window buffer' base (512 * completed) = (bytesOf (wordsOf l)).take (512 * completed)
  kept : write = true → buffer' = buffer
  before : ∀ j < base, buffer' j = buffer j
  behind : ∀ j, base + 512 * (completed + 1) ≤ j → buffer' j = buffer j

lemma SectorTrace.failed (h : SectorTrace lba write ok l) (hok : ok = false) (hcount : 0 < count) :
    TransferTrace lba count write ok 0 l := by
  subst hok
  refine ⟨h.ends, h.completions, Nat.zero_le _, ?_, nofun⟩
  rcases h.issued with hone | ⟨-, hnone⟩
  · exact ⟨1, .inr ⟨rfl, rfl⟩, hcount, hone⟩
  · exact ⟨0, .inl rfl, Nat.zero_le _, hnone⟩

lemma SectorData.failed (h : SectorData base write ok l buffer buffer') :
    TransferData base write ok 0 l buffer buffer' :=
  ⟨⟨Nat.zero_le _, rfl⟩, h.kept, fun j hj => h.frame j (.inl hj), fun j hj => h.frame j (.inr hj)⟩

lemma SectorTrace.cons (h : SectorTrace lba write true l)
    (h' : TransferTrace (lba + 1) count write ok completed l') :
    TransferTrace lba (count + 1) write ok (completed + 1) (l ++ l') := by
  have hissued := h.issued.resolve_right (by simp)
  obtain ⟨k, hk, hle, hrest⟩ := h'.issued
  refine ⟨Ends.append h.ends h'.ends, ?_, Nat.succ_le_succ h'.le, ⟨k + 1, ?_, by omega, fun r => ?_⟩,
    fun hok => congrArg (· + 1) (h'.all hok)⟩
  · rw [completions_append, h.completions, h'.completions, if_pos rfl, Nat.add_comm]
  · exact hk.imp (congrArg (· + 1)) (And.imp_left (congrArg (· + 1)))
  · rw [decode_append, hissued, hrest, List.range_succ_eq_map]
    simp [Nat.add_assoc, Nat.add_comm 1]

lemma SectorData.cons {buffer1 : Mem} (h : SectorData base write true l buffer buffer1)
    (h' : TransferData (base + 512) write ok completed l' buffer1 buffer') :
    TransferData base write ok (completed + 1) (l ++ l') buffer buffer' := by
  refine ⟨?_, fun hw => (h'.kept hw).trans (h.kept hw), fun j hj => ?_, fun j hj => ?_⟩
  · obtain ⟨hlen, hfirst⟩ := h.filled rfl
    obtain ⟨hle, hrest⟩ := h'.filled
    have hbytes : (bytesOf (wordsOf l)).length = 512 := by rw [length_bytesOf, hlen]
    have hsame : window buffer' base 512 = window buffer1 base 512 := by
      refine List.map_congr_left fun j hj => h'.before _ ?_
      have := List.mem_range.mp hj
      omega
    rw [wordsOf_append, bytesOf_append, List.length_append, hbytes]
    refine ⟨by omega, ?_⟩
    have htake : (bytesOf (wordsOf l) ++ bytesOf (wordsOf l')).take ((bytesOf (wordsOf l)).length + 512 * completed) =
        bytesOf (wordsOf l) ++ (bytesOf (wordsOf l')).take (512 * completed) := List.take_length_add_append _
    rw [show 512 * (completed + 1) = 512 + 512 * completed by omega, window_add, hsame, hfirst, hrest, ← htake, hbytes]
  · exact (h'.before j (Nat.lt_add_right 512 hj)).trans (h.frame j (.inl hj))
  · rw [Nat.mul_add, Nat.add_comm (512 * _), ← Nat.add_assoc] at hj
    exact (h'.behind j hj).trans (h.frame j (.inr ((Nat.le_add_right _ _).trans hj)))

/-- The rest of a transfer, with `done` sectors behind it. -/
def Transfers (d : Disk) (lba count done : Nat) (buffer : Mem) (write : Bool) (q : BlockResult × Disk × Mem) : Prop :=
  ∃ completed l, q.1.completed = done + completed ∧ Did d q.2.1 l ∧
    TransferTrace (lba + done) count write q.1.ok completed l ∧
    TransferData (done * 512) write q.1.ok completed l buffer q.2.2

lemma transferLoop_transfers (write : Bool) (count done : Nat) (result : BlockResult) (d : Disk) (buffer : Mem)
    (hlba : lba + done + count ≤ ataLbaLimit) (hok : result.ok = true) (hdone : result.completed = done) :
    Transfers d lba count done buffer write (Disk.transferLoop lba write count done result d buffer) := by
  induction count generalizing done result d buffer with
  | zero =>
    rw [Disk.transferLoop]
    refine ⟨0, [], hdone, ⟨by simp, rfl, rfl, rfl, rfl, .inl rfl⟩,
      ⟨?_, rfl, le_rfl, ⟨0, .inl rfl, le_rfl, fun _ => rfl⟩, fun _ => rfl⟩,
      ⟨⟨Nat.zero_le _, rfl⟩, fun _ => rfl, fun _ _ => rfl, fun _ _ => rfl⟩⟩
    rw [hok]
    exact nofun
  | succ count ih =>
    rw [Disk.transferLoop]
    have hmod : (lba + done) % 2 ^ 32 = lba + done := Nat.mod_eq_of_lt (by unfold ataLbaLimit at hlba; omega)
    rw [hmod, show done * ataSectorSize = done * 512 from rfl]
    have hround := sector_rounds d (show lba + done < ataLbaLimit by omega) (done * 512) buffer write
    obtain ⟨r1, d1, buffer1, hq⟩ : ∃ r1 d1 buffer1,
      d.sector (lba + done) (done * 512) buffer write = (r1, d1, buffer1) :=
      ⟨_, _, _, rfl⟩
    rw [hq] at hround ⊢
    obtain ⟨l1, h1, ht, hd⟩ := hround
    simp only at h1 ht hd ⊢
    cases he : r1.ok with
    | false =>
      simp only [Bool.not_false, if_true]
      exact ⟨0, l1, rfl, h1, ht.failed he (Nat.succ_pos _), hd.failed⟩
    | true =>
      simp only [Bool.not_true, Bool.false_eq_true, if_false]
      rw [he] at ht hd
      obtain ⟨completed, l2, hcompleted, h2, ht2, hd2⟩ := ih (done + 1) { r1 with completed := done + 1 } d1 buffer1
        (by omega) he rfl
      rw [show (done + 1) * 512 = done * 512 + 512 by omega] at hd2
      exact ⟨completed + 1, l1 ++ l2, by rw [hcompleted]; omega, h1.trans h2, ht.cons ht2, hd.cons hd2⟩

lemma transfer_transfers (d : Disk) (hlba : lba + count ≤ ataLbaLimit) (buffer : Mem) (write : Bool) :
    Transfers d lba count 0 buffer write (d.transfer lba count buffer write) :=
  transferLoop_transfers write count 0 {} d buffer hlba rfl rfl

/-! ## Requests -/

lemma Ends.dropLast (h : Ends l ok) : ∀ e ∈ l.dropLast, e.failed = false := by
  cases ok with
  | true => exact fun e he => h e (List.mem_of_mem_dropLast he)
  | false =>
    obtain ⟨before, last, rfl, hb, -⟩ := h
    rw [List.dropLast_concat]
    exact hb

lemma Ends.last (h : Ends l ok) (hbad : ¬ Good l) : ∃ last, l.getLast? = some last ∧ last.failed = true := by
  cases ok with
  | true => exact absurd h hbad
  | false =>
    obtain ⟨before, last, rfl, -, hl⟩ := h
    exact ⟨last, by simp, hl⟩

lemma acquire_cases (d : Disk) : (d.online = true ∧ d.busy = false ∧
      d.acquire = (.ok, { d with busy := true, activeRequests := d.activeRequests + 1 })) ∨
    ∃ error, error ≠ .ok ∧ d.acquire = (error, d) := by
  unfold Disk.acquire
  cases ho : d.online with
  | false => exact .inr ⟨.noDevice, nofun, by simp⟩
  | true =>
    by_cases hb : d.busy = true ∨ d.activeRequests = 2 ^ 32 - 1
    · refine .inr ⟨.busy, nofun, ?_⟩
      simp only [Bool.not_true, Bool.false_eq_true, if_false, if_pos hb]
      rfl
    · refine .inl ⟨rfl, by simpa using fun h => hb (.inl h), ?_⟩
      simp only [Bool.not_true, Bool.false_eq_true, if_false, if_neg hb, if_true]

lemma Did.release (hbusy : d.busy = false)
    (h : Did { d with busy := true, activeRequests := d.activeRequests + 1 } d' l) : Did d d'.release l := by
  refine ⟨h.events, h.sectorCount, h.readOnly, hbusy.symm, ?_, h.online⟩
  show d'.activeRequests - 1 = d.activeRequests
  rw [h.activeRequests]
  rfl

lemma Did.refl : Did d d [] := ⟨by simp, rfl, rfl, rfl, rfl, .inl rfl⟩

/-- What a read or write does to the controller. -/
structure RequestTrace (d : Disk) (lba count bytes : Nat) (write : Bool) (result : BlockResult) (l : List DiskEvent) :
    Prop where
  /-- A command is within the disk and the buffer. -/
  permitted : ∀ r, decode r l ≠ [] → 1 ≤ count ∧ lba + count ≤ d.sectorCount ∧ count * 512 ≤ bytes
  /-- The commands name the sectors from `lba` on, one after the other, up to the first that is not completed. -/
  issued : ∃ k, (k = result.completed ∨ k = result.completed + 1) ∧ k ≤ count ∧
    ∀ r, decode r l = (List.range k).map fun i => ⟨opcodeOf write, lba + i, 1⟩
  completed : result.completed = completions l
  all : result.ok = true → result.completed = count
  /-- Nothing is done after a poll that fails. -/
  failure : ∀ e ∈ l.dropLast, e.failed = false
  /-- The result is an error exactly if a poll failed, unless the request is refused or empty. -/
  ends : l = [] ∨ Ends l result.ok
  /-- A disk that is offline is left alone. -/
  offline : d.online = false → l = []

/-- The words of the completed sectors are the bytes of the buffer, in order; a write leaves the buffer as it is. -/
structure RequestData (write : Bool) (completed : Nat) (l : List DiskEvent) (buffer buffer' : Mem) : Prop where
  filled : 512 * completed ≤ (bytesOf (wordsOf l)).length ∧
    window buffer' 0 (512 * completed) = (bytesOf (wordsOf l)).take (512 * completed)
  kept : write = true → buffer' = buffer
  behind : ∀ j, 512 * (completed + 1) ≤ j → buffer' j = buffer j

lemma RequestData.refl (l : List DiskEvent) : RequestData write 0 l buffer buffer :=
  ⟨⟨Nat.zero_le _, rfl⟩, fun _ => rfl, fun _ _ => rfl⟩

def Requests (d : Disk) (lba count : Nat) (buffer : Option Mem) (bytes : Nat) (write : Bool)
    (q : BlockResult × Disk × Option Mem) : Prop :=
  ∃ l, Did d q.2.1 l ∧ RequestTrace d lba count bytes write q.1 l ∧
    (q.2.1.online ≠ d.online → ∃ last, l.getLast? = some last ∧ last.failed = true) ∧
    ∀ memory, buffer = some memory → ∃ memory', q.2.2 = some memory' ∧ RequestData write q.1.completed l memory memory'

lemma Requests.idle {result : BlockResult} {buffer : Option Mem} (h : Did d d' [])
    (hzero : result.completed = 0) (hok : result.ok = true → count = 0) :
    Requests d lba count buffer bytes write (result, d', buffer) := by
  refine ⟨[], h, ⟨fun _ hne => absurd rfl hne, ⟨0, .inl hzero.symm, Nat.zero_le _, fun _ => rfl⟩, hzero,
    fun h => hzero.trans (hok h).symm, nofun, .inl rfl, fun _ => rfl⟩, fun hne => ?_, fun memory hm => ⟨memory, hm, ?_⟩⟩
  · rcases h.online with ho | ⟨-, hbad⟩
    · exact absurd ho hne
    · exact absurd nofun hbad
  · rw [show (result, d', buffer).1.completed = 0 from hzero]
    exact .refl []

lemma validate_ok {buffer : Option Mem} (h : d.validate lba count buffer bytes = .ok) (hcount : count ≠ 0) :
    (∃ memory, buffer = some memory) ∧ lba + count ≤ d.sectorCount ∧ count * 512 ≤ bytes := by
  unfold Disk.validate at h
  split at h
  · cases h
  · split at h
    · cases h
    · rename_i hrange hvalid
      simp only [not_or, not_and, gt_iff_lt, not_lt] at hrange hvalid
      obtain ⟨hbuffer, -, hbytes⟩ := hvalid hcount
      refine ⟨Option.ne_none_iff_exists'.mp hbuffer, by omega, ?_⟩
      exact (Nat.le_div_iff_mul_le (by decide)).mp hbytes

lemma block_requests (hcap : d.sectorCount ≤ ataLbaLimit) (lba count : Nat) (buffer : Option Mem) (bytes : Nat)
    (write : Bool) : Requests d lba count buffer bytes write (d.block lba count buffer bytes write) := by
  unfold Disk.block
  rcases acquire_cases d with ⟨honline, hbusy, hacquire⟩ | ⟨error, hne, hacquire⟩
  · rw [hacquire]
    simp only [ne_eq, not_true_eq_false, if_false]
    generalize herror : Disk.validate _ lba count buffer bytes = error
    split
    · rename_i hvalid
      obtain ⟨rfl, hcount⟩ := hvalid
      obtain ⟨⟨memory, rfl⟩, hrange, hbytes⟩ := validate_ok herror hcount
      split
      · exact Requests.idle (Did.release hbusy Did.refl) rfl nofun
      · have htransfer := transfer_transfers { d with busy := true, activeRequests := d.activeRequests + 1 }
          (hrange.trans hcap) memory write
        rw [show Option.getD (some memory) (fun _ => 0) = memory from rfl]
        generalize Disk.transfer _ lba count memory write = q at htransfer ⊢
        obtain ⟨completed, l, hcompleted, hdid, ht, hd⟩ := htransfer
        rw [Nat.zero_add] at hcompleted
        obtain ⟨k, hk, hle, hissued⟩ := ht.issued
        have hdid' := hdid.release hbusy
        refine ⟨l, hdid', ⟨fun _ _ => ⟨Nat.one_le_iff_ne_zero.mpr hcount, hrange, hbytes⟩, ?_, ?_,
          fun hok => hcompleted.trans (ht.all hok), ht.ends.dropLast, .inr ht.ends, ?_⟩, fun hoff => ?_, fun m hm => ?_⟩
        · exact ⟨k, by rw [hcompleted]; exact hk.imp id And.left, hle, hissued⟩
        · rw [hcompleted, ht.completions]
        · exact fun hoff => absurd (honline.symm.trans hoff) nofun
        · exact ht.ends.last (hdid'.online.resolve_left hoff).2
        · obtain rfl := Option.some.inj hm
          rw [hcompleted]
          refine ⟨q.2.2, rfl, hd.filled, hd.kept, fun j hj => hd.behind j ?_⟩
          rwa [Nat.zero_mul, Nat.zero_add]
    · rename_i hvalid
      exact Requests.idle (Did.release hbusy Did.refl) rfl fun hok =>
        by_contra fun hcount => hvalid ⟨of_decide_eq_true hok, hcount⟩
  · rw [hacquire]
    simp only [ne_eq, hne, not_false_eq_true, if_true]
    exact Requests.idle Did.refl rfl fun hok => absurd (of_decide_eq_true hok) hne

/-- A flush issues no command but its own, and nothing after a poll that fails. -/
structure FlushTrace (ok : Bool) (l : List DiskEvent) : Prop where
  ends : Ends l ok
  issued : ∀ r, ∀ c ∈ decode r l, c.opcode = 0xe7

def Flushes (d : Disk) (q : BlockResult × Disk) : Prop := ∃ l, Did d q.2 l ∧ FlushTrace q.1.ok l

lemma flushCache_flushes (d : Disk) : Flushes d d.flushCache := by
  unfold Disk.flushCache
  cases d.needsFlush with
  | false => exact ⟨[], .refl, ⟨nofun, nofun⟩⟩
  | true =>
    simp only [Bool.not_true, Bool.false_eq_true, if_false]
    obtain ⟨r1, d1, hq1⟩ : ∃ r1 d1, d.poll .idle = (r1, d1) := ⟨_, _, rfl⟩
    have h1 := poll_polled d .idle
    rw [hq1] at h1 ⊢
    obtain ⟨h1, -⟩ := h1
    simp only at h1 ⊢
    cases he1 : r1.ok with
    | false => exact ⟨_, h1, ⟨ends_polled, nofun⟩⟩
    | true =>
      rw [he1] at h1
      have h2' := (h1.out .device 0xe0).settle
      have h2 := poll_polled (d1.out .device 0xe0).settle .idle
      obtain ⟨r2, d2, hq2⟩ : ∃ r2 d2, (d1.out .device 0xe0).settle.poll .idle = (r2, d2) := ⟨_, _, rfl⟩
      simp only [Bool.not_true, Bool.false_eq_true, if_false]
      rw [hq2] at h2 ⊢
      have h2 := h2'.trans h2.did
      simp only at h2 ⊢
      cases he2 : r2.ok with
      | false => exact ⟨_, h2, ⟨Ends.append (by simp [Good, DiskEvent.failed]) ends_polled, nofun⟩⟩
      | true =>
        rw [he2] at h2
        have h3' := (h2.out .command 0xe7).settle
        simp only [Bool.not_true, Bool.false_eq_true, if_false]
        have h3 := pollLimit_polled (d2.out .command 0xe7).settle .complete ataFlushPollLimit
        refine ⟨_, h3'.trans h3.did, ⟨Ends.append (by simp [Good, DiskEvent.failed]) ends_polled, fun r c hc => ?_⟩⟩
        obtain rfl := List.mem_singleton.mp (show c ∈ [_] from hc)
        rfl

lemma flush_flushes (d : Disk) :
    ∃ l, Did d d.flush.2 l ∧ (l = [] ∨ FlushTrace d.flush.1.ok l) ∧ (d.online = false → l = []) := by
  unfold Disk.flush
  rcases acquire_cases d with ⟨honline, hbusy, hacquire⟩ | ⟨error, hne, hacquire⟩
  · rw [hacquire]
    simp only [ne_eq, not_true_eq_false, if_false]
    obtain ⟨l, hdid, ht⟩ := flushCache_flushes { d with busy := true, activeRequests := d.activeRequests + 1 }
    exact ⟨l, hdid.release hbusy, .inr ht, fun hoff => absurd (honline.symm.trans hoff) nofun⟩
  · rw [hacquire]
    simp only [ne_eq, hne, not_false_eq_true, if_true]
    exact ⟨[], .refl, .inl rfl, fun _ => rfl⟩

/-! ## Runs -/

inductive DiskCall where
  | block (lba count : Nat) (buffer : Option Mem) (bytes : Nat) (write : Bool)
  | flush
  | restart

def DiskCall.perform (d : Disk) : DiskCall → Disk
  | .block lba count buffer bytes write => (d.block lba count buffer bytes write).2.1
  | .flush => d.flush.2
  | .restart => d.ataInitialize.2

/-- What holds between requests: the disk is free, and its sectors have addresses of 28 bits. -/
structure Disk.Ready (d : Disk) : Prop where
  busy : d.busy = false
  sectorCount : d.sectorCount ≤ ataLbaLimit

lemma identifyWords_did (count : Nat) (d : Disk) : ∃ l, Did d (Disk.identifyWords count d).2 l := by
  induction count generalizing d with
  | zero => exact ⟨[], .refl⟩
  | succ count ih =>
    obtain ⟨l, h⟩ := ih d.inw.2
    have hword : Did d d.inw.2 [.word d.inw.1] := ⟨rfl, rfl, rfl, rfl, rfl, .inl rfl⟩
    exact ⟨_, hword.trans h⟩

lemma Did.ready (h : Did d d' l) (hd : d.Ready) : d'.Ready :=
  ⟨h.busy.trans hd.busy, by rw [h.sectorCount]; exact hd.sectorCount⟩

lemma configure_ready (hd : d.Ready) (result : BlockResult) (identify : List Nat) :
    (d.configure result identify).2.Ready := by
  unfold Disk.configure
  simp only
  split
  · exact hd
  · rename_i h
    simp only [not_or] at h
    exact ⟨hd.busy, Nat.not_lt.mp h.2.2.2.1⟩

section
variable (h : d.Ready)
include h

lemma Disk.Ready.poll (phase : PollPhase) : (d.poll phase).2.Ready := (poll_polled d phase).did.ready h

lemma Disk.Ready.out (port : Port) (value : Nat) : (d.out port value).Ready := ⟨h.busy, h.sectorCount⟩

lemma Disk.Ready.settle : d.settle.Ready := ⟨h.busy, h.sectorCount⟩

lemma Disk.Ready.inb : d.inb.2.Ready := ⟨h.busy, h.sectorCount⟩

lemma Disk.Ready.readIdentity : d.readIdentity.2.Ready := by
  unfold Disk.readIdentity
  obtain ⟨l, hid⟩ := identifyWords_did 256 d
  obtain ⟨identify, d1, hwords⟩ : ∃ identify d1, Disk.identifyWords 256 d = (identify, d1) :=
    ⟨(Disk.identifyWords 256 d).1, (Disk.identifyWords 256 d).2, Prod.mk.eta.symm⟩
  rw [hwords] at hid ⊢
  have hd : d1.settle.Ready := hid.settle.ready h
  simp only
  split
  · exact hd.poll .complete
  · exact configure_ready (hd.poll .complete) _ _

lemma Disk.Ready.identifyDevice : d.identifyDevice.2.Ready := by
  unfold Disk.identifyDevice
  have hd := (((((h.out .count 0).out .lbaLow 0).out .lbaMid 0).out .lbaHigh 0).out .command 0xec).settle
  have hq := hd.poll .data
  obtain ⟨result, d1, hpoll⟩ : ∃ result d1,
      Disk.poll (((((d.out .count 0).out .lbaLow 0).out .lbaMid 0).out .lbaHigh 0).out .command 0xec).settle .data =
        (result, d1) := ⟨_, _, rfl⟩
  rw [hpoll] at hq
  simp only [hpoll]
  split
  · exact hq.readIdentity
  split
  · split
    · exact hq.inb
    · exact hq.inb.inb
  · exact hq

end

lemma ataInitialize_ready (d : Disk) : d.ataInitialize.2.Ready := by
  unfold Disk.ataInitialize
  have hd : ((Disk.out { d with
      sectorCount := 0, online := false, readOnly := false, busy := false, needsFlush := false } .control 2).out
      .device 0xa0).settle.Ready := ⟨rfl, Nat.zero_le _⟩
  have hq := hd.poll .idle
  simp only
  split
  · exact hq
  · exact hq.identifyDevice

lemma perform_ready (hd : d.Ready) (call : DiskCall) : (call.perform d).Ready := by
  cases call with
  | block lba count buffer bytes write =>
    obtain ⟨l, hdid, -⟩ := block_requests hd.sectorCount lba count buffer bytes write
    exact hdid.ready hd
  | flush =>
    obtain ⟨l, hdid, -⟩ := flush_flushes d
    exact hdid.ready hd
  | restart => exact ataInitialize_ready d

lemma run_ready (hd : d.Ready) (calls : List DiskCall) : (calls.foldl DiskCall.perform d).Ready := by
  induction calls generalizing d with
  | nil => exact hd
  | cons call calls ih => exact ih (perform_ready hd call)

lemma perform_offline (hd : d.Ready) (hoff : d.online = false) {call : DiskCall} (hcall : call ≠ .restart) :
    (call.perform d).online = false ∧ (call.perform d).events = d.events := by
  have hdid : ∃ l, Did d (call.perform d) l ∧ (d.online = false → l = []) := by
    cases call with
    | block lba count buffer bytes write =>
      obtain ⟨l, hdid, ht, -⟩ := block_requests hd.sectorCount lba count buffer bytes write
      exact ⟨l, hdid, ht.offline⟩
    | flush =>
      obtain ⟨l, hdid, -, hnil⟩ := flush_flushes d
      exact ⟨l, hdid, hnil⟩
    | restart => exact absurd rfl hcall
  obtain ⟨l, hdid, hnil⟩ := hdid
  obtain rfl := hnil hoff
  refine ⟨hdid.online.elim (fun h => h.trans hoff) fun h => h.1, ?_⟩
  rw [hdid.events, List.append_nil]

lemma run_offline (hd : d.Ready) (hoff : d.online = false) {calls : List DiskCall} (hcalls : .restart ∉ calls) :
    (calls.foldl DiskCall.perform d).events = d.events := by
  induction calls generalizing d with
  | nil => rfl
  | cons call calls ih =>
    rw [List.mem_cons, not_or] at hcalls
    obtain ⟨honline, hevents⟩ := perform_offline hd hoff (Ne.symm hcalls.1)
    exact (ih (perform_ready hd call) honline hcalls.2).trans hevents

/-- **Disk requests are in range, in order, and stop at the first failure.** After `ata_initialize` and any calls, with
any answers of the controller: a read or write issues commands only for sectors of the disk that fit the buffer, and
the controller sees them in order; the completed sectors are those whose completion was polled, all of them if the
request succeeds; nothing follows a poll that fails, and the words of the completed sectors are the bytes of the
buffer; `busy` and `active_requests` are as before; and a disk that a poll took offline is not touched until
`ata_initialize`. -/
theorem disk_requests (d0 : Disk) (calls : List DiskCall) :
    let d := calls.foldl DiskCall.perform d0.ataInitialize.2
    d.busy = false ∧
    (∀ (lba count : Nat) (buffer : Option Mem) (bytes : Nat) (write : Bool),
      Requests d lba count buffer bytes write (d.block lba count buffer bytes write)) ∧
    (∃ l, Did d d.flush.2 l ∧ (l = [] ∨ FlushTrace d.flush.1.ok l) ∧ (d.online = false → l = [])) ∧
    (d.online = false → ∀ later : List DiskCall, .restart ∉ later →
      (later.foldl DiskCall.perform d).events = d.events) := by
  intro d
  have hd : d.Ready := run_ready (ataInitialize_ready d0) calls
  exact ⟨hd.busy, fun lba count buffer bytes write => block_requests hd.sectorCount lba count buffer bytes write,
    flush_flushes d, fun hoff later hlater => run_offline hd hoff hlater⟩

/-- A disk of sixteen sectors: its statuses, and the words 49 and 60 of its identity. -/
def smallDisk : Disk where
  answers n :=
    if n = 9 ∨ n = 281 then 0x58 else if n < 10 ∨ 266 ≤ n then 0x50
    else if n = 59 then 0x200 else if n = 70 then 16 else 0

/-- It comes online, and its last sector can be written. -/
example : smallDisk.ataInitialize.2.online = true ∧
    (smallDisk.ataInitialize.2.block 15 1 (some fun _ => 7) 512 true).1.completed = 1 := by
  decide +kernel

end RumKernel.Drivers
