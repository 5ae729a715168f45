import RumKernel.Lib.Bytes
import RumKernel.Lib.Ring

/-!
# The keyboard queue

`keyboard_decode.c` and the queue of `keyboard.c`. The interrupt handler decodes scancodes and stores the characters
in a ring of 128 cells; `keyboard_read` and `keyboard_discard_input` take them out with interrupts disabled.
-/

namespace RumKernel.Drivers
open Lib

/-! ## Decoding -/

structure Decoder where
  leftShift : Bool := false
  rightShift : Bool := false
  capsLock : Bool := false
  capsDown : Bool := false
  extended : Bool := false
  leftCtrl : Bool := false
  rightCtrl : Bool := false
  leftAlt : Bool := false
  rightAlt : Bool := false
  pauseRemaining : Nat := 0

def ascii (text : String) : List Byte := text.toList.map fun c => UInt8.ofNat c.toNat

/-- The table `normal`; the codes behind its end have no character. -/
def normal : List Byte :=
  [0, 0] ++ ascii "1234567890-=" ++ [8, 9] ++ ascii "qwertyuiop[]" ++ [10, 0] ++ ascii "asdfghjkl;'`" ++ [0] ++
    ascii "\\zxcvbnm,./" ++ [0] ++ ascii "*" ++ [0] ++ ascii " " ++ List.replicate 16 0 ++ ascii "-" ++ [0, 0, 0] ++
    ascii "+"

/-- The table `shifted`. -/
def shifted : List Byte :=
  [0, 0] ++ ascii "!@#$%^&*()_+" ++ List.replicate 12 0 ++ ascii "\x7b\x7d" ++ List.replicate 11 0 ++ ascii ":\"~" ++
    [0] ++ ascii "|" ++ List.replicate 7 0 ++ ascii "<>?"

/-- The character of a key that is pressed without control or alt. -/
def plainKey (d : Decoder) (code : Byte) : Byte :=
  let character := normal.getD code.toNat 0
  let shift := d.leftShift || d.rightShift
  if 97 ≤ character ∧ character ≤ 122 then
    if shift ≠ d.capsLock then character - 32 else character
  else if shift ∧ shifted.getD code.toNat 0 ≠ 0 then shifted.getD code.toNat 0
  else character

/-- `keyboard_decode`: the character of a scancode, 0 for none, and the state of the modifiers. -/
def keyboardDecode (d : Decoder) (scancode : Byte) : Byte × Decoder :=
  if d.pauseRemaining ≠ 0 then (0, { d with pauseRemaining := d.pauseRemaining - 1 })
  else if scancode = 0xe1 then (0, { d with pauseRemaining := 5, extended := false })
  else if scancode = 0xe0 then (0, { d with extended := true })
  else
    let extended := d.extended
    let d := { d with extended := false }
    let released : Bool := scancode &&& 0x80 ≠ 0
    let code := scancode &&& 0x7f
    let control := d.leftCtrl || d.rightCtrl
    if code = 0x1d then (0, if extended then { d with rightCtrl := !released } else { d with leftCtrl := !released })
    else if code = 0x38 then (0, if extended then { d with rightAlt := !released } else { d with leftAlt := !released })
    else if !extended ∧ (code = 0x2a ∨ code = 0x36) then
      (0, if code = 0x2a then { d with leftShift := !released } else { d with rightShift := !released })
    else if !extended ∧ code = 0x3a then
      (0, { d with
        capsLock := if !released ∧ !d.capsDown then !d.capsLock else d.capsLock
        capsDown := !released })
    else if !released ∧ !extended ∧ control ∧ !d.leftAlt ∧ !d.rightAlt ∧ code = 0x2e then (3, d)
    else if released ∨ control ∨ d.leftAlt ∨ d.rightAlt then (0, d)
    else if extended then (if code = 0x1c then 10 else if code = 0x35 then 47 else 0, d)
    else (plainKey d code, d)

/-! ## The queue -/

def queueSize : Nat := 128

/-- `queue`, `head` and `tail`. -/
structure Queue where
  cells : Nat → Byte := fun _ => 0
  head : Nat := 0
  tail : Nat := 0

/-- The index behind `i`. -/
def Queue.next (i : Nat) : Nat := (i + 1) &&& (queueSize - 1)

/-- `queue[head] = character; head = next`. -/
def Queue.store (q : Queue) (character : Byte) : Queue :=
  { q with
    cells := fun j => if j = q.head then character else q.cells j
    head := next q.head }

/-- What the interrupt handler signals; `input_event` is noted with the queue at that moment. -/
inductive Notice where
  | input (queue : Queue)
  | shellInput
  | work

/-- The static variables of `keyboard.c`, and the signals so far. -/
structure Keyboard where
  decoder : Decoder := {}
  queue : Queue := {}
  dropped : Nat := 0
  notices : List Notice := []

/-- What one round of the interrupt handler reads from the ports, and the answer of `task_cancel_foreground` if the
round asks for it. -/
structure Reading where
  status : Byte
  scancode : Byte
  cancels : Bool

namespace Keyboard

/-- Store a character unless the queue is full. -/
def enqueue (k : Keyboard) (character : Byte) : Keyboard :=
  if Queue.next k.queue.head = k.queue.tail then { k with dropped := (k.dropped + 1) % 2 ^ 32 }
  else
    let queue := k.queue.store character
    { k with queue, notices := k.notices ++ [.input queue, .shellInput, .work] }

/-- A round of `keyboard_interrupt` on a byte that is there. -/
def receive (k : Keyboard) (r : Reading) : Keyboard :=
  if r.status &&& 0xe0 ≠ 0 then k
  else
    let (character, decoder) := keyboardDecode k.decoder r.scancode
    let k := { k with decoder }
    if character = 0 then k
    else if character = 3 ∧ r.cancels then { k with notices := k.notices ++ [.work] }
    else k.enqueue character

/-- The loop of `keyboard_interrupt` with `count` rounds left. -/
def interruptLoop : Nat → Keyboard → List Reading → Keyboard
  | 0, k, _ => k
  | _ + 1, k, [] => k
  | count + 1, k, r :: batch => if r.status &&& 1 = 0 then k else interruptLoop count (k.receive r) batch

/-- `keyboard_interrupt` on the values the controller delivers. -/
def interrupt (k : Keyboard) (batch : List Reading) : Keyboard := interruptLoop 32 k batch

def read (k : Keyboard) : Option Byte × Keyboard :=
  if k.queue.tail ≠ k.queue.head then
    (some (k.queue.cells k.queue.tail), { k with queue := { k.queue with tail := Queue.next k.queue.tail } })
  else (none, k)

def discardInput (k : Keyboard) : Keyboard := { k with queue := { k.queue with tail := k.queue.head } }

end Keyboard

inductive Action where
  | interrupt (batch : List Reading)
  | read
  | discard

/-- A run after `keyboard_initialize`: what the reads returned, and the state. -/
def Keyboard.run (k : Keyboard) : List Action → List (Option Byte) × Keyboard
  | [] => ([], k)
  | .interrupt batch :: rest => (k.interrupt batch).run rest
  | .read :: rest => (k.read.1 :: (k.read.2.run rest).1, (k.read.2.run rest).2)
  | .discard :: rest => k.discardInput.run rest

/-! ## The queue of characters -/

/-- A queue of at most 127 characters with its history: the characters accepted, those taken out with whether they were
read or discarded, the number of refused ones, and what could be read at each signal. -/
structure Fifo where
  decoder : Decoder := {}
  unread : List Byte := []
  accepted : List Byte := []
  gone : List (Byte × Bool) := []
  refused : Nat := 0
  signals : List (List Byte) := []

namespace Fifo

def offer (f : Fifo) (character : Byte) : Fifo :=
  if f.unread.length = 127 then { f with refused := f.refused + 1 }
  else
    { f with
      unread := f.unread ++ [character]
      accepted := f.accepted ++ [character]
      signals := f.signals ++ [f.unread ++ [character]] }

/-- One byte of the controller: an interrupt key for which a program was cancelled is not offered. -/
def receive (f : Fifo) (r : Reading) : Fifo :=
  if r.status &&& 0xe0 ≠ 0 then f
  else
    let (character, decoder) := keyboardDecode f.decoder r.scancode
    let f := { f with decoder }
    if character = 0 ∨ (character = 3 ∧ r.cancels) then f else f.offer character

/-- The bytes an interrupt takes: at most 32, up to the first missing one. -/
def taken (batch : List Reading) : List Reading := (batch.take 32).takeWhile fun r => r.status &&& 1 ≠ 0

def read (f : Fifo) : Option Byte × Fifo :=
  match f.unread with
  | [] => (none, f)
  | character :: unread => (some character, { f with unread, gone := f.gone ++ [(character, true)] })

def discard (f : Fifo) : Fifo :=
  { f with unread := [], gone := f.gone ++ f.unread.map fun character => (character, false) }

def run (f : Fifo) : List Action → List (Option Byte) × Fifo
  | [] => ([], f)
  | .interrupt batch :: rest => ((taken batch).foldl receive f).run rest
  | .read :: rest => (f.read.1 :: (f.read.2.run rest).1, (f.read.2.run rest).2)
  | .discard :: rest => f.discard.run rest

end Fifo

/-! ## The ring holds the queue -/

namespace Queue

variable {q : Queue}

/-- The number of unread characters. -/
def count (q : Queue) : Nat := (q.head + queueSize - q.tail) % queueSize

def unread (q : Queue) : List Byte := ringView q.cells q.tail q.count queueSize

/-- The indices stay in the ring. -/
structure Wf (q : Queue) : Prop where
  head_lt : q.head < queueSize
  tail_lt : q.tail < queueSize

@[simp] lemma length_unread : q.unread.length = q.count := length_ringView

lemma unread_eq {n : Nat} (h : q.count = n) : q.unread = ringView q.cells q.tail n queueSize := by rw [← h, unread]

lemma next_eq (i : Nat) : next i = (i + 1) % queueSize := Nat.and_two_pow_sub_one_eq_mod (i + 1) 7

lemma head_eq (h : q.Wf) : (q.tail + q.count) % queueSize = q.head := by
  obtain ⟨h1, h2⟩ := h
  unfold count
  unfold queueSize at *
  omega

lemma full_iff (h : q.Wf) : next q.head = q.tail ↔ q.count = 127 := by
  obtain ⟨h1, h2⟩ := h
  rw [next_eq]
  unfold count
  unfold queueSize at *
  omega

lemma Wf.store {character : Byte} (h : q.Wf) : (q.store character).Wf := by
  refine ⟨?_, h.tail_lt⟩
  show next q.head < queueSize
  rw [next_eq]
  exact Nat.mod_lt _ (by decide)

lemma unread_store {character : Byte} (h : q.Wf) (hfull : q.count ≠ 127) :
    (q.store character).unread = q.unread ++ [character] := by
  obtain ⟨h1, h2⟩ := id h
  have hcount : (q.store character).count = q.count + 1 := by
    show (next q.head + queueSize - q.tail) % queueSize = q.count + 1
    rw [next_eq]
    unfold count at hfull ⊢
    unfold queueSize at *
    omega
  have hlt : q.count < queueSize := Nat.mod_lt _ (by decide)
  have hpush := ringView_push q.cells character q.tail hlt
  rw [head_eq h] at hpush
  rw [unread_eq hcount]
  exact hpush

end Queue

variable {k : Keyboard} {f : Fifo} {r : Reading} {batch : List Reading} {character : Byte} {q : Queue}

/-- What could be read when the event was signalled. -/
def Notice.signal? : Notice → Option (List Byte)
  | .input queue => some queue.unread
  | _ => none

/-- The keyboard is in the state of the queue. -/
structure Holds (k : Keyboard) (f : Fifo) : Prop where
  wf : k.queue.Wf
  decoder : k.decoder = f.decoder
  unread : k.queue.unread = f.unread
  dropped : k.dropped = f.refused % 2 ^ 32
  signals : k.notices.filterMap Notice.signal? = f.signals

lemma enqueue_cases (h : k.queue.Wf) (character : Byte) :
    if k.queue.unread.length = 127 then k.enqueue character = { k with dropped := (k.dropped + 1) % 2 ^ 32 }
    else ∃ q : Queue, q.Wf ∧ q.unread = k.queue.unread ++ [character] ∧
      k.enqueue character = { k with queue := q, notices := k.notices ++ [.input q, .shellInput, .work] } := by
  unfold Keyboard.enqueue
  simp only [Queue.length_unread, Queue.full_iff h]
  by_cases hfull : k.queue.count = 127
  · rw [if_pos hfull, if_pos hfull]
  · rw [if_neg hfull, if_neg hfull]
    exact ⟨_, h.store, Queue.unread_store h hfull, rfl⟩

lemma Holds.enqueue (h : Holds k f) : Holds (k.enqueue character) (f.offer character) := by
  have hc := enqueue_cases h.wf character
  unfold Fifo.offer
  rw [h.unread] at hc
  by_cases hfull : f.unread.length = 127
  · rw [if_pos hfull] at hc
    rw [if_pos hfull, hc]
    refine ⟨h.wf, h.decoder, h.unread, ?_, h.signals⟩
    rw [h.dropped, Nat.mod_add_mod]
  · rw [if_neg hfull] at hc
    obtain ⟨q, hq, hu, he⟩ := hc
    rw [if_neg hfull, he]
    refine ⟨hq, h.decoder, hu, h.dropped, ?_⟩
    rw [List.filterMap_append, h.signals]
    simp [Notice.signal?, hu]

lemma Holds.receive (h : Holds k f) : Holds (k.receive r) (f.receive r) := by
  unfold Keyboard.receive Fifo.receive
  by_cases hstatus : r.status &&& 0xe0 ≠ 0
  · rw [if_pos hstatus, if_pos hstatus]
    exact h
  rw [if_neg hstatus, if_neg hstatus, h.decoder]
  rcases keyboardDecode f.decoder r.scancode with ⟨character, decoder⟩
  have h' : Holds { k with decoder } { f with decoder } := ⟨h.wf, rfl, h.unread, h.dropped, h.signals⟩
  simp only
  by_cases h0 : character = 0
  · rw [if_pos h0, if_pos (.inl h0)]
    exact h'
  by_cases h3 : character = 3 ∧ r.cancels = true
  · rw [if_neg h0, if_pos h3, if_pos (.inr h3)]
    refine ⟨h.wf, rfl, h.unread, h.dropped, ?_⟩
    simp [h.signals, Notice.signal?]
  · rw [if_neg h0, if_neg h3, if_neg (by simp [h0, h3])]
    exact h'.enqueue

lemma interruptLoop_eq (count : Nat) : Keyboard.interruptLoop count k batch =
    ((batch.take count).takeWhile fun r => r.status &&& 1 ≠ 0).foldl Keyboard.receive k := by
  induction count generalizing k batch with
  | zero => rfl
  | succ count ih =>
    cases batch with
    | nil => rfl
    | cons r batch =>
      rw [Keyboard.interruptLoop, List.take_succ_cons]
      by_cases h0 : r.status &&& 1 = 0
      · rw [if_pos h0, List.takeWhile_cons_of_neg (by simpa using h0)]
        rfl
      · rw [if_neg h0, List.takeWhile_cons_of_pos (by simpa using h0), List.foldl_cons, ih]

lemma Holds.interrupt (h : Holds k f) : Holds (k.interrupt batch) ((Fifo.taken batch).foldl Fifo.receive f) := by
  unfold Keyboard.interrupt Fifo.taken
  rw [interruptLoop_eq]
  induction (batch.take 32).takeWhile fun r => r.status &&& 1 ≠ 0 generalizing k f with
  | nil => exact h
  | cons r rest ih => exact ih h.receive

lemma Holds.read (h : Holds k f) : k.read.1 = f.read.1 ∧ Holds k.read.2 f.read.2 := by
  obtain ⟨h1, h2⟩ := id h.wf
  have hu := h.unread
  unfold Queue.unread at hu
  unfold Keyboard.read Fifo.read
  by_cases he : k.queue.tail = k.queue.head
  · have h0 : k.queue.count = 0 := by
      unfold Queue.count
      unfold queueSize at *
      omega
    rw [h0, ringView_zero] at hu
    rw [if_neg (not_not.mpr he), ← hu]
    exact ⟨rfl, h⟩
  · obtain ⟨n, hn⟩ : ∃ n, k.queue.count = n + 1 := by
      refine ⟨k.queue.count - 1, ?_⟩
      unfold Queue.count
      unfold queueSize at *
      omega
    rw [hn, ringView_succ, Nat.mod_eq_of_lt h2] at hu
    rw [if_pos he, ← hu, Queue.next_eq]
    have hcount : Queue.count { k.queue with tail := (k.queue.tail + 1) % queueSize } = n := by
      unfold Queue.count at hn ⊢
      unfold queueSize at *
      simp only
      omega
    exact ⟨rfl, ⟨h1, Nat.mod_lt _ (by decide)⟩, h.decoder, Queue.unread_eq hcount, h.dropped, h.signals⟩

lemma Holds.discard (h : Holds k f) : Holds k.discardInput f.discard := by
  have hcount : k.discardInput.queue.count = 0 := by
    show (k.queue.head + queueSize - k.queue.head) % queueSize = 0
    rw [Nat.add_sub_cancel_left, Nat.mod_self]
  exact ⟨⟨h.wf.head_lt, h.wf.head_lt⟩, h.decoder, Queue.unread_eq hcount, h.dropped, h.signals⟩

/-- **The ring refines the queue** along every run. -/
lemma Holds.run (h : Holds k f) (actions : List Action) :
    (k.run actions).1 = (f.run actions).1 ∧ Holds (k.run actions).2 (f.run actions).2 := by
  induction actions generalizing k f with
  | nil => exact ⟨rfl, h⟩
  | cons action actions ih =>
    cases action with
    | interrupt batch => exact ih h.interrupt
    | read =>
      obtain ⟨he, hh⟩ := h.read
      obtain ⟨he', hh'⟩ := ih hh
      exact ⟨congrArg₂ List.cons he he', hh'⟩
    | discard => exact ih h.discard

/-! ## The history of the queue -/

/-- Every accepted character has been taken out, in order, or is unread, and was signalled when it could be read. -/
structure Fifo.Kept (f : Fifo) : Prop where
  accepted : f.accepted = f.gone.map Prod.fst ++ f.unread
  signalled : f.signals.length = f.accepted.length
  readable : ∀ (i : Nat) (character : Byte), f.accepted[i]? = some character →
    ∃ before, f.signals[i]? = some (before ++ [character])

namespace Fifo

section
variable (h : f.Kept)
include h

lemma Kept.offer : (f.offer character).Kept := by
  unfold Fifo.offer
  split
  · exact ⟨h.accepted, h.signalled, h.readable⟩
  · refine ⟨by rw [h.accepted, List.append_assoc], by simp [h.signalled], fun i c hc => ?_⟩
    rw [List.getElem?_append] at hc ⊢
    rw [h.signalled]
    split at hc
    · rename_i hlt
      rw [if_pos hlt]
      exact h.readable i c hc
    · rename_i hge
      rw [if_neg hge]
      obtain ⟨h0, rfl⟩ : i - f.accepted.length = 0 ∧ character = c := by
        rw [List.getElem?_singleton] at hc
        split at hc
        · exact ⟨‹_›, Option.some.inj hc⟩
        · cases hc
      exact ⟨f.unread, by rw [h0]; rfl⟩

lemma Kept.receive : (f.receive r).Kept := by
  unfold Fifo.receive
  split
  · exact h
  · rcases keyboardDecode f.decoder r.scancode with ⟨character, decoder⟩
    have h' : Fifo.Kept { f with decoder } := ⟨h.accepted, h.signalled, h.readable⟩
    simp only
    split
    · exact h'
    · exact h'.offer

lemma Kept.interrupt (l : List Reading) : (l.foldl Fifo.receive f).Kept := by
  induction l generalizing f with
  | nil => exact h
  | cons r l ih => exact ih h.receive

lemma Kept.read : f.read.2.Kept := by
  unfold Fifo.read
  cases hu : f.unread with
  | nil => exact h
  | cons character unread =>
    refine ⟨?_, h.signalled, h.readable⟩
    show f.accepted = (f.gone ++ [(character, true)]).map Prod.fst ++ unread
    simp [h.accepted, hu]

lemma Kept.discard : f.discard.Kept := by
  refine ⟨?_, h.signalled, h.readable⟩
  show f.accepted = (f.gone ++ f.unread.map fun character => (character, false)).map Prod.fst ++ []
  simp [h.accepted, Function.comp_def]

lemma Kept.run (actions : List Action) : (f.run actions).2.Kept := by
  induction actions generalizing f with
  | nil => exact h
  | cons action actions ih =>
    cases action with
    | interrupt batch => exact ih (h.interrupt _)
    | read => exact ih h.read
    | discard => exact ih h.discard

end

/-- The characters that were taken out by reads. -/
def returned (f : Fifo) : List Byte := (f.gone.filter Prod.snd).map Prod.fst

lemma gone_offer : (f.offer character).gone = f.gone := by
  unfold Fifo.offer
  split <;> rfl

lemma gone_receive : (f.receive r).gone = f.gone := by
  unfold Fifo.receive
  split
  · rfl
  · simp only
    split
    · rfl
    · exact gone_offer

lemma gone_interrupt (l : List Reading) : (l.foldl Fifo.receive f).gone = f.gone := by
  induction l generalizing f with
  | nil => rfl
  | cons r l ih => exact ih.trans gone_receive

lemma returned_run (actions : List Action) :
    (f.run actions).2.returned = f.returned ++ (f.run actions).1.filterMap id := by
  induction actions generalizing f with
  | nil => simp [Fifo.run]
  | cons action actions ih =>
    cases action with
    | interrupt batch =>
      refine ih.trans ?_
      unfold returned
      rw [gone_interrupt]
      rfl
    | read =>
      rw [Fifo.run, ih]
      unfold returned Fifo.read
      cases f.unread with
      | nil => rfl
      | cons character unread => simp
    | discard =>
      refine ih.trans ?_
      have : f.discard.returned = f.returned := by
        unfold returned Fifo.discard
        simp [List.filter_map, Function.comp_def]
      rw [this]
      rfl

end Fifo

/-- **The keyboard queue is a lossless bounded queue.** In every run of interrupts, reads and discards the reads return
the accepted characters in order, but for those a discard removed; a character is refused when 127 are unread and
otherwise accepted; the refused ones are counted; and `input_event` is signalled once for each accepted character, with
the character readable at the end of the queue. -/
theorem keyboard_lossless (actions : List Action) :
    let k := (({} : Keyboard).run actions).2
    let f := (({} : Fifo).run actions).2
    (({} : Keyboard).run actions).1 = (({} : Fifo).run actions).1 ∧
      f.accepted = f.gone.map Prod.fst ++ k.queue.unread ∧
      (({} : Keyboard).run actions).1.filterMap id = (f.gone.filter Prod.snd).map Prod.fst ∧
      k.dropped = f.refused % 2 ^ 32 ∧
      (k.notices.filterMap Notice.signal?).length = f.accepted.length ∧
      (∀ (i : Nat) (character : Byte), f.accepted[i]? = some character →
        ∃ before, (k.notices.filterMap Notice.signal?)[i]? = some (before ++ [character])) ∧
      ∀ character, if k.queue.unread.length = 127
        then k.enqueue character = { k with dropped := (k.dropped + 1) % 2 ^ 32 }
        else ∃ q : Queue, q.unread = k.queue.unread ++ [character] ∧
          k.enqueue character = { k with queue := q, notices := k.notices ++ [.input q, .shellInput, .work] } := by
  have h0 : Holds {} {} := ⟨⟨by decide, by decide⟩, rfl, rfl, rfl, rfl⟩
  have hk0 : Fifo.Kept {} := ⟨rfl, rfl, by simp⟩
  obtain ⟨hout, h⟩ := h0.run actions
  have hk := hk0.run actions
  refine ⟨hout, by rw [h.unread]; exact hk.accepted, ?_, h.dropped, by rw [h.signals]; exact hk.signalled,
    by rw [h.signals]; exact hk.readable, fun character => ?_⟩
  · rw [hout]
    exact (Fifo.returned_run (f := {}) actions).symm
  · have hc := enqueue_cases h.wf character
    split at hc
    · rwa [if_pos ‹_›]
    · rw [if_neg ‹_›]
      obtain ⟨q, -, hu, he⟩ := hc
      exact ⟨q, hu, he⟩

end RumKernel.Drivers
