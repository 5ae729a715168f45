import Mathlib

/-!
# The snake game

`snake_model.c`: the game of the recovery console. The body is a ring of cells that is walked backwards from the head.
`Valid` is what holds on the board after any game: the body cells are distinct and adjacent, and the food lies beside
them until the board is full.
-/

namespace RumKernel.Recovery

def snakeWidth : Nat := 40
def snakeHeight : Nat := 16
def snakeCells : Nat := snakeWidth * snakeHeight
def snakeInitialLength : Nat := 3

structure Cell where
  x : Nat
  y : Nat
  deriving DecidableEq

inductive Direction where
  | up
  | right
  | down
  | left
  deriving DecidableEq

namespace Direction

def value : Direction → Nat
  | up => 0
  | right => 1
  | down => 2
  | left => 3

/-- The direction of a value up to `SNAKE_LEFT`. -/
def ofValue : Nat → Direction
  | 0 => up
  | 1 => right
  | 2 => down
  | _ => left

/-- The way a step in the direction changes the coordinates. -/
def delta : Direction → Int × Int
  | up => (0, -1)
  | right => (1, 0)
  | down => (0, 1)
  | left => (-1, 0)

def opposite : Direction → Direction
  | up => down
  | right => left
  | down => up
  | left => right

end Direction

inductive Event where
  | moved
  | ate
  | lost
  | won
  | stopped
  deriving DecidableEq

/-- `struct snake_model`. -/
structure Snake where
  body : Nat → Cell
  food : Cell
  head : Nat
  length : Nat
  direction : Direction
  pending : Direction
  random : Nat
  turnQueued : Bool
  alive : Bool
  won : Bool

namespace Snake

/-- `snake_model_cell`: the body cell `offset` steps behind the head. -/
def cell (m : Snake) (offset : Nat) : Cell :=
  if offset ≥ m.length then ⟨255, 255⟩ else m.body ((m.head + snakeCells - offset) % snakeCells)

/-- `occupied`: one of the first `count` body cells is `c`. -/
def occupied (m : Snake) (c : Cell) (count : Nat) : Bool := (List.range count).any fun i => m.cell i = c

def indexCell (index : Nat) : Cell := ⟨index % snakeWidth, index / snakeWidth⟩

/-- The loop of `place_food`: the first cell from `start` on that is not on the body. -/
def freeCell (m : Snake) (start : Nat) : Option Cell :=
  ((List.range snakeCells).map fun i => indexCell ((start + i) % snakeCells)).find? fun c => !m.occupied c m.length

/-- The next random number, in 32 bits. -/
def nextRandom (m : Snake) : Nat := (m.random * 1664525 + 1013904223) % 2 ^ 32

@[irreducible]
def placeFood (m : Snake) : Snake :=
  match m.freeCell (m.nextRandom % snakeCells) with
  | some c => { m with random := m.nextRandom, food := c }
  | none => { m with random := m.nextRandom }

/-- The model as `snake_model_reset` sets it up before it places the food. -/
def initial (seed : Nat) : Snake where
  body := fun i => if i < snakeInitialLength then ⟨snakeWidth / 2 - 2 + i, snakeHeight / 2⟩ else ⟨0, 0⟩
  food := ⟨0, 0⟩
  head := snakeInitialLength - 1
  length := snakeInitialLength
  direction := .right
  pending := .right
  random := seed % 2 ^ 32
  turnQueued := false
  alive := true
  won := false

def reset (seed : Nat) : Snake := (initial seed).placeFood

/-- `snake_model_turn` with any value for the direction. -/
def turn (m : Snake) (direction : Nat) : Snake × Bool :=
  if !m.alive ∨ m.turnQueued ∨ direction > Direction.left.value ∨ direction = m.direction.value ∨
      (direction + 2) % 4 = m.direction.value then (m, false)
  else ({ m with pending := .ofValue direction, turnQueued := true }, true)

/-- The cell one step from `c`, unless the step leaves the board. -/
def neighbour (c : Cell) (direction : Direction) : Option Cell :=
  let x : Int := c.x + direction.delta.1
  let y : Int := c.y + direction.delta.2
  if x < 0 ∨ x ≥ snakeWidth ∨ y < 0 ∨ y ≥ snakeHeight then none else some ⟨x.toNat, y.toNat⟩

/-- The step takes up the queued turn. -/
def steer (m : Snake) : Snake := { m with direction := m.pending, turnQueued := false }

/-- The head moves to `next`. -/
def advance (m : Snake) (next : Cell) : Snake :=
  let head := (m.head + 1) % snakeCells
  { m.steer with head, body := fun i => if i = head then next else m.body i }

def step (m : Snake) : Snake × Event :=
  if !m.alive then (m, .stopped)
  else
    match neighbour (m.cell 0) m.pending with
    | none => ({ m.steer with alive := false }, .lost)
    | some next =>
      let eating := next = m.food
      -- a move that does not grow may enter the tail cell that is leaving
      if m.occupied next (m.length - if eating then 0 else 1) then ({ m.steer with alive := false }, .lost)
      else if ¬eating then (m.advance next, .moved)
      else if m.length + 1 = snakeCells then
        ({ m.advance next with length := m.length + 1, alive := false, won := true, food := ⟨255, 255⟩ }, .won)
      else (placeFood { m.advance next with length := m.length + 1 }, .ate)

/-! ## The board -/

def OnBoard (c : Cell) : Prop := c.x < snakeWidth ∧ c.y < snakeHeight

/-- The cells have a side in common. -/
def Adjacent (a b : Cell) : Prop :=
  (a.x = b.x ∧ (a.y + 1 = b.y ∨ b.y + 1 = a.y)) ∨ (a.y = b.y ∧ (a.x + 1 = b.x ∨ b.x + 1 = a.x))

variable {m : Snake} {a b c next : Cell} {d d' : Direction} {i j k n : Nat}

lemma neighbour_eq_some (h : neighbour a d = some b) :
    OnBoard b ∧ (b.x : Int) = a.x + d.delta.1 ∧ (b.y : Int) = a.y + d.delta.2 := by
  unfold neighbour at h
  simp only at h
  split at h
  · cases h
  · cases h
    unfold OnBoard
    simp only
    omega

lemma neighbour_adjacent (h : neighbour a d = some b) : Adjacent b a := by
  obtain ⟨-, hx, hy⟩ := neighbour_eq_some h
  unfold Adjacent
  cases d <;> simp only [Direction.delta] at hx hy <;> omega

lemma neighbour_back (h : neighbour a d = some b) (h' : neighbour b d' = some a) : d' = d.opposite := by
  obtain ⟨-, hx, hy⟩ := neighbour_eq_some h
  obtain ⟨-, hx', hy'⟩ := neighbour_eq_some h'
  cases d <;> cases d' <;> simp only [Direction.delta] at hx hy hx' hy' <;> first | rfl | omega

lemma occupied_iff : m.occupied c n = true ↔ ∃ i < n, m.cell i = c := by
  simp [occupied]

lemma onBoard_indexCell (h : k < snakeCells) : OnBoard (indexCell k) := by
  unfold OnBoard indexCell
  simp only [snakeCells, snakeWidth, snakeHeight] at h ⊢
  omega

def index (c : Cell) : Nat := c.y * snakeWidth + c.x

/-- What holds of the body and the food. -/
structure Valid (m : Snake) : Prop where
  head_lt : m.head < snakeCells
  length_ge : snakeInitialLength ≤ m.length
  length_le : m.length ≤ snakeCells
  board : ∀ i < m.length, OnBoard (m.cell i)
  distinct : ∀ i < m.length, ∀ j < m.length, m.cell i = m.cell j → i = j
  adjacent : ∀ i, i + 1 < m.length → Adjacent (m.cell i) (m.cell (i + 1))
  food : m.won = false → OnBoard m.food ∧ ∀ i < m.length, m.cell i ≠ m.food
  won : m.won = true ↔ m.length = snakeCells

/-- What holds of the directions: the head has moved in the direction and the next move does not reverse it. A game
goes on only until it is won, and the food of a won game is off the board. -/
structure Steered (m : Snake) : Prop where
  heading : m.alive = true → neighbour (m.cell 1) m.direction = some (m.cell 0)
  pending : m.pending ≠ m.direction.opposite
  queued : m.turnQueued = false → m.pending = m.direction
  playing : m.alive = true → m.won = false
  finished : m.won = true → m.food = ⟨255, 255⟩

lemma freeCell_some (hl : m.length < snakeCells) (start : Nat) : ∃ c, m.freeCell start = some c := by
  rw [← Option.isSome_iff_exists]
  by_contra hnone
  have hall : ∀ k < snakeCells, m.occupied (indexCell k) m.length = true := by
    intro k hk
    rw [Bool.not_eq_true, Option.isSome_eq_false_iff, Option.isNone_iff_eq_none, freeCell, List.find?_eq_none] at hnone
    -- every index is met from `start`
    have hmem : indexCell k ∈ (List.range snakeCells).map fun i => indexCell ((start + i) % snakeCells) := by
      refine List.mem_map.mpr ⟨(k + snakeCells - start % snakeCells) % snakeCells, ?_, ?_⟩
      · exact List.mem_range.mpr (Nat.mod_lt _ (by decide))
      · congr 1
        simp only [snakeCells, snakeWidth, snakeHeight] at hk ⊢
        omega
    simpa using hnone _ hmem
  have hsub : List.range snakeCells ⊆ (List.range m.length).map fun i => index (m.cell i) := by
    intro k hk
    rw [List.mem_range] at hk
    obtain ⟨i, hi, he⟩ := occupied_iff.mp (hall k hk)
    refine List.mem_map.mpr ⟨i, List.mem_range.mpr hi, ?_⟩
    rw [he]
    simp only [index, indexCell, snakeWidth]
    omega
  have hle := (List.subperm_of_subset List.nodup_range hsub).length_le
  simp only [List.length_range, List.length_map] at hle
  omega

lemma freeCell_eq_some {start : Nat} (h : m.freeCell start = some c) : OnBoard c ∧ ∀ i < m.length, m.cell i ≠ c := by
  unfold freeCell at h
  obtain ⟨i, -, rfl⟩ := List.mem_map.mp (List.mem_of_find?_eq_some h)
  refine ⟨onBoard_indexCell (Nat.mod_lt _ (by decide)), fun j hj he => ?_⟩
  have := List.find?_some h
  rw [Bool.not_eq_true', ← Bool.not_eq_true, occupied_iff] at this
  exact this ⟨j, hj, he⟩

lemma placeFood_some (h : m.freeCell (m.nextRandom % snakeCells) = some c) :
    m.placeFood = { m with random := m.nextRandom, food := c } := by
  unfold placeFood
  generalize m.nextRandom = r at h ⊢
  rw [h]

lemma placeFood_eq (hl : m.length < snakeCells) :
    ∃ c r, m.placeFood = { m with random := r, food := c } ∧ OnBoard c ∧ ∀ i < m.length, m.cell i ≠ c := by
  obtain ⟨c, hc⟩ := freeCell_some hl (m.nextRandom % snakeCells)
  obtain ⟨hboard, hfree⟩ := freeCell_eq_some hc
  exact ⟨c, m.nextRandom, placeFood_some hc, hboard, hfree⟩

/-! ## One move -/

lemma cell_eq (h : i < m.length) : m.cell i = m.body ((m.head + snakeCells - i) % snakeCells) := by
  rw [cell, if_neg (by omega)]

lemma cell_advance {m' : Snake} (hh : m'.head = (m.advance next).head) (hb : m'.body = (m.advance next).body)
    (hl : m'.length ≤ m.length + 1) (hhead : m.head < snakeCells) (hle : m'.length ≤ snakeCells) (hi : i < m'.length) :
    m'.cell i = if i = 0 then next else m.cell (i - 1) := by
  rw [cell_eq hi, hh, hb]
  by_cases h0 : i = 0
  · have hidx : ((m.head + 1) % snakeCells + snakeCells - i) % snakeCells = (m.head + 1) % snakeCells := by
      rw [h0, Nat.sub_zero, Nat.add_mod_right, Nat.mod_mod]
    simp only [advance, hidx, if_pos h0, if_true]
  · have hidx : ((m.head + 1) % snakeCells + snakeCells - i) % snakeCells =
        (m.head + snakeCells - (i - 1)) % snakeCells ∧
        ((m.head + 1) % snakeCells + snakeCells - i) % snakeCells ≠ (m.head + 1) % snakeCells := by
      simp only [snakeCells, snakeWidth, snakeHeight] at hhead hle ⊢
      omega
    simp only [advance, if_neg hidx.2, if_neg h0]
    rw [cell_eq (by omega), hidx.1]

lemma Valid.moved (h : Valid m) (m' : Snake) (hh : m'.head = (m.advance next).head)
    (hb : m'.body = (m.advance next).body) (hl : m'.length = m.length ∨ m'.length = m.length + 1)
    (hle : m'.length ≤ snakeCells) (hn : neighbour (m.cell 0) d = some next)
    (hfree : ∀ i, i + 1 < m'.length → m.cell i ≠ next) : (∀ i < m'.length, OnBoard (m'.cell i)) ∧
      (∀ i < m'.length, ∀ j < m'.length, m'.cell i = m'.cell j → i = j) ∧
      ∀ i, i + 1 < m'.length → Adjacent (m'.cell i) (m'.cell (i + 1)) := by
  have hcell : ∀ i < m'.length, m'.cell i = if i = 0 then next else m.cell (i - 1) := fun i hi =>
    cell_advance hh hb (by omega) h.head_lt hle hi
  have hge := h.length_ge
  unfold snakeInitialLength at hge
  refine ⟨fun i hi => ?_, fun i hi j hj he => ?_, fun i hi => ?_⟩
  · rw [hcell i hi]
    split
    · exact (neighbour_eq_some hn).1
    · exact h.board _ (by omega)
  · rw [hcell i hi, hcell j hj] at he
    by_cases h0 : i = 0 <;> by_cases h1 : j = 0
    · omega
    · rw [if_pos h0, if_neg h1] at he
      exact absurd he.symm (hfree (j - 1) (by omega))
    · rw [if_neg h0, if_pos h1] at he
      exact absurd he (hfree (i - 1) (by omega))
    · rw [if_neg h0, if_neg h1] at he
      have := h.distinct _ (by omega) _ (by omega) he
      omega
  · rw [hcell (i + 1) hi, if_neg (Nat.succ_ne_zero i), Nat.add_sub_cancel, hcell i (by omega)]
    split
    · rename_i h0
      rw [h0]
      exact neighbour_adjacent hn
    · have := h.adjacent (i - 1) (by omega)
      rwa [show i - 1 + 1 = i by omega] at this

inductive Stepped (m : Snake) : Snake × Event → Prop where
  | stopped : m.alive = false → Stepped m (m, .stopped)
  | lost : m.alive = true → Stepped m ({ m.steer with alive := false }, .lost)
  | moved {next : Cell} : m.alive = true → neighbour (m.cell 0) m.pending = some next → next ≠ m.food →
    (∀ i < m.length - 1, m.cell i ≠ next) → Stepped m (m.advance next, .moved)
  | grown {next : Cell} {m' : Snake} {e : Event} : m.alive = true → neighbour (m.cell 0) m.pending = some next →
    next = m.food → (∀ i < m.length, m.cell i ≠ next) →
    ((m.length + 1 = snakeCells ∧
        m' = { m.advance next with length := m.length + 1, alive := false, won := true, food := ⟨255, 255⟩ }) ∨
      (m.length + 1 ≠ snakeCells ∧ m' = placeFood { m.advance next with length := m.length + 1 })) → Stepped m (m', e)

lemma step_cases (m : Snake) : Stepped m m.step := by
  unfold step
  by_cases ha : m.alive = true
  swap
  · simp only [ha, Bool.not_false, if_true]
    exact .stopped (by simpa using ha)
  simp only [ha, Bool.not_true, Bool.false_eq_true, if_false]
  cases hn : neighbour (m.cell 0) m.pending with
  | none => exact .lost ha
  | some next =>
    simp only
    by_cases hf : next = m.food
    · simp only [hf, if_true, not_true_eq_false, if_false, Nat.sub_zero]
      split
      · exact .lost ha
      · rename_i hocc
        have hfree : ∀ i < m.length, m.cell i ≠ next := fun i hi he => hocc (occupied_iff.mpr ⟨i, hi, hf ▸ he⟩)
        split
        · exact .grown ha hn hf hfree (.inl ⟨‹_›, by rw [hf]⟩)
        · exact .grown ha hn hf hfree (.inr ⟨‹_›, by rw [hf]⟩)
    · simp only [hf, if_false, not_false_eq_true, if_true]
      split
      · exact .lost ha
      · rename_i hocc
        exact .moved ha hn hf fun i hi he => hocc (occupied_iff.mpr ⟨i, hi, he⟩)

/-! ## Games -/

lemma Valid.placeFood (hh : m.head < snakeCells) (hge : snakeInitialLength ≤ m.length) (hlt : m.length < snakeCells)
    (hboard : ∀ i < m.length, OnBoard (m.cell i))
    (hdistinct : ∀ i < m.length, ∀ j < m.length, m.cell i = m.cell j → i = j)
    (hadj : ∀ i, i + 1 < m.length → Adjacent (m.cell i) (m.cell (i + 1))) (hw : m.won = false) : Valid m.placeFood := by
  obtain ⟨c, r, he, hc, hfree⟩ := placeFood_eq hlt
  rw [he]
  refine ⟨hh, hge, Nat.le_of_lt hlt, hboard, hdistinct, hadj, fun _ => ⟨hc, hfree⟩, ?_⟩
  simp only [hw, Bool.false_eq_true, false_iff]
  exact Nat.ne_of_lt hlt

lemma Steered.placeFood (h : Steered m) (hl : m.length < snakeCells) (hw : m.won = false) : Steered m.placeFood := by
  obtain ⟨c, r, he, -⟩ := placeFood_eq hl
  rw [he]
  refine ⟨h.heading, h.pending, h.queued, h.playing, fun hw' => ?_⟩
  rw [show m.won = true from hw'] at hw
  cases hw

lemma cell_initial {seed : Nat} (h : i < 3) : (initial seed).cell i = ⟨20 - i, 8⟩ := by
  have hidx : (2 + snakeCells - i) % snakeCells = 2 - i := by
    simp only [snakeCells, snakeWidth, snakeHeight]
    omega
  rw [cell_eq h]
  show (if (2 + snakeCells - i) % snakeCells <
    3 then Cell.mk (18 + (2 + snakeCells - i) % snakeCells) 8 else ⟨0, 0⟩) = _
  rw [hidx, if_pos (by omega), show 18 + (2 - i) = 20 - i by omega]

lemma reset_valid (seed : Nat) : Valid (reset seed) := by
  refine .placeFood (show 2 < snakeCells by decide) (Nat.le_refl _) (show 3 < snakeCells by decide) (fun i hi => ?_)
    (fun i hi j hj he => ?_) (fun i hi => ?_) rfl
  · rw [cell_initial hi]
    unfold OnBoard snakeWidth snakeHeight
    simp only
    omega
  · rw [cell_initial hi, cell_initial hj, Cell.mk.injEq] at he
    change i < 3 at hi
    change j < 3 at hj
    omega
  · change i + 1 < 3 at hi
    rw [cell_initial (by omega), cell_initial hi]
    refine .inr ⟨rfl, .inr ?_⟩
    show 20 - (i + 1) + 1 = 20 - i
    omega

lemma reset_steered (seed : Nat) : Steered (reset seed) := by
  refine .placeFood ⟨fun _ => ?_, nofun, fun _ => rfl, fun _ => rfl, nofun⟩ (show 3 < snakeCells by decide) rfl
  rw [cell_initial (by omega), cell_initial (by omega)]
  show neighbour ⟨19, 8⟩ .right = some ⟨20, 8⟩
  decide

lemma Valid.turn (h : Valid m) (direction : Nat) : Valid (m.turn direction).1 := by
  unfold Snake.turn
  split
  · exact h
  · exact ⟨h.head_lt, h.length_ge, h.length_le, h.board, h.distinct, h.adjacent, h.food, h.won⟩

lemma Steered.turn (h : Steered m) (direction : Nat) : Steered (m.turn direction).1 := by
  unfold Snake.turn
  split
  · exact h
  · rename_i hc
    push Not at hc
    obtain ⟨-, -, hle, hne, hback⟩ := hc
    refine ⟨h.heading, ?_, nofun, h.playing, h.finished⟩
    -- the four values against the four directions
    show Direction.ofValue direction ≠ m.direction.opposite
    change direction ≤ 3 at hle
    interval_cases direction <;> cases hd :
      m.direction <;> simp_all [Direction.value, Direction.ofValue, Direction.opposite]

/-- **One step keeps the board valid.** -/
lemma Valid.step (h : Valid m) (hs : Steered m) : Valid m.step.1 := by
  have hge := h.length_ge
  have hlt : (m.head + 1) % snakeCells < snakeCells := Nat.mod_lt _ (by decide)
  generalize hm : m.step = r
  have hc := hm ▸ step_cases m
  cases hc with
  | stopped => exact h
  | lost => exact ⟨h.head_lt, hge, h.length_le, h.board, h.distinct, h.adjacent, h.food, h.won⟩
  | @moved next ha hn hne hfree =>
    obtain ⟨hboard, hdistinct, hadj⟩ := h.moved (m.advance next) rfl rfl (.inl rfl) h.length_le hn
      fun i hi => hfree i (by change i + 1 < m.length at hi; omega)
    refine ⟨hlt, hge, h.length_le, hboard, hdistinct, hadj, fun hw => ?_, h.won⟩
    obtain ⟨hfood, hoff⟩ := h.food hw
    refine ⟨hfood, fun i hi => ?_⟩
    rw [cell_advance rfl rfl (Nat.le_succ _) h.head_lt h.length_le hi]
    split
    · exact hne
    · exact hoff _ (by change i < m.length at hi; omega)
  | @grown next m' e ha hn hfood hfree hm' =>
    have hw : m.won = false := hs.playing ha
    have hneq : m.length ≠ snakeCells := fun he => by
      rw [h.won.mpr he] at hw
      cases hw
    have hle : m.length + 1 ≤ snakeCells := by
      have := h.length_le
      omega
    have hfree' : ∀ i, i + 1 < m.length + 1 → m.cell i ≠ next := fun i hi => hfree i (by omega)
    rcases hm' with ⟨hfull, rfl⟩ | ⟨hnot, rfl⟩
    · obtain ⟨hboard, hdistinct, hadj⟩ := h.moved
        { m.advance next with length := m.length + 1, alive := false, won := true, food := ⟨255, 255⟩ }
        rfl rfl (.inr rfl) hle hn hfree'
      refine ⟨hlt, Nat.le_succ_of_le hge, hle, hboard, hdistinct, hadj, nofun, ?_⟩
      simpa using hfull
    · obtain ⟨hboard, hdistinct, hadj⟩ := h.moved { m.advance next with length := m.length + 1 }
        rfl rfl (.inr rfl) hle hn hfree'
      exact .placeFood hlt (Nat.le_succ_of_le hge) (Nat.lt_of_le_of_ne hle hnot) hboard hdistinct hadj hw

lemma Steered.moved (h : Valid m) {m' : Snake} (hh : m'.head = (m.advance next).head)
    (hb : m'.body = (m.advance next).body) (hl : m'.length = m.length ∨ m'.length = m.length + 1)
    (hle : m'.length ≤ snakeCells) (hn : neighbour (m.cell 0) m.pending = some next) :
    neighbour (m'.cell 1) m.pending = some (m'.cell 0) := by
  have hge := h.length_ge
  unfold snakeInitialLength at hge
  rw [cell_advance hh hb (by omega) h.head_lt hle (by omega), cell_advance hh hb (by omega) h.head_lt hle (by omega)]
  exact hn

lemma Steered.step (h : Steered m) (hv : Valid m) : Steered m.step.1 := by
  have hne : m.pending ≠ m.pending.opposite := by cases m.pending <;> decide
  generalize hm : m.step = r
  have hc := hm ▸ step_cases m
  cases hc with
  | stopped => exact h
  | lost => exact ⟨nofun, hne, fun _ => rfl, nofun, h.finished⟩
  | @moved next ha hn _ _ =>
    exact ⟨fun _ => Steered.moved hv rfl rfl (.inl rfl) hv.length_le hn, hne, fun _ => rfl, fun _ => h.playing ha,
      h.finished⟩
  | @grown next m' e ha hn hfood hfree hm' =>
    rcases hm' with ⟨hfull, rfl⟩ | ⟨hnot, rfl⟩
    · exact ⟨nofun, hne, fun _ => rfl, nofun, fun _ => rfl⟩
    · have hw := h.playing ha
      have hlt : m.length + 1 < snakeCells := by
        have := hv.length_le
        have : m.length ≠ snakeCells := fun he => by
          rw [hv.won.mpr he] at hw
          cases hw
        omega
      refine .placeFood ⟨fun _ => ?_, hne, fun _ => rfl, fun _ => hw, fun hw' => ?_⟩ hlt hw
      · exact Steered.moved hv rfl rfl (.inr rfl) (Nat.le_of_lt hlt) hn
      · rw [show m.won = true from hw'] at hw
        cases hw

inductive Action where
  | turn (direction : Nat)
  | step

def act (m : Snake) : Action → Snake
  | .turn direction => (m.turn direction).1
  | .step => m.step.1

def play (m : Snake) (actions : List Action) : Snake := actions.foldl act m

lemma play_valid (h : Valid m) (hs : Steered m) (actions : List Action) :
    Valid (m.play actions) ∧ Steered (m.play actions) := by
  induction actions generalizing m with
  | nil => exact ⟨h, hs⟩
  | cons action actions ih =>
    cases action with
    | turn direction => exact ih (h.turn direction) (hs.turn direction)
    | step => exact ih (h.step hs) (hs.step h)

/-- A step grows the body by at most one cell, grows it when the head comes onto the food, and never turns the head
back onto the cell behind it. -/
lemma step_grows (h : Valid m) (hs : Steered m) : (m.step.1.length = m.length ∨ m.step.1.length = m.length + 1) ∧
      (m.step.1.length = m.length + 1 ↔ m.step.1.cell 0 = m.food) ∧ m.step.1.cell 0 ≠ m.cell 1 := by
  have hge := h.length_ge
  unfold snakeInitialLength at hge
  -- a head that has not moved
  have hoff : m.cell 0 ≠ m.food := by
    cases hw : m.won with
    | false => exact (h.food hw).2 0 (by omega)
    | true =>
      intro he
      have := (h.board 0 (by omega)).1
      rw [he, hs.finished hw] at this
      exact absurd this (by decide)
  have hstay : m.cell 0 ≠ m.cell 1 := fun he => by
    have := h.distinct 0 (by omega) 1 (by omega) he
    omega
  have hback : ∀ next, m.alive = true → neighbour (m.cell 0) m.pending = some next → next ≠ m.cell 1 := by
    rintro next ha hn rfl
    exact hs.pending (neighbour_back (hs.heading ha) hn)
  generalize hm : m.step = r
  have hc := hm ▸ step_cases m
  cases hc with
  | stopped => exact ⟨.inl rfl, by simp [hoff], hstay⟩
  | lost =>
    refine ⟨.inl rfl, ?_, hstay⟩
    show m.length = m.length + 1 ↔ m.cell 0 = m.food
    simp [hoff]
  | @moved next ha hn hne _ =>
    have hcell : (m.advance next).cell 0 = next := by
      rw [cell_advance rfl rfl (Nat.le_succ _) h.head_lt h.length_le (show 0 < m.length by omega), if_pos rfl]
    rw [hcell]
    refine ⟨.inl rfl, ?_, hback next ha hn⟩
    show m.length = m.length + 1 ↔ next = m.food
    simp [hne]
  | @grown next m' e ha hn hfood _ hm' =>
    have hw := hs.playing ha
    have hle : m.length + 1 ≤ snakeCells := by
      have := h.length_le
      have : m.length ≠ snakeCells := fun he => by
        rw [h.won.mpr he] at hw
        cases hw
      omega
    have hcell : m'.cell 0 = next ∧ m'.length = m.length + 1 := by
      rcases hm' with ⟨-, rfl⟩ | ⟨hnot, rfl⟩
      · exact ⟨cell_advance rfl rfl (Nat.le_refl _) h.head_lt hle (Nat.succ_pos _), rfl⟩
      · obtain ⟨c, r, he, -⟩ := placeFood_eq (m := { m.advance next with length := m.length + 1 })
          (Nat.lt_of_le_of_ne hle hnot)
        rw [he]
        exact ⟨cell_advance rfl rfl (Nat.le_refl _) h.head_lt hle (Nat.succ_pos _), rfl⟩
    rw [hcell.1, hcell.2]
    exact ⟨.inr rfl, by simp [hfood], hback next ha hn⟩

/-- **The board is valid in every game**: after any turns and steps the body cells are on the board, distinct and
adjacent, the food lies beside them until the game is won, and the food can always be placed before that. The next step
leaves a finished game alone, loses the game, moves the snake or lets it grow. -/
theorem snake_board (seed : Nat) (actions : List Action) :
    let m := (reset seed).play actions
    Valid m ∧ (m.length < snakeCells → ∀ start, ∃ c, m.freeCell start = some c) ∧ Stepped m m.step ∧
      (m.step.1.length = m.length ∨ m.step.1.length = m.length + 1) ∧
      (m.step.1.length = m.length + 1 ↔ m.step.1.cell 0 = m.food) ∧ m.step.1.cell 0 ≠ m.cell 1 := by
  obtain ⟨hv, hs⟩ := play_valid (reset_valid seed) (reset_steered seed) actions
  exact ⟨hv, fun hl => freeCell_some hl, step_cases _, step_grows hv hs⟩

end Snake

end RumKernel.Recovery
