import RumKernel.Lib.Bytes

/-!
# The terminal

`terminal.c`: 24 rows of console text and a status row in the VGA buffer. The text is written with eager wrapping and
scrolled in place. The text area is a window on the rows of the text; whatever is written, nothing leaves the text area.
-/

namespace RumKernel.Drivers
open Lib

variable {value : (Nat → UInt16) → Nat → UInt16} {n : Nat}

def vgaWidth : Nat := 80

/-- `TEXT_HEIGHT`; the row behind is the status row. -/
def textHeight : Nat := 24

/-- The static variables of `terminal.c` and the VGA: the buffer, the cursor registers, and the indices of the buffer
that were written. -/
structure Terminal where
  buffer : Nat → UInt16 := fun _ => 0
  row : Nat := 0
  column : Nat := 0
  color : Byte := 0
  cursorLow : Byte := 0
  cursorHigh : Byte := 0
  writes : List Nat := []

def entry (color character : Byte) : UInt16 := character.toUInt16 ||| color.toUInt16 <<< 8

namespace Terminal

/-- `buffer[i] = value`. -/
def store (t : Terminal) (i : Nat) (value : UInt16) : Terminal :=
  { t with
    buffer := fun j => if j = i then value else t.buffer j
    writes := t.writes ++ [i] }

def updateCursor (t : Terminal) : Terminal :=
  let position := (t.row * vgaWidth + t.column) % 2 ^ 16
  { t with
    cursorLow := UInt8.ofNat position
    cursorHigh := UInt8.ofNat (position >>> 8) }

/-- A loop over the cells of a row; the values may depend on the buffer. -/
def storeRow (t : Terminal) (target : Nat) (value : (Nat → UInt16) → Nat → UInt16) : Terminal :=
  (List.range vgaWidth).foldl (fun t x => t.store (target * vgaWidth + x) (value t.buffer x)) t

def clearRow (t : Terminal) (target : Nat) : Terminal := t.storeRow target fun _ _ => entry t.color 32

/-- The inner loop of `advance_row`. -/
def copyRow (t : Terminal) (y : Nat) : Terminal := t.storeRow (y - 1) fun buffer x => buffer (y * vgaWidth + x)

def advanceRow (t : Terminal) : Terminal :=
  let t := { t with column := 0, row := t.row + 1 }
  if t.row < textHeight then t
  else
    let t := (List.range (textHeight - 1)).foldl (fun t j => t.copyRow (j + 1)) t
    let t := { t with row := textHeight - 1 }
    t.clearRow t.row

/-- A character stored at the cursor, and the cursor behind it. -/
def storeNext (t : Terminal) (c : Byte) : Terminal :=
  { t.store (t.row * vgaWidth + t.column) (entry t.color c) with column := t.column + 1 }

/-- `terminal_putchar` on a character without a meaning of its own, but for the cursor. -/
def putCell (t : Terminal) (c : Byte) : Terminal :=
  let t := t.storeNext c
  if t.column = vgaWidth then t.advanceRow else t

def putchar (t : Terminal) (c : Byte) : Terminal :=
  updateCursor <|
    if c = 10 then t.advanceRow
    else if c = 13 then { t with column := 0 }
    else if c = 8 then
      let t :=
        if t.column > 0 then { t with column := t.column - 1 }
        else if t.row > 0 then { t with row := t.row - 1, column := vgaWidth - 1 }
        else t
      t.store (t.row * vgaWidth + t.column) (entry t.color 32)
    else if c = 9 then
      -- the recursive calls are on a space
      (List.range (4 - t.column % 4)).foldl (fun t _ => updateCursor (t.putCell 32)) t
    else t.putCell c

def clear (t : Terminal) : Terminal :=
  updateCursor ((List.range textHeight).foldl clearRow { t with row := 0, column := 0 })

def write (t : Terminal) (text : List Byte) : Terminal := text.foldl putchar t

end Terminal

/-! ## Writes stay in the text area -/

def textCells : Nat := textHeight * vgaWidth

variable {t u v : Terminal} {c : Byte} {text : List Byte} {i x y target : Nat}

lemma cell_lt (hy : y < textHeight) (hx : x < vgaWidth) : y * vgaWidth + x < textCells := by
  unfold textCells textHeight vgaWidth at *
  omega

/-- From `t` to `u` the buffer was written in the text area only. -/
structure Touches (t u : Terminal) : Prop where
  writes : ∃ l, u.writes = t.writes ++ l ∧ ∀ i ∈ l, i < textCells
  frame : ∀ i, textCells ≤ i → u.buffer i = t.buffer i
  color : u.color = t.color

namespace Touches

lemma refl : Touches t t := ⟨⟨[], by simp, by simp⟩, fun _ _ => rfl, rfl⟩

lemma of_eq (hb : u.buffer = t.buffer) (hw : u.writes = t.writes) (hc : u.color = t.color) : Touches t u :=
  ⟨⟨[], by simp [hw], by simp⟩, fun _ _ => by rw [hb], hc⟩

lemma trans (h : Touches t u) (h' : Touches u v) : Touches t v := by
  obtain ⟨l, hl, hlt⟩ := h.writes
  obtain ⟨l', hl', hlt'⟩ := h'.writes
  refine ⟨⟨l ++ l', by rw [hl', hl, List.append_assoc], fun i hi => ?_⟩,
    fun i hi => (h'.frame i hi).trans (h.frame i hi), h'.color.trans h.color⟩
  exact (List.mem_append.mp hi).elim (hlt i) (hlt' i)

lemma updateCursor (h : Touches t u) : Touches t u.updateCursor := h.trans (of_eq rfl rfl rfl)

lemma store {value : UInt16} (h : i < textCells) : Touches t (t.store i value) := by
  refine ⟨⟨[i], rfl, by simpa using h⟩, fun j hj => ?_, rfl⟩
  exact if_neg (by omega)

lemma foldl {α : Type} {f : Terminal → α → Terminal} {l : List α} (h : ∀ a ∈ l, ∀ t, Touches t (f t a)) :
    Touches t (l.foldl f t) := by
  induction l generalizing t with
  | nil => exact refl
  | cons a l ih =>
    exact (h a List.mem_cons_self t).trans (ih fun b hb => h b (List.mem_cons_of_mem a hb))

lemma storeRow (h : target < textHeight) : Touches t (t.storeRow target value) :=
  foldl fun _ hx _ => store (cell_lt h (List.mem_range.mp hx))

end Touches

/-- The cursor is in the text area. -/
structure Terminal.Inside (t : Terminal) : Prop where
  row : t.row < textHeight
  column : t.column < vgaWidth

namespace Terminal

lemma storeRow_fields : (t.storeRow target value).row = t.row ∧ (t.storeRow target value).column = t.column ∧
    (t.storeRow target value).color = t.color := by
  unfold storeRow
  induction List.range vgaWidth generalizing t with
  | nil => exact ⟨rfl, rfl, rfl⟩
  | cons x l ih => exact ih

@[simp] lemma storeRow_row : (t.storeRow target value).row = t.row := storeRow_fields.1

@[simp] lemma storeRow_column : (t.storeRow target value).column = t.column := storeRow_fields.2.1

@[simp] lemma storeRow_color : (t.storeRow target value).color = t.color := storeRow_fields.2.2

/-- The outer loop of `advance_row` after `n` rounds. -/
def scroll (t : Terminal) (n : Nat) : Terminal := (List.range n).foldl (fun t j => t.copyRow (j + 1)) t

@[simp] lemma scroll_succ (n : Nat) : t.scroll (n + 1) = (t.scroll n).copyRow (n + 1) := by
  simp [scroll, List.range_succ]

@[simp] lemma scroll_column (n : Nat) : (t.scroll n).column = t.column := by
  induction n with
  | zero => rfl
  | succ n ih => rw [scroll_succ, copyRow, storeRow_column, ih]

@[simp] lemma scroll_color (n : Nat) : (t.scroll n).color = t.color := by
  induction n with
  | zero => rfl
  | succ n ih => rw [scroll_succ, copyRow, storeRow_color, ih]

lemma touches_scroll (h : n ≤ textHeight - 1) : Touches t (t.scroll n) :=
  .foldl fun j hj _ => .storeRow (by have := List.mem_range.mp hj; omega)

lemma advanceRow_of_lt (h : t.row + 1 < textHeight) : t.advanceRow = { t with column := 0, row := t.row + 1 } :=
  if_pos h

lemma advanceRow_of_ge (h : ¬ t.row + 1 < textHeight) :
    t.advanceRow = clearRow { scroll { t with column := 0, row := t.row + 1 } (textHeight - 1) with
      row := textHeight - 1 } (textHeight - 1) :=
  if_neg h

lemma touches_advanceRow : Touches t t.advanceRow := by
  by_cases h : t.row + 1 < textHeight
  · rw [advanceRow_of_lt h]
    exact .of_eq rfl rfl rfl
  · rw [advanceRow_of_ge h]
    have hstart : Touches t { t with column := 0, row := t.row + 1 } := .of_eq rfl rfl rfl
    have hscroll := hstart.trans (touches_scroll (n := textHeight - 1) le_rfl)
    generalize scroll _ _ = s at hscroll ⊢
    have hrow : Touches s { s with row := textHeight - 1 } := .of_eq rfl rfl rfl
    exact (hscroll.trans hrow).trans (.storeRow (by decide))

lemma advanceRow_row : t.advanceRow.row + 1 = min (t.row + 2) textHeight := by
  by_cases h : t.row + 1 < textHeight
  · rw [advanceRow_of_lt h]
    exact (Nat.min_eq_left h).symm
  · rw [advanceRow_of_ge h, clearRow, storeRow_row]
    unfold textHeight at *
    simp only
    omega

lemma advanceRow_column : t.advanceRow.column = 0 := by
  by_cases h : t.row + 1 < textHeight
  · rw [advanceRow_of_lt h]
  · rw [advanceRow_of_ge h, clearRow, storeRow_column]
    simp

lemma Inside.advanceRow : t.advanceRow.Inside := by
  have := advanceRow_row (t := t)
  refine ⟨by omega, ?_⟩
  rw [advanceRow_column]
  decide

lemma Inside.putCell (h : t.Inside) : (t.putCell c).Inside ∧ Touches t (t.putCell c) := by
  have hs : Touches t (t.storeNext c) := (Touches.store (cell_lt h.row h.column)).trans (.of_eq rfl rfl rfl)
  unfold Terminal.putCell
  simp only
  split
  · exact ⟨.advanceRow, hs.trans touches_advanceRow⟩
  · rename_i hne
    refine ⟨⟨h.row, ?_⟩, hs⟩
    exact lt_of_le_of_ne h.column hne

lemma Inside.tab (h : t.Inside) (l : List Nat) : (l.foldl (fun t _ => updateCursor (t.putCell 32)) t).Inside ∧
      Touches t (l.foldl (fun t _ => updateCursor (t.putCell 32)) t) := by
  induction l generalizing t with
  | nil => exact ⟨h, .refl⟩
  | cons n l ih =>
    obtain ⟨hi, ht⟩ := h.putCell (c := 32)
    obtain ⟨hi', ht'⟩ := ih (t := updateCursor (t.putCell 32)) ⟨hi.row, hi.column⟩
    exact ⟨hi', ht.updateCursor.trans ht'⟩

lemma Inside.backspace (h : t.Inside) (hu : u = if t.column > 0 then { t with column := t.column - 1 }
      else if t.row > 0 then { t with row := t.row - 1, column := vgaWidth - 1 } else t) :
    u.Inside ∧ Touches t u := by
  obtain ⟨hr, hc⟩ := h
  subst hu
  split
  · exact ⟨⟨hr, show t.column - 1 < vgaWidth by omega⟩, .of_eq rfl rfl rfl⟩
  · split
    · exact ⟨⟨show t.row - 1 < textHeight by omega, show vgaWidth - 1 < vgaWidth by decide⟩, .of_eq rfl rfl rfl⟩
    · exact ⟨⟨hr, hc⟩, .refl⟩

lemma Inside.putchar (h : t.Inside) : (t.putchar c).Inside ∧ Touches t (t.putchar c) := by
  suffices hs : ∀ u : Terminal, u.Inside ∧ Touches t u → u.updateCursor.Inside ∧ Touches t u.updateCursor by
    refine hs _ ?_
    split
    · exact ⟨.advanceRow, touches_advanceRow⟩
    split
    · exact ⟨⟨h.row, show 0 < vgaWidth by decide⟩, .of_eq rfl rfl rfl⟩
    split
    · obtain ⟨hi, ht⟩ := h.backspace rfl
      exact ⟨⟨hi.row, hi.column⟩, ht.trans (.store (cell_lt hi.row hi.column))⟩
    split
    · exact h.tab _
    · exact h.putCell
  exact fun u hu => ⟨⟨hu.1.row, hu.1.column⟩, hu.2.updateCursor⟩

lemma Inside.write (h : t.Inside) : (t.write text).Inside ∧ Touches t (t.write text) := by
  unfold Terminal.write
  induction text generalizing t with
  | nil => exact ⟨h, .refl⟩
  | cons c text ih =>
    obtain ⟨hi, ht⟩ := h.putchar (c := c)
    obtain ⟨hi', ht'⟩ := ih hi
    exact ⟨hi', ht.trans ht'⟩

end Terminal

/-! ## What the loops leave in the buffer -/

namespace Terminal

lemma storeRow_loop {b : Nat → UInt16} (hb : t.buffer = b)
    (hvalue : ∀ b', (∀ i, i / vgaWidth ≠ target → b' i = b i) → value b' = value b) (hn : n ≤ vgaWidth) :
    ((List.range n).foldl (fun t x => t.store (target * vgaWidth + x) (value t.buffer x)) t).buffer = fun i =>
      if i / vgaWidth = target ∧ i % vgaWidth < n then value b (i % vgaWidth) else b i := by
  induction n with
  | zero => simp [hb]
  | succ n ih =>
    rw [List.range_succ, List.foldl_append]
    have hih := ih (by omega)
    generalize (List.range n).foldl _ t = s at hih
    have hv : value s.buffer = value b := by
      refine hvalue _ fun i hi => ?_
      rw [hih]
      exact if_neg fun h => hi h.1
    funext i
    show (if i = target * vgaWidth + n then value s.buffer n else s.buffer i) = _
    rw [hv, hih]
    simp only
    have hdiv : i = target * vgaWidth + n ↔ i / vgaWidth = target ∧ i % vgaWidth = n := by
      unfold vgaWidth at *
      omega
    by_cases hi : i / vgaWidth = target
    · by_cases hx : i % vgaWidth = n
      · rw [if_pos (hdiv.mpr ⟨hi, hx⟩), if_pos ⟨hi, by omega⟩, hx]
      · rw [if_neg (by rw [hdiv]; exact fun h => hx h.2)]
        by_cases hlt : i % vgaWidth < n
        · rw [if_pos ⟨hi, hlt⟩, if_pos ⟨hi, by omega⟩]
        · rw [if_neg (by tauto), if_neg (by omega)]
    · rw [if_neg (by rw [hdiv]; exact fun h => hi h.1), if_neg (by tauto), if_neg (by tauto)]

lemma storeRow_buffer
    (hvalue : ∀ b', (∀ i, i / vgaWidth ≠ target → b' i = t.buffer i) → value b' = value t.buffer) :
    (t.storeRow target value).buffer = fun i =>
      if i / vgaWidth = target then value t.buffer (i % vgaWidth) else t.buffer i := by
  unfold storeRow
  rw [storeRow_loop rfl hvalue le_rfl]
  funext i
  simp [Nat.mod_lt i (show 0 < vgaWidth by decide)]

lemma clearRow_buffer : (t.clearRow target).buffer = fun i =>
    if i / vgaWidth = target then entry t.color 32 else t.buffer i :=
  storeRow_buffer fun _ _ => rfl

lemma copyRow_buffer : (t.copyRow (y + 1)).buffer = fun i =>
    if i / vgaWidth = y then t.buffer (i + vgaWidth) else t.buffer i := by
  unfold copyRow
  rw [storeRow_buffer]
  · funext i
    simp only [Nat.add_sub_cancel]
    have hi := Nat.div_add_mod i vgaWidth
    split
    · rename_i hy
      congr 1
      subst hy
      unfold vgaWidth at *
      omega
    · rfl
  · intro b' hb
    funext x
    refine hb _ ?_
    unfold vgaWidth
    omega

lemma scroll_buffer (n : Nat) : (t.scroll n).buffer = fun i =>
    if i / vgaWidth < n then t.buffer (i + vgaWidth) else t.buffer i := by
  induction n with
  | zero => rfl
  | succ n ih =>
    rw [scroll_succ, copyRow_buffer, ih]
    funext i
    have hnext : (i + vgaWidth) / vgaWidth = i / vgaWidth + 1 := Nat.add_div_right i (by decide)
    simp only [hnext]
    by_cases he : i / vgaWidth = n
    · rw [if_pos he, if_neg (by omega), if_pos (by omega)]
    · rw [if_neg he]
      by_cases hlt : i / vgaWidth < n
      · rw [if_pos hlt, if_pos (by omega)]
      · rw [if_neg hlt, if_neg (by omega)]

lemma advanceRow_buffer (h : ¬ t.row + 1 < textHeight) : t.advanceRow.buffer = fun i =>
    if i / vgaWidth = textHeight - 1 then entry t.color 32
    else if i / vgaWidth < textHeight - 1 then t.buffer (i + vgaWidth) else t.buffer i := by
  rw [advanceRow_of_ge h, clearRow_buffer]
  simp only [scroll_buffer, scroll_color]

end Terminal

/-! ## The window on the text -/

/-- The rows of a text behind the row `current`: a new row at every newline, and immediately after the last column. -/
def rowsFrom (current : List Byte) : List Byte → List (List Byte)
  | [] => [current]
  | c :: text =>
    if c = 10 then current :: rowsFrom [] text
    else if current.length + 1 = vgaWidth then (current ++ [c]) :: rowsFrom [] text
    else rowsFrom (current ++ [c]) text

/-- A cell of a list of rows, blank where there is no character. -/
def cellAt (rows : List (List Byte)) (y x : Nat) : Byte := (rows.getD y []).getD x 32

/-- The text area holds the last rows, and the cursor is in the last of them. -/
structure Shows (t : Terminal) (rows : List (List Byte)) : Prop where
  row : t.row + 1 = min rows.length textHeight
  cell : ∀ y < textHeight, ∀ x < vgaWidth,
    t.buffer (y * vgaWidth + x) = entry t.color (cellAt rows (rows.length - textHeight + y) x)

variable {rows done : List (List Byte)} {last : List Byte}

lemma cellAt_append_nil : cellAt (rows ++ [[]]) y x = cellAt rows y x := by
  unfold cellAt
  congr 1
  simp only [List.getD_eq_getElem?_getD]
  rcases lt_trichotomy y rows.length with h | h | h
  · rw [List.getElem?_append_left h]
  · subst h
    simp
  · rw [List.getElem?_eq_none (by simp; omega), List.getElem?_eq_none h.le]

lemma cellAt_append_singleton : cellAt (done ++ [last ++ [c]]) y x =
    if y = done.length ∧ x = last.length then c else cellAt (done ++ [last]) y x := by
  unfold cellAt
  simp only [List.getD_eq_getElem?_getD]
  rcases lt_trichotomy y done.length with h | h | h
  · rw [List.getElem?_append_left h, List.getElem?_append_left h, if_neg (by omega)]
  · subst h
    simp only [List.getElem?_concat_length, Option.getD_some, true_and]
    rcases lt_trichotomy x last.length with hx | hx | hx
    · rw [List.getElem?_append_left hx, if_neg (by omega)]
    · subst hx
      simp
    · rw [List.getElem?_eq_none (by simp; omega), List.getElem?_eq_none hx.le, if_neg (by omega)]
  · have hnone (l : List Byte) : (done ++ [l])[y]? = none := List.getElem?_eq_none (by simp; omega)
    rw [hnone, hnone, if_neg (by omega)]

lemma cell_div (hx : x < vgaWidth) : (y * vgaWidth + x) / vgaWidth = y := by
  unfold vgaWidth at *
  omega

namespace Shows

lemma updateCursor (h : Shows t rows) : Shows t.updateCursor rows := ⟨h.row, h.cell⟩

lemma advanceRow (h : Shows t rows) : Shows t.advanceRow (rows ++ [[]]) := by
  have hrow := h.row
  have hlen : (rows ++ [[]]).length = rows.length + 1 := by simp
  refine ⟨?_, fun y hy x hx => ?_⟩
  · rw [hlen, Terminal.advanceRow_row]
    omega
  rw [cellAt_append_nil, hlen, Terminal.touches_advanceRow.color]
  by_cases hlt : t.row + 1 < textHeight
  · rw [Terminal.advanceRow_of_lt hlt, show rows.length + 1 - textHeight + y = rows.length - textHeight + y by omega]
    exact h.cell y hy x hx
  · rw [Terminal.advanceRow_buffer hlt]
    simp only [cell_div hx]
    by_cases hlast : y = textHeight - 1
    · rw [if_pos hlast]
      have hnone : rows[rows.length + 1 - textHeight + y]? = none := List.getElem?_eq_none (by omega)
      simp [cellAt, List.getD_eq_getElem?_getD, hnone]
    · rw [if_neg hlast, if_pos (by omega), show y * vgaWidth + x + vgaWidth = (y + 1) * vgaWidth + x by ring,
        h.cell (y + 1) (by omega) x hx]
      congr 2
      omega

lemma storeNext (h : Shows t (done ++ [last])) (hcol : t.column = last.length) (hlt : last.length < vgaWidth) :
    Shows (t.storeNext c) (done ++ [last ++ [c]]) := by
  have hrow := h.row
  have hlen : (done ++ [last]).length = done.length + 1 := by simp
  have hlen' : (done ++ [last ++ [c]]).length = done.length + 1 := by simp
  rw [hlen] at hrow
  refine ⟨by rw [hlen']; exact hrow, fun y hy x hx => ?_⟩
  have hcell := h.cell y hy x hx
  rw [hlen] at hcell
  rw [hlen', cellAt_append_singleton]
  show (if y * vgaWidth + x = t.row * vgaWidth + t.column then entry t.color c else t.buffer (y * vgaWidth + x)) = _
  have hat : y * vgaWidth + x = t.row * vgaWidth + t.column ↔
      done.length + 1 - textHeight + y = done.length ∧ x = last.length := by
    rw [hcol]
    unfold vgaWidth textHeight at *
    omega
  by_cases he : y * vgaWidth + x = t.row * vgaWidth + t.column
  · rw [if_pos he, if_pos (hat.mp he)]
    rfl
  · rw [if_neg he, if_neg (mt hat.mpr he), hcell]
    rfl

end Shows

/-- The last row of a text is not full, and the cursor is at its end. -/
structure AtEnd (t : Terminal) (rows : List (List Byte)) : Prop where
  shows : Shows t rows
  column : t.column = (rows.getLastD []).length
  lt : t.column < vgaWidth

/-- The bytes `terminal_putchar` treats in a special way, but for the newline. -/
def Special (c : Byte) : Prop := c = 8 ∨ c = 9 ∨ c = 13

instance : DecidablePred Special := fun _ => inferInstanceAs (Decidable (_ ∨ _))

lemma Terminal.putchar_newline : t.putchar 10 = t.advanceRow.updateCursor := rfl

lemma Terminal.putchar_plain (h : ¬ Special c) (h10 : c ≠ 10) : t.putchar c = (t.putCell c).updateCursor := by
  unfold Special at h
  simp only [not_or] at h
  unfold putchar
  rw [if_neg h10, if_neg h.2.2, if_neg h.1, if_neg h.2.1]

lemma AtEnd.of_advanceRow (h : Shows t rows) : AtEnd t.advanceRow.updateCursor (rows ++ [[]]) := by
  refine ⟨h.advanceRow.updateCursor, ?_, ?_⟩
  · show t.advanceRow.column = _
    rw [Terminal.advanceRow_column]
    simp
  · show t.advanceRow.column < _
    rw [Terminal.advanceRow_column]
    decide

lemma AtEnd.write (h : AtEnd t (done ++ [last])) (hplain : ∀ c ∈ text, ¬ Special c) :
    AtEnd (t.write text) (done ++ rowsFrom last text) := by
  induction text generalizing t done last with
  | nil => exact h
  | cons c text ih =>
    have hcol : t.column = last.length := by simpa using h.column
    have htext : ∀ c ∈ text, ¬ Special c := fun c hc => hplain c (List.mem_cons_of_mem _ hc)
    show AtEnd ((t.putchar c).write text) _
    unfold rowsFrom
    by_cases h10 : c = 10
    · subst h10
      rw [if_pos rfl, Terminal.putchar_newline]
      have := ih (AtEnd.of_advanceRow h.shows) htext
      rwa [List.append_assoc] at this
    rw [if_neg h10, Terminal.putchar_plain (hplain c List.mem_cons_self) h10]
    have hs := h.shows.storeNext (c := c) hcol (by rw [← hcol]; exact h.lt)
    have hnext : (t.storeNext c).column = last.length + 1 := congrArg (· + 1) hcol
    unfold Terminal.putCell
    simp only [hnext]
    by_cases hfull : last.length + 1 = vgaWidth
    · rw [if_pos hfull, if_pos hfull]
      have hnew := ih (AtEnd.of_advanceRow hs) htext
      rwa [List.append_assoc] at hnew
    · rw [if_neg hfull, if_neg hfull]
      refine ih ⟨hs.updateCursor, ?_, ?_⟩ htext
      · show (t.storeNext c).column = _
        simp [hnext]
      · show (t.storeNext c).column < _
        have := h.lt
        omega

/-! ## The cleared terminal -/

/-- A blank text area with the cursor at its start. -/
structure Terminal.Cleared (t : Terminal) : Prop where
  row : t.row = 0
  column : t.column = 0
  blank : ∀ i < textCells, t.buffer i = entry t.color 32
  cursor : t.cursorLow = 0 ∧ t.cursorHigh = 0

lemma clearRows (n : Nat) : ((List.range n).foldl Terminal.clearRow t).row = t.row ∧
      ((List.range n).foldl Terminal.clearRow t).column = t.column ∧
      ((List.range n).foldl Terminal.clearRow t).color = t.color ∧
      ∀ i, i / vgaWidth < n → ((List.range n).foldl Terminal.clearRow t).buffer i = entry t.color 32 := by
  induction n with
  | zero => exact ⟨rfl, rfl, rfl, fun i hi => absurd hi (Nat.not_lt_zero _)⟩
  | succ n ih =>
    rw [List.range_succ, List.foldl_append, List.foldl_cons, List.foldl_nil]
    generalize (List.range n).foldl Terminal.clearRow t = s at ih ⊢
    obtain ⟨hr, hc, hcolor, hb⟩ := ih
    refine ⟨by rw [Terminal.clearRow, Terminal.storeRow_row, hr],
      by rw [Terminal.clearRow, Terminal.storeRow_column, hc],
      by rw [Terminal.clearRow, Terminal.storeRow_color, hcolor], fun i hi => ?_⟩
    rw [Terminal.clearRow_buffer]
    simp only
    split
    · rw [hcolor]
    · exact hb i (by omega)

lemma cleared_clear : t.clear.Cleared := by
  obtain ⟨hr, hc, hcolor, hb⟩ := clearRows (t := { t with row := 0, column := 0 }) textHeight
  unfold Terminal.clear
  generalize (List.range textHeight).foldl Terminal.clearRow _ = s at hr hc hcolor hb ⊢
  refine ⟨hr, hc, fun i hi => ?_, ?_⟩
  · rw [show s.updateCursor.color = t.color from hcolor]
    refine hb i ?_
    unfold textCells textHeight vgaWidth at *
    omega
  · unfold Terminal.updateCursor
    simp [hr, hc]

/-- The cursor registers hold the cursor. -/
def Terminal.Synced (t : Terminal) : Prop :=
  t.cursorLow.toNat + 2 ^ 8 * t.cursorHigh.toNat = t.row * vgaWidth + t.column

lemma Terminal.Inside.synced (h : t.Inside) : t.updateCursor.Synced := by
  obtain ⟨hr, hc⟩ := h
  unfold Synced updateCursor
  simp only [UInt8.toNat_ofNat', Nat.shiftRight_eq_div_pow]
  unfold vgaWidth textHeight at *
  omega

lemma Terminal.write_synced (h : t.Inside) (hs : t.Synced) : (t.write text).Synced := by
  induction text generalizing t with
  | nil => exact hs
  | cons c text ih =>
    have hi := (h.putchar (c := c)).1
    exact ih hi (Inside.synced ⟨hi.row, hi.column⟩)

lemma cellAt_drop : cellAt (rows.drop (rows.length - textHeight)) y x =
    cellAt rows (rows.length - textHeight + y) x := by
  unfold cellAt
  simp only [List.getD_eq_getElem?_getD, List.getElem?_drop]

/-- **The terminal shows the last rows of the text.** A text without backspaces, tabs and carriage returns, written to a
cleared terminal, leaves its last 24 rows in the text area, padded with blanks, and the cursor at the end of the last.
Whatever is written, and wherever the cursor is in the text area, it stays there, every store is in the text area, and
the status row is unchanged. -/
theorem terminal_window (t : Terminal) (text : List Byte) : (t.Cleared → (∀ c ∈ text, ¬ Special c) →
      let rows := rowsFrom [] text
      let window := rows.drop (rows.length - textHeight)
      (∀ y < textHeight, ∀ x < vgaWidth,
        (t.write text).buffer (y * vgaWidth + x) = entry t.color (cellAt window y x)) ∧
      (t.write text).row + 1 = window.length ∧
      (t.write text).column = (window.getLastD []).length ∧
      (t.write text).Synced) ∧
    (t.Inside →
      (t.write text).Inside ∧
      (∃ l, (t.write text).writes = t.writes ++ l ∧ ∀ i ∈ l, i < textCells) ∧
      ∀ i, textCells ≤ i → (t.write text).buffer i = t.buffer i) := by
  refine ⟨fun hcleared hplain => ?_, fun h => ?_⟩
  · have hinside : t.Inside := ⟨by rw [hcleared.row]; decide, by rw [hcleared.column]; decide⟩
    have hsynced : t.Synced := by
      unfold Terminal.Synced
      rw [hcleared.cursor.1, hcleared.cursor.2, hcleared.row, hcleared.column]
      rfl
    have hstart : AtEnd t ([] ++ [[]]) := by
      refine ⟨⟨by rw [hcleared.row]; rfl, fun y hy x hx => ?_⟩, hcleared.column, hinside.column⟩
      rw [hcleared.blank _ (cell_lt hy hx), cellAt_append_nil]
      rfl
    have hend := hstart.write hplain
    rw [List.nil_append] at hend
    have hrow := hend.shows.row
    refine ⟨fun y hy x hx => ?_, ?_, ?_, Terminal.write_synced hinside hsynced⟩
    · rw [cellAt_drop, hend.shows.cell y hy x hx, (hinside.write).2.color]
    · rw [hrow, List.length_drop]
      omega
    · rw [hend.column, List.getLastD_eq_getLast?, List.getLastD_eq_getLast?, List.getLast?_drop, if_neg (by omega)]
  · have hw : (t.write text).Inside ∧ Touches t (t.write text) := h.write
    exact ⟨hw.1, hw.2.writes, hw.2.frame⟩

/-- A text with a newline on the terminal after `terminal_clear`. -/
theorem terminal_window_hi :
    (({} : Terminal).clear.write [104, 105, 10, 33]).buffer (0 * vgaWidth + 1) = entry ({} : Terminal).clear.color 105 ∧
      (({} : Terminal).clear.write [104, 105, 10, 33]).row + 1 = 2 ∧
      (({} : Terminal).clear.write [104, 105, 10, 33]).Inside := by
  have h := terminal_window ({} : Terminal).clear [104, 105, 10, 33]
  have hshow := h.1 cleared_clear (by simp [Special])
  exact ⟨hshow.1 0 (by decide) 1 (by decide), hshow.2.1,
    (h.2 ⟨by rw [cleared_clear.row]; decide, by rw [cleared_clear.column]; decide⟩).1⟩

end RumKernel.Drivers
