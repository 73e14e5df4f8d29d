import TapeMachine.Tape

/-!
# Tapes of the textbook

An `InfiniteTape` has a cell for every integer and a head on one of them. `Tape.infinite` is the
infinite tape that a stored tape stands for: positions that are not stored hold the blank. Writing
and moving commute with it (`infinite_write`, `infinite_shift`), so nothing that is proved about
infinite tapes depends on how much of a tape is stored or on where the stored part begins.
-/

namespace TapeMachine

/-! ## Lists of cells at a position -/

/-- The symbol at a position when these cells begin at `start` and all others are blank. -/
def cellAt (blank : Symbol) (start : Int) (cells : List Symbol) (position : Int) : Symbol :=
  if position < start then blank else cells.getD (position - start).toNat blank

section CellAt

variable {blank : Symbol} {start position : Int}

@[simp] theorem cellAt_nil : cellAt blank start [] position = blank := by
  simp [cellAt]

theorem cellAt_of_lt {cells : List Symbol} (h : position < start) :
    cellAt blank start cells position = blank := by
  simp [cellAt, h]

/-- Behind the last cell there are blanks only. -/
theorem cellAt_of_le {cells : List Symbol} (h : start + cells.length ≤ position) :
    cellAt blank start cells position = blank := by
  have hlen : cells.length ≤ (position - start).toNat := by omega
  simp only [cellAt, List.getD_eq_getElem?_getD, List.getElem?_eq_none hlen]
  split <;> rfl

theorem cellAt_start_add {cells : List Symbol} {i : Nat} (h : i < cells.length) :
    cellAt blank start cells (start + i) = cells[i] := by
  have hnot : ¬ start + (i : Int) < start := by omega
  have hi : (start + (i : Int) - start).toNat = i := by omega
  rw [cellAt, if_neg hnot, hi]
  simp [h]

theorem cellAt_cons {cell : Symbol} {cells : List Symbol} :
    cellAt blank start (cell :: cells) position =
      if position = start then cell else cellAt blank (start + 1) cells position := by
  unfold cellAt
  by_cases hlt : position < start
  · have hne : position ≠ start := by omega
    have hlt' : position < start + 1 := by omega
    simp [hlt, hne, hlt']
  · by_cases heq : position = start
    · simp [heq]
    · have hnot : ¬ position < start + 1 := by omega
      have hi : (position - start).toNat = (position - (start + 1)).toNat + 1 := by omega
      rw [if_neg hlt, if_neg heq, if_neg hnot, hi, List.getD_cons_succ]

/-- Cells behind others begin where those end. -/
theorem cellAt_append {front back : List Symbol} :
    cellAt blank start (front ++ back) position =
      if position < start + front.length then cellAt blank start front position
      else cellAt blank (start + front.length) back position := by
  -- The cells in front are taken one at a time, and the start moves along with them.
  induction front generalizing start with
  | nil =>
      by_cases h : position < start
      · simp [cellAt_of_lt h]
      · simp [h]
  | cons cell front ih =>
      rw [List.cons_append, cellAt_cons, cellAt_cons, ih, List.length_cons]
      have hstart :
          start + 1 + (front.length : Int) = start + ((front.length + 1 : Nat) : Int) := by
        omega
      rw [hstart]
      by_cases heq : position = start
      · have hlt : position < start + ((front.length + 1 : Nat) : Int) := by omega
        rw [if_pos heq, if_pos hlt, if_pos heq]
      · rw [if_neg heq, if_neg heq]

/-- Blanks in front can be left out. -/
theorem cellAt_blanks_append {front back : List Symbol} (h : ∀ cell ∈ front, cell = blank) :
    cellAt blank start (front ++ back) position =
      cellAt blank (start + front.length) back position := by
  induction front generalizing start with
  | nil => simp
  | cons cell front ih =>
      have hcell : cell = blank := h cell (by simp)
      have hlen : start + ((cell :: front).length : Int) = start + 1 + front.length := by
        simp only [List.length_cons]
        omega
      rw [List.cons_append, cellAt_cons, ih fun c hc => h c (by simp [hc]), hlen]
      by_cases heq : position = start
      · rw [if_pos heq, cellAt_of_lt (by omega), hcell]
      · rw [if_neg heq]

/-- Blanks at the end can be left out. -/
theorem cellAt_append_blanks {front back : List Symbol} (h : ∀ cell ∈ back, cell = blank) :
    cellAt blank start (front ++ back) position = cellAt blank start front position := by
  have hback : cellAt blank (start + front.length) (back ++ []) position = blank := by
    rw [cellAt_blanks_append h, cellAt_nil]
  rw [List.append_nil] at hback
  rw [cellAt_append, hback]
  split
  · rfl
  · next hnot => rw [cellAt_of_le (by omega)]

end CellAt

/-! ## Infinite tapes -/

/-- A tape with a cell for every integer. -/
@[ext]
structure InfiniteTape where
  /-- The position of the head. -/
  head : Int
  /-- The symbol at every position. -/
  cell : Int → Symbol

/-- The step that a move makes. -/
def Direction.offset : Direction → Int
  | left => -1
  | right => 1
  | stay => 0

namespace InfiniteTape

/-- The tape that holds the content from position 0 on, one character in a cell, and is blank
everywhere else, with the head at 0. -/
def ofContent (content : String) (blank : Symbol) : InfiniteTape where
  head := 0
  cell := cellAt blank 0 (content.toList.map String.singleton)

/-- The symbol under the head. -/
def read (t : InfiniteTape) : Symbol := t.cell t.head

/-- Replace the symbol under the head. -/
def write (t : InfiniteTape) (symbol : Symbol) : InfiniteTape :=
  { t with cell := fun position => if position = t.head then symbol else t.cell position }

/-- Move the head in a direction. -/
def shift (t : InfiniteTape) : Direction → InfiniteTape
  | .left => { t with head := t.head - 1 }
  | .right => { t with head := t.head + 1 }
  | .stay => t

theorem shift_eq (t : InfiniteTape) (d : Direction) :
    t.shift d = ⟨t.head + d.offset, t.cell⟩ := by
  cases d with
  | left => rfl
  | right => rfl
  | stay => exact InfiniteTape.ext (Int.add_zero t.head).symm rfl

end InfiniteTape

namespace Tape

/-! ## What is kept by every operation -/

@[simp] theorem blank_ofContent (content : String) (blank : Symbol) (alphabet : Option Alphabet) :
    (ofContent content blank alphabet).blank = blank := by
  unfold ofContent ofCells
  split <;> rfl

@[simp] theorem blank_write (t : Tape) (symbol : Symbol) : (t.write symbol).blank = t.blank := rfl

@[simp] theorem blank_moveRight (t : Tape) : t.moveRight.blank = t.blank := by
  unfold moveRight
  split <;> rfl

@[simp] theorem blank_moveLeft (t : Tape) : t.moveLeft.blank = t.blank := by
  unfold moveLeft
  split <;> rfl

@[simp] theorem blank_shift (t : Tape) (d : Direction) : (t.shift d).blank = t.blank := by
  cases d
  · exact blank_moveLeft t
  · exact blank_moveRight t
  · rfl

@[simp] theorem prepended_moveRight (t : Tape) : t.moveRight.prepended = t.prepended := by
  unfold moveRight
  split <;> rfl

/-- A move to the left counts the cell that it brings in. -/
theorem prepended_moveLeft (t : Tape) :
    t.moveLeft.prepended = if t.left = [] then t.prepended + 1 else t.prepended := by
  unfold moveLeft
  split <;> simp_all

@[simp] theorem prepended_ofContent (content : String) (blank : Symbol)
    (alphabet : Option Alphabet) : (ofContent content blank alphabet).prepended = 0 := by
  unfold ofContent ofCells
  split <;> rfl

/-- A new tape stores its content and the padding. -/
theorem cells_ofContent (content : String) (blank : Symbol) (alphabet : Option Alphabet) :
    (ofContent content blank alphabet).cells =
      content.toList.map String.singleton ++ List.replicate tapePadding blank := by
  unfold ofContent
  cases h : content.toList.map String.singleton with
  | nil => rfl
  | cons cell cells => rfl

/-! ## The infinite tape behind a stored one -/

/-- The symbol at a position: the stored cell there, and else the blank. -/
def symbolAt (t : Tape) (position : Int) : Symbol := cellAt t.blank (-t.prepended) t.cells position

/-- The infinite tape that a stored tape stands for. -/
def infinite (t : Tape) : InfiniteTape := ⟨t.headPosition, t.symbolAt⟩

@[simp] theorem head_infinite (t : Tape) : t.infinite.head = t.headPosition := rfl

@[simp] theorem cell_infinite (t : Tape) : t.infinite.cell = t.symbolAt := rfl

/-- The stored cells lie on the left of the head, under it and on the right of it. -/
theorem symbolAt_eq (t : Tape) (position : Int) :
    t.symbolAt position =
      if position < t.headPosition then cellAt t.blank (-t.prepended) t.left.reverse position
      else if position = t.headPosition then t.current
      else cellAt t.blank (t.headPosition + 1) t.right position := by
  have hhead : (-t.prepended : Int) + t.left.reverse.length = t.headPosition := by
    simp only [List.length_reverse, headPosition, bufferIndex]
    omega
  unfold symbolAt cells
  rw [cellAt_append, cellAt_cons, hhead]

@[simp] theorem symbolAt_headPosition (t : Tape) : t.symbolAt t.headPosition = t.current := by
  rw [symbolAt_eq]
  simp

/-- The symbol read is the one at the position of the head. -/
theorem read_infinite (t : Tape) : t.infinite.read = t.read := t.symbolAt_headPosition

/-- A new tape holds its content; the padding is not seen. -/
theorem infinite_ofContent (content : String) (blank : Symbol) (alphabet : Option Alphabet) :
    (ofContent content blank alphabet).infinite = .ofContent content blank := by
  refine InfiniteTape.ext (by simp [InfiniteTape.ofContent]) (funext fun position => ?_)
  simp only [cell_infinite, symbolAt, blank_ofContent, prepended_ofContent, cells_ofContent,
    InfiniteTape.ofContent]
  exact cellAt_append_blanks fun cell h => List.eq_of_mem_replicate h

theorem infinite_write (t : Tape) (symbol : Symbol) :
    (t.write symbol).infinite = t.infinite.write symbol := by
  refine InfiniteTape.ext rfl (funext fun position => ?_)
  simp only [cell_infinite, InfiniteTape.write, head_infinite]
  rw [symbolAt_eq, symbolAt_eq, headPosition_write]
  by_cases heq : position = t.headPosition
  · simp [heq, write]
  · simp [heq, write]

/-- A move to the right does not change any cell, whether or not a blank one is brought in. -/
theorem symbolAt_moveRight (t : Tape) : t.moveRight.symbolAt = t.symbolAt := by
  funext position
  unfold symbolAt
  rw [cells_moveRight, blank_moveRight, prepended_moveRight]
  split
  · exact cellAt_append_blanks (by simp)
  · rfl

/-- A move to the left does not change any cell: the one brought in is counted as prepended. -/
theorem symbolAt_moveLeft (t : Tape) : t.moveLeft.symbolAt = t.symbolAt := by
  funext position
  unfold symbolAt
  rw [cells_moveLeft, blank_moveLeft, prepended_moveLeft]
  split
  · -- The blank brought in is one position before the cells that were stored.
    have hstart : (-((t.prepended + 1 : Nat) : Int)) + ([t.blank].length : Nat) = -t.prepended := by
      simp only [List.length_singleton]
      omega
    rw [← hstart]
    show cellAt t.blank _ ([t.blank] ++ t.cells) position = _
    exact cellAt_blanks_append fun cell h => List.mem_singleton.1 h
  · rfl

theorem infinite_moveRight (t : Tape) : t.moveRight.infinite = t.infinite.shift .right :=
  InfiniteTape.ext (headPosition_moveRight t) (symbolAt_moveRight t)

theorem infinite_moveLeft (t : Tape) : t.moveLeft.infinite = t.infinite.shift .left :=
  InfiniteTape.ext (headPosition_moveLeft t) (symbolAt_moveLeft t)

theorem infinite_shift (t : Tape) (d : Direction) : (t.shift d).infinite = t.infinite.shift d := by
  cases d with
  | left => exact infinite_moveLeft t
  | right => exact infinite_moveRight t
  | stay => rfl

end Tape

end TapeMachine
