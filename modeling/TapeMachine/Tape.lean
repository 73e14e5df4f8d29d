import TapeMachine.Tape.Snapshot
import TapeMachine.Transition

/-!
# Tapes

A tape is unbounded in both directions. It stores the cells that were given or visited, split at
the head: the cells on its left from the nearest one on, the cell under it, and the cells on its
right. A move beyond the stored cells brings in a blank one. Positions count from the first cell
of the initial content, so the tape also counts the cells that were brought in on the left of it.
-/

namespace TapeMachine

/-- The number of blank cells stored after the initial content. -/
def tapePadding : Nat := 10

/-- The stored part of an unbounded tape, split at the head. -/
@[ext]
structure Tape where
  /-- The cells on the left of the head, the nearest first. -/
  left : List Symbol
  /-- The cell under the head. -/
  current : Symbol
  /-- The cells on the right of the head, the nearest first. -/
  right : List Symbol
  /-- How many cells were brought in on the left of the initial content. -/
  prepended : Nat := 0
  /-- The symbol of every cell that is not stored. -/
  blank : Symbol
  /-- The symbols that count as valid, if they are restricted. -/
  alphabet : Option Alphabet := none
deriving DecidableEq, Inhabited

namespace Tape

/-- The tape that stores these cells, or one blank cell if there are none, with the head on the
first of them. -/
def ofCells (blank : Symbol) (alphabet : Option Alphabet) : List Symbol → Tape
  | [] => { left := [], current := blank, right := [], blank, alphabet }
  | current :: right => { left := [], current, right, blank, alphabet }

/-- The tape that holds one cell for each character of the content and then the padding, with the
head on the first cell. -/
def ofContent (content : String) (blank : Symbol) (alphabet : Option Alphabet := none) : Tape :=
  ofCells blank alphabet
    (content.toList.map String.singleton ++ List.replicate tapePadding blank)

/-- Start afresh with other content, keeping the blank and the valid symbols. -/
def reset (t : Tape) (content : String) : Tape := ofContent content t.blank t.alphabet

/-- The symbol under the head. -/
def read (t : Tape) : Symbol := t.current

/-- Replace the symbol under the head. -/
def write (t : Tape) (symbol : Symbol) : Tape := { t with current := symbol }

/-- Move the head one cell to the right. -/
def moveRight (t : Tape) : Tape :=
  match t.right with
  | [] => { t with left := t.current :: t.left, current := t.blank }
  | symbol :: right => { t with left := t.current :: t.left, current := symbol, right }

/-- Move the head one cell to the left. -/
def moveLeft (t : Tape) : Tape :=
  match t.left with
  | [] =>
    { t with current := t.blank, right := t.current :: t.right, prepended := t.prepended + 1 }
  | symbol :: left => { t with left, current := symbol, right := t.current :: t.right }

/-- Move the head in a direction. -/
def shift (t : Tape) : Direction → Tape
  | .left => t.moveLeft
  | .right => t.moveRight
  | .stay => t

/-- How many stored cells are on the left of the head. -/
def bufferIndex (t : Tape) : Nat := t.left.length

/-- The position of the head, counted from the first cell of the initial content. -/
def headPosition (t : Tape) : Int := t.bufferIndex - t.prepended

/-- The stored cells from left to right. -/
def cells (t : Tape) : List Symbol := t.left.reverse ++ t.current :: t.right

/-- The number of stored cells. -/
def size (t : Tape) : Nat := t.cells.length

/-- Whether no cell is stored. -/
def isEmpty (t : Tape) : Bool := t.cells.isEmpty

/-- The stored cells one after another. -/
def content (t : Tape) : String := String.join t.cells

/-- Whether a symbol is valid on this tape. -/
def isValidSymbol (t : Tape) (symbol : Symbol) : Bool :=
  match t.alphabet with
  | none => true
  | some alphabet => alphabet.contains symbol

/-! ## Positions -/

@[simp] theorem headPosition_write (t : Tape) (symbol : Symbol) :
    (t.write symbol).headPosition = t.headPosition := rfl

/-- The head starts on the first cell of the content. -/
@[simp] theorem headPosition_ofContent (content : String) (blank : Symbol)
    (alphabet : Option Alphabet) : (ofContent content blank alphabet).headPosition = 0 := by
  unfold ofContent ofCells
  split <;> rfl

/-- A move to the right goes to the next position, whether or not a cell is brought in. -/
theorem headPosition_moveRight (t : Tape) : t.moveRight.headPosition = t.headPosition + 1 := by
  unfold moveRight
  split <;> simp only [headPosition, bufferIndex, List.length_cons] <;> omega

/-- A move to the left goes to the position before, whether or not a cell is brought in. -/
theorem headPosition_moveLeft (t : Tape) : t.moveLeft.headPosition = t.headPosition - 1 := by
  unfold moveLeft
  split
  · next h =>
    simp only [headPosition, bufferIndex, h, List.length_nil]
    omega
  · next h =>
    simp only [headPosition, bufferIndex, h, List.length_cons]
    omega

/-- A move to the right brings in at most a blank behind the stored cells. -/
theorem cells_moveRight (t : Tape) :
    t.moveRight.cells = if t.right = [] then t.cells ++ [t.blank] else t.cells := by
  unfold moveRight
  split
  · next h => simp [cells, h]
  · next h => simp [cells, h]

/-- A move to the left brings in at most a blank in front of the stored cells. -/
theorem cells_moveLeft (t : Tape) :
    t.moveLeft.cells = if t.left = [] then t.blank :: t.cells else t.cells := by
  unfold moveLeft
  split
  · next h => simp [cells, h]
  · next h => simp [cells, h]

/-! ## The visible part -/

/-- The list without the blanks at its beginning. -/
def dropBlanks (blank : Symbol) (l : List Symbol) : List Symbol := l.dropWhile (· == blank)

/-- The list without the blanks at its end. -/
def trimBlanks (blank : Symbol) (l : List Symbol) : List Symbol :=
  (dropBlanks blank l.reverse).reverse

/-- The stored cells from the first to the last that is not blank. -/
def visibleCells (t : Tape) : List Symbol := trimBlanks t.blank (dropBlanks t.blank t.cells)

/-- The visible cells one after another. -/
def visibleContent (t : Tape) : String := String.join t.visibleCells

/-- The position of the first visible cell, or that of the head if no cell is visible. -/
def visibleStart (t : Tape) : Int :=
  let leading := (t.cells.takeWhile (· == t.blank)).length
  if leading = t.size then t.headPosition else leading - t.prepended

/-- What can be seen of the tape. -/
def snapshot (t : Tape) : TapeSnapshot where
  cells := t.visibleCells
  start := t.visibleStart
  head := t.headPosition
  blank := t.blank

end Tape

end TapeMachine
