import TapeMachine.Alphabet

/-!
# Snapshots of tapes

A snapshot is what can be seen of a tape: the cells from the first to the last that is not blank,
the position of the first of them, and the position of the head. Positions are integers and do not
depend on how much of the tape is stored.
-/

namespace TapeMachine

/-- The visible part of a tape. -/
@[ext]
structure TapeSnapshot where
  /-- The cells from the first to the last that is not blank. -/
  cells : List Symbol
  /-- The position of the first cell, or that of the head if there are no cells. -/
  start : Int
  /-- The position of the head. -/
  head : Int
  /-- The symbol of every cell that is not shown. -/
  blank : Symbol
deriving DecidableEq, Inhabited

namespace TapeSnapshot

/-- The cells one after another. -/
def content (s : TapeSnapshot) : String := String.join s.cells

/-- The symbol at a position: a cell if one is there, and else the blank. -/
def symbolAt (s : TapeSnapshot) (position : Int) : Symbol :=
  if position < s.start then s.blank else s.cells.getD (position - s.start).toNat s.blank

/-- The first position that is rendered. -/
def firstPosition (s : TapeSnapshot) : Int := min s.start s.head

/-- The last position that is rendered. -/
def lastPosition (s : TapeSnapshot) : Int := max (s.start + s.cells.length - 1) s.head

/-- The cells, widened to take in the head, with the cell under the head between bars. -/
def render (s : TapeSnapshot) : String :=
  let width := (s.lastPosition - s.firstPosition + 1).toNat
  String.join <| (List.range width).map fun (i : Nat) =>
    let position := s.firstPosition + i
    if position = s.head then s!"|{s.symbolAt position}|" else s.symbolAt position

end TapeSnapshot

end TapeMachine
