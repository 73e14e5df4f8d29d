/-!
# The lines of a specification

A specification is a text of lines of tokens. A line feed ends a row, and a carriage return cuts a
row into segments. In a segment the tokens are the longest runs of characters other than space
and tab, up to the first run that starts with a number sign: that one begins a comment. A segment
with at least one token is a line; all others are skipped.

Rows and columns count from one, in characters. A carriage return takes up a column of its row.
-/

namespace TapeMachine.Specification

/-- The pieces of a text between its separators: one more than there are separators. -/
def pieces (isSeparator : Char → Bool) (text : List Char) : List (List Char) :=
  text.foldr
    (fun c found =>
      if isSeparator c then [] :: found
      else match found with
        | [] => [[c]]
        | piece :: rest => (c :: piece) :: rest)
    [[]]

/-- A piece of a text and the number of characters in front of it. -/
structure Field where
  offset : Nat
  chars : List Char
deriving DecidableEq, Inhabited

/-- Pieces with one separator between any two of them, each with its offset. -/
def locate (offset : Nat) : List (List Char) → List Field
  | [] => []
  | piece :: rest => ⟨offset, piece⟩ :: locate (offset + piece.length + 1) rest

/-- The pieces of a text between its separators, each with its offset. -/
def fields (isSeparator : Char → Bool) (text : List Char) : List Field :=
  locate 0 (pieces isSeparator text)

/-- Space and tab separate tokens. -/
def isBlank (c : Char) : Bool := c == ' ' || c == '\t'

/-- The tokens of a segment: its non-empty fields before the one that begins a comment. -/
def words (segment : List Char) : List Field :=
  ((fields isBlank segment).filter fun word => !word.chars.isEmpty).takeWhile fun word =>
    word.chars.head? != some '#'

/-- A line of tokens, where it stands, and what of its row it covers. -/
structure Line where
  /-- The number of the row. -/
  row : Nat
  /-- The column of the first token. -/
  column : Nat
  /-- The tokens, of which there is at least one. -/
  tokens : List String
  /-- The text that the line covers. -/
  extent : String
  /-- The whole row without its carriage returns. -/
  rowText : String
deriving DecidableEq, Inhabited

/-- What a line covers of its segment: from the first token to the end of the last one, and the
whole rest of the segment if there is only one token. -/
def covered (segment : List Char) (first : Field) (others : List Field) : List Char :=
  match others.getLast? with
  | none => segment.drop first.offset
  | some last => (segment.take (last.offset + last.chars.length)).drop first.offset

/-- The line that a segment of a row forms, if it holds a token. -/
def Line.ofSegment? (row : Nat) (rowText : String) (segment : Field) : Option Line :=
  match words segment.chars with
  | [] => none
  | first :: others => some {
      row
      column := segment.offset + first.offset + 1
      tokens := (first :: others).map fun word => String.ofList word.chars
      extent := String.ofList (covered segment.chars first others)
      rowText }

/-- The lines of one row. -/
def linesOfRow (number : Nat) (row : List Char) : List Line :=
  let rowText := String.ofList (row.filter (· != '\r'))
  (fields (· == '\r') row).filterMap (Line.ofSegment? number rowText)

/-- The lines of a text, in order. -/
def lines (text : String) : List Line :=
  ((pieces (· == '\n') text.toList).zipIdx 1).flatMap fun (row, number) => linesOfRow number row

end TapeMachine.Specification
