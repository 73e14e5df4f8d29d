import TapeMachine.Specification.Line

/-!
# Faults in a specification

A fault blames one line of a specification and says what is wrong with it. Its message shows the
row of the line with the text that the line covers underlined.
-/

namespace TapeMachine.Specification

/-- The number of tokens on the line of a transition. -/
def transitionTokens : Nat := 5

/-- What can be wrong with the line of a transition. -/
inductive Fault.Cause where
  /-- The line does not have five tokens. -/
  | tokenCount
  /-- The last token names no direction. -/
  | direction (token : String)
  /-- An earlier line has a transition for the same state and symbols. -/
  | duplicate (state : String) (symbols : List String)
deriving DecidableEq, Inhabited

/-- A fault and the line to blame for it. -/
structure Fault where
  line : Line
  cause : Fault.Cause
deriving DecidableEq, Inhabited

/-- What is wrong, in one sentence. -/
def Fault.explanation (fault : Fault) : String :=
  match fault.cause with
  | .tokenCount =>
    s!"Line {fault.line.row} must have exactly {transitionTokens} tokens " ++
      s!"(current read next write direction), found {fault.line.tokens.length}"
  | .direction token => s!"Invalid direction '{token}' (must be L or R)"
  | .duplicate state symbols =>
    let reading := ",".intercalate symbols
    s!"Duplicate transition for state '{state}' reading '{reading}'"

/-- As many spaces, with the tabs of the row kept, as there are columns before the line, and then
a mark as wide as the line. -/
def Line.underline (line : Line) : String :=
  let margin := (line.rowText.toList.take (line.column - 1)).map fun c =>
    if c == '\t' then '\t' else ' '
  let mark :=
    match line.extent.length with
    | 0 | 1 => ['^']
    | width + 2 => '^' :: List.replicate width '-' ++ ['^']
  String.ofList (margin ++ mark)

/-- The place of the fault, its row underlined, and what is wrong. -/
def Fault.message (fault : Fault) : String :=
  let number := toString fault.line.row
  let margin := String.ofList (List.replicate number.length ' ')
  "\n".intercalate [
    s!"{margin}--> {number}:{fault.line.column}",
    s!"{margin} |",
    s!"{number} | {fault.line.rowText}",
    s!"{margin} | {fault.line.underline}",
    s!"{margin} |",
    s!"{margin} = {fault.explanation}"]

end TapeMachine.Specification
