import TapeMachine.Program.WellFormed
import TapeMachine.Program.Lint

/-!
# The program that a specification denotes

The meaning of a line of a specification depends on its place among the lines:

1. the states,
2. the input symbols,
3. the tape symbols,
4. the initial state,
5. the blank, which must be one of the tape symbols,
6. the accepting states,

and from the seventh line on one transition each: state, symbol read, next state, symbol written,
direction. Missing lines leave their part of the program empty. A text that is too large is
refused before anything else, and a program that is assembled must be well-formed.
-/

namespace TapeMachine.Specification

/-- The transition on a line. -/
def Line.transition (line : Line) : Except Fault Transition :=
  match line.tokens with
  | [state, read, next, write, token] =>
    match Direction.ofToken? token with
    | some direction => .ok (.single state read next write direction)
    | none => .error ⟨line, .direction token⟩
  | _ => .error ⟨line, .tokenCount⟩

/-- Add the transition on a line to the program; a second one for the same state and symbol is a
fault of its line. -/
def addLine (p : Program) (line : Line) : Except MachineError Program :=
  match line.transition with
  | .error fault => .error (.parse fault)
  | .ok t =>
    match p.addTransition t with
    | .error (.nonDeterministic state symbols) => .error (.parse ⟨line, .duplicate state symbols⟩)
    | result => result

/-- The tokens of the line at this place, counted from zero. -/
def tokensAt (lines : List Line) (place : Nat) : List String :=
  (lines[place]?.map Line.tokens).getD []

/-- Declare the blank on the fifth line. -/
def declareBlank (p : Program) (lines : List Line) : Except MachineError Program :=
  match lines[4]? with
  | none => .ok p
  | some line =>
    match line.tokens.head? with
    | none => .ok p
    | some blank =>
      if p.tapeAlphabet.contains blank then .ok (p.setBlank blank)
      else .error (.validation (.undeclaredBlank blank line.row))

/-- What the first four lines declare. -/
def declareParts (lines : List Line) : Program :=
  let p : Program := {}
  let p := (tokensAt lines 0).foldl (fun p name => (p.addState name).2) p
  let p := (tokensAt lines 1).foldl (fun p symbol => (p.addInputSymbol symbol).2) p
  let p := (tokensAt lines 2).foldl (fun p symbol => (p.addTapeSymbol symbol).2) p
  match (tokensAt lines 3).head? with
  | none => p
  | some name => p.setInitialState name

/-- What the first six lines declare. -/
def declare (lines : List Line) : Except MachineError Program :=
  (declareBlank (declareParts lines) lines).map fun p =>
    (tokensAt lines 5).foldl (fun p name => (p.addAcceptingState name).2) p

/-- The program that the lines assemble, well-formed or not. -/
def assemble (lines : List Line) : Except MachineError Program := do
  (lines.drop 6).foldlM addLine (← declare lines)

/-- The program that a text specifies. -/
def program (text : String) : Except MachineError Program :=
  if text.utf8ByteSize > maxSpecificationSize then
    .error (.validation (.specificationSize text.utf8ByteSize))
  else do
    let p ← assemble (lines text)
    p.check
    return p

end TapeMachine.Specification
