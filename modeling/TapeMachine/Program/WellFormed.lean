import TapeMachine.Program

/-!
# Well-formedness of programs

The rules of the formal model are checked in a fixed order: states, initial state, accepting
states, input alphabet, blank, transitions. `Program.violation?` is the first violation found; of
several offenders against one rule it names the first in the order of the set or table.
-/

namespace TapeMachine.Program

/-- There is at least one state. -/
def stateViolation? (p : Program) : Option Violation :=
  if p.states.isEmpty then some .noStates else none

/-- An initial state is declared and is a state. -/
def initialViolation? (p : Program) : Option Violation :=
  match p.initial with
  | none => some .noInitialState
  | some name => if p.hasState name then none else some (.initialState name)

/-- There is at least one accepting state, and all of them are states. -/
def acceptingViolation? (p : Program) : Option Violation :=
  if p.accepting.isEmpty then some .noAcceptingStates
  else (p.accepting.toList.find? fun name => !p.hasState name).map .acceptingState

/-- Every input symbol is a tape symbol. -/
def inputViolation? (p : Program) : Option Violation :=
  (p.inputAlphabet.symbols.toList.find? fun s => !p.tapeAlphabet.contains s).map .inputSymbol

/-- A blank is declared, is no input symbol and is a tape symbol. -/
def blankViolation? (p : Program) : Option Violation :=
  match p.blank with
  | none => some .noBlank
  | some blank =>
    if p.inputAlphabet.contains blank then some (.blankIsInput blank)
    else if p.tapeAlphabet.contains blank then none
    else some (.blankNotOnTape blank)

/-- A transition addresses every tape, names states and tape symbols only, and moves the head if
there is only one. -/
def transitionViolation? (p : Program) (t : Transition) : Option Violation :=
  if t.tapeCount? ≠ some p.tapeCount then some (.tapes t p.tapeCount)
  else
    ([t.state, t.nextState].find? fun name => !p.hasState name).map .transitionState <|>
    (t.read.find? fun s => !p.tapeAlphabet.contains s).map .readSymbol <|>
    (t.write.find? fun s => !p.tapeAlphabet.contains s).map .writeSymbol <|>
    (t.directions.find? fun d => !p.isMultiTape && d == .stay).map .direction

/-- The first violation of a rule, if there is one. -/
def violation? (p : Program) : Option Violation :=
  p.stateViolation? <|> p.initialViolation? <|> p.acceptingViolation? <|> p.inputViolation? <|>
    p.blankViolation? <|> p.transitions.toList.findSome? p.transitionViolation?

/-- Succeeds if the program obeys every rule. -/
def check (p : Program) : Except MachineError Unit :=
  match p.violation? with
  | none => .ok ()
  | some v => .error (.validation (.violation v))

end TapeMachine.Program
