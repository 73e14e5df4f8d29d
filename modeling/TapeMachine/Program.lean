import TapeMachine.State
import TapeMachine.Transition.Table

/-!
# Programs

A program is the definition of a deterministic machine with one or more tapes: its states Q,
input alphabet Σ, tape alphabet Γ with the blank, initial state, accepting states F and transitions.
It is assembled by edits. An edit of Q, Σ, Γ or F tells whether it brought in a new member; adding
a transition can fail. Whether the parts fit together is left to `Program.violation?`.
-/

namespace TapeMachine

/-- The definition of a machine. -/
@[ext]
structure Program where
  states : NameSet := ∅
  inputAlphabet : Alphabet := ∅
  tapeAlphabet : Alphabet := ∅
  initial : Option String := none
  accepting : NameSet := ∅
  transitions : TransitionTable := ∅
  tapeCount : Nat := 1
deriving DecidableEq, Inhabited

namespace Program

/-- The empty program of a machine with this many tapes, but at least one. -/
def withTapes (count : Nat) : Program := { tapeCount := max count 1 }

/-! ## Queries -/

/-- Whether a state has this name. -/
def hasState (p : Program) (name : String) : Bool := p.states.contains name

/-- Whether this is the name of the initial state. -/
def isInitial (p : Program) (name : String) : Bool := p.initial == some name

/-- Whether this is the name of an accepting state. -/
def isAccepting (p : Program) (name : String) : Bool := p.accepting.contains name

/-- The state of this name with its marks. -/
def state? (p : Program) (name : String) : Option State :=
  if p.hasState name then
    some { name, initial := p.isInitial name, accepting := p.isAccepting name }
  else none

/-- The declared initial state, marked as such only. -/
def initialState? (p : Program) : Option State :=
  p.initial.map fun name => { name, initial := true }

/-- The declared accepting states, marked as such only. -/
def acceptingStates (p : Program) : List State :=
  p.accepting.toList.map fun name => { name, accepting := true }

/-- The name of the initial state; empty if none is declared. -/
def initialName (p : Program) : String := p.initial.getD ""

/-- The designated blank. -/
def blank (p : Program) : Option Symbol := p.tapeAlphabet.blank

/-- Whether there is a transition for this state and these symbols. -/
def hasTransition (p : Program) (state : String) (symbols : List Symbol) : Bool :=
  (p.transitions.get? state symbols).isSome

/-- Whether the machine has more than one tape. -/
def isMultiTape (p : Program) : Bool := p.tapeCount > 1

/-- Whether every character of the input is an input symbol. -/
def isValidInput (p : Program) (input : String) : Bool := p.inputAlphabet.isValidText input

/-! ## Edits -/

/-- Add a state. -/
def addState (p : Program) (name : String) : Bool × Program :=
  let (fresh, states) := p.states.insertNew name
  (fresh, { p with states })

/-- Add an input symbol. -/
def addInputSymbol (p : Program) (symbol : Symbol) : Bool × Program :=
  let (fresh, inputAlphabet) := p.inputAlphabet.addSymbol symbol
  (fresh, { p with inputAlphabet })

/-- Add a tape symbol. -/
def addTapeSymbol (p : Program) (symbol : Symbol) : Bool × Program :=
  let (fresh, tapeAlphabet) := p.tapeAlphabet.addSymbol symbol
  (fresh, { p with tapeAlphabet })

/-- Declare the initial state, which need not be a state yet. -/
def setInitialState (p : Program) (name : String) : Program := { p with initial := some name }

/-- Designate the blank, adding it to the tape symbols. -/
def setBlank (p : Program) (symbol : Symbol) : Program :=
  { p with tapeAlphabet := p.tapeAlphabet.setBlank symbol }

/-- Declare an accepting state, which need not be a state yet. -/
def addAcceptingState (p : Program) (name : String) : Bool × Program :=
  let (fresh, accepting) := p.accepting.insertNew name
  (fresh, { p with accepting })

/-- Add a transition. It has to address every tape, and no other transition may fire on the same
state and symbols. -/
def addTransition (p : Program) (t : Transition) : Except MachineError Program :=
  match t.tapeCount? with
  | none => .error (.validation (.mismatchedTuples t.state))
  | some count =>
    if count = p.tapeCount then
      (p.transitions.add t).map fun transitions => { p with transitions }
    else .error (.tapeCountMismatch p.tapeCount count)

/-- One step of assembling a program. -/
inductive Edit where
  | state (name : String)
  | inputSymbol (symbol : Symbol)
  | tapeSymbol (symbol : Symbol)
  | initialState (name : String)
  | blank (symbol : Symbol)
  | acceptingState (name : String)
  | transition (transition : Transition)
deriving DecidableEq, Inhabited

/-- Carry out an edit. Where it adds to a set, the answer tells whether the member is new. -/
def edit (p : Program) : Edit → Except MachineError (Option Bool × Program)
  | .state name => .ok ((p.addState name).map some id)
  | .inputSymbol symbol => .ok ((p.addInputSymbol symbol).map some id)
  | .tapeSymbol symbol => .ok ((p.addTapeSymbol symbol).map some id)
  | .initialState name => .ok (none, p.setInitialState name)
  | .blank symbol => .ok (none, p.setBlank symbol)
  | .acceptingState name => .ok ((p.addAcceptingState name).map some id)
  | .transition t => (p.addTransition t).map fun p => (some true, p)

/-- Carry out edits one after another, up to the first that fails. -/
def editAll (p : Program) (edits : List Edit) : Except MachineError Program :=
  edits.foldlM (fun p e => (p.edit e).map Prod.snd) p

/-- The program with this many tapes that the edits assemble. -/
def build (tapeCount : Nat) (edits : List Edit) : Except MachineError Program :=
  (withTapes tapeCount).editAll edits

/-! ## Rendering -/

/-- The parts of the program in words, one on each line; the tapes only if there are several. -/
def render (p : Program) : String :=
  let accepting := ", ".intercalate p.accepting.toList
  let initial := p.initial.getD "-"
  String.join <|
    ["=== Turing Machine ===\n",
      s!"States: {p.states.size}\n",
      s!"Input alphabet: {p.inputAlphabet.render}\n",
      s!"Tape alphabet: {p.tapeAlphabet.render}\n"]
    ++ (if p.isMultiTape then [s!"Tapes: {p.tapeCount}\n"] else [])
    ++ [s!"Initial state: {initial}\n",
      "Accepting states: \x7b " ++ accepting ++ " \x7d\n",
      s!"Transitions: {p.transitions.size}\n"]

end Program

end TapeMachine
