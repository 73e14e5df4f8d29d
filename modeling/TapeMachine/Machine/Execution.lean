import TapeMachine.Machine.Configuration
import TapeMachine.Program.WellFormed

/-!
# Executions

An execution is a program at work on one input. A step reads the symbols under all heads and looks
for the transition that fires on them in the current state. It applies the transition, and halts if
that entered an accepting state; if there is none it halts without any other change. A halted
execution stays as it is.
-/

namespace TapeMachine

/-- A program at work on an input. -/
@[ext]
structure Execution where
  state : String
  tapes : List Tape
  /-- The number of transitions applied. -/
  steps : Nat := 0
  halt : Option Halt := none
deriving DecidableEq, Inhabited

namespace Execution

/-- The tapes before the first step: the first one holds the input, and the others are blank. -/
def initialTapes (p : Program) (input : String) : List Tape :=
  (List.range p.tapeCount).map fun i =>
    Tape.ofContent (if i = 0 then input else "") (p.blank.getD "") (some p.tapeAlphabet)

/-- Begin with an input, unless one of its characters is not an input symbol. -/
def start (p : Program) (input : String) : Except MachineError Execution :=
  match p.inputAlphabet.firstInvalid? input with
  | some symbol => .error (.invalidInput input symbol)
  | none => .ok { state := p.initialName, tapes := initialTapes p input }

/-- The symbols under the heads. -/
def symbols (e : Execution) : List Symbol := e.tapes.map Tape.read

/-- The transition that fires on the current state and symbols. -/
def transition? (p : Program) (e : Execution) : Option Transition :=
  p.transitions.get? e.state e.symbols

/-- Write one symbol on each tape and move its head. -/
def updateTapes : List Tape → List Symbol → List Direction → List Tape
  | tape :: tapes, symbol :: symbols, direction :: directions =>
    (tape.write symbol).shift direction :: updateTapes tapes symbols directions
  | tapes, _, _ => tapes

/-- Apply a transition, and halt if it enters an accepting state. -/
def apply (p : Program) (e : Execution) (t : Transition) : Execution where
  state := t.nextState
  tapes := updateTapes e.tapes t.write t.directions
  steps := e.steps + 1
  halt := if p.isAccepting t.nextState then some .accept else none

/-- One step. -/
def step (p : Program) (e : Execution) : Execution :=
  match e.halt with
  | some _ => e
  | none =>
    match e.transition? p with
    | some t => e.apply p t
    | none => { e with halt := some (.reject ⟨e.state, e.symbols⟩) }

/-- As many steps as the budget allows, up to the halt. -/
def run (p : Program) : Nat → Execution → Execution
  | 0, e => e
  | budget + 1, e => if e.halt.isSome then e else run p budget (e.step p)

/-- A halted execution stays as it is. -/
theorem step_of_halt {p : Program} {e : Execution} {halt : Halt} (h : e.halt = some halt) :
    e.step p = e := by
  simp [step, h]

/-- However large the budget, a halted execution stays as it is. -/
theorem run_of_halt {p : Program} {e : Execution} {halt : Halt} (h : e.halt = some halt)
    (budget : Nat) : e.run p budget = e := by
  cases budget with
  | zero => rfl
  | succ budget => simp [run, h]

/-- Leaving off at the halt makes no difference: a run takes as many steps as its budget. -/
theorem run_succ (p : Program) (budget : Nat) (e : Execution) :
    e.run p (budget + 1) = (e.step p).run p budget := by
  cases h : e.halt with
  | none => simp [run, h]
  | some halt => rw [step_of_halt h, run_of_halt h, run_of_halt h]

/-- A run may be broken off and continued. -/
theorem run_add (p : Program) (first second : Nat) (e : Execution) :
    e.run p (first + second) = (e.run p first).run p second := by
  induction first generalizing e with
  | zero => simp [run]
  | succ first ih => rw [Nat.succ_add, run_succ, run_succ, ih]

/-- The visible part. -/
def configuration (e : Execution) : Configuration where
  state := e.state
  step := e.steps
  tapes := e.tapes.map Tape.snapshot

/-- The verdict so far. -/
def outcome (e : Execution) : Outcome := Outcome.ofHalt e.halt

end Execution

end TapeMachine
