import TapeMachine.Machine.Execution

/-!
# Machines

A machine is a well-formed program together with the execution that it is at, if an input has been
loaded. Loading an input begins a new execution, and resetting drops it. A machine without an
execution is in the initial state and has no tapes.
-/

namespace TapeMachine

/-- A well-formed program and what it is at. -/
structure Machine where
  program : Program
  wellFormed : program.violation? = none
  execution : Option Execution := none

/-- What a step of a machine did. -/
inductive Step where
  /-- A transition was applied, and the machine keeps running. -/
  | applied
  /-- The machine halted now or earlier. -/
  | halted (halt : Halt)
  /-- No input is loaded. -/
  | unloaded
deriving DecidableEq, Inhabited

/-- Where a machine is in its life. -/
inductive Status where
  /-- No input is loaded. -/
  | unloaded
  /-- An input is loaded, and no transition has been applied. -/
  | initialized
  /-- Transitions have been applied, and the machine has not halted. -/
  | running
  /-- The machine has accepted or rejected. -/
  | halted
deriving DecidableEq, Inhabited

/-- The name of the status. -/
def Status.name : Status → String
  | unloaded => "Unloaded"
  | initialized => "Initialized"
  | running => "Running"
  | halted => "Halted"

namespace Machine

instance : DecidableEq Machine := fun m n =>
  decidable_of_iff (m.program = n.program ∧ m.execution = n.execution) <| by
    cases m
    cases n
    simp

/-- A machine for a program, which has to be well-formed. -/
def ofProgram (p : Program) : Except MachineError Machine :=
  match h : p.violation? with
  | none => .ok ⟨p, h, none⟩
  | some v => .error (.validation (.violation v))

/-- A machine can be made of every well-formed program. -/
theorem ofProgram_eq_ok {p : Program} (h : p.violation? = none) :
    ofProgram p = .ok ⟨p, h, none⟩ := by
  unfold ofProgram
  split
  · rfl
  · next v hv => cases h.symm.trans hv

/-! ## Running -/

/-- Load an input in place of what was loaded before. An invalid input changes nothing. -/
def load (m : Machine) (input : String) : Except MachineError Machine :=
  (Execution.start m.program input).map fun e => { m with execution := some e }

/-- One step. -/
def step (m : Machine) : Step × Machine :=
  match m.execution with
  | none => (.unloaded, m)
  | some e =>
    let e := e.step m.program
    let m := { m with execution := some e }
    match e.halt with
    | none => (.applied, m)
    | some halt => (.halted halt, m)

/-- As many steps as the budget allows, up to the halt, and the verdict. -/
def run (m : Machine) (budget : Nat) : Except MachineError (Outcome × Machine) :=
  match m.execution with
  | none => .error .notInitialized
  | some e =>
    let e := e.run m.program budget
    .ok (e.outcome, { m with execution := some e })

/-- Load an input and run on it. -/
def execute (m : Machine) (input : String) (budget : Nat) :
    Except MachineError (Outcome × Machine) := do
  (← m.load input).run budget

/-- Drop what is loaded. -/
def reset (m : Machine) : Machine := { m with execution := none }

/-! ## Queries -/

/-- The name of the current state. -/
def state (m : Machine) : String :=
  match m.execution with
  | none => m.program.initialName
  | some e => e.state

/-- The current state with its marks. -/
def currentState? (m : Machine) : Option State := m.program.state? m.state

/-- The number of transitions applied since the input was loaded. -/
def stepCount (m : Machine) : Nat :=
  match m.execution with
  | none => 0
  | some e => e.steps

/-- The tapes; there are none before an input is loaded. -/
def tapes (m : Machine) : List Tape :=
  match m.execution with
  | none => []
  | some e => e.tapes

/-- Why the machine halted, if it did. -/
def halt? (m : Machine) : Option Halt := m.execution.bind Execution.halt

/-- The verdict, if the machine has halted. -/
def outcome? (m : Machine) : Option Outcome := m.halt?.map fun halt => .ofHalt (some halt)

/-- Whether the machine has halted. -/
def isHalted (m : Machine) : Bool := m.halt?.isSome

/-- Whether the machine has accepted. -/
def isAccepted (m : Machine) : Bool := m.halt? == some .accept

/-- Where the machine is in its life. -/
def status (m : Machine) : Status :=
  match m.execution with
  | none => .unloaded
  | some e =>
    if e.halt.isSome then .halted else if e.steps = 0 then .initialized else .running

/-- A tape by its index. -/
def tape (m : Machine) (index : Nat) : Except MachineError Tape :=
  match m.execution with
  | none => .error .notInitialized
  | some e =>
    match e.tapes[index]? with
    | some tape => .ok tape
    | none => .error (.tapeIndexOutOfRange index e.tapes.length)

/-- The visible content of a tape. -/
def tapeContent (m : Machine) (index : Nat) : Except MachineError String :=
  (m.tape index).map Tape.visibleContent

/-- The position of the head of a tape. -/
def headPosition (m : Machine) (index : Nat) : Except MachineError Int :=
  (m.tape index).map Tape.headPosition

/-- The visible content of the first tape; empty before an input is loaded. -/
def content (m : Machine) : String :=
  match m.tapes with
  | [] => ""
  | tape :: _ => tape.visibleContent

/-- The position of the first head, once an input is loaded. -/
def head? (m : Machine) : Option Int := m.tapes.head?.map Tape.headPosition

/-- The symbols under the heads. -/
def symbols (m : Machine) : List Symbol := m.tapes.map Tape.read

/-- The transition that fires on the current state and symbols. -/
def transition? (m : Machine) : Option Transition :=
  m.program.transitions.get? m.state m.symbols

/-- The visible part. -/
def configuration (m : Machine) : Configuration where
  state := m.state
  step := m.stepCount
  tapes := m.tapes.map Tape.snapshot

/-- The first tape with the cell under its head between bars; empty before an input is loaded. -/
def visualize (m : Machine) : String :=
  match m.tapes with
  | [] => ""
  | tape :: _ => tape.snapshot.render

end Machine

end TapeMachine
