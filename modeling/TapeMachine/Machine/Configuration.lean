import TapeMachine.Tape

/-!
# Configurations, halts and outcomes

A configuration is the visible part of a machine at one instant: its state, the number of
transitions applied so far, and a snapshot of every tape. A machine halts by accepting, when it
enters an accepting state, or by rejecting, when no transition fires.
-/

namespace TapeMachine

/-- The state and the symbols that no transition fired on. -/
@[ext]
structure Rejection where
  state : String
  symbols : List Symbol
deriving DecidableEq, Inhabited

/-- Why a machine halted. -/
inductive Halt where
  /-- A transition entered an accepting state. -/
  | accept
  /-- No transition fires. -/
  | reject (rejection : Rejection)
deriving DecidableEq, Inhabited

/-- The verdict of a run with a budget of steps. -/
inductive Outcome where
  | accepted
  | rejected
  /-- The budget was used up before the machine halted. -/
  | stepLimitReached
deriving DecidableEq, Inhabited

namespace Outcome

/-- The verdict of a machine with this halt, if it has one. -/
def ofHalt : Option Halt → Outcome
  | none => stepLimitReached
  | some .accept => accepted
  | some (.reject _) => rejected

/-- Whether the input is accepted. -/
def isAccepted : Outcome → Bool
  | accepted => true
  | _ => false

/-- The verdict in capitals. -/
def render : Outcome → String
  | accepted => "ACCEPTED"
  | rejected => "REJECTED"
  | stepLimitReached => "STEP LIMIT REACHED"

/-- The name of the verdict in encoded values. -/
def name : Outcome → String
  | accepted => "Accepted"
  | rejected => "Rejected"
  | stepLimitReached => "StepLimitReached"

end Outcome

/-- The visible part of a machine at one instant. -/
@[ext]
structure Configuration where
  state : String
  step : Nat
  tapes : List TapeSnapshot
deriving DecidableEq, Inhabited

namespace Configuration

/-- A tape and its head, with the number of the tape. -/
def renderNumbered (tape : TapeSnapshot) (number : Nat) : String :=
  s!", Tape {number}: [{tape.content}], Head {number}: {tape.head}"

/-- The state and the tapes on one line. Tapes are numbered unless there is exactly one. -/
def render (c : Configuration) : String :=
  match c.tapes with
  | [tape] => s!"State: {c.state}, Tape: [{tape.content}], Head: {tape.head}"
  | tapes =>
    s!"State: {c.state}" ++
      String.join ((tapes.zipIdx 1).map fun (tape, number) => renderNumbered tape number)

end Configuration

end TapeMachine
