import TapeMachine.Machine
import TapeMachine.Simulator.Report

/-!
# The simulator

A simulator drives a machine and keeps a trace of its configurations. A run loads an input, forgets
the earlier trace, and records the first configuration and the one after every transition applied.
Single steps add to the trace instead: each records the configuration it starts from.
-/

namespace TapeMachine

/-- The budget of steps if none is given. -/
def defaultMaxSteps : Nat := 10000

/-- How a simulator runs, and how much of a trace is to be printed. -/
structure Simulator.Config where
  maxSteps : Nat := defaultMaxSteps
  trace : TraceMode := .summary
deriving DecidableEq, Inhabited

/-- A machine and the configurations recorded, the latest first. -/
structure Simulator where
  machine : Machine
  config : Simulator.Config := {}
  history : List Configuration := []
deriving DecidableEq

/-- Take as many steps as the budget allows, up to the halt, and put the configuration after every
transition applied in front of the history. -/
def Execution.record (p : Program) :
    Nat → Execution → List Configuration → Execution × List Configuration
  | 0, e, history => (e, history)
  | budget + 1, e, history =>
    let e := e.step p
    match e.halt with
    | none => record p budget e (e.configuration :: history)
    | some .accept => (e, e.configuration :: history)
    | some (.reject _) => (e, history)

namespace Simulator

/-- The configurations recorded, in order. -/
def trace (s : Simulator) : List Configuration := s.history.reverse

/-- Run on an input. An invalid input changes nothing. -/
def run (s : Simulator) (input : String) : Except MachineError (RunReport × Simulator) :=
  (Execution.start s.machine.program input).map fun first =>
    let (e, history) :=
      first.record s.machine.program s.config.maxSteps [first.configuration]
    let report := {
      input
      outcome := e.outcome
      steps := e.steps
      finalState := e.state
      tapes := e.tapes.map Tape.snapshot
      trace := history.reverse }
    (report, { s with machine := { s.machine with execution := some e }, history })

/-- Record the configuration of a machine that has not halted, and take one step. -/
def step (s : Simulator) : Step × Simulator :=
  let recording := s.machine.execution.isSome && !s.machine.isHalted
  let history := if recording then s.machine.configuration :: s.history else s.history
  let (result, machine) := s.machine.step
  (result, { s with machine, history })

/-- The current configuration, and under it the first tape. -/
def renderCurrent (s : Simulator) : String :=
  s!"{s.machine.configuration.render}\n{s.machine.visualize}"

end Simulator

end TapeMachine
