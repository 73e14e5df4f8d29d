import TapeMachine.Catalog
import TapeMachine.Simulator

/-!
# The log

What a diagnostic log says about loading a specification and running a machine. The events are
computed from the texts, programs and executions themselves and have no effect on them. Each event
has a level; a log shows the events up to its own level.
-/

namespace TapeMachine

/-- How important an event is. -/
inductive Log.Level where
  | warn
  | info
  | debug
deriving DecidableEq, Inhabited

namespace Log.Level

/-- The level in capitals. -/
def label : Level → String
  | warn => "WARN"
  | info => "INFO"
  | debug => "DEBUG"

/-- The more detailed a level is, the higher its rank. -/
def rank : Level → Nat
  | warn => 0
  | info => 1
  | debug => 2

/-- The level of this name. -/
def ofName? : String → Option Level
  | "warn" => some warn
  | "info" => some info
  | "debug" => some debug
  | _ => none

end Log.Level

/-- Something worth telling about loading a specification or running a machine. -/
inductive Log.Event where
  /-- The transition on a row was read. -/
  | parsed (row : Nat) (transition : Transition)
  /-- There is a finding about a program. -/
  | lint (warning : Warning)
  /-- A file was loaded. -/
  | loaded (path : String) (states transitions : Nat)
  /-- An input was refused. -/
  | invalidInput (input symbol : String)
  /-- An input was loaded. -/
  | initialized (input : String) (tapes : Nat)
  /-- A transition was applied. -/
  | applied (step : Nat) (transition : Transition)
  /-- No transition fires. -/
  | rejecting (state : String) (symbols : List Symbol) (step : Nat)
  /-- A run has ended. -/
  | finished (input : String) (outcome : Outcome) (steps : Nat)
deriving DecidableEq, Inhabited

namespace Log

/-- The level at which an event is shown. -/
def Event.level : Event → Level
  | lint _ | invalidInput .. => .warn
  | loaded .. | finished .. => .info
  | parsed .. | initialized .. | applied .. | rejecting .. => .debug

/-- The part of the program that an event comes from. -/
def Event.source : Event → String
  | parsed .. | lint _ => "parser"
  | loaded .. => "loader"
  | invalidInput .. | initialized .. | applied .. | rejecting .. => "machine"
  | finished .. => "simulator"

/-- The event in words, followed by its particulars. -/
def Event.message : Event → String
  | parsed row t => s!"parsed transition line={row} transition={t.render}"
  | lint warning => s!"machine definition lint warning={warning.message}"
  | loaded path states transitions =>
    s!"loaded machine path={path} states={states} transitions={transitions}"
  | invalidInput input symbol =>
    s!"input contains a symbol outside the input alphabet input={Text.quoted input} symbol={symbol}"
  | initialized input tapes => s!"machine initialized input={Text.quoted input} tapes={tapes}"
  | applied step t => s!"applied transition step={step} transition={t.render}"
  | rejecting state symbols step =>
    let shown := Text.quotedList symbols
    s!"no transition, rejecting state={state} symbols={shown} step={step}"
  | finished input outcome steps =>
    s!"run finished input={Text.quoted input} outcome={outcome.render} steps={steps}"

/-- The event on a line of its own. -/
def Event.render (e : Event) : String :=
  s!"{e.level.label} tmsim::{e.source}: {e.message}\n"

/-- The lines of a log at this level; without a level nothing is logged. -/
def render (level : Option Level) (events : List Event) : String :=
  match level with
  | none => ""
  | some level =>
    String.join ((events.filter fun e => e.level.rank ≤ level.rank).map Event.render)

/-! ## Loading -/

/-- The events of adding the transitions on these lines, up to the first fault. -/
def ofLines (p : Program) : List Specification.Line → List Event
  | [] => []
  | line :: rest =>
    match line.transition with
    | .error _ => []
    | .ok t =>
      .parsed line.row t ::
        match Specification.addLine p line with
        | .error _ => []
        | .ok p => ofLines p rest

/-- The events of reading a specification. -/
def ofText (text : String) : List Event :=
  if text.utf8ByteSize > maxSpecificationSize then []
  else
    let lines := Specification.lines text
    let reading :=
      match Specification.declare lines with
      | .error _ => []
      | .ok p => ofLines p (lines.drop 6)
    match Specification.program text with
    | .error _ => reading
    | .ok p => reading ++ p.lint.map .lint

/-- The events of reading the whole catalog. -/
def ofCatalog : List Event := Catalog.entries.flatMap fun entry => ofText entry.text

/-- The events of loading the specification in a file. -/
def ofFile (path text : String) : List Event :=
  match Specification.program text with
  | .error _ => ofText text
  | .ok p => ofText text ++ [.loaded path p.states.size p.transitions.size]

/-! ## Running -/

/-- The events of one step. -/
def ofStep (p : Program) (e : Execution) : List Event :=
  match e.halt, e.transition? p with
  | some _, _ => []
  | none, some t => [.applied (e.steps + 1) t]
  | none, none => [.rejecting e.state e.symbols e.steps]

/-- The events of at most this many steps, in front of the events given. -/
def ofSteps (p : Program) : Nat → Execution → List Event → List Event
  | 0, _, earlier => earlier.reverse
  | budget + 1, e, earlier =>
    if e.halt.isSome then earlier.reverse
    else ofSteps p budget (e.step p) ((ofStep p e).reverse ++ earlier)

/-- The events of a run of a program on an input. -/
def ofRun (p : Program) (budget : Nat) (input : String) : List Event :=
  match Execution.start p input with
  | .error (.invalidInput input symbol) => [.invalidInput input symbol]
  | .error _ => []
  | .ok e =>
    let last := e.run p budget
    .initialized input e.tapes.length :: ofSteps p budget e []
      ++ [.finished input last.outcome last.steps]

end Log

end TapeMachine
