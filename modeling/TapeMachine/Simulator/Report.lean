import TapeMachine.Machine.Configuration

/-!
# Run reports

A report holds what is known about one finished run: the input, the verdict, the number of
transitions applied, the last state, the tapes, and the trace of configurations.
-/

namespace TapeMachine

/-- How much of a trace is printed. -/
inductive TraceMode where
  /-- The first and the last configuration. -/
  | summary
  /-- Every configuration. -/
  | full
deriving DecidableEq, Inhabited

/-- The name of the mode in encoded values. -/
def TraceMode.name : TraceMode → String
  | summary => "Summary"
  | full => "Full"

/-- What is known about a finished run. -/
@[ext]
structure RunReport where
  input : String
  outcome : Outcome
  steps : Nat
  finalState : String
  tapes : List TapeSnapshot
  trace : List Configuration
deriving DecidableEq, Inhabited

namespace RunReport

/-- A configuration of a trace on a line of its own. -/
def traceLine (label : String) (c : Configuration) : String := s!"Step {label}: {c.render}\n"

/-- The lines of a trace that the mode asks for. The last configuration is left out of a summary if
it is also the first. -/
def traceLines (trace : List Configuration) : TraceMode → List String
  | .full => trace.zipIdx.map fun (c, i) => traceLine (toString i) c
  | .summary =>
    match trace with
    | [] => []
    | first :: rest =>
      traceLine "0 (initial)" first ::
        (rest.getLast?.map (traceLine s!"{rest.length} (final)")).toList

/-- The trace under its heading. -/
def renderTrace (r : RunReport) (mode : TraceMode) : String :=
  String.join ("=== Execution Trace ===\n" :: traceLines r.trace mode)

/-- The lines that show the tapes. Tapes are numbered unless there is exactly one. -/
def tapeLines : List TapeSnapshot → List String
  | [tape] => [s!"Final tape: [{tape.content}]\n"]
  | tapes =>
    "Final tapes:\n" :: (tapes.zipIdx 1).map fun (tape, i) => s!"  Tape {i}: [{tape.content}]\n"

/-- Everything but the trace under its heading. -/
def renderResult (r : RunReport) : String :=
  String.join <|
    ["=== Result ===\n", s!"Steps: {r.steps}\n", s!"Result: {r.outcome.render}\n"]
      ++ tapeLines r.tapes ++ [s!"Final state: {r.finalState}\n"]

end RunReport

end TapeMachine
