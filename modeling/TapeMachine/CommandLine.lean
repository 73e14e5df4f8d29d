import TapeMachine.CommandLine.Arguments
import TapeMachine.Json.Codec
import TapeMachine.Log

/-!
# The command line

The command runs one machine on one input after another. In text mode it prints the machine and a
block for every run; with JSON output it prints the list of all reports at the end. An error ends
the command: what was printed before stays, and reports that were only collected are lost.
-/

namespace TapeMachine.CommandLine

/-- What a command leaves behind. -/
structure Transcript where
  exitCode : Nat := 0
  output : String := ""
  errors : String := ""
deriving DecidableEq, Inhabited

/-- What reading the file of a specification gives. -/
abbrev FileContents := Except ReadFailure String

/-- The text that the bytes of a file encode. -/
def textOfBytes (bytes : ByteArray) : FileContents :=
  match String.fromUTF8? bytes with
  | some text => .ok text
  | none => .error .notText

/-- The program that the specification in a file denotes. -/
def loadFile (path : String) (contents : FileContents) : Except MachineError Program :=
  match contents with
  | .error failure => .error (.file (.unreadable path failure))
  | .ok text => Specification.program text

/-- The program that the options name. -/
def Options.program (o : Options) (contents : FileContents) : Except MachineError Program :=
  if o.builtin then Catalog.programNamed o.specification else loadFile o.specification contents

/-- How much of a trace the options ask for. -/
def Options.traceMode (o : Options) : TraceMode := if o.trace then .full else .summary

/-- The simulator that the options describe. -/
def Options.simulator (o : Options) (contents : FileContents) : Except MachineError Simulator := do
  let machine ← Machine.ofProgram (← o.program contents)
  return { machine, config := { maxSteps := o.maxSteps, trace := o.traceMode } }

/-- Run the inputs one after another with one simulator, up to the first that is refused. -/
def runAll (s : Simulator) : List String → List RunReport × Option MachineError
  | [] => ([], none)
  | input :: inputs =>
    match s.run input with
    | .error e => ([], some e)
    | .ok (report, s) =>
      let (reports, failure) := runAll s inputs
      (report :: reports, failure)

/-! ## Output -/

/-- The rule above and below the block of a run. -/
def rule : String := String.ofList (List.replicate 49 '=') ++ "\n"

/-- The block of one run. -/
def block (mode : TraceMode) (r : RunReport) : String :=
  String.join [
    "\n", rule,
    "Running with input: \"", r.input, "\"\n\n",
    r.renderTrace mode, "\n",
    r.renderResult, rule]

/-- The beginning of the output in text mode. -/
def heading (p : Program) : String := "Machine loaded successfully.\n\n" ++ p.render

/-- The list of reports as JSON text. -/
def reportsJson (reports : List RunReport) : String := (Json.Codec.encode reports).pretty ++ "\n"

/-- The line that tells an error. -/
def errorLine (e : MachineError) : String := s!"Error: {e.message}\n"

/-- What a command that ends with this error leaves behind. -/
def Transcript.failure (output : String) (e : MachineError) : Transcript where
  exitCode := 1
  output := output
  errors := errorLine e

/-- The outcome of a command whose simulator is ready. -/
def Options.transcript (o : Options) (s : Simulator) : Transcript :=
  let (reports, failure) := runAll s o.inputs
  if o.json then
    match failure with
    | none => { output := reportsJson reports }
    | some e => .failure "" e
  else
    let output := heading s.machine.program ++ String.join (reports.map (block o.traceMode))
    match failure with
    | none => { output }
    | some e => .failure output e

/-! ## The log -/

/-- The events of loading the program that the options name. -/
def Options.loadEvents (o : Options) (contents : FileContents) : List Log.Event :=
  if o.builtin then Log.ofCatalog
  else
    match contents with
    | .error _ => []
    | .ok text => Log.ofFile o.specification text

/-- The events of running the inputs, up to the first that is refused. -/
def Options.runEvents (o : Options) (p : Program) : List String → List Log.Event
  | [] => []
  | input :: inputs =>
    let events := Log.ofRun p o.maxSteps input
    if p.isValidInput input then events ++ o.runEvents p inputs else events

/-- All events of a command. -/
def Options.events (o : Options) (contents : FileContents) : List Log.Event :=
  o.loadEvents contents ++
    match o.simulator contents with
    | .error _ => []
    | .ok s => o.runEvents s.machine.program o.inputs

/-! ## Commands -/

/-- Run as the options say, with a log at this level in front of the errors. -/
def Options.run (o : Options) (level : Option Log.Level) (contents : FileContents) : Transcript :=
  let transcript :=
    match o.simulator contents with
    | .error e => Transcript.failure "" e
    | .ok s => o.transcript s
  let log :=
    match level with
    | none => ""
    | some _ => Log.render level (o.events contents)
  { transcript with errors := log ++ transcript.errors }

/-- Do what is asked for, with the contents of the file of the specification at hand. -/
def Request.perform (request : Request) (environment : Option String) (level : Option Log.Level)
    (contents : FileContents) : Transcript :=
  match request with
  | .run options => options.run level contents
  | .help => { output := helpText environment }
  | .version => { output := versionText }
  | .misuse => { exitCode := 1, errors := usageText }

end TapeMachine.CommandLine
