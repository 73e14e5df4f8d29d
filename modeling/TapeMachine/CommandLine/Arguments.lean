import TapeMachine.Simulator
import TapeMachine.Text.Plain

/-!
# Arguments of the command line

The arguments are read from left to right, and the first that asks for help or the version, or
that is not allowed, decides. Options may stand anywhere before a double dash; each may occur once.
The first argument that is no option names the specification, and the others are inputs, of which
there must be at least one. The budget of steps may also come from the environment, which is looked
at only if no argument gives it.
-/

namespace TapeMachine.CommandLine

/-- What a run was asked to do. -/
structure Options where
  /-- Print every configuration. -/
  trace : Bool := false
  /-- Take the specification for the name of a machine of the catalog. -/
  builtin : Bool := false
  /-- Print the reports as JSON. -/
  json : Bool := false
  /-- The budget of steps for each input. -/
  maxSteps : Nat := defaultMaxSteps
  /-- The file of the specification, or a name of the catalog. -/
  specification : String
  /-- The inputs. -/
  inputs : List String
deriving DecidableEq, Inhabited

/-- What the arguments ask for. -/
inductive Request where
  | run (options : Options)
  | help
  | version
  /-- The arguments are not allowed. -/
  | misuse
deriving DecidableEq, Inhabited

/-- The options and arguments seen so far, the latest argument first. -/
structure Seen where
  trace : Bool := false
  builtin : Bool := false
  json : Bool := false
  maxSteps : Option Nat := none
  arguments : List String := []
deriving DecidableEq, Inhabited

/-- A count below 2^64 in decimal digits; a plus sign may stand in front of them. -/
def count? (token : String) : Option Nat :=
  let digits :=
    match token.toList with
    | '+' :: digits => digits
    | digits => digits
  if digits.isEmpty || !digits.all Char.isDigit then none
  else
    let n := digits.foldl (fun n c => 10 * n + (c.toNat - '0'.toNat)) 0
    if n < UInt64.size then some n else none

/-- Take in an option without a value. Nothing comes of an option that was seen before. -/
def Seen.flag? (seen : Seen) : String → Option Seen
  | "trace" => if seen.trace then none else some { seen with trace := true }
  | "builtin" => if seen.builtin then none else some { seen with builtin := true }
  | "json" => if seen.json then none else some { seen with json := true }
  | _ => none

/-- Take in the budget of steps. -/
def Seen.budget? (seen : Seen) (value : String) : Option Seen :=
  match seen.maxSteps, count? value with
  | none, some n => some { seen with maxSteps := some n }
  | _, _ => none

/-- Take in an argument that is no option. -/
def Seen.argument (seen : Seen) (value : String) : Seen :=
  { seen with arguments := value :: seen.arguments }

/-- What is asked for once all arguments are seen. -/
def Seen.finish (seen : Seen) (environment : Option String) : Request :=
  let budget :=
    match seen.maxSteps, environment with
    | some n, _ => some n
    | none, some value => count? value
    | none, none => some defaultMaxSteps
  match budget, seen.arguments.reverse with
  | some maxSteps, specification :: input :: inputs =>
    .run {
      trace := seen.trace, builtin := seen.builtin, json := seen.json
      maxSteps, specification, inputs := input :: inputs }
  | _, _ => .misuse

/-- The options that a cluster of letters stands for, up to one that decides by itself. -/
def Seen.letters (seen : Seen) : List Char → Except Request Seen
  | [] => .ok seen
  | 't' :: rest =>
    match seen.flag? "trace" with
    | some seen => seen.letters rest
    | none => .error .misuse
  | 'h' :: _ => .error .help
  | 'V' :: _ => .error .version
  | _ :: _ => .error .misuse

/-- The value behind the name of the option that takes one, if it is joined to it by a sign of
equality. -/
def joinedBudget? (argument : String) : Option String :=
  let option := "--max-steps=".toList
  if option.isPrefixOf argument.toList then
    some (String.ofList (argument.toList.drop option.length))
  else none

/-- Whether an argument looks like an option. A single dash does not. -/
def isOption (argument : String) : Bool :=
  match argument.toList with
  | '-' :: _ :: _ => true
  | _ => false

/-- Read the arguments that are left. -/
def Seen.readAll (seen : Seen) (environment : Option String) : List String → Request
  | [] => seen.finish environment
  | "--" :: rest => (rest.foldl Seen.argument seen).finish environment
  | "--help" :: _ => .help
  | "--version" :: _ => .version
  | "--max-steps" :: rest =>
    match rest with
    | [] => .misuse
    | value :: rest =>
      if isOption value then .misuse
      else
        match seen.budget? value with
        | some seen => seen.readAll environment rest
        | none => .misuse
  | argument :: rest =>
    match joinedBudget? argument, argument.toList with
    | some value, _ =>
      match seen.budget? value with
      | some seen => seen.readAll environment rest
      | none => .misuse
    | none, '-' :: '-' :: name =>
      match seen.flag? (String.ofList name) with
      | some seen => seen.readAll environment rest
      | none => .misuse
    | none, '-' :: letter :: letters =>
      match seen.letters (letter :: letters) with
      | .ok seen => seen.readAll environment rest
      | .error request => request
    | none, _ => (seen.argument argument).readAll environment rest

/-- What the arguments ask for, given the budget of steps in the environment. -/
def Request.ofArguments (environment : Option String) (arguments : List String) : Request :=
  ({} : Seen).readAll environment arguments

/-! ## Texts

The help is written with emphasis for a terminal, and printed as plain text. The budget that the
environment gives is shown as it is, so it may hold control sequences of its own; one that does not
end hides what follows up to the next emphasis.
-/

/-- A name that is typed as it stands. -/
def literal (name : String) : String := s!"\x1b[1m{name}\x1b[0m"

/-- The heading of a part of the help. -/
def title (name : String) : String := s!"\x1b[1m\x1b[4m{name}:\x1b[0m"

/-- So many blanks. -/
def blanks (n : Nat) : String := String.ofList (List.replicate n ' ')

/-- The column at which the descriptions of options start. -/
def descriptionColumn : Nat := 31

/-- A description of several lines, all of which start at the same column. -/
def hanging (description : String) : String :=
  String.join <| description.toList.map fun c =>
    if c == '\n' then "\n" ++ blanks descriptionColumn else String.singleton c

/-- An option as the help lists it. -/
structure OptionHelp where
  /-- The letter that may stand for the option. -/
  letter : Option Char := none
  name : String
  /-- What the value of the option is called, after a blank. -/
  value : String := ""
  description : String
deriving DecidableEq, Inhabited

/-- The line of an option, with its description at the common column. -/
def OptionHelp.render (o : OptionHelp) : String :=
  let name := "--" ++ o.name
  let letter :=
    match o.letter with
    | some letter => literal (String.ofList ['-', letter]) ++ ", "
    | none => blanks 4
  let gap := blanks (descriptionColumn - (6 + name.length + o.value.length))
  String.join ["  ", letter, literal name, o.value, gap, hanging o.description, "\n"]

/-- How the command is used. -/
def usage : String :=
  let heading := title "Usage"
  let command := literal "tmsim"
  s!"{heading} {command} [OPTIONS] <SPEC_FILE> <INPUTS>...\n"

/-- The arguments of the command and what they mean. -/
def argumentsHelp : String := String.join [
  title "Arguments", "\n",
  "  <SPEC_FILE>  The machine specification file (a built-in machine name with --builtin)\n",
  "  <INPUTS>...  Input strings, each run separately from a fresh tape. An input with a symbol ",
  "outside the input alphabet is an error and the remaining inputs are not run\n"]

/-- The options of the command, with the budget of steps that the environment gives. -/
def optionList (budget : String) : List OptionHelp := [
  { letter := some 't', name := "trace"
    description := "Print every configuration of the execution trace" },
  { name := "max-steps", value := " <MAX_STEPS>"
    description := String.join [
      "Step budget for each input ",
      s!"[env: TMSIM_MAX_STEPS={budget}] [default: {defaultMaxSteps}]"] },
  { name := "builtin"
    description := "Treat the specification argument as the name of a built-in machine" },
  { name := "json", description := "Print the run reports as JSON instead of text" },
  { letter := some 'h', name := "help", description := "Print help" },
  { letter := some 'V', name := "version", description := "Print version" }]

/-- The options of the command and what they do. -/
def optionsHelp (budget : String) : String :=
  title "Options" ++ "\n" ++ String.join ((optionList budget).map OptionHelp.render)

/-- The text that answers arguments that are not allowed. -/
def usageText : String := Text.plain usage

/-- The name and version of the command. -/
def versionText : String := "tmsim-cli 0.0.1\n"

/-- What the command does, with the budget of steps that the environment gives. -/
def helpText (environment : Option String) : String :=
  Text.plain <| "\n".intercalate [
    "Command-line interface for the tmsim Turing machine simulator\n",
    usage, argumentsHelp, optionsHelp (environment.getD "")]

end TapeMachine.CommandLine
