import TapeMachine.Json.Parser
import TapeMachine.Machine.Configuration
import TapeMachine.Simulator.Report
import TapeMachine.State

/-!
# The written form of runs and machines

Reports, configurations, transitions and the like have a JSON form. A record is an object with one
member for each field, and is also read from the array of its fields in order; members with other
names are passed over, but a field must occur once and only once. A value of an enumeration is its
name. Counts are below 2^64, and positions are at least -2^63 and below 2^63.
-/

namespace TapeMachine

namespace Json

/-- A type whose values have a JSON form. -/
class Codec (α : Type) where
  encode : α → Json
  decode : Json → Option α

open Codec

/-- The value that a text is the JSON form of. -/
def decodeText (α : Type) [Codec α] (text : String) : Option α := (parse text).bind decode

/-! ## Parts of records -/

instance : Codec String where
  encode := text
  decode
    | .string s => s
    | _ => none

instance : Codec Bool where
  encode := .bool
  decode
    | .bool b => some b
    | _ => none

/-- Counts are below 2^64. -/
instance : Codec Nat where
  encode := nat
  decode
    | .int n => if 0 ≤ n ∧ n < UInt64.size then some n.toNat else none
    | _ => none

/-- Positions are at least -2^63 and below 2^63. -/
instance : Codec Int where
  encode := .int
  decode
    | .int n => if Int64.minValue.toInt ≤ n ∧ n ≤ Int64.maxValue.toInt then some n else none
    | _ => none

instance {α : Type} [Codec α] : Codec (List α) where
  encode l := .array (l.map encode)
  decode
    | .array items => items.mapM decode
    | _ => none

/-- The value of an enumeration with this name. A name is a string, or the only name of an object
whose value is null. -/
def variant? {α : Type} (values : List α) (name : α → String) : Json → Option α
  | .string (some s) => values.find? fun value => name value == s
  | .object [(some s, .null)] => values.find? fun value => name value == s
  | _ => none

/-- The value of the only member with this name. -/
def field? (members : List (Option String × Json)) (name : String) : Option Json :=
  match members.filter fun member => member.1 == some name with
  | [(_, value)] => some value
  | _ => none

/-- The values of the fields with these names, in this order. -/
def fields? (names : List String) : Json → Option (List Json)
  | .array items => if items.length = names.length then some items else none
  | .object members =>
    if members.all fun member => member.1.isSome then names.mapM (field? members) else none
  | _ => none

/-! ## Enumerations -/

instance : Codec Direction where
  encode d := text d.name
  decode := variant? [.left, .right, .stay] Direction.name

instance : Codec Outcome where
  encode o := text o.name
  decode := variant? [.accepted, .rejected, .stepLimitReached] Outcome.name

instance : Codec TraceMode where
  encode m := text m.name
  decode := variant? [.summary, .full] TraceMode.name

/-! ## Records -/

instance : Codec Rejection where
  encode r := record [("state", encode r.state), ("symbols", encode r.symbols)]
  decode j := do
    let [state, symbols] ← fields? ["state", "symbols"] j | none
    return { state := ← decode state, symbols := ← decode symbols }

instance : Codec State where
  encode s := record [
    ("name", encode s.name), ("initial", encode s.initial), ("accepting", encode s.accepting)]
  decode j := do
    let [name, initial, accepting] ← fields? ["name", "initial", "accepting"] j | none
    return {
      name := ← decode name, initial := ← decode initial, accepting := ← decode accepting }

instance : Codec Transition.Key where
  encode k := record [("state", encode k.state), ("symbols", encode k.symbols)]
  decode j := do
    let [state, symbols] ← fields? ["state", "symbols"] j | none
    return { state := ← decode state, symbols := ← decode symbols }

instance : Codec Transition where
  encode t := record [
    ("state", encode t.state), ("read", encode t.read), ("next_state", encode t.nextState),
    ("write", encode t.write), ("directions", encode t.directions)]
  decode j := do
    let [state, read, nextState, write, directions] ←
      fields? ["state", "read", "next_state", "write", "directions"] j | none
    return {
      state := ← decode state, read := ← decode read, nextState := ← decode nextState
      write := ← decode write, directions := ← decode directions }

instance : Codec TapeSnapshot where
  encode s := record [
    ("cells", encode s.cells), ("start", encode s.start), ("head", encode s.head),
    ("blank", encode s.blank)]
  decode j := do
    let [cells, start, head, blank] ← fields? ["cells", "start", "head", "blank"] j | none
    return {
      cells := ← decode cells, start := ← decode start, head := ← decode head
      blank := ← decode blank }

instance : Codec Configuration where
  encode c := record [
    ("state", encode c.state), ("step", encode c.step), ("tapes", encode c.tapes)]
  decode j := do
    let [state, step, tapes] ← fields? ["state", "step", "tapes"] j | none
    return { state := ← decode state, step := ← decode step, tapes := ← decode tapes }

instance : Codec RunReport where
  encode r := record [
    ("input", encode r.input), ("outcome", encode r.outcome), ("steps", encode r.steps),
    ("final_state", encode r.finalState), ("tapes", encode r.tapes), ("trace", encode r.trace)]
  decode j := do
    let [input, outcome, steps, finalState, tapes, trace] ←
      fields? ["input", "outcome", "steps", "final_state", "tapes", "trace"] j | none
    return {
      input := ← decode input, outcome := ← decode outcome, steps := ← decode steps
      finalState := ← decode finalState, tapes := ← decode tapes, trace := ← decode trace }

end Json

/-- The report as JSON text on indented lines. -/
def RunReport.toJson (r : RunReport) : String := (Json.Codec.encode r).pretty

end TapeMachine
