import TapeMachine.Alphabet

/-!
# Transitions

A transition fires in one state on one tuple of symbols, the symbols under the heads of all
tapes. It writes one symbol on every tape, moves every head, and enters the next state. The pair of
state and symbols is its key; keys are compared by the state first and then symbol by symbol, and
a tuple comes before every longer tuple that it begins.
-/

namespace TapeMachine

/-- A move of a head by at most one cell. -/
inductive Direction where
  | left
  | right
  | stay
deriving DecidableEq, Inhabited

namespace Direction

/-- The letter that stands for the move in a specification. -/
def letter : Direction → String
  | left => "L"
  | right => "R"
  | stay => "S"

/-- The move that a token names. -/
def ofToken? : String → Option Direction
  | "L" => some left
  | "R" => some right
  | "S" => some stay
  | _ => none

/-- The name of the move in encoded values. -/
def name : Direction → String
  | left => "Left"
  | right => "Right"
  | stay => "Stay"

/-- A letter names the move that it was written for, and no other token does. -/
theorem ofToken?_eq_some_iff {token : String} {d : Direction} :
    ofToken? token = some d ↔ token = d.letter := by
  constructor
  · intro h
    unfold ofToken? at h
    split at h <;> simp_all [letter] <;> subst h <;> rfl
  · rintro rfl
    cases d <;> rfl

end Direction

/-- A rule: in `state`, on the symbols `read`, write `write`, move the heads by `directions` and
enter `nextState`. The tuples have one entry for each tape. -/
@[ext]
structure Transition where
  state : String
  read : List Symbol
  nextState : String
  write : List Symbol
  directions : List Direction
deriving DecidableEq, Inhabited

namespace Transition

/-- What a transition fires on: a state and one symbol for each tape. -/
@[ext]
structure Key where
  state : String
  symbols : List Symbol
deriving DecidableEq, Inhabited

instance : Ord Key := ⟨compareLex (compareOn Key.state) (compareOn Key.symbols)⟩

instance : Std.TransOrd Key :=
  inferInstanceAs (Std.TransCmp (compareLex (compareOn Key.state) (compareOn Key.symbols)))

instance : Std.LawfulEqOrd Key where
  eq_of_compare {a b} h := by
    have h : compareLex (compareOn Key.state) (compareOn Key.symbols) a b = .eq := h
    rw [compareLex_eq_eq] at h
    exact Key.ext (Std.LawfulEqOrd.eq_of_compare h.1) (Std.LawfulEqOrd.eq_of_compare h.2)

/-- A transition of a machine with one tape. -/
def single (state : String) (read : Symbol) (nextState : String) (write : Symbol)
    (direction : Direction) : Transition :=
  ⟨state, [read], nextState, [write], [direction]⟩

/-- The state and the symbols that the transition fires on. -/
def key (t : Transition) : Key := ⟨t.state, t.read⟩

/-- The number of tapes that the transition addresses, if its three tuples agree on it. -/
def tapeCount? (t : Transition) : Option Nat :=
  if t.write.length = t.read.length ∧ t.directions.length = t.read.length then
    some t.read.length
  else none

/-- Whether more than one symbol is read. -/
def isMultiTape (t : Transition) : Bool := t.read.length > 1

/-- The symbol read on the first tape; empty if there is none. -/
def readSymbol (t : Transition) : Symbol := t.read.headD ""

/-- The symbol written on the first tape; empty if there is none. -/
def writeSymbol (t : Transition) : Symbol := t.write.headD ""

/-- The move of the first head; none counts as staying. -/
def direction (t : Transition) : Direction := t.directions.headD .stay

/-- The transition on one line, with its tuples in brackets when it reads more than one symbol. -/
def render (t : Transition) : String :=
  if t.isMultiTape then
    let read := ",".intercalate t.read
    let write := ",".intercalate t.write
    let moves := ",".intercalate (t.directions.map Direction.letter)
    s!"{t.state} [{read}] -> {t.nextState} [{write}] [{moves}]"
  else
    s!"{t.state} {t.readSymbol} -> {t.nextState} {t.writeSymbol} {t.direction.letter}"

end Transition

end TapeMachine
