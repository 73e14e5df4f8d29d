import TapeMachine.Specification.Program

/-!
# The catalog of built-in machines

Three machines come with the library, each under a name and as the text of its specification:
`evenZeros` accepts the words with an even number of zeros, `binaryPalindrome` accepts the
palindromes, and `zerosThenOnes` accepts as many zeros followed by as many ones. The programs are
read from these texts.
-/

namespace TapeMachine.Catalog

/-- A built-in machine: its name and the lines of its specification. -/
structure Entry where
  name : String
  lines : List String
deriving DecidableEq, Inhabited

/-- The specification, with a line feed at the end of every line. -/
def Entry.text (entry : Entry) : String := String.join (entry.lines.map fun line => line ++ "\n")

/-- Accepts the binary words with an even number of zeros. -/
def evenZeros : Entry where
  name := "even-zeros"
  lines := [
    "# Accepts binary strings containing an even number of 0s.",
    "# q0: even count so far, q1: odd count so far.",
    "",
    "# States",
    "q0 q1 qa",
    "# Input alphabet",
    "0 1",
    "# Tape alphabet",
    "0 1 _",
    "# Initial state",
    "q0",
    "# Blank",
    "_",
    "# Accepting states",
    "qa",
    "",
    "# Transitions: current read next write direction",
    "q0 0 q1 0 R",
    "q0 1 q0 1 R",
    "q1 0 q0 0 R",
    "q1 1 q1 1 R",
    "q0 _ qa _ R"]

/-- Accepts the binary palindromes. -/
def binaryPalindrome : Entry where
  name := "binary-palindrome"
  lines := [
    "# Accepts binary palindromes.",
    "# Erases the leftmost symbol, runs to the right end and checks that the",
    "# rightmost symbol matches, erases it, then returns to the left end.",
    "",
    "q0 q1 q2 q3 q4 q5 qa",
    "0 1",
    "0 1 _",
    "q0",
    "_",
    "qa",
    "",
    "# Pick up the leftmost symbol",
    "q0 0 q1 _ R",
    "q0 1 q2 _ R",
    "q0 _ qa _ R",
    "",
    "# Carry a 0 to the right end",
    "q1 0 q1 0 R",
    "q1 1 q1 1 R",
    "q1 _ q3 _ L",
    "",
    "# Carry a 1 to the right end",
    "q2 0 q2 0 R",
    "q2 1 q2 1 R",
    "q2 _ q4 _ L",
    "",
    "# Match the rightmost symbol",
    "q3 0 q5 _ L",
    "q3 _ qa _ R",
    "q4 1 q5 _ L",
    "q4 _ qa _ R",
    "",
    "# Return to the left end",
    "q5 0 q5 0 L",
    "q5 1 q5 1 L",
    "q5 _ q0 _ R"]

/-- Accepts the words of some number of zeros followed by the same number of ones. -/
def zerosThenOnes : Entry where
  name := "zeros-then-ones"
  lines := [
    "# Accepts 0^n 1^n for n >= 0.",
    "# Marks one 0 as X and the matching 1 as Y per round, then checks that",
    "# only Ys remain.",
    "",
    "q0 q1 q2 q3 qa",
    "0 1",
    "0 1 X Y _",
    "q0",
    "_",
    "qa",
    "",
    "q0 0 q1 X R",
    "q0 Y q3 Y R",
    "q0 _ qa _ R",
    "",
    "q1 0 q1 0 R",
    "q1 Y q1 Y R",
    "q1 1 q2 Y L",
    "",
    "q2 0 q2 0 L",
    "q2 Y q2 Y L",
    "q2 X q0 X R",
    "",
    "q3 Y q3 Y R",
    "q3 _ qa _ R"]

/-- A built-in machine with the program that its specification denotes. -/
structure Item where
  entry : Entry
  program : Program
deriving DecidableEq, Inhabited

/-- The item of an entry, if its specification denotes a program. -/
def Entry.item? (entry : Entry) : Option Item :=
  match Specification.program entry.text with
  | .ok program => some { entry, program }
  | .error _ => none

/-- The entries in the order of the catalog. -/
def entries : List Entry := [evenZeros, binaryPalindrome, zerosThenOnes]

/-- The machines of the catalog. -/
def items : List Item := entries.filterMap Entry.item?

/-- The number of machines. -/
def count : Nat := items.length

/-- The names of the machines. -/
def names : List String := items.map fun item => item.entry.name

/-- The machine of this name. -/
def find? (name : String) : Option Item := items.find? fun item => item.entry.name == name

/-- The machine at this index. -/
def itemAt (index : Nat) : Except MachineError Item :=
  match items[index]? with
  | some item => .ok item
  | none => .error (.validation (.catalogIndex index))

/-- The program at this index. -/
def programAt (index : Nat) : Except MachineError Program := (itemAt index).map Item.program

/-- The program of this name. -/
def programNamed (name : String) : Except MachineError Program :=
  (find? name).elim (.error (.validation (.catalogName name names))) fun item => .ok item.program

/-- The specification of this name. -/
def textNamed (name : String) : Except MachineError String :=
  (find? name).elim (.error (.validation (.catalogText name))) fun item => .ok item.entry.text

/-- The size of a machine of the catalog. -/
structure Info where
  index : Nat
  name : String
  stateCount : Nat
  transitionCount : Nat
deriving DecidableEq, Inhabited

/-- The size of the machine at this index. -/
def info (index : Nat) : Except MachineError Info :=
  (itemAt index).map fun item => {
    index
    name := item.entry.name
    stateCount := item.program.states.size
    transitionCount := item.program.transitions.size }

end TapeMachine.Catalog
