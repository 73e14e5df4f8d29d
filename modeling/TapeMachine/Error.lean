import TapeMachine.Program.Violation
import TapeMachine.Specification.Fault
import TapeMachine.Text.Quoted

/-!
# Errors

Everything that can go wrong while a machine is assembled, loaded or run. An error keeps its
cause as data; `MachineError.message` is the only place where it is put into words.
-/

namespace TapeMachine

/-- The greatest size of a specification, in bytes of its encoding. -/
def maxSpecificationSize : Nat := 65536

/-- Why a program, or a request for one, is not valid. -/
inductive ValidationCause where
  /-- The program breaks a rule of the formal model. -/
  | violation (violation : Violation)
  /-- The specification is too large. -/
  | specificationSize (bytes : Nat)
  /-- A specification declares a blank that is not a tape symbol. -/
  | undeclaredBlank (blank : Symbol) (row : Nat)
  /-- A token names no direction. -/
  | unknownDirection (token : String)
  /-- The three tuples of a transition differ in length. -/
  | mismatchedTuples (state : String)
  /-- The catalog has no machine at this index. -/
  | catalogIndex (index : Nat)
  /-- The catalog has no machine of this name. -/
  | catalogName (name : String) (available : List String)
  /-- The catalog has no specification under this name. -/
  | catalogText (name : String)
  /-- Any other reason, in words. -/
  | described (reason : String)
deriving DecidableEq, Inhabited

/-- The reason in one sentence. -/
def ValidationCause.message : ValidationCause → String
  | violation v => v.message
  | specificationSize bytes =>
    s!"Specification is {bytes} bytes, the maximum is {maxSpecificationSize}"
  | undeclaredBlank blank row =>
    s!"Blank symbol '{blank}' on line {row} is not in the tape alphabet Γ"
  | unknownDirection token => s!"Invalid direction '{token}' (must be L or R)"
  | mismatchedTuples state =>
    s!"Transition '{state}' has mismatched read, write and direction counts"
  | catalogIndex index => s!"Program index {index} out of range"
  | catalogName name available =>
    s!"Program '{name}' not found (available: " ++ ", ".intercalate available ++ ")"
  | catalogText name => s!"Program '{name}' not found"
  | described reason => reason

/-- Why a file cannot be read as text. -/
inductive ReadFailure where
  /-- There is no such file. -/
  | missing
  /-- The path names a directory. -/
  | directory
  /-- The bytes of the file do not encode a text. -/
  | notText
  /-- Any other reason, in words. -/
  | described (reason : String)
deriving DecidableEq, Inhabited

/-- The reason in the words of the system. -/
def ReadFailure.message : ReadFailure → String
  | missing => "No such file or directory (os error 2)"
  | directory => "Is a directory (os error 21)"
  | notText => "stream did not contain valid UTF-8"
  | described reason => reason

/-- What went wrong with a file. -/
inductive FileCause where
  /-- The file cannot be read. -/
  | unreadable (path : String) (failure : ReadFailure)
  /-- Any other reason, in words. -/
  | described (reason : String)
deriving DecidableEq, Inhabited

/-- The failure in one sentence. -/
def FileCause.message : FileCause → String
  | unreadable path failure => s!"Failed to read file {path}: {failure.message}"
  | described reason => reason

/-- An error of a machine, of its program, or of the text or file it is loaded from. -/
inductive MachineError where
  /-- An input holds a symbol that is no input symbol. -/
  | invalidInput (input : String) (symbol : Symbol)
  /-- A second transition for the same state and symbols. -/
  | nonDeterministic (state : String) (symbols : List Symbol)
  /-- A transition for another number of tapes than the machine has. -/
  | tapeCountMismatch (expected found : Nat)
  /-- A query for a tape that the machine does not have. -/
  | tapeIndexOutOfRange (index count : Nat)
  /-- A machine was used before an input was loaded. -/
  | notInitialized
  /-- A line of a specification is at fault. -/
  | parse (fault : Specification.Fault)
  /-- The program is not valid. -/
  | validation (cause : ValidationCause)
  /-- A file cannot be used. -/
  | file (cause : FileCause)
deriving DecidableEq, Inhabited

/-- The error in words. -/
def MachineError.message : MachineError → String
  | invalidInput input symbol =>
    s!"Invalid input '{input}': symbol '{symbol}' is not in the input alphabet"
  | nonDeterministic state symbols =>
    s!"Nondeterministic transition: state {state} already has a transition on " ++
      Text.quotedList symbols
  | tapeCountMismatch expected found =>
    s!"Transition has {found} tape entries but the machine has {expected} tapes"
  | tapeIndexOutOfRange index count =>
    s!"Tape index {index} is out of bounds (machine has {count} tapes)"
  | notInitialized => "Machine has not been initialized with an input"
  | parse fault => s!"Specification parsing error: {fault.message}"
  | validation cause => s!"Validation error: {cause.message}"
  | file cause => s!"File error: {cause.message}"

end TapeMachine
