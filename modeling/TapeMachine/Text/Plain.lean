/-!
# Plain text

What is left of a text with emphasis when it goes to a file or a pipe and not to a terminal.
Control sequences are taken out, and so are all control characters but tabs, line ends and page
breaks. A control sequence starts with an escape character; what follows says where it ends. A
sequence that does not end takes everything with it up to the next escape character. Tabs, line ends
and page breaks are kept even inside a sequence, commands and control strings apart, and each starts
a run of text after which the sequence goes on.
-/

namespace TapeMachine.Text

/-- What the next character is part of. -/
inductive Scope where
  /-- The text itself. -/
  | text
  /-- A sequence of which only the escape character was read. -/
  | escape
  /-- An escape sequence of more than one character. -/
  | extended
  /-- A control sequence with parameters, as for colours. -/
  | control
  /-- A command to the operating system, as for the title of a window. -/
  | command
  /-- The beginning of a control string for the device. -/
  | device
  /-- The parameters of a control string for the device. -/
  | deviceParameters
  /-- The marks between the parameters and the contents of a control string for the device. -/
  | deviceMarks
  /-- The contents of a control string, for the device or for a program. -/
  | string
deriving DecidableEq, Inhabited

/-- Whether a control character is kept, even inside a sequence. -/
def isSpacing (c : Char) : Bool := c == '\t' || c == '\n' || c == '\x0c' || c == '\r'

/-- Whether a character of the text itself is kept. -/
def isPlain (c : Char) : Bool := isSpacing c || (0x20 ≤ c.toNat && c != '\x7f')

/-- Whether the code point of a character lies between two bounds. -/
def isBetween (first last : Nat) (c : Char) : Bool := first ≤ c.toNat && c.toNat ≤ last

/-- What the character after an escape character leads into. -/
def Scope.afterEscape (c : Char) : Scope :=
  if c == '[' then .control
  else if c == ']' then .command
  else if c == 'P' then .device
  else if c == 'X' || c == '^' || c == '_' then .string
  else if isBetween 0x20 0x2f c then .extended
  else if isBetween 0x30 0x7e c then .text
  else .escape

/-- What a character leads into in front of the contents of a control string for the device.
Parameters may not follow marks, nor private signs other parameters; the contents are then void but
end in the same way. -/
def Scope.afterDevice (scope : Scope) (c : Char) : Scope :=
  if isBetween 0x20 0x2f c then .deviceMarks
  else if isBetween 0x30 0x3b c && scope != .deviceMarks then .deviceParameters
  else if isBetween 0x3c 0x3f c && scope == .device then .deviceParameters
  else if isBetween 0x30 0x7e c then .string
  else scope

/-- Whether the byte 0x9C, which ends the contents of a control string, occurs in a character. -/
def endsString (c : Char) : Bool := (String.utf8EncodeChar c).contains 0x9c

/-- What follows a character that is not kept. The characters U+0018 and U+001A cancel a sequence
of any kind. -/
def Scope.after (scope : Scope) (c : Char) : Scope :=
  if c == '\x1b' then .escape
  else if c == '\x18' || c == '\x1a' then .text
  else
    match scope with
    | .text => .text
    | .escape => .afterEscape c
    | .extended => if isBetween 0x30 0x7e c then .text else .extended
    | .control => if isBetween 0x40 0x7e c then .text else .control
    | .command => if c == '\x07' then .text else .command
    | .device | .deviceParameters | .deviceMarks => scope.afterDevice c
    | .string => if endsString c then .text else .string

/-- Whether a character is kept, given whether a run of text has started. -/
def Scope.keeps (scope : Scope) (started : Bool) (c : Char) : Bool :=
  match scope with
  | .text => isPlain c
  | .escape | .extended | .control => if started then isPlain c else isSpacing c
  | .command | .device | .deviceParameters | .deviceMarks | .string => started && isPlain c

/-- What goes on after a run of text that holds this character: the sequence that the run
interrupts, unless the character lies outside ASCII. -/
def Scope.resumed (scope : Scope) (c : Char) : Scope := if c.toNat < 0x80 then scope else .text

/-- The characters that are kept, given what the first of them is part of and whether a run of text
has started. -/
def Scope.plain (scope : Scope) (started : Bool) : List Char → List Char
  | [] => []
  | c :: rest =>
    if scope.keeps started c then c :: (scope.resumed c).plain true rest
    else (scope.after c).plain false rest

/-- The text without control sequences. -/
def plain (text : String) : String := String.ofList (Scope.text.plain false text.toList)

end TapeMachine.Text
