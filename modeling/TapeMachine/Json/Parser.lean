import TapeMachine.Json

/-!
# Reading JSON text

`Json.parse` reads a text that is one JSON value with spaces around it. The text of a value is
consumed from its beginning, and what follows the value is handed on; a bound on the depth of the
recursion is taken from the length of the text. A string literal is read as a sequence of
characters and numbered code units, and denotes a text if its surrogates are paired.
-/

namespace TapeMachine.Json

/-- Space, tab, line feed and carriage return may stand between the tokens of a value. -/
def isSpace (c : Char) : Bool := c == ' ' || c == '\t' || c == '\n' || c == '\r'

/-- What follows the spaces. -/
def skipSpace (cs : List Char) : List Char := cs.dropWhile isSpace

/-! ## String literals -/

/-- An element of a string literal: a character, or a code unit by its number. -/
inductive Piece where
  | char (c : Char)
  | unit (n : Nat)
deriving DecidableEq, Inhabited

/-- The value of a hexadecimal digit. -/
def hexDigit? (c : Char) : Option Nat :=
  if '0' ≤ c ∧ c ≤ '9' then some (c.toNat - '0'.toNat)
  else if 'a' ≤ c ∧ c ≤ 'f' then some (c.toNat - 'a'.toNat + 10)
  else if 'A' ≤ c ∧ c ≤ 'F' then some (c.toNat - 'A'.toNat + 10)
  else none

/-- The number with these four hexadecimal digits. -/
def hexUnit? (a b c d : Char) : Option Nat := do
  return (((← hexDigit? a) * 16 + (← hexDigit? b)) * 16 + (← hexDigit? c)) * 16 + (← hexDigit? d)

/-- The character that a backslash and this character stand for. -/
def shortEscape? : Char → Option Char
  | '"' => some '"'
  | '\\' => some '\\'
  | '/' => some '/'
  | 'b' => some '\x08'
  | 'f' => some '\x0c'
  | 'n' => some '\n'
  | 'r' => some '\r'
  | 't' => some '\t'
  | _ => none

/-- The elements of a literal up to its closing quote, and what follows it. -/
def literalPieces : List Char → Option (List Piece × List Char)
  | [] => none
  | '"' :: rest => some ([], rest)
  | '\\' :: 'u' :: a :: b :: c :: d :: rest => do
    let n ← hexUnit? a b c d
    let (pieces, rest) ← literalPieces rest
    return (.unit n :: pieces, rest)
  | '\\' :: e :: rest => do
    let c ← shortEscape? e
    let (pieces, rest) ← literalPieces rest
    return (.char c :: pieces, rest)
  | c :: rest =>
    if c.toNat < 0x20 || c == '\\' then none
    else (literalPieces rest).map fun (pieces, rest) => (.char c :: pieces, rest)

/-- Whether the code unit is the first half of a pair. -/
def isHighSurrogate (n : Nat) : Bool := 0xd800 ≤ n && n < 0xdc00

/-- Whether the code unit is the second half of a pair. -/
def isLowSurrogate (n : Nat) : Bool := 0xdc00 ≤ n && n < 0xe000

/-- The characters that the elements denote, if every surrogate is half of a pair. -/
def textOfPieces : List Piece → Option (List Char)
  | [] => some []
  | .char c :: rest => (textOfPieces rest).map (c :: ·)
  | .unit high :: .unit low :: rest =>
    if isHighSurrogate high then
      if isLowSurrogate low then
        let c := Char.ofNat (0x10000 + (high - 0xd800) * 0x400 + (low - 0xdc00))
        (textOfPieces rest).map (c :: ·)
      else none
    else if isLowSurrogate high then none
    else (textOfPieces (.unit low :: rest)).map (Char.ofNat high :: ·)
  | .unit n :: rest =>
    if isHighSurrogate n || isLowSurrogate n then none
    else (textOfPieces rest).map (Char.ofNat n :: ·)

/-- A string literal after its opening quote: the text that it denotes, and what follows it. -/
def takeLiteral (cs : List Char) : Option (Option String × List Char) :=
  (literalPieces cs).map fun (pieces, rest) => ((textOfPieces pieces).map String.ofList, rest)

/-! ## Numbers -/

/-- The longest run of digits, and what follows it. -/
def takeDigits (cs : List Char) : List Char × List Char := cs.span Char.isDigit

/-- The digits of a whole part, in which a zero comes only alone, and what follows them. -/
def takeWhole (cs : List Char) : Option (List Char × List Char) :=
  match takeDigits cs with
  | ([], _) => none
  | ('0' :: _ :: _, _) => none
  | found => some found

/-- A fraction, if there is one: the point and at least one digit. -/
def takeFraction : List Char → Option (List Char × List Char)
  | '.' :: rest =>
    match takeDigits rest with
    | ([], _) => none
    | (digits, rest) => some ('.' :: digits, rest)
  | rest => some ([], rest)

/-- The sign of an exponent, if there is one. -/
def takeSign : List Char → List Char × List Char
  | '+' :: rest => (['+'], rest)
  | '-' :: rest => (['-'], rest)
  | rest => ([], rest)

/-- An exponent, if there is one: the mark, a sign if there is one, and at least one digit. -/
def takeExponent : List Char → Option (List Char × List Char)
  | [] => some ([], [])
  | c :: rest =>
    if c == 'e' || c == 'E' then
      let (sign, rest) := takeSign rest
      match takeDigits rest with
      | ([], _) => none
      | (digits, rest) => some (c :: sign ++ digits, rest)
    else some ([], c :: rest)

/-- The natural number with these decimal digits. -/
def natOfDigits (digits : List Char) : Nat :=
  digits.foldl (fun n c => 10 * n + (c.toNat - '0'.toNat)) 0

/-- A number without its sign, and what follows it. A negative zero is not an integer. -/
def takeUnsigned (negative : Bool) (cs : List Char) : Option (Json × List Char) := do
  let (whole, rest) ← takeWhole cs
  let (fraction, rest) ← takeFraction rest
  let (exponent, rest) ← takeExponent rest
  let n := natOfDigits whole
  if fraction.isEmpty && exponent.isEmpty && !(negative && n == 0) then
    return (.int (if negative then -n else n), rest)
  else
    let sign := if negative then ['-'] else []
    return (.numeral (String.ofList (sign ++ whole ++ fraction ++ exponent)), rest)

/-- A number and what follows it. -/
def takeNumber : List Char → Option (Json × List Char)
  | '-' :: rest => takeUnsigned true rest
  | cs => takeUnsigned false cs

/-! ## Values -/

mutual

/-- A value and what follows it. -/
def takeValue : Nat → List Char → Option (Json × List Char)
  | 0, _ => none
  | bound + 1, cs =>
    match skipSpace cs with
    | 'n' :: 'u' :: 'l' :: 'l' :: rest => some (.null, rest)
    | 't' :: 'r' :: 'u' :: 'e' :: rest => some (.bool true, rest)
    | 'f' :: 'a' :: 'l' :: 's' :: 'e' :: rest => some (.bool false, rest)
    | '"' :: rest => (takeLiteral rest).map fun (s, rest) => (.string s, rest)
    | '[' :: rest =>
      match skipSpace rest with
      | ']' :: rest => some (.array [], rest)
      | rest => (takeItems bound rest).map fun (items, rest) => (.array items, rest)
    | '\x7b' :: rest =>
      match skipSpace rest with
      | '\x7d' :: rest => some (.object [], rest)
      | rest => (takeMembers bound rest).map fun (members, rest) => (.object members, rest)
    | rest => takeNumber rest

/-- The items of an array up to its closing bracket, at least one, and what follows. -/
def takeItems : Nat → List Char → Option (List Json × List Char)
  | 0, _ => none
  | bound + 1, cs => do
    let (item, rest) ← takeValue bound cs
    match skipSpace rest with
    | ']' :: rest => return ([item], rest)
    | ',' :: rest =>
      let (items, rest) ← takeItems bound rest
      return (item :: items, rest)
    | _ => none

/-- The members of an object up to its closing brace, at least one, and what follows. -/
def takeMembers : Nat → List Char → Option (List (Option String × Json) × List Char)
  | 0, _ => none
  | bound + 1, cs =>
    match skipSpace cs with
    | '"' :: rest => do
      let (name, rest) ← takeLiteral rest
      match skipSpace rest with
      | ':' :: rest =>
        let (value, rest) ← takeValue bound rest
        match skipSpace rest with
        | '\x7d' :: rest => return ([(name, value)], rest)
        | ',' :: rest =>
          let (members, rest) ← takeMembers bound rest
          return ((name, value) :: members, rest)
        | _ => none
      | _ => none
    | _ => none

end

/-- The value that a text is, with spaces around it and nothing else. -/
def parse (text : String) : Option Json :=
  let cs := text.toList
  match takeValue (2 * cs.length + 2) cs with
  | some (value, rest) => if (skipSpace rest).isEmpty then some value else none
  | none => none

end TapeMachine.Json
