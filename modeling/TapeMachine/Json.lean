/-!
# JSON values and their text

The values of the JSON format, as they are written: an array is a list of items and an object a
list of members, in which a name may occur more than once. A number is an integer or some other
numeral, and a string literal may denote no text at all, when it holds half of a surrogate pair.

A value is written on one line by `Json.render`, and on indented lines by `Json.pretty`.
-/

namespace TapeMachine

/-- A JSON value. A text that is `none` stands for a literal that denotes no text. -/
inductive Json where
  | null
  | bool (value : Bool)
  | int (value : Int)
  /-- A numeral with a fraction or an exponent, or minus zero, as it is written. -/
  | numeral (text : String)
  | string (text : Option String)
  | array (items : List Json)
  | object (members : List (Option String × Json))
deriving Inhabited

namespace Json

/-- The string literal of a text. -/
def text (s : String) : Json := .string (some s)

/-- A natural number. -/
def nat (n : Nat) : Json := .int n

/-- An object with one member for each name. -/
def record (members : List (String × Json)) : Json :=
  .object (members.map fun (name, value) => (some name, value))

/-! ## String literals -/

/-- A code unit by its four hexadecimal digits. -/
def unitEscape (n : Nat) : String :=
  "\\u" ++ String.ofList ([4096, 256, 16, 1].map fun place => Nat.digitChar (n / place % 16))

/-- One character as it stands in a literal: quotes, backslashes and controls are escaped. -/
def literalChar (c : Char) : String :=
  match c with
  | '"' => "\\\""
  | '\\' => "\\\\"
  | '\x08' => "\\b"
  | '\x0c' => "\\f"
  | '\n' => "\\n"
  | '\r' => "\\r"
  | '\t' => "\\t"
  | c => if c.toNat < 0x20 then unitEscape c.toNat else String.singleton c

/-- The literal of a text. Half of a surrogate pair is the literal that denotes no text. -/
def literal : Option String → String
  | some s => "\"" ++ String.join (s.toList.map literalChar) ++ "\""
  | none => "\"" ++ unitEscape 0xd800 ++ "\""

/-! ## Values -/

/-- A value that is neither an array nor an object. -/
def renderScalar : Json → String
  | null => "null"
  | bool true => "true"
  | bool false => "false"
  | int n => toString n
  | numeral s => s
  | string s => literal s
  | array _ => "[]"
  | object _ => "\x7b\x7d"

mutual

/-- The value on one line without spaces. -/
def render : Json → String
  | array items => "[" ++ renderItems items ++ "]"
  | object members => "\x7b" ++ renderMembers members ++ "\x7d"
  | scalar => scalar.renderScalar

/-- The items with commas between them. -/
def renderItems : List Json → String
  | [] => ""
  | [item] => item.render
  | item :: items => item.render ++ "," ++ renderItems items

/-- The members with commas between them. -/
def renderMembers : List (Option String × Json) → String
  | [] => ""
  | [(name, value)] => literal name ++ ":" ++ value.render
  | (name, value) :: members => literal name ++ ":" ++ value.render ++ "," ++ renderMembers members

end

/-- The beginning of a line at this depth: two spaces for each level. -/
def newLine (depth : Nat) : String := String.ofList ('\n' :: List.replicate (2 * depth) ' ')

mutual

/-- The value on lines of its own, from this depth on. An empty array or object takes no lines. -/
def prettyAt (depth : Nat) : Json → String
  | array (item :: items) =>
    "[" ++ prettyItems (depth + 1) (item :: items) ++ newLine depth ++ "]"
  | object (member :: members) =>
    "\x7b" ++ prettyMembers (depth + 1) (member :: members) ++ newLine depth ++ "\x7d"
  | scalar => scalar.renderScalar

/-- The items, each on a new line, with commas between them. -/
def prettyItems (depth : Nat) : List Json → String
  | [] => ""
  | [item] => newLine depth ++ prettyAt depth item
  | item :: items => newLine depth ++ prettyAt depth item ++ "," ++ prettyItems depth items

/-- The members, each on a new line, with commas between them. -/
def prettyMembers (depth : Nat) : List (Option String × Json) → String
  | [] => ""
  | [(name, value)] => newLine depth ++ literal name ++ ": " ++ prettyAt depth value
  | (name, value) :: members =>
    newLine depth ++ literal name ++ ": " ++ prettyAt depth value ++ "," ++
      prettyMembers depth members

end

/-- The value over lines that are indented by two spaces for each level. -/
def pretty (value : Json) : String := prettyAt 0 value

end Json

end TapeMachine
