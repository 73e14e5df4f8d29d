import TapeMachine.Text.Unprintable

/-!
# Quoted text

Messages show a string between double quotes, so that its end and every unusual character in it can
be seen. A quote, a backslash and the most common controls have a short form; every other
character without a printed form is shown by its code point in braces.
-/

namespace TapeMachine.Text

/-- One character as it stands between quotes. -/
def quotedChar (c : Char) : String :=
  match c with
  | '\x00' => "\\0"
  | '\t' => "\\t"
  | '\r' => "\\r"
  | '\n' => "\\n"
  | '"' => "\\\""
  | '\\' => "\\\\"
  | c =>
    if isUnprintable c then
      "\\u\x7b" ++ String.ofList (Nat.toDigits 16 c.toNat) ++ "\x7d"
    else String.singleton c

/-- The text between double quotes. -/
def quoted (text : String) : String :=
  "\"" ++ String.join (text.toList.map quotedChar) ++ "\""

/-- The quoted texts in brackets, with commas between them. -/
def quotedList (texts : List String) : String :=
  "[" ++ ", ".intercalate (texts.map quoted) ++ "]"

end TapeMachine.Text
