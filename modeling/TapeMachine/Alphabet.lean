import TapeMachine.KeyedSet

/-!
# Alphabets

An alphabet is a set of symbols, one of which may be designated as the blank. The empty string
is never a symbol. Designating a blank makes it a member, and removing the blank from the set
leaves no blank designated, so the blank is always a member.
-/

namespace TapeMachine

/-- A tape symbol: a string of any length, compared character by character. -/
abbrev Symbol := String

/-- A set of symbols and the one among them that is designated as the blank. -/
@[ext]
structure Alphabet where
  symbols : NameSet := ∅
  blank : Option Symbol := none
deriving DecidableEq, Inhabited

namespace Alphabet

/-- The alphabet without symbols. -/
def empty : Alphabet := {}

instance : EmptyCollection Alphabet := ⟨empty⟩

/-- Whether the symbol is a member. -/
def contains (a : Alphabet) (symbol : Symbol) : Bool := a.symbols.contains symbol

/-- Add a symbol unless it is empty, and tell whether it is a new member. -/
def addSymbol (a : Alphabet) (symbol : Symbol) : Bool × Alphabet :=
  if symbol.isEmpty then (false, a)
  else
    let (fresh, symbols) := a.symbols.insertNew symbol
    (fresh, { a with symbols })

/-- Add the symbols one after another. -/
def addSymbols (a : Alphabet) (symbols : List Symbol) : Alphabet :=
  symbols.foldl (fun a symbol => (a.addSymbol symbol).2) a

@[simp] theorem addSymbol_empty (a : Alphabet) : a.addSymbol "" = (false, a) := rfl

/-- Adding a symbol leaves the blank as it is. -/
@[simp] theorem blank_addSymbol (a : Alphabet) (symbol : Symbol) :
    (a.addSymbol symbol).2.blank = a.blank := by
  unfold addSymbol
  split <;> rfl

/-- Adding a symbol other than the empty one makes it a member, and changes no other membership. -/
theorem contains_addSymbol (a : Alphabet) {symbol : Symbol} (h : symbol.isEmpty = false)
    (other : Symbol) :
    (a.addSymbol symbol).2.contains other = (decide (symbol = other) || a.contains other) := by
  simp only [addSymbol, h, Bool.false_eq_true, if_false, contains, KeyedSet.insertNew]
  split
  · next hc =>
    by_cases ho : symbol = other
    · simpa [ho] using ho ▸ hc
    · simp [ho]
  · exact KeyedSet.contains_insert _ _ _

/-- Remove a symbol, and with it its designation as the blank, and tell whether it was a member. -/
def removeSymbol (a : Alphabet) (symbol : Symbol) : Bool × Alphabet :=
  let (removed, symbols) := a.symbols.erase symbol
  (removed, ⟨symbols, if removed && a.blank == some symbol then none else a.blank⟩)

/-- Removing a symbol ends its membership, and changes no other membership. -/
theorem contains_removeSymbol (a : Alphabet) (symbol other : Symbol) :
    (a.removeSymbol symbol).2.contains other = (!decide (symbol = other) && a.contains other) :=
  KeyedSet.contains_erase a.symbols symbol other

/-- Designate a non-empty symbol as the blank, adding it to the members. -/
def setBlank (a : Alphabet) (blank : Symbol) : Alphabet :=
  if blank.isEmpty then a else { (a.addSymbol blank).2 with blank := some blank }

/-- Remove all symbols, the blank among them. -/
def clear (_ : Alphabet) : Alphabet := empty

/-- The alphabet whose only member is the blank. -/
def withBlank (blank : Symbol) : Alphabet := empty.setBlank blank

/-- Whether every member of this alphabet is a member of the other one. -/
def isSubsetOf (a b : Alphabet) : Bool := a.symbols.isSubsetOf b.symbols

/-- The first character of the text that is not a member. -/
def firstInvalid? (a : Alphabet) (text : String) : Option Symbol :=
  (text.toList.map String.singleton).find? fun symbol => !a.contains symbol

/-- Whether every character of the text is a member. -/
def isValidText (a : Alphabet) (text : String) : Bool := (a.firstInvalid? text).isNone

/-- The members in order, each in quotes and all in braces, and then the blank. -/
def render (a : Alphabet) : String :=
  let quoted := a.symbols.toList.map fun symbol => s!"'{symbol}'"
  let members := "\x7b" ++ ", ".intercalate quoted ++ "\x7d"
  match a.blank with
  | none => members
  | some blank => s!"{members} [blank: '{blank}']"

end Alphabet

end TapeMachine
