import TapeMachine.Proofs.Program.Parts

/-!
# Operations on alphabets

What an operation does to the members of an alphabet and to its blank is said in terms of what it
adds, removes and designates (`contains_perform_iff`, `Proper.blank_perform_iff`). Every operation
keeps an alphabet `Proper`: the empty string is no symbol, and the blank is one.
-/

namespace TapeMachine

namespace Alphabet

/-! ## Operations -/

/-- What can be done to an alphabet. -/
inductive Operation where
  | addSymbol (symbol : Symbol)
  | addSymbols (symbols : List Symbol)
  | removeSymbol (symbol : Symbol)
  | setBlank (symbol : Symbol)
  | clear
deriving DecidableEq

/-- Carry out an operation. -/
def perform (a : Alphabet) : Operation → Alphabet
  | .addSymbol symbol => (a.addSymbol symbol).2
  | .addSymbols symbols => a.addSymbols symbols
  | .removeSymbol symbol => (a.removeSymbol symbol).2
  | .setBlank symbol => a.setBlank symbol
  | .clear => a.clear

/-- Carry out operations one after another. -/
def performAll (a : Alphabet) (operations : List Operation) : Alphabet :=
  operations.foldl perform a

namespace Operation

/-- The operation adds the symbol, be it as the blank. -/
def Adds (symbol : Symbol) : Operation → Prop
  | .addSymbol other | .setBlank other => other = symbol
  | .addSymbols others => symbol ∈ others
  | .removeSymbol _ | .clear => False

/-- The operation removes the symbol, be it with all others. -/
def Removes (symbol : Symbol) : Operation → Prop
  | .removeSymbol other => other = symbol
  | .clear => True
  | .addSymbol _ | .addSymbols _ | .setBlank _ => False

/-- The operation designates the symbol as the blank. The empty string cannot be the blank. -/
def Designates (symbol : Symbol) : Operation → Prop
  | .setBlank other => other = symbol ∧ symbol ≠ ""
  | .addSymbol _ | .addSymbols _ | .removeSymbol _ | .clear => False

/-- After the operation the symbol is not the blank, unless the operation is what designates it. -/
def Undesignates (symbol : Symbol) (operation : Operation) : Prop :=
  operation.Removes symbol ∨ ∃ other, operation.Designates other

end Operation

/-- The empty string is no symbol, and the blank is one. -/
structure Proper (a : Alphabet) : Prop where
  contains_empty : a.contains "" = false
  contains_blank : ∀ symbol, a.blank = some symbol → a.contains symbol = true

theorem proper_empty : Proper empty := ⟨rfl, nofun⟩

section

variable {a : Alphabet} {symbol : Symbol} {operation : Operation}

theorem contains_perform_iff : (a.perform operation).contains symbol = true ↔
    symbol ≠ "" ∧ operation.Adds symbol ∨
      a.contains symbol = true ∧ ¬ operation.Removes symbol := by
  cases operation with
  | addSymbol other =>
      show (a.addSymbol other).2.contains symbol = true ↔ _
      rw [contains_addSymbol_iff, or_comm]
      exact or_congr_right (and_iff_left not_false).symm
  | addSymbols others =>
      show (a.addSymbols others).contains symbol = true ↔ _
      rw [contains_addSymbols_iff, or_comm]
      exact or_congr_right (and_iff_left not_false).symm
  | removeSymbol other =>
      show (a.removeSymbol other).2.contains symbol = true ↔ _
      rw [contains_removeSymbol]
      simp [Operation.Adds, Operation.Removes, and_comm]
  | setBlank other =>
      show (a.setBlank other).contains symbol = true ↔ _
      rw [contains_setBlank_iff, or_comm]
      exact or_congr_right (and_iff_left not_false).symm
  | clear =>
      show (∅ : NameSet).contains symbol = true ↔ _
      simp [Operation.Adds, Operation.Removes]

/-- The blank is a member, so removing it is never without effect. -/
theorem Proper.blank_removeSymbol (h : a.Proper) (other : Symbol) :
    (a.removeSymbol other).2.blank = if a.blank = some other then none else a.blank := by
  show (if a.contains other && a.blank == some other then none else a.blank) = _
  by_cases hblank : a.blank = some other
  · simp [hblank, h.contains_blank other hblank]
  · simp [hblank]

theorem Proper.blank_perform_iff (h : a.Proper) : (a.perform operation).blank = some symbol ↔
    operation.Designates symbol ∨ a.blank = some symbol ∧ ¬ operation.Undesignates symbol := by
  cases operation with
  | addSymbol other =>
      show (a.addSymbol other).2.blank = some symbol ↔ _
      rw [blank_addSymbol]
      simp [Operation.Designates, Operation.Undesignates, Operation.Removes]
  | addSymbols others =>
      show (a.addSymbols others).blank = some symbol ↔ _
      rw [blank_addSymbols]
      simp [Operation.Designates, Operation.Undesignates, Operation.Removes]
  | removeSymbol other =>
      show (a.removeSymbol other).2.blank = some symbol ↔ _
      have hends : Operation.Undesignates symbol (.removeSymbol other) ↔ other = symbol := by
        simp [Operation.Designates, Operation.Undesignates, Operation.Removes]
      rw [h.blank_removeSymbol, hends]
      by_cases hblank : a.blank = some other
      · simp [hblank, Operation.Designates]
      · have hne (hsymbol : a.blank = some symbol) : other ≠ symbol := fun heq =>
          hblank (heq ▸ hsymbol)
        rw [if_neg hblank]
        exact ⟨fun hsymbol => .inr ⟨hsymbol, hne hsymbol⟩, fun h => h.elim nofun And.left⟩
  | setBlank other =>
      show (a.setBlank other).blank = some symbol ↔ _
      have hends : Operation.Undesignates symbol (.setBlank other) ↔ other ≠ "" := by
        simp [Operation.Designates, Operation.Undesignates, Operation.Removes]
      rw [blank_setBlank_eq, hends]
      by_cases hempty : other = ""
      · simp [hempty, Operation.Designates]
      · rw [if_neg hempty, Option.some.injEq, or_iff_left fun h => h.2 hempty]
        exact (and_iff_left_of_imp fun heq => heq ▸ hempty).symm
  | clear =>
      show (none : Option Symbol) = some symbol ↔ _
      simp [Operation.Designates, Operation.Undesignates, Operation.Removes]

theorem Operation.adds_of_designates (h : operation.Designates symbol) :
    symbol ≠ "" ∧ operation.Adds symbol := by
  cases operation with
  | setBlank other => exact ⟨h.2, h.1⟩
  | addSymbol | addSymbols | removeSymbol | clear => cases h

/-- Every operation keeps an alphabet proper. -/
theorem Proper.perform (h : a.Proper) (operation : Operation) : (a.perform operation).Proper where
  contains_empty := by
    rw [← Bool.not_eq_true, contains_perform_iff, h.contains_empty]
    simp
  contains_blank symbol hblank := by
    rw [contains_perform_iff]
    rcases h.blank_perform_iff.1 hblank with hdesignates | ⟨hbefore, hkept⟩
    · exact .inl (Operation.adds_of_designates hdesignates)
    · exact .inr ⟨h.contains_blank symbol hbefore, fun hremoves => hkept (.inl hremoves)⟩

/-- The symbols of a proper alphabet can be put into it one after another. -/
theorem Proper.addSymbols_toList (h : a.Proper) :
    empty.addSymbols a.symbols.toList = ⟨a.symbols, none⟩ := by
  have hne : "" ∉ a.symbols.toList := fun hmem =>
    Bool.false_ne_true (h.contains_empty.symm.trans (NameSet.mem_toList_iff.1 hmem))
  refine Alphabet.ext (NameSet.eq_of_contains_iff fun _ => ?_) (blank_addSymbols empty _)
  exact (contains_addSymbols_empty hne).trans NameSet.mem_toList_iff

end

end Alphabet

end TapeMachine
