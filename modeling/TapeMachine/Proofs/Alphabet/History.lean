import Mathlib.Data.List.Basic
import Mathlib.Data.List.Induction
import TapeMachine.Proofs.Alphabet.Operations
import TapeMachine.Proofs.Text.ByteOrder

/-!
# What operations make of an alphabet

An alphabet that operations have made of the empty one can be told from the list of them
(`Records`): a symbol is a member if it was added and nothing has removed it since, and it is the
blank if it was designated and nothing has ended that since (`Since`). Every operation adds itself to the record
(`Records.perform`). `performAll_built` says what follows for the alphabet, for the answers that it
gives and for its comparison with others.
-/

namespace TapeMachine

namespace Alphabet

/-! ## Records -/

/-- There is an operation of one kind with none of another kind behind it. -/
def Since (begins ends : Operation → Prop) (operations : List Operation) : Prop :=
  ∃ before operation after, operations = before ++ operation :: after ∧ begins operation ∧
    ∀ later ∈ after, ¬ ends later

theorem since_append_singleton_iff {begins ends : Operation → Prop} {operations : List Operation}
    {last : Operation} : Since begins ends (operations ++ [last]) ↔
      begins last ∨ Since begins ends operations ∧ ¬ ends last := by
  constructor
  · rintro ⟨before, operation, after, heq, hbegins, hafter⟩
    rcases List.eq_nil_or_concat' after with rfl | ⟨between, other, rfl⟩
    · obtain ⟨_, rfl⟩ := List.append_singleton_inj.1 heq
      exact .inl hbegins
    · rw [← List.cons_append, ← List.append_assoc] at heq
      obtain ⟨rfl, rfl⟩ := List.append_singleton_inj.1 heq
      obtain ⟨hbetween, hlast⟩ := List.forall_mem_append.1 hafter
      exact .inr ⟨⟨before, operation, between, rfl, hbegins, hbetween⟩,
        hlast last List.mem_cons_self⟩
  · rintro (hbegins | ⟨⟨before, operation, after, rfl, hbegins, hafter⟩, hlast⟩)
    · exact ⟨operations, last, [], rfl, hbegins, List.forall_mem_nil _⟩
    · refine ⟨before, operation, after ++ [last], by simp, hbegins, ?_⟩
      exact List.forall_mem_append.2 ⟨hafter, List.forall_mem_singleton.2 hlast⟩

/-- The alphabet holds what these operations make of the empty one. -/
structure Records (operations : List Operation) (a : Alphabet) : Prop where
  contains : ∀ symbol, a.contains symbol = true ↔
    symbol ≠ "" ∧ Since (Operation.Adds symbol) (Operation.Removes symbol) operations
  blank : ∀ symbol, a.blank = some symbol ↔
    Since (Operation.Designates symbol) (Operation.Undesignates symbol) operations
  proper : a.Proper

theorem not_since_nil {begins ends : Operation → Prop} : ¬ Since begins ends [] := by
  rintro ⟨before, operation, after, heq, _⟩
  simp at heq

theorem records_empty : empty.Records [] where
  contains _ := iff_of_false Bool.false_ne_true fun h => not_since_nil h.2
  blank _ := iff_of_false nofun not_since_nil
  proper := proper_empty

/-- Every operation adds itself to the record. -/
theorem Records.perform {a : Alphabet} {operations : List Operation} (h : a.Records operations)
    (operation : Operation) : (a.perform operation).Records (operations ++ [operation]) where
  contains symbol := by
    rw [contains_perform_iff, h.contains, since_append_singleton_iff, and_or_left, and_assoc]
  blank symbol := by
    rw [h.proper.blank_perform_iff, h.blank, since_append_singleton_iff]
  proper := h.proper.perform operation

theorem records_performAll (operations : List Operation) :
    (empty.performAll operations).Records operations := by
  induction operations using List.reverseRecOn with
  | nil => exact records_empty
  | append_singleton operations operation ih =>
      rw [performAll, List.foldl_append]
      exact ih.perform operation

/-! ## Answers -/

section

variable {a b : Alphabet} {symbol : Symbol}

/-- Adding a symbol is answered by whether it has become a member. -/
theorem fst_addSymbol_iff :
    (a.addSymbol symbol).1 = true ↔
      (a.addSymbol symbol).2.contains symbol ≠ a.contains symbol := by
  cases hempty : symbol.isEmpty with
  | true => simp [String.isEmpty_iff.1 hempty]
  | false =>
      have hfresh : (a.addSymbol symbol).1 = !a.contains symbol := by
        simp only [Alphabet.addSymbol, hempty, Bool.false_eq_true, if_false]
        exact KeyedSet.insertNew_fst a.symbols symbol
      rw [hfresh, contains_addSymbol a hempty, decide_eq_true rfl]
      cases a.contains symbol <;> simp

theorem fst_removeSymbol_iff :
    (a.removeSymbol symbol).1 = true ↔
      (a.removeSymbol symbol).2.contains symbol ≠ a.contains symbol := by
  show a.contains symbol = true ↔ _
  rw [contains_removeSymbol, decide_eq_true rfl]
  cases a.contains symbol <;> simp

theorem isSubsetOf_iff : a.isSubsetOf b = true ↔
    ∀ symbol, a.contains symbol = true → b.contains symbol = true := by
  rw [isSubsetOf, KeyedSet.isSubsetOf, List.all_eq_true]
  exact forall_congr' fun symbol => imp_congr_left NameSet.mem_toList_iff

end

/-! ## Alphabets made by operations -/

/-- What holds of the alphabet that these operations make of the empty one, whatever they are. -/
structure Built (operations : List Operation) (a : Alphabet) : Prop where
  contains_empty : a.contains "" = false
  mem_symbols : ∀ symbol, symbol ∈ a.symbols.toList ↔ a.contains symbol = true
  increasing : a.symbols.toList.Pairwise fun symbol other => Text.bytes symbol < Text.bytes other
  /-- A symbol is a member if it was added, and neither it nor all symbols were removed since. -/
  contains : ∀ symbol, a.contains symbol = true ↔
    symbol ≠ "" ∧ Since (Operation.Adds symbol) (Operation.Removes symbol) operations
  /-- A symbol is the blank if it was designated, and since then no other was, and neither it nor
  all symbols were removed. -/
  blank : ∀ symbol, a.blank = some symbol ↔
    Since (Operation.Designates symbol) (Operation.Undesignates symbol) operations
  contains_blank : ∀ symbol, a.blank = some symbol → a.contains symbol = true
  /-- The answer is whether the membership of the symbol changes. -/
  addSymbol : ∀ symbol, (a.addSymbol symbol).1 = true ↔
    (a.addSymbol symbol).2.contains symbol ≠ a.contains symbol
  removeSymbol : ∀ symbol, (a.removeSymbol symbol).1 = true ↔
    (a.removeSymbol symbol).2.contains symbol ≠ a.contains symbol
  /-- Blanks do not matter when alphabets are compared. -/
  isSubsetOf : ∀ b : Alphabet, a.isSubsetOf b = true ↔
    ∀ symbol, a.contains symbol = true → b.contains symbol = true

/-- Whatever operations are carried out on the empty alphabet, it is a set of symbols in the order
of their bytes with a blank that is one of them, if there is any. -/
theorem performAll_built (operations : List Operation) :
    (empty.performAll operations).Built operations := by
  have hrecords := records_performAll operations
  constructor
  case contains_empty => exact hrecords.proper.contains_empty
  case mem_symbols => exact fun _ => NameSet.mem_toList_iff
  case increasing => exact Text.increasing_bytes _
  case contains => exact hrecords.contains
  case blank => exact hrecords.blank
  case contains_blank => exact hrecords.proper.contains_blank
  case addSymbol => exact fun _ => fst_addSymbol_iff
  case removeSymbol => exact fun _ => fst_removeSymbol_iff
  case isSubsetOf => exact fun _ => isSubsetOf_iff

/-- A blank that is removed and added again is a member, but not the blank. -/
example :
    let a := empty.performAll [.setBlank "_", .removeSymbol "_", .addSymbol "_"]
    a.contains "_" = true ∧ a.blank = none := by
  decide

end Alphabet

end TapeMachine
