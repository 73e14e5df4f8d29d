import Mathlib.Data.List.Count
import Mathlib.Data.List.Induction
import TapeMachine.Proofs.Catalog.Programs

/-!
# The machine for even numbers of zeros

`evenZeros` reads its word from left to right and keeps it as it is. It is in `q0` as long as the
number of zeros read is even and in `q1` as long as it is odd (`takes_word`). Behind the word it
accepts with one more step from `q0`, and rejects from `q1` (`evenZeros_decides`).
-/

namespace TapeMachine.Catalog

namespace EvenZeros

open Specification (Layout)

/-- What the specification of the machine lists. -/
def layout : Layout where
  states := ["q0", "q1", "qa"]
  inputSymbols := ["0", "1"]
  tapeSymbols := ["0", "1", "_"]
  initial := ["q0"]
  blank := ["_"]
  accepting := ["qa"]
  transitions := [
    ["q0", "0", "q1", "0", "R"], ["q0", "1", "q0", "1", "R"],
    ["q1", "0", "q0", "0", "R"], ["q1", "1", "q1", "1", "R"],
    ["q0", "_", "qa", "_", "R"]]

theorem exists_program :
    ∃ p, programNamed "even-zeros" = .ok p ∧ layout.Denotes p ∧
      ∃ m, Machine.ofProgram p = .ok m ∧ m.program = p :=
  exists_programNamed evenZeros (by decide +kernel) (by decide +kernel) (by decide +kernel)
    (by decide +kernel) (by decide +kernel)

theorem isBinary_layout : IsBinary layout where
  inputSymbols symbol hsymbol := by
    rcases hsymbol with rfl | rfl <;> decide
  initial := rfl
  blank := rfl
  accepting := rfl

/-- The state after this number of zeros. -/
def parity (zeros : Nat) : String := if zeros % 2 = 0 then "q0" else "q1"

/-- The states take turns. -/
theorem parity_cases (zeros : Nat) :
    parity zeros = "q0" ∧ parity (zeros + 1) = "q1" ∨
      parity zeros = "q1" ∧ parity (zeros + 1) = "q0" := by
  unfold parity
  rcases Nat.mod_two_eq_zero_or_one zeros with h | h
  · exact .inl ⟨if_pos h, if_neg (by omega)⟩
  · exact .inr ⟨if_neg (by omega), if_pos (by omega)⟩

/-- What the machine does in every state. -/
structure Rules (p : Program) : Prop where
  zero : ∀ zeros, p.transitions.get? (parity zeros) ["0"] =
    some (.single (parity zeros) "0" (parity (zeros + 1)) "0" .right)
  one : ∀ zeros, p.transitions.get? (parity zeros) ["1"] =
    some (.single (parity zeros) "1" (parity zeros) "1" .right)
  finish : p.transitions.get? "q0" ["_"] = some (.single "q0" "_" "qa" "_" .right)
  /-- The number of zeros is odd. -/
  odd : p.transitions.get? "q1" ["_"] = none
  accepting : ∀ state, p.isAccepting state = decide (state = "qa")

theorem rules_of_denotes {p : Program} (h : layout.Denotes p) : Rules p where
  zero zeros := by
    rcases parity_cases zeros with ⟨hnow, hnext⟩ | ⟨hnow, hnext⟩
    all_goals
      rw [hnow, hnext]
      exact h.get?_of_mem (by decide)
  one zeros := by
    rcases parity_cases zeros with ⟨hnow, _⟩ | ⟨hnow, _⟩
    all_goals
      rw [hnow]
      exact h.get?_of_mem (by decide)
  finish := h.get?_of_mem (by decide)
  odd := h.get?_eq_none (by decide)
  accepting := isBinary_layout.isAccepting h

/-! ## Reading the word -/

section

variable {p : Program} (rules : Rules p) {word : List Symbol}

include rules

theorem Rules.isAccepting_parity (zeros : Nat) : p.isAccepting (parity zeros) = false := by
  refine isAccepting_of_ne rules.accepting ?_
  unfold parity
  split <;> decide

/-- A symbol is kept, and counts if it is a zero. -/
theorem takes_symbol {a : Symbol} (ha : IsBit a) (front back : List Symbol) :
    p.Takes 1 1 ⟨parity (front.count "0"), wordTape 0 (front ++ a :: back) front.length⟩
      ⟨parity ((front ++ [a]).count "0"), wordTape 0 (front ++ a :: back) (front ++ [a]).length⟩
      none := by
  have hread : (wordTape 0 (front ++ a :: back) (0 + front.length)).read = a :=
    InfiniteTape.read_ofWord_append
  rw [Int.zero_add] at hread
  have hhead : (front.length : Int) + Direction.offset .right = (front ++ [a]).length := by
    rw [List.length_append, List.length_singleton, Int.natCast_add]
    rfl
  rw [List.count_append]
  rcases ha with rfl | rfl
  · have hmove := Program.takes_move hread (rules.zero (front.count "0"))
      (rules.isAccepting_parity _)
    rwa [InfiniteTape.shift_ofWord, hhead] at hmove
  · have hmove := Program.takes_move hread (rules.one (front.count "0"))
      (rules.isAccepting_parity _)
    rwa [InfiniteTape.shift_ofWord, hhead] at hmove

/-- Behind the first part of a word, the state tells the parity of the zeros in it. -/
theorem takes_word (hword : ∀ symbol ∈ word, IsBit symbol) (back : List Symbol) :
    p.Takes word.length word.length ⟨"q0", wordTape 0 (word ++ back) 0⟩
      ⟨parity (word.count "0"), wordTape 0 (word ++ back) word.length⟩ none := by
  -- The part that has been read grows at its end.
  induction word using List.reverseRecOn generalizing back with
  | nil => exact .refl
  | append_singleton word a ih =>
      obtain ⟨hword, ha⟩ := List.forall_mem_append.1 hword
      have hlast := takes_symbol rules (ha a (List.mem_singleton_self a)) word back
      have hall := (ih hword (a :: back)).trans hlast
      rw [List.length_append, List.length_singleton] at hall ⊢
      rwa [List.append_cons] at hall

/-- After an even number of zeros the machine accepts. -/
theorem takes_even (hword : ∀ symbol ∈ word, IsBit symbol) (heven : word.count "0" % 2 = 0) :
    p.Takes (word.length + 1) (word.length + 1) ⟨"q0", wordTape 0 word 0⟩
      ⟨"qa", wordTape 0 word (word.length + 1)⟩ (some .accept) := by
  have hread : (wordTape 0 word word.length).read = "_" :=
    InfiniteTape.read_ofWord_of_le (by omega)
  have hword := takes_word rules hword []
  rw [List.append_nil, parity, if_pos heven] at hword
  have haccept := Program.takes_acceptance hread rules.finish (rules.accepting "qa")
  rw [InfiniteTape.shift_ofWord] at haccept
  exact hword.trans haccept

/-- After an odd number of zeros it rejects. -/
theorem takes_odd (hword : ∀ symbol ∈ word, IsBit symbol) (hodd : word.count "0" % 2 ≠ 0) :
    p.Takes (word.length + 1) word.length ⟨"q0", wordTape 0 word 0⟩
      ⟨"q1", wordTape 0 word word.length⟩ (some (.reject ⟨"q1", ["_"]⟩)) := by
  have hread : (wordTape 0 word word.length).read = "_" :=
    InfiniteTape.read_ofWord_of_le (by omega)
  have hword := takes_word rules hword []
  rw [List.append_nil, parity, if_neg hodd] at hword
  exact hword.trans (Program.takes_rejection hread rules.odd)

end

/-! ## The machine of the catalog -/

/-- The zeros of a word are those among its symbols. -/
theorem count_map_singleton (chars : List Char) :
    (chars.map String.singleton).count "0" = chars.count '0' :=
  List.count_map_of_injective chars String.singleton (fun _ _ => String.singleton_inj.1) '0'

/-- No symbol of a binary word is the blank. -/
theorem isTrimmed_of_isBit {word : List Symbol} (hword : ∀ symbol ∈ word, IsBit symbol) :
    IsTrimmed "_" word := by
  have hne : ∀ symbol ∈ word, symbol ≠ "_" := by
    intro symbol hsymbol
    rcases hword symbol hsymbol with rfl | rfl <;> decide
  exact ⟨fun symbol h => hne symbol (List.mem_of_head? h),
    fun symbol h => hne symbol (List.mem_of_getLast? h)⟩

section

variable {m : Machine} (h : layout.Denotes m.program) {w : String}
  (hw : ∀ c ∈ w.toList, c = '0' ∨ c = '1') {budget : Nat} (hbudget : w.length + 1 ≤ budget)

include h hw hbudget

theorem execute_even (heven : w.toList.count '0' % 2 = 0) :
    ∃ final, m.execute w budget = .ok (.accepted, final) ∧ final.stepCount = w.length + 1 ∧
      final.content = w := by
  have hbits := isBit_of_mem_toList hw
  rw [← count_map_singleton] at heven
  have htakes := takes_even (rules_of_denotes h) hbits heven
  rw [List.length_map, String.length_toList] at htakes
  obtain ⟨final, e, hexecute, hfinal, hend⟩ :=
    isBinary_layout.execute_of_takes h hw htakes hbudget
  refine ⟨final, hexecute, Machine.stepCount_of_isAt hfinal hend, ?_⟩
  rw [Machine.content_of_isAt hfinal (isBinary_layout.blank_eq h) hend (isTrimmed_of_isBit hbits)]
  exact (join_map_singleton w.toList).trans String.ofList_toList

theorem execute_odd (hodd : w.toList.count '0' % 2 ≠ 0) :
    ∃ final, m.execute w budget = .ok (.rejected, final) ∧ final.stepCount = w.length ∧
      final.state = "q1" ∧ final.content = w := by
  have hbits := isBit_of_mem_toList hw
  rw [← count_map_singleton] at hodd
  have htakes := takes_odd (rules_of_denotes h) hbits hodd
  rw [List.length_map, String.length_toList] at htakes
  obtain ⟨final, e, hexecute, hfinal, hend⟩ :=
    isBinary_layout.execute_of_takes h hw htakes hbudget
  refine ⟨final, hexecute, Machine.stepCount_of_isAt hfinal hend, ?_, ?_⟩
  · rw [Machine.state, hfinal]
    exact hend.state
  · rw [Machine.content_of_isAt hfinal (isBinary_layout.blank_eq h) hend
      (isTrimmed_of_isBit hbits)]
    exact (join_map_singleton w.toList).trans String.ofList_toList

end

end EvenZeros

open EvenZeros in
/-- The machine for even numbers of zeros accepts a word with an even number of zeros in one step
more than the word has symbols. It rejects every other word in `q1`, after one step for each
symbol. The word is left on the tape. -/
theorem evenZeros_decides (w : String) (hw : ∀ c ∈ w.toList, c = '0' ∨ c = '1')
    (budget : Nat) (hbudget : w.length + 1 ≤ budget) :
    ∃ p, programNamed "even-zeros" = .ok p ∧
      (∃ m, Machine.ofProgram p = .ok m ∧ m.program = p) ∧
      ∀ m : Machine, m.program = p →
        (w.toList.count '0' % 2 = 0 →
          ∃ final, m.execute w budget = .ok (.accepted, final) ∧
            final.stepCount = w.length + 1 ∧ final.content = w) ∧
        (w.toList.count '0' % 2 ≠ 0 →
          ∃ final, m.execute w budget = .ok (.rejected, final) ∧
            final.stepCount = w.length ∧ final.state = "q1" ∧ final.content = w) := by
  obtain ⟨p, hp, hmeans, hmachine⟩ := exists_program
  refine ⟨p, hp, hmachine, ?_⟩
  rintro m rfl
  exact ⟨fun heven => execute_even hmeans hw hbudget heven,
    fun hodd => execute_odd hmeans hw hbudget hodd⟩

/-- Three zeros in twelve symbols, more than a new tape has cells for, are rejected. -/
theorem evenZeros_decides_twelve :
    (∀ c ∈ "110111011101".toList, c = '0' ∨ c = '1') ∧ "110111011101".length + 1 ≤ 13 ∧
      ∃ p m final, programNamed "even-zeros" = .ok p ∧ Machine.ofProgram p = .ok m ∧
        m.execute "110111011101" 13 = .ok (.rejected, final) ∧ final.stepCount = 12 ∧
        final.state = "q1" ∧ final.content = "110111011101" := by
  have hw : ∀ c ∈ "110111011101".toList, c = '0' ∨ c = '1' := by simp
  have hbudget : "110111011101".length + 1 ≤ 13 := by decide
  refine ⟨hw, hbudget, ?_⟩
  obtain ⟨p, hp, ⟨m, hm, hprogram⟩, hdecides⟩ := evenZeros_decides "110111011101" hw 13 hbudget
  obtain ⟨final, hexecute, hsteps, hstate, hcontent⟩ := (hdecides m hprogram).2 (by decide)
  exact ⟨p, m, final, hp, hm, hexecute, hsteps, hstate, hcontent⟩

end TapeMachine.Catalog
