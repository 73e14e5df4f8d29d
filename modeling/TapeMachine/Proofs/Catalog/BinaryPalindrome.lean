import Mathlib.Data.List.Induction
import TapeMachine.Proofs.Catalog.Programs

/-!
# The machine for the palindromes

`binaryPalindrome` works in rounds. A round picks up the first symbol of the word that is left and
erases it, carries it to the right end, erases the last symbol if it is the same, and returns. The
word between the two is left for the next round (`takes_round`), and by induction on the word the
machine decides whether it is a palindrome (`binaryPalindrome_decides`). A round on `n` symbols
takes `2 * n + 1` steps, which makes `(n + 1) * (n + 2) / 2` for all rounds on a palindrome.
-/

namespace TapeMachine.Catalog

namespace Palindrome

open Specification (Layout)

/-- What the specification of the machine for the palindromes lists. -/
def layout : Layout where
  states := ["q0", "q1", "q2", "q3", "q4", "q5", "qa"]
  inputSymbols := ["0", "1"]
  tapeSymbols := ["0", "1", "_"]
  initial := ["q0"]
  blank := ["_"]
  accepting := ["qa"]
  transitions := [
    ["q0", "0", "q1", "_", "R"], ["q0", "1", "q2", "_", "R"], ["q0", "_", "qa", "_", "R"],
    ["q1", "0", "q1", "0", "R"], ["q1", "1", "q1", "1", "R"], ["q1", "_", "q3", "_", "L"],
    ["q2", "0", "q2", "0", "R"], ["q2", "1", "q2", "1", "R"], ["q2", "_", "q4", "_", "L"],
    ["q3", "0", "q5", "_", "L"], ["q3", "_", "qa", "_", "R"],
    ["q4", "1", "q5", "_", "L"], ["q4", "_", "qa", "_", "R"],
    ["q5", "0", "q5", "0", "L"], ["q5", "1", "q5", "1", "L"], ["q5", "_", "q0", "_", "R"]]

theorem exists_program :
    ∃ p, programNamed "binary-palindrome" = .ok p ∧ layout.Denotes p ∧
      ∃ m, Machine.ofProgram p = .ok m ∧ m.program = p :=
  exists_programNamed binaryPalindrome (by decide +kernel) (by decide +kernel) (by decide +kernel)
    (by decide +kernel) (by decide +kernel)

theorem isBinary_layout : IsBinary layout where
  inputSymbols symbol hsymbol := by
    rcases hsymbol with rfl | rfl <;> decide
  initial := rfl
  blank := rfl
  accepting := rfl

/-- The state that carries a symbol to the right end. -/
def carrier (symbol : Symbol) : String := if symbol = "0" then "q1" else "q2"

/-- The state that looks for the symbol at the right end. -/
def matcher (symbol : Symbol) : String := if symbol = "0" then "q3" else "q4"

/-- What the machine does in every state, where `q0` begins a round and `q5` goes back. -/
structure Rules (p : Program) : Prop where
  pickUp : ∀ a, IsBit a →
    p.transitions.get? "q0" [a] = some (.single "q0" a (carrier a) "_" .right)
  carry : ∀ a b, IsBit a → IsBit b →
    p.transitions.get? (carrier a) [b] = some (.single (carrier a) b (carrier a) b .right)
  turn : ∀ a, IsBit a →
    p.transitions.get? (carrier a) ["_"] = some (.single (carrier a) "_" (matcher a) "_" .left)
  erase : ∀ a, IsBit a →
    p.transitions.get? (matcher a) [a] = some (.single (matcher a) a "q5" "_" .left)
  mismatch : ∀ a b, IsBit a → IsBit b → a ≠ b → p.transitions.get? (matcher a) [b] = none
  goBack : ∀ a, IsBit a → p.transitions.get? "q5" [a] = some (.single "q5" a "q5" a .left)
  restart : p.transitions.get? "q5" ["_"] = some (.single "q5" "_" "q0" "_" .right)
  /-- There was one symbol left. -/
  finishOdd : ∀ a, IsBit a →
    p.transitions.get? (matcher a) ["_"] = some (.single (matcher a) "_" "qa" "_" .right)
  /-- There was no symbol left. -/
  finishEven : p.transitions.get? "q0" ["_"] = some (.single "q0" "_" "qa" "_" .right)
  accepting : ∀ state, p.isAccepting state = decide (state = "qa")

theorem rules_of_denotes {p : Program} (h : layout.Denotes p) : Rules p where
  pickUp a ha := by
    rcases ha with rfl | rfl <;> exact h.get?_of_mem (by decide)
  carry a b ha hb := by
    rcases ha with rfl | rfl <;> rcases hb with rfl | rfl <;> exact h.get?_of_mem (by decide)
  turn a ha := by
    rcases ha with rfl | rfl <;> exact h.get?_of_mem (by decide)
  erase a ha := by
    rcases ha with rfl | rfl <;> exact h.get?_of_mem (by decide)
  mismatch a b ha hb hne := by
    rcases ha with rfl | rfl <;> rcases hb with rfl | rfl
    · exact absurd rfl hne
    · exact h.get?_eq_none (by decide)
    · exact h.get?_eq_none (by decide)
    · exact absurd rfl hne
  goBack a ha := by
    rcases ha with rfl | rfl <;> exact h.get?_of_mem (by decide)
  restart := h.get?_of_mem (by decide)
  finishOdd a ha := by
    rcases ha with rfl | rfl <;> exact h.get?_of_mem (by decide)
  finishEven := h.get?_of_mem (by decide)
  accepting := isBinary_layout.isAccepting h

/-! ## Words -/

/-- What is between two symbols decides whether a word is a palindrome. -/
theorem reverse_eq_self_iff {a b : Symbol} {word : List Symbol} :
    (a :: (word ++ [b])).reverse = a :: (word ++ [b]) ↔ a = b ∧ word.reverse = word := by
  rw [List.reverse_cons, List.reverse_append, List.reverse_singleton, List.singleton_append,
    List.cons_append, List.cons.injEq]
  constructor
  · rintro ⟨rfl, h⟩
    exact ⟨rfl, List.append_cancel_right h⟩
  · rintro ⟨rfl, h⟩
    exact ⟨rfl, congrArg (· ++ [a]) h⟩

/-- The number of steps on a palindrome of this length. -/
def steps (n : Nat) : Nat := (n + 1) * (n + 2) / 2

/-- The steps on a palindrome are those of a round and those on the word that it leaves. -/
theorem steps_between (a b : Symbol) (word : List Symbol) :
    steps (a :: (word ++ [b])).length = 2 * word.length + 5 + steps word.length := by
  have h (n : Nat) : (n + 3) * (n + 4) = (n + 1) * (n + 2) + 2 * (2 * n + 5) := by
    grind
  unfold steps
  rw [List.length_cons, List.length_append, List.length_singleton, h,
    Nat.add_mul_div_left _ _ (by decide), Nat.add_comm]

/-! ## Rounds -/

section

variable {p : Program} (rules : Rules p) {a b : Symbol} {word : List Symbol}

include rules

theorem Rules.isAccepting_carrier (a : Symbol) : p.isAccepting (carrier a) = false := by
  refine isAccepting_of_ne rules.accepting ?_
  unfold carrier
  split <;> decide

theorem Rules.isAccepting_matcher (a : Symbol) : p.isAccepting (matcher a) = false := by
  refine isAccepting_of_ne rules.accepting ?_
  unfold matcher
  split <;> decide

/-- The first symbol is erased and carried to the right end. -/
theorem takes_carry (ha : IsBit a) (hword : ∀ symbol ∈ word, IsBit symbol) (start : Int) :
    p.Takes (word.length + 2) (word.length + 2)
      ⟨"q0", wordTape start (a :: word) start⟩
      ⟨matcher a, wordTape (start + 1) word (start + word.length)⟩ none := by
  have hpick : p.Takes 1 1 ⟨"q0", wordTape start (a :: word) start⟩
      ⟨carrier a, wordTape (start + 1) word (start + 1)⟩ none := by
    have hread : (wordTape start (a :: word) start).read = a := InfiniteTape.read_ofWord_cons
    have hone := Program.takes_one hread (rules.pickUp a ha) (rules.isAccepting_carrier a)
    rwa [InfiniteTape.write_blank_ofWord_cons, InfiniteTape.shift_ofWord] at hone
  have hsweep : p.Takes word.length word.length
      ⟨carrier a, wordTape (start + 1) word (start + 1)⟩
      ⟨carrier a, wordTape (start + 1) word (start + 1 + word.length)⟩ none := by
    simpa using Program.takes_sweep_right "_" (start + 1) [] [] (rules.isAccepting_carrier a)
      fun symbol hsymbol => rules.carry a symbol ha (hword symbol hsymbol)
  have hturn : p.Takes 1 1
      ⟨carrier a, wordTape (start + 1) word (start + 1 + word.length)⟩
      ⟨matcher a, wordTape (start + 1) word (start + word.length)⟩ none := by
    have hread : (wordTape (start + 1) word (start + 1 + word.length)).read = "_" :=
      InfiniteTape.read_ofWord_of_le (Int.le_refl _)
    have hhead : start + 1 + (word.length : Int) + Direction.offset .left =
        start + word.length := by
      rw [Direction.offset]
      omega
    have hone := Program.takes_move hread (rules.turn a ha) (rules.isAccepting_matcher a)
    rwa [InfiniteTape.shift_ofWord, hhead] at hone
  have hall := (hpick.trans hsweep).trans hturn
  rwa [Nat.add_comm 1, Nat.add_assoc] at hall

/-- The symbol that is carried is the last one, which is erased, and the head goes back. -/
theorem takes_return (ha : IsBit a) (hword : ∀ symbol ∈ word, IsBit symbol) (start : Int) :
    p.Takes (word.length + 2) (word.length + 2)
      ⟨matcher a, wordTape start (word ++ [a]) (start + word.length)⟩
      ⟨"q0", wordTape start word start⟩ none := by
  have herase : p.Takes 1 1 ⟨matcher a, wordTape start (word ++ [a]) (start + word.length)⟩
      ⟨"q5", wordTape start word (start + word.length - 1)⟩ none := by
    have hread : (wordTape start (word ++ [a]) (start + word.length)).read = a :=
      InfiniteTape.read_ofWord_append
    have hone := Program.takes_one hread (rules.erase a ha)
      (isAccepting_of_ne rules.accepting (by decide))
    rwa [InfiniteTape.write_blank_ofWord_append, InfiniteTape.shift_ofWord] at hone
  have hsweep : p.Takes word.length word.length
      ⟨"q5", wordTape start word (start + word.length - 1)⟩
      ⟨"q5", wordTape start word (start - 1)⟩ none := by
    simpa using Program.takes_sweep_left "_" start [] []
      (isAccepting_of_ne rules.accepting (by decide))
      fun symbol hsymbol => rules.goBack symbol (hword symbol hsymbol)
  have hrestart : p.Takes 1 1 ⟨"q5", wordTape start word (start - 1)⟩
      ⟨"q0", wordTape start word start⟩ none := by
    have hread : (wordTape start word (start - 1)).read = "_" :=
      InfiniteTape.read_ofWord_of_lt (by omega)
    have hone := Program.takes_move hread rules.restart
      (isAccepting_of_ne rules.accepting (by decide))
    rwa [InfiniteTape.shift_ofWord, Direction.offset, Int.sub_add_cancel] at hone
  have hall := (herase.trans hsweep).trans hrestart
  rwa [Nat.add_comm 1, Nat.add_assoc] at hall

/-- The first symbol is carried to the last one. -/
theorem takes_carry_append (ha : IsBit a) (hb : IsBit b) (hword : ∀ symbol ∈ word, IsBit symbol)
    (start : Int) :
    p.Takes (word.length + 3) (word.length + 3)
      ⟨"q0", wordTape start (a :: (word ++ [b])) start⟩
      ⟨matcher a, wordTape (start + 1) (word ++ [b]) (start + 1 + word.length)⟩ none := by
  have hcarry := takes_carry rules ha (isBit_of_mem_append hb hword) start
  have hhead : start + ((word ++ [b]).length : Int) = start + 1 + word.length := by
    simp only [List.length_append, List.length_singleton]
    omega
  have hcount : (word ++ [b]).length + 2 = word.length + 3 := by
    rw [List.length_append, List.length_singleton]
  rwa [hhead, hcount] at hcarry

/-- A round on a word that begins and ends with the same symbol leaves the word between them. -/
theorem takes_round (ha : IsBit a) (hword : ∀ symbol ∈ word, IsBit symbol) (start : Int) :
    p.Takes (2 * word.length + 5) (2 * word.length + 5)
      ⟨"q0", wordTape start (a :: (word ++ [a])) start⟩
      ⟨"q0", wordTape (start + 1) word (start + 1)⟩ none := by
  have hround := (takes_carry_append rules ha ha hword start).trans
    (takes_return rules ha hword (start + 1))
  have hcount : word.length + 3 + (word.length + 2) = 2 * word.length + 5 := by omega
  rwa [hcount] at hround

/-- A word that begins and ends with different symbols is rejected. -/
theorem takes_mismatch (ha : IsBit a) (hb : IsBit b) (hne : a ≠ b)
    (hword : ∀ symbol ∈ word, IsBit symbol) (start : Int) :
    ∃ c r, p.Takes (word.length + 4) (word.length + 3)
      ⟨"q0", wordTape start (a :: (word ++ [b])) start⟩ c (some (.reject r)) := by
  have hread : (wordTape (start + 1) (word ++ [b]) (start + 1 + word.length)).read = b :=
    InfiniteTape.read_ofWord_append
  exact ⟨_, _, (takes_carry_append rules ha hb hword start).trans
    (Program.takes_rejection hread (rules.mismatch a b ha hb hne))⟩

/-- On a blank tape the machine accepts where it looks for a symbol and finds none. -/
theorem takes_finish {state : String}
    (hget : p.transitions.get? state ["_"] = some (.single state "_" "qa" "_" .right))
    (start head : Int) :
    ∃ head', p.Takes 1 1 ⟨state, wordTape start [] head⟩ ⟨"qa", wordTape 0 [] head'⟩
      (some .accept) := by
  have hread : (wordTape start [] head).read = "_" := cellAt_nil
  have hone := Program.takes_acceptance hread hget (rules.accepting "qa")
  have hblank : (wordTape start [] head).shift .right = wordTape 0 [] (head + 1) :=
    InfiniteTape.ext rfl (funext fun _ => cellAt_nil.trans cellAt_nil.symm)
  rw [hblank] at hone
  exact ⟨_, hone⟩

/-! ## Verdicts -/

/-- Palindromes are accepted with a blank tape. -/
theorem takes_palindrome (hword : ∀ symbol ∈ word, IsBit symbol) (h : word.reverse = word)
    (start : Int) :
    ∃ head, p.Takes (steps word.length) (steps word.length)
      ⟨"q0", wordTape start word start⟩ ⟨"qa", wordTape 0 [] head⟩ (some .accept) := by
  induction word using List.bidirectionalRec generalizing start with
  | nil => exact takes_finish rules rules.finishEven start start
  | singleton a =>
      have ha : IsBit a := hword a (List.mem_singleton_self a)
      obtain ⟨head, hfinish⟩ := takes_finish rules (rules.finishOdd a ha) (start + 1) (start + 0)
      have hsteps : steps [a].length = 3 := by
        show steps 1 = 3
        decide
      rw [hsteps]
      -- The symbol is carried over nothing, and there is none to match it with.
      exact ⟨head, (takes_carry rules ha (List.forall_mem_nil _) start).trans hfinish⟩
  | cons_append a word b ih =>
      obtain ⟨ha, hrest⟩ := List.forall_mem_cons.1 hword
      obtain ⟨hinner, _⟩ := List.forall_mem_append.1 hrest
      obtain ⟨rfl, hreverse⟩ := reverse_eq_self_iff.1 h
      obtain ⟨head, hfinish⟩ := ih hinner hreverse (start + 1)
      rw [steps_between]
      exact ⟨head, (takes_round rules ha hinner start).trans hfinish⟩

/-- All other words are rejected within as many attempts. -/
theorem takes_other (hword : ∀ symbol ∈ word, IsBit symbol) (h : word.reverse ≠ word)
    (start : Int) :
    ∃ attempts applied c r, attempts ≤ steps word.length ∧
      p.Takes attempts applied ⟨"q0", wordTape start word start⟩ c (some (.reject r)) := by
  induction word using List.bidirectionalRec generalizing start with
  | nil => exact absurd rfl h
  | singleton a => exact absurd rfl h
  | cons_append a word b ih =>
      obtain ⟨ha, hrest⟩ := List.forall_mem_cons.1 hword
      obtain ⟨hinner, hlast⟩ := List.forall_mem_append.1 hrest
      rw [steps_between]
      -- Either the two symbols differ, or the word between them is no palindrome.
      by_cases hab : a = b
      · subst hab
        obtain ⟨attempts, applied, c, r, hle, htakes⟩ :=
          ih hinner (fun hreverse => h (reverse_eq_self_iff.2 ⟨rfl, hreverse⟩)) (start + 1)
        exact ⟨_, _, c, r, Nat.add_le_add_left hle _,
          (takes_round rules ha hinner start).trans htakes⟩
      · have hb : IsBit b := hlast b (List.mem_singleton_self b)
        obtain ⟨c, r, htakes⟩ := takes_mismatch rules ha hb hab hinner start
        exact ⟨_, _, c, r, by omega, htakes⟩

end

/-! ## The machine of the catalog -/

/-- A word is a palindrome exactly if its symbols are one. -/
theorem reverse_map_singleton_iff {chars : List Char} :
    (chars.map String.singleton).reverse = chars.map String.singleton ↔
      chars.reverse = chars := by
  rw [← List.map_reverse]
  exact List.map_inj_right fun c c' => String.singleton_inj.1

section

variable {m : Machine} (h : layout.Denotes m.program) {w : String}
  (hw : ∀ c ∈ w.toList, c = '0' ∨ c = '1') {budget : Nat} (hbudget : steps w.length ≤ budget)

include h hw hbudget

theorem execute_palindrome (hpalindrome : w.toList.reverse = w.toList) :
    ∃ final, m.execute w budget = .ok (.accepted, final) ∧ final.stepCount = steps w.length ∧
      (∃ tape, final.tapes = [tape] ∧ ∀ position, tape.symbolAt position = "_") ∧
      final.content = "" := by
  obtain ⟨head, htakes⟩ := takes_palindrome (rules_of_denotes h) (isBit_of_mem_toList hw)
    (reverse_map_singleton_iff.2 hpalindrome) 0
  rw [List.length_map, String.length_toList] at htakes
  obtain ⟨final, e, hexecute, hfinal, hend⟩ :=
    isBinary_layout.execute_of_takes h hw htakes hbudget
  obtain ⟨tape, htapes, hinfinite, _⟩ := Machine.tapes_of_isAt hfinal hend
  refine ⟨final, hexecute, Machine.stepCount_of_isAt hfinal hend,
    ⟨tape, htapes, fun position => ?_⟩, ?_⟩
  · exact (congrFun (congrArg InfiniteTape.cell hinfinite) position).trans cellAt_nil
  · exact Machine.content_of_isAt hfinal (isBinary_layout.blank_eq h) hend ⟨nofun, nofun⟩

theorem execute_other (hother : w.toList.reverse ≠ w.toList) :
    ∃ final, m.execute w budget = .ok (.rejected, final) := by
  obtain ⟨attempts, applied, c, r, hle, htakes⟩ := takes_other (rules_of_denotes h)
    (isBit_of_mem_toList hw) (mt reverse_map_singleton_iff.1 hother) 0
  rw [List.length_map, String.length_toList] at hle
  obtain ⟨final, e, hexecute, _⟩ :=
    isBinary_layout.execute_of_takes h hw htakes (Nat.le_trans hle hbudget)
  exact ⟨final, hexecute⟩

end

end Palindrome

open Palindrome in
/-- The machine for the palindromes accepts every palindrome, in exactly as many steps as the rounds
take, and leaves its tape blank, and it rejects all other words. -/
theorem binaryPalindrome_decides (w : String) (hw : ∀ c ∈ w.toList, c = '0' ∨ c = '1')
    (budget : Nat) (hbudget : (w.length + 1) * (w.length + 2) / 2 ≤ budget) :
    ∃ p, programNamed "binary-palindrome" = .ok p ∧
      (∃ m, Machine.ofProgram p = .ok m ∧ m.program = p) ∧
      ∀ m : Machine, m.program = p → ∃ final,
        m.execute w budget =
          .ok (if w.toList.reverse = w.toList then .accepted else .rejected, final) ∧
        (w.toList.reverse = w.toList →
          final.stepCount = (w.length + 1) * (w.length + 2) / 2 ∧
          (∃ tape, final.tapes = [tape] ∧ ∀ position, tape.symbolAt position = "_") ∧
          final.content = "") := by
  obtain ⟨p, hp, hmeans, hmachine⟩ := exists_program
  refine ⟨p, hp, hmachine, ?_⟩
  rintro m rfl
  by_cases hpalindrome : w.toList.reverse = w.toList
  · obtain ⟨final, hexecute, hfinal⟩ := execute_palindrome hmeans hw hbudget hpalindrome
    rw [if_pos hpalindrome]
    exact ⟨final, hexecute, fun _ => hfinal⟩
  · obtain ⟨final, hexecute⟩ := execute_other hmeans hw hbudget hpalindrome
    rw [if_neg hpalindrome]
    exact ⟨final, hexecute, fun h => absurd h hpalindrome⟩

/-- A word of five symbols that is a palindrome takes 21 steps. -/
theorem binaryPalindrome_decides_five :
    (∀ c ∈ "01010".toList, c = '0' ∨ c = '1') ∧
      ("01010".length + 1) * ("01010".length + 2) / 2 ≤ 21 ∧
      ∃ p m final, programNamed "binary-palindrome" = .ok p ∧ Machine.ofProgram p = .ok m ∧
        m.execute "01010" 21 = .ok (.accepted, final) ∧ final.stepCount = 21 ∧
        final.content = "" := by
  have hw : ∀ c ∈ "01010".toList, c = '0' ∨ c = '1' := by simp
  have hbudget : ("01010".length + 1) * ("01010".length + 2) / 2 ≤ 21 := by decide
  refine ⟨hw, hbudget, ?_⟩
  obtain ⟨p, hp, ⟨m, hm, hprogram⟩, hdecides⟩ := binaryPalindrome_decides "01010" hw 21 hbudget
  obtain ⟨final, hexecute, hfinal⟩ := hdecides m hprogram
  have hreverse : "01010".toList.reverse = "01010".toList := by decide
  rw [if_pos hreverse] at hexecute
  obtain ⟨hsteps, _, hcontent⟩ := hfinal hreverse
  exact ⟨p, m, final, hp, hm, hexecute, hsteps, hcontent⟩

end TapeMachine.Catalog
