import TapeMachine.Program.WellFormed

/-!
# What well-formed programs are

`Program.WellFormed` says what the rules of the formal model ask for, and `violation?_eq_none_iff`
that the check finds no violation exactly if a program obeys them. A look-up in the table of a
program finds exactly the transition listed for the state and symbols (`get?_eq_some_iff`).
-/

namespace TapeMachine

namespace TransitionTable

variable {table : TransitionTable} {state : String} {symbols : List Symbol} {t : Transition}

/-- A look-up finds exactly the transition that is listed for the state and the symbols. -/
theorem get?_eq_some_iff :
    table.get? state symbols = some t ↔ t ∈ table.toList ∧ t.state = state ∧ t.read = symbols := by
  unfold get?
  rw [KeyedSet.find?_eq_some_iff, Transition.key, Transition.Key.mk.injEq]

/-- A look-up finds nothing exactly if no transition is listed for the state and the symbols. -/
theorem get?_eq_none_iff :
    table.get? state symbols = none ↔
      ∀ t ∈ table.toList, ¬ (t.state = state ∧ t.read = symbols) := by
  constructor
  · intro hnone t ht hkey
    rw [get?_eq_some_iff.2 ⟨ht, hkey⟩] at hnone
    cases hnone
  · intro h
    cases hget : table.get? state symbols with
    | none => rfl
    | some t =>
        obtain ⟨ht, hkey⟩ := get?_eq_some_iff.1 hget
        exact absurd hkey (h t ht)

/-- Nothing fires on no symbols if every transition reads some. -/
theorem get?_nil (h : ∀ t ∈ table.toList, 0 < t.read.length) (state : String) :
    table.get? state [] = none := by
  rw [get?_eq_none_iff]
  rintro t ht ⟨_, hread⟩
  have hpos := h t ht
  rw [hread] at hpos
  exact absurd hpos (Nat.lt_irrefl 0)

end TransitionTable

/-- The symbol that is named for a text is its first character outside the alphabet. -/
theorem Alphabet.firstInvalid?_eq_some_iff {a : Alphabet} {text : String} {symbol : Symbol} :
    a.firstInvalid? text = some symbol ↔ ∃ before c after, text.toList = before ++ c :: after ∧
      symbol = String.singleton c ∧ (∀ d ∈ before, a.contains (String.singleton d) = true) ∧
      a.contains symbol = false := by
  unfold firstInvalid?
  rw [List.find?_map, Option.map_eq_some_iff]
  simp only [List.find?_eq_some_iff_append, Function.comp, Bool.not_eq_true', Bool.not_not]
  constructor
  · rintro ⟨c, ⟨hc, before, after, htext, hbefore⟩, rfl⟩
    exact ⟨before, c, after, htext, rfl, hbefore, hc⟩
  · rintro ⟨before, c, after, htext, rfl, hbefore, hc⟩
    exact ⟨c, ⟨hc, before, after, htext, hbefore⟩, rfl⟩

namespace Program

/-- What the formal model asks of a transition of the program. -/
structure Admits (p : Program) (t : Transition) : Prop where
  /-- The transition addresses every tape once. -/
  tapes : t.tapeCount? = some p.tapeCount
  state : p.hasState t.state = true
  nextState : p.hasState t.nextState = true
  read : ∀ symbol ∈ t.read, p.tapeAlphabet.contains symbol = true
  write : ∀ symbol ∈ t.write, p.tapeAlphabet.contains symbol = true
  /-- With one tape, the head moves. -/
  moves : p.tapeCount ≤ 1 → .stay ∉ t.directions

/-- What the formal model asks of a program. -/
structure WellFormed (p : Program) : Prop where
  states : p.states.toList ≠ []
  initial : ∃ name, p.initial = some name ∧ p.hasState name = true
  accepting_ne : p.accepting.toList ≠ []
  accepting : ∀ name ∈ p.accepting.toList, p.hasState name = true
  input : ∀ symbol ∈ p.inputAlphabet.symbols.toList, p.tapeAlphabet.contains symbol = true
  blank : ∃ symbol, p.blank = some symbol ∧ p.inputAlphabet.contains symbol = false ∧
    p.tapeAlphabet.contains symbol = true
  transitions : ∀ t ∈ p.transitions.toList, p.Admits t

/-- A name is that of an accepting state exactly if it is declared as one. -/
theorem isAccepting_iff (p : Program) {name : String} :
    p.isAccepting name = true ↔ name ∈ p.accepting.toList := by
  simp [isAccepting, KeyedSet.contains_iff]

/-- An input is valid exactly if each of its characters is an input symbol. -/
theorem isValidInput_iff {p : Program} {input : String} :
    p.isValidInput input = true ↔
      ∀ symbol ∈ input.toList.map String.singleton, p.inputAlphabet.contains symbol = true := by
  simp only [isValidInput, Alphabet.isValidText, Alphabet.firstInvalid?,
    Option.isNone_iff_eq_none, List.find?_eq_none, Bool.not_eq_true', Bool.not_eq_false]

/-! ## The rules one by one -/

theorem stateViolation?_eq_none_iff {p : Program} :
    p.stateViolation? = none ↔ p.states.toList ≠ [] := by
  simp [stateViolation?, KeyedSet.isEmpty]

theorem initialViolation?_eq_none_iff {p : Program} :
    p.initialViolation? = none ↔ ∃ name, p.initial = some name ∧ p.hasState name = true := by
  unfold initialViolation?
  cases p.initial <;> simp

theorem acceptingViolation?_eq_none_iff {p : Program} :
    p.acceptingViolation? = none ↔
      p.accepting.toList ≠ [] ∧ ∀ name ∈ p.accepting.toList, p.hasState name = true := by
  unfold acceptingViolation? KeyedSet.isEmpty
  cases p.accepting.toList <;> simp

theorem inputViolation?_eq_none_iff {p : Program} :
    p.inputViolation? = none ↔
      ∀ symbol ∈ p.inputAlphabet.symbols.toList, p.tapeAlphabet.contains symbol = true := by
  simp [inputViolation?]

theorem blankViolation?_eq_none_iff {p : Program} :
    p.blankViolation? = none ↔ ∃ symbol, p.blank = some symbol ∧
      p.inputAlphabet.contains symbol = false ∧ p.tapeAlphabet.contains symbol = true := by
  unfold blankViolation?
  cases p.blank with
  | none => simp
  | some symbol => cases h : p.inputAlphabet.contains symbol <;> simp [h]

theorem transitionViolation?_eq_none_iff {p : Program} {t : Transition} :
    p.transitionViolation? t = none ↔ p.Admits t := by
  unfold transitionViolation?
  constructor
  · intro h
    by_cases htapes : t.tapeCount? = some p.tapeCount
    · simp only [htapes, ne_eq, not_true_eq_false, if_false, Option.orElse_eq_orElse,
        Option.orElse_eq_or, Option.or_eq_none_iff, Option.map_eq_none_iff,
        List.find?_eq_none, isMultiTape] at h
      obtain ⟨hstates, hread, hwrite, hmoves⟩ := h
      exact {
        tapes := htapes
        state := by simpa using hstates t.state (by simp)
        nextState := by simpa using hstates t.nextState (by simp)
        read := by simpa using hread
        write := by simpa using hwrite
        moves := fun hone hstay => by simpa [hone] using hmoves _ hstay }
    · simp [htapes] at h
  · intro h
    have hmoves := h.moves
    simp only [h.tapes, ne_eq, not_true_eq_false, if_false, Option.orElse_eq_orElse,
      Option.orElse_eq_or, Option.or_eq_none_iff, Option.map_eq_none_iff,
      List.find?_eq_none, isMultiTape]
    refine ⟨?_, by simpa using h.read, by simpa using h.write, ?_⟩
    · simp [h.state, h.nextState]
    · intro d hd hbad
      simp only [Bool.and_eq_true, Bool.not_eq_true', decide_eq_false_iff_not, beq_iff_eq,
        Nat.not_lt] at hbad
      exact hmoves hbad.1 (hbad.2 ▸ hd)

/-- The check finds no violation exactly if the program obeys every rule. -/
theorem violation?_eq_none_iff {p : Program} : p.violation? = none ↔ p.WellFormed := by
  simp only [violation?, Option.orElse_eq_orElse, Option.orElse_eq_or, Option.or_eq_none_iff,
    stateViolation?_eq_none_iff, initialViolation?_eq_none_iff, acceptingViolation?_eq_none_iff,
    inputViolation?_eq_none_iff, blankViolation?_eq_none_iff, List.findSome?_eq_none_iff,
    transitionViolation?_eq_none_iff]
  constructor
  · rintro ⟨hstates, hinitial, ⟨hne, haccepting⟩, hinput, hblank, htransitions⟩
    exact ⟨hstates, hinitial, hne, haccepting, hinput, hblank, htransitions⟩
  · intro h
    exact ⟨h.states, h.initial, ⟨h.accepting_ne, h.accepting⟩, h.input, h.blank, h.transitions⟩

/-! ## Consequences -/

section

variable {p : Program} {t : Transition}

/-- An admitted transition has one symbol to read, one to write and one move for each tape. -/
theorem Admits.lengths (h : p.Admits t) :
    t.read.length = p.tapeCount ∧ t.write.length = p.tapeCount ∧
      t.directions.length = p.tapeCount := by
  have htapes := h.tapes
  unfold Transition.tapeCount? at htapes
  split at htapes
  · next hlen =>
      have hread := Option.some.inj htapes
      exact ⟨hread, hlen.1.trans hread, hlen.2.trans hread⟩
  · cases htapes

/-- The name that stands for an undeclared initial state is never used. -/
theorem WellFormed.initial_eq (h : p.WellFormed) : p.initial = some p.initialName := by
  obtain ⟨name, hname, _⟩ := h.initial
  rw [initialName, hname, Option.getD_some]

/-- The symbol that stands for an undeclared blank is never used. -/
theorem WellFormed.blank_eq (h : p.WellFormed) : p.blank = some (p.blank.getD "") := by
  obtain ⟨symbol, hsymbol, _⟩ := h.blank
  rw [hsymbol, Option.getD_some]

/-- No character of a valid input is the blank. -/
theorem WellFormed.ne_blank_of_valid (h : p.WellFormed) {input : String}
    (hvalid : p.isValidInput input = true) {symbol : Symbol}
    (hsymbol : symbol ∈ input.toList.map String.singleton) : symbol ≠ p.blank.getD "" := by
  obtain ⟨blank, hblank, hinput, _⟩ := h.blank
  rw [hblank, Option.getD_some]
  rintro rfl
  rw [isValidInput_iff.1 hvalid symbol hsymbol] at hinput
  cases hinput

/-- The characters of a valid input are tape symbols. -/
theorem WellFormed.contains_of_valid (h : p.WellFormed) {input : String}
    (hvalid : p.isValidInput input = true) {symbol : Symbol}
    (hsymbol : symbol ∈ input.toList.map String.singleton) :
    p.tapeAlphabet.contains symbol = true :=
  h.input symbol (NameSet.mem_toList_iff.2 (isValidInput_iff.1 hvalid symbol hsymbol))

/-- The blank is a tape symbol. -/
theorem WellFormed.contains_blank (h : p.WellFormed) :
    p.tapeAlphabet.contains (p.blank.getD "") = true := by
  obtain ⟨blank, hblank, _, hcontains⟩ := h.blank
  rw [hblank]
  exact hcontains

end

end Program

end TapeMachine
