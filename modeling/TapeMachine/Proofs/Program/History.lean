import TapeMachine.Proofs.Program.FirstViolation

/-!
# What edits make of a program

A program can be told from the edits that were attempted on the empty one, failing ones among them
(`Program.Records`): its names and symbols are those that were added, the initial state and the
blank are the last ones that were designated, and of several transitions for the same state and
symbols it has the first. Every attempt adds its edit to the record (`Records.attempt`), so a
program is determined by the edits (`Records.unique`).

`attemptAll_built` says what a program built in this way can be relied on for. A transition that is
refused leaves it as it is, which is a matter of the order in which a call that changes the program
in place does its work (`addTransitionInPlace`).
-/

namespace TapeMachine

/-- Sets with the same member under every key are the same. -/
theorem KeyedSet.eq_of_find?_eq {α κ : Type} [Ord κ] [Std.TransOrd κ] [Std.LawfulEqOrd κ]
    {key : α → κ} {s t : KeyedSet key} (h : ∀ k, s.find? k = t.find? k) : s = t :=
  eq_of_mem_iff fun _ => by rw [← find?_key_eq_some_iff, ← find?_key_eq_some_iff, h]

namespace Program

variable {p q : Program} {t : Transition} {err : MachineError}

/-! ## Transitions that are refused -/

/-- Why a transition cannot be added. -/
inductive Refuses (p : Program) (t : Transition) : MachineError → Prop where
  /-- Its three tuples differ in length. -/
  | mismatchedTuples (h : t.tapeCount? = none) :
      Refuses p t (.validation (.mismatchedTuples t.state))
  /-- It is for another number of tapes. -/
  | tapeCount {count : Nat} (h : t.tapeCount? = some count) (hne : count ≠ p.tapeCount) :
      Refuses p t (.tapeCountMismatch p.tapeCount count)
  /-- There is one for the same state and symbols. -/
  | nonDeterministic (h : t.tapeCount? = some p.tapeCount)
      (hkey : p.transitions.contains t.key = true) :
      Refuses p t (.nonDeterministic t.state t.read)

theorem addTransition_of_fresh (h : t.tapeCount? = some p.tapeCount)
    (hkey : p.transitions.contains t.key = false) :
    p.addTransition t = .ok { p with transitions := p.transitions.insert t } :=
  addTransition_eq_ok_iff.2 ⟨h, hkey, rfl⟩

theorem Refuses.addTransition_eq (h : p.Refuses t err) : p.addTransition t = .error err := by
  unfold addTransition
  cases h with
  | mismatchedTuples h => rw [h]
  | tapeCount h hne =>
      rw [h]
      exact if_neg hne
  | nonDeterministic h hkey =>
      have hinsert : p.transitions.insertNew t = (false, p.transitions) := if_pos hkey
      simp only [h, if_true, TransitionTable.add, hinsert, Except.map]

/-- A transition is either added or refused. -/
theorem fresh_or_exists_refuses (p : Program) (t : Transition) :
    t.tapeCount? = some p.tapeCount ∧ p.transitions.contains t.key = false ∨
      ∃ err, p.Refuses t err := by
  cases hcount : t.tapeCount? with
  | none => exact .inr ⟨_, .mismatchedTuples hcount⟩
  | some count =>
      by_cases heq : count = p.tapeCount
      case neg => exact .inr ⟨_, .tapeCount hcount heq⟩
      case pos =>
        subst heq
        cases hkey : p.transitions.contains t.key with
        | true => exact .inr ⟨_, .nonDeterministic hcount hkey⟩
        | false => exact .inl ⟨rfl, rfl⟩

theorem addTransition_eq_error_iff : p.addTransition t = .error err ↔ p.Refuses t err := by
  constructor
  · intro h
    rcases p.fresh_or_exists_refuses t with ⟨hcount, hkey⟩ | ⟨other, hother⟩
    · rw [addTransition_of_fresh hcount hkey] at h
      cases h
    · rw [hother.addTransition_eq] at h
      exact Except.error.inj h ▸ hother
  · exact Refuses.addTransition_eq

/-- Only transitions are refused. -/
theorem edit_eq_error_iff {e : Edit} :
    p.edit e = .error err ↔ ∃ t, e = .transition t ∧ p.Refuses t err := by
  cases e with
  | transition t =>
      simp only [Edit.transition.injEq, exists_eq_left', ← addTransition_eq_error_iff,
        Program.edit]
      cases p.addTransition t <;> simp [Except.map]
  | state | inputSymbol | tapeSymbol | initialState | blank | acceptingState =>
      simp [Program.edit]

/-- Add a transition to a program that is changed in place. A call that fails leaves behind what it
has changed before. -/
def addTransitionInPlace (t : Transition) : EStateM MachineError Program Unit := do
  let p ← get
  match t.tapeCount? with
  | none => throw (.validation (.mismatchedTuples t.state))
  | some count =>
    if count ≠ p.tapeCount then throw (.tapeCountMismatch p.tapeCount count)
    else if p.transitions.contains t.key then throw (.nonDeterministic t.state t.read)
    else set { p with transitions := p.transitions.insert t }

/-- In place or not, a transition is added to the same effect, and one that is refused leaves the
program as it is. -/
theorem run_addTransitionInPlace (p : Program) (t : Transition) :
    (addTransitionInPlace t).run p =
      match p.addTransition t with
      | .ok q => .ok () q
      | .error err => .error err p := by
  rw [addTransitionInPlace, EStateM.run_bind, EStateM.run_get]
  rcases p.fresh_or_exists_refuses t with ⟨hcount, hkey⟩ | ⟨err, h⟩
  · simp [addTransition_of_fresh hcount hkey, hcount, hkey]
  · rw [h.addTransition_eq]
    cases h with
    | mismatchedTuples h => simp [h]
    | tapeCount h hne => simp [h, hne]
    | nonDeterministic h hkey => simp [h, hkey]

/-! ## Single edits -/

namespace Edit

/-- The initial state that an edit designates. -/
def initialState? : Edit → Option String
  | .initialState name => some name
  | _ => none

/-- The blank that an edit designates. To designate the empty string has no effect. -/
def blank? : Edit → Option Symbol
  | .blank symbol => if symbol = "" then none else some symbol
  | _ => none

/-- The transition that an edit adds. -/
def transition? : Edit → Option Transition
  | .transition t => some t
  | _ => none

end Edit

theorem attempt_of_ok {e : Edit} {answer : Option Bool} (h : p.edit e = .ok (answer, q)) :
    p.attempt e = q := by
  rw [attempt, h]

theorem attempt_of_error {e : Edit} (h : p.edit e = .error err) : p.attempt e = p := by
  rw [attempt, h]

/-- A transition is added if it addresses every tape and is the first for its state and symbols. -/
theorem attempt_transition (p : Program) (t : Transition) :
    p.attempt (.transition t) = { p with
      transitions :=
        if t.tapeCount? = some p.tapeCount then (p.transitions.insertNew t).2
        else p.transitions } := by
  rcases p.fresh_or_exists_refuses t with ⟨hcount, hkey⟩ | ⟨err, h⟩
  · have hadd := addTransition_of_fresh hcount hkey
    have hinsert : p.transitions.insertNew t = (true, p.transitions.insert t) :=
      if_neg (Bool.eq_false_iff.1 hkey)
    rw [attempt_of_ok (edit_transition_eq_ok_iff.2 ⟨rfl, hadd⟩), if_pos hcount, hinsert]
  · rw [attempt_of_error (edit_eq_error_iff.2 ⟨t, rfl, h⟩)]
    cases h with
    | mismatchedTuples h => simp [h]
    | tapeCount h hne => simp [h, hne]
    | nonDeterministic h hkey =>
        have hinsert : p.transitions.insertNew t = (false, p.transitions) := if_pos hkey
        simp [hinsert]

/-! ## What an edit changes -/

section

variable (p : Program) (e : Edit)

theorem hasState_attempt_iff (name : String) :
    (p.attempt e).hasState name = true ↔ p.hasState name = true ∨ e = .state name := by
  cases e with
  | state other =>
      show (p.states.insertNew other).2.contains name = true ↔ _
      rw [KeyedSet.contains_insertNew, Bool.or_eq_true, decide_eq_true_iff, Edit.state.injEq,
        or_comm]
      rfl
  | transition t =>
      rw [attempt_transition]
      exact (or_iff_left nofun).symm
  | inputSymbol | tapeSymbol | initialState | blank | acceptingState =>
      exact (or_iff_left nofun).symm

theorem isAccepting_attempt_iff (name : String) :
    (p.attempt e).isAccepting name = true ↔
      p.isAccepting name = true ∨ e = .acceptingState name := by
  cases e with
  | acceptingState other =>
      show (p.accepting.insertNew other).2.contains name = true ↔ _
      rw [KeyedSet.contains_insertNew, Bool.or_eq_true, decide_eq_true_iff,
        Edit.acceptingState.injEq, or_comm]
      rfl
  | transition t =>
      rw [attempt_transition]
      exact (or_iff_left nofun).symm
  | state | inputSymbol | tapeSymbol | initialState | blank =>
      exact (or_iff_left nofun).symm

theorem inputAlphabet_attempt_iff (symbol : Symbol) :
    (p.attempt e).inputAlphabet.contains symbol = true ↔
      p.inputAlphabet.contains symbol = true ∨ symbol ≠ "" ∧ e = .inputSymbol symbol := by
  cases e with
  | inputSymbol other =>
      rw [Edit.inputSymbol.injEq]
      exact Alphabet.contains_addSymbol_iff p.inputAlphabet other symbol
  | transition t =>
      rw [attempt_transition]
      exact (or_iff_left (by simp)).symm
  | state | tapeSymbol | initialState | blank | acceptingState =>
      exact (or_iff_left (by simp)).symm

theorem inputBlank_attempt : (p.attempt e).inputAlphabet.blank = p.inputAlphabet.blank := by
  cases e with
  | inputSymbol symbol => exact Alphabet.blank_addSymbol p.inputAlphabet symbol
  | transition t => rw [attempt_transition]
  | state | tapeSymbol | initialState | blank | acceptingState => rfl

theorem tapeAlphabet_attempt_iff (symbol : Symbol) :
    (p.attempt e).tapeAlphabet.contains symbol = true ↔
      p.tapeAlphabet.contains symbol = true ∨
        symbol ≠ "" ∧ (e = .tapeSymbol symbol ∨ e = .blank symbol) := by
  cases e with
  | tapeSymbol other =>
      simp only [Edit.tapeSymbol.injEq, reduceCtorEq, or_false]
      exact Alphabet.contains_addSymbol_iff p.tapeAlphabet other symbol
  | blank other =>
      simp only [Edit.blank.injEq, reduceCtorEq, false_or]
      exact Alphabet.contains_setBlank_iff p.tapeAlphabet other symbol
  | transition t =>
      rw [attempt_transition]
      exact (or_iff_left (by simp)).symm
  | state | inputSymbol | initialState | acceptingState =>
      exact (or_iff_left (by simp)).symm

theorem blank_attempt : (p.attempt e).blank = e.blank?.or p.blank := by
  cases e with
  | blank symbol =>
      show (p.tapeAlphabet.setBlank symbol).blank = _
      rw [Alphabet.blank_setBlank_eq, Edit.blank?]
      split <;> rfl
  | tapeSymbol symbol => exact Alphabet.blank_addSymbol p.tapeAlphabet symbol
  | transition t =>
      rw [attempt_transition]
      rfl
  | state | inputSymbol | initialState | acceptingState => rfl

theorem initial_attempt : (p.attempt e).initial = e.initialState?.or p.initial := by
  cases e with
  | transition t =>
      rw [attempt_transition]
      rfl
  | state | inputSymbol | tapeSymbol | initialState | blank | acceptingState => rfl

/-- A transition fires on the state and the symbols of an edit only if none did before. -/
theorem find?_transitions_attempt (key : Transition.Key) :
    (p.attempt e).transitions.find? key = (p.transitions.find? key).or
      (e.transition?.filter fun t => t.tapeCount? = some p.tapeCount ∧ t.key = key) := by
  cases e with
  | transition t =>
      rw [attempt_transition]
      show KeyedSet.find? (if _ then _ else _) key = _
      by_cases hcount : t.tapeCount? = some p.tapeCount
      · rw [if_pos hcount, KeyedSet.find?_insertNew]
        simp [Edit.transition?, Option.filter, hcount]
      · rw [if_neg hcount]
        simp [Edit.transition?, Option.filter, hcount]
  | state | inputSymbol | tapeSymbol | initialState | blank | acceptingState =>
      exact (Option.or_none).symm

end

/-! ## Records -/

/-- The program holds what these edits make of the empty program with this many tapes. -/
structure Records (count : Nat) (edits : List Edit) (p : Program) : Prop where
  tapeCount : p.tapeCount = max count 1
  hasState : ∀ name, p.hasState name = true ↔ .state name ∈ edits
  isAccepting : ∀ name, p.isAccepting name = true ↔ .acceptingState name ∈ edits
  inputSymbols : ∀ symbol, p.inputAlphabet.contains symbol = true ↔
    symbol ≠ "" ∧ .inputSymbol symbol ∈ edits
  inputBlank : p.inputAlphabet.blank = none
  tapeSymbols : ∀ symbol, p.tapeAlphabet.contains symbol = true ↔
    symbol ≠ "" ∧ (.tapeSymbol symbol ∈ edits ∨ .blank symbol ∈ edits)
  blank : p.blank = (edits.filterMap Edit.blank?).getLast?
  initial : p.initial = (edits.filterMap Edit.initialState?).getLast?
  /-- Of the transitions that address every tape, the first for a state and symbols fires on
  them. -/
  transitions : ∀ key, p.transitions.find? key = (edits.filterMap Edit.transition?).find? fun t =>
    t.tapeCount? = some (max count 1) ∧ t.key = key

section

variable {count : Nat} {edits : List Edit}

theorem mem_append_edit_iff {e other : Edit} :
    other ∈ edits ++ [e] ↔ other ∈ edits ∨ e = other := by
  rw [List.mem_append, List.mem_singleton, eq_comm]

theorem filterMap_append_edit {α : Type} (part? : Edit → Option α) (e : Edit) :
    (edits ++ [e]).filterMap part? = edits.filterMap part? ++ (part? e).toList := by
  rw [List.filterMap_append, List.filterMap_cons, List.filterMap_nil]
  cases part? e <;> rfl

theorem getLast?_filterMap_append_edit {α : Type} (part? : Edit → Option α) (e : Edit) :
    ((edits ++ [e]).filterMap part?).getLast? =
      (part? e).or (edits.filterMap part?).getLast? := by
  rw [filterMap_append_edit, List.getLast?_append]
  cases part? e <;> rfl

theorem find?_filterMap_append_edit {α : Type} (part? : Edit → Option α) (e : Edit)
    (isMeant : α → Bool) :
    ((edits ++ [e]).filterMap part?).find? isMeant =
      ((edits.filterMap part?).find? isMeant).or ((part? e).filter isMeant) := by
  rw [filterMap_append_edit, List.find?_append]
  cases part? e with
  | none => rfl
  | some a =>
      rw [Option.toList_some, List.find?_singleton]
      rfl

theorem records_withTapes (count : Nat) : (withTapes count).Records count [] where
  tapeCount := rfl
  hasState name := by simp [withTapes, Program.hasState]
  isAccepting name := by simp [withTapes, Program.isAccepting]
  inputSymbols symbol := by simp; rfl
  inputBlank := rfl
  tapeSymbols symbol := by simp; rfl
  blank := rfl
  initial := rfl
  transitions _ := rfl

/-- Every attempt adds its edit to the record. -/
theorem Records.attempt (h : p.Records count edits) (e : Edit) :
    (p.attempt e).Records count (edits ++ [e]) where
  tapeCount := (tapeCount_attempt p e).trans h.tapeCount
  hasState name := by rw [hasState_attempt_iff, h.hasState, mem_append_edit_iff]
  isAccepting name := by rw [isAccepting_attempt_iff, h.isAccepting, mem_append_edit_iff]
  inputSymbols symbol := by
    rw [inputAlphabet_attempt_iff, h.inputSymbols, mem_append_edit_iff, and_or_left]
  inputBlank := (inputBlank_attempt p e).trans h.inputBlank
  tapeSymbols symbol := by
    rw [tapeAlphabet_attempt_iff, h.tapeSymbols, mem_append_edit_iff, mem_append_edit_iff,
      ← and_or_left, or_or_or_comm]
  blank := by rw [blank_attempt, h.blank, getLast?_filterMap_append_edit]
  initial := by rw [initial_attempt, h.initial, getLast?_filterMap_append_edit]
  transitions key := by
    rw [find?_transitions_attempt, h.transitions, h.tapeCount, find?_filterMap_append_edit]

theorem Records.attemptAll (h : p.Records count edits) (more : List Edit) :
    (p.attemptAll more).Records count (edits ++ more) := by
  induction more generalizing p edits with
  | nil => rwa [List.append_nil]
  | cons e more ih =>
      have hmore := ih (h.attempt e)
      rwa [List.append_assoc, List.singleton_append] at hmore

theorem records_attemptAll (count : Nat) (edits : List Edit) :
    ((withTapes count).attemptAll edits).Records count edits :=
  (records_withTapes count).attemptAll edits

/-- There is only one program with this record. -/
theorem Records.unique (h : p.Records count edits) (h' : q.Records count edits) : p = q := by
  apply Program.ext
  case states =>
    exact NameSet.eq_of_contains_iff fun name => (h.hasState name).trans (h'.hasState name).symm
  case inputAlphabet =>
    have hblank := h.inputBlank.trans h'.inputBlank.symm
    refine Alphabet.ext (NameSet.eq_of_contains_iff fun symbol => ?_) hblank
    exact (h.inputSymbols symbol).trans (h'.inputSymbols symbol).symm
  case tapeAlphabet =>
    have hblank := h.blank.trans h'.blank.symm
    refine Alphabet.ext (NameSet.eq_of_contains_iff fun symbol => ?_) hblank
    exact (h.tapeSymbols symbol).trans (h'.tapeSymbols symbol).symm
  case initial => exact h.initial.trans h'.initial.symm
  case accepting =>
    exact NameSet.eq_of_contains_iff fun name =>
      (h.isAccepting name).trans (h'.isAccepting name).symm
  case transitions =>
    exact KeyedSet.eq_of_find?_eq fun key => (h.transitions key).trans (h'.transitions key).symm
  case tapeCount => exact h.tapeCount.trans h'.tapeCount.symm

end

/-! ## What is built can be relied on -/

/-- What holds of the program that these edits make of the empty one with this many tapes, whatever
the edits are. -/
structure Built (count : Nat) (edits : List Edit) (p : Program) : Prop where
  tapeCount : p.tapeCount = max count 1
  /-- Every transition addresses every tape. -/
  lengths : ∀ t ∈ p.transitions.toList, t.read.length = p.tapeCount ∧
    t.write.length = p.tapeCount ∧ t.directions.length = p.tapeCount
  /-- Every transition is found under its own state and symbols, and under no others. -/
  keys : ∀ state symbols t, p.transitions.get? state symbols = some t ↔
    t ∈ p.transitions.toList ∧ t.state = state ∧ t.read = symbols
  inputSymbols : p.inputAlphabet.contains "" = false
  tapeSymbols : p.tapeAlphabet.contains "" = false
  contains_blank : ∀ symbol, p.blank = some symbol → p.tapeAlphabet.contains symbol = true
  /-- The blank is the last that was designated, where the empty string does not count. -/
  blank : p.blank = (edits.filterMap Edit.blank?).getLast?
  /-- The next edit fails only if it is a transition that is refused, and then changes nothing. -/
  refused : ∀ e err, p.edit e = .error err → ∃ t, e = .transition t ∧ p.Refuses t err ∧
    (addTransitionInPlace t).run p = .error err p
  /-- The check has nothing to say of the tapes that a transition addresses, nor of a blank that is
  no tape symbol. -/
  check : ∀ err, p.check = .error err →
    (∀ t tapes, err ≠ .validation (.violation (.tapes t tapes))) ∧
      ∀ symbol, err ≠ .validation (.violation (.blankNotOnTape symbol))
  /-- Nothing fires where no symbols are read. -/
  get?_nil : ∀ state, p.transitions.get? state [] = none

theorem tapeCount?_eq_some_iff {count : Nat} : t.tapeCount? = some count ↔
    t.read.length = count ∧ t.write.length = count ∧ t.directions.length = count := by
  unfold Transition.tapeCount?
  split
  · next h => grind
  · next h => grind

/-- A violation that is reported is neither of the two that edits see to. -/
theorem Reports.ne {v : Violation} (h : p.Reports v) :
    (∀ t tapes, v ≠ .tapes t tapes) ∧ ∀ symbol, v ≠ .blankNotOnTape symbol := by
  obtain ⟨_, _, _, _, _, hbreaks⟩ := h
  cases hbreaks with
  | transition _ hmisfits _ =>
      cases hmisfits <;> exact ⟨nofun, nofun⟩
  | noStates | noInitialState | initialState | noAcceptingStates | acceptingState | inputSymbol
  | noBlank | blankIsInput => exact ⟨nofun, nofun⟩

/-- Whatever edits are attempted on the empty program, it keeps its shape. -/
theorem attemptAll_built (count : Nat) (edits : List Edit) :
    ((withTapes count).attemptAll edits).Built count edits := by
  let p := (withTapes count).attemptAll edits
  have hrecords : p.Records count edits := records_attemptAll count edits
  have hcoherent : p.Coherent := ((Assembled.withTapes count).attemptAll edits).coherent
  have hlengths (t : Transition) (ht : t ∈ p.transitions.toList) :=
    tapeCount?_eq_some_iff.1 (hcoherent.transitions t ht)
  constructor
  case tapeCount => exact hrecords.tapeCount
  case lengths => exact hlengths
  case keys => exact fun _ _ _ => TransitionTable.get?_eq_some_iff
  case inputSymbols => exact hcoherent.inputAlphabet.contains_empty
  case tapeSymbols => exact hcoherent.tapeAlphabet.contains_empty
  case contains_blank => exact hcoherent.tapeAlphabet.contains_blank
  case blank => exact hrecords.blank
  case refused =>
    intro e err he
    obtain ⟨t, rfl, ht⟩ := edit_eq_error_iff.1 he
    refine ⟨t, rfl, ht, ?_⟩
    rw [run_addTransitionInPlace, ht.addTransition_eq]
  case check =>
    intro err herr
    obtain ⟨v, rfl, hreports⟩ := hcoherent.check_eq_error_iff.1 herr
    have hne := hreports.ne
    simpa using hne
  case get?_nil =>
    refine TransitionTable.get?_nil fun t ht => ?_
    rw [(hlengths t ht).1]
    exact hcoherent.tapeCount

end Program

end TapeMachine
