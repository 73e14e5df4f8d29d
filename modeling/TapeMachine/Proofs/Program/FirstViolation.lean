import TapeMachine.Proofs.Program.Assembled
import TapeMachine.Proofs.Program.TableOrder
import TapeMachine.Proofs.Program.WellFormed

/-!
# The first rule that a program breaks

The check goes through the rules of the formal model in the order of `Program.rules` and reports
the first one that is broken. `Program.Obeys` says what a rule asks for, and `Program.Breaks` how a
rule is broken and what is reported then: of several offenders the one with the least bytes, and of
several transitions the first one in the order of the table, for the first thing that is wrong with
it. `attemptAll_check` says that the check of every assembled program succeeds exactly if all rules
are obeyed, and otherwise reports the first broken one. The rules say nothing of the number of tapes
that a transition addresses, nor of the blank among the tape symbols, because edits see to both.
-/

namespace TapeMachine

namespace Program

/-! ## The rules -/

/-- The rules of the formal model, one for each part of a program. -/
inductive Rule where
  | states
  | initial
  | accepting
  | input
  | blank
  | transitions
deriving DecidableEq

/-- The rules in the order in which they are checked. -/
def rules : List Rule := [.states, .initial, .accepting, .input, .blank, .transitions]

theorem mem_rules (rule : Rule) : rule ∈ rules := by
  cases rule <;> decide

/-- What the rules ask of a transition: its states are states, its symbols are tape symbols, and the
head moves if there is only one. -/
structure Fits (p : Program) (t : Transition) : Prop where
  state : p.hasState t.state = true
  nextState : p.hasState t.nextState = true
  read : ∀ symbol ∈ t.read, p.tapeAlphabet.contains symbol = true
  write : ∀ symbol ∈ t.write, p.tapeAlphabet.contains symbol = true
  moves : p.tapeCount ≤ 1 → .stay ∉ t.directions

/-- What a rule asks of a program. -/
def Obeys (p : Program) : Rule → Prop
  | .states => p.states.toList ≠ []
  | .initial => ∃ name, p.initial = some name ∧ p.hasState name = true
  | .accepting =>
    p.accepting.toList ≠ [] ∧ ∀ name ∈ p.accepting.toList, p.hasState name = true
  | .input =>
    ∀ symbol ∈ p.inputAlphabet.symbols.toList, p.tapeAlphabet.contains symbol = true
  | .blank => ∃ symbol, p.blank = some symbol ∧ p.inputAlphabet.contains symbol = false
  | .transitions => ∀ t ∈ p.transitions.toList, p.Fits t

/-- What is reported of a transition that does not fit: the first thing that is wrong, from its
state on, and of the symbols of a tuple the leftmost one. -/
inductive Misfits (p : Program) (t : Transition) : Violation → Prop where
  | state (h : p.hasState t.state = false) : Misfits p t (.transitionState t.state)
  | nextState (hstate : p.hasState t.state = true) (h : p.hasState t.nextState = false) :
      Misfits p t (.transitionState t.nextState)
  | read (hstate : p.hasState t.state = true) (hnext : p.hasState t.nextState = true)
      {left right : List Symbol} {symbol : Symbol} (hread : t.read = left ++ symbol :: right)
      (hleft : ∀ other ∈ left, p.tapeAlphabet.contains other = true)
      (h : p.tapeAlphabet.contains symbol = false) : Misfits p t (.readSymbol symbol)
  | write (hstate : p.hasState t.state = true) (hnext : p.hasState t.nextState = true)
      (hread : ∀ symbol ∈ t.read, p.tapeAlphabet.contains symbol = true)
      {left right : List Symbol} {symbol : Symbol} (hwrite : t.write = left ++ symbol :: right)
      (hleft : ∀ other ∈ left, p.tapeAlphabet.contains other = true)
      (h : p.tapeAlphabet.contains symbol = false) : Misfits p t (.writeSymbol symbol)
  | stay (hstate : p.hasState t.state = true) (hnext : p.hasState t.nextState = true)
      (hread : ∀ symbol ∈ t.read, p.tapeAlphabet.contains symbol = true)
      (hwrite : ∀ symbol ∈ t.write, p.tapeAlphabet.contains symbol = true)
      (hone : p.tapeCount ≤ 1) (h : .stay ∈ t.directions) : Misfits p t (.direction .stay)

/-- How a program breaks a rule, and what is reported then. -/
inductive Breaks (p : Program) : Rule → Violation → Prop where
  | noStates (h : p.states.toList = []) : Breaks p .states .noStates
  | noInitialState (h : p.initial = none) : Breaks p .initial .noInitialState
  | initialState {name : String} (h : p.initial = some name) (hstate : p.hasState name = false) :
      Breaks p .initial (.initialState name)
  | noAcceptingStates (h : p.accepting.toList = []) : Breaks p .accepting .noAcceptingStates
  | acceptingState {name : String} (h : name ∈ p.accepting.toList)
      (hstate : p.hasState name = false)
      (hleast : ∀ other ∈ p.accepting.toList, Text.bytes other < Text.bytes name →
        p.hasState other = true) : Breaks p .accepting (.acceptingState name)
  | inputSymbol {symbol : Symbol} (h : symbol ∈ p.inputAlphabet.symbols.toList)
      (htape : p.tapeAlphabet.contains symbol = false)
      (hleast : ∀ other ∈ p.inputAlphabet.symbols.toList, Text.bytes other < Text.bytes symbol →
        p.tapeAlphabet.contains other = true) : Breaks p .input (.inputSymbol symbol)
  | noBlank (h : p.blank = none) : Breaks p .blank .noBlank
  | blankIsInput {symbol : Symbol} (h : p.blank = some symbol)
      (hinput : p.inputAlphabet.contains symbol = true) : Breaks p .blank (.blankIsInput symbol)
  | transition {t : Transition} {v : Violation} (h : t ∈ p.transitions.toList)
      (hmisfits : p.Misfits t v)
      (hleast : ∀ u ∈ p.transitions.toList, u.key.Precedes t.key → p.Fits u) :
      Breaks p .transitions v

/-- What is reported of a program that does not obey all rules: how it breaks the first one. -/
def Reports (p : Program) (v : Violation) : Prop :=
  ∃ earlier rule later, rules = earlier ++ rule :: later ∧
    (∀ other ∈ earlier, p.Obeys other) ∧ p.Breaks rule v

/-! ## The checks -/

/-- The check of a rule. -/
def ruleViolation? (p : Program) : Rule → Option Violation
  | .states => p.stateViolation?
  | .initial => p.initialViolation?
  | .accepting => p.acceptingViolation?
  | .input => p.inputViolation?
  | .blank => p.blankViolation?
  | .transitions => p.transitions.toList.findSome? p.transitionViolation?

theorem violation?_eq_findSome? (p : Program) :
    p.violation? = rules.findSome? p.ruleViolation? := by
  have hcons (rule : Rule) (more : List Rule) : (rule :: more).findSome? p.ruleViolation? =
      (p.ruleViolation? rule).or (more.findSome? p.ruleViolation?) := by
    rw [List.findSome?_cons]
    cases p.ruleViolation? rule <;> rfl
  simp only [violation?, rules, hcons, List.findSome?_nil, Option.or_none, Option.orElse_eq_orElse,
    Option.orElse_eq_or, ruleViolation?]

section

variable {p : Program} {t : Transition} {v : Violation} {rule : Rule}

theorem stateViolation?_eq_some_iff : p.stateViolation? = some v ↔ p.Breaks .states v := by
  unfold stateViolation?
  constructor
  · intro h
    split at h
    · next hempty =>
        obtain rfl := Option.some.inj h
        exact .noStates (List.isEmpty_iff.1 hempty)
    · cases h
  · intro h
    cases h with
    | noStates h => exact if_pos (List.isEmpty_iff.2 h)

theorem initialViolation?_eq_some_iff : p.initialViolation? = some v ↔ p.Breaks .initial v := by
  unfold initialViolation?
  constructor
  · intro h
    split at h
    · next hinitial =>
        obtain rfl := Option.some.inj h
        exact .noInitialState hinitial
    · next hinitial =>
        split at h
        · cases h
        · next hstate =>
            obtain rfl := Option.some.inj h
            exact .initialState hinitial (Bool.eq_false_iff.2 hstate)
  · intro h
    cases h with
    | noInitialState h => rw [h]
    | initialState h hstate => simp [h, hstate]

theorem acceptingViolation?_eq_some_iff :
    p.acceptingViolation? = some v ↔ p.Breaks .accepting v := by
  unfold acceptingViolation? KeyedSet.isEmpty
  constructor
  · intro h
    split at h
    · next hempty =>
        obtain rfl := Option.some.inj h
        exact .noAcceptingStates (List.isEmpty_iff.1 hempty)
    · obtain ⟨name, hname, rfl⟩ := Option.map_eq_some_iff.1 h
      obtain ⟨hmem, hstate, hleast⟩ := NameSet.find?_toList_eq_some_iff.1 hname
      exact .acceptingState hmem (by simpa using hstate) (by simpa using hleast)
  · intro h
    cases h with
    | noAcceptingStates h => exact if_pos (List.isEmpty_iff.2 h)
    | acceptingState h hstate hleast =>
        rw [if_neg (by simpa using List.ne_nil_of_mem h)]
        refine Option.map_eq_some_iff.2 ⟨_, NameSet.find?_toList_eq_some_iff.2 ⟨h, ?_, ?_⟩, rfl⟩
        · simpa using hstate
        · simpa using hleast

theorem inputViolation?_eq_some_iff : p.inputViolation? = some v ↔ p.Breaks .input v := by
  unfold inputViolation?
  rw [Option.map_eq_some_iff]
  constructor
  · rintro ⟨symbol, hsymbol, rfl⟩
    obtain ⟨hmem, htape, hleast⟩ := NameSet.find?_toList_eq_some_iff.1 hsymbol
    exact .inputSymbol hmem (by simpa using htape) (by simpa using hleast)
  · intro h
    cases h with
    | inputSymbol h htape hleast =>
        refine ⟨_, NameSet.find?_toList_eq_some_iff.2 ⟨h, ?_, ?_⟩, rfl⟩
        · simpa using htape
        · simpa using hleast

/-- The blank of a coherent program is a tape symbol, so there are only two ways to break the
rule. -/
theorem Coherent.blankViolation?_eq_some_iff (hp : p.Coherent) :
    p.blankViolation? = some v ↔ p.Breaks .blank v := by
  unfold blankViolation?
  constructor
  · intro h
    split at h
    · next hblank =>
        obtain rfl := Option.some.inj h
        exact .noBlank hblank
    · next symbol hblank =>
        rw [if_pos (hp.tapeAlphabet.contains_blank symbol hblank)] at h
        split at h
        · next hinput =>
            obtain rfl := Option.some.inj h
            exact .blankIsInput hblank hinput
        · cases h
  · intro h
    cases h with
    | noBlank h => rw [h]
    | blankIsInput h hinput => simp [h, hinput]

/-! ## Transitions -/

theorem admits_iff : p.Admits t ↔ t.tapeCount? = some p.tapeCount ∧ p.Fits t := by
  constructor
  · exact fun h => ⟨h.tapes, h.state, h.nextState, h.read, h.write, h.moves⟩
  · rintro ⟨htapes, h⟩
    exact ⟨htapes, h.state, h.nextState, h.read, h.write, h.moves⟩

/-- Of the symbols that are no tape symbols there is a leftmost one, unless there is none. -/
theorem forall_or_exists_leftmost (p : Program) (symbols : List Symbol) :
    (∀ symbol ∈ symbols, p.tapeAlphabet.contains symbol = true) ∨
      ∃ left symbol right, symbols = left ++ symbol :: right ∧
        (∀ other ∈ left, p.tapeAlphabet.contains other = true) ∧
        p.tapeAlphabet.contains symbol = false := by
  cases hfind : symbols.find? fun symbol => !p.tapeAlphabet.contains symbol with
  | none => exact .inl (by simpa using hfind)
  | some symbol =>
      obtain ⟨hnot, left, right, hsymbols, hleft⟩ := List.find?_eq_some_iff_append.1 hfind
      exact .inr ⟨left, symbol, right, hsymbols, by simpa using hleft, by simpa using hnot⟩

/-- A transition fits, or there is a first thing that is wrong with it. -/
theorem fits_or_exists_misfits (p : Program) (t : Transition) :
    p.Fits t ∨ ∃ v, p.Misfits t v := by
  cases hstate : p.hasState t.state with
  | false => exact .inr ⟨_, .state hstate⟩
  | true =>
  cases hnext : p.hasState t.nextState with
  | false => exact .inr ⟨_, .nextState hstate hnext⟩
  | true =>
  rcases p.forall_or_exists_leftmost t.read with hread | ⟨left, symbol, right, hread, hleft, h⟩
  case inr => exact .inr ⟨_, .read hstate hnext hread hleft h⟩
  rcases p.forall_or_exists_leftmost t.write with hwrite | ⟨left, symbol, right, hwrite, hleft, h⟩
  case inr => exact .inr ⟨_, .write hstate hnext hread hwrite hleft h⟩
  by_cases hmoves : p.tapeCount ≤ 1 → .stay ∉ t.directions
  case pos => exact .inl ⟨hstate, hnext, hread, hwrite, hmoves⟩
  case neg =>
    obtain ⟨hone, hstay⟩ := Classical.not_imp.1 hmoves
    exact .inr ⟨_, .stay hstate hnext hread hwrite hone (Classical.not_not.1 hstay)⟩

theorem find?_leftmost {left right : List Symbol} {symbol : Symbol}
    (hleft : ∀ other ∈ left, p.tapeAlphabet.contains other = true)
    (h : p.tapeAlphabet.contains symbol = false) :
    ((left ++ symbol :: right).find? fun other => !p.tapeAlphabet.contains other) =
      some symbol :=
  List.find?_eq_some_iff_append.2 ⟨by simpa using h, left, right, rfl, by simpa using hleft⟩

theorem find?_undeclared_eq_none {symbols : List Symbol}
    (h : ∀ symbol ∈ symbols, p.tapeAlphabet.contains symbol = true) :
    (symbols.find? fun symbol => !p.tapeAlphabet.contains symbol) = none := by
  simpa using h

/-- The check of a transition reports the first thing that is wrong with it. -/
theorem Misfits.transitionViolation?_eq (h : p.Misfits t v)
    (htapes : t.tapeCount? = some p.tapeCount) : p.transitionViolation? t = some v := by
  unfold transitionViolation?
  rw [if_neg (Classical.not_not.2 htapes)]
  cases h with
  | state h => simp [h]
  | nextState hstate h => simp [hstate, h]
  | read hstate hnext hread hleft h => simp [hstate, hnext, hread, find?_leftmost hleft h]
  | write hstate hnext hread hwrite hleft h =>
      simp [hstate, hnext, find?_undeclared_eq_none hread, hwrite, find?_leftmost hleft h]
  | stay hstate hnext hread hwrite hone h =>
      have hsingle : p.isMultiTape = false := by simpa [isMultiTape] using hone
      have hstay : (t.directions.find? fun d => !p.isMultiTape && d == .stay) = some .stay := by
        cases hfind : t.directions.find? fun d => !p.isMultiTape && d == .stay with
        | none => exact absurd (List.find?_eq_none.1 hfind _ h) (by simp [hsingle])
        | some found =>
            have hfound := List.find?_some hfind
            simp only [hsingle, Bool.not_false, Bool.true_and, beq_iff_eq] at hfound
            rw [hfound]
      simp [hstate, hnext, find?_undeclared_eq_none hread, find?_undeclared_eq_none hwrite, hstay]

theorem transitionViolation?_eq_some_iff (htapes : t.tapeCount? = some p.tapeCount) :
    p.transitionViolation? t = some v ↔ p.Misfits t v := by
  constructor
  · intro h
    rcases p.fits_or_exists_misfits t with hfits | ⟨w, hmisfits⟩
    · rw [transitionViolation?_eq_none_iff.2 (admits_iff.2 ⟨htapes, hfits⟩)] at h
      cases h
    · rw [hmisfits.transitionViolation?_eq htapes] at h
      exact Option.some.inj h ▸ hmisfits
  · exact fun h => h.transitionViolation?_eq htapes

/-- The check of the transitions reports the first one that does not fit. -/
theorem Coherent.findSome?_transitionViolation?_eq_some_iff (hp : p.Coherent) :
    p.transitions.toList.findSome? p.transitionViolation? = some v ↔ p.Breaks .transitions v := by
  rw [findSome?_eq_some_iff_of_pairwise p.transitions.increasing_precedes
    fun _ _ h => h.asymm]
  constructor
  · rintro ⟨t, ht, hviolation, hleast⟩
    refine .transition ht ((transitionViolation?_eq_some_iff (hp.transitions t ht)).1 hviolation) ?_
    exact fun u hu hlt => (admits_iff.1 (transitionViolation?_eq_none_iff.1 (hleast u hu hlt))).2
  · intro h
    cases h with
    | @transition t _ ht hmisfits hleast =>
        refine ⟨t, ht, hmisfits.transitionViolation?_eq (hp.transitions t ht), fun u hu hlt => ?_⟩
        exact transitionViolation?_eq_none_iff.2
          (admits_iff.2 ⟨hp.transitions u hu, hleast u hu hlt⟩)

/-! ## All rules -/

/-- The check of a rule reports how a coherent program breaks it. -/
theorem Coherent.ruleViolation?_eq_some_iff (hp : p.Coherent) :
    p.ruleViolation? rule = some v ↔ p.Breaks rule v := by
  cases rule with
  | states => exact stateViolation?_eq_some_iff
  | initial => exact initialViolation?_eq_some_iff
  | accepting => exact acceptingViolation?_eq_some_iff
  | input => exact inputViolation?_eq_some_iff
  | blank => exact hp.blankViolation?_eq_some_iff
  | transitions => exact hp.findSome?_transitionViolation?_eq_some_iff

/-- The check of a rule reports nothing of a coherent program that obeys it. -/
theorem Coherent.ruleViolation?_eq_none_iff (hp : p.Coherent) :
    p.ruleViolation? rule = none ↔ p.Obeys rule := by
  cases rule with
  | states => exact stateViolation?_eq_none_iff
  | initial => exact initialViolation?_eq_none_iff
  | accepting => exact acceptingViolation?_eq_none_iff
  | input => exact inputViolation?_eq_none_iff
  | blank =>
      refine blankViolation?_eq_none_iff.trans (exists_congr fun symbol => ?_)
      exact and_congr_right fun hblank =>
        and_iff_left (hp.tapeAlphabet.contains_blank symbol hblank)
  | transitions =>
      refine List.findSome?_eq_none_iff.trans (forall₂_congr fun t ht => ?_)
      rw [transitionViolation?_eq_none_iff, admits_iff, and_iff_right (hp.transitions t ht)]

theorem Coherent.violation?_eq_some_iff (hp : p.Coherent) :
    p.violation? = some v ↔ p.Reports v := by
  rw [violation?_eq_findSome?, List.findSome?_eq_some_iff]
  simp only [hp.ruleViolation?_eq_some_iff, hp.ruleViolation?_eq_none_iff]
  constructor
  · rintro ⟨earlier, rule, later, hrules, hbreaks, hobeys⟩
    exact ⟨earlier, rule, later, hrules, hobeys, hbreaks⟩
  · rintro ⟨earlier, rule, later, hrules, hobeys, hbreaks⟩
    exact ⟨earlier, rule, later, hrules, hbreaks, hobeys⟩

theorem Coherent.violation?_eq_none_iff (hp : p.Coherent) :
    p.violation? = none ↔ ∀ rule, p.Obeys rule := by
  rw [violation?_eq_findSome?, List.findSome?_eq_none_iff]
  exact ⟨fun h rule => hp.ruleViolation?_eq_none_iff.1 (h rule (mem_rules rule)),
    fun h rule _ => hp.ruleViolation?_eq_none_iff.2 (h rule)⟩

theorem Coherent.check_eq_error_iff (hp : p.Coherent) {e : MachineError} :
    p.check = .error e ↔ ∃ v, e = .validation (.violation v) ∧ p.Reports v := by
  simp only [← hp.violation?_eq_some_iff, check]
  cases p.violation? <;> simp [eq_comm]

end

/-- Two accepting states are no states, and there is no blank. -/
example : ((withTapes 1).attemptAll [.state "q", .initialState "q", .acceptingState "z",
    .acceptingState "y", .acceptingState "q"]).violation? = some (.acceptingState "y") := by
  decide

end Program

end TapeMachine
