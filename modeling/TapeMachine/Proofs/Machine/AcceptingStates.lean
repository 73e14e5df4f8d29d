import TapeMachine.Program.Lint
import TapeMachine.Proofs.Machine.Confinement

/-!
# Transitions out of accepting states

Entering an accepting state halts, so an execution that has not halted can be in an accepting state
only at its very beginning (`steps_eq_zero_of_isAccepting`). It is in one then if the initial state
accepts, since a run begins in this state without entering it. So the transitions that the warning
about accepting states is for never fire, with one exception: those out of the initial state fire in
the first step, on the inputs that begin with what they read (`applies_warned_iff`).
-/

namespace TapeMachine

namespace Program

variable {p : Program} {states : List String}

/-- The warning names the accepting states that have transitions out of them. -/
theorem mem_warned_iff (h : .acceptingStateTransitions states ∈ p.lint) {name : String} :
    name ∈ states ↔
      name ∈ p.accepting.toList ∧ ∃ t ∈ p.transitions.toList, t.state = name := by
  have hwarning : p.acceptingWarning? = some (.acceptingStateTransitions states) := by
    rcases List.mem_append.1 h with h | h
    · -- The other warning is not of this kind.
      have hother := Option.mem_toList.1 h
      unfold unreachableWarning? at hother
      split at hother
      · cases hother
      · simp only at hother
        split at hother <;> cases hother
    · exact Option.mem_toList.1 h
  simp only [acceptingWarning?] at hwarning
  split at hwarning
  · cases hwarning
  · obtain rfl := Warning.acceptingStateTransitions.inj (Option.some.inj hwarning)
    simp [TransitionTable.fromState]

/-- The symbols under the heads before the first step: the first character of the input, if there is
one, and blanks. -/
def firstSymbols (p : Program) (input : String) : List Symbol :=
  (List.range p.tapeCount).map fun i =>
    ((if i = 0 then input else "").toList.map String.singleton).headD (p.blank.getD "")

end Program

theorem Tape.read_ofContent (content : String) (blank : Symbol) (alphabet : Option Alphabet) :
    (ofContent content blank alphabet).read =
      (content.toList.map String.singleton).headD blank := by
  unfold ofContent
  cases content.toList <;> rfl

namespace Execution

variable {p : Program}

theorem symbols_initial (p : Program) (input : String) :
    (initial p input).symbols = p.firstSymbols input := by
  show (initialTapes p input).map Tape.read = _
  rw [initialTapes, List.map_map]
  exact List.map_congr_left fun i _ => Tape.read_ofContent _ _ _

/-- An execution that has not halted is in an accepting state only if nothing has been applied. -/
theorem steps_eq_zero_of_isAccepting {input : String} {n : Nat}
    (hhalt : ((initial p input).run p n).halt = none)
    (haccepting : p.isAccepting ((initial p input).run p n).state = true) :
    ((initial p input).run p n).steps = 0 := by
  rcases Nat.eq_zero_or_pos ((initial p input).run p n).steps with hzero | hpos
  · exact hzero
  · have haccept := (consistent_run p input n).accepted.2 ⟨hpos, haccepting⟩
    rw [hhalt] at haccept
    cases haccept

/-- If such an execution applies a transition, it is out of the initial state and reads what the
input begins with. -/
theorem transition?_of_isAccepting {input : String} {n : Nat} {t : Transition}
    (hhalt : ((initial p input).run p n).halt = none)
    (ht : ((initial p input).run p n).transition? p = some t)
    (haccepting : p.isAccepting t.state = true) :
    ((initial p input).run p n).steps = 0 ∧ t.state = p.initialName ∧
      t.read = p.firstSymbols input := by
  obtain ⟨_, hstate, hread⟩ := transition?_eq_some_iff.1 ht
  rw [hstate] at haccepting
  have hsteps := steps_eq_zero_of_isAccepting hhalt haccepting
  have hsame := run_of_steps_eq (p := p) (e := initial p input) (n := n) hsteps
  rw [hsame] at hstate hread
  exact ⟨hsteps, hstate, hread.trans (symbols_initial p input)⟩

end Execution

namespace Machine

/-- The transitions that the warning about accepting states is for are applied in first steps only,
and a run applies such a transition exactly if it is out of the initial state and reads what a valid
input begins with. -/
theorem applies_warned_iff (p : Program) (new : Machine) (hnew : ofProgram p = .ok new)
    (states : List String) (hwarned : .acceptingStateTransitions states ∈ p.lint)
    (t : Transition) (ht : t ∈ p.transitions.toList) (hstate : t.state ∈ states) :
    (∀ operations, (new.performAll operations).Applies t →
      (new.performAll operations).stepCount = 0) ∧
    ((∃ operations, (new.performAll operations).Applies t) ↔
      p.initial = some t.state ∧
        ∃ input, p.isValidInput input = true ∧ t.read = p.firstSymbols input) := by
  obtain ⟨rfl, hexecution⟩ := program_eq_of_ofProgram hnew
  have hwell := new.program_wellFormed
  have haccepting : new.program.isAccepting t.state = true :=
    new.program.isAccepting_iff.2 ((Program.mem_warned_iff hwarned).1 hstate).1
  have hfirst (operations : List Operation) (h : (new.performAll operations).Applies t) :
      (new.performAll operations).stepCount = 0 ∧ new.program.initial = some t.state ∧
        ∃ input, new.program.isValidInput input = true ∧
          t.read = new.program.firstSymbols input := by
    obtain ⟨hprogram, hrun⟩ := exists_run_of_performAll hnew operations
    obtain ⟨e, he, hhalt, hfires, _⟩ := h.exists_execution
    obtain ⟨input, n, hvalid, rfl⟩ := hrun e he
    rw [hprogram] at hfires
    obtain ⟨hsteps, hname, hread⟩ :=
      Execution.transition?_of_isAccepting hhalt hfires haccepting
    refine ⟨?_, ?_, input, hvalid, hread⟩
    · rw [stepCount, he]
      exact hsteps
    · rw [hname]
      exact hwell.initial_eq
  refine ⟨fun operations h => (hfirst operations h).1, ?_, ?_⟩
  · rintro ⟨operations, h⟩
    exact (hfirst operations h).2
  · rintro ⟨hinitial, input, hvalid, hread⟩
    have hload : new.performAll [.load input] =
        { new with execution := some (.initial new.program input) } := by
      show new.perform (.load input) = _
      rw [perform, load_of_valid hvalid]
    refine ⟨[.load input], ?_⟩
    rw [hload]
    refine ⟨⟨rfl, rfl⟩, ?_⟩
    show (Execution.initial new.program input).transition? new.program = some t
    refine Execution.transition?_eq_some_iff.2 ⟨ht, ?_, ?_⟩
    · rw [hwell.initial_eq] at hinitial
      exact (Option.some.inj hinitial).symm
    · rw [Execution.symbols_initial]
      exact hread

/-! ## A machine that begins in an accepting state -/

/-- The edits that assemble `returner`. -/
def returnerEdits : List Program.Edit := [
  .state "q0", .state "q1", .inputSymbol "0", .tapeSymbol "0", .blank "_", .initialState "q0",
  .acceptingState "q0",
  .transition (.single "q0" "0" "q1" "0" .right),
  .transition (.single "q1" "_" "q0" "_" .left)]

/-- The machine that leaves the accepting state in which it begins, and comes back to it. -/
def returner : Machine :=
  ⟨(Program.build 1 returnerEdits).toOption.getD {}, by decide, none⟩

/-- The warning is for the first transition of the machine, and the first step applies it. -/
theorem applies_warned_returner :
    ofProgram returner.program = .ok returner ∧
      .acceptingStateTransitions ["q0"] ∈ returner.program.lint ∧
      (returner.performAll [.load "0"]).Applies (.single "q0" "0" "q1" "0" .right) ∧
      (returner.performAll [.load "0"]).step.1 = .applied :=
  ⟨rfl, by decide, ⟨⟨by decide, by decide⟩, by decide⟩, by decide⟩

/-- The input of one zero begins with what the transition reads. -/
theorem applies_warned_iff_returner :
    ofProgram returner.program = .ok returner ∧
      .acceptingStateTransitions ["q0"] ∈ returner.program.lint ∧
      ∃ operations, (returner.performAll operations).Applies (.single "q0" "0" "q1" "0" .right) ∧
        (returner.performAll operations).stepCount = 0 := by
  have hwarned : .acceptingStateTransitions ["q0"] ∈ returner.program.lint := by decide
  obtain ⟨hfirst, hiff⟩ := applies_warned_iff returner.program returner rfl ["q0"] hwarned
    (.single "q0" "0" "q1" "0" .right) (by decide) (by decide)
  obtain ⟨operations, happlies⟩ := hiff.2 ⟨by decide, "0", by decide, by decide⟩
  exact ⟨rfl, hwarned, operations, happlies, hfirst operations happlies⟩

end Machine

end TapeMachine
