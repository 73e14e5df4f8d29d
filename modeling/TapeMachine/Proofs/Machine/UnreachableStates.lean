import TapeMachine.Proofs.Machine.Operations
import TapeMachine.Proofs.Machine.Halting
import TapeMachine.Proofs.Program.Reachability

/-!
# Unreachable states

A step that applies a transition follows an edge of the graph of transitions, and all other steps
stay at the same state. So a run is always at a state that transitions lead to from the initial one
(`reaches_run`), and the states that the warning about unreachable states lists are not entered by
any machine for the program (`unreachable_lists`).
-/

namespace TapeMachine

namespace Execution

variable {p : Program} {start : String} {e : Execution}

/-- A step leads from a state that is reached to one that is reached. -/
theorem reaches_step (h : p.Reaches start e.state) : p.Reaches start (e.step p).state := by
  rcases step_cases p e with ⟨_, _, hstep⟩ | ⟨t, _, ht, hstep⟩ | ⟨_, _, hstep⟩
  · rw [hstep]
    exact h
  · obtain ⟨hmem, hstate, _⟩ := transition?_eq_some_iff.1 ht
    rw [hstep]
    exact h.tail ⟨t, hmem, hstate, rfl⟩
  · rw [hstep]
    exact h

/-- A run is at a state that transitions lead to from the initial one. -/
theorem reaches_run (p : Program) (input : String) (n : Nat) :
    p.Reaches p.initialName ((initial p input).run p n).state := by
  have hinitial : p.Reaches p.initialName (initial p input).state := .refl
  exact run_induction (motive := fun e => p.Reaches p.initialName e.state)
    (fun _ => reaches_step) hinitial n

end Execution

namespace Machine

/-- Whatever operations are carried out on a new machine, it is at a state that transitions lead to
from the initial one. -/
theorem reaches_performAll {p : Program} {new : Machine} (hnew : ofProgram p = .ok new)
    (operations : List Operation) : p.Reaches p.initialName (new.performAll operations).state := by
  obtain ⟨hprogram, hrun⟩ := exists_run_of_performAll hnew operations
  rw [state]
  cases he : (new.performAll operations).execution with
  | none =>
      rw [hprogram]
      exact .refl
  | some e =>
      obtain ⟨input, n, _, rfl⟩ := hrun e he
      exact Execution.reaches_run p input n

/-- The warning about unreachable states is exact: exploring the transitions from any state comes
to an end of its own, and what is said about unreachable states is nothing if no initial state is
declared, and else the list of all states that transitions do not lead to from it, if there are any.
No machine for the program is ever in one of these. -/
theorem unreachable_lists (p : Program) :
    (∀ start bound, p.transitions.size < bound →
      (p.explore bound ⟨[start], []⟩).pending = [] ∧
        (p.explore bound ⟨[start], []⟩).visited = p.reached start) ∧
    (p.initial = none → p.unreachable = []) ∧
    (∀ start, p.initial = some start → ∃ states, p.ListsUnreachable start states ∧
      p.unreachable = if states = [] then [] else [states]) ∧
    ∀ new, ofProgram p = .ok new → ∀ operations, ∀ states ∈ p.unreachable,
      (new.performAll operations).state ∉ states := by
  refine ⟨fun start bound h => Program.explore_start h, Program.unreachable_of_initial_none,
    fun start => Program.exists_unreachable, ?_⟩
  intro new hnew operations states hstates hmem
  have hreaches := reaches_performAll hnew operations
  obtain ⟨rfl, _⟩ := program_eq_of_ofProgram hnew
  obtain ⟨listed, hlists, heq⟩ :=
    Program.exists_unreachable new.program_wellFormed.initial_eq
  rw [heq] at hstates
  split at hstates
  · cases hstates
  · rw [List.mem_singleton.1 hstates, hlists.mem] at hmem
    exact hmem.2 hreaches

/-! ## A machine with a state that is never entered -/

/-- The edits that assemble `bypass`. -/
def bypassEdits : List Program.Edit := [
  .state "go", .state "lost", .state "stop", .inputSymbol "1", .tapeSymbol "1", .blank "_",
  .initialState "go", .acceptingState "stop",
  .transition (.single "go" "1" "go" "1" .right),
  .transition (.single "go" "_" "stop" "_" .left),
  .transition (.single "lost" "1" "go" "1" .right)]

/-- The machine that walks over ones and has a state that leads to the others but not back. -/
def bypass : Machine :=
  ⟨(Program.build 1 bypassEdits).toOption.getD {}, by decide, none⟩

/-- Looks at two states end the exploration, well within its bound, and the third is not found. -/
theorem unreachable_lists_bypass :
    bypass.program.explore 4 ⟨["go"], []⟩ = ⟨[], ["stop", "go"]⟩ ∧
      bypass.program.ListsUnreachable "go" ["lost"] ∧ bypass.program.unreachable = [["lost"]] ∧
      (bypass.performAll [.load "1", .run 2]).state ∉ ["lost"] := by
  obtain ⟨_, _, hlisted, hnever⟩ := unreachable_lists bypass.program
  obtain ⟨states, hlists, heq⟩ := hlisted "go" (by decide)
  have hunreachable : bypass.program.unreachable = [["lost"]] := by decide
  rw [hunreachable] at heq
  split at heq
  · cases heq
  · obtain rfl := (List.cons.inj heq).1
    exact ⟨by decide, hlists, hunreachable,
      hnever bypass rfl [.load "1", .run 2] ["lost"] (by rw [hunreachable]; exact .head _)⟩

end Machine

end TapeMachine
