import TapeMachine.Program

/-!
# Findings that do not prevent a run

A state that no sequence of transitions leads to, and a transition out of an accepting state, are
usually mistakes. `Program.explore` goes through the graph whose edges lead from the state of a
transition to its next state, depth first; the states left out of it are reported.
-/

namespace TapeMachine

/-- A finding about a program that can nevertheless be run. -/
inductive Warning where
  /-- States that no sequence of transitions reaches from the initial state. -/
  | unreachableStates (states : List String)
  /-- Accepting states with transitions out of them. -/
  | acceptingStateTransitions (states : List String)
deriving DecidableEq, Inhabited

/-- The finding in words. -/
def Warning.message : Warning → String
  | unreachableStates states => s!"Unreachable states detected: {Text.quotedList states}"
  | acceptingStateTransitions states =>
    s!"Transitions out of accepting states never fire: {Text.quotedList states}"

/-- How far the graph of transitions has been explored: the states to look at, the next one first,
and the states looked at before, the latest first. -/
structure Exploration where
  pending : List String
  visited : List String := []
deriving DecidableEq, Inhabited

namespace Program

/-- Look at the next pending state. If it is new, the states that transitions lead to from it become
pending, but for those that were visited. -/
def look? (p : Program) : Exploration → Option Exploration
  | ⟨[], _⟩ => none
  | ⟨state :: pending, visited⟩ =>
    if visited.contains state then some ⟨pending, visited⟩
    else
      let visited := state :: visited
      let next := (p.transitions.fromState state).map Transition.nextState
      some ⟨(next.filter fun name => !visited.contains name).reverse ++ pending, visited⟩

/-- Look at pending states until none is left, but at no more than the bound says. -/
def explore (p : Program) : Nat → Exploration → Exploration
  | 0, e => e
  | bound + 1, e =>
    match p.look? e with
    | none => e
    | some next => explore p bound next

/-- The states that can be reached from this one. Every transition makes a state pending at most
once, so there is one look for each of them and one for the start. -/
def reached (p : Program) (start : String) : List String :=
  (p.explore (p.transitions.size + 1) ⟨[start], []⟩).visited

/-- The states that no sequence of transitions reaches from the initial state. -/
def unreachableWarning? (p : Program) : Option Warning :=
  match p.initial with
  | none => none
  | some start =>
    let reached := p.reached start
    let states := p.states.toList.filter fun name => !reached.contains name
    if states.isEmpty then none else some (.unreachableStates states)

/-- The accepting states that have transitions out of them. -/
def acceptingWarning? (p : Program) : Option Warning :=
  let states := p.accepting.toList.filter fun name => !(p.transitions.fromState name).isEmpty
  if states.isEmpty then none else some (.acceptingStateTransitions states)

/-- All findings about the program. -/
def lint (p : Program) : List Warning :=
  p.unreachableWarning?.toList ++ p.acceptingWarning?.toList

end Program

end TapeMachine
