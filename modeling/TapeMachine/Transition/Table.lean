import TapeMachine.Error

/-!
# Transition tables

A table is a deterministic partial function from pairs of a state and the symbols read to
transitions, listed in the order of those pairs. Adding a second transition for a pair fails.
-/

namespace TapeMachine

/-- A set of transitions, at most one for each key, in the order of the keys. -/
abbrev TransitionTable := KeyedSet Transition.key

namespace TransitionTable

/-- Add a transition, unless there already is one for the same state and symbols. -/
def add (table : TransitionTable) (t : Transition) : Except MachineError TransitionTable :=
  match table.insertNew t with
  | (true, table) => .ok table
  | (false, _) => .error (.nonDeterministic t.state t.read)

/-- The transition that fires in this state on these symbols. -/
def get? (table : TransitionTable) (state : String) (symbols : List Symbol) : Option Transition :=
  table.find? ⟨state, symbols⟩

/-- The transitions out of a state, in the order of the table. -/
def fromState (table : TransitionTable) (state : String) : List Transition :=
  table.toList.filter fun t => t.state == state

end TransitionTable

end TapeMachine
