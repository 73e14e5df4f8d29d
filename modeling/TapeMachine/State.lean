import TapeMachine.KeyedSet

/-!
# States

A state is a name with two independent marks: whether runs start in it, and whether entering it
accepts. States are compared by their names alone.
-/

namespace TapeMachine

/-- A named state with its marks. -/
@[ext]
structure State where
  name : String
  initial : Bool := false
  accepting : Bool := false
deriving DecidableEq, Inhabited

namespace State

instance : Ord State := ⟨compareOn State.name⟩

/-- The name, followed by the marks that the state carries. -/
def render (s : State) : String :=
  s.name ++ (if s.initial then " (initial)" else "") ++ if s.accepting then " (accepting)" else ""

end State

/-- A set of states in the order of their names, at most one of each name. -/
abbrev StateSet := KeyedSet State.name

end TapeMachine
