import TapeMachine.Transition

/-!
# Violations of well-formedness

A program can be run if it obeys the rules of the formal model: states, alphabets, blank and
transitions must fit together. A violation names the rule that is broken and what breaks it.
-/

namespace TapeMachine

/-- A rule of the formal model that a program breaks. -/
inductive Violation where
  /-- There is no state. -/
  | noStates
  /-- No initial state is declared. -/
  | noInitialState
  /-- The initial state is not a state. -/
  | initialState (state : String)
  /-- There is no accepting state. -/
  | noAcceptingStates
  /-- An accepting state is not a state. -/
  | acceptingState (state : String)
  /-- An input symbol is not a tape symbol. -/
  | inputSymbol (symbol : Symbol)
  /-- No blank is declared. -/
  | noBlank
  /-- The blank is an input symbol. -/
  | blankIsInput (blank : Symbol)
  /-- The blank is not a tape symbol. -/
  | blankNotOnTape (blank : Symbol)
  /-- A transition leaves or enters something that is not a state. -/
  | transitionState (state : String)
  /-- A transition reads something that is not a tape symbol. -/
  | readSymbol (symbol : Symbol)
  /-- A transition writes something that is not a tape symbol. -/
  | writeSymbol (symbol : Symbol)
  /-- A transition of a machine with one tape does not move the head. -/
  | direction (direction : Direction)
  /-- A transition does not address every tape exactly once. -/
  | tapes (transition : Transition) (tapeCount : Nat)
deriving DecidableEq, Inhabited

/-- The broken rule in one sentence. -/
def Violation.message : Violation → String
  | noStates => "The machine must have at least one state"
  | noInitialState => "No initial state declared"
  | initialState state => s!"Initial state '{state}' is not in the state set Q"
  | noAcceptingStates => "The machine must have at least one accepting state"
  | acceptingState state => s!"Accepting state '{state}' is not in the state set Q"
  | inputSymbol symbol =>
    s!"Symbol '{symbol}' of the input alphabet Σ is not in the tape alphabet Γ"
  | noBlank => "No blank symbol declared"
  | blankIsInput blank => s!"Blank symbol '{blank}' must not be in the input alphabet Σ"
  | blankNotOnTape blank => s!"Blank symbol '{blank}' must be in the tape alphabet Γ"
  | transitionState state => s!"State '{state}' used in a transition is not in Q"
  | readSymbol symbol => s!"Read symbol '{symbol}' used in a transition is not in Γ"
  | writeSymbol symbol => s!"Write symbol '{symbol}' used in a transition is not in Γ"
  | direction d => s!"Direction '{d.letter}' in a transition is not valid (must be L or R)"
  | tapes t tapeCount => s!"Transition '{t.render}' does not address all {tapeCount} tapes"

end TapeMachine
