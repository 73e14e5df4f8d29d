import TapeMachine.Proofs.Program.WellFormed
import TapeMachine.Specification.Program

/-!
# Layouts of specifications

A `Layout` is what the lines of a specification say by their places. `Layout.Valid` says which
layouts are those of a machine with one tape, and can be decided; `Layout.Denotes` says what program
a layout stands for. Such a program fires on the lines of the layout (`Denotes.get?_of_mem`,
`Denotes.get?_eq_none`), and it is well-formed exactly if the layout is valid
(`Denotes.wellFormed_iff_valid`).
-/

namespace TapeMachine.Specification

/-- The token lines of a specification by their places. -/
structure Layout where
  states : List String
  inputSymbols : List Symbol
  tapeSymbols : List Symbol
  /-- The line of the initial state, of which the first token counts. -/
  initial : List String
  /-- The line of the blank, of which the first token counts. -/
  blank : List Symbol
  accepting : List String
  transitions : List (List String)
deriving DecidableEq, Inhabited

namespace Layout

/-- The layout of token lines, of which there have to be at least six. -/
def ofLines? : List (List String) → Option Layout
  | states :: inputSymbols :: tapeSymbols :: initial :: blank :: accepting :: transitions =>
    some { states, inputSymbols, tapeSymbols, initial, blank, accepting, transitions }
  | _ => none

/-- The line holds a state, the symbol read, the next state, the symbol written and a move to the
left or to the right. -/
def IsTransition (l : Layout) (line : List String) : Prop :=
  ∃ state read next write move, line = [state, read, next, write, move] ∧ state ∈ l.states ∧
    next ∈ l.states ∧ read ∈ l.tapeSymbols ∧ write ∈ l.tapeSymbols ∧ (move = "L" ∨ move = "R")

/-- The layout is that of a deterministic machine with one tape. -/
structure Valid (l : Layout) : Prop where
  initial : ∃ name, l.initial.head? = some name ∧ name ∈ l.states
  accepting : ∀ name ∈ l.accepting, name ∈ l.states
  inputSymbols : ∀ symbol ∈ l.inputSymbols, symbol ∈ l.tapeSymbols
  blank : ∃ symbol, l.blank.head? = some symbol ∧ symbol ∈ l.tapeSymbols ∧
    symbol ∉ l.inputSymbols
  transitions : ∀ line ∈ l.transitions, l.IsTransition line
  /-- No two lines have the same state and symbol read. -/
  deterministic : (l.transitions.map fun line => line.take 2).Nodup

instance (l : Layout) (line : List String) : Decidable (l.IsTransition line) :=
  match line with
  | [state, read, next, write, move] =>
    decidable_of_iff (state ∈ l.states ∧ next ∈ l.states ∧ read ∈ l.tapeSymbols ∧
      write ∈ l.tapeSymbols ∧ (move = "L" ∨ move = "R"))
      ⟨fun h => ⟨_, _, _, _, _, rfl, h⟩, fun ⟨_, _, _, _, _, hline, h⟩ => by
        simp only [List.cons.injEq, and_true] at hline
        obtain ⟨rfl, rfl, rfl, rfl, rfl⟩ := hline
        exact h⟩
  | [] | [_] | [_, _] | [_, _, _] | [_, _, _, _] | _ :: _ :: _ :: _ :: _ :: _ :: _ =>
    isFalse fun ⟨_, _, _, _, _, hline, _⟩ => by simp at hline

instance (l : Layout) : Decidable l.Valid :=
  decidable_of_iff ((∃ name ∈ l.initial.head?, name ∈ l.states) ∧
      (∀ name ∈ l.accepting, name ∈ l.states) ∧
      (∀ symbol ∈ l.inputSymbols, symbol ∈ l.tapeSymbols) ∧
      (∃ symbol ∈ l.blank.head?, symbol ∈ l.tapeSymbols ∧ symbol ∉ l.inputSymbols) ∧
      (∀ line ∈ l.transitions, l.IsTransition line) ∧
      (l.transitions.map fun line => line.take 2).Nodup)
    ⟨fun ⟨hinitial, haccepting, hinput, hblank, htransitions, hnodup⟩ =>
      ⟨hinitial, haccepting, hinput, hblank, htransitions, hnodup⟩,
    fun h => ⟨h.initial, h.accepting, h.inputSymbols, h.blank, h.transitions, h.deterministic⟩⟩

/-- The program has one tape, and its parts are those that the layout lists. -/
structure Denotes (l : Layout) (p : Program) : Prop where
  tapeCount : p.tapeCount = 1
  states : ∀ name, name ∈ p.states.toList ↔ name ∈ l.states
  inputSymbols : ∀ symbol, symbol ∈ p.inputAlphabet.symbols.toList ↔ symbol ∈ l.inputSymbols
  tapeSymbols : ∀ symbol, symbol ∈ p.tapeAlphabet.symbols.toList ↔ symbol ∈ l.tapeSymbols
  initial : p.initial = l.initial.head?
  blank : p.blank = l.blank.head?
  accepting : ∀ name, name ∈ p.accepting.toList ↔ name ∈ l.accepting
  /-- The table has the transitions on the lines and no others. -/
  transitions : ∀ state symbols t, p.transitions.get? state symbols = some t ↔
    ∃ read next write direction, symbols = [read] ∧
      t = .single state read next write direction ∧
      [state, read, next, write, Direction.letter direction] ∈ l.transitions

/-! ## Well-formedness -/

section

variable {l : Layout} {p : Program}

theorem Denotes.hasState_iff (h : l.Denotes p) {name : String} :
    p.hasState name = true ↔ name ∈ l.states :=
  NameSet.mem_toList_iff.symm.trans (h.states name)

theorem Denotes.inputAlphabet_contains_iff (h : l.Denotes p) {symbol : Symbol} :
    p.inputAlphabet.contains symbol = true ↔ symbol ∈ l.inputSymbols :=
  NameSet.mem_toList_iff.symm.trans (h.inputSymbols symbol)

theorem Denotes.tapeAlphabet_contains_iff (h : l.Denotes p) {symbol : Symbol} :
    p.tapeAlphabet.contains symbol = true ↔ symbol ∈ l.tapeSymbols :=
  NameSet.mem_toList_iff.symm.trans (h.tapeSymbols symbol)

/-- The characters of an input have to be input symbols. -/
theorem Denotes.isValidInput_iff (h : l.Denotes p) {input : String} :
    p.isValidInput input = true ↔
      ∀ symbol ∈ input.toList.map String.singleton, symbol ∈ l.inputSymbols := by
  simp only [Program.isValidInput_iff, h.inputAlphabet_contains_iff]

/-- The transitions in the table are those on the lines. -/
theorem Denotes.mem_transitions_iff (h : l.Denotes p) {t : Transition} :
    t ∈ p.transitions.toList ↔ ∃ state read next write direction,
      t = .single state read next write direction ∧
      [state, read, next, write, Direction.letter direction] ∈ l.transitions := by
  have hget := h.transitions t.state t.read t
  rw [TransitionTable.get?_eq_some_iff] at hget
  constructor
  · intro ht
    obtain ⟨read, next, write, direction, _, heq, hline⟩ := hget.1 ⟨ht, rfl, rfl⟩
    exact ⟨t.state, read, next, write, direction, heq, hline⟩
  · rintro ⟨state, read, next, write, direction, rfl, hline⟩
    exact (hget.2 ⟨read, next, write, direction, rfl, rfl, hline⟩).1

/-- The transition on a line fires on its state and symbol. -/
theorem Denotes.get?_of_mem (h : l.Denotes p) {state read next write : String}
    {direction : Direction}
    (hline : [state, read, next, write, Direction.letter direction] ∈ l.transitions) :
    p.transitions.get? state [read] = some (.single state read next write direction) :=
  (h.transitions _ _ _).2 ⟨read, next, write, direction, rfl, rfl, hline⟩

/-- Nothing fires on a state and a symbol that no line begins with. -/
theorem Denotes.get?_eq_none (h : l.Denotes p) {state read : String}
    (hline : [state, read] ∉ l.transitions.map fun line => line.take 2) :
    p.transitions.get? state [read] = none := by
  cases hget : p.transitions.get? state [read] with
  | none => rfl
  | some t =>
      obtain ⟨symbol, next, write, direction, hread, _, hmem⟩ := (h.transitions _ _ _).1 hget
      obtain rfl := List.singleton_inj.1 hread
      exact absurd (List.mem_map_of_mem hmem) hline

/-- What the formal model asks of a transition with one symbol to read. -/
theorem Denotes.admits_single_iff (h : l.Denotes p) {state next : String} {read write : Symbol}
    {direction : Direction} :
    p.Admits (.single state read next write direction) ↔
      state ∈ l.states ∧ next ∈ l.states ∧ read ∈ l.tapeSymbols ∧ write ∈ l.tapeSymbols ∧
        (direction.letter = "L" ∨ direction.letter = "R") := by
  have hmove : (direction.letter = "L" ∨ direction.letter = "R") ↔ direction ≠ .stay := by
    cases direction <;> decide
  rw [hmove, ← h.hasState_iff, ← h.hasState_iff, ← h.tapeAlphabet_contains_iff,
    ← h.tapeAlphabet_contains_iff]
  constructor
  · intro hadmits
    exact ⟨hadmits.state, hadmits.nextState, hadmits.read read List.mem_cons_self,
      hadmits.write write List.mem_cons_self,
      fun hstay => hadmits.moves (Nat.le_of_eq h.tapeCount) (List.mem_singleton.2 hstay.symm)⟩
  · rintro ⟨hstate, hnext, hread, hwrite, hmove⟩
    exact {
      tapes := congrArg some h.tapeCount.symm
      state := hstate
      nextState := hnext
      read := List.forall_mem_singleton.2 hread
      write := List.forall_mem_singleton.2 hwrite
      moves := fun _ hstay => hmove (List.mem_singleton.1 hstay).symm }

/-- The lines of a layout can be assembled: the blank is a tape symbol if there is one, and there is
a transition on every line, for a state and a symbol of its own. -/
structure Assembles (l : Layout) : Prop where
  blank : ∀ symbol, l.blank.head? = some symbol → symbol ∈ l.tapeSymbols
  transitions : ∀ line ∈ l.transitions, ∃ state read next write direction,
    line = [state, read, next, write, Direction.letter direction]
  deterministic : (l.transitions.map fun line => line.take 2).Nodup

theorem Valid.assembles (h : l.Valid) : l.Assembles where
  blank symbol hsymbol := by
    obtain ⟨blank, hblank, htape, _⟩ := h.blank
    obtain rfl := Option.some.inj (hblank.symm.trans hsymbol)
    exact htape
  transitions line hline := by
    obtain ⟨state, read, next, write, move, rfl, _, _, _, _, hmove⟩ := h.transitions line hline
    rcases hmove with rfl | rfl
    · exact ⟨state, read, next, write, .left, rfl⟩
    · exact ⟨state, read, next, write, .right, rfl⟩
  deterministic := h.deterministic

/-- Of the layouts that can be assembled, those with an accepting state are valid exactly if the
programs that they denote are well-formed. -/
theorem Denotes.wellFormed_iff_valid (h : l.Denotes p) (hassembles : l.Assembles)
    (haccepting : l.accepting ≠ []) : p.WellFormed ↔ l.Valid := by
  constructor
  · intro hwell
    have hblank := hwell.blank
    simp only [h.blank, ← Bool.not_eq_true, h.inputAlphabet_contains_iff,
      h.tapeAlphabet_contains_iff] at hblank
    exact {
      initial := by simpa only [h.initial, h.hasState_iff] using hwell.initial
      accepting := by simpa only [h.accepting, h.hasState_iff] using hwell.accepting
      inputSymbols := by
        simpa only [h.inputSymbols, h.tapeAlphabet_contains_iff] using hwell.input
      blank := hblank.imp fun symbol => And.imp_right And.symm
      transitions := by
        intro line hline
        obtain ⟨state, read, next, write, direction, rfl⟩ := hassembles.transitions line hline
        have hadmits := hwell.transitions _
          (h.mem_transitions_iff.2 ⟨state, read, next, write, direction, rfl, hline⟩)
        exact ⟨state, read, next, write, _, rfl, h.admits_single_iff.1 hadmits⟩
      deterministic := hassembles.deterministic }
  · intro hvalid
    obtain ⟨initial, hinitial, hstate⟩ := hvalid.initial
    obtain ⟨blank, hblank, htape, hinput⟩ := hvalid.blank
    exact {
      states := List.ne_nil_of_mem ((h.states initial).2 hstate)
      initial := ⟨initial, h.initial.trans hinitial, h.hasState_iff.2 hstate⟩
      accepting_ne := by
        obtain ⟨name, hname⟩ := List.exists_mem_of_ne_nil _ haccepting
        exact List.ne_nil_of_mem ((h.accepting name).2 hname)
      accepting := by simpa only [h.accepting, h.hasState_iff] using hvalid.accepting
      input := by
        simpa only [h.inputSymbols, h.tapeAlphabet_contains_iff] using hvalid.inputSymbols
      blank := ⟨blank, h.blank.trans hblank,
        Bool.eq_false_iff.2 (mt h.inputAlphabet_contains_iff.1 hinput),
        h.tapeAlphabet_contains_iff.2 htape⟩
      transitions := by
        intro t ht
        obtain ⟨state, read, next, write, direction, rfl, hline⟩ := h.mem_transitions_iff.1 ht
        obtain ⟨_, _, _, _, _, heq, hadmits⟩ := hvalid.transitions _ hline
        simp only [List.cons.injEq, and_true] at heq
        obtain ⟨rfl, rfl, rfl, rfl, rfl⟩ := heq
        exact h.admits_single_iff.2 hadmits }

end

end Layout

end TapeMachine.Specification
