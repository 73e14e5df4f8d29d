import TapeMachine.Proofs.Machine.Alike
import TapeMachine.Proofs.Machine.Operations

/-!
# Machines stay within what is declared

An execution is confined if its state is a state of the program, it has as many tapes as the program
asks for, and all cells of its tapes are tape symbols. Executions are confined at first
(`confined_initial`), since valid inputs consist of input symbols and all other cells are blank. A
step keeps them confined (`Confined.step`): what fires is listed in the table, so it enters a state
and writes tape symbols, and moves bring in nothing but blanks. `performAll_confinedTo` says so of
machines, whatever operations were carried out on them, and that a transition that is applied has
one symbol and one direction for each tape: the symbol replaces the one under the head, and the head
moves in the direction (`Tape.UpdatesTo`).
-/

namespace TapeMachine

/-! ## Tapes -/

namespace Tape

@[simp] theorem alphabet_ofContent (content : String) (blank : Symbol)
    (alphabet : Option Alphabet) : (ofContent content blank alphabet).alphabet = alphabet := by
  unfold ofContent ofCells
  split <;> rfl

@[simp] theorem alphabet_write (t : Tape) (symbol : Symbol) :
    (t.write symbol).alphabet = t.alphabet := rfl

@[simp] theorem alphabet_moveRight (t : Tape) : t.moveRight.alphabet = t.alphabet := by
  unfold moveRight
  split <;> rfl

@[simp] theorem alphabet_moveLeft (t : Tape) : t.moveLeft.alphabet = t.alphabet := by
  unfold moveLeft
  split <;> rfl

@[simp] theorem alphabet_shift (t : Tape) (d : Direction) :
    (t.shift d).alphabet = t.alphabet := by
  cases d with
  | left => exact t.alphabet_moveLeft
  | right => exact t.alphabet_moveRight
  | stay => rfl

variable {t : Tape} {symbol : Symbol}

/-- Writing brings in the symbol that is written and no other. -/
theorem mem_cells_write {other : Symbol} (h : symbol ∈ (t.write other).cells) :
    symbol = other ∨ symbol ∈ t.cells := by
  rw [cells, List.mem_append, List.mem_cons] at h ⊢
  rcases h with hleft | rfl | hright
  · exact .inr (.inl hleft)
  · exact .inl rfl
  · exact .inr (.inr (.inr hright))

/-- Moving brings in a blank at most. -/
theorem mem_cells_shift {d : Direction} (h : symbol ∈ (t.shift d).cells) :
    symbol = t.blank ∨ symbol ∈ t.cells := by
  cases d with
  | left =>
      rw [shift, cells_moveLeft] at h
      split at h
      · exact List.mem_cons.1 h
      · exact .inr h
  | right =>
      rw [shift, cells_moveRight] at h
      split at h
      · exact (List.mem_append.1 h).symm.imp_left List.mem_singleton.1
      · exact .inr h
  | stay => exact .inr h

/-- The symbol replaces the one under the head, and the head moves in the direction. No other cell
of the infinite tape is changed. -/
structure UpdatesTo (t : Tape) (symbol : Symbol) (d : Direction) (t' : Tape) : Prop where
  eq : t' = (t.write symbol).shift d
  cell : ∀ position, t'.infinite.cell position =
    if position = t.infinite.head then symbol else t.infinite.cell position
  head : t'.infinite.head = t.infinite.head + d.offset

theorem updatesTo (t : Tape) (symbol : Symbol) (d : Direction) :
    t.UpdatesTo symbol d ((t.write symbol).shift d) := by
  have hinfinite : ((t.write symbol).shift d).infinite =
      ⟨t.infinite.head + d.offset, (t.infinite.write symbol).cell⟩ := by
    rw [infinite_shift, infinite_write, InfiniteTape.shift_eq]
    rfl
  refine ⟨rfl, fun position => ?_, ?_⟩
  · rw [hinfinite]
    rfl
  · rw [hinfinite]

/-- The tape has the alphabet and the blank of the program, and all of its cells are symbols of
this alphabet. -/
structure Confined (p : Program) (t : Tape) : Prop where
  alphabet : t.alphabet = some p.tapeAlphabet
  blank : t.blank = p.blank.getD ""
  cells : ∀ symbol ∈ t.cells, p.tapeAlphabet.contains symbol = true

variable {p : Program}

/-- Content of tape symbols is confined, since only blanks are stored besides it. -/
theorem confined_ofContent (h : p.WellFormed) {content : String}
    (hcontent : ∀ symbol ∈ content.toList.map String.singleton,
      p.tapeAlphabet.contains symbol = true) :
    (ofContent content (p.blank.getD "") (some p.tapeAlphabet)).Confined p where
  alphabet := alphabet_ofContent _ _ _
  blank := blank_ofContent _ _ _
  cells symbol hsymbol := by
    rw [cells_ofContent] at hsymbol
    rcases List.mem_append.1 hsymbol with hsymbol | hsymbol
    · exact hcontent symbol hsymbol
    · rw [List.eq_of_mem_replicate hsymbol]
      exact h.contains_blank

/-- A tape stays confined when a tape symbol is written and the head moves. -/
theorem Confined.update (h : p.WellFormed) (ht : t.Confined p)
    (hsymbol : p.tapeAlphabet.contains symbol = true) (d : Direction) :
    ((t.write symbol).shift d).Confined p where
  alphabet := by rw [alphabet_shift, alphabet_write, ht.alphabet]
  blank := by rw [blank_shift, blank_write, ht.blank]
  cells other hother := by
    rcases mem_cells_shift hother with rfl | hother
    · rw [blank_write, ht.blank]
      exact h.contains_blank
    · rcases mem_cells_write hother with rfl | hother
      · exact hsymbol
      · exact ht.cells other hother

end Tape

/-! ## Executions -/

namespace Execution

/-- The execution is at a state of the program, and its tapes are those of the program. -/
structure Confined (p : Program) (e : Execution) : Prop where
  state : p.hasState e.state = true
  length : e.tapes.length = p.tapeCount
  tapes : ∀ tape ∈ e.tapes, tape.Confined p

variable {p : Program} {e : Execution} {t : Transition}

/-- An update either leaves a tape as it is or writes and moves it. -/
theorem mem_updateTapes {tapes : List Tape} {symbols : List Symbol} {directions : List Direction}
    {tape' : Tape} (h : tape' ∈ updateTapes tapes symbols directions) :
    tape' ∈ tapes ∨ ∃ tape ∈ tapes, ∃ symbol ∈ symbols, ∃ direction ∈ directions,
      tape' = (tape.write symbol).shift direction := by
  induction tapes generalizing symbols directions with
  | nil => exact .inl h
  | cons tape tapes ih =>
      cases symbols with
      | nil => exact .inl h
      | cons symbol symbols =>
          cases directions with
          | nil => exact .inl h
          | cons direction directions =>
              rcases List.mem_cons.1 h with rfl | h
              · exact .inr ⟨tape, List.mem_cons_self, symbol, List.mem_cons_self, direction,
                  List.mem_cons_self, rfl⟩
              · rcases ih h with hmem | ⟨tape, htape, symbol, hsymbol, direction, hdirection, rfl⟩
                · exact .inl (List.mem_cons_of_mem _ hmem)
                · exact .inr ⟨tape, List.mem_cons_of_mem _ htape, symbol,
                    List.mem_cons_of_mem _ hsymbol, direction,
                    List.mem_cons_of_mem _ hdirection, rfl⟩

/-- Executions on valid inputs begin in the initial state, with input symbols and blanks. -/
theorem confined_initial (h : p.WellFormed) {input : String}
    (hvalid : p.isValidInput input = true) : (initial p input).Confined p where
  state := by
    obtain ⟨name, hname, hstate⟩ := h.initial
    rw [h.initial_eq] at hname
    obtain rfl := Option.some.inj hname
    exact hstate
  length := length_initialTapes p input
  tapes tape htape := by
    obtain ⟨i, _, rfl⟩ := List.mem_map.1 htape
    refine Tape.confined_ofContent h fun symbol hsymbol => ?_
    by_cases hi : i = 0
    · rw [if_pos hi] at hsymbol
      exact h.contains_of_valid hvalid hsymbol
    · rw [if_neg hi] at hsymbol
      cases hsymbol

/-- The symbols under the heads are tape symbols. -/
theorem Confined.symbols (he : e.Confined p) :
    ∀ symbol ∈ e.symbols, p.tapeAlphabet.contains symbol = true := by
  intro symbol hsymbol
  obtain ⟨tape, htape, rfl⟩ := List.mem_map.1 hsymbol
  exact (he.tapes tape htape).cells _ (List.mem_append_right _ List.mem_cons_self)

/-- Applying an admitted transition keeps an execution confined. -/
theorem Confined.apply (h : p.WellFormed) (he : e.Confined p) (ht : p.Admits t) :
    (e.apply p t).Confined p where
  state := ht.nextState
  length := (length_updateTapes e.tapes t.write t.directions).trans he.length
  tapes tape' htape' := by
    rcases mem_updateTapes htape' with hmem | ⟨tape, htape, symbol, hsymbol, direction, _, rfl⟩
    · exact he.tapes tape' hmem
    · exact (he.tapes tape htape).update h (ht.write symbol hsymbol) direction

/-- A step keeps an execution confined, since a program admits what it lists. -/
theorem Confined.step (h : p.WellFormed) (he : e.Confined p) : (e.step p).Confined p := by
  rcases step_cases p e with ⟨_, _, hstep⟩ | ⟨t, _, ht, hstep⟩ | ⟨_, _, hstep⟩
  · rw [hstep]
    exact he
  · rw [hstep]
    exact he.apply h (h.transitions t (transition?_eq_some_iff.1 ht).1)
  · rw [hstep]
    exact ⟨he.state, he.length, he.tapes⟩

/-- Runs on valid inputs are confined. -/
theorem confined_run (h : p.WellFormed) {input : String} (hvalid : p.isValidInput input = true)
    (n : Nat) : ((initial p input).run p n).Confined p :=
  run_induction (fun _ he => he.step h) (confined_initial h hvalid) n

end Execution

/-! ## Machines -/

namespace Machine

/-- The next step of the machine applies the transition. -/
structure Applies (m : Machine) (t : Transition) : Prop extends m.Ready where
  fires : m.transition? = some t

variable {m : Machine} {e : Execution} {t : Transition}

theorem transition?_of_execution (he : m.execution = some e) :
    m.transition? = e.transition? m.program := by
  simp only [transition?, symbols, state, tapes, he]
  rfl

theorem applies_iff (he : m.execution = some e) :
    m.Applies t ↔ e.halt = none ∧ e.transition? m.program = some t := by
  have hhalt : m.halt? = e.halt := by
    rw [halt?, he]
    rfl
  rw [← hhalt, ← transition?_of_execution he]
  constructor
  · intro h
    exact ⟨h.running, h.fires⟩
  · rintro ⟨hrunning, hfires⟩
    exact ⟨⟨by rw [he]; rfl, hrunning⟩, hfires⟩

/-- A step that applies a transition applies it to what the machine is at. -/
theorem Applies.exists_execution (h : m.Applies t) :
    ∃ e, m.execution = some e ∧ e.halt = none ∧ e.transition? m.program = some t ∧
      m.step.2 = { m with execution := some (e.apply m.program t) } := by
  obtain ⟨e, he⟩ := Option.isSome_iff_exists.1 h.loaded
  obtain ⟨hhalt, hfires⟩ := (applies_iff he).1 h
  refine ⟨e, he, hhalt, hfires, ?_⟩
  rw [step_of_execution he, Execution.step_of_transition hhalt hfires]

/-- A step is counted exactly if it applies a transition. -/
theorem stepCount_lt_iff : m.stepCount < m.step.2.stepCount ↔ ∃ t, m.Applies t := by
  constructor
  · intro hlt
    cases he : m.execution with
    | none =>
        rw [step_of_unloaded he] at hlt
        exact absurd hlt (Nat.lt_irrefl _)
    | some e =>
        rw [step_of_execution he, ← Execution.run_one] at hlt
        simp only [stepCount, he] at hlt
        obtain ⟨t, hhalt, hfires, _⟩ := Execution.exists_transition_of_steps_lt hlt
        exact ⟨t, (applies_iff he).2 ⟨hhalt, hfires⟩⟩
  · rintro ⟨t, h⟩
    obtain ⟨e, he, _, _, hstep⟩ := h.exists_execution
    rw [hstep]
    simp only [stepCount, he]
    exact Nat.lt_succ_self e.steps

/-- Each tape is written and moved once, by entries of the transition of its own. -/
structure UpdatesTapes (m : Machine) (t : Transition) : Prop where
  write : t.write.length = m.tapes.length
  directions : t.directions.length = m.tapes.length
  length : m.step.2.tapes.length = m.tapes.length
  tapes : ∀ (i : Nat) (tape : Tape), m.tapes[i]? = some tape →
    ∃ symbol direction tape', t.write[i]? = some symbol ∧ t.directions[i]? = some direction ∧
      m.step.2.tapes[i]? = some tape' ∧ tape.UpdatesTo symbol direction tape'

/-- The machine is within what the program declares. -/
structure ConfinedTo (p : Program) (m : Machine) : Prop where
  program : m.program = p
  /-- There are no tapes or as many as the program asks for. -/
  tapeCount : m.tapes.length = if m.status = .unloaded then 0 else p.tapeCount
  /-- The current state is a state of the program. -/
  state : p.hasState m.state = true ∧ m.currentState?.isSome = true
  /-- All cells that are stored are tape symbols. -/
  cells : ∀ tape ∈ m.tapes, ∀ symbol ∈ tape.cells,
    tape.isValidSymbol symbol = true ∧ p.tapeAlphabet.contains symbol = true
  blank : ∀ tape ∈ m.tapes, p.blank = some tape.blank
  /-- The steps that are counted are those that apply a transition. -/
  counts : m.stepCount < m.step.2.stepCount ↔ ∃ t, m.Applies t
  /-- No entry of a transition that is applied is dropped. -/
  applies : ∀ t, m.Applies t → m.UpdatesTapes t

theorem currentState?_isSome : m.currentState?.isSome = m.program.hasState m.state := by
  unfold currentState? Program.state?
  cases m.program.hasState m.state <;> rfl

/-- A confined execution is updated on each tape by every transition that is applied. -/
theorem Applies.updatesTapes (h : m.Applies t) (he : m.execution = some e)
    (hconfined : e.Confined m.program) : m.UpdatesTapes t := by
  obtain ⟨hhalt, hfires⟩ := (applies_iff he).1 h
  have hmem := (Execution.transition?_eq_some_iff.1 hfires).1
  obtain ⟨_, hwrite, hdirections⟩ := (m.program_wellFormed.transitions t hmem).lengths
  have htapes : m.tapes = e.tapes := by rw [tapes, he]
  have hnext : m.step.2.tapes = Execution.updateTapes e.tapes t.write t.directions := by
    rw [step_of_execution he, Execution.step_of_transition hhalt hfires]
    rfl
  have hlength := hconfined.length
  constructor
  case write => rw [htapes, hwrite, hlength]
  case directions => rw [htapes, hdirections, hlength]
  case length => rw [hnext, htapes, Execution.length_updateTapes]
  case tapes =>
    intro i tape htape
    rw [htapes] at htape
    obtain ⟨hi, rfl⟩ := List.getElem?_eq_some_iff.1 htape
    have hw : i < t.write.length := by omega
    have hd : i < t.directions.length := by omega
    refine ⟨t.write[i], t.directions[i], _, List.getElem?_eq_getElem hw,
      List.getElem?_eq_getElem hd, ?_, Tape.updatesTo _ _ _⟩
    rw [hnext, Execution.getElem?_updateTapes hi hw hd]

theorem confinedTo_of_unloaded (he : m.execution = none) : m.ConfinedTo m.program := by
  have htapes : m.tapes = [] := by rw [tapes, he]
  obtain ⟨name, hname, hstate⟩ := m.program_wellFormed.initial
  have hcurrent : m.program.hasState m.state = true := by
    rw [state, he]
    show m.program.hasState (m.program.initial.getD "") = true
    rw [hname]
    exact hstate
  constructor
  case program => rfl
  case tapeCount => rw [if_pos (status_eq_unloaded_iff.2 he), htapes, List.length_nil]
  case state => exact ⟨hcurrent, currentState?_isSome.trans hcurrent⟩
  case cells =>
    rw [htapes]
    exact List.forall_mem_nil _
  case blank =>
    rw [htapes]
    exact List.forall_mem_nil _
  case counts => exact stepCount_lt_iff
  case applies =>
    intro t h
    obtain ⟨e, hsome, _⟩ := h.exists_execution
    rw [he] at hsome
    cases hsome

theorem confinedTo_of_confined (he : m.execution = some e)
    (hconfined : e.Confined m.program) : m.ConfinedTo m.program := by
  have htapes : m.tapes = e.tapes := by rw [tapes, he]
  have hcurrent : m.program.hasState m.state = true := by
    rw [state, he]
    exact hconfined.state
  have hloaded : m.status ≠ .unloaded := by
    rw [Ne, status_eq_unloaded_iff, he]
    exact Option.some_ne_none e
  constructor
  case program => rfl
  case tapeCount => rw [if_neg hloaded, htapes, hconfined.length]
  case state => exact ⟨hcurrent, currentState?_isSome.trans hcurrent⟩
  case cells =>
    intro tape htape symbol hsymbol
    rw [htapes] at htape
    have hcontains := (hconfined.tapes tape htape).cells symbol hsymbol
    refine ⟨?_, hcontains⟩
    rw [Tape.isValidSymbol, (hconfined.tapes tape htape).alphabet]
    exact hcontains
  case blank =>
    intro tape htape
    rw [htapes] at htape
    rw [(hconfined.tapes tape htape).blank]
    exact m.program_wellFormed.blank_eq
  case counts => exact stepCount_lt_iff
  case applies =>
    intro t h
    exact h.updatesTapes he hconfined

/-- Whatever operations are carried out on a new machine, it stays within what its program
declares. -/
theorem performAll_confinedTo (p : Program) (new : Machine) (hnew : ofProgram p = .ok new)
    (operations : List Operation) : (new.performAll operations).ConfinedTo p := by
  obtain ⟨hprogram, hrun⟩ := exists_run_of_performAll hnew operations
  generalize new.performAll operations = m at hprogram hrun
  subst hprogram
  cases he : m.execution with
  | none => exact confinedTo_of_unloaded he
  | some e =>
      obtain ⟨input, n, hvalid, rfl⟩ := hrun e he
      exact confinedTo_of_confined he (Execution.confined_run m.program_wellFormed hvalid n)

/-- The copier has moved both heads to the right, and the next step applies the transition that
copies the second symbol. -/
theorem performAll_confinedTo_copier :
    ofProgram Program.copier = .ok copier ∧
      ∃ m, m = copier.performAll [.execute "10" 1] ∧ m.ConfinedTo Program.copier ∧
        m.tapes.length = 2 ∧
        m.UpdatesTapes ⟨"copy", ["0", "_"], "copy", ["0", "0"], [.right, .right]⟩ := by
  have hconfined := performAll_confinedTo Program.copier copier ofProgram_copier [.execute "10" 1]
  refine ⟨ofProgram_copier, _, rfl, hconfined, by decide, hconfined.applies _ ?_⟩
  exact ⟨⟨by decide, by decide⟩, by decide⟩

end Machine

end TapeMachine
