import TapeMachine.Proofs.Machine.Confinement
import TapeMachine.Proofs.Program.Renaming

/-!
# Executions under other names

Reading, writing and moving do not look at symbols, so they commute with a renaming. Looking up a
transition does as long as the state and the symbols under the heads are those of the program, which
they are in a confined execution (`Confined.step_rename`). The run of the renamed program on the
renamed input is therefore the renamed run (`run_rename`). Snapshots compare the cells with the
blank, and no other tape symbol has the new name of the blank (`snapshot_rename`).
-/

namespace TapeMachine

variable {p : Program} {r : Renaming}

/-! ## Tapes -/

/-- Cells and blank under new names. -/
theorem cellAt_map (f : Symbol → Symbol) (blank : Symbol) (start : Int) (cells : List Symbol)
    (position : Int) :
    cellAt (f blank) start (cells.map f) position = f (cellAt blank start cells position) := by
  unfold cellAt
  split
  · rfl
  · rw [List.getD_eq_getElem?_getD, List.getD_eq_getElem?_getD, List.getElem?_map]
    cases cells[(position - start).toNat]? <;> rfl

/-- Trimmed cells stay trimmed if none of them gets the new name of the blank. -/
theorem IsTrimmed.map {f : Symbol → Symbol} {blank : Symbol} {cells : List Symbol}
    (h : IsTrimmed blank cells) (hblank : ∀ cell ∈ cells, f cell = f blank → cell = blank) :
    IsTrimmed (f blank) (cells.map f) where
  head symbol hsymbol heq := by
    rw [List.head?_map] at hsymbol
    obtain ⟨cell, hcell, rfl⟩ := Option.map_eq_some_iff.1 hsymbol
    exact h.head cell hcell (hblank cell (List.mem_of_head? hcell) heq)
  last symbol hsymbol heq := by
    rw [List.getLast?_map] at hsymbol
    obtain ⟨cell, hcell, rfl⟩ := Option.map_eq_some_iff.1 hsymbol
    exact h.last cell hcell (hblank cell (List.mem_of_getLast? hcell) heq)

def TapeSnapshot.rename (r : Renaming) (s : TapeSnapshot) : TapeSnapshot where
  cells := s.cells.map r.symbol
  start := s.start
  head := s.head
  blank := r.symbol s.blank

namespace Tape

def rename (r : Renaming) (t : Tape) : Tape where
  left := t.left.map r.symbol
  current := r.symbol t.current
  right := t.right.map r.symbol
  prepended := t.prepended
  blank := r.symbol t.blank
  alphabet := t.alphabet.map (Alphabet.rename r)

theorem cells_rename (r : Renaming) (t : Tape) : (t.rename r).cells = t.cells.map r.symbol := by
  simp only [cells, rename, List.map_append, List.map_reverse, List.map_cons]

theorem headPosition_rename (r : Renaming) (t : Tape) :
    (t.rename r).headPosition = t.headPosition := by
  simp only [headPosition, bufferIndex, rename, List.length_map]

theorem moveRight_rename (r : Renaming) (t : Tape) :
    (t.rename r).moveRight = t.moveRight.rename r := by
  cases h : t.right <;> simp [moveRight, rename, h]

theorem moveLeft_rename (r : Renaming) (t : Tape) :
    (t.rename r).moveLeft = t.moveLeft.rename r := by
  cases h : t.left <;> simp [moveLeft, rename, h]

/-- Writing and moving commute with the renaming. -/
theorem update_rename (r : Renaming) (t : Tape) (symbol : Symbol) (d : Direction) :
    ((t.rename r).write (r.symbol symbol)).shift d = ((t.write symbol).shift d).rename r := by
  cases d with
  | left => exact moveLeft_rename r (t.write symbol)
  | right => exact moveRight_rename r (t.write symbol)
  | stay => rfl

theorem ofContent_rename (r : Renaming) {content content' : String} (blank : Symbol)
    (alphabet : Option Alphabet)
    (hcontent : content'.toList.map String.singleton =
      (content.toList.map String.singleton).map r.symbol) :
    ofContent content' (r.symbol blank) (alphabet.map (Alphabet.rename r)) =
      (ofContent content blank alphabet).rename r := by
  have hcells (cells : List Symbol) :
      ofCells (r.symbol blank) (alphabet.map (Alphabet.rename r)) (cells.map r.symbol) =
        (ofCells blank alphabet cells).rename r := by
    cases cells <;> rfl
  unfold ofContent
  rw [← hcells, hcontent, List.map_append, List.map_replicate]

/-- Visible cells are stored. -/
theorem mem_cells_of_mem_visibleCells {t : Tape} {symbol : Symbol} (h : symbol ∈ t.visibleCells) :
    symbol ∈ t.cells := by
  obtain ⟨back, hback, _⟩ := trimBlanks_append t.blank (dropBlanks t.blank t.cells)
  obtain ⟨hfront, _⟩ := takeWhile_append_dropBlanks t.blank t.cells
  rw [hfront, hback]
  exact List.mem_append_right _ (List.mem_append_left _ h)

/-- A snapshot is taken of a renamed tape as of the tape before, if no cell gets the new name of the
blank. -/
theorem snapshot_rename {t : Tape}
    (hblank : ∀ cell ∈ t.cells, r.symbol cell = r.symbol t.blank → cell = t.blank) :
    (t.rename r).snapshot = t.snapshot.rename r := by
  have hcell : (t.snapshot.rename r).symbolAt = (t.rename r).symbolAt := by
    funext position
    have hstored : (t.rename r).symbolAt position = r.symbol (t.symbolAt position) := by
      unfold symbolAt
      rw [cells_rename]
      exact cellAt_map r.symbol t.blank _ t.cells position
    rw [hstored, ← t.cellAt_visibleCells]
    exact cellAt_map r.symbol t.blank t.visibleStart t.visibleCells position
  refine (t.rename r).snapshot_shows.unique ?_
  constructor
  case blank_eq => rfl
  case infinite_eq =>
    exact InfiniteTape.ext (headPosition_rename r t).symm hcell
  case trimmed =>
    exact t.isTrimmed_visibleCells.map fun cell hmem =>
      hblank cell (mem_cells_of_mem_visibleCells hmem)
  case start_eq =>
    intro hnil
    have hstart := t.snapshot_shows.start_eq (List.map_eq_nil_iff.1 hnil)
    exact hstart.trans (headPosition_rename r t).symm

/-- The cells of a confined tape keep apart from the blank. -/
theorem Confined.snapshot_rename (h : p.WellFormed) (hr : r.Suits p) {t : Tape}
    (ht : t.Confined p) : (t.rename r).snapshot = t.snapshot.rename r := by
  refine Tape.snapshot_rename fun cell hcell heq => ?_
  have hblank := h.contains_blank
  rw [← ht.blank] at hblank
  exact hr.symbol_inj cell t.blank (ht.cells cell hcell) hblank heq

end Tape

/-! ## Executions -/

def Halt.rename (r : Renaming) : Halt → Halt
  | .accept => .accept
  | .reject rejection => .reject ⟨r.state rejection.state, rejection.symbols.map r.symbol⟩

/-- The verdict has no names in it. -/
theorem Outcome.ofHalt_rename (r : Renaming) (halt : Option Halt) :
    Outcome.ofHalt (halt.map (Halt.rename r)) = Outcome.ofHalt halt := by
  cases halt with
  | none => rfl
  | some halt => cases halt <;> rfl

def Configuration.rename (r : Renaming) (c : Configuration) : Configuration where
  state := r.state c.state
  step := c.step
  tapes := c.tapes.map (TapeSnapshot.rename r)

namespace Execution

def rename (r : Renaming) (e : Execution) : Execution where
  state := r.state e.state
  tapes := e.tapes.map (Tape.rename r)
  steps := e.steps
  halt := e.halt.map (Halt.rename r)

variable {e : Execution}

@[simp] theorem steps_rename (r : Renaming) (e : Execution) : (e.rename r).steps = e.steps := rfl

theorem symbols_rename (r : Renaming) (e : Execution) :
    (e.rename r).symbols = e.symbols.map r.symbol := by
  simp only [symbols, rename, List.map_map]
  rfl

theorem updateTapes_rename (r : Renaming) (tapes : List Tape) (symbols : List Symbol)
    (directions : List Direction) :
    updateTapes (tapes.map (Tape.rename r)) (symbols.map r.symbol) directions =
      (updateTapes tapes symbols directions).map (Tape.rename r) := by
  induction tapes generalizing symbols directions with
  | nil => rfl
  | cons tape tapes ih =>
      cases symbols with
      | nil => rfl
      | cons symbol symbols =>
          cases directions with
          | nil => rfl
          | cons direction directions =>
              exact List.cons_eq_cons.2 ⟨Tape.update_rename r tape symbol direction,
                ih symbols directions⟩

variable (h : p.WellFormed) (hr : r.Suits p)

include h hr

/-- The transition that fires is the renamed one. -/
theorem Confined.transition?_rename (he : e.Confined p) :
    (e.rename r).transition? (p.rename r) = (e.transition? p).map (Transition.rename r) := by
  unfold transition?
  rw [symbols_rename]
  exact Program.get?_rename h hr he.state he.symbols

theorem apply_rename {t : Transition} (ht : p.Admits t) :
    (e.rename r).apply (p.rename r) (t.rename r) = (e.apply p t).rename r := by
  refine Execution.ext rfl (updateTapes_rename r e.tapes t.write t.directions) rfl ?_
  show (if (p.rename r).isAccepting (r.state t.nextState) then some Halt.accept else none) =
    (if p.isAccepting t.nextState then some Halt.accept else none).map (Halt.rename r)
  rw [Program.isAccepting_rename h hr ht.nextState]
  split <;> rfl

/-- A step of a renamed execution is the renamed step. -/
theorem Confined.step_rename (he : e.Confined p) :
    (e.rename r).step (p.rename r) = (e.step p).rename r := by
  have hfires := he.transition?_rename h hr
  rcases step_cases p e with ⟨halt, hhalt, hstep⟩ | ⟨t, hhalt, ht, hstep⟩ | ⟨hhalt, ht, hstep⟩
  · have hhalt' : (e.rename r).halt = some (halt.rename r) :=
      congrArg (Option.map (Halt.rename r)) hhalt
    rw [hstep, step_of_halt hhalt']
  · have hhalt' : (e.rename r).halt = none := congrArg (Option.map (Halt.rename r)) hhalt
    have hadmits := h.transitions t (transition?_eq_some_iff.1 ht).1
    rw [ht] at hfires
    rw [hstep, step_of_transition hhalt' hfires]
    exact apply_rename h hr hadmits
  · have hhalt' : (e.rename r).halt = none := congrArg (Option.map (Halt.rename r)) hhalt
    rw [ht] at hfires
    rw [hstep, step_of_no_transition hhalt' hfires, symbols_rename]
    rfl

/-- The renamed program begins on the renamed input with what is renamed. -/
theorem initial_rename {input : String} (hvalid : p.isValidInput input = true) :
    initial (p.rename r) (r.word input) = (initial p input).rename r := by
  have hstate : (p.rename r).initialName = r.state p.initialName := by
    show (p.initial.map r.state).getD "" = r.state p.initialName
    rw [h.initial_eq]
    rfl
  have hblank : (p.rename r).blank.getD "" = r.symbol (p.blank.getD "") := by
    rw [Program.blank_rename, h.blank_eq]
    rfl
  refine Execution.ext hstate ?_ rfl rfl
  show initialTapes (p.rename r) (r.word input) = (initialTapes p input).map (Tape.rename r)
  unfold initialTapes
  rw [List.map_map, hblank]
  refine List.map_congr_left fun i _ => ?_
  refine Tape.ofContent_rename r (p.blank.getD "") (some p.tapeAlphabet) ?_
  -- Only the first tape has any content.
  by_cases hi : i = 0
  · rw [if_pos hi, if_pos hi]
    exact hr.map_singleton_word hvalid
  · rw [if_neg hi, if_neg hi]
    rfl

/-- The run on the renamed input is the renamed run. -/
theorem run_rename {input : String} (hvalid : p.isValidInput input = true) (n : Nat) :
    (initial (p.rename r) (r.word input)).run (p.rename r) n =
      ((initial p input).run p n).rename r := by
  induction n with
  | zero => exact initial_rename h hr hvalid
  | succ n ih =>
      rw [run_succ_last, run_succ_last, ih]
      exact (confined_run h hvalid n).step_rename h hr

/-- A configuration is that of the renamed execution under the new names. -/
theorem Confined.configuration_rename (he : e.Confined p) :
    (e.rename r).configuration = e.configuration.rename r := by
  refine Configuration.ext rfl rfl ?_
  show (e.tapes.map (Tape.rename r)).map Tape.snapshot =
    (e.tapes.map Tape.snapshot).map (TapeSnapshot.rename r)
  rw [List.map_map, List.map_map]
  exact List.map_congr_left fun tape htape => (he.tapes tape htape).snapshot_rename h hr

end Execution

end TapeMachine
