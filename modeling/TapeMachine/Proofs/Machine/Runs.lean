import TapeMachine.Machine
import TapeMachine.Proofs.Tape.Infinite
import TapeMachine.Proofs.Program.Assembled
import TapeMachine.Proofs.Program.WellFormed

/-!
# Steps and runs

One step either applies the transition that fires, or rejects, or does nothing after the halt
(`step_of_transition`, `step_of_no_transition`, `step_of_halt`). A run of `n` attempts is `n` steps
one after another; `Machine.stepTimes` is the same for a machine. `stepTimes_eq` carries what is
proved about runs of executions over to machines.
-/

namespace TapeMachine

/-! ## What a transition does to the tapes -/

namespace Execution

theorem length_updateTapes (tapes : List Tape) (symbols : List Symbol)
    (directions : List Direction) :
    (updateTapes tapes symbols directions).length = tapes.length := by
  induction tapes generalizing symbols directions with
  | nil => simp [updateTapes]
  | cons tape tapes ih =>
      cases symbols with
      | nil => simp [updateTapes]
      | cons symbol symbols =>
          cases directions with
          | nil => simp [updateTapes]
          | cons direction directions => simp [updateTapes, ih]

/-- Every tape that has its symbol and its direction is written and moved. -/
theorem getElem?_updateTapes {tapes : List Tape} {symbols : List Symbol}
    {directions : List Direction} {i : Nat} (ht : i < tapes.length) (hs : i < symbols.length)
    (hd : i < directions.length) :
    (updateTapes tapes symbols directions)[i]? =
      some ((tapes[i].write symbols[i]).shift directions[i]) := by
  induction tapes generalizing symbols directions i with
  | nil => simp at ht
  | cons tape tapes ih =>
      cases symbols with
      | nil => simp at hs
      | cons symbol symbols =>
          cases directions with
          | nil => simp at hd
          | cons direction directions =>
              cases i with
              | zero => rfl
              | succ i =>
                  simp only [List.length_cons, Nat.add_lt_add_iff_right] at ht hs hd
                  simpa [updateTapes] using ih ht hs hd

variable {p : Program} {e : Execution} {t : Transition}

/-! ## One step -/

/-- The transition that fires is the one listed for the state and the symbols under the heads. -/
theorem transition?_eq_some_iff :
    e.transition? p = some t ↔
      t ∈ p.transitions.toList ∧ t.state = e.state ∧ t.read = e.symbols :=
  TransitionTable.get?_eq_some_iff

theorem step_of_transition (hhalt : e.halt = none) (ht : e.transition? p = some t) :
    e.step p = e.apply p t := by
  simp [step, hhalt, ht]

theorem step_of_no_transition (hhalt : e.halt = none) (ht : e.transition? p = none) :
    e.step p = { e with halt := some (.reject ⟨e.state, e.symbols⟩) } := by
  simp [step, hhalt, ht]

/-- The execution on an input before the first step. -/
def initial (p : Program) (input : String) : Execution where
  state := p.initialName
  tapes := initialTapes p input

@[simp] theorem steps_initial (p : Program) (input : String) : (initial p input).steps = 0 := rfl

/-- A valid input can be loaded. -/
theorem start_of_valid {input : String} (h : p.isValidInput input = true) :
    start p input = .ok (initial p input) := by
  simp only [Program.isValidInput, Alphabet.isValidText, Option.isNone_iff_eq_none] at h
  simp [start, h, initial]

/-- An input that is not valid is refused, and one of its symbols is named. -/
theorem start_of_invalid {input : String} (h : p.isValidInput input = false) :
    ∃ symbol, p.inputAlphabet.firstInvalid? input = some symbol ∧
      start p input = .error (.invalidInput input symbol) := by
  simp only [Program.isValidInput, Alphabet.isValidText, Option.isNone_eq_false_iff,
    Option.isSome_iff_exists] at h
  obtain ⟨symbol, hsymbol⟩ := h
  exact ⟨symbol, hsymbol, by simp [start, hsymbol]⟩

theorem length_initialTapes (p : Program) (input : String) :
    (initialTapes p input).length = p.tapeCount := by
  simp [initialTapes]

/-! ## Runs -/

theorem run_one (p : Program) (e : Execution) : e.run p 1 = e.step p := by
  rw [run_succ, run]

/-- The last attempt of a run is a step. -/
theorem run_succ_last (p : Program) (n : Nat) (e : Execution) :
    e.run p (n + 1) = (e.run p n).step p := by
  rw [run_add, run_succ, run]

/-- A run keeps what every step keeps. -/
theorem run_induction {motive : Execution → Prop} (hstep : ∀ e, motive e → motive (e.step p))
    (h : motive e) (n : Nat) : motive (e.run p n) := by
  induction n with
  | zero => exact h
  | succ n ih =>
      rw [run_succ_last]
      exact hstep _ ih

end Execution

/-! ## Machines -/

/-- The answer to a step that leaves this halt behind. -/
def Step.ofHalt : Option Halt → Step
  | none => .applied
  | some halt => .halted halt

namespace Machine

/-- The program of a machine is well-formed. -/
theorem program_wellFormed (m : Machine) : m.program.WellFormed :=
  Program.violation?_eq_none_iff.1 m.wellFormed

/-- The machine after a number of steps. -/
def stepTimes (m : Machine) : Nat → Machine
  | 0 => m
  | n + 1 => (m.stepTimes n).step.2

/-- A step of a machine is a step of what it is at. -/
theorem step_of_execution {m : Machine} {e : Execution} (h : m.execution = some e) :
    m.step = (.ofHalt (e.step m.program).halt,
      { m with execution := some (e.step m.program) }) := by
  unfold step
  rw [h]
  cases hhalt : (e.step m.program).halt <;> simp [hhalt, Step.ofHalt]

/-- Without an input there is nothing to step. -/
theorem step_of_unloaded {m : Machine} (h : m.execution = none) : m.step = (.unloaded, m) := by
  unfold step
  rw [h]

/-- The steps of a machine run what it is at, if an input is loaded. -/
theorem stepTimes_eq (m : Machine) (n : Nat) :
    m.stepTimes n = { m with execution := m.execution.map (·.run m.program n) } := by
  induction n with
  | zero =>
      cases h : m.execution <;> simp [stepTimes, Execution.run, ← h]
  | succ n ih =>
      rw [stepTimes, ih]
      cases h : m.execution with
      | none => rfl
      | some e =>
          rw [step_of_execution (e := e.run m.program n) rfl]
          simp [Execution.run_succ_last]

theorem stepTimes_of_execution {m : Machine} {e : Execution} (h : m.execution = some e) (n : Nat) :
    m.stepTimes n = { m with execution := some (e.run m.program n) } := by
  rw [stepTimes_eq, h]
  rfl

/-- The answer to a step tells how the run has halted after it. -/
theorem step_stepTimes_of_execution {m : Machine} {e : Execution} (h : m.execution = some e)
    (n : Nat) : (m.stepTimes n).step.1 = .ofHalt (e.run m.program (n + 1)).halt := by
  rw [stepTimes_of_execution h, step_of_execution rfl, Execution.run_succ_last]

/-- A valid input is loaded, whatever was loaded before. -/
theorem load_of_valid {m : Machine} {input : String} (h : m.program.isValidInput input = true) :
    m.load input = .ok { m with execution := some (.initial m.program input) } := by
  rw [load, Execution.start_of_valid h]
  rfl

/-- A machine shows what it is at. -/
theorem configuration_of_execution {m : Machine} {e : Execution} (h : m.execution = some e) :
    m.configuration = e.configuration := by
  simp [configuration, state, stepCount, tapes, h, Execution.configuration]

/-- The new machine for the program with two tapes. -/
def copier : Machine := ⟨Program.copier, Program.violation?_copier, none⟩

theorem ofProgram_copier : ofProgram Program.copier = .ok copier := rfl

end Machine

end TapeMachine
