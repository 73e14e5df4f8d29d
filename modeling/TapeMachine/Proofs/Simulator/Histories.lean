import TapeMachine.Proofs.Machine.Operations
import TapeMachine.Proofs.Simulator.Trace

/-!
# What a simulator was used for before

A simulator is changed in place: a run loads the input, then forgets the trace, and then steps and
records (`Simulator.runInPlace`), and whatever has been changed before a failure stays changed.
Loading comes first and is the only thing that can fail, so a run that fails changes nothing, and
one that succeeds leaves its own trace only (`run_runInPlace`). The machine can also be used behind
the back of the simulator. `performAll_runsAlike` says that, whatever was done with a simulator
before, a run on an input gives the same result.
-/

namespace TapeMachine

namespace Machine

/-- Load an input into a machine that is changed in place. -/
def loadInPlace (input : String) : EStateM MachineError Machine Unit := do
  let m ← get
  match m.program.inputAlphabet.firstInvalid? input with
  | some symbol => throw (.invalidInput input symbol)
  | none => set { m with execution := some (.initial m.program input) }

theorem run_loadInPlace_of_valid {m : Machine} {input : String}
    (h : m.program.isValidInput input = true) :
    (loadInPlace input).run m =
      .ok () { m with execution := some (.initial m.program input) } := by
  rw [Program.isValidInput, Alphabet.isValidText, Option.isNone_iff_eq_none] at h
  simp [loadInPlace, h]

theorem run_loadInPlace_of_invalid {m : Machine} {input : String} {symbol : Symbol}
    (h : m.program.inputAlphabet.firstInvalid? input = some symbol) :
    (loadInPlace input).run m = .error (.invalidInput input symbol) m := by
  simp [loadInPlace, h]

/-- Operations are for the program of the machine. -/
theorem program_perform (m : Machine) (operation : Operation) :
    (m.perform operation).program = m.program := by
  cases operation with
  | load input =>
      cases hvalid : m.program.isValidInput input with
      | true => rw [perform, load_of_valid hvalid]
      | false =>
          obtain ⟨symbol, _, hload⟩ := load_of_invalid hvalid
          rw [perform, hload]
  | step =>
      cases h : m.execution with
      | none => rw [perform, step_of_unloaded h]
      | some e => rw [perform, step_of_execution h]
  | run budget =>
      cases h : m.execution with
      | none => rw [perform, run_of_unloaded h]
      | some e => rw [perform, run_of_execution h]
  | execute input budget =>
      cases hvalid : m.program.isValidInput input with
      | true =>
          rw [perform, execute_of_valid hvalid]
          rfl
      | false =>
          obtain ⟨symbol, _, hload⟩ := load_of_invalid hvalid
          rw [perform, execute_of_load_error hload]
  | reset => rfl

end Machine

namespace Simulator

/-! ## Runs in place -/

/-- A call on the machine of a simulator. -/
def onMachine {α : Type} (call : EStateM MachineError Machine α) :
    EStateM MachineError Simulator α := fun s =>
  match call.run s.machine with
  | .ok a machine => .ok a { s with machine }
  | .error err machine => .error err { s with machine }

/-- Add the configuration of the machine to the trace. -/
def recordInPlace : EStateM MachineError Simulator Unit :=
  modify fun s => { s with history := s.machine.configuration :: s.history }

/-- Step up to the halt for as long as the budget allows, and record the configuration after every
transition. -/
def stepInPlace : Nat → EStateM MachineError Simulator Unit
  | 0 => pure ()
  | budget + 1 => do
    match ← onMachine (modifyGet Machine.step) with
    | .applied => do
      recordInPlace
      stepInPlace budget
    | .halted .accept => recordInPlace
    | .halted (.reject _) => pure ()
    | .unloaded => throw .notInitialized

/-- What can be reported of the machine and the trace after a run. -/
def report (s : Simulator) (input : String) : RunReport where
  input
  outcome := s.machine.outcome?.getD .stepLimitReached
  steps := s.machine.stepCount
  finalState := s.machine.state
  tapes := s.machine.tapes.map Tape.snapshot
  trace := s.trace

/-- Run on an input with a simulator that is changed in place. -/
def runInPlace (input : String) : EStateM MachineError Simulator RunReport := do
  onMachine (Machine.loadInPlace input)
  modify fun s => { s with history := [] }
  recordInPlace
  stepInPlace (← get).config.maxSteps
  return (← get).report input

section

variable {s : Simulator} {e : Execution} {input : String}

theorem run_onMachine {α : Type} (call : EStateM MachineError Machine α) (s : Simulator) :
    (onMachine call).run s =
      match call.run s.machine with
      | .ok a machine => .ok a { s with machine }
      | .error err machine => .error err { s with machine } := rfl

theorem run_recordInPlace (h : s.machine.execution = some e) :
    recordInPlace.run s = .ok () { s with history := e.configuration :: s.history } := by
  rw [recordInPlace, EStateM.run_modify, Machine.configuration_of_execution h]

/-- Stepping in place records what the execution does. -/
theorem run_stepInPlace (h : s.machine.execution = some e) (budget : Nat) :
    (stepInPlace budget).run s = .ok () { s with
      machine := { s.machine with
        execution := some (e.record s.machine.program budget s.history).1 }
      history := (e.record s.machine.program budget s.history).2 } := by
  induction budget generalizing s e with
  | zero =>
      obtain ⟨⟨p, hp, execution⟩, config, history⟩ := s
      obtain rfl : execution = some e := h
      rfl
  | succ budget ih =>
      have hstep := Machine.step_of_execution h
      rw [stepInPlace, EStateM.run_bind, run_onMachine, EStateM.run_modifyGet, hstep,
        Execution.record]
      cases hhalt : (e.step s.machine.program).halt with
      | none =>
          simp only [Step.ofHalt, EStateM.run_bind]
          rw [run_recordInPlace rfl]
          exact ih rfl
      | some halt =>
          cases halt with
          | accept =>
              simp only [Step.ofHalt]
              rw [run_recordInPlace rfl]
          | reject rejection => simp only [Step.ofHalt, EStateM.run_pure]

theorem report_of_execution (h : s.machine.execution = some e) :
    s.report input = {
      input
      outcome := e.outcome
      steps := e.steps
      finalState := e.state
      tapes := e.tapes.map Tape.snapshot
      trace := s.trace } := by
  have houtcome : s.machine.outcome?.getD .stepLimitReached = e.outcome := by
    rw [Machine.outcome?, Machine.halt?, h, Option.bind_some, Execution.outcome]
    cases e.halt <;> rfl
  rw [report, houtcome, Machine.stepCount, Machine.state, Machine.tapes, h]

/-- In place or not, a run has the same effect, and one that fails changes nothing. -/
theorem run_runInPlace (s : Simulator) (input : String) :
    (runInPlace input).run s =
      match s.run input with
      | .ok (report, after) => .ok report after
      | .error err => .error err s := by
  rw [runInPlace, EStateM.run_bind, run_onMachine]
  cases hvalid : s.machine.program.isValidInput input with
  | true =>
      rw [Machine.run_loadInPlace_of_valid hvalid, run, Execution.start_of_valid hvalid]
      simp only [EStateM.run_bind, EStateM.run_modify, EStateM.run_get, EStateM.run_pure]
      rw [run_recordInPlace rfl]
      simp only
      rw [run_stepInPlace rfl]
      simp only
      rw [report_of_execution rfl]
      rfl
  | false =>
      obtain ⟨symbol, hsymbol, hrun⟩ := run_of_invalid hvalid
      rw [Machine.run_loadInPlace_of_invalid hsymbol, hrun]

end

/-! ## Histories -/

/-- What can be done with a simulator. -/
inductive Operation where
  | run (input : String)
  | step
  /-- The machine is used directly, and the simulator does not notice. -/
  | machine (operation : Machine.Operation)
deriving DecidableEq

/-- Carry out an operation, whether it fails or not. -/
def perform (s : Simulator) : Operation → Simulator
  | .run input =>
    match (runInPlace input).run s with
    | .ok _ after => after
    | .error _ after => after
  | .step => s.step.2
  | .machine operation => { s with machine := s.machine.perform operation }

/-- Carry out operations one after another. -/
def performAll (s : Simulator) (operations : List Operation) : Simulator :=
  operations.foldl perform s

/-- No operation changes the program or the budget. -/
theorem perform_keeps (s : Simulator) (operation : Operation) :
    (s.perform operation).machine.program = s.machine.program ∧
      (s.perform operation).config = s.config := by
  cases operation with
  | run input =>
      rw [perform, run_runInPlace]
      cases hvalid : s.machine.program.isValidInput input with
      | true =>
          rw [run_of_valid hvalid]
          exact ⟨rfl, rfl⟩
      | false =>
          obtain ⟨symbol, _, hrun⟩ := run_of_invalid hvalid
          rw [hrun]
          exact ⟨rfl, rfl⟩
  | step =>
      cases h : s.machine.execution with
      | none =>
          rw [perform, step, Machine.step_of_unloaded h]
          exact ⟨rfl, rfl⟩
      | some e =>
          rw [perform, step, Machine.step_of_execution h]
          exact ⟨rfl, rfl⟩
  | machine operation => exact ⟨s.machine.program_perform operation, rfl⟩

theorem performAll_keeps (s : Simulator) (operations : List Operation) :
    (s.performAll operations).machine.program = s.machine.program ∧
      (s.performAll operations).config = s.config := by
  induction operations generalizing s with
  | nil => exact ⟨rfl, rfl⟩
  | cons operation operations ih =>
      obtain ⟨hprogram, hconfig⟩ := s.perform_keeps operation
      obtain ⟨hprogram', hconfig'⟩ := ih (s.perform operation)
      exact ⟨hprogram'.trans hprogram, hconfig'.trans hconfig⟩

/-! ## Runs after any history -/

/-- What a run with this program and budget comes to, and what it leaves behind. -/
structure RunsAfresh (p : Program) (budget : Nat) (s : Simulator) (input : String) : Prop where
  /-- A run succeeds on the valid inputs. -/
  succeeds_iff : (∃ report after, (runInPlace input).run s = .ok report after) ↔
    p.isValidInput input = true
  /-- If it succeeds, the trace that it leaves behind is the one that it reports, and the report
  depends on nothing else than the program, the input and the budget. -/
  succeeded : ∀ report after, (runInPlace input).run s = .ok report after →
    s.run input = .ok (report, after) ∧ after.trace = report.trace ∧
      report = .ofRun p input budget
  /-- If it fails, it names the first character that is no input symbol, and changes nothing. -/
  failed : ∀ err after, (runInPlace input).run s = .error err after →
    s.run input = .error err ∧ after = s ∧
      ∃ front c back, input.toList = front ++ c :: back ∧
        (∀ d ∈ front, p.inputAlphabet.contains (String.singleton d) = true) ∧
        p.inputAlphabet.contains (String.singleton c) = false ∧
        err = .invalidInput input (String.singleton c)

theorem runsAfresh (s : Simulator) (input : String) :
    RunsAfresh s.machine.program s.config.maxSteps s input := by
  have hrun := run_runInPlace s input
  cases hvalid : s.machine.program.isValidInput input with
  | true =>
      rw [run_of_valid hvalid] at hrun
      constructor
      case succeeds_iff => exact iff_of_true ⟨_, _, hrun⟩ hvalid
      case succeeded =>
        intro report after h
        obtain ⟨rfl, rfl⟩ := EStateM.Result.ok.inj (hrun.symm.trans h)
        exact ⟨run_of_valid hvalid, List.reverse_reverse _, rfl⟩
      case failed =>
        intro err after h
        cases hrun.symm.trans h
  | false =>
      obtain ⟨symbol, hsymbol, herror⟩ := run_of_invalid hvalid
      rw [herror] at hrun
      constructor
      case succeeds_iff =>
        refine iff_of_false ?_ (by simp [hvalid])
        rintro ⟨report, after, h⟩
        cases hrun.symm.trans h
      case succeeded =>
        intro report after h
        cases hrun.symm.trans h
      case failed =>
        intro err after h
        obtain ⟨rfl, rfl⟩ := EStateM.Result.error.inj (hrun.symm.trans h)
        obtain ⟨front, c, back, htext, rfl, hfront, hc⟩ :=
          Alphabet.firstInvalid?_eq_some_iff.1 hsymbol
        exact ⟨herror, rfl, front, c, back, htext, hfront, hc, rfl⟩

/-- The result of a run depends on the program, the input and the budget. -/
theorem result_eq {s t : Simulator} (hprogram : s.machine.program = t.machine.program)
    (hbudget : s.config.maxSteps = t.config.maxSteps) (input : String) :
    (s.run input).map Prod.fst = (t.run input).map Prod.fst := by
  cases hvalid : s.machine.program.isValidInput input with
  | true =>
      rw [run_of_valid hvalid, run_of_valid (s := t) (hprogram ▸ hvalid), hprogram, hbudget]
      rfl
  | false =>
      obtain ⟨symbol, hsymbol, hrun⟩ := run_of_invalid hvalid
      obtain ⟨symbol', hsymbol', hrun'⟩ := run_of_invalid (s := t) (hprogram ▸ hvalid)
      rw [hprogram, hsymbol'] at hsymbol
      rw [hrun, hrun', Option.some.inj hsymbol]

/-- Whatever two simulators for the same program and budget were used for before, a run on an input
gives the same result with both. -/
theorem performAll_runsAlike {s t : Simulator} (hprogram : s.machine.program = t.machine.program)
    (hbudget : s.config.maxSteps = t.config.maxSteps) (before before' : List Operation)
    (input : String) :
    ((s.performAll before).run input).map Prod.fst =
        ((t.performAll before').run input).map Prod.fst ∧
      RunsAfresh s.machine.program s.config.maxSteps (s.performAll before) input ∧
      RunsAfresh t.machine.program t.config.maxSteps (t.performAll before') input := by
  obtain ⟨hkept, hconfig⟩ := s.performAll_keeps before
  obtain ⟨hkept', hconfig'⟩ := t.performAll_keeps before'
  refine ⟨result_eq ?_ ?_ input, ?_, ?_⟩
  · rw [hkept, hkept', hprogram]
  · rw [hconfig, hconfig', hbudget]
  · rw [← hkept, ← hconfig]
    exact runsAfresh _ input
  · rw [← hkept', ← hconfig']
    exact runsAfresh _ input

/-- One simulator was used for other inputs, one of them not valid, and left in the middle of the
last; the other is new, and prints its traces in full. -/
theorem performAll_runsAlike_copier :
    let used : Simulator := ⟨Machine.copier, { maxSteps := 3 }, []⟩
    let fresh : Simulator := ⟨Machine.copier, { maxSteps := 3, trace := .full }, []⟩
    let before : List Operation := [.run "10", .run "2", .machine (.load "11"), .step]
    used.machine.program = fresh.machine.program ∧
      used.config.maxSteps = fresh.config.maxSteps ∧
      ((used.performAll before).run "10").map Prod.fst =
        ((fresh.performAll []).run "10").map Prod.fst ∧
      RunsAfresh Program.copier 3 (used.performAll before) "10" ∧
      RunsAfresh Program.copier 3 (fresh.performAll []) "10" := by
  intro used fresh before
  exact ⟨rfl, rfl, performAll_runsAlike (s := used) (t := fresh) rfl rfl before [] "10"⟩

end Simulator

end TapeMachine
