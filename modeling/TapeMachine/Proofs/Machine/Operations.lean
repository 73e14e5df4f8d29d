import TapeMachine.Proofs.Machine.Runs

/-!
# What operations on a machine lead to

Inputs are loaded, steps and runs are taken and the machine is reset, in any order. The progress of
such operations is the last input that was accepted and the number of steps attempted since, where a
run counts with its whole budget. `performAll_ledTo` says that a machine depends on the progress
alone: it is the new machine if there is none, and else the new machine after loading the input and
as many steps.
-/

namespace TapeMachine

namespace Machine

/-- What can be done to a machine. -/
inductive Operation where
  | load (input : String)
  | step
  | run (budget : Nat)
  | execute (input : String) (budget : Nat)
  | reset
deriving DecidableEq

/-- Carry out an operation. One that is refused leaves the machine as it is. -/
def perform (m : Machine) : Operation → Machine
  | .load input =>
    match m.load input with
    | .ok loaded => loaded
    | .error _ => m
  | .step => m.step.2
  | .run budget =>
    match m.run budget with
    | .ok (_, final) => final
    | .error _ => m
  | .execute input budget =>
    match m.execute input budget with
    | .ok (_, final) => final
    | .error _ => m
  | .reset => m.reset

/-- Carry out operations one after another. -/
def performAll (m : Machine) (operations : List Operation) : Machine := operations.foldl perform m

/-! ## Progress -/

/-- An accepted input and the number of steps attempted since. -/
structure Progress where
  input : String
  attempts : Nat
deriving DecidableEq

namespace Progress

/-- More steps are attempted. -/
def attempt (g : Progress) (steps : Nat) : Progress := { g with attempts := g.attempts + steps }

/-- The progress after one more operation. An accepted input begins anew, an input that is not valid
changes nothing, and nothing is attempted before an input is accepted. -/
def advance (p : Program) (progress : Option Progress) : Operation → Option Progress
  | .load input => if p.isValidInput input then some ⟨input, 0⟩ else progress
  | .step => progress.map (·.attempt 1)
  | .run budget => progress.map (·.attempt budget)
  | .execute input budget => if p.isValidInput input then some ⟨input, budget⟩ else progress
  | .reset => none

/-- The progress of operations on a new machine. -/
def ofOperations (p : Program) (operations : List Operation) : Option Progress :=
  operations.foldl (advance p) none

/-- What the progress leads to. -/
def execution (p : Program) (g : Progress) : Execution :=
  (Execution.initial p g.input).run p g.attempts

theorem execution_attempt (p : Program) (g : Progress) (steps : Nat) :
    (g.attempt steps).execution p = (g.execution p).run p steps :=
  Execution.run_add p g.attempts steps (.initial p g.input)

end Progress

/-- The machine at the execution that the progress leads to. -/
def withProgress (m : Machine) (progress : Option Progress) : Machine :=
  { m with execution := progress.map (·.execution m.program) }

/-! ## Single operations -/

/-- An input that is not valid is refused with its first symbol that is no input symbol. -/
theorem load_of_invalid {m : Machine} {input : String}
    (h : m.program.isValidInput input = false) :
    ∃ symbol, m.program.inputAlphabet.firstInvalid? input = some symbol ∧
      m.load input = .error (.invalidInput input symbol) := by
  obtain ⟨symbol, hsymbol, hstart⟩ := Execution.start_of_invalid h
  refine ⟨symbol, hsymbol, ?_⟩
  rw [load, hstart]
  rfl

/-- Loading and running fails if the input cannot be loaded, and for no other reason. -/
theorem execute_of_load_error {m : Machine} {input : String} {e : MachineError}
    (h : m.load input = .error e) (budget : Nat) : m.execute input budget = .error e := by
  rw [execute, h]
  rfl

theorem execute_of_valid {m : Machine} {input : String}
    (h : m.program.isValidInput input = true) (budget : Nat) :
    m.execute input budget =
      .ok (((Execution.initial m.program input).run m.program budget).outcome,
        m.withProgress (some ⟨input, budget⟩)) := by
  rw [execute, load_of_valid h]
  rfl

theorem run_of_unloaded {m : Machine} (h : m.execution = none) (budget : Nat) :
    m.run budget = .error .notInitialized := by
  rw [run, h]

theorem run_of_execution {m : Machine} {e : Execution} (h : m.execution = some e) (budget : Nat) :
    m.run budget = .ok ((e.run m.program budget).outcome,
      { m with execution := some (e.run m.program budget) }) := by
  rw [run, h]

/-- A run may be broken off and continued: the second run gives the verdict of the whole. -/
theorem run_bind_run (m : Machine) (first second : Nat) :
    (do let (_, paused) ← m.run first; paused.run second) = m.run (first + second) := by
  cases h : m.execution with
  | none =>
      rw [run_of_unloaded h, run_of_unloaded h]
      rfl
  | some e =>
      rw [run_of_execution h, run_of_execution h, Execution.run_add]
      rfl

theorem status_eq_unloaded_iff {m : Machine} : m.status = .unloaded ↔ m.execution = none := by
  unfold status
  cases m.execution with
  | none => simp
  | some e =>
      simp only [reduceCtorEq, iff_false]
      split
      · simp
      · split <;> simp

/-! ## Any operations -/

/-- Every operation takes the machine from one progress to the next. -/
theorem perform_withProgress (m : Machine) (progress : Option Progress) (operation : Operation) :
    (m.withProgress progress).perform operation =
      m.withProgress (Progress.advance m.program progress operation) := by
  cases operation with
  | load input =>
      cases hvalid : m.program.isValidInput input with
      | true =>
          rw [perform, load_of_valid (m := m.withProgress progress) hvalid, Progress.advance,
            if_pos hvalid]
          rfl
      | false =>
          obtain ⟨symbol, _, hload⟩ := load_of_invalid (m := m.withProgress progress) hvalid
          rw [perform, hload, Progress.advance, hvalid, if_neg Bool.false_ne_true]
  | step =>
      cases progress with
      | none => rfl
      | some g =>
          have hstep := step_of_execution (m := m.withProgress (some g)) rfl
          rw [perform, hstep]
          simp [withProgress, Progress.advance, Progress.execution_attempt, Execution.run_one]
  | run budget =>
      cases progress with
      | none => rfl
      | some g =>
          have hrun := run_of_execution (m := m.withProgress (some g)) rfl budget
          rw [perform, hrun]
          simp [withProgress, Progress.advance, Progress.execution_attempt]
  | execute input budget =>
      cases hvalid : m.program.isValidInput input with
      | true =>
          rw [perform, execute_of_valid (m := m.withProgress progress) hvalid, Progress.advance,
            if_pos hvalid]
          rfl
      | false =>
          obtain ⟨symbol, _, hload⟩ := load_of_invalid (m := m.withProgress progress) hvalid
          rw [perform, execute_of_load_error hload, Progress.advance, hvalid,
            if_neg Bool.false_ne_true]
  | reset => rfl

theorem performAll_withProgress (m : Machine) (progress : Option Progress)
    (operations : List Operation) :
    (m.withProgress progress).performAll operations =
      m.withProgress (operations.foldl (Progress.advance m.program) progress) := by
  induction operations generalizing progress with
  | nil => rfl
  | cons operation operations ih =>
      rw [List.foldl_cons, ← ih, ← perform_withProgress]
      rfl

/-- What is known of the machine that operations with this progress lead to from a new one. -/
structure LedTo (new m : Machine) (progress : Option Progress) : Prop where
  /-- Without progress the machine is the new one. -/
  unloaded : progress = none → m = new
  /-- Else it is the new one after loading the input and attempting the steps. -/
  loaded : ∀ g, progress = some g →
    ∃ loaded, new.load g.input = .ok loaded ∧ m = loaded.stepTimes g.attempts
  /-- A run in two parts is one run, with the verdict of the second part. -/
  run_bind_run : ∀ first second,
    (do let (_, paused) ← m.run first; paused.run second) = m.run (first + second)
  /-- An input that is not valid is refused, and changes nothing. -/
  refused : ∀ input, m.program.isValidInput input = false →
    ∃ symbol, m.program.inputAlphabet.firstInvalid? input = some symbol ∧
      m.load input = .error (.invalidInput input symbol) ∧ m.perform (.load input) = m ∧
      ∀ budget, m.execute input budget = .error (.invalidInput input symbol) ∧
        m.perform (.execute input budget) = m
  /-- No other input is refused. -/
  accepted : ∀ input, m.program.isValidInput input = true →
    (∃ loaded, m.load input = .ok loaded) ∧ ∀ budget, ∃ result, m.execute input budget = .ok result
  /-- Without an input there are no steps and no runs, and attempting them changes nothing. -/
  notInitialized : m.status = .unloaded →
    m.step = (.unloaded, m) ∧
      ∀ budget, m.run budget = .error .notInitialized ∧ m.perform (.run budget) = m

theorem ledTo_withProgress {new : Machine} (hnew : new.execution = none)
    (progress : Option Progress)
    (hvalid : ∀ g, progress = some g → new.program.isValidInput g.input = true) :
    new.LedTo (new.withProgress progress) progress where
  unloaded hnone := by
    rw [hnone, withProgress, Option.map_none, ← hnew]
  loaded g hg := by
    refine ⟨_, load_of_valid (hvalid g hg), ?_⟩
    rw [stepTimes_eq, hg]
    rfl
  run_bind_run := run_bind_run _
  refused input hinvalid := by
    obtain ⟨symbol, hsymbol, hload⟩ := load_of_invalid hinvalid
    refine ⟨symbol, hsymbol, hload, by rw [perform, hload], fun budget => ?_⟩
    have hexecute := execute_of_load_error hload budget
    exact ⟨hexecute, by rw [perform, hexecute]⟩
  accepted input hvalid :=
    ⟨⟨_, load_of_valid hvalid⟩, fun budget => ⟨_, execute_of_valid hvalid budget⟩⟩
  notInitialized hstatus := by
    have hnone := status_eq_unloaded_iff.1 hstatus
    refine ⟨step_of_unloaded hnone, fun budget => ?_⟩
    have hrun := run_of_unloaded hnone budget
    exact ⟨hrun, by rw [perform, hrun]⟩

/-- Only valid inputs make progress. -/
theorem isValidInput_of_progress {p : Program} (operations : List Operation) {g : Progress}
    (hg : Progress.ofOperations p operations = some g) : p.isValidInput g.input = true := by
  -- The first operation leads to some progress, so the induction has to begin with any.
  suffices hall : ∀ progress : Option Progress,
      (∀ g, progress = some g → p.isValidInput g.input = true) →
      ∀ g, operations.foldl (Progress.advance p) progress = some g →
        p.isValidInput g.input = true from
    hall none (fun _ h => by cases h) g hg
  clear hg g
  induction operations with
  | nil => exact fun progress h => h
  | cons operation operations ih =>
      intro progress h
      refine ih _ ?_
      intro g hg
      cases operation with
      | load input | execute input =>
          simp only [Progress.advance] at hg
          split at hg
          · next hvalid =>
              obtain rfl := Option.some.inj hg
              exact hvalid
          · exact h g hg
      | step | run =>
          obtain ⟨before, hbefore, rfl⟩ := Option.map_eq_some_iff.1 hg
          exact h before hbefore
      | reset => cases hg

/-- A new machine is for its program, and nothing is loaded. -/
theorem program_eq_of_ofProgram {p : Program} {new : Machine} (hnew : ofProgram p = .ok new) :
    new.program = p ∧ new.execution = none := by
  unfold ofProgram at hnew
  split at hnew
  · obtain rfl := Except.ok.inj hnew
    exact ⟨rfl, rfl⟩
  · cases hnew

/-- Operations lead from a new machine to where their progress does. -/
theorem performAll_ofProgram {p : Program} {new : Machine} (hnew : ofProgram p = .ok new)
    (operations : List Operation) :
    new.performAll operations = new.withProgress (Progress.ofOperations p operations) := by
  obtain ⟨rfl, hexecution⟩ := program_eq_of_ofProgram hnew
  -- A new machine is the one with no progress.
  have hstart : new.withProgress none = new := by
    rw [withProgress, Option.map_none, ← hexecution]
  have hprogress := performAll_withProgress new none operations
  rw [hstart] at hprogress
  exact hprogress

/-- Whatever operations lead to from a new machine is a run on a valid input, unless nothing is
loaded. -/
theorem exists_run_of_performAll {p : Program} {new : Machine} (hnew : ofProgram p = .ok new)
    (operations : List Operation) :
    (new.performAll operations).program = p ∧
      ∀ e, (new.performAll operations).execution = some e → ∃ input n,
        p.isValidInput input = true ∧ e = (Execution.initial p input).run p n := by
  obtain ⟨rfl, _⟩ := program_eq_of_ofProgram hnew
  rw [performAll_ofProgram hnew]
  refine ⟨rfl, fun e he => ?_⟩
  obtain ⟨g, hg, rfl⟩ := Option.map_eq_some_iff.1 he
  exact ⟨g.input, g.attempts, isValidInput_of_progress operations hg, rfl⟩

/-- A machine depends only on the last accepted input and on how many steps were attempted since,
whatever operations were carried out on it since it was new. -/
theorem performAll_ledTo (p : Program) (new : Machine) (hnew : ofProgram p = .ok new)
    (operations : List Operation) :
    new.LedTo (new.performAll operations) (Progress.ofOperations p operations) := by
  rw [performAll_ofProgram hnew]
  obtain ⟨rfl, hexecution⟩ := program_eq_of_ofProgram hnew
  exact ledTo_withProgress hexecution _ fun g hg => isValidInput_of_progress operations hg

/-- The input that is not valid leaves the second of the loaded ones in place, and the steps after
it count. -/
theorem performAll_ledTo_copier :
    ofProgram Program.copier = .ok copier ∧
      copier.LedTo (copier.performAll [.load "0", .execute "10" 1, .load "2", .run 1, .step])
        (some ⟨"10", 3⟩) := by
  have hprogress : Progress.ofOperations Program.copier
      [.load "0", .execute "10" 1, .load "2", .run 1, .step] = some ⟨"10", 3⟩ := by decide
  refine ⟨ofProgram_copier, ?_⟩
  rw [← hprogress]
  exact performAll_ledTo Program.copier copier ofProgram_copier _

end Machine

end TapeMachine
