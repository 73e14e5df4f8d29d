import TapeMachine.Proofs.Machine.Operations
import TapeMachine.Proofs.Simulator.Trace

/-!
# Three ways to drive a machine

A machine can execute an input by itself, a simulator can run on it, and a simulator can be stepped
through it once the input has been loaded into its machine. A run records the configuration after
every transition, and a step records the one that it starts from, whether or not a transition
follows. `drivers_agree` says that all three end with the same machine, that the run and the
execution give the same verdict, and that the two traces differ by the last configuration, which
stepping has recorded only if the last attempt was a rejection.
-/

namespace TapeMachine

namespace Execution

variable {p : Program} {e : Execution}

/-- The configurations that the first `n` attempts start from. Nothing is attempted after the
halt. -/
def attempted (p : Program) (e : Execution) : Nat → List Configuration
  | 0 => []
  | n + 1 =>
    if (e.run p n).halt.isSome then attempted p e n
    else attempted p e n ++ [(e.run p n).configuration]

theorem attempted_succ_of_halt {n : Nat} {halt : Halt} (h : (e.run p n).halt = some halt) :
    e.attempted p (n + 1) = e.attempted p n := by
  rw [attempted, h, Option.isSome_some, if_pos rfl]

theorem attempted_succ_of_running {n : Nat} (h : (e.run p n).halt = none) :
    e.attempted p (n + 1) = e.attempted p n ++ [(e.run p n).configuration] := by
  rw [attempted, h, Option.isSome_none, if_neg Bool.false_ne_true]

theorem configurations_succ_last (p : Program) (e : Execution) (n : Nat) :
    e.configurations p (n + 1) = e.configurations p n ++ [(e.run p (n + 1)).configuration] := by
  unfold configurations
  rw [List.range_succ (n := n + 1), List.map_append, List.map_singleton]

/-- The configurations up to the last transition are those that attempts start from and then the
last one, which no attempt has started from unless it was rejected. -/
theorem configurations_run (p : Program) (input : String) (n : Nat) :
    (initial p input).configurations p ((initial p input).run p n).steps =
      (initial p input).attempted p n ++
        if ((initial p input).run p n).outcome = .rejected then []
        else [((initial p input).run p n).configuration] := by
  induction n with
  | zero => rfl
  | succ n ih =>
      have hlast := run_succ_last p n (initial p input)
      rcases step_cases p ((initial p input).run p n) with
        ⟨halt, hhalt, hstep⟩ | ⟨t, hhalt, _, hstep⟩ | ⟨hhalt, _, hstep⟩
      · rw [hlast, hstep, attempted_succ_of_halt hhalt]
        exact ih
      · -- The transition leads to a configuration that is new to both.
        have hcount := (consistent_run p input n).running hhalt
        have hlimit : ((initial p input).run p n).outcome ≠ .rejected := by
          simp [outcome, hhalt, Outcome.ofHalt]
        have hsteps : ((initial p input).run p (n + 1)).steps = n + 1 := by
          rw [hlast, hstep]
          exact congrArg (· + 1) hcount
        have hnot : ((initial p input).run p (n + 1)).outcome ≠ .rejected := by
          rw [hlast, hstep, outcome, apply]
          cases p.isAccepting t.nextState <;> simp [Outcome.ofHalt]
        rw [hcount, if_neg hlimit] at ih
        rw [hsteps, configurations_succ_last, ih, attempted_succ_of_running hhalt, if_neg hnot]
      · -- The rejection adds to the attempts only.
        have hlimit : ((initial p input).run p n).outcome ≠ .rejected := by
          simp [outcome, hhalt, Outcome.ofHalt]
        rw [if_neg hlimit] at ih
        rw [hlast, hstep, attempted_succ_of_running hhalt]
        exact ih.trans (List.append_nil _).symm

end Execution

namespace Simulator

/-- Load an input into the machine of the simulator, leaving the trace as it is. -/
def load (s : Simulator) (input : String) : Except MachineError Simulator :=
  (s.machine.load input).map fun machine => { s with machine }

/-- The simulator after a number of single steps. -/
def stepTimes (s : Simulator) : Nat → Simulator
  | 0 => s
  | n + 1 => (s.stepTimes n).step.2

theorem load_of_valid {s : Simulator} {input : String}
    (h : s.machine.program.isValidInput input = true) :
    s.load input = .ok { s with machine :=
      { s.machine with execution := some (.initial s.machine.program input) } } := by
  rw [load, Machine.load_of_valid h]
  rfl

/-- A step moves the machine on, and records where it starts from unless that is a halt. -/
theorem step_of_execution {s : Simulator} {e : Execution} (h : s.machine.execution = some e) :
    s.step.2 = { s with
      machine := { s.machine with execution := some (e.step s.machine.program) }
      history := if e.halt.isSome then s.history else e.configuration :: s.history } := by
  have hhalted : s.machine.isHalted = e.halt.isSome := by
    rw [Machine.isHalted, Machine.halt?, h, Option.bind_some]
  unfold step
  rw [Machine.step_of_execution h, hhalted, Machine.configuration_of_execution h, h]
  cases e.halt <;> rfl

/-- Single steps run the machine, and record what every attempt starts from. -/
theorem stepTimes_of_execution {s : Simulator} {e : Execution}
    (h : s.machine.execution = some e) (n : Nat) :
    s.stepTimes n = { s with
      machine := { s.machine with execution := some (e.run s.machine.program n) }
      history := (e.attempted s.machine.program n).reverse ++ s.history } := by
  induction n with
  | zero =>
      obtain ⟨⟨p, hp, execution⟩, config, history⟩ := s
      obtain rfl : execution = some e := h
      rfl
  | succ n ih =>
      rw [stepTimes, ih, step_of_execution (e := e.run s.machine.program n) rfl,
        Execution.run_succ_last]
      cases hhalt : (e.run s.machine.program n).halt with
      | some halt => rw [Execution.attempted_succ_of_halt hhalt, Option.isSome_some, if_pos rfl]
      | none =>
          rw [Execution.attempted_succ_of_running hhalt, Option.isSome_none,
            if_neg Bool.false_ne_true, List.reverse_append]
          rfl

/-- Executing an input, running on it, and stepping through it lead to the same machine, whatever
was done before: the one of `s` by a run, `m` by an execution, and the one of `t` by as many steps
as the budget of `s` allows. An input that is not valid is refused by the run and the execution for
the same reason. -/
theorem drivers_agree {m : Machine} {s t : Simulator} (hs : s.machine.program = m.program)
    (ht : t.machine.program = m.program) (htrace : t.trace = []) (input : String) :
    (m.program.isValidInput input = true →
      ∃ report ran executed loaded,
        s.run input = .ok (report, ran) ∧
        m.execute input s.config.maxSteps = .ok (report.outcome, executed) ∧
        t.load input = .ok loaded ∧
        ran.machine = executed ∧ (loaded.stepTimes s.config.maxSteps).machine = executed ∧
        (report.outcome = .rejected →
          report.trace = (loaded.stepTimes s.config.maxSteps).trace) ∧
        (report.outcome ≠ .rejected →
          report.trace =
            (loaded.stepTimes s.config.maxSteps).trace ++ [executed.configuration])) ∧
    (m.program.isValidInput input = false →
      ∃ symbol, m.program.inputAlphabet.firstInvalid? input = some symbol ∧
        s.run input = .error (.invalidInput input symbol) ∧
        m.execute input s.config.maxSteps = .error (.invalidInput input symbol)) := by
  obtain ⟨⟨_, hwell, old⟩, config, history⟩ := s
  obtain ⟨⟨_, _, other⟩, config', _⟩ := t
  obtain rfl := hs
  obtain rfl := ht
  obtain rfl := List.reverse_eq_nil_iff.1 htrace
  constructor
  · intro hvalid
    let first := Execution.initial m.program input
    let final := first.run m.program config.maxSteps
    let report := RunReport.ofRun m.program input config.maxSteps
    let executed : Machine := { m with execution := some final }
    let loaded : Simulator := ⟨{ m with execution := some first }, config', []⟩
    have hstepped : loaded.stepTimes config.maxSteps =
        ⟨executed, config', (first.attempted m.program config.maxSteps).reverse ++ []⟩ :=
      stepTimes_of_execution rfl config.maxSteps
    have htraces : report.trace = (loaded.stepTimes config.maxSteps).trace ++
        if report.outcome = .rejected then [] else [executed.configuration] := by
      rw [hstepped, trace, List.append_nil, List.reverse_reverse]
      exact Execution.configurations_run m.program input config.maxSteps
    refine ⟨report, _, executed, loaded, run_of_valid hvalid,
      Machine.execute_of_valid hvalid config.maxSteps, load_of_valid hvalid, rfl,
      congrArg machine hstepped, fun hrejected => ?_, fun hnot => ?_⟩
    · rw [htraces, if_pos hrejected, List.append_nil]
    · rw [htraces, if_neg hnot]
  · intro hinvalid
    obtain ⟨symbol, hsymbol, hload⟩ := Machine.load_of_invalid hinvalid
    obtain ⟨other, hother, hrun⟩ := run_of_invalid
      (s := ⟨{ m with execution := old }, config, history⟩) hinvalid
    obtain rfl : symbol = other := Option.some.inj (hsymbol.symm.trans hother)
    exact ⟨symbol, hsymbol, hrun, Machine.execute_of_load_error hload config.maxSteps⟩

/-- The budget of the copier ends at the transition that accepts, which starts from the last
configuration that stepping records. -/
theorem drivers_agree_copier :
    ∃ (s : Simulator) (report : RunReport) (ran : Simulator) (executed : Machine)
      (loaded : Simulator), s.machine = Machine.copier ∧ s.trace = [] ∧
        s.config.maxSteps = 3 ∧ s.run "10" = .ok (report, ran) ∧
        Machine.copier.execute "10" 3 = .ok (.accepted, executed) ∧ s.load "10" = .ok loaded ∧
        ran.machine = executed ∧ (loaded.stepTimes 3).machine = executed ∧
        report.trace = (loaded.stepTimes 3).trace ++ [executed.configuration] := by
  let s : Simulator := ⟨Machine.copier, { maxSteps := 3 }, []⟩
  obtain ⟨report, ran, executed, loaded, hrun, hexecute, hload, hran, hstepped, _, htrace⟩ :=
    (drivers_agree (m := Machine.copier) (s := s) (t := s) rfl rfl rfl "10").1 (by decide)
  have hverdict : (Machine.copier.execute "10" 3).toOption.map Prod.fst = some .accepted := by
    decide
  rw [hexecute] at hverdict
  have houtcome : report.outcome = .accepted := Option.some.inj hverdict
  rw [houtcome] at hexecute
  exact ⟨s, report, ran, executed, loaded, rfl, rfl, rfl, hrun, hexecute, hload, hran, hstepped,
    htrace (by rw [houtcome]; decide)⟩

end Simulator

end TapeMachine
