import TapeMachine.Proofs.Machine.Halting
import TapeMachine.Proofs.Program.Assembled
import TapeMachine.Proofs.Tape.Visible
import TapeMachine.Simulator

/-!
# Traces of runs

The report of a run is a function of the program, the input and the budget
(`Simulator.run_of_valid`), and its trace holds the configuration after every number of attempts up
to the last transition. A trace is a computation that can be checked by its snapshots alone, without
the machine: every configuration but the last has exactly one transition that fires on what it
shows, and the next one shows what this transition writes and moves. `run_certified` says so of
every report, and that the verdict can be read off the last configuration.
-/

namespace TapeMachine

/-! ## What a configuration shows -/

namespace Configuration

/-- The symbols under the heads, where a head outside the cells of a snapshot is on a blank. -/
def symbols (c : Configuration) : List Symbol := c.tapes.map fun s => s.symbolAt s.head

/-- The transition is listed for what the configuration shows. -/
structure Fires (p : Program) (c : Configuration) (t : Transition) : Prop where
  mem : t ∈ p.transitions.toList
  state : t.state = c.state
  read : t.read = c.symbols

/-- The next configuration shows, tape by tape, what the transition writes and moves on the tapes
that this configuration shows. -/
structure Yields (c : Configuration) (t : Transition) (next : Configuration) : Prop where
  state : next.state = t.nextState
  step : next.step = c.step + 1
  length : next.tapes.length = c.tapes.length
  tapes : ∀ (i : Nat) (s : TapeSnapshot), c.tapes[i]? = some s →
    ∃ symbol direction s', t.write[i]? = some symbol ∧ t.directions[i]? = some direction ∧
      next.tapes[i]? = some s' ∧ s'.Shows s.blank ((s.infinite.write symbol).shift direction)

end Configuration

namespace Execution

variable {p : Program} {e : Execution} {t : Transition}

/-- The snapshots show the symbols under the heads. -/
theorem symbols_configuration (e : Execution) : e.configuration.symbols = e.symbols := by
  simp only [Configuration.symbols, configuration, symbols, List.map_map]
  refine List.map_congr_left fun tape _ => ?_
  have hcell : tape.snapshot.symbolAt = tape.symbolAt :=
    congrArg InfiniteTape.cell tape.infinite_snapshot
  show tape.snapshot.symbolAt tape.headPosition = tape.read
  rw [hcell, Tape.symbolAt_headPosition, Tape.read]

/-- What fires on an execution can be seen from its configuration. -/
theorem fires_configuration_iff : e.configuration.Fires p t ↔ e.transition? p = some t := by
  rw [transition?_eq_some_iff, ← symbols_configuration]
  exact ⟨fun h => ⟨h.mem, h.state, h.read⟩, fun h => ⟨h.1, h.2.1, h.2.2⟩⟩

/-- Applying an admitted transition to every tape can be seen from the configurations. -/
theorem yields_apply (ht : p.Admits t) (hlen : e.tapes.length = p.tapeCount) :
    e.configuration.Yields t (e.apply p t).configuration where
  state := rfl
  step := rfl
  length := by simp [configuration, apply, length_updateTapes]
  tapes i s hs := by
    obtain ⟨tape, htape, rfl⟩ := List.getElem?_map .. ▸ hs |> Option.map_eq_some_iff.1
    obtain ⟨hi, rfl⟩ := List.getElem?_eq_some_iff.1 htape
    obtain ⟨_, hwrite, hmove⟩ := ht.lengths
    have hw : i < t.write.length := by omega
    have hd : i < t.directions.length := by omega
    refine ⟨t.write[i], t.directions[i],
      ((e.tapes[i].write t.write[i]).shift t.directions[i]).snapshot,
      List.getElem?_eq_getElem hw, List.getElem?_eq_getElem hd, ?_, ?_⟩
    · simp [configuration, apply, getElem?_updateTapes hi hw hd]
    · have hshows := ((e.tapes[i].write t.write[i]).shift t.directions[i]).snapshot_shows
      rw [Tape.infinite_shift, Tape.infinite_write, Tape.blank_shift, Tape.blank_write] at hshows
      rw [Tape.infinite_snapshot]
      exact hshows

/-- A step keeps the number of tapes. -/
theorem length_tapes_step (p : Program) (e : Execution) :
    (e.step p).tapes.length = e.tapes.length := by
  rcases step_cases p e with ⟨_, _, h⟩ | ⟨t, _, _, h⟩ | ⟨_, _, h⟩
  · rw [h]
  · rw [h, apply, length_updateTapes]
  · rw [h]

theorem length_tapes_run (p : Program) (input : String) (n : Nat) :
    ((initial p input).run p n).tapes.length = p.tapeCount :=
  run_induction (motive := fun e => e.tapes.length = p.tapeCount)
    (fun e h => (length_tapes_step p e).trans h) (length_initialTapes p input) n

/-- Before the first step the first tape shows the input, the others are empty and all heads are
at 0. -/
theorem snapshots_initial (h : p.WellFormed) {input : String}
    (hvalid : p.isValidInput input = true) :
    (initialTapes p input).map Tape.snapshot = (List.range p.tapeCount).map fun i =>
      { cells := if i = 0 then input.toList.map String.singleton else []
        start := 0, head := 0, blank := p.blank.getD "" } := by
  rw [initialTapes, List.map_map]
  refine List.map_congr_left fun i _ => ?_
  by_cases hi : i = 0
  · simp only [Function.comp, hi, if_true]
    exact Tape.snapshot_ofContent fun symbol hs => h.ne_blank_of_valid hvalid hs
  · simp only [Function.comp, hi, if_false]
    exact Tape.snapshot_ofContent (by simp)

/-! ## Recording -/

/-- The configurations after the first `n` attempts, the one before them included. -/
def configurations (p : Program) (e : Execution) (n : Nat) : List Configuration :=
  (List.range (n + 1)).map fun i => (e.run p i).configuration

theorem configurations_succ (p : Program) (e : Execution) (n : Nat) :
    e.configurations p (n + 1) = e.configuration :: (e.step p).configurations p n := by
  unfold configurations
  rw [List.range_succ_eq_map, List.map_cons, List.map_map]
  refine congrArg _ (List.map_congr_left fun i _ => ?_)
  exact congrArg Execution.configuration (run_succ p i e)

/-- Recording runs the execution and puts the configurations after the transitions in front of
those that were recorded before. -/
theorem record_eq (p : Program) (budget : Nat) (e : Execution) (history : List Configuration)
    (hhalt : e.halt = none) :
    e.record p budget (e.configuration :: history) =
      (e.run p budget,
        (e.configurations p ((e.run p budget).steps - e.steps)).reverse ++ history) := by
  induction budget generalizing e history with
  | zero => simp [record, run, configurations]
  | succ budget ih =>
      rw [run_succ]
      rcases step_cases p e with ⟨_, hhalt', _⟩ | ⟨t, _, _, hstep⟩ | ⟨_, _, hstep⟩
      · rw [hhalt] at hhalt'
        cases hhalt'
      · -- One more configuration is recorded, and recording goes on unless it is accepting.
        have hsteps : (e.step p).steps = e.steps + 1 := by
          rw [hstep]
          rfl
        have hle := steps_le_run p budget (e.step p)
        have hcount : ((e.step p).run p budget).steps - e.steps =
            ((e.step p).run p budget).steps - (e.step p).steps + 1 := by omega
        rw [hcount, configurations_succ, List.reverse_cons, List.append_assoc,
          List.singleton_append]
        unfold record
        cases hnext : (e.step p).halt with
        | none =>
            simp only [hnext]
            exact ih (e.step p) (e.configuration :: history) hnext
        | some halt =>
            have haccept : halt = .accept := by
              rw [hstep, apply] at hnext
              simp only at hnext
              split at hnext
              · exact (Option.some.inj hnext).symm
              · cases hnext
            simp only [hnext, haccept, run_of_halt hnext, Nat.sub_self]
            simp [configurations, run]
      · -- A rejection applies no transition, and nothing is recorded for it.
        have hnext : (e.step p).halt = some (.reject ⟨e.state, e.symbols⟩) := by
          rw [hstep]
        have hsteps : (e.step p).steps = e.steps := by
          rw [hstep]
        unfold record
        simp only [hnext, run_of_halt hnext, hsteps, Nat.sub_self]
        simp [configurations, run]

end Execution

/-! ## Reports -/

/-- The report of a run on a valid input with this budget. -/
def RunReport.ofRun (p : Program) (input : String) (budget : Nat) : RunReport :=
  let first := Execution.initial p input
  let final := first.run p budget
  { input
    outcome := final.outcome
    steps := final.steps
    finalState := final.state
    tapes := final.tapes.map Tape.snapshot
    trace := first.configurations p final.steps }

namespace Simulator

/-- The simulator after a run on a valid input. -/
def afterRun (s : Simulator) (input : String) : Simulator :=
  let final := (Execution.initial s.machine.program input).run s.machine.program s.config.maxSteps
  { s with
    machine := { s.machine with execution := some final }
    history := (RunReport.ofRun s.machine.program input s.config.maxSteps).trace.reverse }

/-- A run on a valid input gives its report, whatever was run and recorded before. -/
theorem run_of_valid {s : Simulator} {input : String}
    (h : s.machine.program.isValidInput input = true) :
    s.run input =
      .ok (.ofRun s.machine.program input s.config.maxSteps, s.afterRun input) := by
  have hrecord := Execution.record_eq s.machine.program s.config.maxSteps
    (.initial s.machine.program input) [] rfl
  rw [Execution.steps_initial, Nat.sub_zero, List.append_nil] at hrecord
  rw [run, Execution.start_of_valid h]
  simp only [Except.map, hrecord, List.reverse_reverse]
  rfl

/-- A run on an input that is not valid gives no report. -/
theorem run_of_invalid {s : Simulator} {input : String}
    (h : s.machine.program.isValidInput input = false) :
    ∃ symbol, s.machine.program.inputAlphabet.firstInvalid? input = some symbol ∧
      s.run input = .error (.invalidInput input symbol) := by
  obtain ⟨symbol, hsymbol, hstart⟩ := Execution.start_of_invalid h
  refine ⟨symbol, hsymbol, ?_⟩
  rw [run, hstart]
  rfl

end Simulator

namespace RunReport

/-- What a report says can be checked by its snapshots. -/
structure Certified (p : Program) (input : String) (budget : Nat) (r : RunReport) : Prop where
  input_eq : r.input = input
  steps_le : r.steps ≤ budget
  /-- There is one configuration for every number of transitions up to the number of steps. -/
  length : r.trace.length = r.steps + 1
  step : ∀ (i : Nat) (c : Configuration), r.trace[i]? = some c → c.step = i
  /-- At first the first tape shows the input, the others are empty, and all heads are at 0. -/
  first : ∃ c tape others, r.trace[0]? = some c ∧ p.initial = some c.state ∧
    c.tapes = tape :: others ∧ c.tapes.length = p.tapeCount ∧
    tape.cells = input.toList.map String.singleton ∧ (∀ other ∈ others, other.cells = []) ∧
    ∀ s ∈ c.tapes, s.start = 0 ∧ s.head = 0 ∧ p.blank = some s.blank
  /-- Exactly one transition fires on every configuration but the last, and yields the next. -/
  next : ∀ i, i < r.steps → ∃ c c' t, r.trace[i]? = some c ∧ r.trace[i + 1]? = some c' ∧
    c.Fires p t ∧ (∀ t', c.Fires p t' → t' = t) ∧ c.Yields t c'
  /-- The report tells the state and the tapes of the last configuration. -/
  last : ∃ c, r.trace[r.steps]? = some c ∧ c.state = r.finalState ∧ c.tapes = r.tapes
  accepted : r.outcome = .accepted ↔ 1 ≤ r.steps ∧ r.finalState ∈ p.accepting.toList
  rejected : r.outcome = .rejected ↔ r.outcome ≠ .accepted ∧
    (∀ c, r.trace[r.steps]? = some c → ∀ t, ¬ c.Fires p t) ∧ r.steps < budget
  stepLimitReached : r.outcome = .stepLimitReached ↔ r.outcome ≠ .accepted ∧ r.steps = budget

section

variable {p : Program} {input : String} {budget : Nat}

/-- An entry of the trace is the configuration after as many attempts. -/
theorem getElem?_trace_ofRun {i : Nat} (h : i ≤ (ofRun p input budget).steps) :
    (ofRun p input budget).trace[i]? =
      some ((Execution.initial p input).run p i).configuration := by
  have hlt : i < (ofRun p input budget).steps + 1 := by omega
  show ((List.range ((ofRun p input budget).steps + 1)).map _)[i]? = _
  rw [List.getElem?_map, List.getElem?_range hlt, Option.map_some]

theorem length_trace_ofRun :
    (ofRun p input budget).trace.length = (ofRun p input budget).steps + 1 := by
  simp [ofRun, Execution.configurations]

/-- An entry of the trace counts the transitions before it. -/
theorem step_of_getElem?_trace_ofRun {i : Nat} {c : Configuration}
    (h : (ofRun p input budget).trace[i]? = some c) : c.step = i := by
  obtain ⟨hlt, _⟩ := List.getElem?_eq_some_iff.1 h
  rw [length_trace_ofRun] at hlt
  rw [getElem?_trace_ofRun (by omega)] at h
  obtain rfl := Option.some.inj h
  have hle : (Execution.initial p input).steps + i ≤
      ((Execution.initial p input).run p budget).steps := by
    rw [Execution.steps_initial, Nat.zero_add]
    exact Nat.le_of_lt_succ hlt
  have hsteps := (Execution.steps_run_of_le hle).1
  rw [Execution.steps_initial, Nat.zero_add] at hsteps
  exact hsteps

/-- After as many attempts as the report has steps, only a rejection can follow. -/
theorem run_eq_run_steps_ofRun (p : Program) (input : String) (budget : Nat) :
    (Execution.initial p input).run p budget =
      { (Execution.initial p input).run p (ofRun p input budget).steps with
        halt := ((Execution.initial p input).run p budget).halt } :=
  Execution.run_eq_run_steps p budget (.initial p input)

/-- The last entry of the trace shows the state and the tapes of the report, and the same
transitions fire on it as at the end of the run. -/
theorem last_ofRun (p : Program) (input : String) (budget : Nat) :
    ∃ c, (ofRun p input budget).trace[(ofRun p input budget).steps]? = some c ∧
      c.state = (ofRun p input budget).finalState ∧ c.tapes = (ofRun p input budget).tapes ∧
      ∀ t, c.Fires p t ↔ ((Execution.initial p input).run p budget).transition? p = some t := by
  refine ⟨_, getElem?_trace_ofRun (Nat.le_refl _), ?_⟩
  have hrun := run_eq_run_steps_ofRun p input budget
  refine ⟨(congrArg Execution.state hrun).symm,
    congrArg (List.map Tape.snapshot) (congrArg Execution.tapes hrun).symm, fun t => ?_⟩
  rw [Execution.fires_configuration_iff, hrun]
  rfl

/-- No transition fires on the last entry of the trace exactly if none fires at the end of the
run. -/
theorem forall_not_fires_ofRun_iff (p : Program) (input : String) (budget : Nat) :
    (∀ c, (ofRun p input budget).trace[(ofRun p input budget).steps]? = some c →
        ∀ t, ¬ c.Fires p t) ↔
      ((Execution.initial p input).run p budget).transition? p = none := by
  obtain ⟨last, hget, _, _, hfires⟩ := last_ofRun p input budget
  rw [Option.eq_none_iff_forall_ne_some]
  constructor
  · intro h t ht
    exact h last hget t ((hfires t).2 ht)
  · intro h c hc t ht
    obtain rfl : last = c := Option.some.inj (hget.symm.trans hc)
    exact h t ((hfires t).1 ht)

/-- Every step of the report is that of the only transition that fires. -/
theorem next_ofRun (h : p.WellFormed) {i : Nat} (hi : i < (ofRun p input budget).steps) :
    ∃ c c' t, (ofRun p input budget).trace[i]? = some c ∧
      (ofRun p input budget).trace[i + 1]? = some c' ∧
      c.Fires p t ∧ (∀ t', c.Fires p t' → t' = t) ∧ c.Yields t c' := by
  have hlt : (Execution.initial p input).steps + i <
      ((Execution.initial p input).run p budget).steps := by
    rw [Execution.steps_initial, Nat.zero_add]
    exact hi
  obtain ⟨t, _, ht, hnext⟩ := Execution.exists_transition_of_lt hlt
  refine ⟨_, _, t, getElem?_trace_ofRun (Nat.le_of_lt hi), getElem?_trace_ofRun hi,
    Execution.fires_configuration_iff.2 ht, ?_, ?_⟩
  · intro t' ht'
    have hfires := Execution.fires_configuration_iff.1 ht'
    exact Option.some.inj (hfires.symm.trans ht)
  · rw [hnext]
    have hmem := (Execution.transition?_eq_some_iff.1 ht).1
    exact Execution.yields_apply (h.transitions t hmem) (Execution.length_tapes_run p input i)

/-- At first the first tape shows the input and the others are empty. -/
theorem first_ofRun (h : p.WellFormed) (hpos : 0 < p.tapeCount)
    (hvalid : p.isValidInput input = true) :
    ∃ c tape others, (ofRun p input budget).trace[0]? = some c ∧ p.initial = some c.state ∧
      c.tapes = tape :: others ∧ c.tapes.length = p.tapeCount ∧
      tape.cells = input.toList.map String.singleton ∧ (∀ other ∈ others, other.cells = []) ∧
      ∀ s ∈ c.tapes, s.start = 0 ∧ s.head = 0 ∧ p.blank = some s.blank := by
  have hsnapshots := Execution.snapshots_initial h hvalid
  obtain ⟨count, hcount⟩ := Nat.exists_eq_succ_of_ne_zero (Nat.ne_of_gt hpos)
  have htapes := hsnapshots
  rw [hcount, List.range_succ_eq_map, List.map_cons, List.map_map] at htapes
  refine ⟨_, _, _, getElem?_trace_ofRun (Nat.zero_le _), h.initial_eq, htapes, ?_, rfl, ?_, ?_⟩
  · simp [Execution.run, Execution.configuration, Execution.initial, Execution.length_initialTapes]
  · intro other hother
    obtain ⟨i, _, rfl⟩ := List.mem_map.1 hother
    rfl
  · intro s hs
    change s ∈ (Execution.initialTapes p input).map Tape.snapshot at hs
    rw [hsnapshots] at hs
    obtain ⟨i, _, rfl⟩ := List.mem_map.1 hs
    exact ⟨rfl, rfl, h.blank_eq⟩

end

/-! ## Verdicts -/

/-- The verdict on a run is the one that its number of transitions and its last state tell. -/
theorem verdict_ofRun (p : Program) (input : String) (budget : Nat) :
    let r := ofRun p input budget
    let final := (Execution.initial p input).run p budget
    (r.outcome = .accepted ↔ 1 ≤ r.steps ∧ r.finalState ∈ p.accepting.toList) ∧
    (r.outcome = .rejected ↔
      r.outcome ≠ .accepted ∧ final.transition? p = none ∧ r.steps < budget) ∧
    (r.outcome = .stepLimitReached ↔ r.outcome ≠ .accepted ∧ r.steps = budget) := by
  intro r final
  have hc : Execution.Consistent p budget final := Execution.consistent_run p input budget
  have hsteps : r.steps = final.steps := rfl
  have hstate : r.finalState = final.state := rfl
  have houtcome : r.outcome = .ofHalt final.halt := rfl
  have haccepted := hc.accepted
  rw [p.isAccepting_iff] at haccepted
  rw [houtcome, hsteps, hstate, ← haccepted]
  cases hhalt : final.halt with
  | none =>
      -- Without a halt every attempt has applied a transition, and the budget is used up.
      have hlast := hc.running hhalt
      simp only [Outcome.ofHalt, reduceCtorEq, hlast, ne_eq, not_false_eq_true, and_true,
        Nat.lt_irrefl, and_false]
  | some halt =>
      cases halt with
      | accept => simp [Outcome.ofHalt]
      | reject rejection =>
          -- The attempt that found no transition was one of the budget.
          obtain ⟨_, hnone, hlt⟩ := hc.rejected rejection hhalt
          have hne : final.steps ≠ budget := Nat.ne_of_lt hlt
          simp [Outcome.ofHalt, hnone, hlt, hne]

/-- Every report certifies its own verdict. -/
theorem run_certified {s s' : Simulator} {input : String} {r : RunReport}
    (hassembled : s.machine.program.Assembled) (hrun : s.run input = .ok (r, s')) :
    r.Certified s.machine.program input s.config.maxSteps := by
  have hwf := s.machine.program_wellFormed
  cases hvalid : s.machine.program.isValidInput input with
  | false =>
      obtain ⟨symbol, _, herror⟩ := Simulator.run_of_invalid hvalid
      rw [herror] at hrun
      cases hrun
  | true =>
      rw [Simulator.run_of_valid hvalid] at hrun
      obtain ⟨rfl, _⟩ := Prod.mk.inj (Except.ok.inj hrun)
      obtain ⟨haccepted, hrejected, hlimit⟩ :=
        verdict_ofRun s.machine.program input s.config.maxSteps
      constructor
      case input_eq => rfl
      case steps_le =>
        exact (Execution.consistent_run s.machine.program input s.config.maxSteps).steps_le
      case length => exact length_trace_ofRun
      case step =>
        intro i c hc
        exact step_of_getElem?_trace_ofRun hc
      case first => exact first_ofRun hwf hassembled.tapeCount_pos hvalid
      case next =>
        intro i hi
        exact next_ofRun hwf hi
      case last =>
        obtain ⟨c, hget, hstate, htapes, _⟩ :=
          last_ofRun s.machine.program input s.config.maxSteps
        exact ⟨c, hget, hstate, htapes⟩
      case accepted => exact haccepted
      case rejected =>
        rw [forall_not_fires_ofRun_iff]
        exact hrejected
      case stepLimitReached => exact hlimit

/-- The run of the copier on two symbols accepts, and its report certifies this. -/
theorem run_certified_copier :
    Program.copier.Assembled ∧
      ∃ r s', Simulator.run ⟨Machine.copier, {}, []⟩ "10" = .ok (r, s') ∧ r.outcome = .accepted ∧
        r.Certified Program.copier "10" defaultMaxSteps := by
  have hassembled := Program.assembled_of_build Program.build_copier
  have hvalid : Machine.copier.program.isValidInput "10" = true := by decide
  have hrun := Simulator.run_of_valid (s := ⟨Machine.copier, {}, []⟩) hvalid
  exact ⟨hassembled, _, _, hrun, by decide, run_certified hassembled hrun⟩

end RunReport

end TapeMachine
