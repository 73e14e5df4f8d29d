import TapeMachine.Proofs.Machine.Confinement

/-!
# What the record of a halt tells

A machine keeps a record of its halt while inputs are loaded, steps and runs are taken and the
machine is reset. `Truthful` says how the record, the status and the preview of the next transition
agree with what the machine shows and with what was applied to it since its input was loaded.
`performAll_truthful` says that this holds after any operations on a new machine: such a machine is
unloaded, or a run on an input, and what a run keeps is `Execution.Consistent`.
-/

namespace TapeMachine

namespace Machine

/-- One of the steps attempted on the last accepted input applies a transition. -/
def AppliedSince (new : Machine) (progress : Option Progress) : Prop :=
  ∃ g loaded, progress = some g ∧ new.load g.input = .ok loaded ∧
    ∃ i t, i < g.attempts ∧ (loaded.stepTimes i).Applies t

/-- The next step applies the transition to the state and to every tape, counts it, and records that
the machine accepts if the state it enters does. -/
structure StepsBy (m : Machine) (t : Transition) : Prop where
  state : m.step.2.state = t.nextState
  stepCount : m.step.2.stepCount = m.stepCount + 1
  tapes : m.UpdatesTapes t
  accepts : t.nextState ∈ m.program.accepting.toList →
    m.step.1 = .halted .accept ∧ m.step.2.halt? = some .accept
  continues : t.nextState ∉ m.program.accepting.toList →
    m.step.1 = .applied ∧ m.step.2.halt? = none

/-- The next step rejects in the state and on the symbols that the machine shows. It records this
and changes nothing else. -/
structure StepRejects (m : Machine) : Prop where
  answer : m.step.1 = .halted (.reject ⟨m.state, m.symbols⟩)
  halt : m.step.2.halt? = some (.reject ⟨m.state, m.symbols⟩)
  configuration : m.step.2.configuration = m.configuration

/-- The record of the halt of a machine, its status and its preview of the next transition tell the
truth, where the machine is one that operations with this progress lead to from a new one. -/
structure Truthful (new m : Machine) (progress : Option Progress) : Prop where
  accepted : m.halt? = some .accept ↔
    m.tapes ≠ [] ∧ AppliedSince new progress ∧ m.state ∈ m.program.accepting.toList
  rejected : ∀ r, m.halt? = some (.reject r) →
    r.state = m.state ∧ r.symbols = m.symbols ∧ m.transition? = none
  /-- The answer to a step before an input is loaded is not recorded, and other halts are. -/
  recorded : (m.step.1 = .unloaded → m.step.2 = m ∧ m.halt? = none) ∧
    ∀ halt, m.step.1 = .halted halt → m.step.2.halt? = some halt
  previewed : m.tapes ≠ [] → m.halt? = none →
    (∀ t, m.transition? = some t → m.StepsBy t) ∧
    (m.transition? = none → m.StepRejects) ∧
    ((∃ r, m.step.1 = .halted (.reject r)) ↔ m.transition? = none)
  unloaded : m.tapes = [] →
    m.stepCount = 0 ∧ m.program.initial = some m.state ∧ m.halt? = none ∧ m.transition? = none
  status_unloaded : m.status = .unloaded ↔ m.tapes = []
  status_initialized : m.status = .initialized ↔
    m.tapes ≠ [] ∧ m.halt? = none ∧ m.stepCount = 0
  status_running : m.status = .running ↔ m.tapes ≠ [] ∧ m.halt? = none ∧ 0 < m.stepCount
  status_halted : m.status = .halted ↔ m.halt?.isSome = true

/-! ## The status -/

section

variable {m : Machine}

theorem status_eq_initialized_iff :
    m.status = .initialized ↔ m.execution ≠ none ∧ m.halt? = none ∧ m.stepCount = 0 := by
  unfold status stepCount halt?
  cases m.execution with
  | none => simp
  | some e => cases hhalt : e.halt <;> by_cases hsteps : e.steps = 0 <;> simp [hhalt, hsteps]

theorem status_eq_running_iff :
    m.status = .running ↔ m.execution ≠ none ∧ m.halt? = none ∧ 0 < m.stepCount := by
  unfold status stepCount halt?
  cases m.execution with
  | none => simp
  | some e =>
      cases hhalt : e.halt <;> by_cases hsteps : e.steps = 0 <;>
        simp [hhalt, hsteps, Nat.pos_iff_ne_zero]

theorem status_eq_halted_iff : m.status = .halted ↔ m.halt?.isSome = true := by
  unfold status halt?
  cases m.execution with
  | none => simp
  | some e => cases hhalt : e.halt <;> by_cases hsteps : e.steps = 0 <;> simp [hhalt, hsteps]

/-! ## Machines without an input -/

/-- Every transition reads a symbol of each tape, so none fires where there are no tapes. -/
theorem transition?_of_unloaded (hpos : 0 < m.program.tapeCount) (he : m.execution = none) :
    m.transition? = none := by
  have hsymbols : m.symbols = [] := by
    rw [symbols, tapes, he]
    rfl
  rw [transition?, hsymbols]
  refine TransitionTable.get?_nil (fun t ht => ?_) m.state
  rw [(m.program_wellFormed.transitions t ht).lengths.1]
  exact hpos

theorem truthful_of_unloaded {new : Machine} (hpos : 0 < m.program.tapeCount)
    (he : m.execution = none) : Truthful new m none := by
  have htapes : m.tapes = [] := by rw [tapes, he]
  have hhalt : m.halt? = none := by
    rw [halt?, he]
    rfl
  have hstate : m.program.initial = some m.state := by
    rw [state, he]
    exact m.program_wellFormed.initial_eq
  constructor
  case accepted =>
    rw [hhalt]
    constructor
    · rintro ⟨⟩
    · rintro ⟨htapes', _⟩
      exact absurd htapes htapes'
  case rejected =>
    rw [hhalt]
    rintro r ⟨⟩
  case recorded =>
    rw [step_of_unloaded he]
    refine ⟨fun _ => ⟨rfl, hhalt⟩, ?_⟩
    rintro halt ⟨⟩
  case previewed => exact fun htapes' => absurd htapes htapes'
  case unloaded =>
    intro _
    refine ⟨?_, hstate, hhalt, transition?_of_unloaded hpos he⟩
    rw [stepCount, he]
  case status_unloaded => simp [status_eq_unloaded_iff, he, htapes]
  case status_initialized => simp [status_eq_initialized_iff, he, htapes]
  case status_running => simp [status_eq_running_iff, he, htapes]
  case status_halted => exact status_eq_halted_iff

end

/-! ## Machines at an execution -/

section

variable {m : Machine} {e : Execution} {t : Transition}

/-- A transition has been applied since an input was loaded exactly if the number of applied ones
is not zero. -/
theorem appliedSince_iff {new : Machine} {g : Progress}
    (hvalid : new.program.isValidInput g.input = true) :
    AppliedSince new (some g) ↔ 1 ≤ (g.execution new.program).steps := by
  have hload := load_of_valid hvalid
  constructor
  · rintro ⟨g', loaded, hg, hloaded, i, t, hi, happlies⟩
    obtain rfl := Option.some.inj hg
    obtain rfl := Except.ok.inj (hload.symm.trans hloaded)
    rw [stepTimes_of_execution rfl, applies_iff rfl] at happlies
    obtain ⟨hhalt, hfires⟩ := happlies
    -- The attempt that applies the transition counts it, and no later one takes it back.
    have hle := Execution.steps_le_run new.program (g.attempts - (i + 1))
      ((Execution.initial new.program g.input).run new.program (i + 1))
    rw [← Execution.run_add, Nat.add_sub_of_le hi, Execution.run_succ_last,
      Execution.step_of_transition hhalt hfires] at hle
    exact Nat.le_trans (Nat.le_add_left 1 _) hle
  · intro hsteps
    have hlt : (Execution.initial new.program g.input).steps + 0 <
        ((Execution.initial new.program g.input).run new.program g.attempts).steps := hsteps
    obtain ⟨t, hhalt, hfires, _⟩ := Execution.exists_transition_of_lt hlt
    have hattempts := (Execution.consistent_run new.program g.input g.attempts).steps_le
    refine ⟨g, _, rfl, hload, 0, t, Nat.lt_of_lt_of_le hsteps hattempts, ?_⟩
    exact (applies_iff rfl).2 ⟨hhalt, hfires⟩

/-- A machine that has not halted applies the transition that it previews. -/
theorem stepsBy_of_execution (he : m.execution = some e) (hhalt : e.halt = none)
    (hconfined : e.Confined m.program) (hfires : m.transition? = some t) : m.StepsBy t := by
  rw [transition?_of_execution he] at hfires
  have happlies : m.Applies t := (applies_iff he).2 ⟨hhalt, hfires⟩
  have hstep := step_of_execution he
  rw [Execution.step_of_transition hhalt hfires] at hstep
  constructor
  case state =>
    rw [hstep]
    rfl
  case stepCount =>
    rw [hstep, stepCount, stepCount, he]
    rfl
  case tapes => exact happlies.updatesTapes he hconfined
  case accepts =>
    intro hmem
    have haccepting := m.program.isAccepting_iff.2 hmem
    rw [hstep]
    simp [Execution.apply, halt?, Step.ofHalt, haccepting]
  case continues =>
    intro hmem
    have haccepting : m.program.isAccepting t.nextState = false := by
      rw [← Bool.not_eq_true, m.program.isAccepting_iff]
      exact hmem
    rw [hstep]
    simp [Execution.apply, halt?, Step.ofHalt, haccepting]

/-- A machine that has not halted rejects if it previews nothing. -/
theorem stepRejects_of_execution (he : m.execution = some e) (hhalt : e.halt = none)
    (hnone : m.transition? = none) : m.StepRejects := by
  rw [transition?_of_execution he] at hnone
  have hstep := step_of_execution he
  rw [Execution.step_of_no_transition hhalt hnone] at hstep
  have hrejection : (⟨m.state, m.symbols⟩ : Rejection) = ⟨e.state, e.symbols⟩ := by
    simp only [state, symbols, tapes, he]
    rfl
  constructor
  case answer =>
    rw [hstep, hrejection]
    rfl
  case halt =>
    rw [hstep, hrejection]
    rfl
  case configuration =>
    rw [hstep]
    simp only [configuration, state, stepCount, tapes, he]

/-- A machine that has not halted rejects with its next step exactly if it previews nothing. -/
theorem exists_reject_iff (he : m.execution = some e) (hhalt : e.halt = none)
    (hconfined : e.Confined m.program) :
    (∃ r, m.step.1 = .halted (.reject r)) ↔ m.transition? = none := by
  cases htransition : m.transition? with
  | none =>
      have hrejects := stepRejects_of_execution he hhalt htransition
      exact iff_of_true ⟨_, hrejects.answer⟩ rfl
  | some t =>
      refine iff_of_false ?_ (Option.some_ne_none t)
      rintro ⟨r, hr⟩
      have hsteps := stepsBy_of_execution he hhalt hconfined htransition
      by_cases hmem : t.nextState ∈ m.program.accepting.toList
      · rw [(hsteps.accepts hmem).1] at hr
        cases hr
      · rw [(hsteps.continues hmem).1] at hr
        cases hr

/-- A step answers with the halt that it records, now or earlier. -/
theorem halt?_step_of_execution (he : m.execution = some e) :
    m.step.1 ≠ .unloaded ∧ ∀ halt, m.step.1 = .halted halt → m.step.2.halt? = some halt := by
  rw [step_of_execution he]
  cases hnext : (e.step m.program).halt with
  | none =>
      constructor
      · intro hunloaded
        cases hunloaded
      · intro halt hhalted
        cases hhalted
  | some halt =>
      constructor
      · intro hunloaded
        cases hunloaded
      · rintro other ⟨⟩
        exact hnext

/-- A machine at a run on a valid input tells the truth. -/
theorem truthful_of_execution {new : Machine} {g : Progress} (hpos : 0 < m.program.tapeCount)
    (hprogram : m.program = new.program) (hvalid : new.program.isValidInput g.input = true)
    (he : m.execution = some (g.execution new.program)) : Truthful new m (some g) := by
  have hconsistent : (g.execution m.program).Consistent m.program g.attempts :=
    Execution.consistent_run m.program g.input g.attempts
  have hconfined : (g.execution m.program).Confined m.program :=
    Execution.confined_run m.program_wellFormed (hprogram ▸ hvalid) g.attempts
  have happlied := appliedSince_iff hvalid
  rw [← hprogram] at he happlied
  generalize g.execution m.program = e at he hconfined happlied hconsistent
  have hstate : m.state = e.state := by rw [state, he]
  have hsymbols : m.symbols = e.symbols := by
    rw [symbols, tapes, he]
    rfl
  have hhalt : m.halt? = e.halt := by
    rw [halt?, he]
    rfl
  have hloaded : m.execution ≠ none := by simp [he]
  have htapes : m.tapes ≠ [] := by
    rw [tapes, he, ← List.length_pos_iff, hconfined.length]
    exact hpos
  constructor
  case accepted =>
    rw [hhalt, hconsistent.accepted, happlied, hstate, m.program.isAccepting_iff]
    exact (and_iff_right htapes).symm
  case rejected =>
    intro r hr
    obtain ⟨rfl, hnone, _⟩ := hconsistent.rejected r (hhalt ▸ hr)
    exact ⟨hstate.symm, hsymbols.symm, (transition?_of_execution he).trans hnone⟩
  case recorded =>
    obtain ⟨hanswer, hrecord⟩ := halt?_step_of_execution he
    exact ⟨fun hunloaded => absurd hunloaded hanswer, hrecord⟩
  case previewed =>
    intro _ hnone
    rw [hhalt] at hnone
    exact ⟨fun t ht => stepsBy_of_execution he hnone hconfined ht,
      stepRejects_of_execution he hnone, exists_reject_iff he hnone hconfined⟩
  case unloaded => exact fun hnil => absurd hnil htapes
  case status_unloaded => simp [status_eq_unloaded_iff, hloaded, htapes]
  case status_initialized => simp [status_eq_initialized_iff, hloaded, htapes]
  case status_running => simp [status_eq_running_iff, hloaded, htapes]
  case status_halted => exact status_eq_halted_iff

end

/-- Whatever operations are carried out on a new machine, the record of its halt, its status and its
preview of the next transition tell the truth. -/
theorem performAll_truthful (p : Program) (hassembled : p.Assembled) (new : Machine)
    (hnew : ofProgram p = .ok new) (operations : List Operation) :
    Truthful new (new.performAll operations) (Progress.ofOperations p operations) := by
  rw [performAll_ofProgram hnew]
  obtain ⟨rfl, _⟩ := program_eq_of_ofProgram hnew
  cases hprogress : Progress.ofOperations new.program operations with
  | none => exact truthful_of_unloaded hassembled.tapeCount_pos rfl
  | some g =>
      have hvalid := isValidInput_of_progress operations hprogress
      exact truthful_of_execution hassembled.tapeCount_pos rfl hvalid rfl

/-- A refused input leaves the copier running, with the transition for its second symbol ahead. Two
steps later the record says that it has accepted, by a transition applied to that input. -/
theorem performAll_truthful_copier :
    Program.copier.Assembled ∧ ofProgram Program.copier = .ok copier ∧
      (copier.performAll [.execute "10" 1, .load "2"]).StepsBy
        ⟨"copy", ["0", "_"], "copy", ["0", "0"], [.right, .right]⟩ ∧
      (copier.performAll [.execute "10" 1, .load "2", .run 5]).halt? = some .accept ∧
      AppliedSince copier (some ⟨"10", 6⟩) := by
  have hassembled := Program.assembled_of_build Program.build_copier
  have hrunning := performAll_truthful Program.copier hassembled copier ofProgram_copier
    [.execute "10" 1, .load "2"]
  have haccepted := performAll_truthful Program.copier hassembled copier ofProgram_copier
    [.execute "10" 1, .load "2", .run 5]
  have hprogress : Progress.ofOperations Program.copier [.execute "10" 1, .load "2", .run 5] =
    some ⟨"10", 6⟩ := by decide
  have haccept :
      (copier.performAll [.execute "10" 1, .load "2", .run 5]).halt? = some .accept := by decide
  rw [hprogress] at haccepted
  refine ⟨hassembled, ofProgram_copier, ?_, haccept, (haccepted.accepted.1 haccept).2.1⟩
  exact (hrunning.previewed (by decide) (by decide)).1 _ (by decide)

end Machine

end TapeMachine
