import TapeMachine.Proofs.Simulator.Trace

/-!
# Budgets

A budget cuts a run short and does nothing else to it. There is a threshold: budgets below it are
used up, and all others see the same halt. An accepting run needs as many attempts as it applies
transitions, and a rejecting run one more, in which it finds no transition (`accepts_or_rejects`).
`reports_by_budget` says so of the reports of a simulator, whose traces grow with the budget and
stay the same from the threshold on.
-/

namespace TapeMachine

namespace Execution

variable {p : Program} {e : Execution} {t : Transition}

/-- A transition that halts accepts. -/
theorem eq_accept_of_halt_apply {halt : Halt} (h : (e.apply p t).halt = some halt) :
    halt = .accept := by
  simp only [apply] at h
  split at h
  · exact (Option.some.inj h).symm
  · cases h

/-- A run that has not halted had not halted before. -/
theorem halt_eq_none_of_le {m n : Nat} (h : m ≤ n) (hn : (e.run p n).halt = none) :
    (e.run p m).halt = none := by
  obtain ⟨rest, rfl⟩ := Nat.exists_eq_add_of_le h
  cases hm : (e.run p m).halt with
  | none => rfl
  | some halt =>
      rw [run_add, run_of_halt hm, hm] at hn
      exact hn

/-- After the halt no budget makes a difference. -/
theorem run_eq_of_le {m n : Nat} {halt : Halt} (h : m ≤ n) (hm : (e.run p m).halt = some halt) :
    e.run p n = e.run p m := by
  obtain ⟨rest, rfl⟩ := Nat.exists_eq_add_of_le h
  rw [run_add, run_of_halt hm]

/-- A run that halts does so in one of its attempts. -/
theorem exists_halting_attempt (h : e.halt = none) {n : Nat} (hn : (e.run p n).halt ≠ none) :
    ∃ k, (e.run p k).halt = none ∧ (e.run p (k + 1)).halt ≠ none := by
  induction n with
  | zero => exact absurd h hn
  | succ n ih =>
      by_cases hbefore : (e.run p n).halt = none
      · exact ⟨n, hbefore, hn⟩
      · exact ih hbefore

/-- The configurations after fewer attempts come first. -/
theorem configurations_prefix (p : Program) (e : Execution) {m n : Nat} (h : m ≤ n) :
    e.configurations p m <+: e.configurations p n := by
  have htake : (List.range (n + 1)).take (m + 1) = List.range (m + 1) := by
    rw [List.take_range, Nat.min_eq_left (Nat.succ_le_succ h)]
  unfold configurations
  rw [← htake, List.map_take]
  exact List.take_prefix _ _

end Execution

/-! ## Reports by their budgets -/

section

variable (report : Nat → RunReport)

/-- The run accepts with its transition number `s`, so budgets from `s` on suffice, and smaller ones
are used up. -/
structure AcceptsAfter (s : Nat) : Prop where
  pos : 1 ≤ s
  enough : ∀ n, s ≤ n → (report n).outcome = .accepted ∧ (report n).steps = s
  short : ∀ n, n < s → (report n).outcome = .stepLimitReached ∧ (report n).steps = n

/-- The run rejects after `s` transitions. This takes one more attempt, so a budget of `s` is used
up as well. -/
structure RejectsAfter (s : Nat) : Prop where
  enough : ∀ n, s + 1 ≤ n → (report n).outcome = .rejected ∧ (report n).steps = s
  short : ∀ n, n ≤ s → (report n).outcome = .stepLimitReached ∧ (report n).steps = n

/-- Every budget is used up. -/
def NeverHalts : Prop :=
  ∀ n, (report n).outcome = .stepLimitReached ∧ (report n).steps = n

end

namespace RunReport

variable {p : Program} {input : String}

/-- Without a halt the budget is used up. -/
theorem ofRun_of_running {n : Nat} (h : ((Execution.initial p input).run p n).halt = none) :
    (ofRun p input n).outcome = .stepLimitReached ∧ (ofRun p input n).steps = n := by
  refine ⟨?_, (Execution.consistent_run p input n).running h⟩
  show Outcome.ofHalt ((Execution.initial p input).run p n).halt = _
  rw [h]
  rfl

/-- The verdict is the step limit only if the run has not halted. -/
theorem exists_halt_of_outcome_ne {n : Nat}
    (h : (ofRun p input n).outcome ≠ .stepLimitReached) :
    ∃ halt, ((Execution.initial p input).run p n).halt = some halt := by
  refine Option.ne_none_iff_exists'.1 fun hnone => h ?_
  exact (ofRun_of_running hnone).1

/-- After the halt the budget makes no difference to the report. -/
theorem ofRun_eq_of_le {m n : Nat} {halt : Halt} (hle : m ≤ n)
    (h : ((Execution.initial p input).run p m).halt = some halt) :
    ofRun p input n = ofRun p input m := by
  simp only [ofRun, Execution.run_eq_of_le hle h]

/-- A run that halts accepts with its last transition, or rejects in one attempt more. -/
theorem accepts_or_rejects {n : Nat}
    (hn : ((Execution.initial p input).run p n).halt ≠ none) :
    (∃ s, AcceptsAfter (ofRun p input) s) ∨ ∃ s, RejectsAfter (ofRun p input) s := by
  obtain ⟨k, hk, hhalts⟩ := Execution.exists_halting_attempt (e := .initial p input) rfl hn
  obtain ⟨halt, hhalt⟩ := Option.ne_none_iff_exists'.1 hhalts
  have hshort (m : Nat) (hm : m ≤ k) :
      (ofRun p input m).outcome = .stepLimitReached ∧ (ofRun p input m).steps = m :=
    ofRun_of_running (Execution.halt_eq_none_of_le hm hk)
  have hsteps := (Execution.consistent_run p input k).running hk
  have hlast := Execution.run_succ_last p k (.initial p input)
  rcases Execution.step_cases p ((Execution.initial p input).run p k) with
    ⟨other, hother, _⟩ | ⟨t, _, _, hstep⟩ | ⟨_, _, hstep⟩
  · rw [hk] at hother
    cases hother
  · refine .inl ⟨k + 1, Nat.le_add_left 1 k, fun m hm => ?_, fun m hm => hshort m (by omega)⟩
    rw [ofRun_eq_of_le hm hhalt]
    obtain rfl : halt = .accept := Execution.eq_accept_of_halt_apply (hstep ▸ hlast ▸ hhalt)
    refine ⟨congrArg Outcome.ofHalt hhalt, ?_⟩
    show ((Execution.initial p input).run p (k + 1)).steps = k + 1
    rw [hlast, hstep]
    exact congrArg (· + 1) hsteps
  · refine .inr ⟨k, fun m hm => ?_, hshort⟩
    rw [ofRun_eq_of_le hm hhalt]
    show Outcome.ofHalt ((Execution.initial p input).run p (k + 1)).halt = .rejected ∧
      ((Execution.initial p input).run p (k + 1)).steps = k
    rw [hlast, hstep]
    exact ⟨rfl, hsteps⟩

/-- A greater budget only adds to the trace. -/
theorem trace_ofRun_prefix {m n : Nat} (h : m ≤ n) :
    (ofRun p input m).trace <+: (ofRun p input n).trace := by
  obtain ⟨rest, rfl⟩ := Nat.exists_eq_add_of_le h
  refine Execution.configurations_prefix p (.initial p input) ?_
  rw [Execution.run_add]
  exact Execution.steps_le_run p rest _

end RunReport

/-- No two of the ways in which budgets can decide about a run go together. -/
theorem budgets_exclusive (report : Nat → RunReport) :
    ¬ ((∃ s, AcceptsAfter report s) ∧ ∃ s, RejectsAfter report s) ∧
      ¬ ((∃ s, AcceptsAfter report s) ∧ NeverHalts report) ∧
      ¬ ((∃ s, RejectsAfter report s) ∧ NeverHalts report) := by
  refine ⟨?_, ?_, ?_⟩
  · rintro ⟨⟨s, haccepts⟩, s', hrejects⟩
    have haccepted := (haccepts.enough (s + s' + 1) (by omega)).1
    rw [(hrejects.enough (s + s' + 1) (by omega)).1] at haccepted
    cases haccepted
  · rintro ⟨⟨s, haccepts⟩, hnever⟩
    have haccepted := (haccepts.enough s (Nat.le_refl s)).1
    rw [(hnever s).1] at haccepted
    cases haccepted
  · rintro ⟨⟨s, hrejects⟩, hnever⟩
    have hrejected := (hrejects.enough (s + 1) (Nat.le_refl _)).1
    rw [(hnever (s + 1)).1] at hrejected
    cases hrejected

namespace Simulator

/-- Runs on a valid input, whatever was run and recorded before, differ by their budgets only. The
machine accepts, rejects or never halts, and budgets tell which from one threshold on. A greater
budget adds to the trace of a smaller one, and to nothing once the run has halted. -/
theorem reports_by_budget (s : Simulator) (input : String)
    (hvalid : s.machine.program.isValidInput input = true) :
    ∃ report : Nat → RunReport,
      (∀ t : Simulator, t.machine.program = s.machine.program →
        ∃ t', t.run input = .ok (report t.config.maxSteps, t')) ∧
      ((∃ k, AcceptsAfter report k) ∨ (∃ k, RejectsAfter report k) ∨ NeverHalts report) ∧
      (¬ ((∃ k, AcceptsAfter report k) ∧ ∃ k, RejectsAfter report k) ∧
        ¬ ((∃ k, AcceptsAfter report k) ∧ NeverHalts report) ∧
        ¬ ((∃ k, RejectsAfter report k) ∧ NeverHalts report)) ∧
      ∀ m n, m ≤ n → (report m).trace <+: (report n).trace ∧
        ((report m).outcome ≠ .stepLimitReached → report n = report m) := by
  refine ⟨.ofRun s.machine.program input, ?_, ?_, budgets_exclusive _, fun m n hle =>
    ⟨RunReport.trace_ofRun_prefix hle, fun hhalted => ?_⟩⟩
  · intro t ht
    rw [← ht] at hvalid ⊢
    exact ⟨_, run_of_valid hvalid⟩
  · by_cases hhalts : ∃ n, ((Execution.initial s.machine.program input).run
        s.machine.program n).halt ≠ none
    · obtain ⟨n, hn⟩ := hhalts
      exact (RunReport.accepts_or_rejects hn).imp_right .inl
    · refine .inr (.inr fun n => RunReport.ofRun_of_running ?_)
      exact Classical.not_not.1 fun hn => hhalts ⟨n, hn⟩
  · obtain ⟨halt, hhalt⟩ := RunReport.exists_halt_of_outcome_ne hhalted
    exact RunReport.ofRun_eq_of_le hle hhalt

/-- The copier accepts two symbols with its third transition. -/
theorem reports_by_budget_copier :
    Machine.copier.program.isValidInput "10" = true ∧
      ∃ report : Nat → RunReport, AcceptsAfter report 3 ∧ report 5 = report 3 ∧
        (report 2).trace <+: (report 3).trace ∧
        ∀ t : Simulator, t.machine.program = Machine.copier.program →
          ∃ t', t.run "10" = .ok (report t.config.maxSteps, t') := by
  have hvalid : Machine.copier.program.isValidInput "10" = true := by decide
  let s : Simulator := ⟨Machine.copier, { maxSteps := 3 }, []⟩
  obtain ⟨report, hreport, hcases, _, hgrows⟩ := reports_by_budget s "10" hvalid
  obtain ⟨s', hrun⟩ := hreport s rfl
  have hverdict : ((s.run "10").toOption.map fun found => (found.1.outcome, found.1.steps)) =
      some (.accepted, 3) := by decide
  rw [hrun] at hverdict
  obtain ⟨houtcome, hsteps⟩ := Prod.mk.inj (Option.some.inj hverdict)
  change (report 3).outcome = .accepted at houtcome
  have hlimit : (report 3).outcome ≠ .stepLimitReached := by rw [houtcome]; decide
  have haccepts : AcceptsAfter report 3 := by
    rcases hcases with ⟨k, haccepts⟩ | ⟨k, hrejects⟩ | hnever
    · have hle : k ≤ 3 := Nat.le_of_not_lt fun hlt => hlimit (haccepts.short 3 hlt).1
      obtain rfl : 3 = k := hsteps.symm.trans (haccepts.enough 3 hle).2
      exact haccepts
    · rcases Nat.lt_or_ge k 3 with hlt | hge
      · cases houtcome.symm.trans (hrejects.enough 3 hlt).1
      · exact absurd (hrejects.short 3 hge).1 hlimit
    · exact absurd (hnever 3).1 hlimit
  exact ⟨hvalid, report, haccepts, (hgrows 3 5 (by decide)).2 hlimit,
    (hgrows 2 3 (by decide)).1, hreport⟩

end Simulator

end TapeMachine
