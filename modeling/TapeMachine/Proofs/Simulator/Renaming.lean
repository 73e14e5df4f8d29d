import TapeMachine.Proofs.Machine.Renaming
import TapeMachine.Proofs.Simulator.Trace

/-!
# Reports under other names

The names of states and symbols mean nothing to a run. A program under other names is again one that
can be run, and its report on the renamed input is the renamed report, with the same verdict, the
same number of steps and a trace that is renamed entry by entry (`report_rename`). In particular no
two entries of its table collide, whatever characters the new names are made of.
-/

namespace TapeMachine

def RunReport.rename (r : Renaming) (report : RunReport) : RunReport where
  input := r.word report.input
  outcome := report.outcome
  steps := report.steps
  finalState := r.state report.finalState
  tapes := report.tapes.map (TapeSnapshot.rename r)
  trace := report.trace.map (Configuration.rename r)

variable {p : Program} {r : Renaming}

/-- The report on a renamed input is the renamed report. -/
theorem RunReport.ofRun_rename (h : p.WellFormed) (hr : r.Suits p) {input : String}
    (hvalid : p.isValidInput input = true) (budget : Nat) :
    ofRun (p.rename r) (r.word input) budget = (ofRun p input budget).rename r := by
  have hrun (n : Nat) := Execution.run_rename h hr hvalid n
  have hconfiguration (n : Nat) :
      ((Execution.initial (p.rename r) (r.word input)).run (p.rename r) n).configuration =
        ((Execution.initial p input).run p n).configuration.rename r := by
    rw [hrun]
    exact (Execution.confined_run h hvalid n).configuration_rename h hr
  have hfinal := hrun budget
  have hsteps : (ofRun (p.rename r) (r.word input) budget).steps =
      (ofRun p input budget).steps :=
    (congrArg Execution.steps hfinal).trans (Execution.steps_rename r _)
  apply RunReport.ext
  case input => rfl
  case outcome =>
    exact (congrArg Execution.outcome hfinal).trans (Outcome.ofHalt_rename r _)
  case steps => exact hsteps
  case finalState => exact congrArg Execution.state hfinal
  case tapes => exact congrArg Configuration.tapes (hconfiguration budget)
  case trace =>
    show Execution.configurations _ _ (ofRun (p.rename r) (r.word input) budget).steps =
      (Execution.configurations _ _ _).map (Configuration.rename r)
    rw [hsteps]
    unfold Execution.configurations
    rw [List.map_map]
    exact List.map_congr_left fun i _ => hconfiguration i

namespace Simulator

/-- A well-formed program that was assembled by edits is such a program under all names that keep
its states and its symbols apart. Its table has as many transitions and finds the renamed ones, and
on renamed inputs simulators for it give the renamed reports. -/
theorem report_rename (p : Program) (hassembled : p.Assembled) (hwell : p.violation? = none)
    (r : Renaming) (hr : r.Suits p) :
    (p.rename r).Assembled ∧ (p.rename r).violation? = none ∧
    (p.rename r).transitions.size = p.transitions.size ∧
    (∀ state symbols, p.hasState state = true →
      (∀ symbol ∈ symbols, p.tapeAlphabet.contains symbol = true) →
      (p.rename r).transitions.get? (r.state state) (symbols.map r.symbol) =
        (p.transitions.get? state symbols).map (Transition.rename r)) ∧
    ∀ (s s' : Simulator) (input : String), s.machine.program = p →
      s'.machine.program = p.rename r → s'.config.maxSteps = s.config.maxSteps →
      p.isValidInput input = true →
      ∃ report after after', s.run input = .ok (report, after) ∧
        s'.run (r.word input) = .ok (report.rename r, after') := by
  have h := Program.violation?_eq_none_iff.1 hwell
  refine ⟨hassembled.rename h hr, Program.violation?_eq_none_iff.2 (h.rename hr),
    Program.size_transitions_rename h hr, fun state symbols hstate hsymbols =>
      Program.get?_rename h hr hstate hsymbols, ?_⟩
  rintro s s' input rfl hprogram hbudget hvalid
  have hvalid' : s'.machine.program.isValidInput (r.word input) = true := by
    rw [hprogram]
    exact hr.isValidInput_word hvalid
  have hrun' := run_of_valid hvalid'
  rw [hprogram, hbudget, RunReport.ofRun_rename h hr hvalid] at hrun'
  exact ⟨_, _, _, run_of_valid hvalid, hrun'⟩

/-! ## The copier under other names -/

/-- Names with separators in them, and symbols in the opposite order, one of them of three
characters. -/
def swapped : Renaming where
  state name := if name = "copy" then "z" else "a,|"
  symbol symbol := if symbol = "0" then "|" else if symbol = "1" then "," else "|,|"

theorem suits_swapped : swapped.Suits Program.copier where
  state_inj a b ha hb := by
    have hmem (name : String) (h : Program.copier.hasState name = true) :
        name ∈ ["copy", "done"] := NameSet.mem_toList_iff.2 h
    have hall : ∀ a ∈ ["copy", "done"], ∀ b ∈ ["copy", "done"],
        swapped.state a = swapped.state b → a = b := by decide
    exact hall a (hmem a ha) b (hmem b hb)
  symbol_inj a b ha hb := by
    have hmem (symbol : Symbol) (h : Program.copier.tapeAlphabet.contains symbol = true) :
        symbol ∈ ["0", "1", "_"] := NameSet.mem_toList_iff.2 h
    have hall : ∀ a ∈ ["0", "1", "_"], ∀ b ∈ ["0", "1", "_"],
        swapped.symbol a = swapped.symbol b → a = b := by decide
    exact hall a (hmem a ha) b (hmem b hb)
  symbol_ne a ha _ := by
    have hmem : a ∈ ["0", "1", "_"] := NameSet.mem_toList_iff.2 ha
    have hall : ∀ a ∈ ["0", "1", "_"], swapped.symbol a ≠ "" := by decide
    exact hall a hmem
  character c hc := by
    have hmem : String.singleton c ∈ ["0", "1"] := NameSet.mem_toList_iff.2 hc
    have hall : ∀ a ∈ ["0", "1"], swapped.symbol a = "|" ∨ swapped.symbol a = "," := by decide
    exact (hall _ hmem).elim (fun heq => ⟨'|', heq⟩) fun heq => ⟨',', heq⟩

/-- The copier accepts the word of a comma and a bar. -/
theorem report_rename_copier :
    Program.copier.Assembled ∧ Program.copier.violation? = none ∧
      swapped.Suits Program.copier ∧ swapped.word "10" = ",|" ∧
      ∃ (s s' : Simulator) (report : RunReport) (after after' : Simulator),
        s.machine.program = Program.copier ∧ s'.machine.program = Program.copier.rename swapped ∧
        s.run "10" = .ok (report, after) ∧ s'.run ",|" = .ok (report.rename swapped, after') := by
  have hassembled := Program.assembled_of_build Program.build_copier
  obtain ⟨_, hwell, _, _, hrun⟩ := report_rename Program.copier hassembled Program.violation?_copier
    swapped suits_swapped
  have hword : swapped.word "10" = ",|" := by decide
  let s : Simulator := ⟨Machine.copier, {}, []⟩
  let s' : Simulator := ⟨⟨Program.copier.rename swapped, hwell, none⟩, {}, []⟩
  obtain ⟨report, after, after', hreport, hreport'⟩ := hrun s s' "10" rfl rfl rfl (by decide)
  rw [hword] at hreport'
  exact ⟨hassembled, Program.violation?_copier, suits_swapped, hword, s, s', report, after, after',
    rfl, rfl, hreport, hreport'⟩

end Simulator

end TapeMachine
