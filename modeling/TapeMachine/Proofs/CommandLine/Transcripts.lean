import Mathlib.Data.List.TakeWhile
import TapeMachine.CommandLine
import TapeMachine.Proofs.Simulator.Trace
import TapeMachine.Proofs.Specification.Acceptance

/-!
# Transcripts of commands on several inputs

One simulator runs all inputs of a command, and each run forgets the one before, so what is reported
of an input is what would be reported of it alone. The first input that is not valid ends the
command: text that was printed before stays, and reports that were to be printed together are lost.
`run_transcribed` says so of every command whose program can be loaded.
-/

namespace TapeMachine

/-- The programs of the catalog are those of its texts. -/
theorem Catalog.exists_entry_of_programNamed {name : String} {p : Program}
    (h : programNamed name = .ok p) :
    ∃ entry ∈ entries, Specification.program entry.text = .ok p := by
  unfold programNamed at h
  cases hfind : find? name with
  | none => rw [hfind] at h; cases h
  | some item =>
      rw [hfind] at h
      obtain rfl : item.program = p := Except.ok.inj h
      obtain ⟨entry, hentry, hitem⟩ := List.mem_filterMap.1 (List.mem_of_find?_eq_some hfind)
      refine ⟨entry, hentry, ?_⟩
      unfold Entry.item? at hitem
      split at hitem
      · next p hp =>
          obtain rfl := Option.some.inj hitem
          exact hp
      · cases hitem

namespace CommandLine

/-! ## Loading -/

section

variable {o : Options} {contents : FileContents} {p : Program} (h : o.program contents = .ok p)

include h

/-- Whatever the options name, the program is that of a text. -/
theorem exists_text_of_program : ∃ text, Specification.program text = .ok p := by
  unfold Options.program at h
  split at h
  · obtain ⟨entry, _, hp⟩ := Catalog.exists_entry_of_programNamed h
    exact ⟨entry.text, hp⟩
  · cases contents with
    | error failure => cases h
    | ok text => exact ⟨text, h⟩

/-- There is a simulator for every program that can be loaded. -/
theorem exists_simulator_of_program :
    ∃ m : Machine, m.program = p ∧
      o.simulator contents =
        .ok { machine := m, config := { maxSteps := o.maxSteps, trace := o.traceMode } } := by
  obtain ⟨text, htext⟩ := exists_text_of_program h
  obtain ⟨m, hm, hprogram, _⟩ := Specification.exists_machine_of_program htext
  refine ⟨m, hprogram, ?_⟩
  rw [Options.simulator, h]
  show (Machine.ofProgram p >>= _) = _
  rw [hm]
  rfl

end

/-! ## Running -/

/-- Valid inputs are reported one by one, each as if it came first, and what follows them is run
with the same program and the same budget. -/
theorem runAll_append {accepted : List String} (s : Simulator)
    (hvalid : ∀ input ∈ accepted, s.machine.program.isValidInput input = true)
    (rest : List String) :
    ∃ s' : Simulator, s'.machine.program = s.machine.program ∧ s'.config = s.config ∧
      runAll s (accepted ++ rest) =
        ((accepted.map fun input => .ofRun s.machine.program input s.config.maxSteps) ++
          (runAll s' rest).1, (runAll s' rest).2) := by
  induction accepted generalizing s with
  | nil => exact ⟨s, rfl, rfl, rfl⟩
  | cons input accepted ih =>
      obtain ⟨hinput, haccepted⟩ := List.forall_mem_cons.1 hvalid
      obtain ⟨s', hprogram, hconfig, hrest⟩ := ih (s.afterRun input) haccepted
      refine ⟨s', hprogram, hconfig, ?_⟩
      rw [List.cons_append, runAll, Simulator.run_of_valid hinput]
      dsimp only
      rw [hrest]
      rfl

theorem runAll_of_valid {s : Simulator} {inputs : List String}
    (hvalid : ∀ input ∈ inputs, s.machine.program.isValidInput input = true) :
    runAll s inputs =
      (inputs.map fun input => .ofRun s.machine.program input s.config.maxSteps, none) := by
  obtain ⟨s', _, _, hrun⟩ := runAll_append s hvalid []
  rw [List.append_nil, runAll, List.append_nil] at hrun
  exact hrun

/-- The first input that is not valid ends the runs, whatever follows it. -/
theorem runAll_of_invalid {s : Simulator} {accepted rest : List String} {input : String}
    {symbol : Symbol} (hvalid : ∀ input ∈ accepted, s.machine.program.isValidInput input = true)
    (hsymbol : s.machine.program.inputAlphabet.firstInvalid? input = some symbol) :
    runAll s (accepted ++ input :: rest) =
      (accepted.map fun input => .ofRun s.machine.program input s.config.maxSteps,
        some (.invalidInput input symbol)) := by
  obtain ⟨s', hprogram, _, hrun⟩ := runAll_append s hvalid (input :: rest)
  have hrefused : s'.run input = .error (.invalidInput input symbol) := by
    rw [Simulator.run, Execution.start, hprogram, hsymbol]
    rfl
  rw [runAll, hrefused, List.append_nil] at hrun
  exact hrun

/-! ## Transcripts -/

theorem errorLine_invalidInput (input : String) (symbol : Symbol) :
    errorLine (.invalidInput input symbol) =
      "Error: Invalid input '" ++ input ++ "': symbol '" ++ symbol ++
        "' is not in the input alphabet\n" := by
  have hbegin : "Error: " ++ "Invalid input '" = "Error: Invalid input '" := by decide
  have hend : "' is not in the input alphabet" ++ "\n" = "' is not in the input alphabet\n" := by
    decide
  show "Error: " ++ ("Invalid input '" ++ input ++ "': symbol '" ++ symbol ++
    "' is not in the input alphabet") ++ "\n" = _
  rw [← hbegin, ← hend]
  simp only [String.append_assoc]

/-- What is reported of an input. -/
def Options.report (o : Options) (p : Program) (input : String) : RunReport :=
  .ofRun p input o.maxSteps

section

variable {o : Options} {contents : FileContents} {p : Program} (h : o.program contents = .ok p)

include h

/-- Without a log, a command leaves behind what its simulator does. -/
theorem run_of_program :
    ∃ m : Machine, m.program = p ∧ o.run none contents =
      o.transcript
        { machine := m, config := { maxSteps := o.maxSteps, trace := o.traceMode } } := by
  obtain ⟨m, hprogram, hsimulator⟩ := exists_simulator_of_program h
  refine ⟨m, hprogram, ?_⟩
  simp only [Options.run, hsimulator, String.empty_append]

theorem run_of_valid (hvalid : ∀ input ∈ o.inputs, p.isValidInput input = true) :
    o.run none contents = {
      output :=
        if o.json then reportsJson (o.inputs.map (o.report p))
        else heading p ++ String.join (o.inputs.map fun input =>
          block o.traceMode (o.report p input)) } := by
  obtain ⟨m, rfl, hrun⟩ := run_of_program h
  have hreports : runAll ⟨m, ⟨o.maxSteps, o.traceMode⟩, []⟩ o.inputs =
      (o.inputs.map (o.report m.program), none) := runAll_of_valid hvalid
  rw [hrun, Options.transcript, hreports]
  cases o.json <;> simp [Function.comp_def]

theorem run_of_invalid {accepted rest : List String} {input : String} {symbol : Symbol}
    (hinputs : o.inputs = accepted ++ input :: rest)
    (hvalid : ∀ input ∈ accepted, p.isValidInput input = true)
    (hsymbol : p.inputAlphabet.firstInvalid? input = some symbol) :
    o.run none contents = .failure
      (if o.json then ""
        else heading p ++ String.join (accepted.map fun input =>
          block o.traceMode (o.report p input)))
      (.invalidInput input symbol) := by
  obtain ⟨m, rfl, hrun⟩ := run_of_program h
  have hreports : runAll ⟨m, ⟨o.maxSteps, o.traceMode⟩, []⟩ (accepted ++ input :: rest) =
      (accepted.map (o.report m.program), some (.invalidInput input symbol)) :=
    runAll_of_invalid hvalid hsymbol
  rw [hrun, Options.transcript, hinputs, hreports]
  cases o.json <;> simp [Function.comp_def]

end

/-- The inputs before the first that is not valid. -/
def Options.accepted (o : Options) (p : Program) : List String :=
  o.inputs.takeWhile p.isValidInput

/-- What a command leaves behind, told by what is reported of its inputs. -/
structure Transcribed (o : Options) (p : Program) (t : Transcript) : Prop where
  /-- As text, the program is followed by the blocks of the inputs before the first that is not
  valid. -/
  text : o.json = false → t.output = "Machine loaded successfully.\n\n" ++ p.render ++
    String.join ((o.accepted p).map fun input => block o.traceMode (o.report p input))
  /-- As JSON, the reports of all inputs are printed together, or none is. -/
  json : o.json = true → t.output =
    if (o.accepted p).length < o.inputs.length then ""
    else (Json.Codec.encode (o.inputs.map (o.report p))).pretty ++ "\n"
  /-- The command succeeds whatever the verdicts on its inputs, as long as all are valid. -/
  exitCode : t.exitCode = 0 ↔ ∀ input ∈ o.inputs, p.isValidInput input = true
  errors : t.exitCode = 0 → t.errors = ""
  /-- Else one line names the first input that is not valid, and the first character in it that is
  no input symbol. -/
  failure : t.exitCode ≠ 0 → t.exitCode = 1 ∧ ∃ input before c after,
    o.inputs[(o.accepted p).length]? = some input ∧ input.toList = before ++ c :: after ∧
    (∀ d ∈ before, p.inputAlphabet.contains (String.singleton d) = true) ∧
    p.inputAlphabet.contains (String.singleton c) = false ∧
    t.errors = "Error: Invalid input '" ++ input ++ "': symbol '" ++ String.singleton c ++
      "' is not in the input alphabet\n"

section

variable {o : Options} {contents : FileContents} {p : Program} (h : o.program contents = .ok p)

include h

theorem transcribed_of_valid (hvalid : ∀ input ∈ o.inputs, p.isValidInput input = true) :
    Transcribed o p (o.run none contents) := by
  have haccepted : o.accepted p = o.inputs := List.takeWhile_eq_self_iff.2 hvalid
  rw [run_of_valid h hvalid]
  constructor
  case text =>
    intro hjson
    rw [hjson, if_neg Bool.false_ne_true, haccepted]
    rfl
  case json =>
    intro hjson
    rw [hjson, if_pos rfl, haccepted, if_neg (Nat.lt_irrefl _)]
    rfl
  case exitCode => exact iff_of_true rfl hvalid
  case errors => exact fun _ => rfl
  case failure => exact fun hne => absurd rfl hne

theorem transcribed_of_invalid {input : String} {rest : List String}
    (hinputs : o.inputs = o.accepted p ++ input :: rest)
    (hinvalid : p.isValidInput input = false) : Transcribed o p (o.run none contents) := by
  have hvalid : ∀ input ∈ o.accepted p, p.isValidInput input = true :=
    fun _ hmem => List.mem_takeWhile_imp hmem
  obtain ⟨symbol, hsymbol, _⟩ := Execution.start_of_invalid hinvalid
  rw [run_of_invalid h hinputs hvalid hsymbol]
  constructor
  case text =>
    intro hjson
    rw [hjson, if_neg Bool.false_ne_true]
    rfl
  case json =>
    intro hjson
    have hlt : (o.accepted p).length < o.inputs.length := by
      rw [hinputs, List.length_append, List.length_cons]
      omega
    rw [hjson, if_pos rfl, if_pos hlt]
    rfl
  case exitCode =>
    refine iff_of_false Nat.one_ne_zero fun hall => ?_
    rw [hall input (by rw [hinputs]; simp)] at hinvalid
    cases hinvalid
  case errors => exact fun hzero => absurd hzero Nat.one_ne_zero
  case failure =>
    intro _
    obtain ⟨before, c, after, htext, rfl, hbefore, hc⟩ :=
      Alphabet.firstInvalid?_eq_some_iff.1 hsymbol
    have hnext : (o.accepted p ++ input :: rest)[(o.accepted p).length]? = some input := by
      rw [List.getElem?_append_right (Nat.le_refl _), Nat.sub_self, List.getElem?_cons_zero]
    exact ⟨rfl, input, before, c, after, hinputs ▸ hnext, htext, hbefore, hc,
      errorLine_invalidInput input (String.singleton c)⟩

/-- A command reports each of its inputs as if it were the only one, and stops at the first that is
not valid. -/
theorem run_transcribed :
    Transcribed o p (o.run none contents) ∧
    ∀ input, p.isValidInput input = true →
      (∃ s after, o.simulator contents = .ok s ∧ s.run input = .ok (o.report p input, after)) ∧
      { o with json := false, inputs := [input] }.run none contents =
        { output := "Machine loaded successfully.\n\n" ++ p.render ++
            block o.traceMode (o.report p input) } ∧
      { o with json := true, inputs := [input] }.run none contents =
        { output := (Json.Codec.encode [o.report p input]).pretty ++ "\n" } := by
  constructor
  · cases hrest : o.inputs.dropWhile p.isValidInput with
    | nil => exact transcribed_of_valid h (List.dropWhile_eq_nil_iff.1 hrest)
    | cons input rest =>
        have hinputs : o.inputs = o.accepted p ++ input :: rest := by
          rw [← hrest]
          exact List.takeWhile_append_dropWhile.symm
        have hinvalid := List.head?_dropWhile_not p.isValidInput o.inputs
        rw [hrest] at hinvalid
        exact transcribed_of_invalid h hinputs hinvalid
  · intro input hinput
    have hone : ∀ other ∈ [input], p.isValidInput other = true :=
      List.forall_mem_singleton.2 hinput
    obtain ⟨m, rfl, hsimulator⟩ := exists_simulator_of_program h
    refine ⟨⟨_, _, hsimulator, Simulator.run_of_valid hinput⟩, ?_, ?_⟩
    · rw [run_of_valid (o := { o with json := false, inputs := [input] }) h hone]
      simp only [Bool.false_eq_true, if_false, List.map_singleton, String.join_cons,
        String.join_nil, String.append_empty]
      rfl
    · rw [run_of_valid (o := { o with json := true, inputs := [input] }) h hone]
      simp only [if_true, List.map_singleton]
      rfl

end

/-- Three inputs for the machine that walks over ones, the second of which is not valid. -/
def walkerOptions : Options := { specification := "walker.tm", inputs := ["11", "121", "1"] }

/-- The report of the first input is printed, the error names the second one, and the third is not
run. -/
theorem run_transcribed_walker :
    ∃ p, walkerOptions.program (.ok Specification.walkerText) = .ok p ∧
      walkerOptions.accepted p = ["11"] ∧
      Transcribed walkerOptions p (walkerOptions.run none (.ok Specification.walkerText)) ∧
      (walkerOptions.run none (.ok Specification.walkerText)).errors =
        "Error: Invalid input '121': symbol '2' is not in the input alphabet\n" := by
  have haccepted : (walkerOptions.program (.ok Specification.walkerText)).toOption.map
      walkerOptions.accepted = some ["11"] := by decide
  cases hp : walkerOptions.program (.ok Specification.walkerText) with
  | error e => rw [hp] at haccepted; cases haccepted
  | ok p =>
      rw [hp] at haccepted
      exact ⟨p, rfl, Option.some.inj haccepted, (run_transcribed hp).1, by decide⟩

end CommandLine

end TapeMachine
