import TapeMachine.Proofs.Machine.Runs

/-!
# When executions halt

`step_cases` lists what a step can do. What it keeps is `Consistent`: after `n` attempts the number
of applied transitions is `n` unless the execution has halted, it has accepted exactly if a
transition has entered an accepting state, and it has rejected only where no transition fires. As
long as the number of applied transitions still grows, every attempt applies one
(`exists_transition_of_lt`), and after that only the halt can change (`run_eq_run_steps`).
-/

namespace TapeMachine.Execution

variable {p : Program} {e : Execution}

/-- A step does nothing after the halt, or applies the transition that fires, or rejects. -/
theorem step_cases (p : Program) (e : Execution) :
    (∃ halt, e.halt = some halt ∧ e.step p = e) ∨
    (∃ t, e.halt = none ∧ e.transition? p = some t ∧ e.step p = e.apply p t) ∨
    (e.halt = none ∧ e.transition? p = none ∧
      e.step p = { e with halt := some (.reject ⟨e.state, e.symbols⟩) }) := by
  cases hhalt : e.halt with
  | some halt => exact .inl ⟨halt, rfl, step_of_halt hhalt⟩
  | none =>
      cases ht : e.transition? p with
      | some t => exact .inr (.inl ⟨t, rfl, rfl, step_of_transition hhalt ht⟩)
      | none => exact .inr (.inr ⟨rfl, rfl, step_of_no_transition hhalt ht⟩)

/-! ## The number of applied transitions -/

theorem steps_le_step (p : Program) (e : Execution) : e.steps ≤ (e.step p).steps := by
  rcases step_cases p e with ⟨_, _, h⟩ | ⟨t, _, _, h⟩ | ⟨_, _, h⟩
  · exact Nat.le_of_eq (congrArg steps h).symm
  · rw [h]
    exact Nat.le_succ e.steps
  · exact Nat.le_of_eq (congrArg steps h).symm

/-- A run does not undo transitions. -/
theorem steps_le_run (p : Program) (n : Nat) (e : Execution) : e.steps ≤ (e.run p n).steps :=
  run_induction (motive := fun final => e.steps ≤ final.steps)
    (fun next h => Nat.le_trans h (steps_le_step p next)) (Nat.le_refl e.steps) n

/-- If a run applies any transition, its first attempt does. -/
theorem exists_transition_of_steps_lt {n : Nat} (h : e.steps < (e.run p n).steps) :
    ∃ t, e.halt = none ∧ e.transition? p = some t ∧ e.step p = e.apply p t := by
  rcases step_cases p e with ⟨halt, hhalt, _⟩ | happly | ⟨_, _, hstep⟩
  · rw [run_of_halt hhalt] at h
    omega
  · exact happly
  · -- The first attempt rejects, so the run ends there with as many transitions as before.
    cases n with
    | zero => exact absurd h (Nat.lt_irrefl e.steps)
    | succ n =>
        rw [run_succ, hstep, run_of_halt rfl] at h
        exact absurd h (Nat.lt_irrefl e.steps)

/-- The attempts that apply a transition come first: as long as more transitions follow, each one
applies one. -/
theorem steps_run_of_le {n i : Nat} (h : e.steps + i ≤ (e.run p n).steps) :
    (e.run p i).steps = e.steps + i ∧ i ≤ n := by
  induction i with
  | zero => exact ⟨rfl, Nat.zero_le n⟩
  | succ i ih =>
      obtain ⟨hsteps, hle⟩ := ih (by omega)
      obtain ⟨rest, rfl⟩ := Nat.exists_eq_add_of_le hle
      rw [run_add] at h
      obtain ⟨t, _, _, hstep⟩ := exists_transition_of_steps_lt (n := rest) (p := p)
        (e := e.run p i) (by omega)
      constructor
      · rw [run_succ_last, hstep]
        show (e.run p i).steps + 1 = e.steps + (i + 1)
        omega
      · cases rest with
        | zero => simp only [run] at h; omega
        | succ rest => omega

/-- Every attempt before the last applied transition applies one. -/
theorem exists_transition_of_lt {n i : Nat} (h : e.steps + i < (e.run p n).steps) :
    ∃ t, (e.run p i).halt = none ∧ (e.run p i).transition? p = some t ∧
      e.run p (i + 1) = (e.run p i).apply p t := by
  obtain ⟨hsteps, hle⟩ := steps_run_of_le (Nat.le_of_lt h)
  obtain ⟨rest, rfl⟩ := Nat.exists_eq_add_of_le hle
  rw [run_add] at h
  rw [run_succ_last]
  exact exists_transition_of_steps_lt (n := rest) (by omega)

/-- A run that applies no transition changes nothing but the halt. -/
theorem run_of_steps_eq {n : Nat} (h : (e.run p n).steps = e.steps) :
    e.run p n = { e with halt := (e.run p n).halt } := by
  cases n with
  | zero => rfl
  | succ n =>
      rw [run_succ] at *
      rcases step_cases p e with ⟨_, hhalt, hstep⟩ | ⟨t, _, _, hstep⟩ | ⟨_, _, hstep⟩
      · rw [hstep, run_of_halt hhalt]
      · have hle := steps_le_run p n (e.step p)
        rw [hstep] at hle h
        change e.steps + 1 ≤ _ at hle
        omega
      · rw [hstep, run_of_halt rfl]

/-- After its last transition a run changes nothing but the halt. -/
theorem run_eq_run_steps (p : Program) (n : Nat) (e : Execution) :
    e.run p n =
      { e.run p ((e.run p n).steps - e.steps) with halt := (e.run p n).halt } := by
  have hle := steps_le_run p n e
  obtain ⟨hsteps, hcount⟩ :=
    steps_run_of_le (p := p) (e := e) (n := n) (i := (e.run p n).steps - e.steps) (by omega)
  obtain ⟨rest, hrest⟩ := Nat.exists_eq_add_of_le hcount
  have hrun : e.run p n = (e.run p ((e.run p n).steps - e.steps)).run p rest := by
    rw [← run_add, ← hrest]
  -- The rest of the run applies no transition, since all of them come first.
  have hsame : ((e.run p ((e.run p n).steps - e.steps)).run p rest).steps =
      (e.run p ((e.run p n).steps - e.steps)).steps := by
    rw [← hrun]
    omega
  have hlast := run_of_steps_eq hsame
  rw [← hrun] at hlast
  exact hlast

/-! ## Halts -/

/-- What the halt and the number of transitions tell about an execution after some attempts. -/
structure Consistent (p : Program) (attempts : Nat) (e : Execution) : Prop where
  steps_le : e.steps ≤ attempts
  /-- Before the halt every attempt has applied a transition. -/
  running : e.halt = none → e.steps = attempts
  /-- The execution has accepted exactly if a transition has entered an accepting state. -/
  accepted : e.halt = some .accept ↔ 1 ≤ e.steps ∧ p.isAccepting e.state = true
  /-- The execution has rejected only where no transition fires, and with an attempt of its own. -/
  rejected : ∀ r, e.halt = some (.reject r) →
    r = ⟨e.state, e.symbols⟩ ∧ e.transition? p = none ∧ e.steps < attempts

theorem consistent_initial (p : Program) (input : String) : Consistent p 0 (initial p input) where
  steps_le := Nat.le_refl 0
  running _ := rfl
  accepted := by simp [initial]
  rejected r h := by cases h

theorem Consistent.step {attempts : Nat} (h : Consistent p attempts e) :
    Consistent p (attempts + 1) (e.step p) := by
  have hle := h.steps_le
  rcases step_cases p e with ⟨halt, hhalt, hstep⟩ | ⟨t, hhalt, _, hstep⟩ | ⟨hhalt, ht, hstep⟩
  · rw [hstep]
    refine ⟨by omega, fun hnone => ?_, h.accepted, fun r hr => ?_⟩
    · rw [hhalt] at hnone
      cases hnone
    · obtain ⟨heq, hno, hlt⟩ := h.rejected r hr
      exact ⟨heq, hno, by omega⟩
  · have hsteps := h.running hhalt
    rw [hstep]
    refine ⟨Nat.succ_le_succ hle, fun _ => congrArg (· + 1) hsteps, ?_, fun r hr => ?_⟩
    · cases hacc : p.isAccepting t.nextState <;> simp [apply, hacc]
    · -- A transition that was applied halts by accepting or not at all.
      simp only [apply] at hr
      split at hr <;> cases hr
  · have hsteps := h.running hhalt
    have hnot : ¬ (1 ≤ e.steps ∧ p.isAccepting e.state = true) := by
      rw [← h.accepted, hhalt]
      intro haccept
      cases haccept
    rw [hstep]
    refine ⟨Nat.le_succ_of_le hle, (by intro hnone; cases hnone), ?_, fun r hr => ?_⟩
    · simpa using hnot
    · obtain rfl := Halt.reject.inj (Option.some.inj hr)
      exact ⟨rfl, ht, Nat.lt_succ_of_le hle⟩

/-- Every run on an input is consistent with its number of attempts. -/
theorem consistent_run (p : Program) (input : String) (n : Nat) :
    Consistent p n ((initial p input).run p n) := by
  induction n with
  | zero => exact consistent_initial p input
  | succ n ih =>
      rw [run_succ_last]
      exact ih.step

end TapeMachine.Execution
