import TapeMachine.Proofs.Simulator.Trace

/-!
# Executions that look alike

Two executions are alike if their states and the snapshots of their tapes are the same and they have
halted alike, however much of the tapes they store and however many transitions led to them. A step
keeps executions alike (`Alike.step`), since a snapshot keeps all of the infinite tape that is read,
written and moved. So nothing but the configuration of a machine that is running decides what it
does from there on (`answers_eq_of_configuration_eq`), and a machine that comes back to a
configuration does not halt.
-/

namespace TapeMachine

namespace Tape

variable {t u : Tape}

/-- Tapes with the same snapshot stand for the same infinite tape. -/
theorem infinite_eq_of_snapshot_eq (h : t.snapshot = u.snapshot) : t.infinite = u.infinite := by
  rw [← infinite_snapshot t, h, infinite_snapshot u]

/-- Tapes with the same snapshot still have the same one after being written and moved. -/
theorem snapshot_shift_write_eq (h : t.snapshot = u.snapshot) (symbol : Symbol) (d : Direction) :
    ((t.write symbol).shift d).snapshot = ((u.write symbol).shift d).snapshot := by
  have hblank : t.blank = u.blank := congrArg TapeSnapshot.blank h
  have hinfinite : ((t.write symbol).shift d).infinite = ((u.write symbol).shift d).infinite := by
    rw [infinite_shift, infinite_write, infinite_eq_of_snapshot_eq h, ← infinite_write,
      ← infinite_shift]
  have hshows := ((t.write symbol).shift d).snapshot_shows
  have hshows' := ((u.write symbol).shift d).snapshot_shows
  rw [blank_shift, blank_write, hblank, hinfinite] at hshows
  rw [blank_shift, blank_write] at hshows'
  exact hshows.unique hshows'

end Tape

namespace Execution

/-- Two executions show the same but for the number of transitions, of which the first one has
applied `lead` more. -/
structure Alike (lead : Int) (e f : Execution) : Prop where
  state : e.state = f.state
  tapes : e.tapes.map Tape.snapshot = f.tapes.map Tape.snapshot
  halt : e.halt = f.halt
  steps : (e.steps : Int) = f.steps + lead

variable {p : Program} {e f : Execution} {lead : Int}

/-- The same symbols are under the heads. -/
theorem Alike.symbols (h : Alike lead e f) : e.symbols = f.symbols := by
  rw [← symbols_configuration e, ← symbols_configuration f]
  exact congrArg (List.map fun s => s.symbolAt s.head) h.tapes

/-- The same transition fires. -/
theorem Alike.transition? (h : Alike lead e f) : e.transition? p = f.transition? p := by
  unfold Execution.transition?
  rw [h.state, h.symbols]

/-- Tapes with the same snapshots still have the same ones after an update. -/
theorem map_snapshot_updateTapes_eq {tapes tapes' : List Tape}
    (h : tapes.map Tape.snapshot = tapes'.map Tape.snapshot) (symbols : List Symbol)
    (directions : List Direction) :
    (updateTapes tapes symbols directions).map Tape.snapshot =
      (updateTapes tapes' symbols directions).map Tape.snapshot := by
  induction tapes generalizing tapes' symbols directions with
  | nil =>
      obtain rfl := List.map_eq_nil_iff.1 h.symm
      rfl
  | cons tape tapes ih =>
      cases tapes' with
      | nil => cases h
      | cons tape' tapes' =>
          obtain ⟨htape, htapes⟩ := List.cons.inj h
          cases symbols with
          | nil => exact h
          | cons symbol symbols =>
              cases directions with
              | nil => exact h
              | cons direction directions =>
                  exact List.cons_eq_cons.2 ⟨Tape.snapshot_shift_write_eq htape symbol direction,
                    ih htapes symbols directions⟩

/-- A step keeps executions alike. -/
theorem Alike.step (h : Alike lead e f) : Alike lead (e.step p) (f.step p) := by
  rcases step_cases p e with ⟨halt, hhalt, hstep⟩ | ⟨t, hhalt, ht, hstep⟩ | ⟨hhalt, ht, hstep⟩
  · rw [hstep, step_of_halt (h.halt.symm.trans hhalt)]
    exact h
  · rw [hstep, step_of_transition (h.halt.symm.trans hhalt) (h.transition?.symm.trans ht)]
    have hsteps := h.steps
    exact {
      state := rfl
      tapes := map_snapshot_updateTapes_eq h.tapes t.write t.directions
      halt := rfl
      steps := by
        show ((e.steps + 1 : Nat) : Int) = ((f.steps + 1 : Nat) : Int) + lead
        omega }
  · rw [hstep, step_of_no_transition (h.halt.symm.trans hhalt) (h.transition?.symm.trans ht)]
    exact { h with halt := by rw [h.state, h.symbols] }

/-- Executions stay alike for any number of steps. -/
theorem Alike.run (h : Alike lead e f) (n : Nat) : Alike lead (e.run p n) (f.run p n) := by
  induction n with
  | zero => exact h
  | succ n ih =>
      rw [run_succ_last, run_succ_last]
      exact ih.step

/-- An execution that has not halted and comes to look as before does not halt. -/
theorem halt_run_of_alike (hhalt : e.halt = none) {d : Nat} (hd : 0 < d)
    (h : Alike lead e (e.run p d)) (n : Nat) : (e.run p n).halt = none := by
  induction n using Nat.strongRecOn with
  | ind n ih =>
      by_cases hle : n ≤ d
      · -- A halt within the first round would last until its end.
        obtain ⟨rest, rfl⟩ := Nat.exists_eq_add_of_le hle
        cases hn : (e.run p n).halt with
        | none => rfl
        | some halt =>
            have hend := h.halt
            rw [run_add, run_of_halt hn, hn, hhalt] at hend
            cases hend
      · -- What comes later is what came one round before.
        obtain ⟨k, rfl⟩ := Nat.exists_eq_add_of_le (Nat.le_of_not_le hle)
        rw [run_add, ← (h.run k).halt]
        exact ih k (by omega)

end Execution

namespace Machine

/-- An input is loaded, and the machine has not halted. -/
structure Ready (m : Machine) : Prop where
  loaded : m.execution.isSome = true
  running : m.halt? = none

/-- The answers to the next steps, one after another. -/
def answers (m : Machine) (n : Nat) : List Step :=
  (List.range n).map fun i => (m.stepTimes i).step.1

/-- Machines that are ready and show the same have executions that are alike. The lead is what it
is now. -/
theorem Ready.exists_alike {m m' : Machine} (hready : m.Ready) (hready' : m'.Ready)
    (hstate : m.configuration.state = m'.configuration.state)
    (htapes : m.configuration.tapes = m'.configuration.tapes) :
    ∃ e f, m.execution = some e ∧ m'.execution = some f ∧ e.halt = none ∧
      Execution.Alike ((m.stepCount : Int) - m'.stepCount) e f := by
  obtain ⟨e, he⟩ := Option.isSome_iff_exists.1 hready.loaded
  obtain ⟨f, hf⟩ := Option.isSome_iff_exists.1 hready'.loaded
  have hhalt : e.halt = none := by simpa [halt?, he] using hready.running
  have hhalt' : f.halt = none := by simpa [halt?, hf] using hready'.running
  simp only [configuration, state, tapes, he, hf] at hstate htapes
  refine ⟨e, f, he, hf, hhalt, ?_⟩
  exact {
    state := hstate
    tapes := htapes
    halt := hhalt.trans hhalt'.symm
    steps := by
      simp only [stepCount, he, hf]
      omega }

/-- Two machines for one program that are running at the same state and show the same tapes,
whatever led to them, give the same answers to all steps to come. They go on to show the same
states, tapes and halts, and the difference between their numbers of steps stays. If one of them is
what the other one has come to, they never halt. -/
theorem answers_eq_of_configuration_eq {m m' : Machine} (hprogram : m.program = m'.program)
    (hready : m.Ready) (hready' : m'.Ready)
    (hstate : m.configuration.state = m'.configuration.state)
    (htapes : m.configuration.tapes = m'.configuration.tapes) (n : Nat) :
    m.answers n = m'.answers n ∧
    (m.stepTimes n).configuration.state = (m'.stepTimes n).configuration.state ∧
    (m.stepTimes n).configuration.tapes = (m'.stepTimes n).configuration.tapes ∧
    (m.stepTimes n).halt? = (m'.stepTimes n).halt? ∧
    ((m.stepTimes n).stepCount : Int) - (m'.stepTimes n).stepCount =
      (m.stepCount : Int) - m'.stepCount ∧
    ((∃ d, 0 < d ∧ m' = m.stepTimes d) → (m.stepTimes n).halt? = none) := by
  obtain ⟨e, f, he, hf, hhalt, halike⟩ := hready.exists_alike hready' hstate htapes
  have hrun (k : Nat) : Execution.Alike ((m.stepCount : Int) - m'.stepCount)
      (e.run m.program k) (f.run m'.program k) := by
    rw [← hprogram]
    exact halike.run k
  have hm := stepTimes_of_execution he n
  have hm' := stepTimes_of_execution hf n
  refine ⟨?_, ?_, ?_, ?_, ?_, ?_⟩
  · refine List.map_congr_left fun i _ => ?_
    rw [step_stepTimes_of_execution he, step_stepTimes_of_execution hf]
    exact congrArg Step.ofHalt (hrun (i + 1)).halt
  · rw [hm, hm']
    exact (hrun n).state
  · rw [hm, hm']
    exact (hrun n).tapes
  · rw [hm, hm']
    exact (hrun n).halt
  · have hsteps := (hrun n).steps
    rw [hm, hm']
    show ((e.run m.program n).steps : Int) - (f.run m'.program n).steps = _
    omega
  · rintro ⟨d, hd, rfl⟩
    rw [stepTimes_of_execution he] at hf
    obtain rfl := Option.some.inj hf
    rw [hm]
    exact Execution.halt_run_of_alike hhalt hd halike n

/-! ## A machine that comes back -/

/-- The edits that assemble `pendulum`. -/
def pendulumEdits : List Program.Edit := [
  .state "out", .state "back", .state "done", .inputSymbol "1", .tapeSymbol "1",
  .initialState "out", .blank "_", .acceptingState "done",
  .transition (.single "out" "_" "back" "_" .left),
  .transition (.single "back" "_" "out" "_" .right)]

/-- The machine that goes from a blank cell to the one on its left and back again. -/
def pendulum : Machine :=
  ⟨(Program.build 1 pendulumEdits).toOption.getD {}, by decide, none⟩

/-- Back at the blank cell, the pendulum stores one cell more, and looks as it did at first. -/
theorem answers_eq_of_configuration_eq_pendulum :
    ∃ m m', pendulum.load "" = .ok m ∧ m' = m.stepTimes 2 ∧ m.tapes ≠ m'.tapes ∧
      m.Ready ∧ m'.Ready ∧ m.configuration.state = m'.configuration.state ∧
      m.configuration.tapes = m'.configuration.tapes ∧ m.answers 5 = m'.answers 5 ∧
      (m.stepTimes 5).halt? = none := by
  let m : Machine := { pendulum with execution := some (.initial pendulum.program "") }
  have hprogram : m.program = (m.stepTimes 2).program := by rw [stepTimes_eq]
  have hready : m.Ready := ⟨rfl, rfl⟩
  have hready' : (m.stepTimes 2).Ready := ⟨by decide, by decide⟩
  have hstate : m.configuration.state = (m.stepTimes 2).configuration.state := by decide
  have htapes : m.configuration.tapes = (m.stepTimes 2).configuration.tapes := by decide
  obtain ⟨hanswers, _, _, _, _, hforever⟩ :=
    answers_eq_of_configuration_eq hprogram hready hready' hstate htapes 5
  exact ⟨m, m.stepTimes 2, rfl, rfl, by decide, hready, hready', hstate, htapes, hanswers,
    hforever ⟨2, by decide, rfl⟩⟩

end Machine

end TapeMachine
