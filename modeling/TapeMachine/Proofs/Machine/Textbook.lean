import TapeMachine.Proofs.Machine.Runs

/-!
# Machines refine the machines of the textbook

A `TextbookMachine` has `k` infinite tapes, all indexed by the integers, and a transition function
from a state and `k` symbols. It reads all heads before it writes any tape. `Program.textbook` is
the textbook machine that a well-formed program describes, and `load_stepTimes_denotes` says that a
machine is at the same configuration after loading an input and any number of steps: its state, its
heads, every cell of its tapes, its number of steps and its halt are those of the textbook machine.
-/

namespace TapeMachine

/-! ## Machines of the textbook -/

namespace TextbookMachine

/-- What a machine with `k` tapes does in one step. -/
structure Action (k : Nat) where
  nextState : String
  write : Fin k → Symbol
  move : Fin k → Direction

/-- What a machine with `k` tapes is at. -/
structure Configuration (k : Nat) where
  state : String
  tapes : Fin k → InfiniteTape
  /-- The number of actions carried out. -/
  applied : Nat
  halt : Option Halt

/-- The symbols under the heads. -/
def Configuration.symbols {k : Nat} (c : Configuration k) : Fin k → Symbol :=
  fun i => (c.tapes i).read

end TextbookMachine

/-- A deterministic machine with `k` tapes. -/
structure TextbookMachine (k : Nat) where
  initial : String
  accepting : List String
  blank : Symbol
  /-- The transition function, a partial one. -/
  delta : String → (Fin k → Symbol) → Option (TextbookMachine.Action k)

namespace TextbookMachine

variable {k : Nat} (M : TextbookMachine k)

/-- The input on the first tape from 0 on, all other cells blank, and all heads at 0. -/
def start (input : String) : Configuration k where
  state := M.initial
  tapes i := .ofContent (if i.val = 0 then input else "") M.blank
  applied := 0
  halt := none

/-- One attempted step. -/
def step (c : Configuration k) : Configuration k :=
  match c.halt with
  | some _ => c
  | none =>
    match M.delta c.state c.symbols with
    | none => { c with halt := some (.reject ⟨c.state, List.ofFn c.symbols⟩) }
    | some action =>
      { state := action.nextState
        tapes := fun i => ((c.tapes i).write (action.write i)).shift (action.move i)
        applied := c.applied + 1
        halt := if action.nextState ∈ M.accepting then some .accept else none }

/-- The configuration on an input after a number of attempted steps. -/
def run (input : String) : Nat → Configuration k
  | 0 => M.start input
  | n + 1 => M.step (run input n)

end TextbookMachine

/-! ## The textbook machine of a program -/

namespace Program

variable {p : Program} {t : Transition}

/-- What an admitted transition does, tape by tape. -/
def Admits.action (h : p.Admits t) : TextbookMachine.Action p.tapeCount where
  nextState := t.nextState
  write i := t.write.get (i.cast h.lengths.2.1.symm)
  move i := t.directions.get (i.cast h.lengths.2.2.symm)

/-- The machine that a well-formed program describes. -/
def textbook (p : Program) (h : p.WellFormed) : TextbookMachine p.tapeCount where
  initial := p.initial.get (by simp [h.initial_eq])
  accepting := p.accepting.toList
  blank := p.blank.get (by rw [h.blank_eq]; rfl)
  delta state symbols :=
    (p.transitions.toList.find? fun t => t.state = state ∧ t.read = List.ofFn symbols).pmap
      (fun t (ht : t ∈ p.transitions.toList) => (h.transitions t ht).action)
      (fun _ ht => List.mem_of_find?_eq_some ht)

variable (h : p.WellFormed)

theorem textbook_initial : (p.textbook h).initial = p.initialName :=
  Option.get_eq_getD _

theorem textbook_blank : (p.textbook h).blank = p.blank.getD "" :=
  Option.get_eq_getD _

/-- The table and the transition function agree on where nothing is defined. -/
theorem textbook_delta_of_none {state : String} {symbols : Fin p.tapeCount → Symbol}
    (hget : p.transitions.get? state (List.ofFn symbols) = none) :
    (p.textbook h).delta state symbols = none := by
  rw [TransitionTable.get?_eq_none_iff] at hget
  simp only [textbook, Option.pmap_eq_none_iff, List.find?_eq_none, decide_eq_true_eq]
  exact hget

/-- The table and the transition function agree on what is done. -/
theorem textbook_delta_of_some {state : String} {symbols : Fin p.tapeCount → Symbol}
    (hget : p.transitions.get? state (List.ofFn symbols) = some t) :
    ∃ ht : p.Admits t, (p.textbook h).delta state symbols = some ht.action := by
  obtain ⟨hmem, hkey⟩ := TransitionTable.get?_eq_some_iff.1 hget
  refine ⟨h.transitions t hmem, ?_⟩
  -- The transition function takes the first one listed for the key, and there is only one.
  cases hfind :
      p.transitions.toList.find? fun t => t.state = state ∧ t.read = List.ofFn symbols with
  | none =>
      rw [List.find?_eq_none] at hfind
      exact absurd hkey (by simpa using hfind t hmem)
  | some other =>
      have hother := List.find?_some hfind
      have hsome := TransitionTable.get?_eq_some_iff.2
        ⟨List.mem_of_find?_eq_some hfind, of_decide_eq_true hother⟩
      obtain rfl : t = other := Option.some.inj (hget.symm.trans hsome)
      simp only [textbook, hfind, Option.pmap_some]

end Program

/-! ## The simulation -/

/-- An execution stands for a configuration of a textbook machine. -/
structure Execution.Denotes {k : Nat} (e : Execution) (c : TextbookMachine.Configuration k) :
    Prop where
  state : e.state = c.state
  tapes : e.tapes.map Tape.infinite = List.ofFn c.tapes
  steps : e.steps = c.applied
  halt : e.halt = c.halt

namespace Execution

variable {k : Nat} {e : Execution} {c : TextbookMachine.Configuration k}

theorem Denotes.length_tapes (hd : e.Denotes c) : e.tapes.length = k := by
  have hlen := congrArg List.length hd.tapes
  rwa [List.length_map, List.length_ofFn] at hlen

/-- The tape of every index stands for the infinite tape of that index. -/
theorem Denotes.infinite_getElem (hd : e.Denotes c) {i : Nat} (hi : i < e.tapes.length)
    (hk : i < k) : e.tapes[i].infinite = c.tapes ⟨i, hk⟩ := by
  have hget := congrArg (·[i]?) hd.tapes
  simpa [hi, hk] using hget

/-- The same symbols are under the heads. -/
theorem Denotes.symbols (hd : e.Denotes c) : e.symbols = List.ofFn c.symbols := by
  have hread : e.symbols = (e.tapes.map Tape.infinite).map InfiniteTape.read := by
    rw [List.map_map]
    exact List.map_congr_left fun tape _ => (Tape.read_infinite tape).symm
  rw [hread, hd.tapes, List.map_ofFn]
  rfl

variable {p : Program}

/-- Both begin with the input on the first tape. -/
theorem denotes_initial (h : p.WellFormed) (input : String) :
    (initial p input).Denotes ((p.textbook h).start input) where
  state := (Program.textbook_initial h).symm
  tapes := by
    refine List.ext_getElem (by simp [initial, length_initialTapes]) fun i hi _ => ?_
    simp [initial, initialTapes, TextbookMachine.start, Program.textbook_blank,
      Tape.infinite_ofContent]
  steps := rfl
  halt := rfl

/-- Applying an admitted transition is the action of the transition on every tape. -/
theorem Denotes.infinite_updateTapes {e : Execution}
    {c : TextbookMachine.Configuration p.tapeCount} {t : Transition} (hd : e.Denotes c)
    (ht : p.Admits t) :
    (updateTapes e.tapes t.write t.directions).map Tape.infinite =
      List.ofFn fun i => ((c.tapes i).write (ht.action.write i)).shift (ht.action.move i) := by
  obtain ⟨_, hwrite, hmove⟩ := ht.lengths
  have hlen := hd.length_tapes
  refine List.ext_getElem? fun i => ?_
  -- Both lists have as many entries as there are tapes.
  by_cases hi : i < p.tapeCount
  · rw [List.getElem?_map, getElem?_updateTapes (by omega) (by omega) (by omega), Option.map_some,
      Tape.infinite_shift, Tape.infinite_write, hd.infinite_getElem (by omega) hi]
    simp [hi, Program.Admits.action]
  · rw [List.getElem?_eq_none, List.getElem?_eq_none]
    · simpa using hi
    · rw [List.length_map, length_updateTapes, hlen]
      omega

/-- A step of the execution is a step of the textbook machine. -/
theorem Denotes.step (h : p.WellFormed) {e : Execution}
    {c : TextbookMachine.Configuration p.tapeCount} (hd : e.Denotes c) :
    (e.step p).Denotes ((p.textbook h).step c) := by
  have hhalt := hd.halt
  unfold TextbookMachine.step
  cases hc : c.halt with
  | some halt =>
      rw [step_of_halt (hhalt.trans hc)]
      exact hd
  | none =>
      rw [hc] at hhalt
      cases ht : e.transition? p with
      | none =>
          -- The table has nothing for the state and the symbols, so both reject on them.
          have hget := ht
          rw [transition?, hd.state, hd.symbols] at hget
          rw [step_of_no_transition hhalt ht, Program.textbook_delta_of_none h hget, hd.state,
            hd.symbols]
          exact ⟨rfl, hd.tapes, hd.steps, rfl⟩
      | some t =>
          have hget := ht
          rw [transition?, hd.state, hd.symbols] at hget
          obtain ⟨hadmits, hdelta⟩ := Program.textbook_delta_of_some h hget
          rw [step_of_transition hhalt ht, hdelta]
          -- What is left is that both look for the next state among the same accepting ones.
          refine ⟨rfl, hd.infinite_updateTapes hadmits, congrArg (· + 1) hd.steps, ?_⟩
          have haccepting : p.isAccepting t.nextState = true ↔
              hadmits.action.nextState ∈ (p.textbook h).accepting := p.isAccepting_iff
          simp only [apply]
          by_cases hin : hadmits.action.nextState ∈ (p.textbook h).accepting
          · rw [if_pos (haccepting.2 hin), if_pos hin]
          · rw [if_neg (mt haccepting.1 hin), if_neg hin]

/-- An execution denotes the configuration of the textbook machine after every number of steps. -/
theorem denotes_run (h : p.WellFormed) (input : String) (n : Nat) :
    ((initial p input).run p n).Denotes ((p.textbook h).run input n) := by
  induction n with
  | zero => exact denotes_initial h input
  | succ n ih =>
      rw [run_succ_last]
      exact ih.step h

end Execution

/-! ## Machines -/

namespace Machine

/-- The textbook machine that the program of a machine describes. -/
def textbook (m : Machine) : TextbookMachine m.program.tapeCount :=
  m.program.textbook m.program_wellFormed

/-- All that can be observed of a machine is as in a configuration of a textbook machine. -/
structure Denotes {k : Nat} (m : Machine) (c : TextbookMachine.Configuration k) : Prop where
  state : m.state = c.state
  stepCount : m.stepCount = c.applied
  halt : m.halt? = c.halt
  tapes : m.tapes.length = k
  symbols : m.symbols = List.ofFn c.symbols
  headPosition : ∀ i : Fin k, m.headPosition i = .ok (c.tapes i).head
  /-- Every cell of every tape, where the cells that are not stored count as blank. -/
  cell : ∀ i : Fin k, ∃ tape, m.tape i = .ok tape ∧
    ∀ position, tape.symbolAt position = (c.tapes i).cell position

theorem denotes_of_execution {k : Nat} {m : Machine} {e : Execution}
    {c : TextbookMachine.Configuration k} (he : m.execution = some e) (hd : e.Denotes c) :
    m.Denotes c := by
  have htape (i : Fin k) : ∃ tape, m.tape i = .ok tape ∧ tape.infinite = c.tapes i := by
    have hi : i.val < e.tapes.length := by
      rw [hd.length_tapes]
      exact i.isLt
    exact ⟨e.tapes[i.val], by simp [tape, he, hi], hd.infinite_getElem hi i.isLt⟩
  constructor
  case state => simp [state, he, hd.state]
  case stepCount => simp [stepCount, he, hd.steps]
  case halt => simp [halt?, he, hd.halt]
  case tapes => simp [tapes, he, hd.length_tapes]
  case symbols => simpa [symbols, tapes, he, Execution.symbols] using hd.symbols
  case headPosition =>
    intro i
    obtain ⟨tape, htape, hinfinite⟩ := htape i
    rw [headPosition, htape, ← hinfinite]
    rfl
  case cell =>
    intro i
    obtain ⟨tape, htape, hinfinite⟩ := htape i
    exact ⟨tape, htape, fun position => congrFun (congrArg InfiniteTape.cell hinfinite) position⟩

/-- After loading a valid input and any number of steps, a machine is at the configuration that the
textbook machine of its program is at on this input after as many attempted steps, and the next step
tells whether the textbook machine halts. -/
theorem load_stepTimes_denotes (m : Machine) (input : String)
    (hvalid : m.program.isValidInput input = true) (n : Nat) :
    ∃ loaded, m.load input = .ok loaded ∧
      (loaded.stepTimes n).Denotes (m.textbook.run input n) ∧
      (loaded.stepTimes n).step.1 = .ofHalt (m.textbook.run input (n + 1)).halt := by
  refine ⟨_, load_of_valid hvalid, ?_⟩
  have hrun (j : Nat) := Execution.denotes_run m.program_wellFormed input j
  rw [stepTimes_eq]
  refine ⟨denotes_of_execution rfl (hrun n), ?_⟩
  have hhalt := (hrun (n + 1)).halt
  rw [Execution.run_succ_last] at hhalt
  rw [step_of_execution rfl]
  exact congrArg Step.ofHalt hhalt

/-- Two symbols are copied, and the third step accepts. -/
theorem load_stepTimes_denotes_copier :
    copier.program.isValidInput "10" = true ∧ (copier.textbook.run "10" 3).halt = some .accept ∧
      ∃ loaded, copier.load "10" = .ok loaded ∧
        (loaded.stepTimes 3).Denotes (copier.textbook.run "10" 3) ∧
        (loaded.stepTimes 3).step.1 = .ofHalt (copier.textbook.run "10" 4).halt :=
  ⟨by decide, rfl, load_stepTimes_denotes copier "10" (by decide) 3⟩

end Machine

end TapeMachine
