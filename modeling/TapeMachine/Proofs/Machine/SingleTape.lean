import TapeMachine.Proofs.Machine.Operations
import TapeMachine.Proofs.Tape.Visible

/-!
# Runs with one tape

A `Point` is what an execution with one tape is at: a state and an infinite tape. `Program.Takes`
says how many attempts lead from one point to another, how many transitions they apply and how the
execution has halted then. Runs are put together from single transitions by `Takes.trans`; a
`sweep` moves the head in one direction over symbols that are kept.
-/

namespace TapeMachine

/-- What an execution with one tape is at. -/
structure Point where
  state : String
  tape : InfiniteTape

namespace InfiniteTape

/-- Writing what is read changes nothing. -/
theorem write_read (t : InfiniteTape) : t.write t.read = t := by
  refine InfiniteTape.ext rfl (funext fun position => ?_)
  show (if position = t.head then t.cell t.head else t.cell position) = _
  split
  · next h => rw [h]
  · rfl

/-- The tape with a word from a position on and blanks everywhere else. -/
def ofWord (blank : Symbol) (start : Int) (word : List Symbol) (head : Int) : InfiniteTape :=
  ⟨head, cellAt blank start word⟩

section

variable {blank symbol : Symbol} {start head : Int} {word front back : List Symbol}

theorem shift_ofWord (d : Direction) :
    (ofWord blank start word head).shift d = ofWord blank start word (head + d.offset) :=
  shift_eq _ d

/-- A symbol is read behind those in front of it. -/
theorem read_ofWord_append :
    (ofWord blank start (front ++ symbol :: back) (start + front.length)).read = symbol := by
  show cellAt blank start (front ++ symbol :: back) (start + front.length) = symbol
  rw [cellAt_append, if_neg (Int.lt_irrefl _), cellAt_cons, if_pos rfl]

/-- The first symbol is read at the start. -/
theorem read_ofWord_cons : (ofWord blank start (symbol :: word) start).read = symbol := by
  show cellAt blank start (symbol :: word) start = symbol
  rw [cellAt_cons, if_pos rfl]

theorem read_ofWord_of_lt (h : head < start) : (ofWord blank start word head).read = blank :=
  cellAt_of_lt h

theorem read_ofWord_of_le (h : start + word.length ≤ head) :
    (ofWord blank start word head).read = blank :=
  cellAt_of_le h

/-- Writing behind the symbols in front of the head replaces the symbol there. -/
theorem write_ofWord_append (other : Symbol) :
    (ofWord blank start (front ++ symbol :: back) (start + front.length)).write other =
      ofWord blank start (front ++ other :: back) (start + front.length) := by
  refine InfiniteTape.ext rfl (funext fun position => ?_)
  show (if position = start + (front.length : Int) then other
    else cellAt blank start (front ++ symbol :: back) position) =
      cellAt blank start (front ++ other :: back) position
  rw [cellAt_append, cellAt_append, cellAt_cons, cellAt_cons]
  by_cases heq : position = start + (front.length : Int)
  · rw [if_pos heq, if_neg (by omega), if_pos heq]
  · rw [if_neg heq, if_neg heq, if_neg heq]

/-- Erasing the first symbol leaves the word behind it. -/
theorem write_blank_ofWord_cons :
    (ofWord blank start (symbol :: word) start).write blank =
      ofWord blank (start + 1) word start := by
  refine InfiniteTape.ext rfl (funext fun position => ?_)
  show (if position = start then blank else cellAt blank start (symbol :: word) position) =
    cellAt blank (start + 1) word position
  rw [cellAt_cons]
  split
  · rw [cellAt_of_lt (by omega)]
  · rfl

/-- Erasing the last symbol leaves the word in front of it. -/
theorem write_blank_ofWord_append :
    (ofWord blank start (word ++ [symbol]) (start + word.length)).write blank =
      ofWord blank start word (start + word.length) := by
  refine InfiniteTape.ext rfl (funext fun position => ?_)
  show (if position = start + (word.length : Int) then blank
    else cellAt blank start (word ++ [symbol]) position) = cellAt blank start word position
  rw [cellAt_append, cellAt_cons, cellAt_nil]
  by_cases hlt : position < start + (word.length : Int)
  · rw [if_neg (by omega), if_pos hlt]
  · rw [cellAt_of_le (by omega), if_neg hlt]
    split <;> rfl

end

end InfiniteTape

/-- The visible cells of a tape are the cells of the infinite tape behind it, if neither the first
nor the last of these is blank. -/
theorem Tape.visibleCells_eq {t : Tape} {start : Int} {cells : List Symbol}
    (h : t.infinite.cell = cellAt t.blank start cells) (htrimmed : IsTrimmed t.blank cells) :
    t.visibleCells = cells := by
  have hcells : cellAt t.blank t.visibleStart t.visibleCells = cellAt t.blank start cells :=
    (funext t.cellAt_visibleCells).trans h
  exact (t.isTrimmed_visibleCells.cells_unique htrimmed hcells).1

namespace Execution

/-- The execution has one tape and is at this point, after this number of transitions and with this
halt. -/
structure IsAt (p : Program) (e : Execution) (c : Point) (steps : Nat) (halt : Option Halt) :
    Prop where
  state : e.state = c.state
  tape : ∃ stored, e.tapes = [stored] ∧ stored.infinite = c.tape ∧ stored.blank = p.blank.getD ""
  steps : e.steps = steps
  halt : e.halt = halt

variable {p : Program} {e : Execution} {c : Point} {steps : Nat} {halt : Option Halt}

theorem isAt_initial (htapes : p.tapeCount = 1) (input : String) :
    (initial p input).IsAt p ⟨p.initialName, .ofContent input (p.blank.getD "")⟩ 0 none where
  state := rfl
  tape := by
    refine ⟨.ofContent input (p.blank.getD "") (some p.tapeAlphabet), ?_,
      Tape.infinite_ofContent _ _ _, Tape.blank_ofContent _ _ _⟩
    show initialTapes p input = _
    rw [initialTapes, htapes]
    rfl
  steps := rfl
  halt := rfl

theorem IsAt.symbols (h : e.IsAt p c steps halt) : e.symbols = [c.tape.read] := by
  obtain ⟨stored, htapes, hinfinite, _⟩ := h.tape
  unfold Execution.symbols
  rw [htapes, ← hinfinite, Tape.read_infinite]
  rfl

/-- What fires at a point. -/
theorem IsAt.transition? (h : e.IsAt p c steps halt) :
    e.transition? p = p.transitions.get? c.state [c.tape.read] := by
  unfold Execution.transition?
  rw [h.state, h.symbols]

end Execution

namespace Program

open Execution

/-- From one point, this number of attempts leads to another one, applies this number of
transitions, and leaves this halt behind. -/
def Takes (p : Program) (attempts applied : Nat) (c c' : Point) (halt : Option Halt) : Prop :=
  ∀ (e : Execution) (steps : Nat), e.IsAt p c steps none →
    (e.run p attempts).IsAt p c' (steps + applied) halt

variable {p : Program} {c c' c'' : Point} {halt : Option Halt} {n n' applied applied' : Nat}

theorem Takes.refl : p.Takes 0 0 c c none := fun _ _ h => h

/-- Runs follow each other. -/
theorem Takes.trans (h : p.Takes n applied c c' none) (h' : p.Takes n' applied' c' c'' halt) :
    p.Takes (n + n') (applied + applied') c c'' halt := by
  intro e steps he
  rw [run_add, ← Nat.add_assoc]
  exact h' _ _ (h e steps he)

section

variable {state next : String} {t : InfiniteTape} {read write : Symbol} {d : Direction}

/-- One attempt applies the transition that fires. -/
theorem takes_transition (hread : t.read = read)
    (hget : p.transitions.get? state [read] = some (.single state read next write d)) :
    p.Takes 1 1 ⟨state, t⟩ ⟨next, (t.write write).shift d⟩
      (if p.isAccepting next then some .accept else none) := by
  intro e steps he
  obtain ⟨stored, htapes, hinfinite, hblank⟩ := he.tape
  rw [← hread] at hget
  rw [run_one, step_of_transition he.halt (he.transition?.trans hget)]
  exact {
    state := rfl
    tape := by
      refine ⟨(stored.write write).shift d, ?_, ?_, ?_⟩
      · show updateTapes e.tapes [write] [d] = _
        rw [htapes]
        rfl
      · rw [Tape.infinite_shift, Tape.infinite_write, hinfinite]
      · rw [Tape.blank_shift, Tape.blank_write, hblank]
    steps := congrArg (· + 1) he.steps
    halt := rfl }

/-- Where no transition fires, one attempt rejects. -/
theorem takes_rejection (hread : t.read = read)
    (hget : p.transitions.get? state [read] = none) :
    p.Takes 1 0 ⟨state, t⟩ ⟨state, t⟩ (some (.reject ⟨state, [read]⟩)) := by
  intro e steps he
  rw [← hread] at hget ⊢
  rw [run_one, step_of_no_transition he.halt (he.transition?.trans hget), he.state, he.symbols]
  exact ⟨rfl, he.tape, he.steps, rfl⟩

/-- One attempt applies a transition that does not enter an accepting state. -/
theorem takes_one (hread : t.read = read)
    (hget : p.transitions.get? state [read] = some (.single state read next write d))
    (hnext : p.isAccepting next = false) :
    p.Takes 1 1 ⟨state, t⟩ ⟨next, (t.write write).shift d⟩ none := by
  have htakes := takes_transition hread hget
  rwa [hnext] at htakes

/-- One attempt moves the head and keeps the symbol. -/
theorem takes_move (hread : t.read = read)
    (hget : p.transitions.get? state [read] = some (.single state read next read d))
    (hnext : p.isAccepting next = false) : p.Takes 1 1 ⟨state, t⟩ ⟨next, t.shift d⟩ none := by
  have htakes := takes_one hread hget hnext
  rwa [← hread, InfiniteTape.write_read] at htakes

/-- One attempt replaces a symbol of a word and moves the head. -/
theorem takes_replacement (blank : Symbol) (start : Int) (front back : List Symbol)
    (hget : p.transitions.get? state [read] = some (.single state read next write d))
    (hnext : p.isAccepting next = false) :
    p.Takes 1 1 ⟨state, .ofWord blank start (front ++ read :: back) (start + front.length)⟩
      ⟨next, .ofWord blank start (front ++ write :: back) (start + front.length + d.offset)⟩
      none := by
  have hone := takes_one (t := .ofWord blank start (front ++ read :: back) (start + front.length))
    InfiniteTape.read_ofWord_append hget hnext
  rwa [InfiniteTape.write_ofWord_append, InfiniteTape.shift_ofWord] at hone

/-- One attempt keeps the symbol and enters an accepting state. -/
theorem takes_acceptance (hread : t.read = read)
    (hget : p.transitions.get? state [read] = some (.single state read next read d))
    (hnext : p.isAccepting next = true) :
    p.Takes 1 1 ⟨state, t⟩ ⟨next, t.shift d⟩ (some .accept) := by
  have htakes := takes_transition hread hget
  rwa [hnext, ← hread, InfiniteTape.write_read] at htakes

end

/-- The head moves in one direction over symbols that the state keeps. -/
theorem takes_sweep {state : String} (hstate : p.isAccepting state = false) {d : Direction}
    {start : Int} {cell : Int → Symbol} (n : Nat)
    (hget : ∀ i : Nat, i < n →
      let symbol := cell (start + d.offset * i)
      p.transitions.get? state [symbol] = some (.single state symbol state symbol d)) :
    p.Takes n n ⟨state, ⟨start, cell⟩⟩ ⟨state, ⟨start + d.offset * n, cell⟩⟩ none := by
  induction n with
  | zero =>
      have hstart : start + d.offset * (0 : Nat) = start := by simp
      rw [hstart]
      exact .refl
  | succ n ih =>
      have hlast : start + d.offset * (n + 1 : Nat) = start + d.offset * n + d.offset := by
        rw [Int.natCast_succ, Int.mul_add, Int.mul_one, Int.add_assoc]
      -- The sweep grows at its far end: the last move starts where `n` moves lead.
      have hmove := takes_move (t := ⟨start + d.offset * n, cell⟩) rfl
        (hget n (Nat.lt_succ_self n)) hstate
      rw [InfiniteTape.shift_eq] at hmove
      rw [hlast]
      exact (ih fun i hi => hget i (Nat.lt_succ_of_lt hi)).trans hmove

section

variable {state : String} {word : List Symbol} (blank : Symbol) (start : Int)
  (front back : List Symbol)

/-- The symbols of a word between other cells. -/
theorem mem_of_cellAt_word {position : Int} (hlow : start + front.length ≤ position)
    (hhigh : position < start + front.length + word.length) :
    cellAt blank start (front ++ (word ++ back)) position ∈ word := by
  rw [cellAt_append, if_neg (by omega), cellAt_append, if_pos hhigh]
  obtain ⟨i, rfl⟩ := Int.le.dest hlow
  rw [cellAt_start_add (by omega)]
  exact List.getElem_mem _

/-- The head moves to the right over a word that the state keeps. -/
theorem takes_sweep_right (hstate : p.isAccepting state = false)
    (hget : ∀ symbol ∈ word,
      p.transitions.get? state [symbol] = some (.single state symbol state symbol .right)) :
    let tape := InfiniteTape.ofWord blank start (front ++ (word ++ back))
    p.Takes word.length word.length ⟨state, tape (start + front.length)⟩
      ⟨state, tape (start + front.length + word.length)⟩ none := by
  intro tape
  have hend : start + front.length + (word.length : Int) =
      start + front.length + Direction.offset .right * word.length := by
    rw [Direction.offset, Int.one_mul]
  rw [hend]
  refine takes_sweep hstate word.length fun i hi =>
    hget _ (mem_of_cellAt_word blank start front back ?_ ?_)
  all_goals
    rw [Direction.offset]
    omega

/-- The head moves to the left over a word that the state keeps. -/
theorem takes_sweep_left (hstate : p.isAccepting state = false)
    (hget : ∀ symbol ∈ word,
      p.transitions.get? state [symbol] = some (.single state symbol state symbol .left)) :
    let tape := InfiniteTape.ofWord blank start (front ++ (word ++ back))
    p.Takes word.length word.length ⟨state, tape (start + front.length + word.length - 1)⟩
      ⟨state, tape (start + front.length - 1)⟩ none := by
  intro tape
  have hend : start + front.length - 1 = start + front.length + (word.length : Int) - 1 +
      Direction.offset .left * word.length := by
    rw [Direction.offset]
    omega
  rw [hend]
  refine takes_sweep hstate word.length fun i hi =>
    hget _ (mem_of_cellAt_word blank start front back ?_ ?_)
  all_goals
    rw [Direction.offset]
    omega

end

/-- Once it has halted, an execution stays where it is, however many attempts follow. -/
theorem Takes.of_le {halt : Halt} (h : p.Takes n applied c c' (some halt)) (hle : n ≤ n') :
    p.Takes n' applied c c' (some halt) := by
  intro e steps he
  obtain ⟨rest, rfl⟩ := Nat.exists_eq_add_of_le hle
  have hend := h e steps he
  rw [run_add, run_of_halt hend.halt]
  exact hend

end Program

namespace Machine

variable {m : Machine} {e : Execution}

/-- Where a run from the input leads, an execution with a sufficient budget ends. -/
theorem execute_of_takes {input : String} {c : Point} {attempts applied budget : Nat} {halt : Halt}
    (htapes : m.program.tapeCount = 1) (hvalid : m.program.isValidInput input = true)
    (h : m.program.Takes attempts applied
      ⟨m.program.initialName, .ofContent input (m.program.blank.getD "")⟩ c (some halt))
    (hbudget : attempts ≤ budget) :
    ∃ final e, m.execute input budget = .ok (.ofHalt (some halt), final) ∧
      final.execution = some e ∧ e.IsAt m.program c applied (some halt) := by
  have hend := h.of_le hbudget _ 0 (Execution.isAt_initial htapes input)
  rw [Nat.zero_add] at hend
  refine ⟨m.withProgress (some ⟨input, budget⟩), _, ?_, rfl, hend⟩
  rw [execute_of_valid hvalid, ← hend.halt]
  rfl

section

variable {p : Program} {c : Point} {steps : Nat} {halt : Option Halt} (he : m.execution = some e)

include he

theorem stepCount_of_isAt (h : e.IsAt p c steps halt) : m.stepCount = steps := by
  unfold stepCount
  rw [he]
  exact h.steps

theorem tapes_of_isAt (h : e.IsAt p c steps halt) :
    ∃ stored, m.tapes = [stored] ∧ stored.infinite = c.tape ∧ stored.blank = p.blank.getD "" := by
  unfold tapes
  rw [he]
  exact h.tape

/-- A machine shows the word that is on its tape. -/
theorem content_of_isAt {state : String} {blank : Symbol} {start head : Int} {word : List Symbol}
    (hblank : p.blank.getD "" = blank)
    (h : e.IsAt p ⟨state, .ofWord blank start word head⟩ steps halt)
    (hword : IsTrimmed blank word) : m.content = String.join word := by
  obtain ⟨stored, htapes, hinfinite, hstored⟩ := tapes_of_isAt he h
  rw [← hblank, ← hstored] at hinfinite hword
  unfold content
  rw [htapes]
  exact congrArg String.join (Tape.visibleCells_eq (congrArg InfiniteTape.cell hinfinite) hword)

end

end Machine

end TapeMachine
