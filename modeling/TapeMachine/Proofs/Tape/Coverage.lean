import TapeMachine.Proofs.Tape.Infinite

/-!
# What a tape stores after any operations

The operations on a tape are run beside the same operations on an infinite tape, and the positions
that the head visits since the content was given are written down. `performAll_represents` says
that the stored tape then shows the infinite one exactly, and that it stores the positions from the
least one visited to the greatest one visited, the content and its padding included, and no other.
-/

namespace TapeMachine

namespace Tape

/-- What can be done to a tape. -/
inductive Operation where
  | write (symbol : Symbol)
  | moveLeft
  | moveRight
  | shift (direction : Direction)
  | reset (content : String)
deriving DecidableEq

/-- Carry out an operation. -/
def perform (t : Tape) : Operation → Tape
  | .write symbol => t.write symbol
  | .moveLeft => t.moveLeft
  | .moveRight => t.moveRight
  | .shift direction => t.shift direction
  | .reset content => t.reset content

/-- Carry out operations one after another. -/
def performAll (t : Tape) (operations : List Operation) : Tape := operations.foldl perform t

/-! ## The history of an infinite tape -/

/-- An infinite tape and what happened to it since it was given its content. -/
structure History where
  /-- The content that was given last. -/
  content : String
  /-- The tape as it is now. -/
  tape : InfiniteTape
  /-- The positions that the head has been at since, the latest first. -/
  visited : List Int

namespace History

/-- A tape that has just been given its content. -/
def start (content : String) (blank : Symbol) : History :=
  ⟨content, .ofContent content blank, [0]⟩

/-- The tape has become another one by an operation other than a reset. -/
def visit (h : History) (tape : InfiniteTape) : History :=
  { h with tape, visited := tape.head :: h.visited }

/-- Carry out an operation on the infinite tape. -/
def perform (blank : Symbol) (h : History) : Operation → History
  | .write symbol => h.visit (h.tape.write symbol)
  | .moveLeft => h.visit (h.tape.shift .left)
  | .moveRight => h.visit (h.tape.shift .right)
  | .shift direction => h.visit (h.tape.shift direction)
  | .reset content => start content blank

/-- Carry out operations one after another. -/
def performAll (blank : Symbol) (h : History) (operations : List Operation) : History :=
  operations.foldl (perform blank) h

/-- The least position visited. Every history begins at 0. -/
def lowest (h : History) : Int := h.visited.foldr min 0

/-- The greatest position visited. Every history begins at 0. -/
def highest (h : History) : Int := h.visited.foldr max 0

/-- The first position that a tape with this history stores. -/
def first (h : History) : Int := min 0 h.lowest

/-- The last position that a tape with this history stores. -/
def last (h : History) : Int := max (h.content.length + 9) h.highest

end History

/-! ## The stored positions -/

/-- The position of the first stored cell. -/
def firstStored (t : Tape) : Int := -t.prepended

/-- The position of the last stored cell. -/
def lastStored (t : Tape) : Int := t.size - t.prepended - 1

/-- The stored cells are those on the left of the head, the one under it and those on its right. -/
theorem size_eq (t : Tape) : t.size = t.bufferIndex + 1 + t.right.length := by
  simp only [size, cells, bufferIndex, List.length_append, List.length_reverse, List.length_cons]
  omega

/-- The head is on a stored cell. -/
theorem bufferIndex_lt_size (t : Tape) : t.bufferIndex < t.size := by
  rw [size_eq]
  omega

/-- The second tape stores what the first one does and the position of its own head. -/
def Reaches (t t' : Tape) : Prop :=
  t'.firstStored = min t'.headPosition t.firstStored ∧
    t'.lastStored = max t'.headPosition t.lastStored

theorem reaches_self (t : Tape) : t.Reaches t := by
  have hlt := t.bufferIndex_lt_size
  constructor
  · simp only [firstStored, headPosition]
    omega
  · simp only [lastStored, headPosition]
    omega

theorem reaches_write (t : Tape) (symbol : Symbol) : t.Reaches (t.write symbol) := by
  have hsize : (t.write symbol).size = t.size := by
    simp [size, cells, write]
  have hself := t.reaches_self
  unfold Reaches lastStored at *
  rw [hsize]
  exact hself

theorem reaches_moveRight (t : Tape) : t.Reaches t.moveRight := by
  have hsize := t.size_eq
  have hcells := congrArg List.length t.cells_moveRight
  unfold Reaches firstStored lastStored
  rw [headPosition_moveRight, prepended_moveRight]
  by_cases hright : t.right = []
  · -- The head was on the last stored cell and is on the one brought in, which is now the last.
    rw [if_pos hright, List.length_append, List.length_singleton] at hcells
    rw [hright, List.length_nil] at hsize
    change t.moveRight.size = t.size + 1 at hcells
    simp only [headPosition]
    omega
  · rw [if_neg hright] at hcells
    have hpos := List.length_pos_iff.2 hright
    change t.moveRight.size = t.size at hcells
    simp only [headPosition]
    omega

theorem reaches_moveLeft (t : Tape) : t.Reaches t.moveLeft := by
  have hsize := t.bufferIndex_lt_size
  have hcells := congrArg List.length t.cells_moveLeft
  have hprepended := t.prepended_moveLeft
  unfold Reaches firstStored lastStored
  rw [headPosition_moveLeft]
  by_cases hleft : t.left = []
  · -- The head was on the first stored cell and is on the one brought in, which is now the first.
    rw [if_pos hleft, List.length_cons] at hcells
    rw [if_pos hleft] at hprepended
    have hindex : t.bufferIndex = 0 := by simp [bufferIndex, hleft]
    change t.moveLeft.size = t.size + 1 at hcells
    simp only [headPosition]
    omega
  · rw [if_neg hleft] at hcells hprepended
    have hpos : 0 < t.bufferIndex := List.length_pos_iff.2 hleft
    change t.moveLeft.size = t.size at hcells
    simp only [headPosition]
    omega

theorem reaches_shift (t : Tape) (d : Direction) : t.Reaches (t.shift d) := by
  cases d with
  | left => exact reaches_moveLeft t
  | right => exact reaches_moveRight t
  | stay => exact reaches_self t

/-! ## The invariant -/

/-- The tape stands for the infinite tape of the history and stores the positions that belong to
the history. -/
structure Follows (blank : Symbol) (t : Tape) (h : History) : Prop where
  infinite : t.infinite = h.tape
  blank : t.blank = blank
  first : t.firstStored = h.first
  last : t.lastStored = h.last

/-- A new tape stores its content and the padding, and its head has been at 0 only. -/
theorem follows_start (content : String) (blank : Symbol) (alphabet : Option Alphabet) :
    Follows blank (ofContent content blank alphabet) (.start content blank) := by
  have hsize : (ofContent content blank alphabet).size = content.length + 10 := by
    simp [size, cells_ofContent, tapePadding, String.length_toList]
  refine ⟨infinite_ofContent content blank alphabet, blank_ofContent content blank alphabet, ?_, ?_⟩
  · simp [firstStored, History.first, History.lowest, History.start]
  · simp only [lastStored, hsize, prepended_ofContent, History.last, History.highest,
      History.start, List.foldr]
    omega

variable {blank : Symbol} {t t' : Tape} {h : History}

/-- A tape that has become a longer one follows the history with the new position. -/
theorem Follows.visit (hf : Follows blank t h) (hreach : t.Reaches t')
    (hblank : t'.blank = t.blank) :
    Follows blank t' (h.visit t'.infinite) where
  infinite := rfl
  blank := hblank.trans hf.blank
  first := by
    have hfirst := hf.first
    simp only [History.first, History.lowest, History.visit, List.foldr, head_infinite] at *
    rw [hreach.1, hfirst]
    omega
  last := by
    have hlast := hf.last
    simp only [History.last, History.highest, History.visit, List.foldr, head_infinite] at *
    rw [hreach.2, hlast]
    omega

/-- One operation keeps the invariant. -/
theorem Follows.perform (hf : Follows blank t h) (operation : Operation) :
    Follows blank (t.perform operation) (h.perform blank operation) := by
  have hinfinite := hf.infinite
  cases operation with
  | write symbol =>
      have hvisit := hf.visit (t.reaches_write symbol) (t.blank_write symbol)
      rw [infinite_write, hinfinite] at hvisit
      exact hvisit
  | moveLeft =>
      have hvisit := hf.visit t.reaches_moveLeft t.blank_moveLeft
      rw [infinite_moveLeft, hinfinite] at hvisit
      exact hvisit
  | moveRight =>
      have hvisit := hf.visit t.reaches_moveRight t.blank_moveRight
      rw [infinite_moveRight, hinfinite] at hvisit
      exact hvisit
  | shift direction =>
      have hvisit := hf.visit (t.reaches_shift direction) (t.blank_shift direction)
      rw [infinite_shift, hinfinite] at hvisit
      exact hvisit
  | reset content =>
      -- Nothing of the history before a reset matters but the blank, which is kept.
      have hstart := follows_start content t.blank t.alphabet
      rw [hf.blank] at hstart
      show Follows blank (t.reset content) (.start content blank)
      rw [reset, hf.blank]
      exact hstart

/-- Any operations keep the invariant. -/
theorem Follows.performAll (hf : Follows blank t h) (operations : List Operation) :
    Follows blank (t.performAll operations) (h.performAll blank operations) := by
  induction operations generalizing t h with
  | nil => exact hf
  | cons operation operations ih => exact ih (hf.perform operation)

/-! ## What the invariant says about the stored cells -/

/-- The tape shows the infinite tape of the history, and stores the positions from the first to the
last one of the history and no other. -/
structure Represents (blank : Symbol) (t : Tape) (h : History) : Prop where
  /-- The head is on a stored cell. -/
  bufferIndex_lt : t.bufferIndex < t.size
  /-- The head is where the head of the infinite tape is. -/
  headPosition_eq : t.headPosition = h.tape.head
  /-- The symbol read is the one of the infinite tape at the position of the head. -/
  read_eq : t.read = h.tape.cell t.headPosition
  /-- A stored cell holds the symbol of its position. -/
  cells_eq : ∀ (i : Nat) (hi : i < t.cells.length), t.cells[i] = h.tape.cell (i - t.prepended)
  /-- A position that is not stored is blank. -/
  outside_eq : ∀ position : Int,
    (¬ ∃ i : Nat, i < t.size ∧ position = i - t.prepended) → h.tape.cell position = blank
  /-- The stored positions are those from the first to the last. -/
  covers : ∀ position : Int,
    (∃ i : Nat, i < t.size ∧ position = i - t.prepended) ↔ h.first ≤ position ∧ position ≤ h.last
  /-- As many cells are prepended as the head has been below 0. -/
  prepended_eq : (t.prepended : Int) = max 0 (-h.lowest)
  /-- As many cells are stored as there are positions from the first to the last. -/
  size_eq : (t.size : Int) = h.last - h.first + 1
  /-- The content is made of the symbols from the first to the last position. -/
  content_eq : t.content =
    String.join ((List.range (h.last - h.first + 1).toNat).map fun (i : Nat) =>
      h.tape.cell (h.first + i))

theorem getElem_cells (t : Tape) (i : Nat) (hi : i < t.cells.length) :
    t.cells[i] = t.symbolAt (i - t.prepended) := by
  have hpos : (i - t.prepended : Int) = -t.prepended + i := by omega
  rw [hpos, symbolAt, cellAt_start_add hi]

/-- A position is stored exactly if it is not before the first or after the last stored one. -/
theorem exists_stored_iff (t : Tape) (position : Int) :
    (∃ i : Nat, i < t.size ∧ position = i - t.prepended) ↔
      t.firstStored ≤ position ∧ position ≤ t.lastStored := by
  unfold firstStored lastStored
  constructor
  · rintro ⟨i, hi, rfl⟩
    omega
  · rintro ⟨hfirst, hlast⟩
    exact ⟨(position + t.prepended).toNat, by omega, by omega⟩

theorem symbolAt_of_not_stored (t : Tape) {position : Int}
    (hnot : ¬ ∃ i : Nat, i < t.size ∧ position = i - t.prepended) :
    t.symbolAt position = t.blank := by
  rw [exists_stored_iff, firstStored, lastStored] at hnot
  unfold symbolAt
  by_cases hlt : position < -t.prepended
  · exact cellAt_of_lt hlt
  · have hsize : t.cells.length = t.size := rfl
    exact cellAt_of_le (by omega)

/-- The stored cells are the symbols from the first stored position on. -/
theorem cells_eq_map_range (t : Tape) :
    t.cells = (List.range t.size).map fun (i : Nat) => t.symbolAt (t.firstStored + i) := by
  refine List.ext_getElem (by simp [size]) fun i hi _ => ?_
  have hpos : (i - t.prepended : Int) = t.firstStored + i := by
    unfold firstStored
    omega
  rw [getElem_cells, List.getElem_map, List.getElem_range, hpos]

theorem Follows.represents (hf : Follows blank t h) : Represents blank t h := by
  have hcell : t.symbolAt = h.tape.cell := congrArg InfiniteTape.cell hf.infinite
  have hsize : (t.size : Int) = h.last - h.first + 1 := by
    rw [← hf.last, ← hf.first, lastStored, firstStored]
    omega
  constructor
  case bufferIndex_lt => exact t.bufferIndex_lt_size
  case headPosition_eq => exact congrArg InfiniteTape.head hf.infinite
  case read_eq => rw [← hcell, symbolAt_headPosition, read]
  case cells_eq =>
    intro i hi
    rw [← hcell, getElem_cells]
  case outside_eq =>
    intro position hnot
    rw [← hcell, symbolAt_of_not_stored t hnot, hf.blank]
  case covers =>
    intro position
    rw [exists_stored_iff, hf.first, hf.last]
  case prepended_eq =>
    have hfirst := hf.first
    unfold firstStored History.first at hfirst
    omega
  case size_eq => exact hsize
  case content_eq =>
    have hlen : (h.last - h.first + 1).toNat = t.size := by omega
    rw [content, cells_eq_map_range, hcell, hf.first, hlen]

/-- After any operations a tape shows the infinite tape on which the same was done, and stores
exactly the positions from the least to the greatest that the head has visited since the content was
given, with those of the content and its padding. -/
theorem performAll_represents (content : String) (blank : Symbol) (alphabet : Option Alphabet)
    (operations : List Operation) :
    Represents blank ((ofContent content blank alphabet).performAll operations)
      ((History.start content blank).performAll blank operations) :=
  ((follows_start content blank alphabet).performAll operations).represents

end Tape

end TapeMachine
