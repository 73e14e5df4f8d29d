import TapeMachine.Proofs.Tape.Infinite

/-!
# Snapshots and infinite tapes

A snapshot shows an infinite tape if it has the head of the tape, a cell for every position from the
first to the last that is not blank, and nothing else (`TapeSnapshot.Shows`). The snapshot of a
stored tape shows the infinite tape behind it (`snapshot_shows`), and an infinite tape is shown by
one snapshot only (`Shows.unique`). So a snapshot keeps all that matters of a tape and nothing of
how it is stored.
-/

namespace TapeMachine

/-! ## Lists without blanks at their ends -/

/-- Neither the first nor the last of the cells is blank. -/
structure IsTrimmed (blank : Symbol) (cells : List Symbol) : Prop where
  head : ∀ symbol, cells.head? = some symbol → symbol ≠ blank
  last : ∀ symbol, cells.getLast? = some symbol → symbol ≠ blank

section

variable {blank : Symbol} {start start' : Int} {cells cells' : List Symbol}

/-- A position that is not blank is one of a cell. -/
theorem mem_range_of_cellAt_ne {position : Int} (h : cellAt blank start cells position ≠ blank) :
    start ≤ position ∧ position < start + cells.length := by
  constructor
  · apply Int.not_lt.1
    intro hlt
    exact h (cellAt_of_lt hlt)
  · apply Int.not_le.1
    intro hle
    exact h (cellAt_of_le hle)

/-- Trimmed cells lie within any cells that show the same symbols at all positions. -/
theorem IsTrimmed.range_subset (h : IsTrimmed blank cells) (hne : cells ≠ [])
    (heq : cellAt blank start cells = cellAt blank start' cells') :
    start' ≤ start ∧ start + cells.length ≤ start' + cells'.length := by
  have hpos := List.length_pos_iff.2 hne
  -- The first and the last of the trimmed cells are not blank, so the other cells reach to them.
  have hfirst : cellAt blank start' cells' (start + (0 : Nat)) ≠ blank := by
    rw [← heq, cellAt_start_add hpos]
    exact h.head _ (by rw [List.head?_eq_getElem?, List.getElem?_eq_getElem hpos])
  have hlt : cells.length - 1 < cells.length := by omega
  have hlast : cellAt blank start' cells' (start + (cells.length - 1 : Nat)) ≠ blank := by
    rw [← heq, cellAt_start_add hlt]
    exact h.last _ (by rw [List.getLast?_eq_getElem?, List.getElem?_eq_getElem hlt])
  have hlow := mem_range_of_cellAt_ne hfirst
  have hhigh := mem_range_of_cellAt_ne hlast
  omega

/-- Trimmed cells that show the same symbols at all positions are the same, and begin at the same
position unless there are none. -/
theorem IsTrimmed.cells_unique (h : IsTrimmed blank cells) (h' : IsTrimmed blank cells')
    (heq : cellAt blank start cells = cellAt blank start' cells') :
    cells = cells' ∧ (cells ≠ [] → start = start') := by
  by_cases hnil : cells = []
  · by_cases hnil' : cells' = []
    · exact ⟨hnil.trans hnil'.symm, fun hne => absurd hnil hne⟩
    · have hsub := h'.range_subset hnil' heq.symm
      have hpos := List.length_pos_iff.2 hnil'
      rw [hnil, List.length_nil] at hsub
      omega
  · have hsub := h.range_subset hnil heq
    have hnil' : cells' ≠ [] := by
      have hpos := List.length_pos_iff.2 hnil
      intro hnil'
      rw [hnil', List.length_nil] at hsub
      omega
    have hsub' := h'.range_subset hnil' heq.symm
    have hstart : start = start' := by omega
    refine ⟨List.ext_getElem (by omega) fun i hi hi' => ?_, fun _ => hstart⟩
    have hcell : cellAt blank start cells (start + i) = cells[i] := cellAt_start_add hi
    have hcell' : cellAt blank start' cells' (start' + i) = cells'[i] := cellAt_start_add hi'
    rw [← hcell, ← hcell', heq, hstart]

end

namespace Tape

variable {blank : Symbol}

/-- The blanks left out at the beginning. -/
theorem takeWhile_append_dropBlanks (blank : Symbol) (l : List Symbol) :
    l = l.takeWhile (· == blank) ++ dropBlanks blank l ∧
      ∀ cell ∈ l.takeWhile (· == blank), cell = blank := by
  refine ⟨List.takeWhile_append_dropWhile.symm, fun cell h => ?_⟩
  have hall := List.all_eq_true.1 (List.all_takeWhile (p := (· == blank)) (l := l)) cell h
  exact beq_iff_eq.1 hall

theorem head?_dropBlanks_ne {l : List Symbol} {symbol : Symbol}
    (h : (dropBlanks blank l).head? = some symbol) : symbol ≠ blank := by
  have hnot := List.head?_dropWhile_not (· == blank) l
  unfold dropBlanks at h
  rw [h] at hnot
  simpa using hnot

/-- The blanks left out at the end. -/
theorem trimBlanks_append (blank : Symbol) (l : List Symbol) :
    ∃ back, l = trimBlanks blank l ++ back ∧ ∀ cell ∈ back, cell = blank := by
  obtain ⟨heq, hblank⟩ := takeWhile_append_dropBlanks blank l.reverse
  refine ⟨(l.reverse.takeWhile (· == blank)).reverse, ?_, ?_⟩
  · rw [trimBlanks, ← List.reverse_append, ← heq, List.reverse_reverse]
  · intro cell h
    exact hblank cell (List.mem_reverse.1 h)

theorem getLast?_trimBlanks_ne {l : List Symbol} {symbol : Symbol}
    (h : (trimBlanks blank l).getLast? = some symbol) : symbol ≠ blank := by
  rw [trimBlanks, List.getLast?_reverse] at h
  exact head?_dropBlanks_ne h

/-- Trimming at the end does not touch the beginning, unless nothing is left. -/
theorem head?_trimBlanks {l : List Symbol} {symbol : Symbol}
    (h : (trimBlanks blank l).head? = some symbol) : l.head? = some symbol := by
  obtain ⟨back, heq, _⟩ := trimBlanks_append blank l
  rw [heq, List.head?_append, h, Option.some_or]

theorem isTrimmed_visibleCells (t : Tape) : IsTrimmed t.blank t.visibleCells where
  head _ h := head?_dropBlanks_ne (head?_trimBlanks h)
  last _ h := getLast?_trimBlanks_ne h

/-- If nothing is visible, all that is stored is blank. -/
theorem dropBlanks_cells_of_visibleCells {t : Tape} (h : t.visibleCells = []) :
    dropBlanks t.blank t.cells = [] := by
  obtain ⟨back, heq, hblank⟩ := trimBlanks_append t.blank (dropBlanks t.blank t.cells)
  have hback : dropBlanks t.blank t.cells = back := by
    rw [visibleCells] at h
    rw [heq, h, List.nil_append]
  cases hcells : dropBlanks t.blank t.cells with
  | nil => rfl
  | cons cell rest =>
      have hne : cell ≠ t.blank := head?_dropBlanks_ne (l := t.cells) (by rw [hcells]; rfl)
      have hmem : cell ∈ back := by
        rw [← hback, hcells]
        exact List.mem_cons_self
      exact absurd (hblank cell hmem) hne

/-- The visible cells begin at their start, or at the head if there are none. -/
theorem visibleStart_eq (t : Tape) :
    t.visibleStart = if t.visibleCells = [] then t.headPosition
      else ((t.cells.takeWhile (· == t.blank)).length : Int) - t.prepended := by
  obtain ⟨heq, _⟩ := takeWhile_append_dropBlanks t.blank t.cells
  have hlen := congrArg List.length heq
  rw [List.length_append] at hlen
  unfold visibleStart size
  by_cases hnil : t.visibleCells = []
  · rw [dropBlanks_cells_of_visibleCells hnil, List.length_nil] at hlen
    rw [if_pos hnil, if_pos (by omega)]
  · have hne : dropBlanks t.blank t.cells ≠ [] := by
      intro hdrop
      rw [visibleCells, hdrop] at hnil
      exact hnil rfl
    have hpos := List.length_pos_iff.2 hne
    rw [if_neg hnil, if_neg (by omega)]

/-- The visible cells show what all stored cells show. -/
theorem cellAt_visibleCells (t : Tape) (position : Int) :
    cellAt t.blank t.visibleStart t.visibleCells position = t.symbolAt position := by
  obtain ⟨heq, hfront⟩ := takeWhile_append_dropBlanks t.blank t.cells
  obtain ⟨back, hback, hblank⟩ :=
    trimBlanks_append t.blank (dropBlanks t.blank t.cells)
  have hsymbol : t.symbolAt position =
      cellAt t.blank (-t.prepended + (t.cells.takeWhile (· == t.blank)).length) t.visibleCells
        position := by
    rw [visibleCells, ← cellAt_append_blanks hblank, ← hback, ← cellAt_blanks_append hfront, ← heq,
      symbolAt]
  rw [hsymbol, visibleStart_eq]
  by_cases hnil : t.visibleCells = []
  · rw [hnil, cellAt_nil, cellAt_nil]
  · have hstart : ((t.cells.takeWhile (· == t.blank)).length : Int) - t.prepended =
        -t.prepended + (t.cells.takeWhile (· == t.blank)).length := by omega
    rw [if_neg hnil, hstart]

end Tape

namespace TapeSnapshot

/-! ## What a snapshot shows -/

/-- The infinite tape that a snapshot stands for. -/
def infinite (s : TapeSnapshot) : InfiniteTape := ⟨s.head, s.symbolAt⟩

theorem symbolAt_eq_cellAt (s : TapeSnapshot) : s.symbolAt = cellAt s.blank s.start s.cells := rfl

/-- The snapshot has the cells of the infinite tape from the first to the last that is not blank, or
none and begins at the head if all are blank. -/
structure Shows (s : TapeSnapshot) (blank : Symbol) (t : InfiniteTape) : Prop where
  blank_eq : s.blank = blank
  infinite_eq : s.infinite = t
  trimmed : IsTrimmed blank s.cells
  start_eq : s.cells = [] → s.start = t.head

/-- An infinite tape is shown by one snapshot only. -/
theorem Shows.unique {s s' : TapeSnapshot} {blank : Symbol} {t : InfiniteTape}
    (h : s.Shows blank t) (h' : s'.Shows blank t) : s = s' := by
  have hhead : s.head = s'.head :=
    congrArg InfiniteTape.head (h.infinite_eq.trans h'.infinite_eq.symm)
  have hcell : s.symbolAt = s'.symbolAt :=
    congrArg InfiniteTape.cell (h.infinite_eq.trans h'.infinite_eq.symm)
  rw [symbolAt_eq_cellAt, symbolAt_eq_cellAt, h.blank_eq, h'.blank_eq] at hcell
  obtain ⟨hcells, hstart⟩ := h.trimmed.cells_unique h'.trimmed hcell
  refine TapeSnapshot.ext hcells ?_ hhead (h.blank_eq.trans h'.blank_eq.symm)
  by_cases hnil : s.cells = []
  · rw [h.start_eq hnil, h'.start_eq (hcells ▸ hnil)]
  · exact hstart hnil

end TapeSnapshot

namespace Tape

/-- The snapshot of a stored tape stands for the same infinite tape. -/
theorem infinite_snapshot (t : Tape) : t.snapshot.infinite = t.infinite :=
  InfiniteTape.ext rfl (funext t.cellAt_visibleCells)

/-- The snapshot of a stored tape shows the infinite tape behind it. -/
theorem snapshot_shows (t : Tape) : t.snapshot.Shows t.blank t.infinite where
  blank_eq := rfl
  infinite_eq := t.infinite_snapshot
  trimmed := t.isTrimmed_visibleCells
  start_eq hnil := by
    change t.visibleCells = [] at hnil
    show t.visibleStart = t.headPosition
    rw [visibleStart_eq, if_pos hnil]

/-- The snapshot of a new tape has the characters of the content as its cells, if none of them is
the blank. -/
theorem snapshot_ofContent {content : String} {blank : Symbol} {alphabet : Option Alphabet}
    (h : ∀ symbol ∈ content.toList.map String.singleton, symbol ≠ blank) :
    (ofContent content blank alphabet).snapshot =
      ⟨content.toList.map String.singleton, 0, 0, blank⟩ := by
  have hshows := (ofContent content blank alphabet).snapshot_shows
  rw [blank_ofContent, infinite_ofContent] at hshows
  exact hshows.unique {
    blank_eq := rfl
    infinite_eq := rfl
    trimmed := ⟨fun symbol hs => h symbol (List.mem_of_head? hs),
      fun symbol hs => h symbol (List.mem_of_getLast? hs)⟩
    start_eq := fun _ => rfl }

end Tape

end TapeMachine
