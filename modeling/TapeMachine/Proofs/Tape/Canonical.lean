import TapeMachine.Proofs.Tape.Coverage
import TapeMachine.Proofs.Tape.Visible

/-!
# Snapshots are canonical

An infinite tape is all blank, or it has a first and a last position that are not blank
(`InfiniteTape.Spans`). What a snapshot shows of it is then fixed: nothing at the head in the first
case (`Shows.eq_of_blank`), and the symbols from the first to the last of these positions in the
second (`Shows.eq_of_spans`). `performAll_snapshot_canonical` says this of the tapes that operations
lead to, and that two of them have the same snapshot exactly if the infinite tapes behind them are
the same, whatever was done to them and however much of them is stored.
-/

namespace TapeMachine

/-! ## The part that is not blank -/

namespace InfiniteTape

/-- The two positions are the first and the last one that are not blank. -/
structure Spans (t : InfiniteTape) (blank : Symbol) (first last : Int) : Prop where
  first_ne : t.cell first ≠ blank
  last_ne : t.cell last ≠ blank
  within : ∀ position, t.cell position ≠ blank → first ≤ position ∧ position ≤ last

/-- The symbols from one position to another one, both included. -/
def segment (t : InfiniteTape) (first last : Int) : List Symbol :=
  (List.range (last - first + 1).toNat).map fun (i : Nat) => t.cell (first + i)

variable {t : InfiniteTape} {blank : Symbol} {first last : Int}

theorem length_segment (t : InfiniteTape) (first last : Int) :
    (t.segment first last).length = (last - first + 1).toNat := by
  rw [segment, List.length_map, List.length_range]

theorem getElem?_segment {i : Nat} (h : first + i ≤ last) :
    (t.segment first last)[i]? = some (t.cell (first + i)) := by
  have hi : i < (last - first + 1).toNat := by omega
  rw [segment, List.getElem?_map, List.getElem?_range hi, Option.map_some]

theorem Spans.le (h : t.Spans blank first last) : first ≤ last := (h.within first h.first_ne).2

theorem Spans.blank_of_out (h : t.Spans blank first last) {position : Int}
    (hout : position < first ∨ last < position) : t.cell position = blank := by
  by_cases heq : t.cell position = blank
  case pos => exact heq
  case neg =>
    have hin := h.within position heq
    omega

theorem Spans.segment_ne_nil (h : t.Spans blank first last) : t.segment first last ≠ [] := by
  have hle := h.le
  have hlength := t.length_segment first last
  intro hnil
  rw [hnil, List.length_nil] at hlength
  omega

/-- The symbols from the first to the last position that is not blank show the whole tape. -/
theorem Spans.cellAt_segment (h : t.Spans blank first last) :
    cellAt blank first (t.segment first last) = t.cell := by
  have hle := h.le
  have hlength := t.length_segment first last
  funext position
  by_cases hlow : position < first
  case pos => rw [cellAt_of_lt hlow, h.blank_of_out (.inl hlow)]
  by_cases hhigh : last < position
  case pos => rw [cellAt_of_le (by omega), h.blank_of_out (.inr hhigh)]
  have hpos : first + ((position - first).toNat : Int) = position := by omega
  have hget : (t.segment first last)[(position - first).toNat]? = some (t.cell position) := by
    rw [getElem?_segment (by omega), hpos]
  rw [cellAt, if_neg hlow, List.getD_eq_getElem?_getD, hget, Option.getD_some]

theorem Spans.isTrimmed_segment (h : t.Spans blank first last) :
    IsTrimmed blank (t.segment first last) := by
  have hle := h.le
  constructor
  · intro symbol hsymbol
    rw [List.head?_eq_getElem?, getElem?_segment (by omega)] at hsymbol
    obtain rfl := Option.some.inj hsymbol
    simpa using h.first_ne
  · intro symbol hsymbol
    have hlast : first + ((last - first + 1).toNat - 1 : Nat) = last := by omega
    rw [List.getLast?_eq_getElem?, length_segment, getElem?_segment (by omega), hlast] at hsymbol
    obtain rfl := Option.some.inj hsymbol
    exact h.last_ne

end InfiniteTape

/-! ## What is shown -/

namespace TapeSnapshot

variable {s : TapeSnapshot} {blank : Symbol} {t : InfiniteTape} {first last : Int}

theorem Shows.cellAt_cells (h : s.Shows blank t) : cellAt blank s.start s.cells = t.cell := by
  rw [← h.blank_eq, ← s.symbolAt_eq_cellAt]
  exact congrArg InfiniteTape.cell h.infinite_eq

/-- Of a blank tape nothing is shown, at the head. -/
theorem Shows.eq_of_blank (h : s.Shows blank t) (hblank : ∀ position, t.cell position = blank) :
    s = ⟨[], t.head, t.head, blank⟩ := by
  refine h.unique {
    blank_eq := rfl
    infinite_eq := InfiniteTape.ext rfl (funext fun position => ?_)
    trimmed := ⟨nofun, nofun⟩
    start_eq := fun _ => rfl }
  exact cellAt_nil.trans (hblank position).symm

/-- Of a tape that is not blank the symbols from the first to the last position are shown that are
not blank. -/
theorem Shows.eq_of_spans (h : s.Shows blank t) (hspans : t.Spans blank first last) :
    s = ⟨t.segment first last, first, t.head, blank⟩ :=
  h.unique {
    blank_eq := rfl
    infinite_eq := InfiniteTape.ext rfl hspans.cellAt_segment
    trimmed := hspans.isTrimmed_segment
    start_eq := fun hnil => absurd hnil hspans.segment_ne_nil }

/-- The cells of a snapshot reach from the first to the last position that is not blank. -/
theorem Shows.spans (h : s.Shows blank t) (hne : s.cells ≠ []) :
    t.Spans blank s.start (s.start + s.cells.length - 1) := by
  have hpos := List.length_pos_iff.2 hne
  have hcell := h.cellAt_cells
  have hget (i : Nat) (hi : i < s.cells.length) : t.cell (s.start + i) = s.cells[i] := by
    rw [← hcell, cellAt_start_add hi]
  constructor
  case first_ne =>
    have hfirst := hget 0 hpos
    rw [Int.natCast_zero, Int.add_zero] at hfirst
    rw [hfirst]
    exact h.trimmed.head _ (by rw [List.head?_eq_getElem?, List.getElem?_eq_getElem hpos])
  case last_ne =>
    have hlt : s.cells.length - 1 < s.cells.length := by omega
    have hposition : s.start + s.cells.length - 1 = s.start + (s.cells.length - 1 : Nat) := by omega
    rw [hposition, hget _ hlt]
    exact h.trimmed.last _ (by rw [List.getLast?_eq_getElem?, List.getElem?_eq_getElem hlt])
  case within =>
    intro position hposition
    rw [← hcell] at hposition
    have hrange := mem_range_of_cellAt_ne hposition
    omega

/-- A tape that is shown is blank, or has a first and a last position that are not blank. -/
theorem Shows.blank_or_spans (h : s.Shows blank t) :
    (∀ position, t.cell position = blank) ∨ ∃ first last, t.Spans blank first last := by
  by_cases hnil : s.cells = []
  case pos =>
    refine .inl fun position => ?_
    rw [← h.cellAt_cells, hnil, cellAt_nil]
  case neg => exact .inr ⟨_, _, h.spans hnil⟩

/-- The snapshot is the only one that an infinite tape can have: it has the head of the tape, and
the symbols from the first to the last position that is not blank, at the first of them. -/
structure Captures (s : TapeSnapshot) (blank : Symbol) (t : InfiniteTape) : Prop where
  blank_eq : s.blank = blank
  head_eq : s.head = t.head
  /-- The tape has a first and a last position that are not blank, unless all are blank. -/
  blank_or_spans : (∀ position, t.cell position = blank) ∨ ∃ first last, t.Spans blank first last
  /-- If all are blank, there are no cells, and they begin at the head. -/
  of_blank : (∀ position, t.cell position = blank) → s.cells = [] ∧ s.start = t.head
  /-- Otherwise the cells are the symbols in between, with the blanks among them. -/
  of_spans : ∀ first last, t.Spans blank first last →
    s.cells = t.segment first last ∧ s.start = first
  /-- The first and the last cell are not blank. -/
  trimmed : IsTrimmed blank s.cells

theorem Shows.captures (h : s.Shows blank t) : s.Captures blank t where
  blank_eq := h.blank_eq
  head_eq := congrArg InfiniteTape.head h.infinite_eq
  blank_or_spans := h.blank_or_spans
  of_blank hblank := by
    rw [h.eq_of_blank hblank]
    exact ⟨rfl, rfl⟩
  of_spans first last hspans := by
    rw [h.eq_of_spans hspans]
    exact ⟨rfl, rfl⟩
  trimmed := h.trimmed

end TapeSnapshot

/-! ## Tapes that operations lead to -/

namespace Tape

/-- What operations make of an infinite tape with this content. -/
def infiniteAfter (content : String) (blank : Symbol) (operations : List Operation) :
    InfiniteTape :=
  ((History.start content blank).performAll blank operations).tape

section

variable (content : String) (blank : Symbol) (alphabet : Option Alphabet)
  (operations : List Operation)

theorem infinite_performAll :
    ((ofContent content blank alphabet).performAll operations).infinite =
      infiniteAfter content blank operations :=
  ((follows_start content blank alphabet).performAll operations).infinite

theorem blank_performAll :
    ((ofContent content blank alphabet).performAll operations).blank = blank :=
  ((follows_start content blank alphabet).performAll operations).blank

/-- After any operations the snapshot shows the infinite tape on which the same was done. -/
theorem performAll_shows :
    ((ofContent content blank alphabet).performAll operations).snapshot.Shows blank
      (infiniteAfter content blank operations) := by
  have hshows := ((ofContent content blank alphabet).performAll operations).snapshot_shows
  rw [blank_performAll, infinite_performAll] at hshows
  exact hshows

end

/-- Snapshots of the same infinite tape with the same blank are the same, and no others are. -/
theorem snapshot_eq_iff {t t' : Tape} :
    t.snapshot = t'.snapshot ↔ t.blank = t'.blank ∧ t.infinite = t'.infinite := by
  constructor
  · intro h
    refine ⟨congrArg TapeSnapshot.blank h, ?_⟩
    rw [← infinite_snapshot, ← infinite_snapshot, h]
  · rintro ⟨hblank, hinfinite⟩
    have hshows := t.snapshot_shows
    rw [hblank, hinfinite] at hshows
    exact hshows.unique t'.snapshot_shows

/-- After any operations the snapshot is the one of the infinite tape on which the same was done,
and the visible content is made of its cells. Two tapes have the same snapshot exactly if they have
the same blank, the same position of the head and the same symbol at every position. -/
theorem performAll_snapshot_canonical (content : String) (blank : Symbol)
    (alphabet : Option Alphabet) (operations : List Operation) (content' : String)
    (blank' : Symbol) (alphabet' : Option Alphabet) (operations' : List Operation) :
    let t := (ofContent content blank alphabet).performAll operations
    let t' := (ofContent content' blank' alphabet').performAll operations'
    t.snapshot.Captures blank (infiniteAfter content blank operations) ∧
      t.visibleContent = String.join t.snapshot.cells ∧
      (t.snapshot = t'.snapshot ↔
        t.blank = t'.blank ∧ t.headPosition = t'.headPosition ∧
          ∀ position, (infiniteAfter content blank operations).cell position =
            (infiniteAfter content' blank' operations').cell position) := by
  intro t t'
  have hinfinite : t.infinite = infiniteAfter content blank operations := infinite_performAll ..
  have hinfinite' : t'.infinite = infiniteAfter content' blank' operations' :=
    infinite_performAll ..
  refine ⟨(performAll_shows content blank alphabet operations).captures, rfl, ?_⟩
  rw [snapshot_eq_iff, InfiniteTape.ext_iff, ← hinfinite, ← hinfinite', funext_iff]
  exact Iff.rfl

example :
    ((ofContent "a_b_c" "_").performAll [.write "_", .moveLeft]).snapshot =
      ⟨["b", "_", "c"], 2, -1, "_"⟩ := by decide

end Tape

end TapeMachine
