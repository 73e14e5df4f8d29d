import TapeMachine.Proofs.Tape.Canonical

/-!
# What a rendered tape shows

A drawing of an infinite tape has the symbols from one position to another one, with the one under
the head between bars (`InfiniteTape.draw`). The snapshot of a tape renders as the drawing from the
first to the last position that is not blank, widened to take in the head
(`performAll_render_draws`). A head that is away from what is visible has blanks in between, however
far it is (`Spans.draw_of_head_lt`, `Spans.draw_of_lt_head`).
-/

namespace TapeMachine

namespace InfiniteTape

/-- The symbol at a position, between bars if the head is there. -/
def mark (t : InfiniteTape) (position : Int) : String :=
  if position = t.head then s!"|{t.cell position}|" else t.cell position

/-- The symbols from one position to another one, both included, with the one under the head between
bars. -/
def draw (t : InfiniteTape) (first last : Int) : String :=
  String.join <| (List.range (last - first + 1).toNat).map fun (i : Nat) => t.mark (first + i)

variable {t : InfiniteTape} {blank : Symbol} {first last : Int}

/-! ## Parts of drawings -/

/-- A drawing can be cut behind any position of it. -/
theorem draw_append (middle : Int) (hfirst : first ≤ middle + 1) (hlast : middle ≤ last) :
    t.draw first last = t.draw first middle ++ t.draw (middle + 1) last := by
  have hlength : (last - first + 1).toNat =
      (middle - first + 1).toNat + (last - (middle + 1) + 1).toNat := by omega
  have hstart (i : Nat) : first + ((middle - first + 1).toNat + i : Nat) = middle + 1 + i := by
    omega
  unfold draw
  rw [hlength, List.range_add, List.map_append, List.map_map, String.join_append]
  congr 2
  exact List.map_congr_left fun i _ => congrArg t.mark (hstart i)

theorem draw_head (t : InfiniteTape) : t.draw t.head t.head = s!"|{t.cell t.head}|" := by
  simp [draw, mark]

/-- Away from the head a drawing has the symbols only. -/
theorem draw_of_away (h : t.head < first ∨ last < t.head) :
    t.draw first last = String.join (t.segment first last) := by
  refine congrArg String.join (List.map_congr_left fun i hi => ?_)
  have hlt := List.mem_range.1 hi
  exact if_neg (by omega)

theorem segment_of_blank (h : ∀ position, first ≤ position → position ≤ last →
    t.cell position = blank) :
    t.segment first last = List.replicate (last - first + 1).toNat blank := by
  refine List.eq_replicate_iff.2 ⟨t.length_segment first last, fun symbol hsymbol => ?_⟩
  obtain ⟨i, hi, rfl⟩ := List.mem_map.1 hsymbol
  have hlt := List.mem_range.1 hi
  exact h _ (by omega) (by omega)

/-! ## A head away from what is visible -/

/-- A head on the left has blanks up to the first position that is not blank. -/
theorem Spans.draw_of_head_lt (h : t.Spans blank first last) (hlt : t.head < first) :
    t.draw t.head last = s!"|{blank}|" ++
      (String.join (List.replicate (first - t.head - 1).toNat blank) ++
        String.join (t.segment first last)) := by
  have hle := h.le
  have hgap : t.draw (t.head + 1) (first - 1) =
      String.join (List.replicate (first - t.head - 1).toNat blank) := by
    rw [draw_of_away (.inl (by omega)),
      segment_of_blank fun position _ hposition => h.blank_of_out (.inl (by omega))]
    congr 2
    omega
  have hvisible : t.draw (first - 1 + 1) last = String.join (t.segment first last) := by
    rw [Int.sub_add_cancel, draw_of_away (.inl hlt)]
  have hright : t.draw (t.head + 1) last =
      t.draw (t.head + 1) (first - 1) ++ t.draw (first - 1 + 1) last :=
    draw_append (first - 1) (by omega) (by omega)
  rw [draw_append t.head (by omega) (by omega), hright, draw_head, hgap, hvisible,
    h.blank_of_out (.inl hlt)]

/-- A head on the right has blanks from the last position that is not blank on. -/
theorem Spans.draw_of_lt_head (h : t.Spans blank first last) (hlt : last < t.head) :
    t.draw first t.head = String.join (t.segment first last) ++
      (String.join (List.replicate (t.head - last - 1).toNat blank) ++ s!"|{blank}|") := by
  have hle := h.le
  have hgap : t.draw (last + 1) (t.head - 1) =
      String.join (List.replicate (t.head - last - 1).toNat blank) := by
    rw [draw_of_away (.inr (by omega)),
      segment_of_blank fun position hposition _ => h.blank_of_out (.inr (by omega))]
    congr 2
    omega
  have hhead : t.draw (t.head - 1 + 1) t.head = s!"|{blank}|" := by
    rw [Int.sub_add_cancel, draw_head, h.blank_of_out (.inr hlt)]
  have hright : t.draw (last + 1) t.head =
      t.draw (last + 1) (t.head - 1) ++ t.draw (t.head - 1 + 1) t.head :=
    draw_append (t.head - 1) (by omega) (by omega)
  rw [draw_append last (by omega) (by omega), hright, hgap, hhead, draw_of_away (.inr hlt)]

/-- The text is the drawing of the infinite tape from the first to the last position that is not
blank, widened to take in the head, or that of the head alone if all are blank. -/
structure IsRendered (t : InfiniteTape) (blank : Symbol) (text : String) : Prop where
  /-- The tape has a first and a last position that are not blank, unless all are blank. -/
  blank_or_spans : (∀ position, t.cell position = blank) ∨ ∃ first last, t.Spans blank first last
  of_blank : (∀ position, t.cell position = blank) →
    text = t.draw t.head t.head ∧ text = s!"|{blank}|"
  of_spans : ∀ first last, t.Spans blank first last →
    text = t.draw (min first t.head) (max last t.head)
  /-- The gap between a head on the left and what is visible is filled with blanks. -/
  of_head_lt : ∀ first last, t.Spans blank first last → t.head < first →
    text = s!"|{blank}|" ++ (String.join (List.replicate (first - t.head - 1).toNat blank) ++
      String.join (t.segment first last))
  /-- The gap between what is visible and a head on the right is filled with blanks. -/
  of_lt_head : ∀ first last, t.Spans blank first last → last < t.head →
    text = String.join (t.segment first last) ++
      (String.join (List.replicate (t.head - last - 1).toNat blank) ++ s!"|{blank}|")

end InfiniteTape

namespace TapeSnapshot

variable {s : TapeSnapshot} {blank : Symbol} {t : InfiniteTape} {first last : Int}

/-- A snapshot renders as the drawing of the tape that it stands for. -/
theorem render_eq_draw (s : TapeSnapshot) :
    s.render = s.infinite.draw s.firstPosition s.lastPosition := rfl

/-- If nothing is shown, the head alone is rendered. -/
theorem Shows.render_of_blank (h : s.Shows blank t) (hblank : ∀ position, t.cell position = blank) :
    s.render = t.draw t.head t.head := by
  rw [render_eq_draw, h.infinite_eq, firstPosition, lastPosition, h.eq_of_blank hblank]
  congr 1
  · exact Int.min_self t.head
  · simp only [List.length_nil]
    omega

/-- What is shown is rendered, and the positions up to the head. -/
theorem Shows.render_of_spans (h : s.Shows blank t) (hspans : t.Spans blank first last) :
    s.render = t.draw (min first t.head) (max last t.head) := by
  have hle := hspans.le
  rw [render_eq_draw, h.infinite_eq, firstPosition, lastPosition, h.eq_of_spans hspans]
  congr 1
  simp only [InfiniteTape.length_segment]
  omega

theorem Shows.isRendered (h : s.Shows blank t) : t.IsRendered blank s.render where
  blank_or_spans := h.blank_or_spans
  of_blank hblank := by
    rw [h.render_of_blank hblank]
    exact ⟨rfl, by rw [t.draw_head, hblank]⟩
  of_spans _ _ hspans := h.render_of_spans hspans
  of_head_lt first last hspans hlt := by
    have hle := hspans.le
    rw [h.render_of_spans hspans, Int.min_eq_right (by omega), Int.max_eq_left (by omega),
      hspans.draw_of_head_lt hlt]
  of_lt_head first last hspans hlt := by
    have hle := hspans.le
    rw [h.render_of_spans hspans, Int.min_eq_left (by omega), Int.max_eq_right (by omega),
      hspans.draw_of_lt_head hlt]

end TapeSnapshot

namespace Tape

/-- After any operations a tape renders as the drawing of the infinite tape on which the same was
done, from the first to the last position that is not blank or under the head. -/
theorem performAll_render_draws (content : String) (blank : Symbol) (alphabet : Option Alphabet)
    (operations : List Operation) :
    (infiniteAfter content blank operations).IsRendered blank
      ((ofContent content blank alphabet).performAll operations).snapshot.render :=
  (performAll_shows content blank alphabet operations).isRendered

example :
    ((ofContent "ab" ".").performAll [.moveLeft, .moveLeft, .shift .left]).snapshot.render =
      "|.|..ab" := by decide

end Tape

end TapeMachine
