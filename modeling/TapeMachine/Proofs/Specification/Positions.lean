import TapeMachine.Proofs.Specification.Tokens

/-!
# Where lines stand

`Line.Stands` says where a line stands without any scanning: what the text has in the rows above it,
what its row has on its left, and the text from its first token on. Its row counts the line feeds
above it and its column the characters on its left. `exists_stands` says that every line of a
specification stands where its row and its column say: a row of the text leads to it
(`exists_row`), in the row a segment (`exists_segment`), and in the segment the blanks in front of
its first token (`exists_blanks`).
-/

namespace TapeMachine.Specification

/-- The line with this index stands behind the rows above it and what its row has on its left, and
the text from its first token on is on its right. -/
structure Line.Stands (line : Line) (text : String) (index : Nat)
    (above left right : List Char) : Prop where
  parts : text.toList = above ++ left ++ right
  above_ends : above = [] ∨ above.getLast? = some '\n'
  left_inRow : '\n' ∉ left
  row : line.row = above.count '\n' + 1
  column : line.column = left.length + 1
  token : ∃ token, line.tokens.head? = some token ∧ token.toList <+: right
  /-- In front of the line there are the lines with smaller indices. -/
  before : tokenLines (String.ofList (above ++ left)) = (tokenLines text).take index
  /-- The line and the ones that follow it are on the right. -/
  behind : tokenLines (String.ofList right) = (tokenLines text).drop index

/-! ## Tokens in front and behind -/

@[simp] theorem runTokenLines_nil : runTokenLines [] = [] := rfl

/-- A line end keeps what is in front of it and what is behind it apart. -/
theorem runTokenLines_append_cons {c : Char} (hc : endsLine c = true) (before rest : List Char) :
    runTokenLines (before ++ c :: rest) = runTokenLines before ++ runTokenLines rest := by
  simp only [runTokenLines_eq, List.splitOnP_append_cons before rest hc, List.map_append,
    List.filter_append]

/-- What ends with a line end, and nothing, is apart from what is behind it. -/
theorem runTokenLines_append_of_getLast? {c : Char} (hc : endsLine c = true) {before : List Char}
    (h : before = [] ∨ before.getLast? = some c) (rest : List Char) :
    runTokenLines (before ++ rest) = runTokenLines before ++ runTokenLines rest := by
  rcases h with rfl | h
  · rfl
  · obtain ⟨front, rfl⟩ := List.getLast?_eq_some_iff.1 h
    rw [List.append_assoc, List.singleton_append, runTokenLines_append_cons hc,
      runTokenLines_append_cons hc, runTokenLines_nil, List.append_nil]

/-- Blanks in front make no difference. -/
theorem runTokenLines_append_of_isBlank {blanks : List Char}
    (h : ∀ c ∈ blanks, isBlank c = true) (rest : List Char) :
    runTokenLines (blanks ++ rest) = runTokenLines rest := by
  induction blanks with
  | nil => rfl
  | cons c blanks ih =>
      obtain ⟨hc, hblanks⟩ := List.forall_mem_cons.1 h
      have hends : endsLine c = false := by
        simp only [isBlank, Bool.or_eq_true, beq_iff_eq] at hc
        rcases hc with rfl | rfl <;> rfl
      rw [List.cons_append, ← ih hblanks, runTokenLines_eq, runTokenLines_eq,
        List.splitOnP_cons_eq_if_modifyHead, hends, if_neg Bool.false_ne_true]
      cases (blanks ++ rest).splitOnP endsLine with
      | nil => rfl
      | cons line more =>
          simp only [List.modifyHead_cons, List.map_cons, runTokens_cons_of_isBlank hc]

/-- A text without line ends is one line, if it has tokens. -/
theorem runTokenLines_of_forall {line : List Char} (h : ∀ c ∈ line, endsLine c = false) :
    runTokenLines line = [runTokens line].filter fun tokens => !tokens.isEmpty := by
  rw [runTokenLines_eq, List.splitOnP_eq_singleton h, List.map_singleton]

/-! ## Pieces -/

section

variable {sep : Char} {piece : List Char}

theorem beq_eq_false_of_notMem (h : sep ∉ piece) :
    ∀ c ∈ piece, (c == sep) = false := by
  intro c hc
  rw [beq_eq_false_iff_ne]
  rintro rfl
  exact h hc

theorem pieces_of_notMem (h : sep ∉ piece) : pieces (· == sep) piece = [piece] := by
  rw [pieces_eq_splitOnP]
  exact List.splitOnP_eq_singleton (beq_eq_false_of_notMem h)

theorem pieces_append_cons (h : sep ∉ piece) (rest : List Char) :
    pieces (· == sep) (piece ++ sep :: rest) = piece :: pieces (· == sep) rest := by
  rw [pieces_eq_splitOnP, pieces_eq_splitOnP]
  exact List.splitOnP_append_cons_of_forall_mem (beq_eq_false_of_notMem h) sep
    (beq_self_eq_true sep) rest

/-- A text is one piece without the separator, or begins with such a piece and the separator. -/
theorem pieces_induction (sep : Char) {motive : List Char → Prop}
    (last : ∀ piece, sep ∉ piece → motive piece)
    (cons : ∀ piece rest, sep ∉ piece → motive rest → motive (piece ++ sep :: rest))
    (text : List Char) : motive text := by
  induction hn : text.length using Nat.strongRecOn generalizing text with
  | ind n ih =>
      by_cases hmem : sep ∈ text
      · obtain ⟨piece, rest, rfl, hpiece⟩ := List.eq_append_cons_of_mem hmem
        rw [List.length_append, List.length_cons] at hn
        exact cons piece rest hpiece (ih rest.length (by omega) rest rfl)
      · exact last text hmem

theorem getLast?_append_cons {before : List Char} (h : before = [] ∨ before.getLast? = some sep)
    (piece : List Char) : (piece ++ sep :: before).getLast? = some sep := by
  rcases h with rfl | h
  · exact List.getLast?_concat
  · simp [List.getLast?_append, List.getLast?_cons, h]

end

/-! ## Rows -/

/-- The lines of a text whose first row has this number. -/
def linesFrom (number : Nat) (text : List Char) : List Line :=
  ((pieces (· == '\n') text).zipIdx number).flatMap fun (row, number) => linesOfRow number row

theorem lines_eq (text : String) : lines text = linesFrom 1 text.toList := rfl

section

variable {number : Nat} {row : List Char}

theorem linesFrom_of_row (h : '\n' ∉ row) : linesFrom number row = linesOfRow number row := by
  rw [linesFrom, pieces_of_notMem h]
  simp

theorem linesFrom_append (h : '\n' ∉ row) (rest : List Char) :
    linesFrom number (row ++ '\n' :: rest) =
      linesOfRow number row ++ linesFrom (number + 1) rest := by
  rw [linesFrom, pieces_append_cons h, List.zipIdx_cons, List.flatMap_cons]
  rfl

/-- A row has as many lines as there are in it. -/
theorem length_linesOfRow (h : '\n' ∉ row) :
    (linesOfRow number row).length = (runTokenLines row).length := by
  have hsplit : row.splitOnP endsLine = row.splitOnP (· == '\r') := by
    induction row with
    | nil => rfl
    | cons c row ih =>
        rw [List.mem_cons, not_or] at h
        obtain ⟨hc, hrow⟩ := h
        rw [List.splitOnP_cons_eq_if_modifyHead, List.splitOnP_cons_eq_if_modifyHead, ih hrow]
        simp [endsLine, Ne.symm hc]
  have htokens := congrArg List.length (map_tokens_linesOfRow number row)
  rw [List.length_map, List.length_map] at htokens
  rw [htokens, runTokenLines_eq, hsplit]

/-- A line of a text is a line of one of its rows, behind the lines of the rows above. -/
theorem exists_row {text : List Char} {index : Nat} {line : Line}
    (h : (linesFrom number text)[index]? = some line) :
    ∃ above row below place, text = above ++ row ++ below ∧
      (above = [] ∨ above.getLast? = some '\n') ∧ '\n' ∉ row ∧
      (linesOfRow (number + above.count '\n') row)[place]? = some line ∧
      index = (runTokenLines above).length + place := by
  induction text using pieces_induction '\n' generalizing number index with
  | last row hrow =>
      rw [linesFrom_of_row hrow] at h
      exact ⟨[], row, [], index, by simp, .inl rfl, hrow, h, (Nat.zero_add index).symm⟩
  | cons first rest hfirst ih =>
      rw [linesFrom_append hfirst] at h
      have hlength : (linesOfRow number first).length = _ := length_linesOfRow hfirst
      by_cases hindex : index < (linesOfRow number first).length
      · rw [List.getElem?_append_left hindex] at h
        exact ⟨[], first, '\n' :: rest, index, rfl, .inl rfl, hfirst, h, (Nat.zero_add index).symm⟩
      · rw [List.getElem?_append_right (Nat.le_of_not_lt hindex)] at h
        obtain ⟨above, row, below, place, rfl, habove, hrow, hline, hplace⟩ := ih h
        have hcount : (first ++ '\n' :: above).count '\n' = above.count '\n' + 1 := by
          simp [List.count_eq_zero.2 hfirst]
        refine ⟨first ++ '\n' :: above, row, below, place, by simp,
          .inr (getLast?_append_cons habove first), hrow, ?_, ?_⟩
        · rw [hcount, Nat.add_comm _ 1, ← Nat.add_assoc]
          exact hline
        · rw [runTokenLines_append_cons rfl, List.length_append]
          omega

end

/-! ## Segments -/

/-- The lines of a row that has this many characters in front. -/
def segmentLines (number : Nat) (rowText : String) (offset : Nat) (row : List Char) : List Line :=
  (locate offset (pieces (· == '\r') row)).filterMap (Line.ofSegment? number rowText)

theorem linesOfRow_eq (number : Nat) (row : List Char) :
    linesOfRow number row =
      segmentLines number (String.ofList (row.filter (· != '\r'))) 0 row := rfl

section

variable {number offset : Nat} {rowText : String} {segment : List Char}

theorem segmentLines_of_segment (h : '\r' ∉ segment) :
    segmentLines number rowText offset segment =
      (Line.ofSegment? number rowText ⟨offset, segment⟩).toList := by
  rw [segmentLines, pieces_of_notMem h, locate, locate, List.filterMap_cons]
  cases Line.ofSegment? number rowText ⟨offset, segment⟩ <;> rfl

theorem segmentLines_append (h : '\r' ∉ segment) (rest : List Char) :
    segmentLines number rowText offset (segment ++ '\r' :: rest) =
      (Line.ofSegment? number rowText ⟨offset, segment⟩).toList ++
        segmentLines number rowText (offset + segment.length + 1) rest := by
  rw [segmentLines, pieces_append_cons h, locate, List.filterMap_cons]
  cases Line.ofSegment? number rowText ⟨offset, segment⟩ <;> rfl

/-- A segment forms a line exactly if there is one in it. -/
theorem length_ofSegment? (h : ∀ c ∈ segment, endsLine c = false) :
    (Line.ofSegment? number rowText ⟨offset, segment⟩).toList.length =
      (runTokenLines segment).length := by
  have htokens := tokens_ofSegment? number rowText ⟨offset, segment⟩
  rw [runTokenLines_of_forall h]
  cases hempty : (runTokens segment).isEmpty <;>
    cases hline : Line.ofSegment? number rowText ⟨offset, segment⟩ <;> simp_all

theorem of_getElem?_toList {α : Type} {found : Option α} {index : Nat} {a : α}
    (h : found.toList[index]? = some a) : index = 0 ∧ found = some a := by
  cases found <;> cases index <;> simp_all

/-- A line of a row is formed by one of its segments, behind the lines of the segments on its
left. -/
theorem exists_segment {row : List Char} (hrow : '\n' ∉ row) {place : Nat} {line : Line}
    (h : (segmentLines number rowText offset row)[place]? = some line) :
    ∃ left segment behind, row = left ++ segment ++ behind ∧
      (left = [] ∨ left.getLast? = some '\r') ∧
      Line.ofSegment? number rowText ⟨offset + left.length, segment⟩ = some line ∧
      place = (runTokenLines left).length := by
  induction row using pieces_induction '\r' generalizing offset place with
  | last segment hsegment =>
      rw [segmentLines_of_segment hsegment] at h
      obtain ⟨rfl, hline⟩ := of_getElem?_toList h
      exact ⟨[], segment, [], by simp, .inl rfl, hline, rfl⟩
  | cons first rest hfirst ih =>
      rw [List.mem_append, List.mem_cons, not_or, not_or] at hrow
      have hends : ∀ c ∈ first, endsLine c = false := by
        intro c hc
        rw [endsLine, beq_eq_false_of_notMem hrow.1 c hc, beq_eq_false_of_notMem hfirst c hc]
        rfl
      have hlength : (Line.ofSegment? number rowText ⟨offset, first⟩).toList.length = _ :=
        length_ofSegment? hends
      rw [segmentLines_append hfirst] at h
      by_cases hplace : place < (Line.ofSegment? number rowText ⟨offset, first⟩).toList.length
      · rw [List.getElem?_append_left hplace] at h
        obtain ⟨rfl, hline⟩ := of_getElem?_toList h
        exact ⟨[], first, '\r' :: rest, rfl, .inl rfl, hline, rfl⟩
      · rw [List.getElem?_append_right (Nat.le_of_not_lt hplace)] at h
        obtain ⟨left, segment, behind, rfl, hleft, hline, hcount⟩ := ih hrow.2.2 h
        have hoffset : offset + (first ++ '\r' :: left).length =
            offset + first.length + 1 + left.length := by
          rw [List.length_append, List.length_cons]
          omega
        refine ⟨first ++ '\r' :: left, segment, behind, by simp,
          .inr (getLast?_append_cons hleft first), ?_, ?_⟩
        · rw [hoffset]
          exact hline
        · rw [runTokenLines_append_cons rfl, List.length_append]
          omega

end

/-! ## First tokens -/

theorem prefix_of_pieces {isSeparator : Char → Bool} {text piece : List Char}
    {more : List (List Char)} (h : pieces isSeparator text = piece :: more) : piece <+: text := by
  rw [pieces_eq_splitOnP] at h
  induction text generalizing piece more with
  | nil =>
      obtain ⟨rfl, _⟩ := List.cons.inj h
      exact List.prefix_refl _
  | cons c rest ih =>
      rw [List.splitOnP_cons_eq_if_modifyHead] at h
      split at h
      · obtain ⟨rfl, _⟩ := List.cons.inj h
        exact List.nil_prefix
      · cases hrest : rest.splitOnP isSeparator with
        | nil => exact absurd hrest (List.splitOnP_ne_nil isSeparator rest)
        | cons first others =>
            rw [hrest] at h
            obtain ⟨rfl, _⟩ := List.cons.inj h
            exact List.cons_prefix_cons.2 ⟨rfl, ih hrest⟩

/-- Only blanks are in front of the first field that is not empty. -/
theorem exists_blanks {segment : List Char} {offset : Nat} {first : Field} {others : List Field}
    (h : (locate offset (pieces isBlank segment)).filter (fun word => !word.chars.isEmpty) =
      first :: others) :
    ∃ blanks rest, segment = blanks ++ rest ∧ (∀ c ∈ blanks, isBlank c = true) ∧
      first.offset = offset + blanks.length ∧ first.chars <+: rest := by
  induction segment generalizing offset with
  | nil => cases h
  | cons c segment ih =>
      have hpieces := pieces_eq_splitOnP isBlank (c :: segment)
      rw [List.splitOnP_cons_eq_if_modifyHead, ← pieces_eq_splitOnP] at hpieces
      cases hc : isBlank c with
      | true =>
          rw [hpieces, if_pos hc] at h
          obtain ⟨blanks, rest, rfl, hblanks, hoffset, hprefix⟩ := ih h
          refine ⟨c :: blanks, rest, rfl, List.forall_mem_cons.2 ⟨hc, hblanks⟩, ?_, hprefix⟩
          rw [hoffset, List.length_cons, List.length_nil]
          omega
      | false =>
          cases hmore : pieces isBlank segment with
          | nil =>
              rw [pieces_eq_splitOnP] at hmore
              exact absurd hmore (List.splitOnP_ne_nil isBlank segment)
          | cons piece more =>
              rw [hmore, hc, if_neg Bool.false_ne_true] at hpieces
              rw [hpieces] at h
              obtain ⟨rfl, _⟩ := List.cons.inj h
              exact ⟨[], c :: segment, rfl, List.forall_mem_nil _, rfl, prefix_of_pieces hpieces⟩

/-- The line that a segment forms begins with the first token behind the blanks. -/
theorem exists_token {number : Nat} {rowText : String} {segment : Field} {line : Line}
    (h : Line.ofSegment? number rowText segment = some line) :
    ∃ blanks rest token, segment.chars = blanks ++ rest ∧ (∀ c ∈ blanks, isBlank c = true) ∧
      line.row = number ∧ line.column = segment.offset + blanks.length + 1 ∧
      line.tokens.head? = some token ∧ token.toList <+: rest := by
  unfold Line.ofSegment? at h
  split at h
  · cases h
  · next first others hwords =>
      obtain rfl := Option.some.inj h
      -- Cutting off the comment keeps the first field, if any is kept.
      have hkept : words segment.chars <+:
          (fields isBlank segment.chars).filter fun word => !word.chars.isEmpty :=
        List.takeWhile_prefix _
      rw [hwords] at hkept
      obtain ⟨more, hfields⟩ := hkept
      obtain ⟨blanks, rest, hsegment, hblanks, hoffset, hprefix⟩ := exists_blanks hfields.symm
      refine ⟨blanks, rest, String.ofList first.chars, hsegment, hblanks, rfl, ?_, rfl, ?_⟩
      · show segment.offset + first.offset + 1 = _
        rw [hoffset, Nat.zero_add]
      · rw [String.toList_ofList]
        exact hprefix

/-- Every line of a specification stands where its row and its column say. -/
theorem exists_stands {text : String} {index : Nat} {line : Line}
    (h : (lines text)[index]? = some line) :
    ∃ above left right, line.Stands text index above left right := by
  rw [lines_eq] at h
  obtain ⟨above, row, below, place, htext, habove, hrow, hline, hindex⟩ := exists_row h
  rw [linesOfRow_eq] at hline
  obtain ⟨left, segment, behind, rfl, hleft, hsegment, hplace⟩ := exists_segment hrow hline
  obtain ⟨blanks, rest, token, hchars, hblanks, hnumber, hcolumn, htoken, hprefix⟩ :=
    exists_token hsegment
  obtain rfl : segment = blanks ++ rest := hchars
  simp only [List.mem_append, not_or] at hrow
  -- What is in front has the tokens of the rows above and of the segments on the left.
  have hfront (more : List Char) : runTokenLines (above ++ (left ++ (blanks ++ more))) =
      runTokenLines above ++ runTokenLines left ++ runTokenLines more := by
    rw [runTokenLines_append_of_getLast? (c := '\n') rfl habove,
      runTokenLines_append_of_getLast? (c := '\r') rfl hleft,
      runTokenLines_append_of_isBlank hblanks, List.append_assoc]
  have hbefore : runTokenLines (above ++ (left ++ blanks)) =
      runTokenLines above ++ runTokenLines left := by simpa using hfront []
  have hall : runTokenLines text.toList =
      runTokenLines (above ++ (left ++ blanks)) ++ runTokenLines (rest ++ behind ++ below) := by
    rw [hbefore, ← hfront, htext]
    simp
  have hlength : index = (runTokenLines (above ++ (left ++ blanks))).length := by
    rw [hbefore, List.length_append, hindex, hplace]
  refine ⟨above, left ++ blanks, rest ++ behind ++ below, ?_⟩
  constructor
  case parts => simp [htext]
  case above_ends => exact habove
  case left_inRow => simp [hrow]
  case row => rw [hnumber, Nat.add_comm]
  case column =>
    rw [hcolumn, List.length_append]
    show 0 + left.length + blanks.length + 1 = _
    omega
  case token => exact ⟨token, htoken, by simpa using hprefix.trans (List.prefix_append _ _)⟩
  case before =>
    rw [tokenLines, tokenLines, String.toList_ofList, hall, hlength, List.map_append]
    exact (List.take_left' (List.length_map _)).symm
  case behind =>
    rw [tokenLines, tokenLines, String.toList_ofList, hall, hlength, List.map_append]
    exact (List.drop_left' (List.length_map _)).symm

end TapeMachine.Specification
