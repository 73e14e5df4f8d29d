import TapeMachine.Specification.Line

/-!
# Token lines

`tokenLines` describes the tokens of a text without any scanning: cut the text at its line ends, cut
every physical line at its blanks, leave out what a comment takes up, and leave out the lines with
nothing left. The lines of a specification have exactly these tokens (`map_tokens_lines`).
-/

namespace TapeMachine.Specification

/-! ## The description -/

/-- Line feeds and carriage returns end physical lines. -/
def endsLine (c : Char) : Bool := c == '\n' || c == '\r'

/-- The physical lines of a text. A carriage return with a line feed behind it is one line end. -/
def physicalLines : List Char → List (List Char)
  | [] => [[]]
  | '\r' :: '\n' :: rest => [] :: physicalLines rest
  | c :: rest =>
    if endsLine c then [] :: physicalLines rest else (physicalLines rest).modifyHead (c :: ·)

/-- The maximal runs of characters other than blanks. -/
def runs (line : List Char) : List (List Char) :=
  (line.splitOnP isBlank).filter fun run => !run.isEmpty

/-- The tokens of a physical line: its runs before the first one that begins with a number sign. -/
def runTokens (line : List Char) : List (List Char) :=
  (runs line).takeWhile fun run => run.head? != some '#'

/-- The tokens of the physical lines that have any, as lists of characters. -/
def runTokenLines (text : List Char) : List (List (List Char)) :=
  ((physicalLines text).map runTokens).filter fun tokens => !tokens.isEmpty

/-- The tokens of the physical lines that have any. -/
def tokenLines (text : String) : List (List String) :=
  (runTokenLines text.toList).map (·.map String.ofList)

example : tokenLines "a#b c\r\n # d\re" = [["a#b", "c"], ["e"]] := by decide

/-! ## Physical lines -/

/-- What is left of a text behind the line end that it begins with. -/
def afterLineEnd? : List Char → Option (List Char)
  | [] => none
  | '\r' :: '\n' :: rest => some rest
  | c :: rest => if endsLine c then some rest else none

theorem length_of_afterLineEnd? {text rest : List Char} (h : afterLineEnd? text = some rest) :
    rest.length < text.length := by
  unfold afterLineEnd? at h
  split at h
  · cases h
  · obtain rfl := Option.some.inj h
    simp only [List.length_cons]
    omega
  · split at h
    · obtain rfl := Option.some.inj h
      exact Nat.lt_succ_self _
    · cases h

theorem physicalLines_of_afterLineEnd? {text rest : List Char}
    (h : afterLineEnd? text = some rest) : physicalLines text = [] :: physicalLines rest := by
  unfold afterLineEnd? at h
  split at h
  · cases h
  · obtain rfl := Option.some.inj h
    rw [physicalLines]
  · next c rest' hcrlf =>
      split at h
      · next hends =>
          obtain rfl := Option.some.inj h
          rw [physicalLines, if_pos hends]
          exact hcrlf
      · cases h

/-- Only line ends end a line. -/
theorem physicalLines_cons {c : Char} (h : endsLine c = false) (rest : List Char) :
    physicalLines (c :: rest) = (physicalLines rest).modifyHead (c :: ·) := by
  rw [physicalLines, h, if_neg Bool.false_ne_true]
  rintro _ rfl
  cases h

theorem physicalLines_append {line : List Char} (h : ∀ c ∈ line, endsLine c = false)
    (behind : List Char) :
    physicalLines (line ++ behind) = (physicalLines behind).modifyHead (line ++ ·) := by
  induction line with
  | nil => exact (congrFun List.modifyHead_id (physicalLines behind)).symm
  | cons c line ih =>
      rw [List.cons_append, physicalLines_cons (h c (by simp)), ih fun c hc => h c (by simp [hc]),
        List.modifyHead_modifyHead]
      rfl

theorem afterLineEnd?_of_endsLine {c : Char} (h : endsLine c = true) (rest : List Char) :
    ∃ rest', afterLineEnd? (c :: rest) = some rest' := by
  unfold afterLineEnd?
  split
  · next heq => cases heq
  · exact ⟨_, rfl⟩
  · next heq =>
      obtain ⟨rfl, rfl⟩ := List.cons.inj heq
      exact ⟨_, if_pos h⟩

/-- Where a line ends, the physical line in front of it is empty. -/
theorem physicalLines_of_head {behind : List Char}
    (h : ∀ c, behind.head? = some c → endsLine c = true) :
    ∃ more, physicalLines behind = [] :: more := by
  cases behind with
  | nil => exact ⟨[], rfl⟩
  | cons c rest =>
      obtain ⟨rest', hafter⟩ := afterLineEnd?_of_endsLine (h c rfl) rest
      exact ⟨_, physicalLines_of_afterLineEnd? hafter⟩

/-! ## Tokens of physical lines -/

@[simp] theorem runTokens_nil : runTokens [] = [] := rfl

/-- The tokens of a text are those of its first physical line and those of the others. -/
theorem runTokenLines_append {line behind : List Char} (hline : ∀ c ∈ line, endsLine c = false)
    (hbehind : ∀ c, behind.head? = some c → endsLine c = true) :
    runTokenLines (line ++ behind) =
      [runTokens line].filter (fun tokens => !tokens.isEmpty) ++ runTokenLines behind := by
  obtain ⟨more, hmore⟩ := physicalLines_of_head hbehind
  rw [runTokenLines, physicalLines_append hline, runTokenLines, hmore]
  simp only [List.modifyHead_cons, List.append_nil, List.map_cons, List.filter_cons, runTokens_nil]
  cases (runTokens line).isEmpty <;> rfl

/-- A line end in front makes no difference. -/
theorem runTokenLines_of_afterLineEnd? {text rest : List Char}
    (h : afterLineEnd? text = some rest) : runTokenLines text = runTokenLines rest := by
  rw [runTokenLines, physicalLines_of_afterLineEnd? h]
  rfl

/-- A blank in front makes no difference. -/
theorem runTokens_cons_of_isBlank {c : Char} (h : isBlank c = true) (line : List Char) :
    runTokens (c :: line) = runTokens line := by
  simp [runTokens, runs, List.splitOnP_cons_eq_if_modifyHead, h]

/-- A number sign in front makes all of the line a comment. -/
theorem runTokens_cons_numberSign (line : List Char) : runTokens ('#' :: line) = [] := by
  have hblank : isBlank '#' = false := rfl
  unfold runTokens runs
  rw [List.splitOnP_cons_eq_if_modifyHead, hblank, if_neg Bool.false_ne_true]
  cases line.splitOnP isBlank <;> simp

/-- A run in front that goes up to a blank or the end of the line is the first token. -/
theorem runTokens_append {run : List Char} {line : List Char} (hne : run ≠ [])
    (hrun : ∀ c ∈ run, isBlank c = false) (hsign : run.head? ≠ some '#')
    (hline : ∀ c, line.head? = some c → isBlank c = true) :
    runTokens (run ++ line) = run :: runTokens line := by
  have hfirst : (runs (run ++ line)) = run :: runs line := by
    unfold runs
    cases line with
    | nil => simp [List.splitOnP_eq_singleton hrun, hne]
    | cons c rest =>
        have hblank := hline c rfl
        rw [List.splitOnP_append_cons_of_forall_mem hrun c hblank,
          List.splitOnP_cons_eq_if_modifyHead, if_pos hblank]
        simp [hne]
  rw [runTokens, hfirst, List.takeWhile_cons, if_pos (by simpa using hsign)]
  rfl

/-! ## The lines of a specification -/

/-- Cutting at separators is the same with and without offsets. -/
theorem pieces_eq_splitOnP (isSeparator : Char → Bool) (text : List Char) :
    pieces isSeparator text = text.splitOnP isSeparator := by
  induction text with
  | nil => rfl
  | cons c rest ih =>
      obtain ⟨first, more, hsplit⟩ :=
        List.exists_cons_of_ne_nil (List.splitOnP_ne_nil isSeparator rest)
      rw [hsplit] at ih
      unfold pieces at ih ⊢
      rw [List.splitOnP_cons_eq_if_modifyHead, hsplit, List.foldr_cons, ih]
      rfl

theorem map_chars_locate (offset : Nat) (found : List (List Char)) :
    (locate offset found).map Field.chars = found := by
  induction found generalizing offset with
  | nil => rfl
  | cons piece rest ih => rw [locate, List.map_cons, ih]

theorem map_chars_fields (isSeparator : Char → Bool) (text : List Char) :
    (fields isSeparator text).map Field.chars = text.splitOnP isSeparator := by
  rw [fields, map_chars_locate, pieces_eq_splitOnP]

/-- The words of a segment are its tokens. -/
theorem map_chars_words (segment : List Char) :
    (words segment).map Field.chars = runTokens segment := by
  rw [runTokens, runs, ← map_chars_fields, List.filter_map, List.takeWhile_map]
  rfl

theorem tokens_ofSegment? (row : Nat) (rowText : String) (segment : Field) :
    (Line.ofSegment? row rowText segment).map Line.tokens =
      if (runTokens segment.chars).isEmpty then none
      else some ((runTokens segment.chars).map String.ofList) := by
  rw [← map_chars_words, Line.ofSegment?]
  cases words segment.chars with
  | nil => rfl
  | cons first others => simp

theorem map_tokens_linesOfRow (number : Nat) (row : List Char) :
    (linesOfRow number row).map Line.tokens =
      (((row.splitOnP (· == '\r')).map runTokens).filter fun tokens => !tokens.isEmpty).map
        (·.map String.ofList) := by
  rw [linesOfRow, List.map_filterMap, ← map_chars_fields, List.map_map]
  induction fields (· == '\r') row with
  | nil => rfl
  | cons segment segments ih =>
      rw [List.filterMap_cons, tokens_ofSegment?, ih, List.map_cons, List.filter_cons]
      cases h : (runTokens segment.chars).isEmpty <;> simp [h]

/-- Cutting at some separators and then at others is cutting at all of them. -/
theorem flatMap_splitOnP (p q : Char → Bool) (text : List Char) :
    (text.splitOnP p).flatMap (·.splitOnP q) = text.splitOnP fun c => p c || q c := by
  induction text with
  | nil => rfl
  | cons c rest ih =>
      obtain ⟨first, more, hsplit⟩ := List.exists_cons_of_ne_nil (List.splitOnP_ne_nil p rest)
      rw [hsplit, List.flatMap_cons] at ih
      rw [List.splitOnP_cons_eq_if_modifyHead, List.splitOnP_cons_eq_if_modifyHead, ← ih, hsplit]
      cases hp : p c with
      | true => simp
      | false =>
          obtain ⟨segment, segments, hfirst⟩ :=
            List.exists_cons_of_ne_nil (List.splitOnP_ne_nil q first)
          simp only [Bool.false_eq_true, if_false, List.modifyHead_cons, List.flatMap_cons,
            Bool.false_or, List.splitOnP_cons_eq_if_modifyHead, hfirst]
          cases q c <;> rfl

/-- Cutting at every character that ends lines cuts between a carriage return and its line feed too,
and so leaves pieces without tokens. The first piece, to which more characters may come, is the
first physical line. -/
theorem splitOnP_endsLine (text : List Char) :
    ∃ first pieces more, text.splitOnP endsLine = first :: pieces ∧
      physicalLines text = first :: more ∧
      (pieces.map runTokens).filter (fun tokens => !tokens.isEmpty) =
        (more.map runTokens).filter (fun tokens => !tokens.isEmpty) := by
  fun_induction physicalLines text with
  | case1 => exact ⟨[], [], [], rfl, rfl, rfl⟩
  | case2 rest ih =>
      obtain ⟨first, pieces, more, hpieces, hlines, heq⟩ := ih
      refine ⟨[], [] :: first :: pieces, first :: more, ?_, by rw [hlines], ?_⟩
      · rw [List.splitOnP_cons_eq_if_modifyHead, List.splitOnP_cons_eq_if_modifyHead, hpieces]
        rfl
      · simp [List.filter_cons, heq]
  | case3 c rest hcrlf hends ih =>
      obtain ⟨first, pieces, more, hpieces, hlines, heq⟩ := ih
      refine ⟨[], first :: pieces, first :: more, ?_, by rw [hlines], ?_⟩
      · rw [List.splitOnP_cons_eq_if_modifyHead, if_pos hends, hpieces]
      · simp [List.filter_cons, heq]
  | case4 c rest hcrlf hends ih =>
      obtain ⟨first, pieces, more, hpieces, hlines, heq⟩ := ih
      refine ⟨c :: first, pieces, more, ?_, by rw [hlines]; rfl, heq⟩
      rw [List.splitOnP_cons_eq_if_modifyHead, if_neg hends, hpieces]
      rfl

/-- The tokens of a text are those of the pieces between all characters that end lines. -/
theorem runTokenLines_eq (text : List Char) :
    runTokenLines text =
      ((text.splitOnP endsLine).map runTokens).filter fun tokens => !tokens.isEmpty := by
  obtain ⟨first, found, more, hfound, hlines, heq⟩ := splitOnP_endsLine text
  rw [runTokenLines, hlines, hfound, List.map_cons, List.map_cons, List.filter_cons,
    List.filter_cons, heq]

/-- The lines of a specification have the tokens of its physical lines. -/
theorem map_tokens_lines (text : String) : (lines text).map Line.tokens = tokenLines text := by
  -- `lines` cuts at line feeds first and then at carriage returns, numbering rows on the way.
  have hrows (rows : List (List Char)) (number : Nat) :
      ((rows.zipIdx number).flatMap fun row => linesOfRow row.2 row.1).map Line.tokens =
        (((rows.flatMap (·.splitOnP (· == '\r'))).map runTokens).filter fun tokens =>
          !tokens.isEmpty).map (·.map String.ofList) := by
    induction rows generalizing number with
    | nil => rfl
    | cons row rows ih =>
        simp only [List.zipIdx_cons, List.flatMap_cons, List.map_append, ih, List.filter_append,
          map_tokens_linesOfRow]
  have hcut := flatMap_splitOnP (· == '\n') (· == '\r') text.toList
  have hrow : lines text = ((pieces (· == '\n') text.toList).zipIdx 1).flatMap fun row =>
      linesOfRow row.2 row.1 := rfl
  rw [hrow, hrows, pieces_eq_splitOnP, hcut, tokenLines, runTokenLines_eq]
  rfl

end TapeMachine.Specification
