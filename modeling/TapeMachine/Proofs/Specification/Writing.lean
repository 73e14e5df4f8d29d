import TapeMachine.Proofs.Specification.Tokens

/-!
# Ways to write token lines

`Writes lines text` says that a text is one of the many ways to write token lines: any of the three
line ends stands between rows, any number of blanks between the tokens of a row and around them, and
rows without tokens and comments may stand anywhere. Whichever way is taken, the text has the token
lines that were written (`tokenLines_of_writes`).
-/

namespace TapeMachine.Specification

/-! ## The description -/

/-- The strings that can be written as one token. -/
structure IsToken (token : String) : Prop where
  ne_nil : token.toList ≠ []
  notBlank : ∀ c ∈ token.toList, isBlank c = false
  notLineEnd : ∀ c ∈ token.toList, endsLine c = false
  /-- A number sign at the beginning would make it a comment. -/
  notComment : token.toList.head? ≠ some '#'

theorem isToken_iff (token : String) :
    IsToken token ↔ token.toList ≠ [] ∧ token.toList.head? ≠ some '#' ∧
      (token.toList.all fun c => !isBlank c && !endsLine c) = true := by
  simp only [List.all_eq_true, Bool.and_eq_true, Bool.not_eq_true']
  constructor
  · exact fun h => ⟨h.ne_nil, h.notComment, fun c hc => ⟨h.notBlank c hc, h.notLineEnd c hc⟩⟩
  · rintro ⟨hne, hcomment, hchars⟩
    exact ⟨hne, fun c hc => (hchars c hc).1, fun c hc => (hchars c hc).2, hcomment⟩

instance (token : String) : Decidable (IsToken token) :=
  decidable_of_iff _ (isToken_iff token).symm

/-- A gap consists of blanks. -/
def IsGap (gap : List Char) : Prop := ∀ c ∈ gap, isBlank c = true

/-- The three line ends. -/
def lineEnds : List (List Char) := [['\r', '\n'], ['\n'], ['\r']]

/-- What stands in a row from its first token on. There is a gap behind each token but the last, and
one behind the last if a comment follows. -/
inductive WritesTokens : List String → List Char → Prop where
  | nothing : WritesTokens [] []
  | comment (text : List Char) (h : ∀ c ∈ text, endsLine c = false) :
      WritesTokens [] ('#' :: text)
  | last (token : String) : WritesTokens [token] token.toList
  | token (token : String) (gap : List Char) (hgap : IsGap gap) (hne : gap ≠ [])
      {tokens : List String} {rest : List Char} (h : WritesTokens tokens rest) :
      WritesTokens (token :: tokens) (token.toList ++ (gap ++ rest))

/-- A row may begin with a gap. -/
def WritesRow (tokens : List String) (row : List Char) : Prop :=
  ∃ gap rest, IsGap gap ∧ WritesTokens tokens rest ∧ row = gap ++ rest

/-- Rows with line ends between them. -/
inductive WritesRows : List (List String) → List Char → Prop where
  | last {tokens : List String} {row : List Char} (h : WritesRow tokens row) :
      WritesRows [tokens] row
  | row {tokens : List String} {row : List Char} (h : WritesRow tokens row)
      {lineEnd : List Char} (hend : lineEnd ∈ lineEnds) {rows : List (List String)}
      {rest : List Char} (hrest : WritesRows rows rest) :
      WritesRows (tokens :: rows) (row ++ (lineEnd ++ rest))

/-- The text has a row for each of the lines, and any other rows have no tokens. -/
def Writes (lines : List (List String)) (text : String) : Prop :=
  ∃ rows, WritesRows rows text.toList ∧ rows.filter (fun tokens => !tokens.isEmpty) = lines

/-! ## Every list of lines can be written -/

theorem exists_writesTokens (tokens : List String) : ∃ rest, WritesTokens tokens rest := by
  induction tokens with
  | nil => exact ⟨[], .nothing⟩
  | cons token tokens ih =>
      obtain ⟨rest, hrest⟩ := ih
      have hgap : IsGap [' '] := List.forall_mem_singleton.2 rfl
      exact ⟨_, .token token [' '] hgap (List.cons_ne_nil _ _) hrest⟩

theorem exists_writesRows (rows : List (List String)) :
    ∃ text, WritesRows (rows ++ [[]]) text := by
  have hrow (tokens : List String) : ∃ row, WritesRow tokens row := by
    obtain ⟨rest, hrest⟩ := exists_writesTokens tokens
    exact ⟨rest, [], rest, List.forall_mem_nil _, hrest, rfl⟩
  induction rows with
  | nil =>
      obtain ⟨row, hrow⟩ := hrow []
      exact ⟨row, .last hrow⟩
  | cons tokens rows ih =>
      obtain ⟨rest, hrest⟩ := ih
      obtain ⟨row, hrow⟩ := hrow tokens
      have hend : ['\n'] ∈ lineEnds := by simp [lineEnds]
      exact ⟨_, .row hrow hend hrest⟩

/-- Lines that all have tokens can be written. -/
theorem exists_writes {lines : List (List String)} (h : ∀ line ∈ lines, line ≠ []) :
    ∃ text, Writes lines text := by
  obtain ⟨text, htext⟩ := exists_writesRows lines
  refine ⟨String.ofList text, _, by rwa [String.toList_ofList], ?_⟩
  have hkept : lines.filter (fun tokens => !tokens.isEmpty) = lines :=
    List.filter_eq_self.2 fun line hline => by simpa using h line hline
  rw [List.filter_append, hkept]
  exact List.append_nil lines

/-! ## What is written is read -/

theorem runTokens_gap_append {gap : List Char} (h : IsGap gap) (rest : List Char) :
    runTokens (gap ++ rest) = runTokens rest := by
  induction gap with
  | nil => rfl
  | cons c gap ih =>
      obtain ⟨hc, hgap⟩ := List.forall_mem_cons.1 h
      rw [List.cons_append, runTokens_cons_of_isBlank hc, ih hgap]

theorem head?_gap_append {gap : List Char} (h : IsGap gap) (hne : gap ≠ []) (rest : List Char) :
    ∀ c, (gap ++ rest).head? = some c → isBlank c = true := by
  obtain ⟨first, more, rfl⟩ := List.exists_cons_of_ne_nil hne
  rintro c ⟨⟩
  exact h _ List.mem_cons_self

/-- No blank ends a line. -/
theorem IsGap.notLineEnd {gap : List Char} (h : IsGap gap) : ∀ c ∈ gap, endsLine c = false := by
  intro c hc
  have hblank := h c hc
  simp only [isBlank, Bool.or_eq_true, beq_iff_eq] at hblank
  rcases hblank with rfl | rfl <;> rfl

/-- The tokens of a row are those that it was written for, and it has no line end in it. -/
theorem runTokens_of_writesTokens {tokens : List String} {rest : List Char}
    (h : WritesTokens tokens rest) (htokens : ∀ token ∈ tokens, IsToken token) :
    runTokens rest = tokens.map String.toList ∧ ∀ c ∈ rest, endsLine c = false := by
  induction h with
  | nothing => exact ⟨rfl, List.forall_mem_nil _⟩
  | comment text h => exact ⟨runTokens_cons_numberSign text, List.forall_mem_cons.2 ⟨rfl, h⟩⟩
  | last token =>
      have htoken := List.forall_mem_singleton.1 htokens
      have hrun : runTokens (token.toList ++ []) = [token.toList] :=
        runTokens_append htoken.ne_nil htoken.notBlank htoken.notComment nofun
      rw [List.append_nil] at hrun
      exact ⟨hrun, htoken.notLineEnd⟩
  | token token gap hgap hne _ ih =>
      obtain ⟨htoken, htokens⟩ := List.forall_mem_cons.1 htokens
      obtain ⟨hrest, hends⟩ := ih htokens
      constructor
      · rw [runTokens_append htoken.ne_nil htoken.notBlank htoken.notComment
          (head?_gap_append hgap hne _), runTokens_gap_append hgap, hrest]
        rfl
      · exact List.forall_mem_append.2
          ⟨htoken.notLineEnd, List.forall_mem_append.2 ⟨hgap.notLineEnd, hends⟩⟩

theorem runTokens_of_writesRow {tokens : List String} {row : List Char}
    (h : WritesRow tokens row) (htokens : ∀ token ∈ tokens, IsToken token) :
    runTokens row = tokens.map String.toList ∧ ∀ c ∈ row, endsLine c = false := by
  obtain ⟨gap, rest, hgap, hrest, rfl⟩ := h
  obtain ⟨hruns, hends⟩ := runTokens_of_writesTokens hrest htokens
  exact ⟨(runTokens_gap_append hgap rest).trans hruns,
    List.forall_mem_append.2 ⟨hgap.notLineEnd, hends⟩⟩

/-- A line end adds no tokens, even if a carriage return makes one with a line feed behind it. -/
theorem runTokenLines_lineEnd_append {lineEnd : List Char} (h : lineEnd ∈ lineEnds)
    (rest : List Char) :
    runTokenLines (lineEnd ++ rest) = runTokenLines rest ∧
      ∀ c, (lineEnd ++ rest).head? = some c → endsLine c = true := by
  simp only [lineEnds, List.mem_cons, List.not_mem_nil, or_false] at h
  rcases h with rfl | rfl | rfl
  · refine ⟨runTokenLines_of_afterLineEnd? rfl, ?_⟩
    rintro _ ⟨⟩
    rfl
  · refine ⟨runTokenLines_of_afterLineEnd? rfl, ?_⟩
    rintro _ ⟨⟩
    rfl
  · constructor
    · obtain ⟨behind, hbehind⟩ := afterLineEnd?_of_endsLine (c := '\r') rfl rest
      rw [List.singleton_append, runTokenLines_of_afterLineEnd? hbehind]
      unfold afterLineEnd? at hbehind
      split at hbehind
      · next heq => cases heq
      · next heq =>
          obtain ⟨_, rfl⟩ := List.cons.inj heq
          obtain rfl := Option.some.inj hbehind
          exact (runTokenLines_of_afterLineEnd? rfl).symm
      · next heq =>
          obtain ⟨rfl, rfl⟩ := List.cons.inj heq
          obtain rfl := Option.some.inj hbehind
          rfl
    · rintro _ ⟨⟩
      rfl

/-- A text of rows has the tokens of those rows that have any. -/
theorem runTokenLines_of_writesRows {rows : List (List String)} {text : List Char}
    (h : WritesRows rows text) (htokens : ∀ row ∈ rows, ∀ token ∈ row, IsToken token) :
    runTokenLines text =
      (rows.map (·.map String.toList)).filter fun tokens => !tokens.isEmpty := by
  induction h with
  | @last tokens row hrow =>
      obtain ⟨hruns, hends⟩ := runTokens_of_writesRow hrow (List.forall_mem_singleton.1 htokens)
      have hlines : runTokenLines (row ++ []) = _ := runTokenLines_append hends nofun
      rw [List.append_nil, hruns] at hlines
      exact hlines.trans (List.append_nil _)
  | row hrow hend _ ih =>
      obtain ⟨hfirst, hothers⟩ := List.forall_mem_cons.1 htokens
      obtain ⟨hruns, hends⟩ := runTokens_of_writesRow hrow hfirst
      obtain ⟨hskip, hhead⟩ := runTokenLines_lineEnd_append hend _
      rw [runTokenLines_append hends hhead, hskip, ih hothers, hruns]
      exact (List.filter_append [_] _).symm

/-- Lines of tokens are read back, whichever way they are written. -/
theorem tokenLines_of_writes {lines : List (List String)} {text : String}
    (htokens : ∀ line ∈ lines, ∀ token ∈ line, IsToken token) (h : Writes lines text) :
    tokenLines text = lines := by
  obtain ⟨rows, hrows, rfl⟩ := h
  have hall : ∀ row ∈ rows, ∀ token ∈ row, IsToken token := by
    intro row hrow token htoken
    refine htokens row (List.mem_filter.2 ⟨hrow, ?_⟩) token htoken
    simpa using List.ne_nil_of_mem htoken
  have hback (row : List String) : (row.map String.toList).map String.ofList = row := by
    simp [List.map_map, Function.comp_def]
  rw [tokenLines, runTokenLines_of_writesRows hrows hall, List.filter_map, List.map_map]
  simp only [Function.comp_def, hback, List.map_id', List.isEmpty_map]

end TapeMachine.Specification
