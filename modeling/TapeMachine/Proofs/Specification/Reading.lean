import TapeMachine.Proofs.Specification.Grammar
import TapeMachine.Proofs.Specification.Tokens

/-!
# Reading a text by the grammar

Every text is read to its end by the grammar of specifications, and the lines and tokens read are
those that `tokenLines` describes (`exists_parses_program`).
-/

namespace TapeMachine.Specification.Grammar

/-! ## Classes of characters -/

/-- The expression succeeds exactly where a character of the class comes next. -/
structure Detects (mode : Mode) (e : Expr) (isMember : Char → Bool) : Prop where
  take : ∀ (offset : Nat) (c : Char) (rest : List Char), isMember c = true →
    ∃ result, Parses mode e ⟨offset, c :: rest⟩ (some result)
  fail : ∀ (offset : Nat) (rest : List Char), (∀ c, rest.head? = some c → isMember c = false) →
    Parses mode e ⟨offset, rest⟩ none

/-- The expression takes one character of the class, and fails on anything else. -/
structure TakesOne (mode : Mode) (e : Expr) (isMember : Char → Bool) : Prop where
  take : ∀ (offset : Nat) (c : Char) (rest : List Char), isMember c = true →
    Parses mode e ⟨offset, c :: rest⟩ (some ([], ⟨offset + 1, rest⟩))
  fail : ∀ (offset : Nat) (rest : List Char), (∀ c, rest.head? = some c → isMember c = false) →
    Parses mode e ⟨offset, rest⟩ none

variable {mode : Mode} {e f : Expr} {isMember isOther : Char → Bool} {offset : Nat}

theorem TakesOne.detects (h : TakesOne mode e isMember) : Detects mode e isMember where
  take offset c rest hc := ⟨_, h.take offset c rest hc⟩
  fail := h.fail

theorem takesOne_literal (mode : Mode) (text : String) (c : Char) (h : text.toList = [c]) :
    TakesOne mode (.literal text) (· == c) where
  take offset c' rest hc := by
    obtain rfl := beq_iff_eq.1 hc
    have hlen : text.length = 1 := by rw [← String.length_toList, h]; rfl
    rw [← hlen]
    exact .literal (by rw [h]; rfl)
  fail offset rest hrest := by
    refine .literal_fail fun hprefix => ?_
    obtain ⟨behind, rfl⟩ := hprefix
    have hhead := hrest c (by rw [h]; rfl)
    simp at hhead

theorem Detects.choice (he : Detects mode e isMember) (hf : Detects mode f isOther) :
    Detects mode (.choice e f) fun c => isMember c || isOther c where
  take offset c rest hc := by
    cases hmember : isMember c with
    | true =>
        obtain ⟨result, hresult⟩ := he.take offset c rest hmember
        exact ⟨result, .choice_first hresult⟩
    | false =>
        obtain ⟨result, hresult⟩ := hf.take offset c rest (by simpa [hmember] using hc)
        refine ⟨result, .choice_second (he.fail offset _ fun c' hc' => ?_) hresult⟩
        rw [← Option.some.inj hc', hmember]
  fail offset rest hrest := by
    simp only [Bool.or_eq_false_iff] at hrest
    exact .choice_second (he.fail offset rest fun c hc => (hrest c hc).1)
      (hf.fail offset rest fun c hc => (hrest c hc).2)

/-- One character of either class. -/
theorem TakesOne.choice (he : TakesOne mode e isMember) (hf : TakesOne mode f isOther) :
    TakesOne mode (.choice e f) fun c => isMember c || isOther c where
  take offset c rest hc := by
    cases hmember : isMember c with
    | true => exact .choice_first (he.take offset c rest hmember)
    | false =>
        have hother := hf.take offset c rest (by simpa [hmember] using hc)
        refine .choice_second (he.fail offset _ fun c' hc' => ?_) hother
        rw [← Option.some.inj hc', hmember]
  fail := (he.detects.choice hf.detects).fail

/-- Any character at which an expression fails. -/
theorem Detects.not_andThen_any (h : Detects .atomic e isMember) :
    TakesOne .atomic (.andThen (.not e) .any) fun c => !isMember c where
  take offset c rest hc := by
    have hfail := h.fail offset (c :: rest) fun c' hc' => by
      rw [← Option.some.inj hc']
      simpa using hc
    exact .seq (.not hfail) (.seq .gap_atomic .any)
  fail offset rest hrest := by
    cases rest with
    | nil =>
        refine .seq_fail_second (.not (h.fail offset [] ?_))
          (.seq_fail_second .gap_atomic .any_fail)
        intro c hc
        cases hc
    | cons c rest =>
        obtain ⟨result, hresult⟩ := h.take offset c rest (by simpa using hrest c rfl)
        exact .seq_fail_first (.not_fail hresult)

theorem add_length_cons (offset : Nat) (c : Char) (run : List Char) :
    offset + (c :: run).length = offset + 1 + run.length := by
  rw [List.length_cons, Nat.add_comm run.length, Nat.add_assoc]

/-- A repetition takes characters of the class up to the first other one. -/
theorem TakesOne.star (h : TakesOne mode e isMember) (offset : Nat) {run rest : List Char}
    (hrun : ∀ c ∈ run, isMember c = true)
    (hrest : ∀ c, rest.head? = some c → isMember c = false) :
    Parses mode (.star e) ⟨offset, run ++ rest⟩ (some ([], ⟨offset + run.length, rest⟩)) := by
  induction run generalizing offset with
  | nil => exact .star_stop (h.fail offset rest hrest)
  | cons c run ih =>
      obtain ⟨hc, hrun⟩ := List.forall_mem_cons.1 hrun
      have hone := h.take offset c (run ++ rest) hc
      have hmore := ih (offset + 1) hrun
      rw [add_length_cons]
      exact .star_step hone hmore

/-- Where nothing is skipped, a gap makes no difference. -/
theorem TakesOne.gap_seq (h : TakesOne .atomic e isMember) :
    TakesOne .atomic (.seq .gap e) isMember where
  take offset c rest hc := .seq .gap_atomic (h.take offset c rest hc)
  fail offset rest hrest := .seq_fail_second .gap_atomic (h.fail offset rest hrest)

theorem TakesOne.many (h : TakesOne .atomic e isMember) (offset : Nat) {run rest : List Char}
    (hrun : ∀ c ∈ run, isMember c = true)
    (hrest : ∀ c, rest.head? = some c → isMember c = false) :
    Parses .atomic e.many ⟨offset, run ++ rest⟩ (some ([], ⟨offset + run.length, rest⟩)) := by
  cases run with
  | nil =>
      exact .choice_second (.seq_fail_first (h.fail offset rest hrest)) (.literal (by rfl))
  | cons c run =>
      obtain ⟨hc, hrun⟩ := List.forall_mem_cons.1 hrun
      have hone := h.take offset c (run ++ rest) hc
      have hmore := h.gap_seq.star (offset + 1) hrun hrest
      rw [add_length_cons]
      exact .choice_first (.seq hone hmore)

theorem TakesOne.many1 (h : TakesOne .atomic e isMember) (offset : Nat) {run rest : List Char}
    (hne : run ≠ []) (hrun : ∀ c ∈ run, isMember c = true)
    (hrest : ∀ c, rest.head? = some c → isMember c = false) :
    Parses .atomic e.many1 ⟨offset, run ++ rest⟩ (some ([], ⟨offset + run.length, rest⟩)) := by
  cases run with
  | nil => exact absurd rfl hne
  | cons c run =>
      obtain ⟨hc, hrun⟩ := List.forall_mem_cons.1 hrun
      have hone := h.take offset c (run ++ rest) hc
      have hmore := h.many (offset + 1) hrun hrest
      rw [add_length_cons]
      exact .seq hone (.seq .gap_atomic hmore)

/-! ## White space, line ends and comments -/

/-- A silent rule takes what its body takes. -/
theorem Parses.silent {name : Rule} {p q : Place} {inner : List Pair}
    (hsilent : (definition name).silent = true)
    (h : Parses (name.mode mode) (definition name).body p (some (inner, q))) :
    Parses mode (.rule name) p (some (inner, q)) := by
  have hnodes : name.nodes mode p inner q = inner := if_pos (.inl hsilent)
  have hrule := Parses.rule name h
  rwa [hnodes] at hrule

/-- A silent rule takes the characters that its body takes. -/
theorem TakesOne.silent {name : Rule} (hsilent : (definition name).silent = true)
    (h : TakesOne (name.mode mode) (definition name).body isMember) :
    TakesOne mode (.rule name) isMember where
  take offset c rest hc := Parses.silent hsilent (h.take offset c rest hc)
  fail offset rest hrest := .rule_fail (h.fail offset rest hrest)

theorem takesOne_whitespace : TakesOne mode (.rule .whitespace) isBlank :=
  .silent rfl ((takesOne_literal _ " " ' ' rfl).choice (takesOne_literal _ "\t" '\t' rfl))

/-- The line ends of one character. -/
theorem takesOne_feed_or_return :
    TakesOne mode (.choice (.literal "\n") (.literal "\r")) endsLine :=
  (takesOne_literal mode "\n" '\n' rfl).choice (takesOne_literal mode "\r" '\r' rfl)

/-- The rule of line ends takes the line end that comes next. -/
theorem parses_lineEnd (mode : Mode) (offset : Nat) {text rest : List Char}
    (h : afterLineEnd? text = some rest) :
    ∃ offset', Parses mode (.rule .lineEnd) ⟨offset, text⟩ (some ([], ⟨offset', rest⟩)) := by
  unfold afterLineEnd? at h
  split at h
  · cases h
  · obtain rfl := Option.some.inj h
    exact ⟨_, .silent rfl (.choice_first (.literal rfl))⟩
  · next c rest' hcrlf =>
      split at h
      · next hends =>
          obtain rfl := Option.some.inj h
          -- The first alternative is a carriage return with its line feed, which this is not.
          have hfail :
              Parses (Rule.lineEnd.mode mode) (.literal "\r\n") ⟨offset, c :: rest'⟩ none :=
            .literal_fail fun hprefix => by
              obtain ⟨behind, hbehind⟩ := hprefix
              obtain ⟨rfl, rfl⟩ := List.cons.inj hbehind
              exact hcrlf behind rfl rfl
          have hone : TakesOne (Rule.lineEnd.mode mode) _ endsLine := takesOne_feed_or_return
          exact ⟨offset + 1, .silent rfl (.choice_second hfail (hone.take offset c rest' hends))⟩
      · cases h

theorem detects_lineEnd : Detects mode (.rule .lineEnd) endsLine where
  take offset c rest hc := by
    obtain ⟨rest', hafter⟩ := afterLineEnd?_of_endsLine hc rest
    obtain ⟨offset', hparses⟩ := parses_lineEnd mode offset hafter
    exact ⟨_, hparses⟩
  fail offset rest hrest := by
    refine .rule_fail (.choice_second (.literal_fail fun hprefix => ?_)
      (takesOne_feed_or_return.fail offset rest hrest))
    obtain ⟨behind, rfl⟩ := hprefix
    cases hrest '\r' rfl

theorem parses_comment (mode : Mode) (offset : Nat) {run rest : List Char}
    (hrun : ∀ c ∈ run, endsLine c = false)
    (hrest : ∀ c, rest.head? = some c → endsLine c = true) :
    ∃ offset', Parses mode (.rule .comment) ⟨offset, '#' :: (run ++ rest)⟩
      (some ([], ⟨offset', rest⟩)) := by
  have hin : ∀ c ∈ run, (!endsLine c) = true := fun c hc => by simp [hrun c hc]
  have hbehind : ∀ c, rest.head? = some c → (!endsLine c) = false := fun c hc => by
    simp [hrest c hc]
  have hbody := detects_lineEnd.not_andThen_any.many (offset + 1) hin hbehind
  have hsign := takesOne_literal .atomic "#" '#' rfl
  have hopen := hsign.take offset '#' (run ++ rest) rfl
  exact ⟨_, .silent rfl (.seq hopen (.seq .gap_atomic hbody))⟩

theorem parses_comment_fail {rest : List Char} (h : rest.head? ≠ some '#') :
    Parses mode (.rule .comment) ⟨offset, rest⟩ none := by
  refine .rule_fail (.seq_fail_first ((takesOne_literal .atomic "#" '#' rfl).fail offset rest ?_))
  rintro c hc
  refine beq_eq_false_iff_ne.2 ?_
  rintro rfl
  exact h hc

/-! ## Gaps -/

/-- The text in front of a line end or the end of the text, and the text from there on. -/
structure IsLine (line behind : List Char) : Prop where
  line : ∀ c ∈ line, endsLine c = false
  behind : ∀ c, behind.head? = some c → endsLine c = true

/-- The first character that is not dropped is none of those to drop. -/
theorem eq_false_of_head?_dropWhile {p : Char → Bool} {text : List Char} {c : Char}
    (h : (text.dropWhile p).head? = some c) : p c = false := by
  have hnot := List.head?_dropWhile_not p text
  rw [h] at hnot
  simpa using hnot

/-- Every text begins with a line. -/
theorem exists_isLine (text : List Char) :
    ∃ line behind, text = line ++ behind ∧ IsLine line behind := by
  refine ⟨_, _, (List.takeWhile_append_dropWhile (p := fun c => !endsLine c)).symm, ?_, ?_⟩
  · intro c hc
    have hall := List.all_eq_true.1 List.all_takeWhile c hc
    simpa using hall
  · intro c hc
    simpa using eq_false_of_head?_dropWhile hc

/-- What is left of a line behind the gap that it begins with. -/
def afterGap (line : List Char) : List Char :=
  if (line.dropWhile isBlank).head? = some '#' then [] else line.dropWhile isBlank

/-- A token, or nothing, comes next. -/
def BeginsToken (text : List Char) : Prop :=
  ∀ c, text.head? = some c → isBlank c = false ∧ endsLine c = false ∧ c ≠ '#'

/-- A property of the next character, whichever of two texts it is in. -/
theorem head?_append_of {P : Char → Prop} {front back : List Char}
    (hfront : ∀ c, front.head? = some c → P c) (hback : ∀ c, back.head? = some c → P c) :
    ∀ c, (front ++ back).head? = some c → P c := by
  cases front with
  | nil => exact hback
  | cons d front => exact hfront

theorem isBlank_of_endsLine {c : Char} (h : endsLine c = true) : isBlank c = false ∧ c ≠ '#' := by
  simp only [endsLine, Bool.or_eq_true, beq_iff_eq] at h
  rcases h with rfl | rfl <;> decide

theorem dropWhile_isBlank_append {line behind : List Char} (h : IsLine line behind) :
    ∀ c, (line.dropWhile isBlank ++ behind).head? = some c → isBlank c = false :=
  head?_append_of (fun _ => eq_false_of_head?_dropWhile)
    fun c hc => (isBlank_of_endsLine (h.behind c hc)).1

theorem IsLine.afterGap {line behind : List Char} (h : IsLine line behind) :
    IsLine (afterGap line) behind where
  line c hc := by
    unfold Grammar.afterGap at hc
    split at hc
    · cases hc
    · exact h.line c ((List.dropWhile_sublist isBlank).subset hc)
  behind := h.behind

theorem length_afterGap_le (line : List Char) : (afterGap line).length ≤ line.length := by
  unfold afterGap
  split
  · exact Nat.zero_le _
  · exact (List.dropWhile_sublist isBlank).length_le

/-- Behind a gap there is a token, if the line has one. -/
theorem beginsToken_afterGap {line behind : List Char} (h : IsLine line behind) :
    BeginsToken (afterGap line) := by
  intro c hc
  have hends := h.afterGap.line c (List.mem_of_head? hc)
  unfold afterGap at hc
  split at hc
  · cases hc
  · next hsign =>
      refine ⟨eq_false_of_head?_dropWhile hc, hends, ?_⟩
      rintro rfl
      exact hsign hc

/-- A gap has no tokens. -/
theorem runTokens_afterGap (line : List Char) : runTokens (afterGap line) = runTokens line := by
  have hblanks : runTokens (line.dropWhile isBlank) = runTokens line := by
    induction line with
    | nil => rfl
    | cons c line ih =>
        cases hc : isBlank c with
        | true => rw [List.dropWhile_cons_of_pos hc, ih, runTokens_cons_of_isBlank hc]
        | false => rw [List.dropWhile_cons_of_neg (by simp [hc])]
  unfold afterGap
  split
  · next hsign =>
      obtain ⟨rest, hrest⟩ := List.head?_eq_some_iff.1 hsign
      rw [← hblanks, hrest, runTokens_cons_numberSign, runTokens_nil]
  · exact hblanks

theorem runTokenLines_afterGap {line behind : List Char} (h : IsLine line behind) :
    runTokenLines (afterGap line ++ behind) = runTokenLines (line ++ behind) := by
  rw [runTokenLines_append h.line h.behind, runTokenLines_append h.afterGap.line h.behind,
    runTokens_afterGap]

/-- A gap skips blanks and a comment. -/
theorem parses_gap {line behind : List Char} (h : IsLine line behind) (offset : Nat) :
    ∃ offset', Parses .skipping .gap ⟨offset, line ++ behind⟩
      (some ([], ⟨offset', afterGap line ++ behind⟩)) := by
  have hall : ∀ c ∈ line.takeWhile isBlank, isBlank c = true :=
    List.all_eq_true.1 List.all_takeWhile
  have hwhite : TakesOne .atomic (.rule .whitespace) isBlank := takesOne_whitespace
  have hblanks := hwhite.star offset hall (dropWhile_isBlank_append h)
  rw [← List.append_assoc, List.takeWhile_append_dropWhile] at hblanks
  unfold afterGap
  split
  · next hsign =>
      obtain ⟨run, hrun⟩ := List.head?_eq_some_iff.1 hsign
      have hmem : ∀ c ∈ run, endsLine c = false := fun c hc =>
        h.line c ((List.dropWhile_sublist isBlank).subset (by rw [hrun]; exact .tail _ hc))
      rw [hrun] at hblanks
      obtain ⟨offset', hcomment⟩ :=
        parses_comment .atomic (offset + (line.takeWhile isBlank).length) hmem h.behind
      -- Behind a comment the line is at its end, so neither blanks nor another comment follow.
      have hrest := hwhite.star offset' (List.forall_mem_nil _) fun c hc =>
        (isBlank_of_endsLine (h.behind c hc)).1
      refine ⟨offset', .gap (.seq hblanks (.star_step (.seq hcomment hrest)
        (.star_stop (.seq_fail_first (parses_comment_fail fun hc => ?_)))))⟩
      exact (isBlank_of_endsLine (h.behind _ hc)).2 rfl
  · next hsign =>
      refine ⟨_, .gap (.seq hblanks
        (.star_stop (.seq_fail_first (parses_comment_fail fun hc => ?_))))⟩
      refine head?_append_of (P := (· ≠ '#')) (fun c hc => ?_)
        (fun c hc => (isBlank_of_endsLine (h.behind c hc)).2) _ hc rfl
      rintro rfl
      exact hsign hc

/-! ## Tokens -/

/-- Tokens are made of the characters that neither separate tokens nor end lines. -/
def inToken (c : Char) : Bool := !(c == ' ' || (c == '\t' || endsLine c))

theorem inToken_eq_true_iff {c : Char} :
    inToken c = true ↔ isBlank c = false ∧ endsLine c = false := by
  simp [inToken, isBlank, and_assoc]

theorem inToken_of_isBlank {c : Char} (h : isBlank c = true) : inToken c = false :=
  Bool.eq_false_iff.2 fun htoken => Bool.eq_false_iff.1 (inToken_eq_true_iff.1 htoken).1 h

theorem inToken_of_endsLine {c : Char} (h : endsLine c = true) : inToken c = false := by
  simp [inToken, h]

theorem takesOne_inToken :
    TakesOne .atomic (.andThen
      (.not (.choice (.literal " ") (.choice (.literal "\t") (.rule .lineEnd)))) .any) inToken :=
  ((takesOne_literal .atomic " " ' ' rfl).detects.choice
    ((takesOne_literal .atomic "\t" '\t' rfl).detects.choice detects_lineEnd)).not_andThen_any

/-- A token goes on up to the first character that cannot be in one. -/
theorem parses_token {run rest : List Char} (hne : run ≠ []) (hrun : ∀ c ∈ run, inToken c = true)
    (hsign : run.head? ≠ some '#') (hrest : ∀ c, rest.head? = some c → inToken c = false) :
    Parses .skipping (.rule .token) ⟨offset, run ++ rest⟩
      (some ([⟨.token, offset, String.ofList run, []⟩], ⟨offset + run.length, rest⟩)) := by
  have hnot : Parses .atomic (.literal "#") ⟨offset, run ++ rest⟩ none := by
    refine (takesOne_literal .atomic "#" '#' rfl).fail offset (run ++ rest) fun c hc => ?_
    obtain ⟨d, run, rfl⟩ := List.exists_cons_of_ne_nil hne
    refine beq_eq_false_iff_ne.2 ?_
    rintro rfl
    exact hsign hc
  have hbody :
      Parses (Rule.token.mode .skipping) (definition .token).body ⟨offset, run ++ rest⟩ _ :=
    .seq (.not hnot) (.seq .gap_atomic (takesOne_inToken.many1 offset hne hrun hrest))
  have htext :
      Place.textTo ⟨offset, run ++ rest⟩ ⟨offset + run.length, rest⟩ = String.ofList run := by
    rw [Place.textTo, Nat.add_sub_cancel_left, List.take_left]
  rw [← htext]
  exact .rule .token hbody

theorem parses_token_fail {rest : List Char} (h : ∀ c, rest.head? = some c → endsLine c = true) :
    Parses .skipping (.rule .token) ⟨offset, rest⟩ none := by
  have hnot := (takesOne_literal .atomic "#" '#' rfl).fail offset rest
    fun c hc => beq_eq_false_iff_ne.2 (isBlank_of_endsLine (h c hc)).2
  have hchar := takesOne_inToken.fail offset rest fun c hc => inToken_of_endsLine (h c hc)
  exact .rule_fail (.seq_fail_second (.not hnot)
    (.seq_fail_second .gap_atomic (.seq_fail_first hchar)))

variable {line behind : List Char}

/-- A line that does not begin with a blank begins with a run. -/
theorem exists_run (hne : line ≠ []) (h : ∀ c, line.head? = some c → isBlank c = false) :
    ∃ run more, line = run ++ more ∧ run ≠ [] ∧ (∀ c ∈ run, isBlank c = false) ∧
      ∀ c, more.head? = some c → isBlank c = true := by
  refine ⟨_, _, (List.takeWhile_append_dropWhile (p := fun c => !isBlank c)).symm, ?_, ?_, ?_⟩
  · obtain ⟨c, rest, rfl⟩ := List.exists_cons_of_ne_nil hne
    rw [List.takeWhile_cons_of_pos (by simpa using h c rfl)]
    exact List.cons_ne_nil _ _
  · intro c hc
    have hall := List.all_eq_true.1 List.all_takeWhile c hc
    simpa using hall
  · intro c hc
    simpa using eq_false_of_head?_dropWhile hc

/-- Where a token comes next, it is the first one of the line. -/
theorem exists_first_token (h : IsLine line behind) (hne : line ≠ []) (hbegins : BeginsToken line) :
    ∃ run more, IsLine more behind ∧ more.length < line.length ∧
      runTokens line = run :: runTokens more ∧
      ∀ offset, Parses .skipping (.rule .token) ⟨offset, line ++ behind⟩
        (some ([⟨.token, offset, String.ofList run, []⟩],
          ⟨offset + run.length, more ++ behind⟩)) := by
  obtain ⟨run, more, rfl, hrunne, hrun, hmore⟩ := exists_run hne fun c hc => (hbegins c hc).1
  have hsign : run.head? ≠ some '#' := by
    intro hc
    have hhead : (run ++ more).head? = some '#' := by rw [List.head?_append, hc]; rfl
    exact (hbegins '#' hhead).2.2 rfl
  have hin : ∀ c ∈ run, inToken c = true := fun c hc =>
    inToken_eq_true_iff.2 ⟨hrun c hc, h.line c (List.mem_append_left more hc)⟩
  have hout : ∀ c, (more ++ behind).head? = some c → inToken c = false := by
    refine head?_append_of (fun c hc => ?_) fun c hc => inToken_of_endsLine (h.behind c hc)
    exact inToken_of_isBlank (hmore c hc)
  refine ⟨run, more, ⟨fun c hc => h.line c (List.mem_append_right run hc), h.behind⟩, ?_,
    runTokens_append hrunne hrun hsign hmore, fun offset => ?_⟩
  · have hpos := List.length_pos_iff.2 hrunne
    rw [List.length_append]
    omega
  · rw [List.append_assoc]
    exact parses_token hrunne hin hsign hout

/-- A repetition of gaps and tokens takes all tokens that are left of the line. What it leaves of
the line has none. -/
theorem parses_gap_tokens (h : IsLine line behind) (offset : Nat) :
    ∃ pairs offset' line',
      Parses .skipping (.star (.seq .gap (.rule .token))) ⟨offset, line ++ behind⟩
        (some (pairs, ⟨offset', line' ++ behind⟩)) ∧
      IsLine line' behind ∧ line'.length ≤ line.length ∧ runTokens line' = [] ∧
      tokenTexts pairs = (runTokens line).map String.ofList := by
  induction hlen : line.length using Nat.strongRecOn generalizing line offset with
  | _ n ih =>
      subst hlen
      obtain ⟨offset₁, hgap⟩ := parses_gap h offset
      have hbegins := beginsToken_afterGap h
      have htokens := runTokens_afterGap line
      have hle := length_afterGap_le line
      have hafter := h.afterGap
      generalize afterGap line = next at hgap hbegins htokens hle hafter
      by_cases hnil : next = []
      · -- The line has no more tokens, and the repetition goes back to before the gap.
        subst hnil
        refine ⟨[], offset, line, .star_stop (.seq_fail_second hgap (parses_token_fail h.behind)),
          h, Nat.le_refl _, htokens.symm, ?_⟩
        rw [← htokens]
        rfl
      · obtain ⟨run, more, hmore, hlt, hruns, htoken⟩ := exists_first_token hafter hnil hbegins
        obtain ⟨pairs, offset', line', hstar, hline', hle', hnone, htexts⟩ :=
          ih more.length (by omega) hmore (offset₁ + run.length) rfl
        refine ⟨_, offset', line', .star_step (.seq hgap (htoken offset₁)) hstar, hline', by omega,
          hnone, ?_⟩
        rw [← htokens, hruns, List.map_cons, ← htexts]
        rfl

/-- A repetition that begins with a token, if there is one at all, does the same. -/
theorem parses_many_token (h : IsLine line behind) (hbegins : BeginsToken line) (offset : Nat) :
    ∃ pairs offset' line',
      Parses .skipping (Expr.many (.rule .token)) ⟨offset, line ++ behind⟩
        (some (pairs, ⟨offset', line' ++ behind⟩)) ∧
      IsLine line' behind ∧ line'.length ≤ line.length ∧ runTokens line' = [] ∧
      tokenTexts pairs = (runTokens line).map String.ofList := by
  by_cases hnil : line = []
  · subst hnil
    exact ⟨[], offset, [], .choice_second (.seq_fail_first (parses_token_fail h.behind))
      (.literal rfl), h, Nat.le_refl _, rfl, rfl⟩
  · obtain ⟨run, more, hmore, hlt, hruns, htoken⟩ := exists_first_token h hnil hbegins
    obtain ⟨pairs, offset', line', hstar, hline', hle', hnone, htexts⟩ :=
      parses_gap_tokens hmore (offset + run.length)
    refine ⟨_, offset', line', .choice_first (.seq (htoken offset) hstar), hline', by omega,
      hnone, ?_⟩
    rw [hruns, List.map_cons, ← htexts]
    rfl

/-- The rule of lines takes all tokens of a line, and there has to be one. -/
theorem parses_line (h : IsLine line behind) (hne : line ≠ []) (hbegins : BeginsToken line)
    (offset : Nat) :
    ∃ pair offset' line',
      Parses .skipping (.rule .line) ⟨offset, line ++ behind⟩
        (some ([pair], ⟨offset', line' ++ behind⟩)) ∧
      IsLine line' behind ∧ line'.length < line.length ∧ runTokens line' = [] ∧
      runTokens line ≠ [] ∧ lineTokens [pair] = [(runTokens line).map String.ofList] := by
  obtain ⟨run, more, hmore, hlt, hruns, htoken⟩ := exists_first_token h hne hbegins
  obtain ⟨offset₁, hgap⟩ := parses_gap hmore (offset + run.length)
  have hle := length_afterGap_le more
  obtain ⟨pairs, offset', line', hmany, hline', hle', hnone, htexts⟩ :=
    parses_many_token hmore.afterGap (beginsToken_afterGap hmore) offset₁
  refine ⟨_, offset', line', .rule .line (.seq (htoken offset) (.seq hgap hmany)), hline',
    by omega, hnone, by simp [hruns], ?_⟩
  rw [hruns, List.map_cons, ← runTokens_afterGap more, ← htexts]
  rfl

/-! ## Lines -/

/-- What a sequence of line ends, blanks and comments leads to: behind the place that the expression
takes the text up to and the gap there, a token or the end of the text comes next, and no tokens are
passed over. -/
def SkipsLines (e : Expr) (p : Place) : Prop :=
  ∃ q r, Parses .skipping e p (some ([], q)) ∧ Parses .skipping .gap q (some ([], r)) ∧
    BeginsToken r.rest ∧ runTokenLines r.rest = runTokenLines p.rest ∧
    r.rest.length ≤ p.rest.length

/-- Behind a gap that is not followed by a line end there is a token or the end of the text. -/
theorem beginsToken_append (h : IsLine line behind) (hbegins : BeginsToken line)
    (hnone : afterLineEnd? (line ++ behind) = none) : BeginsToken (line ++ behind) := by
  cases line with
  | cons c line => exact fun d hd => hbegins d hd
  | nil =>
      cases behind with
      | nil => exact hbegins
      | cons c rest =>
          obtain ⟨rest', hsome⟩ := afterLineEnd?_of_endsLine (h.behind c rfl) rest
          rw [List.nil_append, hsome] at hnone
          cases hnone

theorem afterGap_of_beginsToken (h : BeginsToken line) : afterGap line = line := by
  cases line with
  | nil => rfl
  | cons c line =>
      obtain ⟨hblank, _, hsign⟩ := h c rfl
      rw [afterGap, List.dropWhile_cons_of_neg (by simp [hblank])]
      exact if_neg fun hc => hsign (Option.some.inj hc)

theorem parses_lineEnd_fail {text : List Char} (h : afterLineEnd? text = none) :
    Parses .skipping (.rule .lineEnd) ⟨offset, text⟩ none := by
  refine detects_lineEnd.fail offset text fun c hc => Bool.eq_false_iff.2 fun hends => ?_
  obtain ⟨rest, rfl⟩ := List.head?_eq_some_iff.1 hc
  obtain ⟨rest', hsome⟩ := afterLineEnd?_of_endsLine hends rest
  rw [hsome] at h
  cases h

theorem skipsLines_gap_lineEnds (text : List Char) (offset : Nat) :
    SkipsLines (.star (.seq .gap (.rule .lineEnd))) ⟨offset, text⟩ := by
  induction hlen : text.length using Nat.strongRecOn generalizing text offset with
  | _ n ih =>
      subst hlen
      obtain ⟨line, behind, rfl, h⟩ := exists_isLine text
      obtain ⟨offset₁, hgap⟩ := parses_gap h offset
      have htokens := runTokenLines_afterGap h
      have hle := length_afterGap_le line
      rw [List.length_append] at ih
      cases hafter : afterLineEnd? (afterGap line ++ behind) with
      | none =>
          refine ⟨_, _, .star_stop (.seq_fail_second hgap (parses_lineEnd_fail hafter)), hgap,
            beginsToken_append h.afterGap (beginsToken_afterGap h) hafter, htokens, ?_⟩
          simp only [List.length_append]
          omega
      | some rest =>
          obtain ⟨offset₂, hend⟩ := parses_lineEnd .skipping offset₁ hafter
          have hlt := length_of_afterLineEnd? hafter
          rw [List.length_append] at hlt
          obtain ⟨q, r, hstar, hlast, hbegins, hsame, hshort⟩ :=
            ih rest.length (by omega) rest offset₂ rfl
          refine ⟨q, r, .star_step (.seq hgap hend) hstar, hlast, hbegins, ?_, ?_⟩
          · rw [hsame, ← runTokenLines_of_afterLineEnd? hafter, htokens]
          · simp only [List.length_append] at *
            omega

theorem skipsLines_lineEnds (h : IsLine line behind) (hbegins : BeginsToken line) (offset : Nat) :
    SkipsLines (Expr.many (.rule .lineEnd)) ⟨offset, line ++ behind⟩ := by
  cases hafter : afterLineEnd? (line ++ behind) with
  | none =>
      -- There is no line end here, and the gap behind it is empty too.
      obtain ⟨offset', hgap⟩ := parses_gap h offset
      rw [afterGap_of_beginsToken hbegins] at hgap
      exact ⟨_, _, .choice_second (.seq_fail_first (parses_lineEnd_fail hafter)) (.literal rfl),
        hgap, beginsToken_append h hbegins hafter, rfl, Nat.le_refl _⟩
  | some rest =>
      obtain ⟨offset₁, hend⟩ := parses_lineEnd .skipping offset hafter
      obtain ⟨q, r, hstar, hlast, hnext, hsame, hshort⟩ := skipsLines_gap_lineEnds rest offset₁
      have hlt := length_of_afterLineEnd? hafter
      refine ⟨q, r, .choice_first (.seq hend hstar), hlast, hnext, ?_, ?_⟩
      · rw [hsame, ← runTokenLines_of_afterLineEnd? hafter]
      · exact Nat.le_trans hshort (Nat.le_of_lt hlt)

/-- Line ends follow on a gap, at any place. -/
theorem exists_gap_skipsLines (text : List Char) (offset : Nat) :
    ∃ p, Parses .skipping .gap ⟨offset, text⟩ (some ([], p)) ∧
      SkipsLines (Expr.many (.rule .lineEnd)) p ∧ runTokenLines p.rest = runTokenLines text ∧
      p.rest.length ≤ text.length := by
  obtain ⟨line, behind, rfl, h⟩ := exists_isLine text
  obtain ⟨offset', hgap⟩ := parses_gap h offset
  refine ⟨_, hgap, skipsLines_lineEnds h.afterGap (beginsToken_afterGap h) offset',
    runTokenLines_afterGap h, ?_⟩
  have hle := length_afterGap_le line
  simp only [List.length_append]
  omega

/-- A line with all that separates it from the next one. -/
def separatedLine : Expr := .andThen (.rule .line) (.many (.rule .lineEnd))

theorem parses_separatedLine_fail :
    Parses .skipping separatedLine ⟨offset, []⟩ none :=
  .seq_fail_first (.rule_fail (.seq_fail_first (parses_token_fail fun c hc => by cases hc)))

/-- Where a token comes next, a line is read, with all tokens of the physical line. -/
theorem parses_separatedLine {p : Place} (hne : p.rest ≠ []) (hbegins : BeginsToken p.rest) :
    ∃ pair q r tokens, Parses .skipping separatedLine p (some ([pair], q)) ∧
      Parses .skipping .gap q (some ([], r)) ∧ BeginsToken r.rest ∧
      runTokenLines p.rest = tokens :: runTokenLines r.rest ∧
      lineTokens [pair] = [tokens.map String.ofList] ∧ r.rest.length < p.rest.length := by
  obtain ⟨offset, text⟩ := p
  obtain ⟨line, behind, rfl, h⟩ := exists_isLine text
  have hline : line ≠ [] := by
    rintro rfl
    obtain ⟨c, rest, rfl⟩ := List.exists_cons_of_ne_nil hne
    have hends := h.behind c rfl
    rw [(hbegins c rfl).2.1] at hends
    cases hends
  have hfirst : BeginsToken line := fun c hc => hbegins c (by rw [List.head?_append, hc]; rfl)
  obtain ⟨pair, offset₁, line', hparses, hline', hlt, hnone, hsome, htokens⟩ :=
    parses_line h hline hfirst offset
  obtain ⟨p₁, hgap, ⟨q, r, hends, hlast, hnext, hsame, hshort⟩, hsame₁, hshort₁⟩ :=
    exists_gap_skipsLines (line' ++ behind) offset₁
  refine ⟨pair, q, r, runTokens line, .seq hparses (.seq hgap hends), hlast, hnext, ?_, htokens, ?_⟩
  · rw [hsame, hsame₁, runTokenLines_append h.line h.behind,
      runTokenLines_append hline'.line hline'.behind, hnone]
    simp [hsome]
  · simp only [List.length_append] at *
    omega

theorem lineTokens_append (pairs pairs' : List Pair) :
    lineTokens (pairs ++ pairs') = lineTokens pairs ++ lineTokens pairs' := by
  simp [lineTokens]

/-- A repetition of gaps and lines reads all lines that are left, up to the end of the text. -/
theorem parses_gap_lines {p r : Place} (hgap : Parses .skipping .gap p (some ([], r)))
    (hbegins : BeginsToken r.rest) :
    ∃ pairs q offset, Parses .skipping (.star (.seq .gap separatedLine)) p (some (pairs, q)) ∧
      Parses .skipping .gap q (some ([], ⟨offset, []⟩)) ∧
      lineTokens pairs = (runTokenLines r.rest).map (·.map String.ofList) := by
  induction hlen : r.rest.length using Nat.strongRecOn generalizing p r with
  | _ n ih =>
      subst hlen
      by_cases hnil : r.rest = []
      · obtain ⟨offset, rest⟩ := r
        subst hnil
        exact ⟨[], p, offset, .star_stop (.seq_fail_second hgap parses_separatedLine_fail), hgap,
          rfl⟩
      · obtain ⟨pair, q₁, r₁, tokens, hline, hgap₁, hnext, htokens, hpair, hlt⟩ :=
          parses_separatedLine hnil hbegins
        obtain ⟨pairs, q, offset, hstar, hlast, hmore⟩ := ih r₁.rest.length hlt hgap₁ hnext rfl
        refine ⟨_, q, offset, .star_step (.seq hgap hline) hstar, hlast, ?_⟩
        rw [List.nil_append, lineTokens_append, hpair, hmore, htokens]
        rfl

theorem parses_lines {r : Place} (hbegins : BeginsToken r.rest) :
    ∃ pairs q offset, Parses .skipping separatedLine.many r (some (pairs, q)) ∧
      Parses .skipping .gap q (some ([], ⟨offset, []⟩)) ∧
      lineTokens pairs = (runTokenLines r.rest).map (·.map String.ofList) := by
  by_cases hnil : r.rest = []
  · obtain ⟨offset, rest⟩ := r
    subst hnil
    have hempty : IsLine [] [] := ⟨by simp, by simp⟩
    obtain ⟨offset', hgap⟩ := parses_gap hempty offset
    exact ⟨[], _, offset',
      .choice_second (.seq_fail_first parses_separatedLine_fail) (.literal rfl), hgap, rfl⟩
  · obtain ⟨pair, q₁, r₁, tokens, hline, hgap₁, hnext, htokens, hpair, _⟩ :=
      parses_separatedLine hnil hbegins
    obtain ⟨pairs, q, offset, hstar, hlast, hmore⟩ := parses_gap_lines hgap₁ hnext
    refine ⟨_, q, offset, .choice_first (.seq hline hstar), hlast, ?_⟩
    rw [lineTokens_append, hpair, hmore, htokens]
    rfl

/-! ## Texts -/

/-- The grammar reads every text to its end in exactly one way. The lines and tokens of the tree are
those that the cuts of the text describe, and so are those of the lines of the specification. -/
theorem exists_parses_program (text : String) :
    ∃ tree offset,
      Parses .skipping (.rule .program) (.start text) (some ([tree], ⟨offset, []⟩)) ∧
      (∀ outcome, Parses .skipping (.rule .program) (.start text) outcome →
        outcome = some ([tree], ⟨offset, []⟩)) ∧
      tree.tokenLines = tokenLines text ∧ (lines text).map Line.tokens = tokenLines text := by
  obtain ⟨p, hgap, ⟨q, r, hends, hgap', hbegins, hsame, _⟩, hsame₁, _⟩ :=
    exists_gap_skipsLines text.toList 0
  obtain ⟨pairs, q', offset, hlines, hlast, htokens⟩ := parses_lines hbegins
  have hend : Parses .skipping (.rule .endOfInput) ⟨offset, []⟩ _ := .rule .endOfInput .atEnd
  have hparses : Parses .skipping (.rule .program) (.start text) _ :=
    .rule .program
      (.seq .atStart (.seq hgap (.seq hends (.seq hgap' (.seq hlines (.seq hlast hend))))))
  refine ⟨_, offset, hparses, fun outcome h => h.unique hparses, ?_, map_tokens_lines text⟩
  show lineTokens (pairs ++ _) = tokenLines text
  rw [lineTokens_append, htokens, hsame, hsame₁, tokenLines]
  exact List.append_nil _

end TapeMachine.Specification.Grammar
