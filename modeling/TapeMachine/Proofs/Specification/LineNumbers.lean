import TapeMachine.Proofs.Specification.Faults
import TapeMachine.Proofs.Specification.Reading

/-!
# The numbers of lines

An error that is about a line of a specification names it by the number of its row. By the grammar
a line ends with a line feed, with a carriage return, or with both in this order
(`Grammar.HasLineEnds`), whereas rows end with line feeds only. `program_error_numbers_line` says by
how much the number falls short of the line ends in front: by the carriage returns that have no line
feed right behind them (`loneReturns`). If there are none in front, the number is that of the line,
and otherwise it is too small, as it is for `returnsText`.
-/

namespace TapeMachine

namespace Specification

/-- The carriage returns in a text that have no line feed right behind them. -/
def loneReturns : List Char → Nat
  | [] => 0
  | '\r' :: '\n' :: rest => loneReturns rest
  | c :: rest => if c = '\r' then loneReturns rest + 1 else loneReturns rest

/-! ## Line ends -/

namespace Grammar

/-- An expression moves on by as many characters as it takes from the text. -/
theorem Parses.offset_add_length {mode : Mode} {e : Expr} {p q : Place} {pairs : List Pair}
    (h : Parses mode e p (some (pairs, q))) :
    q.offset + q.rest.length = p.offset + p.rest.length := by
  generalize houtcome : some (pairs, q) = outcome at h
  induction h generalizing pairs q with
  | literal h =>
      cases houtcome
      simp only [h, List.length_append, String.length_toList]
      omega
  | any =>
      cases houtcome
      simp only [List.length_cons]
      omega
  | atStart | atEnd | gap_atomic | star_stop | not =>
      cases houtcome
      rfl
  | rule _ _ ih =>
      cases houtcome
      exact ih rfl
  | gap _ ih => exact ih houtcome
  | choice_first _ ih => exact ih houtcome
  | choice_second _ _ _ ih => exact ih houtcome
  | seq _ _ ihe ihf =>
      cases houtcome
      exact (ihf rfl).trans (ihe rfl)
  | star_step _ _ ihe ihstar =>
      cases houtcome
      exact (ihstar rfl).trans (ihe rfl)
  | literal_fail | any_fail | atStart_fail | atEnd_fail | rule_fail | seq_fail_first
  | seq_fail_second | not_fail => cases houtcome

/-- From a place up to the one with this offset there are as many line ends, by the rule for them:
where it takes something that is one, and where it fails the next character is none. -/
inductive HasLineEnds (stop : Nat) : Place → Nat → Prop where
  | here {rest : List Char} : HasLineEnds stop ⟨stop, rest⟩ 0
  | lineEnd {p q : Place} {pairs : List Pair} {count : Nat} (hp : p.offset < stop)
      (h : Parses .skipping (.rule .lineEnd) p (some (pairs, q)))
      (hq : HasLineEnds stop q count) : HasLineEnds stop p (count + 1)
  | other {offset count : Nat} {c : Char} {rest : List Char} (hp : offset < stop)
      (h : Parses .skipping (.rule .lineEnd) ⟨offset, c :: rest⟩ none)
      (hrest : HasLineEnds stop ⟨offset + 1, rest⟩ count) :
      HasLineEnds stop ⟨offset, c :: rest⟩ count

theorem HasLineEnds.unique {stop : Nat} {p : Place} {count count' : Nat}
    (h : HasLineEnds stop p count) (h' : HasLineEnds stop p count') : count = count' := by
  induction h generalizing count' with
  | here =>
      cases h' with
      | here => rfl
      | lineEnd hlt | other hlt => exact absurd hlt (Nat.lt_irrefl stop)
  | lineEnd hlt h _ ih =>
      cases h' with
      | here => exact absurd hlt (Nat.lt_irrefl stop)
      | lineEnd _ h' hq' =>
          cases h.unique h'
          rw [ih hq']
      | other _ h' => cases h.unique h'
  | other hlt h _ ih =>
      cases h' with
      | here => exact absurd hlt (Nat.lt_irrefl stop)
      | lineEnd _ h' => cases h.unique h'
      | other _ _ hrest' => exact ih hrest'

variable {stop offset count : Nat} {text rest : List Char}

/-- One line end, and those behind it. -/
theorem HasLineEnds.of_afterLineEnd? (taken : List Char)
    (h : afterLineEnd? (taken ++ rest) = some rest) (hstop : offset < stop)
    (hrest : HasLineEnds stop ⟨offset + taken.length, rest⟩ count) :
    HasLineEnds stop ⟨offset, taken ++ rest⟩ (count + 1) := by
  obtain ⟨offset', hparses⟩ := parses_lineEnd .skipping offset h
  have hplace : offset' + rest.length = offset + (taken ++ rest).length :=
    hparses.offset_add_length
  obtain rfl : offset' = offset + taken.length := by
    rw [List.length_append] at hplace
    omega
  exact .lineEnd hstop hparses hrest

theorem HasLineEnds.of_not_endsLine {c : Char} (hc : endsLine c = false) (hstop : offset < stop)
    (hrest : HasLineEnds stop ⟨offset + 1, rest⟩ count) :
    HasLineEnds stop ⟨offset, c :: rest⟩ count := by
  refine .other hstop (detects_lineEnd.fail offset (c :: rest) fun c' hc' => ?_) hrest
  rw [← Option.some.inj hc', hc]

theorem afterLineEnd?_return (h : rest.head? ≠ some '\n') :
    afterLineEnd? ('\r' :: rest) = some rest := by
  unfold afterLineEnd?
  split
  · next heq => cases heq
  · next heq =>
      obtain ⟨_, rfl⟩ := List.cons.inj heq
      exact absurd rfl h
  · next heq =>
      obtain ⟨rfl, rfl⟩ := List.cons.inj heq
      rfl

/-- Every line feed ends a line, and so does every carriage return without one. What comes behind
must not begin with a line feed, which would belong to a carriage return in front of it. -/
theorem hasLineEnds_append (before : List Char) {behind : List Char}
    (hbehind : behind.head? ≠ some '\n') (offset : Nat) :
    HasLineEnds (offset + before.length) ⟨offset, before ++ behind⟩
      (before.count '\n' + loneReturns before) := by
  induction before using loneReturns.induct generalizing offset with
  | case1 => exact .here
  | case2 before ih =>
      have hcount : ('\r' :: '\n' :: before).count '\n' + loneReturns ('\r' :: '\n' :: before) =
          before.count '\n' + loneReturns before + 1 := by
        rw [loneReturns, List.count_cons_of_ne (by decide), List.count_cons_self]
        omega
      rw [hcount, add_length_cons, add_length_cons]
      exact .of_afterLineEnd? ['\r', '\n'] rfl (by omega) (ih (offset + 2))
  | case3 before hcrlf ih =>
      have hcount : ('\r' :: before).count '\n' + loneReturns ('\r' :: before) =
          before.count '\n' + loneReturns before + 1 := by
        rw [loneReturns, if_pos rfl, List.count_cons_of_ne (by decide)]
        · omega
        · exact hcrlf
      have hnext : (before ++ behind).head? ≠ some '\n' := by
        cases before with
        | nil => exact hbehind
        | cons d before =>
            rintro heq
            obtain rfl := Option.some.inj heq
            exact hcrlf before rfl rfl
      rw [hcount, add_length_cons]
      exact .of_afterLineEnd? ['\r'] (afterLineEnd?_return hnext) (by omega)
        (ih (offset + 1))
  | case4 c before hcrlf hc ih =>
      have hlone : loneReturns (c :: before) = loneReturns before := by
        rw [loneReturns, if_neg hc]
        exact hcrlf
      rw [hlone, add_length_cons]
      by_cases hfeed : c = '\n'
      case pos =>
        subst hfeed
        rw [List.count_cons_self, Nat.add_right_comm (before.count '\n')]
        exact .of_afterLineEnd? ['\n'] rfl (by omega) (ih (offset + 1))
      case neg =>
        have hends : endsLine c = false := by simp [endsLine, hfeed, hc]
        rw [List.count_cons_of_ne hfeed]
        exact .of_not_endsLine hends (by omega) (ih (offset + 1))

end Grammar

/-! ## Tokens -/

/-- The pieces of a list have the members of the list that do not separate pieces. -/
theorem mem_of_mem_splitOnP {α : Type} {isSeparator : α → Bool} {l piece : List α} {a : α}
    (h : piece ∈ l.splitOnP isSeparator) (ha : a ∈ piece) : a ∈ l ∧ isSeparator a = false := by
  induction l generalizing piece with
  | nil =>
      obtain rfl := List.mem_singleton.1 h
      cases ha
  | cons b l ih =>
      have hmore {piece : List α} (h : piece ∈ l.splitOnP isSeparator) (ha : a ∈ piece) :
          a ∈ b :: l ∧ isSeparator a = false :=
        (ih h ha).imp_left (List.mem_cons_of_mem b)
      obtain ⟨first, more, hsplit⟩ :=
        List.exists_cons_of_ne_nil (List.splitOnP_ne_nil isSeparator l)
      rw [List.splitOnP_cons_eq_if_modifyHead, hsplit] at h
      rw [hsplit] at hmore
      cases hb : isSeparator b with
      | true =>
          rw [if_pos hb] at h
          rcases List.mem_cons.1 h with rfl | h
          · cases ha
          · exact hmore h ha
      | false =>
          rw [if_neg (Bool.eq_false_iff.1 hb), List.modifyHead_cons] at h
          rcases List.mem_cons.1 h with rfl | h
          · rcases List.mem_cons.1 ha with rfl | ha
            · exact ⟨List.mem_cons_self, hb⟩
            · exact hmore List.mem_cons_self ha
          · exact hmore (List.mem_cons_of_mem first h) ha

/-- No token has a character that ends lines. -/
theorem endsLine_eq_false_of_mem_token {text token : String} {tokens : List String}
    (h : tokens ∈ tokenLines text) (htoken : token ∈ tokens) {c : Char} (hc : c ∈ token.toList) :
    endsLine c = false := by
  obtain ⟨found, hfound, rfl⟩ := List.mem_map.1 h
  obtain ⟨run, hrun, rfl⟩ := List.mem_map.1 htoken
  rw [runTokenLines_eq] at hfound
  obtain ⟨line, hline, rfl⟩ := List.mem_map.1 (List.mem_filter.1 hfound).1
  have hruns : run ∈ runs line := (List.takeWhile_sublist _).subset hrun
  rw [String.toList_ofList] at hc
  have hmem := (mem_of_mem_splitOnP (List.mem_filter.1 hruns).1 hc).1
  exact (mem_of_mem_splitOnP hline hmem).2

/-- Where a line begins there is no line feed. -/
theorem Line.Stands.head?_right {line : Line} {text : String} {index : Nat}
    {above left right : List Char} (h : line.Stands text index above left right)
    (hline : (lines text)[index]? = some line) : right.head? ≠ some '\n' := by
  obtain ⟨token, htoken, behind, rfl⟩ := h.token
  have htokens : line.tokens ∈ tokenLines text := by
    rw [← map_tokens_lines]
    exact List.mem_map_of_mem (List.mem_of_getElem? hline)
  have hmem : token ∈ line.tokens := List.mem_of_head? htoken
  have hne : token.toList ≠ [] := fun hnil =>
    (ne_of_mem_tokenLines htokens).2 (String.toList_eq_nil_iff.1 hnil ▸ hmem)
  obtain ⟨c, rest, hchars⟩ := List.exists_cons_of_ne_nil hne
  have hends := endsLine_eq_false_of_mem_token htokens hmem (hchars ▸ List.mem_cons_self)
  rw [hchars]
  rintro heq
  obtain rfl := Option.some.inj heq
  cases hends

/-- The line ends in front of a line are those of the rows above it and, on its left, the carriage
returns. -/
theorem Line.Stands.hasLineEnds {line : Line} {text : String} {index : Nat}
    {above left right : List Char} (h : line.Stands text index above left right)
    (hline : (lines text)[index]? = some line) :
    Grammar.HasLineEnds (above ++ left).length (.start text)
      (above.count '\n' + loneReturns (above ++ left)) := by
  have hends := Grammar.hasLineEnds_append (above ++ left) (h.head?_right hline) 0
  have hfeeds : (above ++ left).count '\n' = above.count '\n' := by
    rw [List.count_append, List.count_eq_zero.2 h.left_inRow, Nat.add_zero]
  rwa [← h.parts, Nat.zero_add, hfeeds] at hends

end Specification

/-! ## Errors -/

/-- The message of the error names the line with this number by this phrase. -/
inductive MachineError.NamesLine (number : Nat) : MachineError → String → Prop where
  | place {fault : Specification.Fault} (h : fault.line.row = number) :
      NamesLine number (.parse fault) s!"--> {number}:{fault.line.column}"
  | tokenCount {line : Specification.Line} (h : line.row = number) :
      NamesLine number (.parse ⟨line, .tokenCount⟩) s!"Line {number} must have exactly 5 tokens"
  | blank {symbol : Symbol} :
      NamesLine number (.validation (.undeclaredBlank symbol number))
        s!"Blank symbol '{symbol}' on line {number}"

theorem prefix_toList (front back : String) : front.toList <+: (front ++ back).toList := by
  rw [String.toList_append]
  exact List.prefix_append _ _

theorem suffix_toList (front back : String) : back.toList <:+ (front ++ back).toList := by
  rw [String.toList_append]
  exact List.suffix_append _ _

/-- Each of the texts that are put together is in the whole. -/
theorem infix_intercalate (separator : String) {parts : List String} {part : String}
    (h : part ∈ parts) : part.toList <:+: (separator.intercalate parts).toList := by
  rw [String.toList_intercalate]
  induction parts with
  | nil => cases h
  | cons first parts ih =>
      rw [List.map_cons]
      rcases List.mem_cons.1 h with rfl | h
      · cases parts with
        | nil => simp [List.intercalate_singleton]
        | cons second parts =>
            rw [List.map_cons, List.intercalate_cons_cons, List.append_assoc]
            exact (List.prefix_append _ _).isInfix
      · rw [List.intercalate_cons_of_ne_nil (by simpa using List.ne_nil_of_mem h)]
        exact (ih h).trans (List.suffix_append _ _).isInfix

/-- The place and the explanation of a fault are in its message. -/
theorem Specification.Fault.infix_message (fault : Specification.Fault) :
    s!"--> {fault.line.row}:{fault.line.column}".toList <:+: fault.message.toList ∧
      fault.explanation.toList <:+: fault.message.toList := by
  unfold Specification.Fault.message
  constructor
  · refine List.IsInfix.trans ?_ (infix_intercalate _ (List.mem_of_getElem? (i := 0) rfl))
    simp only [String.toList_append, List.append_assoc]
    exact (List.suffix_append _ _).isInfix
  · refine List.IsInfix.trans ?_ (infix_intercalate _ (List.mem_of_getElem? (i := 5) rfl))
    exact (suffix_toList _ fault.explanation).isInfix

theorem Specification.Fault.explanation_tokenCount (line : Specification.Line) :
    Specification.Fault.explanation ⟨line, .tokenCount⟩ =
      s!"Line {line.row} must have exactly 5 tokens" ++
        (" " ++ s!"(current read next write direction), found {line.tokens.length}") := by
  have hcount : " must have exactly " ++ toString Specification.transitionTokens ++ " tokens " =
      " must have exactly 5 tokens" ++ " " := by decide
  have hwhole := congrArg (s!"Line {line.row}" ++ · ++
    s!"(current read next write direction), found {line.tokens.length}") hcount
  simp only [String.append_assoc] at hwhole
  simp only [Specification.Fault.explanation, String.append_assoc]
  exact hwhole

theorem MachineError.NamesLine.infix_message {number : Nat} {e : MachineError} {phrase : String}
    (h : e.NamesLine number phrase) : phrase.toList <:+: e.message.toList := by
  cases h with
  | @place fault h =>
      subst h
      exact fault.infix_message.1.trans
        (suffix_toList "Specification parsing error: " fault.message).isInfix
  | @tokenCount line h =>
      subst h
      have hmessage := (Specification.Fault.infix_message ⟨line, .tokenCount⟩).2.trans
        (suffix_toList "Specification parsing error: " _).isInfix
      rw [Specification.Fault.explanation_tokenCount] at hmessage
      exact (prefix_toList _ _).isInfix.trans hmessage
  | @blank symbol =>
      have hcause := prefix_toList s!"Blank symbol '{symbol}' on line {number}"
        " is not in the tape alphabet Γ"
      exact hcause.isInfix.trans (suffix_toList "Validation error: " _).isInfix

namespace Specification

/-- The line with this index is the one that the error is about: the first malformed line of a
transition, or the line of a blank that is no tape symbol. -/
inductive Blamed (text : String) : MachineError → Nat → Prop where
  | fault {fault : Fault} {index : Nat} (h : FirstMalformed (transitionLines text) index)
      (hline : (lines text)[6 + index]? = some fault.line) :
      Blamed text (.parse fault) (6 + index)
  | blank {symbol : Symbol} {row : Nat} (h : UndeclaredBlank (tokenLines text) symbol) :
      Blamed text (.validation (.undeclaredBlank symbol row)) 4

theorem program_of_large {text : String} (h : ¬ text.utf8ByteSize ≤ 65536) :
    program text = .error (.validation (.specificationSize text.utf8ByteSize)) := by
  have hlarge : text.utf8ByteSize > maxSpecificationSize := Nat.not_le.1 h
  rw [program, if_pos hlarge]

section

variable {text : String} {e : MachineError} {number : Nat} {phrase : String}

/-- A number in the message is the number of the row of the line that the error is about. -/
theorem exists_blamed (h : program text = .error e) (hnames : e.NamesLine number phrase) :
    ∃ index line, Blamed text e index ∧ (lines text)[index]? = some line ∧ line.row = number := by
  have hsize : text.utf8ByteSize ≤ 65536 := by
    by_contra hlarge
    cases h.symm.trans (program_of_large hlarge)
    cases hnames
  rcases program_cases hsize with ⟨blank, line, hundeclared, hline, herror⟩ |
    ⟨_, ⟨p, hp, _⟩ | ⟨index, fault, hline, herror, hfirst, _⟩⟩
  · cases h.symm.trans herror
    cases hnames
    exact ⟨4, line, .blank hundeclared, hline, rfl⟩
  · rcases program_of_assemble_ok hsize hp with ⟨_, hprogram⟩ | ⟨v, _, hprogram⟩
    · cases h.symm.trans hprogram
    · cases h.symm.trans hprogram
      cases hnames
  · cases h.symm.trans herror
    refine ⟨6 + index, fault.line, .fault hfirst hline, hline, ?_⟩
    cases hnames with
    | place hrow | tokenCount hrow => exact hrow

/-- If the message of an error names a line, it does so in these words, and the number is one more
than there are line ends in front of the line, less the carriage returns without a line feed among
them. So it is the number of the line exactly if there are none of these. -/
theorem program_error_numbers_line (h : program text = .error e)
    (hnames : e.NamesLine number phrase) :
    phrase.toList <:+: e.message.toList ∧
      ∃ index line above left right count, Blamed text e index ∧
        (lines text)[index]? = some line ∧ line.Stands text index above left right ∧
        Grammar.HasLineEnds (above ++ left).length (.start text) count ∧
        number + loneReturns (above ++ left) = count + 1 ∧
        (number = count + 1 ↔ loneReturns (above ++ left) = 0) := by
  obtain ⟨index, line, hblamed, hline, hrow⟩ := exists_blamed h hnames
  obtain ⟨above, left, right, hstands⟩ := exists_stands hline
  have hnumber : number = above.count '\n' + 1 := hrow.symm.trans hstands.row
  exact ⟨hnames.infix_message, index, line, above, left, right, _, hblamed, hline, hstands,
    hstands.hasLineEnds hline, by omega, by omega⟩

end

/-- A specification with a comment, an empty line, and line ends with and without carriage returns.
Its tenth line has six tokens. -/
def mixedText : String :=
  "# mixed\r\ngo stop\n1\r\n1 _\ngo\n_\r\nstop\n\r\n  go 1 go 1 R # right\n\t go _ stop _ R R\r\n"

/-- What is reported of it. -/
def mixedFault : Fault where
  line := ⟨10, 3, ["go", "_", "stop", "_", "R", "R"], "go _ stop _ R R", "\t go _ stop _ R R"⟩
  cause := .tokenCount

/-- The tenth line is named. -/
theorem program_error_numbers_line_mixedText :
    program mixedText = .error (.parse mixedFault) ∧
      (MachineError.parse mixedFault).NamesLine 10 s!"Line {10} must have exactly 5 tokens" ∧
      ∃ index above left right count, Blamed mixedText (.parse mixedFault) index ∧
        tokenLines (String.ofList (above ++ left)) = (tokenLines mixedText).take index ∧
        mixedText.toList = above ++ left ++ right ∧
        Grammar.HasLineEnds (above ++ left).length (.start mixedText) count ∧
        10 + loneReturns (above ++ left) = count + 1 := by
  have herror : program mixedText = .error (.parse mixedFault) := by decide
  have hnames : (MachineError.parse mixedFault).NamesLine 10
      s!"Line {10} must have exactly 5 tokens" := .tokenCount rfl
  obtain ⟨_, index, line, above, left, right, count, hblamed, _, hstands, hends, hnumber, _⟩ :=
    program_error_numbers_line herror hnames
  exact ⟨herror, hnames, index, above, left, right, count, hblamed, hstands.before, hstands.parts,
    hends, hnumber⟩

/-- A specification in which carriage returns end all lines. Its fifth line declares a blank that is
no tape symbol. -/
def returnsText : String := "q0 qa\r0\r0\rq0\r_\rqa\r"

/-- Its fifth line. -/
def returnsLine : Line := ⟨1, 14, ["_"], "_", "q0 qa00q0_qa"⟩

/-- The fifth line has four line ends in front and no other number of them, and yet the first line
is named. -/
theorem program_misnumbers_returnsText :
    ∃ e left right, program returnsText = .error e ∧
      e.message = "Validation error: Blank symbol '_' on line 1 is not in the tape alphabet Γ" ∧
      Blamed returnsText e 4 ∧
      (lines returnsText)[4]? = some returnsLine ∧
      returnsLine.Stands returnsText 4 [] left right ∧
      ∀ count, Grammar.HasLineEnds left.length (.start returnsText) count ↔ count = 4 := by
  have hblank : UndeclaredBlank (tokenLines returnsText) "_" :=
    ⟨["0"], ["_"], by decide, by decide, rfl, by decide⟩
  have hstands :
      returnsLine.Stands returnsText 4 [] "q0 qa\r0\r0\rq0\r".toList "_\rqa\r".toList := by
    constructor
    case parts => decide
    case above_ends => exact .inl rfl
    case left_inRow => decide
    case row => rfl
    case column => decide
    case token => exact ⟨"_", rfl, by decide⟩
    case before => decide
    case behind => decide
  have hline : (lines returnsText)[4]? = some returnsLine := by decide
  have hends : Grammar.HasLineEnds "q0 qa\r0\r0\rq0\r".toList.length (.start returnsText) 4 :=
    hstands.hasLineEnds hline
  refine ⟨.validation (.undeclaredBlank "_" 1), _, _, by decide, by decide, .blank hblank, hline,
    hstands, fun count => ⟨fun hcount => hcount.unique hends, ?_⟩⟩
  rintro rfl
  exact hends

end Specification

end TapeMachine
