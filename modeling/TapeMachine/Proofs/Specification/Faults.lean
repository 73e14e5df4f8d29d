import TapeMachine.Proofs.Program.History
import TapeMachine.Proofs.Specification.Acceptance
import TapeMachine.Proofs.Specification.Positions
import Mathlib.Data.List.Induction

/-!
# Which line is blamed

A line of a transition is malformed if it does not have five tokens, if its fifth token names no
move, or if an earlier one begins with the same two tokens (`Malformed`). Lines are added one after
another. A program that lines have been added to fires on what they begin with (`FilledBy`), so the
next line can be added exactly if it is not malformed (`FilledBy.exists_addLine`,
`FilledBy.addLine_of_malformed`), and of many lines the first malformed one is blamed
(`FilledBy.foldlM_addLine_cases`). `program_judged` puts this together with what comes before the
transitions, the declaration of the blank, and what comes after them, the check of the program.
-/

namespace TapeMachine.Specification

/-! ## Malformed lines -/

/-- The fifth token of the line names no move. -/
def NoMove (tokens : List String) : Prop :=
  ∃ token, tokens[4]? = some token ∧ token ∉ ["L", "R", "S"]

/-- The line of a transition is malformed behind the earlier ones. -/
def Malformed (earlier : List (List String)) (tokens : List String) : Prop :=
  tokens.length ≠ 5 ∨ NoMove tokens ∨ tokens.take 2 ∈ earlier.map (·.take 2)

/-- What is wrong with the line behind the earlier ones by the first test that fails: its number of
tokens, its move, and what it begins with. -/
inductive Blames (earlier : List (List String)) (tokens : List String) : Fault.Cause → Prop where
  | tokenCount (hlength : tokens.length ≠ 5) : Blames earlier tokens .tokenCount
  | direction {token : String} (hlength : tokens.length = 5) (htoken : tokens[4]? = some token)
      (hmove : token ∉ ["L", "R", "S"]) : Blames earlier tokens (.direction token)
  | duplicate {state read : String} (hlength : tokens.length = 5) (hmove : ¬ NoMove tokens)
      (hkey : tokens.take 2 = [state, read]) (hrepeats : tokens.take 2 ∈ earlier.map (·.take 2)) :
      Blames earlier tokens (.duplicate state [read])

/-- Of these lines the one with this index is malformed behind the ones in front of it. -/
def MalformedAt (lines : List (List String)) (index : Nat) : Prop :=
  ∃ tokens, lines[index]? = some tokens ∧ Malformed (lines.take index) tokens

/-- The line with this index is the first malformed one. -/
structure FirstMalformed (lines : List (List String)) (index : Nat) : Prop where
  malformed : MalformedAt lines index
  first : ∀ earlier < index, ¬ MalformedAt lines earlier

section

variable {lines : List (List String)} {tokens : List String} {index : Nat}

theorem malformedAt_append_singleton_iff :
    MalformedAt (lines ++ [tokens]) index ↔
      MalformedAt lines index ∨ index = lines.length ∧ Malformed lines tokens := by
  unfold MalformedAt
  rcases Nat.lt_trichotomy index lines.length with hlt | rfl | hgt
  · rw [List.getElem?_append_left hlt, List.take_append_of_le_length (Nat.le_of_lt hlt)]
    exact (or_iff_left fun h => Nat.ne_of_lt hlt h.1).symm
  · simp
  · have hnone : (lines ++ [tokens])[index]? = none := by
      rw [List.getElem?_eq_none_iff, List.length_append, List.length_singleton]
      exact hgt
    rw [hnone, List.getElem?_eq_none (Nat.le_of_lt hgt)]
    simp [Nat.ne_of_gt hgt]

theorem FirstMalformed.append_singleton (h : FirstMalformed lines index) (tokens : List String) :
    FirstMalformed (lines ++ [tokens]) index where
  malformed := malformedAt_append_singleton_iff.2 (.inl h.malformed)
  first earlier hlt hmalformed := by
    obtain ⟨_, hline, _⟩ := h.malformed
    have hindex := (List.getElem?_eq_some_iff.1 hline).1
    rcases malformedAt_append_singleton_iff.1 hmalformed with hearlier | ⟨hlast, _⟩
    · exact h.first earlier hlt hearlier
    · omega

end

/-! ## One line -/

theorem ofToken?_eq_none_iff {token : String} :
    Direction.ofToken? token = none ↔ token ∉ ["L", "R", "S"] := by
  unfold Direction.ofToken?
  split <;> simp_all

theorem exists_tokens_of_length {tokens : List String} (h : tokens.length = 5) :
    ∃ state read next write token, tokens = [state, read, next, write, token] := by
  match tokens, h with
  | [state, read, next, write, token], _ => exact ⟨state, read, next, write, token, rfl⟩

section

variable {line : Line}

theorem Line.transition_of_length_ne (h : line.tokens.length ≠ 5) :
    line.transition = .error ⟨line, .tokenCount⟩ := by
  unfold Line.transition
  split
  · next htokens => simp [htokens] at h
  · rfl

theorem Line.transition_of_move {state read next write token : String}
    (htokens : line.tokens = [state, read, next, write, token]) (h : token ∉ ["L", "R", "S"]) :
    line.transition = .error ⟨line, .direction token⟩ := by
  simp only [Line.transition, htokens, ofToken?_eq_none_iff.2 h]

/-- A line with five tokens of which the fifth names a move holds a transition. -/
theorem Line.exists_transition (hlength : line.tokens.length = 5) (hmove : ¬ NoMove line.tokens) :
    ∃ state read next write direction, line.tokens.take 2 = [state, read] ∧
      line.transition = .ok (.single state read next write direction) := by
  obtain ⟨state, read, next, write, token, htokens⟩ := exists_tokens_of_length hlength
  have htoken : Direction.ofToken? token ≠ none := by
    intro hnone
    refine hmove ⟨token, ?_, ofToken?_eq_none_iff.1 hnone⟩
    rw [htokens]
    rfl
  obtain ⟨direction, hdirection⟩ := Option.ne_none_iff_exists'.1 htoken
  obtain rfl := Direction.ofToken?_eq_some_iff.1 hdirection
  refine ⟨state, read, next, write, direction, by rw [htokens]; rfl, ?_⟩
  exact Line.transition_eq_ok_iff.2 ⟨state, read, next, write, direction, htokens, rfl⟩

end

/-- The program has one tape, and it fires on what the lines begin with. -/
structure FilledBy (p : Program) (lines : List (List String)) : Prop where
  tapeCount : p.tapeCount = 1
  contains_iff : ∀ state read, p.transitions.contains ⟨state, [read]⟩ = true ↔
    [state, read] ∈ lines.map (·.take 2)

section

variable {p : Program} {earlier : List (List String)} {line : Line}

/-- A transition with one symbol to read is refused exactly if a line begins with its state and its
symbol. -/
theorem FilledBy.addTransition_eq_error_iff (h : FilledBy p earlier) {state next : String}
    {read write : Symbol} {direction : Direction} {e : MachineError} :
    p.addTransition (.single state read next write direction) = .error e ↔
      [state, read] ∈ earlier.map (·.take 2) ∧ e = .nonDeterministic state [read] := by
  have hcount : (Transition.single state read next write direction).tapeCount? =
      some p.tapeCount := by
    rw [h.tapeCount]
    rfl
  rw [← h.contains_iff, Program.addTransition_eq_error_iff]
  constructor
  · intro hrefuses
    cases hrefuses with
    | mismatchedTuples hnone => cases hnone
    | tapeCount hother hne =>
        rw [hcount] at hother
        exact absurd (Option.some.inj hother).symm hne
    | nonDeterministic _ hkey => exact ⟨hkey, rfl⟩
  · rintro ⟨hkey, rfl⟩
    exact .nonDeterministic hcount hkey

/-- A line that is not malformed can be added, and the program then fires on what it begins with
too. -/
theorem FilledBy.exists_addLine (h : FilledBy p earlier) (hline : ¬ Malformed earlier line.tokens) :
    ∃ q, addLine p line = .ok q ∧ FilledBy q (earlier ++ [line.tokens]) := by
  simp only [Malformed, not_or, not_ne_iff] at hline
  obtain ⟨hlength, hmove, hfresh⟩ := hline
  obtain ⟨state, read, next, write, direction, hkey, ht⟩ := Line.exists_transition hlength hmove
  have hcontains : p.transitions.contains ⟨state, [read]⟩ = false := by
    rw [← Bool.not_eq_true, h.contains_iff, ← hkey]
    exact hfresh
  refine ⟨_, (addLine_eq_ok_iff h.tapeCount).2 ⟨_, ht, hcontains, rfl⟩, h.tapeCount, ?_⟩
  intro state' read'
  rw [KeyedSet.contains_insert, Bool.or_eq_true, h.contains_iff, decide_eq_true_iff,
    List.map_append, List.mem_append, List.map_singleton, List.mem_singleton, hkey, or_comm]
  refine or_congr_right ?_
  simp [Transition.key, Transition.single, eq_comm]

/-- A line that is malformed is to blame, for the first test that it fails. -/
theorem FilledBy.addLine_of_malformed (h : FilledBy p earlier)
    (hline : Malformed earlier line.tokens) :
    ∃ cause, addLine p line = .error (.parse ⟨line, cause⟩) ∧
      Blames earlier line.tokens cause := by
  by_cases hlength : line.tokens.length = 5
  case neg =>
    refine ⟨.tokenCount, ?_, .tokenCount hlength⟩
    rw [addLine, Line.transition_of_length_ne hlength]
  by_cases hmove : NoMove line.tokens
  case pos =>
    obtain ⟨state, read, next, write, token, htokens⟩ := exists_tokens_of_length hlength
    obtain ⟨fifth, hfifth, hnone⟩ := hmove
    obtain rfl : token = fifth := by simpa [htokens] using hfifth
    refine ⟨.direction token, ?_, .direction hlength hfifth hnone⟩
    rw [addLine, Line.transition_of_move htokens hnone]
  case neg =>
    have hrepeats : line.tokens.take 2 ∈ earlier.map (·.take 2) := by
      simpa [Malformed, hlength, hmove] using hline
    obtain ⟨state, read, next, write, direction, hkey, ht⟩ := Line.exists_transition hlength hmove
    have herror : p.addTransition (.single state read next write direction) = .error _ :=
      h.addTransition_eq_error_iff.2 ⟨hkey ▸ hrepeats, rfl⟩
    refine ⟨.duplicate state [read], ?_, .duplicate hlength hmove hkey hrepeats⟩
    simp only [addLine, ht, herror]

/-! ## Many lines -/

/-- Lines are all added, or the first malformed one is blamed. -/
theorem FilledBy.foldlM_addLine_cases (h : FilledBy p []) (lines : List Line) :
    (∃ q, lines.foldlM addLine p = .ok q ∧ FilledBy q (lines.map Line.tokens) ∧
      ∀ index, ¬ MalformedAt (lines.map Line.tokens) index) ∨
    ∃ index line cause, lines[index]? = some line ∧
      lines.foldlM addLine p = .error (.parse ⟨line, cause⟩) ∧
      FirstMalformed (lines.map Line.tokens) index ∧
      Blames ((lines.map Line.tokens).take index) line.tokens cause := by
  induction lines using List.reverseRecOn with
  | nil =>
      refine .inl ⟨p, rfl, h, ?_⟩
      rintro index ⟨_, hline, _⟩
      cases hline
  | append_singleton lines line ih =>
      rw [List.foldlM_append, List.map_append, List.map_singleton]
      rcases ih with ⟨q, hq, hfilled, hnone⟩ |
        ⟨index, faulty, cause, hline, herror, hfirst, hblames⟩
      · have hfold : (lines.foldlM addLine p >>= fun q => [line].foldlM addLine q) =
            addLine q line := by
          rw [hq]
          exact bind_pure (addLine q line)
        rw [hfold]
        by_cases hmalformed : Malformed (lines.map Line.tokens) line.tokens
        case pos =>
          obtain ⟨cause, herror, hblames⟩ := hfilled.addLine_of_malformed hmalformed
          refine .inr ⟨lines.length, line, cause, by simp, herror, ⟨?_, ?_⟩, by simpa using hblames⟩
          · exact malformedAt_append_singleton_iff.2 (.inr ⟨by simp, hmalformed⟩)
          · intro earlier hlt hearlier
            rcases malformedAt_append_singleton_iff.1 hearlier with hearlier | ⟨rfl, _⟩
            · exact hnone earlier hearlier
            · simp at hlt
        case neg =>
          obtain ⟨q', hq', hfilled'⟩ := hfilled.exists_addLine hmalformed
          refine .inl ⟨q', hq', hfilled', fun index hindex => ?_⟩
          rcases malformedAt_append_singleton_iff.1 hindex with hindex | ⟨_, hlast⟩
          · exact hnone index hindex
          · exact hmalformed hlast
      · -- The fault of an earlier line stands.
        have hlt := (List.getElem?_eq_some_iff.1 hline).1
        refine .inr ⟨index, faulty, cause, ?_, ?_, hfirst.append_singleton _, ?_⟩
        · rw [List.getElem?_append_left hlt, hline]
        · rw [herror]
          rfl
        · rw [List.take_append_of_le_length (by simpa using Nat.le_of_lt hlt)]
          exact hblames

end

/-! ## The declarations -/

/-- The fifth line begins with a symbol that is not on the third. -/
def UndeclaredBlank (lines : List (List String)) (blank : Symbol) : Prop :=
  ∃ tapeSymbols line, lines[2]? = some tapeSymbols ∧ lines[4]? = some line ∧
    line.head? = some blank ∧ blank ∉ tapeSymbols

theorem declare_of_undeclared {lines : List Line} (hne : "" ∉ tokensAt lines 2) {blank : Symbol}
    (h : UndeclaredBlank (lines.map Line.tokens) blank) :
    ∃ line, lines[4]? = some line ∧
      declare lines = .error (.validation (.undeclaredBlank blank line.row)) := by
  obtain ⟨tapeSymbols, tokens, hthird, hfifth, hblank, hmem⟩ := h
  rw [List.getElem?_map] at hthird hfifth
  obtain ⟨line, hline, rfl⟩ := Option.map_eq_some_iff.1 hfifth
  have htokens : tokensAt lines 2 = tapeSymbols := by
    rw [tokensAt, hthird]
    rfl
  have hcontains : (declareParts lines).tapeAlphabet.contains blank = false := by
    rw [← Bool.not_eq_true, declareParts_eq, Alphabet.contains_addSymbols_empty hne, htokens]
    exact hmem
  refine ⟨line, hline, ?_⟩
  simp only [declare, declareBlank, hline, hblank, hcontains, Bool.false_eq_true, if_false]
  rfl

theorem declare_of_declared {lines : List Line} (hne : "" ∉ tokensAt lines 2)
    (h : ∀ blank, ¬ UndeclaredBlank (lines.map Line.tokens) blank) :
    declare lines = .ok (declared lines) := by
  refine declare_eq_ok_iff.2 ⟨fun blank hblank => ?_, rfl⟩
  rw [Alphabet.contains_addSymbols_empty hne]
  by_cases hmem : blank ∈ tokensAt lines 2
  case pos => exact hmem
  case neg =>
    -- There is a third line, since there is a fifth one.
    obtain ⟨line, hline⟩ : ∃ line, lines[4]? = some line := by
      cases hline : lines[4]? with
      | none =>
          rw [tokensAt, hline] at hblank
          cases hblank
      | some line => exact ⟨line, rfl⟩
    have hlength := (List.getElem?_eq_some_iff.1 hline).1
    have hthird : lines[2]? = some lines[2] := List.getElem?_eq_getElem (by omega)
    refine absurd ⟨lines[2].tokens, line.tokens, ?_, ?_, ?_, ?_⟩ (h blank)
    · rw [List.getElem?_map, hthird]
      rfl
    · rw [List.getElem?_map, hline]
      rfl
    · rw [tokensAt, hline] at hblank
      exact hblank
    · rw [tokensAt, hthird] at hmem
      exact hmem

theorem filledBy_declared (lines : List Line) : FilledBy (declared lines) [] where
  tapeCount := rfl
  contains_iff state read := by simp [declared]

/-- Lines are refused for their blank, or they assemble a program, or the first malformed one from
the seventh on is blamed. -/
theorem assemble_cases {lines : List Line} (hne : "" ∉ tokensAt lines 2) :
    (∃ blank line, UndeclaredBlank (lines.map Line.tokens) blank ∧ lines[4]? = some line ∧
      assemble lines = .error (.validation (.undeclaredBlank blank line.row))) ∨
    (∀ blank, ¬ UndeclaredBlank (lines.map Line.tokens) blank) ∧
      ((∃ p, assemble lines = .ok p ∧ FilledBy p ((lines.drop 6).map Line.tokens) ∧
        ∀ index, ¬ MalformedAt ((lines.drop 6).map Line.tokens) index) ∨
      ∃ index line cause, (lines.drop 6)[index]? = some line ∧
        assemble lines = .error (.parse ⟨line, cause⟩) ∧
        FirstMalformed ((lines.drop 6).map Line.tokens) index ∧
        Blames (((lines.drop 6).map Line.tokens).take index) line.tokens cause) := by
  by_cases hblank : ∃ blank, UndeclaredBlank (lines.map Line.tokens) blank
  case pos =>
    obtain ⟨blank, hundeclared⟩ := hblank
    obtain ⟨line, hline, hdeclare⟩ := declare_of_undeclared hne hundeclared
    refine .inl ⟨blank, line, hundeclared, hline, ?_⟩
    rw [assemble, hdeclare]
    rfl
  case neg =>
    rw [not_exists] at hblank
    have hassemble : assemble lines = (lines.drop 6).foldlM addLine (declared lines) := by
      rw [assemble, declare_of_declared hne hblank]
      rfl
    rw [hassemble]
    exact .inr ⟨hblank, (filledBy_declared lines).foldlM_addLine_cases (lines.drop 6)⟩

/-! ## Texts -/

/-- The tokens of the lines of transitions, from the seventh on. -/
def transitionLines (text : String) : List (List String) := (tokenLines text).drop 6

theorem map_tokens_drop_lines (text : String) :
    ((lines text).drop 6).map Line.tokens = transitionLines text := by
  rw [transitionLines, ← map_tokens_lines, List.map_drop]

section

variable {text : String}

theorem program_of_assemble_error (hsize : text.utf8ByteSize ≤ 65536) {e : MachineError}
    (h : assemble (lines text) = .error e) : program text = .error e := by
  have hfits : ¬ text.utf8ByteSize > maxSpecificationSize := Nat.not_lt_of_le hsize
  rw [program, if_neg hfits, h]
  rfl

/-- The program that is assembled is the answer if it is well-formed, and else a rule that it
breaks. -/
theorem program_of_assemble_ok (hsize : text.utf8ByteSize ≤ 65536) {p : Program}
    (h : assemble (lines text) = .ok p) :
    p.check = .ok () ∧ program text = .ok p ∨
      ∃ v, p.check = .error (.validation (.violation v)) ∧
        program text = .error (.validation (.violation v)) := by
  have hfits : ¬ text.utf8ByteSize > maxSpecificationSize := Nat.not_lt_of_le hsize
  rw [program, if_neg hfits, h]
  show _ ∧ (p.check >>= fun _ => pure p) = _ ∨ ∃ v, _ ∧ (p.check >>= fun _ => pure p) = _
  unfold Program.check
  cases p.violation? with
  | none => exact .inl ⟨rfl, rfl⟩
  | some v => exact .inr ⟨v, rfl, rfl⟩

/-- The three ways of answering to a text of at most 65536 bytes. -/
theorem program_cases (hsize : text.utf8ByteSize ≤ 65536) :
    (∃ blank line, UndeclaredBlank (tokenLines text) blank ∧ (lines text)[4]? = some line ∧
      program text = .error (.validation (.undeclaredBlank blank line.row))) ∨
    (∀ blank, ¬ UndeclaredBlank (tokenLines text) blank) ∧
      ((∃ p, assemble (lines text) = .ok p ∧
        ∀ index, ¬ MalformedAt (transitionLines text) index) ∨
      ∃ index fault, (lines text)[6 + index]? = some fault.line ∧
        program text = .error (.parse fault) ∧ FirstMalformed (transitionLines text) index ∧
        Blames ((transitionLines text).take index) fault.line.tokens fault.cause) := by
  have hcases := assemble_cases (tokensAt_lines text 2).2
  rw [map_tokens_lines, map_tokens_drop_lines] at hcases
  rcases hcases with ⟨blank, line, hundeclared, hline, herror⟩ |
    ⟨hdeclared, ⟨p, hp, _, hnone⟩ | ⟨index, line, cause, hline, herror, hfirst, hblames⟩⟩
  · exact .inl ⟨blank, line, hundeclared, hline, program_of_assemble_error hsize herror⟩
  · exact .inr ⟨hdeclared, .inl ⟨p, hp, hnone⟩⟩
  · rw [List.getElem?_drop] at hline
    exact .inr ⟨hdeclared, .inr ⟨index, ⟨line, cause⟩, hline,
      program_of_assemble_error hsize herror, hfirst, hblames⟩⟩

/-- A line declares one blank at most. -/
theorem UndeclaredBlank.eq {lines : List (List String)} {blank other : Symbol}
    (h : UndeclaredBlank lines blank) (h' : UndeclaredBlank lines other) : blank = other := by
  obtain ⟨_, line, _, hline, hblank, _⟩ := h
  obtain ⟨_, line', _, hline', hother, _⟩ := h'
  obtain rfl := Option.some.inj (hline.symm.trans hline')
  exact Option.some.inj (hblank.symm.trans hother)

end

end TapeMachine.Specification
