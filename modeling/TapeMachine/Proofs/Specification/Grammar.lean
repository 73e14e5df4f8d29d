import TapeMachine.Specification.Line

/-!
# The grammar of specifications

A parsing expression grammar describes the text of a specification. Alternatives are ordered, and a
repetition goes on for as long as it can. White space and comments are skipped between the parts of
a sequence and between repetitions, except inside atomic rules. `Parses` gives expressions their
meaning as a relation, and `Parses.unique` says that an expression has at most one outcome at a
place. The meaning of a text is the tree of its `program` rule, of which the lines and tokens are
kept (`Pair.tokenLines`).
-/

namespace TapeMachine.Specification.Grammar

/-! ## Expressions -/

/-- The names of the rules. -/
inductive Rule where
  | whitespace
  | comment
  | lineEnd
  | token
  | line
  | program
  /-- The end of the text, which is a rule of every grammar. -/
  | endOfInput
deriving DecidableEq, Inhabited

/-- A parsing expression. -/
inductive Expr where
  /-- The characters of this text. -/
  | literal (text : String)
  /-- One character. -/
  | any
  /-- Nothing, at the start of the text only. -/
  | atStart
  /-- Nothing, at the end of the text only. -/
  | atEnd
  /-- What the rule takes. -/
  | rule (name : Rule)
  /-- What is skipped between two parts. -/
  | gap
  /-- The first expression, and right behind it the second. -/
  | seq (first second : Expr)
  /-- The first expression, or the second one where the first fails. -/
  | choice (first second : Expr)
  /-- The expression any number of times, each right behind the one before. -/
  | star (body : Expr)
  /-- Nothing, where the expression fails. -/
  | not (body : Expr)
deriving DecidableEq, Inhabited

namespace Expr

/-- One expression and then another one, with a gap between them. -/
def andThen (first second : Expr) : Expr := .seq first (.seq .gap second)

/-- The expression any number of times, with gaps between the repetitions only. -/
def many (body : Expr) : Expr :=
  .choice (.seq body (.star (.seq .gap body))) (.literal "")

/-- The expression at least once. -/
def many1 (body : Expr) : Expr := body.andThen body.many

/-- What a gap skips: white space, and comments with white space behind each of them. -/
def skipped : Expr :=
  .seq (.star (.rule .whitespace))
    (.star (.seq (.rule .comment) (.star (.rule .whitespace))))

end Expr

/-! ## The grammar -/

/-- What a rule takes and how. -/
structure Definition where
  /-- Whether the rule leaves no trace in the tree. -/
  silent : Bool := false
  /-- Whether nothing is skipped in the rule, nor in the rules that it uses. -/
  atomic : Bool := false
  body : Expr
deriving DecidableEq, Inhabited

open TapeMachine.Specification.Grammar.Expr in
/-- The definitions of the rules. Nothing is skipped in what is itself skipped. -/
def definition : Rule → Definition
  | .whitespace =>
    { silent := true, atomic := true, body := choice (literal " ") (literal "\t") }
  | .comment =>
    { silent := true, atomic := true
      body := andThen (literal "#") (many (andThen (not (rule .lineEnd)) any)) }
  | .lineEnd =>
    { silent := true
      body := choice (literal "\r\n") (choice (literal "\n") (literal "\r")) }
  | .token =>
    { atomic := true
      body := andThen (not (literal "#")) (many1 (andThen
        (not (choice (literal " ") (choice (literal "\t") (rule .lineEnd)))) any)) }
  | .line => { body := many1 (rule .token) }
  | .program =>
    { body := andThen atStart (andThen (many (rule .lineEnd))
        (andThen (many (andThen (rule .line) (many (rule .lineEnd)))) (rule .endOfInput))) }
  | .endOfInput => { body := atEnd }

/-! ## Outcomes -/

/-- A place in a text: the number of characters in front of it, and those behind it. -/
structure Place where
  offset : Nat
  rest : List Char
deriving DecidableEq, Inhabited

/-- The place before a text. -/
def Place.start (text : String) : Place := ⟨0, text.toList⟩

/-- The text from one place to a later one. -/
def Place.textTo (p q : Place) : String := String.ofList (p.rest.take (q.offset - p.offset))

/-- A node of the tree: a rule, what it has taken and from where on, and the rules used in it. -/
structure Pair where
  rule : Rule
  offset : Nat
  text : String
  inner : List Pair
deriving Inhabited

/-- The tokens among the nodes of a line. -/
def tokenTexts (pairs : List Pair) : List String :=
  (pairs.filter fun pair => pair.rule = .token).map Pair.text

/-- The tokens of every line among the nodes of a text. -/
def lineTokens (pairs : List Pair) : List (List String) :=
  (pairs.filter fun pair => pair.rule = .line).map fun line => tokenTexts line.inner

/-- The tokens of every line in the tree of a text. -/
def Pair.tokenLines (program : Pair) : List (List String) := lineTokens program.inner

/-- Whether gaps skip anything. -/
inductive Mode where
  | skipping
  | atomic
deriving DecidableEq, Inhabited

/-- How the body of a rule is taken. Once nothing is skipped, that holds of all rules used. -/
def Rule.mode (name : Rule) (caller : Mode) : Mode :=
  if (definition name).atomic then .atomic else caller

/-- The nodes of a rule that has taken the text from one place to another. Silent rules and the
rules used by atomic ones have no node of their own. -/
def Rule.nodes (name : Rule) (caller : Mode) (p : Place) (inner : List Pair) (q : Place) :
    List Pair :=
  if (definition name).silent ∨ caller = .atomic then inner
  else [⟨name, p.offset, p.textTo q, inner⟩]

/-- What comes of an expression at a place: it fails, or it takes the text up to another place and
leaves nodes. -/
abbrev Outcome := Option (List Pair × Place)

/-- The expression has this outcome at the place. -/
inductive Parses : Mode → Expr → Place → Outcome → Prop where
  | literal {mode text offset rest behind} (h : rest = text.toList ++ behind) :
      Parses mode (.literal text) ⟨offset, rest⟩ (some ([], ⟨offset + text.length, behind⟩))
  | literal_fail {mode text p} (h : ¬ text.toList <+: p.rest) : Parses mode (.literal text) p none
  | any {mode offset c rest} :
      Parses mode .any ⟨offset, c :: rest⟩ (some ([], ⟨offset + 1, rest⟩))
  | any_fail {mode offset} : Parses mode .any ⟨offset, []⟩ none
  | atStart {mode rest} : Parses mode .atStart ⟨0, rest⟩ (some ([], ⟨0, rest⟩))
  | atStart_fail {mode offset rest} : Parses mode .atStart ⟨offset + 1, rest⟩ none
  | atEnd {mode offset} : Parses mode .atEnd ⟨offset, []⟩ (some ([], ⟨offset, []⟩))
  | atEnd_fail {mode offset c rest} : Parses mode .atEnd ⟨offset, c :: rest⟩ none
  | rule {mode p inner q} (name : Rule)
      (h : Parses (name.mode mode) (definition name).body p (some (inner, q))) :
      Parses mode (.rule name) p (some (name.nodes mode p inner q, q))
  | rule_fail {mode name p} (h : Parses (name.mode mode) (definition name).body p none) :
      Parses mode (.rule name) p none
  | gap {p outcome} (h : Parses .atomic .skipped p outcome) : Parses .skipping .gap p outcome
  | gap_atomic {p} : Parses .atomic .gap p (some ([], p))
  | seq {mode e f p pairs q pairs' q'} (he : Parses mode e p (some (pairs, q)))
      (hf : Parses mode f q (some (pairs', q'))) :
      Parses mode (.seq e f) p (some (pairs ++ pairs', q'))
  | seq_fail_first {mode e f p} (he : Parses mode e p none) : Parses mode (.seq e f) p none
  | seq_fail_second {mode e f p pairs q} (he : Parses mode e p (some (pairs, q)))
      (hf : Parses mode f q none) : Parses mode (.seq e f) p none
  | choice_first {mode e f p result} (he : Parses mode e p (some result)) :
      Parses mode (.choice e f) p (some result)
  | choice_second {mode e f p outcome} (he : Parses mode e p none)
      (hf : Parses mode f p outcome) : Parses mode (.choice e f) p outcome
  | star_stop {mode e p} (he : Parses mode e p none) : Parses mode (.star e) p (some ([], p))
  | star_step {mode e p pairs q pairs' q'} (he : Parses mode e p (some (pairs, q)))
      (hstar : Parses mode (.star e) q (some (pairs', q'))) :
      Parses mode (.star e) p (some (pairs ++ pairs', q'))
  | not {mode e p} (he : Parses mode e p none) : Parses mode (.not e) p (some ([], p))
  | not_fail {mode e p result} (he : Parses mode e p (some result)) :
      Parses mode (.not e) p none

/-- An expression has at most one outcome at a place. -/
theorem Parses.unique {mode : Mode} {e : Expr} {p : Place} {outcome outcome' : Outcome}
    (h : Parses mode e p outcome) (h' : Parses mode e p outcome') : outcome = outcome' := by
  induction h generalizing outcome' with
  | literal h =>
      cases h' with
      | literal h' =>
          obtain rfl := List.append_cancel_left (h.symm.trans h')
          rfl
      | literal_fail h' => exact absurd ⟨_, h.symm⟩ h'
  | literal_fail h =>
      cases h' with
      | literal h' => exact absurd ⟨_, h'.symm⟩ h
      | literal_fail => rfl
  | any | any_fail | atStart | atStart_fail | atEnd | atEnd_fail | gap_atomic =>
      cases h'
      rfl
  | rule _ _ ih | rule_fail _ ih =>
      cases h' with
      | rule _ h' => cases ih h' <;> rfl
      | rule_fail h' => cases ih h' <;> rfl
  | gap _ ih =>
      cases h' with
      | gap h' => exact ih h'
  | seq _ _ ihe ihf | seq_fail_second _ _ ihe ihf =>
      cases h' with
      | seq he' hf' =>
          cases ihe he'
          cases ihf hf' <;> rfl
      | seq_fail_first he' => cases ihe he'
      | seq_fail_second he' hf' =>
          cases ihe he'
          cases ihf hf' <;> rfl
  | seq_fail_first _ ihe =>
      cases h' with
      | seq he' _ => cases ihe he'
      | seq_fail_first => rfl
      | seq_fail_second => rfl
  | choice_first _ ihe =>
      cases h' with
      | choice_first he' => exact ihe he'
      | choice_second he' _ => cases ihe he'
  | choice_second _ _ ihe ihf =>
      cases h' with
      | choice_first he' => cases ihe he'
      | choice_second _ hf' => exact ihf hf'
  | star_stop _ ihe =>
      cases h' with
      | star_stop => rfl
      | star_step he' _ => cases ihe he'
  | star_step _ _ ihe ihstar =>
      cases h' with
      | star_stop he' => cases ihe he'
      | star_step he' hstar' =>
          cases ihe he'
          cases ihstar hstar'
          rfl
  | not _ ih | not_fail _ ih =>
      cases h' with
      | not h' => cases ih h' <;> rfl
      | not_fail h' => cases ih h' <;> rfl

end TapeMachine.Specification.Grammar
