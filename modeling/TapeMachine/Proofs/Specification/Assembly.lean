import TapeMachine.Specification.Program
import TapeMachine.Proofs.Program.Parts
import TapeMachine.Proofs.Program.WellFormed

/-!
# The program that lines assemble

Assembling lines succeeds exactly if the blank that they declare is one of their tape symbols and
every line from the seventh on holds a transition, no two of them for the same state and symbol
(`assemble_eq_ok_iff`). The program is then `assembled`, each part of which is made of the tokens of
one line, and whose transitions are those of the lines from the seventh on.
-/

namespace TapeMachine

namespace Specification

/-! ## The declarations -/

/-- What the lines declare, where the transitions are left out. -/
def declared (lines : List Line) : Program where
  states := .ofNames (tokensAt lines 0)
  inputAlphabet := Alphabet.empty.addSymbols (tokensAt lines 1)
  tapeAlphabet :=
    let symbols := Alphabet.empty.addSymbols (tokensAt lines 2)
    match (tokensAt lines 4).head? with
    | none => symbols
    | some blank => symbols.setBlank blank
  initial := (tokensAt lines 3).head?
  accepting := .ofNames (tokensAt lines 5)

theorem foldl_addState (p : Program) (names : List String) :
    names.foldl (fun p name => (p.addState name).2) p =
      { p with states := names.foldl (fun s name => (s.insertNew name).2) p.states } := by
  induction names generalizing p with
  | nil => rfl
  | cons name names ih => exact ih _

theorem foldl_addInputSymbol (p : Program) (symbols : List Symbol) :
    symbols.foldl (fun p symbol => (p.addInputSymbol symbol).2) p =
      { p with inputAlphabet := p.inputAlphabet.addSymbols symbols } := by
  induction symbols generalizing p with
  | nil => rfl
  | cons symbol symbols ih => exact ih _

theorem foldl_addTapeSymbol (p : Program) (symbols : List Symbol) :
    symbols.foldl (fun p symbol => (p.addTapeSymbol symbol).2) p =
      { p with tapeAlphabet := p.tapeAlphabet.addSymbols symbols } := by
  induction symbols generalizing p with
  | nil => rfl
  | cons symbol symbols ih => exact ih _

theorem foldl_addAcceptingState (p : Program) (names : List String) :
    names.foldl (fun p name => (p.addAcceptingState name).2) p =
      { p with accepting := names.foldl (fun s name => (s.insertNew name).2) p.accepting } := by
  induction names generalizing p with
  | nil => rfl
  | cons name names ih => exact ih _

theorem declareParts_eq (lines : List Line) :
    declareParts lines = {
      states := .ofNames (tokensAt lines 0)
      inputAlphabet := Alphabet.empty.addSymbols (tokensAt lines 1)
      tapeAlphabet := Alphabet.empty.addSymbols (tokensAt lines 2)
      initial := (tokensAt lines 3).head? } := by
  simp only [declareParts, foldl_addState, foldl_addInputSymbol, foldl_addTapeSymbol]
  cases h : (tokensAt lines 3).head? <;> rfl

/-- Declaring succeeds unless the blank that is declared is no tape symbol. -/
theorem declare_eq_ok_iff {lines : List Line} {p : Program} :
    declare lines = .ok p ↔
      (∀ blank, (tokensAt lines 4).head? = some blank →
        (Alphabet.empty.addSymbols (tokensAt lines 2)).contains blank = true) ∧
      declared lines = p := by
  have hblank : declareBlank (declareParts lines) lines =
      match (tokensAt lines 4).head? with
      | none => .ok (declareParts lines)
      | some blank =>
        if (declareParts lines).tapeAlphabet.contains blank then
          .ok ((declareParts lines).setBlank blank)
        else .error (.validation (.undeclaredBlank blank ((lines[4]?.map Line.row).getD 0))) := by
    unfold declareBlank tokensAt
    cases lines[4]? <;> rfl
  rw [declare, hblank, declareParts_eq]
  simp only [foldl_addAcceptingState]
  unfold declared
  cases (tokensAt lines 4).head? with
  | none => simp [Except.map, NameSet.ofNames]
  | some blank =>
      cases hcontains : (Alphabet.empty.addSymbols (tokensAt lines 2)).contains blank <;>
        simp [hcontains, Except.map, NameSet.ofNames, Program.setBlank]

/-- The blank that is declared is the first token of its line. -/
theorem blank_declared {lines : List Line} (hne : ∀ place, "" ∉ tokensAt lines place) :
    (declared lines).blank = (tokensAt lines 4).head? := by
  unfold Program.blank declared
  cases h : (tokensAt lines 4).head? with
  | none => exact Alphabet.blank_addSymbols _ _
  | some blank =>
      exact Alphabet.blank_setBlank _ fun he => hne 4 (he ▸ List.mem_of_head? h)

/-- A blank that is one of the tape symbols adds none to them. -/
theorem contains_tapeAlphabet_declared {lines : List Line}
    (hne : ∀ place, "" ∉ tokensAt lines place)
    (hblank : ∀ blank, (tokensAt lines 4).head? = some blank → blank ∈ tokensAt lines 2)
    {symbol : Symbol} :
    (declared lines).tapeAlphabet.contains symbol = true ↔ symbol ∈ tokensAt lines 2 := by
  have hmem (symbol : Symbol) :
      (Alphabet.empty.addSymbols (tokensAt lines 2)).contains symbol = true ↔
        symbol ∈ tokensAt lines 2 := Alphabet.contains_addSymbols_empty (hne 2)
  unfold declared
  cases h : (tokensAt lines 4).head? with
  | none => exact hmem symbol
  | some blank =>
      let symbols := Alphabet.empty.addSymbols (tokensAt lines 2)
      show (symbols.setBlank blank).contains symbol = true ↔ _
      rw [Alphabet.contains_setBlank _ ((hmem blank).2 (hblank blank h)), hmem]

/-! ## The transitions -/

/-- A line holds a transition exactly if its tokens are the five of one. -/
theorem Line.transition_eq_ok_iff {line : Line} {t : Transition} :
    line.transition = .ok t ↔ ∃ state read next write direction,
      line.tokens = [state, read, next, write, Direction.letter direction] ∧
      t = .single state read next write direction := by
  unfold Line.transition
  constructor
  · intro h
    split at h
    · next state read next write token htokens =>
        split at h
        · next direction hdirection =>
            refine ⟨state, read, next, write, direction, ?_, (Except.ok.inj h).symm⟩
            rw [htokens, Direction.ofToken?_eq_some_iff.1 hdirection]
        · cases h
    · cases h
  · rintro ⟨state, read, next, write, direction, htokens, rfl⟩
    simp only [htokens, Direction.ofToken?_eq_some_iff.2 rfl]

/-- The transition on a line can be added exactly if the line holds one and no other one fires on
the same state and symbol. -/
theorem addLine_eq_ok_iff {p q : Program} {line : Line} (h : p.tapeCount = 1) :
    addLine p line = .ok q ↔ ∃ t, line.transition = .ok t ∧
      p.transitions.contains t.key = false ∧
      { p with transitions := p.transitions.insert t } = q := by
  unfold addLine
  cases ht : line.transition with
  | error fault => simp
  | ok t =>
      obtain ⟨state, read, next, write, direction, _, rfl⟩ := Line.transition_eq_ok_iff.1 ht
      have hcount : (Transition.single state read next write direction).tapeCount? =
          some p.tapeCount := by
        rw [h]
        rfl
      have hadd := (Program.addTransition_eq_ok_iff (q := q)).trans (and_iff_right hcount)
      simp only [Except.ok.injEq, exists_eq_left']
      rw [← hadd]
      split <;> simp_all

/-- The transitions on lines can be added exactly if all lines hold one, and no two of them and of
those that are there fire on the same state and symbol. -/
theorem foldlM_addLine_eq_ok_iff {p q : Program} {lines : List Line} (h : p.tapeCount = 1) :
    lines.foldlM addLine p = .ok q ↔ ∃ ts : List Transition,
      lines.map Line.transition = ts.map .ok ∧
      (ts.map Transition.key).Nodup ∧ (∀ t ∈ ts, p.transitions.contains t.key = false) ∧
      { p with transitions := ts.foldl KeyedSet.insert p.transitions } = q := by
  induction lines generalizing p with
  | nil =>
      simp [pure, Except.pure]
  | cons line lines ih =>
      rw [List.foldlM_cons]
      constructor
      · intro hfold
        cases hline : addLine p line with
        | error e => simp [hline, bind, Except.bind] at hfold
        | ok next =>
            rw [hline] at hfold
            obtain ⟨t, ht, hfresh, rfl⟩ := (addLine_eq_ok_iff h).1 hline
            obtain ⟨ts, hts, hnodup, hold, rfl⟩ := (ih (by exact h)).1 hfold
            obtain ⟨hfirst, hold⟩ := TransitionTable.forall_contains_insert_eq_false_iff.1 hold
            exact ⟨t :: ts, by simp [ht, hts], List.nodup_cons.2 ⟨hfirst, hnodup⟩,
              List.forall_mem_cons.2 ⟨hfresh, hold⟩, rfl⟩
      · rintro ⟨ts, hts, hnodup, hold, rfl⟩
        cases ts with
        | nil => simp at hts
        | cons t ts =>
            obtain ⟨ht, hts⟩ := List.cons.inj hts
            obtain ⟨hfirst, hnodup⟩ := List.nodup_cons.1 hnodup
            obtain ⟨hfresh, hold⟩ := List.forall_mem_cons.1 hold
            rw [(addLine_eq_ok_iff h).2 ⟨t, ht, hfresh, rfl⟩]
            exact (ih (by exact h)).2 ⟨ts, hts, hnodup,
              TransitionTable.forall_contains_insert_eq_false_iff.2 ⟨hfirst, hold⟩, rfl⟩

/-! ## Assembling -/

/-- What the lines declare, with these transitions. -/
def assembled (lines : List Line) (ts : List Transition) : Program :=
  { declared lines with transitions := ts.foldl KeyedSet.insert ∅ }

/-- Lines assemble a program exactly if the blank that they declare is one of their tape symbols and
all lines from the seventh on hold transitions, no two of them for the same state and symbol. -/
theorem assemble_eq_ok_iff {lines : List Line} {p : Program} :
    assemble lines = .ok p ↔
      (∀ blank, (tokensAt lines 4).head? = some blank →
        (Alphabet.empty.addSymbols (tokensAt lines 2)).contains blank = true) ∧
      ∃ ts : List Transition, (lines.drop 6).map Line.transition = ts.map .ok ∧
        (ts.map Transition.key).Nodup ∧ assembled lines ts = p := by
  unfold assemble
  have hadd (q : Program) : (lines.drop 6).foldlM addLine (declared lines) = .ok q ↔
      ∃ ts : List Transition, (lines.drop 6).map Line.transition = ts.map .ok ∧
        (ts.map Transition.key).Nodup ∧ assembled lines ts = q := by
    rw [foldlM_addLine_eq_ok_iff (p := declared lines) rfl]
    simp only [assembled, declared, KeyedSet.contains_empty, implies_true, true_and]
  cases hdeclare : declare lines with
  | error e =>
      constructor
      · intro h
        cases h
      · rintro ⟨hblank, _⟩
        rw [(declare_eq_ok_iff (p := declared lines)).2 ⟨hblank, rfl⟩] at hdeclare
        cases hdeclare
  | ok q =>
      obtain ⟨hblank, rfl⟩ := declare_eq_ok_iff.1 hdeclare
      exact (hadd p).trans (iff_and_self.2 fun _ => hblank)

/-- The table of an assembled program lists exactly the transitions on the lines. -/
theorem mem_transitions_assembled {lines : List Line} {ts : List Transition}
    (hnodup : (ts.map Transition.key).Nodup) {t : Transition} :
    t ∈ (assembled lines ts).transitions.toList ↔ t ∈ ts := by
  have hmem : t ∈ (ts.foldl KeyedSet.insert ∅).toList ↔ t ∈ ts ∨ t ∈ [] :=
    TransitionTable.mem_foldl_insert hnodup fun _ _ => rfl
  exact hmem.trans (or_iff_left List.not_mem_nil)

end Specification

end TapeMachine
