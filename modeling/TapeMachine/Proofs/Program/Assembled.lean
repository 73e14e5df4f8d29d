import TapeMachine.Program.WellFormed
import TapeMachine.Proofs.Alphabet.Operations

/-!
# Programs assembled by edits

`Program.Assembled` holds of the programs that edits can lead to. An edit that fails yields no
program, so the ones that fail in between leave no trace in an assembled program. Every edit keeps a
program `Coherent`, and a coherent program is assembled by putting in its parts one after another
(`assembled_iff_coherent`). `copier` is a program with two tapes, for use where one is called for.
-/

namespace TapeMachine

namespace Program

/-- The programs that any edits lead to, those that fail left out. -/
inductive Assembled : Program → Prop where
  | withTapes (count : Nat) : Assembled (withTapes count)
  | edit {p q : Program} {e : Edit} {answer : Option Bool} (hp : Assembled p)
      (he : p.edit e = .ok (answer, q)) : Assembled q

/-- What holds of a program however it was assembled, whether or not it is well-formed. -/
structure Coherent (p : Program) : Prop where
  tapeCount : 0 < p.tapeCount
  inputAlphabet : p.inputAlphabet.Proper
  /-- The blank belongs to the tape alphabet. -/
  inputBlank : p.inputAlphabet.blank = none
  tapeAlphabet : p.tapeAlphabet.Proper
  /-- Every transition addresses every tape. -/
  transitions : ∀ t ∈ p.transitions.toList, t.tapeCount? = some p.tapeCount

theorem coherent_withTapes (count : Nat) : (withTapes count).Coherent where
  tapeCount := Nat.lt_of_lt_of_le Nat.zero_lt_one (Nat.le_max_right count 1)
  inputAlphabet := Alphabet.proper_empty
  inputBlank := rfl
  tapeAlphabet := Alphabet.proper_empty
  transitions := List.forall_mem_nil _

theorem edit_transition_eq_ok_iff {p q : Program} {t : Transition} {answer : Option Bool} :
    p.edit (.transition t) = .ok (answer, q) ↔ answer = some true ∧ p.addTransition t = .ok q := by
  cases hadd : p.addTransition t <;> simp [Program.edit, hadd, Except.map, eq_comm]

/-- Every edit that succeeds keeps a program coherent. -/
theorem Coherent.edit {p q : Program} (h : p.Coherent) {e : Edit} {answer : Option Bool}
    (he : p.edit e = .ok (answer, q)) : q.Coherent := by
  cases e with
  | transition t =>
      obtain ⟨_, hadd⟩ := edit_transition_eq_ok_iff.1 he
      obtain ⟨hcount, _, rfl⟩ := addTransition_eq_ok_iff.1 hadd
      refine { h with transitions := fun u hu => ?_ }
      rcases (KeyedSet.mem_toList_insert _).1 hu with rfl | ⟨hu, _⟩
      · exact hcount
      · exact h.transitions u hu
  | state | initialState | acceptingState =>
      obtain ⟨_, rfl⟩ := Prod.mk.inj (Except.ok.inj he)
      exact { h with }
  | inputSymbol symbol =>
      obtain ⟨_, rfl⟩ := Prod.mk.inj (Except.ok.inj he)
      exact { h with
        inputAlphabet := h.inputAlphabet.perform (.addSymbol symbol)
        inputBlank := (Alphabet.blank_addSymbol _ symbol).trans h.inputBlank }
  | tapeSymbol symbol =>
      obtain ⟨_, rfl⟩ := Prod.mk.inj (Except.ok.inj he)
      exact { h with tapeAlphabet := h.tapeAlphabet.perform (.addSymbol symbol) }
  | blank symbol =>
      obtain ⟨_, rfl⟩ := Prod.mk.inj (Except.ok.inj he)
      exact { h with tapeAlphabet := h.tapeAlphabet.perform (.setBlank symbol) }

/-- Edits lead to coherent programs only. -/
theorem Assembled.coherent {p : Program} (h : p.Assembled) : p.Coherent := by
  induction h with
  | withTapes count => exact coherent_withTapes count
  | edit _ he ih => exact ih.edit he

/-- An assembled program has at least one tape. -/
theorem Assembled.tapeCount_pos {p : Program} (h : p.Assembled) : 0 < p.tapeCount :=
  h.coherent.tapeCount

/-- Carrying out edits leads from an assembled program to an assembled one. -/
theorem Assembled.editAll {p q : Program} (hp : p.Assembled) {edits : List Edit}
    (h : p.editAll edits = .ok q) : q.Assembled := by
  induction edits generalizing p with
  | nil =>
      obtain rfl : p = q := Except.ok.inj h
      exact hp
  | cons e edits ih =>
      cases he : p.edit e with
      | error => simp [Program.editAll, List.foldlM, he, Except.map, bind, Except.bind] at h
      | ok result =>
          obtain ⟨answer, next⟩ := result
          refine ih (hp.edit he) ?_
          simpa [Program.editAll, List.foldlM, he, Except.map, bind, Except.bind] using h

/-- What is built by edits alone is assembled. -/
theorem assembled_of_build {count : Nat} {edits : List Edit} {p : Program}
    (h : build count edits = .ok p) : p.Assembled :=
  (Assembled.withTapes count).editAll h

/-- Carry out an edit; one that fails leaves the program as it is. -/
def attempt (p : Program) (e : Edit) : Program :=
  match p.edit e with
  | .ok (_, q) => q
  | .error _ => p

/-- Carry out edits one after another, those that fail left out. -/
def attemptAll (p : Program) (edits : List Edit) : Program := edits.foldl attempt p

theorem Assembled.attempt {p : Program} (h : p.Assembled) (e : Edit) : (p.attempt e).Assembled := by
  unfold Program.attempt
  split
  · next he => exact h.edit he
  · exact h

theorem Assembled.attemptAll {p : Program} (h : p.Assembled) (edits : List Edit) :
    (p.attemptAll edits).Assembled := by
  induction edits generalizing p with
  | nil => exact h
  | cons e edits ih => exact ih (h.attempt e)

/-- No edit changes the number of tapes. -/
theorem tapeCount_edit {p q : Program} {e : Edit} {answer : Option Bool}
    (h : p.edit e = .ok (answer, q)) : q.tapeCount = p.tapeCount := by
  cases e with
  | transition t =>
      obtain ⟨_, hadd⟩ := edit_transition_eq_ok_iff.1 h
      obtain ⟨_, _, rfl⟩ := addTransition_eq_ok_iff.1 hadd
      rfl
  | state | initialState | acceptingState | inputSymbol | tapeSymbol | blank =>
      obtain ⟨_, rfl⟩ := Prod.mk.inj (Except.ok.inj h)
      rfl

theorem tapeCount_attempt (p : Program) (e : Edit) : (p.attempt e).tapeCount = p.tapeCount := by
  unfold attempt
  split
  · next he => exact tapeCount_edit he
  · rfl

section

variable {p : Program} (h : p.Assembled)

include h

theorem Assembled.addStates (names : List String) {s : NameSet}
    (hs : names.foldl (fun s name => (s.insertNew name).2) p.states = s) :
    Assembled { p with states := s } := by
  subst hs
  induction names generalizing p with
  | nil => exact h
  | cons name names ih => exact ih (h.edit (e := .state name) rfl)

theorem Assembled.addInputSymbols (symbols : List Symbol) {a : Alphabet}
    (ha : p.inputAlphabet.addSymbols symbols = a) : Assembled { p with inputAlphabet := a } := by
  subst ha
  induction symbols generalizing p with
  | nil => exact h
  | cons symbol symbols ih => exact ih (h.edit (e := .inputSymbol symbol) rfl)

theorem Assembled.addTapeSymbols (symbols : List Symbol) {a : Alphabet}
    (ha : p.tapeAlphabet.addSymbols symbols = a) : Assembled { p with tapeAlphabet := a } := by
  subst ha
  induction symbols generalizing p with
  | nil => exact h
  | cons symbol symbols ih => exact ih (h.edit (e := .tapeSymbol symbol) rfl)

theorem Assembled.addAcceptingStates (names : List String) {s : NameSet}
    (hs : names.foldl (fun s name => (s.insertNew name).2) p.accepting = s) :
    Assembled { p with accepting := s } := by
  subst hs
  induction names generalizing p with
  | nil => exact h
  | cons name names ih => exact ih (h.edit (e := .acceptingState name) rfl)

/-- Transitions can be put in if they address every tape and no two of them and of those that are
there fire on the same state and symbols. -/
theorem Assembled.addTransitions {ts : List Transition} {table : TransitionTable}
    (htable : ts.foldl KeyedSet.insert p.transitions = table)
    (hnodup : (ts.map Transition.key).Nodup)
    (hold : ∀ t ∈ ts, p.transitions.contains t.key = false)
    (hcount : ∀ t ∈ ts, t.tapeCount? = some p.tapeCount) :
    Assembled { p with transitions := table } := by
  subst htable
  induction ts generalizing p with
  | nil => exact h
  | cons t ts ih =>
      obtain ⟨hfirst, hnodup⟩ := List.nodup_cons.1 hnodup
      obtain ⟨hfresh, hold⟩ := List.forall_mem_cons.1 hold
      obtain ⟨haddresses, hcount⟩ := List.forall_mem_cons.1 hcount
      have hadd := addTransition_eq_ok_iff.2 ⟨haddresses, hfresh, rfl⟩
      have hedit : p.edit (.transition t) =
          .ok (some true, { p with transitions := p.transitions.insert t }) := by
        rw [Program.edit, hadd]
        rfl
      exact ih (h.edit hedit) hnodup
        (TransitionTable.forall_contains_insert_eq_false_iff.2 ⟨hfirst, hold⟩) hcount

end

/-- The parts of a coherent program can be put in one after another. What is left out here are the
initial state and the blank. -/
theorem Coherent.assembled_parts {p : Program} (h : p.Coherent) :
    Assembled { p with initial := none, tapeAlphabet := ⟨p.tapeAlphabet.symbols, none⟩ } := by
  have hempty : Assembled { tapeCount := p.tapeCount } := by
    have hcount : max p.tapeCount 1 = p.tapeCount := Nat.max_eq_left h.tapeCount
    rw [← hcount]
    exact .withTapes p.tapeCount
  have hinput : Alphabet.empty.addSymbols p.inputAlphabet.symbols.toList = p.inputAlphabet :=
    h.inputAlphabet.addSymbols_toList.trans (Alphabet.ext rfl h.inputBlank.symm)
  have hstates := hempty.addStates _ p.states.ofNames_toList
  have hsymbols := (hstates.addInputSymbols _ hinput).addTapeSymbols _
    h.tapeAlphabet.addSymbols_toList
  have haccepting := hsymbols.addAcceptingStates _ p.accepting.ofNames_toList
  exact haccepting.addTransitions p.transitions.foldl_insert_toList p.transitions.nodup_keys
    (fun _ _ => rfl) h.transitions

/-- Every coherent program can be assembled. -/
theorem Coherent.assembled {p : Program} (h : p.Coherent) : p.Assembled := by
  have hnamed : Assembled { p with tapeAlphabet := ⟨p.tapeAlphabet.symbols, none⟩ } := by
    cases hinitial : p.initial with
    | none => exact hinitial ▸ h.assembled_parts
    | some name => exact h.assembled_parts.edit (e := .initialState name) rfl
  cases hblank : p.tapeAlphabet.blank with
  | none =>
      rw [← hblank] at hnamed
      exact hnamed
  | some blank =>
      have hmember := h.tapeAlphabet.contains_blank blank hblank
      have hne : blank ≠ "" := fun heq =>
        Bool.false_ne_true (h.tapeAlphabet.contains_empty.symm.trans (heq ▸ hmember))
      have hset : Alphabet.setBlank ⟨p.tapeAlphabet.symbols, none⟩ blank = p.tapeAlphabet := by
        rw [Alphabet.setBlank_of_contains ⟨p.tapeAlphabet.symbols, none⟩ hne hmember]
        exact Alphabet.ext rfl hblank.symm
      have hassembled := hnamed.edit (e := .blank blank) rfl
      unfold setBlank at hassembled
      rw [hset] at hassembled
      exact hassembled

/-- Edits lead to the coherent programs, and to no others. -/
theorem assembled_iff_coherent {p : Program} : p.Assembled ↔ p.Coherent :=
  ⟨Assembled.coherent, Coherent.assembled⟩

/-! ## A program with two tapes -/

/-- The edits that assemble `copier`. -/
def copierEdits : List Edit := [
  .state "copy", .state "done", .inputSymbol "0", .inputSymbol "1", .tapeSymbol "0",
  .tapeSymbol "1", .initialState "copy", .blank "_", .acceptingState "done",
  .transition ⟨"copy", ["0", "_"], "copy", ["0", "0"], [.right, .right]⟩,
  .transition ⟨"copy", ["1", "_"], "copy", ["1", "1"], [.right, .right]⟩,
  .transition ⟨"copy", ["_", "_"], "done", ["_", "_"], [.stay, .left]⟩]

/-- Copies a binary word from the first to the second tape and then accepts. -/
def copier : Program := (build 2 copierEdits).toOption.getD {}

theorem build_copier : build 2 copierEdits = .ok copier := rfl

theorem violation?_copier : copier.violation? = none := by decide

end Program

end TapeMachine
