import TapeMachine.Proofs.Catalog.Programs

/-!
# The machine for zeros followed by as many ones

`zerosThenOnes` works in rounds. A round marks the first zero that is left with `X`, looks for the
first one on its right and marks that with `Y` (`takes_round`). Between them are zeros and earlier
`Y`s only, which both sweeps pass over. When a `Y` comes first, all zeros have been paired, and
nothing but `Y`s may be left (`takes_check`). What a round leaves behind is balanced exactly if what
it started from was (`Balanced.of_round`), so the words of `n` zeros and `n` ones are accepted, in
`2 * (n * n) + 2 * n + 1` steps, and no others (`zerosThenOnes_decides`).
-/

namespace TapeMachine.Catalog

namespace ZerosThenOnes

open Specification (Layout)

/-- What the specification of the machine lists. -/
def layout : Layout where
  states := ["q0", "q1", "q2", "q3", "qa"]
  inputSymbols := ["0", "1"]
  tapeSymbols := ["0", "1", "X", "Y", "_"]
  initial := ["q0"]
  blank := ["_"]
  accepting := ["qa"]
  transitions := [
    ["q0", "0", "q1", "X", "R"], ["q0", "Y", "q3", "Y", "R"], ["q0", "_", "qa", "_", "R"],
    ["q1", "0", "q1", "0", "R"], ["q1", "Y", "q1", "Y", "R"], ["q1", "1", "q2", "Y", "L"],
    ["q2", "0", "q2", "0", "L"], ["q2", "Y", "q2", "Y", "L"], ["q2", "X", "q0", "X", "R"],
    ["q3", "Y", "q3", "Y", "R"], ["q3", "_", "qa", "_", "R"]]

theorem exists_program :
    ∃ p, programNamed "zeros-then-ones" = .ok p ∧ layout.Denotes p ∧
      ∃ m, Machine.ofProgram p = .ok m ∧ m.program = p :=
  exists_programNamed zerosThenOnes (by decide +kernel) (by decide +kernel) (by decide +kernel)
    (by decide +kernel) (by decide +kernel)

theorem isBinary_layout : IsBinary layout where
  inputSymbols symbol hsymbol := by
    rcases hsymbol with rfl | rfl <;> decide
  initial := rfl
  blank := rfl
  accepting := rfl

/-- The symbols that both sweeps pass over. -/
def IsPassed (symbol : Symbol) : Prop := symbol = "0" ∨ symbol = "Y"

/-- What the machine does in every state, where `q0` begins a round, `q1` looks for a one, `q2` goes
back and `q3` looks for what is left. -/
structure Rules (p : Program) : Prop where
  mark : p.transitions.get? "q0" ["0"] = some (.single "q0" "0" "q1" "X" .right)
  /-- There is no zero for this one. -/
  noZero : p.transitions.get? "q0" ["1"] = none
  search : ∀ a, IsPassed a → p.transitions.get? "q1" [a] = some (.single "q1" a "q1" a .right)
  pair : p.transitions.get? "q1" ["1"] = some (.single "q1" "1" "q2" "Y" .left)
  /-- There is no one for the zero that was marked. -/
  noOne : p.transitions.get? "q1" ["_"] = none
  goBack : ∀ a, IsPassed a → p.transitions.get? "q2" [a] = some (.single "q2" a "q2" a .left)
  restart : p.transitions.get? "q2" ["X"] = some (.single "q2" "X" "q0" "X" .right)
  check : p.transitions.get? "q0" ["Y"] = some (.single "q0" "Y" "q3" "Y" .right)
  checkNext : p.transitions.get? "q3" ["Y"] = some (.single "q3" "Y" "q3" "Y" .right)
  /-- A symbol of the word is left. -/
  leftOver : ∀ a, IsBit a → p.transitions.get? "q3" [a] = none
  finish : p.transitions.get? "q3" ["_"] = some (.single "q3" "_" "qa" "_" .right)
  /-- The word was empty. -/
  finishEmpty : p.transitions.get? "q0" ["_"] = some (.single "q0" "_" "qa" "_" .right)
  accepting : ∀ state, p.isAccepting state = decide (state = "qa")

theorem rules_of_denotes {p : Program} (h : layout.Denotes p) : Rules p where
  mark := h.get?_of_mem (by decide)
  noZero := h.get?_eq_none (by decide)
  search a ha := by
    rcases ha with rfl | rfl <;> exact h.get?_of_mem (by decide)
  pair := h.get?_of_mem (by decide)
  noOne := h.get?_eq_none (by decide)
  goBack a ha := by
    rcases ha with rfl | rfl <;> exact h.get?_of_mem (by decide)
  restart := h.get?_of_mem (by decide)
  check := h.get?_of_mem (by decide)
  checkNext := h.get?_of_mem (by decide)
  leftOver a ha := by
    rcases ha with rfl | rfl <;> exact h.get?_eq_none (by decide)
  finish := h.get?_of_mem (by decide)
  finishEmpty := h.get?_of_mem (by decide)
  accepting := isBinary_layout.isAccepting h

/-! ## Words between rounds -/

/-- The symbols behind the `X`s: first those that the sweeps have passed over, and then those of the
word that have not been looked at. -/
inductive IsPending : List Symbol → Prop where
  | word {word : List Symbol} (hword : ∀ a ∈ word, IsBit a) : IsPending word
  | passed {a : Symbol} {rest : List Symbol} (ha : IsPassed a) (hrest : IsPending rest) :
      IsPending (a :: rest)

variable {passed word rest : List Symbol}

/-- What a round leaves behind is pending. -/
theorem isPending_append (hpassed : ∀ a ∈ passed, IsPassed a) (hword : ∀ a ∈ word, IsBit a) :
    IsPending (passed ++ "Y" :: word) := by
  induction passed with
  | nil => exact .passed (.inr rfl) (.word hword)
  | cons a passed ih =>
      obtain ⟨ha, hpassed⟩ := List.forall_mem_cons.1 hpassed
      exact .passed ha (ih hpassed)

theorem IsPending.tail {a : Symbol} (h : IsPending (a :: rest)) : IsPending rest := by
  cases h with
  | word hword => exact .word (List.forall_mem_cons.1 hword).2
  | passed _ hrest => exact hrest

/-- Either there is a first one among the pending symbols, or all of them are passed over. -/
theorem IsPending.exists_first_one (h : IsPending rest) :
    (∀ a ∈ rest, IsPassed a) ∨ ∃ passed word, rest = passed ++ "1" :: word ∧
      (∀ a ∈ passed, IsPassed a) ∧ ∀ a ∈ word, IsBit a := by
  induction rest with
  | nil => exact .inl (List.forall_mem_nil _)
  | cons a rest ih =>
      have hfirst : IsPassed a ∨ a = "1" ∧ ∀ b ∈ rest, IsBit b := by
        cases h with
        | word hword =>
            obtain ⟨ha, hrest⟩ := List.forall_mem_cons.1 hword
            exact ha.imp .inl fun ha => ⟨ha, hrest⟩
        | passed ha _ => exact .inl ha
      rcases hfirst with ha | ⟨rfl, hrest⟩
      · rcases ih h.tail with hall | ⟨passed, word, rfl, hpassed, hword⟩
        · exact .inl (List.forall_mem_cons.2 ⟨ha, hall⟩)
        · exact .inr ⟨a :: passed, word, rfl, List.forall_mem_cons.2 ⟨ha, hpassed⟩, hword⟩
      · exact .inr ⟨[], rest, rfl, List.forall_mem_nil _, hrest⟩

/-- Pending symbols are some `Y`s, behind which there is nothing or a symbol of the word. -/
theorem IsPending.exists_replicate (h : IsPending rest) :
    ∃ n, rest = List.replicate n "Y" ∨
      ∃ a back, rest = List.replicate n "Y" ++ a :: back ∧ IsBit a := by
  induction h with
  | @word word hword =>
      cases word with
      | nil => exact ⟨0, .inl rfl⟩
      | cons a word => exact ⟨0, .inr ⟨a, word, rfl, hword a List.mem_cons_self⟩⟩
  | @passed a rest ha _ ih =>
      rcases ha with rfl | rfl
      · exact ⟨0, .inr ⟨"0", rest, rfl, .inl rfl⟩⟩
      · obtain ⟨n, rfl | ⟨b, back, rfl, hb⟩⟩ := ih
        · exact ⟨n + 1, .inl rfl⟩
        · exact ⟨n + 1, .inr ⟨b, back, rfl, hb⟩⟩

/-- As many zeros as ones, with the ones that have been paired between them. -/
def Balanced (rest : List Symbol) : Prop :=
  ∃ n paired, rest =
    List.replicate n "0" ++ (List.replicate paired "Y" ++ List.replicate n "1")

/-- Two words with the same last occurrence of a symbol are the same on both sides of it. -/
theorem eq_of_append_cons_eq {α : Type} {a : α} {front front' back back' : List α}
    (hback : a ∉ back) (hback' : a ∉ back') (h : front ++ a :: back = front' ++ a :: back') :
    front = front' ∧ back = back' := by
  rcases List.append_eq_append_iff.1 h with ⟨l, hfront, hl⟩ | ⟨l, hfront, hl⟩
  · cases l with
    | nil => exact ⟨by simpa using hfront.symm, (List.cons.inj hl).2⟩
    | cons b l =>
        -- The occurrence in front of the shorter back would be one within the longer back.
        obtain ⟨rfl, rfl⟩ := List.cons.inj hl
        exact absurd (List.mem_append_right l List.mem_cons_self) hback
  · cases l with
    | nil => exact ⟨by simpa using hfront, (List.cons.inj hl).2.symm⟩
    | cons b l =>
        obtain ⟨rfl, rfl⟩ := List.cons.inj hl
        exact absurd (List.mem_append_right l List.mem_cons_self) hback'

theorem not_isBit_Y : ¬ IsBit "Y" := by
  unfold IsBit
  decide

/-- If what a round leaves behind is balanced, so is what it started from. -/
theorem Balanced.of_round (hword : ∀ a ∈ word, IsBit a)
    (h : Balanced (passed ++ "Y" :: word)) : Balanced ("0" :: (passed ++ "1" :: word)) := by
  obtain ⟨n, paired, heq⟩ := h
  cases paired with
  | zero =>
      -- Without a `Y` this would not be what a round leaves behind.
      have hmem : "Y" ∈ passed ++ "Y" :: word :=
        List.mem_append_right passed List.mem_cons_self
      rw [heq] at hmem
      simp at hmem
  | succ paired =>
      have hword : "Y" ∉ word := fun hmem => not_isBit_Y (hword "Y" hmem)
      have hones : "Y" ∉ List.replicate n "1" := by simp
      have hsplit : passed ++ "Y" :: word =
          (List.replicate n "0" ++ List.replicate paired "Y") ++ "Y" :: List.replicate n "1" := by
        rw [heq, List.replicate_succ']
        simp only [List.append_assoc, List.singleton_append]
      obtain ⟨rfl, rfl⟩ := eq_of_append_cons_eq hword hones hsplit
      refine ⟨n + 1, paired, ?_⟩
      simp only [List.replicate_succ, List.append_assoc, List.cons_append]

/-- A binary word is balanced exactly if it has some zeros and then as many ones. -/
theorem balanced_iff (hword : ∀ a ∈ word, IsBit a) :
    Balanced word ↔ ∃ n, word = List.replicate n "0" ++ List.replicate n "1" := by
  constructor
  · rintro ⟨n, paired, rfl⟩
    cases paired with
    | zero => exact ⟨n, rfl⟩
    | succ paired => exact absurd (hword "Y" (by simp)) not_isBit_Y
  · rintro ⟨n, rfl⟩
    exact ⟨n, 0, rfl⟩

/-! ## Rounds -/

/-- The start of a round, after as many rounds as there are `X`s in front of the head. -/
abbrev roundStart (rounds : Nat) (rest : List Symbol) : Point :=
  ⟨"q0", wordTape 0 (List.replicate rounds "X" ++ rest) rounds⟩

/-- One more `X` belongs to those in front of it. -/
theorem replicate_append_cons (n : Nat) (rest : List Symbol) :
    List.replicate n "X" ++ "X" :: rest = List.replicate (n + 1) "X" ++ rest := by
  rw [List.replicate_succ', List.append_assoc, List.singleton_append]

section

variable {p : Program} (rules : Rules p) (rounds : Nat)

include rules

/-- The zero under the head is marked. -/
theorem takes_mark (rest : List Symbol) :
    p.Takes 1 1 (roundStart rounds ("0" :: rest))
      ⟨"q1", wordTape 0 (List.replicate (rounds + 1) "X" ++ rest) (rounds + 1)⟩ none := by
  have hone := Program.takes_replacement "_" 0 (List.replicate rounds "X") rest rules.mark
    (isAccepting_of_ne rules.accepting (by decide))
  rwa [replicate_append_cons, List.length_replicate, Int.zero_add, Direction.offset] at hone

/-- The head passes over zeros and `Y`s on the right of the zero that was marked. -/
theorem takes_search (hpassed : ∀ a ∈ passed, IsPassed a) (back : List Symbol) :
    p.Takes passed.length passed.length
      ⟨"q1", wordTape 0 (List.replicate rounds "X" ++ (passed ++ back)) rounds⟩
      ⟨"q1", wordTape 0 (List.replicate rounds "X" ++ (passed ++ back))
        (rounds + passed.length)⟩ none := by
  have hsweep := Program.takes_sweep_right "_" 0 (List.replicate rounds "X") back
    (isAccepting_of_ne rules.accepting (by decide)) fun a ha => rules.search a (hpassed a ha)
  simp only [List.length_replicate, Int.zero_add] at hsweep
  exact hsweep

/-- The first one is marked, and the head goes back to the last `X`. -/
theorem takes_pair (hpassed : ∀ a ∈ passed, IsPassed a) (back : List Symbol) :
    p.Takes (passed.length + 1) (passed.length + 1)
      ⟨"q1", wordTape 0 (List.replicate rounds "X" ++ (passed ++ "1" :: back))
        (rounds + passed.length)⟩
      ⟨"q2", wordTape 0 (List.replicate rounds "X" ++ (passed ++ "Y" :: back)) (rounds - 1)⟩
      none := by
  have hone := Program.takes_replacement "_" 0 (List.replicate rounds "X" ++ passed) back rules.pair
    (isAccepting_of_ne rules.accepting (by decide))
  have hsweep := Program.takes_sweep_left "_" 0 (List.replicate rounds "X") ("Y" :: back)
    (isAccepting_of_ne rules.accepting (by decide)) fun a ha => rules.goBack a (hpassed a ha)
  simp only [List.append_assoc, List.length_append, List.length_replicate, Int.zero_add,
    Int.natCast_add, Direction.offset] at hone hsweep
  have hboth := hone.trans hsweep
  rwa [Nat.add_comm 1] at hboth

/-- From the last `X` the head begins the next round. -/
theorem takes_restart (rest : List Symbol) :
    p.Takes 1 1
      ⟨"q2", wordTape 0 (List.replicate (rounds + 1) "X" ++ rest) ((rounds + 1 : Nat) - 1)⟩
      (roundStart (rounds + 1) rest) none := by
  have hone := Program.takes_replacement "_" 0 (List.replicate rounds "X") rest rules.restart
    (isAccepting_of_ne rules.accepting (by decide))
  have hhead : ((rounds + 1 : Nat) : Int) - 1 = rounds := by omega
  rw [replicate_append_cons, List.length_replicate, Int.zero_add, Direction.offset] at hone
  rw [hhead]
  exact hone

/-- A round marks the first zero and the first one, with nothing but zeros and `Y`s between them. -/
theorem takes_round (hpassed : ∀ a ∈ passed, IsPassed a) (back : List Symbol) :
    p.Takes (2 * passed.length + 3) (2 * passed.length + 3)
      (roundStart rounds ("0" :: (passed ++ "1" :: back)))
      (roundStart (rounds + 1) (passed ++ "Y" :: back)) none := by
  have hmark := takes_mark rules rounds (passed ++ "1" :: back)
  have hsearch := takes_search rules (rounds + 1) hpassed ("1" :: back)
  have hpair := takes_pair rules (rounds + 1) hpassed back
  have hrestart := takes_restart rules rounds (passed ++ "Y" :: back)
  have hall := ((hmark.trans hsearch).trans hpair).trans hrestart
  have hcount : 1 + passed.length + (passed.length + 1) + 1 = 2 * passed.length + 3 := by omega
  rwa [hcount] at hall

/-! ## Verdicts -/

/-- When all zeros have been paired, the head passes over the `Y`s. -/
theorem takes_check (n : Nat) (back : List Symbol) :
    let front := List.replicate rounds "X" ++ List.replicate (n + 1) "Y"
    p.Takes (n + 1) (n + 1) (roundStart rounds (List.replicate (n + 1) "Y" ++ back))
      ⟨"q3", wordTape 0 (front ++ back) (0 + front.length)⟩ none := by
  intro front
  have hone := Program.takes_replacement "_" 0 (List.replicate rounds "X")
    (List.replicate n "Y" ++ back) rules.check
    (isAccepting_of_ne rules.accepting (by decide))
  have hkept : ∀ a ∈ List.replicate n "Y",
      p.transitions.get? "q3" [a] = some (.single "q3" a "q3" a .right) := by
    intro a ha
    rw [List.eq_of_mem_replicate ha]
    exact rules.checkNext
  have hsweep := Program.takes_sweep_right "_" 0 (List.replicate rounds "X" ++ ["Y"]) back
    (isAccepting_of_ne rules.accepting (by decide)) hkept
  simp only [front, List.replicate_succ, List.append_assoc, List.cons_append, List.nil_append,
    List.length_append, List.length_cons, List.length_nil, List.length_replicate,
    Int.natCast_add, Int.zero_add, Direction.offset] at hone hsweep ⊢
  have hboth := hone.trans hsweep
  have hhead : (rounds : Int) + ((0 : Nat) + (1 : Nat)) + n = rounds + (n + (1 : Nat)) := by omega
  rwa [hhead, Nat.add_comm 1] at hboth

/-- With nothing but `Y`s left the machine accepts. -/
theorem takes_finish (n : Nat) :
    ∃ head, p.Takes (n + 1) (n + 1) (roundStart rounds (List.replicate n "Y"))
      ⟨"qa", wordTape 0 (List.replicate rounds "X" ++ List.replicate n "Y") head⟩
      (some .accept) := by
  cases n with
  | zero =>
      have hread : (wordTape 0 (List.replicate rounds "X" ++ []) rounds).read = "_" :=
        InfiniteTape.read_ofWord_of_le (by simp)
      exact ⟨_, Program.takes_acceptance hread rules.finishEmpty (rules.accepting "qa")⟩
  | succ n =>
      have hcheck := takes_check rules rounds n []
      simp only [List.append_nil] at hcheck
      have hread : (wordTape 0 (List.replicate rounds "X" ++ List.replicate (n + 1) "Y")
          (0 + (List.replicate rounds "X" ++ List.replicate (n + 1) "Y").length)).read = "_" :=
        InfiniteTape.read_ofWord_of_le (Int.le_refl _)
      exact ⟨_, hcheck.trans
        (Program.takes_acceptance hread rules.finish (rules.accepting "qa"))⟩

/-- The number of steps from the start of a round with `n` zeros and ones left. -/
def steps (n paired : Nat) : Nat := n * (2 * (n + paired) + 1) + (n + paired + 1)

/-- A balanced rest is accepted, and all of it is marked then. -/
theorem takes_balanced (n paired : Nat) :
    ∃ head, p.Takes (steps n paired) (steps n paired)
      (roundStart rounds
        (List.replicate n "0" ++ (List.replicate paired "Y" ++ List.replicate n "1")))
      ⟨"qa", wordTape 0 (List.replicate (rounds + n) "X" ++ List.replicate (paired + n) "Y") head⟩
      (some .accept) := by
  induction n generalizing rounds paired with
  | zero =>
      have hsteps : steps 0 paired = paired + 1 := by
        unfold steps
        omega
      simpa [hsteps] using takes_finish rules rounds paired
  | succ n ih =>
      have hpassed : ∀ a ∈ List.replicate n "0" ++ List.replicate paired "Y", IsPassed a := by
        intro a ha
        rcases List.mem_append.1 ha with ha | ha
        · exact .inl (List.eq_of_mem_replicate ha)
        · exact .inr (List.eq_of_mem_replicate ha)
      have hround := takes_round rules rounds hpassed (List.replicate n "1")
      obtain ⟨head, hrest⟩ := ih (rounds + 1) (paired + 1)
      have hstart : "0" :: (List.replicate n "0" ++ List.replicate paired "Y" ++
          "1" :: List.replicate n "1") = List.replicate (n + 1) "0" ++
            (List.replicate paired "Y" ++ List.replicate (n + 1) "1") := by
        simp only [List.replicate_succ, List.append_assoc, List.cons_append]
      have hnext : List.replicate n "0" ++ List.replicate paired "Y" ++
          "Y" :: List.replicate n "1" = List.replicate n "0" ++
            (List.replicate (paired + 1) "Y" ++ List.replicate n "1") := by
        rw [List.replicate_succ']
        simp only [List.append_assoc, List.singleton_append]
      have hcount : 2 * (List.replicate n "0" ++ List.replicate paired "Y").length + 3 +
          steps n (paired + 1) = steps (n + 1) paired := by
        unfold steps
        rw [List.length_append, List.length_replicate, List.length_replicate]
        grind
      rw [hstart, hnext] at hround
      have hall := hround.trans hrest
      rw [hcount, Nat.add_right_comm rounds, Nat.add_right_comm paired] at hall
      exact ⟨head, hall⟩

/-- A zero without a one behind it is rejected. -/
theorem takes_no_one (hpassed : ∀ a ∈ passed, IsPassed a) :
    ∃ c r, p.Takes (passed.length + 2) (passed.length + 1) (roundStart rounds ("0" :: passed)) c
      (some (.reject r)) := by
  have hmark := takes_mark rules rounds passed
  have hsearch := takes_search rules (rounds + 1) hpassed []
  rw [List.append_nil] at hsearch
  have hread : (wordTape 0 (List.replicate (rounds + 1) "X" ++ passed)
      ((rounds + 1 : Nat) + passed.length)).read = "_" :=
    InfiniteTape.read_ofWord_of_le (by simp)
  have hall := (hmark.trans hsearch).trans (Program.takes_rejection hread rules.noOne)
  rw [Nat.add_comm 1, Nat.add_zero] at hall
  exact ⟨_, _, hall⟩

/-- A symbol of the word behind `Y`s, or a one at the beginning, is rejected. -/
theorem takes_left_over {n : Nat} {a : Symbol} (ha : IsBit a) (hone : n = 0 → a = "1")
    (back : List Symbol) :
    ∃ c r, p.Takes (n + 1) n (roundStart rounds (List.replicate n "Y" ++ a :: back)) c
      (some (.reject r)) := by
  cases n with
  | zero =>
      have hread : (wordTape 0 (List.replicate rounds "X" ++ a :: back)
          (0 + (List.replicate rounds "X").length)).read = a :=
        InfiniteTape.read_ofWord_append
      rw [List.length_replicate, Int.zero_add] at hread
      rw [hone rfl] at hread ⊢
      exact ⟨_, _, Program.takes_rejection hread rules.noZero⟩
  | succ n =>
      have hcheck := takes_check rules rounds n (a :: back)
      let front := List.replicate rounds "X" ++ List.replicate (n + 1) "Y"
      have hread : (wordTape 0 (front ++ a :: back) (0 + front.length)).read = a :=
        InfiniteTape.read_ofWord_append
      exact ⟨_, _, hcheck.trans (Program.takes_rejection hread (rules.leftOver a ha))⟩

/-- All other rests are rejected. -/
theorem takes_other (hpending : IsPending rest) (h : ¬ Balanced rest) :
    ∃ attempts applied c r, attempts ≤ (rest.length + 1) * (rest.length + 1) ∧
      p.Takes attempts applied (roundStart rounds rest) c (some (.reject r)) := by
  -- The induction is on the number of pending symbols, of which every round leaves one less.
  generalize hlength : rest.length = length
  induction length generalizing rounds rest with
  | zero =>
      rw [List.eq_nil_of_length_eq_zero hlength] at h
      exact absurd ⟨0, 0, rfl⟩ h
  | succ length ih =>
      have hsquare : length + 1 + 1 ≤ (length + 1 + 1) * (length + 1 + 1) :=
        Nat.le_mul_self (length + 1 + 1)
      obtain ⟨n, rfl | ⟨a, back, rfl, ha⟩⟩ := hpending.exists_replicate
      · exact absurd ⟨0, n, by simp⟩ h
      simp only [List.length_append, List.length_replicate, List.length_cons] at hlength
      by_cases hone : n = 0 → a = "1"
      · obtain ⟨c, r, htakes⟩ := takes_left_over rules rounds ha hone back
        exact ⟨_, _, c, r, by omega, htakes⟩
      obtain ⟨rfl, hne⟩ := Classical.not_imp.1 hone
      obtain rfl := ha.resolve_right hne
      rcases hpending.tail.exists_first_one with hpassed | ⟨passed, word, rfl, hpassed, hword⟩
      · obtain ⟨c, r, htakes⟩ := takes_no_one rules rounds hpassed
        exact ⟨_, _, c, r, by omega, htakes⟩
      · rw [List.length_append, List.length_cons] at hlength
        have hround := takes_round rules rounds hpassed word
        obtain ⟨attempts, applied, c, r, hle, htakes⟩ :=
          ih (rounds + 1) (isPending_append hpassed hword)
            (fun hbalanced => h (hbalanced.of_round hword))
            (by rw [List.length_append, List.length_cons]; omega)
        have hgrow : (length + 1 + 1) * (length + 1 + 1) =
            (length + 1) * (length + 1) + (2 * length + 3) := by grind
        exact ⟨_, _, c, r, by omega, hround.trans htakes⟩

end

/-! ## The machine of the catalog -/

/-- The symbols of some zeros and as many ones. -/
theorem map_singleton_eq_iff {chars : List Char} {n : Nat} :
    chars.map String.singleton = List.replicate n "0" ++ List.replicate n "1" ↔
      chars = List.replicate n '0' ++ List.replicate n '1' := by
  have hmap : List.replicate n "0" ++ List.replicate n "1" =
      (List.replicate n '0' ++ List.replicate n '1').map String.singleton := by
    rw [List.map_append, List.map_replicate, List.map_replicate]
    rfl
  rw [hmap]
  exact List.map_inj_right fun c c' => String.singleton_inj.1

/-- The tape that is left begins with an `X` and ends with a `Y`, unless it is blank. -/
theorem isTrimmed_marked (n : Nat) :
    IsTrimmed "_" (List.replicate n "X" ++ List.replicate n "Y") := by
  cases n with
  | zero => exact ⟨nofun, nofun⟩
  | succ n =>
      refine ⟨?_, ?_⟩
      · rintro _ ⟨⟩
        decide
      · rw [List.getLast?_append, List.replicate_succ' (a := "Y"), List.getLast?_concat]
        rintro _ ⟨⟩
        decide

/-- What is left on the tape, as a text. -/
theorem join_marked (n : Nat) :
    String.join (List.replicate n "X" ++ List.replicate n "Y") =
      String.ofList (List.replicate n 'X' ++ List.replicate n 'Y') := by
  rw [← join_map_singleton, List.map_append, List.map_replicate, List.map_replicate]
  rfl

section

variable {m : Machine} (h : layout.Denotes m.program) {w : String}
  (hw : ∀ c ∈ w.toList, c = '0' ∨ c = '1') {budget : Nat}
  (hbudget : 2 * ((w.length + 1) * (w.length + 1)) ≤ budget)

include h hw hbudget

theorem execute_balanced {n : Nat}
    (hbalanced : w.toList = List.replicate n '0' ++ List.replicate n '1') :
    ∃ final, m.execute w budget = .ok (.accepted, final) ∧
      final.stepCount = 2 * (n * n) + 2 * n + 1 ∧
      final.content = String.ofList (List.replicate n 'X' ++ List.replicate n 'Y') := by
  have hlength : w.length = n + n := by
    rw [← String.length_toList, hbalanced, List.length_append, List.length_replicate,
      List.length_replicate]
  have hsteps : steps n 0 = 2 * (n * n) + 2 * n + 1 := by
    unfold steps
    grind
  have hle : steps n 0 ≤ budget := by
    rw [hlength] at hbudget
    refine Nat.le_trans ?_ hbudget
    rw [hsteps]
    grind
  obtain ⟨head, htakes⟩ := takes_balanced (rules_of_denotes h) 0 n 0
  simp only [List.replicate_zero, List.nil_append, Nat.zero_add] at htakes
  rw [← map_singleton_eq_iff.2 hbalanced] at htakes
  obtain ⟨final, e, hexecute, hfinal, hend⟩ :=
    isBinary_layout.execute_of_takes h hw htakes hle
  refine ⟨final, hexecute, (Machine.stepCount_of_isAt hfinal hend).trans hsteps, ?_⟩
  rw [Machine.content_of_isAt hfinal (isBinary_layout.blank_eq h) hend (isTrimmed_marked n)]
  exact join_marked n

theorem execute_other
    (hother : ¬ ∃ n, w.toList = List.replicate n '0' ++ List.replicate n '1') :
    ∃ final, m.execute w budget = .ok (.rejected, final) := by
  have hbits := isBit_of_mem_toList hw
  have hbalanced : ¬ Balanced (w.toList.map String.singleton) := fun hbalanced => by
    obtain ⟨n, hn⟩ := (balanced_iff hbits).1 hbalanced
    exact hother ⟨n, map_singleton_eq_iff.1 hn⟩
  obtain ⟨attempts, applied, c, r, hle, htakes⟩ :=
    takes_other (rules_of_denotes h) 0 (.word hbits) hbalanced
  rw [List.length_map, String.length_toList] at hle
  have hbound : attempts ≤ budget := by omega
  obtain ⟨final, e, hexecute, _⟩ := isBinary_layout.execute_of_takes h hw htakes hbound
  exact ⟨final, hexecute⟩

end

end ZerosThenOnes

open ZerosThenOnes in
/-- The machine for zeros and as many ones accepts a word of `n` zeros and `n` ones, in exactly
`2 * (n * n) + 2 * n + 1` steps and with all of it marked, and it rejects all other words. -/
theorem zerosThenOnes_decides (w : String) (hw : ∀ c ∈ w.toList, c = '0' ∨ c = '1')
    (budget : Nat) (hbudget : 2 * ((w.length + 1) * (w.length + 1)) ≤ budget) :
    ∃ p, programNamed "zeros-then-ones" = .ok p ∧
      (∃ m, Machine.ofProgram p = .ok m ∧ m.program = p) ∧
      ∀ m : Machine, m.program = p →
        (∀ n, w.toList = List.replicate n '0' ++ List.replicate n '1' →
          ∃ final, m.execute w budget = .ok (.accepted, final) ∧
            final.stepCount = 2 * (n * n) + 2 * n + 1 ∧
            final.content = String.ofList (List.replicate n 'X' ++ List.replicate n 'Y')) ∧
        ((¬ ∃ n, w.toList = List.replicate n '0' ++ List.replicate n '1') →
          ∃ final, m.execute w budget = .ok (.rejected, final)) := by
  obtain ⟨p, hp, hmeans, hmachine⟩ := exists_program
  refine ⟨p, hp, hmachine, ?_⟩
  rintro m rfl
  exact ⟨fun n hn => execute_balanced hmeans hw hbudget hn,
    fun hother => execute_other hmeans hw hbudget hother⟩

/-- Two zeros and two ones take 13 steps. -/
theorem zerosThenOnes_decides_two :
    (∀ c ∈ "0011".toList, c = '0' ∨ c = '1') ∧
      2 * (("0011".length + 1) * ("0011".length + 1)) ≤ 50 ∧
      ∃ p m final, programNamed "zeros-then-ones" = .ok p ∧ Machine.ofProgram p = .ok m ∧
        m.execute "0011" 50 = .ok (.accepted, final) ∧ final.stepCount = 13 ∧
        final.content = "XXYY" := by
  have hw : ∀ c ∈ "0011".toList, c = '0' ∨ c = '1' := by simp
  have hbudget : 2 * (("0011".length + 1) * ("0011".length + 1)) ≤ 50 := by decide
  refine ⟨hw, hbudget, ?_⟩
  obtain ⟨p, hp, ⟨m, hm, hprogram⟩, hdecides⟩ := zerosThenOnes_decides "0011" hw 50 hbudget
  obtain ⟨final, hexecute, hsteps, hcontent⟩ := (hdecides m hprogram).1 2 (by decide)
  exact ⟨p, m, final, hp, hm, hexecute, hsteps, hcontent⟩

end TapeMachine.Catalog
