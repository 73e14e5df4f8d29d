import TapeMachine.Proofs.Specification.Assembly
import TapeMachine.Proofs.Specification.Layout
import TapeMachine.Proofs.Specification.Tokens
import TapeMachine.Machine

/-!
# The specifications that are accepted

A text is accepted exactly if it is small enough and its token lines have a valid layout, and the
program that it specifies is the one that the layout denotes (`program_accepts`). The layout of
lines tells whether they can be assembled (`assemble_eq_ok`), and whether what they assemble is
well-formed.
-/

namespace TapeMachine.Specification

namespace Layout

/-! ## Assembling -/

/-- What lines say by their places, where a missing line says nothing. -/
def ofLines (lines : List Line) : Layout where
  states := tokensAt lines 0
  inputSymbols := tokensAt lines 1
  tapeSymbols := tokensAt lines 2
  initial := tokensAt lines 3
  blank := tokensAt lines 4
  accepting := tokensAt lines 5
  transitions := (lines.drop 6).map Line.tokens

/-- Six lines make a layout. -/
theorem ofLines?_map_tokens (lines : List Line) :
    ofLines? (lines.map Line.tokens) = if 6 ≤ lines.length then some (ofLines lines) else none := by
  match lines with
  | [] | [_] | [_, _] | [_, _, _] | [_, _, _, _] | [_, _, _, _, _] => rfl
  | _ :: _ :: _ :: _ :: _ :: _ :: rest =>
      rw [if_pos (by simp only [List.length_cons]; omega)]
      rfl

section

variable {lines : List Line} {ts : List Transition}

/-- The transitions that lines hold are those that their tokens spell. -/
theorem mem_iff_tokens_mem (hts : lines.map Line.transition = ts.map .ok) {t : Transition} :
    t ∈ ts ↔ ∃ state read next write direction,
      t = .single state read next write direction ∧
      [state, read, next, write, Direction.letter direction] ∈ lines.map Line.tokens := by
  have hmem : t ∈ ts ↔ ∃ line ∈ lines, line.transition = .ok t := by
    rw [← List.mem_map, hts]
    simp
  rw [hmem]
  constructor
  · rintro ⟨line, hline, ht⟩
    obtain ⟨state, read, next, write, direction, htokens, rfl⟩ := Line.transition_eq_ok_iff.1 ht
    exact ⟨state, read, next, write, direction, rfl, htokens ▸ List.mem_map_of_mem hline⟩
  · rintro ⟨state, read, next, write, direction, rfl, htokens⟩
    obtain ⟨line, hline, htokens⟩ := List.mem_map.1 htokens
    exact ⟨line, hline, Line.transition_eq_ok_iff.2 ⟨_, _, _, _, _, htokens, rfl⟩⟩

/-- The first two tokens of a line are what its transition fires on. -/
theorem take_two_tokens (hts : lines.map Line.transition = ts.map .ok) :
    (lines.map Line.tokens).map (fun line => line.take 2) =
      ts.map fun t => t.state :: t.read := by
  induction lines generalizing ts with
  | nil =>
      obtain rfl := List.map_eq_nil_iff.1 hts.symm
      rfl
  | cons line lines ih =>
      cases ts with
      | nil => cases hts
      | cons t ts =>
          obtain ⟨ht, hrest⟩ := List.cons.inj hts
          obtain ⟨_, _, _, _, _, htokens, rfl⟩ := Line.transition_eq_ok_iff.1 ht
          rw [List.map_cons, List.map_cons, ih hrest, htokens]
          rfl

/-- Different lines fire on different states and symbols exactly if they begin differently. -/
theorem nodup_keys_iff (hts : lines.map Line.transition = ts.map .ok) :
    (ts.map Transition.key).Nodup ↔
      ((lines.map Line.tokens).map fun line => line.take 2).Nodup := by
  rw [take_two_tokens hts]
  simp only [List.Nodup, List.pairwise_map, Transition.key, ne_eq, Transition.Key.mk.injEq,
    List.cons.injEq]

/-- Lines hold transitions exactly if their tokens spell them. -/
theorem exists_transitions_iff :
    (∃ ts : List Transition, lines.map Line.transition = ts.map .ok) ↔
      ∀ line ∈ lines.map Line.tokens, ∃ state read next write direction,
        line = [state, read, next, write, Direction.letter direction] := by
  constructor
  · rintro ⟨ts, hts⟩ _ htokens
    obtain ⟨line, hline, rfl⟩ := List.mem_map.1 htokens
    obtain ⟨t, _, ht⟩ := List.mem_map.1 (hts ▸ List.mem_map_of_mem (f := Line.transition) hline)
    obtain ⟨state, read, next, write, direction, htokens, _⟩ :=
      Line.transition_eq_ok_iff.1 ht.symm
    exact ⟨state, read, next, write, direction, htokens⟩
  · intro h
    induction lines with
    | nil => exact ⟨[], rfl⟩
    | cons line lines ih =>
        obtain ⟨hline, hlines⟩ := List.forall_mem_cons.1 h
        obtain ⟨ts, hts⟩ := ih hlines
        obtain ⟨state, read, next, write, direction, htokens⟩ := hline
        have ht := Line.transition_eq_ok_iff.2 ⟨_, _, _, _, _, htokens, rfl⟩
        exact ⟨_ :: ts, by rw [List.map_cons, List.map_cons, ht, hts]⟩

/-- The lines assemble the program that their layout denotes. -/
theorem denotes_assembled (hne : ∀ place, "" ∉ tokensAt lines place)
    (hblank : ∀ symbol, (ofLines lines).blank.head? = some symbol →
      symbol ∈ (ofLines lines).tapeSymbols)
    (hts : (lines.drop 6).map Line.transition = ts.map .ok)
    (hnodup : (ts.map Transition.key).Nodup) : (ofLines lines).Denotes (assembled lines ts) where
  tapeCount := rfl
  states name := NameSet.mem_toList_iff.trans NameSet.contains_ofNames
  inputSymbols symbol :=
    NameSet.mem_toList_iff.trans (Alphabet.contains_addSymbols_empty (hne 1))
  tapeSymbols symbol := NameSet.mem_toList_iff.trans (contains_tapeAlphabet_declared hne hblank)
  initial := rfl
  blank := blank_declared hne
  accepting name := NameSet.mem_toList_iff.trans NameSet.contains_ofNames
  transitions state symbols t := by
    rw [TransitionTable.get?_eq_some_iff, mem_transitions_assembled hnodup,
      mem_iff_tokens_mem hts]
    constructor
    · rintro ⟨⟨_, read, next, write, direction, rfl, hline⟩, rfl, rfl⟩
      exact ⟨read, next, write, direction, rfl, rfl, hline⟩
    · rintro ⟨read, next, write, direction, rfl, rfl, hline⟩
      exact ⟨⟨state, read, next, write, direction, rfl, hline⟩, rfl, rfl⟩

/-- Lines assemble a program exactly if their layout can be assembled, and then the layout denotes
the program. -/
theorem assemble_eq_ok (hne : ∀ place, "" ∉ tokensAt lines place) :
    ((∃ p, assemble lines = .ok p) ↔ (ofLines lines).Assembles) ∧
      ∀ p, assemble lines = .ok p → (ofLines lines).Denotes p := by
  have hblank : (∀ blank, (tokensAt lines 4).head? = some blank →
        (Alphabet.empty.addSymbols (tokensAt lines 2)).contains blank = true) ↔
      ∀ blank, (tokensAt lines 4).head? = some blank → blank ∈ tokensAt lines 2 := by
    simp only [Alphabet.contains_addSymbols_empty (hne 2)]
  simp only [assemble_eq_ok_iff, hblank]
  refine ⟨⟨?_, ?_⟩, ?_⟩
  · rintro ⟨_, hmem, ts, hts, hnodup, _⟩
    exact {
      blank := hmem
      transitions := exists_transitions_iff.1 ⟨ts, hts⟩
      deterministic := (nodup_keys_iff hts).1 hnodup }
  · intro h
    obtain ⟨ts, hts⟩ := exists_transitions_iff.2 h.transitions
    exact ⟨_, h.blank, ts, hts, (nodup_keys_iff hts).2 h.deterministic, rfl⟩
  · rintro _ ⟨hmem, ts, hts, hnodup, rfl⟩
    exact denotes_assembled hne hmem hts hnodup

end

end Layout

/-! ## Acceptance -/

/-- No line of a text is without tokens, and no token is empty. -/
theorem ne_of_mem_tokenLines {text : String} {tokens : List String}
    (h : tokens ∈ tokenLines text) : tokens ≠ [] ∧ "" ∉ tokens := by
  obtain ⟨found, hfound, rfl⟩ := List.mem_map.1 h
  obtain ⟨hmem, hne⟩ := List.mem_filter.1 hfound
  obtain ⟨line, _, rfl⟩ := List.mem_map.1 hmem
  constructor
  · intro hnil
    rw [List.map_eq_nil_iff.1 hnil] at hne
    cases hne
  · intro hempty
    obtain ⟨run, hrun, heq⟩ := List.mem_map.1 hempty
    have hruns : run ∈ runs line := (List.takeWhile_sublist _).subset hrun
    obtain rfl := String.ofList_eq_empty_iff.1 heq
    exact absurd (List.mem_filter.1 hruns).2 Bool.false_ne_true

/-- The lines that there are have tokens, and no token is empty. -/
theorem tokensAt_lines (text : String) (place : Nat) :
    (tokensAt (lines text) place ≠ [] ↔ place < (lines text).length) ∧
      "" ∉ tokensAt (lines text) place := by
  have hmap := congrArg (·[place]?) (map_tokens_lines text)
  rw [List.getElem?_map] at hmap
  unfold tokensAt
  cases hline : (lines text)[place]? with
  | none => simpa using hline
  | some line =>
      rw [hline] at hmap
      obtain ⟨hne, hempty⟩ := ne_of_mem_tokenLines (List.mem_of_getElem? hmap.symm)
      exact ⟨iff_of_true hne (List.getElem?_eq_some_iff.1 hline).1, hempty⟩

/-- A program is specified exactly if the text is small enough, its lines assemble the program, and
the program is well-formed. -/
theorem program_eq_ok_iff {text : String} {p : Program} :
    program text = .ok p ↔ text.utf8ByteSize ≤ 65536 ∧ assemble (lines text) = .ok p ∧
      p.WellFormed := by
  unfold program maxSpecificationSize
  by_cases hsize : text.utf8ByteSize ≤ 65536
  case neg =>
    rw [if_pos (Nat.lt_of_not_le hsize)]
    exact iff_of_false nofun fun h => hsize h.1
  case pos =>
    rw [if_neg (Nat.not_lt_of_le hsize), and_iff_right hsize, ← Program.violation?_eq_none_iff]
    cases assemble (lines text) with
    | error e => exact iff_of_false nofun fun h => nomatch h.1
    | ok q =>
        show (q.check >>= fun _ => pure q) = .ok p ↔ _
        unfold Program.check
        cases hviolation : q.violation? with
        | none =>
            constructor
            · rintro ⟨⟩
              exact ⟨rfl, hviolation⟩
            · rintro ⟨⟨⟩, _⟩
              rfl
        | some v =>
            refine iff_of_false nofun ?_
            rintro ⟨⟨⟩, hnone⟩
            cases hviolation.symm.trans hnone

/-- Token lines have a layout exactly if there are six of them. -/
theorem ofLines?_tokenLines (text : String) :
    Layout.ofLines? (tokenLines text) =
      if 6 ≤ (lines text).length then some (.ofLines (lines text)) else none := by
  rw [← map_tokens_lines, Layout.ofLines?_map_tokens]

/-- The layout of a text that is accepted is valid and denotes its program. -/
theorem exists_layout_of_program {text : String} {p : Program} (h : program text = .ok p) :
    ∃ l, Layout.ofLines? (tokenLines text) = some l ∧ l.Valid ∧ l.Denotes p := by
  obtain ⟨hassemble, hdenotes⟩ := Layout.assemble_eq_ok fun place => (tokensAt_lines text place).2
  obtain ⟨_, hlines, hwell⟩ := program_eq_ok_iff.1 h
  have hmeans := hdenotes p hlines
  -- A well-formed program has an accepting state, so there is a sixth line.
  obtain ⟨name, hname⟩ := List.exists_mem_of_ne_nil _ hwell.accepting_ne
  have hne : tokensAt (lines text) 5 ≠ [] := List.ne_nil_of_mem ((hmeans.accepting name).1 hname)
  have hsix : 6 ≤ (lines text).length := (tokensAt_lines text 5).1.1 hne
  refine ⟨.ofLines (lines text), ?_, ?_, hmeans⟩
  · rw [ofLines?_tokenLines, if_pos hsix]
  · exact (hmeans.wellFormed_iff_valid (hassemble.1 ⟨p, hlines⟩) hne).1 hwell

/-- A text of at most 65536 bytes with a valid layout specifies a program. -/
theorem exists_program_of_valid {text : String} {l : Layout} (hsize : text.utf8ByteSize ≤ 65536)
    (hl : Layout.ofLines? (tokenLines text) = some l) (hvalid : l.Valid) :
    ∃ p, program text = .ok p := by
  obtain ⟨hassemble, hdenotes⟩ := Layout.assemble_eq_ok fun place => (tokensAt_lines text place).2
  rw [ofLines?_tokenLines] at hl
  obtain ⟨hsix, hl⟩ := Option.ite_none_right_eq_some.1 hl
  obtain rfl := Option.some.inj hl
  obtain ⟨p, hp⟩ := hassemble.2 hvalid.assembles
  have hne : tokensAt (lines text) 5 ≠ [] := (tokensAt_lines text 5).1.2 hsix
  have hwell := ((hdenotes p hp).wellFormed_iff_valid hvalid.assembles hne).2 hvalid
  exact ⟨p, program_eq_ok_iff.2 ⟨hsize, hp, hwell⟩⟩

/-- A machine can be made of the program of a text that is accepted. -/
theorem exists_machine_of_program {text : String} {p : Program} (h : program text = .ok p) :
    ∃ m, Machine.ofProgram p = .ok m ∧ m.program = p ∧ m.execution = none := by
  obtain ⟨_, _, hwell⟩ := program_eq_ok_iff.1 h
  exact ⟨_, Machine.ofProgram_eq_ok (Program.violation?_eq_none_iff.2 hwell), rfl, rfl⟩

/-- A text is accepted exactly if it has at most 65536 bytes and its token lines are laid out as
those of a deterministic machine with one tape are. The program is then the one that the layout
denotes, and a machine can be made of it. -/
theorem program_accepts (text : String) :
    ((∃ p, program text = .ok p) ↔ text.utf8ByteSize ≤ 65536 ∧
      ∃ l, Layout.ofLines? (tokenLines text) = some l ∧ l.Valid) ∧
    ∀ p, program text = .ok p →
      (∃ l, Layout.ofLines? (tokenLines text) = some l ∧ l.Denotes p) ∧
      ∃ m, Machine.ofProgram p = .ok m ∧ m.program = p ∧ m.execution = none := by
  refine ⟨⟨?_, ?_⟩, ?_⟩
  · rintro ⟨p, h⟩
    obtain ⟨l, hl, hvalid, _⟩ := exists_layout_of_program h
    exact ⟨(program_eq_ok_iff.1 h).1, l, hl, hvalid⟩
  · rintro ⟨hsize, l, hl, hvalid⟩
    exact exists_program_of_valid hsize hl hvalid
  · intro p h
    obtain ⟨l, hl, _, hmeans⟩ := exists_layout_of_program h
    exact ⟨⟨l, hl, hmeans⟩, exists_machine_of_program h⟩

/-- A specification of the machine that walks over ones. -/
def walkerText : String :=
  "go stop\n1\n1 _\ngo # where it starts\n_\nstop\n\ngo 1 go 1 R\ngo _ stop _ R\n"

theorem program_accepts_walkerText :
    ∃ p l m, program walkerText = .ok p ∧ Layout.ofLines? (tokenLines walkerText) = some l ∧
      l.Denotes p ∧ Machine.ofProgram p = .ok m := by
  have h : (program walkerText).isOk = true := by decide
  cases hp : program walkerText with
  | error e => rw [hp] at h; cases h
  | ok p =>
      obtain ⟨⟨l, hl, hmeans⟩, m, hm, _⟩ := (program_accepts walkerText).2 p hp
      exact ⟨p, l, m, rfl, hl, hmeans, hm⟩

end TapeMachine.Specification
