import TapeMachine.Proofs.Program.Assembled
import TapeMachine.Proofs.Specification.Acceptance
import TapeMachine.Proofs.Specification.Writing

/-!
# Programs written as specifications

A layout lists the parts of a program with one tape if it has the members of each set and the
transitions of the table, in any order (`Layout.Lists`). It is valid and denotes the program, and
only that one (`Layout.Denotes.eq`). So every text with the token lines of such a layout specifies
the program again, and there are such texts whenever the states and symbols can be written as tokens
(`program_of_lists`).
-/

namespace TapeMachine

namespace Specification

/-! ## Transitions with one symbol to read -/

/-- The tokens of a transition with one symbol to read. -/
def tokensOf (t : Transition) : List String :=
  [t.state, t.readSymbol, t.nextState, t.writeSymbol, t.direction.letter]

theorem isToken_letter (direction : Direction) : IsToken direction.letter := by
  cases direction <;> decide

/-- With one tape, a transition reads and writes one symbol, and makes one move. -/
theorem eq_single_of_admits {p : Program} (hsingle : p.tapeCount = 1) {t : Transition}
    (h : p.Admits t) :
    t = .single t.state t.readSymbol t.nextState t.writeSymbol t.direction := by
  obtain ⟨hread, hwrite, hmove⟩ := h.lengths
  rw [hsingle] at hread hwrite hmove
  obtain ⟨read, hread⟩ := List.length_eq_one_iff.1 hread
  obtain ⟨write, hwrite⟩ := List.length_eq_one_iff.1 hwrite
  obtain ⟨direction, hmove⟩ := List.length_eq_one_iff.1 hmove
  simp [Transition.ext_iff, Transition.single, Transition.readSymbol, Transition.writeSymbol,
    Transition.direction, hread, hwrite, hmove]

namespace Layout

/-- The token lines of a layout. -/
def lines (l : Layout) : List (List String) :=
  l.states :: l.inputSymbols :: l.tapeSymbols :: l.initial :: l.blank :: l.accepting ::
    l.transitions

theorem ofLines?_lines (l : Layout) : ofLines? l.lines = some l := rfl

/-- The layout lists the parts of the program, each in any order. -/
structure Lists (l : Layout) (p : Program) : Prop where
  states : l.states.Perm p.states.toList
  inputSymbols : l.inputSymbols.Perm p.inputAlphabet.symbols.toList
  tapeSymbols : l.tapeSymbols.Perm p.tapeAlphabet.symbols.toList
  initial : l.initial = p.initial.toList
  blank : l.blank = p.blank.toList
  accepting : l.accepting.Perm p.accepting.toList
  transitions : l.transitions.Perm (p.transitions.toList.map tokensOf)

/-- The parts of a program in the order of its sets. -/
def ofProgram (p : Program) : Layout where
  states := p.states.toList
  inputSymbols := p.inputAlphabet.symbols.toList
  tapeSymbols := p.tapeAlphabet.symbols.toList
  initial := p.initial.toList
  blank := p.blank.toList
  accepting := p.accepting.toList
  transitions := p.transitions.toList.map tokensOf

theorem lists_ofProgram (p : Program) : (ofProgram p).Lists p where
  states := .refl _
  inputSymbols := .refl _
  tapeSymbols := .refl _
  initial := rfl
  blank := rfl
  accepting := .refl _
  transitions := .refl _

section

variable {l : Layout} {p : Program} (hl : l.Lists p) (h : p.WellFormed)
  (hsingle : p.tapeCount = 1)

include hl h hsingle

/-- The lines of the transitions are the tokens of those in the table. -/
theorem Lists.mem_transitions_iff {state read next write : String} {direction : Direction} :
    [state, read, next, write, Direction.letter direction] ∈ l.transitions ↔
      .single state read next write direction ∈ p.transitions.toList := by
  rw [hl.transitions.mem_iff, List.mem_map]
  constructor
  · rintro ⟨t, ht, heq⟩
    rw [eq_single_of_admits hsingle (h.transitions t ht)] at ht
    simp only [tokensOf, List.cons.injEq, and_true] at heq
    obtain ⟨rfl, rfl, rfl, rfl, hletter⟩ := heq
    have hdirection : t.direction = direction := by
      have htoken := (Direction.ofToken?_eq_some_iff (d := direction)).2 hletter
      rw [Direction.ofToken?_eq_some_iff.2 rfl] at htoken
      exact Option.some.inj htoken
    rwa [hdirection] at ht
  · exact fun ht => ⟨_, ht, rfl⟩

/-- A layout denotes the program whose parts it lists. -/
theorem Lists.denotes : l.Denotes p where
  tapeCount := hsingle
  states _ := hl.states.mem_iff.symm
  inputSymbols _ := hl.inputSymbols.mem_iff.symm
  tapeSymbols _ := hl.tapeSymbols.mem_iff.symm
  initial := by rw [hl.initial, Option.head?_toList]
  blank := by rw [hl.blank, Option.head?_toList]
  accepting _ := hl.accepting.mem_iff.symm
  transitions state symbols t := by
    rw [TransitionTable.get?_eq_some_iff]
    constructor
    · rintro ⟨ht, rfl, rfl⟩
      have heq := eq_single_of_admits hsingle (h.transitions t ht)
      rw [heq] at ht
      exact ⟨_, _, _, _, congrArg Transition.read heq, heq,
        (hl.mem_transitions_iff h hsingle).2 ht⟩
    · rintro ⟨read, next, write, direction, rfl, rfl, hline⟩
      exact ⟨(hl.mem_transitions_iff h hsingle).1 hline, rfl, rfl⟩

/-- The lines of a program can be assembled. -/
theorem Lists.assembles : l.Assembles where
  blank symbol hsymbol := by
    obtain ⟨blank, hblank, _, hmember⟩ := h.blank
    rw [hl.blank, Option.head?_toList, hblank] at hsymbol
    obtain rfl := Option.some.inj hsymbol
    exact hl.tapeSymbols.mem_iff.2 (NameSet.mem_toList_iff.2 hmember)
  transitions line hline := by
    obtain ⟨t, _, rfl⟩ := List.mem_map.1 (hl.transitions.mem_iff.1 hline)
    exact ⟨_, _, _, _, _, rfl⟩
  deterministic := by
    have hkeys : (p.transitions.toList.map tokensOf).map (fun line => line.take 2) =
        p.transitions.toList.map fun t => t.state :: t.read := by
      rw [List.map_map]
      refine List.map_congr_left fun t ht => ?_
      have hread := congrArg Transition.read (eq_single_of_admits hsingle (h.transitions t ht))
      show [t.state, t.readSymbol] = t.state :: t.read
      rw [hread]
      rfl
    rw [(hl.transitions.map _).nodup_iff, hkeys]
    have hnodup := p.transitions.nodup_keys
    simpa only [List.Nodup, List.pairwise_map, Transition.key, ne_eq, Transition.Key.mk.injEq,
      List.cons.injEq] using hnodup

/-- The layout of a well-formed program is valid. -/
theorem Lists.valid : l.Valid := by
  refine ((hl.denotes h hsingle).wellFormed_iff_valid (hl.assembles h hsingle) ?_).1 h
  intro hnil
  exact h.accepting_ne (List.nil_perm.1 (hnil ▸ hl.accepting))

omit hsingle in
/-- Every line has tokens, if there is an input symbol. -/
theorem Lists.ne_nil (hinput : p.inputAlphabet.symbols.toList ≠ []) :
    ∀ line ∈ l.lines, line ≠ [] := by
  have hperm {names parts : List String} (h : names.Perm parts) (hne : parts ≠ []) : names ≠ [] :=
    fun hnil => hne (List.nil_perm.1 (hnil ▸ h))
  obtain ⟨name, hname, _⟩ := h.initial
  obtain ⟨blank, hblank, _, hmember⟩ := h.blank
  have htape : p.tapeAlphabet.symbols.toList ≠ [] :=
    List.ne_nil_of_mem (NameSet.mem_toList_iff.2 hmember)
  simp only [lines, List.forall_mem_cons]
  refine ⟨hperm hl.states h.states, hperm hl.inputSymbols hinput, hperm hl.tapeSymbols htape, ?_,
    ?_, hperm hl.accepting h.accepting_ne, fun line hline => ?_⟩
  · rw [hl.initial, hname]
    exact List.cons_ne_nil _ _
  · rw [hl.blank, hblank]
    exact List.cons_ne_nil _ _
  · obtain ⟨t, _, rfl⟩ := List.mem_map.1 (hl.transitions.mem_iff.1 hline)
    exact List.cons_ne_nil _ _

/-- All tokens of the lines can be written, if the states and the tape symbols can. -/
theorem Lists.isToken (hstates : ∀ name ∈ p.states.toList, IsToken name)
    (hsymbols : ∀ symbol ∈ p.tapeAlphabet.symbols.toList, IsToken symbol) :
    ∀ line ∈ l.lines, ∀ token ∈ line, IsToken token := by
  have hstate {name : String} (hname : p.hasState name = true) : IsToken name :=
    hstates name (NameSet.mem_toList_iff.2 hname)
  have hsymbol {symbol : Symbol} (hmember : p.tapeAlphabet.contains symbol = true) :
      IsToken symbol := hsymbols symbol (NameSet.mem_toList_iff.2 hmember)
  simp only [lines, List.forall_mem_cons]
  refine ⟨fun name hname => hstates name (hl.states.mem_iff.1 hname), fun symbol hmember => ?_,
    fun symbol hmember => hsymbols symbol (hl.tapeSymbols.mem_iff.1 hmember), ?_, ?_,
    fun name hname => hstate (h.accepting name (hl.accepting.mem_iff.1 hname)),
    fun line hline => ?_⟩
  · exact hsymbol (h.input symbol (hl.inputSymbols.mem_iff.1 hmember))
  · obtain ⟨name, hname, hmember⟩ := h.initial
    rw [hl.initial, hname]
    exact List.forall_mem_singleton.2 (hstate hmember)
  · obtain ⟨blank, hblank, _, hmember⟩ := h.blank
    rw [hl.blank, hblank]
    exact List.forall_mem_singleton.2 (hsymbol hmember)
  · obtain ⟨t, ht, rfl⟩ := List.mem_map.1 (hl.transitions.mem_iff.1 hline)
    have hadmits := h.transitions t ht
    rw [eq_single_of_admits hsingle hadmits] at hadmits
    simp only [tokensOf, List.forall_mem_cons]
    exact ⟨hstate hadmits.state, hsymbol (hadmits.read _ List.mem_cons_self),
      hstate hadmits.nextState, hsymbol (hadmits.write _ List.mem_cons_self),
      isToken_letter t.direction, List.forall_mem_nil _⟩

end

/-- A layout denotes no two programs, apart from blanks among their input symbols. -/
theorem Denotes.eq {l : Layout} {p q : Program} (hp : l.Denotes p) (hq : l.Denotes q)
    (hblank : p.inputAlphabet.blank = q.inputAlphabet.blank) : p = q := by
  have hsets {s t : NameSet} {names : List String} (hs : ∀ name, name ∈ s.toList ↔ name ∈ names)
      (ht : ∀ name, name ∈ t.toList ↔ name ∈ names) : s = t :=
    KeyedSet.eq_of_mem_iff fun name => (hs name).trans (ht name).symm
  apply Program.ext
  case states => exact hsets hp.states hq.states
  case inputAlphabet => exact Alphabet.ext (hsets hp.inputSymbols hq.inputSymbols) hblank
  case tapeAlphabet =>
    exact Alphabet.ext (hsets hp.tapeSymbols hq.tapeSymbols) (hp.blank.trans hq.blank.symm)
  case initial => exact hp.initial.trans hq.initial.symm
  case accepting => exact hsets hp.accepting hq.accepting
  case transitions =>
    refine KeyedSet.eq_of_mem_iff fun t => ?_
    rw [hp.mem_transitions_iff, hq.mem_transitions_iff]
  case tapeCount => exact hp.tapeCount.trans hq.tapeCount.symm

end Layout

/-! ## Reading what was written -/

/-- The input symbols of a specification include no blank. -/
theorem inputBlank_of_program {text : String} {p : Program} (h : program text = .ok p) :
    p.inputAlphabet.blank = none := by
  obtain ⟨_, hassemble, _⟩ := program_eq_ok_iff.1 h
  obtain ⟨_, ts, _, _, rfl⟩ := assemble_eq_ok_iff.1 hassemble
  exact Alphabet.blank_addSymbols Alphabet.empty _

/-- A program with one tape that was assembled by edits and can be run is specified by every text
that lists its parts, in any order and written in any way. If its states and symbols are tokens and
it has an input symbol, there is such a text for every order. -/
theorem program_of_lists {p : Program} (hassembled : p.Assembled) (hwell : p.violation? = none)
    (hsingle : p.tapeCount = 1) (hinput : p.inputAlphabet.symbols.toList ≠ [])
    (hstates : ∀ name ∈ p.states.toList, IsToken name)
    (hsymbols : ∀ symbol ∈ p.tapeAlphabet.symbols.toList, IsToken symbol) :
    (∃ l : Layout, l.Lists p) ∧ ∀ l : Layout, l.Lists p →
      (∃ text, Writes l.lines text) ∧
      (∀ text, Writes l.lines text → tokenLines text = l.lines) ∧
      ∀ text, text.utf8ByteSize ≤ 65536 → tokenLines text = l.lines → program text = .ok p := by
  have h := Program.violation?_eq_none_iff.1 hwell
  refine ⟨⟨.ofProgram p, Layout.lists_ofProgram p⟩, fun l hl => ⟨exists_writes (hl.ne_nil h hinput),
    fun text => tokenLines_of_writes (hl.isToken h hsingle hstates hsymbols), ?_⟩⟩
  intro text hsize hlines
  have hlayout : Layout.ofLines? (tokenLines text) = some l := by
    rw [hlines, Layout.ofLines?_lines]
  obtain ⟨q, hq⟩ := exists_program_of_valid hsize hlayout (hl.valid h hsingle)
  obtain ⟨l', hlayout', _, hmeans⟩ := exists_layout_of_program hq
  obtain rfl := Option.some.inj (hlayout.symm.trans hlayout')
  have hblank := hassembled.coherent.inputBlank.trans (inputBlank_of_program hq).symm
  rw [hq, (hl.denotes h hsingle).eq hmeans hblank]

/-- The edits that assemble `runner`. -/
def runnerEdits : List Program.Edit := [
  .state "go", .state "stop", .inputSymbol "1", .tapeSymbol "1", .initialState "go", .blank "_",
  .acceptingState "stop", .transition (.single "go" "1" "go" "1" .right),
  .transition (.single "go" "_" "stop" "_" .left)]

/-- Runs over ones to the first blank. -/
def runner : Program := (Program.build 1 runnerEdits).toOption.getD {}

/-- A layout of the runner with its parts in another order than that of its sets. -/
def runnerLayout : Layout where
  states := ["stop", "go"]
  inputSymbols := ["1"]
  tapeSymbols := ["_", "1"]
  initial := ["go"]
  blank := ["_"]
  accepting := ["stop"]
  transitions := [["go", "_", "stop", "_", "L"], ["go", "1", "go", "1", "R"]]

/-- A text with all kinds of line ends, blanks and comments. -/
def runnerText : String :=
  "# runs\r\n stop\tgo \r1 # one\n\n_  1\ngo\r_\r\nstop\n\t#\ngo _ stop _ L \r\ngo 1 go 1 R"

theorem program_of_lists_runner :
    runner.Assembled ∧ runner.violation? = none ∧ runner.tapeCount = 1 ∧
      runnerLayout.Lists runner ∧ tokenLines runnerText = runnerLayout.lines ∧
      program runnerText = .ok runner := by
  have hbuild : Program.build 1 runnerEdits = .ok runner := rfl
  have hassembled := Program.assembled_of_build hbuild
  have hwell : runner.violation? = none := by decide
  have hl : runnerLayout.Lists runner := by constructor <;> decide
  have hlines : tokenLines runnerText = runnerLayout.lines := by decide
  obtain ⟨_, hread⟩ := program_of_lists hassembled hwell rfl (by decide) (by decide) (by decide)
  exact ⟨hassembled, hwell, rfl, hl, hlines, (hread runnerLayout hl).2.2 _ (by decide) hlines⟩

end Specification

end TapeMachine
