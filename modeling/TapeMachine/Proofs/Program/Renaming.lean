import TapeMachine.Proofs.Program.Assembled
import TapeMachine.Proofs.Program.WellFormed

/-!
# Programs under other names

A `Renaming` has new names for states and symbols, and `Program.rename` puts them into every part of
a program. If no two states and no two tape symbols get the same name, what is renamed is as
well-formed as before (`WellFormed.rename`), its table has as many transitions
(`size_transitions_rename`), and a look-up in it finds what it found before under its new names
(`get?_rename`). The order of the names, in which all sets are listed, has no part in this.
-/

namespace TapeMachine

/-- New names for states and symbols. -/
structure Renaming where
  state : String → String
  symbol : Symbol → Symbol

/-- The new names of the members. -/
def NameSet.rename (f : String → String) (s : NameSet) : NameSet := .ofNames (s.toList.map f)

theorem NameSet.contains_rename_iff {f : String → String} {s : NameSet} {name : String} :
    (s.rename f).contains name = true ↔ ∃ old, s.contains old = true ∧ f old = name := by
  unfold rename
  rw [contains_ofNames, List.mem_map]
  simp only [mem_toList_iff]

/-- The word with every character renamed. -/
def Renaming.word (r : Renaming) (w : String) : String :=
  String.join ((w.toList.map String.singleton).map r.symbol)

def Alphabet.rename (r : Renaming) (a : Alphabet) : Alphabet where
  symbols := a.symbols.rename r.symbol
  blank := a.blank.map r.symbol

def Transition.rename (r : Renaming) (t : Transition) : Transition where
  state := r.state t.state
  read := t.read.map r.symbol
  nextState := r.state t.nextState
  write := t.write.map r.symbol
  directions := t.directions

theorem Transition.tapeCount?_rename (r : Renaming) (t : Transition) :
    (t.rename r).tapeCount? = t.tapeCount? := by
  simp only [tapeCount?, rename, List.length_map]

namespace Program

def rename (r : Renaming) (p : Program) : Program where
  states := p.states.rename r.state
  inputAlphabet := p.inputAlphabet.rename r
  tapeAlphabet := p.tapeAlphabet.rename r
  initial := p.initial.map r.state
  accepting := p.accepting.rename r.state
  transitions := .ofList (p.transitions.toList.map (Transition.rename r))
  tapeCount := p.tapeCount

end Program

/-- The states and the tape symbols of the program keep apart under their new names, no symbol
becomes empty, and the input symbols that are characters stay characters. -/
structure Renaming.Suits (r : Renaming) (p : Program) : Prop where
  state_inj : ∀ a b, p.hasState a = true → p.hasState b = true → r.state a = r.state b → a = b
  symbol_inj : ∀ a b, p.tapeAlphabet.contains a = true → p.tapeAlphabet.contains b = true →
    r.symbol a = r.symbol b → a = b
  symbol_ne : ∀ a, p.tapeAlphabet.contains a = true → a ≠ "" → r.symbol a ≠ ""
  character : ∀ c : Char, p.inputAlphabet.contains (.singleton c) = true →
    ∃ c', r.symbol (.singleton c) = .singleton c'

section

variable {p : Program} {r : Renaming}

/-! ## Members -/

namespace Program

theorem hasState_rename_iff {name : String} :
    (p.rename r).hasState name = true ↔ ∃ old, p.hasState old = true ∧ r.state old = name :=
  NameSet.contains_rename_iff

theorem hasState_rename {name : String} (h : p.hasState name = true) :
    (p.rename r).hasState (r.state name) = true :=
  hasState_rename_iff.2 ⟨name, h, rfl⟩

theorem contains_inputAlphabet_rename_iff {symbol : Symbol} :
    (p.rename r).inputAlphabet.contains symbol = true ↔
      ∃ old, p.inputAlphabet.contains old = true ∧ r.symbol old = symbol :=
  NameSet.contains_rename_iff

theorem contains_tapeAlphabet_rename_iff {symbol : Symbol} :
    (p.rename r).tapeAlphabet.contains symbol = true ↔
      ∃ old, p.tapeAlphabet.contains old = true ∧ r.symbol old = symbol :=
  NameSet.contains_rename_iff

theorem contains_tapeAlphabet_rename {symbols : List Symbol}
    (h : ∀ symbol ∈ symbols, p.tapeAlphabet.contains symbol = true) :
    ∀ symbol ∈ symbols.map r.symbol, (p.rename r).tapeAlphabet.contains symbol = true := by
  intro symbol hsymbol
  obtain ⟨old, hold, rfl⟩ := List.mem_map.1 hsymbol
  exact contains_tapeAlphabet_rename_iff.2 ⟨old, h old hold, rfl⟩

theorem blank_rename : (p.rename r).blank = p.blank.map r.symbol := rfl

/-- A state accepts under its new name exactly if it did before. -/
theorem isAccepting_rename (h : p.WellFormed) (hr : r.Suits p) {name : String}
    (hname : p.hasState name = true) :
    (p.rename r).isAccepting (r.state name) = p.isAccepting name := by
  rw [Bool.eq_iff_iff]
  refine NameSet.contains_rename_iff.trans ⟨?_, fun haccepting => ⟨name, haccepting, rfl⟩⟩
  rintro ⟨old, hold, heq⟩
  have hstate := h.accepting old (NameSet.mem_toList_iff.2 hold)
  rwa [← hr.state_inj old name hstate hname heq]

end Program

/-! ## The table -/

/-- Lists of tape symbols keep apart under their new names. -/
theorem Renaming.Suits.symbols_inj (hr : r.Suits p) {symbols symbols' : List Symbol}
    (h : ∀ symbol ∈ symbols, p.tapeAlphabet.contains symbol = true)
    (h' : ∀ symbol ∈ symbols', p.tapeAlphabet.contains symbol = true)
    (heq : symbols.map r.symbol = symbols'.map r.symbol) : symbols = symbols' := by
  induction symbols generalizing symbols' with
  | nil => exact (List.map_eq_nil_iff.1 heq.symm).symm
  | cons symbol symbols ih =>
      cases symbols' with
      | nil => cases heq
      | cons symbol' symbols' =>
          obtain ⟨hsymbol, hsymbols⟩ := List.forall_mem_cons.1 h
          obtain ⟨hsymbol', hsymbols'⟩ := List.forall_mem_cons.1 h'
          obtain ⟨hfirst, hrest⟩ := List.cons.inj heq
          rw [hr.symbol_inj symbol symbol' hsymbol hsymbol' hfirst, ih hsymbols hsymbols' hrest]

namespace Program

variable (h : p.WellFormed) (hr : r.Suits p)

include h hr

/-- The transitions of a well-formed program keep apart under their new names. -/
theorem eq_of_key_rename_eq {t u : Transition} (ht : t ∈ p.transitions.toList)
    (hu : u ∈ p.transitions.toList) (heq : (t.rename r).key = (u.rename r).key) : t = u := by
  obtain ⟨hstate, hread⟩ := Transition.Key.mk.inj heq
  have hadmits := h.transitions t ht
  have hadmits' := h.transitions u hu
  have hget := TransitionTable.get?_eq_some_iff.2 ⟨ht,
    hr.state_inj t.state u.state hadmits.state hadmits'.state hstate,
    hr.symbols_inj hadmits.read hadmits'.read hread⟩
  have hget' := TransitionTable.get?_eq_some_iff.2 ⟨hu, rfl, rfl⟩
  exact Option.some.inj (hget.symm.trans hget')

theorem nodup_keys_rename :
    ((p.transitions.toList.map (Transition.rename r)).map Transition.key).Nodup := by
  rw [List.map_map]
  refine List.pairwise_map.2 ?_
  refine (List.pairwise_map.1 p.transitions.nodup_keys).imp_of_mem fun {t u} ht hu hne heq => ?_
  exact hne (congrArg Transition.key (eq_of_key_rename_eq h hr ht hu heq))

/-- The transitions of the renamed program are the renamed ones. -/
theorem mem_transitions_rename_iff {u : Transition} :
    u ∈ (p.rename r).transitions.toList ↔ ∃ t ∈ p.transitions.toList, t.rename r = u := by
  have hmem : u ∈ (p.rename r).transitions.toList ↔
      u ∈ p.transitions.toList.map (Transition.rename r) ∨ u ∈ [] :=
    TransitionTable.mem_foldl_insert (nodup_keys_rename h hr) fun _ _ => rfl
  exact hmem.trans ((or_iff_left List.not_mem_nil).trans List.mem_map)

/-- No two transitions have become one. -/
theorem size_transitions_rename : (p.rename r).transitions.size = p.transitions.size := by
  have hnodup := KeyedSet.nodup_of_nodup_keys (p.rename r).transitions.nodup_keys
  have hnodup' := KeyedSet.nodup_of_nodup_keys (nodup_keys_rename h hr)
  have hperm := (List.perm_ext_iff_of_nodup hnodup hnodup').2 fun _ =>
    (mem_transitions_rename_iff h hr).trans List.mem_map.symm
  exact hperm.length_eq.trans (List.length_map _)

/-- A look-up finds what it found before, under its new names. -/
theorem get?_rename {state : String} {symbols : List Symbol} (hstate : p.hasState state = true)
    (hsymbols : ∀ symbol ∈ symbols, p.tapeAlphabet.contains symbol = true) :
    (p.rename r).transitions.get? (r.state state) (symbols.map r.symbol) =
      (p.transitions.get? state symbols).map (Transition.rename r) := by
  cases hget : p.transitions.get? state symbols with
  | some t =>
      obtain ⟨ht, rfl, rfl⟩ := TransitionTable.get?_eq_some_iff.1 hget
      exact TransitionTable.get?_eq_some_iff.2
        ⟨(mem_transitions_rename_iff h hr).2 ⟨t, ht, rfl⟩, rfl, rfl⟩
  | none =>
      refine TransitionTable.get?_eq_none_iff.2 fun u hu => ?_
      rintro ⟨hustate, huread⟩
      obtain ⟨t, ht, rfl⟩ := (mem_transitions_rename_iff h hr).1 hu
      have hadmits := h.transitions t ht
      exact TransitionTable.get?_eq_none_iff.1 hget t ht
        ⟨hr.state_inj t.state state hadmits.state hstate hustate,
          hr.symbols_inj hadmits.read hsymbols huread⟩

/-! ## The rules -/

omit h hr in
/-- A transition is admitted under its new names. -/
theorem Admits.rename {t : Transition} (ht : p.Admits t) : (p.rename r).Admits (t.rename r) where
  tapes := (t.tapeCount?_rename r).trans ht.tapes
  state := hasState_rename ht.state
  nextState := hasState_rename ht.nextState
  read := contains_tapeAlphabet_rename ht.read
  write := contains_tapeAlphabet_rename ht.write
  moves := ht.moves

/-- The new names break no rule of the formal model. -/
theorem WellFormed.rename : (p.rename r).WellFormed := by
  obtain ⟨initial, hinitial, hstate⟩ := h.initial
  obtain ⟨blank, hblank, hinput, htape⟩ := h.blank
  constructor
  case states =>
    exact List.ne_nil_of_mem (NameSet.mem_toList_iff.2 (hasState_rename (r := r) hstate))
  case initial =>
    exact ⟨r.state initial, congrArg (Option.map r.state) hinitial, hasState_rename hstate⟩
  case accepting_ne =>
    obtain ⟨name, hname⟩ := List.exists_mem_of_ne_nil _ h.accepting_ne
    have hcontains := NameSet.mem_toList_iff.1 hname
    exact List.ne_nil_of_mem (NameSet.mem_toList_iff.2
      (NameSet.contains_rename_iff.2 ⟨name, hcontains, rfl⟩))
  case accepting =>
    intro name hname
    obtain ⟨old, hold, rfl⟩ := NameSet.contains_rename_iff.1 (NameSet.mem_toList_iff.1 hname)
    exact hasState_rename (h.accepting old (NameSet.mem_toList_iff.2 hold))
  case input =>
    intro symbol hsymbol
    obtain ⟨old, hold, rfl⟩ := NameSet.contains_rename_iff.1 (NameSet.mem_toList_iff.1 hsymbol)
    exact contains_tapeAlphabet_rename_iff.2
      ⟨old, h.input old (NameSet.mem_toList_iff.2 hold), rfl⟩
  case blank =>
    refine ⟨r.symbol blank, congrArg (Option.map r.symbol) hblank, ?_,
      contains_tapeAlphabet_rename_iff.2 ⟨blank, htape, rfl⟩⟩
    -- An input symbol with the new name of the blank would be the blank.
    refine Bool.eq_false_iff.2 fun hcontains => ?_
    obtain ⟨old, hold, heq⟩ := contains_inputAlphabet_rename_iff.1 hcontains
    have holdTape := h.input old (NameSet.mem_toList_iff.2 hold)
    rw [hr.symbol_inj old blank holdTape htape heq, hinput] at hold
    cases hold
  case transitions =>
    intro u hu
    obtain ⟨t, ht, rfl⟩ := (mem_transitions_rename_iff h hr).1 hu
    exact (h.transitions t ht).rename

/-- What can be assembled can be assembled under new names. -/
theorem Assembled.rename (hp : p.Assembled) : (p.rename r).Assembled := by
  have hcoherent := assembled_iff_coherent.1 hp
  have hne {symbol : Symbol} (hsymbol : p.tapeAlphabet.contains symbol = true) :
      r.symbol symbol ≠ "" :=
    hr.symbol_ne symbol hsymbol fun heq =>
      Bool.false_ne_true (hcoherent.tapeAlphabet.contains_empty.symm.trans (heq ▸ hsymbol))
  rw [assembled_iff_coherent]
  constructor
  case tapeCount => exact hcoherent.tapeCount
  case inputAlphabet =>
    refine ⟨Bool.eq_false_iff.2 fun hcontains => ?_, fun symbol hsymbol => ?_⟩
    · obtain ⟨old, hold, heq⟩ := contains_inputAlphabet_rename_iff.1 hcontains
      exact hne (h.input old (NameSet.mem_toList_iff.2 hold)) heq
    · obtain ⟨old, hold, rfl⟩ := Option.map_eq_some_iff.1 hsymbol
      exact contains_inputAlphabet_rename_iff.2
        ⟨old, hcoherent.inputAlphabet.contains_blank old hold, rfl⟩
  case inputBlank => exact congrArg (Option.map r.symbol) hcoherent.inputBlank
  case tapeAlphabet =>
    refine ⟨Bool.eq_false_iff.2 fun hcontains => ?_, fun symbol hsymbol => ?_⟩
    · obtain ⟨old, hold, heq⟩ := contains_tapeAlphabet_rename_iff.1 hcontains
      exact hne hold heq
    · obtain ⟨old, hold, rfl⟩ := Option.map_eq_some_iff.1 hsymbol
      exact contains_tapeAlphabet_rename_iff.2
        ⟨old, hcoherent.tapeAlphabet.contains_blank old hold, rfl⟩
  case transitions =>
    intro u hu
    obtain ⟨t, ht, rfl⟩ := (mem_transitions_rename_iff h hr).1 hu
    exact (t.tapeCount?_rename r).trans (hcoherent.transitions t ht)

end Program

/-! ## Inputs -/

/-- The characters of a renamed input are the renamed characters. -/
theorem Renaming.Suits.map_singleton_word (hr : r.Suits p) {w : String}
    (hvalid : p.isValidInput w = true) :
    (r.word w).toList.map String.singleton = (w.toList.map String.singleton).map r.symbol := by
  have hchars : ∀ c ∈ w.toList, ∃ c', r.symbol (.singleton c) = .singleton c' := fun c hc =>
    hr.character c (Program.isValidInput_iff.1 hvalid _ (List.mem_map_of_mem hc))
  unfold word
  rw [String.toList_join]
  generalize w.toList = chars at hchars ⊢
  induction chars with
  | nil => rfl
  | cons c chars ih =>
      obtain ⟨hc, hchars⟩ := List.forall_mem_cons.1 hchars
      obtain ⟨c', hc'⟩ := hc
      rw [List.map_cons, List.map_cons, List.flatMap_cons, List.map_append, ih hchars, hc',
        String.toList_singleton]
      rfl

/-- A valid input is valid under its new names. -/
theorem Renaming.Suits.isValidInput_word (hr : r.Suits p) {w : String}
    (hvalid : p.isValidInput w = true) : (p.rename r).isValidInput (r.word w) = true := by
  refine Program.isValidInput_iff.2 fun symbol hsymbol => ?_
  rw [hr.map_singleton_word hvalid] at hsymbol
  obtain ⟨old, hold, rfl⟩ := List.mem_map.1 hsymbol
  exact Program.contains_inputAlphabet_rename_iff.2
    ⟨old, Program.isValidInput_iff.1 hvalid old hold, rfl⟩

end

end TapeMachine
