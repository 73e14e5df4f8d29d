import Mathlib.Data.List.Induction
import Mathlib.Data.List.Nodup
import TapeMachine.Proofs.Program.History
import TapeMachine.Proofs.Simulator.Histories

/-!
# The order of edits

Edits are orderly (`Program.Orderly`) if they designate the initial state and the blank at most
once, and no transition is for the same state and symbols as another one. Then there is nothing that
depends on the order: orderly edits succeed (`Orderly.build_eq`), and what they leave on record is
the same however they are rearranged, and however often a member is added again
(`Records.rearrange`). There is only one program with that record, so it is built in any order.
-/

namespace TapeMachine

/-! ## Lists in any order -/

section

variable {α : Type} {l l' : List α}

theorem getLast?_eq_some_iff_of_length_le (h : l.length ≤ 1) {a : α} :
    l.getLast? = some a ↔ a ∈ l := by
  match l with
  | [] => simp
  | [b] => simp [eq_comm]

/-- There is nothing to order in a list of at most one element. -/
theorem getLast?_eq_of_perm (hperm : l.Perm l') (h : l.length ≤ 1) : l.getLast? = l'.getLast? := by
  have h' : l'.length ≤ 1 := hperm.length_eq ▸ h
  refine Option.ext fun a => ?_
  rw [getLast?_eq_some_iff_of_length_le h, getLast?_eq_some_iff_of_length_le h', hperm.mem_iff]

variable {κ : Type} {key : α → κ} {k : κ} {isMeant : α → Bool}
  (hkey : ∀ a, isMeant a = true → key a = k)

include hkey

theorem find?_eq_some_iff_of_nodup (hnodup : (l.map key).Nodup) {a : α} :
    l.find? isMeant = some a ↔ a ∈ l ∧ isMeant a = true := by
  constructor
  · intro h
    exact ⟨List.mem_of_find?_eq_some h, List.find?_some h⟩
  · rintro ⟨ha, hmeant⟩
    obtain ⟨b, hb⟩ := Option.isSome_iff_exists.1 (List.find?_isSome.2 ⟨a, ha, hmeant⟩)
    have hsame : key b = key a := (hkey b (List.find?_some hb)).trans (hkey a hmeant).symm
    rw [hb, List.inj_on_of_nodup_map hnodup (List.mem_of_find?_eq_some hb) ha hsame]

/-- Where no two elements have the same key, a look-up by the key finds the same in any order. -/
theorem find?_eq_of_perm (hperm : l.Perm l') (hnodup : (l.map key).Nodup) :
    l.find? isMeant = l'.find? isMeant := by
  have hnodup' : (l'.map key).Nodup := (hperm.map key).nodup_iff.1 hnodup
  refine Option.ext fun a => ?_
  rw [find?_eq_some_iff_of_nodup hkey hnodup, find?_eq_some_iff_of_nodup hkey hnodup',
    hperm.mem_iff]

end

namespace Program

/-! ## Orderly edits -/

/-- At most one initial state and one blank are designated, every transition addresses every tape,
and no two transitions are for the same state and symbols. -/
structure Orderly (count : Nat) (edits : List Edit) : Prop where
  initialState : (edits.filterMap Edit.initialState?).length ≤ 1
  blank : (edits.filterMap Edit.blank?).length ≤ 1
  tapeCount : ∀ t ∈ edits.filterMap Edit.transition?, t.tapeCount? = some (max count 1)
  keys : ((edits.filterMap Edit.transition?).map Transition.key).Nodup

section

variable {count : Nat} {edits rearranged : List Edit} {p q : Program}

/-- Leaving out edits keeps the others orderly. -/
theorem Orderly.sublist (h : Orderly count edits) {kept : List Edit} (hkept : kept.Sublist edits) :
    Orderly count kept where
  initialState := Nat.le_trans (hkept.filterMap _).length_le h.initialState
  blank := Nat.le_trans (hkept.filterMap _).length_le h.blank
  tapeCount t ht := h.tapeCount t ((hkept.filterMap _).subset ht)
  keys := h.keys.sublist ((hkept.filterMap _).map _)

/-- The next one of orderly edits is not refused. -/
theorem Records.not_refuses (h : p.Records count edits) {t : Transition} {err : MachineError}
    (hnext : Orderly count (edits ++ [.transition t])) : ¬ p.Refuses t err := by
  have hcount := hnext.tapeCount
  have hkeys := hnext.keys
  simp only [filterMap_append_edit, Edit.transition?, Option.toList_some] at hcount hkeys
  have ht := hcount t List.mem_concat_self
  intro hrefuses
  cases hrefuses with
  | mismatchedTuples hnone =>
      rw [hnone] at ht
      cases ht
  | tapeCount hother hne =>
      rw [hother, ← h.tapeCount] at ht
      exact hne (Option.some.inj ht)
  | nonDeterministic _ hkey =>
      -- The transition in its place was added by an edit before.
      obtain ⟨u, hu⟩ := Option.isSome_iff_exists.1 hkey
      rw [h.transitions] at hu
      have hmem := List.mem_of_find?_eq_some hu
      have hmeant := List.find?_some hu
      have hsame : u.key = t.key := (of_decide_eq_true hmeant).2
      rw [List.map_append, List.map_singleton] at hkeys
      refine List.disjoint_of_nodup_append hkeys (List.mem_map_of_mem hmem) ?_
      rw [hsame]
      exact List.mem_singleton_self _

theorem editAll_append_singleton (p : Program) (edits : List Edit) (e : Edit) :
    p.editAll (edits ++ [e]) =
      (p.editAll edits).bind fun q => (q.edit e).map Prod.snd := by
  unfold editAll
  rw [List.foldlM_append]
  refine congrArg (Except.bind _) (funext fun q => ?_)
  rw [List.foldlM_cons]
  cases q.edit e <;> rfl

theorem attemptAll_append_singleton (p : Program) (edits : List Edit) (e : Edit) :
    p.attemptAll (edits ++ [e]) = (p.attemptAll edits).attempt e := by
  rw [attemptAll, List.foldl_append]
  rfl

/-- Orderly edits succeed. -/
theorem Orderly.build_eq (h : Orderly count edits) :
    build count edits = .ok ((withTapes count).attemptAll edits) := by
  -- All edits before the last one are on record.
  induction edits using List.reverseRecOn with
  | nil => rfl
  | append_singleton front e ih =>
      have hfront := ih (h.sublist (List.sublist_append_left front [e]))
      rw [build] at hfront ⊢
      rw [editAll_append_singleton, hfront, attemptAll_append_singleton]
      cases he : ((withTapes count).attemptAll front).edit e with
      | ok result =>
          rw [attempt_of_ok he]
          exact congrArg (Except.map Prod.snd) he
      | error err =>
          obtain ⟨t, rfl, hrefuses⟩ := edit_eq_error_iff.1 he
          exact absurd hrefuses ((records_attemptAll count front).not_refuses h)

/-! ## Rearrangements -/

namespace Edit

/-- Whether an edit adds a member to a set, which may be done again. -/
def isRepeatable : Edit → Bool
  | .state _ | .inputSymbol _ | .tapeSymbol _ | .acceptingState _ => true
  | .initialState _ | .blank _ | .transition _ => false

theorem parts_of_isRepeatable {e : Edit} (h : e.isRepeatable = true) :
    e.initialState? = none ∧ e.blank? = none ∧ e.transition? = none := by
  cases e with
  | state | inputSymbol | tapeSymbol | acceptingState => exact ⟨rfl, rfl, rfl⟩
  | initialState | blank | transition => cases h

theorem mem_filterMap_initialState?_iff {name : String} :
    name ∈ edits.filterMap initialState? ↔ .initialState name ∈ edits := by
  rw [List.mem_filterMap]
  constructor
  · rintro ⟨e, he, hname⟩
    cases e with
    | initialState other => exact Option.some.inj hname ▸ he
    | state | inputSymbol | tapeSymbol | blank | acceptingState | transition => cases hname
  · intro h
    exact ⟨_, h, rfl⟩

end Edit

/-- The same edits in any order, some of those that add members carried out again. -/
def Rearranges (edits rearranged : List Edit) : Prop :=
  ∃ repeats, (∀ e ∈ repeats, e ∈ edits ∧ e.isRepeatable = true) ∧
    rearranged.Perm (edits ++ repeats)

section

variable (h : Rearranges edits rearranged)

include h

theorem Rearranges.mem_iff {e : Edit} : e ∈ rearranged ↔ e ∈ edits := by
  obtain ⟨repeats, hrepeats, hperm⟩ := h
  rw [hperm.mem_iff, List.mem_append]
  exact or_iff_left_of_imp fun he => (hrepeats e he).1

/-- What cannot be repeated is there as often as before. -/
theorem Rearranges.perm_filterMap {α : Type} {part? : Edit → Option α}
    (hpart : ∀ e : Edit, e.isRepeatable = true → part? e = none) :
    (edits.filterMap part?).Perm (rearranged.filterMap part?) := by
  obtain ⟨repeats, hrepeats, hperm⟩ := h
  have hnone : repeats.filterMap part? = [] :=
    List.filterMap_eq_nil_iff.2 fun e he => hpart e (hrepeats e he).2
  have hparts := hperm.filterMap part?
  rw [List.filterMap_append, hnone, List.append_nil] at hparts
  exact hparts.symm

theorem Rearranges.initialStates :
    (edits.filterMap Edit.initialState?).Perm (rearranged.filterMap Edit.initialState?) :=
  h.perm_filterMap fun _ he => (Edit.parts_of_isRepeatable he).1

theorem Rearranges.blanks :
    (edits.filterMap Edit.blank?).Perm (rearranged.filterMap Edit.blank?) :=
  h.perm_filterMap fun _ he => (Edit.parts_of_isRepeatable he).2.1

theorem Rearranges.transitions :
    (edits.filterMap Edit.transition?).Perm (rearranged.filterMap Edit.transition?) :=
  h.perm_filterMap fun _ he => (Edit.parts_of_isRepeatable he).2.2

theorem Rearranges.orderly (horderly : Orderly count edits) : Orderly count rearranged where
  initialState := h.initialStates.length_eq ▸ horderly.initialState
  blank := h.blanks.length_eq ▸ horderly.blank
  tapeCount t ht := horderly.tapeCount t (h.transitions.mem_iff.2 ht)
  keys := (h.transitions.map _).nodup_iff.1 horderly.keys

/-- The record of orderly edits does not depend on their order. -/
theorem Records.rearrange (hp : p.Records count edits) (horderly : Orderly count edits) :
    p.Records count rearranged where
  tapeCount := hp.tapeCount
  hasState name := by rw [hp.hasState, h.mem_iff]
  isAccepting name := by rw [hp.isAccepting, h.mem_iff]
  inputSymbols symbol := by rw [hp.inputSymbols, h.mem_iff]
  inputBlank := hp.inputBlank
  tapeSymbols symbol := by rw [hp.tapeSymbols, h.mem_iff, h.mem_iff]
  blank := hp.blank.trans (getLast?_eq_of_perm h.blanks horderly.blank)
  initial := hp.initial.trans (getLast?_eq_of_perm h.initialStates horderly.initialState)
  transitions key := by
    rw [hp.transitions]
    exact find?_eq_of_perm (fun _ ht => (of_decide_eq_true ht).2) h.transitions horderly.keys

end

/-- The states of a program with their marks, as orderly edits declare them. -/
theorem Records.state?_eq (hp : p.Records count edits) (horderly : Orderly count edits)
    (name : String) :
    p.state? name =
      if .state name ∈ edits then
        some { name
               initial := decide (.initialState name ∈ edits)
               accepting := decide (.acceptingState name ∈ edits) }
      else none := by
  have hinitial : p.isInitial name = decide (.initialState name ∈ edits) := by
    rw [Bool.eq_iff_iff, decide_eq_true_iff, isInitial, beq_iff_eq, hp.initial,
      getLast?_eq_some_iff_of_length_le horderly.initialState,
      Edit.mem_filterMap_initialState?_iff]
  have haccepting : p.isAccepting name = decide (.acceptingState name ∈ edits) := by
    rw [Bool.eq_iff_iff, decide_eq_true_iff, hp.isAccepting]
  simp only [state?, hinitial, haccepting, hp.hasState]

/-- Orderly edits build the same program in any order, and also if some that add members are carried
out again. So the members stand in the same order, and the text of the program, what the check and
the lint say of it, the marks of its states and the reports of its runs are the same. -/
theorem build_rearranged (horderly : Orderly count edits) (h : Rearranges edits rearranged) :
    ∃ p q, build count edits = .ok p ∧ build count rearranged = .ok q ∧ q = p ∧
      (∀ name, q.state? name =
        if .state name ∈ edits then
          some { name
                 initial := decide (.initialState name ∈ edits)
                 accepting := decide (.acceptingState name ∈ edits) }
        else none) ∧
      ∀ s t : Simulator, s.machine.program = p → t.machine.program = q →
        s.config.maxSteps = t.config.maxSteps → ∀ input,
          (s.run input).map Prod.fst = (t.run input).map Prod.fst := by
  have hrecords := (records_attemptAll count edits).rearrange h horderly
  have hsame := (records_attemptAll count rearranged).unique hrecords
  refine ⟨_, _, horderly.build_eq, (h.orderly horderly).build_eq, hsame, ?_, ?_⟩
  · rw [hsame]
    exact (records_attemptAll count edits).state?_eq horderly
  · intro s t hs ht hbudget input
    rw [← hsame, ← ht] at hs
    exact Simulator.result_eq hs hbudget input

end

/-- The copier is also built from its last edit to its first, with two members added again. -/
theorem build_rearranged_copier :
    let again : List Edit := [.state "done", .tapeSymbol "1"]
    let shuffled := (copierEdits ++ again).reverse
    Orderly 2 copierEdits ∧ Rearranges copierEdits shuffled ∧
      ∃ p q, build 2 copierEdits = .ok p ∧ build 2 shuffled = .ok q ∧ q = p ∧
        q.state? "done" = some { name := "done", accepting := true } := by
  intro again shuffled
  have horderly : Orderly 2 copierEdits := ⟨by decide, by decide, by decide, by decide⟩
  have hrearranges : Rearranges copierEdits shuffled :=
    ⟨again, by decide, List.reverse_perm _⟩
  obtain ⟨p, q, hp, hq, hsame, hstate, _⟩ := build_rearranged horderly hrearranges
  refine ⟨horderly, hrearranges, p, q, hp, hq, hsame, ?_⟩
  rw [hstate]
  rfl

end Program

end TapeMachine
