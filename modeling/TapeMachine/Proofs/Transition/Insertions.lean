import Mathlib.Data.List.Dedup
import Mathlib.Data.List.Induction
import TapeMachine.Proofs.Program.Parts
import TapeMachine.Proofs.Program.TableOrder

/-!
# Transitions added to a table one after another

A table that is changed in place looks up the key of a transition before it takes the transition in
(`addInPlace`). `tabulate` makes such calls for any transitions, one after another from the empty
table on, whatever they answer. A table is known by its look-ups: under every key it has the first
of the transitions with this key (`Holds`), which a call keeps whether or not it is refused
(`Holds.afterAdding`). What calls answer, what the table lists and in which order follows from that,
and `tabulates_tabulate` puts it together.
-/

namespace TapeMachine

/-- One of the transitions is for the same state and symbols. -/
def Transition.Repeats (t : Transition) (ts : List Transition) : Prop :=
  ∃ u ∈ ts, u.state = t.state ∧ u.read = t.read

instance (t : Transition) (ts : List Transition) : Decidable (t.Repeats ts) :=
  inferInstanceAs (Decidable (∃ u ∈ ts, u.state = t.state ∧ u.read = t.read))

theorem Transition.key_eq_iff {t : Transition} {state : String} {symbols : List Symbol} :
    t.key = ⟨state, symbols⟩ ↔ t.state = state ∧ t.read = symbols := by
  rw [key, Key.mk.injEq]

namespace TransitionTable

/-! ## Calls -/

/-- Add a transition to a table that is changed in place. A call that fails leaves behind what it
has changed before. -/
def addInPlace (t : Transition) : EStateM MachineError TransitionTable Unit := do
  let table ← get
  if table.contains t.key then throw (.nonDeterministic t.state t.read)
  else set (table.insert t)

/-- The table that a call leaves behind, whether or not it fails. -/
def afterAdding (table : TransitionTable) (t : Transition) : TransitionTable :=
  match (addInPlace t).run table with
  | .ok _ after => after
  | .error _ after => after

/-- The table that the calls leave behind which add these transitions to the empty one. -/
def tabulate (ts : List Transition) : TransitionTable := ts.foldl afterAdding ∅

section

variable {table : TransitionTable} {t : Transition}

/-- A transition is refused if its key is there, and nothing is changed then. -/
theorem add_of_contains (h : table.contains t.key = true) :
    table.add t = .error (.nonDeterministic t.state t.read) ∧
      (addInPlace t).run table = .error (.nonDeterministic t.state t.read) table := by
  have hinsert : table.insertNew t = (false, table) := if_pos h
  constructor
  · rw [add, hinsert]
  · simp [addInPlace, h]

theorem add_of_not_contains (h : table.contains t.key = false) :
    table.add t = .ok (table.insert t) ∧ (addInPlace t).run table = .ok () (table.insert t) := by
  have hinsert : table.insertNew t = (true, table.insert t) := if_neg (Bool.eq_false_iff.1 h)
  constructor
  · rw [add, hinsert]
  · simp [addInPlace, h]

theorem afterAdding_eq (table : TransitionTable) (t : Transition) :
    table.afterAdding t = if table.contains t.key then table else table.insert t := by
  unfold afterAdding
  cases h : table.contains t.key with
  | true =>
      rw [(add_of_contains h).2]
      rfl
  | false =>
      rw [(add_of_not_contains h).2]
      rfl

theorem tabulate_append_singleton (ts : List Transition) (t : Transition) :
    tabulate (ts ++ [t]) = (tabulate ts).afterAdding t := by
  rw [tabulate, List.foldl_append]
  rfl

end

/-! ## The first transition for every key -/

/-- Under every key the table has the first of the transitions with this key. -/
def Holds (table : TransitionTable) (ts : List Transition) : Prop :=
  ∀ key, table.find? key = ts.find? fun t => t.key = key

section

variable {table : TransitionTable} {ts : List Transition}

/-- A transition that is added is only found under a key that none before it has. -/
theorem Holds.afterAdding (h : table.Holds ts) (t : Transition) :
    (table.afterAdding t).Holds (ts ++ [t]) := by
  have hinsert : table.afterAdding t = (table.insertNew t).2 := by
    rw [afterAdding_eq, KeyedSet.insertNew]
    split <;> rfl
  intro key
  rw [hinsert, KeyedSet.find?_insertNew, h, List.find?_append, List.find?_singleton]
  simp only [decide_eq_true_iff]

theorem holds_tabulate (ts : List Transition) : (tabulate ts).Holds ts := by
  induction ts using List.reverseRecOn with
  | nil => exact fun _ => rfl
  | append_singleton ts t ih =>
      rw [tabulate_append_singleton]
      exact ih.afterAdding t

variable (h : table.Holds ts)

include h

theorem Holds.contains_iff {key : Transition.Key} :
    table.contains key = true ↔ ∃ t ∈ ts, t.key = key := by
  rw [KeyedSet.contains, h, List.find?_isSome]
  simp only [decide_eq_true_iff]

theorem Holds.contains_key_iff {t : Transition} :
    table.contains t.key = true ↔ t.Repeats ts :=
  h.contains_iff.trans (exists_congr fun _ => and_congr_right fun _ => Transition.key_eq_iff)

/-- What a call answers and leaves behind depends on whether a transition before was for the same
state and symbols. -/
theorem Holds.call_eq (t : Transition) :
    table.add t =
        (if t.Repeats ts then .error (.nonDeterministic t.state t.read)
        else .ok (table.afterAdding t)) ∧
      (addInPlace t).run table =
        if t.Repeats ts then .error (.nonDeterministic t.state t.read) table
        else .ok () (table.afterAdding t) := by
  rw [afterAdding_eq]
  by_cases hrepeats : t.Repeats ts
  · rw [if_pos hrepeats, if_pos hrepeats]
    exact add_of_contains (h.contains_key_iff.2 hrepeats)
  · have hcontains : table.contains t.key = false :=
      Bool.eq_false_iff.2 (mt h.contains_key_iff.1 hrepeats)
    rw [if_neg hrepeats, if_neg hrepeats, hcontains]
    exact add_of_not_contains hcontains

/-- A table lists the transitions that are the first for their state and symbols. -/
theorem Holds.mem_toList_iff {t : Transition} :
    t ∈ table.toList ↔ ∃ before after, ts = before ++ t :: after ∧ ¬ t.Repeats before := by
  have hother (u : Transition) : u.key ≠ t.key ↔ ¬ (u.state = t.state ∧ u.read = t.read) :=
    not_congr Transition.key_eq_iff
  rw [← KeyedSet.find?_key_eq_some_iff, h, List.find?_eq_some_iff_append]
  simp [Transition.Repeats, hother]

/-- There are as many transitions as there are keys. -/
theorem Holds.size_eq : table.size = (ts.map Transition.key).dedup.length := by
  have hkeys (key : Transition.Key) :
      key ∈ table.toList.map Transition.key ↔ key ∈ (ts.map Transition.key).dedup := by
    rw [List.mem_dedup, List.mem_map, List.mem_map, ← KeyedSet.contains_iff, h.contains_iff]
  have hperm := (List.perm_ext_iff_of_nodup table.nodup_keys (List.nodup_dedup _)).2 hkeys
  rw [← hperm.length_eq, List.length_map]
  rfl

end

/-! ## The transitions out of a state -/

section

variable {table : TransitionTable} {state : String}

theorem mem_fromState_iff {t : Transition} :
    t ∈ table.fromState state ↔ t ∈ table.toList ∧ t.state = state := by
  rw [fromState, List.mem_filter, beq_iff_eq]

/-- The transitions out of a state are the one part of the list, in its order, that consists of
them. -/
theorem eq_fromState_iff {l : List Transition} :
    l = table.fromState state ↔
      l.Sublist table.toList ∧ ∀ t, t ∈ l ↔ t ∈ table.toList ∧ t.state = state := by
  have hsublist : (table.fromState state).Sublist table.toList := List.filter_sublist
  constructor
  · rintro rfl
    exact ⟨hsublist, fun _ => mem_fromState_iff⟩
  · rintro ⟨hl, hmem⟩
    -- Parts of a table are tables, and these are known by their members.
    let part : TransitionTable := ⟨l, table.increasing.sublist hl⟩
    let out : TransitionTable := ⟨table.fromState state, table.increasing.sublist hsublist⟩
    have heq : part = out :=
      KeyedSet.eq_of_mem_iff fun t => (hmem t).trans mem_fromState_iff.symm
    exact congrArg KeyedSet.toList heq

end

/-! ## Tables as functions -/

/-- The table is the deterministic partial function that takes a state and symbols to the first of
the transitions for them, listed in the order of its keys. -/
structure Tabulates (ts : List Transition) (table : TransitionTable) : Prop where
  /-- A call is refused exactly if a transition before was for the same state and symbols, and then
  it leaves the table as it is. -/
  call : ∀ before t after, ts = before ++ t :: after →
    (tabulate before).add t =
        (if t.Repeats before then .error (.nonDeterministic t.state t.read)
        else .ok (tabulate (before ++ [t]))) ∧
      (addInPlace t).run (tabulate before) =
        if t.Repeats before then .error (.nonDeterministic t.state t.read) (tabulate before)
        else .ok () (tabulate (before ++ [t]))
  get? : ∀ state symbols,
    table.get? state symbols = ts.find? fun t => t.state = state ∧ t.read = symbols
  contains : ∀ state symbols,
    table.contains ⟨state, symbols⟩ = (table.get? state symbols).isSome ∧
      (table.contains ⟨state, symbols⟩ = true ↔ ∃ t ∈ ts, t.state = state ∧ t.read = symbols)
  /-- The transitions that were not refused are listed, each of them once. -/
  mem : ∀ t, t ∈ table.toList ↔
    ∃ before after, ts = before ++ t :: after ∧ ¬ t.Repeats before
  nodup : table.toList.Nodup
  increasing : table.toList.Pairwise fun t u => t.key.Precedes u.key
  size : table.size = (ts.map Transition.key).dedup.length
  fromState : ∀ state l, l = table.fromState state ↔
    l.Sublist table.toList ∧ ∀ t, t ∈ l ↔ t ∈ table.toList ∧ t.state = state

/-- Any transitions, with tuples of any lengths, make a deterministic partial function when they are
added to the empty table one after another. -/
theorem tabulates_tabulate (ts : List Transition) : Tabulates ts (tabulate ts) := by
  have hholds := holds_tabulate ts
  constructor
  case call =>
    intro before t _ _
    rw [tabulate_append_singleton]
    exact (holds_tabulate before).call_eq t
  case get? =>
    intro state symbols
    rw [TransitionTable.get?, hholds]
    simp only [Transition.key_eq_iff]
  case contains =>
    intro state symbols
    refine ⟨rfl, ?_⟩
    rw [hholds.contains_iff]
    simp only [Transition.key_eq_iff]
  case mem => exact fun _ => hholds.mem_toList_iff
  case nodup => exact KeyedSet.nodup_of_nodup_keys (tabulate ts).nodup_keys
  case increasing => exact increasing_precedes (tabulate ts)
  case size => exact hholds.size_eq
  case fromState => exact fun _ _ => eq_fromState_iff

/-- A tuple comes before those that it begins, and the fourth transition repeats the second one. -/
example :
    (tabulate ([["b"], ["a", "b"], ["a"], ["a", "b"], []].map fun read =>
      ⟨"go", read, "go", [], []⟩)).toList.map Transition.read = [[], ["a"], ["a", "b"], ["b"]] := by
  decide

end TransitionTable

end TapeMachine
