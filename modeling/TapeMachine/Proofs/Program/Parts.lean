import TapeMachine.Program

/-!
# The parts of a program

A set is known by its members (`KeyedSet.eq_of_mem_iff`), in whatever order they were put into it.
The members of a set of names, of an alphabet and of a table are those that were put into it one
after another: all names, all symbols but the empty one, and all transitions, if no two of them fire
on the same state and symbols.
-/

namespace TapeMachine

namespace KeyedSet

universe u v

variable {α : Type u} {κ : Type v} [Ord κ] {key : α → κ} [Std.TransOrd κ] [Std.LawfulEqOrd κ]

omit [Std.TransOrd κ] in
/-- No two members have the same key. -/
theorem nodup_keys (s : KeyedSet key) : (s.toList.map key).Nodup := by
  refine List.pairwise_map.2 (s.increasing.imp fun {a b} hlt heq => ?_)
  have hself : compare (key b) (key b) = .eq := Std.ReflCmp.compare_self
  rw [heq, hself] at hlt
  cases hlt

omit [Ord κ] [Std.TransOrd κ] [Std.LawfulEqOrd κ] in
/-- Values with different keys are different. -/
theorem nodup_of_nodup_keys {l : List α} (h : (l.map key).Nodup) : l.Nodup :=
  List.Pairwise.of_map key (fun _ _ hne heq => hne (congrArg key heq)) h

/-- Sets with the same members are the same. -/
theorem eq_of_mem_iff {s t : KeyedSet key} (h : ∀ a, a ∈ s.toList ↔ a ∈ t.toList) : s = t := by
  refine KeyedSet.ext ?_
  have hnodup := nodup_of_nodup_keys s.nodup_keys
  have hnodup' := nodup_of_nodup_keys t.nodup_keys
  have hperm : s.toList.Perm t.toList := (List.perm_ext_iff_of_nodup hnodup hnodup').2 h
  refine hperm.eq_of_pairwise (fun a b _ _ hab hba => ?_) s.increasing t.increasing
  -- No two keys come before each other.
  have hgt : compare (key a) (key b) = .gt := Std.OrientedCmp.gt_of_lt hba
  rw [hgt] at hab
  cases hab

end KeyedSet

/-! ## Sets of names and alphabets -/

/-- The set of these names. -/
def NameSet.ofNames (names : List String) : NameSet :=
  names.foldl (fun s name => (s.insertNew name).2) ∅

theorem NameSet.contains_foldl_insertNew (names : List String) (s : NameSet) (name : String) :
    (names.foldl (fun s name => (s.insertNew name).2) s).contains name = true ↔
      name ∈ names ∨ s.contains name = true := by
  induction names generalizing s with
  | nil => simp
  | cons other names ih =>
      rw [List.foldl_cons, ih, KeyedSet.contains_insertNew, List.mem_cons]
      simp only [id, Bool.or_eq_true, decide_eq_true_eq]
      rw [eq_comm (a := other), ← or_assoc, or_comm (a := name ∈ names)]

/-- A set of names has exactly these members. -/
theorem NameSet.contains_ofNames {names : List String} {name : String} :
    (ofNames names).contains name = true ↔ name ∈ names := by
  simp [ofNames, contains_foldl_insertNew]

theorem NameSet.mem_toList_ofNames {names : List String} {name : String} :
    name ∈ (ofNames names).toList ↔ name ∈ names :=
  mem_toList_iff.trans contains_ofNames

/-- A set is the set of its members. -/
theorem NameSet.ofNames_toList (s : NameSet) : ofNames s.toList = s :=
  KeyedSet.eq_of_mem_iff fun _ => mem_toList_ofNames

/-- Sets of names with the same members are the same. -/
theorem NameSet.eq_of_contains_iff {s t : NameSet}
    (h : ∀ name, s.contains name = true ↔ t.contains name = true) : s = t :=
  KeyedSet.eq_of_mem_iff fun name =>
    mem_toList_iff.trans ((h name).trans mem_toList_iff.symm)

namespace Alphabet

/-- Adding symbols leaves the blank as it is. -/
theorem blank_addSymbols (a : Alphabet) (symbols : List Symbol) :
    (a.addSymbols symbols).blank = a.blank := by
  induction symbols generalizing a with
  | nil => rfl
  | cons symbol symbols ih => exact (ih _).trans (blank_addSymbol a symbol)

theorem contains_addSymbol_iff (a : Alphabet) (symbol other : Symbol) :
    (a.addSymbol symbol).2.contains other = true ↔
      a.contains other = true ∨ other ≠ "" ∧ symbol = other := by
  cases hempty : symbol.isEmpty with
  | true =>
      obtain rfl := String.isEmpty_iff.1 hempty
      rw [addSymbol_empty, or_iff_left]
      rintro ⟨hne, rfl⟩
      exact hne rfl
  | false =>
      have hne : symbol ≠ "" := fun heq => by simp [heq] at hempty
      rw [contains_addSymbol a hempty, Bool.or_eq_true, decide_eq_true_iff, or_comm]
      refine or_congr_right (and_iff_right_of_imp ?_).symm
      rintro rfl
      exact hne

theorem contains_addSymbols_iff (a : Alphabet) (symbols : List Symbol) (symbol : Symbol) :
    (a.addSymbols symbols).contains symbol = true ↔
      a.contains symbol = true ∨ symbol ≠ "" ∧ symbol ∈ symbols := by
  induction symbols generalizing a with
  | nil => simp [addSymbols]
  | cons other symbols ih =>
      show ((a.addSymbol other).2.addSymbols symbols).contains symbol = true ↔ _
      rw [ih, contains_addSymbol_iff, or_assoc, ← and_or_left, List.mem_cons, eq_comm (a := other)]

/-- The members of an alphabet that is made of these symbols. -/
theorem contains_addSymbols_empty {symbols : List Symbol} (h : "" ∉ symbols) {symbol : Symbol} :
    (empty.addSymbols symbols).contains symbol = true ↔ symbol ∈ symbols := by
  have hne (hmem : symbol ∈ symbols) : symbol ≠ "" := fun heq => h (heq ▸ hmem)
  rw [contains_addSymbols_iff, or_iff_right, and_iff_right_of_imp hne]
  exact Bool.false_ne_true

/-- A symbol other than the empty one becomes the blank. -/
theorem blank_setBlank (a : Alphabet) {blank : Symbol} (h : blank ≠ "") :
    (a.setBlank blank).blank = some blank := by
  unfold setBlank
  rw [if_neg (mt String.isEmpty_iff.1 h)]

/-- The empty string does not become the blank. -/
theorem blank_setBlank_eq (a : Alphabet) (symbol : Symbol) :
    (a.setBlank symbol).blank = if symbol = "" then a.blank else some symbol := by
  by_cases h : symbol = ""
  · rw [if_pos h, h]
    rfl
  · rw [if_neg h, blank_setBlank a h]

theorem contains_setBlank_iff (a : Alphabet) (symbol other : Symbol) :
    (a.setBlank symbol).contains other = true ↔
      a.contains other = true ∨ other ≠ "" ∧ symbol = other := by
  rw [← contains_addSymbol_iff, setBlank]
  split
  · next hempty => rw [String.isEmpty_iff.1 hempty, addSymbol_empty]
  · rfl

/-- Designating a member as the blank changes nothing else. -/
theorem setBlank_of_contains (a : Alphabet) {blank : Symbol} (hne : blank ≠ "")
    (h : a.contains blank = true) : a.setBlank blank = { a with blank := some blank } := by
  have hempty : blank.isEmpty = false := Bool.eq_false_iff.2 (mt String.isEmpty_iff.1 hne)
  have hinsert : (a.symbols.insertNew blank).2 = a.symbols := by
    unfold KeyedSet.insertNew
    exact congrArg Prod.snd (if_pos h)
  simp only [setBlank, addSymbol, hempty, Bool.false_eq_true, if_false, hinsert]

/-- Designating a member as the blank keeps the members. -/
theorem contains_setBlank (a : Alphabet) {blank : Symbol} (h : a.contains blank = true)
    (symbol : Symbol) : (a.setBlank blank).contains symbol = a.contains symbol := by
  by_cases hne : blank = ""
  · rw [hne]
    rfl
  · rw [setBlank_of_contains a hne h]
    rfl

end Alphabet

/-! ## Tables -/

namespace TransitionTable

/-- After an insertion the keys not found are those other than the new one that were not found
before. -/
theorem forall_contains_insert_eq_false_iff {table : TransitionTable} {t : Transition}
    {ts : List Transition} :
    (∀ u ∈ ts, (table.insert t).contains u.key = false) ↔
      t.key ∉ ts.map Transition.key ∧ ∀ u ∈ ts, table.contains u.key = false := by
  simp only [KeyedSet.contains_insert, Bool.or_eq_false_iff, decide_eq_false_iff_not,
    forall_and, List.mem_map, not_exists, not_and, eq_comm (a := t.key)]

/-- The members of a table that transitions are put into one after another, all for different
states and symbols. -/
theorem mem_foldl_insert {ts : List Transition} {table : TransitionTable} {t : Transition}
    (hnodup : (ts.map Transition.key).Nodup) (hold : ∀ t ∈ ts, table.contains t.key = false) :
    t ∈ (ts.foldl KeyedSet.insert table).toList ↔ t ∈ ts ∨ t ∈ table.toList := by
  induction ts generalizing table with
  | nil => simp
  | cons u ts ih =>
      obtain ⟨hfirst, hnodup⟩ := List.nodup_cons.1 hnodup
      obtain ⟨hfresh, hold⟩ := List.forall_mem_cons.1 hold
      have hrest := forall_contains_insert_eq_false_iff.2 ⟨hfirst, hold⟩
      have hkeep : t ∈ table.toList → t.key ≠ u.key := by
        intro ht he
        exact Bool.false_ne_true (hfresh.symm.trans (KeyedSet.contains_iff.2 ⟨t, ht, he⟩))
      rw [List.foldl_cons, ih hnodup hrest, KeyedSet.mem_toList_insert, List.mem_cons, or_assoc,
        or_left_comm, and_iff_left_of_imp hkeep]

/-- A table is the one that its transitions are put into one after another. -/
theorem foldl_insert_toList (table : TransitionTable) :
    table.toList.foldl KeyedSet.insert ∅ = table := by
  refine KeyedSet.eq_of_mem_iff fun t => ?_
  have hmem : t ∈ (table.toList.foldl KeyedSet.insert ∅).toList ↔ t ∈ table.toList ∨ t ∈ [] :=
    mem_foldl_insert table.nodup_keys fun _ _ => rfl
  exact hmem.trans (or_iff_left List.not_mem_nil)

end TransitionTable

/-- A transition can be added exactly if it addresses every tape and no other one fires on the same
state and symbols. -/
theorem Program.addTransition_eq_ok_iff {p q : Program} {t : Transition} :
    p.addTransition t = .ok q ↔ t.tapeCount? = some p.tapeCount ∧
      p.transitions.contains t.key = false ∧
      { p with transitions := p.transitions.insert t } = q := by
  unfold Program.addTransition TransitionTable.add KeyedSet.insertNew
  cases ht : t.tapeCount? with
  | none => simp
  | some count =>
      by_cases heq : count = p.tapeCount
      · cases hcontains : p.transitions.contains t.key <;> simp [heq, Except.map]
      · simp [heq]

end TapeMachine
