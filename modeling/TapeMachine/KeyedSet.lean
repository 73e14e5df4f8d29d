/-!
# Ordered sets of keyed values

A `KeyedSet key` is a finite set of values, at most one for each key, listed in strictly
increasing order of the key that each value carries. Sets of names and symbols take the value
itself as the key; a transition table takes the state and the symbols that a transition fires on.

The view of a set is its list, and `KeyedSet.ext` says that the list determines the set. Every
operation states what it does to look-ups: `find?_insert`, `find?_erase`.
-/

namespace TapeMachine

universe u v

variable {α : Type u} {κ : Type v} [Ord κ]

/-- A finite set of values in strictly increasing order of the key each of them carries. -/
@[ext]
structure KeyedSet (key : α → κ) where
  toList : List α
  increasing : toList.Pairwise fun a b => compare (key a) (key b) = .lt := by exact .nil

namespace KeyedSet

variable {key : α → κ}

instance [DecidableEq α] : DecidableEq (KeyedSet key) := fun _ _ =>
  decidable_of_iff _ KeyedSet.ext_iff.symm

/-- The set with no members. -/
def empty : KeyedSet key := ⟨[], .nil⟩

instance : EmptyCollection (KeyedSet key) := ⟨empty⟩

instance : Inhabited (KeyedSet key) := ⟨empty⟩

/-- The number of members. -/
def size (s : KeyedSet key) : Nat := s.toList.length

/-- Whether there is no member. -/
def isEmpty (s : KeyedSet key) : Bool := s.toList.isEmpty

/-- The member with this key. -/
def find? (s : KeyedSet key) (k : κ) : Option α :=
  s.toList.find? fun a => compare (key a) k == .eq

/-- Whether a member has this key. -/
def contains (s : KeyedSet key) (k : κ) : Bool := (s.find? k).isSome

@[simp] theorem contains_empty (k : κ) : (∅ : KeyedSet key).contains k = false := rfl

/-! ## Look-ups -/

/-- In an increasing list a value is found under its own key. -/
theorem find?_of_mem [Std.TransOrd κ] {l : List α} {a : α}
    (hl : l.Pairwise fun a b => compare (key a) (key b) = .lt) (ha : a ∈ l) :
    l.find? (fun b => compare (key b) (key a) == .eq) = some a := by
  induction l with
  | nil => cases ha
  | cons b rest ih =>
    rw [List.pairwise_cons] at hl
    rcases List.mem_cons.1 ha with rfl | ha
    · simp [Std.ReflCmp.compare_self]
    · have hlt := hl.1 a ha
      rw [List.find?_cons, hlt]
      exact ih hl.2 ha

/-- A look-up finds exactly the member with the key. -/
theorem find?_eq_some_iff [Std.TransOrd κ] [Std.LawfulEqOrd κ] {s : KeyedSet key} {k : κ} {a : α} :
    s.find? k = some a ↔ a ∈ s.toList ∧ key a = k := by
  constructor
  · intro h
    have heq := List.find?_some (p := fun b => compare (key b) k == .eq) h
    exact ⟨List.mem_of_find?_eq_some h, Std.LawfulEqOrd.eq_of_compare (beq_iff_eq.1 heq)⟩
  · rintro ⟨ha, rfl⟩
    exact find?_of_mem s.increasing ha

/-- A value is a member exactly if it is found under its own key. -/
theorem find?_key_eq_some_iff [Std.TransOrd κ] [Std.LawfulEqOrd κ] {s : KeyedSet key} {a : α} :
    s.find? (key a) = some a ↔ a ∈ s.toList := by
  rw [find?_eq_some_iff, and_iff_left rfl]

/-- A key is found exactly if a member has it. -/
theorem contains_iff [Std.LawfulEqOrd κ] {s : KeyedSet key} {k : κ} :
    s.contains k = true ↔ ∃ a ∈ s.toList, key a = k := by
  constructor
  · intro h
    obtain ⟨a, ha⟩ := Option.isSome_iff_exists.1 h
    have heq := List.find?_some (p := fun b => compare (key b) k == .eq) ha
    exact ⟨a, List.mem_of_find?_eq_some ha, Std.LawfulEqOrd.eq_of_compare (beq_iff_eq.1 heq)⟩
  · rintro ⟨a, ha, rfl⟩
    refine List.find?_isSome.2 ⟨a, ha, ?_⟩
    simp [Std.ReflCmp.compare_self]

/-! ## Insertion -/

/-- The list with `a` at the place its key demands, instead of a value with the same key. -/
def place (key : α → κ) (a : α) : List α → List α
  | [] => [a]
  | b :: rest =>
    match compare (key a) (key b) with
    | .lt => a :: b :: rest
    | .eq => a :: rest
    | .gt => b :: place key a rest

/-- Placing a value brings in that value only. -/
theorem mem_of_mem_place {a c : α} {l : List α} (h : c ∈ place key a l) : c = a ∨ c ∈ l := by
  induction l with
  | nil => simpa [place] using h
  | cons b rest ih =>
    unfold place at h
    split at h <;> grind

/-- Placing a value keeps the order of the keys. -/
theorem pairwise_place [Std.TransOrd κ] [Std.LawfulEqOrd κ] (a : α) {l : List α}
    (h : l.Pairwise fun a b => compare (key a) (key b) = .lt) :
    (place key a l).Pairwise fun a b => compare (key a) (key b) = .lt := by
  induction l with
  | nil => simp [place]
  | cons b rest ih =>
    rw [List.pairwise_cons] at h
    unfold place
    split
    · next hlt =>
      refine List.pairwise_cons.2 ⟨fun c hc => ?_, List.pairwise_cons.2 h⟩
      rcases List.mem_cons.1 hc with rfl | hc
      · exact hlt
      · exact Std.TransCmp.lt_trans hlt (h.1 c hc)
    · next heq =>
      refine List.pairwise_cons.2 ⟨fun c hc => ?_, h.2⟩
      rw [Std.LawfulEqOrd.eq_of_compare heq]
      exact h.1 c hc
    · next hgt =>
      refine List.pairwise_cons.2 ⟨fun c hc => ?_, ih h.2⟩
      rcases mem_of_mem_place hc with rfl | hc
      · exact Std.OrientedCmp.lt_of_gt hgt
      · exact h.1 c hc

variable [Std.TransOrd κ] [Std.LawfulEqOrd κ]

/-- Put a value into the set; it takes the place of a member with the same key. -/
def insert (s : KeyedSet key) (a : α) : KeyedSet key :=
  ⟨place key a s.toList, pairwise_place a s.increasing⟩

/-- Put a value into the set unless a member has its key, and tell whether it was put there. -/
def insertNew (s : KeyedSet key) (a : α) : Bool × KeyedSet key :=
  if s.contains (key a) then (false, s) else (true, s.insert a)

/-- The set of the listed values; of several values with one key the last stays. -/
def ofList (l : List α) : KeyedSet key := l.foldl insert ∅

omit [Std.TransOrd κ] in
/-- A look-up after placing a value finds that value under its own key and all else as before. -/
theorem find?_place [DecidableEq κ] (a : α) (k : κ) (l : List α) :
    (place key a l).find? (fun b => compare (key b) k == .eq) =
      if key a = k then some a else l.find? fun b => compare (key b) k == .eq := by
  induction l with
  | nil => by_cases h : key a = k <;> simp [place, h]
  | cons b rest ih =>
    unfold place
    split
    · by_cases h : key a = k <;> simp [List.find?_cons, h]
    · next heq =>
      have hab : key a = key b := by simpa using heq
      by_cases h : key a = k <;> simp [← hab, h]
    · next hgt =>
      have hne : key a ≠ key b := fun h => by simp [h] at hgt
      have hba : compare (key b) (key a) ≠ .eq := fun h =>
        hne (Std.LawfulEqOrd.eq_of_compare h).symm
      rw [List.find?_cons, ih, List.find?_cons]
      by_cases h : key a = k
      · subst h
        simp [beq_eq_false_iff_ne.2 hba]
      · simp [h]

/-- A look-up after an insertion finds the new value under its key and all else as before. -/
theorem find?_insert [DecidableEq κ] (s : KeyedSet key) (a : α) (k : κ) :
    (s.insert a).find? k = if key a = k then some a else s.find? k :=
  find?_place a k s.toList

/-- After an insertion the new key is there, and so are the keys that were there before. -/
theorem contains_insert [DecidableEq κ] (s : KeyedSet key) (a : α) (k : κ) :
    (s.insert a).contains k = (decide (key a = k) || s.contains k) := by
  unfold contains
  rw [find?_insert]
  by_cases h : key a = k <;> simp [h]

/-- A value is put into the set exactly if its key is new. -/
theorem insertNew_fst (s : KeyedSet key) (a : α) :
    (s.insertNew a).1 = !s.contains (key a) := by
  unfold insertNew
  cases s.contains (key a) <;> rfl

/-- A look-up after a careful insertion prefers the member that was there before. -/
theorem find?_insertNew [DecidableEq κ] (s : KeyedSet key) (a : α) (k : κ) :
    (s.insertNew a).2.find? k = (s.find? k).or (if key a = k then some a else none) := by
  unfold insertNew
  split
  · next h =>
    obtain ⟨b, hb⟩ := Option.isSome_iff_exists.1 h
    by_cases hk : key a = k
    · simp [← hk, hb]
    · simp [hk]
  · next h =>
    rw [find?_insert]
    by_cases hk : key a = k
    · have hnone : s.find? k = none := by simpa [contains, hk] using h
      simp [hk, hnone]
    · simp [hk]

/-- After a careful insertion the new key is there, and so are the keys that were there before. -/
theorem contains_insertNew [DecidableEq κ] (s : KeyedSet key) (a : α) (k : κ) :
    (s.insertNew a).2.contains k = (decide (key a = k) || s.contains k) := by
  unfold contains
  rw [find?_insertNew]
  by_cases h : key a = k <;> cases s.find? k <;> simp [h]

/-- After an insertion the members are the new one and those with other keys. -/
theorem mem_toList_insert (s : KeyedSet key) {a b : α} :
    b ∈ (s.insert a).toList ↔ b = a ∨ (b ∈ s.toList ∧ key b ≠ key a) := by
  classical
  rw [← find?_key_eq_some_iff, ← find?_key_eq_some_iff, find?_insert]
  by_cases h : key a = key b
  · simp [h, eq_comm]
  · have hne : b ≠ a := fun heq => h (congrArg key heq).symm
    simp [h, hne, Ne.symm h]

/-! ## Removal -/

/-- Drop the member with this key, if there is one, and tell whether there was. -/
def erase (s : KeyedSet key) (k : κ) : Bool × KeyedSet key :=
  (s.contains k, ⟨s.toList.filter fun a => compare (key a) k != .eq, s.increasing.filter _⟩)

omit [Std.TransOrd κ] in
/-- A look-up after a removal finds nothing under the removed key and all else as before. -/
theorem find?_erase [DecidableEq κ] (s : KeyedSet key) (k j : κ) :
    (s.erase k).2.find? j = if k = j then none else s.find? j := by
  obtain ⟨l, hl⟩ := s
  simp only [erase, find?]
  clear hl
  induction l with
  | nil => simp
  | cons b rest ih =>
    by_cases hk : compare (key b) k = .eq
    · have hbk : key b = k := Std.LawfulEqOrd.eq_of_compare hk
      by_cases hj : k = j
      · simp [hj]
      · have hkj : compare k j ≠ .eq := fun h => hj (Std.LawfulEqOrd.eq_of_compare h)
        simp [ih, hj, hbk, beq_eq_false_iff_ne.2 hkj]
    · by_cases hj : k = j
      · subst hj
        simp [hk, ih]
      · simp [hk, ih, hj, List.find?_cons]

omit [Std.TransOrd κ] in
/-- After a removal the keys that were there before are there, except for the removed one. -/
theorem contains_erase [DecidableEq κ] (s : KeyedSet key) (k j : κ) :
    (s.erase k).2.contains j = (!decide (k = j) && s.contains j) := by
  unfold contains
  rw [find?_erase]
  by_cases h : k = j <;> simp [h]

/-- Whether every key of this set is the key of a member of the other one. -/
def isSubsetOf (s t : KeyedSet key) : Bool := s.toList.all fun a => t.contains (key a)

end KeyedSet

/-- A set of names, in the order of their characters. -/
abbrev NameSet := KeyedSet (id : String → String)

/-- The members of a set of names are those that it contains. -/
theorem NameSet.mem_toList_iff {s : NameSet} {name : String} :
    name ∈ s.toList ↔ s.contains name = true := by
  simp [KeyedSet.contains_iff]

end TapeMachine
