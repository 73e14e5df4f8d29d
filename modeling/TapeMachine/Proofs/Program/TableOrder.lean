import TapeMachine.Proofs.Text.ByteOrder
import TapeMachine.Transition.Table

/-!
# The order of a table

A table lists its transitions by their keys. One key comes before another one if its state does, in
the order of bytes, or if the states are the same and the symbols come before, compared one by one
(`Transition.Key.Precedes`). `TransitionTable.increasing_precedes` says that tables are in this
order, which the comparison of characters yields. Of a list in such an order a search finds the
least member that it is made for (`findSome?_eq_some_iff_of_pairwise`).
-/

namespace TapeMachine

/-! ## Searches in order -/

section

variable {α β : Type} {l : List α} {r : α → α → Prop}

/-- In a list in strict order a search yields what the least member yields that yields anything. -/
theorem findSome?_eq_some_iff_of_pairwise (hl : l.Pairwise r) (hasymm : ∀ a b, r a b → ¬ r b a)
    {f : α → Option β} {b : β} :
    l.findSome? f = some b ↔ ∃ a ∈ l, f a = some b ∧ ∀ c ∈ l, r c a → f c = none := by
  rw [List.findSome?_eq_some_iff]
  constructor
  · rintro ⟨before, a, behind, rfl, ha, hbefore⟩
    obtain ⟨_, hmiddle, _⟩ := List.pairwise_append.1 hl
    refine ⟨a, by simp, ha, fun c hc hlt => ?_⟩
    rcases List.mem_append.1 hc with hc | hc
    · exact hbefore c hc
    · rcases List.mem_cons.1 hc with rfl | hc
      · exact absurd hlt (hasymm c c hlt)
      · exact absurd hlt (hasymm a c ((List.pairwise_cons.1 hmiddle).1 c hc))
  · rintro ⟨a, ha, hfound, hleast⟩
    obtain ⟨before, behind, rfl⟩ := List.append_of_mem ha
    obtain ⟨_, _, hcross⟩ := List.pairwise_append.1 hl
    exact ⟨before, a, behind, rfl, hfound, fun c hc =>
      hleast c (List.mem_append_left _ hc) (hcross c hc a List.mem_cons_self)⟩

/-- In a list in strict order a search finds the least member with the property. -/
theorem find?_eq_some_iff_of_pairwise (hl : l.Pairwise r) (hasymm : ∀ a b, r a b → ¬ r b a)
    {isMember : α → Bool} {a : α} :
    l.find? isMember = some a ↔
      a ∈ l ∧ isMember a = true ∧ ∀ c ∈ l, r c a → isMember c = false := by
  rw [List.find?_eq_findSome?_guard, findSome?_eq_some_iff_of_pairwise hl hasymm]
  simp only [Option.guard_eq_some_iff, Option.guard_eq_none_iff]
  constructor
  · rintro ⟨_, ha, ⟨rfl, hmember⟩, hleast⟩
    exact ⟨ha, hmember, hleast⟩
  · rintro ⟨ha, hmember, hleast⟩
    exact ⟨a, ha, ⟨rfl, hmember⟩, hleast⟩

end

/-- A search in a set of names finds the one with the least bytes. -/
theorem NameSet.find?_toList_eq_some_iff {s : NameSet} {isMember : String → Bool} {name : String} :
    s.toList.find? isMember = some name ↔
      name ∈ s.toList ∧ isMember name = true ∧
        ∀ other ∈ s.toList, Text.bytes other < Text.bytes name → isMember other = false :=
  find?_eq_some_iff_of_pairwise (Text.increasing_bytes s) fun _ _ => List.lt_asymm

/-! ## Keys -/

namespace Transition.Key

/-- The state has bytes that come before, or the states are the same and the symbols come before,
one after another; a tuple comes before every longer one that it begins. -/
def Precedes (k l : Key) : Prop :=
  Text.bytes k.state < Text.bytes l.state ∨
    k.state = l.state ∧ k.symbols.map Text.bytes < l.symbols.map Text.bytes

theorem Precedes.asymm {k l : Key} (h : k.Precedes l) : ¬ l.Precedes k := by
  rintro (hstate | ⟨hstate, hsymbols⟩)
  · rcases h with h | ⟨h, _⟩
    · exact List.lt_asymm hstate h
    · rw [h] at hstate
      exact List.lt_irrefl _ hstate
  · rcases h with h | ⟨_, h⟩
    · rw [hstate] at h
      exact List.lt_irrefl _ h
    · exact List.lt_asymm hsymbols h

/-- Symbols that come before others do so by their bytes too. -/
theorem map_bytes_lt {symbols others : List Symbol} (h : compare symbols others = .lt) :
    symbols.map Text.bytes < others.map Text.bytes := by
  induction symbols generalizing others with
  | nil =>
      cases others with
      | nil => cases h
      | cons other others => exact List.nil_lt_cons _ _
  | cons symbol symbols ih =>
      cases others with
      | nil => cases h
      | cons other others =>
          rw [List.compare_eq_compareLex, List.compareLex_cons_cons, Ordering.then_eq_lt] at h
          rcases h with hlt | ⟨heq, hlt⟩
          · exact List.Lex.rel (Text.bytes_lt_bytes (compareOfLessAndEq_eq_lt.1 hlt))
          · rw [Std.LawfulEqOrd.eq_of_compare heq]
            exact List.Lex.cons (ih hlt)

theorem precedes_of_compare {k l : Key} (h : compare k l = .lt) : k.Precedes l := by
  have hlex : (compare k.state l.state).then (compare k.symbols l.symbols) = .lt := h
  rcases Ordering.then_eq_lt.1 hlex with hlt | ⟨heq, hlt⟩
  · exact .inl (Text.bytes_lt_bytes (compareOfLessAndEq_eq_lt.1 hlt))
  · exact .inr ⟨Std.LawfulEqOrd.eq_of_compare heq, map_bytes_lt hlt⟩

end Transition.Key

/-- A table lists its transitions in the order of the bytes of their keys. -/
theorem TransitionTable.increasing_precedes (table : TransitionTable) :
    table.toList.Pairwise fun t u => t.key.Precedes u.key :=
  table.increasing.imp Transition.Key.precedes_of_compare

end TapeMachine
