import Mathlib.Data.List.Basic
import Mathlib.Logic.Relation
import TapeMachine.Program.Lint
import TapeMachine.Proofs.Text.ByteOrder

/-!
# The states that transitions lead to

An exploration never runs out of its bound before it runs out of pending states: every look takes
away from `looksLeft`, which counts the pending states and the transitions out of states that were
not visited (`looksLeft_lt`). What is visited in the end is what transitions lead to from the start
(`mem_reached_iff`), since looks keep all pending and visited states reachable, and the visited ones
closed under transitions but for what is pending (`Explores.look`). So the warning about unreachable
states lists all of them, in the order of their bytes, and nothing else (`exists_unreachable`).
-/

namespace TapeMachine

/-- The states that the finding says no transitions lead to. -/
def Warning.unreachable? : Warning → Option (List String)
  | unreachableStates states => some states
  | acceptingStateTransitions _ => none

namespace Program

variable {p : Program} {e e' : Exploration} {start : String}

/-- A transition leads from one state to the other. -/
def Leads (p : Program) (state next : String) : Prop :=
  ∃ t ∈ p.transitions.toList, t.state = state ∧ t.nextState = next

/-- Transitions lead from one state to the other, one after another. None at all lead from a state
to itself, and names that are not declared may be passed. -/
def Reaches (p : Program) : String → String → Prop := Relation.ReflTransGen p.Leads

theorem mem_map_nextState_iff {state next : String} :
    next ∈ (p.transitions.fromState state).map Transition.nextState ↔ p.Leads state next := by
  simp [TransitionTable.fromState, Leads, and_assoc]

/-! ## Looks -/

/-- There is no look exactly if nothing is pending. -/
theorem look?_eq_none_iff : p.look? e = none ↔ e.pending = [] := by
  obtain ⟨_ | ⟨state, pending⟩, visited⟩ := e
  · exact iff_of_true rfl rfl
  · refine iff_of_false ?_ (List.cons_ne_nil state pending)
    rw [look?]
    split <;> exact fun h => nomatch h

/-- A look passes over a state that was visited before, or visits a new one and makes pending what
transitions lead to from it, unless that was visited. -/
theorem look?_cases (h : p.look? e = some e') :
    ∃ state pending, e.pending = state :: pending ∧
      ((state ∈ e.visited ∧ e' = ⟨pending, e.visited⟩) ∨
        (state ∉ e.visited ∧ ∃ next : List String,
          e' = ⟨next ++ pending, state :: e.visited⟩ ∧
          (∀ name, name ∈ next ↔ p.Leads state name ∧ name ∉ state :: e.visited) ∧
          next.length ≤ (p.transitions.fromState state).length)) := by
  obtain ⟨_ | ⟨state, pending⟩, visited⟩ := e
  · cases h
  · refine ⟨state, pending, rfl, ?_⟩
    simp only [look?] at h
    split at h
    · next hmem => exact .inl ⟨List.contains_iff_mem.1 hmem, (Option.some.inj h).symm⟩
    · next hnew =>
        refine .inr ⟨fun hmem => hnew (List.contains_iff_mem.2 hmem), _, (Option.some.inj h).symm,
          fun name => ?_, ?_⟩
        · rw [List.mem_reverse, List.mem_filter, mem_map_nextState_iff, Bool.not_eq_true',
            ← Bool.not_eq_true, List.contains_iff_mem]
        · rw [List.length_reverse]
          exact Nat.le_trans (List.length_filter_le _ _) (Nat.le_of_eq (List.length_map _))

/-! ## The end of an exploration -/

/-- At most so many looks are left: one for every pending state, and one for every transition out of
a state that was not visited, which can still make its next state pending. -/
def looksLeft (p : Program) (e : Exploration) : Nat :=
  e.pending.length + (p.transitions.toList.filter fun t => !e.visited.contains t.state).length

/-- Visiting a new state uses up the transitions out of it. -/
theorem length_filter_visited {visited : List String} {state : String} (h : state ∉ visited)
    (ts : List Transition) :
    (ts.filter fun t => !visited.contains t.state).length =
      (ts.filter fun t => !(state :: visited).contains t.state).length +
        (ts.filter fun t => t.state == state).length := by
  have hout : (ts.filter fun t => t.state == state && !visited.contains t.state) =
      ts.filter fun t => t.state == state := by
    refine List.filter_congr fun t _ => ?_
    by_cases hstate : t.state = state <;> simp [hstate, h]
  have hrest : (ts.filter fun t => !(t.state == state) && !visited.contains t.state) =
      ts.filter fun t => !(state :: visited).contains t.state := by
    refine List.filter_congr fun t _ => ?_
    rw [List.contains_cons, Bool.not_or]
  rw [List.length_eq_length_filter_add fun t : Transition => t.state == state, List.filter_filter,
    List.filter_filter, hout, hrest, Nat.add_comm]

/-- Every look leaves fewer looks. -/
theorem looksLeft_lt (h : p.look? e = some e') : p.looksLeft e' < p.looksLeft e := by
  obtain ⟨state, pending, hpending, ⟨_, rfl⟩ | ⟨hnew, next, rfl, _, hlength⟩⟩ := look?_cases h
  · simp only [looksLeft, hpending, List.length_cons]
    omega
  · have hcount := length_filter_visited hnew p.transitions.toList
    simp only [looksLeft, hpending, List.length_cons, List.length_append, hcount]
    simp only [TransitionTable.fromState] at hlength
    omega

theorem looksLeft_start (p : Program) (start : String) :
    p.looksLeft ⟨[start], []⟩ = p.transitions.size + 1 := by
  have hall : (p.transitions.toList.filter fun t => !([] : List String).contains t.state) =
      p.transitions.toList := List.filter_eq_self.2 fun t _ => rfl
  rw [looksLeft, hall, List.length_singleton, Nat.add_comm]
  rfl

theorem explore_of_end (h : p.look? e = none) (bound : Nat) : p.explore bound e = e := by
  cases bound with
  | zero => rfl
  | succ bound => rw [explore, h]

/-- If the bound allows for the looks that are left, nothing is pending in the end. -/
theorem pending_explore {bound : Nat} (h : p.looksLeft e ≤ bound) :
    (p.explore bound e).pending = [] := by
  induction bound generalizing e with
  | zero =>
      have hlength : e.pending.length ≤ 0 := Nat.le_trans (Nat.le_add_right _ _) h
      exact List.eq_nil_of_length_eq_zero (Nat.le_zero.1 hlength)
  | succ bound ih =>
      rw [explore]
      cases hlook : p.look? e with
      | none => exact look?_eq_none_iff.1 hlook
      | some next => exact ih (Nat.le_of_lt_succ (Nat.lt_of_lt_of_le (looksLeft_lt hlook) h))

/-- A greater bound makes no difference once nothing is pending. -/
theorem explore_add {bound : Nat} (h : (p.explore bound e).pending = []) (more : Nat) :
    p.explore (bound + more) e = p.explore bound e := by
  induction bound generalizing e with
  | zero => exact explore_of_end (look?_eq_none_iff.2 h) (0 + more)
  | succ bound ih =>
      rw [Nat.succ_add, explore, explore]
      rw [explore] at h
      cases hlook : p.look? e with
      | none => rfl
      | some next =>
          rw [hlook] at h
          exact ih h

/-- Every exploration from one state comes to its end, and has then found what is reached. -/
theorem explore_start {bound : Nat} (h : p.transitions.size < bound) :
    (p.explore bound ⟨[start], []⟩).pending = [] ∧
      (p.explore bound ⟨[start], []⟩).visited = p.reached start := by
  have hlooks := looksLeft_start p start
  refine ⟨pending_explore (by omega), ?_⟩
  obtain ⟨more, rfl⟩ := Nat.exists_eq_add_of_le h
  exact congrArg Exploration.visited (explore_add (pending_explore (by omega)) more)

/-! ## What is found -/

/-- The exploration is one of the states that can be reached from `start`, and not more of them are
missing than those behind pending states. -/
structure Explores (p : Program) (start : String) (e : Exploration) : Prop where
  begun : start ∈ e.pending ∨ start ∈ e.visited
  reaches : ∀ name, name ∈ e.pending ∨ name ∈ e.visited → p.Reaches start name
  closed : ∀ state ∈ e.visited, ∀ next, p.Leads state next → next ∈ e.pending ∨ next ∈ e.visited

theorem explores_start (p : Program) (start : String) : p.Explores start ⟨[start], []⟩ where
  begun := .inl List.mem_cons_self
  reaches name hname := by
    rcases hname with hname | hname
    · rw [List.mem_singleton.1 hname]
      exact .refl
    · cases hname
  closed state hstate := by cases hstate

/-- A look goes on with the exploration. -/
theorem Explores.look (he : p.Explores start e) (h : p.look? e = some e') :
    p.Explores start e' := by
  obtain ⟨hbegun, hreaches, hclosed⟩ := he
  obtain ⟨state, pending, hpending, ⟨hold, rfl⟩ | ⟨_, next, rfl, hnext, _⟩⟩ := look?_cases h
  · -- The state that is passed over is one of those visited.
    have hkept (name : String) (hname : name ∈ e.pending ∨ name ∈ e.visited) :
        name ∈ pending ∨ name ∈ e.visited := by
      rw [hpending, List.mem_cons] at hname
      rcases hname with (rfl | hname) | hname
      · exact .inr hold
      · exact .inl hname
      · exact .inr hname
    refine ⟨hkept start hbegun, fun name hname => hreaches name ?_,
      fun state hstate next hleads => hkept next (hclosed state hstate next hleads)⟩
    rw [hpending, List.mem_cons, or_assoc]
    exact .inr hname
  · have hkept (name : String) (hname : name ∈ e.pending ∨ name ∈ e.visited) :
        name ∈ next ++ pending ∨ name ∈ state :: e.visited := by
      rw [hpending, List.mem_cons] at hname
      rw [List.mem_append, List.mem_cons]
      rcases hname with (rfl | hname) | hname
      · exact .inr (.inl rfl)
      · exact .inl (.inr hname)
      · exact .inr (.inr hname)
    have hstate : p.Reaches start state := hreaches state (.inl (hpending ▸ List.mem_cons_self))
    refine ⟨hkept start hbegun, fun name hname => ?_, fun name hname target hleads => ?_⟩
    · rw [List.mem_append, List.mem_cons] at hname
      rcases hname with (hname | hname) | rfl | hname
      · exact hstate.tail ((hnext name).1 hname).1
      · exact hreaches name (.inl (hpending ▸ List.mem_cons_of_mem _ hname))
      · exact hstate
      · exact hreaches name (.inr hname)
    · -- What the new state leads to is pending now, unless it was visited.
      rcases List.mem_cons.1 hname with rfl | hname
      · by_cases hvisited : target ∈ name :: e.visited
        · exact .inr hvisited
        · exact .inl (List.mem_append_left _ ((hnext target).2 ⟨hleads, hvisited⟩))
      · exact hkept target (hclosed name hname target hleads)

theorem Explores.explore (he : p.Explores start e) (bound : Nat) :
    p.Explores start (p.explore bound e) := by
  induction bound generalizing e with
  | zero => exact he
  | succ bound ih =>
      rw [Program.explore]
      cases hlook : p.look? e with
      | none => exact he
      | some next => exact ih (he.look hlook)

/-- What is visited in the end is what transitions lead to. -/
theorem mem_reached_iff {name : String} : name ∈ p.reached start ↔ p.Reaches start name := by
  have hexplores := (explores_start p start).explore (p.transitions.size + 1)
  have hend : (p.explore (p.transitions.size + 1) ⟨[start], []⟩).pending = [] :=
    (explore_start (Nat.lt_succ_self p.transitions.size)).1
  obtain ⟨hbegun, hreaches, hclosed⟩ := hexplores
  simp only [hend, List.not_mem_nil, false_or] at hbegun hreaches hclosed
  constructor
  · exact hreaches name
  · intro h
    induction h with
    | refl => exact hbegun
    | tail _ hleads ih => exact hclosed _ ih _ hleads

/-! ## The warning -/

/-- The states are those of the program that transitions do not lead to from `start`, in the order
of their bytes. -/
structure ListsUnreachable (p : Program) (start : String) (states : List String) : Prop where
  mem : ∀ name, name ∈ states ↔ name ∈ p.states.toList ∧ ¬ p.Reaches start name
  increasing : states.Pairwise fun name other => Text.bytes name < Text.bytes other

/-- What the findings about the program say about unreachable states. -/
def unreachable (p : Program) : List (List String) := p.lint.filterMap Warning.unreachable?

/-- Only one finding is about unreachable states. -/
theorem unreachable_eq (p : Program) :
    p.unreachable = p.unreachableWarning?.toList.filterMap Warning.unreachable? := by
  have hother : p.acceptingWarning?.toList.filterMap Warning.unreachable? = [] := by
    simp only [acceptingWarning?]
    split <;> rfl
  rw [unreachable, lint, List.filterMap_append, hother, List.append_nil]

/-- Without an initial state nothing is said about unreachable states. -/
theorem unreachable_of_initial_none (h : p.initial = none) : p.unreachable = [] := by
  rw [unreachable_eq, unreachableWarning?, h]
  rfl

/-- With an initial state, the states that cannot be reached from it are listed if there are any. -/
theorem exists_unreachable (h : p.initial = some start) :
    ∃ states, p.ListsUnreachable start states ∧
      p.unreachable = if states = [] then [] else [states] := by
  refine ⟨p.states.toList.filter fun name => !(p.reached start).contains name, ⟨fun name => ?_,
    (Text.increasing_bytes p.states).filter _⟩, ?_⟩
  · rw [List.mem_filter, Bool.not_eq_true', ← Bool.not_eq_true, List.contains_iff_mem,
      mem_reached_iff]
  · rw [unreachable_eq, unreachableWarning?, h]
    simp only
    cases p.states.toList.filter fun name => !(p.reached start).contains name <;> rfl

end Program

end TapeMachine
