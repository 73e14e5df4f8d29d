import TapeMachine.Proofs.Json.Scalars

/-!
# Values as they are written and read

`Spells` says how a value may be written with spaces between its tokens, where a string is written
by `literal` and an integer by its digits. Both ways of writing a value, on one line and on indented
lines, are cases of it (`spells_render`, `spells_prettyAt`), and whatever is written so is read as
the value (`parse_of_spells`).
-/

namespace TapeMachine.Json

/-! ## What is written -/

-- Spaces belong to the token that they stand before, and so every gap is met once.
mutual

/-- The characters are a way of writing the value, without spaces around it. -/
inductive Spells : Json → List Char → Prop where
  | null : Spells .null ['n', 'u', 'l', 'l']
  | true : Spells (.bool true) ['t', 'r', 'u', 'e']
  | false : Spells (.bool false) ['f', 'a', 'l', 's', 'e']
  | int (n : Int) : Spells (.int n) (toString n).toList
  | string (s : String) : Spells (.string (some s)) (literal (some s)).toList
  | emptyArray {gap} : IsSpaces gap → Spells (.array []) ('[' :: (gap ++ [']']))
  | array {items cs gap} : SpellsItems items cs → IsSpaces gap →
      Spells (.array items) ('[' :: (cs ++ (gap ++ [']'])))
  | emptyObject {gap} : IsSpaces gap → Spells (.object []) ('\x7b' :: (gap ++ ['\x7d']))
  | object {members cs gap} : SpellsMembers members cs → IsSpaces gap →
      Spells (.object members) ('\x7b' :: (cs ++ (gap ++ ['\x7d'])))

/-- The characters are a way of writing the items, at least one, with commas between them. -/
inductive SpellsItems : List Json → List Char → Prop where
  | last {gap item cs} : IsSpaces gap → Spells item cs → SpellsItems [item] (gap ++ cs)
  | cons {gap item cs gap' items rest} : IsSpaces gap → Spells item cs → IsSpaces gap' →
      SpellsItems items rest →
      SpellsItems (item :: items) (gap ++ (cs ++ (gap' ++ ',' :: rest)))

/-- The characters are a way of writing the members, at least one, with commas between them. -/
inductive SpellsMembers : List (Option String × Json) → List Char → Prop where
  | last {member cs} : SpellsMember member cs → SpellsMembers [member] cs
  | cons {member cs gap members rest} : SpellsMember member cs → IsSpaces gap →
      SpellsMembers members rest →
      SpellsMembers (member :: members) (cs ++ (gap ++ ',' :: rest))

/-- The characters are a way of writing the member: its name, a colon and its value. -/
inductive SpellsMember : Option String × Json → List Char → Prop where
  | mk {gap name gap' gap'' value cs} : IsSpaces gap → IsSpaces gap' → IsSpaces gap'' →
      Spells value cs →
      SpellsMember (some name, value)
        (gap ++ ((literal (some name)).toList ++ (gap' ++ ':' :: (gap'' ++ cs))))

end

/-! ## What is read -/

theorem isSpace_iff (c : Char) :
    isSpace c = true ↔ c = ' ' ∨ c = '\t' ∨ c = '\n' ∨ c = '\r' := by
  simp [isSpace, or_assoc]

theorem endsNumber_nil : EndsNumber [] := by simp [EndsNumber]

theorem endsNumber_cons {c : Char} (h : c = ',' ∨ c = ']' ∨ c = '\x7d') (rest : List Char) :
    EndsNumber (c :: rest) := by
  rintro _ ⟨⟩
  obtain rfl | rfl | rfl := h <;> decide

theorem endsNumber_append {gap rest : List Char} (h : IsSpaces gap) (hrest : EndsNumber rest) :
    EndsNumber (gap ++ rest) := by
  cases gap with
  | nil => exact hrest
  | cons c gap =>
    rintro _ ⟨⟩
    obtain rfl | rfl | rfl | rfl := (isSpace_iff c).1 (h c (by simp)) <;> decide

theorem takeValue_skipSpace (bound : Nat) (cs : List Char) :
    takeValue bound (skipSpace cs) = takeValue bound cs := by
  cases bound with
  | zero => rfl
  | succ bound => simp only [takeValue, skipSpace_skipSpace]

theorem takeItems_skipSpace (bound : Nat) (cs : List Char) :
    takeItems bound (skipSpace cs) = takeItems bound cs := by
  cases bound with
  | zero => rfl
  | succ bound => simp only [takeItems, takeValue_skipSpace]

theorem takeMembers_skipSpace (bound : Nat) (cs : List Char) :
    takeMembers bound (skipSpace cs) = takeMembers bound cs := by
  cases bound with
  | zero => rfl
  | succ bound => simp only [takeMembers, skipSpace_skipSpace]

theorem takeValue_append {gap : List Char} (h : IsSpaces gap) (bound : Nat) (cs : List Char) :
    takeValue bound (gap ++ cs) = takeValue bound cs := by
  rw [← takeValue_skipSpace, skipSpace_append h, takeValue_skipSpace]

/-- No item begins with a closing bracket. -/
theorem takeItems_bracket {cs rest : List Char} (h : skipSpace cs = ']' :: rest) (bound : Nat) :
    takeItems bound cs = none := by
  rw [← takeItems_skipSpace, h]
  rcases bound with _ | _ | bound <;> rfl

/-- No member begins with a closing brace. -/
theorem takeMembers_brace {cs rest : List Char} (h : skipSpace cs = '\x7d' :: rest)
    (bound : Nat) : takeMembers bound cs = none := by
  rw [← takeMembers_skipSpace, h]
  cases bound <;> rfl

theorem takeValue_number {c : Char} (h : c = '-' ∨ c.isDigit = true) (bound : Nat)
    (cs : List Char) : takeValue (bound + 1) (c :: cs) = takeNumber (c :: cs) := by
  have space : isSpace c = false := by
    rw [Bool.eq_false_iff, ne_eq, isSpace_iff]
    rintro (rfl | rfl | rfl | rfl) <;> revert h <;> decide
  rw [takeValue, skipSpace_cons space]
  split <;> simp_all

theorem takeValue_literal (s : String) (bound : Nat) (rest : List Char) :
    takeValue (bound + 1) ((literal (some s)).toList ++ rest) = some (.string (some s), rest) := by
  rw [toList_literal, takeValue, List.cons_append, List.cons_append,
    skipSpace_cons (by decide)]
  simp only [takeLiteral_append, List.append_assoc, List.cons_append, List.nil_append,
    Option.map_some]

-- The induction is on how the value is written. A level of the recursion that takes no character,
-- from the items to the first of them, comes with one that takes a character, and so twice the
-- length is enough of a bound.
mutual

/-- What spells a value is read as the value, and what follows it is left. -/
theorem takeValue_of_spells {value : Json} {cs : List Char} (h : Spells value cs) {bound : Nat}
    (hbound : 2 * cs.length < bound) {rest : List Char} (hrest : EndsNumber rest) :
    takeValue bound (cs ++ rest) = some (value, rest) := by
  obtain ⟨bound, rfl⟩ := Nat.exists_eq_add_one_of_ne_zero (Nat.ne_zero_of_lt hbound)
  cases h with
  | null => rfl
  | true => rfl
  | false => rfl
  | int n =>
    obtain ⟨c, digits, written, first⟩ := exists_toString_eq_cons n
    have read := takeNumber_append n hrest
    rw [written, List.cons_append] at read ⊢
    rw [takeValue_number first, read]
  | string s => exact takeValue_literal s bound rest
  | emptyArray hgap =>
    simp only [takeValue, List.cons_append, List.append_assoc, List.nil_append,
      skipSpace_append hgap, skipSpace_cons (c := '[') rfl, skipSpace_cons (c := ']') rfl]
  | array hitems hgap =>
    simp only [List.length_cons, List.length_append, List.length_nil] at hbound
    have read := takeItems_of_spells hitems hgap (show _ < bound by omega) rest
    simp only [takeValue, List.cons_append, List.append_assoc, List.nil_append,
      skipSpace_cons (c := '[') rfl]
    split
    case h_1 first =>
      rw [takeItems_bracket first] at read
      cases read
    case h_2 => rw [takeItems_skipSpace, read, Option.map_some]
  | emptyObject hgap =>
    simp only [takeValue, List.cons_append, List.append_assoc, List.nil_append,
      skipSpace_append hgap, skipSpace_cons (c := '\x7b') rfl, skipSpace_cons (c := '\x7d') rfl]
  | object hmembers hgap =>
    simp only [List.length_cons, List.length_append, List.length_nil] at hbound
    have read := takeMembers_of_spells hmembers hgap (show _ < bound by omega) rest
    simp only [takeValue, List.cons_append, List.append_assoc, List.nil_append,
      skipSpace_cons (c := '\x7b') rfl]
    split
    case h_1 first =>
      rw [takeMembers_brace first] at read
      cases read
    case h_2 => rw [takeMembers_skipSpace, read, Option.map_some]

/-- What spells the items of an array is read as the items, up to the closing bracket. -/
theorem takeItems_of_spells {items : List Json} {cs : List Char} (h : SpellsItems items cs)
    {gap : List Char} (hgap : IsSpaces gap) {bound : Nat} (hbound : 2 * cs.length + 1 < bound)
    (rest : List Char) : takeItems bound (cs ++ (gap ++ ']' :: rest)) = some (items, rest) := by
  obtain ⟨bound, rfl⟩ := Nat.exists_eq_add_one_of_ne_zero (Nat.ne_zero_of_lt hbound)
  cases h with
  | last hbefore hitem =>
    simp only [List.length_append] at hbound
    have read := takeValue_of_spells hitem (show _ < bound by omega)
      (endsNumber_append hgap (endsNumber_cons (.inr (.inl rfl)) rest))
    simp [takeItems, takeValue_append hbefore, read, skipSpace_append hgap,
      skipSpace_cons (c := ']') rfl]
  | @cons _ _ _ _ _ more hbefore hitem hafter hitems =>
    simp only [List.length_append, List.length_cons] at hbound
    have read := takeValue_of_spells hitem (show _ < bound by omega)
      (endsNumber_append hafter (endsNumber_cons (.inl rfl) (more ++ (gap ++ ']' :: rest))))
    have readItems := takeItems_of_spells hitems hgap (show _ < bound by omega) rest
    simp [takeItems, takeValue_append hbefore, read, skipSpace_append hafter,
      skipSpace_cons (c := ',') rfl, readItems]

/-- What spells the members of an object is read as the members, up to the closing brace. -/
theorem takeMembers_of_spells {members : List (Option String × Json)} {cs : List Char}
    (h : SpellsMembers members cs) {gap : List Char} (hgap : IsSpaces gap) {bound : Nat}
    (hbound : 2 * cs.length + 1 < bound) (rest : List Char) :
    takeMembers bound (cs ++ (gap ++ '\x7d' :: rest)) = some (members, rest) := by
  obtain ⟨bound, rfl⟩ := Nat.exists_eq_add_one_of_ne_zero (Nat.ne_zero_of_lt hbound)
  cases h with
  | last hmember =>
    have ends := endsNumber_append hgap (endsNumber_cons (.inr (.inr rfl)) rest)
    refine (takeMembers_of_spellsMember hmember (by omega) ends).1 ?_
    rw [skipSpace_append hgap, skipSpace_cons (c := '\x7d') rfl]
  | @cons _ _ after _ more hmember hafter hmembers =>
    simp only [List.length_append, List.length_cons] at hbound
    have ends := endsNumber_append hafter
      (endsNumber_cons (.inl rfl) (more ++ (gap ++ '\x7d' :: rest)))
    have readMembers := takeMembers_of_spells hmembers hgap (show _ < bound by omega) rest
    simp only [List.append_assoc, List.cons_append]
    refine (takeMembers_of_spellsMember hmember (by omega) ends).2 _ _ ?_ readMembers
    rw [skipSpace_append hafter, skipSpace_cons (c := ',') rfl]

/-- What spells a member is read as the only member if a closing brace follows, and as the first of
more members if a comma follows. -/
theorem takeMembers_of_spellsMember {member : Option String × Json} {cs : List Char}
    (h : SpellsMember member cs) {bound : Nat} (hbound : 2 * cs.length < bound)
    {rest : List Char} (hrest : EndsNumber rest) {after : List Char} :
    (skipSpace rest = '\x7d' :: after →
      takeMembers (bound + 1) (cs ++ rest) = some ([member], after)) ∧
    ∀ members left, skipSpace rest = ',' :: after → takeMembers bound after = some (members, left) →
      takeMembers (bound + 1) (cs ++ rest) = some (member :: members, left) := by
  cases h with
  | @mk gap name gap' gap'' value cs hgap hgap' hgap'' hvalue =>
    simp only [List.length_append, List.length_cons] at hbound
    have read := takeValue_of_spells hvalue (show _ < bound by omega) hrest
    simp only [takeMembers, toList_literal, List.append_assoc, List.cons_append,
      List.nil_append, skipSpace_append hgap, skipSpace_cons (c := '"') rfl, takeLiteral_append,
      skipSpace_append hgap', skipSpace_cons (c := ':') rfl, takeValue_append hgap'', read,
      Option.bind_eq_bind, Option.bind_some]
    constructor
    · intro closed
      simp [closed]
    · intro members left next more
      simp [next, more]

end

/-- A text that spells a value, with spaces around it, is read as the value. -/
theorem parse_of_spells {value : Json} {before cs after : List Char} (hbefore : IsSpaces before)
    (h : Spells value cs) (hafter : IsSpaces after) :
    parse (String.ofList (before ++ (cs ++ after))) = some value := by
  have enough : 2 * cs.length < 2 * (before ++ (cs ++ after)).length + 2 := by
    simp only [List.length_append]
    omega
  have read := takeValue_of_spells h enough (endsNumber_append hafter endsNumber_nil)
  have spaces : skipSpace after = [] := List.dropWhile_eq_nil_iff.2 hafter
  rw [List.append_nil] at read
  simp only [parse, String.toList_ofList, takeValue_append hbefore, read, spaces]
  rfl

/-! ## The written forms -/

/-- Every number is an integer, and every literal denotes a text. -/
inductive Plain : Json → Prop where
  | null : Plain .null
  | bool (b : Bool) : Plain (.bool b)
  | int (n : Int) : Plain (.int n)
  | string (s : String) : Plain (.string (some s))
  | array {items} : (∀ item ∈ items, Plain item) → Plain (.array items)
  | object {members} : (∀ member ∈ members, member.1.isSome = Bool.true) →
      (∀ member ∈ members, Plain member.2) → Plain (.object members)

theorem spellsMember {member : Option String × Json} (named : member.1.isSome = true)
    {gap gap' cs : List Char} (hgap : IsSpaces gap) (hgap' : IsSpaces gap')
    (h : Spells member.2 cs) :
    SpellsMember member (gap ++ ((literal member.1).toList ++ ':' :: (gap' ++ cs))) := by
  obtain ⟨_ | name, value⟩ := member
  · cases named
  · exact @SpellsMember.mk gap name [] gap' value cs hgap isSpaces_nil hgap' h

theorem spellsItems_renderItems {items : List Json} (nonempty : items ≠ [])
    (h : ∀ item ∈ items, Spells item item.render.toList) :
    SpellsItems items (renderItems items).toList := by
  induction items with
  | nil => exact absurd rfl nonempty
  | cons item items ih =>
    have first : Spells item item.render.toList := h item (by simp)
    cases items with
    | nil => exact .last isSpaces_nil first
    | cons next items =>
      have more := ih (by simp) fun item mem => h item (by simp [mem])
      simpa [renderItems] using SpellsItems.cons isSpaces_nil first isSpaces_nil more

theorem spellsMembers_renderMembers {members : List (Option String × Json)}
    (nonempty : members ≠ []) (named : ∀ member ∈ members, member.1.isSome = true)
    (h : ∀ member ∈ members, Spells member.2 member.2.render.toList) :
    SpellsMembers members (renderMembers members).toList := by
  induction members with
  | nil => exact absurd rfl nonempty
  | cons member members ih =>
    have first := spellsMember (named member (by simp)) isSpaces_nil isSpaces_nil
      (h member (by simp))
    cases members with
    | nil => simpa [renderMembers] using SpellsMembers.last first
    | cons next members =>
      have more := ih (by simp) (fun member mem => named member (by simp [mem]))
        fun member mem => h member (by simp [mem])
      simpa [renderMembers] using SpellsMembers.cons first isSpaces_nil more

theorem spells_render {value : Json} (h : Plain value) : Spells value value.render.toList := by
  induction h with
  | null => simpa [render, renderScalar] using Spells.null
  | bool b => cases b with
    | false => simpa [render, renderScalar] using Spells.false
    | true => simpa [render, renderScalar] using Spells.true
  | int n => exact .int n
  | string s => exact .string s
  | @array items hitems ih =>
    cases items with
    | nil => simpa [render, renderItems] using Spells.emptyArray isSpaces_nil
    | cons item items =>
      simpa [render] using Spells.array (spellsItems_renderItems (by simp) ih) isSpaces_nil
  | @object members named hmembers ih =>
    cases members with
    | nil => simpa [render, renderMembers] using Spells.emptyObject isSpaces_nil
    | cons member members =>
      simpa [render] using
        Spells.object (spellsMembers_renderMembers (by simp) named ih) isSpaces_nil

theorem parse_render {value : Json} (h : Plain value) : parse value.render = some value := by
  simpa using parse_of_spells isSpaces_nil (spells_render h) isSpaces_nil

theorem isSpaces_newLine (depth : Nat) : IsSpaces (newLine depth).toList := by
  intro c mem
  simp only [newLine, String.toList_ofList, List.mem_cons, List.mem_replicate] at mem
  obtain rfl | ⟨-, rfl⟩ := mem <;> rfl

theorem isSpaces_space : IsSpaces [' '] := by
  simp [IsSpaces, isSpace]

theorem spellsItems_prettyItems (depth : Nat) {items : List Json} (nonempty : items ≠ [])
    (h : ∀ item ∈ items, Spells item (prettyAt depth item).toList) :
    SpellsItems items (prettyItems depth items).toList := by
  induction items with
  | nil => exact absurd rfl nonempty
  | cons item items ih =>
    have first : Spells item (prettyAt depth item).toList := h item (by simp)
    cases items with
    | nil => simpa [prettyItems] using SpellsItems.last (isSpaces_newLine depth) first
    | cons next items =>
      have more := ih (by simp) fun item mem => h item (by simp [mem])
      simpa [prettyItems] using
        SpellsItems.cons (isSpaces_newLine depth) first isSpaces_nil more

theorem spellsMembers_prettyMembers (depth : Nat) {members : List (Option String × Json)}
    (nonempty : members ≠ []) (named : ∀ member ∈ members, member.1.isSome = true)
    (h : ∀ member ∈ members, Spells member.2 (prettyAt depth member.2).toList) :
    SpellsMembers members (prettyMembers depth members).toList := by
  induction members with
  | nil => exact absurd rfl nonempty
  | cons member members ih =>
    have first := spellsMember (named member (by simp)) (isSpaces_newLine depth) isSpaces_space
      (h member (by simp))
    cases members with
    | nil => simpa [prettyMembers] using SpellsMembers.last first
    | cons next members =>
      have more := ih (by simp) (fun member mem => named member (by simp [mem]))
        fun member mem => h member (by simp [mem])
      simpa [prettyMembers] using SpellsMembers.cons first isSpaces_nil more

theorem spells_prettyAt {value : Json} (h : Plain value) (depth : Nat) :
    Spells value (prettyAt depth value).toList := by
  induction h generalizing depth with
  | null => simpa [prettyAt, render] using spells_render .null
  | bool b => simpa [prettyAt, render] using spells_render (.bool b)
  | int n => simpa [prettyAt, render] using spells_render (.int n)
  | string s => simpa [prettyAt, render] using spells_render (.string s)
  | @array items hitems ih =>
    cases items with
    | nil => simpa [prettyAt, renderScalar] using Spells.emptyArray isSpaces_nil
    | cons item items =>
      have written := spellsItems_prettyItems (depth + 1) (List.cons_ne_nil item items)
        fun item mem => ih item mem (depth + 1)
      simpa [prettyAt] using Spells.array written (isSpaces_newLine depth)
  | @object members named hmembers ih =>
    cases members with
    | nil => simpa [prettyAt, renderScalar] using Spells.emptyObject isSpaces_nil
    | cons member members =>
      have written := spellsMembers_prettyMembers (depth + 1) (List.cons_ne_nil member members)
        named fun member mem => ih member mem (depth + 1)
      simpa [prettyAt] using Spells.object written (isSpaces_newLine depth)

theorem parse_pretty {value : Json} (h : Plain value) : parse value.pretty = some value := by
  simpa [pretty] using parse_of_spells isSpaces_nil (spells_prettyAt h 0) isSpaces_nil

end TapeMachine.Json
