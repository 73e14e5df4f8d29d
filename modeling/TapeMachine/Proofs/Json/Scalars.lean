import Mathlib.Data.List.DropRight
import Mathlib.Data.List.TakeDrop
import TapeMachine.Json.Parser

/-!
# Literals and numbers as they are written and read

A string literal that `literal` writes is read back to the text it was written for, whatever the
characters of the text are, and an integer is read back from its decimal digits. Both are read from
the front of a longer text, and leave exactly what follows them.
-/

namespace TapeMachine.Json

/-! ## Spaces -/

/-- Nothing but spaces. -/
def IsSpaces (cs : List Char) : Prop := ∀ c ∈ cs, isSpace c = true

theorem isSpaces_nil : IsSpaces [] := by simp [IsSpaces]

theorem skipSpace_append {gap : List Char} (h : IsSpaces gap) (cs : List Char) :
    skipSpace (gap ++ cs) = skipSpace cs :=
  List.dropWhile_append_of_pos h

theorem skipSpace_cons {c : Char} (h : isSpace c = false) (cs : List Char) :
    skipSpace (c :: cs) = c :: cs :=
  List.dropWhile_cons_of_neg (by simp [h])

theorem skipSpace_skipSpace (cs : List Char) : skipSpace (skipSpace cs) = skipSpace cs :=
  List.dropWhile_idempotent _ _

/-! ## String literals -/

theorem hexDigit?_digitChar : ∀ d < 16, hexDigit? (Nat.digitChar d) = some d := by
  decide

theorem hexUnit?_digits {n : Nat} (h : n < 65536) :
    hexUnit? (Nat.digitChar (n / 4096 % 16)) (Nat.digitChar (n / 256 % 16))
      (Nat.digitChar (n / 16 % 16)) (Nat.digitChar (n / 1 % 16)) = some n := by
  have digit (place : Nat) :
      hexDigit? (Nat.digitChar (n / place % 16)) = some (n / place % 16) :=
    hexDigit?_digitChar _ (Nat.mod_lt _ (by decide))
  simp only [hexUnit?, digit, Option.pure_def, Option.bind_eq_bind, Option.bind_some,
    Option.some.injEq]
  omega

theorem literalPieces_unitEscape {n : Nat} (h : n < 65536) (cs : List Char) :
    literalPieces ((unitEscape n).toList ++ cs) =
      (literalPieces cs).map fun (pieces, rest) => (.unit n :: pieces, rest) := by
  have unit := hexUnit?_digits h
  have written : (unitEscape n).toList ++ cs = '\\' :: 'u' :: Nat.digitChar (n / 4096 % 16) ::
      Nat.digitChar (n / 256 % 16) :: Nat.digitChar (n / 16 % 16) ::
      Nat.digitChar (n / 1 % 16) :: cs := by
    simp [unitEscape]
  rw [written, literalPieces, unit]
  cases literalPieces cs <;> rfl

theorem literalPieces_shortEscape {e c : Char} (h : shortEscape? e = some c) (cs : List Char) :
    literalPieces ('\\' :: e :: cs) =
      (literalPieces cs).map fun (pieces, rest) => (.char c :: pieces, rest) := by
  have short : e ≠ 'u' := by
    rintro rfl
    simp [shortEscape?] at h
  rw [literalPieces, h]
  · cases literalPieces cs <;> rfl
  · intros
    exact short ‹_›

theorem literalPieces_plain {c : Char} (quote : c ≠ '"') (backslash : c ≠ '\\')
    (control : ¬ c.toNat < 0x20) (cs : List Char) :
    literalPieces (c :: cs) =
      (literalPieces cs).map fun (pieces, rest) => (.char c :: pieces, rest) := by
  rw [literalPieces]
  · simp [control, backslash]
  all_goals simp_all

theorem textOfPieces_unit {n : Nat} (h : n < 0xd800) (pieces : List Piece) :
    textOfPieces (.unit n :: pieces) = (textOfPieces pieces).map (Char.ofNat n :: ·) := by
  have high : isHighSurrogate n = false := by simp [isHighSurrogate]; omega
  have low : isLowSurrogate n = false := by simp [isLowSurrogate]; omega
  cases pieces with
  | nil => simp [textOfPieces, high, low]
  | cons piece pieces => cases piece <;> simp [textOfPieces, high, low]

/-- What is written for a character is read as one element, and this denotes the character. -/
theorem exists_piece (c : Char) : ∃ piece : Piece,
    (∀ cs, literalPieces ((literalChar c).toList ++ cs) =
      (literalPieces cs).map fun (pieces, rest) => (piece :: pieces, rest)) ∧
    ∀ pieces, textOfPieces (piece :: pieces) = (textOfPieces pieces).map (c :: ·) := by
  unfold literalChar
  split
  case h_8 quote backslash _ _ _ _ _ =>
    split
    case isTrue control =>
      refine ⟨.unit c.toNat, literalPieces_unitEscape (by omega), fun pieces => ?_⟩
      rw [textOfPieces_unit (by omega), Char.ofNat_toNat]
    case isFalse control =>
      refine ⟨.char c, fun cs => ?_, fun pieces => rfl⟩
      simpa using literalPieces_plain quote backslash control cs
  all_goals exact ⟨.char _, literalPieces_shortEscape rfl, fun pieces => rfl⟩

theorem takeLiteral_append (s : String) (rest : List Char) :
    takeLiteral ((s.toList.flatMap fun c => (literalChar c).toList) ++ '"' :: rest) =
      some (some s, rest) := by
  have read (cs : List Char) : ∃ pieces,
      literalPieces ((cs.flatMap fun c => (literalChar c).toList) ++ '"' :: rest) =
        some (pieces, rest) ∧ textOfPieces pieces = some cs := by
    induction cs with
    | nil => exact ⟨[], rfl, rfl⟩
    | cons c cs ih =>
      obtain ⟨pieces, taken, denoted⟩ := ih
      obtain ⟨piece, takes, denotes⟩ := exists_piece c
      refine ⟨piece :: pieces, ?_, ?_⟩
      · rw [List.flatMap_cons, List.append_assoc, takes, taken, Option.map_some]
      · rw [denotes, denoted, Option.map_some]
  obtain ⟨pieces, taken, denoted⟩ := read s.toList
  simp [takeLiteral, taken, denoted]

theorem toList_literal (s : String) :
    (literal (some s)).toList =
      '"' :: (s.toList.flatMap fun c => (literalChar c).toList) ++ ['"'] := by
  simp [literal, String.toList_join, List.flatMap_map]

/-! ## Numbers -/

/-- What may follow a number: it does not begin with a character that would carry the number on. -/
def EndsNumber (rest : List Char) : Prop :=
  ∀ c ∈ rest.head?, c.isDigit = false ∧ c ≠ '.' ∧ c ≠ 'e' ∧ c ≠ 'E'

theorem takeDigits_append {digits rest : List Char} (h : ∀ c ∈ digits, c.isDigit = true)
    (hrest : EndsNumber rest) : takeDigits (digits ++ rest) = (digits, rest) := by
  rw [takeDigits, List.span_eq_takeWhile_dropWhile, List.takeWhile_append_of_pos h,
    List.dropWhile_append_of_pos h]
  cases rest with
  | nil => simp
  | cons c rest => simp [(hrest c rfl).1]

theorem exists_toDigits_eq_cons (n : Nat) :
    ∃ c digits, Nat.toDigits 10 n = c :: digits ∧ c.isDigit = true := by
  have nonempty : Nat.toDigits 10 n ≠ [] := Nat.toDigits_ne_nil
  obtain ⟨c, digits, written⟩ := List.exists_cons_of_ne_nil nonempty
  have first : c ∈ Nat.toDigits 10 n := by simp [written]
  exact ⟨c, digits, written, Nat.isDigit_of_mem_toDigits (by decide) le_rfl first⟩

/-- Digits begin with a zero only if the number is zero. -/
theorem toDigits_eq_zero_cons {n : Nat} {rest : List Char}
    (h : Nat.toDigits 10 n = '0' :: rest) : n = 0 := by
  induction n using Nat.strongRecOn generalizing rest with
  | _ n ih =>
    by_cases small : n < 10
    · rw [Nat.toDigits_of_lt_base small, List.cons.injEq] at h
      simpa using h.1
    · rw [Nat.toDigits_of_base_le (by decide) (by omega)] at h
      cases leading : Nat.toDigits 10 (n / 10) with
      | nil => exact absurd leading Nat.toDigits_ne_nil
      | cons c digits =>
        rw [leading, List.cons_append, List.cons.injEq] at h
        have zero := ih (n / 10) (by omega) (h.1 ▸ leading)
        omega

theorem takeWhole_toDigits (n : Nat) {rest : List Char} (hrest : EndsNumber rest) :
    takeWhole (Nat.toDigits 10 n ++ rest) = some (Nat.toDigits 10 n, rest) := by
  rw [takeWhole, takeDigits_append (fun c => Nat.isDigit_of_mem_toDigits (by decide) le_rfl) hrest]
  split
  case h_1 found => exact absurd (congrArg Prod.fst found) Nat.toDigits_ne_nil
  case h_2 found =>
    have zero := toDigits_eq_zero_cons (congrArg Prod.fst found)
    subst zero
    simp at found
  case h_3 => rfl

theorem takeFraction_of_endsNumber {rest : List Char} (hrest : EndsNumber rest) :
    takeFraction rest = some ([], rest) := by
  unfold takeFraction
  split
  · exact absurd rfl (hrest _ rfl).2.1
  · rfl

theorem takeExponent_of_endsNumber {rest : List Char} (hrest : EndsNumber rest) :
    takeExponent rest = some ([], rest) := by
  cases rest with
  | nil => rfl
  | cons c rest => simp [takeExponent, hrest c rfl]

theorem takeUnsigned_toDigits {negative : Bool} {n : Nat} (h : negative = true → n ≠ 0)
    {rest : List Char} (hrest : EndsNumber rest) :
    takeUnsigned negative (Nat.toDigits 10 n ++ rest) =
      some (.int (if negative then -n else n), rest) := by
  have value : natOfDigits (Nat.toDigits 10 n) = n := Nat.ofDigitChars_ten_toDigits
  simpa [takeUnsigned, takeWhole_toDigits n hrest, takeFraction_of_endsNumber hrest,
    takeExponent_of_endsNumber hrest, value] using h

/-- The characters of an integer: a sign if it is negative, and its digits. -/
theorem toList_toString_int (n : Int) :
    (toString n).toList =
      if 0 ≤ n then Nat.toDigits 10 n.toNat else '-' :: Nat.toDigits 10 (-n).toNat := by
  rw [Int.toString_eq_repr, Int.repr_eq_if]
  split <;> simp [Nat.toList_repr]

theorem takeNumber_append (n : Int) {rest : List Char} (hrest : EndsNumber rest) :
    takeNumber ((toString n).toList ++ rest) = some (.int n, rest) := by
  rw [toList_toString_int]
  split
  case isTrue positive =>
    obtain ⟨c, digits, written, digit⟩ := exists_toDigits_eq_cons n.toNat
    have unsigned : c ≠ '-' := by
      rintro rfl
      exact absurd digit (by decide)
    have read := @takeUnsigned_toDigits false n.toNat (by simp) rest hrest
    rw [written, List.cons_append] at read ⊢
    simp [takeNumber, unsigned, read]
    omega
  case isFalse negative =>
    rw [List.cons_append, takeNumber, takeUnsigned_toDigits (by omega) hrest]
    simp
    omega

/-- An integer is written with a sign or a digit in front. -/
theorem exists_toString_eq_cons (n : Int) :
    ∃ c rest, (toString n).toList = c :: rest ∧ (c = '-' ∨ c.isDigit = true) := by
  rw [toList_toString_int]
  split
  case isTrue =>
    obtain ⟨c, digits, written, digit⟩ := exists_toDigits_eq_cons n.toNat
    exact ⟨c, digits, written, .inr digit⟩
  case isFalse => exact ⟨'-', _, rfl, .inl rfl⟩

end TapeMachine.Json
