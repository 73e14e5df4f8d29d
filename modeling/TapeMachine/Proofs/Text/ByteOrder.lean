import TapeMachine.KeyedSet
import Mathlib.Tactic.SplitIfs

/-!
# The order of names is that of their bytes

Sets of names are in the order of the characters of the names. The encoding of a character comes
before that of every greater character, whatever follows either of them
(`encode_append_lt_encode_append`), so this is also the order of the bytes that encode the names
(`increasing_bytes`).
-/

namespace TapeMachine

namespace Text

/-- The bytes that encode a text. -/
def bytes (text : String) : List UInt8 := text.toByteArray.data.toList

theorem bytes_eq_flatMap (text : String) :
    bytes text = text.toList.flatMap String.utf8EncodeChar := by
  have h := String.toByteArray_ofList (l := text.toList)
  rw [String.ofList_toList] at h
  rw [bytes, h, List.utf8Encode, List.data_toByteArray, List.toList_toArray]

/-- Bytes come before others if the first of them is smaller, or the same and what follows comes
before. -/
theorem cons_lt_cons {a b : Nat} {rest rest' : List UInt8} (hle : a ≤ b) (hb : b < 256)
    (h : a = b → rest < rest') : UInt8.ofNat a :: rest < UInt8.ofNat b :: rest' := by
  rcases Nat.lt_or_eq_of_le hle with hlt | rfl
  · refine List.Lex.rel (UInt8.lt_iff_toNat_lt.2 ?_)
    rw [UInt8.toNat_ofNat', UInt8.toNat_ofNat']
    omega
  · exact List.Lex.cons (h rfl)

/-- The encoding of a smaller character comes first, whatever follows. -/
theorem encode_append_lt_encode_append {c d : Char} (h : c < d) (rest rest' : List UInt8) :
    String.utf8EncodeChar c ++ rest < String.utf8EncodeChar d ++ rest' := by
  have hlt : c.val.toNat < d.val.toNat := h
  have hmax : d.val.toNat < 1114112 := by
    have hvalid := d.valid
    rcases hvalid with hvalid | hvalid <;> omega
  unfold String.utf8EncodeChar
  generalize c.val.toNat = v at *
  generalize d.val.toNat = w at *
  -- The greater character has no fewer bytes. If it has more, its first byte is greater; else the
  -- bytes are the digits of the characters, the most significant ones first.
  by_cases hw1 : w ≤ 127
  · simp only [hw1, show v ≤ 127 by omega, if_true, List.cons_append, List.nil_append]
    exact cons_lt_cons (by omega) (by omega) (by omega)
  by_cases hv1 : v ≤ 127
  · simp only [hw1, hv1, if_true, if_false, List.cons_append, List.nil_append]
    split_ifs
    · exact cons_lt_cons (by omega) (by omega) (by omega)
    · exact cons_lt_cons (by omega) (by omega) (by omega)
    · exact cons_lt_cons (by omega) (by omega) (by omega)
  by_cases hw2 : w ≤ 2047
  · simp only [hw1, hv1, hw2, show v ≤ 2047 by omega, if_true, if_false, List.cons_append,
      List.nil_append]
    exact cons_lt_cons (by omega) (by omega) fun _ =>
      cons_lt_cons (by omega) (by omega) (by omega)
  by_cases hv2 : v ≤ 2047
  · simp only [hw1, hv1, hw2, hv2, if_true, if_false, List.cons_append, List.nil_append]
    split_ifs
    · exact cons_lt_cons (by omega) (by omega) (by omega)
    · exact cons_lt_cons (by omega) (by omega) (by omega)
  by_cases hw3 : w ≤ 65535
  · simp only [hw1, hv1, hw2, hv2, hw3, show v ≤ 65535 by omega, if_true, if_false,
      List.cons_append, List.nil_append]
    exact cons_lt_cons (by omega) (by omega) fun _ =>
      cons_lt_cons (by omega) (by omega) fun _ => cons_lt_cons (by omega) (by omega) (by omega)
  by_cases hv3 : v ≤ 65535
  · simp only [hw1, hv1, hw2, hv2, hw3, hv3, if_true, if_false, List.cons_append, List.nil_append]
    exact cons_lt_cons (by omega) (by omega) (by omega)
  · simp only [hw1, hv1, hw2, hv2, hw3, hv3, if_false, List.cons_append, List.nil_append]
    exact cons_lt_cons (by omega) (by omega) fun _ =>
      cons_lt_cons (by omega) (by omega) fun _ =>
        cons_lt_cons (by omega) (by omega) fun _ => cons_lt_cons (by omega) (by omega) (by omega)

theorem flatMap_encode_lt {cs ds : List Char} (h : cs < ds) :
    cs.flatMap String.utf8EncodeChar < ds.flatMap String.utf8EncodeChar := by
  induction h with
  | @nil d ds =>
      obtain ⟨byte, rest, hencode⟩ :=
        List.exists_cons_of_ne_nil (String.utf8EncodeChar_ne_nil (c := d))
      rw [List.flatMap_cons, hencode]
      exact List.nil_lt_cons _ _
  | rel hlt => exact encode_append_lt_encode_append hlt _ _
  | cons _ ih => exact List.append_left_lt ih

/-- A name that comes before another one has bytes that come before. -/
theorem bytes_lt_bytes {s t : String} (h : s < t) : bytes s < bytes t := by
  rw [bytes_eq_flatMap, bytes_eq_flatMap]
  exact flatMap_encode_lt (String.lt_iff.1 h)

/-- The members of a set of names are in increasing order of their bytes. -/
theorem increasing_bytes (s : NameSet) :
    s.toList.Pairwise fun name other => bytes name < bytes other := by
  refine s.increasing.imp fun h => bytes_lt_bytes ?_
  exact compareOfLessAndEq_eq_lt.1 h

end Text

end TapeMachine
