import Mathlib.Data.List.Basic
import Mathlib.Data.String.Basic

/-!
# Slicing a text by bytes

The first `n` bytes of a UTF-8 text are a text themselves exactly when they are all of it or a
character ends there.
-/

namespace Parler.Lib

/-- The first `n` bytes of the text end where a character does. -/
def SlicesAt (n : Nat) (text : String) : Prop :=
  text.utf8ByteSize ≤ n ∨ ∃ head tail : String, text = head ++ tail ∧ head.utf8ByteSize = n

theorem toList_loop (bytes : ByteArray) (i : Nat) (taken : List UInt8) :
    ByteArray.toList.loop bytes i taken = taken.reverse ++ bytes.data.toList.drop i := by
  fun_induction ByteArray.toList.loop bytes i taken with
  | case1 i taken inside ih =>
    have inside' : i < bytes.data.size := inside
    have here : i < bytes.data.toList.length := by simpa using inside
    have byte : bytes.get! i = bytes.data.toList[i] := by
      show bytes.data[i]! = _
      rw [getElem!_pos bytes.data i inside', Array.getElem_toList]
    rw [ih, byte, List.drop_eq_getElem_cons here, List.reverse_cons, List.append_assoc]
    rfl
  | case2 i taken past =>
    have done : bytes.data.toList.length ≤ i := by simpa using Nat.le_of_not_lt past
    rw [List.drop_eq_nil_of_le done, List.append_nil]

theorem toList_bytes (bytes : ByteArray) : bytes.toList = bytes.data.toList := by
  rw [ByteArray.toList, toList_loop]
  rfl

/-- The first bytes, as a list or as a slice. -/
theorem take_bytes (bytes : ByteArray) (n : Nat) :
    (⟨(bytes.toList.take n).toArray⟩ : ByteArray) = bytes.extract 0 n := by
  apply ByteArray.ext
  rw [toList_bytes, ByteArray.data_extract]
  apply Array.toList_inj.mp
  simp [List.extract_eq_take_drop]

theorem isValidUTF8_extract_iff {n : Nat} {text : String} :
    (text.toByteArray.extract 0 n).IsValidUTF8 ↔ SlicesAt n text := by
  by_cases short : text.utf8ByteSize ≤ n
  · have whole : text.toByteArray.extract 0 n = text.toByteArray := by
      apply ByteArray.ext
      rw [ByteArray.data_extract, Array.extract_eq_self_of_le]
      exact short
    rw [whole]
    exact iff_of_true text.isValidUTF8 (Or.inl short)
  · have within : (⟨n⟩ : String.Pos.Raw) ≤ text.rawEndPos := by
      simp [String.Pos.Raw.le_iff]
      omega
    have valid : (text.toByteArray.extract 0 n).IsValidUTF8 ↔ (⟨n⟩ : String.Pos.Raw).IsValid text := by
      rw [String.Pos.Raw.isValid_iff_isValidUTF8_extract_zero]
      exact (and_iff_right within).symm
    rw [valid, String.Pos.Raw.isValid_iff_exists_append, SlicesAt, or_iff_right short]
    constructor
    · rintro ⟨head, tail, same, place⟩
      exact ⟨head, tail, same, (congrArg String.Pos.Raw.byteIdx place).symm⟩
    · rintro ⟨head, tail, same, size⟩
      exact ⟨head, tail, same, String.Pos.Raw.ext size.symm⟩

/-- A byte slice decodes exactly where the text can be sliced. -/
theorem fromUTF8?_take_isSome {n : Nat} {text : String} :
    (String.fromUTF8? ⟨(text.toByteArray.toList.take n).toArray⟩).isSome ↔ SlicesAt n text := by
  rw [take_bytes, ← isValidUTF8_extract_iff]
  unfold String.fromUTF8?
  split
  · rename_i valid
    simp [valid]
  · rename_i invalid
    simp [invalid]

/-- A text cannot be sliced inside a character. -/
theorem not_slicesAt_inside {n : Nat} {front back : List Char} {c : Char} (before : String.utf8Len front < n)
    (behind : n < String.utf8Len (front ++ [c])) : ¬ SlicesAt n (String.ofList (front ++ [c] ++ back)) := by
  rintro (short | ⟨head, tail, same, size⟩)
  · rw [String.utf8ByteSize_ofList, String.utf8Len_append] at short
    omega
  · have chars := congrArg String.toList same
    rw [String.toList_ofList, String.toList_append, List.append_assoc] at chars
    rw [← @String.ofList_toList head, String.utf8ByteSize_ofList] at size
    rcases List.append_eq_append_iff.mp chars with ⟨more, head_is, rest⟩ | ⟨more, front_is, -⟩
    · -- The slice goes on into the character, or ends right before it.
      cases more with
      | nil =>
        rw [head_is, List.append_nil] at size
        omega
      | cons d more =>
        rw [List.singleton_append, List.cons_append] at rest
        rw [head_is, ← (List.cons.inj rest).1, ← List.singleton_append, ← List.append_assoc,
          String.utf8Len_append] at size
        omega
    · rw [front_is, String.utf8Len_append] at before
      omega

end Parler.Lib
