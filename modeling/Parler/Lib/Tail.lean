import Mathlib.Data.List.DropRight
import Mathlib.Data.List.Basic

/-!
# The tail of a list

A bounded buffer keeps the last entries of what was appended to it. How much an append pushes out
depends on the length of what is appended, and an append that leaves an increasing buffer as it was
fills it on its own.
-/

namespace Parler.Lib

variable {α : Type} {l m : List α} {n : Nat}

theorem rtake_of_le (short : l.length ≤ n) : l.rtake n = l := by
  unfold List.rtake
  rw [Nat.sub_eq_zero_of_le short, List.drop_zero]

theorem length_rtake : (l.rtake n).length = min n l.length := by
  unfold List.rtake
  rw [List.length_drop]
  omega

theorem rtake_sublist (l : List α) (n : Nat) : (l.rtake n).Sublist l := List.drop_sublist _ _

/-- What is appended pushes out as much as there is no room for. -/
theorem rtake_append (short : m.length ≤ n) : (l ++ m).rtake n = l.rtake (n - m.length) ++ m := by
  unfold List.rtake
  rw [List.length_append, List.drop_append_of_le_length (by omega)]
  congr 2
  omega

theorem rtake_append_long (long : n ≤ m.length) : (l ++ m).rtake n = m.rtake n := by
  unfold List.rtake
  rw [List.length_append, List.drop_append, List.drop_eq_nil_of_le (by omega), List.nil_append]
  congr 1
  omega

theorem rtake_rtake {k : Nat} (less : k ≤ n) : (l.rtake n).rtake k = l.rtake k := by
  unfold List.rtake
  rw [List.length_drop, List.drop_drop]
  congr 1
  omega

/-- A buffer may be cut at each append. -/
theorem rtake_rtake_append (l m : List α) (n : Nat) : (l.rtake n ++ m).rtake n = (l ++ m).rtake n := by
  by_cases short : m.length ≤ n
  · rw [rtake_append short, rtake_append short, rtake_rtake (Nat.sub_le _ _)]
  · rw [rtake_append_long (by omega), rtake_append_long (by omega)]

/-- The last entry stays. -/
theorem getLast?_rtake (some : n ≠ 0) : (l.rtake n).getLast? = l.getLast? := by
  rcases List.eq_nil_or_concat l with rfl | ⟨l, x, rfl⟩
  · rw [rtake_of_le (Nat.zero_le n)]
  · have short : [x].length ≤ n := Nat.one_le_iff_ne_zero.mpr some
    rw [List.concat_eq_append, rtake_append short, List.getLast?_concat, List.getLast?_concat]

/-- An append that does not fill an increasing buffer on its own changes it. -/
theorem rtake_append_ne {r : α → α → Prop} (irrefl : ∀ x, ¬ r x x) (increasing : l.Pairwise r)
    (short : l.length ≤ n) (some : m ≠ []) (room : m.length < n) : (l ++ m).rtake n ≠ l := by
  intro same
  rw [rtake_append (by omega)] at same
  have lengths := congrArg List.length same
  have appended := List.length_pos_of_ne_nil some
  rw [List.length_append, length_rtake] at lengths
  -- The buffer was full, so its first entry moved up.
  have full : l.length = n := by omega
  have moved : l.rtake (n - m.length) = l.drop m.length := by
    unfold List.rtake
    congr 1
    omega
  rw [moved] at same
  obtain ⟨x, rest, rfl⟩ := List.exists_cons_of_ne_nil (List.ne_nil_of_length_pos (l := l) (by omega))
  obtain ⟨k, appends⟩ : ∃ k, m.length = k + 1 := ⟨m.length - 1, by omega⟩
  rw [appends, List.drop_succ_cons] at same
  cases left : rest.drop k with
  | nil =>
    have none := congrArg List.length left
    rw [List.length_drop, List.length_nil] at none
    rw [List.length_cons] at full
    omega
  | cons y tail =>
    rw [left] at same
    obtain ⟨rfl, -⟩ := List.cons.inj same
    have later : y ∈ rest := by
      apply List.mem_of_mem_drop (i := k)
      rw [left]
      exact List.mem_cons_self
    exact irrefl y (List.rel_of_pairwise_cons increasing later)

end Parler.Lib
