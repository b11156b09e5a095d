import Mathlib.Data.List.Basic

/-!
# Cutting a stream at its delimiters

A stream that arrives in chunks is cut at its leftmost delimiters. The reader keeps what it has not cut yet
and the place up to which it has looked. A delimiter may lie across the border of two chunks, so after a
chunk the reader goes on a few elements before that place.
-/

namespace Parler.Lib

/-- Delimiters, recognised at the front of a list by their length. -/
structure Delimiter (α : Type) where
  cut : List α → Option Nat
  /-- So many elements tell whether a delimiter starts with the first of them. -/
  width : Nat
  bounds : ∀ {xs d}, cut xs = some d → 0 < d ∧ d ≤ xs.length
  decided : ∀ {xs} ys, width ≤ xs.length → cut (xs ++ ys) = cut xs
  /-- So does a whole delimiter, there or further on. -/
  settled : ∀ {xs} ys {j}, (cut (xs.drop j)).isSome → cut (xs ++ ys) = cut xs

namespace Delimiter

variable {α : Type} (D : Delimiter α)

/-- The place and the length of the leftmost delimiter. -/
def firstCut : List α → Option (Nat × Nat)
  | [] => none
  | x :: xs =>
      match D.cut (x :: xs) with
      | some d => some (0, d)
      | none => (firstCut xs).map (fun c => (c.1 + 1, c.2))

/-- The same from a place on. -/
def firstCutFrom (start : Nat) (xs : List α) : Option (Nat × Nat) :=
  (D.firstCut (xs.drop start)).map (fun c => (c.1 + start, c.2))

theorem cut_nil : D.cut [] = none := by
  cases cut : D.cut [] with
  | none => rfl
  | some d =>
    have bounds := D.bounds cut
    simp only [List.length_nil] at bounds
    omega

variable {D}

theorem cut_of_firstCut {xs : List α} {i d : Nat} (found : D.firstCut xs = some (i, d)) :
    D.cut (xs.drop i) = some d := by
  induction xs generalizing i with
  | nil => simp [firstCut] at found
  | cons x xs ih =>
    rw [firstCut] at found
    cases cut : D.cut (x :: xs) with
    | some d' =>
      simp only [cut, Option.some.injEq, Prod.mk.injEq] at found
      rw [← found.1, ← found.2]
      exact cut
    | none =>
      simp only [cut, Option.map_eq_some_iff, Prod.exists, Prod.mk.injEq] at found
      obtain ⟨i', d', later, rfl, rfl⟩ := found
      exact ih later

theorem firstCut_eq_none {xs : List α} : D.firstCut xs = none ↔ ∀ i, D.cut (xs.drop i) = none := by
  induction xs with
  | nil => simp [firstCut, D.cut_nil]
  | cons x xs ih =>
    rw [firstCut]
    cases cut : D.cut (x :: xs) with
    | some d => exact iff_of_false nofun (fun nowhere => by simpa [cut] using nowhere 0)
    | none =>
      rw [Option.map_eq_none_iff, ih]
      constructor
      · intro nowhere i
        cases i with
        | zero => exact cut
        | succ i => exact nowhere i
      · exact fun nowhere i => nowhere (i + 1)

/-- More of the stream does not move the leftmost delimiter. -/
theorem firstCut_append {xs : List α} {c : Nat × Nat} (found : D.firstCut xs = some c) (ys : List α) :
    D.firstCut (xs ++ ys) = some c := by
  induction xs generalizing c with
  | nil => simp [firstCut] at found
  | cons x xs ih =>
    have there : (D.cut ((x :: xs).drop c.1)).isSome := by
      rw [cut_of_firstCut (i := c.1) (d := c.2) found]
      rfl
    have same : D.cut (x :: (xs ++ ys)) = D.cut (x :: xs) := D.settled ys there
    rw [firstCut] at found
    rw [List.cons_append, firstCut, same]
    cases cut : D.cut (x :: xs) with
    | some d => simpa [cut] using found
    | none =>
      simp only [cut, Option.map_eq_some_iff] at found
      obtain ⟨later, found, rfl⟩ := found
      simp only [ih found, Option.map_some]

theorem firstCutFrom_eq {xs : List α} {start : Nat} (nowhere : ∀ i < start, D.cut (xs.drop i) = none) :
    D.firstCutFrom start xs = D.firstCut xs := by
  induction start generalizing xs with
  | zero => simp [firstCutFrom]
  | succ start ih =>
    cases xs with
    | nil => simp [firstCutFrom, firstCut]
    | cons x xs =>
      have tail : D.firstCutFrom start xs = D.firstCut xs :=
        ih (fun i less => nowhere (i + 1) (Nat.succ_lt_succ less))
      have head : D.cut (x :: xs) = none := nowhere 0 (Nat.succ_pos start)
      rw [firstCut, head, ← tail]
      simp only [firstCutFrom, List.drop_succ_cons, Option.map_map]
      congr 1

/-- Where no delimiter is, none can come to start but at the last places. -/
theorem cut_append_of_none {xs : List α} (none : D.firstCut xs = none) (ys : List α) {i : Nat}
    (early : i < xs.length - (D.width - 1)) : D.cut ((xs ++ ys).drop i) = .none := by
  have wide : D.width ≤ (xs.drop i).length := by
    rw [List.length_drop]
    omega
  rw [List.drop_append_of_le_length (by omega), D.decided ys wide]
  exact firstCut_eq_none.mp none i

/-! ## The whole stream -/

variable (D) in
/-- What lies before each delimiter, and what is left behind the last. -/
def pieces (xs : List α) : List (List α) × List α :=
  match _found : D.firstCut xs with
  | none => ([], xs)
  | some (i, d) =>
      let later := pieces (xs.drop (i + d))
      (xs.take i :: later.1, later.2)
  termination_by xs.length
  decreasing_by
    have bounds := D.bounds (cut_of_firstCut _found)
    rw [List.length_drop] at bounds ⊢
    omega

theorem pieces_of_none {xs : List α} (none : D.firstCut xs = none) : D.pieces xs = ([], xs) := by
  rw [pieces]
  split
  · rfl
  · simp_all

theorem pieces_of_some {xs : List α} {i d : Nat} (found : D.firstCut xs = some (i, d)) :
    D.pieces xs = (xs.take i :: (D.pieces (xs.drop (i + d))).1, (D.pieces (xs.drop (i + d))).2) := by
  rw [pieces]
  split
  · simp_all
  · rename_i i' d' other
    obtain ⟨rfl, rfl⟩ : i = i' ∧ d = d' := by simpa using found.symm.trans other
    rfl

theorem length_drop_lt {xs : List α} {i d : Nat} (found : D.firstCut xs = some (i, d)) :
    i + d ≤ xs.length ∧ (xs.drop (i + d)).length < xs.length := by
  have bounds := D.bounds (cut_of_firstCut found)
  rw [List.length_drop] at bounds ⊢
  omega

/-- The pieces of a longer stream start with those that are already there. -/
theorem pieces_append_of_some {xs : List α} {i d : Nat} (found : D.firstCut xs = some (i, d))
    (ys : List α) : (D.pieces (xs ++ ys)).1 = xs.take i :: (D.pieces (xs.drop (i + d) ++ ys)).1 := by
  have within := (length_drop_lt found).1
  rw [pieces_of_some (firstCut_append found ys), List.take_append_of_le_length (by omega),
    List.drop_append_of_le_length within]

/-! ## The reader -/

variable (D) in
/-- Wherever the reader does not look again, no delimiter starts, whatever arrives. -/
def Scanned (buffer : List α) (start : Nat) : Prop :=
  ∀ more, ∀ i < start, D.cut ((buffer ++ more).drop i) = none

theorem scanned_zero (buffer : List α) : D.Scanned buffer 0 := nofun

theorem scanned_of_none {buffer : List α} (none : D.firstCut buffer = none) :
    D.Scanned buffer (buffer.length - (D.width - 1)) :=
  fun more _ early => cut_append_of_none none more early

theorem Scanned.append {buffer : List α} {start : Nat} (scanned : D.Scanned buffer start)
    (chunk : List α) : D.Scanned (buffer ++ chunk) start := by
  intro more i early
  rw [List.append_assoc]
  exact scanned (chunk ++ more) i early

/-- The reader finds the leftmost delimiter. -/
theorem Scanned.firstCutFrom {buffer : List α} {start : Nat} (scanned : D.Scanned buffer start)
    (more : List α) : D.firstCutFrom start (buffer ++ more) = D.firstCut (buffer ++ more) :=
  firstCutFrom_eq (scanned more)

end Delimiter

end Parler.Lib
