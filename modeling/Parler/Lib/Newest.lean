import Mathlib.Algebra.Ring.Nat
import Mathlib.Algebra.Order.BigOperators.Group.List
import Mathlib.Data.List.Basic

/-!
# The newest entries within a bound

A buffer of weighted entries drops its oldest ones while they weigh more than a bound together, but
never the newest one. What it holds is the longest end of everything that was put into it.
-/

namespace Parler.Lib

variable {α : Type} (weight : α → Nat) (bound : Nat)

/-- The weight of a list. -/
def load (l : List α) : Nat := (l.map weight).sum

@[simp] theorem load_cons (x : α) (l : List α) : load weight (x :: l) = weight x + load weight l :=
  List.sum_cons

@[simp] theorem load_append (l m : List α) : load weight (l ++ m) = load weight l + load weight m := by
  rw [load, List.map_append, List.sum_append]
  rfl

/-- The oldest entries go while the rest is too heavy, up to the newest one. -/
def shed : List α → List α
  | x :: y :: rest =>
      if bound < load weight (x :: y :: rest) then shed (y :: rest) else x :: y :: rest
  | l => l

theorem shed_map {β : Type} (f : β → α) (l : List β) :
    shed weight bound (l.map f) = (shed (weight ∘ f) bound l).map f := by
  induction l with
  | nil => rfl
  | cons x l ih =>
    cases l with
    | nil => rfl
    | cons y rest =>
      have same : load weight ((x :: y :: rest).map f) = load (weight ∘ f) (x :: y :: rest) := by
        rw [load, List.map_map]
        rfl
      rw [List.map_cons, List.map_cons, shed, ← List.map_cons, ← List.map_cons, same, shed]
      split_ifs with heavy
      · exact ih
      · rfl

/-- The longest end of a list that keeps to the bound, or its last entry if that is too heavy alone. -/
structure Newest (all kept : List α) : Prop where
  suffix : kept <:+ all
  some_left : all ≠ [] → kept ≠ []
  fits : load weight kept ≤ bound ∨ kept.length = 1
  longest : ∀ longer, longer <:+ all → kept.length < longer.length → bound < load weight longer

variable {weight bound}

theorem newest_nil : Newest weight bound ([] : List α) [] := by
  refine ⟨List.suffix_refl _, id, Or.inl (Nat.zero_le _), ?_⟩
  intro longer ends more
  rw [List.suffix_nil.mp ends] at more
  exact absurd more (Nat.lt_irrefl _)

theorem newest_shed (l : List α) : Newest weight bound l (shed weight bound l) := by
  induction l with
  | nil => exact newest_nil
  | cons x l ih =>
    cases l with
    | nil =>
      refine ⟨List.suffix_refl _, id, Or.inr rfl, ?_⟩
      intro longer ends more
      exact absurd ends.length_le (not_le.mpr more)
    | cons y rest =>
      rw [shed]
      split_ifs with heavy
      · refine ⟨ih.suffix.trans (List.suffix_cons _ _), fun _ => ih.some_left (List.cons_ne_nil _ _), ih.fits, ?_⟩
        intro longer ends more
        rcases List.suffix_cons_iff.mp ends with rfl | later
        · exact heavy
        · exact ih.longest longer later more
      · refine ⟨List.suffix_refl _, id, Or.inl (by omega), ?_⟩
        intro longer ends more
        exact absurd ends.length_le (by omega)

/-- One more entry. -/
theorem Newest.push {all kept : List α} (newest : Newest weight bound all kept) (x : α) :
    Newest weight bound (all ++ [x]) (shed weight bound (kept ++ [x])) := by
  have after := @newest_shed α weight bound (kept ++ [x])
  have ends : kept ++ [x] <:+ all ++ [x] := by
    obtain ⟨front, rfl⟩ := newest.suffix
    exact ⟨front, by rw [List.append_assoc]⟩
  refine ⟨after.suffix.trans ends, fun _ => after.some_left (by simp), after.fits, ?_⟩
  intro longer within more
  by_cases short : longer.length ≤ (kept ++ [x]).length
  · exact after.longest longer (List.suffix_of_suffix_length_le within ends short) more
  · -- It is longer by an old entry, and was too heavy without the new one.
    obtain ⟨front, whole⟩ := within
    rcases List.eq_nil_or_concat' longer with rfl | ⟨old, y, rfl⟩
    · simp at short
    · rw [← List.append_assoc] at whole
      have heavy := newest.longest old ⟨front, (List.append_inj' whole rfl).1⟩ (by simpa using short)
      rw [load_append]
      omega

end Parler.Lib
