import Mathlib.Data.List.Nodup
import Mathlib.Data.List.Sort

/-!
# Lists with repetitions

A list in which each element of a list without duplicates stands a number of
times in a row: what a join of an ordered table with a table of several rows per
key returns. A page of it is a page of the list itself exactly when no element
but the last one of the page is repeated.
-/

namespace Parler.Lib

variable {α : Type}

/-- Each element `a` of the list, `k a` times in a row. -/
def repeated (k : α → Nat) (l : List α) : List α := l.flatMap (fun a => List.replicate (k a) a)

@[simp] theorem repeated_nil (k : α → Nat) : repeated k [] = [] := rfl

@[simp] theorem repeated_cons (k : α → Nat) (a : α) (l : List α) :
    repeated k (a :: l) = List.replicate (k a) a ++ repeated k l := by
  simp [repeated]

theorem mem_of_mem_repeated {k : α → Nat} {l : List α} {a : α} (member : a ∈ repeated k l) :
    a ∈ l := by
  obtain ⟨b, listed, copied⟩ := List.mem_flatMap.mp member
  rw [List.eq_of_mem_replicate copied]
  exact listed

theorem count_repeated [DecidableEq α] {k : α → Nat} {l : List α} (nodup : l.Nodup) (a : α) :
    (repeated k l).count a = if a ∈ l then k a else 0 := by
  induction l with
  | nil => simp
  | cons b l ih =>
    obtain ⟨fresh, nodup⟩ := List.nodup_cons.mp nodup
    rw [repeated_cons, List.count_append, List.count_replicate, ih nodup]
    by_cases same : b = a
    · subst same
      simp [fresh]
    · simp [same, Ne.symm same]

theorem pairwise_repeated {r : α → α → Prop} {k : α → Nat} {l : List α} (refl : ∀ a, r a a)
    (sorted : l.Pairwise r) : (repeated k l).Pairwise r := by
  induction l with
  | nil => simp
  | cons a l ih =>
    obtain ⟨least, sorted⟩ := List.pairwise_cons.mp sorted
    rw [repeated_cons, List.pairwise_append]
    refine ⟨List.pairwise_replicate.mpr (Or.inr (refl a)), ih sorted, ?_⟩
    intro b copied c later
    rw [List.eq_of_mem_replicate copied]
    exact least c (mem_of_mem_repeated later)

/-- Lists that a map injective on their elements sends to one list are equal. -/
theorem eq_of_map_eq {β : Type} {f : α → β} {l l' : List α}
    (injective : ∀ a ∈ l, ∀ b ∈ l', f a = f b → a = b) (same : l.map f = l'.map f) : l = l' := by
  induction l generalizing l' with
  | nil => simpa using same.symm
  | cons a l ih =>
    cases l' with
    | nil => simp at same
    | cons b l' =>
      simp only [List.map_cons, List.cons.injEq] at same
      have first := injective a (by simp) b (by simp) same.1
      have rest := ih (fun a inl b inr => injective a (by simp [inl]) b (by simp [inr])) same.2
      rw [first, rest]

/-- A page of the repetitions is a page of the list exactly when no element before the last
    place of the page is repeated. -/
theorem take_repeated_iff {k : α → Nat} {l : List α} (nodup : l.Nodup) (pos : ∀ a ∈ l, 1 ≤ k a)
    (n : Nat) :
    (repeated k l).take n = l.take n ↔ ∀ i a, l[i]? = some a → i + 1 < n → k a = 1 := by
  induction l generalizing n with
  | nil => simp
  | cons a l ih =>
    obtain ⟨fresh, nodup⟩ := List.nodup_cons.mp nodup
    have more : 1 ≤ k a := pos a (by simp)
    obtain ⟨extra, copies⟩ : ∃ extra, k a = extra + 1 := ⟨k a - 1, by omega⟩
    rw [repeated_cons, copies, List.replicate_succ, List.cons_append]
    rcases n with _ | n
    · simp
    · rw [List.take_succ_cons, List.take_succ_cons, List.cons_inj_right]
      cases extra with
      | zero =>
        rw [List.replicate_zero, List.nil_append, ih nodup (fun b listed => pos b (by simp [listed]))]
        constructor
        · intro once i b found short
          cases i with
          | zero =>
            cases found
            omega
          | succ i => exact once i b (by simpa using found) (by omega)
        · intro once i b found short
          exact once (i + 1) b (by simpa using found) (by omega)
      | succ extra =>
        -- The element stands twice; its second copy is in the way unless the page is over.
        rcases n with _ | n
        · simp
        · constructor
          · intro same
            rw [List.replicate_succ, List.cons_append, List.take_succ_cons] at same
            have listed : a ∈ l.take (n + 1) := by
              rw [← same]
              exact List.mem_cons_self
            exact absurd (List.mem_of_mem_take listed) fresh
          · intro once
            have single := once 0 a rfl (by omega)
            omega

end Parler.Lib
