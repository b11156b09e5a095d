import Mathlib.Algebra.Order.Group.Int
import Mathlib.Data.List.Sort

/-!
# Events in windows of time

How many events a limiter lets into an interval. A fixed window opens at an event and lasts for a length of
time; each window admits so many events. Such windows do not line up with an interval, but at most two of them
meet an interval of their length. A rolling limiter keeps the times it admitted and looks back over the length.
-/

namespace Parler.Lib

/-! ## Fixed windows -/

/-- An admitted event: its time, and when the window it was counted in opened. -/
structure Stamp where
  opened : Int
  time : Int
  deriving DecidableEq

/-- Events end before their window does, and a later window opens after the earlier one ended. -/
def Apart (len : Int) (stamps : List Stamp) : Prop :=
  ∀ p ∈ stamps, p.time < p.opened + len ∧
    ∀ q ∈ stamps, p.opened < q.opened → p.opened + len ≤ q.opened ∧ q.opened ≤ q.time

/-- At most `limit` events in each window, and at most twice as many in any interval of its length, whose
    ends belong to it. -/
structure FloodBound (limit : Nat) (len : Int) (stamps : List Stamp) : Prop where
  window : ∀ opened, stamps.countP (fun p => p.opened = opened) ≤ limit
  interval : ∀ a, stamps.countP (fun p => a ≤ p.time ∧ p.time ≤ a + len) ≤ 2 * limit

section Fixed

variable {len : Int} {stamps : List Stamp}

theorem apart_nil : Apart len [] := by
  intro p member
  cases member

theorem Apart.tail {p : Stamp} (apart : Apart len (p :: stamps)) : Apart len stamps := by
  intro q member
  obtain ⟨ends, later⟩ := apart q (List.mem_cons_of_mem _ member)
  constructor
  · exact ends
  · intro r listed
    exact later r (List.mem_cons_of_mem _ listed)

theorem countP_le_add {α : Type} {P Q R : α → Bool} {l : List α}
    (either : ∀ x ∈ l, P x = true → Q x = true ∨ R x = true) : l.countP P ≤ l.countP Q + l.countP R := by
  induction l with
  | nil => simp
  | cons x l ih =>
    have rest := ih (fun y member => either y (List.mem_cons_of_mem _ member))
    have own : (if P x then 1 else 0) ≤ (if Q x then 1 else 0) + (if R x then 1 else 0) := by
      cases first : P x with
      | false => simp
      | true => rcases either x List.mem_cons_self first with same | same <;> simp [same]
    rw [List.countP_cons, List.countP_cons, List.countP_cons]
    omega

/-- Three windows do not meet an interval of their length. -/
theorem Apart.two_windows (apart : Apart len stamps) {a : Int} {p q r : Stamp} (first : p ∈ stamps)
    (second : q ∈ stamps) (third : r ∈ stamps) (starts : a ≤ p.time) (ends : r.time ≤ a + len)
    (before : p.opened < q.opened) : ¬ q.opened < r.opened := by
  intro after
  have closed := (apart p first).1
  have next := ((apart p first).2 q second before).1
  have last := (apart q second).2 r third after
  omega

theorem Apart.interval_le (apart : Apart len stamps) {limit : Nat}
    (window : ∀ opened, stamps.countP (fun p => p.opened = opened) ≤ limit) (a : Int) :
    stamps.countP (fun p => a ≤ p.time ∧ p.time ≤ a + len) ≤ 2 * limit := by
  by_cases one : ∃ p ∈ stamps, a ≤ p.time ∧ p.time ≤ a + len
  · obtain ⟨p, listed, inside⟩ := one
    by_cases two : ∃ q ∈ stamps, (a ≤ q.time ∧ q.time ≤ a + len) ∧ q.opened ≠ p.opened
    · obtain ⟨q, listed', inside', differ⟩ := two
      -- Any event in the interval is of one of these two windows.
      have either : ∀ r ∈ stamps, a ≤ r.time ∧ r.time ≤ a + len →
          r.opened = p.opened ∨ r.opened = q.opened := by
        intro r member within
        by_contra neither
        rw [not_or] at neither
        have pqr := apart.two_windows listed listed' member inside.1 within.2
        have qpr := apart.two_windows listed' listed member inside'.1 within.2
        have prq := apart.two_windows listed member listed' inside.1 inside'.2
        have qrp := apart.two_windows listed' member listed inside'.1 inside.2
        have rpq := apart.two_windows member listed listed' within.1 inside'.2
        have rqp := apart.two_windows member listed' listed within.1 inside.2
        omega
      have split : stamps.countP (fun r => a ≤ r.time ∧ r.time ≤ a + len) ≤
          stamps.countP (fun r => r.opened = p.opened) +
            stamps.countP (fun r => r.opened = q.opened) := by
        apply countP_le_add
        intro r member within
        rw [decide_eq_true_eq] at within
        simpa using either r member within
      have first := window p.opened
      have second := window q.opened
      omega
    · push Not at two
      have inner : stamps.countP (fun r => a ≤ r.time ∧ r.time ≤ a + len) ≤
          stamps.countP (fun r => r.opened = p.opened) := by
        apply List.countP_mono_left
        intro r member within
        rw [decide_eq_true_eq] at within ⊢
        exact two r member within
      have bound := window p.opened
      omega
  · have none : stamps.countP (fun p => a ≤ p.time ∧ p.time ≤ a + len) = 0 := by
      rw [List.countP_eq_zero]
      intro p member inside
      rw [decide_eq_true_eq] at inside
      exact one ⟨p, member, inside⟩
    omega

theorem Apart.floodBound (apart : Apart len stamps) {limit : Nat}
    (window : ∀ opened, stamps.countP (fun p => p.opened = opened) ≤ limit) :
    FloodBound limit len stamps :=
  ⟨window, apart.interval_le window⟩

end Fixed

/-! ## A rolling window -/

/-- Times, each of which found fewer than `limit` before it within `len`. -/
inductive Rolling (limit : Nat) (len : Int) : List Int → Prop
  | nil : Rolling limit len []
  | snoc {times : List Int} {now : Int} : Rolling limit len times → (∀ t ∈ times, t ≤ now) →
      times.countP (fun t => now - t < len) < limit → Rolling limit len (times ++ [now])

/-- At most `limit` times in an interval of the length, which its end does not belong to. -/
theorem Rolling.count_le {limit : Nat} {len : Int} {times : List Int} (rolling : Rolling limit len times)
    (a : Int) : times.countP (fun t => a ≤ t ∧ t < a + len) ≤ limit := by
  induction rolling with
  | nil => simp
  | @snoc times now earlier order room ih =>
    rw [List.countP_append, List.countP_singleton]
    by_cases inside : a ≤ now ∧ now < a + len
    · -- What is in the interval before `now` still counted at `now`.
      have counted : times.countP (fun t => a ≤ t ∧ t < a + len) ≤
          times.countP (fun t => now - t < len) := by
        apply List.countP_mono_left
        intro t member within
        rw [decide_eq_true_eq] at within ⊢
        have before := order t member
        omega
      simp only [inside, and_self, decide_true, if_true]
      omega
    · simp only [inside, decide_false, Bool.false_eq_true, if_false, Nat.add_zero]
      exact ih

end Parler.Lib
