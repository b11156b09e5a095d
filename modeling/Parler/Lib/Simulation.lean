import Mathlib.Data.List.Sort
import Parler.Lib.Discipline

/-!
# Simulations between states

Two states that no call can tell apart: a relation that every call made in a
discipline answers alike and keeps. The relation may mention what the program has
called so far. Programs that follow the discipline then answer alike, and so does
any sequence of requests served one after the other.
-/

namespace Parler.Lib

variable {σ Req α : Type} {M : Machine σ} {C : List (Done M) → M.Op → Prop}
  {R : List (Done M) → σ → σ → Prop}

/-- The calls made in the discipline `C` cannot tell related states apart. -/
def Simulates (M : Machine σ) (C : List (Done M) → M.Op → Prop)
    (R : List (Done M) → σ → σ → Prop) : Prop :=
  ∀ past op s s', C past op → R past s s' →
    (M.exec op s).1 = (M.exec op s').1 ∧
      R (⟨op, (M.exec op s).1⟩ :: past) (M.exec op s).2 (M.exec op s').2

theorem Prog.run_simulates (sim : Simulates M C R) {p : Prog M α} {past : List (Done M)}
    (follows : p.Follows C past) {s s' : σ} (related : R past s s') :
    (p.run s).1 = (p.run s').1 ∧ ∃ past, R past (p.run s).2 (p.run s').2 := by
  induction p generalizing s s' past with
  | ret value => exact ⟨rfl, past, related⟩
  | call op next ih =>
    obtain ⟨same, after⟩ := sim past op s s' follows.1 related
    simp only [Prog.run_call]
    rw [← same]
    exact ih _ (follows.2 _) after

/-- The answers to a sequence of requests, each served to its end. -/
def answers (serve : Req → Prog M α) : List Req → σ → List α
  | [], _ => []
  | req :: reqs, s => ((serve req).run s).1 :: answers serve reqs ((serve req).run s).2

/-- The state the sequence leaves. -/
def leaves (serve : Req → Prog M α) : List Req → σ → σ
  | [], s => s
  | req :: reqs, s => leaves serve reqs ((serve req).run s).2

/-- Related states answer every disciplined sequence of requests alike and stay related. -/
theorem answers_simulates (sim : Simulates M C R) (forget : ∀ past s s', R past s s' → R [] s s')
    {serve : Req → Prog M α} {reqs : List Req} (follows : ∀ req ∈ reqs, (serve req).Follows C [])
    {s s' : σ} (related : R [] s s') :
    answers serve reqs s = answers serve reqs s' ∧
      R [] (leaves serve reqs s) (leaves serve reqs s') := by
  induction reqs generalizing s s' with
  | nil => exact ⟨rfl, related⟩
  | cons req reqs ih =>
    obtain ⟨same, past, after⟩ := Prog.run_simulates sim (follows req (by simp)) related
    obtain ⟨rest, stays⟩ := ih (fun req member => follows req (by simp [member]))
      (forget past _ _ after)
    simp only [answers]
    rw [same, rest]
    exact ⟨rfl, stays⟩

/-! ## Sorting a selection -/

section Selection

variable {r : α → α → Prop} [DecidableRel r] [IsTrans α r] [Std.Total r] (p : α → Bool)

omit [IsTrans α r] [Std.Total r] in
theorem orderedInsert_of_forall {a : α} {l : List α} (first : ∀ b ∈ l, r a b) :
    l.orderedInsert r a = a :: l := by
  cases l with
  | nil => rfl
  | cons b l => exact List.orderedInsert_cons_of_le r l (first b (by simp))

omit [Std.Total r] in
theorem filter_orderedInsert (a : α) {l : List α} (sorted : l.Pairwise r) :
    (l.orderedInsert r a).filter p =
      if p a then (l.filter p).orderedInsert r a else l.filter p := by
  induction l with
  | nil => cases holds : p a <;> simp [holds]
  | cons b l ih =>
    obtain ⟨least, sorted⟩ := List.pairwise_cons.mp sorted
    by_cases before : r a b
    · rw [List.orderedInsert_cons_of_le r l before, List.filter_cons]
      split
      · rw [orderedInsert_of_forall]
        intro c member
        rcases List.mem_cons.mp (List.mem_of_mem_filter member) with rfl | later
        · exact before
        · exact IsTrans.trans a b c before (least c later)
      · rfl
    · rw [List.orderedInsert_of_not_le r l before, List.filter_cons, ih sorted, List.filter_cons]
      cases kept : p b with
      | false => rfl
      | true =>
        cases holds : p a with
        | false => rfl
        | true =>
          simp only [if_true]
          rw [List.orderedInsert_of_not_le r _ before]

/-- A stable sort commutes with a selection. -/
theorem filter_insertionSort (l : List α) :
    (l.insertionSort r).filter p = (l.filter p).insertionSort r := by
  induction l with
  | nil => rfl
  | cons a l ih =>
    rw [List.insertionSort_cons, filter_orderedInsert p a (List.pairwise_insertionSort r l), ih]
    cases holds : p a <;> simp [holds]

end Selection

end Parler.Lib
