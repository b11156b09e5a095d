import Mathlib.Data.List.Sort
import Mathlib.Order.RelClasses

/-!
# The first entries of a ranking

A stable sort by a score, highest first, and what is left of it after a cut. Entries of one score
come in the order in which they were given, so what is before the cut may depend on that order; it
does not exactly when no score before the cut is shared.
-/

namespace Parler.Lib

variable {α β : Type} [LinearOrder β] (score : α → β)

/-- Highest score first; equal scores stay in their order. -/
def ranked (l : List α) : List α := l.insertionSort (fun a b => score b ≤ score a)

/-- How many entries have a higher score. -/
def above (l : List α) (x : α) : Nat := l.countP (fun y => score x < score y)

variable {score} {l l' : List α} {x y : α} {n i : Nat}

theorem ranked_perm (l : List α) : (ranked score l).Perm l := List.perm_insertionSort _ l

theorem mem_ranked : x ∈ ranked score l ↔ x ∈ l := (ranked_perm l).mem_iff

theorem ranked_sorted (l : List α) :
    (ranked score l).Pairwise (fun a b => score b ≤ score a) := by
  have total : Std.Total (fun a b : α => score b ≤ score a) := ⟨fun a b => le_total _ _⟩
  have trans : IsTrans α (fun a b => score b ≤ score a) := ⟨fun _ _ _ ab bc => bc.trans ab⟩
  exact List.pairwise_insertionSort _ l

theorem above_perm (same : l.Perm l') (x : α) : above score l x = above score l' x :=
  same.countP_eq _

theorem above_ranked (l : List α) (x : α) : above score (ranked score l) x = above score l x :=
  above_perm (ranked_perm l) x

theorem above_of_score (same : score x = score y) (l : List α) : above score l x = above score l y := by
  unfold above
  rw [same]

theorem above_cons_self (x : α) (l : List α) : above score (x :: l) x = above score l x := by
  simp [above]

/-- In a sorted list the entries with a higher score come first. -/
theorem above_le_index (sorted : l.Pairwise (fun a b => score b ≤ score a)) (at_i : l[i]? = some x) :
    above score l x ≤ i := by
  induction l generalizing i with
  | nil => cases at_i
  | cons z l ih =>
    rw [List.pairwise_cons] at sorted
    cases i with
    | zero =>
      have same : z = x := by simpa using at_i
      subst same
      apply Nat.le_of_eq
      rw [above_cons_self, above, List.countP_eq_zero]
      intro w later
      have below := sorted.1 w later
      simpa using below
    | succ i =>
      have later : l[i]? = some x := by simpa using at_i
      have rest := ih sorted.2 later
      have step : above score (z :: l) x ≤ above score l x + 1 := by
        unfold above
        rw [List.countP_cons]
        split <;> omega
      omega

/-- An entry before the cut has fewer higher ones than the cut leaves. -/
theorem above_lt_of_mem_take (kept : x ∈ (ranked score l).take n) : above score l x < n := by
  obtain ⟨i, short, rfl⟩ := List.mem_iff_getElem.mp kept
  rw [List.length_take] at short
  have at_i : (ranked score l)[i]? = some ((ranked score l).take n)[i] := by
    rw [List.getElem_take]
    exact List.getElem?_eq_getElem (by omega)
  have index := above_le_index (ranked_sorted l) at_i
  rw [above_ranked] at index
  omega

/-- An entry that is the only one of its score stands right after the higher ones. -/
theorem index_le_above (sorted : l.Pairwise (fun a b => score b ≤ score a)) (nodup : l.Nodup)
    (alone : ∀ z ∈ l, score z = score x → z = x) (at_i : l[i]? = some x) : i ≤ above score l x := by
  induction l generalizing i with
  | nil => cases at_i
  | cons z l ih =>
    rw [List.pairwise_cons] at sorted
    rw [List.nodup_cons] at nodup
    cases i with
    | zero => exact Nat.zero_le _
    | succ i =>
      have later : l[i]? = some x := by simpa using at_i
      have rest := ih sorted.2 nodup.2 (fun w listed => alone w (List.mem_cons_of_mem _ listed)) later
      have member := List.mem_of_getElem? later
      have differ : score z ≠ score x := by
        intro same
        exact nodup.1 (alone z List.mem_cons_self same ▸ member)
      have higher : score x < score z := lt_of_le_of_ne (sorted.1 x member) (Ne.symm differ)
      unfold above at rest ⊢
      rw [List.countP_cons, if_pos (by simpa using higher)]
      omega

theorem mem_take_of_above (nodup : l.Nodup) (alone : ∀ z ∈ l, score z = score x → z = x)
    (member : x ∈ l) (few : above score l x < n) : x ∈ (ranked score l).take n := by
  have listed : x ∈ ranked score l := mem_ranked.mpr member
  obtain ⟨i, at_i⟩ := List.mem_iff_getElem?.mp listed
  have distinct : (ranked score l).Nodup := (ranked_perm l).nodup_iff.mpr nodup
  have index := index_le_above (ranked_sorted l) distinct
    (fun z listed => alone z (mem_ranked.mp listed)) at_i
  rw [above_ranked] at index
  rw [List.mem_iff_getElem?]
  exact ⟨i, by rw [List.getElem?_take_of_lt (by omega), at_i]⟩

variable (score) in
/-- What is given first comes first among its equals. -/
theorem getElem?_ranked_cons (x : α) (l : List α) :
    (ranked score (x :: l))[above score l x]? = some x := by
  have inserted : ∀ s : List α, s.Pairwise (fun a b => score b ≤ score a) →
      (s.orderedInsert (fun a b => score b ≤ score a) x)[above score s x]? = some x := by
    intro s
    induction s with
    | nil =>
      intro _
      rfl
    | cons z s ih =>
      intro sorted
      rw [List.pairwise_cons] at sorted
      by_cases before : score z ≤ score x
      · have none : above score (z :: s) x = 0 := by
          rw [above, List.countP_eq_zero]
          intro w listed
          rcases List.mem_cons.mp listed with rfl | later
          · simpa using before
          · simpa using (sorted.1 w later).trans before
        rw [none, List.orderedInsert, if_pos before]
        rfl
      · have one : above score (z :: s) x = above score s x + 1 := by
          unfold above
          rw [List.countP_cons, if_pos (by simpa using before)]
        rw [one, List.orderedInsert, if_neg before, List.getElem?_cons_succ]
        exact ih sorted.2
  rw [← above_ranked]
  exact inserted _ (ranked_sorted l)

/-- What a cut leaves does not depend on the order of the entries exactly when no two of them share
    a score before the cut. -/
theorem take_ranked_determined_iff :
    (∀ l' l'' : List α, l'.Perm l → l''.Perm l →
      (ranked score l').take n = (ranked score l'').take n) ↔
    ∀ x ∈ l, above score l x < n → ∀ y ∈ l, score y = score x → y = x := by
  constructor
  · intro determined x member few y other same
    -- Give each of the two first.
    obtain ⟨p, q, rfl⟩ := List.append_of_mem member
    obtain ⟨r, s, split⟩ := List.append_of_mem other
    have first := getElem?_ranked_cons score x (p ++ q)
    have second := getElem?_ranked_cons score y (r ++ s)
    have toFirst : (x :: (p ++ q)).Perm (p ++ x :: q) := List.perm_middle.symm
    have toSecond : (y :: (r ++ s)).Perm (p ++ x :: q) := by
      rw [split]
      exact List.perm_middle.symm
    have equal := determined _ _ toFirst toSecond
    have place : above score (p ++ q) x = above score (r ++ s) y := by
      rw [← above_cons_self x, ← above_cons_self y, above_perm toFirst, above_perm toSecond,
        above_of_score same]
    have few : above score (p ++ q) x < n := by
      rw [← above_cons_self x, above_perm toFirst]
      exact few
    rw [← List.getElem?_take_of_lt few, equal, place, List.getElem?_take_of_lt (place ▸ few),
      second] at first
    exact Option.some.inj first
  · intro apart l' l'' perm perm'
    have scores : (ranked score l').map score = (ranked score l'').map score := by
      have same : ((ranked score l').map score).Perm ((ranked score l'').map score) :=
        (((ranked_perm l').trans perm).trans ((ranked_perm l'').trans perm').symm).map score
      have sorted : ∀ s : List α, ((ranked score s).map score).SortedGE := by
        intro s
        apply List.Pairwise.sortedGE
        exact List.pairwise_map.mpr (ranked_sorted s)
      exact same.eq_of_sortedGE (sorted l') (sorted l'')
    apply List.ext_getElem?
    intro i
    by_cases cut : i < n
    · rw [List.getElem?_take_of_lt cut, List.getElem?_take_of_lt cut]
      have equal := congrArg (fun s => s[i]?) scores
      simp only [List.getElem?_map] at equal
      cases at_i : (ranked score l'')[i]? with
      | none =>
        rw [at_i] at equal
        simpa using equal
      | some x =>
        rw [at_i] at equal
        obtain ⟨y, at_i', same⟩ := Option.map_eq_some_iff.mp equal
        have listed : x ∈ l := perm'.mem_iff.mp (mem_ranked.mp (List.mem_of_getElem? at_i))
        have listed' : y ∈ l := perm.mem_iff.mp (mem_ranked.mp (List.mem_of_getElem? at_i'))
        have few : above score l x ≤ i := by
          rw [← above_perm perm', ← above_ranked]
          exact above_le_index (ranked_sorted l'') at_i
        rw [at_i', apart x listed (few.trans_lt cut) y listed' same]
    · rw [List.getElem?_take, List.getElem?_take, if_neg cut, if_neg cut]

variable (score) in
/-- A stable sort of a selection is the selection of the stable sort. -/
theorem ranked_filter (p : α → Bool) (l : List α) :
    ranked score (l.filter p) = (ranked score l).filter p := by
  have inserted : ∀ (x : α) (s : List α), s.Pairwise (fun a b => score b ≤ score a) →
      (s.orderedInsert (fun a b => score b ≤ score a) x).filter p =
        if p x then (s.filter p).orderedInsert (fun a b => score b ≤ score a) x else s.filter p := by
    intro x s
    induction s with
    | nil =>
      intro _
      cases selected : p x <;> simp [selected]
    | cons z s ih =>
      intro sorted
      rw [List.pairwise_cons] at sorted
      by_cases before : score z ≤ score x
      · rw [List.orderedInsert, if_pos before]
        cases selected : p x with
        | false => simp [selected]
        | true =>
          -- What is left of the rest begins no higher than `x`.
          rw [List.filter_cons_of_pos selected, if_pos rfl]
          cases left : (z :: s).filter p with
          | nil => rfl
          | cons w rest =>
            have listed : w ∈ z :: s := by
              apply List.mem_of_mem_filter (p := p)
              rw [left]
              exact List.mem_cons_self
            have lower : score w ≤ score x := by
              rcases List.mem_cons.mp listed with rfl | later
              · exact before
              · exact (sorted.1 w later).trans before
            rw [List.orderedInsert, if_pos lower]
      · rw [List.orderedInsert, if_neg before]
        cases first : p z with
        | false =>
          rw [List.filter_cons_of_neg (by simp [first]), ih sorted.2,
            List.filter_cons_of_neg (by simp [first])]
        | true =>
          rw [List.filter_cons_of_pos first, ih sorted.2, List.filter_cons_of_pos first]
          split
          · rw [List.orderedInsert, if_neg before]
          · rfl
  induction l with
  | nil => rfl
  | cons x l ih =>
    have unfolded : ranked score (x :: l) =
        (ranked score l).orderedInsert (fun a b => score b ≤ score a) x := rfl
    rw [unfolded, inserted x _ (ranked_sorted l), ← ih]
    cases selected : p x with
    | false => rw [List.filter_cons_of_neg (by simp [selected])]; rfl
    | true =>
      rw [List.filter_cons_of_pos selected]
      rfl

/-- An entry of a list is its head or an entry of its tail. -/
theorem forall_split_cons {P : List α → α → Prop} {z : α} :
    (∀ before x after, z :: l = before ++ x :: after → P before x) ↔
      P [] z ∧ ∀ before x after, l = before ++ x :: after → P (z :: before) x := by
  constructor
  · intro all
    refine ⟨all [] z l rfl, ?_⟩
    intro before x after split
    exact all (z :: before) x after (by rw [split]; rfl)
  · rintro ⟨head, tail⟩ before x after split
    cases before with
    | nil =>
      obtain ⟨rfl, -⟩ := List.cons.inj split
      exact head
    | cons y before =>
      obtain ⟨rfl, rest⟩ := List.cons.inj split
      exact tail before x after rest

/-- Two selections of distinct entries agree up to a cut exactly when they judge alike every entry
    that is met before the cut is reached. -/
theorem take_filter_eq_iff {γ : Type} {f : α → γ} {p q : α → Bool} (nodup : (l.map f).Nodup) :
    ((l.filter p).map f).take n = ((l.filter q).map f).take n ↔
      ∀ before x after, l = before ++ x :: after → (before.filter p).length < n → p x = q x := by
  induction l generalizing n with
  | nil => simp
  | cons z l ih =>
    rw [List.map_cons, List.nodup_cons] at nodup
    obtain ⟨new, nodup⟩ := nodup
    have absent : ∀ (r : α → Bool) (rest : List γ), ((l.filter r).map f).take n ≠ f z :: rest := by
      intro r rest equal
      apply new
      have listed : f z ∈ ((l.filter r).map f).take n := by
        rw [equal]
        exact List.mem_cons_self
      obtain ⟨w, selected, same⟩ := List.mem_map.mp (List.mem_of_mem_take listed)
      exact List.mem_map.mpr ⟨w, List.mem_of_mem_filter selected, same⟩
    rw [forall_split_cons (P := fun before x => (before.filter p).length < n → p x = q x)]
    cases n with
    | zero => simp
    | succ k =>
      cases first : p z <;> cases second : q z
      · simp only [List.filter_cons_of_neg, first, second, Bool.false_eq_true, not_false_eq_true,
          implies_true, true_and]
        exact ih nodup
      · simp only [List.filter_cons_of_neg, List.filter_cons_of_pos, first, second,
          Bool.false_eq_true, not_false_eq_true, List.map_cons, List.take_succ_cons]
        constructor
        · intro equal
          exact absurd equal (absent p _)
        · intro same
          exact absurd (same.1 (Nat.succ_pos k)) (by simp)
      · simp only [List.filter_cons_of_neg, List.filter_cons_of_pos, first, second,
          Bool.false_eq_true, not_false_eq_true, List.map_cons, List.take_succ_cons]
        constructor
        · intro equal
          exact absurd equal.symm (absent q _)
        · intro same
          exact absurd (same.1 (Nat.succ_pos k)) (by simp)
      · simp only [List.filter_cons_of_pos, first, second, List.map_cons, List.take_succ_cons,
          List.cons.injEq, true_and, List.length_cons, Nat.add_lt_add_iff_right, implies_true]
        exact ih nodup

end Parler.Lib
