import Mathlib.Algebra.Ring.Nat
import Mathlib.Data.List.Basic
import Mathlib.Data.List.TakeWhile

/-!
# Patterns of tokens

A pattern is a list of tokens. One token, here `star`, stands for any single token, and another one, `gt`, for
the one or more tokens that remain. A concrete list has neither. Matching a pattern against a pattern treats the
second one's wildcards as plain tokens, which is not the same as asking whether the first covers it.
-/

namespace Parler.Lib

variable {T : Type} [DecidableEq T] (star gt : T)

/-- Match a pattern against a list. -/
def matchTokens : List T → List T → Bool
  | [], s => s.isEmpty
  | t :: ts, s =>
      if t = gt then !s.isEmpty
      else
        match s with
        | [] => false
        | x :: xs => if t = star ∨ t = x then matchTokens ts xs else false

/-- A list of tokens that a pattern is meant to be matched against. -/
def Concrete (ok : T → Prop) (s : List T) : Prop := ∀ t ∈ s, ok t ∧ t ≠ star ∧ t ≠ gt

/-- A pattern whose `gt` is its last token. -/
def TailLast (p : List T) : Prop := gt ∉ p.dropLast

/-- Every concrete list that `p` matches, `q` matches. -/
def Covers (ok : T → Prop) (q p : List T) : Prop :=
  ∀ s, Concrete star gt ok s → matchTokens star gt p s = true → matchTokens star gt q s = true

/-- `q` ends in `star` where `p`, of the same length, ends in `gt`, and matches it as if that were one token. -/
def Swallows (q p : List T) : Prop :=
  ∃ qs ps, q = qs ++ [star] ∧ p = ps ++ [gt] ∧ qs.length = ps.length ∧ matchTokens star gt q p = true

/-- A pattern whose `gt` is replaced by `n` tokens `star`. -/
def unrolled (p : List T) (n : Nat) : List T := p.dropLast ++ List.replicate n star

/-- The list a pattern stands for when each `star` is the token `f`. -/
def instantiated (f : T) (p : List T) : List T := p.map (fun t => if t = star then f else t)

/-- A pattern all of whose tokens but the wildcards are allowed in a concrete list. -/
def Named (ok : T → Prop) (p : List T) : Prop := ∀ t ∈ p, t ≠ star → t ≠ gt → ok t

/-- No finite list uses up the allowed tokens. -/
def Fresh (ok : T → Prop) : Prop := ∀ avoid : List T, ∃ f, ok f ∧ f ∉ avoid

/-- The patterns of a list that no other one of it matches. -/
def survivors (ps : List (List T)) : List (List T) :=
  ps.filter (fun p => !ps.any (fun q => q ≠ p && matchTokens star gt q p))

/-- How specific a pattern is: a pattern that covers a different one weighs less. -/
def weight (p : List T) : Nat := (p.map (fun t => if t = gt then 1 else if t = star then 2 else 3)).sum

variable {star gt}

theorem matchTokens_gt (ts s : List T) : matchTokens star gt (gt :: ts) s = !s.isEmpty := by
  simp [matchTokens]

theorem matchTokens_cons {t : T} (plain : t ≠ gt) (ts xs : List T) (x : T) :
    matchTokens star gt (t :: ts) (x :: xs) = true ↔
      (t = star ∨ t = x) ∧ matchTokens star gt ts xs = true := by
  rw [matchTokens]
  simp [plain]

theorem matchTokens_cons_nil {t : T} (plain : t ≠ gt) (ts : List T) :
    matchTokens star gt (t :: ts) [] = false := by
  simp [matchTokens, plain]

/-- Only the empty pattern matches the empty list. -/
theorem matchTokens_nil (q : List T) : matchTokens star gt q [] = true ↔ q = [] := by
  cases q with
  | nil => simp [matchTokens]
  | cons t ts => by_cases tail : t = gt <;> simp [matchTokens, tail]

/-- Tokens without wildcards match themselves. -/
theorem matchTokens_append {front tail : List T} (plain : ∀ t ∈ front, t ≠ star ∧ t ≠ gt) (s : List T) :
    matchTokens star gt (front ++ tail) s = true ↔
      ∃ rest, s = front ++ rest ∧ matchTokens star gt tail rest = true := by
  induction front generalizing s with
  | nil => simp
  | cons t front ih =>
    obtain ⟨⟨not_star, not_gt⟩, plain⟩ := List.forall_mem_cons.mp plain
    cases s with
    | nil => simp [matchTokens_cons_nil not_gt]
    | cons x xs =>
      rw [List.cons_append, matchTokens_cons not_gt, ih plain]
      constructor
      · rintro ⟨first, rest, rfl, tail⟩
        exact ⟨rest, by rw [first.resolve_left not_star]; rfl, tail⟩
      · rintro ⟨rest, same, tail⟩
        obtain ⟨rfl, rfl⟩ := List.cons.inj same
        exact ⟨Or.inr rfl, rest, rfl, tail⟩

omit [DecidableEq T] in
theorem TailLast.tail {t : T} {p : List T} (last : TailLast gt (t :: p)) : TailLast gt p := by
  cases p with
  | nil => simp [TailLast]
  | cons u p =>
    intro member
    exact last (List.mem_cons_of_mem _ member)

omit [DecidableEq T] in
/-- After `gt` nothing follows. -/
theorem TailLast.gt_nil {p : List T} (last : TailLast gt (gt :: p)) : p = [] := by
  cases p with
  | nil => rfl
  | cons u p => exact absurd List.mem_cons_self last

theorem TailLast.cases {p : List T} (last : TailLast gt p) :
    gt ∉ p ∨ p = p.dropLast ++ [gt] := by
  by_cases tail : gt ∈ p
  · right
    induction p with
    | nil => cases tail
    | cons t p ih =>
      cases p with
      | nil =>
        rw [List.mem_singleton.mp tail]
        rfl
      | cons u p =>
        have other : gt ≠ t := fun same => last (same ▸ List.mem_cons_self)
        have later := (List.mem_cons.mp tail).resolve_left other
        rw [List.dropLast_cons_cons, List.cons_append, ← ih last.tail later]
  · exact Or.inl tail

theorem Swallows.cons {t u : T} {q p : List T} (swallows : Swallows star gt q p)
    (matched : matchTokens star gt (t :: q) (u :: p) = true) : Swallows star gt (t :: q) (u :: p) := by
  obtain ⟨qs, ps, rfl, rfl, same, -⟩ := swallows
  exact ⟨t :: qs, u :: ps, rfl, rfl, by simp [same], matched⟩

theorem Swallows.matches {q p : List T} (swallows : Swallows star gt q p) :
    matchTokens star gt q p = true := by
  obtain ⟨-, -, -, -, -, matched⟩ := swallows
  exact matched

theorem Swallows.tail {q p : List T} (swallows : Swallows star gt q p) :
    p = p.dropLast ++ [gt] := by
  obtain ⟨qs, ps, -, rfl, -, -⟩ := swallows
  rw [List.dropLast_concat]

/-- A pattern that matches another one covers it, unless it swallows its tail. -/
theorem covers_of_match {ok : T → Prop} {q p : List T} (last : TailLast gt p)
    (matched : matchTokens star gt q p = true) (whole : ¬ Swallows star gt q p) :
    Covers star gt ok q p := by
  intro s concrete match_s
  induction q generalizing p s with
  | nil =>
    have empty : p = [] := by simpa [matchTokens] using matched
    rwa [empty] at match_s
  | cons t q ih =>
    cases p with
    | nil => cases (matchTokens_nil (t :: q)).mp matched
    | cons u p =>
      cases s with
      | nil => cases (matchTokens_nil (u :: p)).mp match_s
      | cons x s =>
        by_cases tail : t = gt
        · rw [tail, matchTokens_gt]
          rfl
        · obtain ⟨head, rest⟩ := (matchTokens_cons tail q p u).mp matched
          by_cases tail' : u = gt
          · -- The last token of `p` is `gt`, and `t` took it for a single token.
            subst tail'
            have empty := last.gt_nil
            subst empty
            have single := (matchTokens_nil q).mp rest
            subst single
            rcases head with any | same
            · exact absurd ⟨[], [], by simp [any], rfl, rfl, matched⟩ whole
            · exact absurd same tail
          · obtain ⟨head', rest'⟩ := (matchTokens_cons tail' p s x).mp match_s
            rw [matchTokens_cons tail]
            constructor
            · rcases head with any | same
              · exact Or.inl any
              · rw [same]
                exact head'
            · apply ih last.tail rest (fun swallows => whole (swallows.cons matched)) s _ rest'
              exact fun t member => concrete t (List.mem_cons_of_mem _ member)

/-! ## A fresh token instead of `star` -/

/-- Matching does not tell `star` from a token the matching pattern does not name. -/
theorem matchTokens_instantiated {f : T} {q p : List T} (unused : f ∉ q) :
    matchTokens star gt q (instantiated star f p) = matchTokens star gt q p := by
  induction q generalizing p with
  | nil => simp [matchTokens, instantiated]
  | cons t q ih =>
    by_cases tail : t = gt
    · simp [matchTokens, instantiated, tail]
    · cases p with
      | nil => rfl
      | cons u p =>
        have later := ih (p := p) (fun member => unused (List.mem_cons_of_mem _ member))
        have other : t ≠ f := fun same => unused (same ▸ List.mem_cons_self)
        rw [instantiated] at later
        by_cases any : u = star <;> simp [matchTokens, instantiated, tail, any, other, later]

/-- A pattern without `gt` matches itself. -/
theorem matchTokens_self {p : List T} (plain : gt ∉ p) : matchTokens star gt p p = true := by
  induction p with
  | nil => rfl
  | cons t p ih =>
    have head : t ≠ gt := fun same => plain (same ▸ List.mem_cons_self)
    rw [matchTokens_cons head]
    exact ⟨Or.inr rfl, ih (fun member => plain (List.mem_cons_of_mem _ member))⟩

theorem instantiated_concrete {ok : T → Prop} {f : T} {p : List T} (plain : gt ∉ p)
    (named : Named star gt ok p) (allowed : ok f) (not_star : f ≠ star) (not_gt : f ≠ gt) :
    Concrete star gt ok (instantiated star f p) := by
  intro t member
  obtain ⟨u, token, rfl⟩ := List.mem_map.mp member
  by_cases any : u = star
  · simp [any, allowed, not_star, not_gt]
  · have other : u ≠ gt := fun same => plain (same ▸ token)
    simp [any, other, named u token any other]

/-- Whether a list of patterns covers a pattern without `gt` is read off by matching. -/
theorem covered_iff {ok : T → Prop} (fresh : Fresh ok) (zs : List (List T)) {p : List T}
    (plain : gt ∉ p) (named : Named star gt ok p) :
    (∀ s, Concrete star gt ok s → matchTokens star gt p s = true →
        ∃ z ∈ zs, matchTokens star gt z s = true) ↔
      ∃ z ∈ zs, matchTokens star gt z p = true := by
  constructor
  · intro covered
    obtain ⟨f, allowed, unused⟩ := fresh (star :: gt :: p ++ zs.flatten)
    simp only [List.cons_append, List.mem_cons, List.mem_append, not_or] at unused
    obtain ⟨not_star, not_gt, not_p, not_zs⟩ := unused
    have concrete := instantiated_concrete plain named allowed not_star not_gt
    obtain ⟨z, member, matched⟩ := covered _ concrete
      ((matchTokens_instantiated not_p).trans (matchTokens_self plain))
    refine ⟨z, member, ?_⟩
    rw [← matchTokens_instantiated (f := f)]
    · exact matched
    · exact fun within => not_zs (List.mem_flatten.mpr ⟨z, member, within⟩)
  · rintro ⟨z, member, matched⟩ s concrete match_s
    have last : TailLast gt p := fun within => plain (List.dropLast_subset p within)
    have whole : ¬ Swallows star gt z p := by
      rintro ⟨qs, ps, -, rfl, -, -⟩
      exact plain (List.mem_append_right _ List.mem_cons_self)
    exact ⟨z, member, covers_of_match last matched whole s concrete match_s⟩

/-! ## `gt` as any number of `star` -/

theorem matchTokens_replicate (differ : star ≠ gt) (n : Nat) (s : List T) :
    matchTokens star gt (List.replicate n star) s = true ↔ s.length = n := by
  induction n generalizing s with
  | zero => simp [matchTokens, List.isEmpty_iff]
  | succ n ih =>
    rw [List.replicate_succ]
    cases s with
    | nil => simp [matchTokens_cons_nil differ]
    | cons x s => simp [matchTokens_cons differ, ih]

omit [DecidableEq T] in
theorem unrolled_plain (differ : star ≠ gt) {p : List T} (last : TailLast gt p) (n : Nat) :
    gt ∉ unrolled star p n := by
  intro member
  rcases List.mem_append.mp member with front | back
  · exact last front
  · exact differ (List.eq_of_mem_replicate back).symm

omit [DecidableEq T] in
theorem unrolled_named {ok : T → Prop} {p : List T} (named : Named star gt ok p) (n : Nat) :
    Named star gt ok (unrolled star p n) := by
  intro t member not_star not_gt
  rcases List.mem_append.mp member with front | back
  · exact named t (List.dropLast_subset p front) not_star not_gt
  · exact absurd (List.eq_of_mem_replicate back) not_star

/-- A pattern that ends in `gt` matches what it matches with one `star` or more in its place. -/
theorem matchTokens_unrolled (differ : star ≠ gt) {p : List T} (plain : gt ∉ p) (s : List T) :
    matchTokens star gt (p ++ [gt]) s = true ↔
      ∃ n, matchTokens star gt (p ++ List.replicate (n + 1) star) s = true := by
  induction p generalizing s with
  | nil =>
    simp only [List.nil_append, matchTokens_gt, matchTokens_replicate differ]
    cases s with
    | nil => simp
    | cons x s => simp
  | cons t p ih =>
    have head : t ≠ gt := fun same => plain (same ▸ List.mem_cons_self)
    cases s with
    | nil => simp [matchTokens_cons_nil head]
    | cons x s =>
      have later := ih (fun member => plain (List.mem_cons_of_mem _ member)) s
      simp only [List.cons_append, matchTokens_cons head, later]
      exact ⟨fun ⟨first, n, rest⟩ => ⟨n, first, rest⟩, fun ⟨n, first, rest⟩ => ⟨first, n, rest⟩⟩

/-- What swallows a tail matches the pattern with one `star` in its place. -/
theorem Swallows.unrolled {q p : List T} (swallows : Swallows star gt q p) :
    matchTokens star gt q (unrolled star p 1) = true := by
  obtain ⟨qs, ps, rfl, rfl, same, matched⟩ := swallows
  rw [Lib.unrolled, List.dropLast_concat, List.replicate_one]
  induction qs generalizing ps with
  | nil =>
    have empty : ps = [] := List.length_eq_zero_iff.mp same.symm
    subst empty
    by_cases whole : star = gt
    · simp [matchTokens, whole]
    · exact (matchTokens_cons whole [] [] star).mpr ⟨Or.inl rfl, rfl⟩
  | cons t qs ih =>
    by_cases whole : t = gt
    · simp [matchTokens, whole]
    · cases ps with
      | nil => cases same
      | cons u ps =>
        obtain ⟨head, rest⟩ := (matchTokens_cons whole _ _ u).mp matched
        exact (matchTokens_cons whole _ _ u).mpr ⟨head, ih ps (by simpa using same) rest⟩

theorem matchTokens_gt_of_star {q ps : List T}
    (matched : matchTokens star gt q (ps ++ [star]) = true) :
    matchTokens star gt q (ps ++ [gt]) = true := by
  induction q generalizing ps with
  | nil => cases ps <;> cases matched
  | cons t q ih =>
    by_cases whole : t = gt
    · simp [matchTokens, whole]
    · cases ps with
      | nil =>
        obtain ⟨head, rest⟩ := (matchTokens_cons whole q [] star).mp matched
        exact (matchTokens_cons whole q [] gt).mpr ⟨Or.inl (head.elim id id), rest⟩
      | cons u ps =>
        obtain ⟨head, rest⟩ := (matchTokens_cons whole q (ps ++ [star]) u).mp matched
        exact (matchTokens_cons whole q (ps ++ [gt]) u).mpr ⟨head, ih rest⟩

/-! ## A list of patterns without those that another one matches -/

/-- Two patterns, of which the first covers the second, match. -/
theorem match_of_covers {ok : T → Prop} (fresh : Fresh ok) (differ : star ≠ gt) {q p : List T}
    (last : TailLast gt p) (named : Named star gt ok p) (covers : Covers star gt ok q p) :
    matchTokens star gt q p = true := by
  rcases last.cases with plain | tail
  · obtain ⟨z, member, matched⟩ := (covered_iff fresh [q] plain named).mp
      (fun s concrete match_s => ⟨q, List.mem_cons_self, covers s concrete match_s⟩)
    rwa [List.mem_singleton.mp member] at matched
  · -- With one `star` in the place of `gt`, the pattern is covered, too.
    obtain ⟨z, member, matched⟩ := (covered_iff fresh [q] (unrolled_plain differ last 1)
        (unrolled_named named 1)).mp (by
      intro s concrete match_s
      refine ⟨q, List.mem_cons_self, covers s concrete ?_⟩
      rw [tail, matchTokens_unrolled differ last]
      exact ⟨0, match_s⟩)
    rw [List.mem_singleton.mp member] at matched
    rw [tail]
    exact matchTokens_gt_of_star matched

theorem weight_cons (t : T) (p : List T) :
    weight star gt (t :: p) = (if t = gt then 1 else if t = star then 2 else 3) + weight star gt p := by
  simp [weight]

/-- A pattern that matches another one is no more specific, unless it swallows its tail. -/
theorem weight_of_match {q p : List T} (last_q : TailLast gt q) (last_p : TailLast gt p)
    (matched : matchTokens star gt q p = true) (whole : ¬ Swallows star gt q p) :
    q = p ∨ weight star gt q < weight star gt p := by
  induction q generalizing p with
  | nil =>
    left
    symm
    simpa [matchTokens] using matched
  | cons t q ih =>
    cases p with
    | nil => cases (matchTokens_nil (t :: q)).mp matched
    | cons u p =>
      by_cases tail : t = gt
      · subst tail
        have empty := last_q.gt_nil
        subst empty
        by_cases tail' : u = t
        · subst tail'
          rw [last_p.gt_nil]
          exact Or.inl rfl
        · right
          rw [weight_cons, weight_cons, if_pos rfl, if_neg tail']
          have none : weight star t ([] : List T) = 0 := rfl
          split_ifs <;> omega
      · obtain ⟨head, rest⟩ := (matchTokens_cons tail q p u).mp matched
        by_cases tail' : u = gt
        · subst tail'
          have empty := last_p.gt_nil
          subst empty
          have single := (matchTokens_nil q).mp rest
          subst single
          rcases head with any | same
          · exact absurd ⟨[], [], by simp [any], rfl, rfl, matched⟩ whole
          · exact absurd same tail
        · have later := ih last_q.tail last_p.tail rest (fun swallows => whole (swallows.cons matched))
          rw [weight_cons, weight_cons, if_neg tail, if_neg tail']
          rcases later with same | less
          · subst same
            rcases head with any | same
            · by_cases any' : u = star
              · exact Or.inl (by rw [any, any'])
              · right
                rw [if_pos any, if_neg any']
                omega
            · exact Or.inl (by rw [same])
          · right
            rcases head with any | same
            · rw [if_pos any]
              split_ifs <;> omega
            · rw [same]
              omega

theorem mem_survivors {ps : List (List T)} {p : List T} :
    p ∈ survivors star gt ps ↔
      p ∈ ps ∧ ∀ q ∈ ps, q ≠ p → matchTokens star gt q p = false := by
  simp [survivors]

/-- No survivor is covered by another one. -/
theorem survivors_apart {ok : T → Prop} (fresh : Fresh ok) (differ : star ≠ gt) {ps : List (List T)}
    (formed : ∀ p ∈ ps, TailLast gt p ∧ Named star gt ok p) {q p : List T}
    (kept_q : q ∈ survivors star gt ps) (kept_p : p ∈ survivors star gt ps) (other : q ≠ p) :
    ¬ Covers star gt ok q p := by
  intro covers
  obtain ⟨member, alone⟩ := mem_survivors.mp kept_p
  have matched := match_of_covers fresh differ (formed p member).1 (formed p member).2 covers
  rw [alone q (mem_survivors.mp kept_q).1 other] at matched
  cases matched

/-- The survivors cover what the whole list covers exactly when they cover each tail that one of the list
swallows, unrolled to any length. -/
theorem survivors_cover_iff {ok : T → Prop} (fresh : Fresh ok) (differ : star ≠ gt)
    {ps : List (List T)} (formed : ∀ p ∈ ps, TailLast gt p ∧ Named star gt ok p) :
    (∀ s, Concrete star gt ok s → (∃ p ∈ ps, matchTokens star gt p s = true) →
        ∃ p ∈ survivors star gt ps, matchTokens star gt p s = true) ↔
      ∀ p ∈ ps, (∃ q ∈ ps, Swallows star gt q p) → ∀ n,
        ∃ z ∈ survivors star gt ps, matchTokens star gt z (unrolled star p (n + 1)) = true := by
  constructor
  · rintro kept p member ⟨q, -, swallows⟩ n
    obtain ⟨last, named⟩ := formed p member
    apply (covered_iff fresh _ (unrolled_plain differ last _) (unrolled_named named _)).mp
    intro s concrete match_s
    apply kept s concrete
    refine ⟨p, member, ?_⟩
    rw [swallows.tail, matchTokens_unrolled differ last]
    exact ⟨n, match_s⟩
  · rintro swallowed s concrete ⟨p, member, match_s⟩
    -- A pattern that does not survive is covered by a less specific one, or its tail is swallowed.
    induction weigh : weight star gt p using Nat.strong_induction_on generalizing p with
    | _ w ih =>
      subst weigh
      obtain ⟨last, named⟩ := formed p member
      by_cases kept : p ∈ survivors star gt ps
      · exact ⟨p, kept, match_s⟩
      by_cases lost : ∃ q ∈ ps, Swallows star gt q p
      · have ⟨q, _, swallows⟩ := lost
        rw [swallows.tail, matchTokens_unrolled differ last] at match_s
        obtain ⟨n, match_s⟩ := match_s
        exact (covered_iff fresh _ (unrolled_plain differ last _) (unrolled_named named _)).mpr
          (swallowed p member lost n) s concrete match_s
      · obtain ⟨q, member_q, other, matched⟩ :
            ∃ q ∈ ps, q ≠ p ∧ matchTokens star gt q p = true := by
          simpa [mem_survivors, member] using kept
        have whole : ¬ Swallows star gt q p := fun swallows => lost ⟨q, member_q, swallows⟩
        have less := (weight_of_match (formed q member_q).1 last matched whole).resolve_left other
        exact ih _ less q member_q (covers_of_match last matched whole s concrete match_s) rfl

end Parler.Lib
