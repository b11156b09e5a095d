import Parler.Lib.Discipline

/-!
# Locks

A lock of a machine: calls that take it and are enabled only while it is free,
calls that give it back, and calls that leave it alone. Threads that only give
back what they hold exclude each other. What a thread did since it took the lock
is part of its own past, so a critical section can be reasoned about from the
discipline of the program and the fact that no other thread holds the lock.
-/

namespace Parler.Lib

variable {σ Req α : Type} {M : Machine σ}

/-- A lock of a machine. -/
structure Lock (M : Machine σ) where
  takes : M.Op → Bool
  frees : M.Op → Bool
  held : σ → Bool
  takes_free : ∀ op s, takes op = true → M.enabled op s → held s = false
  held_takes : ∀ op s, takes op = true → held (M.exec op s).2 = true
  held_other : ∀ op s, takes op = false → frees op = false → held (M.exec op s).2 = held s

/-- A quota that is checked and used in separate calls: which calls use it up, which results of which
    calls promise that something is left for a key, and a bound, under which a call that uses nothing
    leaves what is left. -/
structure Quota (M : Machine σ) (κ : Type) where
  uses : M.Op → Bool
  promises : κ → Done M → Prop
  left : κ → σ → Prop
  bound : σ → Prop
  promised : ∀ k op s, bound s → uses op = false → promises k ⟨op, (M.exec op s).1⟩ →
    left k (M.exec op s).2
  kept : ∀ k op s, bound s → uses op = false → left k s → left k (M.exec op s).2

namespace Lock

variable (L : Lock M)

/-- What a thread called since it took the lock, newest first, while it holds it. -/
def sinceTaken : List (Done M) → Option (List (Done M))
  | [] => none
  | d :: past =>
      if L.takes d.1 then some []
      else if L.frees d.1 then none
      else (sinceTaken past).map (d :: ·)

/-- A thread gives back the lock only while it holds it. -/
def proper (past : List (Done M)) (op : M.Op) : Prop :=
  L.takes op = false → L.frees op = true → (L.sinceTaken past).isSome = true

theorem sinceTaken_other {d : Done M} (takes : L.takes d.1 = false) (frees : L.frees d.1 = false)
    (past : List (Done M)) : L.sinceTaken (d :: past) = (L.sinceTaken past).map (d :: ·) := by
  simp [sinceTaken, takes, frees]

/-- A program that leaves the lock alone ends in the section it began in. -/
theorem sinceTaken_ends {p : Prog M α} {past : List (Done M)}
    (calls : p.Calls (fun op => L.takes op = false ∧ L.frees op = false))
    (holds : (L.sinceTaken past).isSome = true) :
    p.Ends (fun _ past => (L.sinceTaken past).isSome = true) past := by
  induction p generalizing past with
  | ret value => exact holds
  | call op next ih =>
    intro r
    apply ih r (calls.2 r)
    rw [L.sinceTaken_other calls.1.1 calls.1.2, Option.isSome_map]
    exact holds

/-- The section has a promise for `k` and has used nothing since it took the lock. -/
def Found {κ : Type} (q : Quota M κ) (past : List (Done M)) (k : κ) : Prop :=
  ∃ done, L.sinceTaken past = some done ∧ (∀ d ∈ done, q.uses d.1 = false) ∧ ∃ d ∈ done, q.promises k d

variable {L} in
theorem Found.held {κ : Type} {q : Quota M κ} {past : List (Done M)} {k : κ} (found : L.Found q past k) :
    (L.sinceTaken past).isSome = true := by
  obtain ⟨done, held, -⟩ := found
  rw [held]
  rfl

section Runs

variable {serve : Req → Prog M α} {G : Pool M Req α → Nat → M.Op → Prop} {P : Pool M Req α} {s : σ}

/-- Thread `t` holds the lock. -/
def HeldBy (P : Pool M Req α) (t : Nat) : Prop := (L.sinceTaken (Pool.ownPast P.log t)).isSome = true

/-- A section after a call: another thread's, a new one, or an old one with the call. -/
theorem sinceTaken_exec {t u : Nat} {req : Req} {op : M.Op} {next : M.Res op → Prog M α}
    {done : List (Done M)}
    (held : L.sinceTaken (Pool.ownPast (P.exec t req op next).log u) = some done) :
    (u ≠ t ∧ L.sinceTaken (Pool.ownPast P.log u) = some done) ∨ (u = t ∧ done = []) ∨
      (u = t ∧ ∃ old, L.sinceTaken (Pool.ownPast P.log t) = some old ∧
        done = ⟨op, (M.exec op P.state).1⟩ :: old) := by
  rw [Pool.exec_log, Pool.ownPast_cons] at held
  by_cases own : u = t
  · subst own
    rw [if_pos rfl] at held
    cases takes : L.takes op with
    | true =>
      simp only [sinceTaken, takes, if_true] at held
      exact Or.inr (Or.inl ⟨rfl, (Option.some.inj held).symm⟩)
    | false =>
      cases frees : L.frees op with
      | true => simp [sinceTaken, takes, frees] at held
      | false =>
        rw [L.sinceTaken_other takes frees] at held
        obtain ⟨old, before, rfl⟩ := Option.map_eq_some_iff.mp held
        exact Or.inr (Or.inr ⟨rfl, old, before, rfl⟩)
  · rw [if_neg (Ne.symm own)] at held
    exact Or.inl ⟨own, held⟩

/-- At most one thread holds the lock, and then it is taken. -/
structure Exclusive (P : Pool M Req α) : Prop where
  taken : ∀ t, L.HeldBy P t → L.held P.state = true
  one : ∀ t u, L.HeldBy P t → L.HeldBy P u → t = u

/-- Mutual exclusion: in every run of proper threads at most one holds the lock. -/
theorem exclusive (proper : ∀ req, (serve req).Follows L.proper [])
    (reach : Pool.Reachable serve G s P) : L.Exclusive P := by
  refine Pool.Reachable.induct (I := L.Exclusive) ?_ ?_ reach
  · refine ⟨?_, ?_⟩ <;> intro t <;> simp [HeldBy, Pool.ownPast, sinceTaken]
  · intro P Q reach before step
    cases step with
    | spawn t req free => exact ⟨before.taken, before.one⟩
    | exec t req op next pending enabled allowed =>
      have rule : L.proper (Pool.ownPast P.log t) op := (reach.follows proper pending).1
      -- Another thread's section is untouched; that of `t` follows its call.
      have other : ∀ u, u ≠ t → (L.HeldBy (P.exec t req op next) u ↔ L.HeldBy P u) := by
        intro u different
        unfold HeldBy
        rw [Pool.exec_log, Pool.ownPast_cons, if_neg (Ne.symm different)]
      have own : L.HeldBy (P.exec t req op next) t ↔
          (L.sinceTaken (⟨op, (M.exec op P.state).1⟩ :: Pool.ownPast P.log t)).isSome = true := by
        unfold HeldBy
        rw [Pool.exec_log, Pool.ownPast_cons, if_pos rfl]
        rfl
      cases takes : L.takes op with
      | true =>
        -- The lock was free, so nobody held it.
        have none : ∀ u, ¬ L.HeldBy P u := by
          intro u holds
          have taken := before.taken u holds
          rw [L.takes_free op P.state takes enabled] at taken
          cases taken
        have only : ∀ u, L.HeldBy (P.exec t req op next) u → u = t := by
          intro u holds
          by_contra different
          exact none u ((other u different).mp holds)
        refine ⟨fun u holds => L.held_takes op P.state takes, ?_⟩
        intro u v first second
        rw [only u first, only v second]
      | false =>
        cases frees : L.frees op with
        | true =>
          have holder : L.HeldBy P t := rule takes frees
          have none : ∀ u, ¬ L.HeldBy (P.exec t req op next) u := by
            intro u holds
            by_cases same : u = t
            · subst same
              rw [own] at holds
              simp [sinceTaken, takes, frees] at holds
            · exact same (before.one u t ((other u same).mp holds) holder)
          exact ⟨fun u holds => absurd holds (none u), fun u v first => absurd first (none u)⟩
        | false =>
          have same : ∀ u, L.HeldBy (P.exec t req op next) u ↔ L.HeldBy P u := by
            intro u
            by_cases same : u = t
            · subst same
              rw [own, L.sinceTaken_other takes frees, Option.isSome_map]
              rfl
            · exact other u same
          refine ⟨?_, ?_⟩
          · intro u holds
            rw [Pool.exec_state, L.held_other op P.state takes frees]
            exact before.taken u ((same u).mp holds)
          · intro u v first second
            exact before.one u v ((same u).mp first) ((same v).mp second)

/-- The rule of check and use under a lock: if the quota is used inside sections only, and a call made
    with what its section found keeps the bound, then the bound holds in every run. -/
theorem bounded {κ : Type} (q : Quota M κ)
    (exclusive : ∀ P, Pool.Reachable serve G s P → L.Exclusive P)
    (inside : ∀ (P : Pool M Req α) t req op next, Pool.Reachable serve G s P →
      P.threads t = some (req, .call op next) → q.uses op = true → L.HeldBy P t)
    (init : q.bound s)
    (step : ∀ (P : Pool M Req α) t req op next, Pool.Reachable serve G s P →
      P.threads t = some (req, .call op next) → G P t op → q.bound P.state →
      (∀ k, L.Found q (Pool.ownPast P.log t) k → q.left k P.state) → q.bound (M.exec op P.state).2)
    (reach : Pool.Reachable serve G s P) : q.bound P.state := by
  -- With the bound goes that what a section found is still there while it has used nothing.
  have both : q.bound P.state ∧ ∀ t k, L.Found q (Pool.ownPast P.log t) k → q.left k P.state := by
    refine Pool.Reachable.induct (I := fun P => q.bound P.state ∧
      ∀ t k, L.Found q (Pool.ownPast P.log t) k → q.left k P.state) ?_ ?_ reach
    · refine ⟨init, ?_⟩
      intro t k found
      obtain ⟨done, held, -⟩ := found
      cases held
    · intro P Q reach before next
      cases next with
      | spawn t req free => exact before
      | exec t req op next pending enabled allowed =>
        obtain ⟨bound, rooms⟩ := before
        refine ⟨step P t req op next reach pending allowed bound (rooms t), ?_⟩
        intro u k found
        obtain ⟨done, held, unused, d, member, promise⟩ := found
        rcases L.sinceTaken_exec held with ⟨other, same⟩ | ⟨-, rfl⟩ | ⟨rfl, old, past, rfl⟩
        · -- Another thread's section: the caller does not hold the lock, so it uses nothing.
          have idle : q.uses op = false := by
            refine Bool.eq_false_iff.mpr ?_
            intro used
            have holds : L.HeldBy P u := by
              unfold HeldBy
              rw [same]
              rfl
            exact other ((exclusive P reach).one u t holds (inside P t req op next reach pending used))
          exact q.kept k op P.state bound idle (rooms u k ⟨done, same, unused, d, member, promise⟩)
        · cases member
        · have idle : q.uses op = false := unused _ List.mem_cons_self
          rcases List.mem_cons.mp member with rfl | older
          · exact q.promised k op P.state bound idle promise
          · refine q.kept k op P.state bound idle (rooms u k ⟨old, past, ?_, d, older, promise⟩)
            exact fun d listed => unused d (List.mem_cons_of_mem _ listed)
  exact both.1

end Runs

end Lock

end Parler.Lib
