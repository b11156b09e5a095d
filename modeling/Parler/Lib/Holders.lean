import Mathlib.Algebra.BigOperators.Group.Finset.Basic
import Mathlib.Data.Finset.Dedup
import Parler.Lib.Discipline

/-!
# What requests in flight hold

A request holds something from one of its own calls to another: a reservation from
the check that granted it to the write that uses it. Whether it holds is a property of the calls it
has executed, so the requests that hold at one moment are a finite set, and each holder
weighs what its request asked for. One call of one request changes the sum of the weights by what
that request begins or ceases to hold.
-/

namespace Parler.Lib

variable {σ Req α : Type} {M : Machine σ}

namespace Pool

variable (holds : Req → List (Done M) → Bool) (weight : Req → Nat)

/-- The own calls of the thread's request make it hold. -/
def holding (P : Pool M Req α) (t : Nat) : Bool :=
  match P.threads t with
  | some (req, _) => holds req (ownPast P.log t)
  | none => false

/-- The threads whose requests hold. -/
def holders (P : Pool M Req α) : Finset Nat :=
  (P.log.map Event.thread).toFinset.filter fun t => P.holding holds t = true

/-- The weight of a thread's request. -/
def weigh (P : Pool M Req α) (t : Nat) : Nat :=
  match P.threads t with
  | some (req, _) => weight req
  | none => 0

/-- The weight of all that is held. -/
def pledged (P : Pool M Req α) : Nat := ∑ t ∈ P.holders holds, P.weigh weight t

@[simp] theorem pledged_start (s : σ) :
    (start s : Pool M Req α).pledged holds weight = 0 := by
  simp [pledged, holders]

variable {holds weight} {P : Pool M Req α} {t : Nat} {req : Req}

theorem mem_log_of_ownPast {log : List (Event M)} (spoke : ownPast log t ≠ []) :
    t ∈ log.map Event.thread := by
  rw [ownPast, ne_eq, List.map_eq_nil_iff, List.filter_eq_nil_iff] at spoke
  push Not at spoke
  obtain ⟨e, member, own⟩ := spoke
  exact List.mem_map.mpr ⟨e, member, by simpa using own⟩

/-- A request that holds nothing at its start holds when its calls say so. -/
theorem mem_holders (nothing : ∀ req, holds req [] = false) :
    t ∈ P.holders holds ↔
      ∃ req p, P.threads t = some (req, p) ∧ holds req (ownPast P.log t) = true := by
  rw [holders, Finset.mem_filter, List.mem_toFinset, holding]
  constructor
  · rintro ⟨-, held⟩
    split at held
    · rename_i req p at_t
      exact ⟨req, p, at_t, held⟩
    · cases held
  · rintro ⟨req, p, at_t, held⟩
    refine ⟨mem_log_of_ownPast ?_, ?_⟩
    · intro silent
      rw [silent, nothing] at held
      cases held
    · rw [at_t]
      exact held

theorem not_mem_holders (nothing : ∀ req, holds req [] = false) {p : Prog M α}
    (at_t : P.threads t = some (req, p)) (idle : holds req (ownPast P.log t) = false) :
    t ∉ P.holders holds := by
  intro member
  obtain ⟨req', p', at_t', held⟩ := (mem_holders nothing).mp member
  rw [at_t] at at_t'
  cases at_t'
  rw [idle] at held
  cases held

/-- A request that arrives holds nothing. -/
theorem pledged_spawn (nothing : ∀ req, holds req [] = false) (free : P.threads t = none)
    (silent : ownPast P.log t = []) (p : Prog M α) :
    (P.spawn t req p).pledged holds weight = P.pledged holds weight := by
  have same : (P.spawn t req p).holders holds = P.holders holds := by
    ext u
    rw [mem_holders nothing, mem_holders nothing, spawn_log, spawn_threads]
    by_cases own : u = t
    · subst own
      simp [free, silent, nothing]
    · rw [if_neg own]
  rw [pledged, pledged, same]
  refine Finset.sum_congr rfl ?_
  intro u member
  obtain ⟨req', p', at_u, -⟩ := (mem_holders nothing).mp member
  have other : u ≠ t := by
    intro own
    rw [own, free] at at_u
    cases at_u
  rw [weigh, weigh, spawn_threads, if_neg other]

theorem weigh_exec {op : M.Op} {next : M.Res op → Prog M α}
    (pending : P.threads t = some (req, .call op next)) (u : Nat) :
    (P.exec t req op next).weigh weight u = P.weigh weight u := by
  unfold weigh
  rw [exec_threads]
  by_cases own : u = t
  · subst own
    rw [if_pos rfl, pending]
  · rw [if_neg own]

variable (weight) in
/-- The accounting of one call: what the request held before it is given back, what it holds after
    it is added. -/
theorem pledged_exec (nothing : ∀ req, holds req [] = false) {op : M.Op}
    {next : M.Res op → Prog M α} (pending : P.threads t = some (req, .call op next)) :
    (P.exec t req op next).pledged holds weight +
        (if holds req (ownPast P.log t) = true then weight req else 0) =
      P.pledged holds weight +
        (if holds req (⟨op, (M.exec op P.state).1⟩ :: ownPast P.log t) = true then weight req
          else 0) := by
  have own : ownPast (P.exec t req op next).log t =
      ⟨op, (M.exec op P.state).1⟩ :: ownPast P.log t := by
    rw [exec_log, ownPast_cons, if_pos rfl]
    rfl
  have others : ∀ u, u ≠ t → (u ∈ (P.exec t req op next).holders holds ↔ u ∈ P.holders holds) := by
    intro u other
    rw [mem_holders nothing, mem_holders nothing, exec_threads, if_neg other, exec_log,
      ownPast_cons, if_neg (Ne.symm other)]
  -- Both sums, without the thread that made the call.
  have rest : ((P.exec t req op next).holders holds).erase t = (P.holders holds).erase t := by
    ext u
    rw [Finset.mem_erase, Finset.mem_erase]
    exact and_congr_right (others u)
  have before : P.pledged holds weight =
      ∑ u ∈ (P.holders holds).erase t, P.weigh weight u +
        (if holds req (ownPast P.log t) = true then weight req else 0) := by
    by_cases held : holds req (ownPast P.log t) = true
    · have member : t ∈ P.holders holds := (mem_holders nothing).mpr ⟨req, _, pending, held⟩
      rw [if_pos held, pledged, ← Finset.sum_erase_add _ _ member, weigh, pending]
    · have idle := not_mem_holders nothing pending (by simpa using held)
      rw [if_neg held, Finset.erase_eq_of_notMem idle, pledged, Nat.add_zero]
  have after : (P.exec t req op next).pledged holds weight =
      ∑ u ∈ (P.holders holds).erase t, P.weigh weight u +
        (if holds req (⟨op, (M.exec op P.state).1⟩ :: ownPast P.log t) = true then weight req
          else 0) := by
    have at_t : (P.exec t req op next).threads t = some (req, next (M.exec op P.state).1) := by
      rw [exec_threads, if_pos rfl]
    rw [pledged, Finset.sum_congr rfl (fun u _ => weigh_exec pending u)]
    by_cases held : holds req (⟨op, (M.exec op P.state).1⟩ :: ownPast P.log t) = true
    · have member : t ∈ (P.exec t req op next).holders holds :=
        (mem_holders nothing).mpr ⟨req, _, at_t, by rw [own]; exact held⟩
      rw [if_pos held, ← Finset.sum_erase_add _ _ member, rest, weigh, pending]
    · have idle := not_mem_holders nothing at_t (by rw [own]; simpa using held)
      rw [if_neg held, ← rest, Finset.erase_eq_of_notMem idle, Nat.add_zero]
  omega

end Pool

end Parler.Lib
