import Mathlib.Logic.Function.Basic
import Mathlib.Logic.Relation

/-!
# Programs over atomic calls, run alone or interleaved

A `Machine` is a set of atomic calls on a shared state. A program of the
machine is a tree of calls: it names the next call and continues with its
result. The same program has two meanings. `Prog.run` executes it without
interruption. A `Pool` holds any number of programs in flight, each started by a
request, and executes one call of one of them at a time, so that the programs
interleave at the grain of single calls; the pool logs every call with the
state it found, and the log of a pool is therefore the history of its run.
-/

namespace Parler.Lib

/-- Atomic calls on a state: what each returns and does, and when it may run
    (a call that takes a lock is not enabled while the lock is held). -/
structure Machine (σ : Type) where
  Op : Type
  Res : Op → Type
  exec : (op : Op) → σ → Res op × σ
  enabled : Op → σ → Prop

variable {σ Req α β γ : Type} {M : Machine σ}

/-- A program: a value, or a call and what to do with its result. -/
inductive Prog (M : Machine σ) (α : Type) : Type where
  | ret (value : α)
  | call (op : M.Op) (next : M.Res op → Prog M α)

namespace Prog

def bind : Prog M α → (α → Prog M β) → Prog M β
  | .ret value, f => f value
  | .call op next, f => .call op (fun result => (next result).bind f)

instance : Monad (Prog M) where
  pure := .ret
  bind := bind

theorem bind_assoc (p : Prog M α) (f : α → Prog M β) (g : β → Prog M γ) :
    (p.bind f).bind g = p.bind (fun a => (f a).bind g) := by
  induction p with
  | ret value => rfl
  | call op next ih =>
    simp only [bind]
    congr 1
    funext result
    exact ih result

/-- The program that makes one call and returns its result. -/
def perform (op : M.Op) : Prog M (M.Res op) := .call op .ret

@[simp] theorem pure_eq (value : α) : (pure value : Prog M α) = .ret value := rfl

@[simp] theorem ret_bind (value : α) (f : α → Prog M β) : (Prog.ret value >>= f) = f value := rfl

@[simp] theorem call_bind (op : M.Op) (next : M.Res op → Prog M α) (f : α → Prog M β) :
    (Prog.call op next >>= f) = .call op (fun result => next result >>= f) := rfl

@[simp] theorem perform_bind (op : M.Op) (f : M.Res op → Prog M β) :
    (perform op >>= f) = .call op f := rfl

/-- The uninterrupted execution of a program. -/
def run : Prog M α → σ → α × σ
  | .ret value, s => (value, s)
  | .call op next, s => (next (M.exec op s).1).run (M.exec op s).2

@[simp] theorem run_ret (value : α) (s : σ) : (Prog.ret value : Prog M α).run s = (value, s) := rfl

@[simp] theorem run_call (op : M.Op) (next : M.Res op → Prog M α) (s : σ) :
    (Prog.call op next).run s = (next (M.exec op s).1).run (M.exec op s).2 := rfl

theorem run_bind (p : Prog M α) (f : α → Prog M β) (s : σ) :
    (p.bind f).run s = (f (p.run s).1).run (p.run s).2 := by
  induction p generalizing s with
  | ret value => rfl
  | call op next ih => exact ih (M.exec op s).1 (M.exec op s).2

end Prog

/-- One executed call: the request that made it and the state it found. -/
structure Event (M : Machine σ) where
  thread : Nat
  op : M.Op
  before : σ

namespace Event

def result (e : Event M) : M.Res e.op := (M.exec e.op e.before).1

def after (e : Event M) : σ := (M.exec e.op e.before).2

end Event

/-- The newest entry of a log with a property. -/
theorem exists_newest {p : α → Prop} {log : List α} (some : ∃ x ∈ log, p x) :
    ∃ newer x older, log = newer ++ x :: older ∧ p x ∧ ∀ y ∈ newer, ¬ p y := by
  induction log with
  | nil => simp at some
  | cons y log ih =>
    by_cases holds : p y
    · exact ⟨[], y, log, rfl, holds, by simp⟩
    · have rest : ∃ x ∈ log, p x := by simpa [holds] using some
      obtain ⟨newer, x, older, rfl, found, none⟩ := ih rest
      exact ⟨y :: newer, x, older, rfl, found, by simpa [holds] using none⟩

/-- Requests in flight over one shared state. A request that finished stays
    in the pool with its reply. The log is newest first. -/
structure Pool (M : Machine σ) (Req α : Type) where
  state : σ
  threads : Nat → Option (Req × Prog M α)
  log : List (Event M)

namespace Pool

/-- The pool before any request. -/
def start (s : σ) : Pool M Req α := ⟨s, fun _ => none, []⟩

def spawn (P : Pool M Req α) (t : Nat) (req : Req) (p : Prog M α) : Pool M Req α :=
  { P with threads := Function.update P.threads t (some (req, p)) }

/-- Thread `t` executes its pending call `op`. -/
def exec (P : Pool M Req α) (t : Nat) (req : Req) (op : M.Op) (next : M.Res op → Prog M α) :
    Pool M Req α where
  state := (M.exec op P.state).2
  threads := Function.update P.threads t (some (req, next (M.exec op P.state).1))
  log := ⟨t, op, P.state⟩ :: P.log

/-- One step of a pool that serves requests by `serve`: a request arrives, or a
    request in flight executes its pending call, when the schedule `G` lets it. -/
inductive Step (serve : Req → Prog M α) (G : Pool M Req α → Nat → M.Op → Prop) :
    Pool M Req α → Pool M Req α → Prop
  | spawn {P : Pool M Req α} (t : Nat) (req : Req) :
      P.threads t = none → Step serve G P (P.spawn t req (serve req))
  | exec {P : Pool M Req α} (t : Nat) (req : Req) (op : M.Op) (next : M.Res op → Prog M α) :
      P.threads t = some (req, .call op next) → M.enabled op P.state → G P t op →
        Step serve G P (P.exec t req op next)

/-- The schedule that lets every enabled call run. -/
def anySchedule : Pool M Req α → Nat → M.Op → Prop := fun _ _ _ => True

/-- The pools a run can reach from the empty pool over `s`. -/
def Reachable (serve : Req → Prog M α) (G : Pool M Req α → Nat → M.Op → Prop) (s : σ)
    (P : Pool M Req α) : Prop :=
  Relation.ReflTransGen (Step serve G) (start s) P

@[simp] theorem spawn_state (P : Pool M Req α) (t : Nat) (req : Req) (p : Prog M α) :
    (P.spawn t req p).state = P.state := rfl

@[simp] theorem spawn_log (P : Pool M Req α) (t : Nat) (req : Req) (p : Prog M α) :
    (P.spawn t req p).log = P.log := rfl

@[simp] theorem exec_state (P : Pool M Req α) (t : Nat) (req : Req) (op : M.Op)
    (next : M.Res op → Prog M α) : (P.exec t req op next).state = (M.exec op P.state).2 := rfl

@[simp] theorem exec_log (P : Pool M Req α) (t : Nat) (req : Req) (op : M.Op)
    (next : M.Res op → Prog M α) : (P.exec t req op next).log = ⟨t, op, P.state⟩ :: P.log := rfl

@[simp] theorem start_state (s : σ) : (start s : Pool M Req α).state = s := rfl

@[simp] theorem start_log (s : σ) : (start s : Pool M Req α).log = [] := rfl

@[simp] theorem start_threads (s : σ) (t : Nat) : (start s : Pool M Req α).threads t = none := rfl

theorem spawn_threads (P : Pool M Req α) (t : Nat) (req : Req) (p : Prog M α) (u : Nat) :
    (P.spawn t req p).threads u = if u = t then some (req, p) else P.threads u := by
  simp [spawn, Function.update_apply]

theorem exec_threads (P : Pool M Req α) (t : Nat) (req : Req) (op : M.Op)
    (next : M.Res op → Prog M α) (u : Nat) :
    (P.exec t req op next).threads u =
      if u = t then some (req, next (M.exec op P.state).1) else P.threads u := by
  simp [exec, Function.update_apply]

section Rules

variable {serve : Req → Prog M α} {G : Pool M Req α → Nat → M.Op → Prop} {s : σ}
  {P Q : Pool M Req α}

/-- The invariant rule: what holds of the empty pool and survives every step
    holds of every reachable pool. -/
theorem Reachable.invariant {I : Pool M Req α → Prop} (init : I (start s))
    (step : ∀ P Q, I P → Step serve G P Q → I Q) (reach : Reachable serve G s P) : I P := by
  induction reach with
  | refl => exact init
  | tail _ next ih => exact step _ _ ih next

/-- The invariant rule for a step that needs to know that its pool is reachable. -/
theorem Reachable.induct {I : Pool M Req α → Prop} (init : I (start s))
    (step : ∀ P Q, Reachable serve G s P → I P → Step serve G P Q → I Q)
    (reach : Reachable serve G s P) : I P := by
  induction reach with
  | refl => exact init
  | tail before next ih => exact step _ _ before ih next

/-- Every logged call was the pending call of some request in a reachable pool, whose
    log and state are those the call found. -/
theorem Reachable.event {newer older : List (Event M)} {e : Event M}
    (reach : Reachable serve G s P) (split : P.log = newer ++ e :: older) :
    ∃ (P' : Pool M Req α) (req : Req) (next : M.Res e.op → Prog M α),
      Reachable serve G s P' ∧ P'.log = older ∧ P'.state = e.before ∧
      P'.threads e.thread = some (req, .call e.op next) ∧ M.enabled e.op P'.state ∧
      G P' e.thread e.op := by
  induction reach generalizing newer with
  | refl => simp at split
  | tail before step ih =>
    cases step with
    | spawn t req free => exact ih split
    | exec t req op next pending enabled allowed =>
      rw [exec_log] at split
      rcases List.append_eq_cons_iff.mp split.symm with ⟨rfl, same⟩ | ⟨rest, rfl, same⟩
      · cases same
        exact ⟨_, req, next, before, rfl, rfl, pending, enabled, allowed⟩
      · exact ih same

/-- Every earlier log of a run is the log of a reachable pool. -/
theorem Reachable.rewind {newer older : List (Event M)} (reach : Reachable serve G s P)
    (split : P.log = newer ++ older) :
    ∃ P' : Pool M Req α, Reachable serve G s P' ∧ P'.log = older := by
  rcases List.eq_nil_or_concat newer with rfl | ⟨newer, e, rfl⟩
  · exact ⟨P, reach, split⟩
  · rw [List.concat_append] at split
    obtain ⟨P', _, _, reach', log, _⟩ := reach.event split
    exact ⟨P', reach', log⟩

/-- A run all of whose calls another schedule lets run is a run of that schedule. -/
theorem Reachable.restrict {G' : Pool M Req α → Nat → M.Op → Prop}
    (reach : Reachable serve G s P)
    (allowed : ∀ (P' : Pool M Req α) (t : Nat) (op : M.Op) (newer : List (Event M)),
      P.log = newer ++ ⟨t, op, P'.state⟩ :: P'.log → G' P' t op) : Reachable serve G' s P := by
  induction reach with
  | refl => exact Relation.ReflTransGen.refl
  | tail before step ih =>
    cases step with
    | spawn t req free => exact Relation.ReflTransGen.tail (ih allowed) (Step.spawn t req free)
    | exec t req op next pending enabled _ =>
      refine Relation.ReflTransGen.tail (ih ?_)
        (Step.exec t req op next pending enabled (allowed _ t op [] rfl))
      intro P' u op' newer split
      exact allowed P' u op' (_ :: newer) (by rw [exec_log, split]; rfl)

/-- The history rule: what holds of the empty log and the start state, and survives
    appending a call to the log, holds at every point of a run's history. -/
theorem Reachable.history {I : List (Event M) → σ → Prop} (init : I [] s)
    (step : ∀ (log : List (Event M)) (e : Event M), I log e.before → I (e :: log) e.after)
    (reach : Reachable serve G s P) :
    I P.log P.state ∧
      ∀ newer e older, P.log = newer ++ e :: older → I older e.before := by
  have holds : ∀ P, Reachable serve G s P → I P.log P.state := by
    intro P reach
    refine Reachable.invariant (I := fun P => I P.log P.state) init ?_ reach
    intro P Q now next
    cases next with
    | spawn t req free => exact now
    | exec t req op next pending enabled allowed => exact step P.log ⟨t, op, P.state⟩ now
  refine ⟨holds P reach, ?_⟩
  intro newer e older split
  obtain ⟨P', req, next, reach', rfl, state, -⟩ := reach.event split
  exact state ▸ holds P' reach'

/-- The rule for a stretch of history: what holds after a logged call and survives
    every later one holds now. -/
theorem Reachable.since {J : σ → Prop} {newer older : List (Event M)} {e : Event M}
    (reach : Reachable serve G s P) (split : P.log = newer ++ e :: older) (now : J e.after)
    (keeps : ∀ e ∈ newer, J e.before → J e.after) : J P.state := by
  induction reach generalizing newer with
  | refl => simp at split
  | tail before step ih =>
    cases step with
    | spawn t req free => exact ih split keeps
    | exec t req op next pending enabled allowed =>
      rw [exec_log] at split
      rcases List.append_eq_cons_iff.mp split.symm with ⟨rfl, same⟩ | ⟨rest, rfl, same⟩
      · cases same
        exact now
      · refine keeps ⟨t, op, _⟩ List.mem_cons_self (ih same ?_)
        exact fun e member => keeps e (List.mem_cons_of_mem _ member)

/-- The counting rule: over a stretch of history a counter that counts certain calls, and that only
    the oldest call of the stretch may set back, bounds their number. -/
theorem Reachable.counted {c : σ → Nat} {grants : Event M → Bool} {keeps : Event M → Prop}
    (begins : ∀ e, grants e = true → 0 < c e.after)
    (counts : ∀ e, keeps e → c e.before + (if grants e = true then 1 else 0) ≤ c e.after)
    (reach : Reachable serve G s P) {window older : List (Event M)} (split : P.log = window ++ older)
    (steady : ∀ e ∈ window.dropLast, keeps e) : window.countP grants ≤ c P.state := by
  induction reach generalizing window with
  | refl =>
    obtain ⟨rfl, -⟩ := List.append_eq_nil_iff.mp split.symm
    exact Nat.zero_le _
  | tail before step ih =>
    cases step with
    | spawn t req free => exact ih split steady
    | exec t req op next pending enabled allowed =>
      cases window with
      | nil => exact Nat.zero_le _
      | cons e window =>
        rw [exec_log, List.cons_append, List.cons.injEq] at split
        obtain ⟨rfl, split⟩ := split
        rw [List.countP_cons]
        cases window with
        | nil =>
          split
          · rename_i granted
            exact begins _ granted
          · exact Nat.zero_le _
        | cons e' window =>
          rw [List.dropLast_cons_cons] at steady
          have rest := ih split (fun e member => steady e (List.mem_cons_of_mem _ member))
          exact Nat.le_trans (Nat.add_le_add_right rest _) (counts _ (steady _ List.mem_cons_self))

end Rules

/-! ## Executable schedules -/

/-- One scheduling decision: start a request, or let a thread make its next call. -/
inductive Action (Req : Type) where
  | spawn (t : Nat) (req : Req)
  | step (t : Nat)

section Play

variable [∀ op s, Decidable (M.enabled op s)] (serve : Req → Prog M α)

/-- Carry out a decision; one that is not possible is skipped. -/
def act (P : Pool M Req α) : Action Req → Pool M Req α
  | .spawn t req =>
      match P.threads t with
      | none => P.spawn t req (serve req)
      | some _ => P
  | .step t =>
      match P.threads t with
      | some (req, .call op next) => if M.enabled op P.state then P.exec t req op next else P
      | _ => P

def play (P : Pool M Req α) (actions : List (Action Req)) : Pool M Req α :=
  actions.foldl (act serve) P

theorem act_step (P : Pool M Req α) (a : Action Req) :
    P.act serve a = P ∨ Step serve anySchedule P (P.act serve a) := by
  cases a with
  | spawn t req =>
    cases at_t : P.threads t with
    | none => exact Or.inr (by simpa [act, at_t] using Step.spawn t req at_t)
    | some _ => exact Or.inl (by simp [act, at_t])
  | step t =>
    cases at_t : P.threads t with
    | none => exact Or.inl (by simp [act, at_t])
    | some thread =>
      obtain ⟨req, p⟩ := thread
      cases p with
      | ret value => exact Or.inl (by simp [act, at_t])
      | call op next =>
        by_cases enabled : M.enabled op P.state
        · exact Or.inr (by
            simpa [act, at_t, enabled] using Step.exec t req op next at_t enabled trivial)
        · exact Or.inl (by simp [act, at_t, enabled])

/-- Whatever is played is a run. -/
theorem play_reachable (s : σ) (actions : List (Action Req)) :
    Reachable serve anySchedule s ((start s).play serve actions) := by
  have general : ∀ (P : Pool M Req α), Reachable serve anySchedule s P →
      Reachable serve anySchedule s (P.play serve actions) := by
    induction actions with
    | nil => exact fun P reach => reach
    | cons a actions ih =>
      intro P reach
      refine ih (P.act serve a) ?_
      rcases act_step serve P a with same | step
      · rw [same]
        exact reach
      · exact Relation.ReflTransGen.tail reach step
  exact general (start s) Relation.ReflTransGen.refl

/-- The check passes before every call that the decisions let run. -/
def checks (check : Pool M Req α → Nat → M.Op → Bool) (P : Pool M Req α) :
    List (Action Req) → Bool
  | [] => true
  | a :: actions =>
      (match a with
        | .spawn .. => true
        | .step t =>
            match P.threads t with
            | some (_, .call op _) => check P t op
            | _ => true) &&
      checks check (P.act serve a) actions

/-- What is played with its checks passed is a run of the schedule that the check decides. -/
theorem play_reachable_of_checks {G : Pool M Req α → Nat → M.Op → Prop}
    {check : Pool M Req α → Nat → M.Op → Bool} (sound : ∀ P t op, check P t op = true → G P t op)
    {s : σ} {P : Pool M Req α} (reach : Reachable serve G s P) {actions : List (Action Req)}
    (passed : P.checks serve check actions = true) :
    Reachable serve G s (P.play serve actions) := by
  induction actions generalizing P with
  | nil => exact reach
  | cons a actions ih =>
    obtain ⟨now, later⟩ := Bool.and_eq_true_iff.mp passed
    refine ih ?_ later
    cases a with
    | spawn t req =>
      cases at_t : P.threads t with
      | none =>
        have started : Reachable serve G s (P.spawn t req (serve req)) :=
          reach.tail (Step.spawn t req at_t)
        simpa [act, at_t] using started
      | some _ => simpa [act, at_t] using reach
    | step t =>
      cases at_t : P.threads t with
      | none => simpa [act, at_t] using reach
      | some thread =>
        obtain ⟨req, p⟩ := thread
        cases p with
        | ret value => simpa [act, at_t] using reach
        | call op next =>
          simp only [at_t] at now
          by_cases enabled : M.enabled op P.state
          · have made : Reachable serve G s (P.exec t req op next) :=
              reach.tail (Step.exec t req op next at_t enabled (sound P t op now))
            simpa [act, at_t, enabled] using made
          · simpa [act, at_t, enabled] using reach

/-- The request of every thread was started by a decision. -/
theorem play_spawned (P : Pool M Req α) (actions : List (Action Req)) {t : Nat} {req : Req}
    {p : Prog M α} (at_t : (P.play serve actions).threads t = some (req, p)) :
    (∃ p', P.threads t = some (req, p')) ∨ .spawn t req ∈ actions := by
  induction actions generalizing P with
  | nil => exact Or.inl ⟨p, at_t⟩
  | cons a actions ih =>
    rcases ih (P.act serve a) at_t with ⟨p', before⟩ | later
    · cases a with
      | spawn u req' =>
        unfold act at before
        dsimp only at before
        split at before
        · rw [spawn_threads] at before
          split at before
          · rename_i same
            cases before
            exact Or.inr (same ▸ List.mem_cons_self)
          · exact Or.inl ⟨p', before⟩
        · exact Or.inl ⟨p', before⟩
      | step u =>
        unfold act at before
        dsimp only at before
        split at before
        · rename_i req' op next at_u
          split at before
          · rw [exec_threads] at before
            split at before
            · rename_i same
              cases before
              exact Or.inl ⟨_, same ▸ at_u⟩
            · exact Or.inl ⟨p', before⟩
          · exact Or.inl ⟨p', before⟩
        · exact Or.inl ⟨p', before⟩
    · exact Or.inr (List.mem_cons_of_mem _ later)

end Play

end Pool

end Parler.Lib
