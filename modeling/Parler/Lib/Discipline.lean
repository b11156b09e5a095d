import Parler.Lib.Prog

/-!
# Disciplined programs

What a program does with the results it got, whatever they were. `Prog.Calls`
says which calls a program makes at all; `Prog.Follows` says which call it makes
after which own calls and results. Both are statements about the program text;
the rule of this module carries a discipline that every served program follows to
every run: each executed call stands in the discipline to the calls its
own thread executed before, however the threads interleaved.
-/

namespace Parler.Lib

variable {σ Req α β : Type} {M : Machine σ}

namespace Prog

/-- Every call of the program satisfies `Q`. -/
def Calls (Q : M.Op → Prop) : Prog M α → Prop
  | .ret _ => True
  | .call op next => Q op ∧ ∀ r, (next r).Calls Q

@[simp] theorem calls_ret (Q : M.Op → Prop) (value : α) : (Prog.ret value : Prog M α).Calls Q :=
  trivial

@[simp] theorem calls_call (Q : M.Op → Prop) (op : M.Op) (next : M.Res op → Prog M α) :
    (Prog.call op next).Calls Q ↔ Q op ∧ ∀ r, (next r).Calls Q := Iff.rfl

theorem Calls.mono {Q R : M.Op → Prop} {p : Prog M α} (calls : p.Calls Q)
    (weaker : ∀ op, Q op → R op) : p.Calls R := by
  induction p with
  | ret value => trivial
  | call op next ih => exact ⟨weaker op calls.1, fun r => ih r (calls.2 r)⟩

theorem Calls.bind {Q : M.Op → Prop} {p : Prog M α} {f : α → Prog M β} (first : p.Calls Q)
    (rest : ∀ a, (f a).Calls Q) : (p.bind f).Calls Q := by
  induction p with
  | ret value => exact rest value
  | call op next ih => exact ⟨first.1, fun r => ih r (first.2 r)⟩

/-- A program whose calls keep a relation keeps it as a whole. -/
theorem Calls.run_related {R : σ → σ → Prop} {Q : M.Op → Prop} (refl : ∀ s, R s s)
    (trans : ∀ {s s' s''}, R s s' → R s' s'' → R s s'') (keeps : ∀ op s, Q op → R s (M.exec op s).2)
    {p : Prog M α} (calls : p.Calls Q) (s : σ) : R s (p.run s).2 := by
  induction p generalizing s with
  | ret value => exact refl s
  | call op next ih => exact trans (keeps op s calls.1) (ih _ (calls.2 _) _)

end Prog

/-- A call with the result it returned. -/
abbrev Done (M : Machine σ) := (op : M.Op) × M.Res op

namespace Prog

/-- Every call of the program stands in `C` to the program's own past, newest first. -/
def Follows (C : List (Done M) → M.Op → Prop) : Prog M α → List (Done M) → Prop
  | .ret _, _ => True
  | .call op next, past => C past op ∧ ∀ r, (next r).Follows C (⟨op, r⟩ :: past)

/-- A program follows a discipline that none of its calls is subject to. -/
theorem Calls.follows {Q : M.Op → Prop} {C : List (Done M) → M.Op → Prop}
    (free : ∀ past op, Q op → C past op) {p : Prog M α} (calls : p.Calls Q)
    (past : List (Done M)) : p.Follows C past := by
  induction p generalizing past with
  | ret value => trivial
  | call op next ih => exact ⟨free past op calls.1, fun r => ih r (calls.2 r) _⟩

theorem Follows.mono {C D : List (Done M) → M.Op → Prop} (weaker : ∀ past op, C past op → D past op)
    {p : Prog M α} {past : List (Done M)} (follows : p.Follows C past) : p.Follows D past := by
  induction p generalizing past with
  | ret value => trivial
  | call op next ih => exact ⟨weaker past op follows.1, fun r => ih r (follows.2 r)⟩

theorem Follows.calls {C : List (Done M) → M.Op → Prop} {Q : M.Op → Prop}
    (weaker : ∀ past op, C past op → Q op) {p : Prog M α} {past : List (Done M)}
    (follows : p.Follows C past) : p.Calls Q := by
  induction p generalizing past with
  | ret value => trivial
  | call op next ih => exact ⟨weaker past op follows.1, fun r => ih r (follows.2 r)⟩

@[simp] theorem follows_ret (C : List (Done M) → M.Op → Prop) (value : α) (past : List (Done M)) :
    (Prog.ret value : Prog M α).Follows C past := trivial

@[simp] theorem follows_call (C : List (Done M) → M.Op → Prop) (op : M.Op)
    (next : M.Res op → Prog M α) (past : List (Done M)) :
    (Prog.call op next).Follows C past ↔ C past op ∧ ∀ r, (next r).Follows C (⟨op, r⟩ :: past) :=
  Iff.rfl

/-- A program's end may rely on what its beginning establishes about the own past. -/
def Ends (I : α → List (Done M) → Prop) : Prog M α → List (Done M) → Prop
  | .ret value, past => I value past
  | .call op next, past => ∀ r, (next r).Ends I (⟨op, r⟩ :: past)

theorem Follows.bind {C : List (Done M) → M.Op → Prop} {I : α → List (Done M) → Prop}
    {p : Prog M α} {f : α → Prog M β} {past : List (Done M)} (first : p.Follows C past)
    (ends : p.Ends I past) (rest : ∀ a past, I a past → (f a).Follows C past) :
    (p.bind f).Follows C past := by
  induction p generalizing past with
  | ret value => exact rest value past ends
  | call op next ih => exact ⟨first.1, fun r => ih r (first.2 r) (ends r)⟩

theorem Ends.bind {I : β → List (Done M) → Prop} {J : α → List (Done M) → Prop} {p : Prog M α}
    {f : α → Prog M β} {past : List (Done M)} (first : p.Ends J past)
    (rest : ∀ a past, J a past → (f a).Ends I past) : (p.bind f).Ends I past := by
  induction p generalizing past with
  | ret value => exact rest value past first
  | call op next ih => exact fun r => ih r (first r)

/-- What the calls of a program keep, holds at the end. -/
theorem Calls.ends {Q : M.Op → Prop} {I : List (Done M) → Prop} {J : α → List (Done M) → Prop}
    (keeps : ∀ op r past, Q op → I past → I (⟨op, r⟩ :: past))
    (ends : ∀ value past, I past → J value past) {p : Prog M α} (calls : p.Calls Q)
    {past : List (Done M)} (now : I past) : p.Ends J past := by
  induction p generalizing past with
  | ret value => exact ends value past now
  | call op next ih => exact fun r => ih r (calls.2 r) (keeps op r past calls.1 now)

theorem calls_true (p : Prog M α) : p.Calls (fun _ => True) := by
  induction p with
  | ret value => trivial
  | call op next ih => exact ⟨trivial, ih⟩

/-- What a longer past keeps, holds at the end. -/
theorem Ends.of_grows {I : List (Done M) → Prop} {J : α → List (Done M) → Prop}
    (grows : ∀ d past, I past → I (d :: past)) (ends : ∀ value past, I past → J value past)
    (p : Prog M α) {past : List (Done M)} (now : I past) : p.Ends J past :=
  p.calls_true.ends (fun op r past _ => grows ⟨op, r⟩ past) ends now

/-- A program follows a discipline that a longer past keeps to. -/
theorem Follows.of_grows {C : List (Done M) → M.Op → Prop} {I : List (Done M) → Prop}
    (grows : ∀ d past, I past → I (d :: past)) (free : ∀ past op, I past → C past op)
    (p : Prog M α) {past : List (Done M)} (now : I past) : p.Follows C past := by
  induction p generalizing past with
  | ret value => trivial
  | call op next ih => exact ⟨free past op now, fun r => ih r (grows _ past now)⟩

/-- Every call stands in `C` to the program's own past, and the program ends in `I`. -/
def Upholds (C : List (Done M) → M.Op → Prop) (I : α → List (Done M) → Prop) :
    Prog M α → List (Done M) → Prop
  | .ret value, past => I value past
  | .call op next, past => C past op ∧ ∀ r, (next r).Upholds C I (⟨op, r⟩ :: past)

theorem Upholds.bind {C : List (Done M) → M.Op → Prop} {I : β → List (Done M) → Prop}
    {J : α → List (Done M) → Prop} {p : Prog M α} {f : α → Prog M β} {past : List (Done M)}
    (first : p.Upholds C J past) (rest : ∀ a past, J a past → (f a).Upholds C I past) :
    (p >>= f).Upholds C I past := by
  induction p generalizing past with
  | ret value => exact rest value past first
  | call op next ih => exact ⟨first.1, fun r => ih r (first.2 r)⟩

theorem Upholds.follows {C : List (Done M) → M.Op → Prop} {I : α → List (Done M) → Prop}
    {p : Prog M α} {past : List (Done M)} (upholds : p.Upholds C I past) : p.Follows C past := by
  induction p generalizing past with
  | ret value => trivial
  | call op next ih => exact ⟨upholds.1, fun r => ih r (upholds.2 r)⟩

theorem Upholds.mono {C D : List (Done M) → M.Op → Prop} {I J : α → List (Done M) → Prop}
    (weaker : ∀ past op, C past op → D past op) (ends : ∀ value past, I value past → J value past)
    {p : Prog M α} {past : List (Done M)} (upholds : p.Upholds C I past) : p.Upholds D J past := by
  induction p generalizing past with
  | ret value => exact ends value past upholds
  | call op next ih => exact ⟨weaker past op upholds.1, fun r => ih r (upholds.2 r)⟩

/-- What a program upholds at every moment, it upholds now. -/
theorem Upholds.now {J : List (Done M) → Prop} {I : α → List (Done M) → Prop}
    (ends : ∀ value past, I value past → J past) {p : Prog M α} {past : List (Done M)}
    (upholds : p.Upholds (fun past _ => J past) I past) : J past := by
  cases p with
  | ret value => exact ends value past upholds
  | call op next => exact upholds.1

/-- A program upholds what its calls keep. -/
theorem Calls.upholds {Q : M.Op → Prop} {C : List (Done M) → M.Op → Prop} {J : List (Done M) → Prop}
    {I : α → List (Done M) → Prop} (free : ∀ past op, Q op → J past → C past op)
    (keeps : ∀ op r past, Q op → J past → J (⟨op, r⟩ :: past))
    (ends : ∀ value past, J past → I value past) {p : Prog M α} (calls : p.Calls Q)
    {past : List (Done M)} (now : J past) : p.Upholds C I past := by
  induction p generalizing past with
  | ret value => exact ends value past now
  | call op next ih =>
    exact ⟨free past op calls.1 now, fun r => ih r (calls.2 r) (keeps op r past calls.1 now)⟩

/-- What follows a program may be subject to nothing that the program does. -/
theorem Follows.bind_free {C : List (Done M) → M.Op → Prop} {p : Prog M α} {f : α → Prog M β}
    {past : List (Done M)} (first : p.Follows C past) (rest : ∀ a past, (f a).Follows C past) :
    (p.bind f).Follows C past := by
  induction p generalizing past with
  | ret value => exact rest value past
  | call op next ih => exact ⟨first.1, fun r => ih r (first.2 r)⟩

/-- One execution of a program, whatever its calls returned; oldest call first. -/
inductive Path : Prog M α → List (Done M) → α → Prop
  | ret (value : α) : Path (.ret value) [] value
  | call (op : M.Op) (r : M.Res op) {next : M.Res op → Prog M α} {calls : List (Done M)} {value : α} :
      Path (next r) calls value → Path (.call op next) (⟨op, r⟩ :: calls) value

@[simp] theorem path_ret {value value' : α} {calls : List (Done M)} :
    (Prog.ret value : Prog M α).Path calls value' ↔ calls = [] ∧ value' = value := by
  constructor
  · intro path
    cases path
    exact ⟨rfl, rfl⟩
  · rintro ⟨rfl, rfl⟩
    exact .ret value'

@[simp] theorem path_call {op : M.Op} {next : M.Res op → Prog M α} {calls : List (Done M)} {value : α} :
    (Prog.call op next).Path calls value ↔
      ∃ r rest, calls = ⟨op, r⟩ :: rest ∧ (next r).Path rest value := by
  constructor
  · intro path
    cases path with
    | call op r rest => exact ⟨r, _, rfl, rest⟩
  · rintro ⟨r, rest, rfl, path⟩
    exact .call op r path

/-- The uninterrupted execution is one. -/
theorem exists_path (p : Prog M α) (s : σ) : ∃ calls, p.Path calls (p.run s).1 := by
  induction p generalizing s with
  | ret value => exact ⟨[], .ret value⟩
  | call op next ih =>
    obtain ⟨calls, path⟩ := ih (M.exec op s).1 (M.exec op s).2
    exact ⟨_, .call op (M.exec op s).1 path⟩

/-- An execution of a sequence is an execution of its first half and one of its second. -/
theorem Path.of_bind {p : Prog M α} {f : α → Prog M β} {calls : List (Done M)} {value : β}
    (path : (p.bind f).Path calls value) :
    ∃ front middle back, calls = front ++ back ∧ p.Path front middle ∧ (f middle).Path back value := by
  induction p generalizing calls with
  | ret middle => exact ⟨[], middle, calls, rfl, .ret middle, path⟩
  | call op next ih =>
    obtain ⟨r, rest, rfl, later⟩ := path_call.mp path
    obtain ⟨front, middle, back, rfl, first, second⟩ := ih r later
    exact ⟨⟨op, r⟩ :: front, middle, back, rfl, .call op r first, second⟩

end Prog

namespace Pool

/-- The calls a thread has executed, newest first, with their results. -/
def ownPast (log : List (Event M)) (t : Nat) : List (Done M) :=
  (log.filter (fun e => e.thread = t)).map (fun e => ⟨e.op, e.result⟩)

theorem ownPast_cons (e : Event M) (log : List (Event M)) (t : Nat) :
    ownPast (e :: log) t =
      if e.thread = t then ⟨e.op, e.result⟩ :: ownPast log t else ownPast log t := by
  unfold ownPast
  by_cases own : e.thread = t <;> simp [own]

variable {serve : Req → Prog M α} {G : Pool M Req α → Nat → M.Op → Prop} {P : Pool M Req α}
  {s : σ}

/-- The own-past rule: what relates every served program to an empty past, and each
    continuation to the past with the call made, relates every request in flight to
    the calls its own thread executed. -/
theorem Reachable.own {K : Req → Prog M α → List (Done M) → Prop}
    (serves : ∀ req, K req (serve req) [])
    (stable : ∀ req op next past r, K req (.call op next) past → K req (next r) (⟨op, r⟩ :: past))
    (reach : Reachable serve G s P) :
    (∀ t, P.threads t = none → ownPast P.log t = []) ∧
      ∀ t req p, P.threads t = some (req, p) → K req p (ownPast P.log t) := by
  refine Reachable.invariant (I := fun P => (∀ t, P.threads t = none → ownPast P.log t = []) ∧
    ∀ t req p, P.threads t = some (req, p) → K req p (ownPast P.log t)) ?_ ?_ reach
  · exact ⟨fun _ _ => rfl, fun _ _ _ at_t => nomatch at_t⟩
  · rintro P Q ⟨fresh, related⟩ step
    cases step with
    | spawn t req free =>
      refine ⟨?_, ?_⟩
      · intro u free'
        rw [spawn_threads] at free'
        split at free'
        · cases free'
        · exact fresh u free'
      · intro u req' p at_u
        rw [spawn_threads] at at_u
        split at at_u
        · rename_i same
          subst same
          cases at_u
          rw [spawn_log, fresh u free]
          exact serves req
        · exact related u req' p at_u
    | exec t req op next pending enabled allowed =>
      refine ⟨?_, ?_⟩
      · intro u free
        rw [exec_threads] at free
        split at free
        · cases free
        · rename_i other
          rw [exec_log, ownPast_cons, if_neg (Ne.symm other)]
          exact fresh u free
      · intro u req' p at_u
        rw [exec_threads] at at_u
        rw [exec_log, ownPast_cons]
        split at at_u
        · rename_i same
          subst same
          cases at_u
          rw [if_pos rfl]
          exact stable req op next _ _ (related u req _ pending)
        · rename_i other
          rw [if_neg (Ne.symm other)]
          exact related u req' p at_u

variable {t : Nat} {req : Req}

/-- The discipline rule: what every served program follows, every request in flight
    follows with respect to its own past. -/
theorem Reachable.follows {C : List (Done M) → M.Op → Prop}
    (serves : ∀ req, (serve req).Follows C []) (reach : Reachable serve G s P) {p : Prog M α}
    (at_t : P.threads t = some (req, p)) : p.Follows C (ownPast P.log t) :=
  (reach.own (K := fun _ p past => p.Follows C past) serves
    (fun _ _ _ _ r follows => follows.2 r)).2 t req p at_t

/-- The ending rule: what every served program ends with, every finished request has
    ended with. -/
theorem Reachable.ends {I : Req → α → List (Done M) → Prop}
    (serves : ∀ req, (serve req).Ends (I req) []) (reach : Reachable serve G s P) {value : α}
    (at_t : P.threads t = some (req, .ret value)) : I req value (ownPast P.log t) :=
  (reach.own (K := fun req p past => p.Ends (I req) past) serves
    (fun _ _ _ _ r ends => ends r)).2 t req _ at_t

/-- The rule for what every served program upholds: every request in flight upholds it with respect
    to its own past. -/
theorem Reachable.upholds {C : Req → List (Done M) → M.Op → Prop}
    {I : Req → α → List (Done M) → Prop} (serves : ∀ req, (serve req).Upholds (C req) (I req) [])
    (reach : Reachable serve G s P) {p : Prog M α} (at_t : P.threads t = some (req, p)) :
    p.Upholds (C req) (I req) (ownPast P.log t) :=
  (reach.own (K := fun req p past => p.Upholds (C req) (I req) past) serves
    (fun _ _ _ _ r upholds => upholds.2 r)).2 t req p at_t

/-- The call rule: the calls in the log are calls that their request may make. -/
theorem Reachable.calls {Q : Req → M.Op → Prop} (serves : ∀ req, (serve req).Calls (Q req))
    (reach : Reachable serve G s P) {p : Prog M α} (at_t : P.threads t = some (req, p))
    {e : Event M} (logged : e ∈ P.log) (own : e.thread = t) : Q req e.op := by
  have related := (reach.own (K := fun req p past => p.Calls (Q req) ∧ ∀ d ∈ past, Q req d.1)
    (fun req => ⟨serves req, by simp⟩) ?_).2 t req p at_t
  · refine related.2 ⟨e.op, e.result⟩ (List.mem_map.mpr ⟨e, ?_, rfl⟩)
    simpa [own] using logged
  · rintro req op next past r ⟨calls, past⟩
    refine ⟨calls.2 r, ?_⟩
    intro d member
    rcases List.mem_cons.mp member with rfl | old
    · exact calls.1
    · exact past d old

/-- A call recorded in a thread's own past stands in the log. -/
theorem ownPast_event {log : List (Event M)} {d : Done M} (recorded : d ∈ ownPast log t) :
    ∃ e ∈ log, e.thread = t ∧ (⟨e.op, e.result⟩ : Done M) = d := by
  obtain ⟨e, member, same⟩ := List.mem_map.mp recorded
  have own := List.mem_filter.mp member
  exact ⟨e, own.1, by simpa using own.2, same⟩

theorem ownPast_append (newer older : List (Event M)) (t : Nat) :
    ownPast (newer ++ older) t = ownPast newer t ++ ownPast older t := by
  simp [ownPast]

/-- A call in a thread's own past stands at a place of the log that splits the past alike. -/
theorem ownPast_split {log : List (Event M)} {later earlier : List (Done M)} {d : Done M}
    (past : ownPast log t = later ++ d :: earlier) :
    ∃ newer e older, log = newer ++ e :: older ∧ e.thread = t ∧ (⟨e.op, e.result⟩ : Done M) = d ∧
      ownPast newer t = later ∧ ownPast older t = earlier := by
  induction log generalizing later with
  | nil => simp [ownPast] at past
  | cons e log ih =>
    rw [ownPast_cons] at past
    by_cases own : e.thread = t
    · rw [if_pos own] at past
      cases later with
      | nil =>
        rw [List.nil_append, List.cons.injEq] at past
        exact ⟨[], e, log, rfl, own, past.1, rfl, past.2⟩
      | cons first later =>
        rw [List.cons_append, List.cons.injEq] at past
        obtain ⟨newer, e', older, rfl, own', same, after, before⟩ := ih past.2
        refine ⟨e :: newer, e', older, rfl, own', same, ?_, before⟩
        rw [ownPast_cons, if_pos own, after, past.1]
    · rw [if_neg own] at past
      obtain ⟨newer, e', older, rfl, own', same, after, before⟩ := ih past
      refine ⟨e :: newer, e', older, rfl, own', same, ?_, before⟩
      rw [ownPast_cons, if_neg own, after]

/-- The history rule of a discipline: every call in the log belongs to a request and stood in the
    discipline of that request to the calls its thread had made. -/
theorem Reachable.followed {C : Req → List (Done M) → M.Op → Prop}
    (serves : ∀ req, (serve req).Follows (C req) []) (reach : Reachable serve G s P)
    {newer older : List (Event M)} {e : Event M} (split : P.log = newer ++ e :: older) :
    ∃ req p, P.threads e.thread = some (req, p) ∧ C req (ownPast older e.thread) e.op := by
  obtain ⟨idle, related⟩ := reach.own
    (K := fun req p past => p.Follows (C req) past ∧
      ∀ later d earlier, past = later ++ d :: earlier → C req earlier d.1)
    (fun req => ⟨serves req, by simp⟩) (by
      intro req op next past r holds
      refine ⟨holds.1.2 r, ?_⟩
      intro later d earlier same
      cases later with
      | nil =>
        cases same
        exact holds.1.1
      | cons first later =>
        rw [List.cons_append, List.cons.injEq] at same
        exact holds.2 later d earlier same.2)
  have past : ownPast P.log e.thread =
      ownPast newer e.thread ++ ⟨e.op, e.result⟩ :: ownPast older e.thread := by
    rw [split, ownPast_append, ownPast_cons, if_pos rfl]
  cases at_t : P.threads e.thread with
  | none =>
    rw [idle e.thread at_t] at past
    simp at past
  | some thread =>
    obtain ⟨req, p⟩ := thread
    exact ⟨req, p, rfl, (related e.thread req p at_t).2 _ _ _ past⟩

/-- The answer of a finished request. -/
def answer (P : Pool M Req α) (t : Nat) : Option (Req × α) :=
  match P.threads t with
  | some (req, .ret value) => some (req, value)
  | _ => none

theorem answer_eq {value : α} (answers : P.answer t = some (req, value)) :
    P.threads t = some (req, .ret value) := by
  unfold answer at answers
  split at answers
  · rename_i at_t
    cases answers
    exact at_t
  · cases answers

end Pool

end Parler.Lib
