import Parler.Lib.Discipline

/-!
# Programs in a dialogue

A program whose calls are questions to its surroundings. Nothing is said about who answers: the
state of the machine is the answers, and any number of programs may be asking at once. What is kept
of a run is the log of the turns, each the call of one program with the answer it got. A program can
also be driven alone, by surroundings that answer from a state of their own.
-/

namespace Parler.Lib

/-- The machine whose state holds the answers. -/
def talk (Op : Type) (Res : Op → Type) : Machine ((op : Op) → Res op) where
  Op := Op
  Res := Res
  exec op answers := (answers op, answers)
  enabled _ _ := True

section Drive

variable {Op τ α β : Type} {Res : Op → Type} (answer : (op : Op) → τ → Res op × τ)

/-- Run a program alone with surroundings that have a state. -/
def drive : Prog (talk Op Res) α → τ → α × τ
  | .ret value, s => (value, s)
  | .call op next, s => drive (next (answer op s).1) (answer op s).2

@[simp] theorem drive_ret (value : α) (s : τ) :
    drive answer (.ret value : Prog (talk Op Res) α) s = (value, s) := rfl

variable {answer} in
theorem drive_call {op : Op} {r : Res op} {s s' : τ} (answers : answer op s = (r, s'))
    (next : Res op → Prog (talk Op Res) α) :
    drive answer (Prog.call (M := talk Op Res) op next) s = drive answer (next r) s' := by
  show drive answer (next (answer op s).1) (answer op s).2 = _
  rw [answers]

theorem drive_bind (p : Prog (talk Op Res) α) (f : α → Prog (talk Op Res) β) (s : τ) :
    drive answer (p >>= f) s = drive answer (f (drive answer p s).1) (drive answer p s).2 := by
  induction p generalizing s with
  | ret value => rfl
  | call op next ih => exact ih (answer op s).1 (answer op s).2

end Drive

section Through

variable {Op Op' τ τ' α : Type} {Res : Op → Type} {Res' : Op' → Type}

/-- A program whose calls are made by programs of another dialogue. -/
def Prog.through (say : (op : Op) → Prog (talk Op' Res') (Res op)) : Prog (talk Op Res) α → Prog (talk Op' Res') α
  | .ret value => .ret value
  | .call op next => say op >>= fun r => (next r).through say

/-- Where the calls are answered as before, so is the program. -/
theorem drive_through {answer : (op : Op) → τ → Res op × τ} {answer' : (op : Op') → τ' → Res' op × τ'}
    {say : (op : Op) → Prog (talk Op' Res') (Res op)} {within : τ → τ'}
    (answered : ∀ op s, drive answer' (say op) (within s) = ((answer op s).1, within (answer op s).2))
    (p : Prog (talk Op Res) α) (s : τ) :
    drive answer' (p.through say) (within s) = ((drive answer p s).1, within (drive answer p s).2) := by
  induction p generalizing s with
  | ret value => rfl
  | call op next ih =>
    rw [Prog.through, drive_bind, answered op s]
    exact ih (answer op s).1 (answer op s).2

end Through

variable {σ : Type} {M : Machine σ}

/-- A call of one program and its answer. -/
structure Turn (M : Machine σ) where
  speaker : Nat
  done : Done M

/-- The turns of one program, newest first. -/
def turnsOf (log : List (Turn M)) (n : Nat) : List (Done M) :=
  (log.filter (fun turn => turn.speaker = n)).map Turn.done

theorem turnsOf_cons (turn : Turn M) (log : List (Turn M)) (n : Nat) :
    turnsOf (turn :: log) n =
      if turn.speaker = n then turn.done :: turnsOf log n else turnsOf log n := by
  unfold turnsOf
  by_cases own : turn.speaker = n <;> simp [own]

theorem mem_turnsOf {log : List (Turn M)} {n : Nat} {d : Done M} :
    d ∈ turnsOf log n ↔ ⟨n, d⟩ ∈ log := by
  unfold turnsOf
  rw [List.mem_map]
  constructor
  · rintro ⟨turn, member, rfl⟩
    obtain ⟨logged, own⟩ := List.mem_filter.mp member
    have own : turn.speaker = n := by simpa using own
    subst own
    exact logged
  · intro member
    exact ⟨⟨n, d⟩, List.mem_filter.mpr ⟨member, by simp⟩, rfl⟩

theorem countP_turnsOf (p : Done M → Bool) (log : List (Turn M)) (n : Nat) :
    (turnsOf log n).countP p = log.countP (fun turn => turn.speaker = n && p turn.done) := by
  induction log with
  | nil => rfl
  | cons turn log ih =>
    rw [turnsOf_cons, List.countP_cons, ← ih]
    by_cases own : turn.speaker = n
    · rw [if_pos own, List.countP_cons]
      simp [own]
    · rw [if_neg own]
      simp [own]

end Parler.Lib
