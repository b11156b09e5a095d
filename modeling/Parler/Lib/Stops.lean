import Parler.Lib.Prog

/-!
# Stopping anywhere

A program whose calls are atomic may be stopped before or after any of them, by an error or a crash,
and what was done stays. A program is all or nothing in a state if every state it can be stopped in is
the one it started from or the one it ends in.
-/

namespace Parler.Lib

variable {σ α : Type} {M : Machine σ} {s t : σ}

namespace Prog

/-- The states in which the program may be stopped when it is run from a state. -/
inductive Stops : Prog M α → σ → σ → Prop
  | here (p : Prog M α) (s : σ) : Stops p s s
  | next {op : M.Op} {next : M.Res op → Prog M α} {s t : σ} :
      Stops (next (M.exec op s).1) (M.exec op s).2 t → Stops (.call op next) s t

@[simp] theorem stops_ret {value : α} : (Prog.ret value : Prog M α).Stops s t ↔ t = s := by
  constructor
  · rintro ⟨⟩
    rfl
  · rintro rfl
    exact .here _ _

theorem stops_call {op : M.Op} {next : M.Res op → Prog M α} :
    (Prog.call op next).Stops s t ↔ t = s ∨ (next (M.exec op s).1).Stops (M.exec op s).2 t := by
  constructor
  · rintro (_ | later)
    · exact Or.inl rfl
    · exact Or.inr later
  · rintro (rfl | later)
    · exact .here _ _
    · exact .next later

/-- A program may be stopped at its end. -/
theorem stops_end (p : Prog M α) (s : σ) : p.Stops s (p.run s).2 := by
  induction p generalizing s with
  | ret value => exact .here _ _
  | call op next ih => exact .next (ih _ _)

/-- The first of two programs is stopped, or the second after it. -/
theorem stops_bind {β : Type} {p : Prog M α} {f : α → Prog M β} :
    (p.bind f).Stops s t ↔ p.Stops s t ∨ (f (p.run s).1).Stops (p.run s).2 t := by
  induction p generalizing s with
  | ret value =>
    rw [stops_ret]
    constructor
    · exact Or.inr
    · rintro (rfl | later)
      · exact .here _ _
      · exact later
  | call op next ih =>
    rw [stops_call, run_call, or_assoc, ← ih, bind, stops_call]

/-- Wherever the program is stopped, it has done nothing or all it does. -/
def AllOrNothing (p : Prog M α) (s : σ) : Prop := ∀ t, p.Stops s t → t = s ∨ t = (p.run s).2

theorem allOrNothing_ret (value : α) (s : σ) : (Prog.ret value : Prog M α).AllOrNothing s := by
  intro t stops
  exact Or.inl (stops_ret.mp stops)

/-- A call that only reads may come first. -/
theorem allOrNothing_read {op : M.Op} {next : M.Res op → Prog M α} (reads : (M.exec op s).2 = s) :
    (Prog.call op next).AllOrNothing s ↔ (next (M.exec op s).1).AllOrNothing s := by
  unfold AllOrNothing
  simp only [stops_call, run_call, reads]
  constructor
  · intro whole t stops
    exact whole t (Or.inr stops)
  · rintro whole t (rfl | later)
    · exact Or.inl rfl
    · exact whole t later

/-- A last call is atomic. -/
theorem allOrNothing_last (op : M.Op) (value : M.Res op → α) (s : σ) :
    (Prog.call op (fun r => .ret (value r)) : Prog M α).AllOrNothing s := by
  intro t stops
  rcases stops_call.mp stops with rfl | later
  · exact Or.inl rfl
  · exact Or.inr (stops_ret.mp later)

/-- Of two calls one does nothing. -/
theorem allOrNothing_two {op op' : M.Op} {value : M.Res op → M.Res op' → α} :
    (Prog.call op (fun r => .call op' (fun r' => .ret (value r r'))) : Prog M α).AllOrNothing s ↔
      (M.exec op s).2 = s ∨ (M.exec op' (M.exec op s).2).2 = (M.exec op s).2 := by
  constructor
  · intro whole
    rcases whole (M.exec op s).2 (.next (.here _ _)) with same | done
    · exact Or.inl same
    · exact Or.inr done.symm
  · intro idle t stops
    rcases stops_call.mp stops with rfl | later
    · exact Or.inl rfl
    · rcases stops_call.mp later with rfl | ended
      · exact idle.imp_right (fun done => done.symm)
      · exact Or.inr (stops_ret.mp ended)

end Prog

end Parler.Lib
