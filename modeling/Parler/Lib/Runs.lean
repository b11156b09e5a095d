/-!
# Runs of a transition function

What holds in every state of a run, and of every event where it is taken. A property that one kind of
event breaks and every other keeps holds throughout a run just when no event of that kind is in it.
-/

namespace Parler.Lib

variable {S E : Type} (step : S → E → S)

/-- `P` holds at the start and after every event. -/
def Throughout (P : S → Prop) : S → List E → Prop
  | s, [] => P s
  | s, e :: run => P s ∧ Throughout P (step s e) run

/-- `Q` holds of every event at the state that takes it. -/
def EachStep (Q : S → E → Prop) : S → List E → Prop
  | _, [] => True
  | s, e :: run => Q s e ∧ EachStep Q (step s e) run

/-- A run is a finite list, so what can be decided of a step can be decided of all. -/
instance eachStepDecidable {Q : S → E → Prop} [∀ s e, Decidable (Q s e)] :
    (s : S) → (run : List E) → Decidable (EachStep step Q s run)
  | _, [] => inferInstanceAs (Decidable True)
  | s, e :: run =>
      have : Decidable (EachStep step Q (step s e) run) := eachStepDecidable (step s e) run
      inferInstanceAs (Decidable (Q s e ∧ EachStep step Q (step s e) run))

variable {step} {P P' I : S → Prop} {Q Q' : S → E → Prop} {s : S} {run : List E}

theorem Throughout.now (through : Throughout step P s run) : P s := by
  cases run with
  | nil => exact through
  | cons e run => exact through.1

/-- The states of a run are those after its parts. -/
theorem throughout_iff : Throughout step P s run ↔ ∀ part, part <+: run → P (part.foldl step s) := by
  induction run generalizing s with
  | nil =>
    refine ⟨fun now part short => ?_, fun all => all [] (List.prefix_refl _)⟩
    rw [List.prefix_nil.mp short]
    exact now
  | cons e run ih =>
    constructor
    · rintro ⟨now, rest⟩ part short
      cases part with
      | nil => exact now
      | cons e' part =>
        obtain ⟨rfl, shorter⟩ := List.cons_prefix_cons.mp short
        exact ih.mp rest part shorter
    · intro all
      refine ⟨all [] (List.nil_prefix), ih.mpr ?_⟩
      intro part short
      exact all (e :: part) (List.cons_prefix_cons.mpr ⟨rfl, short⟩)

/-- The steps of a run are taken where the parts before them end. -/
theorem eachStep_iff :
    EachStep step Q s run ↔ ∀ part e, part ++ [e] <+: run → Q (part.foldl step s) e := by
  induction run generalizing s with
  | nil =>
    refine ⟨fun _ part e short => ?_, fun _ => trivial⟩
    simp at short
  | cons e run ih =>
    constructor
    · rintro ⟨now, rest⟩ part e' short
      cases part with
      | nil =>
        obtain ⟨rfl, -⟩ := List.cons_prefix_cons.mp short
        exact now
      | cons first part =>
        obtain ⟨rfl, shorter⟩ := List.cons_prefix_cons.mp short
        exact ih.mp rest part e' shorter
    · intro all
      refine ⟨all [] e (List.cons_prefix_cons.mpr ⟨rfl, List.nil_prefix⟩), ih.mpr ?_⟩
      intro part e' short
      exact all (e :: part) e' (List.cons_prefix_cons.mpr ⟨rfl, short⟩)

theorem Throughout.mono (weaker : ∀ s, P s → P' s) (through : Throughout step P s run) :
    Throughout step P' s run := by
  induction run generalizing s with
  | nil => exact weaker s through
  | cons e run ih => exact ⟨weaker s through.1, ih through.2⟩

theorem EachStep.mono (weaker : ∀ s e, Q s e → Q' s e) (each : EachStep step Q s run) :
    EachStep step Q' s run := by
  induction run generalizing s with
  | nil => trivial
  | cons e run ih => exact ⟨weaker s e each.1, ih each.2⟩

/-- Properties of a step that agree where an invariant holds agree on a run. -/
theorem eachStep_congr (keeps : ∀ s e, I s → I (step s e)) (same : ∀ s e, I s → (Q s e ↔ Q' s e)) (inv : I s) :
    EachStep step Q s run ↔ EachStep step Q' s run := by
  induction run generalizing s with
  | nil => exact Iff.rfl
  | cons e run ih => exact and_congr (same s e inv) (ih (keeps s e inv))

/-- What every step keeps holds throughout. -/
theorem throughout_of_keeps (keeps : ∀ s e, I s → Q s e → I (step s e)) (start : I s)
    (each : EachStep step Q s run) : Throughout step I s run := by
  induction run generalizing s with
  | nil => exact start
  | cons e run ih => exact ⟨start, ih (keeps s e start each.1) each.2⟩

/-- Where a step keeps `P` just when `Q` holds of it, `P` holds throughout a run just when `Q` holds of
    every step. The argument at a step may use an invariant. -/
theorem throughout_iff_eachStep (keeps : ∀ s e, I s → I (step s e))
    (exact_step : ∀ s e, I s → P s → (P (step s e) ↔ Q s e)) (inv : I s) (start : P s) :
    Throughout step P s run ↔ EachStep step Q s run := by
  induction run generalizing s with
  | nil => exact ⟨fun _ => trivial, fun _ => start⟩
  | cons e run ih =>
    constructor
    · rintro ⟨-, rest⟩
      have kept := rest.now
      exact ⟨(exact_step s e inv start).mp kept, (ih (keeps s e inv) kept).mp rest⟩
    · rintro ⟨fine, rest⟩
      have kept := (exact_step s e inv start).mpr fine
      exact ⟨start, (ih (keeps s e inv) kept).mpr rest⟩

end Parler.Lib
