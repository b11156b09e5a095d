import Mathlib.Data.List.TakeWhile
import Parler.Hub.RateLimits
import Parler.Cli.Worker

/-!
# How much gets through

The limiters of the hub count in fixed windows, the worker's gate looks back over an hour. What each of them lets
through in any interval of time is bounded, wherever the interval lies.
-/

namespace Parler.Cli

open Parler.Lib Parler.Hub

/-- An hour in nanoseconds. -/
def hourNanos : Int := 3600 * 10 ^ 9

namespace RateGate

variable {gate : RateGate}

/-- The instants at which the gate admits a run, of those it is asked at. -/
def admitted : RateGate → List Int → List Int
  | _, [] => []
  | gate, now :: instants =>
      let r := gate.admitMessage now
      (if r.1 then [now] else []) ++ admitted r.2 instants

/-- What the gate does at an instant: it forgets starts that are an hour old, and admits the run if there is
    room among the others. -/
theorem admitMessage_cases (limited : gate.max ≠ 0) (now : Int) :
    ∃ old kept, gate.starts = old ++ kept ∧ (∀ t ∈ old, hourNanos ≤ now - t) ∧
      ((gate.max ≤ kept.length ∧ gate.admitMessage now = (false, ⟨gate.max, kept⟩)) ∨
        (kept.length < gate.max ∧ gate.admitMessage now = (true, ⟨gate.max, kept ++ [now]⟩))) := by
  refine ⟨gate.starts.takeWhile (fun t => hourNanos ≤ Max.max 0 (now - t)),
    gate.starts.dropWhile (fun t => hourNanos ≤ Max.max 0 (now - t)), ?_, ?_, ?_⟩
  · exact List.takeWhile_append_dropWhile.symm
  · intro t member
    have aged := List.mem_takeWhile_imp member
    rw [decide_eq_true_eq] at aged
    unfold hourNanos at aged ⊢
    omega
  · unfold admitMessage
    rw [if_neg limited]
    by_cases full : gate.max ≤
        (gate.starts.dropWhile (fun t => hourNanos ≤ Max.max 0 (now - t))).length
    · exact Or.inl ⟨full, if_pos full⟩
    · exact Or.inr ⟨Nat.lt_of_not_le full, if_neg full⟩

/-- The gate keeps the starts that still count. -/
theorem admitted_rolling (limited : gate.max ≠ 0) {instants past forgotten : List Int}
    (rolling : Rolling gate.max hourNanos past) (kept : past = forgotten ++ gate.starts)
    (aged : ∀ t ∈ forgotten, ∀ now ∈ instants, hourNanos ≤ now - t)
    (before : ∀ t ∈ past, ∀ now ∈ instants, t ≤ now) (ordered : instants.Pairwise (· ≤ ·)) :
    Rolling gate.max hourNanos (past ++ gate.admitted instants) := by
  induction instants generalizing gate past forgotten with
  | nil => simpa [admitted] using rolling
  | cons now instants ih =>
    obtain ⟨next, sorted⟩ := List.pairwise_cons.mp ordered
    obtain ⟨old, young, starts, out, decided⟩ := admitMessage_cases limited now
    have split : past = (forgotten ++ old) ++ young := by rw [kept, starts, List.append_assoc]
    have aged_now : ∀ t ∈ forgotten ++ old, hourNanos ≤ now - t := by
      intro t member
      rcases List.mem_append.mp member with long | new
      · exact aged t long now List.mem_cons_self
      · exact out t new
    have aged_later : ∀ t ∈ forgotten ++ old, ∀ later ∈ instants, hourNanos ≤ later - t := by
      intro t member later listed
      have here := aged_now t member
      have order := next later listed
      omega
    have before_later : ∀ t ∈ past, ∀ later ∈ instants, t ≤ later :=
      fun t member later listed => before t member later (List.mem_cons_of_mem _ listed)
    rcases decided with ⟨full, refused⟩ | ⟨room, admits⟩
    · rw [admitted, refused]
      exact @ih ⟨gate.max, young⟩ limited past (forgotten ++ old) rolling split aged_later before_later sorted
    · have counted : past.countP (fun t => now - t < hourNanos) < gate.max := by
        have none : (forgotten ++ old).countP (fun t => now - t < hourNanos) = 0 := by
          rw [List.countP_eq_zero]
          intro t member young
          have here := aged_now t member
          rw [decide_eq_true_eq] at young
          omega
        have some := List.countP_le_length (p := fun t => decide (now - t < hourNanos)) (l := young)
        rw [split, List.countP_append, none]
        omega
      have grown := Rolling.snoc rolling (fun t member => before t member now List.mem_cons_self) counted
      have rest := @ih ⟨gate.max, young ++ [now]⟩ limited (past ++ [now]) (forgotten ++ old) grown
        (by rw [split, List.append_assoc]) aged_later (by
          intro t member later listed
          rcases List.mem_append.mp member with earlier | last
          · exact before_later t earlier later listed
          · rw [List.mem_singleton.mp last]
            exact next later listed) sorted
      rw [admitted, admits]
      simpa using rest

/-- A gate that is asked at ordered instants admits at most its maximum in any hour. -/
theorem admitted_count_le {most : Nat} (limited : most ≠ 0) {instants : List Int}
    (ordered : instants.Pairwise (· ≤ ·)) (a : Int) :
    ((RateGate.mk most []).admitted instants).countP (fun t => a ≤ t ∧ t < a + hourNanos) ≤ most := by
  have rolling := @admitted_rolling ⟨most, []⟩ limited instants [] [] .nil rfl (by simp) (by simp) ordered
  exact rolling.count_le a

end RateGate

/-- The windows of the hub keep the flood bound, for `charge_window` itself and for the calls on one key of
    any limiter; and the worker's gate admits at most its maximum in any hour. -/
theorem floods_bounded {Ip : Type} [DecidableEq Ip] (cfg : HubConfig) (maxHttpPerMin : Nat) :
    (∀ (limit : Nat) (len : Int) (w : Window) (times : List Int), limit ≠ 0 → 0 < len →
      times.Pairwise (· ≤ ·) → FloodBound limit len (chargeStamps limit len w times)) ∧
    (∀ (L : Limiters Ip) (call : LimitCall Ip) (calls : List (LimitCall Ip × Int)),
      call.limit cfg maxHttpPerMin ≠ 0 → (∀ c ∈ calls, c.1 ≠ .prune) →
      calls.Pairwise (fun c d => c.2 ≤ d.2) →
      FloodBound (call.limit cfg maxHttpPerMin) call.len (L.stamps cfg maxHttpPerMin call calls)) ∧
    (∀ (most : Nat) (instants : List Int) (a : Int), 0 < most → instants.Pairwise (· ≤ ·) →
      ((RateGate.mk most []).admitted instants).countP (fun t => a ≤ t ∧ t < a + hourNanos) ≤ most) := by
  refine ⟨?_, ?_, ?_⟩
  · intro limit len w times limited positive ordered
    exact chargeStamps_flood limited positive w ordered
  · intro L call calls limited charges ordered
    rw [Limiters.stamps_eq call charges]
    apply chargeStamps_flood limited call.len_pos
    rw [List.pairwise_map]
    exact ordered.filter _
  · intro most instants a positive ordered
    exact RateGate.admitted_count_le (Nat.ne_of_gt positive) ordered a

theorem floods_bounded_demo :
    FloodBound 2 60000 (chargeStamps 2 60000 .fresh [59998, 59999, 60000, 60001, 60002]) ∧
      FloodBound 2 60000 ((Limiters.boot 0 : Limiters String).stamps demoConfig 2 (.http "1.2.3.4")
        [(.http "1.2.3.4", 0), (.http "4.3.2.1", 1), (.http "1.2.3.4", 1), (.http "1.2.3.4", 2)]) ∧
      ((RateGate.mk 1 []).admitted [0, 1, hourNanos]).countP (fun t => 0 ≤ t ∧ t < 0 + hourNanos) ≤ 1 := by
  obtain ⟨window, call, gate⟩ := @floods_bounded String _ demoConfig 2
  refine ⟨window 2 60000 .fresh _ (by decide) (by decide) (by decide), ?_, gate 1 _ 0 (by decide) (by decide)⟩
  exact call (.boot 0) (.http "1.2.3.4") _ (by decide) (by decide) (by decide)

end Parler.Cli
