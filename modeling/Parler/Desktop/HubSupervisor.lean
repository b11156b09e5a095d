import Mathlib.Data.List.Basic
import Parler.Lib.Runs

/-!
# The hub supervisor

`start`, `onExit`, `stop` and `restart` of `desktop/src/main/hub-supervisor.ts` over `RestartGate`.
A launch waits for a free port between its guard and its spawn, a crash arms a timer that launches
again, and a stop waits for the exit of the child it found. What runs without an `await` in between
is one step here; an exit of a process is the delivery of its event.
-/

namespace Parler.Desktop

open Parler.Lib

/-! ## The restart gate -/

def maxRestarts : Nat := 5

def restartWindowMs : Int := 60000

/-- `RestartGate.tryAcquire` -/
def tryAcquire (now : Int) (times : List Int) : Option Nat × List Int :=
  let times := times.filter (fun t => now - t < restartWindowMs)
  if times.length ≥ maxRestarts then (none, times) else (some (times.length + 1), times ++ [now])

/-! ## The supervisor -/

inductive HubPhase where
  | stopped
  | starting
  | running
  | error
  deriving DecidableEq

structure HubStatus where
  phase : HubPhase
  pid : Option Nat
  error : Option String
  healthy : Bool
  deriving DecidableEq

/-- A child object: its process runs, has exited, or was never spawned. -/
inductive Proc where
  | alive
  | exited
  | unspawned
  deriving DecidableEq

/-- A `stop` that waits for the exit of a child, on its own or inside of `restart`. -/
structure Wait where
  pid : Nat
  restarts : Bool
  deriving DecidableEq

structure Supervisor where
  child : Option Nat
  launching : Bool
  stopping : Bool
  restarts : List Int
  status : HubStatus
  procs : List Proc
  /-- the delays of the pending restart timers -/
  timers : List Nat
  waits : List Wait
  /-- a `stop` has resolved after the last call of `start` or `restart` -/
  quiet : Bool
  deriving DecidableEq

/-- How a launch goes on: no port, `spawn` throws, or there is a child object. -/
inductive Launch where
  | noPort (message : String)
  | thrown (message : String)
  | spawned
  | unspawned
  deriving DecidableEq

/-- `dirs` tells whether the directories can be made, `thrown` whether `child.kill` throws. -/
inductive SupervisorEvent where
  | start (dirs : Bool)
  | stop (thrown : Bool)
  | restart (thrown dirs : Bool)
  | port (result : Launch)
  | timer (i : Nat) (dirs : Bool)
  | exit (p : Nat) (now : Int) (dirs : Bool)
  | error (message : String)
  | healthy
  | unhealthy (p : Nat)
  deriving DecidableEq

/-- The calls of the application. -/
def SupervisorEvent.isCall : SupervisorEvent → Bool
  | .start _ | .stop _ | .restart .. => true
  | _ => false

namespace Supervisor

def initial : Supervisor where
  child := none
  launching := false
  stopping := false
  restarts := []
  status := ⟨.stopped, none, none, false⟩
  procs := []
  timers := []
  waits := []
  quiet := false

/-- `start` up to its `await`. -/
def launch (s : Supervisor) (dirs : Bool) : Supervisor :=
  if s.child.isSome || s.launching then s
  else if dirs then { s with stopping := false, launching := true }
  else { s with stopping := false }

/-- `start` from its `await` on. -/
def launched (s : Supervisor) : Launch → Supervisor
  | .noPort message =>
      { s with launching := false, status := { s.status with phase := .error, error := some message } }
  | .thrown message =>
      { s with
        launching := false
        status := ⟨.error, none, some ("failed to launch hub: " ++ message), false⟩ }
  | .spawned =>
      { s with
        child := some s.procs.length
        launching := false
        status := ⟨.starting, some s.procs.length, none, false⟩
        procs := s.procs ++ [.alive] }
  | .unspawned =>
      { s with
        child := some s.procs.length
        launching := false
        status := ⟨.starting, none, none, false⟩
        procs := s.procs ++ [.unspawned] }

def onExit (s : Supervisor) (now : Int) : Supervisor :=
  let s := { s with child := none }
  if s.stopping then
    { s with status := { s.status with phase := .stopped, pid := none, healthy := false } }
  else
    match tryAcquire now s.restarts with
    | (none, times) =>
        { s with
          restarts := times
          status := ⟨.error, none, some "hub crashed repeatedly — check the logs and port availability",
            false⟩ }
    | (some attempt, times) =>
        { s with
          restarts := times
          status := { s.status with phase := .starting, pid := none, healthy := false }
          timers := s.timers ++ [min (800 * attempt) 5000] }

/-- The end of `stop`. -/
def stopped (s : Supervisor) : Supervisor :=
  { s with
    child := none
    status := { s.status with phase := .stopped, pid := none, healthy := false } }

/-- `stop` up to its `await`, and whether it is through. -/
def halt (s : Supervisor) (thrown restarts : Bool) : Bool × Supervisor :=
  let s := { s with stopping := true, restarts := [] }
  match s.child with
  | none => (true, s.stopped)
  | some p =>
      if thrown then (true, s.stopped) else (false, { s with waits := s.waits ++ [⟨p, restarts⟩] })

/-- `restart` from its `await` on. -/
def relaunch (s : Supervisor) (dirs : Bool) : Supervisor := { s with stopping := false }.launch dirs

/-- The exit of a process: first `onExit`, then the stops that wait for it, then the restarts among
    them, of which the first launches. -/
def exited (s : Supervisor) (p : Nat) (now : Int) (dirs : Bool) : Supervisor :=
  let woken := s.waits.filter (fun w => w.pid = p)
  let s := { s with procs := s.procs.set p .exited }.onExit now
  let s := { s with waits := s.waits.filter (fun w => w.pid ≠ p) }
  let s := if woken.isEmpty then s else s.stopped
  let s := if woken.any (fun w => !w.restarts) then { s with quiet := true } else s
  if woken.any Wait.restarts then s.relaunch dirs else s

def act (s : Supervisor) : SupervisorEvent → Supervisor
  | .start dirs => { s with quiet := false }.launch dirs
  | .stop thrown =>
      match s.halt thrown false with
      | (true, s) => { s with quiet := true }
      | (false, s) => s
  | .restart thrown dirs =>
      match { s with quiet := false }.halt thrown true with
      | (true, s) => s.relaunch dirs
      | (false, s) => s
  | .port result => if s.launching then s.launched result else s
  | .timer i dirs =>
      if i < s.timers.length then { s with timers := s.timers.eraseIdx i }.launch dirs else s
  | .exit p now dirs => if s.procs[p]? = some .alive then s.exited p now dirs else s
  | .error message => { s with status := { s.status with phase := .error, error := some message } }
  -- The child and the stop are looked at before the probe, which may answer after an exit.
  | .healthy => { s with status := { s.status with phase := .running, healthy := true } }
  | .unhealthy p =>
      if s.child = some p ∧ s.stopping = false ∧ s.status.phase ≠ .running then
        { s with status := { s.status with
          phase := .error, error := some "hub did not become healthy in time" } }
      else s

def Alive (s : Supervisor) (p : Nat) : Prop := s.procs[p]? = some .alive

/-- One hub at most, the stored child, which is one; and none after a stop. -/
structure Supervised (s : Supervisor) : Prop where
  stored : ∀ p, s.Alive p → s.child = some p
  real : ∀ p, s.child = some p → s.Alive p
  down : s.quiet = true → ∀ p, ¬ s.Alive p

/-- Nothing is left over when a stop resolves: no launch that waits for its port, no restart timer, no
    restart that waits for the same exit. No `kill` throws and no spawn fails once it has returned. -/
def Orderly (s : Supervisor) : SupervisorEvent → Prop
  | .stop thrown =>
      (s.child = none → s.launching = false ∧ s.timers = []) ∧ (s.child ≠ none → thrown = false)
  | .restart thrown _ => s.child ≠ none → thrown = false
  | .port result => s.launching = true → result ≠ .unspawned
  | .exit p _ dirs => s.Alive p → (∃ w ∈ s.waits, w.pid = p ∧ w.restarts = false) →
      s.timers = [] ∧ (dirs = true → ∀ w ∈ s.waits, w.pid = p → w.restarts = false)
  | _ => True

/-! ## What the methods write -/

variable {s : Supervisor} {p : Nat} {now : Int} {dirs thrown : Bool}

theorem launch_idle (child : s.child = none) (idle : s.launching = false) :
    s.launch dirs = { s with stopping := false, launching := dirs } := by
  obtain ⟨_, _, _, _, _, _, _, _, _⟩ := s
  dsimp only at child idle
  subst child idle
  cases dirs <;> rfl

/-- A launch goes on where no child is stored and none is on its way. -/
theorem launch_cases (s : Supervisor) (dirs : Bool) : s.launch dirs = s ∨
    (s.child = none ∧ s.launching = false ∧
      s.launch dirs = { s with stopping := false, launching := dirs }) := by
  by_cases taken : (s.child.isSome || s.launching) = true
  · left
    unfold launch
    rw [if_pos taken]
  · obtain ⟨child, idle⟩ : s.child = none ∧ s.launching = false := by simpa using taken
    exact Or.inr ⟨child, idle, launch_idle child idle⟩

/-- While a stop is under way, an exit arms no timer. -/
theorem onExit_eq (s : Supervisor) (now : Int) : ∃ restarts status timers, s.onExit now =
    { s with child := none, restarts := restarts, status := status, timers := timers } ∧
      (s.stopping = true → timers = s.timers) := by
  unfold onExit
  dsimp only
  split
  · exact ⟨_, _, _, rfl, fun _ => rfl⟩
  · rename_i going
    split
    · exact ⟨_, _, _, rfl, fun _ => rfl⟩
    · exact ⟨_, _, _, rfl, fun stopping => absurd stopping going⟩

/-! ## What every state of an orderly run keeps -/

structure Sound (s : Supervisor) : Prop where
  alive_iff : ∀ p, s.Alive p ↔ s.child = some p
  idle : s.launching = true → s.child = none
  waits : ∀ w ∈ s.waits, s.child = some w.pid
  halting : s.waits ≠ [] → s.stopping = true
  quiet : s.quiet = true → s.child = none ∧ s.launching = false ∧ s.timers = []

theorem Sound.supervised (sound : s.Sound) : s.Supervised := by
  refine ⟨fun p => (sound.alive_iff p).mp, fun p => (sound.alive_iff p).mpr, ?_⟩
  intro quiet p alive
  have stored := (sound.alive_iff p).mp alive
  rw [(sound.quiet quiet).1] at stored
  cases stored

/-- Where no child is stored, nobody waits. -/
theorem Sound.waits_nil (sound : s.Sound) (child : s.child = none) : s.waits = [] := by
  rw [List.eq_nil_iff_forall_not_mem]
  intro w listed
  have stored := sound.waits w listed
  rw [child] at stored
  cases stored

theorem initial_sound : initial.Sound := by
  refine ⟨?_, ?_, ?_, ?_, ?_⟩
  · intro p
    constructor
    · intro alive
      cases alive
    · intro stored
      cases stored
  · intro launching
    cases launching
  · intro w listed
    cases listed
  · intro some
    exact absurd rfl some
  · intro quiet
    cases quiet

/-- With no child there is little to keep. -/
theorem sound_of_down (child : s.child = none) (dead : ∀ p, ¬ s.Alive p) (waits : s.waits = [])
    (quiet : s.quiet = true → s.launching = false ∧ s.timers = []) : s.Sound := by
  refine ⟨?_, fun _ => child, ?_, fun some => absurd waits some, fun calm => ⟨child, quiet calm⟩⟩
  · intro p
    rw [child]
    constructor
    · intro alive
      exact absurd alive (dead p)
    · intro stored
      cases stored
  · rw [waits]
    intro w listed
    cases listed

/-- So it is after a restart goes on, where it launches. -/
theorem sound_relaunch (child : s.child = none) (idle : s.launching = false) (dead : ∀ p, ¬ s.Alive p)
    (waits : s.waits = []) (quiet : s.quiet = true → dirs = false ∧ s.timers = []) :
    (s.relaunch dirs).Sound := by
  have goes : s.relaunch dirs = { s with stopping := false, launching := dirs } :=
    launch_idle child idle
  rw [goes]
  exact sound_of_down child dead waits quiet

theorem Sound.dead (sound : s.Sound) (child : s.child = none) (p : Nat) : ¬ s.Alive p := by
  intro alive
  have stored := (sound.alive_iff p).mp alive
  rw [child] at stored
  cases stored

/-- A stop resolves for good only where nothing is left over. -/
theorem Sound.loud (sound : s.Sound) (busy : s.child ≠ none ∨ s.launching = true ∨ s.timers ≠ []) :
    s.quiet = false := by
  cases quiet : s.quiet with
  | false => rfl
  | true =>
    obtain ⟨child, idle, timers⟩ := sound.quiet quiet
    simp [child, idle, timers] at busy

theorem Sound.launch (sound : s.Sound) (loud : s.quiet = false) : (s.launch dirs).Sound := by
  rcases launch_cases s dirs with same | ⟨child, idle, goes⟩
  · rw [same]
    exact sound
  · rw [goes]
    refine sound_of_down child (sound.dead child) (sound.waits_nil child) ?_
    intro quiet
    rw [loud] at quiet
    cases quiet

theorem Sound.unquiet (sound : s.Sound) : Sound { s with quiet := false } :=
  ⟨sound.alive_iff, sound.idle, sound.waits, sound.halting, fun quiet => by cases quiet⟩

/-- The status is nobody's guard. -/
theorem Sound.setStatus (sound : s.Sound) (status : HubStatus) : Sound { s with status := status } :=
  ⟨sound.alive_iff, sound.idle, sound.waits, sound.halting, sound.quiet⟩

theorem Sound.launched (sound : s.Sound) (launching : s.launching = true) {result : Launch}
    (spawned : result ≠ .unspawned) : (s.launched result).Sound := by
  have child := sound.idle launching
  have loud := sound.loud (Or.inr (Or.inl launching))
  cases result with
  | noPort message =>
    refine sound_of_down child (sound.dead child) (sound.waits_nil child) ?_
    intro quiet
    exact ⟨rfl, (sound.quiet quiet).2.2⟩
  | thrown message =>
    refine sound_of_down child (sound.dead child) (sound.waits_nil child) ?_
    intro quiet
    exact ⟨rfl, (sound.quiet quiet).2.2⟩
  | spawned =>
    have waits := sound.waits_nil child
    refine ⟨?_, ?_, ?_, fun some => absurd waits some, ?_⟩
    · intro p
      show (s.procs ++ [.alive])[p]? = some .alive ↔ some s.procs.length = some p
      rw [List.getElem?_append]
      split
      · rename_i old
        constructor
        · intro alive
          exact absurd alive (sound.dead child p)
        · intro same
          have := Option.some.inj same
          omega
      · rename_i new
        constructor
        · intro alive
          obtain ⟨short, -⟩ := List.getElem?_eq_some_iff.mp alive
          simp at short
          congr 1
          omega
        · intro same
          rw [← Option.some.inj same, Nat.sub_self]
          rfl
    · intro stale
      cases stale
    · intro w listed
      exact absurd listed (by rw [show (s.launched .spawned).waits = [] from waits]; simp)
    · intro quiet
      have quiet : s.quiet = true := quiet
      rw [loud] at quiet
      cases quiet
  | unspawned => exact absurd rfl spawned

/-- Every stop waits for the stored child. -/
theorem Sound.own (sound : s.Sound) (child : s.child = some p) : ∀ w ∈ s.waits, w.pid = p := by
  intro w listed
  have stored := sound.waits w listed
  rw [child] at stored
  exact (Option.some.inj stored).symm

/-- After the exit of the stored child none is alive. -/
theorem Sound.buried (sound : s.Sound) (child : s.child = some p) (q : Nat) :
    (s.procs.set p .exited)[q]? ≠ some .alive := by
  rw [List.getElem?_set]
  split
  · split
    · simp
    · simp
  · rename_i other
    intro alive
    have stored := (sound.alive_iff q).mp alive
    rw [child] at stored
    exact other (Option.some.inj stored)

/-- An exit is that of the stored child, and wakes all who wait. -/
theorem Sound.exited_eq (sound : s.Sound) (alive : s.Alive p) (now : Int) (dirs : Bool) :
    ∃ t : Supervisor, t.child = none ∧ t.procs = s.procs.set p .exited ∧ t.launching = false ∧
      t.waits = [] ∧ t.quiet = s.waits.any (fun w => !w.restarts) ∧
      (s.waits ≠ [] → t.timers = s.timers) ∧
      s.exited p now dirs = if s.waits.any Wait.restarts then t.relaunch dirs else t := by
  have child := (sound.alive_iff p).mp alive
  have loud := sound.loud (Or.inl (by rw [child]; simp))
  have idle : s.launching = false := by
    cases launching : s.launching with
    | false => rfl
    | true =>
      have none := sound.idle launching
      rw [child] at none
      cases none
  have own := sound.own child
  have woken : s.waits.filter (fun w => w.pid = p) = s.waits :=
    List.filter_eq_self.mpr (fun w listed => decide_eq_true (own w listed))
  have rest : s.waits.filter (fun w => w.pid ≠ p) = [] :=
    List.filter_eq_nil_iff.mpr (fun w listed => by simp [own w listed])
  obtain ⟨restarts, status, timers, equal, unarmed⟩ :=
    onExit_eq { s with procs := s.procs.set p .exited } now
  unfold Supervisor.exited
  dsimp only
  rw [equal, woken, rest]
  by_cases none : s.waits = []
  · rw [none]
    refine ⟨_, ?_, ?_, ?_, ?_, ?_, ?_, rfl⟩
    · rfl
    · rfl
    · exact idle
    · rfl
    · exact loud
    · intro some
      exact absurd rfl some
  · have some : ¬ s.waits.isEmpty = true := by simpa using none
    have unarmed : timers = s.timers := unarmed (sound.halting none)
    rw [if_neg some]
    cases stops : s.waits.any (fun w => !w.restarts) with
    | true =>
      refine ⟨_, ?_, ?_, ?_, ?_, ?_, ?_, rfl⟩
      · rfl
      · rfl
      · exact idle
      · rfl
      · rfl
      · exact fun _ => unarmed
    | false =>
      refine ⟨_, ?_, ?_, ?_, ?_, ?_, ?_, rfl⟩
      · rfl
      · rfl
      · exact idle
      · rfl
      · exact loud
      · exact fun _ => unarmed

theorem Sound.exited (sound : s.Sound) (alive : s.Alive p) (orderly : s.Orderly (.exit p now dirs)) :
    (s.exited p now dirs).Sound := by
  have child := (sound.alive_iff p).mp alive
  have own := sound.own child
  obtain ⟨t, gone, procs, idle, waits, quiet, timers, equal⟩ := sound.exited_eq alive now dirs
  have dead : ∀ q, ¬ t.Alive q := by
    intro q
    unfold Alive
    rw [procs]
    exact sound.buried child q
  -- A stop among those who wait finds nothing left over.
  have tidy : t.quiet = true →
      t.timers = [] ∧ (s.waits.any Wait.restarts = true → dirs = false) := by
    intro calm
    rw [quiet] at calm
    obtain ⟨w, listed, stop⟩ := List.any_eq_true.mp calm
    obtain ⟨none, alone⟩ := orderly alive ⟨w, listed, own w listed, by simpa using stop⟩
    refine ⟨(timers (List.ne_nil_of_mem listed)).trans none, ?_⟩
    intro again
    obtain ⟨w', listed', restart⟩ := List.any_eq_true.mp again
    cases made : dirs with
    | false => rfl
    | true =>
      rw [alone made w' listed' (own w' listed')] at restart
      cases restart
  rw [equal]
  split
  · rename_i again
    apply sound_relaunch gone idle dead waits
    intro calm
    exact ⟨(tidy calm).2 again, (tidy calm).1⟩
  · apply sound_of_down gone dead waits
    intro calm
    exact ⟨idle, (tidy calm).1⟩

/-- A stop that finds a child waits for it. -/
theorem Sound.waiting (sound : s.Sound) (child : s.child = some p) (restarts : Bool) :
    Sound { s with stopping := true, restarts := [], waits := s.waits ++ [⟨p, restarts⟩] } := by
  refine ⟨sound.alive_iff, sound.idle, ?_, fun _ => rfl, sound.quiet⟩
  intro w listed
  rcases List.mem_append.mp listed with old | new
  · exact sound.waits w old
  · rw [List.mem_singleton.mp new]
    exact child

theorem Sound.act (sound : s.Sound) {e : SupervisorEvent} (orderly : s.Orderly e) : (s.act e).Sound := by
  cases e with
  | start dirs => exact sound.unquiet.launch rfl
  | stop thrown =>
    obtain ⟨tidy, quick⟩ := orderly
    cases child : s.child with
    | none =>
      obtain ⟨idle, timers⟩ := tidy child
      have equal : s.act (.stop thrown) = { ({ s with stopping := true, restarts := [] } : Supervisor).stopped with
          quiet := true } := by
        simp only [Supervisor.act, halt, child]
      rw [equal]
      exact sound_of_down rfl (sound.dead child) (sound.waits_nil child) (fun _ => ⟨idle, timers⟩)
    | some p =>
      have quick : thrown = false := quick (by rw [child]; simp)
      have equal : s.act (.stop thrown) =
          { s with stopping := true, restarts := [], waits := s.waits ++ [⟨p, false⟩] } := by
        subst quick
        simp only [Supervisor.act, halt, child]
        rfl
      rw [equal]
      exact sound.waiting child false
  | restart thrown dirs =>
    cases child : s.child with
    | none =>
      have equal : s.act (.restart thrown dirs) =
          ({ s with quiet := false, stopping := true, restarts := [] } : Supervisor).stopped.relaunch dirs := by
        simp only [Supervisor.act, halt, child]
      rw [equal]
      apply Sound.launch
      · refine sound_of_down rfl (sound.dead child) (sound.waits_nil child) ?_
        intro quiet
        cases quiet
      · rfl
    | some p =>
      have quick : thrown = false := orderly (by rw [child]; simp)
      have equal : s.act (.restart thrown dirs) =
          { s with quiet := false, stopping := true, restarts := [], waits := s.waits ++ [⟨p, true⟩] } := by
        subst quick
        simp only [Supervisor.act, halt, child]
        rfl
      rw [equal]
      exact sound.unquiet.waiting (s := { s with quiet := false }) child true
  | port result =>
    unfold Supervisor.act
    dsimp only
    split
    · rename_i launching
      exact sound.launched launching (orderly launching)
    · exact sound
  | timer i dirs =>
    unfold Supervisor.act
    dsimp only
    split
    · rename_i pending
      have loud := sound.loud (Or.inr (Or.inr (List.ne_nil_of_length_pos (by omega))))
      apply Sound.launch
      · refine ⟨sound.alive_iff, sound.idle, sound.waits, sound.halting, ?_⟩
        intro quiet
        have quiet : s.quiet = true := quiet
        rw [loud] at quiet
        cases quiet
      · exact loud
    · exact sound
  | exit p now dirs =>
    unfold Supervisor.act
    dsimp only
    split
    · rename_i alive
      exact sound.exited alive orderly
    · exact sound
  | error message => exact sound.setStatus _
  | healthy => exact sound.setStatus _
  | unhealthy p =>
    unfold Supervisor.act
    dsimp only
    split
    · exact sound.setStatus _
    · exact sound

/-! ## Runs -/

theorem orderly_sound {run : List SupervisorEvent} (sound : s.Sound)
    (each : EachStep Supervisor.act Orderly s run) : (run.foldl Supervisor.act s).Sound := by
  have through := throughout_of_keeps (I := Sound) (fun t e sound orderly => sound.act orderly) sound each
  exact throughout_iff.mp through run (List.prefix_refl run)

/-- A launch that waits for its port may end with a child after the stop. -/
theorem spawned_after_stop (launching : s.launching = true) (quiet : s.quiet = true) :
    ¬ (s.act (.port .spawned)).Supervised := by
  intro supervised
  have equal : s.act (.port .spawned) = s.launched .spawned := by
    unfold Supervisor.act
    dsimp only
    rw [if_pos launching]
  rw [equal] at supervised
  apply supervised.down quiet s.procs.length
  show (s.procs ++ [.alive])[s.procs.length]? = some .alive
  simp

/-- So may a restart timer that is pending then. -/
theorem restarted_after_stop (child : s.child = none) (timers : s.timers ≠ []) (quiet : s.quiet = true) :
    ∃ rest : List SupervisorEvent, (∀ e ∈ rest, e.isCall = false) ∧
      ¬ (rest.foldl Supervisor.act s).Supervised := by
  cases idle : s.launching with
  | true =>
    refine ⟨[.port .spawned], by simp [SupervisorEvent.isCall], ?_⟩
    rw [List.foldl_cons, List.foldl_nil]
    exact spawned_after_stop idle quiet
  | false =>
    refine ⟨[.timer 0 true, .port .spawned], by simp [SupervisorEvent.isCall], ?_⟩
    have fires : s.act (.timer 0 true) =
        { s with timers := s.timers.eraseIdx 0, stopping := false, launching := true } := by
      unfold Supervisor.act
      dsimp only
      rw [if_pos (List.length_pos_of_ne_nil timers)]
      exact launch_idle (s := { s with timers := s.timers.eraseIdx 0 }) child idle
    rw [List.foldl_cons, fires, List.foldl_cons, List.foldl_nil]
    apply spawned_after_stop
    · rfl
    · exact quiet

/-- A child that is alive and not stored is lost. -/
theorem lost (alive : s.Alive p) (child : s.child = none) : ¬ s.Supervised := by
  intro supervised
  have stored := supervised.stored p alive
  rw [child] at stored
  cases stored

theorem relaunch_frame (child : s.child = none) :
    (s.relaunch dirs).procs = s.procs ∧ (s.relaunch dirs).child = none := by
  unfold relaunch
  rcases launch_cases { s with stopping := false } dirs with same | ⟨-, -, goes⟩
  · rw [same]
    exact ⟨rfl, child⟩
  · rw [goes]
    exact ⟨rfl, child⟩

/-- What a step that is not orderly does, the events after it can bring to light. -/
theorem Sound.exposed (sound : s.Sound) {e : SupervisorEvent} (disorderly : ¬ s.Orderly e) :
    ∃ rest : List SupervisorEvent, (∀ e ∈ rest, e.isCall = false) ∧
      ¬ (rest.foldl Supervisor.act (s.act e)).Supervised := by
  have none : ∀ e ∈ ([] : List SupervisorEvent), e.isCall = false := fun e listed => by cases listed
  cases e with
  | stop thrown =>
    cases child : s.child with
    | none =>
      have equal : s.act (.stop thrown) =
          { ({ s with stopping := true, restarts := [] } : Supervisor).stopped with quiet := true } := by
        simp only [Supervisor.act, halt, child]
      rw [equal]
      cases idle : s.launching with
      | true =>
        refine ⟨[.port .spawned], by simp [SupervisorEvent.isCall], ?_⟩
        rw [List.foldl_cons, List.foldl_nil]
        apply spawned_after_stop
        · rfl
        · rfl
      | false =>
        apply restarted_after_stop
        · rfl
        · intro timers
          apply disorderly
          exact ⟨fun _ => ⟨idle, timers⟩, fun some => absurd child some⟩
        · rfl
    | some p =>
      have thrown : thrown = true := by
        by_contra kept
        apply disorderly
        refine ⟨fun empty => ?_, fun _ => by simpa using kept⟩
        rw [child] at empty
        cases empty
      subst thrown
      refine ⟨[], none, lost (p := p) ?_ ?_⟩
      · have equal : (s.act (.stop true)).procs = s.procs := by
          simp only [Supervisor.act, halt, child]
          rfl
        unfold Alive
        rw [List.foldl_nil, equal]
        exact (sound.alive_iff p).mpr child
      · simp only [Supervisor.act, halt, child]
        rfl
  | restart thrown dirs =>
    have both : s.child ≠ .none ∧ thrown = true := by
      by_contra kept
      apply disorderly
      intro some
      by_contra thrown
      exact kept ⟨some, by simpa using thrown⟩
    obtain ⟨some, rfl⟩ := both
    obtain ⟨p, child⟩ := Option.ne_none_iff_exists'.mp some
    have equal : s.act (.restart true dirs) =
        ({ s with quiet := false, stopping := true, restarts := [] } : Supervisor).stopped.relaunch dirs := by
      simp only [Supervisor.act, halt, child]
      rfl
    have relaunched : ∀ t : Supervisor, t.child = Option.none →
        (t.relaunch dirs).procs = t.procs ∧ (t.relaunch dirs).child = Option.none :=
      fun t child => relaunch_frame child
    obtain ⟨procs, gone⟩ := relaunched
      ({ s with quiet := false, stopping := true, restarts := [] } : Supervisor).stopped rfl
    refine ⟨[], none, lost (p := p) ?_ ?_⟩
    · unfold Alive
      rw [List.foldl_nil, equal, procs]
      exact (sound.alive_iff p).mpr child
    · rw [List.foldl_nil, equal, gone]
  | port result =>
    have both : s.launching = true ∧ result = .unspawned := by
      by_contra kept
      apply disorderly
      intro launching same
      exact kept ⟨launching, same⟩
    obtain ⟨launching, rfl⟩ := both
    refine ⟨[], none, ?_⟩
    intro supervised
    have equal : s.act (.port .unspawned) = s.launched .unspawned := by
      unfold Supervisor.act
      dsimp only
      rw [if_pos launching]
    rw [List.foldl_nil, equal] at supervised
    have alive : (s.procs ++ [.unspawned])[s.procs.length]? = some .alive :=
      supervised.real s.procs.length rfl
    simp at alive
  | exit p now dirs =>
    have all : s.Alive p ∧ (∃ w ∈ s.waits, w.pid = p ∧ w.restarts = false) ∧
        ¬ (s.timers = [] ∧ (dirs = true → ∀ w ∈ s.waits, w.pid = p → w.restarts = false)) := by
      by_contra kept
      apply disorderly
      intro alive stops
      by_contra left
      exact kept ⟨alive, stops, left⟩
    obtain ⟨alive, ⟨w, listed, -, stop⟩, left⟩ := all
    obtain ⟨t, gone, -, idle, -, quiet, timers, equal⟩ := sound.exited_eq alive now dirs
    have calm : t.quiet = true := by
      rw [quiet]
      exact List.any_eq_true.mpr ⟨w, listed, by rw [stop]; rfl⟩
    have timers := timers (List.ne_nil_of_mem listed)
    have exits : s.act (.exit p now dirs) = s.exited p now dirs := by
      unfold Supervisor.act
      exact if_pos alive
    have relaunches : t.relaunch dirs = { t with stopping := false, launching := dirs } :=
      launch_idle gone idle
    rw [exits, equal]
    by_cases pending : s.timers = []
    · -- No timer, so a restart launches.
      have again : dirs = true ∧ s.waits.any Wait.restarts = true := by
        by_contra kept
        apply left
        refine ⟨pending, ?_⟩
        intro made w' listed' _
        by_contra restart
        apply kept
        exact ⟨made, List.any_eq_true.mpr ⟨w', listed', by simpa using restart⟩⟩
      obtain ⟨rfl, again⟩ := again
      rw [if_pos again, relaunches]
      refine ⟨[.port .spawned], by simp [SupervisorEvent.isCall], ?_⟩
      rw [List.foldl_cons, List.foldl_nil]
      apply spawned_after_stop
      · rfl
      · exact calm
    · split
      · rw [relaunches]
        apply restarted_after_stop
        · exact gone
        · rw [timers]
          exact pending
        · exact calm
      · apply restarted_after_stop gone
        · rw [timers]
          exact pending
        · exact calm
  | _ => exact absurd trivial disorderly

/-- Along every orderly run there is one hub at most, the stored child, and none after a stop; and a
    step that is not orderly can be followed by events, none of them a call, after which this is not
    so. -/
theorem supervised_of_orderly (run : List SupervisorEvent)
    (each : EachStep Supervisor.act Orderly initial run) :
    Throughout Supervisor.act Supervised initial run ∧
      ∀ e, ¬ (run.foldl Supervisor.act initial).Orderly e →
        ∃ rest : List SupervisorEvent, (∀ e ∈ rest, e.isCall = false) ∧
          ¬ Throughout Supervisor.act Supervised initial (run ++ e :: rest) := by
  have through := throughout_of_keeps (I := Sound) (fun t e sound orderly => sound.act orderly)
    initial_sound each
  refine ⟨through.mono (fun t sound => sound.supervised), ?_⟩
  intro e disorderly
  obtain ⟨rest, silent, broken⟩ := (orderly_sound initial_sound each).exposed disorderly
  refine ⟨rest, silent, ?_⟩
  intro all
  apply broken
  have last := throughout_iff.mp all _ (List.prefix_refl _)
  rw [List.foldl_append, List.foldl_cons] at last
  exact last

/-- A start, a crash, its restart, and a stop that waits for the exit. -/
theorem supervised_of_orderly_demo :
    Throughout Supervisor.act Supervised initial
      [.start true, .port .spawned, .exit 0 0 true, .timer 0 true, .port .spawned, .stop false,
        .exit 1 9 true] := by
  refine (supervised_of_orderly _ ?_).1
  simp only [EachStep]
  refine ⟨trivial, fun _ => by decide, ?_, trivial, fun _ => by decide, ?_, ?_, trivial⟩
  · rintro - ⟨w, listed, -⟩
    cases listed
  · refine ⟨?_, fun _ => rfl⟩
    intro none
    cases none
  · intro _ _
    refine ⟨by decide, ?_⟩
    intro _ w listed _
    cases List.mem_singleton.mp listed
    rfl

/-! ## Left over when a stop resolves -/

/-- The application stops the hub while it is being launched, while a crash waits for its restart, and
    while a restart waits for the exit; and a spawn fails. -/
theorem hub_after_stop :
    ([SupervisorEvent.start true, .stop false, .port .spawned].foldl act initial).quiet = true ∧
    ([SupervisorEvent.start true, .stop false, .port .spawned].foldl act initial).procs = [.alive] ∧
    ¬ ([SupervisorEvent.start true, .stop false, .port .spawned].foldl act initial).Supervised ∧
    ¬ ([SupervisorEvent.start true, .port .spawned, .exit 0 0 true, .stop false, .timer 0 true,
      .port .spawned].foldl act initial).Supervised ∧
    ¬ ([SupervisorEvent.start true, .port .spawned, .restart false true, .stop false, .exit 0 0 true,
      .port .spawned].foldl act initial).Supervised ∧
    ¬ ([SupervisorEvent.start true, .port .unspawned].foldl act initial).Supervised := by
  refine ⟨by decide, by decide, ?_, ?_, ?_, ?_⟩
  · intro supervised
    exact supervised.down (by decide) 0 (by unfold Alive; decide)
  · intro supervised
    exact supervised.down (by decide) 1 (by unfold Alive; decide)
  · intro supervised
    exact supervised.down (by decide) 1 (by unfold Alive; decide)
  · intro supervised
    exact absurd (supervised.real 0 (by decide)) (by unfold Alive; decide)

end Supervisor

end Parler.Desktop
