import Mathlib.Logic.Function.Basic
import Parler.Lib.Runs

/-!
# A lock that is a file

`FileLock` of `crates/parler-cli/src/conversation/claude.rs`. Whoever creates the file exclusively has the
lock, and writes its pid into the file; whoever finds the file there looks whether it is stale, and if so
unlinks it. All this is done step by step on one path, by any number of processes, each of which may be slow
or die anywhere. A file keeps its number when it is unlinked: a process may still write to it.
-/

namespace Parler.Cli

open Parler.Lib

/-! ## Files and processes -/

/-- `LOCK_OWNER_GRACE`, in milliseconds. -/
def lockOwnerGrace : Nat := 1000

/-- The file at the path; the pid is `none` until it is written. A pid stands for the process that
    has it. -/
structure LockFile where
  number : Nat
  creator : Nat
  pid : Option Nat
  modified : Nat
  deriving DecidableEq

/-- Where a process is in `try_file_lock`, `lock_is_stale` and the drop of its lock. -/
inductive LockPhase where
  | idle
  /-- It has created the file and is about to write its pid. -/
  | writing (number : Nat)
  /-- It has a `FileLock`. -/
  | holding (number : Nat)
  /-- It found a file, and is about to look at its age. -/
  | found
  /-- The file was older than the grace; it is about to read the pid. -/
  | aged
  /-- It has read the pid from a file and is about to probe the process. -/
  | probing (number pid : Nat)
  /-- It takes the file it read, if there was one, for stale, and is about to unlink the path. -/
  | stale (number : Option Nat)
  deriving DecidableEq

structure LockSite where
  file : Option LockFile
  clock : Nat
  created : Nat
  alive : Nat → Bool
  phase : Nat → LockPhase

/-- Nobody has touched the path yet. -/
def LockSite.start : LockSite := ⟨none, 0, 0, fun _ => true, fun _ => .idle⟩

inductive LockEvent where
  | tick (ms : Nat)
  | die (p : Nat)
  /-- `open` with `create_new` -/
  | create (p : Nat)
  /-- `writeln!` of the pid; says whether it works. -/
  | write (p : Nat) (done : Bool)
  /-- `metadata`, and the comparison with the grace. -/
  | stat (p : Nat)
  /-- `read_to_string`, and the parse of the pid. -/
  | read (p : Nat)
  /-- `kill` with signal 0; says whether another process has the pid of a dead one by now. -/
  | probe (p : Nat) (reused : Bool)
  /-- `remove_file` of a stale lock. -/
  | unlink (p : Nat)
  /-- `Drop for FileLock` -/
  | drop (p : Nat)
  deriving DecidableEq

namespace LockSite

def atPhase (w : LockSite) (p : Nat) (phase : LockPhase) : LockSite :=
  { w with phase := Function.update w.phase p phase }

/-- The next operation of a live process. -/
def next (w : LockSite) : LockEvent → LockSite
  | .tick ms => { w with clock := w.clock + ms }
  | .die p => { w with alive := Function.update w.alive p false }
  | .create p =>
      match w.phase p, w.file with
      | .idle, none =>
          { w.atPhase p (.writing w.created) with
            file := some ⟨w.created, p, none, w.clock⟩, created := w.created + 1 }
      | .idle, some _ => w.atPhase p .found
      | _, _ => w
  | .write p done =>
      match w.phase p with
      | .writing number =>
          if done then
            { w.atPhase p (.holding number) with
              -- The path may hold another file by now, or none.
              file := w.file.map (fun f =>
                if f.number = number then { f with pid := some p, modified := w.clock } else f) }
          else w.atPhase p .idle
      | _ => w
  | .stat p =>
      match w.phase p, w.file with
      | .found, none => w.atPhase p .idle
      | .found, some f =>
          if w.clock - f.modified ≤ lockOwnerGrace then w.atPhase p .idle else w.atPhase p .aged
      | _, _ => w
  | .read p =>
      match w.phase p, w.file with
      | .aged, none => w.atPhase p (.stale none)
      | .aged, some ⟨number, _, none, _⟩ => w.atPhase p (.stale (some number))
      | .aged, some ⟨number, _, some pid, _⟩ => w.atPhase p (.probing number pid)
      | _, _ => w
  | .probe p reused =>
      match w.phase p with
      | .probing number pid =>
          if w.alive pid || reused then w.atPhase p .idle else w.atPhase p (.stale (some number))
      | _ => w
  | .unlink p =>
      match w.phase p with
      | .stale _ => { w.atPhase p .idle with file := none }
      | _ => w
  | .drop p =>
      match w.phase p with
      | .holding _ => { w.atPhase p .idle with file := none }
      | _ => w

end LockSite

/-- The process that makes the step; the clock and death come by themselves. -/
def LockEvent.actor : LockEvent → Option Nat
  | .tick _ | .die _ => none
  | .create p | .write p _ | .stat p | .read p | .probe p _ | .unlink p | .drop p => some p

/-- A step; the dead do nothing. -/
def LockSite.step (w : LockSite) (e : LockEvent) : LockSite :=
  match e.actor with
  | none => w.next e
  | some p => if w.alive p then w.next e else w

/-! ## Owners -/

namespace LockSite

variable {w : LockSite}

/-- The process is alive and has the lock through a file, or is about to. -/
def Owns (w : LockSite) (p number : Nat) : Prop :=
  w.alive p = true ∧ (w.phase p = .writing number ∨ w.phase p = .holding number)

/-- At most one live process has a `FileLock`. -/
def Exclusive (w : LockSite) : Prop :=
  ∀ p q i j, w.alive p = true → w.alive q = true → w.phase p = .holding i → w.phase q = .holding j → p = q

/-- An unlink, of a stale lock or on drop, that does not take the file of another live owner. -/
def Spares (w : LockSite) : LockEvent → Prop
  | .unlink p => w.alive p = true → (∃ judged, w.phase p = .stale judged) →
      ∀ f, w.file = some f → ∀ q, q ≠ p → ¬ w.Owns q f.number
  | .drop p => w.alive p = true → (∃ number, w.phase p = .holding number) →
      ∀ f, w.file = some f → ∀ q, q ≠ p → ¬ w.Owns q f.number
  | _ => True

/-- A step in time. Nobody reads the pid of a file while its live creator is about to write it, and a
    path that is unlinked as stale still holds the file that was judged, or none. -/
def InTime (w : LockSite) : LockEvent → Prop
  | .read p => w.alive p = true → w.phase p = .aged → ∀ f, w.file = some f → f.pid = none →
      ¬ (w.alive f.creator = true ∧ w.phase f.creator = .writing f.number)
  | .unlink p => w.alive p = true → ∀ judged, w.phase p = .stale judged →
      ∀ f, w.file = some f → judged = some f.number
  | _ => True

/-- An owner's file is at the path, and has its pid as soon as it holds the lock. What a contender has
    read of a file is so, and a file that it takes for stale has no owner. -/
structure Kept (w : LockSite) : Prop where
  numbered : ∀ f, w.file = some f → f.number < w.created
  signed : ∀ f pid, w.file = some f → f.pid = some pid → pid = f.creator
  owners : ∀ p number, w.Owns p number → ∃ f, w.file = some f ∧ f.number = number ∧ f.creator = p
  written : ∀ p number, w.alive p = true → w.phase p = .holding number →
    ∀ f, w.file = some f → f.pid = some p
  reading : ∀ p number pid, w.phase p = .probing number pid → number < w.created ∧
    ∀ f, w.file = some f → f.number = number → f.pid = some pid
  judged : ∀ p number, w.phase p = .stale (some number) → number < w.created ∧ ∀ q, ¬ w.Owns q number

theorem Kept.exclusive (kept : w.Kept) : w.Exclusive := by
  intro p q i j p_lives q_lives p_holds q_holds
  obtain ⟨f, at_path, -, by_p⟩ := kept.owners p i ⟨p_lives, Or.inr p_holds⟩
  obtain ⟨g, also, -, by_q⟩ := kept.owners q j ⟨q_lives, Or.inr q_holds⟩
  rw [at_path] at also
  cases also
  exact by_p.symm.trans by_q

/-- Only one process owns the file at the path. -/
theorem Kept.one_owner (kept : w.Kept) {p q i j : Nat} (p_owns : w.Owns p i) (q_owns : w.Owns q j) :
    p = q := by
  obtain ⟨f, at_path, -, by_p⟩ := kept.owners p i p_owns
  obtain ⟨g, also, -, by_q⟩ := kept.owners q j q_owns
  rw [at_path] at also
  cases also
  exact by_p.symm.trans by_q

theorem Kept.spares (kept : w.Kept) {e : LockEvent} (timely : w.InTime e) : w.Spares e := by
  cases e with
  | unlink p =>
    rintro lives ⟨judged, stale⟩ f at_path q - owns
    have same := timely lives judged stale f at_path
    rw [same] at stale
    exact (kept.judged p f.number stale).2 q owns
  | drop p =>
    rintro lives ⟨number, holds⟩ f at_path q other owns
    exact other (kept.one_owner owns ⟨lives, Or.inr holds⟩)
  | _ => trivial

/-- Who owns what after a process has moved to a phase in which it owns nothing. -/
theorem owns_of_passive {p : Nat} {phase : LockPhase}
    (passive : ∀ n, phase ≠ .writing n ∧ phase ≠ .holding n) {q n : Nat}
    (owns : (w.atPhase p phase).Owns q n) : q ≠ p ∧ w.Owns q n := by
  obtain ⟨lives, at_q⟩ := owns
  by_cases own : q = p
  · subst own
    simp only [atPhase, Function.update_self] at at_q
    rcases at_q with writes | holds
    · exact absurd writes (passive n).1
    · exact absurd holds (passive n).2
  · simp only [atPhase, Function.update_of_ne own] at at_q
    exact ⟨own, lives, at_q⟩

theorem update_phase {f : Nat → LockPhase} {p q : Nat} {phase φ : LockPhase}
    (at_q : Function.update f p phase q = φ) : (q = p ∧ phase = φ) ∨ (q ≠ p ∧ f q = φ) := by
  by_cases own : q = p
  · subst own
    exact Or.inl ⟨rfl, by simpa using at_q⟩
  · exact Or.inr ⟨own, by simpa [own] using at_q⟩

/-- A process moves to a phase in which it owns nothing; the file stays. -/
theorem Kept.passive (kept : w.Kept) {p : Nat} {phase : LockPhase}
    (passive : ∀ n, phase ≠ .writing n ∧ phase ≠ .holding n)
    (reading : ∀ n pid, phase = .probing n pid →
      n < w.created ∧ ∀ f, w.file = some f → f.number = n → f.pid = some pid)
    (judged : ∀ n, phase = .stale (some n) → n < w.created ∧ ∀ q, ¬ w.Owns q n) :
    (w.atPhase p phase).Kept where
  numbered := kept.numbered
  signed := kept.signed
  owners q n owns := kept.owners q n (owns_of_passive passive owns).2
  written := by
    intro q n lives holds
    rcases update_phase holds with ⟨-, same⟩ | ⟨-, held⟩
    · exact absurd same (passive n).2
    · exact kept.written q n lives held
  reading := by
    intro q n pid at_q
    rcases update_phase at_q with ⟨-, same⟩ | ⟨-, before⟩
    · exact reading n pid same
    · exact kept.reading q n pid before
  judged := by
    intro q n at_q
    have none_owns : n < w.created ∧ ∀ q, ¬ w.Owns q n := by
      rcases update_phase at_q with ⟨-, same⟩ | ⟨-, before⟩
      · exact judged n same
      · exact kept.judged q n before
    exact ⟨none_owns.1, fun r owns => none_owns.2 r (owns_of_passive passive owns).2⟩

theorem Kept.still (kept : w.Kept) {p : Nat} {phase : LockPhase}
    (still : phase = .idle ∨ phase = .found ∨ phase = .aged ∨ phase = .stale none) :
    (w.atPhase p phase).Kept := by
  rcases still with rfl | rfl | rfl | rfl <;> exact kept.passive (by simp) (by simp) (by simp)

/-- A process that owns the file, or has found that nobody does, empties the path. -/
theorem Kept.emptied (kept : w.Kept) {p : Nat} (alone : ∀ q n, q ≠ p → ¬ w.Owns q n) :
    { w.atPhase p .idle with file := none }.Kept where
  numbered := nofun
  signed := nofun
  owners q n owns := by
    have owns : (w.atPhase p .idle).Owns q n := owns
    obtain ⟨other, before⟩ := owns_of_passive (by simp) owns
    exact absurd before (alone q n other)
  written q n lives holds f at_path := by cases at_path
  reading q n pid at_q := by
    rcases update_phase at_q with ⟨-, same⟩ | ⟨-, before⟩
    · cases same
    · exact ⟨(kept.reading q n pid before).1, nofun⟩
  judged q n at_q := by
    rcases update_phase at_q with ⟨-, same⟩ | ⟨-, before⟩
    · cases same
    · obtain ⟨numbered, free⟩ := kept.judged q n before
      refine ⟨numbered, fun r owns => ?_⟩
      have owns : (w.atPhase p .idle).Owns r n := owns
      exact free r (owns_of_passive (by simp) owns).2

/-- A process creates the file at an empty path. -/
theorem Kept.created_file (kept : w.Kept) (empty : w.file = none) (p : Nat) :
    { w.atPhase p (.writing w.created) with
      file := some ⟨w.created, p, none, w.clock⟩, created := w.created + 1 }.Kept := by
  have nobody : ∀ q n, ¬ w.Owns q n := by
    intro q n owns
    obtain ⟨f, at_path, -⟩ := kept.owners q n owns
    rw [empty] at at_path
    cases at_path
  have new : ∀ q n, { w.atPhase p (.writing w.created) with
      file := some ⟨w.created, p, none, w.clock⟩, created := w.created + 1 }.Owns q n →
      q = p ∧ n = w.created := by
    rintro q n ⟨lives, writes | holds⟩
    · rcases update_phase writes with ⟨own, same⟩ | ⟨-, before⟩
      · cases same
        exact ⟨own, rfl⟩
      · exact absurd ⟨lives, Or.inl before⟩ (nobody q n)
    · rcases update_phase holds with ⟨-, same⟩ | ⟨-, before⟩
      · cases same
      · exact absurd ⟨lives, Or.inr before⟩ (nobody q n)
  constructor
  · rintro f ⟨⟩
    exact Nat.lt_succ_self _
  · rintro f pid ⟨⟩ unwritten
    cases unwritten
  · intro q n owns
    obtain ⟨rfl, rfl⟩ := new q n owns
    exact ⟨_, rfl, rfl, rfl⟩
  · intro q n lives holds
    rcases update_phase holds with ⟨-, same⟩ | ⟨-, before⟩
    · cases same
    · exact absurd ⟨lives, Or.inr before⟩ (nobody q n)
  · intro q n pid at_q
    rcases update_phase at_q with ⟨-, same⟩ | ⟨-, before⟩
    · cases same
    · have numbered := (kept.reading q n pid before).1
      refine ⟨Nat.lt_succ_of_lt numbered, ?_⟩
      rintro f ⟨⟩ same
      have same : w.created = n := same
      omega
  · intro q n at_q
    rcases update_phase at_q with ⟨-, same⟩ | ⟨-, before⟩
    · cases same
    · have numbered := (kept.judged q n before).1
      refine ⟨Nat.lt_succ_of_lt numbered, ?_⟩
      intro r owns
      have same := (new r n owns).2
      omega

/-- A process writes its pid into the file it created, which is at the path. -/
theorem Kept.written_pid (kept : w.Kept) {p number : Nat} (lives : w.alive p = true)
    (writes : w.phase p = .writing number) :
    { w.atPhase p (.holding number) with
      file := w.file.map (fun f : LockFile =>
        if f.number = number then { f with pid := some p, modified := w.clock } else f) }.Kept := by
  obtain ⟨f, at_path, same, by_p⟩ := kept.owners p number ⟨lives, Or.inl writes⟩
  subst same
  have file : w.file.map (fun g : LockFile =>
      if g.number = f.number then { g with pid := some p, modified := w.clock } else g) =
      some { f with pid := some p, modified := w.clock } := by
    simp [at_path]
  rw [file]
  have before : ∀ q n, { w.atPhase p (.holding f.number) with
      file := some { f with pid := some p, modified := w.clock } }.Owns q n → w.Owns q n := by
    rintro q n ⟨q_lives, q_writes | q_holds⟩
    · rcases update_phase q_writes with ⟨-, same⟩ | ⟨-, before⟩
      · cases same
      · exact ⟨q_lives, Or.inl before⟩
    · rcases update_phase q_holds with ⟨rfl, same⟩ | ⟨-, before⟩
      · cases same
        exact ⟨lives, Or.inl writes⟩
      · exact ⟨q_lives, Or.inr before⟩
  constructor
  · rintro g ⟨⟩
    exact kept.numbered f at_path
  · rintro g pid ⟨⟩ signed
    cases signed
    exact by_p.symm
  · intro q n owns
    obtain ⟨g, also, number, by_q⟩ := kept.owners q n (before q n owns)
    rw [at_path] at also
    cases also
    exact ⟨_, rfl, number, by_q⟩
  · intro q n q_lives q_holds g here
    have own := kept.one_owner (before q n ⟨q_lives, Or.inr q_holds⟩) ⟨lives, Or.inl writes⟩
    cases here
    rw [own]
  · intro q n pid at_q
    rcases update_phase at_q with ⟨-, same⟩ | ⟨-, probes⟩
    · cases same
    · obtain ⟨numbered, read⟩ := kept.reading q n pid probes
      refine ⟨numbered, ?_⟩
      rintro g ⟨⟩ number
      have known := read f at_path number
      have signed := kept.signed f pid at_path known
      rw [signed, by_p]
  · intro q n at_q
    rcases update_phase at_q with ⟨-, same⟩ | ⟨-, stale⟩
    · cases same
    · obtain ⟨numbered, free⟩ := kept.judged q n stale
      exact ⟨numbered, fun r owns => free r (before r n owns)⟩

theorem Kept.died (kept : w.Kept) (p : Nat) :
    { w with alive := Function.update w.alive p false }.Kept := by
  have lived : ∀ q, Function.update w.alive p false q = true → w.alive q = true := by
    intro q lives
    by_cases own : q = p
    · simp [own] at lives
    · simpa [own] using lives
  exact ⟨kept.numbered, kept.signed, fun q n owns => kept.owners q n ⟨lived q owns.1, owns.2⟩,
    fun q n lives => kept.written q n (lived q lives), kept.reading,
    fun q n stale => ⟨(kept.judged q n stale).1,
      fun r owns => (kept.judged q n stale).2 r ⟨lived r owns.1, owns.2⟩⟩⟩

/-- What a contender reads. An empty file has no owner if the step is in time. -/
theorem Kept.reads (kept : w.Kept) {p : Nat} (lives : w.alive p = true) (timely : w.InTime (.read p)) :
    (w.next (.read p)).Kept := by
  simp only [next]
  split
  · exact kept.still (by simp)
  · rename_i number creator modified aged at_path
    refine kept.passive (by simp) (by simp) ?_
    rintro n ⟨⟩
    refine ⟨kept.numbered _ at_path, ?_⟩
    intro q owns
    obtain ⟨f, also, -, by_q⟩ := kept.owners q number owns
    rw [at_path] at also
    cases also
    subst by_q
    obtain ⟨q_lives, writes | holds⟩ := owns
    · exact timely lives aged _ at_path rfl ⟨q_lives, writes⟩
    · have signed := kept.written _ number q_lives holds _ at_path
      cases signed
  · rename_i number creator pid modified aged at_path
    refine kept.passive (by simp) ?_ (by simp)
    rintro n pid' ⟨⟩
    refine ⟨kept.numbered _ at_path, ?_⟩
    rintro f also -
    rw [at_path] at also
    cases also
    rfl
  · exact kept

/-- A process whose pid is in the file that was read does not own it when it is dead. -/
theorem Kept.probes (kept : w.Kept) (p : Nat) (reused : Bool) : (w.next (.probe p reused)).Kept := by
  simp only [next]
  split
  · rename_i number pid probing
    split
    · exact kept.still (by simp)
    · rename_i gone
      obtain ⟨numbered, read⟩ := kept.reading p number pid probing
      refine kept.passive (by simp) (by simp) ?_
      rintro n ⟨⟩
      refine ⟨numbered, ?_⟩
      intro q owns
      obtain ⟨f, at_path, same, by_q⟩ := kept.owners q number owns
      have signed := kept.signed f pid at_path (read f at_path same)
      have dead : w.alive pid = false := by
        simp only [Bool.or_eq_true, not_or, Bool.not_eq_true] at gone
        exact gone.1
      rw [signed, by_q, owns.1] at dead
      cases dead
  · exact kept

/-- The step lemma. -/
theorem Kept.step (kept : w.Kept) (e : LockEvent) (timely : w.InTime e) : (w.step e).Kept := by
  unfold LockSite.step
  cases e with
  | tick ms => exact ⟨kept.numbered, kept.signed, kept.owners, kept.written, kept.reading, kept.judged⟩
  | die p => exact kept.died p
  | create p =>
    dsimp only [LockEvent.actor]
    split
    · simp only [next]
      split
      · rename_i empty
        exact kept.created_file empty p
      · exact kept.still (by simp)
      · exact kept
    · exact kept
  | write p done =>
    dsimp only [LockEvent.actor]
    split
    · rename_i lives
      simp only [next]
      split
      · rename_i number writes
        split
        · exact kept.written_pid lives writes
        · exact kept.still (by simp)
      · exact kept
    · exact kept
  | stat p =>
    dsimp only [LockEvent.actor]
    split
    · simp only [next]
      split
      · exact kept.still (by simp)
      · split <;> exact kept.still (by simp)
      · exact kept
    · exact kept
  | read p =>
    dsimp only [LockEvent.actor]
    split
    · rename_i lives
      exact kept.reads lives timely
    · exact kept
  | probe p reused =>
    dsimp only [LockEvent.actor]
    split
    · exact kept.probes p reused
    · exact kept
  | unlink p =>
    dsimp only [LockEvent.actor]
    split
    · rename_i lives
      simp only [next]
      split
      · rename_i judged stale
        apply kept.emptied
        rintro q n - owns
        -- Whoever owns a file owns the one at the path, which was judged.
        obtain ⟨f, at_path, same, -⟩ := kept.owners q n owns
        have judged_f := timely lives judged stale f at_path
        rw [judged_f] at stale
        exact (kept.judged p f.number stale).2 q (same ▸ owns)
      · exact kept
    · exact kept
  | drop p =>
    dsimp only [LockEvent.actor]
    split
    · rename_i lives
      simp only [next]
      split
      · rename_i number holds
        apply kept.emptied
        intro q n other owns
        exact other (kept.one_owner owns ⟨lives, Or.inr holds⟩)
      · exact kept
    · exact kept

theorem kept_start : LockSite.start.Kept where
  numbered := nofun
  signed := nofun
  owners := by
    rintro p n ⟨-, writes | holds⟩
    · cases writes
    · cases holds
  written := nofun
  reading := nofun
  judged := nofun

end LockSite

/-- In every run whose steps are in time, at most one live process has the lock in every state reached,
    and no unlink takes the lock file of another live owner. -/
theorem file_lock_exclusive (run : List LockEvent)
    (timely : ∀ part e, part ++ [e] <+: run → (part.foldl LockSite.step .start).InTime e) :
    (∀ part, part <+: run → (part.foldl LockSite.step .start).Exclusive) ∧
      ∀ part e, part ++ [e] <+: run → (part.foldl LockSite.step .start).Spares e := by
  have each := eachStep_iff.mpr timely
  have kept : Throughout LockSite.step LockSite.Kept .start run :=
    throughout_of_keeps (fun w e kept fine => kept.step e fine) LockSite.kept_start each
  have kept := throughout_iff.mp kept
  refine ⟨fun part short => (kept part short).exclusive, ?_⟩
  intro part e short
  exact (kept part ((List.prefix_append part [e]).trans short)).spares (timely part e short)

/-- Process 0 dies with the lock, and 1 finds it stale. -/
def deadOwner : List LockEvent :=
  [.create 0, .write 0 true, .die 0, .tick 1001, .create 1, .stat 1, .read 1, .probe 1 false]

/-- It unlinks the file and creates its own. -/
def takenOver : List LockEvent := deadOwner ++ [LockEvent.unlink 1, .create 1, .write 1 true]

/-- One contender alone gets the lock of a dead owner. -/
theorem file_lock_exclusive_demo :
    (takenOver.foldl LockSite.step .start).phase 1 = .holding 1 ∧
      (takenOver.foldl LockSite.step .start).Exclusive := by
  refine ⟨by decide, ?_⟩
  refine (file_lock_exclusive takenOver ?_).1 takenOver (List.prefix_refl _)
  refine eachStep_iff.mp (show EachStep LockSite.step LockSite.InTime .start takenOver from ?_)
  refine ⟨trivial, trivial, trivial, trivial, trivial, trivial, ?_, trivial, ?_, trivial, trivial, trivial⟩
  · rintro - - f at_path unwritten
    cases at_path
    cases unwritten
  · rintro - judged stale f at_path
    cases stale
    cases at_path
    rfl

/-- A second contender, which found the same lock stale and is slower, unlinks the fresh lock of 1 and
    takes it too. -/
theorem two_hold_the_lock :
    ¬ ∀ run : List LockEvent, (run.foldl LockSite.step .start).Exclusive := by
  intro always
  have both := always (deadOwner ++ [.create 2, .stat 2, .read 2, .probe 2 false,
    .unlink 1, .create 1, .write 1 true, .unlink 2, .create 2, .write 2 true]) 1 2 1 2
    (by decide) (by decide) (by decide) (by decide)
  cases both

end Parler.Cli
