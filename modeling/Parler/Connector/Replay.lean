import Mathlib.Logic.Function.Basic
import Parler.Lib.Fifo
import Parler.Protocol.Signature

/-!
# The replay ledger

`AutonomousReplayGuard` of `crates/parler-connector/src/runtime.rs`: before a message may
start work, the pair of its author and its signed uid is reserved in a ledger file that all
processes of one identity share. Every operation on the file holds a file lock from before
it reads to after it wrote, and the file is replaced by a rename, so an operation is one
step here. A process that stops inside an operation has replaced the file or has not;
stopping between operations covers both.
-/

namespace Parler.Connector

open Parler.Lib Parler.Protocol

/-- `REPLAY_CAP`. Nothing depends on its value. -/
@[irreducible]
def replayCap : Nat := 16384

/-- The keys of a ledger (`completed`) and their order. -/
abbrev ReplayBucket := Fifo String

/-- The in-memory state of one process. -/
structure AutonomousReplayGuard where
  /-- `path.is_some()` -/
  durable : Bool
  bucket : ReplayBucket
  pending : Finset String
  loaded : Bool

/-- An input or output error of an operation. -/
inductive Fault where
  | lock
  | read
  | save
  deriving DecidableEq

/-- `replay_key`: the author and the signed uid. -/
def replayKey (message : StoredMessage) : Option String :=
  (MessageSig.fromParts message.parts).map (fun sig => message.sender.id ++ ":" ++ sig.uid)

def replayKeys (messages : List StoredMessage) : List String := messages.filterMap replayKey

namespace AutonomousReplayGuard

def ephemeral : AutonomousReplayGuard := ⟨false, .empty, ∅, true⟩

def persistent : AutonomousReplayGuard := ⟨true, .empty, ∅, false⟩

variable (g : AutonomousReplayGuard) (disk : Option (List String)) (fault : Option Fault)

/-- A guard without a file never fails. -/
def fails (kind : Fault) : Bool := g.durable && fault = some kind

/-- `refresh`: the last `REPLAY_CAP` keys of the file. -/
def refresh : AutonomousReplayGuard :=
  if !g.durable && g.loaded then g
  else
    { g with
      bucket := if g.durable then Fifo.load replayCap (disk.getD []) else .empty
      loaded := true }

/-- `save`: the file after it. -/
def save : Option (List String) := if g.durable then some g.bucket.order else disk

/-- `admit` once the key is known; `none` is an error. -/
def reserve (key : String) : Option Bool × Option (List String) × AutonomousReplayGuard :=
  if g.fails fault .lock || g.fails fault .read then (none, disk, g)
  else
    let g := g.refresh disk
    if key ∈ g.bucket.members then (some false, disk, g)
    else
      let g := { g with bucket := g.bucket.remember replayCap key }
      if g.fails fault .save then (none, disk, g)
      else (some true, g.save disk, { g with pending := insert key g.pending })

/-- `admit`. -/
def admitMessage (F : FloatFormat) (verify : String → List UInt8 → String → Bool)
    (message : StoredMessage) (recipient : String) :
    Option Bool × Option (List String) × AutonomousReplayGuard :=
  if verifyMessageForRoom F verify message recipient ≠ .valid then (some false, disk, g)
  else
    match replayKey message with
    | none => (some false, disk, g)
    | some key => g.reserve disk fault key

/-- `complete`. -/
def complete (messages : List StoredMessage) : AutonomousReplayGuard :=
  { g with pending := (replayKeys messages).foldl Finset.erase g.pending }

/-- The release of one key, and whether the ledger changed. -/
def releaseKey (state : AutonomousReplayGuard × Bool) (key : String) :
    AutonomousReplayGuard × Bool :=
  let (g, dirty) := state
  if key ∈ g.pending then
    let g := { g with pending := g.pending.erase key }
    if key ∈ g.bucket.members then ({ g with bucket := g.bucket.remove key }, true) else (g, dirty)
  else (g, dirty)

/-- `release`; `none` is an error. -/
def release (messages : List StoredMessage) :
    Option Unit × Option (List String) × AutonomousReplayGuard :=
  if g.fails fault .lock || g.fails fault .read then (none, disk, g)
  else
    let (g, dirty) := (replayKeys messages).foldl releaseKey (g.refresh disk, false)
    if dirty then
      if g.fails fault .save then (none, disk, g) else (some (), g.save disk, g)
    else (some (), disk, g)

end AutonomousReplayGuard

/-! ## What an operation does -/

/-- The file holds each key once and at most `REPLAY_CAP` keys. -/
def DiskFormed (disk : Option (List String)) : Prop :=
  (disk.getD []).Nodup ∧ (disk.getD []).length ≤ replayCap

theorem diskFormed_some {keys : List String} (nodup : keys.Nodup) (short : keys.length ≤ replayCap) :
    DiskFormed (some keys) := ⟨nodup, short⟩

/-- The in-memory ledger of a process that has a file. -/
def GuardFormed (g : AutonomousReplayGuard) : Prop := g.durable = true ∧ g.bucket.Bounded replayCap

namespace AutonomousReplayGuard

variable {g : AutonomousReplayGuard} {disk : Option (List String)} {fault : Option Fault}

theorem refresh_eq (durable : g.durable = true) (formed : DiskFormed disk) :
    g.refresh disk =
      { g with bucket := ⟨(disk.getD []).toFinset, disk.getD []⟩, loaded := true } := by
  simp [refresh, durable, Fifo.load_eq formed.1 formed.2]

theorem refresh_formed (own : GuardFormed g) (formed : DiskFormed disk) :
    GuardFormed (g.refresh disk) := by
  rw [refresh_eq own.1 formed]
  exact ⟨own.1, formed.1, rfl, formed.2⟩

/-- A reservation succeeds for a key that is not in the file, and appends it there; otherwise it
    leaves the file and the releasable keys, and without a fault the key was in the file. -/
theorem reserve_cases (own : GuardFormed g) (formed : DiskFormed disk) (key : String) :
    (∃ result g', g.reserve disk fault key = (result, disk, g') ∧ GuardFormed g' ∧
      g'.pending = g.pending ∧
      (result = none ∧ fault ≠ none ∨ result = some false ∧ key ∈ disk.getD [])) ∨
    (key ∉ disk.getD [] ∧ ∃ g', GuardFormed g' ∧ g'.pending = insert key g.pending ∧
      g.reserve disk fault key =
        (some true, some (lastN replayCap (disk.getD [] ++ [key])), g')) := by
  have kept := refresh_formed own formed
  have pending : (g.refresh disk).pending = g.pending := by rw [refresh_eq own.1 formed]
  have file : (g.refresh disk).bucket.order = disk.getD [] := by rw [refresh_eq own.1 formed]
  have faulty : ∀ (g : AutonomousReplayGuard) kind, g.fails fault kind = true → fault ≠ none := by
    intro g kind fails sound
    simp [sound, AutonomousReplayGuard.fails] at fails
  unfold reserve
  split
  · rename_i fails
    refine Or.inl ⟨none, g, rfl, own, rfl, Or.inl ⟨rfl, ?_⟩⟩
    rcases Bool.or_eq_true _ _ ▸ fails with lock | read
    · exact faulty g .lock lock
    · exact faulty g .read read
  · dsimp only
    split
    · rename_i present
      refine Or.inl ⟨some false, _, rfl, kept, pending, Or.inr ⟨rfl, ?_⟩⟩
      rw [← file, ← kept.2.mem_iff]
      exact present
    · rename_i absent
      have new : key ∉ (g.refresh disk).bucket.order := by
        rw [← kept.2.mem_iff]
        exact absent
      have bounded := Fifo.remember_bounded kept.2 new
      split
      · rename_i fails
        exact Or.inl ⟨none, _, rfl, ⟨kept.1, bounded⟩, pending, Or.inl ⟨rfl, faulty _ .save fails⟩⟩
      · refine Or.inr ⟨file ▸ new,
          { g.refresh disk with
            bucket := (g.refresh disk).bucket.remember replayCap key
            pending := insert key (g.refresh disk).pending },
          ⟨kept.1, bounded⟩, by rw [pending], ?_⟩
        have order : ((g.refresh disk).bucket.remember replayCap key).order =
            lastN replayCap (disk.getD [] ++ [key]) := by
          rw [Fifo.remember_eq kept.2 new, file]
        rw [save, if_pos kept.1, order]

theorem admit_cases (F : FloatFormat) (verify : String → List UInt8 → String → Bool)
    (own : GuardFormed g) (formed : DiskFormed disk) (fault : Option Fault) (message : StoredMessage)
    (recipient : String) :
    (∃ result g', g.admitMessage disk fault F verify message recipient = (result, disk, g') ∧
      GuardFormed g' ∧ g'.pending = g.pending ∧
      (result = none ∧ fault ≠ none ∨
        result = some false ∧ (verifyMessageForRoom F verify message recipient = .valid →
          ∀ key, replayKey message = some key → key ∈ disk.getD []))) ∨
    ∃ key, replayKey message = some key ∧ key ∉ disk.getD [] ∧
      ∃ g', GuardFormed g' ∧ g'.pending = insert key g.pending ∧
        g.admitMessage disk fault F verify message recipient =
          (some true, some (lastN replayCap (disk.getD [] ++ [key])), g') := by
  unfold admitMessage
  split
  · rename_i invalid
    exact Or.inl ⟨some false, g, rfl, own, rfl, Or.inr ⟨rfl, fun valid => absurd valid invalid⟩⟩
  · cases keyed : replayKey message with
    | none => exact Or.inl ⟨some false, g, rfl, own, rfl, Or.inr ⟨rfl, by simp⟩⟩
    | some key =>
      rcases reserve_cases own formed key with ⟨result, g', outcome, own', same, refused⟩ | ⟨new, reserved⟩
      · refine Or.inl ⟨result, g', outcome, own', same, refused.imp_right ?_⟩
        rintro ⟨no, known⟩
        refine ⟨no, fun _ key' same => ?_⟩
        cases same
        exact known
      · exact Or.inr ⟨key, rfl, new, reserved⟩

/-- Releasing keys removes some of them from the ledger, all of them releasable before. -/
theorem releaseKeys_spec (keys : List String) (bounded : g.bucket.Bounded replayCap) (dirty : Bool) :
    ∃ removed : Finset String, removed ⊆ g.pending ∧ removed ⊆ keys.toFinset ∧
      (keys.foldl releaseKey (g, dirty)).1.bucket.order =
        g.bucket.order.filter (fun k => k ∉ removed) ∧
      (keys.foldl releaseKey (g, dirty)).1.bucket.Bounded replayCap ∧
      (keys.foldl releaseKey (g, dirty)).1.durable = g.durable := by
  induction keys generalizing g dirty with
  | nil => exact ⟨∅, by simp, by simp, by simp, bounded, rfl⟩
  | cons key keys ih =>
    rw [List.foldl_cons]
    by_cases releasable : key ∈ g.pending
    · by_cases listed : key ∈ g.bucket.members
      · -- The key leaves the ledger.
        have step : releaseKey (g, dirty) key =
            ({ g with pending := g.pending.erase key, bucket := g.bucket.remove key }, true) := by
          simp [releaseKey, releasable, listed]
        rw [step]
        obtain ⟨removed, pending, among, order, bounded', durable⟩ :=
          ih (g := { g with pending := g.pending.erase key, bucket := g.bucket.remove key })
            (Fifo.remove_bounded bounded) true
        refine ⟨insert key removed, ?_, ?_, ?_, bounded', durable⟩
        · exact Finset.insert_subset releasable
            (pending.trans (Finset.erase_subset key g.pending))
        · rw [List.toFinset_cons]
          exact Finset.insert_subset_insert key among
        · rw [order, Fifo.remove, List.filter_filter]
          apply List.filter_congr
          intro k _
          rw [Bool.eq_iff_iff]
          simp [and_comm, not_or]
      · have step : releaseKey (g, dirty) key = ({ g with pending := g.pending.erase key }, dirty) := by
          simp [releaseKey, releasable, listed]
        rw [step]
        obtain ⟨removed, pending, among, rest⟩ :=
          ih (g := { g with pending := g.pending.erase key }) bounded dirty
        refine ⟨removed, pending.trans (Finset.erase_subset key g.pending), ?_, rest⟩
        rw [List.toFinset_cons]
        exact among.trans (Finset.subset_insert key _)
    · have step : releaseKey (g, dirty) key = (g, dirty) := by simp [releaseKey, releasable]
      rw [step]
      obtain ⟨removed, pending, among, rest⟩ := ih bounded dirty
      refine ⟨removed, pending, ?_, rest⟩
      rw [List.toFinset_cons]
      exact among.trans (Finset.subset_insert key _)

/-- A release removes some of the named keys from the file, all of them releasable before. -/
theorem release_cases (own : GuardFormed g) (formed : DiskFormed disk) (fault : Option Fault)
    (messages : List StoredMessage) :
    ∃ result disk' g', g.release disk fault messages = (result, disk', g') ∧ GuardFormed g' ∧
      ((result = none ∧ disk' = disk) ∨
        (result = some () ∧ ∃ removed : Finset String, removed ⊆ g.pending ∧
          removed ⊆ (replayKeys messages).toFinset ∧
          disk'.getD [] = (disk.getD []).filter (fun k => k ∉ removed))) := by
  have kept := refresh_formed own formed
  have pending : (g.refresh disk).pending = g.pending := by rw [refresh_eq own.1 formed]
  have file : (g.refresh disk).bucket.order = disk.getD [] := by rw [refresh_eq own.1 formed]
  obtain ⟨removed, releasable, among, order, bounded, durable⟩ :=
    releaseKeys_spec (replayKeys messages) kept.2 false
  have formed' : GuardFormed ((replayKeys messages).foldl releaseKey (g.refresh disk, false)).1 :=
    ⟨durable.trans kept.1, bounded⟩
  unfold release
  split
  · exact ⟨none, disk, g, rfl, own, Or.inl ⟨rfl, rfl⟩⟩
  · dsimp only
    split
    · split
      · exact ⟨none, disk, _, rfl, formed', Or.inl ⟨rfl, rfl⟩⟩
      · refine ⟨some (), _, _, rfl, formed', Or.inr ⟨rfl, removed, pending ▸ releasable, among, ?_⟩⟩
        rw [save, if_pos formed'.1, Option.getD_some, order, file]
    · exact ⟨some (), disk, _, rfl, formed', Or.inr ⟨rfl, ∅, by simp, by simp, by simp⟩⟩

end AutonomousReplayGuard

/-! ## Processes that share a ledger -/

/-- What happened to the ledger. -/
inductive ReplayEvent where
  | started (process : Nat)
  | admitted (process : Nat) (key : String)
  | released (process : Nat) (keys : List String)
  deriving DecidableEq

/-- The key an event admits. -/
def ReplayEvent.admits : ReplayEvent → Option String
  | .admitted _ key => some key
  | _ => none

/-- The ledger file, the processes alive, and what happened, newest first. -/
structure ReplayWorld where
  disk : Option (List String)
  guards : Nat → Option AutonomousReplayGuard
  log : List ReplayEvent

/-- What a process does. A restarted process is a new one. -/
inductive ReplayAction where
  | start (process : Nat)
  | admitMessage (process : Nat) (message : StoredMessage) (recipient : String) (fault : Option Fault)
  | complete (process : Nat) (messages : List StoredMessage)
  | release (process : Nat) (messages : List StoredMessage) (fault : Option Fault)
  | stop (process : Nat)

namespace ReplayWorld

def init : ReplayWorld := ⟨none, fun _ => none, []⟩

/-- The keys of the file. -/
def ledger (w : ReplayWorld) : List String := w.disk.getD []

theorem ledger_some (keys : List String) (guards : Nat → Option AutonomousReplayGuard)
    (log : List ReplayEvent) : (⟨some keys, guards, log⟩ : ReplayWorld).ledger = keys := rfl

section

variable (F : FloatFormat) (verify : String → List UInt8 → String → Bool) (w : ReplayWorld)

/-- One step. An action of a process that is not alive does nothing. -/
def act : ReplayAction → ReplayWorld
  | .start n =>
      if .started n ∈ w.log then w
      else
        { w with
          guards := Function.update w.guards n (some .persistent)
          log := .started n :: w.log }
  | .admitMessage n message recipient fault =>
      match w.guards n with
      | none => w
      | some g =>
          let (result, disk, g) := g.admitMessage w.disk fault F verify message recipient
          { disk := disk
            guards := Function.update w.guards n (some g)
            log :=
              match result, replayKey message with
              | some true, some key => .admitted n key :: w.log
              | _, _ => w.log }
  | .complete n messages =>
      match w.guards n with
      | none => w
      | some g => { w with guards := Function.update w.guards n (some (g.complete messages)) }
  | .release n messages fault =>
      match w.guards n with
      | none => w
      | some g =>
          let (result, disk, g) := g.release w.disk fault messages
          { disk := disk
            guards := Function.update w.guards n (some g)
            log := if result.isSome then .released n (replayKeys messages) :: w.log else w.log }
  | .stop n => { w with guards := Function.update w.guards n none }

/-- The worlds that runs reach whose actions `G` lets happen. -/
inductive Reachable (G : ReplayWorld → ReplayAction → Prop) : ReplayWorld → Prop where
  | init : Reachable G init
  | act {w : ReplayWorld} (a : ReplayAction) : Reachable G w → G w a → Reachable G (w.act F verify a)

end

/-- The file and the ledgers in memory are as they should be. -/
structure Formed (w : ReplayWorld) : Prop where
  disk : DiskFormed w.disk
  guards : ∀ n g, w.guards n = some g → GuardFormed g

/-- What an action does to the ledger and the log. -/
inductive Change (w : ReplayWorld) (a : ReplayAction) (w' : ReplayWorld) : Prop where
  | quiet (ledger : w'.ledger = w.ledger) (log : w'.log = w.log ∨ ∃ n, w'.log = .started n :: w.log)
  | admitted (n : Nat) (key : String) (new : key ∉ w.ledger)
      (ledger : w'.ledger = lastN replayCap (w.ledger ++ [key]))
      (log : w'.log = .admitted n key :: w.log)
  | released (n : Nat) (messages : List StoredMessage) (fault : Option Fault)
      (g : AutonomousReplayGuard) (removed : Finset String) (act : a = .release n messages fault)
      (alive : w.guards n = some g) (own : removed ⊆ g.pending)
      (named : removed ⊆ (replayKeys messages).toFinset)
      (ledger : w'.ledger = w.ledger.filter (fun k => k ∉ removed))
      (log : w'.log = .released n (replayKeys messages) :: w.log)

section Steps

variable {F : FloatFormat} {verify : String → List UInt8 → String → Bool} {w : ReplayWorld}

theorem Formed.update (formed : w.Formed) {n : Nat} {g : AutonomousReplayGuard}
    {disk : Option (List String)} {log : List ReplayEvent} (file : DiskFormed disk)
    (own : GuardFormed g) :
    (⟨disk, Function.update w.guards n (some g), log⟩ : ReplayWorld).Formed := by
  refine ⟨file, ?_⟩
  intro m g' alive
  simp only [Function.update_apply] at alive
  split at alive
  · cases alive
    exact own
  · exact formed.guards m g' alive

/-- The step lemma: every action keeps the ledgers formed, and what it does to the shared one. -/
theorem act_change (F : FloatFormat) (verify : String → List UInt8 → String → Bool)
    (formed : w.Formed) (a : ReplayAction) :
    (w.act F verify a).Formed ∧ w.Change a (w.act F verify a) := by
  cases a with
  | start n =>
    unfold act
    dsimp only
    split
    · exact ⟨formed, .quiet rfl (Or.inl rfl)⟩
    · refine ⟨formed.update formed.disk ⟨rfl, Fifo.empty_bounded⟩, .quiet rfl (Or.inr ⟨n, rfl⟩)⟩
  | admitMessage n message recipient fault =>
    cases alive : w.guards n with
    | none =>
      simp only [act, alive]
      exact ⟨formed, .quiet rfl (Or.inl rfl)⟩
    | some g =>
      have own := formed.guards n g alive
      simp only [act, alive]
      rcases AutonomousReplayGuard.admit_cases F verify own formed.disk fault message recipient with
        ⟨result, g', outcome, own', -, refused⟩ | ⟨key, keyed, new, g', own', -, outcome⟩
      · rw [outcome]
        refine ⟨formed.update formed.disk own', .quiet rfl (Or.inl ?_)⟩
        rcases refused with ⟨rfl, -⟩ | ⟨rfl, -⟩ <;> rfl
      · rw [outcome, keyed]
        have nodup : (w.ledger ++ [key]).Nodup := by
          rw [List.nodup_append]
          refine ⟨formed.disk.1, List.nodup_singleton _, ?_⟩
          intro k member k' single same
          rw [List.mem_singleton.mp single] at same
          exact new (same ▸ member)
        have file := diskFormed_some (nodup.sublist (lastN_sublist replayCap _))
          (length_lastN_le replayCap _)
        exact ⟨formed.update file own', .admitted n key new (ledger_some _ _ _) rfl⟩
  | complete n messages =>
    cases alive : w.guards n with
    | none =>
      simp only [act, alive]
      exact ⟨formed, .quiet rfl (Or.inl rfl)⟩
    | some g =>
      simp only [act, alive]
      exact ⟨formed.update formed.disk (formed.guards n g alive), .quiet rfl (Or.inl rfl)⟩
  | release n messages fault =>
    cases alive : w.guards n with
    | none =>
      simp only [act, alive]
      exact ⟨formed, .quiet rfl (Or.inl rfl)⟩
    | some g =>
      simp only [act, alive]
      obtain ⟨result, disk, g', outcome, own', effect⟩ := AutonomousReplayGuard.release_cases
        (formed.guards n g alive) formed.disk fault messages
      rw [outcome]
      rcases effect with ⟨rfl, rfl⟩ | ⟨rfl, removed, own, named, file⟩
      · exact ⟨formed.update formed.disk own', .quiet rfl (Or.inl rfl)⟩
      · refine ⟨formed.update ⟨?_, ?_⟩ own',
          .released n messages fault g removed rfl alive own named file rfl⟩
        · rw [file]
          exact formed.disk.1.sublist List.filter_sublist
        · rw [file]
          exact (List.length_filter_le _ _).trans formed.disk.2
  | stop n =>
    refine ⟨⟨formed.disk, ?_⟩, .quiet rfl (Or.inl rfl)⟩
    intro m g alive
    simp only [act, Function.update_apply] at alive
    split at alive
    · cases alive
    · exact formed.guards m g alive

/-- In every run the ledgers are formed. -/
theorem formed_run {G : ReplayWorld → ReplayAction → Prop} (reach : Reachable F verify G w) :
    w.Formed := by
  induction reach with
  | init => exact ⟨⟨List.nodup_nil, Nat.zero_le _⟩, fun n g alive => nomatch alive⟩
  | act a before _ ih => exact (act_change F verify ih a).1

end Steps

/-! ## At most once -/

/-- The other keys admitted in a stretch of the log. -/
def others (key : String) (log : List ReplayEvent) : Finset String :=
  (log.filterMap ReplayEvent.admits).toFinset.erase key

/-- The process that admitted a key last. -/
def lastAdmitter (key : String) : List ReplayEvent → Option Nat
  | [] => none
  | .admitted n k :: log => if k = key then some n else lastAdmitter key log
  | _ :: log => lastAdmitter key log

/-- The runs in which no process releases a key that another has admitted since it did. -/
def ownReleases (w : ReplayWorld) : ReplayAction → Prop
  | .release n messages _ =>
      ∀ g, w.guards n = some g → ∀ key ∈ replayKeys messages, key ∈ g.pending → key ∈ w.ledger →
        lastAdmitter key w.log = some n
  | _ => True

/-- A key was released by the process that admitted it, or enough others were admitted since. -/
def Freed (n : Nat) (key : String) (since : List ReplayEvent) : Prop :=
  (∃ keys, .released n keys ∈ since ∧ key ∈ keys) ∨ replayCap ≤ (others key since).card

/-- Since its last admission a key stands in the ledger before others admitted since, or it was
    freed. -/
def Accounted (w : ReplayWorld) : Prop :=
  ∀ since n key older, w.log = since ++ ReplayEvent.admitted n key :: older →
    (∀ e ∈ since, e.admits ≠ some key) →
    (∃ left right, w.ledger = left ++ key :: right ∧ ∀ k ∈ right, k ∈ others key since) ∨
      Freed n key since

theorem others_cons_quiet {key : String} {e : ReplayEvent} (quiet : e.admits = none)
    (log : List ReplayEvent) : others key (e :: log) = others key log := by
  simp [others, quiet]

theorem others_cons_admitted {key k : String} {n : Nat} (other : k ≠ key) (log : List ReplayEvent) :
    others key (.admitted n k :: log) = insert k (others key log) := by
  simp [others, ReplayEvent.admits, Finset.erase_insert_of_ne other]

theorem Freed.cons {n : Nat} {key : String} {since : List ReplayEvent} (e : ReplayEvent)
    (freed : Freed n key since) : Freed n key (e :: since) := by
  rcases freed with ⟨keys, released, among⟩ | evicted
  · exact Or.inl ⟨keys, List.mem_cons_of_mem _ released, among⟩
  · refine Or.inr (evicted.trans (Finset.card_le_card ?_))
    unfold others
    apply Finset.erase_subset_erase
    intro k member
    rw [List.mem_toFinset] at member ⊢
    exact List.mem_filterMap.mpr (by
      obtain ⟨e', logged, admits⟩ := List.mem_filterMap.mp member
      exact ⟨e', List.mem_cons_of_mem _ logged, admits⟩)

theorem lastAdmitter_eq {since older : List ReplayEvent} {n : Nat} {key : String}
    (last : ∀ e ∈ since, e.admits ≠ some key) :
    lastAdmitter key (since ++ .admitted n key :: older) = some n := by
  induction since with
  | nil => simp [lastAdmitter]
  | cons e since ih =>
    have rest := ih (fun e member => last e (List.mem_cons_of_mem _ member))
    cases e with
    | admitted m k =>
      have other : k ≠ key := by simpa [ReplayEvent.admits] using last _ List.mem_cons_self
      simpa [lastAdmitter, other] using rest
    | started m => exact rest
    | released m keys => exact rest

theorem replayCap_pos : 0 < replayCap := by
  unfold replayCap
  decide

/-- An admitted key is the last of the ledger. -/
theorem lastN_ends {ledger : List String} (short : ledger.length ≤ replayCap) (key : String) :
    ∃ left, lastN replayCap (ledger ++ [key]) = left ++ [key] := by
  by_cases room : ledger.length < replayCap
  · exact ⟨ledger, lastN_eq (by rw [List.length_append, List.length_singleton]; omega)⟩
  · cases ledger with
    | nil => exact absurd replayCap_pos room
    | cons old rest => exact ⟨rest, lastN_append_full (by omega)⟩

/-- A key of the ledger before an admission of another stays there, or was the oldest and all the
    others were admitted since. -/
theorem ledger_after_admission {ledger left right : List String} {key k : String}
    {since : List ReplayEvent} {n m : Nat} (nodup : ledger.Nodup)
    (short : ledger.length ≤ replayCap) (new : k ∉ ledger) (at_key : ledger = left ++ key :: right)
    (after : ∀ k ∈ right, k ∈ others key since) :
    (∃ left right, lastN replayCap (ledger ++ [k]) = left ++ key :: right ∧
      ∀ k' ∈ right, k' ∈ others key (.admitted m k :: since)) ∨
      Freed n key (.admitted m k :: since) := by
  have other : k ≠ key := by
    intro same
    exact new (by rw [at_key, same]; simp)
  have grown : ∀ k' ∈ right ++ [k], k' ∈ others key (.admitted m k :: since) := by
    intro k' member
    rw [others_cons_admitted other, Finset.mem_insert]
    rcases List.mem_append.mp member with old | last
    · exact Or.inr (after k' old)
    · exact Or.inl (List.mem_singleton.mp last)
  by_cases room : ledger.length < replayCap
  · refine Or.inl ⟨left, right ++ [k], ?_, grown⟩
    rw [lastN_eq (by rw [List.length_append, List.length_singleton]; omega), at_key]
    simp
  · cases left with
    | cons old left =>
      refine Or.inl ⟨left, right ++ [k], ?_, grown⟩
      subst at_key
      rw [List.cons_append, lastN_append_full (by rw [List.cons_append] at room short; omega)]
      simp
    | nil =>
      -- The key was the oldest of a full ledger.
      refine Or.inr (Or.inr ?_)
      have distinct : (right ++ [k]).Nodup := by
        rw [List.nil_append] at at_key
        rw [at_key] at nodup new
        rw [List.nodup_append]
        refine ⟨(List.nodup_cons.mp nodup).2, List.nodup_singleton _, ?_⟩
        intro a member b single same
        rw [List.mem_singleton.mp single] at same
        exact new (List.mem_cons_of_mem _ (same ▸ member))
      have size : (right ++ [k]).length = replayCap := by
        have full : ledger.length = replayCap := by omega
        rw [at_key] at full
        simpa using full
      rw [← size, ← List.toFinset_card_of_nodup distinct]
      apply Finset.card_le_card
      intro k' member
      exact grown k' (List.mem_toFinset.mp member)

section Once

variable {F : FloatFormat} {verify : String → List UInt8 → String → Bool} {w : ReplayWorld}

/-- The step lemma: own releases keep every admission accounted for. -/
theorem accounted_act (formed : w.Formed) (accounted : w.Accounted) {a : ReplayAction}
    (own : w.ownReleases a) : (w.act F verify a).Accounted := by
  intro since n key older split last
  cases (act_change F verify formed a).2 with
  | quiet ledger log =>
    rw [ledger]
    rcases log with same | ⟨m, started⟩
    · exact accounted since n key older (same ▸ split) last
    · rw [started] at split
      cases since with
      | nil => cases split
      | cons e since =>
        rw [List.cons_append, List.cons.injEq] at split
        obtain ⟨rfl, split⟩ := split
        rcases accounted since n key older split
          (fun e member => last e (List.mem_cons_of_mem _ member)) with
          ⟨left, right, at_key, after⟩ | freed
        · exact Or.inl ⟨left, right, at_key, by rwa [others_cons_quiet rfl]⟩
        · exact Or.inr (freed.cons _)
  | admitted m k new ledger log =>
    rw [ledger]
    rw [log] at split
    cases since with
    | nil =>
      cases split
      obtain ⟨left, ends⟩ := lastN_ends formed.disk.2 key
      exact Or.inl ⟨left, [], ends, by simp⟩
    | cons e since =>
      rw [List.cons_append, List.cons.injEq] at split
      obtain ⟨rfl, split⟩ := split
      rcases accounted since n key older split
        (fun e member => last e (List.mem_cons_of_mem _ member)) with
        ⟨left, right, at_key, after⟩ | freed
      · exact ledger_after_admission formed.disk.1 formed.disk.2 new at_key after
      · exact Or.inr (freed.cons _)
  | released m messages fault g removed act alive releasable named ledger log =>
    rw [ledger]
    rw [log] at split
    cases since with
    | nil => cases split
    | cons e since =>
      rw [List.cons_append, List.cons.injEq] at split
      obtain ⟨rfl, split⟩ := split
      have earlier : ∀ e ∈ since, e.admits ≠ some key :=
        fun e member => last e (List.mem_cons_of_mem _ member)
      rcases accounted since n key older split earlier with ⟨left, right, at_key, after⟩ | freed
      · by_cases gone : key ∈ removed
        · -- The process that removed it is the one that admitted it last.
          have among : key ∈ replayKeys messages := by simpa using named gone
          have owner := own
          rw [act] at owner
          have admitter := owner g alive key among (releasable gone) (by rw [at_key]; simp)
          rw [split, lastAdmitter_eq earlier] at admitter
          cases admitter
          exact Or.inr (Or.inl ⟨_, List.mem_cons_self, among⟩)
        · refine Or.inl ⟨left.filter (fun k => k ∉ removed), right.filter (fun k => k ∉ removed), ?_, ?_⟩
          · rw [at_key, List.filter_append, List.filter_cons_of_pos (by simpa using gone)]
          · intro k member
            rw [others_cons_quiet rfl]
            exact after k (List.mem_of_mem_filter member)
      · exact Or.inr (freed.cons _)

/-- Every second admission of a key comes after the first was freed. -/
def Once (log : List ReplayEvent) : Prop :=
  ∀ newer m key since n older,
    log = newer ++ ReplayEvent.admitted m key :: (since ++ ReplayEvent.admitted n key :: older) →
    (∀ e ∈ since, e.admits ≠ some key) → Freed n key since

/-- An event that admits nothing, or admits a key all of whose admissions were freed, keeps the log
    in order. -/
theorem Once.cons {log : List ReplayEvent} (once : Once log) {e : ReplayEvent}
    (freed : ∀ key, e.admits = some key → ∀ since n older, log = since ++ ReplayEvent.admitted n key :: older →
      (∀ e ∈ since, e.admits ≠ some key) → Freed n key since) : Once (e :: log) := by
  intro newer m key since n older split last
  cases newer with
  | nil =>
    rw [List.nil_append, List.cons.injEq] at split
    obtain ⟨rfl, split⟩ := split
    exact freed key rfl since n older split last
  | cons first newer =>
    rw [List.cons_append, List.cons.injEq] at split
    exact once newer m key since n older split.2 last

theorem once_act (formed : w.Formed) (accounted : w.Accounted) (once : Once w.log)
    (a : ReplayAction) : Once (w.act F verify a).log := by
  have silent : ∀ {e : ReplayEvent}, e.admits = none → Once (e :: w.log) := by
    intro e quiet
    apply once.cons
    intro key admits
    rw [quiet] at admits
    cases admits
  cases (act_change F verify formed a).2 with
  | quiet ledger log =>
    rcases log with same | ⟨n, started⟩
    · rw [same]
      exact once
    · rw [started]
      exact silent rfl
  | admitted n key new ledger log =>
    rw [log]
    apply once.cons
    intro key' same since m older split last
    cases same
    rcases accounted since m key older split last with ⟨left, right, at_key, -⟩ | freed
    · exact absurd (by rw [at_key]; simp) new
    · exact freed
  | released n messages fault g removed act alive own named ledger log =>
    rw [log]
    exact silent rfl

theorem once_run (reach : Reachable F verify ownReleases w) : w.Accounted ∧ Once w.log := by
  induction reach with
  | init =>
    refine ⟨?_, ?_⟩
    · intro since n key older split
      simp [ReplayWorld.init] at split
    · intro newer m key since n older split
      simp [ReplayWorld.init] at split
  | act a before own ih =>
    have formed := formed_run before
    exact ⟨accounted_act formed ih.1 own, once_act formed ih.1 ih.2 a⟩

end Once

end ReplayWorld

open ReplayWorld

/-- In every run of processes that share a ledger, the ledger file and the ledgers in memory hold
    each key once, at most `REPLAY_CAP` keys, and the set is the keys of the queue. In every run in
    which no process releases a key that another admitted since, a key is admitted again only after
    the process that admitted it released it or `REPLAY_CAP` other keys were admitted. -/
theorem admitted_once_unless_foreign_release (F : FloatFormat)
    (verify : String → List UInt8 → String → Bool) {w w' : ReplayWorld}
    (reach : Reachable F verify (fun _ _ => True) w) (owned : Reachable F verify ownReleases w') :
    (w.ledger.Nodup ∧ w.ledger.length ≤ replayCap ∧
      ∀ n g, w.guards n = some g → g.bucket.order.Nodup ∧ g.bucket.order.length ≤ replayCap ∧
        g.bucket.members = g.bucket.order.toFinset) ∧
    ∀ newer m key since n older,
      w'.log = newer ++ .admitted m key :: (since ++ .admitted n key :: older) →
      (∀ e ∈ since, e.admits ≠ some key) →
      (∃ keys, .released n keys ∈ since ∧ key ∈ keys) ∨ replayCap ≤ (others key since).card := by
  have formed := formed_run reach
  refine ⟨⟨formed.disk.1, formed.disk.2, ?_⟩, (once_run owned).2⟩
  intro n g alive
  have bounded := (formed.guards n g alive).2
  exact ⟨bounded.nodup, bounded.short, bounded.members⟩

/-! ## Runs -/

/-- A signature that reads "s" is good. -/
def acceptS (_ : String) (_ : List UInt8) (sig : String) : Bool := sig = "s"

/-- A message of Alice to the room `r`, with a uid of its own for every number. -/
def numbered (i : Nat) : StoredMessage :=
  ⟨i, "m", "r", ⟨"A", "alice", none⟩,
    [(MessageSig.mk "s" 0 (String.ofList (List.replicate i 'x')) (.room "r")).toPart], none, none, 0⟩

def numberedKey (i : Nat) : String := "A" ++ ":" ++ String.ofList (List.replicate i 'x')

theorem numbered_fromParts (i : Nat) : MessageSig.fromParts (numbered i).parts =
    some ⟨"s", 0, String.ofList (List.replicate i 'x'), .room "r"⟩ := by
  rw [numbered, MessageSig.fromParts, List.findSome?_singleton]
  exact MessageSig.ofPart_toPart _ (by dsimp only; omega)

theorem numbered_key (i : Nat) : replayKey (numbered i) = some (numberedKey i) := by
  rw [replayKey, numbered_fromParts]
  rfl

theorem numbered_valid (i : Nat) : verifyMessageForRoom bitsFormat acceptS (numbered i) "B" = .valid :=
  verifyMessageForRoom_valid.mpr ⟨_, numbered_fromParts i, rfl, rfl⟩

theorem numberedKey_injective {i j : Nat} (same : numberedKey i = numberedKey j) : i = j := by
  have lengths := congrArg String.length same
  simpa [numberedKey] using lengths

/-- A run of the shared ledger. -/
def replayPlay (actions : List ReplayAction) : ReplayWorld :=
  actions.foldl (fun w a => w.act bitsFormat acceptS a) .init

/-- A process admits a message, releases it and admits it again. -/
def retryDemo : ReplayWorld :=
  replayPlay [.start 0, .admitMessage 0 (numbered 1) "B" none, .release 0 [numbered 1] none,
    .admitMessage 0 (numbered 1) "B" none]

theorem admitted_once_unless_foreign_release_demo :
    retryDemo.log = [.admitted 0 "A:x", .released 0 ["A:x"], .admitted 0 "A:x", .started 0] ∧
      ((∃ keys, .released 0 keys ∈ [ReplayEvent.released 0 ["A:x"]] ∧ "A:x" ∈ keys) ∨
        replayCap ≤ (others "A:x" [.released 0 ["A:x"]]).card) := by
  have log : retryDemo.log =
      [.admitted 0 "A:x", .released 0 ["A:x"], .admitted 0 "A:x", .started 0] := by decide +kernel
  have released : ownReleases (replayPlay [.start 0, .admitMessage 0 (numbered 1) "B" none])
      (.release 0 [numbered 1] none) := by
    have own : ∀ key ∈ replayKeys [numbered 1],
        lastAdmitter key (replayPlay [.start 0, .admitMessage 0 (numbered 1) "B" none]).log = some 0 := by
      decide +kernel
    exact fun g alive key among releasable listed => own key among
  have owned : Reachable bitsFormat acceptS ownReleases retryDemo :=
    .act (.admitMessage 0 (numbered 1) "B" none)
      (.act (.release 0 [numbered 1] none)
        (.act (.admitMessage 0 (numbered 1) "B" none) (.act (.start 0) .init trivial) trivial) released)
      trivial
  refine ⟨log, ?_⟩
  exact (admitted_once_unless_foreign_release bitsFormat acceptS .init owned).2 [] 0 "A:x"
    [.released 0 ["A:x"]] 0 [.started 0] log (by simp [ReplayEvent.admits])

theorem replayPlay_append (actions more : List ReplayAction) : replayPlay (actions ++ more) =
    more.foldl (fun w a => w.act bitsFormat acceptS a) (replayPlay actions) :=
  List.foldl_append

theorem replayPlay_reachable (actions : List ReplayAction) :
    Reachable bitsFormat acceptS (fun _ _ => True) (replayPlay actions) := by
  induction actions using List.reverseRecOn with
  | nil => exact .init
  | append_singleton actions a ih =>
    rw [replayPlay_append]
    exact .act a ih trivial

/-- Without a fault a numbered message is admitted when its key is not in the ledger. -/
theorem act_admit_new {w : ReplayWorld} (formed : w.Formed) {n i : Nat} {g : AutonomousReplayGuard}
    (alive : w.guards n = some g) (new : numberedKey i ∉ w.ledger) :
    ∃ g', g'.pending = insert (numberedKey i) g.pending ∧
      w.act bitsFormat acceptS (.admitMessage n (numbered i) "B" none) =
        ⟨some (lastN replayCap (w.ledger ++ [numberedKey i])), Function.update w.guards n (some g'),
          .admitted n (numberedKey i) :: w.log⟩ := by
  rcases AutonomousReplayGuard.admit_cases bitsFormat acceptS (formed.guards n g alive) formed.disk
    none (numbered i) "B" with
    ⟨result, g', outcome, -, -, ⟨-, faulty⟩ | ⟨-, known⟩⟩ | ⟨key, keyed, -, g', -, pending, outcome⟩
  · exact absurd rfl faulty
  · exact absurd (known (numbered_valid i) _ (numbered_key i)) new
  · rw [numbered_key] at keyed
    cases keyed
    refine ⟨g', pending, ?_⟩
    simp only [act, alive, outcome, numbered_key]
    rfl

/-- Admitting messages whose keys are new appends their keys. -/
theorem admit_all {w : ReplayWorld} (formed : w.Formed) {n : Nat} {g : AutonomousReplayGuard}
    (alive : w.guards n = some g) {numbers : List Nat}
    (new : (w.ledger ++ numbers.map numberedKey).Nodup) :
    ∃ w', w' = (numbers.map (fun i => .admitMessage n (numbered i) "B" none)).foldl
        (fun w a => w.act bitsFormat acceptS a) w ∧
      w'.Formed ∧ w'.ledger = lastN replayCap (w.ledger ++ numbers.map numberedKey) ∧
      (∃ g', w'.guards n = some g') ∧ ∀ m, m ≠ n → w'.guards m = w.guards m := by
  induction numbers generalizing w g with
  | nil =>
    refine ⟨w, rfl, formed, ?_, ⟨g, alive⟩, fun _ _ => rfl⟩
    rw [List.map_nil, List.append_nil]
    exact (lastN_eq formed.disk.2).symm
  | cons i numbers ih =>
    rw [List.map_cons] at new
    have absent : numberedKey i ∉ w.ledger := by
      intro member
      exact (List.nodup_append.mp new).2.2 _ member _ List.mem_cons_self rfl
    obtain ⟨g', -, after⟩ := act_admit_new formed alive absent
    have formed' := (act_change bitsFormat acceptS formed (.admitMessage n (numbered i) "B" none)).1
    have later : ((w.act bitsFormat acceptS (.admitMessage n (numbered i) "B" none)).ledger ++
        numbers.map numberedKey).Nodup := by
      rw [after, ledger_some]
      have split : w.ledger ++ numberedKey i :: numbers.map numberedKey =
          w.ledger ++ [numberedKey i] ++ numbers.map numberedKey := by simp
      rw [split] at new
      exact new.sublist ((lastN_sublist _ _).append_right _)
    obtain ⟨w', run, rest, ledger, own, frame⟩ :=
      ih formed' (g := g') (by rw [after]; simp) later
    refine ⟨w', run, rest, ?_, own, ?_⟩
    · rw [ledger, after, ledger_some, lastN_lastN_append, List.map_cons]
      simp
    · intro m other
      rw [frame m other, after]
      simp [other]

/-- A process that holds a key as releasable removes it from the ledger, whoever admitted it. -/
theorem act_release_key {w : ReplayWorld} (formed : w.Formed) {n i : Nat} {g : AutonomousReplayGuard}
    (alive : w.guards n = some g) (releasable : numberedKey i ∈ g.pending)
    (listed : numberedKey i ∈ w.ledger) :
    let w' := w.act bitsFormat acceptS (.release n [numbered i] none)
    numberedKey i ∉ w'.ledger ∧ w'.log = .released n [numberedKey i] :: w.log ∧
      ∀ m, m ≠ n → w'.guards m = w.guards m := by
  have own := formed.guards n g alive
  have keys : replayKeys [numbered i] = [numberedKey i] := by simp [replayKeys, numbered_key]
  have member : numberedKey i ∈ (g.refresh w.disk).bucket.members := by
    rw [AutonomousReplayGuard.refresh_eq own.1 formed.disk, List.mem_toFinset]
    exact listed
  have held : numberedKey i ∈ (g.refresh w.disk).pending := by
    rw [AutonomousReplayGuard.refresh_eq own.1 formed.disk]
    exact releasable
  have durable : (g.refresh w.disk).durable = true := by
    rw [AutonomousReplayGuard.refresh_eq own.1 formed.disk]
    exact own.1
  have released : g.release w.disk none [numbered i] =
      (some (), some ((g.refresh w.disk).bucket.remove (numberedKey i)).order,
        { g.refresh w.disk with
          pending := (g.refresh w.disk).pending.erase (numberedKey i)
          bucket := (g.refresh w.disk).bucket.remove (numberedKey i) }) := by
    simp [AutonomousReplayGuard.release, AutonomousReplayGuard.fails, keys,
      AutonomousReplayGuard.releaseKey, held, member, AutonomousReplayGuard.save, durable]
  simp only [act, alive, released, keys]
  refine ⟨?_, rfl, ?_⟩
  · rw [ledger_some, Fifo.remove]
    simp
  · intro m other
    simp [other]

/-- The keys of the messages numbered from one. -/
theorem numberedKeys_nodup (count : Nat) : ((List.range' 1 count).map numberedKey).Nodup :=
  List.Nodup.map (fun _ _ => numberedKey_injective) List.nodup_range'

theorem numberedKey_zero_notMem (count : Nat) :
    numberedKey 0 ∉ (List.range' 1 count).map numberedKey := by
  intro member
  obtain ⟨i, among, same⟩ := List.mem_map.mp member
  have positive := (List.mem_range'_1.mp among).1
  have zero := numberedKey_injective same
  omega

/-- A process admits a message and another admits `REPLAY_CAP` others. -/
def evictedDemo : List ReplayAction :=
  [ReplayAction.start 0, .start 1, .admitMessage 0 (numbered 0) "B" none] ++
    (List.range' 1 replayCap).map (fun i => ReplayAction.admitMessage 1 (numbered i) "B" none)

/-- The first process can still release its key, which is no longer in the ledger. -/
theorem evictedDemo_state : ∃ first second,
    (replayPlay evictedDemo).guards 0 = some first ∧ numberedKey 0 ∈ first.pending ∧
    (replayPlay evictedDemo).guards 1 = some second ∧
    (replayPlay evictedDemo).ledger = (List.range' 1 replayCap).map numberedKey := by
  have start := formed_run (replayPlay_reachable [.start 0, .start 1])
  have one : replayPlay [.start 0, .start 1, .admitMessage 0 (numbered 0) "B" none] =
      (replayPlay [.start 0, .start 1]).act bitsFormat acceptS (.admitMessage 0 (numbered 0) "B" none) := rfl
  obtain ⟨first, pending, admitted⟩ := act_admit_new start (n := 0) (i := 0) (g := .persistent) rfl
    List.not_mem_nil
  have ledger : (replayPlay [.start 0, .start 1, .admitMessage 0 (numbered 0) "B" none]).ledger =
      [numberedKey 0] := by
    rw [one, admitted, ledger_some]
    exact lastN_eq replayCap_pos
  have distinct : ([numberedKey 0] ++ (List.range' 1 replayCap).map numberedKey).Nodup :=
    List.nodup_cons.mpr ⟨numberedKey_zero_notMem _, numberedKeys_nodup _⟩
  obtain ⟨w, run, -, after, ⟨second, alive⟩, frame⟩ := admit_all
    (formed_run (replayPlay_reachable [.start 0, .start 1, .admitMessage 0 (numbered 0) "B" none]))
    (n := 1) (g := .persistent) (by rw [one, admitted]; rfl) (ledger ▸ distinct)
  have same : replayPlay evictedDemo = w := by rw [evictedDemo, replayPlay_append, run]
  rw [same]
  refine ⟨first, second, ?_, ?_, alive, ?_⟩
  · rw [frame 0 (by decide), one, admitted]
    simp
  · rw [pending]
    exact Finset.mem_insert_self _ _
  · have length : ((List.range' 1 replayCap).map numberedKey).length = replayCap := by simp
    rw [after, ledger, lastN, List.length_append, length]
    simp

/-- Then the second process admits that message too, the first releases it, and the second admits it
    once more, with only the release by the first between. -/
theorem foreign_release_readmits : ∃ w, w = replayPlay (evictedDemo ++
      [.admitMessage 1 (numbered 0) "B" none, .release 0 [numbered 0] none,
        .admitMessage 1 (numbered 0) "B" none]) ∧
    Reachable bitsFormat acceptS (fun _ _ => True) w ∧
    ∃ older, w.log = [] ++ .admitted 1 (numberedKey 0) ::
        ([.released 0 [numberedKey 0]] ++ .admitted 1 (numberedKey 0) :: older) ∧
      ¬ ((∃ keys, .released 1 keys ∈ [ReplayEvent.released 0 [numberedKey 0]] ∧ numberedKey 0 ∈ keys) ∨
        replayCap ≤ (others (numberedKey 0) [.released 0 [numberedKey 0]]).card) := by
  refine ⟨_, rfl, replayPlay_reachable _, (replayPlay evictedDemo).log, ?_, ?_⟩
  · have formed := formed_run (replayPlay_reachable evictedDemo)
    obtain ⟨first, second, alive, held, other, ledger⟩ := evictedDemo_state
    rw [replayPlay_append, List.foldl_cons, List.foldl_cons, List.foldl_cons, List.foldl_nil]
    -- The second process admits the key that the ledger forgot.
    obtain ⟨second', -, again⟩ := act_admit_new formed (i := 0) other
      (by rw [ledger]; exact numberedKey_zero_notMem _)
    have formed' := (act_change bitsFormat acceptS formed (.admitMessage 1 (numbered 0) "B" none)).1
    rw [again] at formed' ⊢
    -- The first removes it.
    obtain ⟨left, ends⟩ := lastN_ends formed.disk.2 (numberedKey 0)
    have listed : numberedKey 0 ∈ lastN replayCap ((replayPlay evictedDemo).ledger ++ [numberedKey 0]) := by
      have at_end : lastN replayCap ((replayPlay evictedDemo).ledger ++ [numberedKey 0]) =
          left ++ [numberedKey 0] := ends
      rw [at_end]
      simp
    obtain ⟨gone, log, frame⟩ := act_release_key formed' (n := 0) (i := 0) (g := first)
      (by simpa using alive) held (by rwa [ledger_some])
    -- The second admits it once more.
    obtain ⟨second'', -, last⟩ := act_admit_new
      (act_change bitsFormat acceptS formed' (.release 0 [numbered 0] none)).1 (n := 1) (i := 0)
      (g := second') (by rw [frame 1 (by decide)]; simp) gone
    rw [last, log]
    rfl
  · have none : (others (numberedKey 0) [.released 0 [numberedKey 0]]).card = 0 := rfl
    have positive := replayCap_pos
    rintro (⟨keys, released, -⟩ | enough)
    · simp at released
    · omega

end Parler.Connector
