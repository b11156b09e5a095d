import Parler.Connector.Process

/-!
# Ledgers of many agents

Processes of many agents, on one machine or on several, each work on the replay ledger of their own
agent beneath their own `PARLER_HOME`. A call on a ledger is answered by the guard of its process.
While a ledger forgets nothing and no process releases anything, it lets each key pass once.
-/

namespace Parler.Connector

open Parler.Lib Parler.Protocol

variable {H : Host}

/-! ## Calls on a ledger -/

namespace ReplayWorld

variable (F : FloatFormat) (verify : String → List UInt8 → String → Bool)

/-- The ledger after process `n` asked its guard for a message, if the guard answers so. -/
def admitting (n : Nat) (recipient : String) (fault : Option Fault) (message : StoredMessage)
    (admitted : Option Bool) (w : ReplayWorld) : Option ReplayWorld :=
  (w.guards n).bind fun g =>
    if (g.admitMessage w.disk fault F verify message recipient).1 = admitted then
      some (w.act F verify (.admitMessage n message recipient fault))
    else none

/-- The ledger after process `n` had its guard release messages, if the guard answers so. -/
def releasing (n : Nat) (fault : Option Fault) (messages : List StoredMessage) (released : Option Unit)
    (w : ReplayWorld) : Option ReplayWorld :=
  (w.guards n).bind fun g =>
    if (g.release w.disk fault messages).1 = released then
      some (w.act F verify (.release n messages fault))
    else none

/-- The ledger after a call of process `n`, if its guard gives the answer; other calls leave it. -/
def serve (n : Nat) (recipient : String) (fault : Option Fault) (w : ReplayWorld) :
    (op : ClientCall H) → op.Res → Option ReplayWorld
  | .admitMessage message, admitted => w.admitting F verify n recipient fault message admitted
  | .complete messages, _ => some (w.act F verify (.complete n messages))
  | .release messages, released => w.releasing F verify n fault messages released
  | _, _ => some w

end ReplayWorld

/-- The ledgers, each in a directory and of an agent. -/
abbrev Ledgers := String × String → ReplayWorld

namespace Ledgers

variable (F : FloatFormat) (verify : String → List UInt8 → String → Bool)

def act (ledgers : Ledgers) (place : String × String) (a : ReplayAction) : Ledgers :=
  Function.update ledgers place ((ledgers place).act F verify a)

/-- The ledgers after a call of process `n`, which works on the one at the place. -/
def serve (place : String × String) (n : Nat) (op : ClientCall H) (r : op.Res) (fault : Option Fault)
    (ledgers : Ledgers) : Option Ledgers :=
  ((ledgers place).serve F verify n place.2 fault op r).map (Function.update ledgers place)

end Ledgers

/-! ## What is admitted -/

/-- The key an event admits for process `n`. -/
def ReplayEvent.admitsFor (n : Nat) : ReplayEvent → Option String
  | .admitted m key => if m = n then some key else none
  | _ => none

/-- The key of the message that a call reserved. -/
def admittedKey : ClientDone H → Option String
  | ⟨.admitMessage m, admitted⟩ =>
      match (admitted : Option Bool) with
      | some true => replayKey m
      | _ => none
  | _ => none

theorem admittedKey_some {d : ClientDone H} {key : String} (keyed : admittedKey d = some key) :
    ∃ m, d = ⟨ClientCall.admitMessage m, some true⟩ ∧ replayKey m = some key := by
  obtain ⟨op, r⟩ := d
  cases op with
  | admitMessage m =>
    rcases r with _ | _ | _
    · cases keyed
    · cases keyed
    · exact ⟨m, rfl, keyed⟩
  | _ => cases keyed

theorem admitsFor_self (n : Nat) (keys : Option String) :
    (keys.toList.map (ReplayEvent.admitted n)).filterMap (ReplayEvent.admitsFor n) = keys.toList := by
  cases keys with
  | none => rfl
  | some key => simp [ReplayEvent.admitsFor]

theorem admitsFor_other {n k : Nat} (other : n ≠ k) (keys : Option String) :
    (keys.toList.map (ReplayEvent.admitted n)).filterMap (ReplayEvent.admitsFor k) = [] := by
  cases keys with
  | none => rfl
  | some key => simp [ReplayEvent.admitsFor, other]

/-- What is admitted for one process is among all that is admitted. -/
theorem ReplayEvent.admitsFor_sublist (n : Nat) (log : List ReplayEvent) :
    (log.filterMap (admitsFor n)).Sublist (log.filterMap admits) := by
  induction log with
  | nil => exact List.Sublist.refl _
  | cons e log ih =>
    cases e with
    | admitted m key =>
      rw [List.filterMap_cons_some (f := admits) (b := key) rfl, List.filterMap_cons]
      dsimp only [admitsFor]
      by_cases own : m = n
      · rw [if_pos own]
        exact ih.cons_cons key
      · rw [if_neg own]
        exact ih.cons key
    | _ => exact ih

/-- The call releases nothing. -/
def keepsKeys : ClientCall H → Prop
  | .release _ => False
  | _ => True

namespace ReplayWorld

variable {F : FloatFormat} {verify : String → List UInt8 → String → Bool} {w w' : ReplayWorld}

/-- A ledger from which no key was released, and which others than its guards left alone. -/
structure Unreleased (F : FloatFormat) (verify : String → List UInt8 → String → Bool) (w : ReplayWorld) :
    Prop where
  reach : Reachable F verify ownReleases w
  kept : ∀ e ∈ w.log, ∀ n keys, e ≠ .released n keys

theorem unreleased_init : ReplayWorld.init.Unreleased F verify := by
  refine ⟨.init, ?_⟩
  intro e member
  cases member

theorem Unreleased.act (held : w.Unreleased F verify) (a : ReplayAction)
    (keeps : ∀ n messages fault, a ≠ .release n messages fault) :
    (w.act F verify a).Unreleased F verify := by
  have own : w.ownReleases a := by
    cases a with
    | release n messages fault => exact absurd rfl (keeps n messages fault)
    | _ => trivial
  refine ⟨.act a held.reach own, ?_⟩
  intro e member
  cases (act_change F verify (formed_run held.reach) a).2 with
  | quiet ledger log =>
    rcases log with same | ⟨m, started⟩
    · rw [same] at member
      exact held.kept e member
    · rw [started] at member
      rcases List.mem_cons.mp member with rfl | old
      · exact fun _ _ => nofun
      · exact held.kept e old
  | admitted m key new ledger log =>
    rw [log] at member
    rcases List.mem_cons.mp member with rfl | old
    · exact fun _ _ => nofun
    · exact held.kept e old
  | released m messages fault g removed act => exact absurd act (keeps m messages fault)

/-- A call that releases nothing keeps the ledger so, and is on record as what it reserved. -/
theorem Unreleased.serve (held : w.Unreleased F verify) {n : Nat} {recipient : String}
    {fault : Option Fault} {op : ClientCall H} {r : op.Res} (keeps : keepsKeys op)
    (served : w.serve F verify n recipient fault op r = some w') :
    w'.Unreleased F verify ∧ w'.log = (admittedKey ⟨op, r⟩).toList.map (.admitted n) ++ w.log := by
  cases op with
  | admitMessage message =>
    obtain ⟨g, alive, given⟩ := Option.bind_eq_some_iff.mp served
    split at given
    · rename_i answer
      cases given
      constructor
      · apply held.act
        intro _ _ _ released
        cases released
      · simp only [ReplayWorld.act, alive, answer, admittedKey]
        rcases r with _ | _ | _
        · rfl
        · rfl
        · cases replayKey message <;> rfl
    · cases given
  | complete messages =>
    cases served
    constructor
    · apply held.act
      intro _ _ _ released
      cases released
    · cases alive : w.guards n <;> simp [ReplayWorld.act, alive, admittedKey]
  | release messages => exact keeps.elim
  | _ =>
    cases served
    exact ⟨held, rfl⟩

/-- What a guard admits has a key. -/
theorem serve_key {n : Nat} {recipient : String} {fault : Option Fault} {m : StoredMessage}
    (served : w.serve F verify n recipient fault (.admitMessage (H := H) m) (some true) = some w') :
    ∃ key, replayKey m = some key := by
  obtain ⟨g, alive, given⟩ := Option.bind_eq_some_iff.mp served
  obtain ⟨answer, -⟩ := Option.ite_none_right_eq_some.mp given
  cases keyed : replayKey m with
  | some key => exact ⟨key, rfl⟩
  | none =>
    unfold AutonomousReplayGuard.admitMessage at answer
    rw [keyed] at answer
    split at answer <;> cases answer

/-! ## Once -/

theorem Once.tail {e : ReplayEvent} {log : List ReplayEvent} (once : Once (e :: log)) : Once log :=
  fun newer m key since n older split => once (e :: newer) m key since n older (by rw [split]; rfl)

/-- Without releases each of at most `REPLAY_CAP` keys is admitted once. -/
theorem Once.nodup {log : List ReplayEvent} (once : Once log)
    (kept : ∀ e ∈ log, ∀ n keys, e ≠ .released n keys)
    (few : (log.filterMap ReplayEvent.admits).toFinset.card ≤ replayCap) :
    (log.filterMap ReplayEvent.admits).Nodup := by
  induction log with
  | nil => exact List.nodup_nil
  | cons e log ih =>
    have grows : (log.filterMap ReplayEvent.admits).toFinset ⊆
        ((e :: log).filterMap ReplayEvent.admits).toFinset := by
      intro key member
      rw [List.mem_toFinset] at member ⊢
      exact ((List.sublist_cons_self e log).filterMap _).subset member
    have rest := ih once.tail (fun e member => kept e (List.mem_cons_of_mem _ member))
      ((Finset.card_le_card grows).trans few)
    cases admits : e.admits with
    | none => rwa [List.filterMap_cons_none admits]
    | some key =>
      rw [List.filterMap_cons_some admits] at few ⊢
      refine List.nodup_cons.mpr ⟨?_, rest⟩
      intro again
      obtain ⟨e', logged, same⟩ := List.mem_filterMap.mp again
      obtain ⟨since, older, split⟩ := List.append_of_mem logged
      cases e with
      | admitted m k =>
        cases e' with
        | admitted n k' =>
          cases admits
          cases same
          -- The rest holds the key once, so nothing in between admits it.
          have last : ∀ e ∈ since, e.admits ≠ some key := by
            intro e member admits
            rw [split, List.filterMap_append, List.filterMap_cons_some (f := ReplayEvent.admits) (b := key) rfl,
              List.nodup_append] at rest
            exact rest.2.2 key (List.mem_filterMap.mpr ⟨e, member, admits⟩) key List.mem_cons_self rfl
          rcases once [] m key since n older (by rw [split]; rfl) last with ⟨keys, released, -⟩ | many
          · exact kept _ (List.mem_cons_of_mem _ (split ▸ List.mem_append_left _ released)) n keys rfl
          · have others : others key since ⊆ (key :: log.filterMap ReplayEvent.admits).toFinset.erase key := by
              apply Finset.erase_subset_erase
              intro k member
              rw [List.mem_toFinset] at member ⊢
              refine List.mem_cons_of_mem _ ?_
              rw [split, List.filterMap_append]
              exact List.mem_append_left _ member
            have fewer := Finset.card_le_card others
            rw [Finset.card_erase_of_mem (by simp)] at fewer
            have positive := replayCap_pos
            omega
        | _ => cases same
      | _ => cases admits

end ReplayWorld

/-! ## All the ledgers -/

namespace Ledgers

variable {F : FloatFormat} {verify : String → List UInt8 → String → Bool} {ledgers ledgers' : Ledgers}

theorem act_unreleased (held : ∀ place, (ledgers place).Unreleased F verify) {at_place : String × String}
    {a : ReplayAction} (keeps : ∀ n messages fault, a ≠ .release n messages fault) (place : String × String) :
    (ledgers.act F verify at_place a place).Unreleased F verify := by
  unfold act
  rw [Function.update_apply]
  split
  · exact (held at_place).act a keeps
  · exact held place

theorem act_start_admits (at_place place : String × String) (n k : Nat) :
    (ledgers.act F verify at_place (.start n) place).log.filterMap (ReplayEvent.admitsFor k) =
      (ledgers place).log.filterMap (ReplayEvent.admitsFor k) := by
  unfold act
  rw [Function.update_apply]
  split
  · rename_i here
    rw [here, ReplayWorld.act]
    split <;> rfl
  · rfl

theorem act_stop_log (at_place place : String × String) (n : Nat) :
    (ledgers.act F verify at_place (.stop n) place).log = (ledgers place).log := by
  unfold act
  rw [Function.update_apply]
  split
  · rename_i here
    rw [here, ReplayWorld.act]
  · rfl

/-- A call that releases nothing is on record in the ledger that it works on. -/
theorem serve_unreleased (held : ∀ place, (ledgers place).Unreleased F verify) {at_place : String × String}
    {n : Nat} {op : ClientCall H} {r : op.Res} {fault : Option Fault} (keeps : keepsKeys op)
    (served : ledgers.serve F verify at_place n op r fault = some ledgers') :
    (∀ place, (ledgers' place).Unreleased F verify) ∧ ∀ place, (ledgers' place).log =
      (if place = at_place then (admittedKey ⟨op, r⟩).toList.map (.admitted n) else []) ++
        (ledgers place).log := by
  obtain ⟨w, does, rfl⟩ := Option.map_eq_some_iff.mp served
  obtain ⟨held', log⟩ := (held at_place).serve keeps does
  refine ⟨?_, ?_⟩
  · intro place
    rw [Function.update_apply]
    split
    · exact held'
    · exact held place
  · intro place
    rw [Function.update_apply]
    split
    · rename_i here
      rw [here]
      exact log
    · rfl

end Ledgers

end Parler.Connector
