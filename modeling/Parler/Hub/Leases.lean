import Parler.Hub.Demo
import Parler.Hub.Specs

/-!
# Leases of the role queue

The claim table as a run of the hub leaves it. The log of a run says which
claims were granted and which completions succeeded; `ClaimsAgree` relates it to
the claim row of each message: the row's worker is the last grantee, an active
row ends at the granted lease, and a row is terminal exactly when a completion
succeeded. Mutual exclusion, finality and single completion follow from the row.
-/

namespace Parler.Hub

open Parler.Lib Parler.Protocol

variable {cfg : HubConfig}

/-! ## What the log records -/

/-- A granted claim: to whom, until when, and at what time. -/
structure Grant where
  worker : String
  lease : Int
  time : Int
  deriving DecidableEq

/-- The grant on a message that a call made, if it made one. -/
def grantOf (room message : String) (e : Event (hubMachine cfg)) : Option Grant :=
  match e.op with
  | .claimServiceMessage r m worker secs now =>
      if r = room ∧ m = message then
        (e.before.store.claimServiceMessage r m worker secs now).1.map
          (fun lease => ⟨worker, lease, now⟩)
      else none
  | _ => none

/-- The last grant on a message; a log is newest first. -/
def lastGrant (room message : String) (log : List (Event (hubMachine cfg))) : Option Grant :=
  log.findSome? (grantOf room message)

structure Completion where
  worker : String
  time : Int
  deriving DecidableEq

/-- The completion of a message that a call achieved, if it returned true. -/
def completionOf (room message : String) (e : Event (hubMachine cfg)) : Option Completion :=
  match e.op with
  | .completeServiceMessage r m worker status now =>
      if r = room ∧ m = message then
        match e.before.store.completeServiceMessage r m worker status now with
        | .ok (true, _) => some ⟨worker, now⟩
        | _ => none
      else none
  | _ => none

def Completed (room message : String) (log : List (Event (hubMachine cfg))) : Prop :=
  ∃ e ∈ log, (completionOf room message e).isSome

/-- A queue listing that shows the message. -/
def Queues (room message : String) (e : Event (hubMachine cfg)) : Prop :=
  match e.op with
  | .queuedServiceMessages r worker role limit now =>
      r = room ∧ ∃ m ∈ e.before.store.queuedServiceMessages r worker role limit now,
        m.id = message
  | _ => False

/-- The message's claim has reached a terminal state. -/
def Terminal (room message : String) (s : Store) : Prop :=
  ∃ c ∈ s.serviceClaims, c.room = room ∧ c.message = message ∧ ∃ status, c.state = .ended status

/-! ## The claim row of a message -/

def claimOf (room message : String) (s : Store) : Option ClaimRow :=
  rowOf Store.claimKey (room, message) s.serviceClaims

theorem find_claim (s : Store) (room message : String) :
    s.serviceClaims.find? (fun c => c.room = room ∧ c.message = message) =
      claimOf room message s := by
  simp [claimOf, rowOf, Store.claimKey, Prod.ext_iff]

theorem claimAllowed_iff {s : Store} {room message worker : String} {now : Int} :
    s.claimAllowed room message worker now ↔
      ∀ c, claimOf room message s = some c →
        c.state = .active ∧ (c.worker = worker ∨ c.leaseUntil ≤ now) := by
  unfold Store.claimAllowed
  rw [find_claim]
  cases claimOf room message s with
  | none => simp
  | some c => simp

/-- The row a granted claim leaves. -/
theorem claimOf_putClaim (s : Store) (room message worker : String) (now lease : Int) :
    ∃ c, claimOf room message (s.putClaim room message worker now lease) = some c ∧
      c.worker = worker ∧ c.state = .active ∧ c.leaseUntil = lease := by
  refine ⟨_, rowOf_upsert_self rfl (fun _ same => same), ?_⟩
  cases rowOf Store.claimKey _ s.serviceClaims with
  | none => exact ⟨rfl, rfl, rfl⟩
  | some c => exact ⟨rfl, rfl, rfl⟩

theorem claimOf_putClaim_other {room message room' message' : String} (s : Store)
    (worker : String) (now lease : Int) (other : (room', message') ≠ (room, message)) :
    claimOf room' message' (s.putClaim room message worker now lease) =
      claimOf room' message' s :=
  rowOf_upsert_other other (fun _ same => same)

theorem heldBy_iff {room message worker : String} {now : Int} {c : ClaimRow} :
    Store.heldBy room message worker now c ↔ c.room = room ∧ c.message = message ∧
      c.worker = worker ∧ c.state = .active ∧ c.leaseUntil ≥ now := by
  simp [Store.heldBy]

theorem claimOf_complete (s : Store) (room message worker : String) (status : TaskStatus)
    (now : Int) (room' message' : String) :
    claimOf room' message' { s with
      serviceClaims := updateWhere (fun c => Store.heldBy room message worker now c)
        (fun c => { c with state := .ended status, leaseUntil := now }) s.serviceClaims } =
    (claimOf room' message' s).map (fun c => if Store.heldBy room message worker now c then
      { c with state := .ended status, leaseUntil := now } else c) := by
  unfold claimOf
  refine rowOf_updateWhere ?_
  intro c
  rfl

/-- With unique keys, one completed row is the row of the message. -/
theorem held_count_iff {s : Store} (unique : (s.serviceClaims.map Store.claimKey).Nodup)
    (room message worker : String) (now : Int) :
    ((s.serviceClaims.filter (Store.heldBy room message worker now)).length == 1) = true ↔
      ∃ c, claimOf room message s = some c ∧ Store.heldBy room message worker now c := by
  have within : ∀ c, Store.heldBy room message worker now c → Store.claimKey c = (room, message) :=
    fun c held => Prod.ext (heldBy_iff.mp held).1 (heldBy_iff.mp held).2.1
  have only := filter_within_key unique within
  simp only [Bool.decide_eq_true] at only
  rw [only]
  unfold claimOf
  cases rowOf Store.claimKey (room, message) s.serviceClaims with
  | none => simp
  | some c =>
    cases held : Store.heldBy room message worker now c <;> simp [Option.filter, held]

/-! ## The invariant -/

/-- What the row of a message says about the log. -/
def RowAgrees (grant : Option Grant) (completed : Prop) : Option ClaimRow → Prop
  | none => grant = none ∧ ¬ completed
  | some c => ∃ g, grant = some g ∧ g.worker = c.worker ∧
      ((c.state = .active ∧ c.leaseUntil = g.lease ∧ ¬ completed) ∨
        ((∃ status, c.state = .ended status) ∧ completed))

structure ClaimsAgree (log : List (Event (hubMachine cfg))) (s : Store) : Prop where
  unique : (s.serviceClaims.map Store.claimKey).Nodup
  agrees : ∀ room message,
    RowAgrees (lastGrant room message log) (Completed room message log) (claimOf room message s)

variable {log : List (Event (hubMachine cfg))}

theorem lastGrant_cons (room message : String) (e : Event (hubMachine cfg)) :
    lastGrant room message (e :: log) = (grantOf room message e).or (lastGrant room message log) := by
  unfold lastGrant
  rw [List.findSome?_cons]
  cases grantOf room message e <;> rfl

theorem completed_cons (room message : String) (e : Event (hubMachine cfg)) :
    Completed room message (e :: log) ↔
      (completionOf room message e).isSome ∨ Completed room message log := by
  simp [Completed]

/-- A call that neither grants nor completes and leaves the claim table alone. -/
theorem ClaimsAgree.frame {s s' : Store} {e : Event (hubMachine cfg)} (agree : ClaimsAgree log s)
    (same : s'.serviceClaims = s.serviceClaims)
    (noGrant : ∀ room message, grantOf room message e = none)
    (noCompletion : ∀ room message, completionOf room message e = none) :
    ClaimsAgree (e :: log) s' := by
  refine ⟨by rw [same]; exact agree.unique, ?_⟩
  intro room message
  have row := agree.agrees room message
  have equal : claimOf room message s' = claimOf room message s := by
    unfold claimOf
    rw [same]
  rw [lastGrant_cons, noGrant, Option.none_or, equal]
  simpa [completed_cons, noCompletion] using row

namespace HubCall

/-- The calls that may write the claim table. -/
def writesClaims : HubCall → Bool
  | .claimServiceMessage .. => true
  | .completeServiceMessage .. => true
  | _ => false

end HubCall

theorem exec_claims (op : HubCall) (h : HubState) (other : op.writesClaims = false) :
    (op.exec cfg h).2.store.serviceClaims = h.store.serviceClaims := by
  refine exec_same cfg op h .serviceClaims ?_
  cases op <;> simp [HubCall.writes, HubCall.writesClaims] at other ⊢

/-- A claim keeps the agreement: it is refused and changes nothing, or its row becomes
    the row of the message. -/
theorem ClaimsAgree.claim {t : Nat} {room message worker : String} {secs : Nat} {now : Int}
    {h : HubState} (agree : ClaimsAgree log h.store) :
    ClaimsAgree (⟨t, .claimServiceMessage room message worker secs now, h⟩ :: log)
      (HubCall.exec cfg (.claimServiceMessage room message worker secs now) h).2.store := by
  rcases Store.claimServiceMessage_cases h.store room message worker secs now with
    refused | ⟨allowed, granted⟩
  · refine agree.frame (by simp [HubCall.exec, refused]) ?_ ?_
    · intro room' message'
      simp only [grantOf]
      split
      · simp [refused]
      · rfl
    · intro room' message'
      rfl
  · have after : (HubCall.exec cfg (.claimServiceMessage room message worker secs now) h).2.store =
        h.store.putClaim room message worker now (Store.leaseEnd secs now) := by
      simp [HubCall.exec, granted]
    rw [after]
    refine ⟨nodup_upsert (fun _ same => same) agree.unique, ?_⟩
    intro room' message'
    have before := agree.agrees room' message'
    rw [lastGrant_cons, completed_cons]
    by_cases same : (room', message') = (room, message)
    · obtain ⟨rfl, rfl⟩ := Prod.mk.inj same
      obtain ⟨c, row, hworker, hstate, hlease⟩ :=
        claimOf_putClaim h.store room' message' worker now (Store.leaseEnd secs now)
      rw [row]
      refine ⟨⟨worker, Store.leaseEnd secs now, now⟩, by simp [grantOf, granted], hworker.symm, ?_⟩
      refine Or.inl ⟨hstate, hlease, ?_⟩
      rintro (impossible | done)
      · simp [completionOf] at impossible
      · -- A completed message has a terminal row, and a terminal row refuses the claim.
        cases old : claimOf room' message' h.store with
        | none => rw [old] at before; exact before.2 done
        | some c' =>
          have active := (claimAllowed_iff.mp allowed c' old).1
          rw [old] at before
          obtain ⟨g, -, -, ⟨-, -, notDone⟩ | ⟨⟨status, ended⟩, -⟩⟩ := before
          · exact notDone done
          · rw [active] at ended
            cases ended
    · rw [claimOf_putClaim_other _ worker now _ same]
      have noGrant : grantOf room' message'
          (⟨t, .claimServiceMessage room message worker secs now, h⟩ : Event (hubMachine cfg)) =
            none := by
        simp only [grantOf]
        rw [if_neg (fun equal => same (Prod.ext equal.1.symm equal.2.symm))]
      rw [noGrant, Option.none_or]
      simpa [completionOf] using before

/-- What a completion call returned, by the row of its message. -/
theorem completionOf_complete {t : Nat} {room message worker : String} {status : TaskStatus}
    {now : Int} {h : HubState} (unique : (h.store.serviceClaims.map Store.claimKey).Nodup)
    (terminal : status.isTerminal) :
    completionOf room message
        (⟨t, .completeServiceMessage room message worker status now, h⟩ :
          Event (hubMachine cfg)) =
      if ∃ c ∈ claimOf room message h.store, Store.heldBy room message worker now c then
        some ⟨worker, now⟩ else none := by
  have count := held_count_iff unique room message worker now
  simp only [completionOf, and_self, if_true, Store.completeServiceMessage, terminal, Bool.not_true,
    Bool.false_eq_true, if_false]
  by_cases held : ∃ c ∈ claimOf room message h.store, Store.heldBy room message worker now c
  · rw [if_pos held, count.mpr held]
  · have other := mt count.mp held
    rw [if_neg held, Bool.eq_false_iff.mpr other]

theorem completeServiceMessage_store {room message worker : String} {status : TaskStatus}
    {now : Int} {h : HubState} (terminal : status.isTerminal) :
    (HubCall.exec cfg (.completeServiceMessage room message worker status now) h).2.store =
      { h.store with
        serviceClaims := updateWhere (fun c => Store.heldBy room message worker now c)
          (fun c => { c with state := .ended status, leaseUntil := now })
          h.store.serviceClaims } := by
  simp [HubCall.exec, Store.completeServiceMessage, terminal, HubState.tryStoreWith]

/-- A completion keeps the agreement: it ends the caller's live claim or nothing. -/
theorem ClaimsAgree.complete {t : Nat} {room message worker : String} {status : TaskStatus}
    {now : Int} {h : HubState} (agree : ClaimsAgree log h.store) :
    ClaimsAgree (⟨t, .completeServiceMessage room message worker status now, h⟩ :: log)
      (HubCall.exec cfg (.completeServiceMessage room message worker status now) h).2.store := by
  cases terminal : status.isTerminal with
  | false =>
    refine agree.frame ?_ (fun _ _ => rfl) ?_
    · simp [HubCall.exec, Store.completeServiceMessage, terminal, HubState.tryStoreWith]
    · intro room' message'
      simp [completionOf, Store.completeServiceMessage, terminal]
  | true =>
    rw [completeServiceMessage_store terminal]
    refine ⟨nodup_updateWhere (fun _ => rfl) agree.unique, ?_⟩
    intro room' message'
    have before := agree.agrees room' message'
    rw [lastGrant_cons, completed_cons, claimOf_complete]
    have noGrant : grantOf room' message'
        (⟨t, .completeServiceMessage room message worker status now, h⟩ :
          Event (hubMachine cfg)) = none := rfl
    rw [noGrant, Option.none_or]
    by_cases same : (room', message') = (room, message)
    · obtain ⟨rfl, rfl⟩ := Prod.mk.inj same
      rw [completionOf_complete agree.unique terminal]
      cases row : claimOf room' message' h.store with
      | none =>
        rw [row] at before
        simpa using before
      | some c =>
        rw [row] at before
        obtain ⟨g, last, holder, state⟩ := before
        by_cases held : Store.heldBy room' message' worker now c
        · refine ⟨g, last, ?_, Or.inr ⟨⟨status, ?_⟩, Or.inl ?_⟩⟩
          · simpa [held] using holder
          · simp [held]
          · simp [held]
        · refine ⟨g, last, ?_, ?_⟩
          · simpa [held] using holder
          · simpa [held] using state
    · have notHeld : ∀ c, claimOf room' message' h.store = some c →
          ¬ Store.heldBy room message worker now c := by
        intro c row held
        have key := (rowOf_mem row).2
        have row := heldBy_iff.mp held
        exact same (key.symm.trans (Prod.ext row.1 row.2.1))
      have noCompletion : completionOf room' message'
          (⟨t, .completeServiceMessage room message worker status now, h⟩ :
            Event (hubMachine cfg)) = none := by
        simp only [completionOf]
        rw [if_neg (fun equal => same (Prod.ext equal.1.symm equal.2.symm))]
      rw [noCompletion]
      cases row : claimOf room' message' h.store with
      | none =>
        rw [row] at before
        simpa using before
      | some c =>
        rw [row] at before
        simpa [notHeld c row] using before

/-- The step lemma: every call keeps the agreement of log and claim table. -/
theorem claimsAgree_step (log : List (Event (hubMachine cfg))) (e : Event (hubMachine cfg))
    (agree : ClaimsAgree log e.before.store) : ClaimsAgree (e :: log) e.after.store := by
  obtain ⟨t, op, h⟩ := e
  cases writes : op.writesClaims with
  | true =>
    cases op with
    | claimServiceMessage room message worker secs now => exact agree.claim
    | completeServiceMessage room message worker status now => exact agree.complete
    | _ => simp [HubCall.writesClaims] at writes
  | false =>
    refine agree.frame (exec_claims op h writes) ?_ ?_
    · intro room message
      cases op with
      | claimServiceMessage => simp [HubCall.writesClaims] at writes
      | _ => rfl
    · intro room message
      cases op with
      | completeServiceMessage => simp [HubCall.writesClaims] at writes
      | _ => rfl

/-- The run lemma: log and claim table agree at every point of every run. -/
theorem claimsAgree_run {cardBytes : AgentCard → List UInt8} {inflight : Nat}
    {P : Pool (hubMachine cfg) Request (List ServerFrame)}
    (reach : Pool.Reachable (serve cfg cardBytes) Pool.anySchedule (.boot inflight) P) :
    ClaimsAgree P.log P.state.store ∧
      ∀ newer e older, P.log = newer ++ e :: older → ClaimsAgree older e.before.store := by
  refine Pool.Reachable.history (I := fun log h => ClaimsAgree log h.store) ?_
    claimsAgree_step reach
  refine ⟨List.nodup_nil, ?_⟩
  intro room message
  exact ⟨rfl, by simp [Completed]⟩

/-! ## Consequences of the agreement -/

section Consequences

variable {e : Event (hubMachine cfg)} {room message : String}

theorem grantOf_allowed {g : Grant} (grant : grantOf room message e = some g) :
    e.before.store.claimAllowed room message g.worker g.time := by
  obtain ⟨t, op, h⟩ := e
  cases op with
  | claimServiceMessage r m worker secs now =>
    simp only [grantOf] at grant
    split at grant
    · rename_i same
      obtain ⟨rfl, rfl⟩ := same
      rcases Store.claimServiceMessage_cases h.store r m worker secs now with
        refused | ⟨allowed, granted⟩
      · rw [refused] at grant
        cases grant
      · rw [granted] at grant
        cases grant
        exact allowed
    · cases grant
  | _ => cases grant

theorem completionOf_held (unique : (e.before.store.serviceClaims.map Store.claimKey).Nodup)
    {c : Completion} (completion : completionOf room message e = some c) :
    ∃ row, claimOf room message e.before.store = some row ∧
      Store.heldBy room message c.worker c.time row := by
  obtain ⟨t, op, h⟩ := e
  cases op with
  | completeServiceMessage r m worker status now =>
    cases terminal : status.isTerminal with
    | false => simp [completionOf, Store.completeServiceMessage, terminal] at completion
    | true =>
      by_cases same : r = room ∧ m = message
      · obtain ⟨rfl, rfl⟩ := same
        rw [completionOf_complete unique terminal] at completion
        split at completion
        · rename_i held
          cases completion
          exact held
        · cases completion
      · simp [completionOf, same] at completion
  | _ => cases completion

/-- A listed message has no claim, or one whose lease has run out. -/
theorem queues_claimable (queues : Queues room message e) :
    ∀ c, claimOf room message e.before.store = some c → c.state = .active := by
  intro c row
  obtain ⟨t, op, h⟩ := e
  cases op with
  | queuedServiceMessages r worker role limit now =>
    obtain ⟨rfl, m, listed, rfl⟩ := queues
    unfold Store.queuedServiceMessages at listed
    split at listed
    · cases listed
    · split at listed
      · cases listed
      · split at listed
        · cases listed
        · obtain ⟨msg, taken, rfl⟩ := List.mem_map.mp listed
          obtain ⟨d, sorted, found⟩ := List.mem_filterMap.mp (List.mem_of_mem_take taken)
          have listedRow := (List.mem_filter.mp ((List.mem_insertionSort _).mp sorted)).2
          have claimable : h.store.claimable r d.message now := by
            simp only [decide_eq_true_eq] at listedRow
            exact listedRow.2.2
          have id : msg.id = d.message := by
            have both := List.find?_some found
            simp only [decide_eq_true_eq] at both
            exact both.1
          have rowOf : claimOf r d.message h.store = some c := by
            rw [← id]
            exact row
          unfold Store.claimable at claimable
          rw [find_claim, rowOf] at claimable
          simp only [Bool.and_eq_true, decide_eq_true_eq] at claimable
          exact claimable.1
  | _ => exact queues.elim

end Consequences

/-! ## The queue's law -/

/-- A terminal claim row means that a completion has succeeded. -/
theorem terminal_completed {log : List (Event (hubMachine cfg))} {s : Store}
    (agree : ClaimsAgree log s) {room message : String} (terminal : Terminal room message s) :
    Completed room message log := by
  obtain ⟨c, member, rfl, rfl, status, ended⟩ := terminal
  have row := agree.agrees c.room c.message
  have found : claimOf c.room c.message s = some c := rowOf_of_mem agree.unique member
  rw [found] at row
  obtain ⟨g, -, -, ⟨active, -⟩ | ⟨-, done⟩⟩ := row
  · rw [active] at ended
    cases ended
  · exact done

/-- Once a completion has succeeded, the message's row is not active. -/
theorem completed_not_active {log : List (Event (hubMachine cfg))} {s : Store}
    (agree : ClaimsAgree log s) {room message : String} (done : Completed room message log) :
    ∃ c, claimOf room message s = some c ∧ c.state ≠ .active := by
  have row := agree.agrees room message
  cases found : claimOf room message s with
  | none => rw [found] at row; exact absurd done row.2
  | some c =>
    rw [found] at row
    obtain ⟨g, -, -, ⟨-, -, notDone⟩ | ⟨⟨status, ended⟩, -⟩⟩ := row
    · exact absurd done notDone
    · exact ⟨c, rfl, by rw [ended]; simp⟩

theorem completed_terminal {log : List (Event (hubMachine cfg))} {s : Store} (agree : ClaimsAgree log s)
    {room message : String} (done : Completed room message log) : Terminal room message s := by
  have row := agree.agrees room message
  cases found : claimOf room message s with
  | none => rw [found] at row; exact absurd done row.2
  | some c =>
    rw [found] at row
    obtain ⟨g, -, -, ⟨-, -, notDone⟩ | ⟨ended, -⟩⟩ := row
    · exact absurd done notDone
    · obtain ⟨member, key⟩ := rowOf_mem found
      exact ⟨c, member, congrArg Prod.fst key, congrArg Prod.snd key, ended⟩

/-- Leases of the role queue, for every call `e` of every run and every message. Another
    worker than the last grantee is granted a claim only once the lease has run out. After the
    claim has reached a terminal state the message is neither claimed, nor queued, nor completed
    again. A completion goes to the last grantee, within its lease, brings the claim to a terminal
    state, and is the first of its message. -/
theorem service_lease_exclusive {cardBytes : AgentCard → List UInt8} {inflight : Nat}
    {P : Pool (hubMachine cfg) Request (List ServerFrame)}
    (reach : Pool.Reachable (serve cfg cardBytes) Pool.anySchedule (.boot inflight) P)
    {newer older : List (Event (hubMachine cfg))} {e : Event (hubMachine cfg)}
    (split : P.log = newer ++ e :: older) (room message : String) :
    (∀ last granted, lastGrant room message older = some last →
      grantOf room message e = some granted → granted.worker ≠ last.worker →
        last.lease ≤ granted.time) ∧
    ((∃ e' ∈ older, Terminal room message e'.after.store) →
      grantOf room message e = none ∧ ¬ Queues room message e ∧
        completionOf room message e = none) ∧
    (∀ done, completionOf room message e = some done →
      (∃ last, lastGrant room message older = some last ∧ last.worker = done.worker ∧
        done.time ≤ last.lease) ∧
      Terminal room message e.after.store ∧ ¬ Completed room message older) := by
  have agree := (claimsAgree_run reach).2 newer e older split
  have row := agree.agrees room message
  refine ⟨?_, ?_, ?_⟩
  · intro last granted hlast hgrant other
    have allowed := claimAllowed_iff.mp (grantOf_allowed hgrant)
    cases found : claimOf room message e.before.store with
    | none => rw [found, hlast] at row; cases row.1
    | some c =>
      rw [found, hlast] at row
      obtain ⟨g, same, holder, ⟨-, until_, -⟩ | ⟨⟨status, ended⟩, -⟩⟩ := row
      · cases same
        rcases (allowed c found).2 with own | expired
        · exact absurd (own.symm.trans holder.symm) other
        · omega
      · rw [(allowed c found).1] at ended
        cases ended
  · rintro ⟨e', member, terminal⟩
    obtain ⟨a, b, rfl⟩ := List.append_of_mem member
    have earlier := (claimsAgree_run reach).2 (newer ++ e :: a) e' b (by simp [split])
    have done : Completed room message (a ++ e' :: b) := by
      obtain ⟨d, old, some⟩ := terminal_completed (claimsAgree_step b e' earlier) terminal
      exact ⟨d, List.mem_append_right a old, some⟩
    obtain ⟨c, found, ended⟩ := completed_not_active agree done
    refine ⟨?_, ?_, ?_⟩
    · cases hgrant : grantOf room message e with
      | none => rfl
      | some granted =>
        exact absurd (claimAllowed_iff.mp (grantOf_allowed hgrant) c found).1 ended
    · intro queues
      exact ended (queues_claimable queues c found)
    · cases hdone : completionOf room message e with
      | none => rfl
      | some done =>
        obtain ⟨c', found', held⟩ := completionOf_held agree.unique hdone
        rw [found] at found'
        cases found'
        exact absurd (heldBy_iff.mp held).2.2.2.1 ended
  · intro done hdone
    obtain ⟨c, found, held⟩ := completionOf_held agree.unique hdone
    obtain ⟨-, -, own, active, within⟩ := heldBy_iff.mp held
    have completed : Completed room message (e :: older) := by
      rw [completed_cons, hdone]
      exact Or.inl rfl
    have terminal := completed_terminal (claimsAgree_step older e agree) completed
    rw [found] at row
    obtain ⟨g, hlast, holder, ⟨-, until_, first⟩ | ⟨⟨status, ended⟩, -⟩⟩ := row
    · exact ⟨⟨g, hlast, holder.trans own, by omega⟩, terminal, first⟩
    · rw [active] at ended
      cases ended

/-- Alice serves a role, a request is dispatched to it, and she claims and completes it. -/
def leaseDemo : DemoPool :=
  demoPlay [
    .welcome alice,
    demoFrame 1 alice (.serve "review"),
    demoFrame 2 alice (.send (.service "review") [dispatchPart "review"] none none none),
    demoFrame 3 alice (.claim "svc.review" "m2" none),
    demoFrame 4 alice (.complete "svc.review" "m2" .done)]

theorem leaseDemo_log : leaseDemo.log ≠ [] := List.ne_nil_of_length_pos (by decide +kernel)

theorem service_lease_exclusive_demo :
    ∃ e older, leaseDemo.log = [] ++ e :: older ∧
      completionOf "svc.review" "m2" e = some ⟨"A", 0⟩ ∧
      (∃ last, lastGrant "svc.review" "m2" older = some last ∧ last.worker = "A" ∧
        0 ≤ last.lease) ∧
      Terminal "svc.review" "m2" e.after.store ∧ ¬ Completed "svc.review" "m2" older := by
  have split : leaseDemo.log = [] ++ leaseDemo.log.head leaseDemo_log :: leaseDemo.log.tail := by
    simp
  have completed : completionOf "svc.review" "m2" (leaseDemo.log.head leaseDemo_log) =
      some ⟨"A", 0⟩ := by decide +kernel
  exact ⟨_, _, split, completed, (service_lease_exclusive (demoPlay_reachable _) split
    "svc.review" "m2").2.2 ⟨"A", 0⟩ completed⟩

end Parler.Hub
