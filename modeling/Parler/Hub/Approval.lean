import Parler.Lib.Lock
import Parler.Hub.Namespaces

/-!
# The approval gate

A gated code turns a redemption into a join request that the room's owner
answers. No agent should be a member and a requester of a room at once, and a
denial should last until the owner approves. Membership comes through several
doors: an approval, an ungated code, and the join of a host to the room it opens,
which is a check and a write under the quota lock. The first and the last respect
the requests in every interleaving; the ungated code does not look at them.
-/

namespace Parler.Hub

open Parler.Lib Parler.Protocol Handler

variable {cfg : HubConfig}

/-! ## The quota lock -/

/-- The `durable_quota` mutex. -/
def quotaLock (cfg : HubConfig) : Lock (hubMachine cfg) where
  takes
    | .lockQuota => true
    | _ => false
  frees
    | .unlockQuota => true
    | _ => false
  held h := h.quotaHeld
  takes_free := by
    intro op h takes enabled
    cases op with
    | lockQuota => simpa [HubCall.ready] using enabled
    | _ => cases takes
  held_takes := by
    intro op h takes
    cases op with
    | lockQuota => rfl
    | _ => cases takes
  held_other := by
    intro op h takes frees
    have store : ∀ r : Except Failure Store, (h.tryStore r).2.quotaHeld = h.quotaHeld := by
      intro r
      cases r <;> rfl
    have storeWith : ∀ {α : Type} (r : Except Failure (α × Store)),
        (h.tryStoreWith r).2.quotaHeld = h.quotaHeld := by
      intro α r
      cases r <;> rfl
    cases op with
    | lockQuota => cases takes
    | unlockQuota => cases frees
    | deleteRoom | createInvite | mintDirectoryToken | mintWatchToken | remember => exact store _
    | redeemInvite | resolveJoin | completeServiceMessage | appendMessage => exact storeWith _
    | acquireUpload n =>
      simp only [HubCall.exec]
      split <;> rfl
    | roomRateAllows room kind now => cases kind <;> rfl
    | _ => rfl

namespace HubCall

def mints : HubCall → Bool
  | .createInvite .. => true
  | _ => false

end HubCall

/-- In its current section of the lock the request has minted no code, and found the agent in
    the room or no such room. -/
def Opening (past : List (HubDone cfg)) (room agent : String) : Prop :=
  ∃ done, (quotaLock cfg).sinceTaken past = some done ∧ (∀ d ∈ done, d.1.mints = false) ∧
    ((⟨.isMember room agent, true⟩ : HubDone cfg) ∈ done ∨
      (⟨.roomKind room, none⟩ : HubDone cfg) ∈ done)

/-- What a request may do to a gated room: it gives back the lock it holds, mints codes
    under the lock and gates channels only, and joins a channel that it opens or is in. -/
@[simp]
def gateRule (past : List (HubDone cfg)) : HubCall → Prop
  | .unlockQuota => ((quotaLock cfg).sinceTaken past).isSome = true
  | .createInvite _ _ kind _ _ _ approval _ =>
      ((quotaLock cfg).sinceTaken past).isSome = true ∧ (approval = true → kind = .channel)
  | .addMember room agent _ => kindOf room = .channel → Opening past room agent
  | _ => True

theorem gateRule_free (past : List (HubDone cfg)) (op : HubCall) (aside : op.aside = true) :
    gateRule past op := by
  cases op <;> trivial

section Walk

variable (cfg) (me : Authed) (fresh : Fresh) {past : List (HubDone cfg)}

theorem resolveTarget_gateRule (target : Target) :
    (resolveTarget cfg me fresh target).Follows gateRule past := by
  cases target with
  | room room => simp [resolveTarget, requireMember]
  | service service => simp [resolveTarget]
  | dm agent =>
    simp only [resolveTarget, follows_call_bind]
    refine ⟨trivial, ?_⟩
    intro shared
    cases shared with
    | some room => simp
    | none =>
      simp only [follows_call_bind]
      refine ⟨trivial, ?_⟩
      intro visibility
      cases visibility <;> simp

/-- A section of the lock follows the rule if its body does and leaves the lock alone. -/
theorem withQuota_gateRule {α : Type} {p : Handler cfg α}
    (body : p.Follows gateRule (⟨.lockQuota, ()⟩ :: past))
    (calls : p.Calls (fun op => (quotaLock cfg).takes op = false ∧
      (quotaLock cfg).frees op = false)) :
    (withQuota p).Follows gateRule past := by
  refine ⟨trivial, fun _ => ?_⟩
  apply Prog.Follows.bind body ((quotaLock cfg).sinceTaken_ends calls rfl)
  intro r past holds
  exact ⟨holds, fun _ => trivial⟩

/-- The second half of an invite, once the room is known to be free or the caller's. -/
theorem mint_gateRule {kind : RoomKind} {room code : String} {maxUses : Nat} {expires now : Int}
    {approval : Bool} {done : List (HubDone cfg)} (answer : ServerFrame)
    (held : (quotaLock cfg).sinceTaken past = some done) (silent : ∀ d ∈ done, d.1.mints = false)
    (known : (⟨.isMember room me.id, true⟩ : HubDone cfg) ∈ done ∨
      (⟨.roomKind room, none⟩ : HubDone cfg) ∈ done)
    (channel : approval = true → kind = .channel) :
    (do
      call (.ensureRoom room kind now)
      call (.addMember room me.id now)
      call (.setRoomOwner room me.id)
      check (← call (.createInvite code room kind maxUses expires me.id approval now))
      return answer : Handler cfg ServerFrame).Follows gateRule past := by
  have ensured : ∀ r, (quotaLock cfg).sinceTaken (⟨.ensureRoom room kind now, r⟩ :: past) =
      some (⟨.ensureRoom room kind now, r⟩ :: done) := by
    intro r
    rw [(quotaLock cfg).sinceTaken_other rfl rfl, held]
    rfl
  simp only [follows_call_bind]
  refine ⟨trivial, fun r => ⟨?_, fun r' => ⟨trivial, fun r'' => ⟨⟨?_, channel⟩, fun minted => ?_⟩⟩⟩⟩
  · intro _
    refine ⟨_, ensured r, ?_, ?_⟩
    · intro d member
      rcases List.mem_cons.mp member with rfl | old
      · rfl
      · exact silent d old
    · rcases known with member | free
      · exact Or.inl (List.mem_cons_of_mem _ member)
      · exact Or.inr (List.mem_cons_of_mem _ free)
  · rw [(quotaLock cfg).sinceTaken_other rfl rfl, (quotaLock cfg).sinceTaken_other rfl rfl, ensured r]
    rfl
  · simp

theorem handleInvite_gateRule (kind : RoomKind) (room : Option String)
    (ttlSecs maxUses : Option Nat) (requireApproval : Bool) :
    (handleInvite cfg me fresh kind room ttlSecs maxUses requireApproval).Follows gateRule
      past := by
  have channel : (requireApproval && decide (kind = .channel)) = true → kind = .channel := by simp
  simp only [handleInvite, follows_call_bind]
  refine ⟨trivial, fun now => withQuota_gateRule cfg ?_ ?_⟩
  · rw [follows_call_bind]
    refine ⟨trivial, fun existing => ?_⟩
    cases existing with
    | some kind' =>
      simp only [Option.isSome_some, if_true, follows_call_bind, fail_bind, follows_ite, follows_fail,
        Option.isNone_some, Bool.false_eq_true, if_false]
      refine ⟨trivial, fun member => ⟨fun _ => trivial, fun inside => ?_⟩⟩
      obtain rfl : member = true := by simpa using inside
      exact mint_gateRule cfg me _ rfl (by simp [HubCall.mints]) (Or.inl (by simp)) channel
    | none =>
      simp only [Option.isSome_none, Bool.false_eq_true, if_false, Option.isNone_none, if_true,
        requireRoomQuota, bind_bind, ite_bind, follows_call_bind, fail_bind, follows_ite, follows_fail]
      refine ⟨trivial, fun owned => ⟨fun _ => trivial, fun _ => ?_⟩⟩
      exact mint_gateRule cfg me _ rfl (by simp [HubCall.mints]) (Or.inr (by simp)) channel
  · simp [requireRoomQuota, quotaLock]

theorem handleServe_gateRule (service : String) :
    (handleServe cfg me service).Follows gateRule past := by
  simp only [handleServe, follows_call_bind]
  refine ⟨trivial, fun now => withQuota_gateRule cfg ?_ ?_⟩
  · simp [requireRoomQuota]
  · simp [requireRoomQuota, quotaLock]

theorem handleRemember_gateRule (fact : Fact) (embedding : Option (List UInt32))
    (model : Option String) :
    (handleRemember cfg me fact embedding model).Follows gateRule past := by
  have keyed : ∀ (key : String) (room : Option String) (past : List (HubDone cfg)), (do
      withQuota do
        if !(← call (.keyedFactWithinQuota me.id key room)) then
          fail (.coded ErrorCode.atCapacity
            "keyed fact quota reached — update an existing key or remove old memory")
        let now ← call .nowMs
        check (← call (.remember me.id fact now embedding model))
      return ServerFrame.remembered true : Handler cfg ServerFrame).Follows gateRule past := by
    intro key room past
    apply follows_bind_free
    · apply withQuota_gateRule
      · simp
      · simp [quotaLock]
    · simp
  unfold handleRemember
  cases named : fact.key with
  | none => cases fact.room <;> simp [requireMember]
  | some key =>
    cases fact.room with
    | none => exact keyed key none past
    | some name =>
      simp only [requireMember, bind_bind, ite_bind, follows_call_bind, follows_ite, fail_bind,
        follows_fail]
      refine ⟨trivial, fun member => ⟨fun _ => trivial, fun _ => ?_⟩⟩
      exact keyed key (some name) _

theorem frame_gateRule (cardBytes : AgentCard → List UInt8) (frame : ClientFrame)
    (upload : Option (List UInt8)) (rounds : Nat) :
    (serve cfg cardBytes (.frame me frame fresh upload rounds)).Follows gateRule [] := by
  refine serve_follows_rooms me fresh (J := fun _ => True) gateRule_free (fun _ _ _ _ => trivial)
    trivial cardBytes frame upload rounds (fun target _ past _ => resolveTarget_gateRule ..) ?_
  intro writes past _
  cases frame with
  | invite => exact handleInvite_gateRule ..
  | serve => exact handleServe_gateRule ..
  | remember => exact handleRemember_gateRule ..
  | redeem | resolveJoin | deleteRoom =>
    simp [handleFrame, handleRedeem, handleResolveJoin, handleDeleteRoom]
  | mintDirectoryToken | mintWatch =>
    simp only [handleFrame, handleMintDirectoryToken, handleMintWatch, follows_call_bind]
    refine ⟨trivial, fun now => withQuota_gateRule cfg ?_ ?_⟩
    · simp [requireTokenQuota]
    · simp [requireTokenQuota, quotaLock]
  | _ => cases writes

end Walk

theorem serve_gateRule (cfg : HubConfig) (cardBytes : AgentCard → List UInt8) (req : Request) :
    (serve cfg cardBytes req).Follows gateRule [] := by
  refine serve_follows (C := fun _ => gateRule) ?_ ?_ req
  · intro req past op own
    cases op <;> trivial
  · exact fun me frame fresh upload rounds => frame_gateRule cfg me fresh cardBytes frame upload rounds

theorem serve_proper (cfg : HubConfig) (cardBytes : AgentCard → List UInt8) (req : Request) :
    (serve cfg cardBytes req).Follows (quotaLock cfg).proper [] := by
  refine (serve_gateRule cfg cardBytes req).mono ?_
  intro past op rule takes frees
  cases op with
  | unlockQuota => exact rule
  | _ => cases frees

/-! ## The invariant -/

/-- The schedules without deletions in which no agent with a request for a room redeems an
    ungated code for it. -/
def noBypass (P : HubPool cfg) (_ : Nat) : HubCall → Prop
  | .deleteRoom .. => False
  | .redeemInvite code agent _ => ∀ inv ∈ P.state.store.invites, inv.code = code →
      inv.requireApproval = false → ¬ P.state.store.Asked inv.room agent
  | _ => True

/-- No agent is a member and a requester of one room, requests are for channels, and what
    the holder of the lock found about a room is still so. -/
structure Gate (P : HubPool cfg) : Prop where
  gated : ∀ i ∈ P.state.store.invites, i.requireApproval = true → kindOf i.room = .channel
  asked : ∀ room agent, P.state.store.Asked room agent → kindOf room = .channel
  apart : ∀ room agent, P.state.store.isMember room agent = true →
    ¬ P.state.store.Asked room agent
  inside : ∀ t done room agent, (quotaLock cfg).sinceTaken (Pool.ownPast P.log t) = some done →
    (⟨.isMember room agent, true⟩ : HubDone cfg) ∈ done → P.state.store.isMember room agent = true
  free : ∀ t done room, (quotaLock cfg).sinceTaken (Pool.ownPast P.log t) = some done →
    (∀ d ∈ done, d.1.mints = false) → (⟨.roomKind room, none⟩ : HubDone cfg) ∈ done →
      (∀ i ∈ P.state.store.invites, i.room ≠ room) ∧ ∀ agent, ¬ P.state.store.Asked room agent

section Step

variable {P : HubPool cfg} {t : Nat} {req : Request} {op : HubCall}
  {next : op.Res → Prog (hubMachine cfg) (List ServerFrame)}

theorem noBypass_kept (allowed : noBypass P t op) (room : String) :
    ∀ owner, op ≠ .deleteRoom room owner := by
  intro owner deletes
  subst deletes
  exact allowed

/-- No door lets a requester in. -/
theorem Gate.apart_step (gate : Gate P) (rule : gateRule (Pool.ownPast P.log t) op)
    (allowed : noBypass P t op) {room agent : String}
    (member : (op.exec cfg P.state).2.store.isMember room agent = true) :
    ¬ (op.exec cfg P.state).2.store.Asked room agent := by
  intro asked
  cases before : P.state.store.isMember room agent with
  | true =>
    rcases asked_origin cfg op P.state asked with old | ⟨inv, -, -, -, outsider, -⟩
    · exact gate.apart room agent before old
    · rw [before] at outsider
      cases outsider
  | false =>
    have joins := joins_of_joined cfg op P.state before member
    cases op with
    | addMember room' agent' now =>
      obtain ⟨rfl, rfl⟩ := joins
      have asked : P.state.store.Asked room' agent' := asked
      obtain ⟨done, held, silent, inside | free⟩ := rule (gate.asked room' agent' asked)
      · rw [gate.inside t done room' agent' held inside] at before
        cases before
      · exact (gate.free t done room' held silent free).2 agent' asked
    | redeemInvite code agent' now =>
      obtain ⟨rfl, inv, charge, rfl, ungated⟩ := joins
      have code_eq : inv.code = code := by simpa using List.find?_some charge.found
      have unasked := allowed inv (List.mem_of_find?_eq_some charge.found) code_eq ungated
      rcases asked_origin cfg _ P.state asked with old | ⟨-, -, -, -, -, same⟩
      · exact unasked old
      · unfold Store.isMember at member before
        rw [same, before] at member
        cases member
    | resolveJoin room' owner agent' approve now =>
      obtain ⟨rfl, rfl, rfl⟩ := joins
      exact approved_unasked cfg P.state before member asked
    | _ => exact joins.elim

/-- What the holder found about a member lasts. -/
theorem Gate.inside_step (gate : Gate P) (allowed : noBypass P t op) {u : Nat}
    {done : List (HubDone cfg)} {room agent : String}
    (held : (quotaLock cfg).sinceTaken (Pool.ownPast (P.exec t req op next).log u) = some done)
    (found : (⟨.isMember room agent, true⟩ : HubDone cfg) ∈ done) :
    (op.exec cfg P.state).2.store.isMember room agent = true := by
  refine isMember_exec cfg op P.state (noBypass_kept allowed room) ?_
  rcases (quotaLock cfg).sinceTaken_exec held with ⟨-, same⟩ | ⟨-, rfl⟩ | ⟨-, old, before, rfl⟩
  · exact gate.inside u done room agent same found
  · cases found
  · rcases List.mem_cons.mp found with now | found
    · cases op with
      | isMember room' agent' =>
        have same := (Sigma.mk.inj now).1
        cases same
        exact (eq_of_heq (Sigma.mk.inj now).2).symm
      | _ => cases (Sigma.mk.inj now).1
    · exact gate.inside t old room agent before found

/-- What the holder found about a free name lasts until it mints a code for it. -/
theorem Gate.free_step (gate : Gate P) (exclusive : (quotaLock cfg).Exclusive P)
    (rule : gateRule (Pool.ownPast P.log t) op) (exist : P.state.store.RoomsExist) {u : Nat}
    {done : List (HubDone cfg)} {room : String}
    (held : (quotaLock cfg).sinceTaken (Pool.ownPast (P.exec t req op next).log u) = some done)
    (silent : ∀ d ∈ done, d.1.mints = false)
    (found : (⟨.roomKind room, none⟩ : HubDone cfg) ∈ done) :
    (∀ i ∈ (op.exec cfg P.state).2.store.invites, i.room ≠ room) ∧
      ∀ agent, ¬ (op.exec cfg P.state).2.store.Asked room agent := by
  -- The name was free before the call, and the call mints nothing for it.
  have before : ((∀ i ∈ P.state.store.invites, i.room ≠ room) ∧
      ∀ agent, ¬ P.state.store.Asked room agent) ∧ op.mints = false := by
    rcases (quotaLock cfg).sinceTaken_exec held with ⟨other, same⟩ | ⟨-, rfl⟩ | ⟨rfl, old, past, rfl⟩
    · refine ⟨gate.free u done room same silent found, ?_⟩
      by_contra mints
      have holds : (quotaLock cfg).HeldBy P t := by
        cases op with
        | createInvite => exact rule.1
        | _ => exact absurd rfl mints
      exact other (exclusive.one u t (by simp [Lock.HeldBy, same]) holds)
    · cases found
    · refine ⟨?_, silent _ List.mem_cons_self⟩
      rcases List.mem_cons.mp found with now | found
      · cases op with
        | roomKind room' =>
          cases (Sigma.mk.inj now).1
          have missing : P.state.store.roomKind room = none := (eq_of_heq (Sigma.mk.inj now).2).symm
          have absent : ¬ P.state.store.hasRoom room := by
            intro has
            obtain ⟨r, listed, name⟩ := has
            have none := List.find?_eq_none.mp (Option.map_eq_none_iff.mp missing) r listed
            simp [name] at none
          refine ⟨fun i invited same => absent (exist room .invites ⟨i, invited, same⟩), ?_⟩
          intro agent asked
          obtain ⟨j, listed, same, -⟩ := asked
          exact absent (exist room .joinRequests ⟨j, listed, same⟩)
        | _ => cases (Sigma.mk.inj now).1
      · exact gate.free u old room past (fun d member => silent d (List.mem_cons_of_mem _ member)) found
  obtain ⟨⟨uninvited, unasked⟩, mints⟩ := before
  refine ⟨?_, ?_⟩
  · intro i invited same
    rcases invite_origin cfg op P.state invited with ⟨old, listed, kept⟩ | ⟨_, _, _, rfl, -⟩
    · exact uninvited old listed (kept.room.trans same)
    · cases mints
  · intro agent asked
    rcases asked_origin cfg op P.state asked with old | ⟨inv, listed, same, -⟩
    · exact unasked agent old
    · exact uninvited inv listed same

end Step

section Runs

variable {cardBytes : AgentCard → List UInt8} {inflight : Nat} {P : HubPool cfg}

theorem undeleted (reach : Pool.Reachable (serve cfg cardBytes) noBypass (.boot inflight) P)
    {e : HubEvent cfg} (logged : e ∈ P.log) (room owner : String) : e.op ≠ .deleteRoom room owner := by
  obtain ⟨newer, older, split⟩ := List.append_of_mem logged
  obtain ⟨P', req, next, -, -, -, -, -, allowed⟩ := reach.event split
  exact noBypass_kept allowed room owner

/-- Without deletions every row names an existing room. -/
theorem roomsExist_undeleted
    (reach : Pool.Reachable (serve cfg cardBytes) noBypass (.boot inflight) P) :
    P.state.store.RoomsExist := by
  have live : Pool.Reachable (serve cfg cardBytes) writesLiveRoom (.boot inflight) P := by
    apply reach.restrict
    intro P' t op newer split room writes deleted
    obtain ⟨newer', g, older, past, -, -, e, later, owner, deletes, -⟩ := deleted
    refine undeleted reach (e := e) ?_ room owner deletes
    rw [split, past]
    simp [later]
  exact (roomsExist_run live).1

/-- The run lemma. -/
theorem gate_run (reach : Pool.Reachable (serve cfg cardBytes) noBypass (.boot inflight) P) :
    Gate P := by
  refine Pool.Reachable.induct (I := Gate) ?_ ?_ reach
  · constructor
    · intro i invited
      cases invited
    · intro room agent asked
      obtain ⟨j, listed, -⟩ := asked
      cases listed
    · intro room agent member
      cases member
    · intro t done room agent held
      cases held
    · intro t done room held
      cases held
  · intro P Q reach gate step
    cases step with
    | spawn t req free => exact ⟨gate.gated, gate.asked, gate.apart, gate.inside, gate.free⟩
    | exec t req op next pending enabled allowed =>
      have rule : gateRule (Pool.ownPast P.log t) op :=
        (reach.follows (serve_gateRule cfg cardBytes) pending).1
      have names := pending_nameRule reach pending
      have exclusive := (quotaLock cfg).exclusive (serve_proper cfg cardBytes) reach
      constructor
      · intro i invited gated
        rcases invite_origin cfg op P.state invited with ⟨old, listed, kept⟩ | ⟨_, _, _, rfl, -⟩
        · rw [← kept.room]
          exact gate.gated old listed (kept.requireApproval.trans gated)
        · rw [← names.1]
          exact rule.2 gated
      · intro room agent asked
        rcases asked_origin cfg op P.state asked with old | ⟨inv, listed, rfl, gated, -⟩
        · exact gate.asked room agent old
        · exact gate.gated inv listed gated
      · intro room agent member
        exact gate.apart_step rule allowed member
      · intro u done room agent held found
        exact gate.inside_step allowed held found
      · intro u done room held silent found
        exact gate.free_step exclusive rule (roomsExist_undeleted reach) held silent found

/-- The call is the owner's answer to the agent's request for the room. -/
def Answers (approve : Bool) (room agent : String) (e : HubEvent cfg) : Prop :=
  ∃ owner now, (⟨e.op, e.result⟩ : HubDone cfg) =
    ⟨.resolveJoin room owner agent approve now, .ok approve⟩

/-- A successful resolution, as the store saw it. -/
theorem resolve_answers {t : Nat} {h : HubState} {room owner agent : String} {approve admitted : Bool}
    {now : Int} {s : Store} (ok : h.store.resolveJoin room owner agent approve now = .ok (admitted, s)) :
    Answers approve room agent (⟨t, .resolveJoin room owner agent approve now, h⟩ : HubEvent cfg) := by
  have same : admitted = approve := (Store.resolveJoin_cases ok).2.2.1
  have result : (h.tryStoreWith (h.store.resolveJoin room owner agent approve now)).1 =
      .ok approve := by
    rw [ok, ← same]
    rfl
  exact ⟨owner, now, Sigma.ext rfl (heq_of_eq result)⟩

theorem denied_of_answer {e : HubEvent cfg} {room agent : String} (denies : Answers false room agent e) :
    e.after.store.Denied room agent := by
  obtain ⟨t, op, h⟩ := e
  obtain ⟨owner, now, same⟩ := denies
  have op_eq : op = .resolveJoin room owner agent false now := (Sigma.mk.inj same).1
  subst op_eq
  have result : (h.tryStoreWith (h.store.resolveJoin room owner agent false now)).1 = .ok false :=
    eq_of_heq (Sigma.mk.inj same).2
  show ((h.tryStoreWith (h.store.resolveJoin room owner agent false now)).2).store.Denied room agent
  cases ok : h.store.resolveJoin room owner agent false now with
  | error e =>
    rw [ok] at result
    cases result
  | ok r =>
    obtain ⟨admitted, s⟩ := r
    obtain ⟨-, ⟨j, listed, own⟩, -, ⟨impossible, -⟩ | ⟨-, rfl⟩⟩ := Store.resolveJoin_cases ok
    · cases impossible
    · exact ⟨{ j with status := .denied }, mem_updateWhere.mpr (Or.inr ⟨j, listed, own, rfl⟩), own.1,
        own.2, rfl⟩

/-- A denial lasts until it is answered otherwise or the room is deleted. -/
theorem denied_after {e : HubEvent cfg} {room agent : String} (kept : ∀ room owner, e.op ≠ .deleteRoom room owner)
    (other : ¬ Answers true room agent e) (denied : e.before.store.Denied room agent) :
    e.after.store.Denied room agent := by
  obtain ⟨t, op, h⟩ := e
  obtain ⟨j, listed, own⟩ := denied
  show ((op.exec cfg h).2).store.Denied room agent
  have unchanged : (op.exec cfg h).2.store.joinRequests = h.store.joinRequests →
      (op.exec cfg h).2.store.Denied room agent := by
    intro same
    exact ⟨j, by rw [same]; exact listed, own⟩
  by_cases written : TableName.joinRequests ∈ op.writes
  · cases op with
    | redeemInvite code agent' now =>
      rcases h.tryStoreWith_cases (h.store.redeemInvite code agent' now) with ⟨r, s, ok, after⟩ | same
      · rw [HubCall.exec, after] at unchanged ⊢
        rcases Store.redeemInvite_ok ok with rfl | ⟨inv, -, rfl | rfl⟩
        · exact unchanged rfl
        · exact ⟨j, List.mem_append_left _ listed, own⟩
        · exact unchanged rfl
      · exact unchanged (by rw [HubCall.exec, same])
    | resolveJoin room' owner agent' approve now =>
      rcases h.tryStoreWith_cases (h.store.resolveJoin room' owner agent' approve now) with
        ⟨admitted, s, ok, after⟩ | same
      · rw [HubCall.exec, after]
        obtain ⟨-, -, -, ⟨rfl, rfl⟩ | ⟨-, rfl⟩⟩ := Store.resolveJoin_cases ok
        · refine ⟨j, mem_deleteWhere.mpr ⟨listed, ?_⟩, own⟩
          intro answered
          obtain ⟨rfl, rfl, -⟩ := own
          obtain ⟨rfl, rfl⟩ := answered
          exact other (resolve_answers ok)
        · by_cases answered : j.room = room' ∧ j.agent = agent'
          · exact ⟨{ j with status := .denied },
              mem_updateWhere.mpr (Or.inr ⟨j, listed, answered, rfl⟩), own.1, own.2.1, rfl⟩
          · exact ⟨j, mem_updateWhere.mpr (Or.inl ⟨listed, answered⟩), own⟩
      · exact unchanged (by rw [HubCall.exec, same])
    | deleteRoom room' owner => exact absurd rfl (kept room' owner)
    | _ => simp [HubCall.writes] at written
  · exact unchanged (exec_same cfg op h .joinRequests written)

/-- In every run without deletions in which no agent with a join request redeems an ungated code of
    that room, no agent is a member and a requester of a room at once, and an agent whose request
    was denied is no member until its request is approved. -/
theorem approval_gate_unless_bypassed
    (reach : Pool.Reachable (serve cfg cardBytes) noBypass (.boot inflight) P) :
    (∀ room agent, P.state.store.isMember room agent = true → ¬ P.state.store.Asked room agent) ∧
    ∀ newer e older room agent, P.log = newer ++ e :: older → Answers false room agent e →
      P.state.store.isMember room agent = true → ∃ a ∈ newer, Answers true room agent a := by
  have gate := gate_run reach
  refine ⟨gate.apart, ?_⟩
  intro newer e older room agent split denies member
  by_contra unanswered
  have denied : P.state.store.Denied room agent := by
    apply reach.since (J := fun h => h.store.Denied room agent) split (denied_of_answer denies)
    intro a later before
    refine denied_after ?_ ?_ before
    · intro room' owner
      exact undeleted reach (by rw [split]; simp [later]) room' owner
    · intro approves
      exact unanswered ⟨a, later, approves⟩
  obtain ⟨j, listed, room_eq, agent_eq, -⟩ := denied
  exact gate.apart room agent member ⟨j, listed, room_eq, agent_eq⟩

end Runs

/-- Alice opens a gated room; Bob asks to join and is let in, another agent is denied. -/
def gateDemo : DemoPool :=
  demoPlay [demoFrame 1 alice (.invite .channel (some "r") none none true),
    demoFrame 2 bob (.redeem "c1"),
    demoFrame 3 ⟨"E", "eve", none⟩ (.redeem "c1"),
    demoFrame 4 alice (.resolveJoin "r" "B" true),
    demoFrame 5 alice (.resolveJoin "r" "E" false)]

/-- Every code is gated. -/
def allGated (h : HubState) : Bool := h.store.invites.all (fun i => i.requireApproval)

def isDeletion : HubCall → Bool
  | .deleteRoom .. => true
  | _ => false

theorem noBypass_of_gated {P : HubPool cfg} (t : Nat) (op : HubCall) (kept : isDeletion op = false)
    (gated : allGated P.state = true) : noBypass P t op := by
  cases op with
  | deleteRoom => cases kept
  | redeemInvite code agent now =>
    intro inv listed same ungated
    have gated : inv.requireApproval = true := by simpa using List.all_eq_true.mp gated inv listed
    rw [ungated] at gated
    cases gated
  | _ => trivial

theorem approval_gate_unless_bypassed_demo :
    gateDemo.state.store.isMember "r" "B" = true ∧ gateDemo.state.store.Asked "r" "E" ∧
      ¬ gateDemo.state.store.Asked "r" "B" := by
  have reach : Pool.Reachable demoServe noBypass demoHub gateDemo := by
    have gated : ∀ e ∈ gateDemo.log, isDeletion e.op = false ∧ allGated e.before = true := by
      decide +kernel
    apply (demoPlay_reachable _).restrict
    intro P t op newer split
    have logged : (⟨t, op, P.state⟩ : HubEvent demoConfig) ∈ gateDemo.log := by
      unfold gateDemo
      rw [split]
      simp
    obtain ⟨kept, all⟩ := gated _ logged
    exact noBypass_of_gated t op kept all
  have member : gateDemo.state.store.isMember "r" "B" = true := by decide +kernel
  have waiting : ∃ j ∈ gateDemo.state.store.joinRequests, j.room = "r" ∧ j.agent = "E" := by
    decide +kernel
  exact ⟨member, waiting, (approval_gate_unless_bypassed reach).1 "r" "B" member⟩

/-- Alice opens a gated room and denies Bob; then she mints an ungated code, which Bob redeems. -/
def deniedThenJoins : DemoPool :=
  demoPlay [demoFrame 1 alice (.invite .channel (some "r") none none true),
    demoFrame 2 bob (.redeem "c1"),
    demoFrame 3 alice (.resolveJoin "r" "B" false),
    demoFrame 4 alice (.invite .channel (some "r") none none false),
    demoFrame 5 bob (.redeem "c4")]

def approves : HubCall → Bool
  | .resolveJoin _ _ _ approve _ => approve
  | _ => false

/-- A run of the hub in which an agent is a member while its request stands denied, and no
    request was ever approved. -/
theorem denied_agent_joins :
    ∃ P : DemoPool, Pool.Reachable demoServe Pool.anySchedule demoHub P ∧
      P.state.store.isMember "r" "B" = true ∧ P.state.store.Denied "r" "B" ∧
      (∀ e ∈ P.log, ∀ room owner, e.op ≠ .deleteRoom room owner) ∧
      ∀ e ∈ P.log, ¬ Answers true "r" "B" e := by
  have member : deniedThenJoins.state.store.isMember "r" "B" = true := by decide +kernel
  have denied : ∃ j ∈ deniedThenJoins.state.store.joinRequests,
      j.room = "r" ∧ j.agent = "B" ∧ j.status = .denied := by decide +kernel
  have kept : ∀ e ∈ deniedThenJoins.log, isDeletion e.op = false ∧ approves e.op = false := by
    decide +kernel
  refine ⟨deniedThenJoins, demoPlay_reachable _, member, denied, ?_, ?_⟩
  · intro e logged room owner deletes
    have kept := (kept e logged).1
    rw [deletes] at kept
    cases kept
  · intro e logged approved
    obtain ⟨owner, now, same⟩ := approved
    have kept := (kept e logged).2
    rw [show e.op = .resolveJoin "r" owner "B" true now from (Sigma.mk.inj same).1] at kept
    cases kept

end Parler.Hub
