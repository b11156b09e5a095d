import Parler.Hub.Demo
import Parler.Hub.Members

/-!
# Invites and join requests

What a call does to an invite and to a join request: where the rows come from, and
how long they last. An ungated code is charged for the members it makes, a gated one
for the requests it queues; over a run its uses count distinct agents.
-/

namespace Parler.Hub

open Parler.Lib Parler.Protocol

variable {cfg : HubConfig}

/-! ## Invites -/

/-- What a charge leaves of an invite. -/
structure InviteRow.Same (i j : InviteRow) : Prop where
  code : i.code = j.code
  room : i.room = j.room
  kind : i.kind = j.kind
  maxUses : i.maxUses = j.maxUses
  expires : i.expires = j.expires
  requireApproval : i.requireApproval = j.requireApproval

theorem InviteRow.Same.refl (i : InviteRow) : i.Same i := ⟨rfl, rfl, rfl, rfl, rfl, rfl⟩

/-- Where an invite comes from: an older row that a redemption may have charged, or its
    creation. -/
theorem invite_origin (cfg : HubConfig) (op : HubCall) (h : HubState) {i : InviteRow}
    (member : i ∈ (op.exec cfg h).2.store.invites) :
    (∃ old ∈ h.store.invites, old.Same i) ∨
      ∃ maxUses createdBy now, op = .createInvite i.code i.room i.kind maxUses i.expires createdBy
        i.requireApproval now ∧ i.maxUses = maxUses ∧ i.uses = 0 := by
  have kept : i ∈ h.store.invites → ∃ old ∈ h.store.invites, old.Same i :=
    fun old => ⟨i, old, .refl i⟩
  by_cases written : TableName.invites ∈ op.writes
  · cases op with
    | createInvite code room kind maxUses expires createdBy requireApproval now =>
      rcases h.tryStore_cases (h.store.createInvite code room kind none maxUses expires createdBy
        requireApproval now) with ⟨s, ok, after⟩ | same
      · rw [HubCall.exec, after, Store.createInvite_ok ok] at member
        rcases List.mem_append.mp member with old | new
        · exact Or.inl (kept old)
        · obtain rfl := List.mem_singleton.mp new
          exact Or.inr ⟨maxUses, createdBy, now, rfl, rfl, rfl⟩
      · rw [HubCall.exec, same] at member
        exact Or.inl (kept member)
    | redeemInvite code agent now =>
      rcases h.tryStoreWith_cases (h.store.redeemInvite code agent now) with ⟨r, s, ok, after⟩ | same
      · rw [HubCall.exec, after] at member
        have charged : i ∈ (h.store.chargeInvite code).invites →
            ∃ old ∈ h.store.invites, old.Same i := by
          intro member
          rcases mem_updateWhere.mp member with ⟨old, -⟩ | ⟨old, listed, -, rfl⟩
          · exact kept old
          · exact ⟨old, listed, rfl, rfl, rfl, rfl, rfl, rfl⟩
        rcases Store.redeemInvite_ok ok with rfl | ⟨inv, -, rfl | rfl⟩
        · exact Or.inl (kept member)
        · exact Or.inl (charged member)
        · exact Or.inl (charged member)
      · rw [HubCall.exec, same] at member
        exact Or.inl (kept member)
    | deleteRoom room owner =>
      rcases h.tryStore_cases (h.store.deleteRoom room owner) with ⟨s, ok, after⟩ | same
      · rw [HubCall.exec, after, (Store.deleteRoom_ok ok).2] at member
        exact Or.inl (kept (mem_deleteWhere.mp member).1)
      · rw [HubCall.exec, same] at member
        exact Or.inl (kept member)
    | sweepExpired now => exact Or.inl (kept (mem_deleteWhere.mp member).1)
    | _ => simp [HubCall.writes] at written
  · rw [exec_same cfg op h .invites written] at member
    exact Or.inl (kept member)

/-! ## Requests to join -/

namespace Store

/-- The agent has a join request for the room, pending or denied. -/
def Asked (s : Store) (room agent : String) : Prop :=
  ∃ j ∈ s.joinRequests, j.room = room ∧ j.agent = agent

/-- The agent's request for the room was denied. -/
def Denied (s : Store) (room agent : String) : Prop :=
  ∃ j ∈ s.joinRequests, j.room = room ∧ j.agent = agent ∧ j.status = .denied

end Store

/-- Where a join request comes from: an older row of the agent in the room, or a redemption of a
    gated code for the room. -/
theorem asked_origin (cfg : HubConfig) (op : HubCall) (h : HubState) {room agent : String}
    (asked : (op.exec cfg h).2.store.Asked room agent) :
    h.store.Asked room agent ∨ ∃ inv ∈ h.store.invites, inv.room = room ∧
      inv.requireApproval = true ∧ h.store.isMember room agent = false ∧
      (op.exec cfg h).2.store.members = h.store.members := by
  obtain ⟨j, member, rfl, rfl⟩ := asked
  by_cases written : TableName.joinRequests ∈ op.writes
  · cases op with
    | redeemInvite code agent now =>
      rcases h.tryStoreWith_cases (h.store.redeemInvite code agent now) with ⟨r, s, ok, after⟩ | same
      · rw [HubCall.exec, after] at member ⊢
        rcases Store.redeemInvite_cases ok with
          rfl | ⟨inv, charge, ⟨gated, -, rfl⟩ | ⟨-, rfl⟩⟩
        · exact Or.inl ⟨j, member, rfl, rfl⟩
        · rcases List.mem_append.mp member with old | new
          · exact Or.inl ⟨j, old, rfl, rfl⟩
          · obtain rfl := List.mem_singleton.mp new
            exact Or.inr ⟨inv, List.mem_of_find?_eq_some charge.found, rfl, gated, charge.outsider, rfl⟩
        · exact Or.inl ⟨j, member, rfl, rfl⟩
      · rw [HubCall.exec, same] at member
        exact Or.inl ⟨j, member, rfl, rfl⟩
    | resolveJoin room owner agent approve now =>
      rcases h.tryStoreWith_cases (h.store.resolveJoin room owner agent approve now) with
        ⟨admitted, s, ok, after⟩ | same
      · rw [HubCall.exec, after] at member
        rcases (Store.resolveJoin_ok ok).2 with rfl | rfl
        · exact Or.inl ⟨j, (mem_deleteWhere.mp member).1, rfl, rfl⟩
        · rcases mem_updateWhere.mp member with ⟨old, -⟩ | ⟨old, listed, -, rfl⟩
          · exact Or.inl ⟨j, old, rfl, rfl⟩
          · exact Or.inl ⟨old, listed, rfl, rfl⟩
      · rw [HubCall.exec, same] at member
        exact Or.inl ⟨j, member, rfl, rfl⟩
    | deleteRoom room owner =>
      rcases h.tryStore_cases (h.store.deleteRoom room owner) with ⟨s, ok, after⟩ | same
      · rw [HubCall.exec, after, (Store.deleteRoom_ok ok).2] at member
        exact Or.inl ⟨j, (mem_deleteWhere.mp member).1, rfl, rfl⟩
      · rw [HubCall.exec, same] at member
        exact Or.inl ⟨j, member, rfl, rfl⟩
    | _ => simp [HubCall.writes] at written
  · rw [exec_same cfg op h .joinRequests written] at member
    exact Or.inl ⟨j, member, rfl, rfl⟩

/-- An approval takes the request it answers. -/
theorem approved_unasked (cfg : HubConfig) (h : HubState) {room owner agent : String} {now : Int}
    (before : h.store.isMember room agent = false)
    (after : (HubCall.exec cfg (.resolveJoin room owner agent true now) h).2.store.isMember room agent =
      true) :
    ¬ (HubCall.exec cfg (.resolveJoin room owner agent true now) h).2.store.Asked room agent := by
  intro asked
  rcases h.tryStoreWith_cases (h.store.resolveJoin room owner agent true now) with
    ⟨admitted, s, ok, done⟩ | same
  · rw [HubCall.exec, done] at asked
    obtain ⟨-, -, -, ⟨-, rfl⟩ | ⟨impossible, -⟩⟩ := Store.resolveJoin_cases ok
    · obtain ⟨j, member, answered⟩ := asked
      exact (mem_deleteWhere.mp member).2 answered
    · cases impossible
  · rw [HubCall.exec, same, before] at after
    cases after

/-- Membership lasts while no room is deleted. -/
theorem isMember_exec (cfg : HubConfig) (op : HubCall) (h : HubState) {room agent : String}
    (kept : ∀ owner, op ≠ .deleteRoom room owner) (member : h.store.isMember room agent = true) :
    (op.exec cfg h).2.store.isMember room agent = true := by
  obtain ⟨row, found⟩ := Store.isMember_iff.mp member
  rw [Store.isMember_iff]
  have change := memberChange_exec cfg op h room agent
  rw [found] at change
  generalize (op.exec cfg h).2.store.memberRow room agent = after at change
  cases change with
  | same => exact ⟨row, rfl⟩
  | joined now absent => exact ⟨_, rfl⟩
  | deleted owner deletes => exact absurd deletes (kept owner)
  | moved v => exact ⟨_, rfl⟩

/-- A request lasts until it is answered or its room is deleted; an approved one leaves a
    member. -/
theorem asked_exec (cfg : HubConfig) (op : HubCall) (h : HubState) {room agent : String}
    (kept : ∀ owner, op ≠ .deleteRoom room owner) (asked : h.store.Asked room agent) :
    (op.exec cfg h).2.store.Asked room agent ∨
      (op.exec cfg h).2.store.isMember room agent = true := by
  obtain ⟨j, listed, rfl, rfl⟩ := asked
  have unchanged : (op.exec cfg h).2.store.joinRequests = h.store.joinRequests →
      (op.exec cfg h).2.store.Asked j.room j.agent := by
    intro same
    exact ⟨j, by rw [same]; exact listed, rfl, rfl⟩
  by_cases written : TableName.joinRequests ∈ op.writes
  · cases op with
    | redeemInvite code agent now =>
      rcases h.tryStoreWith_cases (h.store.redeemInvite code agent now) with ⟨r, s, ok, after⟩ | same
      · rw [HubCall.exec, after] at unchanged ⊢
        rcases Store.redeemInvite_ok ok with rfl | ⟨inv, -, rfl | rfl⟩
        · exact Or.inl (unchanged rfl)
        · exact Or.inl ⟨j, List.mem_append_left _ listed, rfl, rfl⟩
        · exact Or.inl (unchanged rfl)
      · exact Or.inl (unchanged (by rw [HubCall.exec, same]))
    | resolveJoin room owner agent approve now =>
      rcases h.tryStoreWith_cases (h.store.resolveJoin room owner agent approve now) with
        ⟨admitted, s, ok, after⟩ | same
      · rw [HubCall.exec, after]
        rcases (Store.resolveJoin_ok ok).2 with rfl | rfl
        · by_cases answered : j.room = room ∧ j.agent = agent
          · obtain ⟨rfl, rfl⟩ := answered
            obtain ⟨row, member, key⟩ := exists_key_insertNew Store.memberKey
              ⟨j.room, j.agent, now, 0⟩ h.store.members
            refine Or.inr (Store.isMember_iff.mpr ?_)
            rw [← Option.isSome_iff_exists, Store.memberRow, rowOf, List.find?_isSome]
            exact ⟨row, member, by simpa [Store.memberKey] using key⟩
          · exact Or.inl ⟨j, mem_deleteWhere.mpr ⟨listed, answered⟩, rfl, rfl⟩
        · by_cases answered : j.room = room ∧ j.agent = agent
          · exact Or.inl ⟨{ j with status := .denied },
              mem_updateWhere.mpr (Or.inr ⟨j, listed, answered, rfl⟩), rfl, rfl⟩
          · exact Or.inl ⟨j, mem_updateWhere.mpr (Or.inl ⟨listed, answered⟩), rfl, rfl⟩
      · exact Or.inl (unchanged (by rw [HubCall.exec, same]))
    | deleteRoom room owner =>
      rcases h.tryStore_cases (h.store.deleteRoom room owner) with ⟨s, ok, after⟩ | same
      · rw [HubCall.exec, after, (Store.deleteRoom_ok ok).2]
        refine Or.inl ⟨j, mem_deleteWhere.mpr ⟨listed, ?_⟩, rfl, rfl⟩
        intro own
        exact kept owner (by rw [own])
      · exact Or.inl (unchanged (by rw [HubCall.exec, same]))
    | _ => simp [HubCall.writes] at written
  · exact Or.inl (unchanged (exec_same cfg op h .joinRequests written))

/-! ## Accounting -/

namespace Store

/-- The invite of a code. -/
def inviteRow (s : Store) (code : String) : Option InviteRow := rowOf InviteRow.code code s.invites

/-- The agent got through the code's door: it is a member of the room or, for a gated code,
    has at least asked. -/
def Through (s : Store) (inv : InviteRow) (agent : String) : Prop :=
  s.isMember inv.room agent = true ∨ inv.requireApproval = true ∧ s.Asked inv.room agent

end Store

/-- What a call did to the invite of a code. -/
inductive InviteChange (op : HubCall) (s s' : Store) (code : String) : Prop
  | same (kept : s'.inviteRow code = s.inviteRow code)
      (uncharged : ∀ agent now, op = .redeemInvite code agent now →
        s'.members = s.members ∧ s'.joinRequests = s.joinRequests)
  | removed (gone : s'.inviteRow code = none)
  | created (inv : InviteRow) (absent : s.inviteRow code = none)
      (made : s'.inviteRow code = some inv) (unused : inv.uses = 0) (limit : 0 ≤ inv.maxUses)
  | queued (inv : InviteRow) (agent : String) (now : Int)
      (redeems : op = .redeemInvite code agent now) (charge : s.Chargeable code agent now inv)
      (gated : inv.requireApproval = true)
      (unasked : s.joinRequests.find? (fun r => r.room = inv.room ∧ r.agent = agent) = none)
      (after : s' = { s.chargeInvite code with
        joinRequests := s.joinRequests ++ [⟨inv.room, agent, .pending, now⟩] })
  | joined (inv : InviteRow) (agent : String) (now : Int)
      (redeems : op = .redeemInvite code agent now) (charge : s.Chargeable code agent now inv)
      (ungated : inv.requireApproval = false)
      (after : s' = (s.chargeInvite code).addMember inv.room agent now)

theorem inviteRow_charge (s : Store) (code' code : String) :
    (s.chargeInvite code').inviteRow code =
      (s.inviteRow code).map (fun r => if r.code = code' then { r with uses := r.uses + 1 } else r) := by
  apply rowOf_updateWhere
  intro r
  rfl

theorem charged_row {s : Store} {code : String} {inv : InviteRow}
    (found : s.inviteRow code = some inv) :
    (s.chargeInvite code).inviteRow code = some { inv with uses := inv.uses + 1 } := by
  have own : inv.code = code := (rowOf_mem found).2
  rw [inviteRow_charge, found, Option.map_some, if_pos own]

theorem inviteRow_charge_other {s : Store} {code' code : String} (other : code' ≠ code) :
    (s.chargeInvite code').inviteRow code = s.inviteRow code := by
  rw [inviteRow_charge]
  cases found : s.inviteRow code with
  | none => rfl
  | some r =>
    have own : r.code = code := (rowOf_mem found).2
    rw [Option.map_some, if_neg (by rw [own]; exact Ne.symm other)]

/-- The step lemma for invites. -/
theorem inviteChange_exec (cfg : HubConfig) (op : HubCall) (h : HubState)
    (unique : (h.store.invites.map InviteRow.code).Nodup) (code : String) :
    InviteChange op h.store (op.exec cfg h).2.store code := by
  have unwritten : (op.exec cfg h).2.store = h.store →
      InviteChange op h.store (op.exec cfg h).2.store code := by
    intro same
    rw [same]
    exact .same rfl (fun _ _ _ => ⟨rfl, rfl⟩)
  by_cases written : TableName.invites ∈ op.writes
  · cases op with
    | createInvite code' room kind maxUses expires createdBy approval now =>
      rcases h.tryStore_cases (h.store.createInvite code' room kind none maxUses expires createdBy
        approval now) with ⟨s, ok, after⟩ | same
      · have fresh : h.store.inviteRow code' = none := rowOf_eq_none.mpr (Store.createInvite_fresh ok)
        rw [HubCall.exec, after, Store.createInvite_ok ok]
        by_cases own : code' = code
        · subst own
          refine .created ⟨code', room, kind, none, maxUses, 0, expires, createdBy, approval, now⟩ fresh
            ?_ rfl (Int.natCast_nonneg maxUses)
          unfold Store.inviteRow rowOf at fresh ⊢
          simp [List.find?_append, fresh]
        · refine .same ?_ ?_
          · unfold Store.inviteRow rowOf
            simp [List.find?_append, own]
          · intro agent now redeems
            cases redeems
      · exact unwritten (by rw [HubCall.exec, same])
    | redeemInvite code' agent now =>
      rcases h.tryStoreWith_cases (h.store.redeemInvite code' agent now) with ⟨r, s, ok, after⟩ | same
      · by_cases own : code' = code
        · subst own
          rw [HubCall.exec, after] at unwritten ⊢
          rcases Store.redeemInvite_cases ok with
            rfl | ⟨inv, charge, ⟨gated, unasked, queued⟩ | ⟨ungated, joined⟩⟩
          · exact unwritten rfl
          · exact .queued inv agent now rfl charge gated unasked queued
          · exact .joined inv agent now rfl charge ungated joined
        · rw [HubCall.exec, after]
          refine .same ?_ ?_
          · rcases Store.redeemInvite_ok ok with rfl | ⟨inv, -, rfl | rfl⟩
            · rfl
            · exact inviteRow_charge_other own
            · exact inviteRow_charge_other own
          · intro agent' now' redeems
            exact absurd (by cases redeems; rfl) own
      · exact unwritten (by rw [HubCall.exec, same])
    | deleteRoom room owner =>
      rcases h.tryStore_cases (h.store.deleteRoom room owner) with ⟨s, ok, after⟩ | same
      · rw [HubCall.exec, after, (Store.deleteRoom_ok ok).2]
        rcases rowOf_deleteWhere_cases unique (p := fun r => r.room = room) code with kept | gone
        · refine .same kept ?_
          intro agent now redeems
          cases redeems
        · exact .removed gone
      · exact unwritten (by rw [HubCall.exec, same])
    | sweepExpired now =>
      rcases rowOf_deleteWhere_cases unique (p := fun r => r.expires < now) code with kept | gone
      · refine .same kept ?_
        intro agent now redeems
        cases redeems
      · exact .removed gone
    | _ => simp [HubCall.writes] at written
  · refine .same ?_ ?_
    · unfold Store.inviteRow
      rw [exec_same cfg op h .invites written]
    · intro agent now redeems
      subst redeems
      simp [HubCall.writes] at written

theorem invites_unique_exec (cfg : HubConfig) (op : HubCall) (h : HubState)
    (unique : (h.store.invites.map InviteRow.code).Nodup) :
    ((op.exec cfg h).2.store.invites.map InviteRow.code).Nodup := by
  have charged : ∀ code, ((h.store.chargeInvite code).invites.map InviteRow.code).Nodup := by
    intro code
    exact nodup_updateWhere (fun _ => rfl) unique
  by_cases written : TableName.invites ∈ op.writes
  · cases op with
    | createInvite code room kind maxUses expires createdBy approval now =>
      rcases h.tryStore_cases (h.store.createInvite code room kind none maxUses expires createdBy
        approval now) with ⟨s, ok, after⟩ | same
      · have fresh := Store.createInvite_fresh ok
        rw [HubCall.exec, after, Store.createInvite_ok ok, List.map_append, List.nodup_append]
        refine ⟨unique, by simp, ?_⟩
        intro first old second new equal
        obtain ⟨r, member, rfl⟩ := List.mem_map.mp old
        exact fresh r member (equal.trans (by simpa using new))
      · rw [HubCall.exec, same]
        exact unique
    | redeemInvite code agent now =>
      rcases h.tryStoreWith_cases (h.store.redeemInvite code agent now) with ⟨r, s, ok, after⟩ | same
      · rw [HubCall.exec, after]
        rcases Store.redeemInvite_ok ok with rfl | ⟨inv, -, rfl | rfl⟩
        · exact unique
        · exact charged code
        · exact charged code
      · rw [HubCall.exec, same]
        exact unique
    | deleteRoom room owner =>
      rcases h.tryStore_cases (h.store.deleteRoom room owner) with ⟨s, ok, after⟩ | same
      · rw [HubCall.exec, after, (Store.deleteRoom_ok ok).2]
        exact nodup_deleteWhere unique
      · rw [HubCall.exec, same]
        exact unique
    | sweepExpired now => exact nodup_deleteWhere unique
    | _ => simp [HubCall.writes] at written
  · rw [exec_same cfg op h .invites written]
    exact unique

/-- The agent has a pending request for the room. -/
def Store.pending (s : Store) (room agent : String) : Bool :=
  s.joinRequests.any (fun r => r.room = room ∧ r.agent = agent ∧ r.status = .pending)

/-- The agent whom a redemption of the code made a member, or gave a pending request when the
    code is gated. -/
def gained (code : String) (e : HubEvent cfg) : Option String :=
  match e.op, e.before.store.inviteRow code with
  | .redeemInvite c agent _, some inv =>
      if c ≠ code then none
      else if inv.requireApproval then
        if !e.before.store.pending inv.room agent && e.after.store.pending inv.room agent then some agent
        else none
      else if !e.before.store.isMember inv.room agent && e.after.store.isMember inv.room agent then
        some agent
      else none
  | _, _ => none

/-- The call minted the code. -/
def creates (code : String) (e : HubEvent cfg) : Bool :=
  (e.before.store.inviteRow code).isNone && (e.after.store.inviteRow code).isSome

/-- The agents the code let in or queued since it was minted, newest first. -/
def gains (code : String) : List (HubEvent cfg) → List String
  | [] => []
  | e :: older => if creates code e then [] else (gained code e).toList ++ gains code older

/-- The books of a code: its uses are distinct agents that got through its door, and no more
    than it allows. -/
structure Accounts (s : Store) (inv : InviteRow) (agents : List String) : Prop where
  count : inv.uses = agents.length
  distinct : agents.Nodup
  bounded : inv.uses ≤ inv.maxUses
  through : ∀ agent ∈ agents, s.Through inv agent

/-- Whoever got through a door stays through it while the code exists. -/
theorem through_exec (cfg : HubConfig) (op : HubCall) (h : HubState) {inv inv' : InviteRow}
    {code agent : String} (through : h.store.Through inv agent)
    (kept : (op.exec cfg h).2.store.inviteRow code = some inv') (room : inv'.room = inv.room) :
    (op.exec cfg h).2.store.Through inv agent := by
  by_cases deletes : ∃ owner, op = .deleteRoom inv.room owner
  · obtain ⟨owner, rfl⟩ := deletes
    rcases h.tryStore_cases (h.store.deleteRoom inv.room owner) with ⟨s, ok, after⟩ | same
    · rw [HubCall.exec, after, (Store.deleteRoom_ok ok).2] at kept
      exact absurd room (mem_deleteWhere.mp (rowOf_mem kept).1).2
    · rw [HubCall.exec, same]
      exact through
  · have spared : ∀ owner, op ≠ .deleteRoom inv.room owner :=
      fun owner same => deletes ⟨owner, same⟩
    rcases through with member | ⟨gated, asked⟩
    · exact Or.inl (isMember_exec cfg op h spared member)
    · rcases asked_exec cfg op h spared asked with still | member
      · exact Or.inr ⟨gated, still⟩
      · exact Or.inl member

section Gained

variable {e : HubEvent cfg} {code : String}

theorem gained_unchanged (uncharged : ∀ agent now, e.op = .redeemInvite code agent now →
    e.after.store.members = e.before.store.members ∧
      e.after.store.joinRequests = e.before.store.joinRequests) : gained code e = none := by
  unfold gained
  split
  · rename_i c agent now inv redeems found
    by_cases own : c = code
    · subst own
      obtain ⟨members, requests⟩ := uncharged agent now redeems
      simp [Store.pending, Store.isMember, members, requests]
    · simp [own]
  · rfl

theorem not_pending {s : Store} {room agent : String}
    (unasked : s.joinRequests.find? (fun r => r.room = room ∧ r.agent = agent) = none) :
    s.pending room agent = false ∧ ¬ s.Asked room agent := by
  have none : ∀ r ∈ s.joinRequests, r.room = room → r.agent ≠ agent := by simpa using unasked
  constructor
  · unfold Store.pending
    rw [List.any_eq_false]
    intro r listed
    simpa using fun same agent_eq => absurd agent_eq (none r listed same)
  · intro asked
    obtain ⟨r, listed, same, agent_eq⟩ := asked
    exact none r listed same agent_eq

theorem gained_queued {inv : InviteRow} {agent : String} {now : Int}
    (redeems : e.op = .redeemInvite code agent now)
    (charge : e.before.store.Chargeable code agent now inv) (gated : inv.requireApproval = true)
    (unasked : e.before.store.joinRequests.find?
      (fun r => r.room = inv.room ∧ r.agent = agent) = none)
    (after : e.after.store = { e.before.store.chargeInvite code with
      joinRequests := e.before.store.joinRequests ++ [⟨inv.room, agent, .pending, now⟩] }) :
    gained code e = some agent := by
  have found : e.before.store.inviteRow code = some inv := charge.found
  have pending : e.after.store.pending inv.room agent = true := by
    rw [after]
    simp [Store.pending]
  unfold gained
  rw [redeems, found]
  simp [gated, (not_pending unasked).1, pending]

theorem gained_joined {inv : InviteRow} {agent : String} {now : Int}
    (redeems : e.op = .redeemInvite code agent now)
    (charge : e.before.store.Chargeable code agent now inv) (ungated : inv.requireApproval = false)
    (after : e.after.store = (e.before.store.chargeInvite code).addMember inv.room agent now) :
    gained code e = some agent := by
  have found : e.before.store.inviteRow code = some inv := charge.found
  have member : e.after.store.isMember inv.room agent = true := by
    rw [after, Store.isMember_iff, Store.memberRow_addMember]
    cases ((e.before.store.chargeInvite code).memberRow inv.room agent) <;> simp
  unfold gained
  rw [redeems, found]
  simp [ungated, charge.outsider, member]

end Gained

/-- A charge for an agent that was not through the door. -/
theorem Accounts.charge {s s' : Store} {inv : InviteRow} {agents : List String} {agent : String}
    (book : Accounts s inv agents) (left : inv.uses < inv.maxUses)
    (outside : ¬ s.Through inv agent) (lasts : ∀ a, s.Through inv a → s'.Through inv a)
    (inside : s'.Through inv agent) :
    Accounts s' { inv with uses := inv.uses + 1 } (agent :: agents) := by
  refine ⟨?_, List.nodup_cons.mpr ⟨?_, book.distinct⟩, ?_, ?_⟩
  · have more : inv.uses + 1 = ((agents.length + 1 : Nat) : Int) := by
      rw [book.count]
      omega
    exact more
  · intro listed
    exact outside (book.through agent listed)
  · have room : inv.uses + 1 ≤ inv.maxUses := by omega
    exact room
  · intro a listed
    rcases List.mem_cons.mp listed with rfl | old
    · exact inside
    · exact lasts a (book.through a old)

/-- The step lemma: the books of every code stay right. -/
theorem accounts_step {log : List (HubEvent cfg)} {e : HubEvent cfg}
    (unique : (e.before.store.invites.map InviteRow.code).Nodup)
    (books : ∀ code inv, e.before.store.inviteRow code = some inv →
      Accounts e.before.store inv (gains code log)) {code : String} {inv : InviteRow}
    (row : e.after.store.inviteRow code = some inv) :
    Accounts e.after.store inv (gains code (e :: log)) := by
  have minted : ∀ inv', e.before.store.inviteRow code = some inv' → creates code e = false := by
    intro inv' found
    simp [creates, found]
  have lasts : ∀ inv' agent, inv'.room = inv.room → e.before.store.Through inv' agent →
      e.after.store.Through inv' agent := by
    intro inv' agent same through
    exact through_exec cfg e.op e.before through row same.symm
  cases inviteChange_exec cfg e.op e.before unique code with
  | same kept uncharged =>
    have found : e.before.store.inviteRow code = some inv := kept.symm.trans row
    have book := books code inv found
    simp only [gains, minted inv found, gained_unchanged uncharged]
    exact ⟨book.count, book.distinct, book.bounded,
      fun agent listed => lasts inv agent rfl (book.through agent listed)⟩
  | removed gone =>
    rw [show e.after.store.inviteRow code = none from gone] at row
    cases row
  | created inv' absent made unused limit =>
    have made : e.after.store.inviteRow code = some inv' := made
    obtain rfl : inv' = inv := Option.some.inj (made.symm.trans row)
    have creates : creates code e = true := by simp [creates, absent, made]
    simp only [gains, creates, if_true]
    exact ⟨by simp [unused], List.nodup_nil, by rw [unused]; exact limit, by simp⟩
  | queued inv' agent now redeems charge gated unasked after =>
    have found : e.before.store.inviteRow code = some inv' := charge.found
    have made : e.after.store.inviteRow code = some { inv' with uses := inv'.uses + 1 } := by
      rw [show e.after.store = _ from after]
      exact charged_row found
    obtain rfl : { inv' with uses := inv'.uses + 1 } = inv := Option.some.inj (made.symm.trans row)
    simp only [gains, minted inv' found, gained_queued redeems charge gated unasked after]
    refine (books code inv' found).charge charge.left ?_ (fun a => lasts inv' a rfl) ?_
    · intro through
      rcases through with member | ⟨-, asked⟩
      · rw [charge.outsider] at member
        cases member
      · exact (not_pending unasked).2 asked
    · refine Or.inr ⟨gated, ?_⟩
      rw [show e.after.store = _ from after]
      exact ⟨_, List.mem_append_right _ (List.mem_singleton_self _), rfl, rfl⟩
  | joined inv' agent now redeems charge ungated after =>
    have found : e.before.store.inviteRow code = some inv' := charge.found
    have made : e.after.store.inviteRow code = some { inv' with uses := inv'.uses + 1 } := by
      rw [show e.after.store = _ from after]
      exact charged_row found
    obtain rfl : { inv' with uses := inv'.uses + 1 } = inv := Option.some.inj (made.symm.trans row)
    simp only [gains, minted inv' found, gained_joined redeems charge ungated after]
    refine (books code inv' found).charge charge.left ?_ (fun a => lasts inv' a rfl) ?_
    · intro through
      rcases through with member | ⟨gated, -⟩
      · rw [charge.outsider] at member
        cases member
      · rw [ungated] at gated
        cases gated
    · refine Or.inl ?_
      rw [show e.after.store = _ from after, Store.isMember_iff, Store.memberRow_addMember]
      cases ((e.before.store.chargeInvite code).memberRow inv'.room agent) <;> simp

section Runs

variable {serve : Request → Prog (hubMachine cfg) (List ServerFrame)}
  {G : HubPool cfg → Nat → HubCall → Prop} {inflight : Nat} {P : HubPool cfg}

/-- The run lemma. -/
theorem accounts_run (reach : Pool.Reachable serve G (.boot inflight) P) :
    (P.state.store.invites.map InviteRow.code).Nodup ∧
      ∀ code inv, P.state.store.inviteRow code = some inv →
        Accounts P.state.store inv (gains code P.log) := by
  refine Pool.Reachable.invariant (I := fun P : HubPool cfg =>
    (P.state.store.invites.map InviteRow.code).Nodup ∧
      ∀ code inv, P.state.store.inviteRow code = some inv →
        Accounts P.state.store inv (gains code P.log)) ?_ ?_ reach
  · refine ⟨List.nodup_nil, ?_⟩
    intro code inv row
    cases row
  · intro P Q before step
    obtain ⟨unique, books⟩ := before
    cases step with
    | spawn t req free => exact ⟨unique, books⟩
    | exec t req op next pending enabled allowed =>
      refine ⟨invites_unique_exec cfg op P.state unique, ?_⟩
      intro code inv row
      exact accounts_step (e := ⟨t, op, P.state⟩) unique books row

/-- A redemption by a member, or of a gated code by an agent that has asked, changes nothing. -/
theorem redeem_idle {h : HubState} {code agent : String} {now : Int} {inv : InviteRow}
    (row : h.store.inviteRow code = some inv) (through : h.store.Through inv agent) :
    (HubCall.exec cfg (.redeemInvite code agent now) h).2 = h := by
  rcases h.tryStoreWith_cases (h.store.redeemInvite code agent now) with ⟨r, s, ok, after⟩ | same
  · rw [HubCall.exec, after]
    rcases Store.redeemInvite_cases ok with
      rfl | ⟨inv', charge, ⟨gated, unasked, -⟩ | ⟨ungated, -⟩⟩
    · rfl
    · obtain rfl : inv = inv' := Option.some.inj (row.symm.trans charge.found)
      rcases through with member | ⟨-, asked⟩
      · rw [charge.outsider] at member
        cases member
      · exact absurd asked (not_pending unasked).2
    · obtain rfl : inv = inv' := Option.some.inj (row.symm.trans charge.found)
      rcases through with member | ⟨gated, -⟩
      · rw [charge.outsider] at member
        cases member
      · rw [ungated] at gated
        cases gated
  · exact same

/-- A redemption of a gated code adds no member. -/
theorem redeem_gated {h : HubState} {code agent : String} {now : Int} {inv : InviteRow}
    (row : h.store.inviteRow code = some inv) (gated : inv.requireApproval = true) :
    (HubCall.exec cfg (.redeemInvite code agent now) h).2.store.members = h.store.members := by
  rcases h.tryStoreWith_cases (h.store.redeemInvite code agent now) with ⟨r, s, ok, after⟩ | same
  · rw [HubCall.exec, after]
    rcases Store.redeemInvite_cases ok with rfl | ⟨inv', charge, ⟨-, -, rfl⟩ | ⟨ungated, -⟩⟩
    · rfl
    · rfl
    · obtain rfl : inv = inv' := Option.some.inj (row.symm.trans charge.found)
      rw [ungated] at gated
      cases gated
  · rw [HubCall.exec, same]

/-- In every run of store calls, whatever programs make them: the uses of a code are at most its
    limit and count the distinct agents that it made members, or queued when it is gated;
    a redemption by a member, or of a gated code by an agent that has asked, leaves the hub as it
    is; and a redemption of a gated code adds no member. -/
theorem invite_accounting (reach : Pool.Reachable serve G (.boot inflight) P) :
    (∀ inv ∈ P.state.store.invites, inv.uses ≤ inv.maxUses ∧
      (gains inv.code P.log).Nodup ∧ inv.uses = (gains inv.code P.log).length) ∧
    (∀ inv ∈ P.state.store.invites, ∀ agent now, P.state.store.Through inv agent →
      (HubCall.exec cfg (.redeemInvite inv.code agent now) P.state).2 = P.state) ∧
    ∀ inv ∈ P.state.store.invites, inv.requireApproval = true → ∀ agent now,
      (HubCall.exec cfg (.redeemInvite inv.code agent now) P.state).2.store.members =
        P.state.store.members := by
  obtain ⟨unique, books⟩ := accounts_run reach
  have row : ∀ inv ∈ P.state.store.invites, P.state.store.inviteRow inv.code = some inv :=
    fun inv listed => rowOf_of_mem unique listed
  refine ⟨?_, ?_, ?_⟩
  · intro inv listed
    have book := books inv.code inv (row inv listed)
    exact ⟨book.bounded, book.distinct, book.count⟩
  · intro inv listed agent now through
    exact redeem_idle (row inv listed) through
  · intro inv listed gated agent now
    exact redeem_gated (row inv listed) gated

end Runs

/-- Alice opens a room behind a gated code; Bob asks twice and is let in. -/
def inviteDemo : DemoPool :=
  demoPlay [demoFrame 1 alice (.invite .channel (some "r") none (some 2) true),
    demoFrame 2 bob (.redeem "c1"),
    demoFrame 3 bob (.redeem "c1"),
    demoFrame 4 alice (.resolveJoin "r" "B" true),
    demoFrame 5 bob (.redeem "c1")]

theorem invite_accounting_demo :
    inviteDemo.state.store.invites.map (fun i => (i.code, i.uses)) = [("c1", 1)] ∧
    ∀ inv ∈ inviteDemo.state.store.invites, inv.uses = (gains inv.code inviteDemo.log).length := by
  have reach : Pool.Reachable demoServe Pool.anySchedule demoHub inviteDemo := demoPlay_reachable _
  refine ⟨by decide +kernel, ?_⟩
  intro inv listed
  exact ((invite_accounting reach).1 inv listed).2.2

/-- Bob's request for a gated room is pending when Alice mints an ungated code for it. -/
def pendingDemo : DemoPool :=
  demoPlay [demoFrame 1 alice (.invite .channel (some "r") none none true),
    demoFrame 2 bob (.redeem "c1"),
    demoFrame 3 alice (.invite .channel (some "r") none none false)]

/-- A redemption by an agent already pending changes the uses of a code. -/
theorem pending_agent_charged :
    ∃ P : DemoPool, Pool.Reachable demoServe Pool.anySchedule demoHub P ∧
      P.state.store.pending "r" "B" = true ∧
      (∃ inv ∈ P.state.store.invites, inv.code = "c3" ∧ inv.room = "r" ∧ inv.uses = 0) ∧
      ∃ inv ∈ (HubCall.exec demoConfig (.redeemInvite "c3" "B" 0) P.state).2.store.invites,
        inv.code = "c3" ∧ inv.uses = 1 := by
  refine ⟨pendingDemo, demoPlay_reachable _, ?_, ?_, ?_⟩ <;> decide +kernel

end Parler.Hub
