import Parler.Hub.Server
import Parler.Hub.Specs

/-!
# Membership rows

What a call may do to the membership row of an agent in a room: a cursor update
writes it, a room deletion removes it, a join adds it with cursor 0, and every
other call leaves it alone.
-/

namespace Parler.Hub

open Parler.Lib Parler.Protocol

namespace Store

/-- The membership row of an agent in a room. -/
def memberRow (s : Store) (room agent : String) : Option MemberRow :=
  rowOf memberKey (room, agent) s.members

theorem find_memberRow (s : Store) (room agent : String) :
    s.members.find? (fun r => r.room = room ∧ r.agent = agent) = s.memberRow room agent := by
  simp [memberRow, rowOf, memberKey, Prod.ext_iff]

theorem getCursor_eq (s : Store) (room agent : String) :
    s.getCursor room agent = ((s.memberRow room agent).map MemberRow.cursor).getD 0 := by
  unfold getCursor
  rw [find_memberRow]

theorem isMember_iff {s : Store} {room agent : String} :
    s.isMember room agent ↔ ∃ row, s.memberRow room agent = some row := by
  rw [← Option.isSome_iff_exists, ← find_memberRow, List.find?_isSome]
  simp [isMember]

theorem memberRow_setCursor (s : Store) (room agent : String) (v : Int) (room' agent' : String) :
    (s.setCursor room agent v).memberRow room' agent' =
      (s.memberRow room' agent').map (fun row =>
        if row.room = room ∧ row.agent = agent then { row with cursor := v } else row) := by
  unfold memberRow setCursor
  refine rowOf_updateWhere ?_
  intro row
  rfl

theorem memberRow_addMember (s : Store) (room agent : String) (now : Int)
    (room' agent' : String) :
    (s.addMember room agent now).memberRow room' agent' =
      (s.memberRow room' agent').or
        (if (room, agent) = (room', agent') then some ⟨room, agent, now, 0⟩ else none) :=
  rowOf_insertNew

theorem memberRow_eraseRoom (s : Store) (room room' agent : String) :
    (s.eraseRoom room).memberRow room' agent =
      if room' = room then none else s.memberRow room' agent :=
  rowOf_deleteWhere (q := fun k : String × String => k.1 = room) (fun _ => Iff.rfl)

end Store

/-- What a call did to a membership row. -/
inductive MemberChange (s : Store) (op : HubCall) (room agent : String)
    (before : Option MemberRow) : Option MemberRow → Prop
  | same : MemberChange s op room agent before before
  | joined (now : Int) : before = none →
      MemberChange s op room agent before (some ⟨room, agent, now, 0⟩)
  | deleted (owner : String) : op = .deleteRoom room owner → s.roomOwnedBy room owner →
      MemberChange s op room agent before none
  | moved (v : Int) : op = .setCursor room agent v →
      MemberChange s op room agent before (before.map (fun row => { row with cursor := v }))

theorem memberChange_addMember (s' : Store) (op : HubCall) (s : Store) (room agent : String) (now : Int)
    (room' agent' : String) :
    MemberChange s' op room' agent' (s.memberRow room' agent')
      ((s.addMember room agent now).memberRow room' agent') := by
  rw [Store.memberRow_addMember]
  cases before : s.memberRow room' agent' with
  | some row => exact .same
  | none =>
    by_cases same : (room, agent) = (room', agent')
    · obtain ⟨rfl, rfl⟩ := Prod.mk.inj same
      simpa using MemberChange.joined now rfl
    · simpa [same] using MemberChange.same

theorem memberChange_setCursor (s : Store) (room agent : String) (v : Int)
    (room' agent' : String) :
    MemberChange s (.setCursor room agent v) room' agent' (s.memberRow room' agent')
      ((s.setCursor room agent v).memberRow room' agent') := by
  rw [Store.memberRow_setCursor]
  cases before : s.memberRow room' agent' with
  | none => exact .same
  | some row =>
    have key := (rowOf_mem before).2
    obtain ⟨rfl, rfl⟩ := Prod.mk.inj key
    by_cases same : row.room = room ∧ row.agent = agent
    · obtain ⟨rfl, rfl⟩ := same
      have moved : MemberChange s (.setCursor row.room row.agent v) row.room row.agent (some row)
          ((some row).map (fun r => { r with cursor := v })) := .moved v rfl
      simpa using moved
    · simpa [same] using MemberChange.same

/-- The step lemma for membership rows. -/
theorem memberChange_exec (cfg : HubConfig) (op : HubCall) (h : HubState) (room agent : String) :
    MemberChange h.store op room agent (h.store.memberRow room agent)
      ((op.exec cfg h).2.store.memberRow room agent) := by
  have unwritten : (op.exec cfg h).2.store.members = h.store.members →
      MemberChange h.store op room agent (h.store.memberRow room agent)
        ((op.exec cfg h).2.store.memberRow room agent) := by
    intro same
    unfold Store.memberRow
    rw [same]
    exact .same
  cases op with
  | addMember => exact memberChange_addMember ..
  | setCursor room' agent' v => exact memberChange_setCursor ..
  | deleteRoom room' owner =>
    rcases h.tryStore_cases (h.store.deleteRoom room' owner) with ⟨s, ok, after⟩ | same
    · simp only [HubCall.exec, after]
      rw [(Store.deleteRoom_ok ok).2, Store.memberRow_eraseRoom]
      split
      · rename_i same
        subst same
        exact .deleted owner rfl (Store.deleteRoom_ok ok).1
      · exact .same
    · exact unwritten (congrArg (fun h => h.store.members) same)
  | redeemInvite code agent' now =>
    rcases h.tryStoreWith_cases (h.store.redeemInvite code agent' now) with
      ⟨r, s, ok, after⟩ | same
    · simp only [HubCall.exec, after]
      rcases Store.redeemInvite_ok ok with rfl | ⟨inv, -, rfl | rfl⟩
      · exact .same
      · exact .same
      · exact memberChange_addMember _ _ (h.store.chargeInvite code) inv.room agent' now room agent
    · exact unwritten (congrArg (fun h => h.store.members) same)
  | resolveJoin room' owner agent' approve now =>
    rcases h.tryStoreWith_cases (h.store.resolveJoin room' owner agent' approve now) with
      ⟨admitted, s, ok, after⟩ | same
    · simp only [HubCall.exec, after]
      rcases (Store.resolveJoin_ok ok).2 with rfl | rfl
      · exact memberChange_addMember _ _ { h.store with joinRequests := _ } room' agent' now room agent
      · exact .same
    · exact unwritten (congrArg (fun h => h.store.members) same)
  | _ => exact unwritten (exec_same cfg _ h .members (by simp [HubCall.writes]))

/-! ## Joining -/

/-- A call that makes the agent a member of the room, with what it found. -/
def HubCall.joins (s : Store) (room agent : String) : HubCall → Prop
  | .addMember r a _ => r = room ∧ a = agent
  | .redeemInvite code a now => a = agent ∧
      ∃ inv, s.Chargeable code agent now inv ∧ inv.room = room ∧ inv.requireApproval = false
  | .resolveJoin r _ a approve _ => r = room ∧ a = agent ∧ approve = true
  | _ => False

theorem Store.isMember_addMember {s : Store} {room agent room' agent' : String} {now : Int}
    (joined : (s.addMember room agent now).isMember room' agent' = true) :
    s.isMember room' agent' = true ∨ room = room' ∧ agent = agent' := by
  obtain ⟨row, found⟩ := isMember_iff.mp joined
  rw [memberRow_addMember] at found
  cases before : s.memberRow room' agent' with
  | some row' => exact Or.inl (isMember_iff.mpr ⟨row', before⟩)
  | none =>
    rw [before, Option.none_or] at found
    split at found
    · rename_i same
      exact Or.inr (Prod.mk.inj same)
    · cases found

/-- Every new membership comes from such a call. -/
theorem joins_of_joined (cfg : HubConfig) (op : HubCall) (h : HubState) {room agent : String}
    (before : h.store.isMember room agent = false)
    (after : (op.exec cfg h).2.store.isMember room agent = true) :
    op.joins h.store room agent := by
  have changed : (op.exec cfg h).2.store.members ≠ h.store.members := by
    intro same
    unfold Store.isMember at before after
    rw [same, before] at after
    cases after
  cases op with
  | addMember room' agent' now =>
    rcases Store.isMember_addMember after with old | same
    · rw [before] at old
      cases old
    · exact same
  | redeemInvite code agent' now =>
    rcases h.tryStoreWith_cases (h.store.redeemInvite code agent' now) with ⟨r, s, ok, done⟩ | same
    · rw [HubCall.exec, done] at after changed
      rcases Store.redeemInvite_cases ok with
        rfl | ⟨inv, charge, ⟨-, -, rfl⟩ | ⟨ungated, rfl⟩⟩
      · exact absurd rfl changed
      · exact absurd rfl changed
      · rcases Store.isMember_addMember after with old | ⟨rfl, rfl⟩
        · have old : h.store.isMember room agent = true := old
          rw [before] at old
          cases old
        · exact ⟨rfl, inv, charge, rfl, ungated⟩
    · exact absurd (by rw [HubCall.exec, same]) changed
  | resolveJoin room' owner agent' approve now =>
    rcases h.tryStoreWith_cases (h.store.resolveJoin room' owner agent' approve now) with
      ⟨admitted, s, ok, done⟩ | same
    · rw [HubCall.exec, done] at after changed
      obtain ⟨-, -, -, ⟨approved, rfl⟩ | ⟨-, rfl⟩⟩ := Store.resolveJoin_cases ok
      · rcases Store.isMember_addMember after with old | ⟨rfl, rfl⟩
        · have old : h.store.isMember room agent = true := old
          rw [before] at old
          cases old
        · exact ⟨rfl, rfl, approved⟩
      · exact absurd rfl changed
    · exact absurd (by rw [HubCall.exec, same]) changed
  | setCursor room' agent' v =>
    have same : (h.store.setCursor room' agent' v).memberRow room agent = none := by
      have none : h.store.memberRow room agent = none := by
        rw [Option.eq_none_iff_forall_ne_some]
        intro row found
        rw [Store.isMember_iff.mpr ⟨row, found⟩] at before
        cases before
      rw [Store.memberRow_setCursor, none]
      rfl
    obtain ⟨row, found⟩ := Store.isMember_iff.mp after
    rw [HubCall.exec, same] at found
    cases found
  | deleteRoom room' owner =>
    rcases h.tryStore_cases (h.store.deleteRoom room' owner) with ⟨s, ok, done⟩ | same
    · rw [HubCall.exec, done, (Store.deleteRoom_ok ok).2] at after
      obtain ⟨row, found⟩ := Store.isMember_iff.mp after
      rw [Store.memberRow_eraseRoom] at found
      split at found
      · cases found
      · rw [Store.isMember_iff.mpr ⟨row, found⟩] at before
        cases before
    · exact absurd (by rw [HubCall.exec, same]) changed
  | _ => exact absurd (exec_same cfg _ h .members (by simp [HubCall.writes])) changed

/-! ## One row per member -/

/-- A call keeps the primary key of `members`. -/
theorem members_unique_exec (cfg : HubConfig) (op : HubCall) (h : HubState)
    (unique : (h.store.members.map Store.memberKey).Nodup) :
    ((op.exec cfg h).2.store.members.map Store.memberKey).Nodup := by
  by_cases written : TableName.members ∈ op.writes
  · cases op with
    | addMember room agent now => exact nodup_insertNew unique
    | setCursor room agent v =>
      apply nodup_updateWhere _ unique
      intro row
      rfl
    | deleteRoom room owner =>
      rcases h.tryStore_cases (h.store.deleteRoom room owner) with ⟨s, ok, after⟩ | same
      · rw [HubCall.exec, after, (Store.deleteRoom_ok ok).2]
        exact nodup_deleteWhere unique
      · rw [HubCall.exec, same]
        exact unique
    | redeemInvite code agent now =>
      rcases h.tryStoreWith_cases (h.store.redeemInvite code agent now) with
        ⟨r, s, ok, after⟩ | same
      · rw [HubCall.exec, after]
        rcases Store.redeemInvite_ok ok with rfl | ⟨inv, -, rfl | rfl⟩
        · exact unique
        · exact unique
        · exact nodup_insertNew unique
      · rw [HubCall.exec, same]
        exact unique
    | resolveJoin room owner agent approve now =>
      rcases h.tryStoreWith_cases (h.store.resolveJoin room owner agent approve now) with
        ⟨admitted, s, ok, after⟩ | same
      · rw [HubCall.exec, after]
        rcases (Store.resolveJoin_ok ok).2 with rfl | rfl
        · exact nodup_insertNew unique
        · exact unique
      · rw [HubCall.exec, same]
        exact unique
    | _ => simp [HubCall.writes] at written
  · rw [exec_same cfg op h .members written]
    exact unique

/-- In every run an agent has at most one row in a room. -/
theorem members_unique_run {cfg : HubConfig}
    {serve : Request → Prog (hubMachine cfg) (List ServerFrame)}
    {G : HubPool cfg → Nat → HubCall → Prop} {inflight : Nat} {P : HubPool cfg}
    (reach : Pool.Reachable serve G (.boot inflight) P) :
    (P.state.store.members.map Store.memberKey).Nodup := by
  refine Pool.Reachable.invariant
    (I := fun P : HubPool cfg => (P.state.store.members.map Store.memberKey).Nodup) ?_ ?_ reach
  · exact List.nodup_nil
  · intro P Q unique step
    cases step with
    | spawn t req free => exact unique
    | exec t req op next pending enabled allowed => exact members_unique_exec cfg op P.state unique

end Parler.Hub
