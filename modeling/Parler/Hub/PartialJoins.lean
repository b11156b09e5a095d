import Parler.Hub.Demo
import Parler.Lib.Stops

/-!
# Joins that stop halfway

`redeem_invite` and `resolve_join` of `crates/parler-hub/src/store.rs`, statement by statement. Each
statement commits on its own, so an error or a crash between two of them leaves what the first one did.
-/

namespace Parler.Hub

open Parler.Lib Parler.Protocol

/-! ## Statements -/

inductive JoinStatement where
  | selectInvite (code : String)
  | memberExists (room agent : String)
  | selectRequest (room agent : String)
  | roomOwnedBy (room owner : String)
  | countRequests (room agent : String)
  | chargeInvite (code : String)
  | insertRequest (room agent : String) (now : Int)
  | insertMember (room agent : String) (now : Int)
  | deleteRequest (room agent : String)
  | denyRequest (room agent : String)

namespace JoinStatement

@[reducible] def Res : JoinStatement → Type
  | selectInvite _ => Option InviteRow
  | memberExists .. => Bool
  | selectRequest .. => Option JoinStatus
  | roomOwnedBy .. => Bool
  | countRequests .. => Nat
  | chargeInvite _ => Unit
  | insertRequest .. => Unit
  | insertMember .. => Unit
  | deleteRequest .. => Unit
  | denyRequest .. => Unit

@[reducible] def exec : (op : JoinStatement) → Store → op.Res × Store
  | selectInvite code, s => (s.invites.find? (fun r => r.code = code), s)
  | memberExists room agent, s => (s.isMember room agent, s)
  | selectRequest room agent, s =>
      ((s.joinRequests.find? (fun r => r.room = room ∧ r.agent = agent)).map JoinRow.status, s)
  | roomOwnedBy room owner, s => (s.roomOwnedBy room owner, s)
  | countRequests room agent, s => (s.joinRequests.countP (fun r => r.room = room ∧ r.agent = agent), s)
  | chargeInvite code, s => ((), s.chargeInvite code)
  | insertRequest room agent now, s =>
      ((), { s with joinRequests := s.joinRequests ++ [⟨room, agent, .pending, now⟩] })
  | insertMember room agent now, s => ((), s.addMember room agent now)
  | deleteRequest room agent, s => ((), { s with
      joinRequests := deleteWhere (fun r => r.room = room ∧ r.agent = agent) s.joinRequests })
  | denyRequest room agent, s => ((), { s with
      joinRequests := updateWhere (fun r => r.room = room ∧ r.agent = agent)
        (fun r => { r with status := .denied }) s.joinRequests })

end JoinStatement

@[reducible] def joinMachine : Machine Store where
  Op := JoinStatement
  Res := JoinStatement.Res
  exec := JoinStatement.exec
  enabled _ _ := True

abbrev JoinProgram (α : Type) := Prog joinMachine (Except Failure α)

/-- `redeem_invite`. -/
def redeemStatements (code agent : String) (now : Int) : JoinProgram Store.Redeemed :=
  .call (JoinStatement.selectInvite code) fun (row : Option InviteRow) =>
    match row with
    | none => .ret (.error (.plain "invalid or unknown invite code"))
    | some inv =>
        .call (JoinStatement.memberExists inv.room agent) fun (member : Bool) =>
          if member then .ret (.ok ⟨inv.room, inv.kind, false⟩)
          else if now > inv.expires then
            .ret (.error (.plain "this code has expired — ask whoever shared it for a new one"))
          else if inv.requireApproval then
            .call (JoinStatement.selectRequest inv.room agent) fun (status : Option JoinStatus) =>
              match status with
              | some .pending => .ret (.ok ⟨inv.room, inv.kind, true⟩)
              | some .denied => .ret (.error (.plain "your request to join was denied by the host"))
              | none =>
                  if inv.uses ≥ inv.maxUses then
                    .ret (.error (.plain "invite has already been used up"))
                  else
                    .call (JoinStatement.chargeInvite code) fun _ =>
                      .call (JoinStatement.insertRequest inv.room agent now) fun _ =>
                        .ret (.ok ⟨inv.room, inv.kind, true⟩)
          else if inv.uses ≥ inv.maxUses then
            .ret (.error (.plain "invite has already been used up"))
          else
            .call (JoinStatement.chargeInvite code) fun _ =>
              .call (JoinStatement.insertMember inv.room agent now) fun _ =>
                .ret (.ok ⟨inv.room, inv.kind, false⟩)

/-- `resolve_join`. -/
def resolveStatements (room owner agent : String) (approve : Bool) (now : Int) : JoinProgram Bool :=
  .call (JoinStatement.roomOwnedBy room owner) fun (owned : Bool) =>
    if !owned then
      .ret (.error (.plain s!"only the session owner can approve or deny join requests for '{room}'"))
    else
      .call (JoinStatement.countRequests room agent) fun (exist : Nat) =>
        if exist = 0 then
          .ret (.error (.plain s!"no pending join request from '{agent}' for '{room}'"))
        else if approve then
          .call (JoinStatement.deleteRequest room agent) fun _ =>
            .call (JoinStatement.insertMember room agent now) fun _ => .ret (.ok true)
        else
          .call (JoinStatement.denyRequest room agent) fun _ => .ret (.ok false)

theorem run_statement {α : Type} (op : JoinStatement) (next : op.Res → JoinProgram α) (s : Store) :
    (Prog.call op next : JoinProgram α).run s = (next (op.exec s).1).run (op.exec s).2 := rfl

/-- What a call returns and leaves; an error leaves the store as it was. -/
def outcome {α : Type} (s : Store) : Except Failure (α × Store) → Except Failure α × Store
  | .ok (value, after) => (.ok value, after)
  | .error e => (.error e, s)

variable {s : Store} {code room owner agent : String} {approve : Bool} {now : Int}

/-- Run to their end the statements do what the call does. -/
theorem redeemStatements_run :
    (redeemStatements code agent now).run s = outcome s (s.redeemInvite code agent now) := by
  unfold redeemStatements Store.redeemInvite
  dsimp only [run_statement, JoinStatement.exec]
  cases s.invites.find? (fun r => r.code = code) with
  | none => rfl
  | some inv =>
    dsimp only [run_statement, JoinStatement.exec]
    by_cases member : s.isMember inv.room agent = true
    · rw [if_pos member, if_pos member]
      rfl
    · rw [if_neg member, if_neg member]
      by_cases expired : now > inv.expires
      · rw [if_pos expired, if_pos expired]
        rfl
      · rw [if_neg expired, if_neg expired]
        by_cases gated : inv.requireApproval = true
        · rw [if_pos gated, if_pos gated]
          dsimp only [run_statement, JoinStatement.exec]
          cases (s.joinRequests.find? (fun r => r.room = inv.room ∧ r.agent = agent)).map
            JoinRow.status with
          | none =>
            dsimp only
            split <;> rfl
          | some status => cases status <;> rfl
        · rw [if_neg gated, if_neg gated]
          split <;> rfl

theorem resolveStatements_run : (resolveStatements room owner agent approve now).run s =
    outcome s (s.resolveJoin room owner agent approve now) := by
  unfold resolveStatements Store.resolveJoin
  dsimp only [run_statement, JoinStatement.exec]
  split
  · rfl
  · dsimp only [run_statement, JoinStatement.exec]
    have count : s.joinRequests.countP (fun r => r.room = room ∧ r.agent = agent) = 0 ↔
        (!s.joinRequests.any (fun r => r.room = room ∧ r.agent = agent)) = true := by
      simp [List.countP_eq_zero]
    split
    · rename_i none
      rw [if_pos (count.mp none)]
      rfl
    · rename_i some
      rw [if_neg (fun none => some (count.mpr none))]
      cases approve <;> rfl

/-! ## Where they can be stopped -/

/-- The redeem charges a use: the code is known and not expired, the agent is no member, a use is left,
    and, for a gated code, the agent has made no request. -/
def Store.RedeemWrites (s : Store) (code agent : String) (now : Int) : Prop :=
  ∃ inv, s.invites.find? (fun r => r.code = code) = some inv ∧ s.isMember inv.room agent = false ∧
    now ≤ inv.expires ∧ inv.uses < inv.maxUses ∧ (inv.requireApproval = true →
      s.joinRequests.find? (fun r => r.room = inv.room ∧ r.agent = agent) = none)

/-- The owner approves a request of an agent that is no member. -/
def Store.ApprovalWrites (s : Store) (room owner agent : String) (approve : Bool) : Prop :=
  approve = true ∧ s.roomOwnedBy room owner = true ∧
    (∃ r ∈ s.joinRequests, r.room = room ∧ r.agent = agent) ∧ s.isMember room agent = false

theorem chargeInvite_ne {inv : InviteRow} (found : s.invites.find? (fun r => r.code = code) = some inv) :
    s.chargeInvite code ≠ s := by
  intro same
  have rows : s.invites.map (fun r => if r.code = code then { r with uses := r.uses + 1 } else r) =
      s.invites.map id := by
    rw [List.map_id]
    exact congrArg Store.invites same
  have own : inv.code = code := by simpa using List.find?_some found
  have charged := List.map_inj_left.mp rows inv (List.mem_of_find?_eq_some found)
  rw [if_pos own] at charged
  have uses := congrArg InviteRow.uses charged
  have more : inv.uses + 1 = inv.uses := uses
  omega

theorem addMember_ne (outside : s.isMember room agent = false) : s.addMember room agent now ≠ s := by
  intro same
  have rows := congrArg Store.members same
  have absent : ¬ ∃ r ∈ s.members, Store.memberKey r = Store.memberKey ⟨room, agent, now, 0⟩ := by
    rintro ⟨r, member, key⟩
    have none := List.any_eq_false.mp outside r member
    simp only [Store.memberKey, Prod.mk.injEq] at key
    simp [key] at none
  have length := congrArg List.length rows
  simp [Store.addMember, insertNew, absent] at length

theorem addMember_known (member : s.isMember room agent = true) : s.addMember room agent now = s := by
  obtain ⟨r, listed, same⟩ := List.any_eq_true.mp member
  have known : ∃ r ∈ s.members, Store.memberKey r = Store.memberKey ⟨room, agent, now, 0⟩ :=
    ⟨r, listed, by simpa [Store.memberKey] using same⟩
  simp [Store.addMember, insertNew, known]

theorem redeem_allOrNothing :
    (redeemStatements code agent now).AllOrNothing s ↔ ¬ s.RedeemWrites code agent now := by
  unfold redeemStatements
  rw [Prog.allOrNothing_read rfl]
  dsimp only [JoinStatement.exec]
  cases found : s.invites.find? (fun r => r.code = code) with
  | none =>
    apply iff_of_true (Prog.allOrNothing_ret _ _)
    rintro ⟨inv, found', -⟩
    rw [found] at found'
    cases found'
  | some inv =>
    have writes : s.RedeemWrites code agent now ↔ s.isMember inv.room agent = false ∧
        now ≤ inv.expires ∧ inv.uses < inv.maxUses ∧ (inv.requireApproval = true →
          s.joinRequests.find? (fun r => r.room = inv.room ∧ r.agent = agent) = none) := by
      constructor
      · rintro ⟨inv', found', writes⟩
        rw [found] at found'
        cases found'
        exact writes
      · exact fun writes => ⟨inv, found, writes⟩
    rw [writes]
    dsimp only
    rw [Prog.allOrNothing_read rfl]
    dsimp only [JoinStatement.exec]
    by_cases member : s.isMember inv.room agent = true
    · rw [if_pos member]
      exact iff_of_true (Prog.allOrNothing_ret _ _) (fun writes => by simp [member] at writes)
    · rw [if_neg member]
      by_cases expired : now > inv.expires
      · rw [if_pos expired]
        exact iff_of_true (Prog.allOrNothing_ret _ _) (fun writes => by omega)
      · rw [if_neg expired]
        have outside : s.isMember inv.room agent = false := by simpa using member
        have live : now ≤ inv.expires := by omega
        by_cases gated : inv.requireApproval = true
        · rw [if_pos gated, Prog.allOrNothing_read rfl]
          dsimp only [JoinStatement.exec]
          cases request : s.joinRequests.find? (fun r => r.room = inv.room ∧ r.agent = agent) with
          | some r =>
            have decided : ∀ p : JoinProgram Store.Redeemed, p.AllOrNothing s → (p.AllOrNothing s ↔
                ¬ (s.isMember inv.room agent = false ∧ now ≤ inv.expires ∧ inv.uses < inv.maxUses ∧
                  (inv.requireApproval = true → some r = none))) := by
              intro p whole
              exact iff_of_true whole (fun writes => nomatch writes.2.2.2 gated)
            cases status : r.status with
            | pending =>
              simp only [Option.map_some, status]
              exact decided _ (Prog.allOrNothing_ret _ _)
            | denied =>
              simp only [Option.map_some, status]
              exact decided _ (Prog.allOrNothing_ret _ _)
          | none =>
            dsimp only [Option.map_none]
            by_cases spent : inv.uses ≥ inv.maxUses
            · rw [if_pos spent]
              exact iff_of_true (Prog.allOrNothing_ret _ _) (fun writes => by omega)
            · rw [if_neg spent, Prog.allOrNothing_two]
              refine iff_of_false ?_ (fun none => none ⟨outside, live, by omega, fun _ => rfl⟩)
              rintro (same | same)
              · exact chargeInvite_ne found same
              · have length := congrArg (fun s : Store => s.joinRequests.length) same
                simp at length
        · rw [if_neg gated]
          by_cases spent : inv.uses ≥ inv.maxUses
          · rw [if_pos spent]
            exact iff_of_true (Prog.allOrNothing_ret _ _) (fun writes => by omega)
          · rw [if_neg spent, Prog.allOrNothing_two]
            refine iff_of_false ?_ (fun none => none ⟨outside, live, by omega, fun yes => absurd yes gated⟩)
            rintro (same | same)
            · exact chargeInvite_ne found same
            · exact addMember_ne (s := s.chargeInvite code) outside same

theorem resolve_allOrNothing : (resolveStatements room owner agent approve now).AllOrNothing s ↔
    ¬ s.ApprovalWrites room owner agent approve := by
  unfold resolveStatements
  rw [Prog.allOrNothing_read rfl]
  dsimp only [JoinStatement.exec]
  by_cases owned : s.roomOwnedBy room owner = true
  · rw [if_neg (by simp [owned]), Prog.allOrNothing_read rfl]
    dsimp only [JoinStatement.exec]
    have count : s.joinRequests.countP (fun r => r.room = room ∧ r.agent = agent) = 0 ↔
        ¬ ∃ r ∈ s.joinRequests, r.room = room ∧ r.agent = agent := by
      simp [List.countP_eq_zero]
    by_cases none : s.joinRequests.countP (fun r => r.room = room ∧ r.agent = agent) = 0
    · rw [if_pos none]
      exact iff_of_true (Prog.allOrNothing_ret _ _) (fun writes => count.mp none writes.2.2.1)
    · rw [if_neg none]
      have some := not_not.mp (fun absent => none (count.mpr absent))
      cases approve with
      | false => exact iff_of_true (Prog.allOrNothing_last _ _ _) (fun writes => nomatch writes.1)
      | true =>
        rw [if_pos rfl, Prog.allOrNothing_two]
        -- Of the delete and the insert only the insert may have nothing to do.
        have deletes : ((JoinStatement.deleteRequest room agent).exec s).2 ≠ s := by
          intro same
          obtain ⟨r, listed, own⟩ := some
          have rows := congrArg Store.joinRequests same
          have kept : r ∈ ((JoinStatement.deleteRequest room agent).exec s).2.joinRequests := by
            rw [rows]
            exact listed
          exact (mem_deleteWhere.mp kept).2 own
        rw [or_iff_right deletes]
        dsimp only [JoinStatement.exec]
        by_cases member : s.isMember room agent = true
        · exact iff_of_true (addMember_known member) (fun writes => absurd writes.2.2.2 (by simp [member]))
        · have outside : s.isMember room agent = false := by simpa using member
          exact iff_of_false (addMember_ne outside) (fun no => no ⟨rfl, owned, some, outside⟩)
  · rw [if_pos (by simpa using owned)]
    exact iff_of_true (Prog.allOrNothing_ret _ _) (fun writes => owned writes.2.1)

/-- A redeem can be stopped halfway exactly when it charges a use, and a resolve when it approves a
    request of an agent that is no member. -/
theorem joins_all_or_nothing_iff (s : Store) :
    (∀ code agent now,
      (redeemStatements code agent now).AllOrNothing s ↔ ¬ s.RedeemWrites code agent now) ∧
    ∀ room owner agent approve now,
      (resolveStatements room owner agent approve now).AllOrNothing s ↔
        ¬ s.ApprovalWrites room owner agent approve :=
  ⟨fun _ _ _ => redeem_allOrNothing, fun _ _ _ _ _ => resolve_allOrNothing⟩

/-- Alice has opened the room `r`, and Bob has asked to join if it is gated. -/
def openedStore (gated : Bool) : Store :=
  (demoPlay [demoFrame 1 alice (.invite .channel (some "r") none none gated),
    demoFrame 2 bob (.redeem (if gated then "c1" else ""))]).state.store

/-- A redeem that stops after its first statement has charged a use for nothing, and an approval that
    does has removed the request for nothing. -/
theorem joins_stop_halfway : ¬ (redeemStatements "c1" "B" 0).AllOrNothing (openedStore false) ∧
    ¬ (resolveStatements "r" "A" "B" true 0).AllOrNothing (openedStore true) := by
  rw [redeem_allOrNothing, resolve_allOrNothing, not_not, not_not]
  constructor
  · have writes : ((openedStore false).invites.find? (fun r => r.code = "c1")).any (fun inv =>
        !(openedStore false).isMember inv.room "B" && decide (0 ≤ inv.expires) &&
          decide (inv.uses < inv.maxUses) && !inv.requireApproval) = true := by decide +kernel
    cases found : (openedStore false).invites.find? (fun r => r.code = "c1") with
    | none =>
      rw [found] at writes
      cases writes
    | some inv =>
      rw [found] at writes
      simp only [Option.any_some, Bool.and_eq_true, Bool.not_eq_true', decide_eq_true_eq] at writes
      obtain ⟨⟨⟨outside, live⟩, left⟩, ungated⟩ := writes
      exact ⟨inv, found, outside, live, left, fun gated => by simp [ungated] at gated⟩
  · exact ⟨rfl, by decide +kernel, by decide +kernel, by decide +kernel⟩

end Parler.Hub
