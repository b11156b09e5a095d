import Parler.Hub.Demo
import Parler.Hub.Specs

/-!
# The sweep of expired rows

`sweep_expired` deletes the invites and the tokens whose expiry has passed. Every later decision about
a token comes out as it would have without the sweep. So does every redemption but one: an agent that is
in the room already is told so under an expired code, as long as the code's row is there.
-/

namespace Parler.Hub

open Parler.Lib Parler.Protocol

/-! ## Operations and what they decide -/

/-- An operation on the store: a call of the hub, or a check of a bearer token by its web endpoints. -/
inductive StoreOp where
  | call (op : HubCall)
  | validateDirectoryToken (token : String) (now : Int)
  | validateWatchToken (token : String) (now : Int)

/-- What an operation decides about a code or a token. -/
inductive Decision where
  /-- A redemption: its room, kind and pending flag, or a failure. -/
  | redeemed (outcome : Option Store.Redeemed)
  | directory (valid : Bool)
  | watched (room : Option String)
  | counted (tokens : Nat)
  | nothing
  deriving DecidableEq

namespace StoreOp

def decision (h : HubState) : StoreOp → Decision
  | .call (.redeemInvite code agent now) =>
      match h.store.redeemInvite code agent now with
      | .ok r => .redeemed (some r.1)
      | .error _ => .redeemed none
  | .call (.activeTokenCount createdBy now) => .counted (h.store.activeTokenCount createdBy now)
  | .call _ => .nothing
  | .validateDirectoryToken token now => .directory (h.store.validateDirectoryToken token now)
  | .validateWatchToken token now => .watched (h.store.validateWatchToken token now)

def after (cfg : HubConfig) (h : HubState) : StoreOp → HubState
  | .call op => (op.exec cfg h).2
  | _ => h

/-- The time an operation compares with an expiry. -/
def asksAt : StoreOp → Option Int
  | .call (.redeemInvite _ _ now) | .call (.activeTokenCount _ now) => some now
  | .validateDirectoryToken _ now | .validateWatchToken _ now => some now
  | _ => none

/-- The operation inserts a row under one of the names. -/
def reuses (codes tokens : List String) : StoreOp → Bool
  | .call (.createInvite code ..) => code ∈ codes
  | .call (.mintDirectoryToken token ..) | .call (.mintWatchToken token ..) => token ∈ tokens
  | _ => false

/-- The operation redeems one of the codes for an agent that is in the code's room. -/
def redeemsInside (codes : List String) (h : HubState) : StoreOp → Bool
  | .call (.redeemInvite code agent _) =>
      code ∈ codes ∧ (h.store.invites.find? (fun i => i.code = code)).any
        (fun inv => h.store.isMember inv.room agent)
  | _ => false

end StoreOp

section Runs

variable (cfg : HubConfig)

/-- The decisions of a sequence of operations, each with the memberships after it. -/
def decisions : List StoreOp → HubState → List (Decision × List MemberRow)
  | [], _ => []
  | op :: ops, h => (op.decision h, (op.after cfg h).store.members) :: decisions ops (op.after cfg h)

/-- Some operation of the sequence redeems one of the codes for an agent that is in the code's room. -/
def redeemsInside (codes : List String) : List StoreOp → HubState → Bool
  | [], _ => false
  | op :: ops, h => op.redeemsInside codes h || redeemsInside codes ops (op.after cfg h)

end Runs

namespace Store

variable (s : Store)

/-- The codes and the tokens that a sweep deletes. -/
def expiredCodes (now : Int) : List String :=
  (s.invites.filter (fun i => i.expires < now)).map InviteRow.code

def expiredTokens (now : Int) : List String :=
  (s.directoryTokens.filter (fun r => r.expires < now)).map TokenRow.token

/-- The store without some codes and tokens. -/
def forget (codes tokens : List String) : Store :=
  { s with
    invites := deleteWhere (fun i => i.code ∈ codes) s.invites
    directoryTokens := deleteWhere (fun r => r.token ∈ tokens) s.directoryTokens }

/-- Every row of these names had expired by `now`. -/
structure ExpiredNames (now : Int) (codes tokens : List String) : Prop where
  invites : ∀ i ∈ s.invites, i.code ∈ codes → i.expires < now
  tokens : ∀ r ∈ s.directoryTokens, r.token ∈ tokens → r.expires < now

end Store

def HubState.forget (h : HubState) (codes tokens : List String) : HubState :=
  { h with store := h.store.forget codes tokens }

/-! ## Calls that look at neither table -/

namespace HubCall

/-- The calls that read or write codes or tokens. -/
def usesNames : HubCall → Bool
  | .deleteRoom .. | .createInvite .. | .redeemInvite .. | .mintDirectoryToken ..
  | .activeTokenCount .. | .mintWatchToken .. | .sweepExpired _ => true
  | _ => false

end HubCall

variable {codes tokens : List String}

theorem tryStore_forget (h : HubState) {r r' : Except Failure Store}
    (same : r' = r.map (fun s => s.forget codes tokens)) :
    (h.forget codes tokens).tryStore r' =
      ((h.tryStore r).1, (h.tryStore r).2.forget codes tokens) := by
  subst same
  cases r <;> rfl

theorem tryStoreWith_forget {α : Type} (h : HubState) {r r' : Except Failure (α × Store)}
    (same : r' = r.map (fun p => (p.1, p.2.forget codes tokens))) :
    (h.forget codes tokens).tryStoreWith r' =
      ((h.tryStoreWith r).1, (h.tryStoreWith r).2.forget codes tokens) := by
  subst same
  cases r <;> rfl

section Store

variable (codes tokens) (s : Store)

theorem resolveJoin_forget (room owner agent : String) (approve : Bool) (now : Int) :
    (s.forget codes tokens).resolveJoin room owner agent approve now =
      (s.resolveJoin room owner agent approve now).map (fun p => (p.1, p.2.forget codes tokens)) := by
  unfold Store.resolveJoin
  rw [show (s.forget codes tokens).roomOwnedBy room owner = s.roomOwnedBy room owner from rfl,
    show (s.forget codes tokens).joinRequests = s.joinRequests from rfl]
  split
  · rfl
  · split
    · rfl
    · split <;> rfl

theorem claimServiceMessage_forget (room message worker : String) (secs : Nat) (now : Int) :
    (s.forget codes tokens).claimServiceMessage room message worker secs now =
      ((s.claimServiceMessage room message worker secs now).1,
        (s.claimServiceMessage room message worker secs now).2.forget codes tokens) := by
  have serves : Store.servedRole (s.forget codes tokens) room worker = s.servedRole room worker := rfl
  have owns : Store.ownsLiveClaim (s.forget codes tokens) room message worker now =
      s.ownsLiveClaim room message worker now := rfl
  have available : Store.available (s.forget codes tokens) worker now = s.available worker now := rfl
  have addressed : ∀ role, Store.dispatchedTo (s.forget codes tokens) room message role =
      s.dispatchedTo room message role := fun _ => rfl
  have allowed : Store.claimAllowed (s.forget codes tokens) room message worker now =
      s.claimAllowed room message worker now := rfl
  unfold Store.claimServiceMessage
  rw [serves]
  cases s.servedRole room worker with
  | none => rfl
  | some role =>
    simp only [owns, available, addressed, allowed]
    split
    · rfl
    · split
      · rfl
      · split <;> rfl

theorem remember_forget (vecDim : Nat) (author : String) (fact : Fact) (ts : Int)
    (embedding : Option (List UInt32)) (model : Option String) :
    (s.forget codes tokens).remember vecDim author fact ts embedding model =
      (s.remember vecDim author fact ts embedding model).map (fun s => s.forget codes tokens) := by
  have written : (s.forget codes tokens).writeFact author fact ts model =
      ((s.writeFact author fact ts model).1, (s.writeFact author fact ts model).2.forget codes tokens) := by
    unfold Store.writeFact
    cases fact.key with
    | none => rfl
    | some key =>
      dsimp only
      rw [show (s.forget codes tokens).facts = s.facts from rfl]
      cases s.facts.find? (Store.sameKeyedFact author key fact.room) <;> rfl
  simp only [Store.remember, written]
  split
  · rfl
  · split <;> rfl

theorem pruneFacts_forget (keep : Int) :
    (s.forget codes tokens).pruneFacts keep = (s.pruneFacts keep).forget codes tokens := by
  unfold Store.pruneFacts
  by_cases same : (deleteWhere (fun f : FactRow => f.key = none ∧
      f.id ≤ (s.nthNewestFact f.author f.room keep.toNat).getD (-1)) s.facts).length = s.facts.length
  · exact (if_pos same).trans (by rw [if_pos same])
  · exact (if_neg same).trans (by rw [if_neg same]; rfl)

theorem appendMessage_forget (m : NewMessage) :
    (s.forget codes tokens).appendMessage m =
      (s.appendMessage m).map (fun p => (p.1, p.2.forget codes tokens)) := by
  have inserted : ∀ (s : Store) (room message : String) (seq : Int) (roles : List String),
      (s.forget codes tokens).insertDispatches room message seq roles =
        (s.insertDispatches room message seq roles).forget codes tokens := by
    intro s room message seq roles
    unfold Store.insertDispatches
    induction roles generalizing s with
    | nil => rfl
    | cons role roles ih => exact ih (s.insertDispatch room message seq role)
  unfold Store.appendMessage
  rw [show (s.forget codes tokens).original m = s.original m from rfl]
  split
  · rfl
  · show (if s.messages.any _ then _ else _) = Except.map _ (if _ then _ else _)
    split
    · rfl
    · exact congrArg Except.ok (congrArg _ (inserted (s.insertMessage m) ..))

end Store

/-- A call that looks at neither table runs as before. -/
theorem exec_forget (cfg : HubConfig) (op : HubCall) (h : HubState) (other : op.usesNames = false) :
    op.exec cfg (h.forget codes tokens) =
      ((op.exec cfg h).1, (op.exec cfg h).2.forget codes tokens) := by
  cases op with
  | deleteRoom | createInvite | redeemInvite | mintDirectoryToken | activeTokenCount | mintWatchToken
  | sweepExpired => cases other
  | resolveJoin => exact tryStoreWith_forget h (resolveJoin_forget codes tokens h.store ..)
  | claimServiceMessage room message worker secs now =>
    have same := claimServiceMessage_forget codes tokens h.store room message worker secs now
    simp only [HubCall.exec, HubState.forget, same]
  | completeServiceMessage room message worker status now =>
    refine tryStoreWith_forget h ?_
    show (if !status.isTerminal then _ else _) = Except.map _ (if !status.isTerminal then _ else _)
    split <;> rfl
  | appendMessage m => exact tryStoreWith_forget h (appendMessage_forget codes tokens h.store m)
  | remember => exact tryStore_forget h (remember_forget codes tokens h.store ..)
  | pruneFacts keep =>
    have same := pruneFacts_forget codes tokens h.store keep
    simp only [HubCall.exec, HubState.forget, same]
  | acquireUpload n =>
    by_cases fits : n ≤ h.inflightFree <;> simp [HubCall.exec, HubState.forget, fits]
  | roomRateAllows room kind now => cases kind <;> rfl
  | _ => rfl

/-! ## Calls that look at codes or tokens -/

section Names

variable (codes tokens) (s : Store)

theorem deleteRoom_forget (room owner : String) :
    (s.forget codes tokens).deleteRoom room owner =
      (s.deleteRoom room owner).map (fun s => s.forget codes tokens) := by
  unfold Store.deleteRoom
  rw [show (s.forget codes tokens).roomOwnedBy room owner = s.roomOwnedBy room owner from rfl]
  split
  · simp only [Except.map, Store.forget, Store.eraseRoom,
      deleteWhere_comm (p := fun r : InviteRow => r.room = room),
      deleteWhere_comm (p := fun r : TokenRow => r.scope = watchScope room)]
  · rfl

theorem sweepExpired_forget (now : Int) :
    (s.forget codes tokens).sweepExpired now = (s.sweepExpired now).forget codes tokens := by
  simp only [Store.forget, Store.sweepExpired, deleteWhere_comm (p := fun r : InviteRow => r.expires < now),
    deleteWhere_comm (p := fun r : TokenRow => r.expires < now)]

variable {codes tokens}

theorem createInvite_forget {code : String} (unused : code ∉ codes) (room : String) (kind : RoomKind)
    (role : Option String) (maxUses : Nat) (expires : Int) (createdBy : String) (requireApproval : Bool)
    (now : Int) :
    (s.forget codes tokens).createInvite code room kind role maxUses expires createdBy requireApproval now =
      (s.createInvite code room kind role maxUses expires createdBy requireApproval now).map
        (fun s => s.forget codes tokens) := by
  have taken : (s.forget codes tokens).invites.any (fun r => r.code = code) =
      s.invites.any (fun r => r.code = code) := by
    refine any_deleteWhere s.invites ?_
    intro r same
    simp only [decide_eq_true_eq] at same
    rwa [same]
  unfold Store.createInvite
  rw [taken]
  split
  · rfl
  · simp [Except.map, Store.forget, deleteWhere, List.filter_append, unused]

theorem insertToken_forget {row : TokenRow} (unused : row.token ∉ tokens) :
    (s.forget codes tokens).insertToken row =
      (s.insertToken row).map (fun s => s.forget codes tokens) := by
  have taken : (s.forget codes tokens).directoryTokens.any (fun r => r.token = row.token) =
      s.directoryTokens.any (fun r => r.token = row.token) := by
    refine any_deleteWhere s.directoryTokens ?_
    intro r same
    simp only [decide_eq_true_eq] at same
    rwa [same]
  unfold Store.insertToken
  rw [taken]
  split
  · rfl
  · simp [Except.map, Store.forget, deleteWhere, List.filter_append, unused]

theorem chargeInvite_forget (code : String) :
    (s.forget codes tokens).chargeInvite code = (s.chargeInvite code).forget codes tokens := by
  have charged := deleteWhere_updateWhere (p := fun i : InviteRow => i.code ∈ codes)
    (q := fun i => i.code = code) (f := fun i => { i with uses := i.uses + 1 }) (fun _ _ => Iff.rfl) s.invites
  simp only [Store.chargeInvite, Store.forget, charged]

theorem find_forget {code : String} (kept : code ∉ codes) :
    (s.forget codes tokens).invites.find? (fun r => r.code = code) =
      s.invites.find? (fun r => r.code = code) := by
  refine find?_deleteWhere s.invites ?_
  intro r same
  simp only [decide_eq_true_eq] at same
  rwa [same]

/-- A code that is kept is redeemed as before. -/
theorem redeemInvite_forget {code : String} (kept : code ∉ codes) (agent : String) (now : Int) :
    (s.forget codes tokens).redeemInvite code agent now =
      (s.redeemInvite code agent now).map (fun p => (p.1, p.2.forget codes tokens)) := by
  unfold Store.redeemInvite
  rw [find_forget s kept, chargeInvite_forget]
  cases s.invites.find? (fun r => r.code = code) with
  | none => rfl
  | some inv =>
    dsimp only
    rw [show (s.forget codes tokens).isMember inv.room agent = s.isMember inv.room agent from rfl,
      show (s.forget codes tokens).joinRequests = s.joinRequests from rfl]
    split
    · rfl
    · split
      · rfl
      · split
        · cases (s.joinRequests.find? (fun r => r.room = inv.room ∧ r.agent = agent)).map
            JoinRow.status with
          | none => dsimp only; split <;> rfl
          | some status => cases status <;> rfl
        · split <;> rfl

variable (codes tokens) in
/-- A forgotten code is unknown. -/
theorem redeemInvite_forgotten {code : String} (gone : code ∈ codes) (agent : String) (now : Int) :
    ∃ e, (s.forget codes tokens).redeemInvite code agent now = .error e := by
  have missing : (s.forget codes tokens).invites.find? (fun r => r.code = code) = none := by
    refine List.find?_eq_none.mpr ?_
    intro r listed same
    simp only [decide_eq_true_eq] at same
    exact (mem_deleteWhere.mp listed).2 (same ▸ gone)
  unfold Store.redeemInvite
  rw [missing]
  exact ⟨_, rfl⟩

/-- An expired code admits nobody; it only tells an agent that it is in the room. -/
theorem redeemInvite_late {now t : Int} (expired : s.ExpiredNames now codes tokens) {code : String}
    (gone : code ∈ codes) (agent : String) (later : now ≤ t) :
    (∃ r, s.redeemInvite code agent t = .ok (r, s) ∧
      (s.invites.find? (fun i => i.code = code)).any (fun inv => s.isMember inv.room agent) = true) ∨
    ∃ e, s.redeemInvite code agent t = .error e ∧
      (s.invites.find? (fun i => i.code = code)).any (fun inv => s.isMember inv.room agent) = false := by
  unfold Store.redeemInvite
  cases found : s.invites.find? (fun i => i.code = code) with
  | none => exact Or.inr ⟨_, rfl, rfl⟩
  | some inv =>
    have own : inv.code = code := by simpa using List.find?_some found
    have passed : t > inv.expires := by
      have dead := expired.invites inv (List.mem_of_find?_eq_some found) (own ▸ gone)
      omega
    dsimp only
    by_cases member : s.isMember inv.room agent = true
    · rw [if_pos member]
      exact Or.inl ⟨_, rfl, member⟩
    · rw [if_neg member, if_pos passed]
      exact Or.inr ⟨_, rfl, by simpa using member⟩

end Names

/-! ## One operation -/

section Step

variable {cfg : HubConfig} {h : HubState} {now : Int}

theorem after_forget {op : StoreOp} (unused : op.reuses codes tokens = false)
    (expired : h.store.ExpiredNames now codes tokens) (later : ∀ t, op.asksAt = some t → now ≤ t) :
    op.after cfg (h.forget codes tokens) = (op.after cfg h).forget codes tokens := by
  cases op with
  | validateDirectoryToken | validateWatchToken => rfl
  | call op =>
    by_cases uses : op.usesNames = true
    · cases op with
      | deleteRoom room owner =>
        exact congrArg Prod.snd (tryStore_forget h (deleteRoom_forget codes tokens h.store room owner))
      | createInvite =>
        have new := of_decide_eq_false unused
        exact congrArg Prod.snd (tryStore_forget h (createInvite_forget h.store new ..))
      | mintDirectoryToken =>
        have new := of_decide_eq_false unused
        exact congrArg Prod.snd (tryStore_forget h (insertToken_forget h.store new))
      | mintWatchToken token room owner expires made =>
        have new := of_decide_eq_false unused
        refine congrArg Prod.snd (tryStore_forget h ?_)
        show (if h.store.roomOwnedBy room owner then _ else _) = Except.map _ (if _ then _ else _)
        split
        · exact insertToken_forget h.store new
        · rfl
      | sweepExpired swept =>
        simp only [StoreOp.after, HubCall.exec, HubState.forget, sweepExpired_forget]
      | activeTokenCount => rfl
      | redeemInvite code agent t =>
        by_cases gone : code ∈ codes
        · -- Neither run changes anything under an expired code.
          obtain ⟨e, unknown⟩ := redeemInvite_forgotten codes tokens h.store gone agent t
          have unchanged : (h.tryStoreWith (h.store.redeemInvite code agent t)).2 = h := by
            rcases redeemInvite_late h.store expired gone agent (later t rfl) with ⟨r, told, -⟩ | ⟨e, failed, -⟩
            · rw [told]
              rfl
            · rw [failed]
              rfl
          have unknown : ((h.forget codes tokens).tryStoreWith
              ((h.forget codes tokens).store.redeemInvite code agent t)).2 = h.forget codes tokens := by
            rw [show (h.forget codes tokens).store = h.store.forget codes tokens from rfl, unknown]
            rfl
          exact unknown.trans (congrArg (HubState.forget · codes tokens) unchanged.symm)
        · exact congrArg Prod.snd (tryStoreWith_forget h (redeemInvite_forget h.store gone agent t))
      | _ => cases uses
    · rw [Bool.not_eq_true] at uses
      exact congrArg Prod.snd (exec_forget cfg op h uses)

/-- Names that are not used again keep naming expired rows only. -/
theorem expiredNames_of_origin {s s' : Store} (expired : s.ExpiredNames now codes tokens)
    (invites : ∀ i ∈ s'.invites, (∃ old ∈ s.invites, old.code = i.code ∧ old.expires = i.expires) ∨
      i.code ∉ codes)
    (rows : ∀ r ∈ s'.directoryTokens, r ∈ s.directoryTokens ∨ r.token ∉ tokens) :
    s'.ExpiredNames now codes tokens := by
  refine ⟨?_, ?_⟩
  · intro i listed named
    rcases invites i listed with ⟨old, before, code, expires⟩ | unused
    · rw [← expires]
      exact expired.invites old before (code ▸ named)
    · exact absurd named unused
  · intro r listed named
    rcases rows r listed with before | unused
    · exact expired.tokens r before named
    · exact absurd named unused

theorem expiredNames_after {op : StoreOp} (unused : op.reuses codes tokens = false)
    (expired : h.store.ExpiredNames now codes tokens) :
    (op.after cfg h).store.ExpiredNames now codes tokens := by
  cases op with
  | validateDirectoryToken | validateWatchToken => exact expired
  | call op =>
    have sameInvites : TableName.invites ∉ op.writes → ∀ i ∈ (op.exec cfg h).2.store.invites,
        (∃ old ∈ h.store.invites, old.code = i.code ∧ old.expires = i.expires) ∨ i.code ∉ codes := by
      intro other i listed
      rw [exec_same cfg op h .invites other] at listed
      exact Or.inl ⟨i, listed, rfl, rfl⟩
    have sameTokens : TableName.directoryTokens ∉ op.writes → ∀ r ∈ (op.exec cfg h).2.store.directoryTokens,
        r ∈ h.store.directoryTokens ∨ r.token ∉ tokens := by
      intro other r listed
      rw [exec_same cfg op h .directoryTokens other] at listed
      exact Or.inl listed
    have minted : ∀ (row : TokenRow) {s : Store}, row.token ∉ tokens → h.store.insertToken row = .ok s →
        ∀ r ∈ s.directoryTokens, r ∈ h.store.directoryTokens ∨ r.token ∉ tokens := by
      intro row s new ok r listed
      rw [Store.insertToken_ok ok] at listed
      rcases List.mem_append.mp listed with old | added
      · exact Or.inl old
      · rw [List.mem_singleton.mp added]
        exact Or.inr new
    cases op with
    | createInvite code room kind maxUses expires createdBy approval made =>
      refine expiredNames_of_origin expired ?_ (sameTokens (by simp [HubCall.writes]))
      intro i listed
      rcases h.tryStore_cases (h.store.createInvite code room kind none maxUses expires createdBy approval
        made) with ⟨s, ok, equal⟩ | same
      · rw [StoreOp.after, HubCall.exec, equal, Store.createInvite_ok ok] at listed
        rcases List.mem_append.mp listed with old | added
        · exact Or.inl ⟨i, old, rfl, rfl⟩
        · rw [List.mem_singleton.mp added]
          exact Or.inr (of_decide_eq_false unused)
      · rw [StoreOp.after, HubCall.exec, same] at listed
        exact Or.inl ⟨i, listed, rfl, rfl⟩
    | redeemInvite code agent t =>
      refine expiredNames_of_origin expired ?_ (sameTokens (by simp [HubCall.writes]))
      have charged : ∀ i ∈ (h.store.chargeInvite code).invites,
          ∃ old ∈ h.store.invites, old.code = i.code ∧ old.expires = i.expires := by
        intro i listed
        rcases mem_updateWhere.mp listed with ⟨old, -⟩ | ⟨old, before, -, rfl⟩
        · exact ⟨i, old, rfl, rfl⟩
        · exact ⟨old, before, rfl, rfl⟩
      intro i listed
      rcases h.tryStoreWith_cases (h.store.redeemInvite code agent t) with ⟨r, s, ok, equal⟩ | same
      · rw [StoreOp.after, HubCall.exec, equal] at listed
        rcases Store.redeemInvite_ok ok with rfl | ⟨inv, -, rfl | rfl⟩
        · exact Or.inl ⟨i, listed, rfl, rfl⟩
        · exact Or.inl (charged i listed)
        · exact Or.inl (charged i listed)
      · rw [StoreOp.after, HubCall.exec, same] at listed
        exact Or.inl ⟨i, listed, rfl, rfl⟩
    | mintDirectoryToken token scope expires createdBy made =>
      refine expiredNames_of_origin expired (sameInvites (by simp [HubCall.writes])) ?_
      intro r listed
      rcases h.tryStore_cases (h.store.mintDirectoryToken token scope expires createdBy made) with
        ⟨s, ok, equal⟩ | same
      · rw [StoreOp.after, HubCall.exec, equal] at listed
        have new : token ∉ tokens := of_decide_eq_false unused
        exact minted ⟨token, scope, expires, createdBy, made⟩ new ok r listed
      · rw [StoreOp.after, HubCall.exec, same] at listed
        exact Or.inl listed
    | mintWatchToken token room owner expires made =>
      refine expiredNames_of_origin expired (sameInvites (by simp [HubCall.writes])) ?_
      intro r listed
      rcases h.tryStore_cases (h.store.mintWatchToken token room owner expires made) with
        ⟨s, ok, equal⟩ | same
      · rw [StoreOp.after, HubCall.exec, equal] at listed
        obtain ⟨owned, -⟩ := Store.mintWatchToken_ok ok
        rw [Store.mintWatchToken, if_pos owned] at ok
        have new : token ∉ tokens := of_decide_eq_false unused
        exact minted ⟨token, watchScope room, expires, owner, made⟩ new ok r listed
      · rw [StoreOp.after, HubCall.exec, same] at listed
        exact Or.inl listed
    | sweepExpired swept =>
      refine expiredNames_of_origin expired ?_ ?_
      · intro i listed
        exact Or.inl ⟨i, (mem_deleteWhere.mp listed).1, rfl, rfl⟩
      · intro r listed
        exact Or.inl (mem_deleteWhere.mp listed).1
    | deleteRoom room owner =>
      rcases h.tryStore_cases (h.store.deleteRoom room owner) with ⟨s, ok, equal⟩ | same
      · rw [StoreOp.after, HubCall.exec, equal, (Store.deleteRoom_ok ok).2]
        refine expiredNames_of_origin expired ?_ ?_
        · intro i listed
          exact Or.inl ⟨i, (mem_deleteWhere.mp listed).1, rfl, rfl⟩
        · intro r listed
          exact Or.inl (mem_deleteWhere.mp listed).1
      · rw [StoreOp.after, HubCall.exec, same]
        exact expired
    | _ =>
      exact expiredNames_of_origin expired (sameInvites (by simp [HubCall.writes]))
        (sameTokens (by simp [HubCall.writes]))

/-- A search for an unexpired token finds what it found. -/
theorem liveToken_forget {s : Store} (expired : s.ExpiredNames now codes tokens) {q : TokenRow → Bool}
    {token : String} (named : ∀ r, q r = true → r.token = token) {t : Int} (late : now ≤ t) :
    ((s.forget codes tokens).directoryTokens.find? q).filter (fun r => t ≤ r.expires) =
      (s.directoryTokens.find? q).filter (fun r => t ≤ r.expires) := by
  by_cases gone : token ∈ tokens
  · have missing : (s.forget codes tokens).directoryTokens.find? q = none := by
      refine List.find?_eq_none.mpr ?_
      intro r listed found
      exact (mem_deleteWhere.mp listed).2 (named r found ▸ gone)
    rw [missing]
    cases found : s.directoryTokens.find? q with
    | none => rfl
    | some r =>
      have dead := expired.tokens r (List.mem_of_find?_eq_some found)
        (named r (List.find?_some found) ▸ gone)
      have passed : ¬ t ≤ r.expires := by omega
      simp [Option.filter, passed]
  · have kept : (s.forget codes tokens).directoryTokens.find? q = s.directoryTokens.find? q := by
      refine find?_deleteWhere s.directoryTokens ?_
      intro r found
      rw [named r found]
      exact gone
    rw [kept]

theorem validateDirectoryToken_eq (s : Store) (token : String) (t : Int) :
    s.validateDirectoryToken token t =
      ((s.directoryTokens.find? (fun r => r.token = token ∧ r.scope = "hub")).filter
        (fun r => t ≤ r.expires)).isSome := by
  unfold Store.validateDirectoryToken
  split
  · rename_i r found
    rw [found]
    by_cases live : t ≤ r.expires <;> simp [Option.filter, live]
  · rename_i missing
    rw [missing]
    rfl

theorem validateWatchToken_eq (s : Store) (token : String) (t : Int) :
    s.validateWatchToken token t =
      ((s.directoryTokens.find? (fun r => r.token = token)).filter
        (fun r => t ≤ r.expires)).bind (fun r => Store.watchedRoom r.scope) := by
  unfold Store.validateWatchToken
  split
  · rename_i r found
    rw [found]
    by_cases live : t ≤ r.expires <;> simp [Option.filter, live]
  · rename_i missing
    rw [missing]
    rfl

theorem activeTokenCount_forget {s : Store} (expired : s.ExpiredNames now codes tokens) (createdBy : String)
    {t : Int} (late : now ≤ t) :
    (s.forget codes tokens).activeTokenCount createdBy t = s.activeTokenCount createdBy t := by
  unfold Store.activeTokenCount
  simp only [Store.forget, deleteWhere, List.filter_filter]
  congr 1
  refine List.filter_congr ?_
  intro r listed
  by_cases live : r.createdBy = createdBy ∧ r.expires ≥ t
  · have kept : r.token ∉ tokens := by
      intro named
      have dead := expired.tokens r listed named
      omega
    simp [live, kept]
  · simp only [live, decide_false, Bool.false_and]

/-- The sweep shows in one decision only. -/
theorem decision_forget {op : StoreOp} (expired : h.store.ExpiredNames now codes tokens)
    (later : ∀ t, op.asksAt = some t → now ≤ t) :
    op.decision h = op.decision (h.forget codes tokens) ↔ op.redeemsInside codes h = false := by
  cases op with
  | validateDirectoryToken token t =>
    refine iff_of_true (congrArg Decision.directory ?_) rfl
    rw [validateDirectoryToken_eq, validateDirectoryToken_eq]
    rw [show (h.forget codes tokens).store = h.store.forget codes tokens from rfl,
      liveToken_forget expired (fun r found => (of_decide_eq_true found).1) (later t rfl)]
  | validateWatchToken token t =>
    refine iff_of_true (congrArg Decision.watched ?_) rfl
    rw [validateWatchToken_eq, validateWatchToken_eq]
    rw [show (h.forget codes tokens).store = h.store.forget codes tokens from rfl,
      liveToken_forget expired (fun r found => of_decide_eq_true found) (later t rfl)]
  | call op =>
    cases op with
    | activeTokenCount createdBy t =>
      refine iff_of_true (congrArg Decision.counted ?_) rfl
      exact (activeTokenCount_forget expired createdBy (later t rfl)).symm
    | redeemInvite code agent t =>
      have forgot : (h.forget codes tokens).store = h.store.forget codes tokens := rfl
      simp only [StoreOp.decision, StoreOp.redeemsInside, forgot]
      by_cases gone : code ∈ codes
      · obtain ⟨e, unknown⟩ := redeemInvite_forgotten codes tokens h.store gone agent t
        rw [unknown]
        rcases redeemInvite_late h.store expired gone agent (later t rfl) with
          ⟨r, told, inside⟩ | ⟨e, failed, outside⟩
        · rw [told, inside]
          simp [gone]
        · rw [failed, outside]
          simp
      · rw [redeemInvite_forget h.store gone agent t]
        refine iff_of_true ?_ (by simp [gone])
        cases h.store.redeemInvite code agent t <;> rfl
    | _ => exact iff_of_true rfl rfl

end Step

/-! ## Whole runs -/

/-- The run lemma. -/
theorem decisions_forget (cfg : HubConfig) {now : Int} {ops : List StoreOp} {h : HubState}
    (expired : h.store.ExpiredNames now codes tokens)
    (later : ∀ op ∈ ops, ∀ t, op.asksAt = some t → now ≤ t)
    (unused : ∀ op ∈ ops, op.reuses codes tokens = false) :
    decisions cfg ops h = decisions cfg ops (h.forget codes tokens) ↔
      redeemsInside cfg codes ops h = false := by
  induction ops generalizing h with
  | nil => simp [decisions, redeemsInside]
  | cons op ops ih =>
    have own := unused op List.mem_cons_self
    have late := later op List.mem_cons_self
    have expired' : (op.after cfg h).store.ExpiredNames now codes tokens := expiredNames_after own expired
    have rest := ih expired'
      (fun op' listed => later op' (List.mem_cons_of_mem _ listed))
      (fun op' listed => unused op' (List.mem_cons_of_mem _ listed))
    have same : ((op.after cfg h).forget codes tokens).store.members = (op.after cfg h).store.members := rfl
    rw [decisions, decisions, after_forget own expired late, same, List.cons.injEq, Prod.mk.injEq,
      decision_forget expired late, rest]
    simp [redeemsInside]

/-- A sweep deletes the rows of the expired names. -/
theorem sweepExpired_eq {s : Store} (codesKeyed : (s.invites.map InviteRow.code).Nodup)
    (tokensKeyed : (s.directoryTokens.map TokenRow.token).Nodup) (now : Int) :
    s.sweepExpired now = s.forget (s.expiredCodes now) (s.expiredTokens now) ∧
      s.ExpiredNames now (s.expiredCodes now) (s.expiredTokens now) := by
  have invites : ∀ i ∈ s.invites, i.code ∈ s.expiredCodes now ↔ i.expires < now := by
    intro i listed
    refine ⟨?_, fun dead => List.mem_map.mpr ⟨i, List.mem_filter.mpr ⟨listed, by simpa using dead⟩, rfl⟩⟩
    intro named
    obtain ⟨i', kept, same⟩ := List.mem_map.mp named
    obtain ⟨listed', dead⟩ := List.mem_filter.mp kept
    rw [← List.inj_on_of_nodup_map codesKeyed listed' listed same]
    simpa using dead
  have rows : ∀ r ∈ s.directoryTokens, r.token ∈ s.expiredTokens now ↔ r.expires < now := by
    intro r listed
    refine ⟨?_, fun dead => List.mem_map.mpr ⟨r, List.mem_filter.mpr ⟨listed, by simpa using dead⟩, rfl⟩⟩
    intro named
    obtain ⟨r', kept, same⟩ := List.mem_map.mp named
    obtain ⟨listed', dead⟩ := List.mem_filter.mp kept
    rw [← List.inj_on_of_nodup_map tokensKeyed listed' listed same]
    simpa using dead
  refine ⟨?_, ⟨fun i listed => (invites i listed).mp, fun r listed => (rows r listed).mp⟩⟩
  have sameInvites : deleteWhere (fun r : InviteRow => r.expires < now) s.invites =
      deleteWhere (fun i => i.code ∈ s.expiredCodes now) s.invites := by
    refine List.filter_congr ?_
    intro i listed
    simp only [invites i listed]
  have sameTokens : deleteWhere (fun r : TokenRow => r.expires < now) s.directoryTokens =
      deleteWhere (fun r => r.token ∈ s.expiredTokens now) s.directoryTokens := by
    refine List.filter_congr ?_
    intro r listed
    simp only [rows r listed]
  rw [Store.sweepExpired, sameInvites, sameTokens]
  rfl

/-- Sweeping shows exactly in the redemption of a swept code by an agent that is in its room: of every
    keyed store and every later sequence of operations that does not use a swept name again, the
    decisions and the memberships with and without the sweep are the same if and only if the sequence
    holds no such redemption. -/
theorem sweep_unobserved_iff (cfg : HubConfig) {h : HubState} {now : Int} {ops : List StoreOp}
    (codesKeyed : (h.store.invites.map InviteRow.code).Nodup)
    (tokensKeyed : (h.store.directoryTokens.map TokenRow.token).Nodup)
    (later : ∀ op ∈ ops, ∀ t, op.asksAt = some t → now ≤ t)
    (unused : ∀ op ∈ ops, op.reuses (h.store.expiredCodes now) (h.store.expiredTokens now) = false) :
    decisions cfg ops h = decisions cfg ops (HubCall.exec cfg (.sweepExpired now) h).2 ↔
      redeemsInside cfg (h.store.expiredCodes now) ops h = false := by
  obtain ⟨same, expired⟩ := sweepExpired_eq codesKeyed tokensKeyed now
  have swept : (HubCall.exec cfg (.sweepExpired now) h).2 =
      h.forget (h.store.expiredCodes now) (h.store.expiredTokens now) := by
    simp only [HubCall.exec, HubState.forget, same]
  rw [swept]
  exact decisions_forget cfg expired later unused

/-- Alice opens a room with a code that expires at once, and a second passes. -/
def sweepDemo : HubState :=
  (demoPlay [demoFrame 1 alice (.invite .channel (some "r") (some 0) none false), .tick 1000]).state

theorem sweep_unobserved_iff_demo :
    decisions demoConfig [.call (.redeemInvite "c1" "B" 2000), .validateWatchToken "c1" 2000] sweepDemo =
      decisions demoConfig [.call (.redeemInvite "c1" "B" 2000), .validateWatchToken "c1" 2000]
        (HubCall.exec demoConfig (.sweepExpired 1000) sweepDemo).2 ∧
      sweepDemo.store.expiredCodes 1000 = ["c1"] := by
  refine ⟨?_, by decide +kernel⟩
  refine (sweep_unobserved_iff demoConfig (by decide +kernel) (by decide +kernel) ?_ ?_).mpr
    (by decide +kernel)
  · intro op listed t asks
    rcases List.mem_cons.mp listed with rfl | listed
    · cases asks
      decide
    · rw [List.mem_singleton.mp listed] at asks
      cases asks
      decide
  · intro op listed
    rcases List.mem_cons.mp listed with rfl | listed
    · rfl
    · rw [List.mem_singleton.mp listed]
      rfl

/-- Alice is told that she is in her room under its expired code, and after a sweep she is not. -/
theorem sweep_observed_by_member :
    decisions demoConfig [.call (.redeemInvite "c1" "A" 2000)] sweepDemo ≠
      decisions demoConfig [.call (.redeemInvite "c1" "A" 2000)]
        (HubCall.exec demoConfig (.sweepExpired 1000) sweepDemo).2 := by
  decide +kernel

end Parler.Hub
