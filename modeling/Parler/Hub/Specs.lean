import Parler.Hub.Calls

/-!
# What the store methods do

One inversion lemma for each fallible store method (what a successful call
checked and what it wrote), and the frame lemmas: which calls may write a table.
Later proofs cite these and do not unfold the methods.
-/

namespace Parler.Hub

open Parler.Lib Parler.Protocol

namespace Store

variable {s s' : Store}

theorem deleteRoom_ok {room owner : String} (ok : s.deleteRoom room owner = .ok s') :
    s.roomOwnedBy room owner ∧ s' = s.eraseRoom room := by
  unfold deleteRoom at ok
  split at ok
  · rename_i owned
    exact ⟨owned, (Except.ok.inj ok).symm⟩
  · cases ok

theorem createInvite_ok {code room : String} {kind : RoomKind} {role : Option String}
    {maxUses : Nat} {expires : Int} {createdBy : String} {requireApproval : Bool} {now : Int}
    (ok : s.createInvite code room kind role maxUses expires createdBy requireApproval now =
      .ok s') :
    s' = { s with
      invites := s.invites ++
        [⟨code, room, kind, role, maxUses, 0, expires, createdBy, requireApproval, now⟩] } := by
  unfold createInvite at ok
  split at ok
  · cases ok
  · exact (Except.ok.inj ok).symm

/-- A code is minted once. -/
theorem createInvite_fresh {code room : String} {kind : RoomKind} {role : Option String}
    {maxUses : Nat} {expires : Int} {createdBy : String} {requireApproval : Bool} {now : Int}
    (ok : s.createInvite code room kind role maxUses expires createdBy requireApproval now =
      .ok s') : ∀ r ∈ s.invites, r.code ≠ code := by
  unfold createInvite at ok
  split at ok
  · cases ok
  · rename_i absent
    simpa using absent

/-- A code that a redeem by the agent charges: live, with a use left, for a room the agent is
    not in. -/
structure Chargeable (s : Store) (code agent : String) (now : Int) (inv : InviteRow) : Prop where
  found : s.invites.find? (fun r => r.code = code) = some inv
  outsider : s.isMember inv.room agent = false
  live : now ≤ inv.expires
  left : inv.uses < inv.maxUses

/-- A redeem leaves the store alone, or charges its code and then queues a request
    (a gated code, for an agent without a request) or joins the room (an ungated one). -/
theorem redeemInvite_cases {code agent : String} {now : Int} {r : Redeemed}
    (ok : s.redeemInvite code agent now = .ok (r, s')) :
    s' = s ∨ ∃ inv, s.Chargeable code agent now inv ∧
      ((inv.requireApproval = true ∧
          s.joinRequests.find? (fun r => r.room = inv.room ∧ r.agent = agent) = none ∧
          s' = { s.chargeInvite code with
            joinRequests := s.joinRequests ++ [⟨inv.room, agent, .pending, now⟩] }) ∨
        (inv.requireApproval = false ∧
          s' = (s.chargeInvite code).addMember inv.room agent now)) := by
  unfold redeemInvite at ok
  split at ok
  · cases ok
  · rename_i inv found
    split at ok
    · exact Or.inl (Prod.mk.inj (Except.ok.inj ok)).2.symm
    · rename_i outsider
      split at ok
      · cases ok
      · rename_i live
        have live : now ≤ inv.expires := by omega
        split at ok
        · rename_i gated
          split at ok
          · exact Or.inl (Prod.mk.inj (Except.ok.inj ok)).2.symm
          · cases ok
          · rename_i unasked
            split at ok
            · cases ok
            · rename_i left
              refine Or.inr ⟨inv, ⟨found, by simpa using outsider, live, by omega⟩, Or.inl ?_⟩
              exact ⟨gated, by simpa using unasked, (Prod.mk.inj (Except.ok.inj ok)).2.symm⟩
        · rename_i ungated
          split at ok
          · cases ok
          · rename_i left
            refine Or.inr ⟨inv, ⟨found, by simpa using outsider, live, by omega⟩, Or.inr ?_⟩
            exact ⟨by simpa using ungated, (Prod.mk.inj (Except.ok.inj ok)).2.symm⟩

/-- What `redeemInvite_cases` says about the tables. -/
theorem redeemInvite_ok {code agent : String} {now : Int} {r : Redeemed}
    (ok : s.redeemInvite code agent now = .ok (r, s')) :
    s' = s ∨ ∃ inv ∈ s.invites,
      s' = { s.chargeInvite code with
        joinRequests := s.joinRequests ++ [⟨inv.room, agent, .pending, now⟩] } ∨
      s' = (s.chargeInvite code).addMember inv.room agent now := by
  rcases redeemInvite_cases ok with same | ⟨inv, charge, ⟨-, -, queued⟩ | ⟨-, joined⟩⟩
  · exact Or.inl same
  · exact Or.inr ⟨inv, List.mem_of_find?_eq_some charge.found, Or.inl queued⟩
  · exact Or.inr ⟨inv, List.mem_of_find?_eq_some charge.found, Or.inr joined⟩

/-- A resolution answers a request: an approval takes the row and adds the member, a denial
    marks the row. -/
theorem resolveJoin_cases {room owner agent : String} {approve admitted : Bool} {now : Int}
    (ok : s.resolveJoin room owner agent approve now = .ok (admitted, s')) :
    s.roomOwnedBy room owner ∧ (∃ r ∈ s.joinRequests, r.room = room ∧ r.agent = agent) ∧
    admitted = approve ∧
    ((approve = true ∧ s' = Store.addMember { s with
        joinRequests := deleteWhere (fun r => r.room = room ∧ r.agent = agent) s.joinRequests }
        room agent now) ∨
      (approve = false ∧ s' = { s with
        joinRequests := updateWhere (fun r => r.room = room ∧ r.agent = agent)
          (fun r => { r with status := .denied }) s.joinRequests })) := by
  unfold resolveJoin at ok
  split at ok
  · cases ok
  · rename_i owned
    split at ok
    · cases ok
    · rename_i asked
      refine ⟨by simpa using owned, by simpa using asked, ?_⟩
      split at ok
      · rename_i approved
        obtain ⟨rfl, rfl⟩ := Prod.mk.inj (Except.ok.inj ok)
        exact ⟨approved.symm, Or.inl ⟨approved, rfl⟩⟩
      · rename_i denied
        obtain ⟨rfl, rfl⟩ := Prod.mk.inj (Except.ok.inj ok)
        exact ⟨by simpa using denied, Or.inr ⟨by simpa using denied, rfl⟩⟩

theorem resolveJoin_ok {room owner agent : String} {approve admitted : Bool} {now : Int}
    (ok : s.resolveJoin room owner agent approve now = .ok (admitted, s')) :
    s.roomOwnedBy room owner ∧
    (s' = Store.addMember { s with
        joinRequests := deleteWhere (fun r => r.room = room ∧ r.agent = agent) s.joinRequests }
        room agent now ∨
      s' = { s with
        joinRequests := updateWhere (fun r => r.room = room ∧ r.agent = agent)
          (fun r => { r with status := .denied }) s.joinRequests }) := by
  obtain ⟨owned, -, -, ⟨-, admitted⟩ | ⟨-, denied⟩⟩ := resolveJoin_cases ok
  · exact ⟨owned, Or.inl admitted⟩
  · exact ⟨owned, Or.inr denied⟩

theorem insertToken_ok {row : TokenRow} (ok : s.insertToken row = .ok s') :
    s' = { s with directoryTokens := s.directoryTokens ++ [row] } := by
  unfold insertToken at ok
  split at ok
  · cases ok
  · exact (Except.ok.inj ok).symm

theorem mintWatchToken_ok {token room owner : String} {expires now : Int}
    (ok : s.mintWatchToken token room owner expires now = .ok s') :
    s.roomOwnedBy room owner ∧
      s' = { s with
        directoryTokens := s.directoryTokens ++ [⟨token, watchScope room, expires, owner, now⟩] } := by
  unfold mintWatchToken at ok
  split at ok
  · rename_i owned
    exact ⟨owned, insertToken_ok ok⟩
  · cases ok

/-- The dispatch inserts write the dispatch table and nothing else. -/
theorem insertDispatches_eq (room message : String) (seq : Int) (roles : List String) :
    ∃ rows, s.insertDispatches room message seq roles = { s with serviceDispatches := rows } := by
  unfold insertDispatches
  induction roles generalizing s with
  | nil => exact ⟨s.serviceDispatches, rfl⟩
  | cons role roles ih =>
    obtain ⟨rows, equal⟩ := ih (s := s.insertDispatch room message seq role)
    exact ⟨rows, by rw [List.foldl_cons, equal]; rfl⟩

/-- An append is a replay that only uses up a `seq`, or writes the message and its
    dispatches. -/
theorem appendMessage_ok {m : NewMessage} {out : AppendOutcome}
    (ok : s.appendMessage m = .ok (out, s')) :
    (∃ row, s.original m = some row ∧ out = ⟨row.id, row.seq, 0, true⟩ ∧ s' = s.skipSeq) ∨
    (s.original m = none ∧ (∀ r ∈ s.messages, r.id ≠ m.id) ∧
      out = ⟨m.id, s.messageSeq + 1, estimateMessageTokens m.parts, false⟩ ∧
      s' = (s.insertMessage m).insertDispatches m.room m.id (s.messageSeq + 1) m.roles) := by
  unfold appendMessage at ok
  split at ok
  · rename_i row found
    obtain ⟨rfl, rfl⟩ := Prod.mk.inj (Except.ok.inj ok)
    exact Or.inl ⟨row, found, rfl, rfl⟩
  · rename_i absent
    split at ok
    · cases ok
    · rename_i distinct
      obtain ⟨rfl, rfl⟩ := Prod.mk.inj (Except.ok.inj ok)
      exact Or.inr ⟨absent, by simpa using distinct, rfl, rfl⟩

/-- A fact write adds one row of its room or updates rows in place. -/
theorem writeFact_eq (s : Store) (author : String) (fact : Fact) (ts : Int)
    (model : Option String) :
    (s.writeFact author fact ts model).2 =
        s.insertFact fact.key fact.room author fact.text ts model ∨
    ∃ key, fact.key = some key ∧ (s.writeFact author fact ts model).2 = { s with
      facts := updateWhere (fun f => sameKeyedFact author key fact.room f)
        (fun f => { f with text := fact.text, ts := ts, embeddingModel := model }) s.facts } := by
  unfold writeFact
  split
  · rename_i unkeyed
    exact Or.inl (by rw [unkeyed])
  · rename_i key keyed
    split
    · exact Or.inl (by rw [keyed])
    · exact Or.inr ⟨key, keyed, rfl⟩

theorem remember_ok {vecDim : Nat} {author : String} {fact : Fact} {ts : Int}
    {embedding : Option (List UInt32)} {model : Option String}
    (ok : s.remember vecDim author fact ts embedding model = .ok s') :
    ∃ rows, s' = { (s.writeFact author fact ts model).2 with vecFacts := rows } := by
  unfold remember at ok
  split at ok
  · exact ⟨_, (Except.ok.inj ok).symm⟩
  · split at ok
    · cases ok
    · exact ⟨_, (Except.ok.inj ok).symm⟩

/-- A claim changes nothing, or is granted past every check and puts its row. -/
theorem claimServiceMessage_cases (s : Store) (room message worker : String) (leaseSecs : Nat)
    (now : Int) :
    s.claimServiceMessage room message worker leaseSecs now = (none, s) ∨
    (s.claimAllowed room message worker now ∧
      s.claimServiceMessage room message worker leaseSecs now =
        (some (leaseEnd leaseSecs now),
          s.putClaim room message worker now (leaseEnd leaseSecs now))) := by
  unfold claimServiceMessage
  split
  · exact Or.inl rfl
  · split
    · exact Or.inl rfl
    · split
      · exact Or.inl rfl
      · split
        · rename_i allowed
          exact Or.inr ⟨allowed, rfl⟩
        · exact Or.inl rfl

theorem mem_readBacklog {room : String} {floor : Int} {lim : Nat} {m : StoredMessage}
    (listed : m ∈ s.readBacklog room floor lim) :
    ∃ row ∈ s.messages, row.room = room ∧ floor < row.seq ∧ row.toStored = m := by
  obtain ⟨row, taken, rfl⟩ := List.mem_map.mp listed
  have kept := List.mem_filter.mp ((List.mem_insertionSort _).mp (List.mem_of_mem_take taken))
  simp only [decide_eq_true_eq] at kept
  exact ⟨row, kept.1, kept.2.1, kept.2.2, rfl⟩

end Store

/-! ## Frames -/

namespace HubState

/-- A failed store method leaves the state alone. -/
theorem tryStore_cases (h : HubState) (r : Except Failure Store) :
    (∃ s, r = .ok s ∧ h.tryStore r = (.ok (), { h with store := s })) ∨
      (h.tryStore r).2 = h := by
  cases r with
  | ok s => exact Or.inl ⟨s, rfl, rfl⟩
  | error e => exact Or.inr rfl

theorem tryStoreWith_cases {α : Type} (h : HubState) (r : Except Failure (α × Store)) :
    (∃ a s, r = .ok (a, s) ∧ h.tryStoreWith r = (.ok a, { h with store := s })) ∨
      (h.tryStoreWith r).2 = h := by
  cases r with
  | ok p => exact Or.inl ⟨p.1, p.2, rfl, rfl⟩
  | error e => exact Or.inr rfl

end HubState

namespace Store

variable {s s' : Store}

/-- Fact retention changes nothing, or deletes facts and vectors. -/
theorem pruneFacts_cases (s : Store) (keep : Int) :
    s.pruneFacts keep = s ∨ ∃ vecs, s.pruneFacts keep = { s with
      facts := deleteWhere (fun f => f.key = none ∧
        f.id ≤ (s.nthNewestFact f.author f.room keep.toNat).getD (-1)) s.facts
      vecFacts := vecs } := by
  unfold pruneFacts
  dsimp only
  split
  · exact Or.inl rfl
  · exact Or.inr ⟨_, rfl⟩

end Store

/-! ## Which call writes which table -/

/-- The tables of the store; a counter goes with its table. -/
inductive TableName where
  | agents
  | presence
  | rooms
  | members
  | messages
  | serviceWorkers
  | serviceClaims
  | serviceDispatches
  | facts
  | vecFacts
  | invites
  | joinRequests
  | directory
  | directoryTokens
  | blobs
  | blobRooms
  deriving DecidableEq

/-- Two stores agree on a table. -/
@[simp]
def Store.Same (s s' : Store) : TableName → Prop
  | .agents => s'.agents = s.agents
  | .presence => s'.presence = s.presence
  | .rooms => s'.rooms = s.rooms
  | .members => s'.members = s.members
  | .messages => s'.messages = s.messages ∧ s'.messageSeq = s.messageSeq
  | .serviceWorkers => s'.serviceWorkers = s.serviceWorkers
  | .serviceClaims => s'.serviceClaims = s.serviceClaims
  | .serviceDispatches => s'.serviceDispatches = s.serviceDispatches
  | .facts => s'.facts = s.facts ∧ s'.factSeq = s.factSeq
  | .vecFacts => s'.vecFacts = s.vecFacts
  | .invites => s'.invites = s.invites
  | .joinRequests => s'.joinRequests = s.joinRequests
  | .directory => s'.directory = s.directory
  | .directoryTokens => s'.directoryTokens = s.directoryTokens
  | .blobs => s'.blobs = s.blobs
  | .blobRooms => s'.blobRooms = s.blobRooms

theorem Store.Same.refl (s : Store) (t : TableName) : s.Same s t := by
  cases t <;> simp

namespace HubCall

/-- The tables a call may write. -/
def writes : HubCall → List TableName
  | .upsertAgent .. => [.agents]
  | .touchPresence .. => [.presence]
  | .refreshPresence .. => [.presence]
  | .setAttention .. => [.presence]
  | .ensureRoom .. => [.rooms]
  | .addMember .. => [.members]
  | .setRoomOwner .. => [.rooms]
  | .deleteRoom .. => [.joinRequests, .invites, .directoryTokens, .blobRooms, .facts, .messages,
      .members, .rooms]
  | .createInvite .. => [.invites]
  | .redeemInvite .. => [.invites, .joinRequests, .members]
  | .resolveJoin .. => [.joinRequests, .members]
  | .mintDirectoryToken .. => [.directoryTokens]
  | .mintWatchToken .. => [.directoryTokens]
  | .sweepExpired _ => [.invites, .directoryTokens]
  | .serveRole .. => [.serviceWorkers]
  | .claimServiceMessage .. => [.serviceClaims]
  | .completeServiceMessage .. => [.serviceClaims]
  | .appendMessage _ => [.messages, .serviceDispatches]
  | .setCursor .. => [.members]
  | .pruneMessages .. => [.messages]
  | .registerCard .. => [.directory]
  | .remember .. => [.facts, .vecFacts]
  | .pruneFacts _ => [.facts, .vecFacts]
  | .putBlobMeta .. => [.blobs, .blobRooms]
  | .touchBlobFetched .. => [.blobs]
  | .gcBlobs .. => [.blobs, .blobRooms]
  | _ => []

end HubCall

/-- A fallible method that succeeds may write its tables; one that fails writes nothing. -/
theorem tryStore_same {h : HubState} {r : Except Failure Store} {t : TableName}
    (same : ∀ s, r = .ok s → h.store.Same s t) : h.store.Same (h.tryStore r).2.store t := by
  rcases h.tryStore_cases r with ⟨s, ok, equal⟩ | unchanged
  · rw [equal]
    exact same s ok
  · rw [unchanged]
    exact .refl h.store t

theorem tryStoreWith_same {α : Type} {h : HubState} {r : Except Failure (α × Store)}
    {t : TableName} (same : ∀ a s, r = .ok (a, s) → h.store.Same s t) :
    h.store.Same (h.tryStoreWith r).2.store t := by
  rcases h.tryStoreWith_cases r with ⟨a, s, ok, equal⟩ | unchanged
  · rw [equal]
    exact same a s ok
  · rw [unchanged]
    exact .refl h.store t

/-- The frame lemma: a call leaves every table alone that it does not write. -/
theorem exec_same (cfg : HubConfig) (op : HubCall) (h : HubState) (t : TableName)
    (other : t ∉ op.writes) : h.store.Same (op.exec cfg h).2.store t := by
  cases op with
  | deleteRoom room owner =>
    refine tryStore_same ?_
    intro s ok
    rw [(Store.deleteRoom_ok ok).2]
    cases t <;> simp [HubCall.writes, Store.eraseRoom] at other ⊢
  | createInvite =>
    refine tryStore_same ?_
    intro s ok
    rw [Store.createInvite_ok ok]
    cases t <;> simp [HubCall.writes] at other ⊢
  | redeemInvite code agent now =>
    refine tryStoreWith_same ?_
    intro r s ok
    rcases Store.redeemInvite_ok ok with rfl | ⟨inv, -, rfl | rfl⟩ <;>
      cases t <;> simp [HubCall.writes, Store.chargeInvite, Store.addMember] at other ⊢
  | resolveJoin room owner agent approve now =>
    refine tryStoreWith_same ?_
    intro admitted s ok
    rcases (Store.resolveJoin_ok ok).2 with rfl | rfl <;>
      cases t <;> simp [HubCall.writes, Store.addMember] at other ⊢
  | mintDirectoryToken =>
    refine tryStore_same ?_
    intro s ok
    rw [Store.insertToken_ok ok]
    cases t <;> simp [HubCall.writes] at other ⊢
  | mintWatchToken =>
    refine tryStore_same ?_
    intro s ok
    rw [(Store.mintWatchToken_ok ok).2]
    cases t <;> simp [HubCall.writes] at other ⊢
  | claimServiceMessage room message worker secs now =>
    rcases Store.claimServiceMessage_cases h.store room message worker secs now with
      refused | ⟨-, granted⟩
    · simp only [HubCall.exec, refused]
      exact .refl h.store t
    · simp only [HubCall.exec, granted]
      cases t <;> simp [HubCall.writes, Store.putClaim] at other ⊢
  | completeServiceMessage room message worker status now =>
    refine tryStoreWith_same ?_
    intro completed s ok
    unfold Store.completeServiceMessage at ok
    split at ok
    · cases ok
    · rw [← (Prod.mk.inj (Except.ok.inj ok)).2]
      cases t <;> simp [HubCall.writes] at other ⊢
  | appendMessage m =>
    refine tryStoreWith_same ?_
    intro out s ok
    rcases Store.appendMessage_ok ok with ⟨row, -, -, rfl⟩ | ⟨-, -, -, rfl⟩
    · cases t <;> simp [HubCall.writes, Store.skipSeq] at other ⊢
    · obtain ⟨rows, equal⟩ := Store.insertDispatches_eq (s := h.store.insertMessage m) m.room m.id
        (h.store.messageSeq + 1) m.roles
      rw [equal]
      cases t <;> simp [HubCall.writes, Store.insertMessage] at other ⊢
  | remember author fact ts embedding model =>
    refine tryStore_same ?_
    intro s ok
    obtain ⟨rows, rfl⟩ := Store.remember_ok ok
    rcases Store.writeFact_eq h.store author fact ts model with equal | ⟨key, -, equal⟩ <;>
      rw [equal] <;> cases t <;> simp [HubCall.writes, Store.insertFact] at other ⊢
  | pruneFacts keep =>
    rcases h.store.pruneFacts_cases keep with same | ⟨vecs, equal⟩
    · simp only [HubCall.exec, same]
      exact .refl h.store t
    · simp only [HubCall.exec, equal]
      cases t <;> simp [HubCall.writes] at other ⊢
  | acquireUpload n =>
    have same : (HubCall.exec cfg (.acquireUpload n) h).2.store = h.store := by
      simp only [HubCall.exec]
      split <;> rfl
    rw [same]
    exact .refl h.store t
  | roomRateAllows room kind now =>
    cases kind <;> exact Store.Same.refl h.store t
  | _ =>
    -- Most calls leave the store as it is.
    first
    | exact Store.Same.refl h.store t
    | cases t <;> first | rfl | exact ⟨rfl, rfl⟩ | exact absurd (by simp [HubCall.writes]) other

/-- What a call does to the messages: it selects among them, or appends one under the next
    `seq`. -/
inductive MessageChange (op : HubCall) (s s' : Store) : Prop where
  | kept (p : MessageRow → Bool) (rows : s'.messages = s.messages.filter p)
      (seq : s.messageSeq ≤ s'.messageSeq)
  | appended (m : NewMessage) (append : op = .appendMessage m)
      (rows : s'.messages = s.messages ++ [m.toRow (s.messageSeq + 1)])
      (seq : s'.messageSeq = s.messageSeq + 1)

theorem MessageChange.refl (op : HubCall) (s : Store) : MessageChange op s s :=
  .kept (fun _ => true) (by simp) (le_refl _)

theorem messageChange_exec (cfg : HubConfig) (op : HubCall) (h : HubState) :
    MessageChange op h.store (op.exec cfg h).2.store := by
  by_cases written : TableName.messages ∈ op.writes
  · cases op with
    | appendMessage m =>
      rcases h.tryStoreWith_cases (h.store.appendMessage m) with ⟨out, s, ok, equal⟩ | unchanged
      · rw [HubCall.exec, equal]
        rcases Store.appendMessage_ok ok with ⟨-, -, -, rfl⟩ | ⟨-, -, -, rfl⟩
        · exact .kept (fun _ => true) (by simp [Store.skipSeq]) (Int.le_add_one (le_refl _))
        · obtain ⟨rows, inserted⟩ := Store.insertDispatches_eq (s := h.store.insertMessage m) m.room
            m.id (h.store.messageSeq + 1) m.roles
          rw [inserted]
          exact .appended m rfl rfl rfl
      · rw [HubCall.exec, unchanged]
        exact .refl _ _
    | deleteRoom room owner =>
      rcases h.tryStore_cases (h.store.deleteRoom room owner) with ⟨s, ok, equal⟩ | unchanged
      · rw [HubCall.exec, equal, (Store.deleteRoom_ok ok).2]
        exact .kept _ rfl (le_refl _)
      · rw [HubCall.exec, unchanged]
        exact .refl _ _
    | pruneMessages => exact .kept _ rfl (le_refl _)
    | _ => simp [HubCall.writes] at written
  · obtain ⟨rows, seq⟩ := exec_same cfg op h .messages written
    exact .kept (fun _ => true) (by simp [rows]) (le_of_eq seq.symm)

/-- A call that writes nothing but the store. -/
def HubCall.storeOnly : HubCall → Bool
  | .tick _ | .rateAllows .. | .roomRateAllows .. | .lockQuota | .unlockQuota | .acquireUpload _
  | .releaseUpload _ | .countMessage _ | .writeBlobFile .. | .removeBlobFile _
  | .pruneRateWindows _ => false
  | _ => true

theorem exec_storeOnly (cfg : HubConfig) (op : HubCall) (h : HubState) (plain : op.storeOnly = true) :
    ∃ s, (op.exec cfg h).2 = { h with store := s } := by
  have stored : ∀ r, ∃ s, (h.tryStore r).2 = { h with store := s } := by
    intro r
    cases r with
    | ok s => exact ⟨s, rfl⟩
    | error e => exact ⟨h.store, rfl⟩
  have storedWith : ∀ {α : Type} (r : Except Failure (α × Store)),
      ∃ s, (h.tryStoreWith r).2 = { h with store := s } := by
    intro α r
    cases r with
    | ok r => exact ⟨r.2, rfl⟩
    | error e => exact ⟨h.store, rfl⟩
  cases op with
  | tick | rateAllows | roomRateAllows | lockQuota | unlockQuota | acquireUpload | releaseUpload
  | countMessage | writeBlobFile | removeBlobFile | pruneRateWindows => cases plain
  | _ => first | exact ⟨_, rfl⟩ | exact stored _ | exact storedWith _

end Parler.Hub
