import Parler.Hub.Demo
import Parler.Hub.ReadIsolation

/-!
# Rows name existing rooms

The store has no foreign keys: that a row of a room-scoped table names a room of
`rooms` rests on the handlers, each of which confirms or creates the room in one
call and writes its rows in later ones. `writeRule` is that discipline. It keeps
every row attached to a room as long as no room is deleted between a request's
confirmation and its write; the deletion itself removes the rows it finds.
-/

namespace Parler.Hub

open Parler.Lib Parler.Protocol Handler

variable {cfg : HubConfig}

namespace Store

/-- The room exists. -/
def hasRoom (s : Store) (room : String) : Prop := ∃ r ∈ s.rooms, r.name = room

/-- A row of the table names the room. -/
def NamesIn (s : Store) (room : String) : TableName → Prop
  | .members => ∃ r ∈ s.members, r.room = room
  | .messages => ∃ r ∈ s.messages, r.room = room
  | .invites => ∃ r ∈ s.invites, r.room = room
  | .joinRequests => ∃ r ∈ s.joinRequests, r.room = room
  | .blobRooms => ∃ r ∈ s.blobRooms, r.room = room
  | .facts => ∃ r ∈ s.facts, r.room = some room
  | .directoryTokens => ∃ r ∈ s.directoryTokens, r.scope = watchScope room
  | _ => False

/-- Every row of `members`, `messages`, `invites`, `join_requests` and `blob_rooms`, every
    room-scoped fact and every `watch:<room>` token names an existing room. -/
def RoomsExist (s : Store) : Prop := ∀ room table, s.NamesIn room table → s.hasRoom room

theorem namesIn_same {s s' : Store} {room : String} {t : TableName} (same : s.Same s' t)
    (named : s'.NamesIn room t) : s.NamesIn room t := by
  cases t <;> simp_all [NamesIn]

theorem hasRoom_of_owned {s : Store} {room owner : String} (owned : s.roomOwnedBy room owner) :
    s.hasRoom room := by
  obtain ⟨r, member, both⟩ := List.any_eq_true.mp owned
  simp only [decide_eq_true_eq] at both
  exact ⟨r, member, both.1⟩

theorem hasRoom_ensureRoom (s : Store) (room : String) (kind : RoomKind)
    (description : Option String) (now : Int) : (s.ensureRoom room kind description now).hasRoom room := by
  obtain ⟨r, member, same⟩ := exists_key_insertNew RoomRow.name
    ⟨room, kind, description, none, now⟩ s.rooms
  exact ⟨r, member, same⟩

theorem watchScope_injective {room room' : String} (same : watchScope room = watchScope room') :
    room = room' := by
  unfold watchScope at same
  exact String.append_right_inj _ |>.mp same

theorem watchedRoom_watchScope (room : String) : watchedRoom (watchScope room) = some room := by
  simp [watchedRoom, watchScope]

end Store

namespace HubCall

/-- The room a call writes a row for, unchecked. -/
def writesFor : HubCall → Option String
  | .addMember room _ _ => some room
  | .appendMessage m => some m.room
  | .createInvite _ room _ _ _ _ _ _ => some room
  | .putBlobMeta _ room _ _ _ _ => some room
  | .remember _ fact _ _ _ => fact.room
  | .mintDirectoryToken _ scope _ _ _ => Store.watchedRoom scope
  | _ => none

end HubCall

/-! ## What one call does -/

section Step

variable {s : Store} {room : String}

theorem named_insertNew {α κ : Type} [DecidableEq κ] {key : α → κ} {row : α} {table : List α}
    {names : α → Prop} (named : ∃ r ∈ insertNew key row table, names r) :
    (∃ r ∈ table, names r) ∨ names row := by
  obtain ⟨r, member, holds⟩ := named
  rcases mem_of_mem_insertNew member with old | rfl
  · exact Or.inl ⟨r, old, holds⟩
  · exact Or.inr holds

theorem named_append {α : Type} {row : α} {table : List α} {names : α → Prop}
    (named : ∃ r ∈ table ++ [row], names r) : (∃ r ∈ table, names r) ∨ names row := by
  obtain ⟨r, member, holds⟩ := named
  rcases List.mem_append.mp member with old | new
  · exact Or.inl ⟨r, old, holds⟩
  · exact Or.inr (List.mem_singleton.mp new ▸ holds)

theorem named_deleteWhere {α : Type} {p : α → Prop} [DecidablePred p] {table : List α}
    {names : α → Prop} (named : ∃ r ∈ deleteWhere p table, names r) : ∃ r ∈ table, names r := by
  obtain ⟨r, member, holds⟩ := named
  exact ⟨r, (mem_deleteWhere.mp member).1, holds⟩

theorem named_updateWhere {α : Type} {p : α → Prop} [DecidablePred p] {f : α → α} {table : List α}
    {names : α → Prop} (named : ∃ r ∈ updateWhere p f table, names r)
    (keeps : ∀ r, names (f r) → names r) : ∃ r ∈ table, names r := by
  obtain ⟨r, member, holds⟩ := named
  rcases mem_updateWhere.mp member with ⟨old, -⟩ | ⟨old, present, -, rfl⟩
  · exact ⟨r, old, holds⟩
  · exact ⟨old, present, keeps old holds⟩

theorem named_tryStore {h : HubState} {r : Except Failure Store} {table : TableName}
    (named : (h.tryStore r).2.store.NamesIn room table) :
    h.store.NamesIn room table ∨ ∃ s, r = .ok s ∧ s.NamesIn room table := by
  rcases h.tryStore_cases r with ⟨s, ok, after⟩ | same
  · rw [after] at named
    exact Or.inr ⟨s, ok, named⟩
  · rw [same] at named
    exact Or.inl named

theorem named_tryStoreWith {α : Type} {h : HubState} {r : Except Failure (α × Store)}
    {table : TableName} (named : (h.tryStoreWith r).2.store.NamesIn room table) :
    h.store.NamesIn room table ∨ ∃ a s, r = .ok (a, s) ∧ s.NamesIn room table := by
  rcases h.tryStoreWith_cases r with ⟨a, s, ok, after⟩ | same
  · rw [after] at named
    exact Or.inr ⟨a, s, ok, named⟩
  · rw [same] at named
    exact Or.inl named

/-- A redeem names the room of its invite, which an invite row named. -/
theorem namesIn_redeem {code agent : String} {now : Int} {r : Store.Redeemed} {s' : Store}
    {table : TableName} (ok : s.redeemInvite code agent now = .ok (r, s'))
    (written : table = .invites ∨ table = .joinRequests ∨ table = .members)
    (named : s'.NamesIn room table) : ∃ table, s.NamesIn room table := by
  rcases Store.redeemInvite_ok ok with rfl | ⟨inv, member, rfl | rfl⟩
  · exact ⟨table, named⟩
  · rcases written with rfl | rfl | rfl
    · exact ⟨.invites, named_updateWhere named (fun _ same => same)⟩
    · rcases named_append named with old | rfl
      · exact ⟨.joinRequests, old⟩
      · exact ⟨.invites, inv, member, rfl⟩
    · exact ⟨.members, named⟩
  · rcases written with rfl | rfl | rfl
    · exact ⟨.invites, named_updateWhere named (fun _ same => same)⟩
    · exact ⟨.joinRequests, named⟩
    · rcases named_insertNew named with old | rfl
      · exact ⟨.members, old⟩
      · exact ⟨.invites, inv, member, rfl⟩

theorem namesIn_resolve {room' owner agent : String} {approve admitted : Bool} {now : Int}
    {s' : Store} {table : TableName}
    (ok : s.resolveJoin room' owner agent approve now = .ok (admitted, s'))
    (written : table = .joinRequests ∨ table = .members)
    (named : s'.NamesIn room table) : (∃ table, s.NamesIn room table) ∨ s.hasRoom room := by
  obtain ⟨owned, rfl | rfl⟩ := Store.resolveJoin_ok ok
  · rcases written with rfl | rfl
    · exact Or.inl ⟨.joinRequests, named_deleteWhere named⟩
    · rcases named_insertNew named with old | rfl
      · exact Or.inl ⟨.members, old⟩
      · exact Or.inr (Store.hasRoom_of_owned owned)
  · rcases written with rfl | rfl
    · exact Or.inl ⟨.joinRequests, named_updateWhere named (fun _ same => same)⟩
    · exact Or.inl ⟨.members, named⟩

theorem namesIn_remember {vecDim : Nat} {author : String} {fact : Fact} {ts : Int}
    {embedding : Option (List UInt32)} {model : Option String} {s' : Store}
    (ok : s.remember vecDim author fact ts embedding model = .ok s')
    (named : s'.NamesIn room .facts) : s.NamesIn room .facts ∨ fact.room = some room := by
  obtain ⟨rows, rfl⟩ := Store.remember_ok ok
  rcases Store.writeFact_eq s author fact ts model with equal | ⟨key, -, equal⟩
  · rw [equal] at named
    exact named_append named
  · rw [equal] at named
    exact Or.inl (named_updateWhere named (fun _ same => same))

theorem namesIn_append {m : NewMessage} {out : AppendOutcome} {s' : Store}
    (ok : s.appendMessage m = .ok (out, s')) (named : s'.NamesIn room .messages) :
    s.NamesIn room .messages ∨ m.room = room := by
  rcases Store.appendMessage_ok ok with ⟨row, -, -, rfl⟩ | ⟨-, -, -, rfl⟩
  · exact Or.inl named
  · obtain ⟨rows, equal⟩ := Store.insertDispatches_eq (s := s.insertMessage m) m.room m.id
      (s.messageSeq + 1) m.roles
    rw [equal] at named
    exact named_append named

theorem namesIn_erase {room' : String} {table : TableName}
    (named : (s.eraseRoom room').NamesIn room table) : s.NamesIn room table ∧ room ≠ room' := by
  cases table with
  | members =>
    obtain ⟨r, member, rfl⟩ := named
    exact ⟨⟨r, (mem_deleteWhere.mp member).1, rfl⟩, (mem_deleteWhere.mp member).2⟩
  | messages =>
    obtain ⟨r, member, rfl⟩ := named
    exact ⟨⟨r, (mem_deleteWhere.mp member).1, rfl⟩, (mem_deleteWhere.mp member).2⟩
  | invites =>
    obtain ⟨r, member, rfl⟩ := named
    exact ⟨⟨r, (mem_deleteWhere.mp member).1, rfl⟩, (mem_deleteWhere.mp member).2⟩
  | joinRequests =>
    obtain ⟨r, member, rfl⟩ := named
    exact ⟨⟨r, (mem_deleteWhere.mp member).1, rfl⟩, (mem_deleteWhere.mp member).2⟩
  | blobRooms =>
    obtain ⟨r, member, rfl⟩ := named
    exact ⟨⟨r, (mem_deleteWhere.mp member).1, rfl⟩, (mem_deleteWhere.mp member).2⟩
  | facts =>
    obtain ⟨r, member, same⟩ := named
    refine ⟨⟨r, (mem_deleteWhere.mp member).1, same⟩, ?_⟩
    rintro rfl
    exact (mem_deleteWhere.mp member).2 same
  | directoryTokens =>
    obtain ⟨r, member, same⟩ := named
    refine ⟨⟨r, (mem_deleteWhere.mp member).1, same⟩, ?_⟩
    rintro rfl
    exact (mem_deleteWhere.mp member).2 same
  | _ => exact named.elim

/-- The step lemma: a row names a room that a row named before, that the call writes for,
    or that exists. -/
theorem namesIn_exec (op : HubCall) (h : HubState) {table : TableName}
    (named : (op.exec cfg h).2.store.NamesIn room table) :
    (∃ table, h.store.NamesIn room table) ∨ op.writesFor = some room ∨ h.store.hasRoom room := by
  by_cases written : table ∈ op.writes
  swap
  · exact Or.inl ⟨table, Store.namesIn_same (exec_same cfg op h table written) named⟩
  have old : ∀ table, h.store.NamesIn room table →
      (∃ table, h.store.NamesIn room table) ∨ op.writesFor = some room ∨ h.store.hasRoom room :=
    fun table named => Or.inl ⟨table, named⟩
  cases op with
  | addMember room' agent now =>
    obtain rfl : table = .members := by simpa [HubCall.writes] using written
    rcases named_insertNew named with before | rfl
    · exact old .members before
    · exact Or.inr (Or.inl rfl)
  | setCursor room' agent v =>
    obtain rfl : table = .members := by simpa [HubCall.writes] using written
    exact old .members (named_updateWhere named (fun _ same => same))
  | deleteRoom room' owner =>
    rcases named_tryStore named with before | ⟨s, ok, after⟩
    · exact old table before
    · rw [(Store.deleteRoom_ok ok).2] at after
      exact old table (namesIn_erase after).1
  | createInvite code room' =>
    obtain rfl : table = .invites := by simpa [HubCall.writes] using written
    rcases named_tryStore named with before | ⟨s, ok, after⟩
    · exact old .invites before
    · rw [Store.createInvite_ok ok] at after
      rcases named_append after with before | rfl
      · exact old .invites before
      · exact Or.inr (Or.inl rfl)
  | redeemInvite code agent now =>
    rcases named_tryStoreWith named with before | ⟨r, s, ok, after⟩
    · exact old table before
    · exact Or.inl (namesIn_redeem ok (by simpa [HubCall.writes] using written) after)
  | resolveJoin room' owner agent approve now =>
    rcases named_tryStoreWith named with before | ⟨admitted, s, ok, after⟩
    · exact old table before
    · rcases namesIn_resolve ok (by simpa [HubCall.writes] using written) after with before | exists_
      · exact Or.inl before
      · exact Or.inr (Or.inr exists_)
  | mintDirectoryToken token scope expires createdBy now =>
    obtain rfl : table = .directoryTokens := by simpa [HubCall.writes] using written
    rcases named_tryStore named with before | ⟨s, ok, after⟩
    · exact old .directoryTokens before
    · rw [Store.insertToken_ok ok] at after
      rcases named_append after with before | rfl
      · exact old .directoryTokens before
      · exact Or.inr (Or.inl (Store.watchedRoom_watchScope room))
  | mintWatchToken token room' owner expires now =>
    obtain rfl : table = .directoryTokens := by simpa [HubCall.writes] using written
    rcases named_tryStore named with before | ⟨s, ok, after⟩
    · exact old .directoryTokens before
    · obtain ⟨owned, rfl⟩ := Store.mintWatchToken_ok ok
      rcases named_append after with before | same
      · exact old .directoryTokens before
      · rw [← Store.watchScope_injective same]
        exact Or.inr (Or.inr (Store.hasRoom_of_owned owned))
  | sweepExpired now =>
    have either : table = .invites ∨ table = .directoryTokens := by
      simpa [HubCall.writes] using written
    rcases either with rfl | rfl
    · exact old .invites (named_deleteWhere named)
    · exact old .directoryTokens (named_deleteWhere named)
  | appendMessage m =>
    have either : table = .messages ∨ table = .serviceDispatches := by
      simpa [HubCall.writes] using written
    rcases either with rfl | rfl
    · rcases named_tryStoreWith named with before | ⟨out, s, ok, after⟩
      · exact old .messages before
      · rcases namesIn_append ok after with before | rfl
        · exact old .messages before
        · exact Or.inr (Or.inl rfl)
    · exact named.elim
  | pruneMessages retainMs keep now =>
    obtain rfl : table = .messages := by simpa [HubCall.writes] using written
    exact old .messages (named_deleteWhere named)
  | remember author fact ts embedding model =>
    have either : table = .facts ∨ table = .vecFacts := by simpa [HubCall.writes] using written
    rcases either with rfl | rfl
    · rcases named_tryStore named with before | ⟨s, ok, after⟩
      · exact old .facts before
      · rcases namesIn_remember ok after with before | same
        · exact old .facts before
        · exact Or.inr (Or.inl same)
    · exact named.elim
  | pruneFacts keep =>
    have either : table = .facts ∨ table = .vecFacts := by simpa [HubCall.writes] using written
    rcases either with rfl | rfl
    · rcases h.store.pruneFacts_cases keep with same | ⟨vecs, equal⟩
      · simp only [HubCall.exec, same] at named
        exact old .facts named
      · simp only [HubCall.exec, equal] at named
        exact old .facts (named_deleteWhere named)
    · exact named.elim
  | putBlobMeta id room' author mediaType size now =>
    have either : table = .blobs ∨ table = .blobRooms := by simpa [HubCall.writes] using written
    rcases either with rfl | rfl
    · exact named.elim
    · rcases named_insertNew named with before | rfl
      · exact old .blobRooms before
      · exact Or.inr (Or.inl rfl)
  | gcBlobs ttl now =>
    have either : table = .blobs ∨ table = .blobRooms := by simpa [HubCall.writes] using written
    rcases either with rfl | rfl
    · exact named.elim
    · exact old .blobRooms (named_deleteWhere named)
  | _ =>
    simp only [HubCall.writes, List.mem_cons, List.not_mem_nil, or_false] at written <;>
      (subst written; exact named.elim)

/-- A room lasts until it is deleted. -/
theorem hasRoom_after {e : HubEvent cfg} (has : e.before.store.hasRoom room)
    (kept : ¬ DeletesRoom room e) : e.after.store.hasRoom room := by
  obtain ⟨t, op, h⟩ := e
  by_cases written : .rooms ∈ op.writes
  swap
  · obtain ⟨r, member, same⟩ := has
    have rooms : (op.exec cfg h).2.store.rooms = h.store.rooms :=
      exec_same cfg op h .rooms written
    exact ⟨r, by rw [← rooms] at member; exact member, same⟩
  obtain ⟨r, member, same⟩ := has
  cases op with
  | ensureRoom name kind now => exact ⟨r, mem_insertNew_of_mem member, same⟩
  | setRoomOwner name owner =>
    by_cases unowned : r.name = name ∧ r.owner = none
    · exact ⟨{ r with owner := some owner },
        mem_updateWhere.mpr (Or.inr ⟨r, member, unowned, rfl⟩), same⟩
    · exact ⟨r, mem_updateWhere.mpr (Or.inl ⟨member, unowned⟩), same⟩
  | deleteRoom name owner =>
    rcases h.tryStore_cases (h.store.deleteRoom name owner) with ⟨s, ok, after⟩ | unchanged
    · obtain ⟨owned, rfl⟩ := Store.deleteRoom_ok ok
      have other : r.name ≠ name := by
        intro equal
        refine kept ⟨owner, ?_, ?_⟩
        · rw [← same, equal]
        · rw [← same, equal]
          exact owned
      refine ⟨r, ?_, same⟩
      show r ∈ (HubState.tryStore h (h.store.deleteRoom name owner)).2.store.rooms
      rw [after]
      exact mem_deleteWhere.mpr ⟨member, other⟩
    · refine ⟨r, ?_, same⟩
      show r ∈ (HubState.tryStore h (h.store.deleteRoom name owner)).2.store.rooms
      rw [unchanged]
      exact member
  | _ => simp [HubCall.writes] at written

/-- A deleted room is named by no row. -/
theorem deleted_unnamed {e : HubEvent cfg} (deletes : DeletesRoom room e) (table : TableName) :
    ¬ e.after.store.NamesIn room table := by
  obtain ⟨t, op, h⟩ := e
  obtain ⟨owner, rfl, owned⟩ := deletes
  have after : (HubCall.exec cfg (.deleteRoom room owner) h).2.store = h.store.eraseRoom room := by
    have owned : h.store.roomOwnedBy room owner := owned
    simp [HubCall.exec, Store.deleteRoom, owned, HubState.tryStore]
  intro named
  have named : (HubCall.exec cfg (.deleteRoom room owner) h).2.store.NamesIn room table := named
  rw [after] at named
  exact (namesIn_erase named).2 rfl

/-- A call that writes for an existing room keeps every row attached. -/
theorem roomsExist_exec {e : HubEvent cfg} (exist : e.before.store.RoomsExist)
    (live : ∀ room, e.op.writesFor = some room → e.before.store.hasRoom room) :
    e.after.store.RoomsExist := by
  intro room table named
  have before : e.before.store.hasRoom room := by
    rcases namesIn_exec e.op e.before named with ⟨table, old⟩ | writes | has
    · exact exist room table old
    · exact live room writes
    · exact has
  refine hasRoom_after before ?_
  intro deletes
  exact deleted_unnamed deletes table named

end Step

/-! ## What a request confirms before it writes -/

/-- The call shows that the room exists. -/
def confirmsRoom (room : String) : HubDone cfg → Prop
  | ⟨.isMember r _, member⟩ => r = room ∧ member = true
  | ⟨.roomKind r, kind⟩ => r = room ∧ kind.isSome = true
  | ⟨.ensureRoom r _ _, _⟩ => r = room
  | ⟨.findDmRoom _ _, found⟩ => found = some room
  | _ => False

/-- The request has confirmed or created the room. -/
def KnowsRoom (room : String) (past : List (HubDone cfg)) : Prop :=
  ∃ d ∈ past, confirmsRoom room d

@[simp] theorem knowsRoom_cons (room : String) (d : HubDone cfg) (past : List (HubDone cfg)) :
    KnowsRoom room (d :: past) ↔ confirmsRoom room d ∨ KnowsRoom room past := by
  simp [KnowsRoom]

/-- A request writes for rooms it knows. -/
def writeRule (past : List (HubDone cfg)) (op : HubCall) : Prop :=
  ∀ room, op.writesFor = some room → KnowsRoom room past

theorem writeRule_free (past : List (HubDone cfg)) {op : HubCall} (free : op.writesFor = none) :
    writeRule past op := by
  intro room writes
  rw [free] at writes
  cases writes

section Walk

variable (cfg) (me : Authed) (fresh : Fresh) (past : List (HubDone cfg))

theorem resolveTarget_writeRule (target : Target) :
    (resolveTarget cfg me fresh target).Follows writeRule past := by
  cases target with
  | room room => simp [resolveTarget, requireMember, writeRule, HubCall.writesFor]
  | dm agent =>
    simp only [resolveTarget, follows_call_bind]
    refine ⟨by simp [writeRule, HubCall.writesFor], ?_⟩
    intro shared
    cases shared with
    | some room => simp
    | none =>
      simp only [follows_call_bind]
      refine ⟨by simp [writeRule, HubCall.writesFor], ?_⟩
      intro visibility
      cases visibility <;> simp [writeRule, HubCall.writesFor, confirmsRoom]
  | service service =>
    simp +contextual [resolveTarget, writeRule, HubCall.writesFor, confirmsRoom,
      Option.isSome_iff_ne_none]

theorem resolveTarget_knows (target : Target) :
    (resolveTarget cfg me fresh target).Ends KnowsRoom past := by
  cases target with
  | room room => simp [resolveTarget, requireMember, confirmsRoom]
  | dm agent =>
    simp only [resolveTarget, ends_call_bind]
    intro shared
    cases shared with
    | some room => simp [confirmsRoom]
    | none =>
      simp only [ends_call_bind]
      intro visibility
      cases visibility <;> simp [confirmsRoom]
  | service service =>
    simp +contextual [resolveTarget, confirmsRoom, Option.isSome_iff_ne_none]

theorem handleSend_writeRule (target : Target) (parts : List Part)
    (mentions : Option (List String)) (replyTo clientId : Option String) :
    (handleSend cfg me fresh target parts mentions replyTo clientId).Follows writeRule past := by
  unfold handleSend
  simp only [follows_call_bind, fail_bind, follows_ite, follows_fail]
  refine ⟨writeRule_free _ rfl, fun clock => ⟨writeRule_free _ rfl, fun allowed => ⟨fun _ => trivial, fun _ => ?_⟩⟩⟩
  refine ⟨fun _ => trivial, fun _ => ?_⟩
  refine follows_bind (resolveTarget_writeRule cfg me fresh _ target)
    (resolveTarget_knows cfg me fresh _ target) ?_
  intro room past known
  simp only [follows_call_bind, follows_ite, follows_fail, follows_check_bind]
  refine ⟨writeRule_free _ rfl, fun clock => ⟨writeRule_free _ rfl, fun allowed => ⟨fun _ => trivial, fun _ => ?_⟩⟩⟩
  refine ⟨writeRule_free _ rfl, fun now => ⟨?_, fun stored out ok => ?_⟩⟩
  · intro room' writes
    obtain rfl := Option.some.inj writes
    simp [known]
  · simp [fanout, writeRule, HubCall.writesFor]

theorem withQuota_writeRule {α : Type} {p : Handler cfg α}
    (body : p.Follows writeRule (⟨.lockQuota, ()⟩ :: past)) :
    (withQuota p).Follows writeRule past :=
  follows_withQuota (by simp [writeRule, HubCall.writesFor])
    (by simp [writeRule, HubCall.writesFor]) body

theorem handleRemember_writeRule (fact : Fact) (embedding : Option (List UInt32))
    (model : Option String) :
    (handleRemember cfg me fact embedding model).Follows writeRule past := by
  have keyed : ∀ {α β : Type} {p : Handler cfg α} {f : α → Handler cfg β} past',
      p.Follows writeRule (⟨.lockQuota, ()⟩ :: past') → (∀ a past, (f a).Follows writeRule past) →
        (withQuota p >>= f).Follows writeRule past' :=
    fun past' body rest => follows_bind_free (withQuota_writeRule cfg past' body) rest
  unfold handleRemember
  cases room : fact.room <;> cases fact.key <;>
    simp +contextual [requireMember, keyed, writeRule, HubCall.writesFor, confirmsRoom, room]

theorem handleRecall_writeRule (query : String) (room : Option String) (limit : Option Nat)
    (embedding : Option (List UInt32)) (key : Option String) :
    (handleRecall cfg me query room limit embedding key).Follows writeRule past := by
  unfold handleRecall
  generalize Option.filter (fun k => !k.isEmpty) key = wanted
  cases room <;> cases wanted <;> simp [requireMember, writeRule, HubCall.writesFor]

theorem handleInvite_writeRule (kind : RoomKind) (room : Option String)
    (ttlSecs maxUses : Option Nat) (requireApproval : Bool) :
    (handleInvite cfg me fresh kind room ttlSecs maxUses requireApproval).Follows writeRule
      past := by
  simp only [handleInvite, follows_call_bind]
  refine ⟨by simp [writeRule, HubCall.writesFor], fun now => withQuota_writeRule cfg _ ?_⟩
  simp [requireRoomQuota, writeRule, HubCall.writesFor, confirmsRoom]

theorem handleServe_writeRule (service : String) :
    (handleServe cfg me service).Follows writeRule past := by
  simp only [handleServe, follows_call_bind]
  refine ⟨by simp [writeRule, HubCall.writesFor], fun now => withQuota_writeRule cfg _ ?_⟩
  simp [requireRoomQuota, writeRule, HubCall.writesFor, confirmsRoom]

theorem handleGetBlob_writeRule (id : String) :
    (handleGetBlob cfg me id).Follows writeRule past := by
  simp only [handleGetBlob, follows_call_bind]
  refine ⟨writeRule_free _ rfl, ?_⟩
  intro row
  cases row with
  | none => trivial
  | some row =>
    simp only [fail_bind, follows_call_bind, follows_ite, follows_fail]
    refine ⟨writeRule_free _ rfl, fun readable => ⟨fun _ => trivial, fun _ => ?_⟩⟩
    refine ⟨writeRule_free _ rfl, fun now => ⟨writeRule_free _ rfl, fun _ => ?_⟩⟩
    refine ⟨writeRule_free _ rfl, fun bytes => ?_⟩
    cases bytes <;> trivial

theorem handleFrame_writeRule (cardBytes : AgentCard → List UInt8) (frame : ClientFrame)
    (other : ∀ room since limit wait ack, frame ≠ .pull room since limit wait ack) :
    (handleFrame cfg me fresh cardBytes frame).Follows writeRule past := by
  cases frame with
  | pull room since limit wait ack => exact absurd rfl (other room since limit wait ack)
  | send => exact handleSend_writeRule ..
  | remember => exact handleRemember_writeRule ..
  | «recall» => exact handleRecall_writeRule ..
  | getBlob => exact handleGetBlob_writeRule ..
  | invite => exact handleInvite_writeRule ..
  | serve => exact handleServe_writeRule ..
  | mintDirectoryToken =>
    simp only [handleFrame, handleMintDirectoryToken, follows_call_bind]
    refine ⟨by simp [writeRule, HubCall.writesFor], fun now => withQuota_writeRule cfg _ ?_⟩
    simp [requireTokenQuota, writeRule, HubCall.writesFor, Store.watchedRoom]
  | mintWatch =>
    simp only [handleFrame, handleMintWatch, follows_call_bind]
    refine ⟨by simp [writeRule, HubCall.writesFor], fun now => withQuota_writeRule cfg _ ?_⟩
    simp [requireTokenQuota, writeRule, HubCall.writesFor]
  | _ =>
    simp [handleFrame, handleRedeem, handleJoinRequests, handleResolveJoin, handleClaim,
      handleQueue, handleComplete, handleRegister, handleDeleteRoom, handleRoster, requireMember,
      requireServiceRoom, writeRule, HubCall.writesFor]

theorem servePutBlob_writeRule (target : Target) (sha256 : String) (size : Nat)
    (mediaType : Option String) (upload : Option (List UInt8)) :
    (servePutBlob cfg me fresh target sha256 size mediaType upload).Follows writeRule past := by
  have reserve : ∀ past, (reserveBlob cfg me fresh target size).Follows writeRule past := by
    intro past
    have rest : ∀ (f : String → Handler cfg String) past',
        (∀ room past, (f room).Follows writeRule past) →
          (resolveTarget cfg me fresh target >>= f).Follows writeRule past' :=
      fun f past' follows =>
        follows_bind_free (resolveTarget_writeRule cfg me fresh past' target) follows
    simp [reserveBlob, rest, writeRule, HubCall.writesFor]
  have reserved : ∀ past, (reserveBlob cfg me fresh target size).Ends KnowsRoom past := by
    intro past
    have rest : ∀ (f : String → Handler cfg String) past',
        (∀ room past, KnowsRoom room past → (f room).Ends KnowsRoom past) →
          (resolveTarget cfg me fresh target >>= f).Ends KnowsRoom past' :=
      fun f past' ends => ends_bind (resolveTarget_knows cfg me fresh past' target) ends
    simp +contextual [reserveBlob, rest, confirmsRoom]
  have finish : ∀ room data past, KnowsRoom room past →
      (finishBlobUpload cfg me room sha256 size mediaType data).Follows writeRule past := by
    intro room data past known
    simp [finishBlobUpload, writeRule, HubCall.writesFor, known]
  exact servePutBlob_walk cfg me fresh target sha256 size mediaType upload (writeRule_free past rfl)
    (fun past => writeRule_free past rfl) (reserve _) (reserved _) finish

end Walk

theorem frame_writeRule (cardBytes : AgentCard → List UInt8) (me : Authed) (frame : ClientFrame) (fresh : Fresh)
    (upload : Option (List UInt8)) (rounds : Nat) :
    (serve cfg cardBytes (.frame me frame fresh upload rounds)).Follows writeRule [] := by
  by_cases pulls : ∃ room since limit wait ack, frame = .pull room since limit wait ack
  · obtain ⟨room, since, limit, wait, ack, rfl⟩ := pulls
    have calls : (serve cfg cardBytes
        (.frame me (.pull room since limit wait ack) fresh upload rounds)).Calls
          (fun op : HubCall => op.writesFor = none) :=
      serve_pull_calls (Q := fun op : HubCall => op.writesFor = none) rfl (fun _ => rfl) rfl rfl
        (fun _ _ _ => rfl) (fun _ => rfl) (fun _ _ _ => ⟨rfl, rfl⟩)
    exact calls.follows (fun past op => writeRule_free past) []
  · have other : ∀ room since limit wait ack, frame ≠ .pull room since limit wait ack :=
      fun room since limit wait ack same => pulls ⟨room, since, limit, wait, ack, same⟩
    refine dispatch_follows _ _ _ _ _ _ (writeRule_free _ rfl) (fun _ => writeRule_free _ rfl) ?_ ?_ ?_
    · intro room since limit wait ack same
      exact absurd same (other _ _ _ _ _)
    · intros
      exact servePutBlob_writeRule ..
    · intros
      exact handleFrame_writeRule cfg me fresh _ cardBytes frame other

theorem serve_writeRule (cardBytes : AgentCard → List UInt8) (req : Request) :
    (serve cfg cardBytes req).Follows writeRule [] := by
  refine serve_follows (C := fun _ => writeRule) ?_ (frame_writeRule cardBytes) req
  intro req past op own
  refine writeRule_free past ?_
  cases op <;> simp [HubCall.writesFor] at own ⊢

/-! ## The law -/

/-- The room was deleted after thread `t` had last confirmed or created it. -/
def DeletedSinceConfirmed (log : List (HubEvent cfg)) (t : Nat) (room : String) : Prop :=
  ∃ newer : List (HubEvent cfg), ∃ g older, log = newer ++ g :: older ∧
    (g.thread = t ∧ confirmsRoom room ⟨g.op, g.result⟩) ∧
    (∀ e ∈ newer, ¬ (e.thread = t ∧ confirmsRoom room ⟨e.op, e.result⟩)) ∧
    ∃ e ∈ newer, DeletesRoom room e

/-- The schedules in which no request writes a row for a room that was deleted since the
    request confirmed or created it. -/
def writesLiveRoom (P : HubPool cfg) (t : Nat) (op : HubCall) : Prop :=
  ∀ room, op.writesFor = some room → ¬ DeletedSinceConfirmed P.log t room

theorem findDmRoom_hasRoom {s : Store} {a b room : String} (found : s.findDmRoom a b = some room) :
    s.hasRoom room := by
  obtain ⟨m, member, rfl⟩ := Option.map_eq_some_iff.mp found
  have selected := List.find?_some member
  simp only [decide_eq_true_eq] at selected
  obtain ⟨r, listed, both⟩ := List.any_eq_true.mp selected.2.2.1
  simp only [decide_eq_true_eq] at both
  exact ⟨r, listed, both.1⟩

/-- What a request confirmed was so. -/
theorem confirmed_hasRoom {e : HubEvent cfg} {room : String} (exist : e.before.store.RoomsExist)
    (confirms : confirmsRoom room ⟨e.op, e.result⟩) : e.after.store.hasRoom room := by
  obtain ⟨t, op, h⟩ := e
  cases op with
  | isMember room' agent =>
    obtain ⟨rfl, member⟩ := confirms
    obtain ⟨row, found⟩ := Store.isMember_iff.mp member
    have key := Prod.mk.inj (rowOf_mem found).2
    exact exist room' .members ⟨row, (rowOf_mem found).1, key.1⟩
  | roomKind room' =>
    obtain ⟨rfl, some⟩ := confirms
    have some : (h.store.roomKind room').isSome = true := some
    rw [Store.roomKind, Option.isSome_map] at some
    obtain ⟨row, found⟩ := Option.isSome_iff_exists.mp some
    exact ⟨row, List.mem_of_find?_eq_some found, by simpa using List.find?_some found⟩
  | ensureRoom room' kind now =>
    obtain rfl : room' = room := confirms
    exact Store.hasRoom_ensureRoom h.store room' kind none now
  | findDmRoom a b => exact findDmRoom_hasRoom confirms
  | _ => exact confirms.elim

/-- The step: a request that writes for a live room, writes for an existing one. -/
theorem writes_hasRoom {cardBytes : AgentCard → List UInt8} {inflight : Nat} {P : HubPool cfg}
    (reach : Pool.Reachable (serve cfg cardBytes) writesLiveRoom (.boot inflight) P)
    (past : ∀ e ∈ P.log, e.before.store.RoomsExist) {t : Nat} {req : Request} {op : HubCall}
    {next : op.Res → Prog (hubMachine cfg) (List ServerFrame)}
    (pending : P.threads t = some (req, .call op next)) (allowed : writesLiveRoom P t op)
    {room : String} (writes : op.writesFor = some room) : P.state.store.hasRoom room := by
  have knows := (reach.follows (serve_writeRule cardBytes) pending).1 room writes
  obtain ⟨d, recorded, confirms⟩ := knows
  obtain ⟨g, logged, own, rfl⟩ := Pool.ownPast_event recorded
  obtain ⟨newer, g, older, split, confirms, later⟩ := exists_newest
    (p := fun e : HubEvent cfg => e.thread = t ∧ confirmsRoom room ⟨e.op, e.result⟩)
    ⟨g, logged, own, confirms⟩
  refine reach.since (J := fun h => h.store.hasRoom room) split
    (confirmed_hasRoom (past g (by simp [split])) confirms.2) ?_
  intro e member before
  refine hasRoom_after before ?_
  intro deletes
  exact allowed room writes ⟨newer, g, older, split, confirms, later, e, member, deletes⟩

/-- The run lemma behind `rooms_exist_unless_deleted`. -/
theorem roomsExist_run {cardBytes : AgentCard → List UInt8} {inflight : Nat}
    {P : HubPool cfg}
    (reach : Pool.Reachable (serve cfg cardBytes) writesLiveRoom (.boot inflight) P) :
    P.state.store.RoomsExist ∧ ∀ e ∈ P.log, e.before.store.RoomsExist := by
  refine Pool.Reachable.induct (I := fun P =>
    P.state.store.RoomsExist ∧ ∀ e ∈ P.log, e.before.store.RoomsExist) ?_ ?_ reach
  · refine ⟨?_, by simp⟩
    intro room table named
    cases table <;> simp [Store.NamesIn, HubState.boot, Store.empty] at named
  · rintro P Q reach ⟨now, past⟩ step
    cases step with
    | spawn t req free => exact ⟨now, past⟩
    | exec t req op next pending enabled allowed =>
      refine ⟨?_, ?_⟩
      · refine roomsExist_exec (e := ⟨t, op, P.state⟩) now ?_
        intro room writes
        exact writes_hasRoom reach past pending allowed writes
      · intro e member
        rcases List.mem_cons.mp member with rfl | old
        · exact now
        · exact past e old

/-- In every run in which no request writes a row for a room that was deleted since the request
    confirmed or created it, every row names an existing room, in every state the run passed
    through; and when a room is created, no row names it. -/
theorem rooms_exist_unless_deleted {cardBytes : AgentCard → List UInt8} {inflight : Nat}
    {P : HubPool cfg}
    (reach : Pool.Reachable (serve cfg cardBytes) writesLiveRoom (.boot inflight) P) :
    P.state.store.RoomsExist ∧ (∀ e ∈ P.log, e.before.store.RoomsExist) ∧
      ∀ e ∈ P.log, ∀ room kind now, e.op = .ensureRoom room kind now →
        ¬ e.before.store.hasRoom room → ∀ table, ¬ e.after.store.NamesIn room table := by
  obtain ⟨now, past⟩ := roomsExist_run reach
  refine ⟨now, past, ?_⟩
  intro e logged room kind ts creates absent table named
  obtain ⟨t, op, h⟩ := e
  cases creates
  have unwritten : table ≠ .rooms := by
    rintro rfl
    exact named
  have before := Store.namesIn_same (exec_same cfg (.ensureRoom room kind ts) h table
    (by simpa [HubCall.writes] using unwritten)) named
  exact absent (past _ logged room table before)

/-- Alice opens a room and posts in it. -/
def integrityDemo : DemoPool :=
  demoPlay [demoFrame 1 alice (.invite .channel (some "r") none none false),
    demoFrame 2 alice (.send (.room "r") [.text "hello"] none none none)]

theorem rooms_exist_unless_deleted_demo :
    integrityDemo.state.store.NamesIn "r" .messages ∧ integrityDemo.state.store.RoomsExist := by
  have reach : Pool.Reachable demoServe writesLiveRoom demoHub integrityDemo := by
    have none : ∀ e ∈ integrityDemo.log, deletedRoom e.op = none := by decide +kernel
    refine (demoPlay_reachable _).restrict ?_
    rintro P t op newer past room - ⟨newer', g, older, split, -, -, e, later, owner, deletes, -⟩
    have logged : e ∈ integrityDemo.log := by
      unfold integrityDemo
      rw [past, split]
      simp [later]
    have absent := none e logged
    rw [deletes] at absent
    cases absent
  refine ⟨?_, (rooms_exist_unless_deleted reach).1⟩
  show ∃ r ∈ integrityDemo.state.store.messages, r.room = "r"
  decide +kernel

/-- Alice's message has passed every check when her other connection deletes the room. -/
def overtakenSend : DemoPool :=
  (Pool.start demoHub).play demoServe
    (demoActions 0 [demoFrame 1 alice (.invite .channel (some "r") none none false)] ++
      Pool.Action.spawn 1 (demoFrame 2 alice (.send (.room "r") [.text "late"] none none none)) ::
        List.replicate 8 (Pool.Action.step 1) ++
      demoActions 2 [demoFrame 3 alice (.deleteRoom "r")] ++ [Pool.Action.step 1])

/-- A run of the hub leaves a message of a room that does not exist. -/
theorem overtaken_send_names_no_room :
    ∃ P : DemoPool, Pool.Reachable demoServe Pool.anySchedule demoHub P ∧
      ¬ P.state.store.RoomsExist := by
  refine ⟨overtakenSend, Pool.play_reachable _ _ _, ?_⟩
  intro exist
  have named : ∃ r ∈ overtakenSend.state.store.messages, r.room = "r" := by decide +kernel
  have missing : ∀ r ∈ overtakenSend.state.store.rooms, r.name ≠ "r" := by decide +kernel
  obtain ⟨r, listed, same⟩ := exist "r" .messages named
  exact missing r listed same

end Parler.Hub
