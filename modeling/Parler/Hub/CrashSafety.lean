import Parler.Hub.Demo
import Parler.Hub.Specs

/-!
# Interrupted appends

`append_message` writes the message and then one dispatch row for each role, by
statements that commit one at a time. Here the append stops at any of these
points and the client retries it with the same `client_id`. The retry finds the
message and returns it as a replay, so it completes nothing: the rows are those of
an uninterrupted append exactly when the append had stopped before its first
statement or after a row for every role was in. The `INSERT` of a replay still
uses up a `seq`, so the next message is numbered one higher.
-/

namespace Parler.Hub

open Parler.Lib Parler.Protocol

/-- Where an append stops: before the message `INSERT` commits, or after it and the
    first `k` dispatch `INSERT`s. -/
inductive StopPoint where
  | beforeInsert
  | afterDispatches (k : Nat)
  deriving DecidableEq

/-- The client's second attempt: the same frame, with the id and the time of the retry. -/
def NewMessage.retry (m : NewMessage) (id : String) (ts : Int) : NewMessage :=
  { m with id := id, ts := ts }

namespace Store

variable (s : Store)

/-- The state in which an append stops. -/
def stoppedAppend (m : NewMessage) : StopPoint → Store
  | .beforeInsert => s
  | .afterDispatches k =>
      (s.insertMessage m).insertDispatches m.room m.id (s.messageSeq + 1) (m.roles.take k)

/-- The rows of a send: same room, author and client id. -/
def sendRows (m : NewMessage) : List MessageRow :=
  s.messages.filter (fun r =>
    r.room = m.room ∧ r.author = m.sender.id ∧ r.clientId = m.clientId)

/-- The claimable dispatch rows of a role. -/
def claimableRows (room role : String) (now : Int) : List DispatchRow :=
  s.serviceDispatches.filter (fun d => d.room = room ∧
    toAsciiLowercase d.role = toAsciiLowercase role ∧ s.claimable room d.message now)

/-- Every available worker of the role is shown the message, on a page that holds the
    role's claimable rows. -/
def Listed (room message role : String) : Prop :=
  ∀ worker served limit now, s.servedRole room worker = some served →
    eqIgnoreAsciiCase served role → s.available worker now →
    (s.claimableRows room role now).length ≤ min (limit.getD 50) 200 →
      ∃ m ∈ s.queuedServiceMessages room worker role limit now, m.id = message

/-- A message id that was just drawn. -/
structure FreshId (id : String) : Prop where
  messages : ∀ r ∈ s.messages, r.id ≠ id
  dispatches : ∀ d ∈ s.serviceDispatches, d.message ≠ id
  claims : ∀ c ∈ s.serviceClaims, c.message ≠ id

/-- The two states have the same rows in every table. -/
def SameRows (s' : Store) : Prop := { s with messageSeq := s'.messageSeq } = s'

/-- The send is accepted as if nothing had happened: the retry succeeds, its rows are those
    that an uninterrupted attempt leaves, the message exists once, and it is listed for every
    role it dispatches to. -/
def Accepted (m retry : NewMessage) (stop : StopPoint) : Prop :=
  ∃ out final, (s.stoppedAppend m stop).appendMessage retry = .ok (out, final) ∧
    (∃ attempt out' uninterrupted, (attempt = m ∨ attempt = retry) ∧
      s.appendMessage attempt = .ok (out', uninterrupted) ∧ final.SameRows uninterrupted) ∧
    (final.sendRows m).length = 1 ∧ ∀ role ∈ m.roles, final.Listed m.room out.id role

end Store

/-! ## Dispatch rows -/

namespace Store

variable {s : Store} {room message : String} {seq : Int}

theorem insertDispatches_append (roles roles' : List String) :
    s.insertDispatches room message seq (roles ++ roles') =
      (s.insertDispatches room message seq roles).insertDispatches room message seq roles' :=
  List.foldl_append ..

theorem mem_insertDispatches {roles : List String} {d : DispatchRow} :
    d ∈ (s.insertDispatches room message seq roles).serviceDispatches →
      d ∈ s.serviceDispatches ∨ ∃ role ∈ roles, d = ⟨room, message, role, seq⟩ := by
  induction roles generalizing s with
  | nil => exact Or.inl
  | cons role roles ih =>
    intro member
    rcases ih (s := s.insertDispatch room message seq role) member with old | ⟨role', later, rfl⟩
    · rcases mem_of_mem_insertNew old with old | rfl
      · exact Or.inl old
      · exact Or.inr ⟨role, by simp, rfl⟩
    · exact Or.inr ⟨role', by simp [later], rfl⟩

theorem mem_insertDispatches_of_mem {roles : List String} {d : DispatchRow}
    (member : d ∈ s.serviceDispatches) :
    d ∈ (s.insertDispatches room message seq roles).serviceDispatches := by
  induction roles generalizing s with
  | nil => exact member
  | cons role roles ih =>
    exact ih (s := s.insertDispatch room message seq role) (mem_insertNew_of_mem member)

/-- Every role has its row in the end. -/
theorem insertDispatches_has (room message : String) (seq : Int) {roles : List String}
    {role : String} (listed : role ∈ roles) :
    ∃ d ∈ (s.insertDispatches room message seq roles).serviceDispatches,
      dispatchKey d = (room, message, role) := by
  induction roles generalizing s with
  | nil => simp at listed
  | cons first roles ih =>
    rcases List.mem_cons.mp listed with rfl | later
    · obtain ⟨d, member, key⟩ := exists_key_insertNew dispatchKey ⟨room, message, role, seq⟩
        s.serviceDispatches
      exact ⟨d, mem_insertDispatches_of_mem (s := s.insertDispatch room message seq role) member,
        key⟩
    · exact ih (s := s.insertDispatch room message seq first) later

/-- A second insert for the same role does nothing. -/
theorem insertDispatches_known {roles : List String}
    (known : ∀ role ∈ roles, ∃ d ∈ s.serviceDispatches, dispatchKey d = (room, message, role)) :
    s.insertDispatches room message seq roles = s := by
  induction roles with
  | nil => rfl
  | cons role roles ih =>
    have same : s.insertDispatch room message seq role = s := by
      have present : ∃ d ∈ s.serviceDispatches,
          dispatchKey d = dispatchKey ⟨room, message, role, seq⟩ := known role (by simp)
      simp only [insertDispatch, insertNew, if_pos present]
    have rest := ih (fun role' later => known role' (by simp [later]))
    show (s.insertDispatch room message seq role).insertDispatches room message seq roles = s
    rw [same]
    exact rest

/-- A used-up `seq` leaves what is listed. -/
theorem Listed.skipSeq {role : String} (listed : s.Listed room message role) :
    s.skipSeq.Listed room message role := listed

theorem sameRows_skipSeq (s : Store) : s.skipSeq.SameRows s := rfl

theorem SameRows.rows {s' : Store} (same : s.SameRows s') :
    s.messages = s'.messages ∧ s.serviceDispatches = s'.serviceDispatches := by
  unfold SameRows at same
  rw [← same]
  exact ⟨rfl, rfl⟩

/-- A dispatched message without a claim is listed. -/
theorem listed_of_row {role : String} {d : DispatchRow} (dispatched : d ∈ s.serviceDispatches)
    (key : dispatchKey d = (room, message, role))
    (stored : ∃ r ∈ s.messages, r.id = message ∧ r.room = room)
    (unclaimed : ∀ c ∈ s.serviceClaims, c.message ≠ message) : s.Listed room message role := by
  intro worker served limit now serves same available fits
  obtain ⟨droom, dmessage, drole, dseq⟩ := d
  obtain ⟨rfl, rfl, rfl⟩ : droom = room ∧ dmessage = message ∧ drole = role := by
    simpa [dispatchKey] using key
  have claimable : s.claimable droom dmessage now := by
    have none : s.serviceClaims.find? (fun c => c.room = droom ∧ c.message = dmessage) = none := by
      rw [List.find?_eq_none]
      intro c member both
      simp only [decide_eq_true_eq] at both
      exact unclaimed c member both.2
    unfold Store.claimable
    rw [none]
  have row : (⟨droom, dmessage, drole, dseq⟩ : DispatchRow) ∈ s.claimableRows droom drole now :=
    List.mem_filter.mpr ⟨dispatched, by simp [claimable]⟩
  obtain ⟨r, rmember, rid, rroom⟩ := stored
  obtain ⟨found, isFound⟩ : ∃ m, s.messages.find?
      (fun m => m.id = dmessage ∧ m.room = droom) = some m :=
    Option.isSome_iff_exists.mp (List.find?_isSome.mpr ⟨r, rmember, by simp [rid, rroom]⟩)
  have foundId : found.id = dmessage := by
    have both := List.find?_some isFound
    simp only [decide_eq_true_eq] at both
    exact both.1
  refine ⟨found.toStored, ?_, foundId⟩
  simp only [queuedServiceMessages, serves, same, available, Bool.not_true, Bool.false_eq_true,
    if_false]
  refine List.mem_map.mpr ⟨found, ?_, rfl⟩
  rw [List.take_of_length_le]
  · exact List.mem_filterMap.mpr
      ⟨_, (List.mem_insertionSort _).mpr row, isFound⟩
  · refine (List.length_filterMap_le _ _).trans ?_
    rw [List.length_insertionSort]
    exact fits

end Store

/-! ## The append and its retry -/

section Retry

variable {s : Store} {m : NewMessage} {id : String} {ts : Int}

/-- The state an uninterrupted append leaves. -/
def Store.appended (s : Store) (attempt : NewMessage) : Store :=
  (s.insertMessage attempt).insertDispatches attempt.room attempt.id (s.messageSeq + 1)
    attempt.roles

theorem appendMessage_new (attempt : NewMessage) (new : s.original attempt = none)
    (fresh : s.FreshId attempt.id) :
    s.appendMessage attempt =
      .ok (⟨attempt.id, s.messageSeq + 1, estimateMessageTokens attempt.parts, false⟩,
        s.appended attempt) := by
  have absent : ¬ ∃ r ∈ s.messages, r.id = attempt.id := by
    rintro ⟨r, member, same⟩
    exact fresh.messages r member same
  simp [Store.appendMessage, Store.appended, new, absent]

theorem insertDispatches_messages (room message : String) (seq : Int) (roles : List String) :
    (s.insertDispatches room message seq roles).messages = s.messages := by
  obtain ⟨rows, equal⟩ := Store.insertDispatches_eq (s := s) room message seq roles
  rw [equal]

theorem insertDispatches_claims (room message : String) (seq : Int) (roles : List String) :
    (s.insertDispatches room message seq roles).serviceClaims = s.serviceClaims := by
  obtain ⟨rows, equal⟩ := Store.insertDispatches_eq (s := s) room message seq roles
  rw [equal]

theorem original_eq_none (client : m.clientId.isSome) (new : s.original m = none) :
    s.sendRows m = [] := by
  obtain ⟨c, is⟩ := Option.isSome_iff_exists.mp client
  simp only [Store.original, is, List.find?_eq_none] at new
  unfold Store.sendRows
  rw [List.filter_eq_nil_iff]
  intro r member
  rw [is]
  exact new r member

theorem original_stopped (client : m.clientId.isSome) (new : s.original m = none) (k : Nat) :
    (s.stoppedAppend m (.afterDispatches k)).original (m.retry id ts) =
      some (m.toRow (s.messageSeq + 1)) := by
  have empty := original_eq_none client new
  obtain ⟨c, is⟩ := Option.isSome_iff_exists.mp client
  have absent : s.messages.find? (fun r =>
      r.room = m.room ∧ r.author = m.sender.id ∧ r.clientId = some c) = none := by
    rw [List.find?_eq_none, ← is]
    exact List.filter_eq_nil_iff.mp empty
  have client : (m.retry id ts).clientId = some c := is
  simp only [Store.original, client, Store.stoppedAppend, insertDispatches_messages,
    Store.insertMessage, List.find?_append]
  show (s.messages.find? (fun r =>
    r.room = m.room ∧ r.author = m.sender.id ∧ r.clientId = some c)).or _ = _
  rw [absent]
  simp [NewMessage.toRow, NewMessage.retry, is]

/-- The retry of an append that had inserted its message is answered as a replay. -/
theorem retry_replays (client : m.clientId.isSome) (new : s.original m = none) (k : Nat) :
    (s.stoppedAppend m (.afterDispatches k)).appendMessage (m.retry id ts) =
      .ok (⟨m.id, s.messageSeq + 1, 0, true⟩,
        (s.stoppedAppend m (.afterDispatches k)).skipSeq) := by
  unfold Store.appendMessage
  rw [original_stopped client new k]
  rfl

theorem appended_sendRows (id : String) (ts : Int) (client : m.clientId.isSome) (new : s.original m = none)
    {attempt : NewMessage} (same : attempt = m ∨ attempt = m.retry id ts) :
    ((s.appended attempt).sendRows m).length = 1 := by
  have key : attempt.room = m.room ∧ attempt.sender = m.sender ∧ attempt.clientId = m.clientId := by
    rcases same with rfl | rfl <;> exact ⟨rfl, rfl, rfl⟩
  have empty := original_eq_none client new
  unfold Store.sendRows at empty ⊢
  unfold Store.appended
  rw [insertDispatches_messages]
  simp only [Store.insertMessage, List.filter_append, empty]
  simp [NewMessage.toRow, key]

theorem appended_listed (attempt : NewMessage) (fresh : s.FreshId attempt.id) {role : String}
    (listed : role ∈ attempt.roles) :
    (s.appended attempt).Listed attempt.room attempt.id role := by
  obtain ⟨d, dispatched, key⟩ := Store.insertDispatches_has (s := s.insertMessage attempt)
    attempt.room attempt.id (s.messageSeq + 1) listed
  refine Store.listed_of_row dispatched key ?_ ?_
  · unfold Store.appended
    rw [insertDispatches_messages]
    exact ⟨attempt.toRow (s.messageSeq + 1), by simp [Store.insertMessage], rfl, rfl⟩
  · unfold Store.appended
    rw [insertDispatches_claims]
    exact fresh.claims

/-- With a row for every role, the stopped append had nothing left to do. -/
theorem stopped_complete {k : Nat} (complete : ∀ role ∈ m.roles, role ∈ m.roles.take k) :
    s.stoppedAppend m (.afterDispatches k) = s.appended m := by
  have rest : ∀ role ∈ m.roles.drop k, ∃ d ∈ (s.stoppedAppend m
      (.afterDispatches k)).serviceDispatches, Store.dispatchKey d = (m.room, m.id, role) :=
    fun role later => Store.insertDispatches_has _ _ _ (complete role (List.mem_of_mem_drop later))
  have split : s.appended m = (s.stoppedAppend m (.afterDispatches k)).insertDispatches m.room m.id
      (s.messageSeq + 1) (m.roles.drop k) := by
    unfold Store.appended Store.stoppedAppend
    rw [← Store.insertDispatches_append, List.take_append_drop]
  rw [split]
  exact (Store.insertDispatches_known rest).symm

/-- A stopped append that left the uninterrupted dispatches had a row for every role. -/
theorem complete_of_stopped (fresh : s.FreshId m.id) {k : Nat}
    (same : (s.stoppedAppend m (.afterDispatches k)).serviceDispatches =
      (s.appended m).serviceDispatches) :
    ∀ role ∈ m.roles, role ∈ m.roles.take k := by
  intro role listed
  obtain ⟨d, dispatched, key⟩ := Store.insertDispatches_has (s := s.insertMessage m)
    m.room m.id (s.messageSeq + 1) listed
  have dispatched : d ∈ (s.stoppedAppend m (.afterDispatches k)).serviceDispatches := by
    rw [same]
    exact dispatched
  rcases Store.mem_insertDispatches dispatched with old | ⟨role', inserted, rfl⟩
  · have message : d.message = m.id := (Prod.mk.inj (Prod.mk.inj key).2).1
    exact absurd message (fresh.dispatches d old)
  · have equal : role' = role := (Prod.mk.inj (Prod.mk.inj key).2).2
    exact equal ▸ inserted

/-- An accepted send had stopped early or completely. -/
theorem accepted_complete (client : m.clientId.isSome) (new : s.original m = none)
    (fresh : s.FreshId m.id) (freshRetry : s.FreshId id) (distinct : id ≠ m.id) {k : Nat}
    (accepted : s.Accepted m (m.retry id ts) (.afterDispatches k)) :
    ∀ role ∈ m.roles, role ∈ m.roles.take k := by
  obtain ⟨out, final, retried, ⟨attempt, out', left, which, uninterrupted, rows⟩, -, -⟩ := accepted
  rw [retry_replays client new k] at retried
  obtain ⟨-, rfl⟩ := Prod.mk.inj (Except.ok.inj retried)
  rcases which with same | same
  · rw [same, appendMessage_new m new fresh] at uninterrupted
    obtain ⟨-, rfl⟩ := Prod.mk.inj (Except.ok.inj uninterrupted)
    exact complete_of_stopped fresh rows.rows.2
  · -- The retry's own append would have stored the message under its id.
    rw [same, appendMessage_new (m.retry id ts) new freshRetry] at uninterrupted
    obtain ⟨-, rfl⟩ := Prod.mk.inj (Except.ok.inj uninterrupted)
    have messages : (s.stoppedAppend m (.afterDispatches k)).messages =
        (s.appended (m.retry id ts)).messages := rows.rows.1
    simp only [Store.appended, Store.stoppedAppend, insertDispatches_messages,
      Store.insertMessage, List.append_cancel_left_eq, List.cons.injEq, and_true] at messages
    exact absurd (congrArg MessageRow.id messages).symm distinct

theorem appended_messageSeq (s : Store) (attempt : NewMessage) :
    (s.appended attempt).messageSeq = s.messageSeq + 1 := by
  obtain ⟨rows, equal⟩ := Store.insertDispatches_eq (s := s.insertMessage attempt) attempt.room
    attempt.id (s.messageSeq + 1) attempt.roles
  rw [Store.appended, equal]
  rfl

/-- A retry draws a `seq` of its own, whether it inserts the message or finds it. -/
theorem retry_messageSeq (client : m.clientId.isSome) (new : s.original m = none)
    (freshRetry : s.FreshId id) (stop : StopPoint) {out : AppendOutcome} {final : Store}
    (retried : (s.stoppedAppend m stop).appendMessage (m.retry id ts) = .ok (out, final)) :
    final.messageSeq = (s.stoppedAppend m stop).messageSeq + 1 := by
  cases stop with
  | beforeInsert =>
    rw [Store.stoppedAppend, appendMessage_new (m.retry id ts) new freshRetry] at retried
    obtain ⟨-, rfl⟩ := Prod.mk.inj (Except.ok.inj retried)
    exact appended_messageSeq s _
  | afterDispatches k =>
    rw [retry_replays client new k] at retried
    obtain ⟨-, rfl⟩ := Prod.mk.inj (Except.ok.inj retried)
    rfl

/-- After an append that stopped anywhere and the retry with the same client id, the send is
    accepted as if uninterrupted exactly when the append had stopped before the message
    `INSERT`, or after a dispatch row for every role of the message was in. Besides the rows
    the retry uses up one `seq`, a replay too. -/
theorem append_retry_accepted_iff (client : m.clientId.isSome) (new : s.original m = none)
    (fresh : s.FreshId m.id) (freshRetry : s.FreshId id) (distinct : id ≠ m.id)
    (stop : StopPoint) :
    (s.Accepted m (m.retry id ts) stop ↔
      stop = .beforeInsert ∨
        ∃ k, stop = .afterDispatches k ∧ ∀ role ∈ m.roles, role ∈ m.roles.take k) ∧
    ∀ out final, (s.stoppedAppend m stop).appendMessage (m.retry id ts) = .ok (out, final) →
      final.messageSeq = (s.stoppedAppend m stop).messageSeq + 1 := by
  refine ⟨⟨?_, ?_⟩, fun out final => retry_messageSeq client new freshRetry stop⟩
  · intro accepted
    cases stop with
    | beforeInsert => exact Or.inl rfl
    | afterDispatches k =>
      exact Or.inr ⟨k, rfl, accepted_complete client new fresh freshRetry distinct accepted⟩
  · rintro (rfl | ⟨k, rfl, complete⟩)
    · have full := appendMessage_new (m.retry id ts) new freshRetry
      refine ⟨_, _, full, ⟨m.retry id ts, _, _, Or.inr rfl, full, rfl⟩,
        appended_sendRows id ts client new (Or.inr rfl), ?_⟩
      intro role listed
      exact appended_listed (m.retry id ts) freshRetry listed
    · have full := appendMessage_new m new fresh
      rw [← stopped_complete complete] at full
      refine ⟨_, _, retry_replays client new k,
        ⟨m, _, _, Or.inl rfl, full, Store.sameRows_skipSeq _⟩, ?_, ?_⟩
      · rw [stopped_complete complete]
        exact appended_sendRows id ts client new (Or.inl rfl)
      · intro role listed
        rw [stopped_complete complete]
        exact (appended_listed m fresh listed).skipSeq

end Retry

/-- Alice serves the role `review`. -/
def reviewStore : Store :=
  (demoPlay [.welcome alice, demoFrame 1 alice (.serve "review")]).state.store

/-- A keyed send that dispatches to it. -/
def reviewRequest : NewMessage :=
  ⟨"m2", "svc.review", ⟨"B", "bob", none⟩, [.text "please", dispatchPart "review"], none, none,
    some "k1", 0⟩

theorem reviewStore_fresh (id : String) : reviewStore.FreshId id := by
  have none : reviewStore.messages = [] ∧ reviewStore.serviceDispatches = [] ∧
      reviewStore.serviceClaims = [] := by decide +kernel
  constructor <;> simp [none]

theorem append_retry_accepted_iff_demo :
    reviewRequest.roles = ["review"] ∧
      reviewStore.Accepted reviewRequest (reviewRequest.retry "m3" 5) (.afterDispatches 1) :=
  ⟨by decide +kernel, (append_retry_accepted_iff rfl (by decide +kernel) (reviewStore_fresh _)
    (reviewStore_fresh _) (by decide) (.afterDispatches 1)).1.mpr
      (Or.inr ⟨1, rfl, by decide +kernel⟩)⟩

/-- An append that stops right after its message loses the dispatch for good. -/
theorem stopped_append_loses_dispatch :
    ¬ reviewStore.Accepted reviewRequest (reviewRequest.retry "m3" 5) (.afterDispatches 0) := by
  intro accepted
  have complete := accepted_complete rfl (by decide +kernel) (reviewStore_fresh _)
    (reviewStore_fresh _) (by decide) accepted
  have dispatched : "review" ∈ reviewRequest.roles := by decide +kernel
  exact absurd (complete "review" dispatched) (by simp)

end Parler.Hub
