import Parler.Hub.DirectMessages
import Parler.Hub.ReadIsolation
import Parler.Protocol.Signature

/-!
# Where stored messages come from

Every stored message was appended by a request that carried a `Send` frame: with the
parts and the reply of the frame, under the id of the authenticated caller, in the room
that the target of the frame resolves to. What a pull returns and what a push carries are
such messages.
-/

namespace Parler.Hub

open Parler.Lib Parler.Protocol Handler

variable {cfg : HubConfig}

/-! ## Appends -/

/-- A call that appends no message. -/
@[simp]
def HubCall.quiet : HubCall → Prop
  | .appendMessage _ => False
  | _ => True

/-- The room a target resolves to, given what the request looked up. -/
def ResolvesTo (me : Authed) (suffix room : String) (past : List (HubDone cfg)) : Target → Prop
  | .room r => room = r
  | .service service => room = "svc." ++ token service
  | .dm agent => room = "dm." ++ suffix ∨ ⟨.findDmRoom me.id agent, some room⟩ ∈ past

/-- A request appends only what its `Send` frame says. -/
def appendRule (req : Request) (past : List (HubDone cfg)) : HubCall → Prop
  | .appendMessage m =>
      ∃ me target mentions clientId fresh upload rounds,
        req = .frame me (.send target m.parts mentions m.replyTo clientId) fresh upload rounds ∧
        m.sender.id = me.id ∧ ResolvesTo me fresh.suffix m.room past target
  | _ => True

theorem appendRule_quiet (req : Request) (past : List (HubDone cfg)) (op : HubCall)
    (quiet : op.quiet) : appendRule req past op := by
  cases op with
  | appendMessage m => exact quiet.elim
  | _ => trivial

section Handlers

variable (cfg) (me : Authed) (fresh : Fresh)

theorem resolveTarget_quiet (target : Target) :
    (resolveTarget cfg me fresh target).Calls HubCall.quiet := by
  cases target with
  | room room => simp [resolveTarget, requireMember]
  | dm agent =>
    simp only [resolveTarget, calls_call_bind]
    refine ⟨trivial, ?_⟩
    intro shared
    cases shared with
    | some room => simp
    | none =>
      simp only [calls_call_bind]
      refine ⟨trivial, ?_⟩
      intro visibility
      cases visibility <;> simp
  | service service => simp [resolveTarget]

/-- The room of a resolved target is the one its rule names. -/
theorem resolveTarget_ends (target : Target) (past : List (HubDone cfg)) :
    (resolveTarget cfg me fresh target).Ends
      (fun room past => ResolvesTo me fresh.suffix room past target) past := by
  cases target with
  | room room => simp [resolveTarget, requireMember, ResolvesTo]
  | dm agent =>
    simp only [resolveTarget, ends_call_bind]
    intro shared
    cases shared with
    | some room => simp [ResolvesTo]
    | none =>
      simp only [ends_call_bind]
      intro visibility
      cases visibility <;> simp [ResolvesTo]
  | service service => simp [resolveTarget, ResolvesTo]

variable {me fresh} in
theorem ResolvesTo.cons {suffix room : String} {past : List (HubDone cfg)} {target : Target}
    (d : HubDone cfg) (resolved : ResolvesTo me suffix room past target) :
    ResolvesTo me suffix room (d :: past) target := by
  cases target with
  | room r => exact resolved
  | service service => exact resolved
  | dm agent => exact resolved.imp id (List.mem_cons_of_mem _)

theorem handleSend_appends (target : Target) (parts : List Part) (mentions : Option (List String))
    (replyTo clientId : Option String) (upload : Option (List UInt8)) (rounds : Nat)
    (past : List (HubDone cfg)) :
    (handleSend cfg me fresh target parts mentions replyTo clientId).Follows
      (appendRule (.frame me (.send target parts mentions replyTo clientId) fresh upload rounds))
      past := by
  unfold handleSend
  simp only [follows_call_bind, fail_bind, follows_ite, follows_fail]
  refine ⟨trivial, fun clock => ⟨trivial, fun allowed => ⟨fun _ => trivial, fun _ => ?_⟩⟩⟩
  refine ⟨fun _ => trivial, fun _ => ?_⟩
  refine follows_bind ((resolveTarget_quiet cfg me fresh target).follows (appendRule_quiet _) _)
    (resolveTarget_ends cfg me fresh target _) ?_
  intro room past resolved
  simp only [follows_call_bind, follows_ite, follows_fail, follows_check_bind]
  refine ⟨trivial, fun clock => ⟨trivial, fun allowed => ⟨fun _ => trivial, fun _ => ?_⟩⟩⟩
  refine ⟨trivial, fun now => ⟨?_, fun stored out ok => ?_⟩⟩
  · exact ⟨me, target, mentions, clientId, fresh, upload, rounds, rfl, rfl,
      ((resolved.cons cfg _).cons cfg _).cons cfg _⟩
  · simp [fanout, appendRule]

theorem handleFrame_quiet (cardBytes : AgentCard → List UInt8) (frame : ClientFrame)
    (pull : ∀ room since limit wait ack, frame ≠ .pull room since limit wait ack)
    (send : ∀ target parts mentions replyTo clientId,
      frame ≠ .send target parts mentions replyTo clientId) :
    (handleFrame cfg me fresh cardBytes frame).Calls HubCall.quiet := by
  have quota : ∀ {α : Type} {p : Handler cfg α}, p.Calls HubCall.quiet →
      (withQuota p).Calls HubCall.quiet := fun body => calls_withQuota trivial trivial body
  cases frame with
  | pull room since limit wait ack => exact absurd rfl (pull room since limit wait ack)
  | send target parts mentions replyTo clientId => exact absurd rfl (send _ _ _ _ _)
  | remember fact embedding model =>
    have keyed : ∀ {α β : Type} {p : Handler cfg α} {f : α → Handler cfg β},
        p.Calls HubCall.quiet → (∀ a, (f a).Calls HubCall.quiet) →
        (withQuota p >>= f).Calls HubCall.quiet :=
      fun body rest => calls_bind (quota body) rest
    simp only [handleFrame, handleRemember]
    cases fact.room <;> cases fact.key <;> simp [requireMember, keyed]
  | «recall» query room limit embedding key =>
    simp only [handleFrame, handleRecall]
    generalize Option.filter (fun k => !k.isEmpty) key = wanted
    cases room <;> cases wanted <;> simp [requireMember]
  | getBlob id =>
    simp only [handleFrame, handleGetBlob, calls_call_bind]
    refine ⟨trivial, ?_⟩
    intro row
    cases row with
    | none => simp
    | some row =>
      simp only [fail_bind, calls_call_bind, calls_ite, calls_fail]
      refine ⟨trivial, fun readable => ⟨fun _ => trivial, fun _ => ?_⟩⟩
      refine ⟨trivial, fun now => ⟨trivial, fun _ => ⟨trivial, fun bytes => ?_⟩⟩⟩
      cases bytes <;> simp
  | _ =>
    simp [handleFrame, handleInvite, handleRedeem, handleJoinRequests, handleResolveJoin,
      handleServe, handleClaim, handleQueue, handleComplete, handleRegister,
      handleMintDirectoryToken, handleMintWatch, handleDeleteRoom, handleRoster, requireMember,
      requireServiceRoom, requireRoomQuota, requireTokenQuota, quota]

theorem servePutBlob_quiet (target : Target) (sha256 : String) (size : Nat)
    (mediaType : Option String) (upload : Option (List UInt8)) (past : List (HubDone cfg))
    (req : Request) :
    (servePutBlob cfg me fresh target sha256 size mediaType upload).Follows (appendRule req) past := by
  have reserve : (reserveBlob cfg me fresh target size).Calls HubCall.quiet := by
    have rest : ∀ (f : String → Handler cfg String), (∀ room, (f room).Calls HubCall.quiet) →
        (resolveTarget cfg me fresh target >>= f).Calls HubCall.quiet :=
      fun f calls => calls_bind (resolveTarget_quiet cfg me fresh target) calls
    simp [reserveBlob, rest]
  have finish : ∀ room data,
      (finishBlobUpload cfg me room sha256 size mediaType data).Calls HubCall.quiet := by
    intro room data
    simp [finishBlobUpload]
  exact (servePutBlob_calls cfg me fresh target sha256 size mediaType upload trivial trivial reserve
    finish).follows (appendRule_quiet req) past

end Handlers

/-- A request appends only what its `Send` frame says. -/
theorem frame_appends (cardBytes : AgentCard → List UInt8) (me : Authed) (frame : ClientFrame) (fresh : Fresh)
    (upload : Option (List UInt8)) (rounds : Nat) :
    (serve cfg cardBytes (.frame me frame fresh upload rounds)).Follows
      (appendRule (.frame me frame fresh upload rounds)) [] := by
  by_cases pulls : ∃ room since limit wait ack, frame = .pull room since limit wait ack
  · obtain ⟨room, since, limit, wait, ack, rfl⟩ := pulls
    exact (serve_pull_calls (Q := HubCall.quiet) trivial (fun _ => trivial) trivial trivial
      (fun _ _ _ => trivial) (fun _ => trivial) (fun _ _ _ => ⟨trivial, trivial⟩)).follows
      (appendRule_quiet _) []
  · have pull : ∀ room since limit wait ack, frame ≠ .pull room since limit wait ack :=
      fun room since limit wait ack same => pulls ⟨room, since, limit, wait, ack, same⟩
    refine dispatch_follows cardBytes me frame fresh upload rounds trivial (fun _ => trivial) ?_ ?_ ?_
    · intro room since limit wait ack same
      exact absurd same (pull _ _ _ _ _)
    · intro target sha256 size mediaType now allowed same
      exact servePutBlob_quiet cfg me fresh target sha256 size mediaType upload _ _
    · intro now allowed
      by_cases sends : ∃ target parts mentions replyTo clientId,
          frame = .send target parts mentions replyTo clientId
      · obtain ⟨target, parts, mentions, replyTo, clientId, rfl⟩ := sends
        exact handleSend_appends cfg me fresh target parts mentions replyTo clientId upload rounds _
      · refine Prog.Calls.follows (appendRule_quiet _)
          (handleFrame_quiet cfg me fresh cardBytes frame pull ?_) _
        intro target parts mentions replyTo clientId same
        exact sends ⟨target, parts, mentions, replyTo, clientId, same⟩

theorem serve_appends (cardBytes : AgentCard → List UInt8) (req : Request) :
    (serve cfg cardBytes req).Follows (appendRule req) [] := by
  refine serve_follows ?_ (frame_appends cardBytes) req
  intro req past op own
  cases op <;> trivial

/-! ## Runs -/

/-- The recipients a target addresses: everybody in a room, or one agent. -/
def addressedTo : Target → String → Prop
  | .dm agent, recipient => agent = recipient
  | _, _ => True

theorem Store.Namespaced.kindOf_eq {s : Store} (apart : s.Namespaced) {room : String}
    {kind : RoomKind} (is : s.roomKind room = some kind) : kindOf room = kind := by
  obtain ⟨r, found, rfl⟩ := Option.map_eq_some_iff.mp is
  have name : r.name = room := by simpa using List.find?_some found
  rw [apart.rooms r (List.mem_of_find?_eq_some found), name]

theorem dm_prefix {room : String} (dm : kindOf room = .dm) :
    "dm.".toList.isPrefixOf room.toList = true := by
  unfold kindOf at dm
  split at dm
  · cases dm
  · split at dm
    · assumption
    · cases dm

section Runs

variable {cardBytes : AgentCard → List UInt8} {inflight : Nat} {P : HubPool cfg}

/-- A room looked up as a direct message is named as one. -/
theorem looked_up_dm (reach : Pool.Reachable (serve cfg cardBytes) Pool.anySchedule (.boot inflight) P)
    {e : HubEvent cfg} (logged : e ∈ P.log) {a b room : String}
    (found : (⟨e.op, e.result⟩ : HubDone cfg) = ⟨.findDmRoom a b, some room⟩) :
    kindOf room = .dm := by
  obtain ⟨newer, older, split⟩ := List.append_of_mem logged
  obtain ⟨P', req, next, reach', -, state, -⟩ := reach.event split
  have apart := namespaced_run reach'
  rw [state] at apart
  obtain ⟨u, op, h⟩ := e
  obtain ⟨rfl, result⟩ := Sigma.mk.inj found
  exact apart.kindOf_eq (Store.findDmRoom_some apart (eq_of_heq result)).1

/-- An appended message is that of a `Send` frame, in the room its target resolves to. -/
theorem append_origin
    (reach : Pool.Reachable (serve cfg cardBytes) Pool.anySchedule (.boot inflight) P)
    {e : HubEvent cfg} (logged : e ∈ P.log) {m : NewMessage} (appends : e.op = .appendMessage m) :
    ∃ me target mentions clientId fresh upload rounds p,
      P.threads e.thread = some (.frame me (.send target m.parts mentions m.replyTo clientId) fresh
        upload rounds, p) ∧
      m.sender.id = me.id ∧
      ∀ recipient, addressedTo target recipient → routedHere target m.room recipient = true := by
  obtain ⟨newer, older, split⟩ := List.append_of_mem logged
  obtain ⟨req, p, at_t, rule⟩ := reach.followed (serve_appends cardBytes) split
  rw [appends] at rule
  obtain ⟨me, target, mentions, clientId, fresh, upload, rounds, rfl, author, resolved⟩ := rule
  refine ⟨me, target, mentions, clientId, fresh, upload, rounds, p, at_t, author, ?_⟩
  intro recipient addressed
  cases target with
  | room r => simpa [routedHere, ResolvesTo] using resolved.symm
  | service service => simpa [routedHere, ResolvesTo] using resolved
  | dm agent =>
    have dm : kindOf m.room = .dm := by
      rcases resolved with opened | found
      · rw [opened, kindOf_dm]
      · obtain ⟨e', earlier, -, same⟩ := Pool.ownPast_event found
        refine looked_up_dm reach ?_ same
        rw [split]
        exact List.mem_append_right _ (List.mem_cons_of_mem _ earlier)
    have named : agent = recipient := addressed
    rw [routedHere, dm_prefix dm, named]
    simp

/-- A stored message was appended. -/
theorem stored_origin
    (reach : Pool.Reachable (serve cfg cardBytes) Pool.anySchedule (.boot inflight) P)
    {newer older : List (HubEvent cfg)} {e : HubEvent cfg} (split : P.log = newer ++ e :: older)
    {r : MessageRow} (stored : r ∈ e.before.store.messages) :
    ∃ e' ∈ older, ∃ m seq, e'.op = .appendMessage m ∧ r = m.toRow seq := by
  refine (reach.history (I := fun (log : List (HubEvent cfg)) h => ∀ r ∈ h.store.messages,
    ∃ e' ∈ log, ∃ m seq, e'.op = .appendMessage m ∧ r = m.toRow seq) ?_ ?_).2 newer e older split r
    stored
  · intro r stored
    cases stored
  · intro log e before r stored
    have later : ∀ r ∈ e.before.store.messages,
        ∃ e' ∈ e :: log, ∃ m seq, e'.op = .appendMessage m ∧ r = m.toRow seq := by
      intro r old
      obtain ⟨e', logged, origin⟩ := before r old
      exact ⟨e', List.mem_cons_of_mem _ logged, origin⟩
    rw [Event.after] at stored
    cases messageChange_exec cfg e.op e.before with
    | kept p rows seq =>
      exact later r (List.mem_of_mem_filter (rows ▸ stored))
    | appended m append rows seq =>
      have among : r ∈ e.before.store.messages ++ [m.toRow (e.before.store.messageSeq + 1)] :=
        rows ▸ stored
      rcases List.mem_append.mp among with old | new
      · exact later r old
      · exact ⟨e, List.mem_cons_self, m, _, append, List.mem_singleton.mp new⟩

end Runs

/-- The live push of an append: the message as it was stored, unless it was a repetition. -/
def pushOf : (op : HubCall) → op.Res → Option StoredMessage
  | .appendMessage m, .ok out =>
      if out.deduped then none
      else some ⟨out.seq, out.id, m.room, m.sender, m.parts, m.mentions, m.replyTo, m.ts⟩
  | _, _ => none

/-- The call delivers the message: a pull reads it, or an append pushes it. -/
def Delivers (x : StoredMessage) (e : HubEvent cfg) : Prop :=
  returned x e = true ∨ pushOf e.op e.result = some x

/-- A delivered message is that of a `Send` frame: it has the id of the caller, the parts and the
    reply of the frame, and stands in a room that the target resolves to. -/
theorem delivered_origin {cardBytes : AgentCard → List UInt8} {inflight : Nat} {P : HubPool cfg}
    (reach : Pool.Reachable (serve cfg cardBytes) Pool.anySchedule (.boot inflight) P)
    {e : HubEvent cfg} (logged : e ∈ P.log) {x : StoredMessage} (delivers : Delivers x e) :
    ∃ t me target mentions clientId fresh upload rounds p,
      P.threads t = some (.frame me (.send target x.parts mentions x.replyTo clientId) fresh upload
        rounds, p) ∧
      x.sender.id = me.id ∧
      ∀ recipient, addressedTo target recipient → routedHere target x.room recipient = true := by
  obtain ⟨newer, older, split⟩ := List.append_of_mem logged
  rcases delivers with reads | pushes
  · obtain ⟨u, op, h⟩ := e
    cases op with
    | readBacklog room agent floor lim =>
      obtain ⟨row, stored, -, -, rfl⟩ := Store.mem_readBacklog (of_decide_eq_true reads)
      obtain ⟨e', earlier, m, seq, appends, rfl⟩ := stored_origin reach split stored
      have logged' : e' ∈ P.log := by
        rw [split]
        exact List.mem_append_right _ (List.mem_cons_of_mem _ earlier)
      exact ⟨e'.thread, append_origin reach logged' appends⟩
    | _ => cases reads
  · obtain ⟨u, op, h⟩ := e
    cases op with
    | appendMessage m =>
      have origin := append_origin reach logged rfl
      cases stored : (Event.result (⟨u, .appendMessage m, h⟩ : HubEvent cfg)) with
      | error failure =>
        rw [stored] at pushes
        cases pushes
      | ok out =>
        rw [stored] at pushes
        simp only [pushOf] at pushes
        split at pushes
        · cases pushes
        · cases pushes
          exact ⟨u, origin⟩
    | _ => cases pushes

end Parler.Hub
