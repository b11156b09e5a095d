import Parler.Hub.Rules

/-!
# Which frame makes which call

The footprint of a request: for each call that writes, locks, reads a cursor or wakes somebody, the
frame that makes it and the arguments it makes it with. Later modules take from here what
the requests of a run may have done, and walk only through the handlers whose order of calls they
care about.
-/

namespace Parler.Hub

open Parler.Lib Parler.Protocol

open Handler

variable {cfg : HubConfig}

/-- What the caller's frame is to a call that it may make. Reads of the store are left open. -/
def HubCall.madeFor (me : Authed) (fresh : Fresh) (frame : ClientFrame) : HubCall → Prop
  | .tick _ | .upsertAgent .. | .sweepExpired _ | .pruneMessages .. | .pruneFacts _ | .gcBlobs ..
  | .removeBlobFile _ | .pruneRateWindows _ => False
  | .rateAllows agent kind _ => agent = me.id ∧
      match kind with
      | .operation => True
      | .send => ∃ target parts mentions replyTo clientId,
          frame = .send target parts mentions replyTo clientId
      | .blob => ∃ target sha256 size mediaType, frame = .putBlob target sha256 size mediaType
  | .roomRateAllows .. => (frameTarget frame).isSome
  | .acquireUpload _ | .releaseUpload _ | .totalBlobBytes | .writeBlobFile .. | .putBlobMeta .. =>
      ∃ target sha256 size mediaType, frame = .putBlob target sha256 size mediaType
  | .touchPresence agent status activity attention _ =>
      agent = me.id ∧ frame = .presence status activity attention
  | .refreshPresence agent _ => agent = me.id ∧ frame = .ping
  | .setAttention agent attention _ => agent = me.id ∧ frame = .setAttention attention
  | .ensureRoom name kind _ =>
      (∃ room ttl uses approval, frame = .invite kind room ttl uses approval ∧
        name = inviteRoom fresh kind room) ∨
      (∃ service, frame = .serve service ∧ kind = .service ∧ name = "svc." ++ token service) ∨
      (∃ agent, frameTarget frame = some (.dm agent) ∧ kind = .dm ∧ name = "dm." ++ fresh.suffix)
  | .addMember name agent _ =>
      (∃ kind room ttl uses approval, frame = .invite kind room ttl uses approval ∧
        agent = me.id ∧ name = inviteRoom fresh kind room) ∨
      (∃ service, frame = .serve service ∧ agent = me.id ∧ name = "svc." ++ token service) ∨
      (∃ service, frameTarget frame = some (.service service) ∧ agent = me.id ∧
        name = "svc." ++ token service) ∨
      (∃ peer, frameTarget frame = some (.dm peer) ∧ (agent = me.id ∨ agent = peer) ∧
        name = "dm." ++ fresh.suffix)
  | .setRoomOwner name owner => owner = me.id ∧
      ((∃ kind room ttl uses approval, frame = .invite kind room ttl uses approval ∧
        name = inviteRoom fresh kind room) ∨
      (∃ service, frame = .serve service ∧ name = "svc." ++ token service))
  | .deleteRoom room owner => owner = me.id ∧ frame = .deleteRoom room
  | .createInvite code name kind _ _ createdBy _ _ => createdBy = me.id ∧ code = fresh.code ∧
      ∃ room ttl uses approval, frame = .invite kind room ttl uses approval ∧
        name = inviteRoom fresh kind room
  | .redeemInvite code agent _ => agent = me.id ∧ ∃ text, frame = .redeem text ∧
      code = normalizeCode text
  | .resolveJoin room owner agent approve _ =>
      owner = me.id ∧ frame = .resolveJoin room agent approve
  | .mintDirectoryToken token scope _ createdBy _ => createdBy = me.id ∧ token = fresh.token ∧
      scope = "hub" ∧ ∃ ttl, frame = .mintDirectoryToken ttl
  | .mintWatchToken token room owner _ _ => owner = me.id ∧ token = fresh.token ∧
      ∃ ttl, frame = .mintWatch room ttl
  | .serveRole name agent role _ =>
      agent = me.id ∧ frame = .serve role ∧ name = "svc." ++ token role
  | .claimServiceMessage room message worker _ _ =>
      worker = me.id ∧ ∃ lease, frame = .claim room message lease
  | .completeServiceMessage room message worker status _ =>
      worker = me.id ∧ frame = .complete room message status
  | .appendMessage m => m.id = fresh.uuid ∧ m.sender = ⟨me.id, me.name, me.role⟩ ∧
      ∃ target mentions, frame = .send target m.parts mentions m.replyTo m.clientId
  | .countMessage _ | .push .. => ∃ target parts mentions replyTo clientId,
      frame = .send target parts mentions replyTo clientId
  | .notifyRoom room =>
      (∃ target parts mentions replyTo clientId,
        frame = .send target parts mentions replyTo clientId) ∨
      frame = .deleteRoom room ∨ ∃ agent approve, frame = .resolveJoin room agent approve
  | .getCursor room agent | .setCursor room agent _ | .readBacklog room agent _ _ =>
      agent = me.id ∧ ∃ since limit wait ack, frame = .pull room since limit wait ack
  | .notified room | .parked room => ∃ limit wait ack, frame = .pull room none limit (some wait) ack
  | .registerCard card sig _ visibility _ => card.id = me.id ∧ frame = .register card visibility sig
  | .remember author fact _ embedding model =>
      author = me.id ∧ frame = .remember fact embedding model
  | .touchBlobFetched id _ | .readBlobFile id => frame = .getBlob id
  | _ => True

section Handlers

variable (cfg) (me : Authed) (fresh : Fresh)

theorem resolveTarget_madeFor (frame : ClientFrame) {target : Target}
    (targeted : frameTarget frame = some target) :
    (resolveTarget cfg me fresh target).Calls (HubCall.madeFor me fresh frame) := by
  cases target with
  | room room => simp [resolveTarget, requireMember, HubCall.madeFor]
  | dm agent =>
    simp only [resolveTarget, calls_call_bind]
    refine ⟨trivial, ?_⟩
    intro shared
    cases shared with
    | some room => simp
    | none =>
      simp only [calls_call_bind]
      refine ⟨trivial, ?_⟩
      intro visibility
      cases visibility <;> simp [HubCall.madeFor, targeted]
  | service service => simp [resolveTarget, HubCall.madeFor, targeted]

theorem handleSend_madeFor (target : Target) (parts : List Part) (mentions : Option (List String))
    (replyTo clientId : Option String) :
    (handleSend cfg me fresh target parts mentions replyTo clientId).Calls
      (HubCall.madeFor me fresh (.send target parts mentions replyTo clientId)) := by
  have rest : ∀ (f : String → Handler cfg ServerFrame),
      (∀ room, (f room).Calls
        (HubCall.madeFor me fresh (.send target parts mentions replyTo clientId))) →
      (resolveTarget cfg me fresh target >>= f).Calls
        (HubCall.madeFor me fresh (.send target parts mentions replyTo clientId)) :=
    fun f => calls_bind (resolveTarget_madeFor cfg me fresh _ rfl)
  simp [handleSend, fanout, rest, HubCall.madeFor, frameTarget]

theorem handleFrame_madeFor (cardBytes : AgentCard → List UInt8) (frame : ClientFrame)
    (other : ∀ room since limit wait ack, frame ≠ .pull room since limit wait ack) :
    (handleFrame cfg me fresh cardBytes frame).Calls (HubCall.madeFor me fresh frame) := by
  have quota : ∀ {α : Type} {p : Handler cfg α}, p.Calls (HubCall.madeFor me fresh frame) →
      (withQuota p).Calls (HubCall.madeFor me fresh frame) :=
    fun body => calls_withQuota trivial trivial body
  cases frame with
  | pull room since limit wait ack => exact absurd rfl (other room since limit wait ack)
  | send => exact handleSend_madeFor cfg me fresh ..
  | remember fact embedding model =>
    have keyed : ∀ {α β : Type} {p : Handler cfg α} {f : α → Handler cfg β},
        p.Calls (HubCall.madeFor me fresh (.remember fact embedding model)) →
        (∀ a, (f a).Calls (HubCall.madeFor me fresh (.remember fact embedding model))) →
        (withQuota p >>= f).Calls (HubCall.madeFor me fresh (.remember fact embedding model)) :=
      fun body rest => calls_bind (quota body) rest
    simp only [handleFrame, handleRemember]
    cases fact.room <;> cases fact.key <;> simp [requireMember, keyed, HubCall.madeFor]
  | «recall» query room limit embedding key =>
    simp only [handleFrame, handleRecall]
    generalize Option.filter (fun k => !k.isEmpty) key = wanted
    cases room <;> cases wanted <;> simp [requireMember, HubCall.madeFor]
  | getBlob id =>
    simp only [handleFrame, handleGetBlob, calls_call_bind]
    refine ⟨trivial, ?_⟩
    intro row
    cases row with
    | none => simp
    | some row =>
      simp only [fail_bind, calls_call_bind, calls_ite, calls_fail]
      refine ⟨trivial, fun readable => ⟨fun _ => trivial, fun _ => ?_⟩⟩
      refine ⟨trivial, fun now => ⟨rfl, fun _ => ⟨rfl, fun bytes => ?_⟩⟩⟩
      cases bytes <;> simp
  | invite kind room ttl uses approval =>
    simp only [handleFrame, handleInvite, calls_call_bind]
    refine ⟨trivial, fun now => quota ?_⟩
    simp [requireRoomQuota, HubCall.madeFor]
  | serve service =>
    simp only [handleFrame, handleServe, calls_call_bind]
    refine ⟨trivial, fun now => quota ?_⟩
    simp [requireRoomQuota, HubCall.madeFor]
  | mintDirectoryToken ttl =>
    simp only [handleFrame, handleMintDirectoryToken, calls_call_bind]
    refine ⟨trivial, fun now => quota ?_⟩
    simp [requireTokenQuota, HubCall.madeFor]
  | mintWatch room ttl =>
    simp only [handleFrame, handleMintWatch, calls_call_bind]
    refine ⟨trivial, fun now => quota ?_⟩
    simp [requireTokenQuota, HubCall.madeFor]
  | register card visibility sig => simp +contextual [handleFrame, handleRegister, HubCall.madeFor]
  | _ =>
    simp [handleFrame, handleRedeem, handleJoinRequests, handleResolveJoin, handleClaim,
      handleQueue, handleComplete, handleDeleteRoom, handleRoster, requireMember,
      requireServiceRoom, HubCall.madeFor]

theorem servePutBlob_madeFor (target : Target) (sha256 : String) (size : Nat)
    (mediaType : Option String) (upload : Option (List UInt8)) :
    (servePutBlob cfg me fresh target sha256 size mediaType upload).Calls
      (HubCall.madeFor me fresh (.putBlob target sha256 size mediaType)) := by
  have rest : ∀ (f : String → Handler cfg String),
      (∀ room, (f room).Calls
        (HubCall.madeFor me fresh (.putBlob target sha256 size mediaType))) →
      (resolveTarget cfg me fresh target >>= f).Calls
        (HubCall.madeFor me fresh (.putBlob target sha256 size mediaType)) :=
    fun f => calls_bind (resolveTarget_madeFor cfg me fresh _ rfl)
  refine servePutBlob_calls cfg me fresh target sha256 size mediaType upload (by simp [HubCall.madeFor])
    (by simp [HubCall.madeFor]) ?_ ?_
  · simp [reserveBlob, rest, HubCall.madeFor, frameTarget]
  · intro room data
    simp [finishBlobUpload, HubCall.madeFor]

end Handlers

/-- Every call of a frame's request is one that the frame makes. -/
theorem serve_madeFor (cardBytes : AgentCard → List UInt8) (me : Authed) (frame : ClientFrame)
    (fresh : Fresh) (upload : Option (List UInt8)) (rounds : Nat) :
    (serve cfg cardBytes (.frame me frame fresh upload rounds)).Calls
      (HubCall.madeFor me fresh frame) := by
  by_cases pulls : ∃ room since limit wait ack, frame = .pull room since limit wait ack
  · obtain ⟨room, since, limit, wait, ack, rfl⟩ := pulls
    refine serve_pull_calls trivial (fun _ => ⟨rfl, trivial⟩) trivial ?_ ?_ ?_ ?_
    · exact ⟨rfl, since, limit, wait, ack, rfl⟩
    · exact fun _ _ _ => ⟨rfl, since, limit, wait, ack, rfl⟩
    · exact fun _ => ⟨rfl, since, limit, wait, ack, rfl⟩
    · rintro rfl wait' rfl
      exact ⟨⟨limit, wait', ack, rfl⟩, limit, wait', ack, rfl⟩
  · have other : ∀ room since limit wait ack, frame ≠ .pull room since limit wait ack :=
      fun room since limit wait ack same => pulls ⟨room, since, limit, wait, ack, same⟩
    refine dispatch_calls cardBytes me frame fresh upload rounds trivial (fun _ => ⟨rfl, trivial⟩) ?_ ?_
      ?_
    · intro room since limit wait ack same
      exact absurd same (other _ _ _ _ _)
    · rintro target sha256 size mediaType rfl
      exact servePutBlob_madeFor cfg me fresh target sha256 size mediaType upload
    · exact handleFrame_madeFor cfg me fresh cardBytes frame other

/-- The calls that a request may make. -/
def Request.makes : Request → HubCall → Prop
  | .frame me sent fresh _ _, op => op.madeFor me fresh sent
  | .welcome me, op => op = .nowMs ∨ ∃ now, op = .upsertAgent me.id me.name me.role now ∨
      op = .touchPresence me.id "idle" none none now
  | .janitor, op =>
      match op with
      | .nowMs | .sweepExpired _ | .pruneMessages .. | .pruneFacts _ | .gcBlobs ..
      | .removeBlobFile _ | .pruneRateWindows _ => True
      | _ => False
  | .tick ms, op => op = .tick ms

theorem serve_makes (cardBytes : AgentCard → List UInt8) (req : Request) :
    (serve cfg cardBytes req).Calls req.makes := by
  cases req with
  | frame me frame fresh upload rounds => exact serve_madeFor cardBytes me frame fresh upload rounds
  | welcome me =>
    refine ⟨Or.inl rfl, fun now => ⟨Or.inr ⟨now, Or.inl rfl⟩, fun _ => ⟨?_, fun _ => trivial⟩⟩⟩
    exact Or.inr ⟨now, Or.inr rfl⟩
  | janitor =>
    refine Prog.Follows.calls ?_ (janitor_ofJanitor cfg)
    intro past op own
    cases op <;> trivial
  | tick ms => exact ⟨rfl, fun _ => trivial⟩

/-- Every call in the log belongs to a request that may make it. -/
theorem log_makes {cardBytes : AgentCard → List UInt8} {G : HubPool cfg → Nat → HubCall → Prop}
    {inflight : Nat} {P : HubPool cfg}
    (reach : Pool.Reachable (serve cfg cardBytes) G (.boot inflight) P) {e : HubEvent cfg}
    (logged : e ∈ P.log) : ∃ req p, P.threads e.thread = some (req, p) ∧ req.makes e.op := by
  obtain ⟨newer, older, split⟩ := List.append_of_mem logged
  refine reach.followed (C := fun req _ op => req.makes op) ?_ split
  exact fun req => (serve_makes cardBytes req).follows (fun _ _ made => made) []

/-- The thread serves the frame. -/
def ServesFrame (P : HubPool cfg) (t : Nat) (me : Authed) (frame : ClientFrame) : Prop :=
  ∃ fresh upload rounds p, P.threads t = some (.frame me frame fresh upload rounds, p)

/-- The call deletes the room. -/
def deletesRoom (room : String) : HubDone cfg → Bool
  | ⟨.deleteRoom room' _, .ok _⟩ => room' = room
  | _ => false

end Parler.Hub
