import Parler.Connector.Handled
import Parler.Hub.Demo
import Parler.Protocol.Tasks

/-!
# The room worker

`parler work`, from `crates/parler-cli/src/worker.rs`: pull one message at a time, decide whether it
is work, reserve its key, run the agent, post a terminal result and only then acknowledge. The
runner is asked of the host; its answer is the outcome after `parse_runner_result` and `clip`.
-/

namespace Parler.Cli

open Parler.Lib Parler.Protocol Parler.Hub Parler.Connector

/-! ## Selection -/

inductive WorkSource where
  | room
  | service
  deriving DecidableEq

structure WorkOptions where
  source : WorkSource
  allMessages : Bool
  allowFrom : List String
  maxPerHour : Nat
  once : Bool

inductive IgnoreReason where
  | ownMessage
  | untrusted
  | disallowed
  | notAddressed
  | lifecycle
  | nonActionable
  deriving DecidableEq

structure WorkItem where
  taskId : String
  senderId : String
  senderName : String
  instruction : String
  summary : Option String
  context : Option String
  bundle : Option String
  hadTaskRef : Bool
  deriving DecidableEq

inductive Selection where
  | work (item : WorkItem)
  | ignore (reason : IgnoreReason)
  deriving DecidableEq

/-- `message_text`. -/
def messageText (message : StoredMessage) : Option String :=
  let texts := message.parts.filterMap (fun
    | .text t => if trim t = "" then none else some (trim t)
    | _ => none)
  let text := "\n".intercalate texts
  if text = "" then none else some text

/-- `select_message`. -/
def selectMessage (message : StoredMessage) (trusted : SigStatus) (me : Authed) (o : WorkOptions) :
    Selection :=
  if message.sender.id = me.id then .ignore .ownMessage
  else if trusted ≠ .valid then .ignore .untrusted
  else if !o.allowFrom.isEmpty && !o.allowFrom.contains message.sender.id then .ignore .disallowed
  else
    let handoffs := message.parts.filterMap HandoffRef.fromPart
    if !handoffs.isEmpty then
      match handoffs.find? (fun h =>
          h.isFor me.name me.role || h.addressee.any (fun a => eqIgnoreAsciiCase a me.id)) with
      | some h =>
          if trim h.next ≠ "" then
            .work ⟨message.id, message.sender.id, message.sender.name, h.next, h.summary,
              messageText message, h.bundle,
              message.parts.any (fun p => (TaskRef.fromPart p).isSome)⟩
          else .ignore .nonActionable
      | none => .ignore .notAddressed
    -- Lifecycle messages are observations.
    else if message.parts.any (fun p => (TaskRef.fromPart p).isSome) then .ignore .lifecycle
    else
      match (messageText message).filter (fun text => trim text ≠ "") with
      | none => .ignore .nonActionable
      | some text =>
          if o.source = .service || o.allMessages then
            .work ⟨message.id, message.sender.id, message.sender.name, text, none, none, none, false⟩
          else .ignore .notAddressed

/-! ## The rate gate -/

/-- `RateGate`; instants are nanoseconds. -/
structure RateGate where
  max : Nat
  starts : List Int

/-- `RateGate::admit`. -/
def RateGate.admitMessage (gate : RateGate) (now : Int) : Bool × RateGate :=
  if gate.max = 0 then (true, gate)
  else
    let starts := gate.starts.dropWhile (fun started => 3600 * 10 ^ 9 ≤ Max.max 0 (now - started))
    if gate.max ≤ starts.length then (false, { gate with starts := starts })
    else (true, { gate with starts := starts ++ [now] })

/-! ## The program -/

/-- What the runner made of a task. -/
structure RunnerOutcome where
  succeeded : Bool
  body : String
  continuation : Option HandoffRef
  elapsedMs : Nat

/-- What a worker asks: the time, whether to go on waiting and for how long, and to run a task. -/
inductive WorkerAsk where
  | now
  | budget
  | run (item : WorkItem)

def workerHost : Host where
  Ask := WorkerAsk
  Answer
    | .now => Int
    | .budget => Option Nat
    | .run _ => RunnerOutcome

abbrev WorkerClient (α : Type) := Client workerHost α

structure WorkReport where
  handled : Nat
  lastResponseRoom : Option String

/-- The variables of the loop. -/
structure WorkerState where
  agent : MeshAgent
  rate : RateGate
  report : WorkReport

/-- How the handling of a message ends: the loop goes on, or `run` returns (`none` is an error). -/
inductive Flow where
  | go (s : WorkerState)
  | over (report : Option WorkReport)

section Program

variable (F : FloatFormat) (verify : String → List UInt8 → String → Bool) (me : Authed)
  (room runner : String) (o : WorkOptions)

/-- `post_working`. -/
def postWorking (item : WorkItem) : WorkerClient (Option (String × Int × String)) :=
  send (.room room)
    [(TaskRef.mk .working (some item.taskId) (some (runner ++ " is executing the request")) none
      none none).toPart]
    none (some item.taskId)

/-- The part of a terminal result that says how the task ended. -/
def terminalPart (item : WorkItem) (status : TaskStatus) (body : String) (elapsedMs : Nat) : Part :=
  (TaskRef.mk status (some item.taskId) (if status = .failed then some body else none) none none
    (some elapsedMs)).toPart

/-- The next turn that a terminal result asks for. -/
def continuationOf (item : WorkItem) (status : TaskStatus) (given : Option HandoffRef) :
    Option HandoffRef :=
  if o.source = .room ∧ status = .done then
    given.orElse fun _ =>
      if item.hadTaskRef then none
      else
        some ⟨"Use the completed worker result above to continue the original task. Act on it now; " ++
            "do not merely summarize it.",
          some ("worker completed task " ++ item.taskId), some item.senderName, none⟩
  else none

/-- `post_terminal`: the room of the result. -/
def postTerminal (item : WorkItem) (status : TaskStatus) (body : String) (elapsedMs : Nat)
    (given : Option HandoffRef) : WorkerClient (Option String) :=
  let text := match status with
    | .done => "🤖 autonomous worker result:\n\n" ++ body
    | _ => "⚠ autonomous worker could not complete the task: " ++ body
  let continuation := continuationOf o item status given
  let parts := [.text text, terminalPart item status body elapsedMs] ++
    continuation.toList.map HandoffRef.toPart
  match o.source with
  | .room =>
      let mentions := [item.senderName] ++ ((continuation.bind HandoffRef.addressee).toList.filter
        (fun a => !eqIgnoreAsciiCase item.senderName a))
      send (.room room) parts (some mentions) (some item.taskId) >>= fun sent =>
        .ret (sent.map (fun s => s.2.2))
  | .service =>
      send (.dm item.senderId) parts none none >>= fun sent =>
        match sent with
        | some s => .ret (some s.2.2)
        | none =>
            -- The requester may have no card: fall back to the service room.
            send (.room room) parts (some [item.senderName]) (some item.taskId) >>= fun sent =>
              .ret (sent.map (fun s => s.2.2))

/-- `commit_reads`, then go on. -/
def commitThen (s : WorkerState) (next : WorkerState → WorkerClient Flow) : WorkerClient Flow :=
  s.agent.commitReads room >>= fun committed =>
    match committed.2 with
    | none => .ret (.over none)
    | some _ => next { s with agent := committed.1 }

/-- An ignored message is released and acknowledged. -/
def skipMessage (message : StoredMessage) (s : WorkerState) : WorkerClient Flow :=
  .call (ClientCall.release [message]) fun released =>
    match (released : Option Unit) with
    | none => .ret (.over none)
    | some _ => commitThen room s (fun s => .ret (.go s))

/-- A handled message is counted. -/
def settled (s : WorkerState) (responseRoom : String) : Flow :=
  let s := { s with report := ⟨s.report.handled + 1, some responseRoom⟩ }
  if o.once then .over (some s.report) else .go s

/-- A request beyond the rate limit is answered with a failure. -/
def refuseItem (message : StoredMessage) (item : WorkItem) (s : WorkerState) : WorkerClient Flow :=
  postTerminal room o item .failed
    ("worker rate limit reached (" ++ toString o.maxPerHour ++ " turn(s)/hour); retry later") 0 none >>=
    fun posted =>
      match posted with
      | none => .ret (.over none)
      | some responseRoom =>
          .call (ClientCall.complete [message]) fun _ =>
            commitThen room s (fun s => .ret (settled o s responseRoom))

/-- A request is run and its result posted before it is acknowledged. -/
def runItem (message : StoredMessage) (item : WorkItem) (s : WorkerState) : WorkerClient Flow :=
  postWorking room runner item >>= fun posted =>
    match posted with
    | none => .ret (.over none)
    | some _ =>
        presence "working" (some (runner ++ " task " ++ item.taskId)) none >>= fun shown =>
          match shown with
          | none => .ret (.over none)
          | some _ =>
              .call (ClientCall.ask (.run item)) fun (outcome : RunnerOutcome) =>
                .call (ClientCall.complete [message]) fun _ =>
                  postTerminal room o item (if outcome.succeeded then .done else .failed)
                    outcome.body outcome.elapsedMs
                    (if outcome.succeeded then outcome.continuation else none) >>= fun posted =>
                      match posted with
                      | none => .ret (.over none)
                      | some responseRoom =>
                          commitThen room s fun s =>
                            presence "waiting"
                              (some ("autonomous " ++ runner ++ " worker in '" ++ room ++ "'"))
                              none >>= fun _ => .ret (settled o s responseRoom)

/-- What is done with a message once its trust is known. -/
def handleTrusted (message : StoredMessage) (s : WorkerState) (trusted : SigStatus) :
    WorkerClient Flow :=
  match selectMessage message trusted me o with
  | .ignore _ => skipMessage room message s
  | .work item =>
      .call (ClientCall.ask .now) fun (now : Int) =>
        let (allowed, rate) := s.rate.admitMessage now
        if allowed then runItem room runner o message item { s with rate := rate }
        else refuseItem room o message item { s with rate := rate }

/-- The body of the loop for one message: a valid one is reserved first, and one that was reserved
    before is not trusted. -/
def handle (message : StoredMessage) (s : WorkerState) : WorkerClient Flow :=
  match verifyMessageForRoom F verify message me.id with
  | .valid =>
      .call (ClientCall.admitMessage message) fun admitted =>
        match (admitted : Option Bool) with
        | none => .ret (.over none)
        | some true => handleTrusted me room runner o message s .valid
        | some false => handleTrusted me room runner o message s .invalid
  | trusted => handleTrusted me room runner o message s trusted

def handleAll : List StoredMessage → WorkerState → WorkerClient Flow
  | [], s => .ret (.go s)
  | message :: rest, s =>
      handle F verify me room runner o message s >>= fun flow =>
        match flow with
        | .over report => .ret (.over report)
        | .go s => handleAll rest s

/-- `pull_wait` with a limit of one: pull, and park at the hub while the wait lasts. -/
def pullWait (a : MeshAgent) : Nat → WorkerClient (MeshAgent × Option (List StoredMessage))
  | 0 => .ret (a, some [])
  | waits + 1 =>
      a.pull room (some 1) >>= fun first =>
        match first.2 with
        | none => .ret first
        | some (_ :: _) => .ret first
        | some [] =>
            .call (ClientCall.ask .budget) fun (chunk : Option Nat) =>
              match chunk with
              | none => .ret first
              | some chunk =>
                  first.1.pullParked room (some 1) chunk >>= fun second =>
                    match second.2 with
                    | none => .ret second
                    | some (_ :: _) => .ret second
                    | some [] => pullWait second.1 waits

/-- The loop, for a number of rounds; a worker that is stopped makes no further round. -/
def watch (waits : Nat) : Nat → WorkerState → WorkerClient (Option WorkReport)
  | 0, _ => .ret none
  | rounds + 1, s =>
      pullWait room s.agent waits >>= fun pulled =>
        match pulled.2 with
        | none => .ret none
        | some messages =>
            handleAll F verify me room runner o messages { s with agent := pulled.1 } >>= fun flow =>
              match flow with
              | .over report => .ret report
              | .go s => watch waits rounds s

/-- `run`. -/
def run (waits rounds : Nat) : WorkerClient (Option WorkReport) :=
  presence "waiting" (some ("autonomous " ++ runner ++ " worker in '" ++ room ++ "'")) none >>=
    fun shown =>
      match shown with
      | none => .ret none
      | some _ => watch F verify me room runner o waits rounds ⟨.fresh, ⟨o.maxPerHour, []⟩, ⟨0, none⟩⟩

end Program

/-! ## What a worker does in which order -/

section Order

variable (F : FloatFormat) (verify : String → List UInt8 → String → Bool) (me : Authed)
  (room : String) (o : WorkOptions)

/-- A validly signed message that `select_message` turns into work. -/
def Selected (m : StoredMessage) : Prop :=
  verifyMessageForRoom F verify m me.id = .valid ∧ ∃ item, selectMessage m .valid me o = .work item

/-- The frame posts a terminal result for the message. -/
def terminalFor (m : StoredMessage) : ClientFrame → Prop
  | .send _ parts _ _ _ => ∃ t : TaskRef, t.task = some m.id ∧
      (t.status = .done ∨ t.status = .failed) ∧ t.toPart ∈ parts
  | _ => False

/-- The turns show a terminal result that the hub confirmed. -/
def PostedIn (past : List (ClientDone workerHost)) (m : StoredMessage) : Prop :=
  ∃ frame id seq room, ⟨ClientCall.request frame, some (.sent id seq room)⟩ ∈ past ∧
    terminalFor m frame

/-- The turns show that a message is no work, was refused as a replay, or has a result. -/
def DealtIn (past : List (ClientDone workerHost)) (m : StoredMessage) : Prop :=
  Selected F verify me o m → ⟨ClientCall.admitMessage m, some false⟩ ∈ past ∨ PostedIn past m

/-- Every selected message that was reserved has a result, but for one that is being worked on. -/
def SettledBut (working : Option StoredMessage) (past : List (ClientDone workerHost)) : Prop :=
  ∀ m, ⟨ClientCall.admitMessage m, some true⟩ ∈ past → Selected F verify me o m →
    PostedIn past m ∨ some m = working

/-- The call brought back the messages, within its limit. -/
def Brings (d : ClientDone workerHost) (messages : List StoredMessage) : Prop :=
  ∃ limit wait ack room' cursor, messages.length ≤ Store.pullLimit limit ∧
    d = ⟨ClientCall.request (.pull room none limit wait ack), some (.pulled room' messages cursor)⟩

/-- Every message that was read is dealt with, but for some. -/
def ReadBut (rest : List StoredMessage) (past : List (ClientDone workerHost)) : Prop :=
  ∀ d ∈ past, ∀ messages, Brings room d messages → ∀ m ∈ messages,
    DealtIn F verify me o past m ∨ m ∈ rest

/-- A worker reserves only when everything it reserved has a result, reads on only when everything
    it read is dealt with, and acknowledges only batches it has dealt with. -/
def workerRule (past : List (ClientDone workerHost)) : ClientCall workerHost → Prop
  | .request (.pull r since limit _ ack) =>
      (limit ≠ some 0 → ReadBut F verify me room o [] past) ∧ r = room ∧ since = none ∧
        ∃ a, ack = some a ∧ Acknowledges room (DealtIn F verify me o) past a
  | .admitMessage _ => SettledBut F verify me o none past
  | _ => True

/-- The messages that are left of a batch, the others being dealt with. -/
def InBatch (messages : List StoredMessage) (cursor : Int) (past : List (ClientDone workerHost)) :
    Prop :=
  (messages = [] ∧ Acknowledges room (DealtIn F verify me o) past cursor) ∨
    ∃ wait ack room' before,
      ⟨ClientCall.request (.pull room none (some 1) wait ack),
        some (.pulled room' (before ++ messages) cursor)⟩ ∈ past ∧
      ∀ m ∈ before, DealtIn F verify me o past m

variable {F verify me room o}

theorem PostedIn.cons {past : List (ClientDone workerHost)} {m : StoredMessage}
    (posted : PostedIn past m) (d : ClientDone workerHost) : PostedIn (d :: past) m := by
  obtain ⟨frame, id, seq, room, sent, terminal⟩ := posted
  exact ⟨frame, id, seq, room, List.mem_cons_of_mem d sent, terminal⟩

theorem DealtIn.cons {past : List (ClientDone workerHost)} {m : StoredMessage}
    (dealt : DealtIn F verify me o past m) (d : ClientDone workerHost) :
    DealtIn F verify me o (d :: past) m :=
  fun selected => (dealt selected).imp (List.mem_cons_of_mem d) (fun posted => posted.cons d)

theorem SettledBut.cons {past : List (ClientDone workerHost)} {working : Option StoredMessage}
    (settled : SettledBut F verify me o working past) {d : ClientDone workerHost}
    (other : ∀ m, d ≠ ⟨ClientCall.admitMessage m, some true⟩) :
    SettledBut F verify me o working (d :: past) := by
  intro m admitted selected
  rcases List.mem_cons.mp admitted with new | old
  · exact absurd new.symm (other m)
  · exact (settled m old selected).imp_left (fun posted => posted.cons d)

theorem InBatch.cons {messages : List StoredMessage} {cursor : Int}
    {past : List (ClientDone workerHost)} (batch : InBatch F verify me room o messages cursor past)
    (d : ClientDone workerHost) : InBatch F verify me room o messages cursor (d :: past) := by
  rcases batch with ⟨empty, may⟩ | ⟨wait, ack, room', before, received, dealt⟩
  · exact Or.inl ⟨empty, may.cons (fun d _ _ dealt => dealt.cons d) d⟩
  · exact Or.inr ⟨wait, ack, room', before, List.mem_cons_of_mem d received,
      fun m member => (dealt m member).cons d⟩

theorem ReadBut.cons {rest : List StoredMessage} {past : List (ClientDone workerHost)}
    (read : ReadBut F verify me room o rest past) {d : ClientDone workerHost}
    (other : ∀ messages, Brings room d messages → messages ⊆ rest) :
    ReadBut F verify me room o rest (d :: past) := by
  intro d' member messages brings m listed
  rcases List.mem_cons.mp member with new | old
  · subst new
    exact Or.inr (other messages brings listed)
  · exact (read d' old messages brings m listed).imp_left (fun dealt => dealt.cons d)

theorem ReadBut.next {m : StoredMessage} {rest : List StoredMessage}
    {past : List (ClientDone workerHost)} (read : ReadBut F verify me room o (m :: rest) past)
    (done : DealtIn F verify me o past m) : ReadBut F verify me room o rest past := by
  intro d member messages brings m' listed
  rcases read d member messages brings m' listed with dealt | left
  · exact Or.inl dealt
  · rcases List.mem_cons.mp left with rfl | later
    · exact Or.inl done
    · exact Or.inr later

/-- A batch of which nothing is left may be acknowledged. -/
theorem InBatch.acknowledges {cursor : Int} {past : List (ClientDone workerHost)}
    (batch : InBatch F verify me room o [] cursor past) :
    Acknowledges room (DealtIn F verify me o) past cursor := by
  rcases batch with ⟨-, may⟩ | ⟨wait, ack, room', before, received, dealt⟩
  · exact may
  · rw [List.append_nil] at received
    exact Or.inr ⟨some 1, wait, ack, room', before, received, fun _ => dealt⟩

/-- A batch is one message, so that with its first message the whole batch is dealt with. -/
theorem InBatch.next {m : StoredMessage} {rest : List StoredMessage} {cursor : Int}
    {past : List (ClientDone workerHost)}
    (batch : InBatch F verify me room o (m :: rest) cursor past)
    (done : DealtIn F verify me o past m) :
    InBatch F verify me room o rest cursor past ∧
      Acknowledges room (DealtIn F verify me o) past cursor := by
  rcases batch with ⟨empty, -⟩ | ⟨wait, ack, room', before, received, dealt⟩
  · cases empty
  · refine ⟨Or.inr ⟨wait, ack, room', before ++ [m], by simpa using received, ?_⟩,
      Or.inr ⟨some 1, wait, ack, room', before ++ m :: rest, received, ?_⟩⟩
    · intro m' member
      rcases List.mem_append.mp member with old | last
      · exact dealt m' old
      · rw [List.mem_singleton.mp last]
        exact done
    · intro short m' member
      have one : before.length + (rest.length + 1) ≤ 1 := by
        simpa [Store.pullLimit] using short
      have before_nil : before = [] := List.length_eq_zero_iff.mp (by omega)
      have rest_nil : rest = [] := List.length_eq_zero_iff.mp (by omega)
      rw [before_nil, rest_nil] at member
      rw [List.mem_singleton.mp member]
      exact done

/-- What holds while a message is handled. -/
def Holding (F : FloatFormat) (verify : String → List UInt8 → String → Bool) (me : Authed)
    (room : String) (o : WorkOptions) (working : Option StoredMessage)
    (messages : List StoredMessage) (cursor : Int) (past : List (ClientDone workerHost)) : Prop :=
  SettledBut F verify me o working past ∧ InBatch F verify me room o messages cursor past ∧
    ReadBut F verify me room o messages past

/-- What holds when a batch may be acknowledged. -/
def Committing (F : FloatFormat) (verify : String → List UInt8 → String → Bool) (me : Authed)
    (room : String) (o : WorkOptions) (messages : List StoredMessage) (cursor : Int)
    (past : List (ClientDone workerHost)) : Prop :=
  Holding F verify me room o none messages cursor past ∧
    Acknowledges room (DealtIn F verify me o) past cursor

/-- The calls that the order says nothing about. -/
def plainCall : ClientCall workerHost → Bool
  | .request (.pull ..) | .admitMessage _ => false
  | _ => true

theorem plainCall_other {op : ClientCall workerHost} (plain : plainCall op = true) (r : op.Res)
    (m : StoredMessage) : (⟨op, r⟩ : ClientDone workerHost) ≠ ⟨ClientCall.admitMessage m, some true⟩ := by
  intro same
  cases same
  cases plain

theorem plainCall_brings {op : ClientCall workerHost} (plain : plainCall op = true) (r : op.Res)
    (messages rest : List StoredMessage) (brings : Brings room ⟨op, r⟩ messages) :
    messages ⊆ rest := by
  obtain ⟨limit, wait, ack, room', cursor, -, same⟩ := brings
  cases same
  cases plain

theorem plainCall_allowed {op : ClientCall workerHost} (plain : plainCall op = true)
    (past : List (ClientDone workerHost)) : workerRule F verify me room o past op := by
  cases op with
  | request frame =>
    cases frame with
    | pull => cases plain
    | _ => trivial
  | admitMessage m => cases plain
  | _ => trivial

theorem holding_free (op : ClientCall workerHost) (plain : plainCall op = true)
    (working : Option StoredMessage) (messages : List StoredMessage) (cursor : Int) :
    Free (workerRule F verify me room o) (Holding F verify me room o working messages cursor) op :=
  ⟨fun past _ => plainCall_allowed plain past,
    fun _ r holding => ⟨holding.1.cons (plainCall_other plain r), holding.2.1.cons _,
      holding.2.2.cons (fun batch => plainCall_brings plain r batch messages)⟩⟩

theorem Committing.cons {messages : List StoredMessage} {cursor : Int}
    {past : List (ClientDone workerHost)}
    (committing : Committing F verify me room o messages cursor past) {d : ClientDone workerHost}
    (other : ∀ m, d ≠ ⟨ClientCall.admitMessage m, some true⟩)
    (brings : ∀ batch, Brings room d batch → batch ⊆ messages) :
    Committing F verify me room o messages cursor (d :: past) :=
  ⟨⟨committing.1.1.cons other, committing.1.2.1.cons d, committing.1.2.2.cons brings⟩,
    committing.2.cons (fun d _ _ dealt => dealt.cons d) d⟩

theorem committing_free (op : ClientCall workerHost) (plain : plainCall op = true)
    (messages : List StoredMessage) (cursor : Int) :
    Free (workerRule F verify me room o) (Committing F verify me room o messages cursor) op :=
  ⟨fun past _ => plainCall_allowed plain past,
    fun _ r committing => committing.cons (plainCall_other plain r)
      (fun batch => plainCall_brings plain r batch messages)⟩

/-- A commit carries the ack of a batch that was dealt with, and brings nothing. -/
theorem commit_free (messages : List StoredMessage) (cursor : Int) :
    Free (workerRule F verify me room o) (Committing F verify me room o messages cursor)
      (.request (.pull room none (some 0) none (some cursor))) := by
  refine ⟨fun _ committing => ⟨fun reads => absurd rfl reads, rfl, rfl, cursor, rfl, committing.2⟩,
    fun _ _ committing => committing.cons (fun _ same => nomatch same) ?_⟩
  rintro batch ⟨limit, wait, ack, room', cursor', short, same⟩
  cases same
  have none : batch = [] := List.length_eq_zero_iff.mp (by simpa [Store.pullLimit] using short)
  rw [none]
  exact List.nil_subset _

/-! ### The steps of the program -/

/-- Work is selected only from a trusted message, under the message's id. -/
theorem selectMessage_work {m : StoredMessage} {trusted : SigStatus} {item : WorkItem}
    (work : selectMessage m trusted me o = .work item) :
    trusted = .valid ∧ item.taskId = m.id := by
  unfold selectMessage at work
  split at work
  · cases work
  · split at work
    · cases work
    · rename_i trust
      refine ⟨not_not.mp trust, ?_⟩
      split at work
      · cases work
      · dsimp only at work
        split at work
        · split at work
          · split at work
            · cases work
              rfl
            · cases work
          · cases work
        · split at work
          · cases work
          · split at work
            · cases work
            · split at work
              · cases work
                rfl
              · cases work

variable {runner : String} {past : List (ClientDone workerHost)} {s : WorkerState}

/-- Sending keeps what plain calls keep, and a message that was sent carries its parts. -/
theorem sending {J : List (ClientDone workerHost) → Prop}
    (free : ∀ op, plainCall op = true → Free (workerRule F verify me room o) J op) {target : Target}
    {parts : List Part} {mentions : Option (List String)} {replyTo : Option String} (now : J past) :
    (send target parts mentions replyTo).Upholds (workerRule F verify me room o)
      (fun sent past => J past ∧ ∀ id seq room, sent = some (id, seq, room) → ∃ sig clientId,
        ⟨ClientCall.request (.send target (unsigned parts ++ [MessageSig.toPart sig]) mentions replyTo
          clientId), some (.sent id seq room)⟩ ∈ past) past :=
  send_upholds (free _ rfl) (fun _ _ => free _ rfl) now

/-- A result that was sent is a terminal result of the item's message. -/
theorem posted_of_sent {item : WorkItem} {m : StoredMessage} (own : item.taskId = m.id)
    {status : TaskStatus} (ends : status = .done ∨ status = .failed) {body : String} {elapsedMs : Nat}
    {parts : List Part} (among : terminalPart item status body elapsedMs ∈ parts) {target : Target}
    {mentions : Option (List String)} {replyTo clientId : Option String} {sig : MessageSig}
    {id rm : String} {seq : Int}
    (sent : ⟨ClientCall.request (.send target (unsigned parts ++ [sig.toPart]) mentions replyTo
      clientId), some (.sent id seq rm)⟩ ∈ past) : PostedIn past m := by
  refine ⟨_, id, seq, rm, sent, ⟨status, some item.taskId, if status = .failed then some body else none,
    none, none, some elapsedMs⟩, congrArg some own, ends, ?_⟩
  exact List.mem_append_left _ (List.mem_filter.mpr ⟨among, rfl⟩)

theorem postTerminal_upholds {J : List (ClientDone workerHost) → Prop}
    (free : ∀ op, plainCall op = true → Free (workerRule F verify me room o) J op)
    {item : WorkItem} {status : TaskStatus} (ends : status = .done ∨ status = .failed)
    {body : String} {elapsedMs : Nat} {given : Option HandoffRef} (now : J past) :
    (postTerminal room o item status body elapsedMs given).Upholds (workerRule F verify me room o)
      (fun posted past => J past ∧ ∀ m responseRoom, item.taskId = m.id → posted = some responseRoom →
        PostedIn past m) past := by
  unfold postTerminal
  dsimp only
  have among : ∀ (text : String) (more : List Part), terminalPart item status body elapsedMs ∈
      [.text text, terminalPart item status body elapsedMs] ++ more := by
    intro text more
    simp
  split
  · refine Prog.Upholds.bind (sending free now) ?_
    rintro sent past ⟨kept, shown⟩
    refine ⟨kept, ?_⟩
    intro m responseRoom own posted
    cases sent with
    | none => cases posted
    | some result =>
      obtain ⟨sig, clientId, sent⟩ := shown _ _ _ rfl
      exact posted_of_sent own ends (among _ _) sent
  · refine Prog.Upholds.bind (sending free now) ?_
    rintro sent past ⟨kept, shown⟩
    cases sent with
    | some result =>
      refine ⟨kept, ?_⟩
      intro m responseRoom own _
      obtain ⟨sig, clientId, sent⟩ := shown _ _ _ rfl
      exact posted_of_sent own ends (among _ _) sent
    | none =>
      refine Prog.Upholds.bind (sending free kept) ?_
      rintro sent past ⟨kept, shown⟩
      refine ⟨kept, ?_⟩
      intro m responseRoom own posted
      cases sent with
      | none => cases posted
      | some result =>
        obtain ⟨sig, clientId, sent⟩ := shown _ _ _ rfl
        exact posted_of_sent own ends (among _ _) sent

/-- What a step of the loop leaves when the loop goes on. -/
def Goes (F : FloatFormat) (verify : String → List UInt8 → String → Bool) (me : Authed)
    (room : String) (o : WorkOptions) (rest : List StoredMessage) (cursor : Int) (flow : Flow)
    (past : List (ClientDone workerHost)) : Prop :=
  ∀ s, flow = .go s → s.agent.pending room = cursor ∧ Holding F verify me room o none rest cursor past

theorem commitThen_upholds {rest : List StoredMessage} {cursor : Int}
    (own : s.agent.pending room = cursor)
    (now : Committing F verify me room o rest cursor past)
    {next : WorkerState → WorkerClient Flow}
    (after : ∀ s past, s.agent.pending room = cursor → Committing F verify me room o rest cursor past →
      (next s).Upholds (workerRule F verify me room o) (Goes F verify me room o rest cursor) past) :
    (commitThen room s next).Upholds (workerRule F verify me room o)
      (Goes F verify me room o rest cursor) past := by
  refine Prog.Upholds.bind (commitReads_upholds now (fun _ => ?_)) ?_
  · rw [own]
    exact commit_free rest cursor
  · rintro ⟨agent, result⟩ past ⟨kept, same, -⟩
    cases result with
    | none => exact fun s impossible => nomatch impossible
    | some _ => exact after _ past (same.trans own) kept

theorem skipMessage_upholds {m : StoredMessage} {rest : List StoredMessage} {cursor : Int}
    (own : s.agent.pending room = cursor)
    (now : Committing F verify me room o rest cursor past) :
    (skipMessage room m s).Upholds (workerRule F verify me room o)
      (Goes F verify me room o rest cursor) past := by
  refine ⟨trivial, ?_⟩
  intro released
  have kept := (committing_free (.release [m]) rfl rest cursor).kept past released now
  cases released with
  | none => exact fun s impossible => nomatch impossible
  | some _ =>
    refine commitThen_upholds own kept ?_
    intro s past own now s' same
    cases same
    exact ⟨own, now.1⟩

theorem settled_goes {responseRoom : String} {rest : List StoredMessage} {cursor : Int}
    (own : s.agent.pending room = cursor)
    (now : Committing F verify me room o rest cursor past) :
    Goes F verify me room o rest cursor (settled o s responseRoom) past := by
  intro s' same
  unfold settled at same
  dsimp only at same
  split at same
  · cases same
  · cases same
    exact ⟨own, now.1⟩

/-- With its result posted a message is settled, and its batch may be acknowledged. -/
theorem Holding.posted {m : StoredMessage} {rest : List StoredMessage} {cursor : Int}
    (holding : Holding F verify me room o (some m) (m :: rest) cursor past)
    (posted : PostedIn past m) : Committing F verify me room o rest cursor past := by
  obtain ⟨settled, batch, read⟩ := holding
  obtain ⟨batch, may⟩ := batch.next (fun _ => Or.inr posted)
  refine ⟨⟨?_, batch, read.next (fun _ => Or.inr posted)⟩, may⟩
  intro m' admitted selected
  rcases settled m' admitted selected with done | same
  · exact Or.inl done
  · cases same
    exact Or.inl posted

variable {m : StoredMessage} {item : WorkItem} {rest : List StoredMessage} {cursor : Int}

theorem refuseItem_upholds (task : item.taskId = m.id) (own : s.agent.pending room = cursor)
    (now : Holding F verify me room o (some m) (m :: rest) cursor past) :
    (refuseItem room o m item s).Upholds (workerRule F verify me room o)
      (Goes F verify me room o rest cursor) past := by
  refine Prog.Upholds.bind
    (postTerminal_upholds (fun op plain => holding_free op plain _ _ _) (Or.inr rfl) now) ?_
  rintro posted past ⟨now, shown⟩
  cases posted with
  | none => exact fun s impossible => nomatch impossible
  | some responseRoom =>
    have committing := now.posted (shown m responseRoom task rfl)
    refine ⟨trivial, ?_⟩
    intro r
    have committing := (committing_free (.complete [m]) rfl rest cursor).kept past r committing
    refine commitThen_upholds own committing ?_
    exact fun s past own now => settled_goes own now

theorem runItem_upholds (task : item.taskId = m.id) (own : s.agent.pending room = cursor)
    (now : Holding F verify me room o (some m) (m :: rest) cursor past) :
    (runItem room runner o m item s).Upholds (workerRule F verify me room o)
      (Goes F verify me room o rest cursor) past := by
  refine Prog.Upholds.bind (sending (fun op plain => holding_free op plain _ _ _) now) ?_
  rintro announced past ⟨now, -⟩
  cases announced with
  | none => exact fun s impossible => nomatch impossible
  | some _ =>
    refine Prog.Upholds.bind (presence_upholds (holding_free _ rfl _ _ _) now) ?_
    intro shown past now
    cases shown with
    | none => exact fun s impossible => nomatch impossible
    | some _ =>
      refine ⟨trivial, ?_⟩
      intro outcome
      have now := (holding_free (.ask (.run item)) rfl _ _ _).kept past outcome now
      refine ⟨trivial, ?_⟩
      intro r
      have now := (holding_free (.complete [m]) rfl _ _ _).kept _ r now
      have ends : (if (outcome : RunnerOutcome).succeeded then TaskStatus.done else .failed) = .done ∨
          (if (outcome : RunnerOutcome).succeeded then TaskStatus.done else .failed) = .failed := by
        split
        · exact Or.inl rfl
        · exact Or.inr rfl
      refine Prog.Upholds.bind
        (postTerminal_upholds (fun op plain => holding_free op plain _ _ _) ends now) ?_
      rintro posted past ⟨now, result⟩
      cases posted with
      | none => exact fun s impossible => nomatch impossible
      | some responseRoom =>
        refine commitThen_upholds own (now.posted (result m responseRoom task rfl)) ?_
        intro s past own now
        refine Prog.Upholds.bind (presence_upholds (committing_free _ rfl _ _) now) ?_
        exact fun _ past now => settled_goes own now

/-- An item is worked on, or refused by the rate gate. -/
theorem handleTrusted_work {trusted : SigStatus} (work : selectMessage m trusted me o = .work item)
    (own : s.agent.pending room = cursor)
    (now : Holding F verify me room o (some m) (m :: rest) cursor past) :
    (handleTrusted me room runner o m s trusted).Upholds (workerRule F verify me room o)
      (Goes F verify me room o rest cursor) past := by
  have task := (selectMessage_work work).2
  unfold handleTrusted
  rw [work]
  refine ⟨trivial, ?_⟩
  intro time
  have now := (holding_free (.ask .now) rfl _ _ _).kept past time now
  dsimp only
  split
  · exact runItem_upholds task own now
  · exact refuseItem_upholds task own now

/-- A message that is no work is skipped. -/
theorem handleTrusted_ignore {trusted : SigStatus} {reason : IgnoreReason}
    (ignored : selectMessage m trusted me o = .ignore reason)
    (own : s.agent.pending room = cursor)
    (now : Holding F verify me room o none (m :: rest) cursor past)
    (dealt : DealtIn F verify me o past m) :
    (handleTrusted me room runner o m s trusted).Upholds (workerRule F verify me room o)
      (Goes F verify me room o rest cursor) past := by
  obtain ⟨batch, may⟩ := now.2.1.next dealt
  unfold handleTrusted
  rw [ignored]
  exact skipMessage_upholds own ⟨⟨now.1, batch, now.2.2.next dealt⟩, may⟩

variable (me o) in
theorem selectMessage_invalid (m : StoredMessage) {trusted : SigStatus} (doubt : trusted ≠ .valid) :
    ∃ reason, selectMessage m trusted me o = .ignore reason := by
  cases selected : selectMessage m trusted me o with
  | work item => exact absurd (selectMessage_work selected).1 doubt
  | ignore reason => exact ⟨reason, rfl⟩

theorem handle_upholds (own : s.agent.pending room = cursor)
    (now : Holding F verify me room o none (m :: rest) cursor past) :
    (handle F verify me room runner o m s).Upholds (workerRule F verify me room o)
      (Goes F verify me room o rest cursor) past := by
  unfold handle
  split
  · refine ⟨now.1, ?_⟩
    intro admitted
    have batch := now.2.1.cons ⟨ClientCall.admitMessage m, admitted⟩
    have read := now.2.2.cons (d := ⟨ClientCall.admitMessage m, admitted⟩) (by
      rintro batch ⟨limit, wait, ack, room', cursor, -, same⟩
      cases same)
    cases admitted with
    | none => exact fun s impossible => nomatch impossible
    | some fresh =>
      cases fresh with
      | false =>
        have settled := now.1.cons (d := ⟨ClientCall.admitMessage m, some false⟩)
          (fun _ same => nomatch same)
        have doubt : SigStatus.invalid ≠ .valid := by decide
        obtain ⟨reason, ignored⟩ := selectMessage_invalid me o m doubt
        exact handleTrusted_ignore ignored own ⟨settled, batch, read⟩
          (fun _ => Or.inl List.mem_cons_self)
      | true =>
        have settled : SettledBut F verify me o (some m)
            (⟨ClientCall.admitMessage m, some true⟩ :: past) := by
          intro m' admitted selected
          rcases List.mem_cons.mp admitted with new | old
          · cases new
            exact Or.inr rfl
          · exact Or.inl (((now.1 m' old selected).resolve_right nofun).cons _)
        cases selected : selectMessage m .valid me o with
        | work item => exact handleTrusted_work selected own ⟨settled, batch, read⟩
        | ignore reason =>
          -- A message that is no work needs no result.
          have ignored : ¬ Selected F verify me o m := by
            rintro ⟨-, item, work⟩
            rw [selected] at work
            cases work
          refine handleTrusted_ignore selected own ⟨?_, batch, read⟩ (fun work => absurd work ignored)
          intro m' admitted work
          rcases settled m' admitted work with posted | same
          · exact Or.inl posted
          · cases same
            exact absurd work ignored
  · rename_i doubt
    have ignored : ¬ Selected F verify me o m := fun work => doubt work.1
    obtain ⟨reason, skipped⟩ := selectMessage_invalid me o m doubt
    exact handleTrusted_ignore skipped own now (fun work => absurd work ignored)

theorem handleAll_upholds {messages : List StoredMessage} (own : s.agent.pending room = cursor)
    (now : Holding F verify me room o none messages cursor past) :
    (handleAll F verify me room runner o messages s).Upholds (workerRule F verify me room o)
      (Goes F verify me room o [] cursor) past := by
  induction messages generalizing s past with
  | nil =>
    intro s' same
    cases same
    exact ⟨own, now⟩
  | cons m rest ih =>
    refine Prog.Upholds.bind (handle_upholds own now) ?_
    intro flow past goes
    cases flow with
    | «over» report => exact fun s impossible => nomatch impossible
    | go s =>
      obtain ⟨own, now⟩ := goes s rfl
      exact ih own now

/-- A pull of one message, with what comes back. -/
theorem pulling_upholds {a : MeshAgent} {wait : Option Nat} {I : MeshAgent × Option (List StoredMessage) →
      List (ClientDone workerHost) → Prop}
    (now : Committing F verify me room o [] (a.pending room) past)
    (received : ∀ a' messages past, Holding F verify me room o none messages (a'.pending room) past →
      I (a', some messages) past)
    (failed : ∀ a' past, I (a', none) past) :
    Prog.Upholds (workerRule F verify me room o) I
      (.call (ClientCall.request (.pull room none (some 1) wait (a.ackFor room))) fun reply =>
        .ret (a.pulled room reply)) past := by
  refine ⟨⟨fun _ => now.1.2.2, rfl, rfl, _, rfl, ?_⟩, ?_⟩
  · split
    · exact Or.inl rfl
    · exact now.2
  · intro reply
    show I (a.pulled room reply) _
    rcases a.pulled_cases room reply with ⟨room', messages, cursor, rfl, equal⟩ | equal
    · rw [equal]
      refine received _ messages _ ⟨now.1.1.cons (fun _ same => nomatch same), Or.inr ?_, ?_⟩
      · refine ⟨wait, a.ackFor room, room', [], ?_, by simp⟩
        rw [MeshAgent.pending_recordAck, if_pos rfl]
        exact List.mem_cons_self
      · -- What was read before is dealt with; the rest is the new batch.
        intro d member batch brings m listed
        rcases List.mem_cons.mp member with new | old
        · subst new
          obtain ⟨_, _, _, _, _, -, same⟩ := brings
          cases same
          exact Or.inr listed
        · have dealt := (now.1.2.2 d old batch brings m listed).resolve_right List.not_mem_nil
          exact Or.inl (dealt.cons _)
    · rw [equal]
      exact failed a _

theorem Holding.finished {cursor : Int}
    (holding : Holding F verify me room o none [] cursor past) :
    Committing F verify me room o [] cursor past :=
  ⟨holding, holding.2.1.acknowledges⟩

theorem pullWait_upholds {a : MeshAgent} (waits : Nat)
    (now : Committing F verify me room o [] (a.pending room) past) :
    (pullWait room a waits).Upholds (workerRule F verify me room o)
      (fun pulled past => ∀ messages, pulled.2 = some messages →
        Holding F verify me room o none messages (pulled.1.pending room) past) past := by
  induction waits generalizing a past with
  | zero =>
    intro messages same
    cases same
    exact now.1
  | succ waits ih =>
    refine Prog.Upholds.bind (J := fun pulled past => ∀ messages, pulled.2 = some messages →
      Holding F verify me room o none messages (pulled.1.pending room) past)
      (pulling_upholds now (fun a' messages past holding => by
        rintro _ ⟨⟩; exact holding) (fun _ _ _ impossible => nomatch impossible)) ?_
    rintro ⟨a, result⟩ past first
    match result, first with
    | none, first => exact first
    | some (_ :: _), first => exact first
    | some [], first =>
      have now := (first [] rfl).finished
      refine ⟨trivial, ?_⟩
      intro chunk
      have now := (committing_free (.ask .budget) rfl _ _).kept past chunk now
      match chunk with
      | none =>
        rintro _ ⟨⟩
        exact now.1
      | some chunk =>
        refine Prog.Upholds.bind (J := fun pulled past => ∀ messages, pulled.2 = some messages →
          Holding F verify me room o none messages (pulled.1.pending room) past)
          (pulling_upholds now (fun a' messages past holding => by
            rintro _ ⟨⟩; exact holding) (fun _ _ _ impossible => nomatch impossible)) ?_
        rintro ⟨a, result⟩ past second
        match result, second with
        | none, second => exact second
        | some (_ :: _), second => exact second
        | some [], second => exact ih (second [] rfl).finished

theorem watch_upholds (waits rounds : Nat)
    (now : Committing F verify me room o [] (s.agent.pending room) past) :
    (watch F verify me room runner o waits rounds s).Upholds (workerRule F verify me room o)
      (fun _ _ => True) past := by
  induction rounds generalizing s past with
  | zero => trivial
  | succ rounds ih =>
    refine Prog.Upholds.bind (pullWait_upholds waits now) ?_
    rintro ⟨a, result⟩ past pulled
    cases result with
    | none => trivial
    | some messages =>
      refine Prog.Upholds.bind (handleAll_upholds rfl (pulled messages rfl)) ?_
      intro flow past goes
      cases flow with
      | «over» report => trivial
      | go s =>
        obtain ⟨own, now⟩ := goes s rfl
        refine ih ?_
        rw [own]
        exact now.finished

/-- A worker keeps to the order from its start. -/
theorem run_follows (waits rounds : Nat) :
    (run F verify me room runner o waits rounds).Follows (workerRule F verify me room o) [] := by
  have fresh : Committing F verify me room o [] 0 [] :=
    ⟨⟨(fun _ admitted => nomatch admitted), Or.inl ⟨rfl, Or.inl rfl⟩,
      (fun _ member => nomatch member)⟩, Or.inl rfl⟩
  refine Prog.Upholds.follows (I := fun _ _ => True) ?_
  refine Prog.Upholds.bind (presence_upholds (committing_free _ rfl _ _) fresh) ?_
  intro shown past now
  cases shown with
  | none => trivial
  | some _ => exact watch_upholds waits rounds now

end Order

end Parler.Cli
