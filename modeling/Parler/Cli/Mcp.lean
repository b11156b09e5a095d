import Parler.Cli.Conversation
import Parler.Cli.Downloads

/-!
# The tools of the MCP server that read

`parler_recv`, `parler_send`, `parler_join` and `parler_join_session` of `crates/parler-cli/src/mcp.rs`,
and the loop that answers the host. What a tool shows is counted in messages: those that it renders and
those that its omission line stands for.
-/

namespace Parler.Protocol

/-- `TaskStatus::marker` -/
def TaskStatus.marker : TaskStatus → String
  | .accepted => "🟢"
  | .working => "🔧"
  | .awaiting => "⏳"
  | .done => "✅"
  | .failed => "❌"
  | .cancelled => "🚫"

end Parler.Protocol

namespace Parler.Cli

open Parler.Lib Parler.Protocol Parler.Hub Parler.Connector

/-! ## Rendering -/

/-- What `render_parts` shows of a part; nothing of a signature. -/
def renderPart (F : FloatFormat) (p : Part) : Option String :=
  if isMessageSigPart p then none
  else
    match BundleRef.fromPart p, FileRef.fromPart p, HandoffRef.fromPart p, TaskRef.fromPart p with
    | some b, _, _, _ =>
        let tip := (b.tip.map fun t => " @" ++ (short t).getD t).getD ""
        some ("📦 " ++ b.summary.getD "(bundle)" ++ tip ++ " (" ++ toString b.size ++
          " bytes) — parler apply " ++ b.blob)
    | none, some f, _, _ =>
        let summary := (f.summary.map fun s => " — " ++ s).getD ""
        some ("📎 " ++ f.name ++ " (" ++ toString f.size ++ " bytes)" ++ summary ++ " — parler fetch " ++
          f.blob ++ " -o " ++ f.name)
    | none, none, some h, _ =>
        let done := (h.summary.map fun s => "  (done: " ++ s ++ ")").getD ""
        let bundle := (h.bundle.map fun blob => "  — parler apply " ++ blob).getD ""
        some ("🤝 handoff → " ++ h.addressee.getD "anyone" ++ ": " ++ h.next ++ done ++ bundle)
    | none, none, none, some t =>
        let id := (t.task.map fun i => " (" ++ i ++ ")").getD ""
        let note := (t.note.map fun n => ": " ++ n).getD ""
        let result := (t.result.map fun blob => " — parler fetch " ++ blob).getD ""
        some (t.status.marker ++ " task " ++ t.status.label ++ id ++ note ++ result)
    | none, none, none, none =>
        match p with
        | .text text => some text
        | .data value => some ("[data] " ++ String.ofList (render F value.json))
        | .extension kind _ => some ("[" ++ kind ++ "]")

/-- `render_parts` -/
def renderParts (F : FloatFormat) (parts : List Part) : String :=
  " ".intercalate (parts.filterMap (renderPart F))

def seedMarker : String := "📋 session context"

/-- The message reads as the context that a session was opened with. -/
def isSeed (F : FloatFormat) (m : StoredMessage) : Bool :=
  seedMarker.toList.isPrefixOf ((renderParts F m.parts).toList.dropWhile isWhitespace)

inductive Backlog where
  | recent
  | full
  deriving DecidableEq

def Backlog.fromArg (arg : Option String) : Backlog := if arg = some "full" then .full else .recent

/-- `JOIN_TAIL` -/
def joinTail : Nat := 15

/-- What a tool returns: whether it is an error, the messages it renders, and those that its omission
    line stands for by their number and the seq before the first of them. -/
structure ToolResult where
  isError : Bool
  rendered : List StoredMessage
  omitted : List StoredMessage
  deriving DecidableEq

def ToolResult.failed : ToolResult := ⟨true, [], []⟩

/-- A result without messages. -/
def ToolResult.note : ToolResult := ⟨false, [], []⟩

/-- `digest_backlog` -/
def digestBacklog (F : FloatFormat) (messages : List StoredMessage) (mode : Backlog) : ToolResult :=
  if mode = .full ∨ messages.length ≤ joinTail then ⟨false, messages, []⟩
  else
    let tailStart := messages.length - joinTail
    -- The first message that reads as a seed, if it is before the tail.
    let seed := (messages.findIdx? (isSeed F)).filter (fun i => i < tailStart)
    let omittedStart := (seed.map (fun i => i + 1)).getD 0
    ⟨false, (seed.bind (fun i => messages[i]?)).toList ++ messages.drop tailStart,
      (messages.take tailStart).drop omittedStart⟩

/-! ## The host -/

/-- What `parler_send` is called with. -/
structure SendArgs where
  text : Option String
  room : Option String
  addressee : Option String
  service : Option String
  role : Option String

/-- What the host calls. A key that is not for this hub, or is missing, has no code; the tools,
    resources and prompts that leave the cursors alone are what they send. -/
inductive McpCall where
  | recv (room : Option String) (since : Option Int) (limit waitSecs : Option Nat)
  | send (args : SendArgs)
  | joinSession (code backlog : Option String)
  | join (code : Option String)
  | other (frames : List ClientFrame)

/-- The next thing that happens: a call with the session that is active, a tick of the heartbeat with
    the presence that it shows, or the end of the input. -/
inductive McpInput where
  | line (call : McpCall) (active : Option String)
  | tick (status : String) (activity : Option String)
  | closed

inductive McpAsk where
  | next
  | reply (result : ToolResult)
  /-- How long the hub is asked to park a pull. -/
  | budget
  /-- Whether a join that waits for approval is asked for again. -/
  | poll
  /-- `PARLER_SESSION_KEY`, if it is set, by its code. -/
  | sessionKey
  /-- A line on standard error. -/
  | log (result : ToolResult)

def mcpHost : Host where
  Ask := McpAsk
  Answer
    | .next => McpInput
    | .reply _ => Unit
    | .budget => Option Nat
    | .poll => Bool
    | .sessionKey => Option (Option String)
    | .log _ => Unit

abbrev McpClient (α : Type) := Client mcpHost α

/-- What the server is set up with; the test of an agent id is that of the `nkeys` library. -/
structure McpServer where
  floats : FloatFormat
  me : Authed
  verbose : Bool
  isAgentId : String → Bool

section Program

variable (S : McpServer)

/-! ## Sending -/

/-- `select_target`; `none` is the error for more than one target. -/
def selectTarget (room addressee service : Option String) : Option (Option Target) :=
  match room, addressee, service with
  | none, none, none => some none
  | some room, none, none => some (some (.room room))
  | none, some agent, none => some (some (.dm agent))
  | none, none, some service => some (some (.service service))
  | _, _, _ => none

/-- The target of `parler_send` and the role that it dispatches to; `none` is an error. -/
def SendArgs.target (args : SendArgs) (active : Option String) : Option (Target × Option String) :=
  match (args.role.map trim).filter (fun role => role ≠ "") with
  | some role =>
      if args.room.isSome || args.addressee.isSome || args.service.isSome then none
      else some (.service role, some role)
  | none =>
      if args.role.isSome then none
      else
        match selectTarget args.room args.addressee args.service with
        | none => none
        | some (some target) => some (target, none)
        | some none => active.map (fun room => (.room room, none))

def discover (query : Option String) (limit : Nat) : McpClient (Option (List DirectoryEntry)) :=
  .call (ClientCall.request (.discover .hub query none none none (some limit))) fun reply =>
    match (reply : Option ServerFrame) with
    | some (.directory agents) => .ret (some agents)
    | _ => .ret none

/-- `resolve_target` -/
def resolveTarget (target : Target) : McpClient (Option Target) :=
  match target with
  | .dm agent =>
      if S.isAgentId agent then .ret (some target)
      else
        let named := fun e : DirectoryEntry => eqIgnoreAsciiCase e.card.name agent
        discover (some agent) 50 >>= fun found =>
          match found with
          | none => .ret none
          | some found =>
              (if found.any named then .ret (some found) else discover none 500) >>= fun found =>
                match found.map (fun found => found.filter named) with
                | some [entry] => .ret (some (.dm entry.card.id))
                | _ => .ret none
  | _ => .ret (some target)

/-- `pending_join_notice`, which no error gets out of. -/
def pendingJoinNotice (room : String) : McpClient Unit :=
  .call (ClientCall.request (.joinRequests room)) fun _ => .ret ()

/-- `AUTOPULL_LIMIT` -/
def autopullLimit : Nat := 10

/-- What `parler_send` does once it has its target: the pull after the message may fail. -/
def sendTo (a : MeshAgent) (target : Target) (parts : List Part) : McpClient (MeshAgent × ToolResult) :=
  resolveTarget S target >>= fun target =>
    match target with
    | none => .ret (a, .failed)
    | some target =>
        Connector.send target parts none none >>= fun sent =>
          match sent with
          | none => .ret (a, .failed)
          | some (_, _, room) =>
              a.pull room (if S.verbose then none else some autopullLimit) >>= fun pulled =>
                let incoming := (pulled.2.getD []).filter (fun m => m.sender.id ≠ S.me.id)
                pendingJoinNotice room >>= fun _ => .ret (pulled.1, ⟨false, incoming, []⟩)

/-- `parler_send` -/
def sendTool (a : MeshAgent) (args : SendArgs) (active : Option String) :
    McpClient (MeshAgent × ToolResult) :=
  match args.text, args.target active with
  | some text, some (target, role) =>
      sendTo S a target (.text text :: (role.map dispatchPart).toList)
  | _, _ => .ret (a, .failed)

/-! ## Receiving -/

/-- `recv_limit`, with `RECV_DEFAULT_LIMIT`. -/
def recvLimit (explicit : Option Nat) (verbose : Bool) : Option Nat :=
  explicit.or (if verbose then none else some 30)

/-- A re-read of the history. -/
def reread (a : MeshAgent) (room : String) (since : Int) (limit : Option Nat) :
    McpClient (MeshAgent × ToolResult) :=
  .call (ClientCall.request (.pull room (some since) limit none none)) fun reply =>
    match (reply : Option ServerFrame) with
    | some (.pulled _ messages _) =>
        pendingJoinNotice room >>= fun _ => .ret (a, ⟨false, messages, []⟩)
    | _ => .ret (a, .failed)

/-- The pull of `parler_recv`, which waits where there is nothing and the host says so. -/
def pullOrWait (waits : Nat) (a : MeshAgent) (room : String) (limit waitSecs : Option Nat) :
    McpClient (MeshAgent × Option (List StoredMessage)) :=
  a.pull room limit >>= fun pulled =>
    if pulled.2 = some [] ∧ (waitSecs.filter (fun secs => 0 < secs)).isSome then
      .call (ClientCall.request .subscribe) fun _ =>
        pulled.1.pullWait (Prog.perform (M := clientMachine mcpHost) (ClientCall.ask .budget)) room limit
          waits
    else .ret pulled

/-- The read of `parler_recv` with the cursor: the batch is committed before it is returned. -/
def recvNew (waits : Nat) (a : MeshAgent) (room : String) (limit waitSecs : Option Nat) :
    McpClient (MeshAgent × ToolResult) :=
  pullOrWait waits a room limit waitSecs >>= fun pulled =>
    match pulled.2 with
    | none => .ret (pulled.1, .failed)
    | some messages =>
        (if messages.isEmpty then .ret (pulled.1, some ()) else pulled.1.commitReads room) >>= fun committed =>
          match committed.2 with
          | none => .ret (committed.1, .failed)
          | some _ => pendingJoinNotice room >>= fun _ => .ret (committed.1, ⟨false, messages, []⟩)

/-- `parler_recv` -/
def recvTool (waits : Nat) (a : MeshAgent) (room active : Option String) (since : Option Int)
    (limit waitSecs : Option Nat) : McpClient (MeshAgent × ToolResult) :=
  match room.or active, since with
  | none, _ => .ret (a, .failed)
  | some room, some since => reread a room since (recvLimit limit S.verbose)
  | some room, none => recvNew waits a room (recvLimit limit S.verbose) waitSecs

/-! ## Joining -/

/-- `enter_session` -/
def enterSession (a : MeshAgent) (room : String) (mode : Backlog) : McpClient (MeshAgent × ToolResult) :=
  a.pull room none >>= fun pulled =>
    match pulled.2 with
    | none => .ret (pulled.1, .failed)
    | some messages =>
        pulled.1.commitReads room >>= fun committed =>
          match committed.2 with
          | none => .ret (committed.1, .failed)
          | some _ =>
              Connector.send (.room room) [.text (S.me.name ++ " joined the session")] none none >>= fun _ =>
                .call (ClientCall.request
                  (.«recall» "SESSION DIGEST" (some room) (some 1) none (some "session-digest"))) fun _ =>
                  .call (ClientCall.request (.roster room)) fun _ =>
                    .ret (committed.1, digestBacklog S.floats messages mode)

inductive JoinOutcome where
  | joined (room : String) (kind : RoomKind)
  | pending (room : String)

/-- `redeem` -/
def redeem (code : String) : McpClient (Option JoinOutcome) :=
  .call (ClientCall.request (.redeem code)) fun reply =>
    match (reply : Option ServerFrame) with
    | some (.joined room kind) => .ret (some (.joined room kind))
    | some (.joinPending room) => .ret (some (.pending room))
    | _ => .ret none

/-- `wait_for_approval`: the room when it was granted, nothing while it is not, and `none` as error. -/
def waitForApproval (code : String) : Nat → McpClient (Option (Option String))
  | 0 => .ret (some none)
  | polls + 1 =>
      .call (ClientCall.ask .poll) fun (again : Bool) =>
        if again then
          redeem code >>= fun outcome =>
            match outcome with
            | none => .ret none
            | some (.joined room _) => .ret (some (some room))
            | some (.pending _) => waitForApproval code polls
        else .ret (some none)

/-- `join_session` and `parler_join`, which enters channels only. -/
def joinTool (waits : Nat) (a : MeshAgent) (code : Option String) (always : Bool) (mode : Backlog) :
    McpClient (MeshAgent × ToolResult) :=
  match code with
  | none => .ret (a, .failed)
  | some code =>
      redeem code >>= fun outcome =>
        match outcome with
        | none => .ret (a, .failed)
        | some (.joined room kind) =>
            if always ∨ kind = .channel then enterSession S a room mode else .ret (a, .note)
        | some (.pending _) =>
            waitForApproval code waits >>= fun granted =>
              match granted with
              | none => .ret (a, .failed)
              | some (some room) => enterSession S a room mode
              | some none => .ret (a, .note)

/-! ## The loop -/

/-- A pull that goes by the cursor. -/
def readsCursor : ClientFrame → Bool
  | .pull _ none _ _ _ => true
  | _ => false

/-- Other requests, up to the first that fails. -/
def sendAll (a : MeshAgent) : List ClientFrame → McpClient (MeshAgent × ToolResult)
  | [] => .ret (a, .note)
  | frame :: rest =>
      if readsCursor frame then .ret (a, .failed)
      else
        .call (ClientCall.request frame) fun reply =>
          match (reply : Option ServerFrame) with
          | none => .ret (a, .failed)
          | some _ => sendAll a rest

/-- `handle` -/
def answerCall (waits : Nat) (a : MeshAgent) (active : Option String) :
    McpCall → McpClient (MeshAgent × ToolResult)
  | .recv room since limit waitSecs => recvTool S waits a room active since limit waitSecs
  | .send args => sendTool S a args active
  | .joinSession code backlog => joinTool S waits a code true (Backlog.fromArg backlog)
  | .join code => joinTool S waits a code false .recent
  | .other frames => sendAll a frames

/-- `heartbeat_presence` -/
def heartbeatPresence (status : String) (activity : Option String) : McpClient Unit :=
  .call (ClientCall.request .ping) fun _ =>
    .call (ClientCall.request (.presence status activity none)) fun _ => .ret ()

/-- `flush_acks`, over the rooms in some order. -/
def flushAcks : List String → MeshAgent → McpClient Unit
  | [], _ => .ret ()
  | room :: rest, a => a.commitReads room >>= fun committed => flushAcks rest committed.1

/-- The loop over the input, for a number of rounds; a process may also stop anywhere. -/
def serveCalls (waits : Nat) : Nat → MeshAgent → McpClient Unit
  | 0, _ => .ret ()
  | rounds + 1, a =>
      .call (ClientCall.ask .next) fun (input : McpInput) =>
        match input with
        | .closed => flushAcks ((a.pendingAck.map Prod.fst).filter (fun room => room ∉ a.heldReads)) a
        | .tick status activity => heartbeatPresence status activity >>= fun _ => serveCalls waits rounds a
        | .line call active =>
            answerCall S waits a active call >>= fun answered =>
              .call (ClientCall.ask (.reply answered.2)) fun _ => serveCalls waits rounds answered.1

/-- `serve_stdio`, from where it joins the session of the environment: what the join returns goes to
    standard error. -/
def serveStdio (waits rounds : Nat) (a : MeshAgent) : McpClient Unit :=
  .call (ClientCall.ask .sessionKey) fun (key : Option (Option String)) =>
    match key with
    | none => serveCalls S waits rounds a
    | some code =>
        joinTool S waits a code true .recent >>= fun joined =>
          .call (ClientCall.ask (.log joined.2)) fun _ => serveCalls S waits rounds joined.1

end Program

end Parler.Cli
