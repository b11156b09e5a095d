import Parler.Connector.Runtime

/-!
# The local supervisor

`parler supervise`, from `crates/parler-cli/src/work.rs`: a runner command is started for every task
of a role queue that this process has claimed, or for every message of a room that the attention
policy wakes on, and the status of the task is posted into the room. The child process is the host:
it is asked to start, and then whether it has ended before the lease is to be renewed.
-/

namespace Parler.Cli

open Parler.Lib Parler.Protocol Parler.Hub Parler.Connector

/-- The settings that the supervisor itself reads; the command line, the time limit and the cap of the
    output only reach the child. -/
structure SuperviseOptions where
  room : String
  kind : RoomKind
  role : Option String
  leaseSecs : Nat
  once : Bool

/-- How the start of the child went; an error is reported as output. -/
inductive Spawned where
  | started
  | unstarted (output : String)
  | unfed (output : String)

/-- What the child has come to when it ends, when the lease is due, or when it cannot be waited for. -/
inductive Waited where
  | ended (succeeded : Bool) (output : String)
  | renew
  | broken

inductive SuperviseAsk where
  | spawn (message : StoredMessage)
  | wait (message : StoredMessage)
  /-- Whether the last presence is a minute old. -/
  | stale
  /-- The doorbell, or a pause. -/
  | doorbell

def superviseHost : Host where
  Ask := SuperviseAsk
  Answer
    | .spawn _ => Spawned
    | .wait _ => Waited
    | .stale => Bool
    | .doorbell => Option Unit

abbrev SuperviseClient (α : Type) := Client superviseHost α

/-- `RunnerOutcome` of `work.rs`. -/
structure ChildOutcome where
  succeeded : Bool
  leaseLost : Bool
  output : String

def shortId (id : String) : String := String.ofList (id.toList.take 8)

section Program

variable (rt : ConnectorRuntime) (o : SuperviseOptions)

/-- `ConnectorRuntime::lifecycle`. -/
def lifecycle (status : String) (activity : Option String) : SuperviseClient (Option Unit) :=
  presence status activity (some rt.attention.mode)

/-- `MeshAgent::claim`. -/
def claim (room message : String) (leaseSecs : Option Nat) : SuperviseClient (Option (Option Int)) :=
  .call (ClientCall.request (.claim room message leaseSecs)) fun reply =>
    match (reply : Option ServerFrame) with
    | some (.claimed _ _ claimed leaseUntil) => .ret (some (if claimed then leaseUntil else none))
    | _ => .ret none

/-- `MeshAgent::queue`. -/
def queue (room role : String) (limit : Option Nat) : SuperviseClient (Option (List StoredMessage)) :=
  .call (ClientCall.request (.queue room role limit)) fun reply =>
    match (reply : Option ServerFrame) with
    | some (.queued _ messages) => .ret (some messages)
    | _ => .ret none

/-- `MeshAgent::complete_claim`. -/
def completeClaim (room message : String) (status : TaskStatus) : SuperviseClient (Option Bool) :=
  .call (ClientCall.request (.complete room message status)) fun reply =>
    match (reply : Option ServerFrame) with
    | some (.completed _ _ completed) => .ret (some completed)
    | _ => .ret none

/-- The parts of a status message. -/
def statusParts (source : StoredMessage) (status : TaskStatus) (note : String)
    (output : Option String) : List Part :=
  [(TaskRef.mk status (some source.id) (some note) none none none).toPart] ++
    output.toList.map Part.text

/-- `post_status`. -/
def postStatus (room : String) (source : StoredMessage) (status : TaskStatus) (note : String)
    (output : Option String) : SuperviseClient (Option Unit) :=
  send (.room room) (statusParts source status note output) none (some source.id) >>= fun sent =>
    .ret (sent.map fun _ => ())

/-- Wait for the child, renewing the lease of a claimed task. -/
def watchChild (message : StoredMessage) : Nat → SuperviseClient (Option ChildOutcome)
  | 0 => .ret none
  | ticks + 1 =>
      .call (ClientCall.ask (.wait message)) fun (waited : Waited) =>
        match waited with
        | .ended succeeded output => .ret (some ⟨succeeded, false, output⟩)
        | .broken => .ret none
        | .renew =>
            match o.role with
            | none => watchChild message ticks
            | some role =>
                claim o.room message.id (some o.leaseSecs) >>= fun renewed =>
                  match renewed with
                  | none => .ret none
                  | some none => .ret (some ⟨false, true, ""⟩)
                  | some (some _) =>
                      lifecycle rt "working"
                        (some ("running task " ++ shortId message.id ++ " (" ++ role ++ ")")) >>=
                        fun shown =>
                          match shown with
                          | none => .ret none
                          | some _ => watchChild message ticks

/-- `run_runner`. -/
def runRunner (ticks : Nat) (message : StoredMessage) : SuperviseClient (Option ChildOutcome) :=
  .call (ClientCall.ask (.spawn message)) fun (spawned : Spawned) =>
    match spawned with
    | .unstarted output | .unfed output => .ret (some ⟨false, false, output⟩)
    | .started => watchChild rt o message ticks

/-- What `run_one` does with an outcome. -/
def report (message : StoredMessage) (claimed : Bool) (outcome : ChildOutcome) :
    SuperviseClient (Option Bool) :=
  if outcome.leaseLost then
    lifecycle rt "waiting" (some "waiting for role work") >>= fun shown => .ret (shown.map fun _ => false)
  else
    let status : TaskStatus := if outcome.succeeded then .done else .failed
    let note := if outcome.succeeded then "local runner completed" else "local runner failed"
    let output := if trim outcome.output = "" then none else some outcome.output
    postStatus o.room message status note output >>= fun posted =>
      match posted with
      | none => .ret none
      | some _ =>
          (if claimed then completeClaim o.room message.id status else .ret (some true)) >>= fun closed =>
            match closed with
            | none => .ret none
            | some _ =>
                lifecycle rt "waiting" (some "waiting for work") >>= fun shown =>
                  .ret (shown.map fun _ => true)

/-- `run_one`: whether the task was completed, `none` on an error. -/
def runOne (ticks : Nat) (claimed : Bool) (message : StoredMessage) : SuperviseClient (Option Bool) :=
  lifecycle rt "working" (some ("running task " ++ shortId message.id)) >>= fun shown =>
    match shown with
    | none => .ret none
    | some _ =>
        postStatus o.room message .accepted "local worker accepted the task" none >>= fun posted =>
          match posted with
          | none => .ret none
          | some _ =>
              postStatus o.room message .working "local runner is working" none >>= fun posted =>
                match posted with
                | none => .ret none
                | some _ =>
                    runRunner rt o ticks message >>= fun outcome =>
                      match outcome with
                      | none => .ret none
                      | some outcome =>
                          .call (ClientCall.complete [message]) fun _ => report rt o message claimed outcome

/-- `should_run`. -/
def shouldRun (message : StoredMessage) : Bool :=
  match o.role with
  | none => true
  | some role =>
      (message.parts.filterMap dispatchRole).any (fun dispatch => eqIgnoreAsciiCase dispatch role) &&
        rt.attention.decide o.room .service message rt.me.name (some role) = .wake

/-- `reject_untrusted_claim`. -/
def rejectUntrustedClaim (message : StoredMessage) : SuperviseClient (Option Unit) :=
  postStatus o.room message .failed
    "local supervisor refused an unsigned, invalid, misrouted, or replayed task" none >>= fun posted =>
      match posted with
      | none => .ret none
      | some _ =>
          completeClaim o.room message.id .failed >>= fun closed =>
            match closed with
            | none => .ret none
            | some _ => lifecycle rt "waiting" (some "waiting for work")

/-- How a pass over the tasks ends: with whether one was completed, by returning, or by an error. -/
inductive Pass where
  | on (completed : Bool)
  | returned
  | failed

/-- The body of the loop over a role queue. -/
def takeTask (ticks : Nat) (message : StoredMessage) (completed : Bool) : SuperviseClient Pass :=
  if !shouldRun rt o message then .ret (.on completed)
  else
    claim o.room message.id (some o.leaseSecs) >>= fun claimed =>
      match claimed with
      | none => .ret .failed
      | some none => .ret (.on completed)
      | some (some _) =>
          .call (ClientCall.admitMessage message) fun admitted =>
            match (admitted : Option Bool) with
            | none => .ret .failed
            | some false =>
                rejectUntrustedClaim rt o message >>= fun rejected =>
                  .ret (match rejected with
                    | none => .failed
                    | some _ => .on completed)
            | some true =>
                runOne rt o ticks true message >>= fun ran =>
                  .ret (match ran with
                    | none => .failed
                    | some false => .on completed
                    | some true => if o.once then .returned else .on true)

def takeTasks (ticks : Nat) : List StoredMessage → Bool → SuperviseClient Pass
  | [], completed => .ret (.on completed)
  | message :: rest, completed =>
      takeTask rt o ticks message completed >>= fun pass =>
        match pass with
        | .on completed => takeTasks ticks rest completed
        | other => .ret other

/-- The loop over the messages of a room. -/
def runAll (ticks : Nat) : List StoredMessage → Bool → SuperviseClient (Option Bool)
  | [], completed => .ret (some completed)
  | message :: rest, completed =>
      runOne rt o ticks false message >>= fun ran =>
        match ran with
        | none => .ret none
        | some done => runAll ticks rest (completed || done)

/-- One pass over a room: receive, run what wakes, and acknowledge. -/
def roomPass (ticks : Nat) (a : MeshAgent) : SuperviseClient (MeshAgent × Pass) :=
  rt.receive o.room o.kind none a (some (if o.once then 1 else 100)) >>= fun received =>
    match received.2 with
    | none => .ret (received.1, .failed)
    | some batch =>
        runAll rt o ticks batch.messages false >>= fun ran =>
          match ran with
          | none => .ret (received.1, .failed)
          | some completed =>
              (if !batch.held && !batch.messages.isEmpty then received.1.commitReads o.room
                else .ret (received.1, some ())) >>= fun committed =>
                  .ret (committed.1, match committed.2 with
                    | none => .failed
                    | some _ => if completed && o.once then .returned else .on completed)

/-- One pass over the tasks. -/
def pass (ticks : Nat) (a : MeshAgent) : SuperviseClient (MeshAgent × Pass) :=
  match o.role with
  | some role =>
      queue o.room role (some 20) >>= fun listed =>
        match listed with
        | none => .ret (a, .failed)
        | some messages => takeTasks rt o ticks messages false >>= fun pass => .ret (a, pass)
  | none => roomPass rt o ticks a

/-- The loop, for a number of rounds; `none` is an error. -/
def superviseLoop (ticks : Nat) : Nat → MeshAgent → SuperviseClient (Option Unit)
  | 0, _ => .ret none
  | rounds + 1, a =>
      pass rt o ticks a >>= fun passed =>
        match passed.2 with
        | .failed => .ret none
        | .returned => .ret (some ())
        | .on completed =>
            .call (ClientCall.ask .stale) fun (stale : Bool) =>
              (if completed || stale then
                  lifecycle rt "waiting" (some ("supervising " ++ o.role.getD "room"))
                else .ret (some ())) >>= fun shown =>
                match shown with
                | none => .ret none
                | some _ =>
                    .call (ClientCall.ask .doorbell) fun (rung : Option Unit) =>
                      match rung with
                      | none => .ret none
                      | some _ => superviseLoop ticks rounds passed.1

/-- `supervise`. -/
def supervise (ticks rounds : Nat) : SuperviseClient (Option Unit) :=
  lifecycle rt "idle" none >>= fun shown =>
    match shown with
    | none => .ret none
    | some _ =>
        lifecycle rt "waiting" (some ("supervising " ++ o.role.getD "room")) >>= fun shown =>
          match shown with
          | none => .ret none
          | some _ =>
              -- Live push only rings the doorbell earlier.
              .call (ClientCall.request .subscribe) fun _ => superviseLoop rt o ticks rounds .fresh

end Program

end Parler.Cli
