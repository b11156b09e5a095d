import Parler.Cli.Turns

/-!
# The hooks of Claude Code

The hook processes of `crates/parler-cli/src/conversation/claude.rs`. Each hook event of a visible session
starts a process of its own: `prompt_hook`, `wake_hook` (at a start and at a stop) and `end_hook`. They
share a state file for each session, a watch lock, and the bootstrap file of the launcher. The state file
is changed under a lock and replaced by a rename, so a change is one step.
-/

namespace Parler.Connector.MeshAgent

open Parler.Lib Parler.Protocol Parler.Hub

variable {H : Host}

/-- `commit_reads_through`. -/
def commitThrough (a : MeshAgent) (room : String) (cursor : Int) : Client H (MeshAgent × Option Unit) :=
  if a.commitSkips room cursor then .ret (a.release room, some ())
  else
    .call (ClientCall.request (.pull room none (some 0) none (some cursor))) fun reply =>
      match (reply : Option ServerFrame) with
      | some (.pulled ..) => .ret (a.recordCommit room cursor, some ())
      | _ => .ret (a, none)

theorem commitReads_eq (a : MeshAgent) (room : String) :
    (a.commitReads room : Client H (MeshAgent × Option Unit)) = a.commitThrough room (a.pending room) := rfl

end Parler.Connector.MeshAgent

namespace Parler.Cli

open Parler.Lib Parler.Protocol Parler.Hub Parler.Connector

/-! ## The state of a session -/

/-- `MAX_CONTEXT_CHARS` -/
def maxContextChars : Nat := 24000

/-- `MAX_LOCAL_PROMPTS` -/
def maxLocalPrompts : Nat := 32

/-- `CLAUDE_WAKE_PROMPT_CHARS` -/
def claudeWakePromptChars : Nat := 9000

/-- What the model is working on: the context of the room, or one message. -/
inductive Pending where
  | bootstrap (cursor : Int)
  | message (id : String)
  deriving DecidableEq

structure HookState where
  /-- A `u64` that wraps. -/
  generation : Nat
  prompts : List String
  pending : Option Pending
  deriving DecidableEq

/-- `HookState::default` -/
def HookState.fresh : HookState := ⟨0, [], none⟩

/-- What the launcher leaves for the first hook. -/
structure Bootstrap where
  prompt : Option String
  commitCursor : Option Int
  deriving DecidableEq

structure HookInput where
  sessionId : String
  event : String
  source : Option String
  prompt : Option String
  lastAssistantMessage : Option String
  deriving DecidableEq

namespace HookState

def bump (s : HookState) : HookState := { s with generation := (s.generation + 1) % 2 ^ 64 }

/-- The prompts after one more; the oldest make room. -/
def submit (s : HookState) (prompt : String) : HookState :=
  let prompts := s.prompts ++ [clip prompt maxContextChars]
  { s.bump with prompts := prompts.drop (prompts.length - maxLocalPrompts) }

/-- `prepare_wake_state` -/
def prepareWakeState (input : HookInput) (s : HookState) : Bool × HookState :=
  if input.event = "SessionStart" then
    if input.source = some "clear" ∨ input.source = some "compact" then (false, s)
    else (true, { s.bump with prompts := [], pending := none })
  else if input.event = "Stop" then (true, s.bump)
  else (false, s)

/-- The message becomes the pending one, unless something happened since. -/
def accept (generation : Nat) (id : String) (s : HookState) : Bool × HookState :=
  if s.generation ≠ generation ∨ s.pending.isSome then (false, s)
  else (true, { s with pending := some (.message id) })

/-- What the snapshot had is done. -/
def finish (snapshot s : HookState) : HookState :=
  { s with
    pending := if s.pending = snapshot.pending then none else s.pending
    prompts :=
      if snapshot.prompts.isPrefixOf s.prompts then s.prompts.drop snapshot.prompts.length else s.prompts }

end HookState

/-- `local_turn` -/
def localTurn (prompts : List String) (answer : String) : String :=
  let prompt := String.intercalate "\n\nUser: " ((prompts.map trim).filter (fun p => p ≠ ""))
  if prompt = "" then trim answer
  else if trim answer = "" then "User: " ++ prompt
  else "User: " ++ prompt ++ "\n\nAgent: " ++ trim answer

/-! ## The files that the hooks share -/

/-- A change of the state file (`modify_state`). -/
inductive StateChange where
  | prompt (text : String)
  | ending
  | prepare (input : HookInput)
  | adoptBootstrap (cursor : Int)
  | accept (generation : Nat) (id : String)
  | finish (snapshot : HookState)
  deriving DecidableEq

/-- What a change hands back. -/
def StateChange.Out : StateChange → Type
  | .ending => Nat
  | .prepare _ | .accept .. => Bool
  | _ => Unit

def StateChange.apply : (change : StateChange) → HookState → change.Out × HookState
  | .prompt text, s => ((), s.submit text)
  | .ending, s => (s.bump.generation, s.bump)
  | .prepare input, s => s.prepareWakeState input
  | .adoptBootstrap cursor, s => ((), { s with pending := some (.bootstrap cursor) })
  | .accept generation id, s => s.accept generation id
  | .finish snapshot, s => ((), s.finish snapshot)

/-- What a hook does besides talking to the hub. -/
inductive HookAsk where
  | modify (session : String) (change : StateChange)
  | readState (session : String)
  /-- The removal of an ended state, under its lock. -/
  | removeState (session : String) (generation : Nat)
  /-- `acquire_watch_lock_for`; it may time out. -/
  | acquireWatch (session : String)
  | dropWatch (session : String)
  /-- `load_active_session` -/
  | activeSession
  | connect
  | takeBootstrap
  /-- The texts of the files that come with a message, for its prompt. -/
  | livePrompt (message : StoredMessage)
  /-- How long to park for a message, if there is time left. -/
  | budget
  /-- The process ends with status 2: Claude Code starts a turn with the prompt. -/
  | rewake (message : Option StoredMessage) (prompt : String)

/-- What comes back; `none` is an error where there can be one. -/
def HookAsk.Answer : HookAsk → Type
  | .modify _ change => Option change.Out
  | .readState _ => Option HookState
  | .removeState .. => Option Unit
  | .acquireWatch _ => Option Bool
  | .dropWatch _ => Unit
  | .activeSession => Option String
  | .connect => Option Unit
  | .takeBootstrap => Option (Option Bootstrap)
  | .livePrompt _ => String
  | .budget => Option Nat
  | .rewake .. => Unit

def claudeHost : Host := ⟨HookAsk, HookAsk.Answer⟩

abbrev HookClient (α : Type) := Client claudeHost α

/-- The directory of the hooks, and the file with the active session. -/
structure HookDir where
  states : String → Option HookState
  /-- The process that holds the watch lock of a session. -/
  watch : String → Option Nat
  bootstrap : Option Bootstrap
  activeSession : Option String

/-- `read_state` -/
def HookDir.state (d : HookDir) (session : String) : HookState := (d.states session).getD .fresh

def HookDir.write (d : HookDir) (session : String) (s : HookState) : HookDir :=
  { d with states := Function.update d.states session (some s) }

/-- The answer to a process, and the directory after it. An answer that is not found in the directory is
    given; with a fault the call fails and changes nothing. -/
def HookDir.answer (given : (q : HookAsk) → q.Answer) (fault : Bool) (n : Nat) (d : HookDir) :
    (q : HookAsk) → q.Answer × HookDir
  | .modify session change =>
      if fault then (none, d)
      else (some (change.apply (d.state session)).1, d.write session (change.apply (d.state session)).2)
  | .readState session => if fault then (none, d) else (some (d.state session), d)
  | .removeState session generation =>
      if fault then (none, d)
      else if (d.state session).generation = generation then
        (some (), { d with states := Function.update d.states session none })
      else (some (), d)
  | .acquireWatch session =>
      if fault then (none, d)
      else if d.watch session = none then
        (some true, { d with watch := Function.update d.watch session (some n) })
      else (some false, d)
  | .dropWatch session =>
      ((), if d.watch session = some n then { d with watch := Function.update d.watch session none } else d)
  | .activeSession => if fault then (none, d) else (d.activeSession.map trim, d)
  | .takeBootstrap => if fault then (none, d) else (some d.bootstrap, { d with bootstrap := none })
  | .connect => (given .connect, d)
  | .livePrompt message => (given (.livePrompt message), d)
  | .budget => (given .budget, d)
  | .rewake .. => ((), d)

/-! ## The hooks -/

section Hooks

variable (F : FloatFormat) (verify : String → List UInt8 → String → Bool)
  (readHandoff : String → Option HandoffRef) (me : Authed) (room : String)

/-- One question. -/
def askHook (question : HookAsk) : HookClient question.Answer :=
  Prog.perform (M := clientMachine claudeHost) (ClientCall.ask question)

/-- `send` of a post. -/
def sendPost (post : Post) : HookClient (Option Unit) :=
  send (.room room) post.parts post.mentions post.replyTo >>= fun sent => .ret (sent.map (fun _ => ()))

/-- `prompt_hook` -/
def promptHook (input : HookInput) : HookClient Unit :=
  match (input.prompt.map trim).filter (fun prompt => prompt ≠ "") with
  | none => .ret ()
  | some prompt => askHook (.modify input.sessionId (.prompt prompt)) >>= fun _ => .ret ()

/-- `end_hook` -/
def endHook (input : HookInput) : HookClient Unit :=
  askHook (.modify input.sessionId .ending) >>= fun (generation : Option Nat) =>
    match generation with
    | none => .ret ()
    | some generation =>
        askHook (.acquireWatch input.sessionId) >>= fun (watch : Option Bool) =>
          match watch with
          | some true =>
              askHook (.removeState input.sessionId generation) >>= fun _ =>
                askHook (.dropWatch input.sessionId)
          | _ => .ret ()

/-- `pull_pending_message`, for a number of messages. -/
def pullPendingMessage (expected : String) : Nat → MeshAgent → HookClient (MeshAgent × Option StoredMessage)
  | 0, a => .ret (a, none)
  | tries + 1, a =>
      a.pull room (some 1) >>= fun pulled =>
        match pulled.2 with
        | none | some [] => .ret (pulled.1, none)
        | some (message :: _) =>
            if message.id = expected then .ret (pulled.1, some message)
            else if isActionable F verify message room me then .ret (pulled.1.deferReads room, none)
            else
              pulled.1.commitReads room >>= fun committed =>
                match committed.2 with
                | none => .ret (committed.1, none)
                | some () => pullPendingMessage expected tries committed.1

/-- `send_injected_result` -/
def sendInjectedResult (incoming : StoredMessage) (answer : String) : HookClient (Option Unit) :=
  if trim answer = "" then .ret (some ())
  else sendPost room (peerResult readHandoff incoming (trim answer))

/-- What `complete_turn` does with a snapshot, before it changes the state. -/
def settleTurn (tries : Nat) (a : MeshAgent) (snapshot : HookState) (answer : String) :
    HookClient (MeshAgent × Option Unit) :=
  match snapshot.pending with
  | some (.bootstrap cursor) =>
      a.commitThrough room cursor >>= fun committed =>
        match committed.2 with
        | none => .ret committed
        | some () =>
            if snapshot.prompts.isEmpty then .ret committed
            else
              sendPost room (plainText (clip (localTurn snapshot.prompts answer) maxReplyChars)) >>= fun sent =>
                .ret (committed.1, sent)
  | some (.message id) =>
      pullPendingMessage F verify me room id tries a >>= fun pulled =>
        match pulled.2 with
        | none => .ret (pulled.1, none)
        | some message =>
            sendInjectedResult readHandoff room message
                (if snapshot.prompts.isEmpty then answer else localTurn snapshot.prompts answer) >>= fun sent =>
              match sent with
              | none => .ret (pulled.1, none)
              | some () => pulled.1.commitReads room
  | none =>
      if snapshot.prompts.isEmpty ∨ trim (localTurn snapshot.prompts answer) = "" then .ret (a, some ())
      else
        sendPost room (plainText (clip (localTurn snapshot.prompts answer) maxReplyChars)) >>= fun sent =>
          .ret (a, sent)

/-- `complete_turn` -/
def completeTurn (tries : Nat) (session answer : String) (a : MeshAgent) :
    HookClient (MeshAgent × Option Unit) :=
  askHook (.readState session) >>= fun (snapshot : Option HookState) =>
    match snapshot with
    | none => .ret (a, none)
    | some snapshot =>
        settleTurn F verify readHandoff me room tries a snapshot answer >>= fun settled =>
          match settled.2 with
          | none => .ret settled
          | some () =>
              askHook (.modify session (.finish snapshot)) >>= fun (done : Option Unit) =>
                .ret (settled.1, done)

/-- What a waiting hook ends with: the prompt of a turn, and the message it is about if it is about one. -/
abbrev Wake := Option (Option StoredMessage × String)

/-- How the messages of one pull end: the hook waits on, or it ends. -/
inductive Watched where
  | on (a : MeshAgent)
  | ended (wake : Wake)

/-- The messages of one pull. -/
def watchMessages (session : String) (generation : Nat) :
    MeshAgent → List StoredMessage → HookClient Watched
  | a, [] => .ret (.on a)
  | a, message :: rest =>
      askHook (.readState session) >>= fun (s : Option HookState) =>
        if s.map HookState.generation ≠ some generation then .ret (.ended none)
        else if !isActionable F verify message room me then
          a.commitReads room >>= fun committed =>
            match committed.2 with
            | none => .ret (.ended none)
            | some () => watchMessages session generation committed.1 rest
        else
          askHook (.livePrompt message) >>= fun (prompt : String) =>
            askHook (.modify session (.accept generation message.id)) >>= fun (accepted : Option Bool) =>
              match accepted with
              | some true =>
                  presence "working" (some ("live conversation '" ++ room ++ "'")) none >>= fun _ =>
                    .ret (.ended (some (some message, clip prompt claudeWakePromptChars)))
              | _ => .ret (.ended none)

/-- The loop of a waiting hook, for a number of rounds. -/
def watchLoop (session : String) (generation waits : Nat) : Nat → MeshAgent → HookClient Wake
  | 0, _ => .ret none
  | rounds + 1, a =>
      askHook (.readState session) >>= fun (s : Option HookState) =>
        if s.map HookState.generation ≠ some generation then .ret none
        else
          a.pullWait (askHook .budget) room (some 1) waits >>= fun pulled =>
            match pulled.2 with
            | none => .ret none
            | some messages =>
                watchMessages F verify me room session generation pulled.1 messages >>= fun watched =>
                  match watched with
                  | .on a => watchLoop session generation waits rounds a
                  | .ended wake => .ret wake

/-- From the end of its own event, a hook waits for the next message of a peer. -/
def waitForPeer (session : String) (waits rounds : Nat) (a : MeshAgent) : HookClient Wake :=
  askHook (.readState session) >>= fun (s : Option HookState) =>
    match s with
    | none => .ret none
    | some s =>
        presence "waiting" (some ("live conversation '" ++ room ++ "'")) none >>= fun _ =>
          watchLoop F verify me room session s.generation waits rounds a

/-- What a hook does with what the launcher left: a prompt ends it at once. -/
def startTurn (session : String) (bootstrap : Bootstrap) : HookClient (Option Wake) :=
  (match bootstrap.commitCursor with
    | none => .ret (some ())
    | some cursor => askHook (.modify session (.adoptBootstrap cursor))) >>= fun (adopted : Option Unit) =>
    match adopted, bootstrap.prompt with
    | none, _ => .ret (some none)
    | some (), none => .ret none
    | some (), some prompt =>
        presence "working" (some ("live conversation '" ++ room ++ "'")) none >>= fun _ =>
          .ret (some (some (none, prompt)))

/-- A hook that holds the watch, in a room. -/
def watchRoom (input : HookInput) (tries waits rounds : Nat) : HookClient Wake :=
  askHook .connect >>= fun (connected : Option Unit) =>
    match connected with
    | none => .ret none
    | some () =>
        if input.event = "SessionStart" then
          askHook .takeBootstrap >>= fun (bootstrap : Option (Option Bootstrap)) =>
            match bootstrap with
            | none => .ret none
            | some none => waitForPeer F verify me room input.sessionId waits rounds .fresh
            | some (some bootstrap) =>
                startTurn room input.sessionId bootstrap >>= fun started =>
                  match started with
                  | some wake => .ret wake
                  | none => waitForPeer F verify me room input.sessionId waits rounds .fresh
        else if input.event = "Stop" then
          completeTurn F verify readHandoff me room tries input.sessionId
              (input.lastAssistantMessage.getD "") .fresh >>= fun completed =>
            match completed.2 with
            | none => .ret none
            | some () => waitForPeer F verify me room input.sessionId waits rounds completed.1
        else waitForPeer F verify me room input.sessionId waits rounds .fresh

end Hooks

section Wake

variable (F : FloatFormat) (verify : String → List UInt8 → String → Bool)
  (readHandoff : String → Option HandoffRef) (me : Authed)

/-- `wake_hook`, and the end of the process with its result. -/
def wakeHook (input : HookInput) (tries waits rounds : Nat) : HookClient Unit :=
  askHook (.modify input.sessionId (.prepare input)) >>= fun (shouldWatch : Option Bool) =>
    match shouldWatch with
    | some true =>
        askHook (.acquireWatch input.sessionId) >>= fun (watch : Option Bool) =>
          match watch with
          | some true =>
              (askHook .activeSession >>= fun (room : Option String) =>
                match room with
                | none => .ret none
                | some room => watchRoom F verify readHandoff me room input tries waits rounds) >>=
              fun (wake : Wake) =>
                askHook (.dropWatch input.sessionId) >>= fun _ =>
                  match wake with
                  | none => .ret ()
                  | some (message, prompt) => askHook (.rewake message prompt)
          | _ => .ret ()
    | _ => .ret ()

end Wake

end Parler.Cli
