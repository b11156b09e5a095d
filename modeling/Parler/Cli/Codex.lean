import Parler.Cli.Turns
import Parler.Lib.Fifo

/-!
# Turns in a Codex window

`coordinate_codex` from `crates/parler-cli/src/conversation.rs`. The window is shared: the human types
turns, and the coordinator starts one for each peer message, one after the other. What it hears about the
turns comes from two sides, the notifications of the app-server and the history of the thread.
-/

namespace Parler.Cli

open Parler.Lib Parler.Protocol Parler.Hub

/-! ## Turns as the app-server shows them -/

inductive TurnItem where
  /-- The texts of a message of the user. -/
  | userMessage (content : List String)
  | agentMessage (text : Option String)
  | other
  deriving DecidableEq

/-- A turn as JSON; a field that is missing or of another type is `none`. -/
structure TurnView where
  id : Option String
  status : Option String
  items : List TurnItem
  /-- `error.message` -/
  error : Option String
  deriving DecidableEq

structure ThreadTurnOutcome where
  id : String
  text : String
  localText : String
  error : Option String
  deriving DecidableEq

/-- `visible_user_transcript` -/
def visibleUserTranscript (text : String) : Option (String × String) :=
  let text := trim text
  if text = "" then none
  else if "A cryptographically signed peer message arrived".toList.isPrefixOf text.toList then
    ((splitOnce "PEER MESSAGE:\n" text).map (fun halves => ("Peer", trim halves.2))).filter
      (fun shown => shown.2 ≠ "")
  else if "You have joined the live Parler conversation".toList.isPrefixOf text.toList then
    (((splitOnce "--- CONVERSATION SO FAR ---\n" text).bind
      (fun halves => splitOnce "\n--- END CONTEXT ---" halves.2)).map
        (fun halves => ("Conversation context", trim halves.1))).filter (fun shown => shown.2 ≠ "")
  else some ("User", text)

/-- `local_conversation_turn` -/
def localConversationTurn (turn : TurnView) (answer : String) : String :=
  let prompts := turn.items.filterMap (fun item =>
    match item with
    | .userMessage content => visibleUserTranscript (String.intercalate "\n" content)
    | _ => none)
  let prompt := String.intercalate "\n\n" (prompts.map (fun shown => shown.1 ++ ": " ++ shown.2))
  if prompt = "" then answer
  else if trim answer = "" then prompt
  else prompt ++ "\n\nAgent: " ++ trim answer

/-- The reason that a status other than `completed` gives. -/
def statusError (turn : TurnView) (status : String) : String :=
  ((turn.error.filter (fun message => message ≠ "")).getD ("turn ended with status '" ++ status ++ "'"))

/-- The last message of the agent. -/
def finalText (turn : TurnView) : String :=
  (turn.items.reverse.findSome? (fun item =>
    match item with
    | .agentMessage text => some (text.getD "")
    | _ => none)).getD ""

/-- `terminal_thread_outcome` -/
def terminalThreadOutcome (turn : TurnView) : Option ThreadTurnOutcome :=
  match turn.id, turn.status with
  | some id, some status =>
      if status = "inProgress" then none
      else
        some ⟨id, finalText turn, localConversationTurn turn (finalText turn),
          if status = "completed" then none else some (statusError turn status)⟩
  | _, _ => none

/-- `incomplete_turn_reason` -/
def incompleteTurnReason (turn : TurnView) : Option String :=
  match turn.status with
  | none => some "turn completed without a status"
  | some status => if status = "completed" then none else some (statusError turn status)

/-- `thread_has_running_turn` -/
def threadHasRunningTurn (page : List TurnView) : Bool := page.any (fun turn => turn.status = some "inProgress")

/-! ## The turns that were seen to end -/

/-- `CODEX_SEEN_TURNS` -/
def codexSeenTurns : Nat := 256

abbrev RecentIds := Fifo String

/-- `RecentIds::insert`; says whether the id is new. -/
def RecentIds.insert (ids : RecentIds) (id : String) : Bool × RecentIds :=
  if id ∈ ids.members then (false, ids) else (true, ids.remember codexSeenTurns id)

/-- `collect_unseen_terminal_turns` -/
def collectUnseenTerminalTurns : List TurnView → RecentIds → List ThreadTurnOutcome × RecentIds
  | [], terminal => ([], terminal)
  | turn :: page, terminal =>
      match terminalThreadOutcome turn with
      | none => collectUnseenTerminalTurns page terminal
      | some outcome =>
          if outcome.id ∈ terminal.members then collectUnseenTerminalTurns page terminal
          else
            let (outcomes, terminal) :=
              collectUnseenTerminalTurns page (RecentIds.insert terminal outcome.id).2
            (outcome :: outcomes, terminal)

/-! ## The coordinator -/

/-- What the coordinator does, as far as others see it, and what it notes for good. -/
inductive CodexAct where
  /-- A `turn/start` with the peer message is sent. -/
  | started (request : Nat) (incoming : StoredMessage)
  /-- The peer message has its turn. -/
  | injected (turn : String) (incoming : StoredMessage)
  /-- The turn goes to the terminal turns. -/
  | recorded (turn : String)
  | posted (turn : String) (post : Post)
  | acked (turn : String) (incoming : StoredMessage)
  deriving DecidableEq

/-- The variables of `coordinate_codex`, and what it did so far. -/
structure Codex where
  queued : List StoredMessage
  pendingStarts : List (Nat × StoredMessage)
  turns : String → Option TurnCapture
  activeTurns : Finset String
  injectedTurns : Finset String
  terminalTurns : RecentIds
  threadActive : Bool
  threadNeedsSync : Bool
  nextId : Nat
  log : List CodexAct

/-- An answer to `turn/start`. -/
inductive StartReply where
  /-- The id of the turn, if the result has one. -/
  | result (turn : Option String)
  | error (message : String)
  deriving DecidableEq

inductive ThreadStatus where
  | active
  | idle
  | systemError
  | other
  deriving DecidableEq

/-- What the loop can wake up for. -/
inductive CodexEvent where
  | incoming (message : StoredMessage)
  /-- The history of the thread, oldest turn first; a blank thread has none yet. -/
  | poll (page : Option (List TurnView))
  | response (request : Nat) (reply : StartReply)
  | turnStarted (turn : String)
  | statusChanged (status : ThreadStatus)
  | itemCompleted (turn : String) (text : String)
  | turnCompleted (turn : TurnView)

/-- `str::contains` -/
def containsText (text part : String) : Bool := (splitOnce part text).isSome

namespace Codex

/-- The coordinator when it starts. -/
def start (known : RecentIds) (initiallyActive : Bool) (nextId : Nat) : Codex :=
  ⟨[], [], fun _ => none, ∅, ∅, known, initiallyActive, initiallyActive, nextId, []⟩

/-- The condition at the top of the loop. -/
def idle (s : Codex) : Bool :=
  !s.threadActive && !s.threadNeedsSync && s.activeTurns = ∅ && s.pendingStarts.isEmpty && s.injectedTurns = ∅

/-- The top of the loop: start a turn for the first queued message. -/
def startNext (s : Codex) : Codex :=
  if s.idle then
    match s.queued with
    | [] => s
    | message :: rest =>
        { s with
          queued := rest
          nextId := s.nextId + 1
          pendingStarts := s.pendingStarts ++ [(s.nextId, message)]
          log := s.log ++ [.started s.nextId message] }
  else s

/-- `turns.entry(..).or_insert(..)`, then a change. -/
def capture (s : Codex) (turn : String) (change : TurnCapture → TurnCapture) : Codex :=
  { s with turns := Function.update s.turns turn (some (change ((s.turns turn).getD ⟨none, ""⟩))) }

section Handle

/- Reading a JSON object into a handoff. -/
variable (readHandoff : String → Option HandoffRef)

/-- What `publish_turn` does. -/
def publish (turn : String) (capture : TurnCapture) : List CodexAct :=
  ((publication readHandoff capture).toList.map (CodexAct.posted turn)) ++
    capture.incoming.toList.map (CodexAct.acked turn)

/-- The body of the loop over the outcomes of a page. -/
def settle (s : Codex) (outcome : ThreadTurnOutcome) : Option Codex :=
  let s := { s with activeTurns := s.activeTurns.erase outcome.id
                    log := s.log ++ [.recorded outcome.id] }
  if outcome.id ∈ s.injectedTurns then
    match s.turns outcome.id with
    | none => none
    | some capture =>
        if outcome.error.isSome then none
        else
          some { s with
            injectedTurns := s.injectedTurns.erase outcome.id
            turns := Function.update s.turns outcome.id none
            log := s.log ++ publish readHandoff outcome.id { capture with text := outcome.text } }
  else if outcome.error.isNone then
    some { s with log := s.log ++ publish readHandoff outcome.id ⟨none, outcome.localText⟩ }
  else some s

/-- The poll of the history, when it is due. -/
def handlePoll (s : Codex) (page : Option (List TurnView)) : Option Codex :=
  if s.pendingStarts.isEmpty && (s.threadActive || s.threadNeedsSync) then
    let s := { s with nextId := s.nextId + 1 }
    match page with
    | none => some (if s.threadActive then s else { s with threadNeedsSync := false })
    | some page =>
        let (outcomes, terminal) := collectUnseenTerminalTurns page s.terminalTurns
        (outcomes.foldlM (settle readHandoff)
          { s with threadActive := threadHasRunningTurn page, terminalTurns := terminal }).map
            (fun s => { s with threadNeedsSync := false })
  else some s

def handleResponse (s : Codex) (request : Nat) (reply : StartReply) : Option Codex :=
  match s.pendingStarts.find? (fun pending => pending.1 = request) with
  | none => some s
  | some (_, message) =>
      let s := { s with pendingStarts := s.pendingStarts.filter (fun pending => pending.1 ≠ request) }
      match reply with
      | .error text =>
          if containsText text "turn" && containsText text "running" then
            some { s with queued := message :: s.queued, threadActive := true, threadNeedsSync := true }
          else none
      | .result none => some s
      | .result (some turn) =>
          some ({ s with injectedTurns := insert turn s.injectedTurns
                         log := s.log ++ [CodexAct.injected turn message] }.capture turn
            (fun capture => { capture with incoming := some message }))

def handleStatus (s : Codex) : ThreadStatus → Codex
  | .active => { s with threadActive := true }
  | .idle | .systemError => { s with threadActive := false, threadNeedsSync := true }
  | .other => s

/-- What is published of a turn that its notification says is completed. -/
def completedCapture (capture : TurnCapture) (turn : TurnView) : TurnCapture :=
  match terminalThreadOutcome turn with
  | some outcome =>
      { capture with text := if capture.incoming.isSome then outcome.text else outcome.localText }
  | none =>
      if capture.incoming.isNone then { capture with text := localConversationTurn turn capture.text }
      else capture

def handleTurnCompleted (s : Codex) (turn : TurnView) : Option Codex :=
  match turn.id with
  | none => some s
  | some id =>
      let watched := s.turns id
      -- Without a capture the turn stays unseen, for the history to bring.
      let (firstTerminal, terminal) :=
        if watched.isSome then RecentIds.insert s.terminalTurns id else (false, s.terminalTurns)
      let s := { s with
        activeTurns := s.activeTurns.erase id
        turns := Function.update s.turns id none
        terminalTurns := terminal
        threadActive := false
        threadNeedsSync := true
        log := s.log ++ (if firstTerminal then [CodexAct.recorded id] else []) }
      if (incompleteTurnReason turn).isSome then
        if firstTerminal && watched.any (fun capture => capture.incoming.isSome) then none
        else some { s with injectedTurns := s.injectedTurns.erase id }
      else
        let published := if firstTerminal then
            (watched.map (fun capture => publish readHandoff id (completedCapture capture turn))).getD []
          else []
        some { s with injectedTurns := s.injectedTurns.erase id, log := s.log ++ published }

/-- One wake-up of the loop; `none` when the coordinator gives up. -/
def handle (s : Codex) : CodexEvent → Option Codex
  | .incoming message => some { s with queued := s.queued ++ [message] }
  | .poll page => s.handlePoll readHandoff page
  | .response request reply => s.handleResponse request reply
  | .turnStarted turn =>
      some ({ s with threadActive := true, activeTurns := insert turn s.activeTurns }.capture turn id)
  | .statusChanged status => some (s.handleStatus status)
  | .itemCompleted turn text => some (s.capture turn (fun capture => { capture with text := text }))
  | .turnCompleted turn => s.handleTurnCompleted readHandoff turn

/-- A round of the loop, from one wait to the next. -/
def step (s : Codex) (event : CodexEvent) : Option Codex := (s.handle readHandoff event).map startNext

end Handle

end Codex

end Parler.Cli
