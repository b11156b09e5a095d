import Parler.Cli.Codex

/-!
# Turns in an OpenCode session

`coordinate` from `crates/parler-cli/src/conversation/opencode.rs`. The session is shared: the human types
turns, and the coordinator starts one for each peer message, one after the other. One turn may own several
messages of the assistant, which complete one by one. That the session is idle is heard from a buffered
stream of events; what has completed is read from the end of the history.
-/

namespace Parler.Cli

open Parler.Lib Parler.Protocol Parler.Hub

/-! ## The history -/

/-- A part of a message as JSON; flags that are missing are false. -/
structure PartView where
  kind : String
  ignored : Bool
  synthetic : Bool
  text : Option String
  deriving DecidableEq

/-- A message of the session as JSON: its `info` and its parts. -/
structure MessageView where
  role : String
  id : Option String
  parentId : Option String
  /-- `time.completed` is not null. -/
  completed : Bool
  /-- What `error_text` says of `error`, if that is not null. -/
  error : Option String
  parts : List PartView
  deriving DecidableEq

structure OpenCodeOutcome where
  parentId : String
  answer : String
  localText : String
  error : Option String
  deriving DecidableEq

namespace OpenCode

/-- `SEEN_ASSISTANT_LIMIT` -/
def seenAssistantLimit : Nat := 1024

/-- `text_parts` -/
def textParts (message : MessageView) (user : Bool) : String :=
  let shown := message.parts.filter (fun part =>
    part.kind = "text" && !part.ignored && (!user || !part.synthetic))
  String.intercalate "\n" (((shown.filterMap PartView.text).map trim).filter (fun text => text ≠ ""))

/-- `user_message` -/
def userMessage (messages : List MessageView) (id : String) : Option MessageView :=
  messages.find? (fun message => message.role = "user" ∧ message.id = some id)

/-- `local_turn` -/
def localTurn (speaker prompt answer : String) : String :=
  if trim prompt = "" then trim answer
  else if trim answer = "" then speaker ++ ": " ++ trim prompt
  else speaker ++ ": " ++ trim prompt ++ "\n\nAgent: " ++ trim answer

/-- The id of the user message that a message of the assistant answers. -/
def parentOf (message : MessageView) (id : String) : String := message.parentId.getD id

/-- What a completed message says about its turn. -/
def outcomeOf (messages : List MessageView) (message : MessageView) (id : String) : OpenCodeOutcome :=
  let answer := textParts message false
  let shown := (userMessage messages (parentOf message id)).bind
    (fun user => visibleUserTranscript (textParts user true))
  { parentId := parentOf message id
    answer := answer
    localText := (shown.map (fun shown => localTurn shown.1 shown.2 answer)).getD answer
    error := message.error }

/-- The outcomes so far, with one more; the last of a turn stands in the place of the first. -/
def putOutcome (outcomes : List OpenCodeOutcome) (outcome : OpenCodeOutcome) : List OpenCodeOutcome :=
  if outcomes.any (fun o => o.parentId = outcome.parentId) then
    outcomes.map (fun o => if o.parentId = outcome.parentId then outcome else o)
  else outcomes ++ [outcome]

/-- The id of a message of the assistant that has completed and was not collected. -/
def uncollected (known : RecentIds) (message : MessageView) : Option String :=
  if message.role = "assistant" then
    message.id.filter (fun id => id ∉ known.members ∧ message.completed)
  else none

/-- The loop of `collect_completed_outcomes`. -/
def collectFrom (messages : List MessageView) :
    List MessageView → List OpenCodeOutcome × RecentIds → List OpenCodeOutcome × RecentIds
  | [], found => found
  | message :: rest, (outcomes, known) =>
      match uncollected known message with
      | none => collectFrom messages rest (outcomes, known)
      | some id =>
          collectFrom messages rest
            (putOutcome outcomes (outcomeOf messages message id), known.remember seenAssistantLimit id)

/-- `collect_completed_outcomes` -/
def collectCompletedOutcomes (messages : List MessageView) (known : RecentIds) :
    List OpenCodeOutcome × RecentIds := collectFrom messages messages ([], known)

end OpenCode

/-! ## The coordinator -/

/-- What the coordinator does, as far as others see it, by the user message that it is about. -/
inductive OpenCodeAct where
  /-- A peer message has its turn. -/
  | injected (id : String) (incoming : StoredMessage)
  | posted (id : String) (post : Post)
  | acked (id : String) (incoming : StoredMessage)
  deriving DecidableEq

/-- The variables of `coordinate` and of its `OpenCodeHost`, and what it did so far. -/
structure OpenCode where
  queued : List StoredMessage
  pending : List (String × StoredMessage)
  known : RecentIds
  busy : Bool
  nextMessage : Nat
  log : List OpenCodeAct

/-- What the loop can wake up for. -/
inductive OpenCodeEvent where
  | incoming (message : StoredMessage)
  /-- The session is busy. -/
  | working
  /-- The session is idle, and what is read then: the end of the history, and whether it is busy. -/
  | idle (messages : Option (List MessageView)) (isBusy : Option Bool)
  /-- The heartbeat and events of other kinds. -/
  | other

/-- A round of the loop: what it wakes up for, and what it is told if it wants to start a turn: whether
    the session is busy, and whether it takes the prompt. -/
structure OpenCodeRound where
  event : OpenCodeEvent
  isBusy : Option Bool
  accepted : Bool

namespace OpenCode

/-- `message_id`; the coordinator runs in a process. -/
def messageId (process n : Nat) : String :=
  "msg_parler_" ++ String.ofList (Nat.toDigits 10 process) ++ "_" ++ String.ofList (Nat.toDigits 10 n)

/-- The coordinator when it starts: with the messages that had completed, and the number of the next
    message. -/
def start (known : RecentIds) (busy : Bool) (nextMessage : Nat) : OpenCode :=
  ⟨[], [], known, busy, nextMessage, []⟩

section Handle

/- Reading a JSON object into a handoff, and the process. -/
variable (readHandoff : String → Option HandoffRef) (process : Nat)

/-- What `publish_turn` does. -/
def publish (id : String) (capture : TurnCapture) : List OpenCodeAct :=
  ((publication readHandoff capture).toList.map (OpenCodeAct.posted id)) ++
    capture.incoming.toList.map (OpenCodeAct.acked id)

/-- The message of a pending turn. -/
def waiting (s : OpenCode) (id : String) : Option StoredMessage :=
  (s.pending.find? (fun entry => entry.1 = id)).map Prod.snd

/-- The body of the loop over the outcomes. -/
def settle (s : OpenCode) (outcome : OpenCodeOutcome) : Option OpenCode :=
  match s.waiting outcome.parentId with
  | some incoming =>
      let s := { s with pending := s.pending.filter (fun entry => entry.1 ≠ outcome.parentId) }
      if outcome.error.isSome then none
      else
        some { s with
          log := s.log ++ publish readHandoff outcome.parentId ⟨some incoming, outcome.answer⟩ }
  | none =>
      if outcome.error.isNone && trim outcome.localText ≠ "" then
        some { s with log := s.log ++ publish readHandoff outcome.parentId ⟨none, outcome.localText⟩ }
      else some s

/-- The collection of what has completed. -/
def collect (s : OpenCode) (messages : List MessageView) : Option OpenCode :=
  let (outcomes, known) := collectCompletedOutcomes messages s.known
  outcomes.foldlM (settle readHandoff) { s with busy := false, known := known }

/-- One wake-up of the loop; `none` when the coordinator gives up. -/
def handle (s : OpenCode) : OpenCodeEvent → Option OpenCode
  | .incoming message => some { s with queued := s.queued ++ [message] }
  | .working => some { s with busy := true }
  | .idle messages isBusy => do
      let messages ← messages
      let s ← s.collect readHandoff messages
      let busy ← isBusy
      return { s with busy := busy }
  | .other => some s

/-- `start_turn`, when the session takes the prompt. -/
def startTurn (s : OpenCode) (incoming : StoredMessage) : OpenCode :=
  { s with
    pending := s.pending ++ [(messageId process s.nextMessage, incoming)]
    nextMessage := s.nextMessage + 1
    log := s.log ++ [.injected (messageId process s.nextMessage) incoming] }

/-- The top of the loop: start a turn for the first queued message. -/
def startNext (s : OpenCode) (isBusy : Option Bool) (accepted : Bool) : Option OpenCode :=
  if !s.busy && s.pending.isEmpty then
    match s.queued with
    | [] => some s
    | message :: rest =>
        match isBusy with
        | none => none
        | some true => some { s with busy := true }
        | some false =>
            if accepted then some { s.startTurn process message with queued := rest, busy := true } else none
  else some s

/-- A round of the loop, from one wait to the next. -/
def step (s : OpenCode) (round : OpenCodeRound) : Option OpenCode :=
  (s.handle readHandoff round.event).bind (fun s => s.startNext process round.isBusy round.accepted)

end Handle

end OpenCode

end Parler.Cli
