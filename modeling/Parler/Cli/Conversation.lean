import Parler.Connector.HeldTraffic
import Parler.Connector.Readers

/-!
# Live conversations

`parler conversation`, from `crates/parler-cli/src/conversation.rs`: a visible agent host is attached to
a room. `receive_loop` reads the room one message at a time, hands what is actionable to the host and
acknowledges it when the host has finished the turn.
-/

namespace Parler.Connector.MeshAgent

open Parler.Lib Parler.Protocol Parler.Hub

variable {H : Host}

/-- `pull_wait`: pull, and park at the hub while `budget` grants another stretch. The last pull, with the
    budget spent, returns what it finds. -/
def pullWait (budget : Client H (Option Nat)) (room : String) (limit : Option Nat) (a : MeshAgent) :
    Nat → Client H (MeshAgent × Option (List StoredMessage))
  | 0 => a.pull room limit
  | waits + 1 =>
      a.pull room limit >>= fun first =>
        match first.2 with
        | none => .ret first
        | some (_ :: _) => .ret first
        | some [] =>
            budget >>= fun chunk =>
              match chunk with
              | none => .ret first
              | some chunk =>
                  first.1.pullParked room limit chunk >>= fun second =>
                    match second.2 with
                    | none => .ret second
                    | some (_ :: _) => .ret second
                    | some [] => pullWait budget room limit second.1 waits

theorem pullWait_succ (budget : Client H (Option Nat)) (room : String) (limit : Option Nat)
    (a : MeshAgent) (waits : Nat) :
    a.pullWait budget room limit (waits + 1) = a.pull room limit >>= fun first =>
      match first.2 with
      | none => .ret first
      | some (_ :: _) => .ret first
      | some [] =>
          budget >>= fun chunk =>
            match chunk with
            | none => .ret first
            | some chunk =>
                first.1.pullParked room limit chunk >>= fun second =>
                  match second.2 with
                  | none => .ret second
                  | some (_ :: _) => .ret second
                  | some [] => pullWait budget room limit second.1 waits := rfl

end Parler.Connector.MeshAgent

namespace Parler.Cli

open Parler.Lib Parler.Protocol Parler.Hub Parler.Connector

/-! ## What is actionable -/

section Actionable

variable (F : FloatFormat) (verify : String → List UInt8 → String → Bool)

/-- `valid_in_conversation`. -/
def validInConversation (message : StoredMessage) (room : String) : Bool :=
  verifyMessage F verify message.sender.id message.parts message.replyTo = .valid &&
    (MessageSig.fromParts message.parts).any (fun signature => signature.target = .room room)

/-- The texts that announce a participant. -/
def announces (name : String) : Part → Bool
  | .text text =>
      text = name ++ " started this live conversation" || text = name ++ " joined this live conversation"
  | _ => false

/-- `is_actionable`. -/
def isActionable (message : StoredMessage) (room : String) (me : Authed) : Bool :=
  if message.sender.id = me.id || !validInConversation F verify message room then false
  else
    let handoffs := message.parts.filterMap HandoffRef.fromPart
    if !handoffs.isEmpty then
      handoffs.any (fun h =>
        h.isFor me.name me.role || h.addressee.any (fun a => eqIgnoreAsciiCase a me.id))
    else if message.parts.any (announces message.sender.name) then false
    -- Reports are observations: this is the loop breaker.
    else !message.parts.any (fun p => (TaskRef.fromPart p).isSome)

end Actionable

/-! ## The receiving task -/

/-- What becomes of a message that is handed to the host: the host is gone, its turn was not finished,
    or it was. -/
inductive Delivery where
  | closed
  | dropped
  | acked
  deriving DecidableEq

inductive ConversationAsk where
  /-- How long to park for a message, if there is time left. -/
  | budget
  | deliver (message : StoredMessage)

def conversationHost : Host where
  Ask := ConversationAsk
  Answer
    | .budget => Option Nat
    | .deliver _ => Delivery

abbrev ConversationClient (α : Type) := Client conversationHost α

/-- How a round of the loop ends: it goes on, it returns, or it returns an error. -/
inductive Round where
  | on
  | returned
  | failed
  deriving DecidableEq

section Program

variable (F : FloatFormat) (verify : String → List UInt8 → String → Bool) (me : Authed) (room : String)

/-- `commit_reads`, then go on. -/
def commitOn (a : MeshAgent) : ConversationClient (MeshAgent × Round) :=
  a.commitReads room >>= fun committed =>
    .ret (committed.1, match committed.2 with
      | none => .failed
      | some _ => .on)

/-- The body of the loop for one message. -/
def attend (a : MeshAgent) (message : StoredMessage) : ConversationClient (MeshAgent × Round) :=
  if !isActionable F verify message room me then commitOn room a
  else
    .call (ClientCall.admitMessage message) fun admitted =>
      match (admitted : Option Bool) with
      | none => .ret (a, .failed)
      | some false => commitOn room a
      | some true =>
          .call (ClientCall.ask (.deliver message)) fun (delivery : Delivery) =>
            match delivery with
            -- Without an ack the cursor is left for a later run.
            | .closed | .dropped => .ret (a, .returned)
            | .acked => .call (ClientCall.complete [message]) fun _ => commitOn room a

def attendAll (a : MeshAgent) : List StoredMessage → ConversationClient (MeshAgent × Round)
  | [] => .ret (a, .on)
  | message :: rest =>
      attend F verify me room a message >>= fun attended =>
        match attended.2 with
        | .on => attendAll attended.1 rest
        | _ => .ret attended

/-- One round of the loop. -/
def receiveRound (waits : Nat) (a : MeshAgent) : ConversationClient (MeshAgent × Round) :=
  a.pullWait (Prog.perform (M := clientMachine conversationHost) (ClientCall.ask .budget)) room (some 1)
      waits >>= fun pulled =>
    match pulled.2 with
    | none => .ret (pulled.1, .failed)
    | some messages => attendAll F verify me room pulled.1 messages

/-- The loop, for a number of rounds. -/
def receiveRounds (waits : Nat) : Nat → MeshAgent → ConversationClient (MeshAgent × Round)
  | 0, a => .ret (a, .on)
  | rounds + 1, a =>
      receiveRound F verify me room waits a >>= fun round =>
        match round.2 with
        | .on => receiveRounds waits rounds round.1
        | _ => .ret round

/-- `receive_loop`; live push only rings earlier. -/
def receiveLoop (waits rounds : Nat) : ConversationClient (MeshAgent × Round) :=
  .call (ClientCall.request .subscribe) fun _ => receiveRounds F verify me room waits rounds .fresh

end Program

end Parler.Cli
