import Parler.Connector.Process
import Parler.Protocol.Tasks

/-!
# The connector runtime

`AttentionPolicy` of `crates/parler-connector/src/attention.rs` and `ConnectorRuntime` of
`crates/parler-connector/src/runtime.rs`: a batch is pulled, each message of it wakes the host, is held
behind the cursor or is dropped, and the batch is acknowledged at once only when it neither wakes nor
holds.
-/

namespace Parler.Connector

open Parler.Lib Parler.Protocol Parler.Hub

variable {H : Host}

/-! ## Attention -/

structure AttentionPolicy where
  mode : Attention
  quietRooms : List String
  mutedRooms : List String
  deriving DecidableEq

inductive AttentionDecision where
  | wake
  | hold
  | drop
  deriving DecidableEq

namespace AttentionPolicy

/-- How a message of a peer is treated by an agent of the name and the role. -/
def decide (policy : AttentionPolicy) (room : String) (kind : RoomKind) (message : StoredMessage)
    (name : String) (role : Option String) : AttentionDecision :=
  if room ∈ policy.mutedRooms then .drop
  else
    let handoff := (message.parts.filterMap HandoffRef.fromPart).any (fun h => h.isFor name role)
    let assigned := (message.parts.filterMap dispatchRole).any
      (fun dispatch => role.any (fun r => eqIgnoreAsciiCase dispatch r))
    let direct := kind = .dm ∨ handoff ∨ assigned
    if room ∈ policy.quietRooms then if direct then .wake else .hold
    else
      match policy.mode with
      | .open => .wake
      | .dnd => if direct then .wake else .hold
      | .focus => if handoff ∨ assigned then .wake else .hold

end AttentionPolicy

/-! ## Receiving -/

/-- What a runtime is: the code outside the repository, the agent and its policy. -/
structure ConnectorRuntime where
  floats : FloatFormat
  verify : String → List UInt8 → String → Bool
  me : Authed
  attention : AttentionPolicy

structure Received where
  room : String
  cursor : Int
  messages : List StoredMessage
  held : Bool
  dropped : Nat

/-- What the loop over a batch has found so far. -/
structure Sifted where
  messages : List StoredMessage
  held : Bool
  dropped : Nat

namespace ConnectorRuntime

variable (rt : ConnectorRuntime) (room : String) (kind : RoomKind) (workerRole : Option String)

def role : Option String := workerRole.or rt.me.role

/-- The body of the loop of `receive`; `none` is an error of the ledger. -/
def sift (message : StoredMessage) (s : Sifted) : Client H (Option Sifted) :=
  if message.sender.id = rt.me.id then .ret (some s)
  else if verifyMessageForRoom rt.floats rt.verify message rt.me.id ≠ .valid then
    .ret (some { s with dropped := s.dropped + 1 })
  else
    match rt.attention.decide room kind message rt.me.name (rt.role workerRole) with
    | .wake =>
        .call (ClientCall.admitMessage message) fun admitted =>
          match (admitted : Option Bool) with
          | none => .ret none
          | some true => .ret (some { s with messages := s.messages ++ [message] })
          | some false => .ret (some { s with dropped := s.dropped + 1 })
    | .hold => .ret (some { s with held := true })
    | .drop => .ret (some { s with dropped := s.dropped + 1 })

def siftAll : List StoredMessage → Sifted → Client H (Option Sifted)
  | [], s => .ret (some s)
  | message :: rest, s =>
      rt.sift room kind workerRole message s >>= fun sifted =>
        match sifted with
        | none => .ret none
        | some s => siftAll rest s

/-- `receive`: a batch that wakes or holds stays unacknowledged. -/
def receive (a : MeshAgent) (limit : Option Nat) : Client H (MeshAgent × Option Received) :=
  a.pull room limit >>= fun pulled =>
    match pulled.2 with
    | none => .ret (pulled.1, none)
    | some all =>
        rt.siftAll room kind workerRole all ⟨[], false, 0⟩ >>= fun sifted =>
          match sifted with
          | none => .ret (pulled.1, none)
          | some s =>
              let received : Received := ⟨room, pulled.1.pending room, s.messages, s.held, s.dropped⟩
              if s.held || !s.messages.isEmpty then .ret (pulled.1.deferReads room, some received)
              else
                pulled.1.commitReads room >>= fun committed =>
                  .ret (committed.1, committed.2.map fun _ => received)

end ConnectorRuntime

end Parler.Connector
