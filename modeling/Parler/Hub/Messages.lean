import Mathlib.Data.List.Sort
import Parler.Hub.Tables

/-!
# Messages, cursors and the role queue

The store methods over `messages`, `members.cursor` and the three service
tables (`crates/parler-hub/src/store.rs`). `append_message` is given statement by
statement as well as whole, since its statements commit one by one, and `pull` is
given as its three statements: the cursor read on a pooled reader, the cursor
update on the writer and the backlog read; `Parler.Hub.Server` composes them.
-/

namespace Parler.Hub

open Parler.Lib Parler.Protocol

/-- `RawMsg::to_stored`. -/
def MessageRow.toStored (row : MessageRow) : StoredMessage where
  seq := row.seq
  id := row.id
  room := row.room
  sender := ⟨row.author, row.authorName, row.authorRole⟩
  parts := row.parts
  mentions := row.mentions
  replyTo := row.replyTo
  ts := row.ts

/-- A message to append: the arguments of `append_message`, with the fresh id. -/
structure NewMessage where
  id : String
  room : String
  sender : EndpointRef
  parts : List Part
  mentions : Option (List String)
  replyTo : Option String
  clientId : Option String
  ts : Int
  deriving DecidableEq

namespace NewMessage

/-- The roles the message dispatches work to, one per dispatch part. -/
def roles (m : NewMessage) : List String := m.parts.filterMap dispatchRole

def toRow (m : NewMessage) (seq : Int) : MessageRow where
  seq := seq
  id := m.id
  room := m.room
  author := m.sender.id
  authorName := m.sender.name
  authorRole := m.sender.role
  parts := m.parts
  mentions := m.mentions
  replyTo := m.replyTo
  ts := m.ts
  tokens := estimateMessageTokens m.parts
  clientId := m.clientId

end NewMessage

structure AppendOutcome where
  id : String
  seq : Int
  tokens : Int
  deduped : Bool
  deriving DecidableEq

namespace Store

variable (s : Store)

/-! ## Appending -/

/-- The stored message a send is a replay of: same room, author and client id. -/
def original (m : NewMessage) : Option MessageRow :=
  match m.clientId with
  | none => none
  | some c => s.messages.find? (fun r =>
      r.room = m.room ∧ r.author = m.sender.id ∧ r.clientId = some c)

/-- The message `INSERT`, when it is no replay. -/
def insertMessage (m : NewMessage) : Store :=
  { s with
    messages := s.messages ++ [m.toRow (s.messageSeq + 1)]
    messageSeq := s.messageSeq + 1 }

/-- A replay inserts no row, but its `INSERT` has drawn a number all the same. -/
def skipSeq : Store := { s with messageSeq := s.messageSeq + 1 }

def dispatchKey (row : DispatchRow) : String × String × String := (row.room, row.message, row.role)

/-- One dispatch `INSERT OR IGNORE`. -/
def insertDispatch (room message : String) (seq : Int) (role : String) : Store :=
  { s with
    serviceDispatches := insertNew dispatchKey ⟨room, message, role, seq⟩ s.serviceDispatches }

/-- The dispatch `INSERT`s of a list of roles, in order. -/
def insertDispatches (room message : String) (seq : Int) (roles : List String) : Store :=
  roles.foldl (fun s role => s.insertDispatch room message seq role) s

/-- `append_message` (`store.rs:813-862`). -/
def appendMessage (m : NewMessage) : Except Failure (AppendOutcome × Store) :=
  match s.original m with
  | some row => .ok (⟨row.id, row.seq, 0, true⟩, s.skipSeq)
  | none =>
      if s.messages.any (fun r => r.id = m.id) then
        .error (.plain "UNIQUE constraint failed: messages.id")
      else
        let seq := s.messageSeq + 1
        .ok (⟨m.id, seq, estimateMessageTokens m.parts, false⟩,
          (s.insertMessage m).insertDispatches m.room m.id seq m.roles)

/-! ## Reading -/

/-- The member's cursor; a missing membership row reads as 0 (`store.rs:864-876`). -/
def getCursor (room agent : String) : Int :=
  ((s.members.find? (fun r => r.room = room ∧ r.agent = agent)).map MemberRow.cursor).getD 0

/-- The unconditional cursor `UPDATE` of a pull. -/
def setCursor (room agent : String) (cursor : Int) : Store :=
  { s with
    members := updateWhere (fun r => r.room = room ∧ r.agent = agent)
      (fun r => { r with cursor := cursor }) s.members }

/-- The messages of a room past a floor, oldest first. -/
def readBacklog (room : String) (floor : Int) (lim : Nat) : List StoredMessage :=
  (((s.messages.filter (fun r => r.room = room ∧ r.seq > floor)).insertionSort
    (fun a b => a.seq ≤ b.seq)).take lim).map MessageRow.toStored

/-- The page size of a pull: 200 unless asked, at most 1000. -/
def pullLimit (limit : Option Nat) : Nat := min (limit.getD 200) 1000

/-- The read-only page of the session viewer. -/
def roomMessages (room : String) (since : Int) (limit : Nat) : List StoredMessage :=
  s.readBacklog room since (min limit 1000)

/-- The `seq` of the `(n + 1)`-th newest message of a room. -/
def nthNewestSeq (room : String) (n : Nat) : Option Int :=
  (((s.messages.filter (fun r => r.room = room)).map MessageRow.seq).insertionSort
    (fun a b => b ≤ a))[n]?

/-- Age retention with a per-room floor of `keep` messages; a negative `keep`
    reads as an offset of 0 (`store.rs:1829-1845`). -/
def pruneMessages (retainMs keep now : Int) : Store :=
  { s with
    messages := deleteWhere (fun r => r.ts < now - retainMs ∧
      r.seq ≤ (s.nthNewestSeq r.room keep.toNat).getD (-1)) s.messages }

/-! ## The role queue -/

def workerKey (row : WorkerRow) : String × String := (row.room, row.agent)

def serveRole (room agent role : String) (now : Int) : Store :=
  { s with
    serviceWorkers := upsert workerKey ⟨room, agent, role, now⟩
      (fun r => { r with role := role, registered := now }) s.serviceWorkers }

def servedRole (room agent : String) : Option String :=
  (s.serviceWorkers.find? (fun w => w.room = room ∧ w.agent = agent)).map WorkerRow.role

/-- Fresh `idle` or `waiting` presence. -/
def available (agent : String) (now : Int) : Bool :=
  match s.presence.find? (fun p => p.agent = agent) with
  | some p => (p.status = "idle" || p.status = "waiting") && now - p.ts ≤ presenceStaleMs
  | none => false

def ownsLiveClaim (room message worker : String) (now : Int) : Bool :=
  s.serviceClaims.any (fun c => c.room = room ∧ c.message = message ∧ c.worker = worker ∧
    c.state = .active ∧ c.leaseUntil > now)

/-- The message is dispatched to `role`. -/
def dispatchedTo (room message role : String) : Bool :=
  match s.messages.find? (fun r => r.room = room ∧ r.id = message) with
  | some row => (row.parts.filterMap dispatchRole).any (fun r => eqIgnoreAsciiCase r role)
  | none => false

def leaseEnd (leaseSecs : Nat) (now : Int) : Int :=
  satI64 (now + satI64 (wrapI64 leaseSecs * 1000))

/-- The lease upsert with its conflict guard: a row that is not active, or is active
    for another worker past `now`, is left alone. -/
def claimAllowed (room message worker : String) (now : Int) : Bool :=
  match s.serviceClaims.find? (fun c => c.room = room ∧ c.message = message) with
  | some c => c.state = .active && (c.worker = worker || c.leaseUntil ≤ now)
  | none => true

def claimKey (row : ClaimRow) : String × String := (row.room, row.message)

def putClaim (room message worker : String) (now lease : Int) : Store :=
  { s with
    serviceClaims := upsert claimKey ⟨room, message, worker, .active, now, lease⟩
      (fun c => { c with worker := worker, state := .active, claimed := now, leaseUntil := lease })
      s.serviceClaims }

/-- `claim_service_message` (`store.rs:519-584`). -/
def claimServiceMessage (room message worker : String) (leaseSecs : Nat) (now : Int) :
    Option Int × Store :=
  match s.servedRole room worker with
  | none => (none, s)
  | some role =>
      if !(s.ownsLiveClaim room message worker now || s.available worker now) then (none, s)
      else if !s.dispatchedTo room message role then (none, s)
      else if s.claimAllowed room message worker now then
        (some (leaseEnd leaseSecs now),
          s.putClaim room message worker now (leaseEnd leaseSecs now))
      else (none, s)

/-- Never claimed, or claimed by a lease that has run out. -/
def claimable (room message : String) (now : Int) : Bool :=
  match s.serviceClaims.find? (fun c => c.room = room ∧ c.message = message) with
  | some c => c.state = .active && c.leaseUntil ≤ now
  | none => true

/-- `queued_service_messages` (`store.rs:589-654`). -/
def queuedServiceMessages (room worker role : String) (limit : Option Nat) (now : Int) :
    List StoredMessage :=
  match s.servedRole room worker with
  | none => []
  | some served =>
      if !eqIgnoreAsciiCase served role then []
      else if !s.available worker now then []
      else
        let rows := (s.serviceDispatches.filter (fun d => d.room = room ∧
          toAsciiLowercase d.role = toAsciiLowercase role ∧ s.claimable room d.message now)
            ).insertionSort (fun a b => a.seq ≤ b.seq)
        ((rows.filterMap (fun d =>
          s.messages.find? (fun m => m.id = d.message ∧ m.room = d.room))).take
            (min (limit.getD 50) 200)).map MessageRow.toStored

/-- The live claim of a worker on a message. -/
def heldBy (room message worker : String) (now : Int) (c : ClaimRow) : Bool :=
  c.room = room ∧ c.message = message ∧ c.worker = worker ∧ c.state = .active ∧
    c.leaseUntil ≥ now

/-- `complete_service_message` (`store.rs:656-676`). -/
def completeServiceMessage (room message worker : String) (status : TaskStatus) (now : Int) :
    Except Failure (Bool × Store) :=
  if !status.isTerminal then
    .error (.plain "a service claim can only be completed with a terminal task status")
  else
    .ok ((s.serviceClaims.filter (heldBy room message worker now)).length == 1, { s with
      serviceClaims := updateWhere (fun c => heldBy room message worker now c)
        (fun c => { c with state := .ended status, leaseUntil := now }) s.serviceClaims })

end Store

end Parler.Hub
