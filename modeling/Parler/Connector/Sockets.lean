import Mathlib.Data.List.Basic
import Parler.Protocol.Frames

/-!
# The client on its socket

`HubClient` and the reconnecting calls of `MeshAgent`, read message by message
(`crates/parler-connector/src/client.rs`, `agent.rs`). A call writes a message and takes the next reply
frame that it reads for the answer. Nothing in the protocol says which message a reply answers, and the
hub pushes deliveries in between, so that a call gets its own reply rests on what was left unread before.
-/

namespace Parler.Connector.Socket

open Parler.Protocol

/-! ## The connection -/

/-- What `ws.next()` yields while the socket is open. A reply has the number of the message that the hub
    answers with it, which the client does not see; text that is no frame has no frame in it. The client
    may also be unable to read the text of a push: the hub takes values nested up to the limit of the JSON
    reader, and the frame around them is deeper. -/
inductive Item where
  | reply (ask : Nat) (frame : Option ServerFrame)
  | delivery (message : StoredMessage)
  | unreadable (message : StoredMessage)
  | binary (bytes : List UInt8)
  | other

def Item.ask? : Item → Option Nat
  | .reply ask _ => some ask
  | _ => none

def Item.pushed? : Item → Option StoredMessage
  | .delivery message | .unreadable message => some message
  | _ => none

/-- A connection: the messages of the client that the hub has still to answer, what the hub has sent and
    the client has still to read, and every push so far. -/
structure Wire where
  unanswered : List Nat
  unread : List Item
  ended : Bool
  pushed : List StoredMessage

namespace Wire

def opened : Wire := ⟨[], [], false, []⟩

/-- The messages whose reply the client has not read, oldest first. -/
def owed (w : Wire) : List Nat := w.unread.filterMap Item.ask? ++ w.unanswered

/-- The pushes that the client has not read. -/
def coming (w : Wire) : List StoredMessage := w.unread.filterMap Item.pushed?

end Wire

/-! ## The transport -/

/-- `INBOX_CAP`. -/
def inboxCap : Nat := 1024

/-- `HubClient` without its socket. -/
structure HubClient where
  inbox : List StoredMessage
  subscribed : Bool

namespace HubClient

def opened : HubClient := ⟨[], false⟩

/-- `buffer_push`. -/
def bufferPush (c : HubClient) (message : StoredMessage) : HubClient :=
  { c with inbox := (if inboxCap ≤ c.inbox.length then c.inbox.tail else c.inbox) ++ [message] }

end HubClient

/-- The calls of a `MeshAgent` that use the socket. -/
inductive Call where
  | request (frame : ClientFrame)
  | putBlob (put : ClientFrame) (bytes : List UInt8)
  | fetchBlob (get : ClientFrame)
  | heartbeat
  | subscribe
  | nextDelivery

/-- What an attempt ends with. A failure is an error of the client's own: about a frame that it did not
    expect or could not read, or bytes that it could not write. -/
inductive Result where
  | replied (frame : ServerFrame)
  | live (ok : Bool)
  | fetched (bytes : List UInt8)
  | pushed (message : Option StoredMessage)
  | failed
  | coded (message : String) (code : Option String)
  | disconnected

def Result.isErr : Result → Bool
  | .failed | .coded .. | .disconnected => true
  | _ => false

/-- Where an attempt reads: in `recv`, in the second `recv` of an upload, in `recv_binary`, or in
    `recv_push`. -/
inductive Reading where
  | reply
  | stored
  | payload
  | push
  deriving DecidableEq

inductive Progress where
  | waits
  | goesOn (next : Reading) (bytes : Option (List UInt8))
  | returns (r : Result)

/-- What the caller of `recv` does with a reply frame: `request`, `subscribe`, `upload_blob`,
    `download_blob`. -/
def replied : Call → Reading → ServerFrame → Progress
  | .putBlob _ bytes, .reply, .blobReady _ => .goesOn .stored (some bytes)
  | .putBlob _ _, .stored, .blobStored id size => .returns (.replied (.blobStored id size))
  | .putBlob _ _, _, _ => .returns .failed
  | .fetchBlob _, _, .blobIncoming .. => .goesOn .payload none
  | .fetchBlob _, _, _ => .returns .failed
  | .subscribe, _, .subscribed => .returns (.live true)
  | .subscribe, _, .error .. => .returns (.live false)
  | .subscribe, _, _ => .returns .failed
  | _, _, .error message code => .returns (.coded message code)
  | _, _, frame => .returns (.replied frame)

namespace HubClient

/-- One round of the loop of `recv`. -/
def recv (c : HubClient) (call : Call) (reading : Reading) : Item → HubClient × Progress
  | .delivery message => (c.bufferPush message, .waits)
  | .unreadable _ | .reply _ none => (c, .returns .failed)
  | .reply _ (some frame) =>
      (match call, frame with
        | .subscribe, .subscribed => { c with subscribed := true }
        | _, _ => c,
      replied call reading frame)
  | .binary _ | .other => (c, .waits)

/-- One round of the loop of `recv_binary`. -/
def recvBinary (c : HubClient) : Item → HubClient × Progress
  | .binary bytes => (c, .returns (.fetched bytes))
  | .delivery message => (c.bufferPush message, .waits)
  | .reply _ (some (.error message code)) => (c, .returns (.coded message code))
  | .reply _ _ | .unreadable _ => (c, .returns .failed)
  | .other => (c, .waits)

/-- One round of the loop of `recv_push`. -/
def recvPush (c : HubClient) : Item → HubClient × Progress
  | .delivery message => (c, .returns (.pushed (some message)))
  | .reply _ (some (.error message code)) => (c, .returns (.coded message code))
  | .reply _ none | .unreadable _ => (c, .returns .failed)
  | .reply _ _ | .binary _ | .other => (c, .waits)

def takes (c : HubClient) (call : Call) : Reading → Item → HubClient × Progress
  | .payload, item => c.recvBinary item
  | .push, item => c.recvPush item
  | reading, item => c.recv call reading item

end HubClient

/-! ## The agent -/

/-- An attempt at a call, or the `subscribe` that `reconnect` makes for it. -/
inductive Job where
  | attempt (call : Call) (retried : Bool)
  | restore (call : Call)

/-- The transport call of a job. -/
def Job.call : Job → Call
  | .attempt call _ => call
  | .restore _ => .subscribe

/-- Between its awaits an agent reads for a job, or is in `HubClient::connect`. A job that reads a reply
    has the number of the message that it wrote, and how many replies were owed before it. -/
inductive Phase where
  | idle
  | reads (job : Job) (ask stale : Nat) (reading : Reading)
  | connects (call : Call)

/-- A reply that was taken for the answer to the message `ask` of the client, when as many replies were
    owed before it, and on the connection as many heartbeats had been given up and as many calls had
    ended at a push that the client could not read. -/
structure Taken where
  ask : Nat
  answers : Nat
  stale : Nat
  givenUp : Nat
  unreadable : Nat

/-- A `MeshAgent` and its connection. The last six fields are the history: how many messages the client
    has written, the replies it took, and of this connection the pushes it handed out, the pushes that
    are lost, the heartbeats that were given up and the pushes that it could not read. -/
structure Link where
  identity : Bool
  wire : Wire
  client : HubClient
  subscribed : Bool
  phase : Phase
  asks : Nat
  taken : List Taken
  delivered : List StoredMessage
  lost : Nat
  givenUp : Nat
  unreadable : Nat

/-- A call is tried again, or an error swallowed, after a reconnect (`reconnectable`, `heartbeat`). -/
def Call.reconnects : Call → Bool → Result → Bool
  | .request _, false, .disconnected => true
  | .putBlob _ _, false, .disconnected => true
  | .fetchBlob _, false, .disconnected => true
  | .heartbeat, _, r => r.isErr
  | .nextDelivery, _, .disconnected => true
  | _, _, _ => false

/-- A call that `reconnect` is followed by another attempt of. -/
def Call.resumes : Call → Bool
  | .request _ | .putBlob _ _ | .fetchBlob _ => true
  | _ => false

namespace Link

variable (l : Link)

/-- An agent whose connection has just been made. -/
def start (identity : Bool) : Link :=
  ⟨identity, .opened, .opened, false, .idle, 0, [], [], 0, 0, 0⟩

/-- Write a message and read for the reply. -/
def write (job : Job) (reading : Reading) : Link :=
  { l with
    wire := { l.wire with unanswered := l.wire.unanswered ++ [l.asks] }
    asks := l.asks + 1
    phase := .reads job l.asks l.wire.owed.length reading }

/-- An attempt has ended. -/
def conclude (call : Call) (retried : Bool) (r : Result) : Link :=
  if call.reconnects retried r && l.identity then { l with phase := .connects call }
  else
    { l with
      phase := .idle
      subscribed := match call, r with
        | .subscribe, .live ok => ok
        | _, _ => l.subscribed
      delivered := match r with
        | .pushed (some message) => l.delivered ++ [message]
        | _ => l.delivered }

/-- Start an attempt; `writes` tells whether its write succeeds. -/
def begin (call : Call) (retried writes : Bool) : Link :=
  match call with
  | .nextDelivery =>
      match l.client.inbox with
      | message :: rest =>
          { l with
            phase := .idle
            client := { l.client with inbox := rest }
            delivered := l.delivered ++ [message] }
      | [] =>
          if l.client.subscribed then { l with phase := .reads (.attempt call retried) 0 0 .push }
          else { l with phase := .idle }
  | call =>
      if writes && !l.wire.ended then l.write (.attempt call retried) .reply
      else l.conclude call retried .disconnected

/-- What follows a successful `reconnect`. -/
def resume (call : Call) (writes : Bool) : Link :=
  if call.resumes then l.begin call true writes else { l with phase := .idle }

/-- A job has ended. -/
def finish (job : Job) (r : Result) (writes : Bool) : Link :=
  match job with
  | .attempt call retried => l.conclude call retried r
  | .restore call =>
      { l with subscribed := match r with
          | .live ok => ok
          | _ => false }.resume call writes

/-- `reconnect` has a new transport. -/
def reconnected (call : Call) (subscribes writes : Bool) : Link :=
  let fresh : Link :=
    { l with
      wire := .opened, client := .opened, delivered := [], lost := 0, givenUp := 0, unreadable := 0 }
  if l.subscribed then
    if subscribes then fresh.write (.restore call) .reply
    else { fresh with subscribed := false }.resume call writes
  else fresh.resume call writes

/-- The reply that a read takes for the answer to its message. -/
def takenFrom (ask stale : Nat) : Reading → Item → List Taken
  | .reply, .reply answers _ | .stored, .reply answers _ => [⟨ask, answers, stale, l.givenUp, l.unreadable⟩]
  | _, _ => []

/-- The pushes that a read loses: one that the client cannot read, or the oldest one of a full buffer. -/
def lostBy (reading : Reading) : Item → Nat
  | .unreadable _ => 1
  | .delivery _ => if reading != .push && inboxCap ≤ l.client.inbox.length then 1 else 0
  | _ => 0

/-- The client has read one message for its job. -/
def afterRead (job : Job) (ask stale : Nat) (reading : Reading) (item : Item) (rest : List Item) : Link :=
  { l with
    wire := { l.wire with unread := rest }
    client := (l.client.takes job.call reading item).1
    taken := l.taken ++ l.takenFrom ask stale reading item
    lost := l.lost + l.lostBy reading item
    unreadable := match item with
      | .unreadable _ => l.unreadable + 1
      | _ => l.unreadable }

/-- A read, and what the client does then. -/
def take (job : Job) (ask stale : Nat) (reading : Reading) (item : Item) (rest : List Item)
    (writes : Bool) : Link :=
  let l' := l.afterRead job ask stale reading item rest
  match (l.client.takes job.call reading item).2 with
  | .waits => { l' with phase := .reads job ask stale reading }
  | .goesOn next none => { l' with phase := .reads job ask stale next }
  | .goesOn next (some _) =>
      if writes && !l.wire.ended then l'.write job next else l'.finish job .failed writes
  | .returns r => l'.finish job r writes

end Link

/-- What happens to an agent and its connection. The arguments tell which writes succeed. -/
inductive Event where
  | calls (call : Call) (writes : Bool)
  | reads (writes : Bool)
  | answers (frame : Option ServerFrame) (payload : Option (List UInt8))
  | pushes (message : StoredMessage) (readable : Bool)
  | controls
  | ends (orderly writes : Bool)
  | timesOut
  | connects (subscribes writes : Bool)
  | refuses

namespace Link

/-- The hub answers the messages of a connection one by one, in order. -/
def answer (l : Link) (frame : Option ServerFrame) (payload : Option (List UInt8)) : Link :=
  match l.wire.unanswered with
  | ask :: rest =>
      { l with wire :=
        { l.wire with
          unanswered := rest
          unread := l.wire.unread ++ (.reply ask frame :: (payload.map Item.binary).toList) } }
  | [] => l

/-- The socket has ended for a reader, in order or with an error. -/
def ending (l : Link) (job : Job) (reading : Reading) (orderly writes : Bool) : Link :=
  let l' : Link :=
    { l with
      wire := { l.wire with unread := [], ended := true }
      lost := l.lost + l.wire.coming.length }
  if reading = .push && orderly then l'.finish job (.pushed none) writes
  else l'.finish job .disconnected writes

def step (l : Link) : Event → Link
  | .calls call writes =>
      match l.phase with
      | .idle => l.begin call false writes
      | _ => l
  | .reads writes =>
      match l.phase, l.wire.unread with
      | .reads job ask stale reading, item :: rest => l.take job ask stale reading item rest writes
      | _, _ => l
  | .answers frame payload => if l.wire.ended then l else l.answer frame payload
  | .pushes message readable =>
      if l.wire.ended then l
      else { l with wire :=
        { l.wire with
          unread := l.wire.unread ++ [if readable then .delivery message else .unreadable message]
          pushed := l.wire.pushed ++ [message] } }
  | .controls =>
      if l.wire.ended then l
      else { l with wire := { l.wire with unread := l.wire.unread ++ [.other] } }
  | .ends orderly writes =>
      match l.phase with
      | .reads job _ _ reading => l.ending job reading orderly writes
      | _ => l
  | .timesOut =>
      match l.phase with
      | .reads (.attempt .heartbeat _) _ _ _ =>
          { l with
            givenUp := l.givenUp + 1
            phase := if l.identity then .connects .heartbeat else .idle }
      | .reads (.attempt .nextDelivery _) _ _ .push => { l with phase := .idle }
      | _ => l
  | .connects subscribes writes =>
      match l.phase with
      | .connects call => l.reconnected call subscribes writes
      | _ => l
  | .refuses =>
      match l.phase with
      | .connects _ => { l with phase := .idle }
      | _ => l

end Link

/-! ## Replies -/

/-- The replies that are owed are those to the last messages, in order, and every reply that was taken was
    behind by those owed before, which heartbeats that were given up and pushes that could not be read
    have left. -/
structure Ledger (l : Link) : Prop where
  owed : ∃ base, l.wire.owed = List.range' base l.wire.owed.length ∧ base + l.wire.owed.length = l.asks
  taken : ∀ t ∈ l.taken, t.answers + t.stale = t.ask ∧ t.stale ≤ t.givenUp + t.unreadable

/-- No more replies are owed on a living connection than calls were given up on it. -/
def Link.Quiet (l : Link) : Prop :=
  l.wire.ended = true ∨ l.wire.owed.length ≤ l.givenUp + l.unreadable

/-- An attempt that reads a reply has it owed last. -/
def Link.Settled (l : Link) : Prop :=
  match l.phase with
  | .reads _ ask stale .reply | .reads _ ask stale .stored =>
      ask + 1 = l.asks ∧ l.wire.owed.length = stale + 1 ∧ stale ≤ l.givenUp + l.unreadable
  | _ => l.Quiet

variable {l : Link}

theorem Ledger.same {l' : Link} (ledger : Ledger l) (wire : l'.wire = l.wire) (asks : l'.asks = l.asks)
    (taken : l'.taken = l.taken) : Ledger l' := by
  refine ⟨?_, ?_⟩
  · rw [wire, asks]
    exact ledger.owed
  · rw [taken]
    exact ledger.taken

theorem owed_write (job : Job) (reading : Reading) :
    (l.write job reading).wire.owed = l.wire.owed ++ [l.asks] :=
  (List.append_assoc _ _ _).symm

theorem ledger_write (ledger : Ledger l) (job : Job) (reading : Reading) : Ledger (l.write job reading) := by
  obtain ⟨base, owed, last⟩ := ledger.owed
  refine ⟨⟨base, ?_, ?_⟩, ledger.taken⟩
  · rw [owed_write, List.length_append, List.length_singleton, List.range'_concat, ← owed, Nat.one_mul, last]
  · rw [owed_write, List.length_append, List.length_singleton, ← Nat.add_assoc, last]
    rfl

/-- What a read leaves after an attempt. -/
structure Link.Sound (l : Link) : Prop where
  ledger : Ledger l
  settled : l.Settled

theorem sound_write (ledger : Ledger l) (fewer : l.wire.owed.length ≤ l.givenUp + l.unreadable)
    (job : Job) {reading : Reading} (replies : reading = .reply ∨ reading = .stored) :
    (l.write job reading).Sound := by
  refine ⟨ledger_write ledger job reading, ?_⟩
  have settled : l.asks + 1 = (l.write job reading).asks ∧
      (l.write job reading).wire.owed.length = l.wire.owed.length + 1 ∧
      l.wire.owed.length ≤ l.givenUp + l.unreadable := by
    refine ⟨rfl, ?_, fewer⟩
    rw [owed_write, List.length_append, List.length_singleton]
  rcases replies with rfl | rfl <;> exact settled

theorem sound_conclude (ledger : Ledger l) (quiet : l.Quiet) (call : Call) (retried : Bool) (r : Result) :
    (l.conclude call retried r).Sound := by
  unfold Link.conclude
  split
  · exact ⟨ledger.same rfl rfl rfl, quiet⟩
  · exact ⟨ledger.same rfl rfl rfl, quiet⟩

theorem sound_begin (ledger : Ledger l) (quiet : l.Quiet) (call : Call) (retried writes : Bool) :
    (l.begin call retried writes).Sound := by
  have writing : (if writes && !l.wire.ended then l.write (.attempt call retried) .reply
      else l.conclude call retried .disconnected).Sound := by
    split
    · rename_i open'
      rw [Bool.and_eq_true, Bool.not_eq_true'] at open'
      have fewer := quiet.resolve_left (by rw [open'.2]; exact Bool.false_ne_true)
      exact sound_write ledger fewer _ (Or.inl rfl)
    · exact sound_conclude ledger quiet call retried .disconnected
  cases call with
  | nextDelivery =>
    unfold Link.begin
    dsimp only
    split
    · exact ⟨ledger.same rfl rfl rfl, quiet⟩
    · split
      · exact ⟨ledger.same rfl rfl rfl, quiet⟩
      · exact ⟨ledger.same rfl rfl rfl, quiet⟩
  | _ => exact writing

theorem sound_resume (ledger : Ledger l) (quiet : l.Quiet) (call : Call) (writes : Bool) :
    (l.resume call writes).Sound := by
  unfold Link.resume
  split
  · exact sound_begin ledger quiet call true writes
  · exact ⟨ledger.same rfl rfl rfl, quiet⟩

theorem sound_finish (ledger : Ledger l) (quiet : l.Quiet) (job : Job) (r : Result) (writes : Bool) :
    (l.finish job r writes).Sound := by
  cases job with
  | attempt call retried => exact sound_conclude ledger quiet call retried r
  | restore call =>
    refine sound_resume ?_ ?_ call writes
    · exact ledger.same rfl rfl rfl
    · exact quiet

/-- A read takes the oldest owed reply off, or owes as many as before. -/
theorem owed_read {item : Item} {rest : List Item} (unread : l.wire.unread = item :: rest) :
    l.wire.owed = item.ask?.toList ++ { l.wire with unread := rest }.owed := by
  unfold Wire.owed
  rw [unread, List.filterMap_cons]
  cases item.ask? <;> rfl

theorem ledger_read (ledger : Ledger l) {item : Item} {rest : List Item}
    (unread : l.wire.unread = item :: rest) {job : Job} {ask stale : Nat} {reading : Reading}
    (taken : ∀ t ∈ l.takenFrom ask stale reading item,
      t.answers + t.stale = t.ask ∧ t.stale ≤ t.givenUp + t.unreadable) :
    Ledger (l.afterRead job ask stale reading item rest) := by
  have left := owed_read unread
  refine ⟨?_, ?_⟩
  · obtain ⟨base, owed, last⟩ := ledger.owed
    unfold Link.afterRead
    cases ask : item.ask? with
    | none =>
      rw [ask, Option.toList_none, List.nil_append] at left
      exact ⟨base, left ▸ owed, left ▸ last⟩
    | some first =>
      rw [ask, Option.toList_some, List.singleton_append] at left
      rw [left, List.length_cons] at owed last
      rw [List.range'_succ, List.cons.injEq] at owed
      refine ⟨base + 1, owed.2, ?_⟩
      show base + 1 + { l.wire with unread := rest }.owed.length = l.asks
      omega
  · intro t member
    rcases List.mem_append.mp member with old | new
    · exact ledger.taken t old
    · exact taken t new

theorem Link.unreadable_le_afterRead (l : Link) (job : Job) (ask stale : Nat) (reading : Reading)
    (item : Item) (rest : List Item) :
    l.unreadable ≤ (l.afterRead job ask stale reading item rest).unreadable := by
  cases item with
  | unreadable => exact Nat.le_succ _
  | _ => exact Nat.le_refl _

/-- The oldest owed reply is behind by the others. -/
theorem first_owed (ledger : Ledger l) {answers : Nat} {frame : Option ServerFrame} {rest : List Item}
    (unread : l.wire.unread = .reply answers frame :: rest) :
    answers + l.wire.owed.length = l.asks := by
  obtain ⟨base, owed, last⟩ := ledger.owed
  have left := owed_read unread
  rw [← last]
  rw [left] at owed
  rw [show (Item.reply answers frame).ask?.toList = [answers] from rfl, List.singleton_append,
    List.length_cons, List.range'_succ, List.cons.injEq] at owed
  rw [owed.1]

theorem replied_cases (call : Call) (reading : Reading) (frame : ServerFrame) :
    (∃ r, replied call reading frame = .returns r) ∨
      replied call reading frame = .goesOn .payload none ∨
      ∃ bytes, replied call reading frame = .goesOn .stored (some bytes) := by
  unfold replied
  split
  case h_1 => exact Or.inr (Or.inr ⟨_, rfl⟩)
  case h_4 => exact Or.inr (Or.inl rfl)
  all_goals exact Or.inl ⟨_, rfl⟩

/-- An attempt that reads for a reply has it owed last. -/
theorem Link.Sound.waiting (sound : l.Sound) {job : Job} {ask stale : Nat} {reading : Reading}
    (phase : l.phase = .reads job ask stale reading) (replies : reading = .reply ∨ reading = .stored) :
    ask + 1 = l.asks ∧ l.wire.owed.length = stale + 1 ∧ stale ≤ l.givenUp + l.unreadable := by
  have settled := sound.settled
  unfold Link.Settled at settled
  rw [phase] at settled
  rcases replies with rfl | rfl <;> exact settled

/-- A reply frame ends the attempt that reads for one, or moves it on. -/
theorem sound_take_reply (sound : l.Sound) {job : Job} {ask stale answers : Nat} {reading : Reading}
    {frame : Option ServerFrame} {rest : List Item} (phase : l.phase = .reads job ask stale reading)
    (replies : reading = .reply ∨ reading = .stored)
    (unread : l.wire.unread = .reply answers frame :: rest) (writes : Bool) :
    (l.take job ask stale reading (.reply answers frame) rest writes).Sound := by
  obtain ⟨last, owed, few⟩ := sound.waiting phase replies
  have behind := first_owed sound.ledger unread
  have ledger : Ledger (l.afterRead job ask stale reading (.reply answers frame) rest) := by
    refine ledger_read sound.ledger unread ?_
    have new : l.takenFrom ask stale reading (.reply answers frame) =
        [⟨ask, answers, stale, l.givenUp, l.unreadable⟩] := by
      rcases replies with rfl | rfl <;> rfl
    rw [new]
    intro t member
    rw [List.mem_singleton.mp member]
    refine ⟨?_, few⟩
    show answers + stale = ask
    omega
  have fewer : (l.afterRead job ask stale reading (.reply answers frame) rest).wire.owed.length ≤
      (l.afterRead job ask stale reading (.reply answers frame) rest).givenUp +
        (l.afterRead job ask stale reading (.reply answers frame) rest).unreadable := by
    have left := congrArg List.length (owed_read unread)
    rw [List.length_append] at left
    change _ = 1 + (l.afterRead job ask stale reading (.reply answers frame) rest).wire.owed.length at left
    show _ ≤ l.givenUp + l.unreadable
    omega
  have takes : l.client.takes job.call reading (.reply answers frame) =
      l.client.recv job.call reading (.reply answers frame) := by
    rcases replies with rfl | rfl <;> rfl
  unfold Link.take
  rw [takes]
  cases frame with
  | none => exact sound_finish ledger (Or.inr fewer) job .failed writes
  | some frame =>
    rcases replied_cases job.call reading frame with ⟨r, ends⟩ | goes | ⟨bytes, goes⟩
    · simp only [HubClient.recv, ends]
      exact sound_finish ledger (Or.inr fewer) job r writes
    · simp only [HubClient.recv, goes]
      exact ⟨ledger.same rfl rfl rfl, Or.inr fewer⟩
    · simp only [HubClient.recv, goes]
      split
      · exact sound_write ledger fewer job (Or.inr rfl)
      · exact sound_finish ledger (Or.inr fewer) job .failed writes

/-- What is read beside a reply leaves the attempt waiting for it. -/
theorem sound_take_aside (sound : l.Sound) {job : Job} {ask stale : Nat} {reading : Reading} {item : Item}
    {rest : List Item} (phase : l.phase = .reads job ask stale reading)
    (replies : reading = .reply ∨ reading = .stored) (aside : item.ask? = none)
    (waits : (l.client.takes job.call reading item).2 = .waits)
    (unread : l.wire.unread = item :: rest) (writes : Bool) :
    (l.take job ask stale reading item rest writes).Sound := by
  have none : l.takenFrom ask stale reading item = [] := by
    rcases replies with rfl | rfl <;> cases item <;> first | rfl | cases aside
  have same := owed_read unread
  rw [aside, Option.toList_none, List.nil_append] at same
  have ledger : Ledger (l.afterRead job ask stale reading item rest) :=
    ledger_read sound.ledger unread (by simp [none])
  obtain ⟨last, owed, few⟩ := sound.waiting phase replies
  rw [same] at owed
  have more := l.unreadable_le_afterRead job ask stale reading item rest
  have settled : ask + 1 = l.asks ∧ { l.wire with unread := rest }.owed.length = stale + 1 ∧
      stale ≤ l.givenUp + (l.afterRead job ask stale reading item rest).unreadable :=
    ⟨last, owed, by omega⟩
  unfold Link.take
  rw [waits]
  refine ⟨ledger.same rfl rfl rfl, ?_⟩
  rcases replies with rfl | rfl <;> exact settled

/-- A push that cannot be read ends the attempt, and leaves its reply owed. -/
theorem sound_take_unreadable (sound : l.Sound) {job : Job} {ask stale : Nat} {reading : Reading}
    {message : StoredMessage} {rest : List Item} (phase : l.phase = .reads job ask stale reading)
    (replies : reading = .reply ∨ reading = .stored)
    (unread : l.wire.unread = .unreadable message :: rest) (writes : Bool) :
    (l.take job ask stale reading (.unreadable message) rest writes).Sound := by
  have ledger : Ledger (l.afterRead job ask stale reading (.unreadable message) rest) :=
    ledger_read sound.ledger unread (by rcases replies with rfl | rfl <;> exact nofun)
  have same := owed_read unread
  rw [show (Item.unreadable message).ask? = none from rfl, Option.toList_none, List.nil_append] at same
  obtain ⟨-, owed, few⟩ := sound.waiting phase replies
  rw [same] at owed
  have quiet : (l.afterRead job ask stale reading (.unreadable message) rest).Quiet := by
    refine Or.inr ?_
    show { l.wire with unread := rest }.owed.length ≤ l.givenUp + (l.unreadable + 1)
    omega
  have takes : (l.client.takes job.call reading (.unreadable message)).2 = .returns .failed := by
    rcases replies with rfl | rfl <;> rfl
  unfold Link.take
  rw [takes]
  exact sound_finish ledger quiet job .failed writes

/-- A payload or a push that is waited for. -/
theorem sound_take_other (sound : l.Sound) {job : Job} {ask stale : Nat} {reading : Reading} {item : Item}
    {rest : List Item} (phase : l.phase = .reads job ask stale reading)
    (others : reading = .payload ∨ reading = .push) (unread : l.wire.unread = item :: rest) (writes : Bool) :
    (l.take job ask stale reading item rest writes).Sound := by
  have none : l.takenFrom ask stale reading item = [] := by
    rcases others with rfl | rfl <;> rfl
  have ledger : Ledger (l.afterRead job ask stale reading item rest) :=
    ledger_read sound.ledger unread (by simp [none])
  have quiet : (l.afterRead job ask stale reading item rest).Quiet := by
    have settled : l.Quiet := by
      have settled := sound.settled
      unfold Link.Settled at settled
      rw [phase] at settled
      rcases others with rfl | rfl <;> exact settled
    refine settled.imp id ?_
    intro few
    have left := congrArg List.length (owed_read unread)
    rw [List.length_append] at left
    have more := l.unreadable_le_afterRead job ask stale reading item rest
    show { l.wire with unread := rest }.owed.length ≤
      l.givenUp + (l.afterRead job ask stale reading item rest).unreadable
    omega
  have progress : (l.client.takes job.call reading item).2 = .waits ∨
      ∃ r, (l.client.takes job.call reading item).2 = .returns r := by
    rcases others with rfl | rfl
    · unfold HubClient.takes HubClient.recvBinary
      dsimp only
      split <;> first | exact Or.inl rfl | exact Or.inr ⟨_, rfl⟩
    · unfold HubClient.takes HubClient.recvPush
      dsimp only
      split <;> first | exact Or.inl rfl | exact Or.inr ⟨_, rfl⟩
  unfold Link.take
  rcases progress with waits | ⟨r, ends⟩
  · rw [waits]
    refine ⟨ledger.same rfl rfl rfl, ?_⟩
    rcases others with rfl | rfl <;> exact quiet
  · rw [ends]
    exact sound_finish ledger quiet job r writes

theorem sound_take (sound : l.Sound) {job : Job} {ask stale : Nat} {reading : Reading} {item : Item}
    {rest : List Item} (phase : l.phase = .reads job ask stale reading)
    (unread : l.wire.unread = item :: rest) (writes : Bool) :
    (l.take job ask stale reading item rest writes).Sound := by
  have kinds : (reading = .reply ∨ reading = .stored) ∨ reading = .payload ∨ reading = .push := by
    cases reading <;> simp
  rcases kinds with replies | others
  · cases item with
    | reply answers frame => exact sound_take_reply sound phase replies unread writes
    | unreadable message => exact sound_take_unreadable sound phase replies unread writes
    | _ =>
      refine sound_take_aside sound phase replies rfl ?_ unread writes
      rcases replies with rfl | rfl <;> rfl
  · exact sound_take_other sound phase others unread writes

theorem sound_reconnected (ledger : Ledger l) (call : Call) (subscribes writes : Bool) :
    (l.reconnected call subscribes writes).Sound := by
  have fresh : Ledger { l with
      wire := .opened, client := .opened, delivered := [], lost := 0, givenUp := 0, unreadable := 0 } :=
    ⟨⟨l.asks, rfl, rfl⟩, ledger.taken⟩
  unfold Link.reconnected
  dsimp only
  split
  · split
    · exact sound_write fresh (Nat.le_refl 0) _ (Or.inl rfl)
    · refine sound_resume ?_ ?_ call writes
      · exact fresh.same rfl rfl rfl
      · exact Or.inr (Nat.le_refl 0)
  · exact sound_resume fresh (Or.inr (Nat.le_refl 0)) call writes

/-- The hub and the network change what is unread, not what is owed. -/
theorem Link.Sound.arrived {l' : Link} (sound : l.Sound) (owed : l'.wire.owed = l.wire.owed)
    (ended : l'.wire.ended = l.wire.ended) (same : l' = { l with wire := l'.wire }) : l'.Sound := by
  rw [same]
  refine ⟨⟨?_, sound.ledger.taken⟩, ?_⟩
  · show ∃ base, l'.wire.owed = List.range' base l'.wire.owed.length ∧ base + l'.wire.owed.length = l.asks
    rw [owed]
    exact sound.ledger.owed
  · have settled := sound.settled
    unfold Link.Settled Link.Quiet at settled ⊢
    dsimp only
    rw [owed, ended]
    exact settled

theorem sound_ending (sound : l.Sound) (job : Job) (reading : Reading) (orderly writes : Bool) :
    (l.ending job reading orderly writes).Sound := by
  have ledger : Ledger { l with
      wire := { l.wire with unread := [], ended := true }
      lost := l.lost + l.wire.coming.length } := by
    refine ⟨?_, sound.ledger.taken⟩
    obtain ⟨base, owed, last⟩ := sound.ledger.owed
    have length : l.wire.owed.length =
        (l.wire.unread.filterMap Item.ask?).length + l.wire.unanswered.length := List.length_append
    refine ⟨base + (l.wire.unread.filterMap Item.ask?).length, ?_, ?_⟩
    · show l.wire.unanswered = List.range' _ l.wire.unanswered.length
      rw [length] at owed
      have dropped := congrArg (List.drop (l.wire.unread.filterMap Item.ask?).length) owed
      rw [Wire.owed, List.drop_left, List.drop_range', Nat.mul_one, Nat.add_sub_cancel_left] at dropped
      exact dropped
    · show _ + l.wire.unanswered.length = l.asks
      omega
  unfold Link.ending
  dsimp only
  split
  · exact sound_finish ledger (Or.inl rfl) job _ writes
  · exact sound_finish ledger (Or.inl rfl) job _ writes

/-- An attempt that is given up leaves its reply owed. -/
theorem Link.Sound.owed_few (sound : l.Sound) {job : Job} {ask stale : Nat} {reading : Reading}
    (phase : l.phase = .reads job ask stale reading) :
    l.wire.ended = true ∨ l.wire.owed.length ≤ l.givenUp + 1 + l.unreadable := by
  have settled := sound.settled
  unfold Link.Settled at settled
  rw [phase] at settled
  have waits : (ask + 1 = l.asks ∧ l.wire.owed.length = stale + 1 ∧ stale ≤ l.givenUp + l.unreadable) →
      l.wire.ended = true ∨ l.wire.owed.length ≤ l.givenUp + 1 + l.unreadable := by
    rintro ⟨-, owed, few⟩
    exact Or.inr (by omega)
  cases reading with
  | reply => exact waits settled
  | stored => exact waits settled
  | payload => exact settled.imp id (by omega)
  | push => exact settled.imp id (by omega)

theorem sound_step (sound : l.Sound) (e : Event) : (l.step e).Sound := by
  cases e with
  | calls call writes =>
    unfold Link.step
    dsimp only
    split
    · rename_i idle
      have quiet : l.Quiet := by
        have settled := sound.settled
        unfold Link.Settled at settled
        rw [idle] at settled
        exact settled
      exact sound_begin sound.ledger quiet call false writes
    · exact sound
  | reads writes =>
    unfold Link.step
    dsimp only
    split
    · rename_i phase unread
      exact sound_take sound phase unread writes
    · exact sound
  | answers frame payload =>
    unfold Link.step Link.answer
    dsimp only
    split
    · exact sound
    · split
      · rename_i ask rest waiting
        refine sound.arrived ?_ rfl rfl
        unfold Wire.owed
        rw [waiting]
        cases payload <;> simp [Item.ask?]
      · exact sound
  | pushes message readable =>
    unfold Link.step
    dsimp only
    split
    · exact sound
    · refine sound.arrived ?_ rfl rfl
      cases readable <;> simp [Wire.owed, Item.ask?]
  | controls =>
    unfold Link.step
    dsimp only
    split
    · exact sound
    · refine sound.arrived ?_ rfl rfl
      simp [Wire.owed, Item.ask?]
  | ends orderly writes =>
    unfold Link.step
    dsimp only
    split
    · exact sound_ending sound _ _ orderly writes
    · exact sound
  | timesOut =>
    unfold Link.step
    dsimp only
    split
    · rename_i phase
      have few := sound.owed_few phase
      split
      · exact ⟨sound.ledger.same rfl rfl rfl, few⟩
      · exact ⟨sound.ledger.same rfl rfl rfl, few⟩
    · rename_i phase
      have settled := sound.settled
      unfold Link.Settled at settled
      rw [phase] at settled
      exact ⟨sound.ledger.same rfl rfl rfl, settled⟩
    · exact sound
  | connects subscribes writes =>
    unfold Link.step
    dsimp only
    split
    · exact sound_reconnected sound.ledger _ subscribes writes
    · exact sound
  | refuses =>
    unfold Link.step
    dsimp only
    split
    · rename_i phase
      have settled := sound.settled
      unfold Link.Settled at settled
      rw [phase] at settled
      exact ⟨sound.ledger.same rfl rfl rfl, settled⟩
    · exact sound

theorem sound_start (identity : Bool) : (Link.start identity).Sound := by
  refine ⟨⟨⟨0, rfl, rfl⟩, ?_⟩, Or.inr (Nat.le_refl 0)⟩
  intro t member
  cases member

theorem sound_run (identity : Bool) (run : List Event) : (run.foldl Link.step (Link.start identity)).Sound :=
  List.foldlRecOn run Link.step (sound_start identity) (fun _ sound e _ => sound_step sound e)

/-- The reply that an attempt takes is behind its message by exactly the replies that were owed before,
    and no more of them are owed than heartbeats were given up, and calls ended at a push that the client
    could not read, on a connection that was kept. -/
theorem replies_answer_their_request (identity : Bool) (run : List Event) :
    ∀ t ∈ (run.foldl Link.step (Link.start identity)).taken,
      t.answers + t.stale = t.ask ∧ t.stale ≤ t.givenUp + t.unreadable :=
  (sound_run identity run).ledger.taken

/-- Without an identity the connection is kept after a heartbeat that was given up, and the next call
    takes the late pong for its answer. -/
def latePong : List Event :=
  [.calls .heartbeat true, .timesOut, .calls (.request .ping) true, .answers (some .pong) none, .reads true]

theorem replies_answer_their_request_late :
    (⟨1, 0, 1, 1, 0⟩ : Taken) ∈ (latePong.foldl Link.step (Link.start false)).taken ∧
      0 + 1 = 1 ∧ 1 ≤ 1 + 0 := by
  have taken : (latePong.foldl Link.step (Link.start false)).taken = [⟨1, 0, 1, 1, 0⟩] := rfl
  have member : (⟨1, 0, 1, 1, 0⟩ : Taken) ∈ (latePong.foldl Link.step (Link.start false)).taken := by
    rw [taken]
    exact List.mem_singleton_self _
  exact ⟨member, replies_answer_their_request false latePong _ member⟩

/-- A push that cannot be read ends the call that reads it; its reply answers the next call. -/
example (message : StoredMessage) :
    (List.foldl Link.step (Link.start true)
      [.calls (.request .ping) true, .pushes message false, .reads true, .calls (.request .ping) true,
        .answers (some .pong) none, .reads true]).taken = [⟨1, 0, 1, 0, 1⟩] := rfl

/-! ## Pushes -/

/-- The pushes of the connection that are handed out, buffered, or still to be read, in that order. -/
def Link.accounted (l : Link) : List StoredMessage := l.delivered ++ (l.client.inbox ++ l.wire.coming)

/-- What is accounted for are pushes of the connection, in their order, all but the lost ones. -/
structure Pushes (l : Link) : Prop where
  ordered : l.accounted.Sublist l.wire.pushed
  counted : l.accounted.length + l.lost = l.wire.pushed.length
  spared : l.lost ≤ l.unreadable ∨ l.wire.ended = true ∨ inboxCap < l.wire.pushed.length
  bounded : l.client.inbox.length ≤ inboxCap

/-- Only `next_delivery` reads for pushes, and with nothing buffered. -/
def Link.Drained (l : Link) : Prop :=
  ∀ job ask stale, l.phase = .reads job ask stale .push →
    l.client.inbox = [] ∧ ∃ retried, job = .attempt .nextDelivery retried

structure Link.Accounts (l : Link) : Prop where
  pushes : Pushes l
  drained : l.Drained

/-- The push that a result hands to the caller. -/
def Result.handed : Result → Option StoredMessage
  | .pushed message => message
  | _ => none

theorem Pushes.same {l' : Link} (pushes : Pushes l) (accounted : l'.accounted = l.accounted)
    (pushed : l'.wire.pushed = l.wire.pushed) (lost : l'.lost = l.lost)
    (unreadable : l'.unreadable = l.unreadable) (ended : l'.wire.ended = l.wire.ended)
    (fewer : l'.client.inbox.length ≤ l.client.inbox.length) : Pushes l' := by
  obtain ⟨ordered, counted, spared, bounded⟩ := pushes
  refine ⟨?_, ?_, ?_, Nat.le_trans fewer bounded⟩
  · rw [accounted, pushed]
    exact ordered
  · rw [accounted, pushed, lost]
    exact counted
  · rw [pushed, lost, unreadable, ended]
    exact spared

theorem accounts_write (pushes : Pushes l) (job : Job) {reading : Reading} (other : reading ≠ .push) :
    (l.write job reading).Accounts := by
  refine ⟨pushes.same rfl rfl rfl rfl rfl (Nat.le_refl _), ?_⟩
  intro job' ask stale phase
  cases phase
  exact absurd rfl other

theorem accounts_conclude (pushes : Pushes l) (call : Call) (retried : Bool) {r : Result}
    (none : r.handed = none) : (l.conclude call retried r).Accounts := by
  unfold Link.conclude
  split
  · refine ⟨pushes.same rfl rfl rfl rfl rfl (Nat.le_refl _), ?_⟩
    intro job ask stale phase
    cases phase
  · refine ⟨pushes.same ?_ rfl rfl rfl rfl (Nat.le_refl _), ?_⟩
    · cases r with
      | pushed message =>
        cases message with
        | none => rfl
        | some message => cases none
      | _ => rfl
    · intro job ask stale phase
      cases phase

theorem accounts_begin (pushes : Pushes l) (call : Call) (retried writes : Bool) :
    (l.begin call retried writes).Accounts := by
  have writing : (if writes && !l.wire.ended then l.write (.attempt call retried) .reply
      else l.conclude call retried .disconnected).Accounts := by
    split
    · exact accounts_write pushes _ (by decide)
    · exact accounts_conclude pushes call retried rfl
  cases call with
  | nextDelivery =>
    unfold Link.begin
    dsimp only
    split
    · rename_i message rest buffered
      refine ⟨pushes.same ?_ rfl rfl rfl rfl ?_, ?_⟩
      · simp [Link.accounted, buffered]
      · simp [buffered]
      · intro job ask stale phase
        cases phase
    · rename_i empty
      split
      · refine ⟨pushes.same rfl rfl rfl rfl rfl (Nat.le_refl _), ?_⟩
        intro job ask stale phase
        cases phase
        exact ⟨empty, retried, rfl⟩
      · refine ⟨pushes.same rfl rfl rfl rfl rfl (Nat.le_refl _), ?_⟩
        intro job ask stale phase
        cases phase
  | _ => exact writing

theorem accounts_resume (pushes : Pushes l) (call : Call) (writes : Bool) :
    (l.resume call writes).Accounts := by
  unfold Link.resume
  split
  · exact accounts_begin pushes call true writes
  · refine ⟨pushes.same rfl rfl rfl rfl rfl (Nat.le_refl _), ?_⟩
    intro job ask stale phase
    cases phase

theorem accounts_finish (pushes : Pushes l) (job : Job) {r : Result} (none : r.handed = none)
    (writes : Bool) : (l.finish job r writes).Accounts := by
  cases job with
  | attempt call retried => exact accounts_conclude pushes call retried none
  | restore call =>
    refine accounts_resume ?_ call writes
    exact pushes.same rfl rfl rfl rfl rfl (Nat.le_refl _)

theorem replied_handed {call : Call} {reading : Reading} {frame : ServerFrame} {r : Result}
    (ends : replied call reading frame = .returns r) : r.handed = none := by
  unfold replied at ends
  split at ends <;> cases ends <;> rfl

/-- What is no push leaves the buffer alone and hands out nothing. -/
structure Aside (c : HubClient) (took : HubClient × Progress) : Prop where
  inbox : took.1.inbox = c.inbox
  handed : ∀ r, took.2 = .returns r → r.handed = none
  goesOn : ∀ next bytes, took.2 = .goesOn next bytes → next ≠ .push

theorem aside_of_still {c : HubClient} {took : HubClient × Progress} (same : took.1 = c)
    (ends : took.2 = .waits ∨ ∃ r, took.2 = .returns r ∧ r.handed = none) : Aside c took := by
  refine ⟨same ▸ rfl, ?_, ?_⟩
  · intro r returns
    rcases ends with waits | ⟨r', returns', handed⟩
    · rw [waits] at returns
      cases returns
    · rw [returns'] at returns
      cases returns
      exact handed
  · intro next bytes goes
    rcases ends with waits | ⟨r, returns, -⟩
    · rw [waits] at goes
      cases goes
    · rw [returns] at goes
      cases goes

theorem recv_aside (c : HubClient) (call : Call) (reading : Reading) {item : Item}
    (plain : item.pushed? = none) : Aside c (c.recv call reading item) := by
  have waits : Aside c (c, .waits) := aside_of_still rfl (Or.inl rfl)
  cases item with
  | delivery message => cases plain
  | unreadable message => cases plain
  | binary bytes => exact waits
  | other => exact waits
  | reply ask frame =>
    cases frame with
    | none => exact aside_of_still rfl (Or.inr ⟨_, rfl, rfl⟩)
    | some frame =>
      refine ⟨?_, fun r ends => replied_handed ends, ?_⟩
      · unfold HubClient.recv
        dsimp only
        split <;> rfl
      · intro next bytes goes
        change replied call reading frame = .goesOn next bytes at goes
        rcases replied_cases call reading frame with ⟨r, ends⟩ | other | ⟨bytes', other⟩
        · rw [ends] at goes
          cases goes
        · rw [other] at goes
          cases goes
          decide
        · rw [other] at goes
          cases goes
          decide

theorem takes_aside (c : HubClient) (call : Call) (reading : Reading) {item : Item}
    (plain : item.pushed? = none) : Aside c (c.takes call reading item) := by
  cases reading with
  | reply => exact recv_aside c call .reply plain
  | stored => exact recv_aside c call .stored plain
  | payload =>
    show Aside c (c.recvBinary item)
    unfold HubClient.recvBinary
    split <;> first
      | exact aside_of_still rfl (Or.inr ⟨_, rfl, rfl⟩)
      | exact aside_of_still rfl (Or.inl rfl)
      | cases plain
  | push =>
    show Aside c (c.recvPush item)
    unfold HubClient.recvPush
    split <;> first
      | exact aside_of_still rfl (Or.inr ⟨_, rfl, rfl⟩)
      | exact aside_of_still rfl (Or.inl rfl)
      | cases plain

/-- A push that is buffered drops the oldest one when the buffer is full. -/
theorem pushes_buffered (pushes : Pushes l) {message : StoredMessage} {rest : List Item}
    (unread : l.wire.unread = .delivery message :: rest) {job : Job} {ask stale : Nat} {reading : Reading}
    (other : reading ≠ .push)
    (takes : l.client.takes job.call reading (.delivery message) = (l.client.bufferPush message, .waits)) :
    Pushes (l.afterRead job ask stale reading (.delivery message) rest) := by
  obtain ⟨ordered, counted, spared, bounded⟩ := pushes
  have coming : l.wire.coming = message :: { l.wire with unread := rest }.coming := by
    unfold Wire.coming
    rw [unread]
    rfl
  have listed : l.accounted =
      l.delivered ++ (l.client.inbox ++ message :: { l.wire with unread := rest }.coming) := by
    rw [Link.accounted, coming]
  rw [listed] at ordered counted
  have after : (l.afterRead job ask stale reading (.delivery message) rest).accounted = l.delivered ++
      ((if inboxCap ≤ l.client.inbox.length then l.client.inbox.tail else l.client.inbox) ++
        message :: { l.wire with unread := rest }.coming) := by
    unfold Link.accounted Link.afterRead
    dsimp only
    rw [takes]
    simp [HubClient.bufferPush]
  have lost : (l.afterRead job ask stale reading (.delivery message) rest).lost =
      l.lost + if inboxCap ≤ l.client.inbox.length then 1 else 0 := by
    simp [Link.afterRead, Link.lostBy, other]
  have buffered : (l.afterRead job ask stale reading (.delivery message) rest).client.inbox =
      (if inboxCap ≤ l.client.inbox.length then l.client.inbox.tail else l.client.inbox) ++ [message] := by
    unfold Link.afterRead
    dsimp only
    rw [takes]
    rfl
  have unchanged : (l.afterRead job ask stale reading (.delivery message) rest).wire.pushed = l.wire.pushed := rfl
  by_cases full : inboxCap ≤ l.client.inbox.length
  · rw [if_pos full] at after lost buffered
    have some : 0 < l.client.inbox.length := Nat.lt_of_lt_of_le (by decide) full
    refine ⟨?_, ?_, ?_, ?_⟩
    · rw [after]
      refine List.Sublist.trans ?_ ordered
      exact (List.Sublist.refl _).append ((List.tail_sublist _).append (List.Sublist.refl _))
    · rw [after, lost, unchanged]
      simp only [List.length_append, List.length_tail] at counted ⊢
      omega
    · refine Or.inr (Or.inr ?_)
      have fits := ordered.length_le
      simp only [List.length_append, List.length_cons] at fits
      rw [unchanged]
      omega
    · rw [buffered]
      simp only [List.length_append, List.length_tail, List.length_singleton]
      omega
  · rw [if_neg full] at after lost buffered
    refine ⟨?_, ?_, ?_, ?_⟩
    · rw [after]
      exact ordered
    · rw [after, lost]
      exact counted
    · rw [lost]
      exact spared
    · rw [buffered, List.length_append, List.length_singleton]
      omega

/-- What is no push leaves the pushes as they are. -/
theorem pushes_aside (pushes : Pushes l) {item : Item} {rest : List Item}
    (unread : l.wire.unread = item :: rest) (plain : item.pushed? = none) {job : Job} {ask stale : Nat}
    {reading : Reading} : Pushes (l.afterRead job ask stale reading item rest) := by
  have inbox : (l.afterRead job ask stale reading item rest).client.inbox = l.client.inbox :=
    (takes_aside l.client job.call reading plain).inbox
  have coming : (l.afterRead job ask stale reading item rest).wire.coming = l.wire.coming := by
    unfold Link.afterRead Wire.coming
    rw [unread, List.filterMap_cons_none plain]
  refine pushes.same ?_ rfl ?_ ?_ rfl (Nat.le_of_eq (congrArg List.length inbox))
  · unfold Link.accounted
    rw [inbox, coming]
    rfl
  · cases item <;> first | rfl | cases plain
  · cases item <;> first | rfl | cases plain

theorem accounts_take_aside (accounts : l.Accounts) {job : Job} {ask stale : Nat} {reading : Reading}
    {item : Item} {rest : List Item} (phase : l.phase = .reads job ask stale reading)
    (unread : l.wire.unread = item :: rest) (plain : item.pushed? = none) (writes : Bool) :
    (l.take job ask stale reading item rest writes).Accounts := by
  have aside := takes_aside l.client job.call reading plain
  have pushes : Pushes (l.afterRead job ask stale reading item rest) :=
    pushes_aside accounts.pushes unread plain
  unfold Link.take
  dsimp only
  split
  · refine ⟨pushes.same rfl rfl rfl rfl rfl (Nat.le_refl _), ?_⟩
    intro job' ask' stale' phase'
    cases phase'
    obtain ⟨empty, delivers⟩ := accounts.drained job ask stale phase
    exact ⟨aside.inbox.trans empty, delivers⟩
  · rename_i next goes
    refine ⟨pushes.same rfl rfl rfl rfl rfl (Nat.le_refl _), ?_⟩
    intro job' ask' stale' phase'
    cases phase'
    exact absurd rfl (aside.goesOn _ _ goes)
  · rename_i next bytes goes
    split
    · exact accounts_write pushes job (aside.goesOn _ _ goes)
    · exact accounts_finish pushes job rfl writes
  · rename_i r ends
    exact accounts_finish pushes job (aside.handed r ends) writes

/-- A push is handed to the `next_delivery` that reads for it, and buffered otherwise. -/
theorem accounts_take_delivery (accounts : l.Accounts) {job : Job} {ask stale : Nat} {reading : Reading}
    {message : StoredMessage} {rest : List Item} (phase : l.phase = .reads job ask stale reading)
    (unread : l.wire.unread = .delivery message :: rest) (writes : Bool) :
    (l.take job ask stale reading (.delivery message) rest writes).Accounts := by
  by_cases reads : reading = .push
  · subst reads
    obtain ⟨empty, retried, rfl⟩ := accounts.drained job ask stale phase
    have listed : (l.take (.attempt .nextDelivery retried) ask stale .push (.delivery message) rest
        writes).accounted = l.accounted := by
      have coming : l.wire.coming = message :: { l.wire with unread := rest }.coming := by
        unfold Wire.coming
        rw [unread]
        rfl
      show l.delivered ++ [message] ++ (l.client.inbox ++ { l.wire with unread := rest }.coming) =
        l.delivered ++ (l.client.inbox ++ l.wire.coming)
      rw [coming, empty, List.nil_append, List.nil_append, List.append_assoc, List.singleton_append]
    refine ⟨accounts.pushes.same listed rfl rfl rfl rfl (Nat.le_refl _), ?_⟩
    · intro job' ask' stale' phase'
      cases phase'
  · have takes : l.client.takes job.call reading (.delivery message) =
        (l.client.bufferPush message, .waits) := by
      cases reading <;> first | rfl | exact absurd rfl reads
    have pushes : Pushes (l.afterRead job ask stale reading (.delivery message) rest) :=
      pushes_buffered accounts.pushes unread reads takes
    unfold Link.take
    rw [takes]
    refine ⟨pushes.same rfl rfl rfl rfl rfl (Nat.le_refl _), ?_⟩
    intro job' ask' stale' phase'
    cases phase'
    exact absurd rfl reads

/-- A push that cannot be read is lost with the call that reads it. -/
theorem accounts_take_unreadable (accounts : l.Accounts) {job : Job} {ask stale : Nat}
    {reading : Reading} {message : StoredMessage} {rest : List Item}
    (unread : l.wire.unread = .unreadable message :: rest) (writes : Bool) :
    (l.take job ask stale reading (.unreadable message) rest writes).Accounts := by
  have takes : l.client.takes job.call reading (.unreadable message) = (l.client, .returns .failed) := by
    cases reading <;> rfl
  have coming : l.wire.coming = message :: { l.wire with unread := rest }.coming := by
    unfold Wire.coming
    rw [unread]
    rfl
  have after : (l.afterRead job ask stale reading (.unreadable message) rest).accounted =
      l.delivered ++ (l.client.inbox ++ { l.wire with unread := rest }.coming) := by
    unfold Link.accounted Link.afterRead
    dsimp only
    rw [takes]
  have pushes : Pushes (l.afterRead job ask stale reading (.unreadable message) rest) := by
    obtain ⟨ordered, counted, spared, bounded⟩ := accounts.pushes
    rw [Link.accounted, coming] at ordered counted
    refine ⟨?_, ?_, ?_, ?_⟩
    · rw [after]
      refine List.Sublist.trans ?_ ordered
      refine (List.Sublist.refl _).append ((List.Sublist.refl _).append ?_)
      exact List.sublist_cons_self _ _
    · rw [after]
      simp only [List.length_append, List.length_cons] at counted ⊢
      show _ + (l.lost + 1) = l.wire.pushed.length
      omega
    · exact spared.imp (Nat.add_le_add_right · 1) id
    · unfold Link.afterRead
      dsimp only
      rw [takes]
      exact bounded
  unfold Link.take
  rw [takes]
  exact accounts_finish pushes job rfl writes

/-- What has not been read when the socket ends is lost. -/
theorem accounts_ending (pushes : Pushes l) (job : Job) (reading : Reading) (orderly writes : Bool) :
    (l.ending job reading orderly writes).Accounts := by
  have left : Pushes { l with
      wire := { l.wire with unread := [], ended := true }
      lost := l.lost + l.wire.coming.length } := by
    obtain ⟨ordered, counted, -, bounded⟩ := pushes
    refine ⟨?_, ?_, Or.inr (Or.inl rfl), bounded⟩
    · refine List.Sublist.trans ?_ ordered
      exact (List.Sublist.refl _).append ((List.Sublist.refl _).append (List.nil_sublist _))
    · simp only [Link.accounted, List.length_append] at counted ⊢
      show _ + (_ + 0) + _ = l.wire.pushed.length
      omega
  unfold Link.ending
  dsimp only
  split
  · exact accounts_finish left job rfl writes
  · exact accounts_finish left job rfl writes

theorem accounts_reconnected (call : Call) (subscribes writes : Bool) :
    (l.reconnected call subscribes writes).Accounts := by
  have fresh : Pushes { l with
      wire := .opened, client := .opened, delivered := [], lost := 0, givenUp := 0, unreadable := 0 } :=
    ⟨List.Sublist.refl _, rfl, Or.inl (Nat.le_refl 0), Nat.zero_le _⟩
  unfold Link.reconnected
  dsimp only
  split
  · split
    · exact accounts_write fresh _ (by decide)
    · refine accounts_resume ?_ call writes
      exact fresh.same rfl rfl rfl rfl rfl (Nat.le_refl _)
  · exact accounts_resume fresh call writes

/-- What arrives beside pushes. -/
theorem Link.Accounts.arrived {l' : Link} (accounts : l.Accounts) (coming : l'.wire.coming = l.wire.coming)
    (pushed : l'.wire.pushed = l.wire.pushed) (ended : l'.wire.ended = l.wire.ended)
    (same : l' = { l with wire := l'.wire }) : l'.Accounts := by
  rw [same]
  refine ⟨accounts.pushes.same ?_ pushed rfl rfl ended (Nat.le_refl _), accounts.drained⟩
  show l.delivered ++ (l.client.inbox ++ l'.wire.coming) = _
  rw [coming]
  rfl

/-- The call of the agent has ended. -/
theorem Link.Accounts.leaves (accounts : l.Accounts) {phase : Phase} {givenUp : Nat}
    (left : ∀ job ask stale, phase ≠ .reads job ask stale .push) :
    Link.Accounts { l with phase := phase, givenUp := givenUp } :=
  ⟨accounts.pushes.same rfl rfl rfl rfl rfl (Nat.le_refl _),
    fun job ask stale phase' => absurd phase' (left job ask stale)⟩

theorem accounts_step (accounts : l.Accounts) (e : Event) : (l.step e).Accounts := by
  cases e with
  | calls call writes =>
    unfold Link.step
    dsimp only
    split
    · exact accounts_begin accounts.pushes call false writes
    · exact accounts
  | reads writes =>
    unfold Link.step
    dsimp only
    split
    · rename_i item rest phase unread
      cases item with
      | delivery message => exact accounts_take_delivery accounts phase unread writes
      | unreadable message => exact accounts_take_unreadable accounts unread writes
      | _ => exact accounts_take_aside accounts phase unread rfl writes
    · exact accounts
  | answers frame payload =>
    unfold Link.step Link.answer
    dsimp only
    split
    · exact accounts
    · split
      · refine accounts.arrived ?_ rfl rfl rfl
        unfold Wire.coming
        cases payload <;> simp [Item.pushed?]
      · exact accounts
  | pushes message readable =>
    unfold Link.step
    dsimp only
    split
    · exact accounts
    · refine ⟨?_, accounts.drained⟩
      obtain ⟨ordered, counted, spared, bounded⟩ := accounts.pushes
      have listed : Link.accounted { l with wire :=
          { l.wire with
            unread := l.wire.unread ++ [if readable then .delivery message else .unreadable message]
            pushed := l.wire.pushed ++ [message] } } =
          l.accounted ++ [message] := by
        cases readable <;> simp [Link.accounted, Wire.coming, Item.pushed?]
      refine ⟨?_, ?_, ?_, bounded⟩
      · rw [listed]
        exact ordered.append (List.Sublist.refl _)
      · rw [listed]
        simp only [List.length_append, List.length_singleton]
        omega
      · refine spared.imp id (Or.imp id ?_)
        intro many
        rw [List.length_append]
        omega
  | controls =>
    unfold Link.step
    dsimp only
    split
    · exact accounts
    · refine accounts.arrived ?_ rfl rfl rfl
      simp [Wire.coming, Item.pushed?]
  | ends orderly writes =>
    unfold Link.step
    dsimp only
    split
    · exact accounts_ending accounts.pushes _ _ orderly writes
    · exact accounts
  | timesOut =>
    unfold Link.step
    dsimp only
    split
    · refine accounts.leaves ?_
      intro job ask stale phase
      split at phase <;> cases phase
    · refine accounts.leaves ?_
      intro job ask stale phase
      cases phase
    · exact accounts
  | connects subscribes writes =>
    unfold Link.step
    dsimp only
    split
    · exact accounts_reconnected _ subscribes writes
    · exact accounts
  | refuses =>
    unfold Link.step
    dsimp only
    split
    · refine accounts.leaves ?_
      intro job ask stale phase
      cases phase
    · exact accounts

theorem accounts_start (identity : Bool) : (Link.start identity).Accounts := by
  refine ⟨⟨List.Sublist.refl _, rfl, Or.inl (Nat.le_refl 0), Nat.zero_le _⟩, ?_⟩
  intro job ask stale phase
  cases phase

/-- The pushes of a connection are handed out in the order in which the hub sent them, and each once.
    Besides those that are lost the others wait in the buffer or on the socket, and only those that the
    client could not read are lost as long as the connection lives and has carried no more than the buffer
    holds. -/
theorem pushes_handed_out_in_order (identity : Bool) (run : List Event) :
    let l := run.foldl Link.step (Link.start identity)
    (l.delivered ++ (l.client.inbox ++ l.wire.coming)).Sublist l.wire.pushed ∧
      l.delivered.length + l.client.inbox.length + l.wire.coming.length + l.lost = l.wire.pushed.length ∧
      (l.lost ≤ l.unreadable ∨ l.wire.ended = true ∨ inboxCap < l.wire.pushed.length) ∧
      l.client.inbox.length ≤ inboxCap := by
  intro l
  have accounts : l.Accounts :=
    List.foldlRecOn run Link.step (accounts_start identity) (fun _ accounts e _ => accounts_step accounts e)
  obtain ⟨ordered, counted, spared, bounded⟩ := accounts.pushes
  refine ⟨ordered, ?_, spared, bounded⟩
  simp only [Link.accounted, List.length_append] at counted
  omega

end Parler.Connector.Socket
