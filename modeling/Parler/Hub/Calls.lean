import Parler.Lib.Prog
import Parler.Hub.Directory
import Parler.Hub.Memory
import Parler.Hub.Messages

/-!
# The hub's state and its atomic calls

The in-memory state of `crates/parler-hub/src/server.rs` around the store, and
the calls a request handler makes. A call is one critical section: one method of
the store (except `Store::pull`, which is three calls), one charge of a rate
window, one lock operation. Between two calls of a handler any other handler may
run. `hubMachine` executes calls; the programs over it are in
`Parler.Hub.Server`.
-/

namespace Parler.Hub

open Parler.Lib Parler.Protocol

/-! ## Configuration -/

/-- Flood limits; 0 disables one (`RateLimits`). -/
structure RateLimits where
  maxOpsPerMin : Nat
  maxSendsPerMin : Nat
  maxBlobsPerHour : Nat
  maxRoomSendsPerMin : Nat
  maxRoomBlobsPerHour : Nat

structure Retention where
  messageMaxAgeMs : Option Int
  keepMessagesPerRoom : Int
  keepUnkeyedFacts : Option Int
  blobMaxIdleMs : Option Int

/-- The settings of one hub process. -/
structure HubConfig where
  ext : Externals
  publicUrl : String
  name : String
  vecDim : Nat
  maxBlobBytes : Nat
  maxBlobDirBytes : Nat
  maxMessageBytes : Nat
  maxOwnedRooms : Nat
  maxActiveTokens : Nat
  maxKeyedFacts : Nat
  limits : RateLimits
  retention : Retention
  joinSecret : Option String
  /-- The length of a frame's JSON text. -/
  frameBytes : ClientFrame → Nat

/-! ## Rate windows -/

inductive RateKind where
  | operation
  | send
  | blob
  deriving DecidableEq

structure Window where
  start : Int
  count : Nat
  deriving DecidableEq

/-- `charge_window`: count one event in a fixed window. -/
def chargeWindow (w : Window) (limit : Nat) (windowMs now : Int) : Bool × Window :=
  if limit = 0 then (true, w)
  else
    let w := if now - w.start ≥ windowMs then ⟨now, 0⟩ else w
    if w.count ≥ limit then (false, w) else (true, { w with count := w.count + 1 })

structure RateWindows where
  operations : Window
  sends : Window
  blobs : Window
  deriving DecidableEq

namespace RateWindows

def fresh : RateWindows := ⟨⟨0, 0⟩, ⟨0, 0⟩, ⟨0, 0⟩⟩

def charge (ws : RateWindows) (kind : RateKind) (limit : Nat) (windowMs now : Int) :
    Bool × RateWindows :=
  match kind with
  | .operation =>
      let r := chargeWindow ws.operations limit windowMs now
      (r.1, { ws with operations := r.2 })
  | .send =>
      let r := chargeWindow ws.sends limit windowMs now
      (r.1, { ws with sends := r.2 })
  | .blob =>
      let r := chargeWindow ws.blobs limit windowMs now
      (r.1, { ws with blobs := r.2 })

end RateWindows

/-- The windows of every key: an agent id, or a room name. -/
abbrev RateTable := List (String × RateWindows)

def chargeKey (table : RateTable) (key : String) (kind : RateKind) (limit : Nat)
    (windowMs now : Int) : Bool × RateTable :=
  if limit = 0 then (true, table)
  else
    let ws := ((table.find? (fun e => e.1 = key)).map Prod.snd).getD .fresh
    let r := ws.charge kind limit windowMs now
    (r.1, upsert Prod.fst (key, r.2) (fun _ => (key, r.2)) table)

/-! ## State -/

/-- The shared state of the hub. -/
structure HubState where
  store : Store
  clock : Int
  rate : RateTable
  roomRate : RateTable
  /-- The `durable_quota` lock is taken. -/
  quotaHeld : Bool
  /-- Free bytes of the in-flight upload budget. -/
  inflightFree : Nat
  blobFiles : List (String × List UInt8)
  messagesTotal : Nat
  tokensTotal : Nat
  deriving DecidableEq

namespace HubState

/-- A hub just started over an empty database. -/
def boot (inflight : Nat) : HubState where
  store := .empty
  clock := 0
  rate := []
  roomRate := []
  quotaHeld := false
  inflightFree := inflight
  blobFiles := []
  messagesTotal := 0
  tokensTotal := 0

def rateAllows (cfg : HubConfig) (h : HubState) (agent : String) (kind : RateKind) (now : Int) :
    Bool × HubState :=
  let limit := match kind with
    | .operation => cfg.limits.maxOpsPerMin
    | .send => cfg.limits.maxSendsPerMin
    | .blob => cfg.limits.maxBlobsPerHour
  let windowMs := match kind with
    | .operation => 60000
    | .send => 60000
    | .blob => 3600000
  let r := chargeKey h.rate agent kind limit windowMs now
  (r.1, { h with rate := r.2 })

def roomRateAllows (cfg : HubConfig) (h : HubState) (room : String) (kind : RateKind) (now : Int) :
    Bool × HubState :=
  match kind with
  | .operation => (true, h)
  | .send =>
      let r := chargeKey h.roomRate room .send cfg.limits.maxRoomSendsPerMin 60000 now
      (r.1, { h with roomRate := r.2 })
  | .blob =>
      let r := chargeKey h.roomRate room .blob cfg.limits.maxRoomBlobsPerHour 3600000 now
      (r.1, { h with roomRate := r.2 })

/-- Drop the windows idle for an hour (`prune_rate_windows`). -/
def pruneRateWindows (h : HubState) (now : Int) : HubState :=
  let live := fun (w : Window) => now - w.start < 3600000
  { h with
    rate := h.rate.filter (fun e =>
      live e.2.operations || live e.2.sends || live e.2.blobs)
    roomRate := h.roomRate.filter (fun e => live e.2.sends || live e.2.blobs) }

/-- Replace the store, or keep the state on an error. -/
def tryStore (h : HubState) : Except Failure Store → Except Failure Unit × HubState
  | .ok s => (.ok (), { h with store := s })
  | .error e => (.error e, h)

def tryStoreWith {α : Type} (h : HubState) : Except Failure (α × Store) → Except Failure α × HubState
  | .ok r => (.ok r.1, { h with store := r.2 })
  | .error e => (.error e, h)

end HubState

/-! ## Calls -/

/-- The atomic calls of request handlers and of the janitor. -/
inductive HubCall where
  | nowMs
  | tick (ms : Nat)
  | rateAllows (agent : String) (kind : RateKind) (now : Int)
  | roomRateAllows (room : String) (kind : RateKind) (now : Int)
  | lockQuota
  | unlockQuota
  | acquireUpload (bytes : Nat)
  | releaseUpload (bytes : Nat)
  | upsertAgent (id name : String) (role : Option String) (now : Int)
  | touchPresence (agent status : String) (activity : Option String)
      (attention : Option Attention) (now : Int)
  | refreshPresence (agent : String) (now : Int)
  | setAttention (agent : String) (attention : Attention) (now : Int)
  | ensureRoom (name : String) (kind : RoomKind) (now : Int)
  | addMember (room agent : String) (now : Int)
  | isMember (room agent : String)
  | roomKind (room : String)
  | setRoomOwner (room owner : String)
  | ownedRoomCount (owner : String)
  | findDmRoom (a b : String)
  | roomsOf (agent : String)
  | roster (room : String) (now : Int)
  | deleteRoom (room owner : String)
  | createInvite (code room : String) (kind : RoomKind) (maxUses : Nat) (expires : Int)
      (createdBy : String) (requireApproval : Bool) (now : Int)
  | redeemInvite (code agent : String) (now : Int)
  | pendingJoinRequests (room owner : String)
  | resolveJoin (room owner agent : String) (approve : Bool) (now : Int)
  | mintDirectoryToken (token scope : String) (expires : Int) (createdBy : String) (now : Int)
  | activeTokenCount (createdBy : String) (now : Int)
  | mintWatchToken (token room owner : String) (expires now : Int)
  | sweepExpired (now : Int)
  | serveRole (room agent role : String) (now : Int)
  | claimServiceMessage (room message worker : String) (leaseSecs : Nat) (now : Int)
  | queuedServiceMessages (room worker role : String) (limit : Option Nat) (now : Int)
  | completeServiceMessage (room message worker : String) (status : TaskStatus) (now : Int)
  | appendMessage (m : NewMessage)
  | countMessage (tokens : Nat)
  | getCursor (room agent : String)
  | setCursor (room agent : String) (cursor : Int)
  | readBacklog (room agent : String) (floor : Int) (lim : Nat)
  | pruneMessages (retainMs keep now : Int)
  | registerCard (card : AgentCard) (sig : Option String) (verified : Bool)
      (visibility : Visibility) (now : Int)
  | discover (scope : DiscoverScope) (query tag skill status : Option String)
      (limit : Option Nat) (now : Int)
  | lookupCard (id : String) (now : Int)
  | directoryVisibility (agent : String)
  | keyedFactWithinQuota (author key : String) (room : Option String)
  | remember (author : String) (fact : Fact) (ts : Int) (embedding : Option (List UInt32))
      (model : Option String)
  | recall (agent query : String) (room : Option String) (limit : Option Nat)
      (embedding : Option (List UInt32))
  | recallByKey (agent key : String) (room : Option String) (limit : Option Nat)
  | pruneFacts (keep : Int)
  | totalBlobBytes
  | putBlobMeta (id room author : String) (mediaType : Option String) (size now : Int)
  | blobMeta (id : String)
  | blobReadableBy (id agent : String)
  | touchBlobFetched (id : String) (now : Int)
  | gcBlobs (ttlMs now : Int)
  | writeBlobFile (id : String) (bytes : List UInt8)
  | readBlobFile (id : String)
  | removeBlobFile (id : String)
  | pruneRateWindows (now : Int)
  /-- `Notify::notified`: a waiter on the room is armed. -/
  | notified (room : String)
  /-- The waiter sleeps until it is woken or its deadline passes. -/
  | parked (room : String)
  /-- `notify_room`: the waiters armed on the room are woken. -/
  | notifyRoom (room : String)
  /-- The push of `fanout` to the subscribed members. -/
  | push (room author : String) (message : StoredMessage)

namespace HubCall

/-- What a call returns. -/
@[reducible]
def Res : HubCall → Type
  | .nowMs => Int
  | .tick _ => Unit
  | .rateAllows .. => Bool
  | .roomRateAllows .. => Bool
  | .lockQuota => Unit
  | .unlockQuota => Unit
  | .acquireUpload _ => Bool
  | .releaseUpload _ => Unit
  | .upsertAgent .. => Unit
  | .touchPresence .. => Unit
  | .refreshPresence .. => Unit
  | .setAttention .. => Unit
  | .ensureRoom .. => Unit
  | .addMember .. => Unit
  | .isMember .. => Bool
  | .roomKind _ => Option RoomKind
  | .setRoomOwner .. => Unit
  | .ownedRoomCount _ => Nat
  | .findDmRoom .. => Option String
  | .roomsOf _ => List RoomInfo
  | .roster .. => List RosterEntry
  | .deleteRoom .. => Except Failure Unit
  | .createInvite .. => Except Failure Unit
  | .redeemInvite .. => Except Failure Store.Redeemed
  | .pendingJoinRequests .. => Except Failure (List JoinRequest)
  | .resolveJoin .. => Except Failure Bool
  | .mintDirectoryToken .. => Except Failure Unit
  | .activeTokenCount .. => Nat
  | .mintWatchToken .. => Except Failure Unit
  | .sweepExpired _ => Unit
  | .serveRole .. => Unit
  | .claimServiceMessage .. => Option Int
  | .queuedServiceMessages .. => List StoredMessage
  | .completeServiceMessage .. => Except Failure Bool
  | .appendMessage _ => Except Failure AppendOutcome
  | .countMessage _ => Unit
  | .getCursor .. => Int
  | .setCursor .. => Unit
  | .readBacklog .. => List StoredMessage
  | .pruneMessages .. => Unit
  | .registerCard .. => Unit
  | .discover .. => Except Failure (List DirectoryEntry)
  | .lookupCard .. => Option DirectoryEntry
  | .directoryVisibility _ => Option Visibility
  | .keyedFactWithinQuota .. => Bool
  | .remember .. => Except Failure Unit
  | .recall .. => Except Failure (List RecallHit)
  | .recallByKey .. => List RecallHit
  | .pruneFacts _ => Unit
  | .totalBlobBytes => Int
  | .putBlobMeta .. => Unit
  | .blobMeta _ => Option BlobRow
  | .blobReadableBy .. => Bool
  | .touchBlobFetched .. => Unit
  | .gcBlobs .. => List String
  | .writeBlobFile .. => Unit
  | .readBlobFile _ => Option (List UInt8)
  | .removeBlobFile _ => Unit
  | .pruneRateWindows _ => Unit
  | .notified _ => Unit
  | .parked _ => Unit
  | .notifyRoom _ => Unit
  | .push .. => Unit

/-- The result of a call and the state after it. -/
def exec (cfg : HubConfig) : (c : HubCall) → HubState → c.Res × HubState
  | .nowMs, h => (h.clock, h)
  | .tick ms, h => ((), { h with clock := h.clock + ms })
  | .rateAllows agent kind now, h => h.rateAllows cfg agent kind now
  | .roomRateAllows room kind now, h => h.roomRateAllows cfg room kind now
  | .lockQuota, h => ((), { h with quotaHeld := true })
  | .unlockQuota, h => ((), { h with quotaHeld := false })
  | .acquireUpload n, h =>
      if n ≤ h.inflightFree then (true, { h with inflightFree := h.inflightFree - n })
      else (false, h)
  | .releaseUpload n, h => ((), { h with inflightFree := h.inflightFree + n })
  | .upsertAgent id name role now, h =>
      ((), { h with store := h.store.upsertAgent id name role now })
  | .touchPresence agent status activity attention now, h =>
      ((), { h with store := h.store.touchPresence agent status activity attention now })
  | .refreshPresence agent now, h => ((), { h with store := h.store.refreshPresence agent now })
  | .setAttention agent attention now, h =>
      ((), { h with store := h.store.setAttention agent attention now })
  | .ensureRoom name kind now, h => ((), { h with store := h.store.ensureRoom name kind none now })
  | .addMember room agent now, h => ((), { h with store := h.store.addMember room agent now })
  | .isMember room agent, h => (h.store.isMember room agent, h)
  | .roomKind room, h => (h.store.roomKind room, h)
  | .setRoomOwner room owner, h => ((), { h with store := h.store.setRoomOwner room owner })
  | .ownedRoomCount owner, h => (h.store.ownedRoomCount owner, h)
  | .findDmRoom a b, h => (h.store.findDmRoom a b, h)
  | .roomsOf agent, h => (h.store.roomsOf agent, h)
  | .roster room now, h => (h.store.roster room now, h)
  | .deleteRoom room owner, h => h.tryStore (h.store.deleteRoom room owner)
  | .createInvite code room kind maxUses expires createdBy requireApproval now, h =>
      h.tryStore (h.store.createInvite code room kind none maxUses expires createdBy
        requireApproval now)
  | .redeemInvite code agent now, h => h.tryStoreWith (h.store.redeemInvite code agent now)
  | .pendingJoinRequests room owner, h => (h.store.pendingJoinRequests room owner, h)
  | .resolveJoin room owner agent approve now, h =>
      h.tryStoreWith (h.store.resolveJoin room owner agent approve now)
  | .mintDirectoryToken token scope expires createdBy now, h =>
      h.tryStore (h.store.mintDirectoryToken token scope expires createdBy now)
  | .activeTokenCount createdBy now, h => (h.store.activeTokenCount createdBy now, h)
  | .mintWatchToken token room owner expires now, h =>
      h.tryStore (h.store.mintWatchToken token room owner expires now)
  | .sweepExpired now, h => ((), { h with store := h.store.sweepExpired now })
  | .serveRole room agent role now, h =>
      ((), { h with store := h.store.serveRole room agent role now })
  | .claimServiceMessage room message worker leaseSecs now, h =>
      let r := h.store.claimServiceMessage room message worker leaseSecs now
      (r.1, { h with store := r.2 })
  | .queuedServiceMessages room worker role limit now, h =>
      (h.store.queuedServiceMessages room worker role limit now, h)
  | .completeServiceMessage room message worker status now, h =>
      h.tryStoreWith (h.store.completeServiceMessage room message worker status now)
  | .appendMessage m, h => h.tryStoreWith (h.store.appendMessage m)
  | .countMessage tokens, h => ((), { h with
      messagesTotal := h.messagesTotal + 1, tokensTotal := h.tokensTotal + tokens })
  | .getCursor room agent, h => (h.store.getCursor room agent, h)
  | .setCursor room agent cursor, h =>
      ((), { h with store := h.store.setCursor room agent cursor })
  | .readBacklog room _ floor lim, h => (h.store.readBacklog room floor lim, h)
  | .pruneMessages retainMs keep now, h =>
      ((), { h with store := h.store.pruneMessages retainMs keep now })
  | .registerCard card sig verified visibility now, h =>
      ((), { h with store := h.store.registerCard cfg.ext card sig verified visibility now })
  | .discover scope query tag skill status limit now, h =>
      (h.store.discover cfg.ext scope cfg.name query tag skill status limit now, h)
  | .lookupCard id now, h => (h.store.lookupCard id cfg.name true now, h)
  | .directoryVisibility agent, h => (h.store.directoryVisibility agent, h)
  | .keyedFactWithinQuota author key room, h =>
      (h.store.keyedFactWithinQuota author key room cfg.maxKeyedFacts, h)
  | .remember author fact ts embedding model, h =>
      h.tryStore (h.store.remember cfg.vecDim author fact ts embedding model)
  | .recall agent query room limit embedding, h =>
      (h.store.recall cfg.ext cfg.vecDim agent query room limit embedding, h)
  | .recallByKey agent key room limit, h => (h.store.recallByKey agent key room limit, h)
  | .pruneFacts keep, h => ((), { h with store := h.store.pruneFacts keep })
  | .totalBlobBytes, h => (h.store.totalBlobBytes, h)
  | .putBlobMeta id room author mediaType size now, h =>
      ((), { h with store := h.store.putBlobMeta id room author mediaType size now })
  | .blobMeta id, h => (h.store.blobMeta id, h)
  | .blobReadableBy id agent, h => (h.store.blobReadableBy id agent, h)
  | .touchBlobFetched id now, h => ((), { h with store := h.store.touchBlobFetched id now })
  | .gcBlobs ttlMs now, h =>
      let r := h.store.gcBlobs ttlMs now
      (r.1, { h with store := r.2 })
  | .writeBlobFile id bytes, h => ((), { h with
      blobFiles := upsert Prod.fst (id, bytes) (fun _ => (id, bytes)) h.blobFiles })
  | .readBlobFile id, h => ((h.blobFiles.find? (fun f => f.1 = id)).map Prod.snd, h)
  | .removeBlobFile id, h => ((), { h with
      blobFiles := deleteWhere (fun f => f.1 = id) h.blobFiles })
  | .pruneRateWindows now, h => ((), h.pruneRateWindows now)
  -- Who is woken and who is pushed to is in the history of a run.
  | .notified _, h => ((), h)
  | .parked _, h => ((), h)
  | .notifyRoom _, h => ((), h)
  | .push .., h => ((), h)

/-- Only taking the quota lock can block. -/
def ready : HubCall → HubState → Bool
  | .lockQuota, h => !h.quotaHeld
  | _, _ => true

end HubCall

/-- The machine whose programs are the hub's request handlers. -/
@[reducible]
def hubMachine (cfg : HubConfig) : Machine HubState where
  Op := HubCall
  Res := HubCall.Res
  exec := HubCall.exec cfg
  enabled op h := HubCall.ready op h

instance (cfg : HubConfig) (op : HubCall) (h : HubState) :
    Decidable ((hubMachine cfg).enabled op h) :=
  inferInstanceAs (Decidable (HubCall.ready op h = true))

end Parler.Hub
