import Parler.Hub.Calls

/-!
# Request handlers

The handlers of `crates/parler-hub/src/server.rs` as programs over the hub's
calls: `dispatch` with its rate limit and bounds check, `handle_authed` with one
case per frame, `resolve_target`, `store_waited_pull`, the two halves of a blob
upload, and the janitor pass. Names drawn at random (`gen_code`, `gen_suffix`,
`gen_token`, message ids) come with the request; a long-poll takes the number of
times it is woken before its deadline. A program's answer is the list of frames
sent on the connection.
-/

namespace Parler.Hub

open Parler.Lib Parler.Protocol

/-! ## Handlers -/

/-- A handler: calls, then a result or a failure. -/
structure Handler (cfg : HubConfig) (α : Type) where
  prog : Prog (hubMachine cfg) (Except Failure α)

namespace Handler

variable {cfg : HubConfig} {α β : Type}

/-- The rest of a handler after a failure is skipped. -/
def andThen (f : α → Handler cfg β) : Except Failure α → Prog (hubMachine cfg) (Except Failure β)
  | .ok a => (f a).prog
  | .error e => .ret (.error e)

instance : Monad (Handler cfg) where
  pure a := ⟨.ret (.ok a)⟩
  bind p f := ⟨p.prog.bind (andThen f)⟩

def fail (e : Failure) : Handler cfg α := ⟨.ret (.error e)⟩

def call (op : HubCall) : Handler cfg op.Res := ⟨.call op fun r => .ret (.ok r)⟩

/-- A pure check inside a handler. -/
def check (r : Except Failure α) : Handler cfg α := ⟨.ret r⟩

/-- The check-and-write section of a durable quota, under its lock. -/
def withQuota (body : Handler cfg α) : Handler cfg α :=
  ⟨.call .lockQuota fun _ => body.prog.bind fun r => .call .unlockQuota fun _ => .ret r⟩

end Handler

open Handler

/-- The authenticated identity of a connection (`Authed`). -/
structure Authed where
  id : String
  name : String
  role : Option String
  deriving DecidableEq

/-- The random names a handler may draw while it serves one request. -/
structure Fresh where
  uuid : String
  code : String
  suffix : String
  token : String
  deriving DecidableEq

/-! ## Pure helpers -/

def maxTtlSecs : Nat := 365 * 24 * 3600

/-- `now + ttl`, with the hub's default and ceiling. -/
def expiry (now : Int) (ttlSecs : Option Nat) (default : Nat) : Int :=
  now + ((min (ttlSecs.getD default) maxTtlSecs : Nat) : Int) * 1000

/-- The text after the last occurrence of a pattern. -/
def afterLast (pat : List Char) : List Char → Option (List Char)
  | [] => none
  | c :: cs =>
      match afterLast pat cs with
      | some rest => some rest
      | none => if pat.isPrefixOf (c :: cs) then some ((c :: cs).drop pat.length) else none

/-- A bare code, or the code of a pasted join link (`normalize_code`). -/
def normalizeCode (s : String) : String :=
  let cs := trimChars s.toList
  match afterLast "/join/".toList cs with
  | some rest => String.ofList (((trimChars rest).reverse.dropWhile (· = '/')).reverse)
  | none => String.ofList cs

/-- Trim, lowercase, drop empties and duplicates (`normalize_mentions`). -/
def normalizeMentions (ext : Externals) (mentions : List String) : Option (List String) :=
  let out := mentions.foldl (fun acc m =>
    let m := ext.toLowercase (trim m)
    if m.isEmpty || acc.contains m then acc else acc ++ [m]) []
  if out.isEmpty then none else some out

/-- The length of the JSON text of a message's parts. -/
def partsBytes (ext : Externals) (parts : List Part) : Nat :=
  ((render ext.floats (.arr (parts.map Part.written))).map Char.utf8Size).sum

def maxControlStringBytes : Nat := 4 * 1024

def maxQueryBytes : Nat := 64 * 1024

def boundedString (value label : String) (max : Nat) : Except Failure Unit :=
  let n := byteLen value
  if n > max then .error (.coded ErrorCode.tooLarge s!"{label} too large: {n} bytes > limit {max}")
  else .ok ()

def boundedOption (value : Option String) (label : String) (max : Nat) : Except Failure Unit :=
  match value with
  | some v => boundedString v label max
  | none => .ok ()

def boundedTarget : Target → Except Failure Unit
  | .room room => boundedString room "room" maxControlStringBytes
  | .dm agent => boundedString agent "agent id" maxControlStringBytes
  | .service service => boundedString service "service" maxControlStringBytes

/-- The serialised frame must fit the message cap. -/
def boundedFrame (cfg : HubConfig) (frame : ClientFrame) : Except Failure Unit :=
  let n := cfg.frameBytes frame
  let max := cfg.maxMessageBytes
  if n > max then
    .error (.coded ErrorCode.tooLarge s!"structured payload too large: {n} bytes > limit {max}")
  else .ok ()

def boundedMentions : Option (List String) → Except Failure Unit
  | none => .ok ()
  | some values => do
      if values.length > 256 then
        throw (.coded ErrorCode.tooLarge "too many mentions (limit 256)")
      values.forM (fun v => boundedString v "mention" maxControlStringBytes)

/-- `validate_frame_bounds` (`server.rs:1962-2065`). -/
def validateFrameBounds (cfg : HubConfig) (frame : ClientFrame) : Except Failure Unit :=
  match frame with
  | .invite _ room _ _ _ => boundedOption room "room" maxControlStringBytes
  | .redeem code => boundedString code "invite code" maxControlStringBytes
  | .joinRequests room | .deleteRoom room | .roster room =>
      boundedString room "room" maxControlStringBytes
  | .resolveJoin room agent _ => do
      boundedString room "room" maxControlStringBytes
      boundedString agent "agent id" maxControlStringBytes
  | .serve service => boundedString service "service" maxControlStringBytes
  | .claim room message _ | .complete room message _ => do
      boundedString room "room" maxControlStringBytes
      boundedString message "message id" maxControlStringBytes
  | .queue room role _ => do
      boundedString room "room" maxControlStringBytes
      boundedString role "role" maxControlStringBytes
  | .register .. => boundedFrame cfg frame
  | .discover _ query tag skill status _ => do
      boundedOption query "directory query" maxQueryBytes
      boundedOption tag "tag" maxControlStringBytes
      boundedOption skill "skill" maxControlStringBytes
      boundedOption status "status" maxControlStringBytes
  | .lookup id => boundedString id "agent id" maxControlStringBytes
  | .mintDirectoryToken _ => .ok ()
  | .mintWatch room _ => boundedString room "room" maxControlStringBytes
  | .send target parts mentions replyTo clientId => do
      boundedTarget target
      let n := partsBytes cfg.ext parts
      let max := cfg.maxMessageBytes
      if n > max then
        throw (.coded ErrorCode.tooLarge s!"message too large: {n} bytes > limit {max}")
      boundedMentions mentions
      boundedOption replyTo "reply id" maxControlStringBytes
      boundedOption clientId "client id" maxControlStringBytes
  | .pull room _ _ _ _ => boundedString room "room" maxControlStringBytes
  | .remember fact _ model => do
      boundedFrame cfg frame
      boundedString fact.text "fact" cfg.maxMessageBytes
      boundedOption fact.key "fact key" maxControlStringBytes
      boundedOption fact.room "room" maxControlStringBytes
      boundedOption model "embedding model" maxControlStringBytes
  | .recall query room _ _ key => do
      boundedFrame cfg frame
      boundedString query "recall query" maxQueryBytes
      boundedOption room "room" maxControlStringBytes
      boundedOption key "fact key" maxControlStringBytes
  | .rooms => .ok ()
  | .presence status activity _ => do
      boundedString status "presence status" maxControlStringBytes
      boundedOption activity "presence activity" maxControlStringBytes
  | .setAttention _ => .ok ()
  | .putBlob target sha256 _ mediaType => do
      boundedTarget target
      boundedString sha256 "content id" 128
      boundedOption mediaType "media type" 256
  | .getBlob id => boundedString id "content id" 128
  | .subscribe | .ping => .ok ()

/-! ## Shared steps -/

section Steps

variable (cfg : HubConfig)

def notMember (room : String) : Failure :=
  .coded ErrorCode.notMember s!"not a member of '{room}'"

/-- Fail unless the caller is a member of the room. -/
def requireMember (me : Authed) (room : String) : Handler cfg Unit := do
  if !(← call (.isMember room me.id)) then fail (notMember room)

/-- Fail unless the caller is a member and the room is a service room. -/
def requireServiceRoom (me : Authed) (room : String) : Handler cfg Unit := do
  requireMember cfg me room
  if (← call (.roomKind room)) ≠ some .service then
    fail (.coded ErrorCode.notAuthorized s!"'{room}' is not a service room")

/-- Fail when the caller would own one room too many. -/
def requireRoomQuota (me : Authed) : Handler cfg Unit := do
  if (← call (.ownedRoomCount me.id)) ≥ cfg.maxOwnedRooms then
    fail (.coded ErrorCode.atCapacity
      "room quota reached — delete an owned room before creating another")

def requireTokenQuota (me : Authed) (now : Int) : Handler cfg Unit := do
  if (← call (.activeTokenCount me.id now)) ≥ cfg.maxActiveTokens then
    fail (.coded ErrorCode.atCapacity "active token quota reached — wait for a token to expire")

/-- The concrete room of a target, with its authorization (`server.rs:2719-2762`). -/
def resolveTarget (me : Authed) (fresh : Fresh) : Target → Handler cfg String
  | .room room => do
      requireMember cfg me room
      return room
  | .dm agent => do
      match ← call (.findDmRoom me.id agent) with
      | some room => return room
      | none =>
          match ← call (.directoryVisibility agent) with
          | some _ =>
              let room := "dm." ++ fresh.suffix
              let now ← call .nowMs
              call (.ensureRoom room .dm now)
              call (.addMember room me.id now)
              call (.addMember room agent now)
              return room
          | none =>
              fail (.plain s!"'{agent}' isn't discoverable (no directory card) — pair first (invite/join)")
  | .service service => do
      let room := "svc." ++ token service
      if (← call (.roomKind room)).isNone then
        fail (.coded ErrorCode.unknownService
          s!"no such service '{service}' — a worker must `serve` it first")
      let now ← call .nowMs
      call (.addMember room me.id now)
      return room

/-- The floor of a pull: `since`, or the cursor after a deferred ack. -/
def pullFloor (room agent : String) (since ack : Option Int) : Handler cfg Int := do
  match since with
  | some s => return s
  | none =>
      let stored ← call (.getCursor room agent)
      match ack with
      | some a =>
          if a > stored then
            call (.setCursor room agent a)
            return a
          else return stored
      | none => return stored

/-- `Store::pull` (`store.rs:880-954`), whose statements run on separate connections. -/
def storePull (room agent : String) (since : Option Int) (limit : Option Nat)
    (ack : Option Int) : Handler cfg (List StoredMessage × Int) := do
  let cur ← pullFloor cfg room agent since ack
  let messages ← call (.readBacklog room agent cur (Store.pullLimit limit))
  let cursor := (messages.getLast?.map StoredMessage.seq).getD cur
  -- Advance on read only for a client that does not acknowledge.
  if since.isNone && ack.isNone && cursor > cur then
    call (.setCursor room agent cursor)
  return (messages, cursor)

/-- The parked loop of a long-poll: one pull per wake-up, the last at the deadline. -/
def pullLoop (room agent : String) (limit : Option Nat) (ack : Option Int) :
    Nat → Handler cfg (List StoredMessage × Int)
  | 0 => do
      call (.notified room)
      storePull cfg room agent none limit ack
  | rounds + 1 => do
      -- The waiter is armed before it reads, so that a message landing in between wakes it.
      call (.notified room)
      let (messages, cursor) ← storePull cfg room agent none limit ack
      if messages.isEmpty then
        call (.parked room)
        pullLoop room agent limit ack rounds
      else return (messages, cursor)

/-- `store_waited_pull` (`server.rs:2099-2139`). -/
def storeWaitedPull (me : Authed) (room : String) (since : Option Int) (limit : Option Nat)
    (ack : Option Int) (rounds : Nat) : Handler cfg (List StoredMessage × Int) := do
  requireMember cfg me room
  let first ← storePull cfg room me.id since limit ack
  if since.isSome || !first.1.isEmpty then return first
  pullLoop cfg room me.id limit ack rounds

end Steps

/-! ## One handler per frame -/

section Handlers

variable (cfg : HubConfig) (me : Authed) (fresh : Fresh)

def handleRegister (card : AgentCard) (cardBytes : List UInt8) (visibility : Visibility)
    (sig : Option String) : Handler cfg ServerFrame := do
  if card.id ≠ me.id then
    fail (.coded ErrorCode.invalidCard
      ("card id '" ++ card.id ++ "' does not match your authenticated id"))
  let verified := match sig with
    | some s => cfg.ext.verify card.id cardBytes s
    | none => false
  if sig.isSome && !verified then
    fail (.coded ErrorCode.invalidCard "card signature verification failed")
  let now ← call .nowMs
  call (.registerCard card sig verified visibility now)
  return .registered card.id visibility verified

def handleMintDirectoryToken (ttlSecs : Option Nat) : Handler cfg ServerFrame := do
  let now ← call .nowMs
  withQuota do
    requireTokenQuota cfg me now
    let expires := expiry now ttlSecs 3600
    check (← call (.mintDirectoryToken fresh.token "hub" expires me.id now))
    return .directoryToken fresh.token expires

def handleMintWatch (room : String) (ttlSecs : Option Nat) : Handler cfg ServerFrame := do
  let now ← call .nowMs
  withQuota do
    requireTokenQuota cfg me now
    let expires := expiry now ttlSecs 3600
    check (← call (.mintWatchToken fresh.token room me.id expires now))
    return .watch fresh.token room expires

/-- The room an invite is for. -/
def inviteRoom (kind : RoomKind) (room : Option String) : String :=
  match kind with
  | .dm => "dm." ++ fresh.suffix
  | .channel => (room.map token).getD ("room." ++ fresh.suffix)
  | .service => "svc." ++ (room.map token).getD fresh.suffix

/-- `handle_authed`, `Invite` (`server.rs:2415-2467`). -/
def handleInvite (kind : RoomKind) (room : Option String) (ttlSecs maxUses : Option Nat)
    (requireApproval : Bool) : Handler cfg ServerFrame := do
  let now ← call .nowMs
  withQuota do
    let expires := expiry now ttlSecs (24 * 3600)
    let roomName := inviteRoom fresh kind room
    let max := if kind = .dm then 1 else maxUses.getD 50
    let existing ← call (.roomKind roomName)
    if existing.isSome then
      if !(← call (.isMember roomName me.id)) then
        fail (.plain s!"room '{roomName}' already exists — only a member can mint an invite for it")
    if existing.isNone then
      requireRoomQuota cfg me
    call (.ensureRoom roomName kind now)
    call (.addMember roomName me.id now)
    call (.setRoomOwner roomName me.id)
    check (← call (.createInvite fresh.code roomName kind max expires me.id
      (requireApproval && kind = .channel) now))
    return .invited fresh.code (cfg.publicUrl ++ "/join/" ++ fresh.code) roomName kind expires

def handleRedeem (code : String) : Handler cfg ServerFrame := do
  let now ← call .nowMs
  let r ← check (← call (.redeemInvite (normalizeCode code) me.id now))
  if r.pending then return .joinPending r.room
  return .joined r.room r.kind

def handleJoinRequests (room : String) : Handler cfg ServerFrame := do
  let requests ← check (← call (.pendingJoinRequests room me.id))
  return .joinRequests room requests

def handleResolveJoin (room agent : String) (approve : Bool) : Handler cfg ServerFrame := do
  let now ← call .nowMs
  let approved ← check (← call (.resolveJoin room me.id agent approve now))
  call (.notifyRoom room)
  return .joinResolved room agent approved

/-- `handle_authed`, `Serve` (`server.rs:2492-2510`). -/
def handleServe (service : String) : Handler cfg ServerFrame := do
  let room := "svc." ++ token service
  let now ← call .nowMs
  withQuota do
    let isNew := (← call (.roomKind room)).isNone
    if isNew then
      requireRoomQuota cfg me
    call (.ensureRoom room .service now)
    call (.addMember room me.id now)
    if isNew then
      call (.setRoomOwner room me.id)
    call (.serveRole room me.id service now)
    return .joined room .service

/-- The lease the hub grants, whatever the client asks for. -/
def grantedLease (leaseSecs : Option Nat) : Nat := max 15 (min (leaseSecs.getD 300) 3600)

def handleClaim (room message : String) (leaseSecs : Option Nat) : Handler cfg ServerFrame := do
  requireServiceRoom cfg me room
  let now ← call .nowMs
  let lease ← call (.claimServiceMessage room message me.id (grantedLease leaseSecs) now)
  return .claimed room message lease.isSome lease

def handleQueue (room role : String) (limit : Option Nat) : Handler cfg ServerFrame := do
  requireServiceRoom cfg me room
  let now ← call .nowMs
  let messages ← call (.queuedServiceMessages room me.id role limit now)
  return .queued room messages

def handleComplete (room message : String) (status : TaskStatus) : Handler cfg ServerFrame := do
  requireServiceRoom cfg me room
  if !status.isTerminal then
    fail (.coded ErrorCode.notAuthorized
      "a service claim can only be completed with done, failed, or cancelled")
  let now ← call .nowMs
  let completed ← check (← call (.completeServiceMessage room message me.id status now))
  return .completed room message completed

/-- `HubState::fanout` (`server.rs:434-469`): wake the parked requests, then push to the
    subscribed members. -/
def fanout (room author : String) (message : StoredMessage) : Handler cfg Unit := do
  call (.notifyRoom room)
  call (.push room author message)

/-- `handle_authed`, `Send` (`server.rs:2562-2619`). -/
def handleSend (target : Target) (parts : List Part) (mentions : Option (List String))
    (replyTo clientId : Option String) : Handler cfg ServerFrame := do
  let now ← call .nowMs
  if !(← call (.rateAllows me.id .send now)) then
    fail (.coded ErrorCode.rateLimited "rate limit: too many messages — slow down")
  let n := partsBytes cfg.ext parts
  let max := cfg.maxMessageBytes
  if n > max then
    fail (.coded ErrorCode.tooLarge
      s!"message too large: {n} bytes > limit {max} (hand off large payloads as a blob)")
  let room ← resolveTarget cfg me fresh target
  let now ← call .nowMs
  if !(← call (.roomRateAllows room .send now)) then
    fail (.coded ErrorCode.rateLimited s!"rate limit: room '{room}' is too busy — slow down")
  let now ← call .nowMs
  let mentions := mentions.bind (normalizeMentions cfg.ext)
  let out ← check (← call (.appendMessage
    { id := fresh.uuid, room := room, sender := ⟨me.id, me.name, me.role⟩, parts := parts,
      mentions := mentions, replyTo := replyTo, clientId := clientId, ts := now }))
  -- A replay was counted and fanned out when its message was stored.
  if !out.deduped then
    call (.countMessage out.tokens.toNat)
    fanout cfg room me.id
      ⟨out.seq, out.id, room, ⟨me.id, me.name, me.role⟩, parts, mentions, replyTo, now⟩
  return .sent out.id out.seq room

def handlePull (room : String) (since : Option Int) (limit : Option Nat) (ack : Option Int) :
    Handler cfg ServerFrame := do
  requireMember cfg me room
  let (messages, cursor) ← storePull cfg room me.id since limit ack
  return .pulled room messages cursor

def handleWaitedPull (room : String) (since : Option Int) (limit : Option Nat)
    (ack : Option Int) (rounds : Nat) : Handler cfg ServerFrame := do
  let (messages, cursor) ← storeWaitedPull cfg me room since limit ack rounds
  return .pulled room messages cursor

def handleRemember (fact : Fact) (embedding : Option (List UInt32)) (model : Option String) :
    Handler cfg ServerFrame := do
  match fact.room with
  | some room => requireMember cfg me room
  | none => pure ()
  match fact.key with
  | some key =>
      withQuota do
        if !(← call (.keyedFactWithinQuota me.id key fact.room)) then
          fail (.coded ErrorCode.atCapacity
            "keyed fact quota reached — update an existing key or remove old memory")
        let now ← call .nowMs
        check (← call (.remember me.id fact now embedding model))
  | none =>
      let now ← call .nowMs
      check (← call (.remember me.id fact now embedding model))
  return .remembered true

def handleRecall (query : String) (room : Option String) (limit : Option Nat)
    (embedding : Option (List UInt32)) (key : Option String) : Handler cfg ServerFrame := do
  match room with
  | some r => requireMember cfg me r
  | none => pure ()
  match key.filter (fun k => !k.isEmpty) with
  | some k =>
      let hits ← call (.recallByKey me.id k room limit)
      return .recalled hits
  | none =>
      let hits ← check (← call (.recall me.id query room limit embedding))
      return .recalled hits

def handleDeleteRoom (room : String) : Handler cfg ServerFrame := do
  check (← call (.deleteRoom room me.id))
  call (.notifyRoom room)
  return .roomDeleted room

def handleRoster (room : String) : Handler cfg ServerFrame := do
  requireMember cfg me room
  let now ← call .nowMs
  let entries ← call (.roster room now)
  return .roster room entries

/-- `handle_get_blob`, with the read of the bytes that follows the reply. -/
def handleGetBlob (id : String) : Handler cfg ServerFrame := do
  match ← call (.blobMeta id) with
  | none => fail (.coded ErrorCode.unknownBlob s!"no such blob '{id}'")
  | some row =>
      if !(← call (.blobReadableBy id me.id)) then
        fail (.coded ErrorCode.notAuthorized s!"not authorized to fetch blob '{id}'")
      let now ← call .nowMs
      call (.touchBlobFetched id now)
      match ← call (.readBlobFile id) with
      | some bytes => return .blobIncoming id row.size.toNat row.mediaType bytes
      | none => fail (.coded ErrorCode.internal "blob bytes unavailable")

/-! ## Blob uploads -/

/-- The checks of `handle_put_blob` after the upload budget is reserved; the room the
    bytes are for. -/
def reserveBlob (target : Target) (size : Nat) : Handler cfg String := do
  let now ← call .nowMs
  if !(← call (.rateAllows me.id .blob now)) then
    fail (.coded ErrorCode.rateLimited "rate limit: too many blob uploads — slow down")
  let used ← call .totalBlobBytes
  if used.toNat + size > cfg.maxBlobDirBytes then
    fail (.coded ErrorCode.storageFull "hub blob storage is full — try again later")
  let room ← resolveTarget cfg me fresh target
  let now ← call .nowMs
  if !(← call (.roomRateAllows room .blob now)) then
    fail (.coded ErrorCode.rateLimited s!"rate limit: room '{room}' has too many uploads — slow down")
  return room

/-- `finish_blob_upload` (`server.rs:2226-2257`). -/
def finishBlobUpload (room id : String) (size : Nat) (mediaType : Option String)
    (data : List UInt8) : Handler cfg ServerFrame := do
  let n := data.length
  if n ≠ size then
    fail (.coded ErrorCode.protocol s!"blob size mismatch: got {n} bytes, expected {size}")
  if n > cfg.maxBlobBytes then
    fail (.coded ErrorCode.tooLarge "blob too large")
  let hash := cfg.ext.contentId data
  if hash ≠ id then
    fail (.coded ErrorCode.protocol s!"content id mismatch: bytes hash to {hash}, not {id}")
  call (.writeBlobFile hash data)
  let now ← call .nowMs
  call (.putBlobMeta hash room me.id mediaType n now)
  return .blobStored hash n

/-- An error frame; a panic sends none. -/
def errorFrame : Failure → List ServerFrame
  | .coded code message => [.error message (some code)]
  | .plain message => [.error message none]
  | .panicked => []

/-- The frames a handler's result is sent as. -/
def replies : Except Failure ServerFrame → List ServerFrame
  | .ok frame => [frame]
  | .error e => errorFrame e

/-- `handle_put_blob` and, when the client sends its bytes, the upload. The
    reservation is returned on every path. -/
def servePutBlob (target : Target) (sha256 : String) (size : Nat) (mediaType : Option String)
    (upload : Option (List UInt8)) : Prog (hubMachine cfg) (List ServerFrame) :=
  let limit := cfg.maxBlobBytes
  if size > limit then
    .ret (errorFrame (.coded ErrorCode.tooLarge
      s!"blob too large: {size} bytes > limit {limit}"))
  else if max limit 1 ≥ 2 ^ 32 then
    .ret (errorFrame (.coded ErrorCode.tooLarge
      "blob is too large for the in-flight upload budget"))
  else
    .call (.acquireUpload (max limit 1)) fun (granted : Bool) =>
      if granted then
        (reserveBlob cfg me fresh target size).prog.bind fun
          | .error e => .call (.releaseUpload (max limit 1)) fun _ => .ret (errorFrame e)
          | .ok room =>
              match upload with
              | none => .call (.releaseUpload (max limit 1)) fun _ => .ret [.blobReady sha256]
              | some data =>
                  (finishBlobUpload cfg me room sha256 size mediaType data).prog.bind fun r =>
                    .call (.releaseUpload (max limit 1)) fun _ =>
                      .ret (.blobReady sha256 :: replies r)
      else
        .ret (errorFrame (.coded ErrorCode.atCapacity
          "hub upload capacity is busy — retry after current uploads finish"))

/-! ## Dispatch -/

/-- `handle_authed` with the frames `dispatch` answers itself. -/
def handleFrame (cardBytes : AgentCard → List UInt8) :
    ClientFrame → Handler cfg ServerFrame
  | .invite kind room ttl uses approval => handleInvite cfg me fresh kind room ttl uses approval
  | .redeem code => handleRedeem cfg me code
  | .joinRequests room => handleJoinRequests cfg me room
  | .resolveJoin room agent approve => handleResolveJoin cfg me room agent approve
  | .serve service => handleServe cfg me service
  | .claim room message lease => handleClaim cfg me room message lease
  | .queue room role limit => handleQueue cfg me room role limit
  | .complete room message status => handleComplete cfg me room message status
  | .register card visibility sig => handleRegister cfg me card (cardBytes card) visibility sig
  | .discover scope query tag skill status limit => do
      let now ← call .nowMs
      let agents ← check (← call (.discover scope query tag skill status limit now))
      return .directory agents
  | .lookup id => do
      let now ← call .nowMs
      let entry ← call (.lookupCard id now)
      return .card entry
  | .mintDirectoryToken ttl => handleMintDirectoryToken cfg me fresh ttl
  | .mintWatch room ttl => handleMintWatch cfg me fresh room ttl
  | .send target parts mentions replyTo clientId =>
      handleSend cfg me fresh target parts mentions replyTo clientId
  | .pull room since limit _ ack => handlePull cfg me room since limit ack
  | .remember fact embedding model => handleRemember cfg me fact embedding model
  | .recall query room limit embedding key => handleRecall cfg me query room limit embedding key
  | .rooms => do
      let rooms ← call (.roomsOf me.id)
      return .rooms rooms
  | .deleteRoom room => handleDeleteRoom cfg me room
  | .roster room => handleRoster cfg me room
  | .presence status activity attention => do
      let now ← call .nowMs
      call (.touchPresence me.id status activity attention now)
      return .presenceOk
  | .setAttention attention => do
      let now ← call .nowMs
      call (.setAttention me.id attention now)
      return .attentionOk
  | .putBlob .. => fail .panicked
  | .getBlob id => handleGetBlob cfg me id
  | .subscribe => return .subscribed
  | .ping => do
      let now ← call .nowMs
      call (.refreshPresence me.id now)
      return .pong

end Handlers

/-- One request in the hub's life: a frame of an authenticated connection with the
    names drawn for it, the store part of a successful handshake, one janitor pass,
    or the passing of time. -/
inductive Request where
  | frame (me : Authed) (frame : ClientFrame) (fresh : Fresh) (upload : Option (List UInt8))
      (rounds : Nat)
  | welcome (me : Authed)
  | janitor
  | tick (ms : Nat)

section Serve

variable (cfg : HubConfig) (cardBytes : AgentCard → List UInt8)

/-- `dispatch` on an authenticated connection (`server.rs:1885-1936`); a long-poll never
    reaches it (`handle_socket`). -/
def dispatch (me : Authed) (frame : ClientFrame) (fresh : Fresh) (upload : Option (List UInt8))
    (rounds : Nat) : Prog (hubMachine cfg) (List ServerFrame) :=
  match frame with
  | .pull room since limit (some _) ack =>
      (handleWaitedPull cfg me room since limit ack rounds).prog.bind fun r => .ret (replies r)
  | _ =>
      .call .nowMs fun (now : Int) =>
        .call (.rateAllows me.id .operation now) fun (allowed : Bool) =>
          if allowed then
            match validateFrameBounds cfg frame with
            | .error e => .ret (errorFrame e)
            | .ok _ =>
                match frame with
                | .putBlob target sha256 size mediaType =>
                    servePutBlob cfg me fresh target sha256 size mediaType upload
                | other =>
                    (handleFrame cfg me fresh cardBytes other).prog.bind fun r => .ret (replies r)
          else
            .ret (errorFrame (.coded ErrorCode.rateLimited
              "rate limit: too many operations — slow down"))

/-- Unlink garbage-collected bytes. -/
def unlinkBlobs : List String → Prog (hubMachine cfg) (List ServerFrame)
  | [] => .ret []
  | id :: ids => .call (.removeBlobFile id) fun _ => unlinkBlobs ids

/-- Run a retention step that the configuration may switch off. -/
def whenSet {α : Type} (setting : Option Int) (op : Int → HubCall)
    (next : Prog (hubMachine cfg) α) : Prog (hubMachine cfg) α :=
  match setting with
  | some v => .call (op v) fun _ => next
  | none => next

/-- One turn of `run_janitor` (`server.rs:652-740`). -/
def janitor : Prog (hubMachine cfg) (List ServerFrame) :=
  .call .nowMs fun (now : Int) =>
    .call (.sweepExpired now) fun _ =>
      whenSet cfg cfg.retention.messageMaxAgeMs
          (fun age => .pruneMessages age cfg.retention.keepMessagesPerRoom now) <|
        whenSet cfg cfg.retention.keepUnkeyedFacts (fun keep => .pruneFacts keep) <|
          match cfg.retention.blobMaxIdleMs with
          | some idle => .call (.gcBlobs idle now) fun (ids : List String) =>
              (unlinkBlobs cfg ids).bind fun _ =>
                .call (.pruneRateWindows now) fun _ => .ret []
          | none => .call (.pruneRateWindows now) fun _ => .ret []

/-- The program that serves a request. -/
def serve : Request → Prog (hubMachine cfg) (List ServerFrame)
  | .frame me frame fresh upload rounds => dispatch cfg cardBytes me frame fresh upload rounds
  | .welcome me =>
      .call .nowMs fun (now : Int) =>
        .call (.upsertAgent me.id me.name me.role now) fun _ =>
          .call (.touchPresence me.id "idle" none none now) fun _ => .ret []
  | .janitor => janitor cfg
  | .tick ms => .call (.tick ms) fun _ => .ret []

end Serve

/-- The hub with any number of requests in flight. -/
abbrev HubPool (cfg : HubConfig) := Pool (hubMachine cfg) Request (List ServerFrame)

/-- A call a request has executed. -/
abbrev HubEvent (cfg : HubConfig) := Event (hubMachine cfg)

end Parler.Hub
