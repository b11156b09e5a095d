import Parler.Protocol.Types

/-!
# Frames

The requests an agent sends to the hub and the replies it gets, from
`crates/parler-protocol/src/hub.rs`. The handshake frame `Hello` is not a
request of an authenticated connection and is modelled with the handshake.
-/

namespace Parler.Protocol

/-- Requests of an authenticated connection (`hub.rs`, `ClientFrame`). -/
inductive ClientFrame where
  | invite (kind : RoomKind) (room : Option String) (ttlSecs : Option Nat)
      (maxUses : Option Nat) (requireApproval : Bool)
  | redeem (code : String)
  | joinRequests (room : String)
  | resolveJoin (room : String) (agent : String) (approve : Bool)
  | serve (service : String)
  | claim (room : String) (message : String) (leaseSecs : Option Nat)
  | queue (room : String) (role : String) (limit : Option Nat)
  | complete (room : String) (message : String) (status : TaskStatus)
  | register (card : AgentCard) (visibility : Visibility) (sig : Option String)
  | discover (scope : DiscoverScope) (query tag skill status : Option String)
      (limit : Option Nat)
  | lookup (id : String)
  | mintDirectoryToken (ttlSecs : Option Nat)
  | mintWatch (room : String) (ttlSecs : Option Nat)
  | send (target : Target) (parts : List Part) (mentions : Option (List String))
      (replyTo : Option String) (clientId : Option String)
  | pull (room : String) (since : Option Int) (limit : Option Nat) (waitSecs : Option Nat)
      (ack : Option Int)
  | remember (fact : Fact) (embedding : Option (List UInt32)) (embeddingModel : Option String)
  | recall (query : String) (room : Option String) (limit : Option Nat)
      (embedding : Option (List UInt32)) (key : Option String)
  | rooms
  | deleteRoom (room : String)
  | roster (room : String)
  | presence (status : String) (activity : Option String) (attention : Option Attention)
  | setAttention (attention : Attention)
  | putBlob (target : Target) (sha256 : String) (size : Nat) (mediaType : Option String)
  | getBlob (id : String)
  | subscribe
  | ping

/-- Replies of the hub (`hub.rs`, `ServerFrame`). The bytes that follow a
    `BlobIncoming` frame are carried with it. -/
inductive ServerFrame where
  | invited (code url room : String) (kind : RoomKind) (expiresAt : Int)
  | joined (room : String) (kind : RoomKind)
  | claimed (room message : String) (claimed : Bool) (leaseUntil : Option Int)
  | queued (room : String) (messages : List StoredMessage)
  | completed (room message : String) (completed : Bool)
  | joinPending (room : String)
  | joinRequests (room : String) (requests : List JoinRequest)
  | joinResolved (room agent : String) (approved : Bool)
  | registered (id : String) (visibility : Visibility) (verified : Bool)
  | directory (agents : List DirectoryEntry)
  | card (entry : Option DirectoryEntry)
  | directoryToken (token : String) (expiresAt : Int)
  | watch (token room : String) (expiresAt : Int)
  | sent (id : String) (seq : Int) (room : String)
  | pulled (room : String) (messages : List StoredMessage) (cursor : Int)
  | remembered (ok : Bool)
  | recalled (hits : List RecallHit)
  | rooms (rooms : List RoomInfo)
  | roomDeleted (room : String)
  | roster (room : String) (entries : List RosterEntry)
  | presenceOk
  | attentionOk
  | blobReady (id : String)
  | blobStored (id : String) (size : Nat)
  | blobIncoming (id : String) (size : Nat) (mediaType : Option String) (bytes : List UInt8)
  | subscribed
  | pong
  | error (message : String) (code : Option String)
  deriving DecidableEq

/-- A failure on its way to an error frame (`hub.rs`, `CodedError`); the last case is
    a panic of the serving task, which closes the connection without a reply. -/
inductive Failure where
  | coded (code : String) (message : String)
  | plain (message : String)
  | panicked
  deriving DecidableEq, Repr

/-! Stable error classifiers (`hub.rs`, `error_code`). -/

namespace ErrorCode

def unauthenticated : String := "unauthenticated"
def badFrame : String := "bad_frame"
def protocol : String := "protocol"
def atCapacity : String := "at_capacity"
def notMember : String := "not_member"
def unknownService : String := "unknown_service"
def rateLimited : String := "rate_limited"
def tooLarge : String := "too_large"
def storageFull : String := "storage_full"
def notAuthorized : String := "not_authorized"
def unknownBlob : String := "unknown_blob"
def invalidCard : String := "invalid_card"
def internal : String := "internal"

end ErrorCode

end Parler.Protocol
