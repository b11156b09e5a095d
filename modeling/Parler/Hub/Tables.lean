import Parler.Lib.Table
import Parler.Protocol.Frames

/-!
# The store's tables

The rows of the hub's embedded database (`crates/parler-hub/src/store.rs`,
`MIGRATION`) and the store as the product of its tables. A table is the list
of its rows in insertion order. Columns that hold JSON text (`messages.parts`,
`directory.card_json`) hold the decoded value, enumerated text columns hold the
enumeration, and the two `AUTOINCREMENT` counters are fields of their own. What
the store takes from outside the repository is collected in `Externals`.
-/

namespace Parler.Hub

open Parler.Lib Parler.Protocol

/-- Code the hub calls and the repository does not contain: the Unicode tables
    of the standard library, the full-text and vector extensions of the database,
    the signature scheme and the content hash, and the printer of doubles. -/
structure Externals where
  toLowercase : String → String
  isAlphanumeric : Char → Bool
  /-- `MATCH` and `bm25` over the indexed texts: the score of a matching row. -/
  bm25 : List (Int × String) → String → Int → Option Rat
  /-- The `k` nearest rows of the vector index with their distances. -/
  knn : List (Int × List UInt32) → List UInt32 → Nat → List (Int × Rat)
  /-- `parler_auth::verify` -/
  verify : String → List UInt8 → String → Bool
  /-- `parler_auth::content_id` -/
  contentId : List UInt8 → String
  floats : FloatFormat

structure AgentRow where
  id : String
  name : String
  role : Option String
  firstSeen : Int
  lastSeen : Int
  deriving DecidableEq

structure PresenceRow where
  agent : String
  status : String
  activity : Option String
  attention : Option Attention
  ts : Int
  deriving DecidableEq

structure RoomRow where
  name : String
  kind : RoomKind
  description : Option String
  owner : Option String
  created : Int
  deriving DecidableEq

structure MemberRow where
  room : String
  agent : String
  joined : Int
  cursor : Int
  deriving DecidableEq

structure MessageRow where
  seq : Int
  id : String
  room : String
  author : String
  authorName : String
  authorRole : Option String
  parts : List Part
  mentions : Option (List String)
  replyTo : Option String
  ts : Int
  tokens : Int
  clientId : Option String
  deriving DecidableEq

structure WorkerRow where
  room : String
  agent : String
  role : String
  registered : Int
  deriving DecidableEq

/-- `service_claims.state`: `active`, or the label of a terminal task status. -/
inductive ClaimState where
  | active
  | ended (status : TaskStatus)
  deriving DecidableEq

structure ClaimRow where
  room : String
  message : String
  worker : String
  state : ClaimState
  claimed : Int
  leaseUntil : Int
  deriving DecidableEq

structure DispatchRow where
  room : String
  message : String
  role : String
  seq : Int
  deriving DecidableEq

structure FactRow where
  id : Int
  key : Option String
  room : Option String
  author : String
  text : String
  ts : Int
  embeddingModel : Option String
  deriving DecidableEq

structure VecRow where
  factId : Int
  embedding : List UInt32
  deriving DecidableEq

structure InviteRow where
  code : String
  room : String
  kind : RoomKind
  role : Option String
  maxUses : Int
  uses : Int
  expires : Int
  createdBy : String
  requireApproval : Bool
  created : Int
  deriving DecidableEq

inductive JoinStatus where
  | pending
  | denied
  deriving DecidableEq

structure JoinRow where
  room : String
  agent : String
  status : JoinStatus
  requested : Int
  deriving DecidableEq

structure DirectoryRow where
  agent : String
  visibility : Visibility
  card : AgentCard
  sig : Option String
  verified : Bool
  tags : String
  skills : String
  registered : Int
  updated : Int
  deriving DecidableEq

structure TokenRow where
  token : String
  scope : String
  expires : Int
  createdBy : String
  created : Int
  deriving DecidableEq

structure BlobRow where
  id : String
  mediaType : Option String
  size : Int
  created : Int
  lastFetched : Option Int
  deriving DecidableEq

structure BlobRoomRow where
  blob : String
  room : String
  author : String
  created : Int
  deriving DecidableEq

/-- The durable store. -/
structure Store where
  agents : List AgentRow
  presence : List PresenceRow
  rooms : List RoomRow
  members : List MemberRow
  messages : List MessageRow
  messageSeq : Int
  serviceWorkers : List WorkerRow
  serviceClaims : List ClaimRow
  serviceDispatches : List DispatchRow
  facts : List FactRow
  factSeq : Int
  vecFacts : List VecRow
  invites : List InviteRow
  joinRequests : List JoinRow
  directory : List DirectoryRow
  directoryTokens : List TokenRow
  blobs : List BlobRow
  blobRooms : List BlobRoomRow
  deriving DecidableEq

namespace Store

/-- A freshly migrated database. -/
def empty : Store where
  agents := []
  presence := []
  rooms := []
  members := []
  messages := []
  messageSeq := 0
  serviceWorkers := []
  serviceClaims := []
  serviceDispatches := []
  facts := []
  factSeq := 0
  vecFacts := []
  invites := []
  joinRequests := []
  directory := []
  directoryTokens := []
  blobs := []
  blobRooms := []

end Store

/-- The scope of a watch token for a room. -/
def watchScope (room : String) : String := "watch:" ++ room

/-- Presence older than this reads as offline (`PRESENCE_STALE_MS`). -/
def presenceStaleMs : Int := 300000

/-- Text order of a column (`BINARY` collation). -/
def textLe (a b : String) : Bool := !keyLess b a

/-- Saturating arithmetic in the range of `i64`. -/
def satI64 (n : Int) : Int := max (-2 ^ 63) (min (2 ^ 63 - 1) n)

/-- `u64 as i64`. -/
def wrapI64 (n : Nat) : Int :=
  let m : Nat := n % 2 ^ 64
  if m < 2 ^ 63 then (m : Int) else (m : Int) - 2 ^ 64

end Parler.Hub
