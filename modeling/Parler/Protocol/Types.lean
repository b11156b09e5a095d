import Mathlib.Algebra.Ring.Int.Defs
import Mathlib.Algebra.Ring.Nat
import Parler.Lib.Json

/-!
# Wire types

The shapes that travel between an agent and the hub, from
`crates/parler-protocol/src/types.rs` and `hub.rs`. Strings are Lean strings,
`i64` values are integers and an embedding's `f32` values are their bits. A
`serde_json` object is a key-sorted list of fields (`serde_json::Map` is an
ordered map here), which `Map` carries as an invariant.
-/

namespace Parler.Protocol

open Parler.Lib

/-! ## Text helpers of the standard library -/

/-- Unicode `White_Space`, as `str::trim` uses it. -/
def isWhitespace (c : Char) : Bool :=
  let n := c.toNat
  (9 ≤ n && n ≤ 13) || n = 0x20 || n = 0x85 || n = 0xA0 || n = 0x1680 ||
    (0x2000 ≤ n && n ≤ 0x200A) || n = 0x2028 || n = 0x2029 || n = 0x202F || n = 0x205F ||
    n = 0x3000

def trimChars (cs : List Char) : List Char :=
  ((cs.dropWhile isWhitespace).reverse.dropWhile isWhitespace).reverse

/-- `str::trim`. -/
def trim (s : String) : String := String.ofList (trimChars s.toList)

/-- `char::to_ascii_lowercase`. -/
def asciiLower (c : Char) : Char :=
  if 'A'.toNat ≤ c.toNat && c.toNat ≤ 'Z'.toNat then Char.ofNat (c.toNat + 32) else c

/-- `str::to_ascii_lowercase`, which is also SQLite's `lower`. -/
def toAsciiLowercase (s : String) : String := String.ofList (s.toList.map asciiLower)

/-- `str::eq_ignore_ascii_case`. -/
def eqIgnoreAsciiCase (a b : String) : Bool := toAsciiLowercase a = toAsciiLowercase b

/-- `str::len`: the number of UTF-8 bytes. -/
def byteLen (s : String) : Nat := s.utf8ByteSize

def isAsciiAlphanumeric (c : Char) : Bool :=
  (48 ≤ c.toNat && c.toNat ≤ 57) || (65 ≤ c.toNat && c.toNat ≤ 90) ||
    (97 ≤ c.toNat && c.toNat ≤ 122)

/-- A string safe as one routing token (`subjects.rs`, `token`). -/
def token (s : String) : String :=
  let t := (trimChars s.toList).map
    (fun c => if isAsciiAlphanumeric c || c = '_' || c = '-' then c else '_')
  if t.isEmpty then "_" else String.ofList t

/-! ## JSON objects -/

/-- `serde_json::Value`: a JSON value whose objects are ordered maps. -/
structure Value where
  json : Json
  ordered : json.ordered
  deriving DecidableEq

/-- `serde_json::Map<String, Value>`. -/
structure Map where
  entries : List (String × Json)
  ordered : Json.orderedFields entries
  deriving DecidableEq

namespace Value

def str (s : String) : Value := ⟨.str s, by simp [Json.ordered]⟩

def int (n : Int) : Value := ⟨.int n, by simp [Json.ordered]⟩

theorem ordered_null : Json.null.ordered = true := by simp [Json.ordered]

theorem orderedItems_map (items : List Value) : Json.orderedItems (items.map Value.json) = true := by
  induction items with
  | nil => rfl
  | cons a as ih =>
    rw [List.map_cons, Json.orderedItems, a.ordered, ih]
    rfl

theorem ordered_arr (items : List Value) : (Json.arr (items.map Value.json)).ordered = true := by
  rw [Json.ordered]
  exact orderedItems_map items

end Value

namespace Map

def empty : Map := ⟨[], by simp [Json.orderedFields]⟩

def insert (m : Map) (key : String) (value : Value) : Map :=
  ⟨insertField (key, value.json) m.entries,
    orderedFields_insertField (by simpa [Json.orderedField] using value.ordered) m.ordered⟩

def get (m : Map) (key : String) : Option Json :=
  (m.entries.find? (fun field => field.1 = key)).map Prod.snd

def toValue (m : Map) : Value := ⟨.obj m.entries, by simpa [Json.ordered] using m.ordered⟩

end Map

/-- `Value::as_str`. -/
def asStr : Json → Option String
  | .str s => some s
  | _ => none

/-- `Value::as_i64`: an integer in the range of `i64`. -/
def asI64 : Json → Option Int
  | .int n => if -2 ^ 63 ≤ n ∧ n < 2 ^ 63 then some n else none
  | _ => none

/-! ## Message parts -/

/-- A message part (`types.rs`, `Part`). -/
inductive Part where
  | text (text : String)
  | data (value : Value)
  | extension (kind : String) (fields : Map)
  deriving DecidableEq

namespace Part

/-- `serde_json::to_value` of a part: a map, so a field named `kind` of an extension
    replaces the part's own kind. -/
def toValue : Part → Value
  | .text t => ((Map.empty.insert "kind" (.str "text")).insert "text" (.str t)).toValue
  | .data value => ((Map.empty.insert "kind" (.str "data")).insert "data" value).toValue
  | .extension kind fields =>
      ⟨.obj (insertFields fields.entries [("kind", .str kind)]), by
        have start : Json.orderedFields [("kind", Json.str kind)] := by
          simp [Json.orderedFields, Json.orderedField, Json.ordered, before]
        simpa [Json.ordered] using orderedFields_insertFields fields.ordered start⟩

/-- The serialised fields of a part in writing order, as `serde_json::to_vec` emits them. -/
def written : Part → Json
  | .text t => .obj [("kind", .str "text"), ("text", .str t)]
  | .data value => .obj [("kind", .str "data"), ("data", value.json)]
  | .extension kind fields => .obj (("kind", .str kind) :: fields.entries)

end Part

/-- The kind of a detached message signature (`hub.rs`, `MESSAGE_SIG_KIND`). -/
def messageSigKind : String := "com.parler.sig"

def dispatchKind : String := "com.parler.dispatch"

/-- `is_message_sig_part`. -/
def isMessageSigPart : Part → Bool
  | .extension kind _ => kind = messageSigKind
  | _ => false

/-- `DispatchRef::from_part`: the role of a role-addressed work request. -/
def dispatchRole : Part → Option String
  | .extension kind fields =>
      if kind = dispatchKind then (fields.get "role").bind asStr else none
  | _ => none

/-- The dispatch part addressed to `role` (`DispatchRef::to_part`). -/
def dispatchPart (role : String) : Part :=
  .extension dispatchKind (Map.empty.insert "role" (.str role))

/-! ## Token estimates -/

mutual

/-- The length of every string leaf of a value (`hub.rs`, `json_string_chars`). -/
def jsonStringChars : Json → Nat
  | .str s => s.length
  | .arr items => jsonItemsChars items
  | .obj fields => jsonFieldsChars fields
  | _ => 0

def jsonItemsChars : List Json → Nat
  | [] => 0
  | a :: as => jsonStringChars a + jsonItemsChars as

def jsonFieldsChars : List (String × Json) → Nat
  | [] => 0
  | f :: fs => jsonFieldChars f + jsonFieldsChars fs

def jsonFieldChars : String × Json → Nat
  | (_, value) => jsonStringChars value

end

def partChars : Part → Nat
  | .text t => t.length
  | .data v => jsonStringChars v.json
  | .extension kind fields =>
      if kind = messageSigKind then 0 else jsonFieldsChars fields.entries

/-- `estimate_message_tokens`: about four characters a token. -/
def estimateMessageTokens (parts : List Part) : Nat :=
  ((parts.map partChars).sum + 3) / 4

/-! ## Rooms, agents and messages -/

inductive RoomKind where
  | channel
  | dm
  | service
  deriving DecidableEq, Repr

inductive Visibility where
  | pub
  | priv
  deriving DecidableEq, Repr

inductive Attention where
  | open
  | dnd
  | focus
  deriving DecidableEq, Repr

inductive DiscoverScope where
  | hub
  | pub
  deriving DecidableEq, Repr

/-- Where a dispatched unit of work stands (`hub.rs`, `TaskStatus`). -/
inductive TaskStatus where
  | accepted
  | working
  | awaiting
  | done
  | failed
  | cancelled
  deriving DecidableEq, Repr

namespace TaskStatus

def label : TaskStatus → String
  | .accepted => "accepted"
  | .working => "working"
  | .awaiting => "awaiting"
  | .done => "done"
  | .failed => "failed"
  | .cancelled => "cancelled"

def isTerminal : TaskStatus → Bool
  | .done | .failed | .cancelled => true
  | .accepted | .working | .awaiting => false

end TaskStatus

/-- Where a message is addressed (`hub.rs`, `Target`). -/
inductive Target where
  | room (room : String)
  | dm (agent : String)
  | service (service : String)
  deriving DecidableEq, Repr

namespace Target

/-- The tagged object a target serialises to. -/
def toValue : Target → Value
  | .room name => ((Map.empty.insert "kind" (.str "room")).insert "room" (.str name)).toValue
  | .dm agent => ((Map.empty.insert "kind" (.str "dm")).insert "agent" (.str agent)).toValue
  | .service name =>
      ((Map.empty.insert "kind" (.str "service")).insert "service" (.str name)).toValue

/-- The variant a tag and its one field decode to. -/
def ofTag (tag : String) (field : String → Option Json) : Option Target :=
  if tag = "room" then ((field "room").bind asStr).map .room
  else if tag = "dm" then ((field "agent").bind asStr).map .dm
  else if tag = "service" then ((field "service").bind asStr).map .service
  else none

/-- Decoding an internally tagged enum: from an object, or from a sequence of the
    tag and the field. `serde_json` reads a tag as a string, so the index of a variant is none. -/
def fromJson : Json → Option Target
  | .obj fields =>
      let get := fun key => (fields.find? (fun field => field.1 = key)).map Prod.snd
      ((get "kind").bind asStr).bind (fun tag => ofTag tag get)
  | .arr [.str tag, value] => ofTag tag (fun _ => some value)
  | _ => none

end Target

inductive EndpointKind where
  | agent
  | endpoint
  deriving DecidableEq, Repr

structure AgentSkill where
  id : String
  name : String
  description : Option String
  deriving DecidableEq, Repr

/-- A directory card (`types.rs`, `AgentCard`). -/
structure AgentCard where
  id : String
  name : String
  kind : EndpointKind
  role : Option String
  description : Option String
  tags : Option (List String)
  skills : Option (List AgentSkill)
  metaFields : Option Map
  protocolVersion : Option String
  deriving DecidableEq

structure EndpointRef where
  id : String
  name : String
  role : Option String
  deriving DecidableEq, Repr

/-- A message as the hub returns it (`hub.rs`, `StoredMessage`). -/
structure StoredMessage where
  seq : Int
  id : String
  room : String
  sender : EndpointRef
  parts : List Part
  mentions : Option (List String)
  replyTo : Option String
  ts : Int
  deriving DecidableEq

structure Fact where
  key : Option String
  text : String
  room : Option String
  deriving DecidableEq, Repr

/-- A recall hit; the relevance is kept exact. -/
structure RecallHit where
  text : String
  key : Option String
  room : Option String
  author : String
  ts : Int
  score : Rat
  deriving DecidableEq

structure JoinRequest where
  agent : String
  name : String
  role : Option String
  requestedAt : Int
  deriving DecidableEq, Repr

structure RosterEntry where
  id : String
  name : String
  role : Option String
  status : String
  activity : Option String
  attention : Option Attention
  serviceRole : Option String
  lastSeen : Int
  deriving DecidableEq, Repr

structure RoomInfo where
  name : String
  kind : RoomKind
  members : Nat
  unread : Nat
  deriving DecidableEq, Repr

structure DirectoryEntry where
  card : AgentCard
  visibility : Visibility
  status : String
  activity : Option String
  attention : Option Attention
  hub : String
  verified : Bool
  sig : Option String
  firstSeen : Int
  lastSeen : Int
  deriving DecidableEq

end Parler.Protocol
