import Mathlib.Data.List.Sort
import Parler.Hub.Rooms

/-!
# The directory and the blob tables

`register_card`, `discover`, `lookup_card` and the blob methods of
`crates/parler-hub/src/store.rs`.
-/

namespace Parler.Hub

open Parler.Lib Parler.Protocol

/-- SQLite `LIKE`: `%` is any run of characters, `_` any one, and ASCII letters
    compare without case. -/
def likeChars : List Char → List Char → Bool
  | [], cs => cs.isEmpty
  | p :: ps, cs =>
      if p = '%' then cs.tails.any (likeChars ps)
      else
        match cs with
        | [] => false
        | c :: cs => (p = '_' || asciiLower p = asciiLower c) && likeChars ps cs

/-- SQLite reads a text up to its first NUL. -/
def cString (text : String) : List Char := text.toList.takeWhile (· ≠ '\x00')

def sqlLike (pattern text : String) : Bool := likeChars (cString pattern) (cString text)

/-- `SQLITE_MAX_LIKE_PATTERN_LENGTH`: a comparison with a longer pattern fails, and its query with it. -/
def maxLikePattern : Nat := 50000

def likeRefuses (pattern : String) : Bool := maxLikePattern < byteLen pattern

/-- Lowercased, space-delimited words for `LIKE` filtering (`card_filter_blobs`). -/
def filterBlob (words : List String) : String :=
  if words.isEmpty then "" else String.join (words.map (fun w => " " ++ w)) ++ " "

def cardTags (ext : Externals) (card : AgentCard) : String :=
  filterBlob ((card.tags.getD []).map ext.toLowercase)

def cardSkills (ext : Externals) (card : AgentCard) : String :=
  filterBlob ((card.skills.getD []).flatMap (fun k =>
    [ext.toLowercase k.id, ext.toLowercase k.name]))

/-- Row filters of a directory search, lowercased by the caller. -/
structure DirectoryFilter where
  publicOnly : Bool
  query : Option String
  tag : Option String
  skill : Option String

namespace Store

variable (s : Store)

/-! ## Directory -/

def registerCard (ext : Externals) (card : AgentCard) (sig : Option String) (verified : Bool)
    (visibility : Visibility) (now : Int) : Store :=
  let tags := cardTags ext card
  let skills := cardSkills ext card
  { s with
    directory := upsert DirectoryRow.agent
      ⟨card.id, visibility, card, sig, verified, tags, skills, now, now⟩
      (fun r => { r with
        visibility := visibility, card := card, sig := sig, verified := verified, tags := tags,
        skills := skills, updated := now })
      s.directory }

/-- `RawDir::to_entry` on a joined row. -/
def toEntry (hub : String) (now : Int) (d : DirectoryRow) (a : AgentRow) : DirectoryEntry :=
  let p := s.presenceOf d.agent
  { card := d.card
    visibility := d.visibility
    status := shownStatus now p
    activity := p.bind PresenceRow.activity
    attention := shownAttention now p
    hub := hub
    verified := d.verified
    sig := d.sig
    firstSeen := a.firstSeen
    lastSeen := a.lastSeen }

def matchesFilter (f : DirectoryFilter) (d : DirectoryRow) (a : AgentRow) : Bool :=
  (!f.publicOnly || d.visibility = .pub) &&
    (match f.query with
      | none => true
      | some q => sqlLike q (toAsciiLowercase a.name) || sqlLike q d.tags || sqlLike q d.skills) &&
    (match f.tag with | none => true | some t => sqlLike t d.tags) &&
    (match f.skill with | none => true | some k => sqlLike k d.skills)

/-- The filters come to a comparison that fails at this card. SQLite scans the directory, tests the
    columns of a card, and compares with the query only for a card that passed and has an agent. -/
def comesToRefused (f : DirectoryFilter) (d : DirectoryRow) : Bool :=
  (!f.publicOnly || d.visibility = .pub) &&
    (f.tag.any likeRefuses ||
      f.tag.all (fun t => sqlLike t d.tags) &&
        (f.skill.any likeRefuses ||
          f.skill.all (fun k => sqlLike k d.skills) &&
            s.agents.any (fun a => a.id = d.agent) && f.query.any likeRefuses))

/-- `discover` (`store.rs:1252-1309`). The limit is tested after an entry is pushed, so
    a limit of 0 returns one entry. -/
def discover (ext : Externals) (scope : DiscoverScope) (hub : String)
    (query tag skill status : Option String) (limit : Option Nat) (now : Int) :
    Except Failure (List DirectoryEntry) :=
  let wrap := fun (t : String) => "%" ++ ext.toLowercase t ++ "%"
  let filter : DirectoryFilter :=
    ⟨scope = .pub, query.map wrap, tag.map wrap, skill.map wrap⟩
  let rows := ((s.directory.filterMap (fun d =>
    (s.agents.find? (fun a => a.id = d.agent)).map (fun a => (d, a)))).filter
      (fun r => matchesFilter filter r.1 r.2)).insertionSort
        (fun x y => y.2.lastSeen ≤ x.2.lastSeen)
  let entries := rows.map (fun r => s.toEntry hub now r.1 r.2)
  let wanted := match status.map ext.toLowercase with
    | none => entries
    | some w => entries.filter (fun e => ext.toLowercase e.status = w)
  if s.directory.any (s.comesToRefused filter) then .error (.plain "LIKE or GLOB pattern too complex")
  else .ok (wanted.take (max 1 (min (limit.getD 200) 1000)))

def lookupCard (id hub : String) (hubScope : Bool) (now : Int) : Option DirectoryEntry :=
  match s.directory.find? (fun d => d.agent = id) with
  | none => none
  | some d =>
      match s.agents.find? (fun a => a.id = d.agent) with
      | none => none
      | some a => if hubScope || d.visibility = .pub then some (s.toEntry hub now d a) else none

def directoryVisibility (agent : String) : Option Visibility :=
  (s.directory.find? (fun d => d.agent = agent)).map DirectoryRow.visibility

/-! ## Blobs -/

def blobRoomKey (row : BlobRoomRow) : String × String := (row.blob, row.room)

def putBlobMeta (id room author : String) (mediaType : Option String) (size now : Int) : Store :=
  { s with
    blobs := insertNew BlobRow.id ⟨id, mediaType, size, now, none⟩ s.blobs
    blobRooms := insertNew blobRoomKey ⟨id, room, author, now⟩ s.blobRooms }

def totalBlobBytes : Int := (s.blobs.map BlobRow.size).sum

def blobMeta (id : String) : Option BlobRow := s.blobs.find? (fun b => b.id = id)

def blobReadableBy (id agent : String) : Bool :=
  s.blobRooms.any (fun br => br.blob = id ∧ s.members.any (fun m =>
    m.room = br.room ∧ m.agent = agent))

def blobInRoom (id room : String) : Bool :=
  s.blobRooms.any (fun br => br.blob = id ∧ br.room = room)

def touchBlobFetched (id : String) (now : Int) : Store :=
  { s with
    blobs := updateWhere (fun b => b.id = id) (fun b => { b with lastFetched := some now })
      s.blobs }

/-- Blobs neither fetched nor created within the window. -/
def staleBlob (cutoff : Int) (b : BlobRow) : Bool := b.lastFetched.getD b.created < cutoff

def gcBlobs (ttlMs now : Int) : List String × Store :=
  let ids := (s.blobs.filter (staleBlob (now - ttlMs))).map BlobRow.id
  (ids, { s with
    blobRooms := deleteWhere (fun br => br.blob ∈ ids) s.blobRooms
    blobs := deleteWhere (fun b => staleBlob (now - ttlMs) b) s.blobs })

end Store

end Parler.Hub
