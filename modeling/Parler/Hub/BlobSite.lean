import Parler.Lib.Files
import Parler.Hub.BlobFiles
import Parler.Hub.Connection

/-!
# Uploads and downloads by single file operations

`finish_blob_upload`, `handle_get_blob` with `send_reply`, and `api_session_blob`, with `std::fs::write`
and `std::fs::read` as what they are to other threads: the file is opened, and its bytes go out or come in
piece by piece. The two inserts of `put_blob_meta` are calls of their own. A hub that crashes loses its
threads and what it has in memory; the store and the files stay.
-/

namespace Parler.Hub

open Parler.Lib Parler.Protocol

/-- The hub and its blob directory, and how often the hub was started. -/
structure BlobSite where
  hub : HubState
  disk : Volume
  starts : Nat

/-- The blobs and their rooms are left as they are, and so are the files. -/
def HubCall.besideBlobs : HubCall → Bool
  | .putBlobMeta .. | .gcBlobs .. | .writeBlobFile .. | .readBlobFile _ | .removeBlobFile _ => false
  | _ => true

/-- The atomic calls: those of the hub, the two inserts of `put_blob_meta`, the two checks of the viewer,
    and the file operations. -/
inductive BlobCall where
  | hub (op : HubCall)
  | insertBlob (row : BlobRow)
  | insertBlobRoom (row : BlobRoomRow)
  | validateWatchToken (token : String) (now : Int)
  | blobInRoom (id room : String)
  | createFile (id : String)
  | writeAt (file offset : Nat) (piece : List UInt8)
  | openFile (id : String)
  | readAt (file offset n : Nat)
  | unlink (id : String)
  /-- The hub starts anew, with an upload budget. -/
  | restart (inflight : Nat)

namespace BlobCall

/-- What a call returns. -/
@[reducible]
def Res : BlobCall → Type
  | .hub op => op.Res
  | .insertBlob _ | .insertBlobRoom _ | .writeAt .. | .unlink _ | .restart _ => Unit
  | .validateWatchToken .. => Option String
  | .blobInRoom .. => Bool
  | .createFile _ => Nat
  | .openFile _ => Option Nat
  | .readAt .. => List UInt8

def exec (cfg : HubConfig) : (c : BlobCall) → BlobSite → c.Res × BlobSite
  | .hub op, s => ((op.exec cfg s.hub).1, { s with hub := (op.exec cfg s.hub).2 })
  | .insertBlob row, s => ((), { s with hub := { s.hub with store := { s.hub.store with
      blobs := insertNew BlobRow.id row s.hub.store.blobs } } })
  | .insertBlobRoom row, s => ((), { s with hub := { s.hub with store := { s.hub.store with
      blobRooms := insertNew Store.blobRoomKey row s.hub.store.blobRooms } } })
  | .validateWatchToken token now, s => (s.hub.store.validateWatchToken token now, s)
  | .blobInRoom id room, s => (s.hub.store.blobInRoom id room, s)
  | .createFile id, s => ((s.disk.createFile id).1, { s with disk := (s.disk.createFile id).2 })
  | .writeAt file offset piece, s => ((), { s with disk := s.disk.writeAt file offset piece })
  | .openFile id, s => (s.disk.lookup id, s)
  | .readAt file offset n, s => (s.disk.readAt file offset n, s)
  | .unlink id, s => ((), { s with disk := s.disk.unlink id })
  | .restart inflight, s => ((), { s with
      hub := { HubState.boot inflight with store := s.hub.store, clock := s.hub.clock }
      starts := s.starts + 1 })

/-- A thread is gone when the hub was started again. -/
def ready (start : Nat) : BlobCall → BlobSite → Bool
  | .restart _, _ => true
  | .hub op, s => start = s.starts && op.ready s.hub
  | _, s => start = s.starts

end BlobCall

/-- Calls of threads, each with the start of the hub that the thread belongs to. -/
@[reducible]
def blobMachine (cfg : HubConfig) : Machine BlobSite where
  Op := Nat × BlobCall
  Res op := op.2.Res
  exec op := op.2.exec cfg
  enabled op s := op.2.ready op.1 s

instance (cfg : HubConfig) (op : Nat × BlobCall) (s : BlobSite) :
    Decidable ((blobMachine cfg).enabled op s) :=
  inferInstanceAs (Decidable (op.2.ready op.1 s = true))

/-- A request, with what its file operations meet: how many bytes each write takes, or that it fails, and
    how many each read gives at most. -/
inductive BlobRequest where
  /-- The binary frame of a pending upload. -/
  | upload (p : PendingUpload) (data : List UInt8) (writes : List (Option Nat))
  | getBlob (me : Authed) (id : String) (reads : List Nat)
  | sessionBlob (token id : String) (reads : List Nat)
  /-- The blob collection of the janitor. -/
  | collect (idleMs : Int)
  /-- Any call that has nothing to do with blobs. -/
  | other (op : HubCall)
  | restart (inflight : Nat)

inductive BlobReply where
  | stored (id : String) (size : Nat)
  | incoming (id : String) (size : Nat) (mediaType : Option String) (bytes : List UInt8)
  | refused (e : Failure)
  /-- The viewer's file, with its content type. -/
  | file (contentType : String) (bytes : List UInt8)
  /-- The viewer's `session_error`. -/
  | status (code : Nat) (message : String)
  | done

section Serve

variable (cfg : HubConfig) (start : Nat)

/-- A call of a thread. -/
def blobCall {α : Type} (op : BlobCall) (next : op.Res → Prog (blobMachine cfg) α) :
    Prog (blobMachine cfg) α :=
  .call (start, op) next

/-- `write_all`; the last write takes the rest. -/
def writeAll (file offset : Nat) (rest : List UInt8) :
    List (Option Nat) → (Bool → Prog (blobMachine cfg) BlobReply) → Prog (blobMachine cfg) BlobReply
  | [], next =>
      if rest = [] then next true
      else blobCall cfg start (.writeAt file offset rest) fun _ => next true
  | none :: _, next => if rest = [] then next true else next false
  | some n :: writes, next =>
      if rest = [] then next true
      else
        let piece := rest.take (n + 1)
        blobCall cfg start (.writeAt file offset piece) fun _ =>
          writeAll file (offset + piece.length) (rest.drop (n + 1)) writes next

/-- `read_to_end`: a read that gives nothing is the end; without one the read fails. -/
def readToEnd (file : Nat) (soFar : List UInt8) :
    List Nat → (Option (List UInt8) → Prog (blobMachine cfg) BlobReply) → Prog (blobMachine cfg) BlobReply
  | [], next => next none
  | n :: reads, next =>
      blobCall cfg start (.readAt file soFar.length (n + 1)) fun (chunk : List UInt8) =>
        if chunk = [] then next (some soFar) else readToEnd file (soFar ++ chunk) reads next

/-- `std::fs::read` -/
def readFile (id : String) (reads : List Nat)
    (next : Option (List UInt8) → Prog (blobMachine cfg) BlobReply) : Prog (blobMachine cfg) BlobReply :=
  blobCall cfg start (.openFile id) fun (opened : Option Nat) =>
    match opened with
    | none => next none
    | some file => readToEnd cfg start file [] reads next

/-- `finish_blob_upload` -/
def uploadBlob (p : PendingUpload) (data : List UInt8) (writes : List (Option Nat)) :
    Prog (blobMachine cfg) BlobReply :=
  let n := data.length
  if n ≠ p.size then
    .ret (.refused (.coded ErrorCode.protocol s!"blob size mismatch: got {n} bytes, expected {p.size}"))
  else if n > cfg.maxBlobBytes then
    .ret (.refused (.coded ErrorCode.tooLarge "blob too large"))
  else
    let id := cfg.ext.contentId data
    if id ≠ p.id then
      .ret (.refused (.coded ErrorCode.protocol
        s!"content id mismatch: bytes hash to {id}, not {p.id}"))
    else
      blobCall cfg start (.createFile id) fun (file : Nat) =>
        writeAll cfg start file 0 data writes fun written =>
          if written then
            blobCall cfg start (.hub .nowMs) fun (now : Int) =>
              blobCall cfg start (.insertBlob ⟨id, p.mediaType, n, now, none⟩) fun _ =>
                blobCall cfg start (.insertBlobRoom ⟨id, p.room, p.author, now⟩) fun _ =>
                  .ret (.stored id n)
          else .ret (.refused (.coded ErrorCode.internal "failed to store blob"))

/-- `handle_get_blob`, and `send_reply` -/
def getBlob (me : Authed) (id : String) (reads : List Nat) : Prog (blobMachine cfg) BlobReply :=
  blobCall cfg start (.hub (.blobMeta id)) fun (known : Option BlobRow) =>
    match known with
    | none => .ret (.refused (.coded ErrorCode.unknownBlob s!"no such blob '{id}'"))
    | some row =>
        blobCall cfg start (.hub (.blobReadableBy id me.id)) fun (readable : Bool) =>
          if readable then
            blobCall cfg start (.hub .nowMs) fun (now : Int) =>
              blobCall cfg start (.hub (.touchBlobFetched id now)) fun _ =>
                readFile cfg start id reads fun bytes =>
                  match bytes with
                  | some bytes => .ret (.incoming id row.size.toNat row.mediaType bytes)
                  | none => .ret (.refused (.coded ErrorCode.internal "blob bytes unavailable"))
          else .ret (.refused (.coded ErrorCode.notAuthorized s!"not authorized to fetch blob '{id}'"))

/-- `api_session_blob` -/
def sessionBlob (token id : String) (reads : List Nat) : Prog (blobMachine cfg) BlobReply :=
  blobCall cfg start (.hub .nowMs) fun (now : Int) =>
    blobCall cfg start (.validateWatchToken token now) fun (watched : Option String) =>
      match watched with
      | none => .ret (.status 401 "invalid or expired watch token")
      | some room =>
          blobCall cfg start (.blobInRoom id room) fun (bound : Bool) =>
            if bound then
              blobCall cfg start (.hub (.blobMeta id)) fun (known : Option BlobRow) =>
                match known with
                | none => .ret (.status 404 "no such file")
                | some row =>
                    readFile cfg start id reads fun bytes =>
                      match bytes with
                      | some bytes =>
                          blobCall cfg start (.hub (.touchBlobFetched id now)) fun _ =>
                            .ret (.file (row.mediaType.getD "application/octet-stream") bytes)
                      | none => .ret (.status 500 "failed to read file")
            else .ret (.status 403 "this file was not exchanged in this session")

/-- Unlink the collected files. -/
def unlinkFiles : List String → Prog (blobMachine cfg) BlobReply
  | [] => .ret .done
  | id :: ids => blobCall cfg start (.unlink id) fun _ => unlinkFiles ids

def collectBlobs (idleMs : Int) : Prog (blobMachine cfg) BlobReply :=
  blobCall cfg start (.hub .nowMs) fun (now : Int) =>
    blobCall cfg start (.hub (.gcBlobs idleMs now)) fun (ids : List String) => unlinkFiles cfg start ids

end Serve

/-- The program that serves a request of a thread. -/
def serveBlob (cfg : HubConfig) : Nat × BlobRequest → Prog (blobMachine cfg) BlobReply
  | (start, .upload p data writes) => uploadBlob cfg start p data writes
  | (start, .getBlob me id reads) => getBlob cfg start me id reads
  | (start, .sessionBlob token id reads) => sessionBlob cfg start token id reads
  | (start, .collect idleMs) => collectBlobs cfg start idleMs
  | (start, .other op) =>
      if op.besideBlobs then blobCall cfg start (.hub op) fun _ => .ret .done else .ret .done
  | (start, .restart inflight) => blobCall cfg start (.restart inflight) fun _ => .ret .done

/-- The hub with any number of requests in flight, between single file operations. -/
abbrev BlobPool (cfg : HubConfig) := Pool (blobMachine cfg) (Nat × BlobRequest) BlobReply

/-- A call that a thread has executed. -/
abbrev BlobDone (cfg : HubConfig) := Done (blobMachine cfg)

/-- The site before anything was uploaded. -/
def BlobSite.boot (inflight : Nat) : BlobSite := ⟨.boot inflight, .empty, 0⟩

end Parler.Hub
