import Parler.Cli.Conversation

/-!
# What a finished turn becomes in the room

`publish_turn`, `send_peer_result` and `parse_handoff` from `crates/parler-cli/src/conversation.rs`. A turn
of the local human goes to the room as text and wakes the others. A turn that a peer message started goes
there as a report on that message, which wakes nobody unless it names who goes on.
-/

namespace Parler.Cli

open Parler.Lib Parler.Protocol Parler.Hub

/-! ## Texts -/

/-- `MAX_REPLY_CHARS` -/
def maxReplyChars : Nat := 16000

/-- `HANDOFF_MARKER` -/
def handoffMarker : String := "PARLER_HANDOFF "

def clip (text : String) (maxChars : Nat) : String :=
  if text.toList.length ≤ maxChars then text
  else String.ofList (text.toList.take (maxChars - 1) ++ ['…'])

/-- `str::rsplit_once` at a character. -/
def rsplitOnce (sep : Char) (text : String) : Option (String × String) :=
  let backwards := text.toList.reverse
  if sep ∈ backwards then
    some (String.ofList ((backwards.dropWhile (fun c => c ≠ sep)).drop 1).reverse,
      String.ofList (backwards.takeWhile (fun c => c ≠ sep)).reverse)
  else none

/-- `str::strip_prefix` -/
def afterMarker (marker text : String) : Option String :=
  if marker.toList.isPrefixOf text.toList then some (String.ofList (text.toList.drop marker.toList.length))
  else none

/-- `str::split_once` -/
def splitOnceChars (sep : List Char) : List Char → Option (List Char × List Char)
  | [] => if sep = [] then some ([], []) else none
  | c :: rest =>
      if sep.isPrefixOf (c :: rest) then some ([], (c :: rest).drop sep.length)
      else (splitOnceChars sep rest).map (fun halves => (c :: halves.1, halves.2))

def splitOnce (sep text : String) : Option (String × String) :=
  (splitOnceChars sep.toList text.toList).map (fun halves => (String.ofList halves.1, String.ofList halves.2))

/-! ## Publishing -/

/-- A message to the room, before it is signed. -/
structure Post where
  parts : List Part
  mentions : Option (List String)
  replyTo : Option String
  deriving DecidableEq

/-- A turn that is being watched: the peer message that started it, if one did, and its text so far. The
    ack of the message goes with it. -/
structure TurnCapture where
  incoming : Option StoredMessage
  text : String
  deriving DecidableEq

section Publish

/- Reading a JSON object into a handoff. -/
variable (readHandoff : String → Option HandoffRef)

/-- `parse_handoff` -/
def parseHandoff (output : String) : String × Option HandoffRef :=
  let output := trim output
  match rsplitOnce '\n' output with
  | none => (output, none)
  | some (body, line) =>
      match afterMarker handoffMarker (trim line) with
      | none => (output, none)
      | some payload =>
          match readHandoff payload with
          | none => (output, none)
          | some handoff =>
              if handoff.addressee.any (fun name => trim name ≠ "") ∧ trim handoff.next ≠ "" ∧ trim body ≠ "" then
                (trim body, some handoff)
              else (output, none)

/-- What `send_peer_result` sends. -/
def peerResult (incoming : StoredMessage) (text : String) : Post :=
  let (body, continuation) := parseHandoff readHandoff text
  { parts := [.text (clip body maxReplyChars),
      (TaskRef.mk .done (some incoming.id) none none none none).toPart] ++
        continuation.toList.map HandoffRef.toPart
    mentions := (continuation.bind HandoffRef.addressee).map (fun name => [name])
    replyTo := some incoming.id }

/-- What `send_text` sends. -/
def plainText (text : String) : Post := ⟨[.text text], none, none⟩

/-- What `publish_turn` sends. -/
def publication (capture : TurnCapture) : Option Post :=
  let text := trim capture.text
  if text = "" then none
  else some (match capture.incoming with
    | none => plainText (clip text maxReplyChars)
    | some incoming => peerResult readHandoff incoming text)

end Publish

end Parler.Cli
