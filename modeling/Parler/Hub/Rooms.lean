import Mathlib.Data.List.Sort
import Parler.Hub.Tables

/-!
# Agents, rooms, invites and capability tokens

The store methods over the tables `agents`, `presence`, `rooms`, `members`,
`invites`, `join_requests`, `directory` and `directory_tokens` of
`crates/parler-hub/src/store.rs`. Each definition is one method, that is one
critical section of the writer or one read, with the method's error texts.
-/

namespace Parler.Hub

open Parler.Lib Parler.Protocol

namespace Store

variable (s : Store)

/-! ## Agents and presence -/

def upsertAgent (id name : String) (role : Option String) (now : Int) : Store :=
  { s with
    agents := upsert AgentRow.id ⟨id, name, role, now, now⟩
      (fun r => { r with name := name, role := role, lastSeen := now }) s.agents }

def touchPresence (agent status : String) (activity : Option String)
    (attention : Option Attention) (now : Int) : Store :=
  { s with
    presence := upsert PresenceRow.agent ⟨agent, status, activity, attention, now⟩
      (fun r => { r with
        status := status, activity := activity, attention := attention.or r.attention, ts := now })
      s.presence }

def refreshPresence (agent : String) (now : Int) : Store :=
  { s with
    presence := upsert PresenceRow.agent ⟨agent, "idle", none, none, now⟩
      (fun r => { r with ts := now }) s.presence }

def setAttention (agent : String) (attention : Attention) (now : Int) : Store :=
  { s with
    presence := upsert PresenceRow.agent ⟨agent, "idle", none, some attention, now⟩
      (fun r => { r with attention := some attention, ts := now }) s.presence }

def presenceOf (agent : String) : Option PresenceRow := s.presence.find? (·.agent = agent)

/-- A row whose heartbeat is recent enough to be believed. -/
def fresh (now : Int) (row : PresenceRow) : Bool := now - row.ts ≤ presenceStaleMs

/-- Self-reported status, decayed to `offline`. -/
def shownStatus (now : Int) : Option PresenceRow → String
  | some row => if fresh now row then row.status else "offline"
  | none => "offline"

def shownAttention (now : Int) : Option PresenceRow → Option Attention
  | some row => if fresh now row then row.attention else none
  | none => none

/-! ## Rooms and membership -/

def ensureRoom (name : String) (kind : RoomKind) (description : Option String) (now : Int) :
    Store :=
  { s with rooms := insertNew RoomRow.name ⟨name, kind, description, none, now⟩ s.rooms }

def memberKey (row : MemberRow) : String × String := (row.room, row.agent)

def addMember (room agent : String) (now : Int) : Store :=
  { s with members := insertNew memberKey ⟨room, agent, now, 0⟩ s.members }

def isMember (room agent : String) : Bool :=
  s.members.any (fun row => row.room = room ∧ row.agent = agent)

def roomKind (name : String) : Option RoomKind :=
  (s.rooms.find? (·.name = name)).map RoomRow.kind

def roomOwnedBy (room owner : String) : Bool :=
  s.rooms.any (fun row => row.name = room ∧ row.owner = some owner)

/-- Set-once ownership. -/
def setRoomOwner (room owner : String) : Store :=
  { s with
    rooms := updateWhere (fun row => row.name = room ∧ row.owner = none)
      (fun row => { row with owner := some owner }) s.rooms }

def ownedRoomCount (owner : String) : Nat :=
  (s.rooms.filter (fun row => row.owner = some owner)).length

def memberCount (room : String) : Nat := (s.members.filter (fun row => row.room = room)).length

/-- The two-member `dm` room shared by `a` and `b`, if any. -/
def findDmRoom (a b : String) : Option String :=
  (s.members.find? (fun m1 =>
    m1.agent = a ∧ s.isMember m1.room b ∧
      s.rooms.any (fun r => r.name = m1.room ∧ r.kind = .dm) ∧ s.memberCount m1.room = 2)).map
    MemberRow.room

def roomsOf (agent : String) : List RoomInfo :=
  ((s.members.filter (fun m => m.agent = agent)).filterMap (fun m =>
    (s.rooms.find? (fun r => r.name = m.room)).map (fun r =>
      { name := m.room
        kind := r.kind
        members := s.memberCount m.room % 2 ^ 32
        unread :=
          (s.messages.filter (fun msg => msg.room = m.room ∧ msg.seq > m.cursor)).length % 2 ^ 32 :
        RoomInfo }))).insertionSort (fun a b => textLe a.name b.name)

def roster (room : String) (now : Int) : List RosterEntry :=
  ((s.members.filter (fun m => m.room = room)).filterMap (fun m =>
    (s.agents.find? (fun a => a.id = m.agent)).map (fun a =>
      let p := s.presenceOf a.id
      { id := a.id
        name := a.name
        role := a.role
        status := shownStatus now p
        activity := p.bind PresenceRow.activity
        attention := shownAttention now p
        serviceRole := (s.serviceWorkers.find? (fun w => w.room = room ∧ w.agent = a.id)).map
          WorkerRow.role
        lastSeen := (p.map PresenceRow.ts).getD a.lastSeen :
        RosterEntry }))).insertionSort (fun a b => textLe a.name b.name)

/-- The transaction of a room's deletion. -/
def eraseRoom (room : String) : Store :=
  { s with
    joinRequests := deleteWhere (fun r => r.room = room) s.joinRequests
    invites := deleteWhere (fun r => r.room = room) s.invites
    directoryTokens := deleteWhere (fun r => r.scope = watchScope room) s.directoryTokens
    blobRooms := deleteWhere (fun r => r.room = room) s.blobRooms
    facts := deleteWhere (fun r => r.room = some room) s.facts
    messages := deleteWhere (fun r => r.room = room) s.messages
    members := deleteWhere (fun r => r.room = room) s.members
    rooms := deleteWhere (fun r => r.name = room) s.rooms }

/-- Owner-only (`store.rs:688-707`). -/
def deleteRoom (room owner : String) : Except Failure Store :=
  if s.roomOwnedBy room owner then .ok (s.eraseRoom room)
  else .error (.plain s!"only the room owner can delete '{room}'")

/-! ## Invites and join requests -/

def createInvite (code room : String) (kind : RoomKind) (role : Option String) (maxUses : Nat)
    (expires : Int) (createdBy : String) (requireApproval : Bool) (now : Int) :
    Except Failure Store :=
  if s.invites.any (fun r => r.code = code) then
    .error (.plain "UNIQUE constraint failed: invites.code")
  else .ok { s with
    invites := s.invites ++
      [⟨code, room, kind, role, maxUses, 0, expires, createdBy, requireApproval, now⟩] }

structure Redeemed where
  room : String
  kind : RoomKind
  pending : Bool
  deriving DecidableEq

/-- Charge one use of an invite. -/
def chargeInvite (code : String) : Store :=
  { s with
    invites := updateWhere (fun r => r.code = code) (fun r => { r with uses := r.uses + 1 })
      s.invites }

def joinKey (row : JoinRow) : String × String := (row.room, row.agent)

/-- Redeem a code: join, or record a pending request (`store.rs:1085-1146`). -/
def redeemInvite (code agent : String) (now : Int) : Except Failure (Redeemed × Store) :=
  match s.invites.find? (fun r => r.code = code) with
  | none => .error (.plain "invalid or unknown invite code")
  | some inv =>
      if s.isMember inv.room agent then .ok (⟨inv.room, inv.kind, false⟩, s)
      else if now > inv.expires then
        .error (.plain "this code has expired — ask whoever shared it for a new one")
      else if inv.requireApproval then
        match (s.joinRequests.find? (fun r => r.room = inv.room ∧ r.agent = agent)).map
            JoinRow.status with
        | some .pending => .ok (⟨inv.room, inv.kind, true⟩, s)
        | some .denied => .error (.plain "your request to join was denied by the host")
        | none =>
            if inv.uses ≥ inv.maxUses then .error (.plain "invite has already been used up")
            else
              let charged := s.chargeInvite code
              .ok (⟨inv.room, inv.kind, true⟩, { charged with
                joinRequests := s.joinRequests ++ [⟨inv.room, agent, .pending, now⟩] })
      else if inv.uses ≥ inv.maxUses then .error (.plain "invite has already been used up")
      else .ok (⟨inv.room, inv.kind, false⟩, (s.chargeInvite code).addMember inv.room agent now)

def pendingJoinRequests (room owner : String) : Except Failure (List JoinRequest) :=
  if s.roomOwnedBy room owner then
    .ok (((s.joinRequests.filter (fun r => r.room = room ∧ r.status = .pending)).map (fun r =>
      let a := s.agents.find? (fun a => a.id = r.agent)
      { agent := r.agent
        name := (a.map AgentRow.name).getD ""
        role := a.bind AgentRow.role
        requestedAt := r.requested : JoinRequest })).insertionSort
          (fun a b => a.requestedAt ≤ b.requestedAt))
  else .error (.plain s!"only the session owner can view join requests for '{room}'")

/-- Approve or deny a pending request, owner-only (`store.rs:1181-1214`). -/
def resolveJoin (room owner agent : String) (approve : Bool) (now : Int) :
    Except Failure (Bool × Store) :=
  if !s.roomOwnedBy room owner then
    .error (.plain s!"only the session owner can approve or deny join requests for '{room}'")
  else if !s.joinRequests.any (fun r => r.room = room ∧ r.agent = agent) then
    .error (.plain s!"no pending join request from '{agent}' for '{room}'")
  else if approve then
    let cleared := { s with
      joinRequests := deleteWhere (fun r => r.room = room ∧ r.agent = agent) s.joinRequests }
    .ok (true, cleared.addMember room agent now)
  else
    .ok (false, { s with
      joinRequests := updateWhere (fun r => r.room = room ∧ r.agent = agent)
        (fun r => { r with status := .denied }) s.joinRequests })

/-! ## Capability tokens -/

def insertToken (row : TokenRow) : Except Failure Store :=
  if s.directoryTokens.any (fun r => r.token = row.token) then
    .error (.plain "UNIQUE constraint failed: directory_tokens.token")
  else .ok { s with directoryTokens := s.directoryTokens ++ [row] }

def mintDirectoryToken (token scope : String) (expires : Int) (createdBy : String) (now : Int) :
    Except Failure Store :=
  s.insertToken ⟨token, scope, expires, createdBy, now⟩

def activeTokenCount (createdBy : String) (now : Int) : Nat :=
  (s.directoryTokens.filter (fun r => r.createdBy = createdBy ∧ r.expires ≥ now)).length

def validateDirectoryToken (token : String) (now : Int) : Bool :=
  match s.directoryTokens.find? (fun r => r.token = token ∧ r.scope = "hub") with
  | some r => now ≤ r.expires
  | none => false

/-- Owner-only. -/
def mintWatchToken (token room owner : String) (expires now : Int) : Except Failure Store :=
  if s.roomOwnedBy room owner then
    s.insertToken ⟨token, watchScope room, expires, owner, now⟩
  else .error (.plain s!"only the session owner can mint a watch link for '{room}'")

/-- The room of a `watch:<room>` scope. -/
def watchedRoom (scope : String) : Option String :=
  if "watch:".toList.isPrefixOf scope.toList then some (String.ofList (scope.toList.drop 6))
  else none

def validateWatchToken (token : String) (now : Int) : Option String :=
  match s.directoryTokens.find? (fun r => r.token = token) with
  | some r => if now ≤ r.expires then watchedRoom r.scope else none
  | none => none

/-- Delete expired invites and tokens. -/
def sweepExpired (now : Int) : Store :=
  { s with
    invites := deleteWhere (fun r => r.expires < now) s.invites
    directoryTokens := deleteWhere (fun r => r.expires < now) s.directoryTokens }

end Store

end Parler.Hub
