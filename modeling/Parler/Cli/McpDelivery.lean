import Parler.Cli.Mcp
import Parler.Connector.Handled

/-!
# What the cursor passes

The server acknowledges a batch in two ways: a call that commits what it reads does so before it
returns, and what another call has read goes with the next pull, after that call has returned. From
the turns of a server one can therefore tell what became of every message that the cursor has passed.
-/

namespace Parler.Cli

open Parler.Lib Parler.Protocol Parler.Hub Parler.Connector

/-- The turns of a server, newest first. -/
abbrev McpTurns := List (ClientDone mcpHost)

/-! ## What the turns show -/

/-- The call that is being answered; the join at the start is that of `parler_join_session`. -/
def answering : McpTurns → Option McpCall
  | [] => none
  | ⟨.ask .next, input⟩ :: _ =>
      match (input : McpInput) with
      | .line call _ => some call
      | _ => none
  | ⟨.ask .sessionKey, key⟩ :: _ => (key : Option (Option String)).map fun code => .joinSession code none
  | ⟨.ask (.reply _), _⟩ :: _ | ⟨.ask (.log _), _⟩ :: _ => none
  | _ :: rest => answering rest

/-- What a turn returns to the host. -/
def replied : ClientDone mcpHost → Option ToolResult
  | ⟨.ask (.reply result), _⟩ => some result
  | _ => none

/-- What a turn makes of a call, for the host or on standard error. -/
def finished : ClientDone mcpHost → Option ToolResult
  | ⟨.ask (.reply result), _⟩ | ⟨.ask (.log result), _⟩ => some result
  | _ => none

namespace McpCall

/-- The call commits what it reads. -/
def commits : McpCall → Bool
  | .recv _ since _ _ => since.isNone
  | .joinSession .. | .join _ => true
  | _ => false

def isSend : McpCall → Bool
  | .send _ => true
  | _ => false

def isJoin : McpCall → Bool
  | .joinSession .. | .join _ => true
  | _ => false

end McpCall

/-- A pull by the cursor has brought the messages up to a cursor, within its limit. -/
def Brought (room : String) (messages : List StoredMessage) (cursor : Int) (d : ClientDone mcpHost) :
    Prop :=
  ∃ limit wait ack room', messages.length ≤ Store.pullLimit limit ∧
    d = ⟨ClientCall.request (.pull room none limit wait ack), some (.pulled room' messages cursor)⟩

/-- A message of the room was brought. -/
def HasRead (room : String) (past : McpTurns) (m : StoredMessage) : Prop :=
  ∃ d ∈ past, ∃ messages cursor, Brought room messages cursor d ∧ m ∈ messages

/-- It was brought for a call that commits what it reads, or for one that has returned. -/
def Taken (room : String) (past : McpTurns) (m : StoredMessage) : Prop :=
  ∃ later d earlier messages cursor, past = later ++ d :: earlier ∧ Brought room messages cursor d ∧
    m ∈ messages ∧ ((∃ call, answering earlier = some call ∧ call.commits = true) ∨
      ∃ e ∈ later, finished e ≠ none)

/-- The reply to a commit up to the cursor did not come back. -/
def FailedCommit (room : String) (cursor : Int) (past : McpTurns) : Prop :=
  ∃ reply : Option ServerFrame,
    ⟨ClientCall.request (.pull room none (some 0) none (some cursor)), reply⟩ ∈ past ∧
      ∀ room' messages cursor', reply ≠ some (.pulled room' messages cursor')

/-- The message stands before the first one that reads as a seed. -/
def BeforeSeed (F : FloatFormat) (messages : List StoredMessage) (m : StoredMessage) : Prop :=
  ∃ i, messages.findIdx? (isSeed F) = some i ∧ m ∈ messages.take i

/-- A result renders a message or counts it as omitted, but for the agent's own after a send and what
    stands before the seed of a session. -/
def Shows (S : McpServer) (call : McpCall) (messages : List StoredMessage) (result : ToolResult)
    (m : StoredMessage) : Prop :=
  m ∈ result.rendered ∨ m ∈ result.omitted ∨ (call.isSend = true ∧ m.sender.id = S.me.id) ∨
    (call.isJoin = true ∧ BeforeSeed S.floats messages m)

/-- A call returns a result only when that shows what was brought for it; an error, when the commit of
    that has failed. -/
def Accounts (S : McpServer) (call : McpCall) (past : McpTurns) (result : ToolResult) : Prop :=
  ∀ later d earlier room messages cursor, past = later ++ d :: earlier → (∀ e ∈ later, finished e = none) →
    Brought room messages cursor d → messages ≠ [] → answering earlier = some call ∧
      if result.isError then call.commits = true ∧ FailedCommit room cursor later
      else ∀ m ∈ messages, Shows S call messages result m

/-- A server acknowledges what it has taken, and returns results that account for what they read. -/
def mcpRule (S : McpServer) (past : McpTurns) : ClientCall mcpHost → Prop
  | .request (.pull room since _ _ ack) =>
      since = none → ∃ a, ack = some a ∧ Acknowledges room (Taken room) past a
  | .ask (.reply result) => ∃ call, Accounts S call past result
  | .ask (.log result) => ∃ code, Accounts S (.joinSession code none) past result
  | _ => True

section Turns

variable {S : McpServer} {room : String} {past : McpTurns} {m : StoredMessage} {d : ClientDone mcpHost}
  {messages : List StoredMessage} {cursor : Int}

theorem HasRead.cons (read : HasRead room past m) (d : ClientDone mcpHost) :
    HasRead room (d :: past) m := by
  obtain ⟨d', member, brought⟩ := read
  exact ⟨d', List.mem_cons_of_mem _ member, brought⟩

theorem Taken.cons (taken : Taken room past m) (d : ClientDone mcpHost) : Taken room (d :: past) m := by
  obtain ⟨later, d', earlier, messages, cursor, rfl, brought, listed, how⟩ := taken
  refine ⟨d :: later, d', earlier, messages, cursor, rfl, brought, listed, ?_⟩
  rcases how with commits | ⟨e, member, reply⟩
  · exact Or.inl commits
  · exact Or.inr ⟨e, List.mem_cons_of_mem _ member, reply⟩

/-- The turns that no rule is about: they bring nothing by the cursor, and neither begin a call nor
    return from one. -/
def isCalm : ClientCall mcpHost → Bool
  | .request frame => !readsCursor frame
  | .ask .next | .ask .sessionKey | .ask (.reply _) | .ask (.log _) => false
  | _ => true

theorem calm_rule {op : ClientCall mcpHost} (calm : isCalm op = true) : mcpRule S past op := by
  cases op with
  | request frame =>
    cases frame with
    | pull room since limit wait ack =>
      intro none
      subst none
      cases calm
    | _ => trivial
  | ask question =>
    cases question with
    | reply | log => cases calm
    | _ => trivial
  | _ => trivial

theorem calm_brings {op : ClientCall mcpHost} (calm : isCalm op = true) (r : op.Res) :
    ¬ Brought room messages cursor ⟨op, r⟩ := by
  rintro ⟨limit, wait, ack, room', -, same⟩
  cases same
  cases calm

theorem calm_answering {op : ClientCall mcpHost} (calm : isCalm op = true) (r : op.Res) :
    answering (⟨op, r⟩ :: past) = answering past := by
  cases op with
  | ask question =>
    cases question with
    | reply | log | next | sessionKey => cases calm
    | _ => rfl
  | _ => rfl

end Turns

/-! ## What a server keeps -/

/-- The pending acks are cursors of what was read. -/
def Held (a : MeshAgent) (past : McpTurns) : Prop :=
  ∀ room, Acknowledges room (HasRead room) past (a.pending room)

/-- What was read is taken. -/
def AllTaken (past : McpTurns) : Prop := ∀ room m, HasRead room past m → Taken room past m

/-- What was brought, but nothing, belongs to a call that has returned. -/
def Returned (past : McpTurns) : Prop :=
  ∀ later d earlier room messages cursor, past = later ++ d :: earlier → (∀ e ∈ later, finished e = none) →
    Brought room messages cursor d → messages = []

/-- What was brought for the call that is being answered is as `R` says. -/
def Batches (call : McpCall) (R : String → List StoredMessage → Int → McpTurns → Prop) (past : McpTurns) :
    Prop :=
  answering past = some call ∧ ∀ later d earlier room messages cursor, past = later ++ d :: earlier →
    (∀ e ∈ later, finished e = none) → Brought room messages cursor d → messages ≠ [] →
      answering earlier = some call ∧ R room messages cursor later

/-- Nothing was brought. -/
def nothing : String → List StoredMessage → Int → McpTurns → Prop := fun _ _ _ _ => False

/-- One batch was brought. -/
def only (room : String) (messages : List StoredMessage) (cursor : Int) :
    String → List StoredMessage → Int → McpTurns → Prop :=
  fun room' messages' cursor' _ => room' = room ∧ messages' = messages ∧ cursor' = cursor

/-- Its commit has failed. -/
def uncommitted : String → List StoredMessage → Int → McpTurns → Prop :=
  fun room _ cursor later => FailedCommit room cursor later

/-- While a call is answered. -/
structure Busy (a : MeshAgent) (call : McpCall)
    (R : String → List StoredMessage → Int → McpTurns → Prop) (past : McpTurns) : Prop where
  held : Held a past
  taken : call.commits = true → AllTaken past
  batches : Batches call R past

/-- When it is answered. -/
structure Answered (S : McpServer) (call : McpCall) (answered : MeshAgent × ToolResult)
    (past : McpTurns) : Prop where
  held : Held answered.1 past
  accounts : Accounts S call past answered.2

section Keeps

variable {S : McpServer} {a : MeshAgent} {room : String} {past : McpTurns} {d : ClientDone mcpHost}
  {call : McpCall} {R R' : String → List StoredMessage → Int → McpTurns → Prop}
  {messages : List StoredMessage} {cursor : Int}

theorem Held.cons (held : Held a past) (d : ClientDone mcpHost) : Held a (d :: past) :=
  fun room => (held room).cons (fun d _ _ read => read.cons d) d

theorem Held.agent {b : MeshAgent} (held : Held a past) (same : ∀ room, b.pending room = a.pending room) :
    Held b past := by
  intro room
  rw [same room]
  exact held room

/-- A pull by the cursor of what is taken is allowed. -/
theorem Held.pulls (held : Held a past) (taken : AllTaken past) (room : String) (cursor : Int)
    (own : cursor = 0 ∨ cursor = a.pending room) : Acknowledges room (Taken room) past cursor := by
  rcases own with zero | rfl
  · exact Or.inl zero
  · rcases held room with zero | ⟨limit, wait, ack, room', messages, member, read⟩
    · exact Or.inl zero
    · exact Or.inr ⟨limit, wait, ack, room', messages, member,
        fun short m listed => taken room m (read short m listed)⟩

theorem AllTaken.cons (taken : AllTaken past)
    (brings : ∀ room messages cursor, Brought room messages cursor d → messages = []) :
    AllTaken (d :: past) := by
  rintro room m ⟨d', member, messages, cursor, brought, listed⟩
  rcases List.mem_cons.mp member with rfl | old
  · rw [brings room messages cursor brought] at listed
    cases listed
  · exact (taken room m ⟨d', old, messages, cursor, brought, listed⟩).cons d

theorem Returned.cons (returned : Returned past)
    (brings : ∀ room messages cursor, Brought room messages cursor d → messages = []) :
    Returned (d :: past) := by
  intro later d' earlier room messages cursor parts silent brought
  cases later with
  | nil =>
    cases parts
    exact brings room messages cursor brought
  | cons e later =>
    cases parts
    exact returned later d' earlier room messages cursor rfl
      (fun e member => silent e (List.mem_cons_of_mem _ member)) brought

/-- One more turn of a call. -/
theorem Batches.cons (batches : Batches call R past) (same : answering (d :: past) = answering past)
    (old : ∀ room messages cursor later, R room messages cursor later → R' room messages cursor (d :: later))
    (new : ∀ room messages cursor, Brought room messages cursor d → messages ≠ [] →
      R' room messages cursor []) : Batches call R' (d :: past) := by
  obtain ⟨now, before⟩ := batches
  refine ⟨same.trans now, ?_⟩
  intro later d' earlier room messages cursor parts silent brought some
  cases later with
  | nil =>
    cases parts
    exact ⟨now, new room messages cursor brought some⟩
  | cons e later =>
    cases parts
    obtain ⟨own, held⟩ := before later d' earlier room messages cursor rfl
      (fun e member => silent e (List.mem_cons_of_mem _ member)) brought some
    exact ⟨own, old room messages cursor later held⟩

/-- What stays when more turns are made. -/
def Stays (R : String → List StoredMessage → Int → McpTurns → Prop) : Prop :=
  ∀ room messages cursor d later, R room messages cursor later → R room messages cursor (d :: later)

theorem stays_nothing : Stays nothing := fun _ _ _ _ _ impossible => impossible

theorem stays_only : Stays (only room messages cursor) := fun _ _ _ _ _ same => same

theorem Busy.calm (busy : Busy a call R past) (stays : Stays R) (op : ClientCall mcpHost)
    (calm : isCalm op = true) (r : op.Res) : Busy a call R (⟨op, r⟩ :: past) where
  held := busy.held.cons _
  taken commits := (busy.taken commits).cons
    (fun _ _ _ brought => absurd brought (calm_brings calm r))
  batches := busy.batches.cons (calm_answering calm r) (fun _ _ _ _ held => stays _ _ _ _ _ held)
    (fun _ _ _ brought _ => absurd brought (calm_brings calm r))

/-- An empty batch is none. -/
theorem Busy.empty (busy : Busy a call (only room [] cursor) past) : Busy a call nothing past := by
  refine ⟨busy.held, busy.taken, busy.batches.1, ?_⟩
  intro later d earlier room' messages cursor' parts silent brought some
  exact absurd (busy.batches.2 later d earlier room' messages cursor' parts silent brought some).2.2.1 some

/-- Nothing is also an empty batch. -/
theorem Busy.relax (busy : Busy a call nothing past) :
    Busy a call (only room messages cursor) past := by
  refine ⟨busy.held, busy.taken, busy.batches.1, ?_⟩
  intro later d earlier room' messages' cursor' parts silent brought some
  exact (busy.batches.2 later d earlier room' messages' cursor' parts silent brought some).2.elim

/-- A call that has read nothing may return anything. -/
theorem Busy.answer_nothing (busy : Busy a call nothing past) (result : ToolResult) :
    Answered S call (a, result) past := by
  refine ⟨busy.held, ?_⟩
  intro later d earlier room messages cursor parts silent brought some
  exact (busy.batches.2 later d earlier room messages cursor parts silent brought some).2.elim

theorem Busy.answer_uncommitted (busy : Busy a call uncommitted past) (commits : call.commits = true) :
    Answered S call (a, .failed) past := by
  refine ⟨busy.held, ?_⟩
  intro later d earlier room messages cursor parts silent brought some
  obtain ⟨own, failed⟩ := busy.batches.2 later d earlier room messages cursor parts silent brought some
  exact ⟨own, commits, failed⟩

theorem Busy.answer_only (busy : Busy a call (only room messages cursor) past) {result : ToolResult}
    (fine : result.isError = false) (shows : ∀ m ∈ messages, Shows S call messages result m) :
    Answered S call (a, result) past := by
  refine ⟨busy.held, ?_⟩
  intro later d earlier room' messages' cursor' parts silent brought some
  obtain ⟨own, -, rfl, -⟩ := busy.batches.2 later d earlier room' messages' cursor' parts silent brought some
  refine ⟨own, ?_⟩
  rw [fine]
  exact shows

end Keeps

/-! ## What the tools do -/

section Tools

variable {S : McpServer} {a : MeshAgent} {room : String} {past : McpTurns} {call : McpCall}
  {R : String → List StoredMessage → Int → McpTurns → Prop} {limit : Option Nat}

abbrev Calm {α : Type} (p : McpClient α) : Prop := p.Calls (fun op => isCalm op = true)

theorem Calm.upholds {α : Type} {p : McpClient α} (calm : Calm p) {J : McpTurns → Prop}
    (keeps : ∀ (op : ClientCall mcpHost) (r : op.Res) past, isCalm op = true → J past → J (⟨op, r⟩ :: past))
    (now : J past) : p.Upholds (mcpRule S) (fun _ past => J past) past := by
  refine Prog.Calls.upholds (J := J) ?_ ?_ (fun _ _ now => now) calm now
  · exact fun _ _ calm _ => calm_rule calm
  · exact fun op r past calm now => keeps op r past calm now

/-- A calm program while a call is answered. -/
theorem Busy.upholds {α : Type} {p : McpClient α} (busy : Busy a call R past) (stays : Stays R)
    (calm : Calm p) : p.Upholds (mcpRule S) (fun _ past => Busy a call R past) past :=
  calm.upholds (fun op r _ calm busy => busy.calm stays op calm r) busy

theorem send_calm (target : Target) (parts : List Part) (mentions : Option (List String))
    (replyTo : Option String) : Calm (Connector.send (H := mcpHost) target parts mentions replyTo) := by
  refine ⟨rfl, ?_⟩
  intro drawn
  cases drawn with
  | none => trivial
  | some s =>
    refine ⟨rfl, ?_⟩
    intro reply
    dsimp only
    split <;> trivial

theorem discover_calm (query : Option String) (limit : Nat) : Calm (discover query limit) := by
  refine ⟨rfl, ?_⟩
  intro reply
  dsimp only
  split <;> trivial

theorem resolveTarget_calm (target : Target) : Calm (resolveTarget S target) := by
  cases target with
  | room room => trivial
  | service service => trivial
  | dm agent =>
    unfold resolveTarget
    dsimp only
    split
    · trivial
    refine (discover_calm _ _).bind ?_
    intro found
    cases found with
    | none => trivial
    | some found =>
      have second : Calm (if found.any (fun e : DirectoryEntry => eqIgnoreAsciiCase e.card.name agent) then
          .ret (some found) else discover none 500) := by
        split
        · trivial
        · exact discover_calm _ _
      refine second.bind ?_
      intro found
      split <;> trivial

theorem redeem_calm (code : String) : Calm (redeem code) := by
  refine ⟨rfl, ?_⟩
  intro reply
  dsimp only
  split <;> trivial

theorem waitForApproval_calm (code : String) (polls : Nat) : Calm (waitForApproval code polls) := by
  induction polls with
  | zero => trivial
  | succ polls ih =>
    refine ⟨rfl, ?_⟩
    intro again
    dsimp only
    split
    · refine (redeem_calm code).bind ?_
      intro outcome
      rcases outcome with _ | _ | _
      · trivial
      · trivial
      · exact ih
    · trivial

/-! ### Pulls and commits -/

/-- What a pull leaves. -/
def Pulled (call : McpCall) (room : String) (pulled : MeshAgent × Option (List StoredMessage))
    (past : McpTurns) : Prop :=
  match pulled.2 with
  | none => Busy pulled.1 call nothing past
  | some messages => Busy pulled.1 call (only room messages (pulled.1.pending room)) past

theorem cursorPull_upholds (taken : AllTaken past) (busy : Busy a call nothing past)
    (wait : Option Nat) :
    (Prog.call (ClientCall.request (.pull room none limit wait (a.ackFor room))) fun reply =>
      .ret (a.pulled room reply) : McpClient _).Upholds (mcpRule S) (Pulled call room) past := by
  constructor
  · intro _
    refine ⟨_, rfl, busy.held.pulls taken room _ ?_⟩
    split
    · exact Or.inl rfl
    · exact Or.inr rfl
  intro reply
  have same : answering (⟨ClientCall.request (.pull room none limit wait (a.ackFor room)), reply⟩ :: past) =
      answering past := rfl
  rcases a.pulled_cases room reply with ⟨room', messages, cursor, rfl, equal⟩ | equal
  · show Pulled call room (a.pulled room _) _
    rw [equal]
    have pending : (a.recordAck room cursor).pending room = cursor := by simp
    show Busy (a.recordAck room cursor) call (only room messages ((a.recordAck room cursor).pending room)) _
    rw [pending]
    refine ⟨?_, ?_, ?_⟩
    · intro other
      rw [MeshAgent.pending_recordAck]
      split
      · rename_i own
        subst own
        exact Or.inr ⟨limit, wait, _, room', messages, List.mem_cons_self, fun short m listed =>
          ⟨_, List.mem_cons_self, messages, cursor, ⟨limit, wait, _, room', short, rfl⟩, listed⟩⟩
      · exact (busy.held other).cons (fun d _ _ read => read.cons d) _
    · rintro commits other m ⟨d, member, messages', cursor', brought, listed⟩
      rcases List.mem_cons.mp member with rfl | old
      · exact ⟨[], _, past, messages', cursor', rfl, brought, listed,
          Or.inl ⟨call, busy.batches.1, commits⟩⟩
      · exact (busy.taken commits other m ⟨d, old, messages', cursor', brought, listed⟩).cons _
    · refine busy.batches.cons same (fun _ _ _ _ impossible => impossible.elim) ?_
      rintro _ _ _ ⟨limit', wait', ack', room'', -, is⟩ -
      cases is
      exact ⟨rfl, rfl, rfl⟩
  · show Pulled call room (a.pulled room reply) _
    have lost : ∀ room'' messages cursor, ¬ Brought room'' messages cursor
        ⟨ClientCall.request (.pull room none limit wait (a.ackFor room)), reply⟩ := by
      rintro room'' messages cursor ⟨limit', wait', ack', room', -, is⟩
      cases is
      cases congrArg Prod.snd equal
    rw [equal]
    refine ⟨busy.held.cons _, fun commits => (busy.taken commits).cons
      (fun _ _ _ brought => absurd brought (lost _ _ _)), ?_⟩
    exact busy.batches.cons same (fun _ _ _ _ impossible => impossible)
      (fun _ _ _ brought _ => absurd brought (lost _ _ _))

theorem MeshAgent.pending_commit (a : MeshAgent) (room other : String) :
    (a.recordCommit room (a.pending room)).pending other = a.pending other := by
  by_cases same : other = room
  · subst same
    exact a.pending_committed other
  · rcases a.pending_recordCommit room other (a.pending room) with kept | ⟨impossible, -⟩
    · exact kept
    · exact absurd impossible same

/-- Nothing comes back with a commit. -/
theorem commit_brings {cursor : Int} (reply : Option ServerFrame) (room' : String)
    (messages : List StoredMessage) (cursor' : Int)
    (brought : Brought room' messages cursor'
      ⟨ClientCall.request (.pull room none (some 0) none (some cursor)), reply⟩) : messages = [] := by
  obtain ⟨limit, wait, ack, room'', short, same⟩ := brought
  cases same
  exact List.length_eq_zero_iff.mp (by simpa [Store.pullLimit] using short)

/-- A commit keeps the pending acks. -/
theorem commit_upholds {Q : Option Unit → McpTurns → Prop} (held : Held a past) (taken : AllTaken past)
    (skips : Q (some ()) past)
    (done : ∀ room' messages cursor, Q (some ())
      (⟨ClientCall.request (.pull room none (some 0) none (some (a.pending room))),
        some (.pulled room' messages cursor)⟩ :: past))
    (lost : ∀ reply : Option ServerFrame,
      (∀ room' messages cursor, reply ≠ some (.pulled room' messages cursor)) → Q none
        (⟨ClientCall.request (.pull room none (some 0) none (some (a.pending room))), reply⟩ :: past)) :
    (a.commitReads room : McpClient _).Upholds (mcpRule S) (fun committed past =>
      (∀ other, committed.1.pending other = a.pending other) ∧ Q committed.2 past) past := by
  unfold MeshAgent.commitReads
  dsimp only
  split
  · exact ⟨fun other => rfl, skips⟩
  constructor
  · intro _
    exact ⟨_, rfl, held.pulls taken room _ (Or.inr rfl)⟩
  intro reply
  dsimp only
  split
  · exact ⟨MeshAgent.pending_commit a room, done _ _ _⟩
  · rename_i other
    exact ⟨fun _ => rfl, lost reply other⟩

/-- What a commit of the batch leaves. -/
def Committed (call : McpCall) (room : String) (messages : List StoredMessage)
    (committed : MeshAgent × Option Unit) (past : McpTurns) : Prop :=
  match committed.2 with
  | none => Busy committed.1 call uncommitted past
  | some _ => Busy committed.1 call (only room messages (committed.1.pending room)) past

theorem commitBatch_upholds {messages : List StoredMessage} (commits : call.commits = true)
    (busy : Busy a call (only room messages (a.pending room)) past) :
    (a.commitReads room : McpClient _).Upholds (mcpRule S) (Committed call room messages) past := by
  have taken := busy.taken commits
  refine (commit_upholds (Q := fun result past => AllTaken past ∧ Held a past ∧
    Batches call (match result with | none => uncommitted | some _ => only room messages (a.pending room))
      past) busy.held taken ⟨taken, busy.held, busy.batches⟩ ?_ ?_).mono (fun _ _ rule => rule) ?_
  · intro room' messages' cursor
    refine ⟨taken.cons (commit_brings _), busy.held.cons _, ?_⟩
    exact busy.batches.cons rfl (fun _ _ _ _ held => held)
      (fun room messages cursor brought some => absurd (commit_brings _ room messages cursor brought) some)
  · intro reply lost
    refine ⟨taken.cons (commit_brings _), busy.held.cons _, ?_⟩
    apply busy.batches.cons rfl
    · rintro _ _ _ later ⟨rfl, -, rfl⟩
      exact ⟨reply, List.mem_cons_self, lost⟩
    · exact fun room messages cursor brought some =>
        absurd (commit_brings _ room messages cursor brought) some
  · rintro ⟨agent, result⟩ past ⟨same, taken, held, batches⟩
    cases result with
    | none => exact ⟨held.agent same, fun _ => taken, batches⟩
    | some _ =>
      refine ⟨held.agent same, fun _ => taken, ?_⟩
      rw [same room]
      exact batches

/-! ### The tools -/

theorem notice_calm (room : String) : Calm (pendingJoinNotice room) := ⟨rfl, fun _ => trivial⟩

theorem cursorWait_upholds (commits : call.commits = true) (busy : Busy a call nothing past) (waits : Nat) :
    (a.pullWait (Prog.perform (M := clientMachine mcpHost) (ClientCall.ask .budget)) room limit
      waits).Upholds (mcpRule S) (Pulled call room) past := by
  induction waits generalizing a past with
  | zero => exact cursorPull_upholds (busy.taken commits) busy none
  | succ waits ih =>
    refine Prog.Upholds.bind (cursorPull_upholds (busy.taken commits) busy none) ?_
    rintro ⟨a, pulled⟩ past after
    rcases pulled with _ | _ | _
    · exact after
    · have busy : Busy a call nothing past := Busy.empty after
      refine ⟨trivial, ?_⟩
      intro chunk
      have busy := busy.calm stays_nothing (.ask .budget) rfl chunk
      cases chunk with
      | none => exact busy.relax
      | some chunk =>
        refine Prog.Upholds.bind (p := a.pullParked room limit chunk)
          (cursorPull_upholds (busy.taken commits) busy (some chunk)) ?_
        rintro ⟨a, pulled⟩ past after
        rcases pulled with _ | _ | _
        · exact after
        · exact ih (Busy.empty after)
        · exact after
    · exact after

theorem pullOrWait_upholds (commits : call.commits = true) (busy : Busy a call nothing past)
    (waits : Nat) (waitSecs : Option Nat) :
    (pullOrWait waits a room limit waitSecs).Upholds (mcpRule S) (Pulled call room) past := by
  refine Prog.Upholds.bind (cursorPull_upholds (busy.taken commits) busy none) ?_
  rintro ⟨a, pulled⟩ past after
  dsimp only
  split
  · rename_i waiting
    have empty : pulled = some [] := waiting.1
    subst empty
    refine ⟨trivial, ?_⟩
    intro reply
    exact cursorWait_upholds commits ((Busy.empty after).calm stays_nothing (.request .subscribe) rfl reply) waits
  · exact after

theorem recvNew_upholds (commits : call.commits = true) (busy : Busy a call nothing past) (waits : Nat)
    (waitSecs : Option Nat) :
    (recvNew waits a room limit waitSecs).Upholds (mcpRule S) (Answered S call) past := by
  refine (pullOrWait_upholds commits busy waits waitSecs).bind ?_
  rintro ⟨a, pulled⟩ past after
  cases pulled with
  | none => exact Busy.answer_nothing after _
  | some messages =>
    have committing : (if messages.isEmpty then .ret (a, some ()) else a.commitReads room :
        McpClient _).Upholds (mcpRule S) (Committed call room messages) past := by
      split
      · exact after
      · exact commitBatch_upholds commits after
    refine committing.bind ?_
    rintro ⟨a, committed⟩ past after
    cases committed with
    | none => exact Busy.answer_uncommitted after commits
    | some _ =>
      refine (Busy.upholds after stays_only (notice_calm room)).bind ?_
      intro _ past busy
      exact busy.answer_only rfl (fun m listed => Or.inl listed)

theorem recvTool_upholds {given active : Option String} {since : Option Int} {waitSecs : Option Nat}
    (own : call = .recv given since limit waitSecs) (busy : Busy a call nothing past) (waits : Nat) :
    (recvTool S waits a given active since limit waitSecs).Upholds (mcpRule S) (Answered S call) past := by
  unfold recvTool
  split
  · exact busy.answer_nothing _
  · rename_i room since found
    refine ⟨nofun, ?_⟩
    intro reply
    have busy := busy.calm stays_nothing (.request (.pull room (some since)
      (recvLimit limit S.verbose) none none)) rfl reply
    dsimp only
    split
    · refine (busy.upholds stays_nothing (notice_calm room)).bind ?_
      exact fun _ _ busy => busy.answer_nothing _
    · exact busy.answer_nothing _
  · have commits : call.commits = true := by
      rw [own]
      rfl
    exact recvNew_upholds commits busy waits waitSecs

/-- What a send does not render of a batch is the agent's own. -/
theorem shows_incoming (isSend : call.isSend = true) {messages : List StoredMessage} {m : StoredMessage}
    (listed : m ∈ messages) :
    Shows S call messages ⟨false, messages.filter (fun m => m.sender.id ≠ S.me.id), []⟩ m := by
  by_cases own : m.sender.id = S.me.id
  · exact Or.inr (Or.inr (Or.inl ⟨isSend, own⟩))
  · exact Or.inl (List.mem_filter.mpr ⟨listed, by simpa using own⟩)

theorem sendTo_upholds (isSend : call.isSend = true) (taken : AllTaken past)
    (busy : Busy a call nothing past) (target : Target) (parts : List Part) :
    (sendTo S a target parts).Upholds (mcpRule S) (Answered S call) past := by
  have keeps : ∀ (op : ClientCall mcpHost) (r : op.Res) past, isCalm op = true →
      AllTaken past ∧ Busy a call nothing past →
        AllTaken (⟨op, r⟩ :: past) ∧ Busy a call nothing (⟨op, r⟩ :: past) := by
    rintro op r past calm ⟨taken, busy⟩
    refine ⟨taken.cons ?_, busy.calm stays_nothing op calm r⟩
    exact fun _ _ _ brought => absurd brought (calm_brings calm r)
  refine ((resolveTarget_calm target).upholds keeps ⟨taken, busy⟩).bind ?_
  rintro target past now
  cases target with
  | none => exact now.2.answer_nothing _
  | some target =>
    refine ((send_calm _ _ _ _).upholds keeps now).bind ?_
    rintro sent past ⟨taken, busy⟩
    cases sent with
    | none => exact busy.answer_nothing _
    | some sent =>
      obtain ⟨id, seq, room⟩ := sent
      refine Prog.Upholds.bind (cursorPull_upholds taken busy none) ?_
      rintro ⟨a, pulled⟩ past after
      cases pulled with
      | none =>
        refine (Busy.upholds after stays_nothing (notice_calm room)).bind ?_
        exact fun _ _ busy => busy.answer_nothing _
      | some messages =>
        refine (Busy.upholds after stays_only (notice_calm room)).bind ?_
        intro _ past busy
        exact busy.answer_only rfl (fun m listed => shows_incoming isSend listed)

theorem sendTool_upholds (isSend : call.isSend = true) (taken : AllTaken past)
    (busy : Busy a call nothing past) (args : SendArgs) (active : Option String) :
    (sendTool S a args active).Upholds (mcpRule S) (Answered S call) past := by
  unfold sendTool
  split
  · exact sendTo_upholds isSend taken busy _ _
  · exact busy.answer_nothing _

/-- What a digest neither renders nor counts stands before the seed. -/
theorem digest_shows (F : FloatFormat) (messages : List StoredMessage) (mode : Backlog) {m : StoredMessage}
    (listed : m ∈ messages) :
    m ∈ (digestBacklog F messages mode).rendered ∨ m ∈ (digestBacklog F messages mode).omitted ∨
      BeforeSeed F messages m := by
  unfold digestBacklog
  split
  · exact Or.inl listed
  dsimp only
  rw [← List.take_append_drop (messages.length - joinTail) messages] at listed
  rcases List.mem_append.mp listed with early | late
  · cases found : messages.findIdx? (isSeed F) with
    | none => exact Or.inr (Or.inl (by simpa [found] using early))
    | some i =>
      by_cases first : i < messages.length - joinTail
      · have below : i < messages.length := by omega
        rw [Option.filter_some, if_pos (by simpa using first)]
        -- Before the seed, the seed itself, and what the line stands for.
        have front : (messages.take (messages.length - joinTail)).take (i + 1) =
            messages.take i ++ [messages[i]] := by
          rw [List.take_take, min_eq_left (by omega), List.take_succ_eq_append_getElem below]
        have parts : messages.take (messages.length - joinTail) =
            messages.take i ++ messages[i] :: (messages.take (messages.length - joinTail)).drop (i + 1) :=
          calc messages.take (messages.length - joinTail)
              = (messages.take (messages.length - joinTail)).take (i + 1) ++
                  (messages.take (messages.length - joinTail)).drop (i + 1) :=
                (List.take_append_drop _ _).symm
            _ = messages.take i ++ messages[i] ::
                  (messages.take (messages.length - joinTail)).drop (i + 1) := by
                rw [front, List.append_assoc]
                rfl
        rw [parts] at early
        rcases List.mem_append.mp early with before | after
        · exact Or.inr (Or.inr ⟨i, found, before⟩)
        · rcases List.mem_cons.mp after with rfl | between
          · exact Or.inl (List.mem_append_left _ (by simp))
          · exact Or.inr (Or.inl between)
      · rw [Option.filter_some, if_neg (by simpa using first)]
        exact Or.inr (Or.inl (by simpa using early))
  · exact Or.inl (List.mem_append_right _ late)

theorem digest_fine (F : FloatFormat) (messages : List StoredMessage) (mode : Backlog) :
    (digestBacklog F messages mode).isError = false := by
  unfold digestBacklog
  split <;> rfl

theorem enterSession_upholds (joins : call.isJoin = true) (commits : call.commits = true)
    (busy : Busy a call nothing past) (mode : Backlog) :
    (enterSession S a room mode).Upholds (mcpRule S) (Answered S call) past := by
  refine Prog.Upholds.bind (cursorPull_upholds (busy.taken commits) busy none) ?_
  rintro ⟨a, pulled⟩ past after
  cases pulled with
  | none => exact Busy.answer_nothing after _
  | some messages =>
    refine (commitBatch_upholds commits after).bind ?_
    rintro ⟨a, committed⟩ past after
    cases committed with
    | none => exact Busy.answer_uncommitted after commits
    | some _ =>
      refine (Busy.upholds after stays_only (send_calm _ _ _ _)).bind ?_
      intro sent past busy
      refine ⟨trivial, ?_⟩
      intro recalled
      refine ⟨trivial, ?_⟩
      intro roster
      have busy := busy.calm stays_only (.request
        (.«recall» "SESSION DIGEST" (some room) (some 1) none (some "session-digest"))) rfl recalled
      have busy := busy.calm stays_only (.request (.roster room)) rfl roster
      apply busy.answer_only (digest_fine _ _ _)
      intro m listed
      rcases digest_shows S.floats messages mode listed with rendered | omitted | before
      · exact Or.inl rendered
      · exact Or.inr (Or.inl omitted)
      · exact Or.inr (Or.inr (Or.inr ⟨joins, before⟩))

theorem joinTool_upholds (joins : call.isJoin = true) (commits : call.commits = true)
    (busy : Busy a call nothing past) (waits : Nat) (code : Option String) (always : Bool) (mode : Backlog) :
    (joinTool S waits a code always mode).Upholds (mcpRule S) (Answered S call) past := by
  cases code with
  | none => exact busy.answer_nothing _
  | some code =>
    refine (busy.upholds stays_nothing (redeem_calm code)).bind ?_
    intro outcome past busy
    rcases outcome with _ | ⟨room, kind⟩ | _
    · exact busy.answer_nothing _
    · dsimp only
      split
      · exact enterSession_upholds joins commits busy mode
      · exact busy.answer_nothing _
    · refine (busy.upholds stays_nothing (waitForApproval_calm code waits)).bind ?_
      intro granted past busy
      rcases granted with _ | _ | room
      · exact busy.answer_nothing _
      · exact busy.answer_nothing _
      · exact enterSession_upholds joins commits busy mode

theorem sendAll_upholds (busy : Busy a call nothing past) (frames : List ClientFrame) :
    (sendAll a frames).Upholds (mcpRule S) (Answered S call) past := by
  induction frames generalizing past with
  | nil => exact busy.answer_nothing _
  | cons frame rest ih =>
    unfold sendAll
    split
    · exact busy.answer_nothing _
    · rename_i plain
      have calm : isCalm (.request frame) = true := by simpa [isCalm] using plain
      refine ⟨calm_rule calm, ?_⟩
      intro reply
      have busy := busy.calm stays_nothing (.request frame) calm reply
      cases reply with
      | none => exact busy.answer_nothing _
      | some _ => exact ih busy

/-! ### The loop -/

/-- Between two calls. -/
structure Between (a : MeshAgent) (past : McpTurns) : Prop where
  held : Held a past
  taken : AllTaken past
  returned : Returned past

theorem Between.calm (idle : Between a past) (op : ClientCall mcpHost) (calm : isCalm op = true) (r : op.Res) :
    Between a (⟨op, r⟩ :: past) where
  held := idle.held.cons _
  taken := idle.taken.cons (fun _ _ _ brought => absurd brought (calm_brings calm r))
  returned := idle.returned.cons (fun _ _ _ brought => absurd brought (calm_brings calm r))

/-- What the host says brings nothing. -/
theorem ask_brings {question : McpAsk} (r : mcpHost.Answer question) (room' : String)
    (messages : List StoredMessage) (cursor : Int)
    (brought : Brought room' messages cursor ⟨ClientCall.ask question, r⟩) : messages = [] := by
  obtain ⟨limit, wait, ack, room'', -, same⟩ := brought
  cases same

/-- A call begins. -/
theorem Between.begins (idle : Between a past) (question : McpAsk) (r : mcpHost.Answer question)
    (call : McpCall) (begun : answering (⟨ClientCall.ask question, r⟩ :: past) = some call) :
    AllTaken (⟨ClientCall.ask question, r⟩ :: past) ∧
      Busy a call nothing (⟨ClientCall.ask question, r⟩ :: past) := by
  have taken : AllTaken (⟨ClientCall.ask question, r⟩ :: past) := idle.taken.cons (ask_brings r)
  have returned : Returned (⟨ClientCall.ask question, r⟩ :: past) := idle.returned.cons (ask_brings r)
  refine ⟨taken, idle.held.cons _, fun _ => taken, begun, ?_⟩
  intro later d earlier room messages cursor parts silent brought some
  exact absurd (returned later d earlier room messages cursor parts silent brought) some

/-- It returns. -/
theorem Answered.returns {answered : MeshAgent × ToolResult} (done : Answered S call answered past)
    (question : McpAsk) (r : mcpHost.Answer question) (ends : finished ⟨ClientCall.ask question, r⟩ ≠ none) :
    Between answered.1 (⟨ClientCall.ask question, r⟩ :: past) := by
  refine ⟨done.held.cons _, ?_, ?_⟩
  · rintro room m ⟨d, member, messages, cursor, brought, listed⟩
    rcases List.mem_cons.mp member with rfl | old
    · rw [ask_brings _ _ _ _ brought] at listed
      cases listed
    · obtain ⟨later, earlier, rfl⟩ := List.append_of_mem old
      exact ⟨_ :: later, d, earlier, messages, cursor, rfl, brought, listed,
        Or.inr ⟨_, List.mem_cons_self, ends⟩⟩
  · intro later d earlier room messages cursor parts silent brought
    cases later with
    | nil =>
      cases parts
      exact ask_brings _ _ _ _ brought
    | cons e later =>
      cases parts
      exact absurd (silent _ List.mem_cons_self) ends

theorem flushAcks_upholds (held : Held a past) (taken : AllTaken past) (rooms : List String) :
    (flushAcks rooms a).Upholds (mcpRule S) (fun _ _ => True) past := by
  induction rooms generalizing a past with
  | nil => trivial
  | cons room rest ih =>
    refine (commit_upholds (Q := fun _ past => Held a past ∧ AllTaken past) held taken ⟨held, taken⟩
      ?_ ?_).bind ?_
    · exact fun _ _ _ => ⟨held.cons _, taken.cons (commit_brings _)⟩
    · exact fun _ _ => ⟨held.cons _, taken.cons (commit_brings _)⟩
    · rintro ⟨b, result⟩ past ⟨same, held, taken⟩
      exact ih (held.agent same) taken

theorem answerCall_upholds (taken : AllTaken past) (busy : Busy a call nothing past) (waits : Nat)
    (active : Option String) :
    (answerCall S waits a active call).Upholds (mcpRule S) (Answered S call) past := by
  cases call with
  | recv room since limit waitSecs => exact recvTool_upholds rfl busy waits
  | send args => exact sendTool_upholds rfl taken busy args active
  | joinSession code backlog => exact joinTool_upholds rfl rfl busy waits code true _
  | join code => exact joinTool_upholds rfl rfl busy waits code false _
  | other frames => exact sendAll_upholds busy frames

theorem serveCalls_upholds (idle : Between a past) (waits rounds : Nat) :
    (serveCalls S waits rounds a).Upholds (mcpRule S) (fun _ _ => True) past := by
  induction rounds generalizing a past with
  | zero => trivial
  | succ rounds ih =>
    refine ⟨trivial, ?_⟩
    intro input
    cases input with
    | closed => exact flushAcks_upholds (idle.held.cons _) (idle.taken.cons (ask_brings _)) _
    | tick status activity =>
      have idle : Between a (⟨ClientCall.ask .next, McpInput.tick status activity⟩ :: past) :=
        ⟨idle.held.cons _, idle.taken.cons (ask_brings _), idle.returned.cons (ask_brings _)⟩
      refine ⟨trivial, ?_⟩
      intro pong
      refine ⟨trivial, ?_⟩
      intro shown
      exact ih ((idle.calm (.request .ping) rfl pong).calm (.request (.presence status activity none)) rfl
        shown)
    | line call active =>
      obtain ⟨taken, busy⟩ := idle.begins .next (McpInput.line call active) call rfl
      refine (answerCall_upholds taken busy waits active).bind ?_
      rintro answered past done
      refine ⟨⟨call, done.accounts⟩, ?_⟩
      intro returned
      exact ih (done.returns (.reply answered.2) returned nofun)

theorem serveStdio_upholds (idle : Between a past) (waits rounds : Nat) :
    (serveStdio S waits rounds a).Upholds (mcpRule S) (fun _ _ => True) past := by
  refine ⟨trivial, ?_⟩
  intro key
  rcases key with _ | code
  · apply serveCalls_upholds
    exact ⟨idle.held.cons _, idle.taken.cons (ask_brings _), idle.returned.cons (ask_brings _)⟩
  · obtain ⟨-, busy⟩ := idle.begins .sessionKey (some code) (.joinSession code none) rfl
    refine (joinTool_upholds rfl rfl busy waits code true .recent).bind ?_
    rintro joined past done
    refine ⟨⟨code, done.accounts⟩, ?_⟩
    intro logged
    exact serveCalls_upholds (done.returns (.log joined.2) logged nofun) waits rounds

/-- A server follows the rule. -/
theorem serveStdio_follows (S : McpServer) (waits rounds : Nat) :
    (serveStdio S waits rounds .fresh).Follows (mcpRule S) [] := by
  apply Prog.Upholds.follows (I := fun _ _ => True)
  apply serveStdio_upholds
  refine ⟨fun room => Or.inl rfl, ?_, ?_⟩
  · rintro room m ⟨d, member, -⟩
    cases member
  · intro later d earlier room messages cursor parts
    simp at parts

end Tools

/-! ## At the hub -/

/-- Servers of one agent, one after the other or beside each other, each started for a number of waits
    and of calls. -/
def McpServer.setup {cfg : HubConfig} (S : McpServer) (cardBytes : AgentCard → List UInt8)
    (verify : String → List UInt8 → String → Bool) : Setup cfg mcpHost Unit (Nat × Nat) where
  cardBytes := cardBytes
  floats := S.floats
  verify := verify
  me := S.me
  boot k := serveStdio S k.1 k.2 .fresh

abbrev McpSite (cfg : HubConfig) := Site cfg mcpHost Unit

/-- What became of a message that a server has read by the cursor of the room: the call returned it,
    counted it, or passed over what it may pass over; the call returned the error of the commit; the join
    at the start did so on standard error; or the call, which commits what it reads, has not returned. -/
inductive Accounted (S : McpServer) (room : String) (past : McpTurns) (m : StoredMessage) : Prop where
  | returned (newer older : McpTurns) (result : ToolResult) (d : ClientDone mcpHost) (earlier : McpTurns)
      (messages : List StoredMessage) (cursor : Int) (call : McpCall)
      (parts : past = newer ++ ⟨ClientCall.ask (.reply result), ()⟩ :: (older ++ d :: earlier))
      (own : ∀ e ∈ older, finished e = none) (brought : Brought room messages cursor d)
      (listed : m ∈ messages) (during : answering earlier = some call)
      (outcome : if result.isError then call.commits = true ∧ FailedCommit room cursor older
        else Shows S call messages result m)
  | logged (newer older : McpTurns) (result : ToolResult) (d : ClientDone mcpHost) (earlier : McpTurns)
      (messages : List StoredMessage) (cursor : Int) (code : Option String)
      (parts : past = newer ++ ⟨ClientCall.ask (.log result), ()⟩ :: (older ++ d :: earlier))
      (own : ∀ e ∈ older, finished e = none) (brought : Brought room messages cursor d)
      (listed : m ∈ messages) (during : answering earlier = some (.joinSession code none))
      (outcome : if result.isError then FailedCommit room cursor older
        else Shows S (.joinSession code none) messages result m)
  | open (later : McpTurns) (d : ClientDone mcpHost) (earlier : McpTurns) (messages : List StoredMessage)
      (cursor : Int) (call : McpCall) (parts : past = later ++ d :: earlier)
      (own : ∀ e ∈ later, finished e = none) (brought : Brought room messages cursor d)
      (listed : m ∈ messages) (during : answering earlier = some call) (commits : call.commits = true)

section Runs

variable {cfg : HubConfig} {S : McpServer} {cardBytes : AgentCard → List UInt8}
  {verify : String → List UInt8 → String → Bool} {inflight : Nat} {w : McpSite cfg} {room : String}
  {G : McpSite cfg → SiteAction mcpHost (Nat × Nat) → Prop}

/-- Some server has taken the message. -/
def TakenBy (room : String) (log : List (Turn (clientMachine mcpHost))) (m : StoredMessage) : Prop :=
  ∃ n, Taken room (turnsOf log n) m

theorem TakenBy.cons {log : List (Turn (clientMachine mcpHost))} {m : StoredMessage}
    (taken : TakenBy room log m) (turn : Turn (clientMachine mcpHost)) : TakenBy room (turn :: log) m := by
  obtain ⟨n, taken⟩ := taken
  refine ⟨n, ?_⟩
  rw [turnsOf_cons]
  split
  · exact taken.cons _
  · exact taken

/-- What the hub has stored as cursor is a cursor of what was taken. -/
theorem cursor_taken (reach : Site.Reachable (S.setup cardBytes verify) G inflight w) :
    Connector.Tracked (TakenBy room) room S.me w := by
  refine Site.Reachable.invariant (tracked_init S.me inflight) ?_ reach
  rintro w x w' before tracked - change -
  refine Connector.Tracked.act tracked before (fun turn _ _ taken => taken.cons turn) ?_ change
  intro n p frame after alive pending
  have follows : p.prog.Follows (mcpRule S) (turnsOf w.log n) :=
    before.own (K := fun prog past => prog.Follows (mcpRule S) past) (fun k => serveStdio_follows S k.1 k.2)
      (fun _ _ _ r follows => follows.2 r) alive
  rw [pending] at follows
  cases frame with
  | pull pulled since limit wait ack =>
    cases since with
    | some seq => exact Or.inl rfl
    | none =>
      obtain ⟨a, rfl, may⟩ := follows.1 rfl
      refine Or.inr ⟨a, rfl, ?_⟩
      rintro rfl
      exact tracked.acknowledges before may (fun m taken => ⟨n, taken⟩)
  | _ => trivial

/-- The first turn that makes something of a call. -/
theorem exists_first_finished {later : McpTurns} (some : ∃ e ∈ later, finished e ≠ none) :
    ∃ newer older result, (∀ e ∈ older, finished e = none) ∧
      (later = newer ++ ⟨ClientCall.ask (.reply result), ()⟩ :: older ∨
        later = newer ++ ⟨ClientCall.ask (.log result), ()⟩ :: older) := by
  have reversed : ∃ e ∈ later.reverse, finished e ≠ none := by simpa using some
  obtain ⟨older, ⟨op, r⟩, newer, parts, reply, silent⟩ := exists_newest reversed
  have split : later = newer.reverse ++ ⟨op, r⟩ :: older.reverse := by
    rw [← List.reverse_reverse later, parts]
    simp
  have own : ∀ e ∈ older.reverse, finished e = none := by
    intro e member
    exact not_not.mp (silent e (List.mem_reverse.mp member))
  cases op with
  | ask question =>
    cases question with
    | reply result => exact ⟨newer.reverse, older.reverse, result, own, Or.inl split⟩
    | log result => exact ⟨newer.reverse, older.reverse, result, own, Or.inr split⟩
    | _ => exact absurd rfl reply
  | _ => exact absurd rfl reply

/-- What was taken is accounted for. -/
theorem Taken.accounted (reach : Site.Reachable (S.setup cardBytes verify) G inflight w) {n : Nat}
    {m : StoredMessage} (taken : Taken room (turnsOf w.log n) m) :
    Accounted S room (turnsOf w.log n) m := by
  obtain ⟨later, d, earlier, messages, cursor, parts, brought, listed, how⟩ := taken
  -- What a result says of the batch, if no result came in between.
  have told : ∀ {call older result}, Accounts S call (older ++ d :: earlier) result →
      (∀ e ∈ older, finished e = none) → answering earlier = some call ∧
        if result.isError then call.commits = true ∧ FailedCommit room cursor older
        else Shows S call messages result m := by
    intro call older result accounts own
    obtain ⟨during, outcome⟩ :=
      accounts older d earlier room messages cursor rfl own brought (List.ne_nil_of_mem listed)
    refine ⟨during, ?_⟩
    split
    · rename_i error
      rwa [if_pos error] at outcome
    · rename_i fine
      rw [if_neg fine] at outcome
      exact outcome m listed
  by_cases returned : ∃ e ∈ later, finished e ≠ none
  · obtain ⟨newer, older, result, own, rfl | rfl⟩ := exists_first_finished returned
    · rw [List.append_assoc, List.cons_append] at parts
      obtain ⟨call, accounts⟩ : ∃ call, Accounts S call (older ++ d :: earlier) result :=
        reach.followed (fun k => serveStdio_follows S k.1 k.2) parts
      obtain ⟨during, outcome⟩ := told accounts own
      exact .returned newer older result d earlier messages cursor call parts own brought listed during outcome
    · rw [List.append_assoc, List.cons_append] at parts
      obtain ⟨code, accounts⟩ : ∃ code, Accounts S (.joinSession code none) (older ++ d :: earlier) result :=
        reach.followed (fun k => serveStdio_follows S k.1 k.2) parts
      obtain ⟨during, outcome⟩ := told accounts own
      refine .logged newer older result d earlier messages cursor code parts own brought listed during ?_
      split
      · rename_i error
        rw [if_pos error] at outcome
        exact outcome.2
      · rename_i fine
        rwa [if_neg fine] at outcome
  · have silent : ∀ e ∈ later, finished e = none := by
      intro e member
      by_contra reply
      exact returned ⟨e, member, reply⟩
    rcases how with ⟨call, during, commits⟩ | some
    · exact .open later d earlier messages cursor call parts silent brought listed during commits
    · exact absurd some returned

end Runs

/-! ## Some runs -/

/-- The results that servers have returned. -/
def results (log : List (Turn (clientMachine mcpHost))) : List ToolResult :=
  log.filterMap (fun turn => replied turn.done)

/-- A result that is no error renders the message or counts it. -/
def Shown (log : List (Turn (clientMachine mcpHost))) (m : StoredMessage) : Prop :=
  ∃ result ∈ results log, result.isError = false ∧ (m ∈ result.rendered ∨ m ∈ result.omitted)

instance (log : List (Turn (clientMachine mcpHost))) (m : StoredMessage) : Decidable (Shown log m) :=
  inferInstanceAs (Decidable (∃ result ∈ results log, _))

/-- Bob's server. -/
def demoServer : McpServer := ⟨bitsFormat, bob, false, fun _ => true⟩

/-- The environment has a session key or none, and the host says what comes next; signing works. -/
def hostAnswers (key : Option (Option String)) (input : McpInput) : (op : ClientCall mcpHost) → op.Res
  | .request _ => none
  | .admitMessage _ => none
  | .complete _ => ()
  | .release _ => none
  | .sign .. => some ⟨"s", 0, "y", "c"⟩
  | .ask .next => input
  | .ask (.reply _) => ()
  | .ask .budget => none
  | .ask .poll => false
  | .ask .sessionKey => key
  | .ask (.log _) => ()

abbrev McpAction := SiteAction mcpHost (Nat × Nat)

/-- The host answers. -/
def told (input : McpInput) : McpAction := .answer 0 (hostAnswers none input)

/-- Alice has posted into the room, and Bob's server is started. -/
def demoServing (key : Option (Option String)) (actions : List McpAction) : McpSite demoConfig :=
  (Site.init (50 * 1024 * 1024)).play (demoServer.setup (fun _ => []) acceptS)
    (demoPosted [.text "hello"] ++ .start (1, 3) :: .answer 0 (hostAnswers key .closed) :: actions)

theorem demoServing_reachable (key : Option (Option String)) (actions : List McpAction) :
    Site.Reachable (demoServer.setup (fun _ => []) acceptS) (fun _ _ => True) (50 * 1024 * 1024)
      (demoServing key actions) := by
  refine Site.Reachable.play (fun _ _ => true) (fun _ _ _ _ => trivial) .init ?_
  generalize demoPosted [.text "hello"] ++ .start (1, 3) :: .answer 0 (hostAnswers key .closed) :: actions =
    all
  generalize (Site.init (50 * 1024 * 1024) : McpSite demoConfig) = start
  induction all generalizing start with
  | nil => rfl
  | cons x rest ih => exact ih _

/-- Bob sends into the room and reads on: the pull of the second call has the cursor pass his own
    message. -/
def sendsAndReads : List McpAction :=
  told (.line (.send ⟨some "hi", some "r", none, none, none⟩) none) :: told .closed ::
    demoExchange 0 3 ++ demoExchange 0 4 ++ demoExchange 0 5 ++
  told .closed :: told (.line (.recv (some "r") none none none) none) ::
    demoExchange 0 6 ++ demoExchange 0 7 ++ [told .closed]

/-- Bob reads, and the reply to the commit is lost. -/
def losesCommit : List McpAction :=
  told (.line (.recv (some "r") none none none) none) :: demoExchange 0 3 ++
    SiteAction.send 0 4 (demoFresh 4) 0 :: demoServed 4 ++ [SiteAction.fail 0, told .closed]

/-- Bob reads, and the server stops after the commit. -/
def stopsEarly : List McpAction :=
  told (.line (.recv (some "r") none none none) none) :: demoExchange 0 3 ++ demoExchange 0 4 ++
    [SiteAction.stop 0]

/-- Alice posts more. -/
def posts (first : Nat) (texts : List String) : List McpAction :=
  (texts.zipIdx first).flatMap fun text =>
    .arrive text.2 (demoFrame text.2 alice (.send (.room "r") [.text text.1] none none none)) ::
      demoServed text.2

/-- Alice posts the context of the session after she has said something, and then enough to fill the
    tail; Bob joins. -/
def joinsLate : List McpAction :=
  posts 20 (seedMarker :: List.replicate 16 "more") ++
  told (.line (.joinSession (some "c0") none) none) :: demoExchange 0 3 ++ demoExchange 0 4 ++
    demoExchange 0 5 ++ told .closed :: demoExchange 0 6 ++ demoExchange 0 7 ++ demoExchange 0 8 ++
    [told .closed]

/-- Bob's server joins as it starts. -/
def startsJoined : List McpAction :=
  demoExchange 0 3 ++ demoExchange 0 4 ++ demoExchange 0 5 ++ told .closed :: demoExchange 0 6 ++
    demoExchange 0 7 ++ demoExchange 0 8 ++ [told .closed]

/-- The cursor of Bob is past a message that no result shows. -/
def Unshown (w : McpSite demoConfig) : Prop :=
  ∃ r ∈ w.pool.state.store.messages, r.seq ≤ w.pool.state.store.getCursor r.room "B" ∧
    ¬ Shown w.log r.toStored

instance (w : McpSite demoConfig) : Decidable (Unshown w) :=
  inferInstanceAs (Decidable (∃ r ∈ w.pool.state.store.messages, _))

end Parler.Cli
