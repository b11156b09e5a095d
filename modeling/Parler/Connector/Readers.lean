import Parler.Connector.Process
import Parler.Lib.Board
import Parler.Protocol.Tasks

/-!
# Readers of a shared board

What the turns of a process show of its reading: the messages that its calls brought and those that
the replay ledger let it have. The messages of many processes are on one board, whatever rooms and
cursors there are behind it.
-/

namespace Parler.Connector

open Parler.Lib Parler.Protocol Parler.Hub

variable {H : Host}

/-! ## Signatures are no requests -/

@[simp] theorem taskRef_sig (sig : MessageSig) : TaskRef.fromPart sig.toPart = none := by
  have other : messageSigKind ≠ taskKind := by decide
  simp [TaskRef.fromPart, MessageSig.toPart, other]

@[simp] theorem handoffRef_sig (sig : MessageSig) : HandoffRef.fromPart sig.toPart = none := by
  have other : messageSigKind ≠ handoffKind := by decide
  simp [HandoffRef.fromPart, MessageSig.toPart, other]

@[simp] theorem dispatchRole_sig (sig : MessageSig) : dispatchRole sig.toPart = none := by
  have other : messageSigKind ≠ dispatchKind := by decide
  simp [dispatchRole, MessageSig.toPart, other]

@[simp] theorem dispatchRole_task (t : TaskRef) : dispatchRole t.toPart = none := by
  have other : taskKind ≠ dispatchKind := by decide
  simp [dispatchRole, TaskRef.toPart, other]

@[simp] theorem dispatchRole_text (text : String) : dispatchRole (.text text) = none := rfl

/-! ## Reading -/

/-- The messages that a call brought. -/
def brought : ClientDone H → List StoredMessage
  | ⟨.request _, reply⟩ =>
      match (reply : Option ServerFrame) with
      | some (.pulled _ messages _) => messages
      | _ => []
  | _ => []

/-- What a pull brings comes after its ack, in the order of the room and up to the new cursor. -/
def inOrder : (op : ClientCall H) → op.Res → Prop
  | .request (.pull _ none _ _ (some ack)), reply =>
      match (reply : Option ServerFrame) with
      | some (.pulled _ messages cursor) =>
          ack ≤ cursor ∧ (∀ m ∈ messages, ack < m.seq ∧ m.seq ≤ cursor) ∧
            messages.Pairwise (fun m m' => m.seq < m'.seq)
      | _ => True
  | _, _ => True

instance (op : ClientCall H) (r : op.Res) : Decidable (inOrder op r) := by
  unfold inOrder
  split
  · split <;> infer_instance
  · infer_instance

section Hub

variable {cfg : HubConfig} {cardBytes : AgentCard → List UInt8} {inflight : Nat} {P : HubPool cfg} {t : Nat}
  {me : Authed} {fresh : Fresh} {upload : Option (List UInt8)} {rounds : Nat}

/-- In every run of the hub a pull brings, in order, what comes after its ack. -/
theorem pulled_inOrder (reach : Pool.Reachable (serve cfg cardBytes) Pool.anySchedule (.boot inflight) P)
    {room room' : String} {limit wait : Option Nat} {ack cursor : Int} {messages : List StoredMessage}
    (answer : P.answer t = some (.frame me (.pull room none limit wait (some ack)) fresh upload rounds,
      [.pulled room' messages cursor])) :
    ack ≤ cursor ∧ (∀ m ∈ messages, ack < m.seq ∧ m.seq ≤ cursor) ∧
      messages.Pairwise (fun m m' => m.seq < m'.seq) := by
  obtain ⟨-, floor, lim, recorded, starts, ends⟩ := reach.ends (serve_pulledPages cardBytes)
    (Pool.answer_eq answer) me room none limit wait (some ack) fresh upload rounds rfl room' messages
    cursor (List.mem_singleton.mpr rfl)
  obtain ⟨⟨u, op, h⟩, logged, -, own⟩ := Pool.ownPast_event recorded
  obtain ⟨rfl, result⟩ := Sigma.mk.inj own
  have page : h.store.readBacklog room floor lim = messages := eq_of_heq result
  obtain ⟨newer, older, split⟩ := List.append_of_mem logged
  have order : SeqOrder h.store := (reach.history (I := fun _ h => SeqOrder h.store)
    ⟨List.Pairwise.nil, by simp [HubState.boot, Store.empty]⟩ (fun _ e order => order.exec e.op)).2
    newer _ older split
  have after : ack ≤ floor := by
    rcases starts with asked | ⟨-, below, -⟩
    · cases asked
    · exact below ack rfl
  have listed : messages = (h.store.backlog room floor).take lim := by
    rw [← page, order.readBacklog_eq]
  have closes : cursor = pageEnd floor ((h.store.backlog room floor).take lim) := by
    rw [← listed]
    exact ends
  rw [closes, listed]
  refine ⟨after.trans (le_pageEnd floor lim), ?_, ?_⟩
  · intro m member
    exact ⟨lt_of_le_of_lt after (backlog_past (List.mem_of_mem_take member)), seq_le_pageEnd order member⟩
  · exact (order.backlog_increasing room floor).sublist (List.take_sublist _ _)

/-- So its replies are in order. -/
theorem reply_inOrder (reach : Pool.Reachable (serve cfg cardBytes) Pool.anySchedule (.boot inflight) P)
    {frame : ClientFrame} {reply : ServerFrame}
    (answer : P.answer t = some (.frame me frame fresh upload rounds, [reply])) :
    inOrder (ClientCall.request (H := H) frame) (some reply) := by
  cases frame with
  | pull room since limit wait ack =>
    cases since with
    | some since => trivial
    | none =>
      cases ack with
      | none => trivial
      | some ack =>
        cases reply with
        | pulled room' messages cursor => exact pulled_inOrder reach answer
        | _ => trivial
  | _ => trivial

end Hub

/-- The message of a send that reaches the hub: the hub says who sent it. -/
def mayPost (me : Authed) : ClientCall H → StoredMessage → Prop
  | .request (.send _ parts _ _ _), m => m.parts = parts ∧ m.sender.id = me.id
  | _, _ => False

instance (me : Authed) (op : ClientCall H) (m : StoredMessage) : Decidable (mayPost me op m) := by
  unfold mayPost
  split <;> infer_instance

theorem mayPost_cases {me : Authed} {op : ClientCall H} {m : StoredMessage} (posts : mayPost me op m) :
    ∃ target mentions replyTo clientId,
      op = .request (.send target m.parts mentions replyTo clientId) ∧ m.sender.id = me.id := by
  cases op with
  | request frame =>
    cases frame with
    | send target parts mentions replyTo clientId =>
      obtain ⟨same, own⟩ := posts
      rw [same]
      exact ⟨target, mentions, replyTo, clientId, rfl, own⟩
    | _ => cases posts
  | _ => cases posts

/-- No message has the id of one that is there. -/
def newId (posts : List StoredMessage) (m : StoredMessage) : Prop :=
  m.id ∉ posts.map StoredMessage.id

instance (posts : List StoredMessage) (m : StoredMessage) : Decidable (newId posts m) :=
  inferInstanceAs (Decidable (m.id ∉ posts.map StoredMessage.id))

/-- The message was admitted. -/
def isAdmitted (id : String) : ClientDone H → Bool
  | ⟨.admitMessage m, admitted⟩ =>
      match (admitted : Option Bool) with
      | some true => m.id == id
      | _ => false
  | _ => false

def admissions (past : List (ClientDone H)) (id : String) : Nat := past.countP (isAdmitted id)

theorem admissions_cons (d : ClientDone H) (past : List (ClientDone H)) (id : String) :
    admissions (d :: past) id = admissions past id + if isAdmitted id d = true then 1 else 0 :=
  List.countP_cons

theorem admissions_admitted (m : StoredMessage) (past : List (ClientDone H)) (id : String) :
    admissions (⟨ClientCall.admitMessage m, some true⟩ :: past) id =
      admissions past id + if m.id = id then 1 else 0 := by
  rw [admissions_cons]
  by_cases same : m.id = id <;> simp [isAdmitted, same]

theorem isAdmitted_iff {id : String} {d : ClientDone H} :
    isAdmitted id d = true ↔ ∃ m, d = ⟨ClientCall.admitMessage m, some true⟩ ∧ m.id = id := by
  constructor
  · intro admitted
    obtain ⟨op, r⟩ := d
    cases op with
    | admitMessage m =>
      rcases r with _ | _ | _
      · cases admitted
      · cases admitted
      · exact ⟨m, rfl, by simpa [isAdmitted] using admitted⟩
    | _ => cases admitted
  · rintro ⟨m, rfl, rfl⟩
    simp [isAdmitted]

/-! ## Calls that read nothing -/

theorem presence_calls {Q : ClientCall H → Prop} {status : String} {activity : Option String}
    {attention : Option Attention} (may : Q (.request (.presence status activity attention))) :
    (presence status activity attention).Calls Q := by
  refine ⟨may, ?_⟩
  intro reply
  dsimp only
  split <;> trivial

theorem commitReads_calls {Q : ClientCall H → Prop} {room : String}
    (may : ∀ cursor, Q (.request (.pull room none (some 0) none (some cursor)))) (a : MeshAgent) :
    (a.commitReads room).Calls Q := by
  unfold MeshAgent.commitReads
  dsimp only
  split
  · trivial
  · refine ⟨may _, ?_⟩
    intro reply
    dsimp only
    split <;> trivial

section Board

variable {κ α τ ν : Type} {E : Wall (ClientCall H) ClientCall.Res StoredMessage κ α τ ν}
  {w : Board (ClientCall H) ClientCall.Res StoredMessage κ α τ}

/-- Messages of one id are one message. -/
theorem same_message (ids : E.fresh = newId) (reach : Board.Reachable E w) {m m' : StoredMessage}
    (first : m ∈ w.posts) (second : m' ∈ w.posts) (same : m.id = m'.id) : m = m' := by
  have distinct : (w.posts.map StoredMessage.id).Nodup := by
    apply reach.distinct
    rw [ids]
    exact fun _ _ new => new
  exact List.inj_on_of_nodup_map distinct first second same

/-- What a turn brought is on the board. -/
theorem brought_posted (shows : ∀ op r, E.shows op r = brought ⟨op, r⟩) (reach : Board.Reachable E w)
    {n : Nat} {d : ClientDone H} (member : d ∈ turnsOf w.log n) {m : StoredMessage}
    (shown : m ∈ brought d) : m ∈ w.posts := by
  have listed : m ∈ E.shows d.1 d.2 := (shows d.1 d.2).symm ▸ shown
  exact (reach.answered (Q := fun _ _ => True) (fun _ _ _ _ _ _ _ _ => trivial) _
    (mem_turnsOf.mp member)).2 m listed

/-- The messages that no process has posted. -/
def external (w : Board (ClientCall H) ClientCall.Res StoredMessage κ α τ) : Nat :=
  w.entries.countP (fun e => e.author.isNone)

/-- What the waiting process is about to post, under an id. -/
def demoPending (sender : κ → Authed) (w : Board (ClientCall H) ClientCall.Res StoredMessage κ α τ)
    (n : Nat) (id : String) : Option StoredMessage :=
  match w.programs n with
  | some (argument, .call (ClientCall.request (.send _ parts _ replyTo _)) _) =>
      some ⟨w.entries.length + 1, id, "r", ⟨(sender argument).id, (sender argument).name, none⟩, parts, none,
        replyTo, 0⟩
  | _ => none

end Board

end Parler.Connector
