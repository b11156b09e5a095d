import Parler.Cli.Worker
import Parler.Connector.Readers

/-!
# What a worker reserves

A worker never defers its reads: each pull acknowledges everything that the pulls before it brought. A
hub that answers pulls in order therefore shows it no message a second time, and each message that it
reserves comes after those that it reserved before.
-/

namespace Parler.Cli

open Parler.Lib Parler.Protocol Parler.Hub Parler.Connector

/-- The hub has answered the pulls in order. -/
def Orderly (past : List (ClientDone workerHost)) : Prop := ∀ d ∈ past, inOrder d.1 d.2

/-- A worker reserves what was brought to it, and at an orderly hub only what comes after all that it
    reserved before. -/
def reserveRule (past : List (ClientDone workerHost)) : ClientCall workerHost → Prop
  | .admitMessage m => (∃ d ∈ past, m ∈ brought d) ∧
      (Orderly past → ∀ m' r, ⟨ClientCall.admitMessage m', r⟩ ∈ past → m'.seq < m.seq)
  | _ => True

/-- The messages in hand were brought; at an orderly hub they are in order, below the pending ack and
    after everything that was reserved. -/
structure Reading (room : String) (a : MeshAgent) (hand : List StoredMessage)
    (past : List (ClientDone workerHost)) : Prop where
  commits : room ∉ a.heldReads
  shown : ∀ m ∈ hand, ∃ d ∈ past, m ∈ brought d
  sorted : Orderly past → hand.Pairwise (fun m m' => m.seq < m'.seq)
  acked : Orderly past → ∀ m ∈ hand, m.seq ≤ a.pending room
  reserved : Orderly past → ∀ m r, ⟨ClientCall.admitMessage m, r⟩ ∈ past →
    m.seq ≤ a.pending room ∧ ∀ m' ∈ hand, m.seq < m'.seq

/-- What a step of the loop leaves when the loop goes on. -/
def ReadsOn (room : String) (hand : List StoredMessage) (flow : Flow)
    (past : List (ClientDone workerHost)) : Prop :=
  ∀ s, flow = .go s → Reading room s.agent hand past

/-- The calls that reserve nothing. -/
def reservesNone : ClientCall workerHost → Bool
  | .admitMessage _ => false
  | _ => true

/-- The calls of a program that reserves nothing. -/
abbrev Reserveless {α : Type} (p : WorkerClient α) : Prop := p.Calls (fun op => reservesNone op = true)

section Program

variable {F : FloatFormat} {verify : String → List UInt8 → String → Bool} {me : Authed}
  {room runner : String} {o : WorkOptions} {s : WorkerState} {a b : MeshAgent} {m : StoredMessage}
  {hand : List StoredMessage} {past : List (ClientDone workerHost)}

theorem Orderly.tail {d : ClientDone workerHost} (orderly : Orderly (d :: past)) : Orderly past :=
  fun e member => orderly e (List.mem_cons_of_mem d member)

theorem shown_cons (shown : ∃ d ∈ past, m ∈ brought d) (d : ClientDone workerHost) :
    ∃ e ∈ d :: past, m ∈ brought e := by
  obtain ⟨e, member, brings⟩ := shown
  exact ⟨e, List.mem_cons_of_mem d member, brings⟩

/-! ### What is in hand -/

theorem Reading.cons (now : Reading room a hand past) (op : ClientCall workerHost) (r : op.Res)
    (none : reservesNone op = true) : Reading room a hand (⟨op, r⟩ :: past) := by
  refine ⟨now.commits, fun m member => shown_cons (now.shown m member) _,
    fun orderly => now.sorted orderly.tail, fun orderly => now.acked orderly.tail, ?_⟩
  intro orderly m r' member
  rcases List.mem_cons.mp member with new | old
  · cases new
    cases none
  · exact now.reserved orderly.tail m r' old

/-- The first message in hand is reserved, or refused. -/
theorem Reading.reserve (now : Reading room a (m :: hand) past) (r : Option Bool) :
    Reading room a hand (⟨ClientCall.admitMessage m, r⟩ :: past) := by
  refine ⟨now.commits, fun m' member => shown_cons (now.shown m' (List.mem_cons_of_mem m member)) _,
    fun orderly => (now.sorted orderly.tail).of_cons,
    fun orderly m' member => now.acked orderly.tail m' (List.mem_cons_of_mem m member), ?_⟩
  intro orderly m' r' member
  rcases List.mem_cons.mp member with new | old
  · cases new
    exact ⟨now.acked orderly.tail m List.mem_cons_self,
      fun m' later => List.rel_of_pairwise_cons (now.sorted orderly.tail) later⟩
  · obtain ⟨below, before⟩ := now.reserved orderly.tail m' r' old
    exact ⟨below, fun later among => before later (List.mem_cons_of_mem m among)⟩

theorem Reading.drop (now : Reading room a (m :: hand) past) : Reading room a hand past := by
  refine ⟨now.commits, fun m' member => now.shown m' (List.mem_cons_of_mem m member),
    fun orderly => (now.sorted orderly).of_cons,
    fun orderly m' member => now.acked orderly m' (List.mem_cons_of_mem m member), ?_⟩
  intro orderly m' r' member
  obtain ⟨below, before⟩ := now.reserved orderly m' r' member
  exact ⟨below, fun later among => before later (List.mem_cons_of_mem m among)⟩

/-- A commit leaves the pending ack. -/
theorem Reading.commit (now : Reading room a hand past) (same : b.pending room = a.pending room)
    (held : b.heldReads ⊆ a.heldReads) : Reading room b hand past := by
  refine ⟨fun member => now.commits (held member), now.shown, now.sorted, ?_, ?_⟩
  · rw [same]
    exact now.acked
  · rw [same]
    exact now.reserved

/-- A pull that acknowledges what was read brings the next messages. -/
theorem Reading.pulled (now : Reading room a [] past) {limit wait : Option Nat}
    (reply : Option ServerFrame) :
    Reading room (a.pulled room reply).1 ((a.pulled room reply).2.getD [])
      (⟨ClientCall.request (.pull room none limit wait (a.ackFor room)), reply⟩ :: past) := by
  have acks : a.ackFor room = some (a.pending room) := by rw [MeshAgent.ackFor, if_neg now.commits]
  have kept := now.cons (.request (.pull room none limit wait (a.ackFor room))) reply rfl
  rcases a.pulled_cases room reply with ⟨room', messages, cursor, rfl, equal⟩ | equal
  · rw [equal]
    dsimp only
    rw [Option.getD_some]
    -- What the answer says of the page.
    have page : ∀ {past'}, Orderly (⟨ClientCall.request (.pull room none limit wait (a.ackFor room)),
        some (.pulled room' messages cursor)⟩ :: past') → a.pending room ≤ cursor ∧
        (∀ m ∈ messages, a.pending room < m.seq ∧ m.seq ≤ cursor) ∧
          messages.Pairwise (fun m m' => m.seq < m'.seq) := by
      intro past' orderly
      have answered := orderly _ List.mem_cons_self
      rw [acks] at answered
      exact answered
    refine ⟨now.commits, fun m member => ⟨_, List.mem_cons_self, member⟩,
      fun orderly => (page orderly).2.2, ?_, ?_⟩
    · intro orderly m member
      rw [MeshAgent.pending_recordAck, if_pos rfl]
      exact ((page orderly).2.1 m member).2
    · intro orderly m r member
      obtain ⟨below, -⟩ := kept.reserved orderly m r member
      rw [MeshAgent.pending_recordAck, if_pos rfl]
      refine ⟨below.trans (page orderly).1, ?_⟩
      intro m' later
      exact lt_of_le_of_lt below ((page orderly).2.1 m' later).1
  · rw [equal]
    exact kept

/-! ### The steps of the program -/

theorem Reserveless.upholds {α : Type} {p : WorkerClient α} (calls : Reserveless p)
    (now : Reading room a hand past) :
    p.Upholds reserveRule (fun _ past => Reading room a hand past) past := by
  refine Prog.Calls.upholds (J := Reading room a hand) ?_ ?_ (fun _ _ now => now) calls now
  · intro past op none _
    cases op with
    | admitMessage m => cases none
    | _ => trivial
  · exact fun op r past none now => now.cons op r none

theorem send_reserveless {target : Target} {parts : List Part} {mentions : Option (List String)}
    {replyTo : Option String} : Reserveless (send target parts mentions replyTo) := by
  refine ⟨rfl, ?_⟩
  intro drawn
  cases drawn with
  | none => trivial
  | some s =>
    refine ⟨rfl, ?_⟩
    intro reply
    dsimp only
    split <;> trivial

theorem postTerminal_reserveless {item : WorkItem} {status : TaskStatus} {body : String}
    {elapsedMs : Nat} {given : Option HandoffRef} :
    Reserveless (postTerminal room o item status body elapsedMs given) := by
  unfold postTerminal
  dsimp only
  split
  · exact send_reserveless.bind (fun _ => trivial)
  · refine send_reserveless.bind ?_
    intro sent
    cases sent with
    | some result => trivial
    | none => exact send_reserveless.bind (fun _ => trivial)

theorem commitThen_reads (now : Reading room s.agent hand past) {next : WorkerState → WorkerClient Flow}
    (after : ∀ s past, Reading room s.agent hand past →
      (next s).Upholds reserveRule (ReadsOn room hand) past) :
    (commitThen room s next).Upholds reserveRule (ReadsOn room hand) past := by
  refine Prog.Upholds.bind (commitReads_upholds (J := Reading room s.agent hand) now (fun _ => ?_)) ?_
  · exact ⟨fun _ _ => trivial, fun past r now => now.cons _ r rfl⟩
  · rintro ⟨agent, result⟩ past ⟨now, same, held⟩
    cases result with
    | none => exact fun s impossible => nomatch impossible
    | some _ => exact after _ past (now.commit same held)

theorem skipMessage_reads (now : Reading room s.agent hand past) :
    (skipMessage room m s).Upholds reserveRule (ReadsOn room hand) past := by
  refine ⟨trivial, ?_⟩
  intro released
  have now := now.cons (.release [m]) released rfl
  cases released with
  | none => exact fun s impossible => nomatch impossible
  | some _ =>
    refine commitThen_reads now ?_
    intro s past now s' same
    cases same
    exact now

theorem settled_reads {responseRoom : String} (now : Reading room s.agent hand past) :
    ReadsOn room hand (settled o s responseRoom) past := by
  intro s' same
  unfold settled at same
  dsimp only at same
  split at same
  · cases same
  · cases same
    exact now

theorem refuseItem_reads {item : WorkItem} (now : Reading room s.agent hand past) :
    (refuseItem room o m item s).Upholds reserveRule (ReadsOn room hand) past := by
  refine (postTerminal_reserveless.upholds now).bind ?_
  intro posted past now
  cases posted with
  | none => exact fun s impossible => nomatch impossible
  | some responseRoom =>
    refine ⟨trivial, ?_⟩
    intro r
    exact commitThen_reads (now.cons (.complete [m]) r rfl) (fun _ _ now => settled_reads now)

theorem runItem_reads {item : WorkItem} (now : Reading room s.agent hand past) :
    (runItem room runner o m item s).Upholds reserveRule (ReadsOn room hand) past := by
  refine (send_reserveless.upholds now).bind ?_
  intro announced past now
  cases announced with
  | none => exact fun s impossible => nomatch impossible
  | some _ =>
    have shows : ∀ status activity, Reserveless (presence status activity none) :=
      fun _ _ => presence_calls rfl
    refine ((shows _ _).upholds now).bind ?_
    intro shown past now
    cases shown with
    | none => exact fun s impossible => nomatch impossible
    | some _ =>
      refine ⟨trivial, ?_⟩
      intro outcome
      have now := now.cons (.ask (.run item)) outcome rfl
      refine ⟨trivial, ?_⟩
      intro r
      have now := now.cons (.complete [m]) r rfl
      refine (postTerminal_reserveless.upholds now).bind ?_
      intro posted past now
      cases posted with
      | none => exact fun s impossible => nomatch impossible
      | some responseRoom =>
        refine commitThen_reads now ?_
        intro s past now
        exact ((shows _ _).upholds now).bind (fun _ _ now => settled_reads now)

theorem handleTrusted_reads {trusted : SigStatus} (now : Reading room s.agent hand past) :
    (handleTrusted me room runner o m s trusted).Upholds reserveRule (ReadsOn room hand) past := by
  unfold handleTrusted
  split
  · exact skipMessage_reads now
  · refine ⟨trivial, ?_⟩
    intro time
    have now := now.cons (.ask .now) time rfl
    dsimp only
    split
    · exact runItem_reads now
    · exact refuseItem_reads now

theorem handle_reads (now : Reading room s.agent (m :: hand) past) :
    (handle F verify me room runner o m s).Upholds reserveRule (ReadsOn room hand) past := by
  unfold handle
  split
  · refine ⟨⟨now.shown m List.mem_cons_self, ?_⟩, ?_⟩
    · exact fun orderly m' r member => (now.reserved orderly m' r member).2 m List.mem_cons_self
    · intro admitted
      have now := now.reserve admitted
      rcases admitted with _ | _ | _
      · exact fun s impossible => nomatch impossible
      · exact handleTrusted_reads now
      · exact handleTrusted_reads now
  · exact handleTrusted_reads now.drop

theorem handleAll_reads (now : Reading room s.agent hand past) :
    (handleAll F verify me room runner o hand s).Upholds reserveRule (ReadsOn room []) past := by
  induction hand generalizing s past with
  | nil =>
    intro s' same
    cases same
    exact now
  | cons m rest ih =>
    refine (handle_reads now).bind ?_
    intro flow past after
    cases flow with
    | «over» report => exact fun s impossible => nomatch impossible
    | go s => exact ih (after s rfl)

/-- What a pull leaves: the messages that it returns are in hand. -/
def InHandOf (room : String) (pulled : MeshAgent × Option (List StoredMessage))
    (past : List (ClientDone workerHost)) : Prop :=
  Reading room pulled.1 (pulled.2.getD []) past

theorem pullWait_reads (waits : Nat) (now : Reading room a [] past) :
    (pullWait room a waits).Upholds reserveRule (InHandOf room) past := by
  induction waits generalizing a past with
  | zero => exact now
  | succ waits ih =>
    have pulls : ∀ {a past} limit wait, Reading room a [] past →
        Prog.Upholds reserveRule (InHandOf room)
          (.call (ClientCall.request (.pull room none limit wait (a.ackFor room))) fun reply =>
            .ret (a.pulled room reply)) past :=
      fun limit wait now => ⟨trivial, fun reply => now.pulled reply⟩
    refine (pulls (some 1) none now).bind ?_
    rintro ⟨a, messages⟩ past now
    rcases messages with _ | _ | ⟨_, _⟩
    · exact now
    · refine ⟨trivial, ?_⟩
      intro chunk
      have now : Reading room a [] _ := Reading.cons now (.ask .budget) chunk rfl
      cases chunk with
      | none => exact now
      | some chunk =>
        refine (pulls (some 1) (some chunk) now).bind ?_
        rintro ⟨a, messages⟩ past now
        rcases messages with _ | _ | ⟨_, _⟩
        · exact now
        · exact ih now
        · exact now
    · exact now

theorem watch_reads (waits rounds : Nat) (now : Reading room s.agent [] past) :
    (watch F verify me room runner o waits rounds s).Upholds reserveRule (fun _ _ => True) past := by
  induction rounds generalizing s past with
  | zero => trivial
  | succ rounds ih =>
    refine (pullWait_reads waits now).bind ?_
    rintro ⟨a, messages⟩ past now
    cases messages with
    | none => trivial
    | some messages =>
      refine Prog.Upholds.bind (handleAll_reads (s := { s with agent := a }) now) ?_
      intro flow past after
      cases flow with
      | «over» report => trivial
      | go s => exact ih (after s rfl)

/-- A worker follows the rule. -/
theorem run_reserves (F : FloatFormat) (verify : String → List UInt8 → String → Bool) (me : Authed)
    (room runner : String) (o : WorkOptions) (waits rounds : Nat) :
    (run F verify me room runner o waits rounds).Follows reserveRule [] := by
  refine Prog.Upholds.follows (I := fun _ _ => True) ?_
  have start : Reading room .fresh [] [] := by
    refine ⟨List.not_mem_nil, nofun, fun _ => List.Pairwise.nil, nofun, ?_⟩
    intro _ m r member
    cases member
  have shows : Reserveless (presence "waiting"
      (some ("autonomous " ++ runner ++ " worker in '" ++ room ++ "'")) none) := presence_calls rfl
  refine (shows.upholds start).bind ?_
  intro shown past now
  cases shown with
  | none => trivial
  | some _ => exact watch_reads waits rounds now

end Program

end Parler.Cli
