import Parler.Connector.Acks
import Parler.Hub.Demo

/-!
# At-least-once delivery

What a client that defers its acknowledgements may rely on, whatever is lost: the
cursor the hub stores for it never passes the highest cursor it has received, so a
message at or below the stored cursor was in a batch it received, unless the client
itself skipped it by a `since` read that starts past everything it had received; and
a pull made while its room is held does not move the cursor.
-/

namespace Parler.Connector

open Parler.Lib Parler.Protocol Parler.Hub

variable {cfg : HubConfig} {me : Authed}

/-! ## What the client has received -/

/-- The highest cursor received for a room, 0 before the first. -/
def highest (room : String) : List Receipt → Int
  | [] => 0
  | b :: rest => if b.room = room then max b.cursor (highest room rest) else highest room rest

theorem highest_cons (room : String) (b : Receipt) (rest : List Receipt) :
    highest room rest ≤ highest room (b :: rest) := by
  rw [highest]
  split
  · exact le_max_right _ _
  · exact le_refl _

theorem le_highest {b : Receipt} {received : List Receipt} (member : b ∈ received) :
    b.cursor ≤ highest b.room received := by
  induction received with
  | nil => cases member
  | cons first rest ih =>
    rcases List.mem_cons.mp member with rfl | old
    · rw [highest, if_pos rfl]
      exact le_max_left _ _
    · exact (ih old).trans (highest_cons _ _ _)

/-- The message was in a batch the client received. -/
def Delivered (received : List Receipt) (r : MessageRow) : Prop :=
  ∃ b ∈ received, r.toStored ∈ b.messages

/-- The client skipped a `seq` of the room: it read from past it when it had received no
    cursor as high. -/
def Skipped (received : List Receipt) (room : String) (seq : Int) : Prop :=
  ∃ newer b older floor, received = newer ++ b :: older ∧ b.room = room ∧ b.since = some floor ∧
    highest room older < seq ∧ seq ≤ floor

theorem Delivered.cons {received : List Receipt} {r : MessageRow} (got : Delivered received r)
    (b : Receipt) : Delivered (b :: received) r := by
  obtain ⟨batch, member, listed⟩ := got
  exact ⟨batch, List.mem_cons_of_mem b member, listed⟩

theorem Skipped.cons {received : List Receipt} {room : String} {seq : Int}
    (skipped : Skipped received room seq) (b : Receipt) : Skipped (b :: received) room seq := by
  obtain ⟨newer, batch, older, floor, rfl, skips⟩ := skipped
  exact ⟨b :: newer, batch, older, floor, rfl, skips⟩

/-! ## Frames the client sends -/

/-- A pull of the client asks from a `seq`, or carries an ack it has received. -/
def Sane (received : List Receipt) : ClientFrame → Prop
  | .pull room since _ _ ack =>
      since.isSome ∨ ∃ a, ack = some a ∧ 0 ≤ a ∧ a ≤ highest room received
  | _ => True

theorem Sane.cons {received : List Receipt} {frame : ClientFrame} (sane : Sane received frame)
    (b : Receipt) : Sane (b :: received) frame := by
  cases frame with
  | pull room since limit wait ack =>
    rcases sane with asks | ⟨a, own, positive, low⟩
    · exact Or.inl asks
    · exact Or.inr ⟨a, own, positive, low.trans (highest_cons _ _ _)⟩
  | _ => trivial

/-- The client's pending acks are cursors it has received. -/
def Backed (received : List Receipt) (a : MeshAgent) : Prop :=
  ∀ room, 0 ≤ a.pending room ∧ a.pending room ≤ highest room received

theorem Backed.cons {received : List Receipt} {a : MeshAgent} (backed : Backed received a)
    (b : Receipt) : Backed (b :: received) a :=
  fun room => ⟨(backed room).1, (backed room).2.trans (highest_cons _ _ _)⟩

theorem Backed.pull {received : List Receipt} {a : MeshAgent} (backed : Backed received a)
    (room : String) (since : Option Int) (limit : Option Nat) :
    Sane received (Task.frame a (.pull room since limit)) := by
  have bounds := backed room
  cases since with
  | some floor => exact Or.inl rfl
  | none =>
    refine Or.inr ⟨_, rfl, ?_⟩
    by_cases held : room ∈ a.heldReads
    · rw [if_pos held]
      exact ⟨le_refl _, bounds.1.trans bounds.2⟩
    · rw [if_neg held]
      exact bounds

theorem Backed.pullParked {received : List Receipt} {a : MeshAgent} (backed : Backed received a)
    (room : String) (limit : Option Nat) (wait : Nat) :
    Sane received (Task.frame a (.pullParked room limit wait)) :=
  backed.pull room none limit

theorem commit_sane {received : List Receipt} {a : MeshAgent} {room : String} {cursor : Int}
    (sends : a.commitSkips room cursor = false) (known : cursor ≤ highest room received)
    (rest : List String) : Sane received (Task.frame a (.commit room cursor rest)) := by
  have positive : ¬ cursor ≤ 0 := by
    intro low
    simp [MeshAgent.commitSkips, low] at sends
  exact Or.inr ⟨cursor, rfl, by omega, known⟩

/-- What the client does next is backed by what it has received. -/
def BackedStep (received : List Receipt) (step : MeshAgent × Option Task) : Prop :=
  Backed received step.1 ∧ ∀ task, step.2 = some task → Sane received (task.frame step.1)

section Steps

variable {received : List Receipt} {a : MeshAgent} (backed : Backed received a)
include backed

theorem Backed.release (room : String) : Backed received (a.release room) := backed

theorem Backed.commitReadsThrough {room : String} {cursor : Int}
    (known : cursor ≤ highest room received) :
    BackedStep received (a.commitReadsThrough room cursor) := by
  unfold MeshAgent.commitReadsThrough
  split
  · exact ⟨backed.release room, nofun⟩
  · rename_i sends
    refine ⟨backed, ?_⟩
    rintro task ⟨⟩
    exact commit_sane (by simpa using sends) known []

theorem Backed.flushAcks (rooms : List String) : BackedStep received (a.flushAcks rooms) := by
  induction rooms generalizing a with
  | nil => exact ⟨backed, nofun⟩
  | cons room rest ih =>
    rw [MeshAgent.flushAcks]
    split
    · exact ih (backed.release room)
    · rename_i sends
      refine ⟨backed, ?_⟩
      rintro task ⟨⟩
      exact commit_sane (by simpa using sends) (backed room).2 rest

theorem Backed.fail (task : Task) : BackedStep received (a.fail task) := by
  cases task with
  | commit room cursor rest => exact backed.flushAcks rest
  | _ => exact ⟨backed, nofun⟩

theorem Backed.recordCommit {room : String} {cursor : Int}
    (known : 0 ≤ cursor ∧ cursor ≤ highest room received) :
    Backed received (a.recordCommit room cursor) := by
  intro other
  have bounds := backed other
  rcases a.pending_recordCommit room other cursor with same | ⟨rfl, equal | equal⟩
  · rw [same]
    exact bounds
  · rw [equal]
    exact known
  · rw [equal]
    exact ⟨bounds.1.trans (le_max_left _ _), max_le bounds.2 known.2⟩

theorem Backed.start {S : Session cfg} (own : S.received = received ∧ S.agent = a) {c : Call}
    (allowed : S.Allows c) : BackedStep received (a.start c) := by
  obtain ⟨rfl, rfl⟩ := own
  cases c with
  | pull room since limit =>
    refine ⟨backed, ?_⟩
    rintro task ⟨⟩
    exact backed.pull room since limit
  | pullParked room limit wait =>
    refine ⟨backed, ?_⟩
    rintro task ⟨⟩
    exact backed.pullParked room limit wait
  | commitReads room => exact backed.commitReadsThrough (backed room).2
  | commitReadsThrough room cursor =>
    obtain ⟨b, member, rfl, rfl⟩ := allowed
    exact backed.commitReadsThrough (le_highest member)
  | deferReads room => exact ⟨backed, nofun⟩
  | flushAcks rooms => exact backed.flushAcks rooms

end Steps

/-! ## The invariant -/

/-- The room and the start of a call that reads messages. -/
def Task.pulls : Task → Option (String × Option Int)
  | .pull room since _ => some (room, since)
  | .pullParked room _ _ => some (room, none)
  | .commit .. => none

/-- A cursor the client has received, or one below it. -/
def Known (received : List Receipt) (room : String) (cursor : Int) : Prop :=
  0 ≤ cursor ∧ cursor ≤ highest room received

theorem Known.cons {received : List Receipt} {room : String} {cursor : Int}
    (known : Known received room cursor) (b : Receipt) : Known (b :: received) room cursor :=
  ⟨known.1, known.2.trans (highest_cons _ _ _)⟩

/-- The hub is told, stores and shows only cursors that the client has received. -/
structure AcksKnown (me : Authed) (S : Session cfg) : Prop where
  agent : Backed S.received S.agent
  busy : ∀ p, S.busy = some p → p.frame = p.task.frame S.agent ∧ Sane S.received p.frame ∧
    ∀ t, p.thread = some t → ∃ fresh rounds prog,
      S.pool.threads t = some (.frame me p.frame fresh none rounds, prog)
  threads : ∀ t me' frame fresh upload rounds prog, me'.id = me.id →
    S.pool.threads t = some (.frame me' frame fresh upload rounds, prog) → Sane S.received frame
  cursor : ∀ room, Known S.received room (S.pool.state.store.getCursor room me.id)
  reads : ∀ e ∈ S.pool.log, ∀ room, e.op = .getCursor room me.id →
    Known S.received room (e.before.store.getCursor room me.id)

/-- Every stored message up to the highest received cursor was delivered or skipped, and the
    `seq`s that are still to come are skipped up to there. -/
structure Covered (S : Session cfg) : Prop where
  stored : ∀ r ∈ S.pool.state.store.messages, r.seq ≤ highest r.room S.received →
    Delivered S.received r ∨ Skipped S.received r.room r.seq
  coming : ∀ room seq, S.pool.state.store.messageSeq < seq → seq ≤ highest room S.received →
    Skipped S.received room seq

section Invariant

variable {cardBytes : AgentCard → List UInt8} {inflight : Nat} {S : Session cfg}

theorem sane_iff {received : List Receipt} {frame : ClientFrame} :
    Sane received frame ↔ Meets (Known received) frame := by
  cases frame <;> rfl

theorem AcksKnown.meets (known : AcksKnown me S) : AcksMeet (Known S.received) me S.pool :=
  ⟨fun t me' frame fresh upload rounds prog same at_t =>
      sane_iff.mp (known.threads t me' frame fresh upload rounds prog same at_t),
    known.cursor, known.reads⟩

/-- The hub's side of the invariant, with what the client does. -/
theorem AcksMeet.known (meets : AcksMeet (Known S.received) me S.pool)
    (agent : Backed S.received S.agent)
    (busy : ∀ p, S.busy = some p → p.frame = p.task.frame S.agent ∧ Sane S.received p.frame ∧
      ∀ t, p.thread = some t → ∃ fresh rounds prog,
        S.pool.threads t = some (.frame me p.frame fresh none rounds, prog)) : AcksKnown me S :=
  ⟨agent, busy,
    fun t me' frame fresh upload rounds prog same at_t =>
      sane_iff.mpr (meets.threads t me' frame fresh upload rounds prog same at_t),
    meets.cursor, meets.reads⟩

theorem AcksKnown.exec (known : AcksKnown me S)
    (reach : Pool.Reachable (serve cfg cardBytes) Pool.anySchedule (.boot inflight) S.pool) {t : Nat}
    {req : Request} {op : HubCall} {after : op.Res → Prog (hubMachine cfg) (List ServerFrame)}
    (pending : S.pool.threads t = some (req, .call op after)) :
    AcksKnown me { S with pool := S.pool.exec t req op after } := by
  have zero : ∀ room, Known S.received room 0 :=
    fun room => ⟨le_refl _, (known.agent room).1.trans (known.agent room).2⟩
  refine (known.meets.exec zero reach pending).known known.agent ?_
  intro p busy
  obtain ⟨frame, sane, sent⟩ := known.busy p busy
  refine ⟨frame, sane, ?_⟩
  intro u thread
  obtain ⟨fresh, rounds, prog, at_u⟩ := sent u thread
  dsimp only
  rw [Pool.exec_threads]
  split
  · rename_i same
    subst same
    rw [pending] at at_u
    cases at_u
    exact ⟨fresh, rounds, _, rfl⟩
  · exact ⟨fresh, rounds, prog, at_u⟩

/-- The attempt in flight stays where it is when a request arrives at a free place. -/
theorem AcksKnown.busy_spawn (known : AcksKnown me S) {t : Nat} (free : S.pool.threads t = none)
    (req : Request) (prog : Prog (hubMachine cfg) (List ServerFrame)) {p : Pending}
    (busy : S.busy = some p) :
    p.frame = p.task.frame S.agent ∧ Sane S.received p.frame ∧
      ∀ u, p.thread = some u → ∃ fresh rounds prog',
        (S.pool.spawn t req prog).threads u = some (.frame me p.frame fresh none rounds, prog') := by
  obtain ⟨frame, sane, sent⟩ := known.busy p busy
  refine ⟨frame, sane, ?_⟩
  intro u thread
  obtain ⟨fresh, rounds, prog', at_u⟩ := sent u thread
  have other : u ≠ t := by
    intro same
    rw [same, free] at at_u
    cases at_u
  exact ⟨fresh, rounds, prog', by rw [Pool.spawn_threads, if_neg other]; exact at_u⟩

/-- The client goes on to what it does next. -/
theorem AcksKnown.next (known : AcksKnown me S) {step : MeshAgent × Option Task}
    (backed : BackedStep S.received step) : AcksKnown me (S.next step) := by
  refine ⟨backed.1, ?_, known.threads, known.cursor, known.reads⟩
  intro p busy
  obtain ⟨task, starts, rfl⟩ := Option.map_eq_some_iff.mp busy
  exact ⟨rfl, backed.2 task starts, nofun⟩

theorem AcksKnown.send (known : AcksKnown me S) {p : Pending} {t : Nat} {fresh : Fresh}
    {rounds : Nat} (busy : S.busy = some p) :
    AcksKnown me { S with
      pool := S.pool.spawn t (.frame me p.frame fresh none rounds)
        (serve cfg cardBytes (.frame me p.frame fresh none rounds))
      busy := some { p with thread := some t } } := by
  obtain ⟨frame, sane, -⟩ := known.busy p busy
  have spawned := known.meets.spawn (t := t) (.frame me p.frame fresh none rounds)
    (serve cfg cardBytes (.frame me p.frame fresh none rounds))
    (by rintro _ _ _ _ _ ⟨⟩ _; exact sane_iff.mp sane)
  refine AcksMeet.known spawned known.agent ?_
  rintro q ⟨⟩
  refine ⟨frame, sane, ?_⟩
  rintro u ⟨⟩
  exact ⟨fresh, rounds, _, by rw [Pool.spawn_threads, if_pos rfl]⟩

/-! ## What comes back -/

/-- The page of a reply to a pull: where it starts, and what it still says. -/
structure PageOf (S : Session cfg) (room : String) (since : Option Int)
    (messages : List StoredMessage) (cursor floor : Int) : Prop where
  holds : PageHolds S.pool.state.store room floor messages
  above : ∀ m ∈ messages, floor < m.seq
  ends : cursor = (messages.getLast?.map StoredMessage.seq).getD floor
  starts : since = some floor ∨ since = none ∧ Known S.received room floor

theorem AcksKnown.page (known : AcksKnown me S)
    (reach : Pool.Reachable (serve cfg cardBytes) Pool.anySchedule (.boot inflight) S.pool)
    {p : Pending} {t : Nat} {req : Request} {room room' : String} {since : Option Int}
    {messages : List StoredMessage} {cursor : Int} (busy : S.busy = some p)
    (sent : p.thread = some t) (pulls : p.task.pulls = some (room, since))
    (answer : S.pool.answer t = some (req, [.pulled room' messages cursor])) :
    ∃ floor, PageOf S room since messages cursor floor := by
  obtain ⟨frame, sane, thread⟩ := known.busy p busy
  obtain ⟨fresh, rounds, prog, at_t⟩ := thread t sent
  have done := Pool.answer_eq answer
  obtain ⟨limit, wait, ack, pulled⟩ : ∃ limit wait ack,
      p.frame = .pull room since limit wait ack := by
    rw [frame]
    cases task : p.task <;> rw [task] at pulls <;> cases pulls <;> exact ⟨_, _, _, rfl⟩
  rw [pulled] at at_t
  rw [at_t] at done
  cases done
  obtain ⟨floor, holds, above, ends, starts, -⟩ := known.meets.page reach at_t
    (List.mem_singleton.mpr rfl)
  exact ⟨floor, holds, above, ends, starts⟩

/-- The cursor of a page is its start or the `seq` of one of its messages. -/
theorem PageOf.cursor_cases {room : String} {since : Option Int} {messages : List StoredMessage}
    {cursor floor : Int} (page : PageOf S room since messages cursor floor) :
    (messages.getLast? = none ∧ cursor = floor) ∨
      ∃ last, messages.getLast? = some last ∧ cursor = last.seq ∧ floor < cursor := by
  have ends := page.ends
  cases last : messages.getLast? with
  | none => exact Or.inl ⟨rfl, by rw [last] at ends; exact ends⟩
  | some m =>
    rw [last] at ends
    have above := page.above m (List.mem_of_getLast? last)
    exact Or.inr ⟨m, rfl, ends, by rw [ends]; exact above⟩

theorem PageOf.cursor_nonneg {room : String} {messages : List StoredMessage} {cursor floor : Int}
    (page : PageOf S room none messages cursor floor) : 0 ≤ cursor := by
  rcases page.starts with impossible | ⟨-, known⟩
  · cases impossible
  · have positive := known.1
    rcases page.cursor_cases with ⟨-, same⟩ | ⟨last, -, -, above⟩ <;> omega

theorem finish_pulls {task : Task} {room : String} {since : Option Int}
    (pulls : task.pulls = some (room, since)) (reply : ServerFrame) :
    S.finish task reply = S.pulled room since reply := by
  cases task <;> cases pulls <;> rfl

theorem AcksKnown.idle (known : AcksKnown me S) : AcksKnown me { S with busy := none } := by
  refine ⟨known.agent, ?_, known.threads, known.cursor, known.reads⟩
  intro p busy
  cases busy

theorem AcksKnown.pulled (known : AcksKnown me S) {room : String} {since : Option Int}
    {messages : List StoredMessage} {cursor : Int} (room' : String)
    (positive : since = none → 0 ≤ cursor) :
    AcksKnown me (S.pulled room since (.pulled room' messages cursor)) := by
  let b : Receipt := ⟨room, since, messages, cursor⟩
  refine ⟨?_, ?_, ?_, fun room => (known.cursor room).cons b, ?_⟩
  · cases since with
    | some floor => exact known.agent.cons b
    | none =>
      intro other
      show 0 ≤ (S.agent.recordAck room cursor).pending other ∧
        (S.agent.recordAck room cursor).pending other ≤ highest other (b :: S.received)
      rw [MeshAgent.pending_recordAck]
      split
      · rename_i same
        subst same
        exact ⟨positive rfl, le_highest (b := b) List.mem_cons_self⟩
      · exact known.agent.cons b other
  · intro p busy
    cases busy
  · intro t me' frame fresh upload rounds prog same at_t
    exact (known.threads t me' frame fresh upload rounds prog same at_t).cons b
  · exact fun e member room reads => (known.reads e member room reads).cons b

theorem AcksKnown.receive (known : AcksKnown me S)
    (reach : Pool.Reachable (serve cfg cardBytes) Pool.anySchedule (.boot inflight) S.pool)
    {p : Pending} {t : Nat} {req : Request} {reply : ServerFrame} (busy : S.busy = some p)
    (sent : p.thread = some t) (answer : S.pool.answer t = some (req, [reply])) :
    AcksKnown me (S.finish p.task reply) := by
  cases pulls : p.task.pulls with
  | some target =>
    obtain ⟨room, since⟩ := target
    rw [finish_pulls pulls]
    cases reply with
    | pulled room' messages cursor =>
      obtain ⟨floor, page⟩ := known.page reach busy sent pulls answer
      refine known.pulled room' ?_
      rintro rfl
      exact page.cursor_nonneg
    | _ => exact known.idle
  | none =>
    have sane := (known.busy p busy).2.1
    rw [(known.busy p busy).1] at sane
    cases task : p.task with
    | commit room cursor rest =>
      rw [task] at sane
      have bounds : Known S.received room cursor := by
        rcases sane with asks | ⟨a, same, bounds⟩
        · cases asks
        · cases same
          exact bounds
      cases reply with
      | pulled =>
        exact known.next ((known.agent.recordCommit bounds).flushAcks rest)
      | _ => exact known.next (known.agent.flushAcks rest)
    | _ => rw [task] at pulls; cases pulls

/-! ## Coverage -/

theorem Covered.exec (covered : Covered S) (t : Nat) (req : Request) (op : HubCall)
    (after : op.Res → Prog (hubMachine cfg) (List ServerFrame)) :
    Covered { S with pool := S.pool.exec t req op after } := by
  have change := messageChange_exec cfg op S.pool.state
  cases change with
  | kept p rows seq =>
    refine ⟨?_, ?_⟩
    · intro r member
      refine covered.stored r ?_
      rw [show ({ S with pool := S.pool.exec t req op after } : Session cfg).pool.state.store.messages =
        _ from rows] at member
      exact (List.mem_filter.mp member).1
    · intro room q above
      exact covered.coming room q (lt_of_le_of_lt seq above)
  | appended m _ rows seq =>
    refine ⟨?_, ?_⟩
    · intro r member below
      rw [show ({ S with pool := S.pool.exec t req op after } : Session cfg).pool.state.store.messages =
        _ from rows] at member
      rcases List.mem_append.mp member with old | new
      · exact covered.stored r old below
      · refine Or.inr (covered.coming r.room r.seq ?_ below)
        rw [List.mem_singleton.mp new]
        exact Int.lt_add_one_of_le (le_refl _)
    · intro room q above
      refine covered.coming room q ?_
      have above : (op.exec cfg S.pool.state).2.store.messageSeq < q := above
      omega

/-- A page that comes back covers what is new below its cursor. -/
theorem Covered.pulled (covered : Covered S) {room : String} {since : Option Int}
    {messages : List StoredMessage} {cursor floor : Int} (room' : String)
    (page : PageOf S room since messages cursor floor) :
    Covered (S.pulled room since (.pulled room' messages cursor)) := by
  let b : Receipt := ⟨room, since, messages, cursor⟩
  -- Past everything received before, up to the page's start, the client has skipped.
  have skips : ∀ seq, highest room S.received < seq → seq ≤ floor →
      Skipped (b :: S.received) room seq := by
    intro seq above below
    rcases page.starts with asked | ⟨-, known⟩
    · exact ⟨[], b, S.received, floor, rfl, rfl, asked, above, below⟩
    · have low := known.2
      omega
  have bounds : ∀ other seq, seq ≤ highest other (b :: S.received) →
      seq ≤ highest other S.received ∨
        other = room ∧ highest room S.received < seq ∧ seq ≤ cursor := by
    intro other seq below
    rw [highest] at below
    split at below
    · rename_i same
      have same : room = other := same
      subst same
      by_cases old : seq ≤ highest room S.received
      · exact Or.inl old
      · have below : seq ≤ max cursor (highest room S.received) := below
        exact Or.inr ⟨rfl, by omega, by omega⟩
    · exact Or.inl below
  refine ⟨?_, ?_⟩
  · intro r member below
    rcases bounds r.room r.seq below with old | ⟨here, above, upto⟩
    · exact (covered.stored r member old).imp (fun got => got.cons b) (fun skip => skip.cons b)
    · by_cases early : r.seq ≤ floor
      · refine Or.inr ?_
        rw [here]
        exact skips r.seq above early
      · rcases page.cursor_cases with ⟨-, same⟩ | ⟨last, ends, same, -⟩
        · omega
        · have listed := (page.holds last ends).2 r member here (by omega) (by omega)
          exact Or.inl ⟨b, List.mem_cons_self, listed⟩
  · intro other seq coming below
    rcases bounds other seq below with old | ⟨rfl, above, upto⟩
    · exact (covered.coming other seq coming old).cons b
    · rcases page.cursor_cases with ⟨-, same⟩ | ⟨last, ends, same, -⟩
      · exact skips seq above (by omega)
      · have bound := (page.holds last ends).1
        have coming : S.pool.state.store.messageSeq < seq := coming
        omega

theorem Covered.receive (covered : Covered S) (known : AcksKnown me S)
    (reach : Pool.Reachable (serve cfg cardBytes) Pool.anySchedule (.boot inflight) S.pool)
    {p : Pending} {t : Nat} {req : Request} {reply : ServerFrame} (busy : S.busy = some p)
    (sent : p.thread = some t) (answer : S.pool.answer t = some (req, [reply])) :
    Covered (S.finish p.task reply) := by
  cases pulls : p.task.pulls with
  | some target =>
    obtain ⟨room, since⟩ := target
    rw [finish_pulls pulls]
    cases reply with
    | pulled room' messages cursor =>
      obtain ⟨floor, page⟩ := known.page reach busy sent pulls answer
      exact covered.pulled room' page
    | _ => exact ⟨covered.stored, covered.coming⟩
  | none =>
    cases task : p.task with
    | commit => cases reply <;> exact ⟨covered.stored, covered.coming⟩
    | _ => rw [task] at pulls; cases pulls

/-- The client and the hub agree, and everything is covered, at every point of a run. -/
theorem session_invariant (reach : S.Reachable cardBytes me inflight) :
    Pool.Reachable (serve cfg cardBytes) Pool.anySchedule (.boot inflight) S.pool ∧
      AcksKnown me S ∧ Covered S := by
  refine Session.Reachable.invariant (I := fun S => AcksKnown me S ∧ Covered S) ?_ ?_ reach
  · refine ⟨⟨fun _ => ⟨le_refl _, le_refl _⟩, ?_, ?_, fun _ => ⟨le_refl _, le_refl _⟩, ?_⟩, ?_, ?_⟩
    · intro p busy
      cases busy
    · intro t me' frame fresh upload rounds prog _ at_t
      cases at_t
    · intro e member
      cases member
    · intro r member
      cases member
    · intro room seq above below
      have above : (0 : Int) < seq := above
      have below : seq ≤ 0 := below
      omega
  · rintro S S' pool ⟨known, covered⟩ step
    cases step with
    | arrive t req free foreign =>
      refine ⟨?_, ⟨covered.stored, covered.coming⟩⟩
      exact AcksMeet.known (known.meets.spawn_foreign _ foreign) known.agent
        (fun p busy => known.busy_spawn free req _ busy)
    | exec t req op after pending enabled =>
      exact ⟨known.exec pool pending, covered.exec t req op after⟩
    | call c idle allowed =>
      exact ⟨known.next (known.agent.start ⟨rfl, rfl⟩ allowed), ⟨covered.stored, covered.coming⟩⟩
    | send p t fresh rounds busy unsent free =>
      exact ⟨known.send busy, ⟨covered.stored, covered.coming⟩⟩
    | receive p t req reply busy sent answer =>
      exact ⟨known.receive pool busy sent answer, covered.receive known pool busy sent answer⟩
    | resend p busy first =>
      refine ⟨⟨known.agent, ?_, known.threads, known.cursor, known.reads⟩,
        ⟨covered.stored, covered.coming⟩⟩
      rintro q ⟨⟩
      obtain ⟨frame, sane, -⟩ := known.busy p busy
      refine ⟨frame, sane, ?_⟩
      intro t sent
      cases sent
    | giveUp p busy =>
      exact ⟨known.next (known.agent.fail p.task), ⟨covered.stored, covered.coming⟩⟩

/-! ## Held rooms -/

/-- A pull writes no membership row but by its cursor update. -/
def pullWrites (req : Request) (op : HubCall) : Prop :=
  ∀ room agent, req.pulls = some (room, agent) → TableName.members ∈ op.writes →
    ∃ v, op = .setCursor room agent v

theorem serve_pullWrites (cfg : HubConfig) (cardBytes : AgentCard → List UInt8) (req : Request) :
    (serve cfg cardBytes req).Calls (pullWrites req) := by
  cases pulled : req.pulls with
  | none =>
    refine (serve_elsewhere cfg cardBytes req pulled).mono ?_
    intro op _ room agent pulls
    rw [pulled] at pulls
    cases pulls
  | some target =>
    obtain ⟨me, since, limit, wait, ack, fresh, upload, rounds, rfl, -⟩ :=
      Request.pulls_frame pulled
    have none : ∀ op : HubCall, TableName.members ∉ op.writes →
        pullWrites (.frame me (.pull target.1 since limit wait ack) fresh upload rounds) op :=
      fun op unwritten _ _ _ written => absurd written unwritten
    refine serve_pull_calls (none _ (by simp [HubCall.writes]))
      (fun _ => none _ (by simp [HubCall.writes])) (none _ (by simp [HubCall.writes]))
      (none _ (by simp [HubCall.writes])) ?_ (fun _ => none _ (by simp [HubCall.writes]))
      (fun _ _ _ => ⟨none _ (by simp [HubCall.writes]), none _ (by simp [HubCall.writes])⟩)
    rintro v - - room agent ⟨⟩ -
    exact ⟨v, rfl⟩

theorem pool_pullWrites {P : HubPool cfg} {G : HubPool cfg → Nat → HubCall → Prop}
    (reach : Pool.Reachable (serve cfg cardBytes) G (.boot inflight) P) {t : Nat}
    {req : Request} {op : HubCall} {after : op.Res → Prog (hubMachine cfg) (List ServerFrame)}
    (pending : P.threads t = some (req, .call op after)) : pullWrites req op := by
  have calls := (reach.own
    (K := fun (req : Request) (p : Prog (hubMachine cfg) (List ServerFrame)) _ =>
      p.Calls (pullWrites req)) (serve_pullWrites cfg cardBytes) ?_).2 t req _ pending
  · exact calls.1
  · exact fun _ _ _ _ r calls => calls.2 r

/-- A pull of a held room carries the ack 0, or asks from a `seq`. -/
theorem held_frame {a : MeshAgent} {task : Task} {room : String} {since : Option Int}
    (pulls : task.pulls = some (room, since)) (held : room ∈ a.heldReads) :
    ∃ limit wait ack, task.frame a = .pull room since limit wait ack ∧
      (since = none → ack = some 0) := by
  cases task with
  | pull r s limit =>
    cases pulls
    refine ⟨_, _, _, rfl, ?_⟩
    rintro rfl
    simp [MeshAgent.ackFor, held]
  | pullParked r limit wait =>
    cases pulls
    exact ⟨_, _, _, rfl, fun _ => by simp [MeshAgent.ackFor, held]⟩
  | commit => cases pulls

/-- A call of such a pull leaves the stored cursor alone. -/
theorem AcksKnown.held (known : AcksKnown me S)
    (reach : Pool.Reachable (serve cfg cardBytes) Pool.anySchedule (.boot inflight) S.pool)
    {t : Nat} {room : String} {since : Option Int} {limit wait : Option Nat} {ack : Option Int}
    {fresh : Fresh} {rounds : Nat} {op : HubCall}
    {after : op.Res → Prog (hubMachine cfg) (List ServerFrame)}
    (zero : since = none → ack = some 0)
    (pending : S.pool.threads t =
      some (.frame me (.pull room since limit wait ack) fresh none rounds, .call op after)) :
    (op.exec cfg S.pool.state).2.store.getCursor room me.id =
      S.pool.state.store.getCursor room me.id := by
  by_cases written : TableName.members ∈ op.writes
  · obtain ⟨v, rfl⟩ := pool_pullWrites reach pending room me.id rfl written
    have moves : Request.moves _ room me.id v := AcksMeet.pool_may reach pending
    unfold Request.moves at moves
    split at moves
    · rename_i same
      cases same
      -- An update would write the ack 0, which is not past any cursor the pull has read.
      have value := moves.2.2 0 (zero rfl)
      obtain ⟨c, read, low⟩ := (reach.follows (serve_cursorRule cardBytes) pending).1
      obtain ⟨newer, g, older, split, reads, -, stored⟩ := lastCursorRead_event read
      have bounds := known.reads g (by rw [split]; simp) room reads.2
      rw [stored] at bounds
      have positive := bounds.1
      omega
    · exact moves.elim
  · have same : _ = S.pool.state.store.members := exec_same cfg op S.pool.state .members written
    unfold Store.getCursor
    rw [same]

/-- A request keeps its place at the hub, whatever becomes of the client's call. -/
theorem Session.Step.threads {S' : Session cfg} (step : Session.Step cardBytes me S S') {t : Nat}
    {req : Request} {prog : Prog (hubMachine cfg) (List ServerFrame)}
    (at_t : S.pool.threads t = some (req, prog)) :
    ∃ prog', S'.pool.threads t = some (req, prog') := by
  have spawned : ∀ u other prog', S.pool.threads u = none →
      (S.pool.spawn u other prog').threads t = some (req, prog) := by
    intro u other prog' free
    have apart : t ≠ u := by
      rintro rfl
      rw [at_t] at free
      cases free
    rw [Pool.spawn_threads, if_neg apart]
    exact at_t
  cases step with
  | arrive u other free foreign => exact ⟨prog, spawned u other _ free⟩
  | exec u other op after pending enabled =>
    dsimp only
    rw [Pool.exec_threads]
    split
    · rename_i same
      subst same
      rw [pending] at at_t
      cases at_t
      exact ⟨_, rfl⟩
    · exact ⟨prog, at_t⟩
  | call c idle allowed => exact ⟨prog, at_t⟩
  | send p u fresh rounds busy unsent free => exact ⟨prog, spawned u _ _ free⟩
  | receive p u other reply busy sent answer =>
    refine ⟨prog, ?_⟩
    cases p.task <;> cases reply <;> exact at_t
  | resend p busy first => exact ⟨prog, at_t⟩
  | giveUp p busy => exact ⟨prog, at_t⟩

theorem threads_kept {S' : Session cfg}
    (later : Relation.ReflTransGen (Session.Step cardBytes me) S S') {t : Nat} {req : Request}
    {prog : Prog (hubMachine cfg) (List ServerFrame)}
    (at_t : S.pool.threads t = some (req, prog)) :
    ∃ prog', S'.pool.threads t = some (req, prog') := by
  induction later with
  | refl => exact ⟨prog, at_t⟩
  | tail _ step ih =>
    obtain ⟨prog', there⟩ := ih
    exact step.threads there

/-! ## The law -/

/-- At every point of every run: the cursor the hub stores for the client is at most the highest
    it has received; a stored message at or below that cursor was in a batch the client
    received, or the client skipped it; and an attempt of a pull made while its room is held
    never moves the cursor, even when the hub gets to it after the client gave it up. -/
theorem delivered_or_skipped (reach : S.Reachable cardBytes me inflight) (room : String) :
    S.pool.state.store.getCursor room me.id ≤ highest room S.received ∧
    (∀ r ∈ S.pool.state.store.messages, r.room = room →
      r.seq ≤ S.pool.state.store.getCursor room me.id →
        Delivered S.received r ∨ Skipped S.received room r.seq) ∧
    ∀ p t since, S.busy = some p → p.thread = some t →
      p.task.pulls = some (room, since) → room ∈ S.agent.heldReads →
      ∀ S' req op after, Relation.ReflTransGen (Session.Step cardBytes me) S S' →
        S'.pool.threads t = some (req, .call op after) →
          (op.exec cfg S'.pool.state).2.store.getCursor room me.id =
            S'.pool.state.store.getCursor room me.id := by
  obtain ⟨-, known, covered⟩ := session_invariant reach
  have low := (known.cursor room).2
  refine ⟨low, ?_, ?_⟩
  · rintro r member rfl below
    exact covered.stored r member (below.trans low)
  · intro p t since busy sent pulls held S' req op after later pending
    obtain ⟨frame, -, thread⟩ := known.busy p busy
    obtain ⟨fresh, rounds, prog, at_t⟩ := thread t sent
    obtain ⟨limit, wait, ack, pulled, zero⟩ := held_frame pulls held
    rw [frame, pulled] at at_t
    -- The attempt keeps its frame, and the hub its invariant, to the end of the run.
    obtain ⟨prog', there⟩ := threads_kept later at_t
    obtain ⟨pool, known', -⟩ := session_invariant (Relation.ReflTransGen.trans reach later)
    rw [pending] at there
    cases there
    exact known'.held pool zero pending

end Invariant

/-! ## Two runs -/

abbrev DemoSession := Session demoConfig

/-- Let request `t` run to its end. -/
def demoRun (t : Nat) : List Session.Action := List.replicate demoSteps (.exec t)

/-- The client makes a call whose frame is served and answered. -/
def demoCall (t : Nat) (c : Call) : List Session.Action :=
  Session.Action.call c :: Session.Action.send t (demoFresh t) 0 :: demoRun t ++ [Session.Action.receive]

/-- Alice opens the room `r`, Bob joins it, and Alice posts twice. -/
def demoRoom : List Session.Action :=
  .arrive 0 (demoFrame 0 alice (.invite .channel (some "r") none none false)) :: demoRun 0 ++
  .arrive 1 (demoFrame 1 bob (.redeem "c0")) :: demoRun 1 ++
  .arrive 2 (demoFrame 2 alice (.send (.room "r") [.text "one"] none none none)) :: demoRun 2 ++
  .arrive 3 (demoFrame 3 alice (.send (.room "r") [.text "two"] none none none)) :: demoRun 3

def demoSession (actions : List Session.Action) : DemoSession :=
  (Session.init (50 * 1024 * 1024)).play (fun _ => []) bob (demoRoom ++ actions)

theorem demoSession_reachable (actions : List Session.Action) :
    (demoSession actions).Reachable (fun _ => []) bob (50 * 1024 * 1024) :=
  Session.play_reachable _ _ _ _

/-- Bob's first pull is served and its reply lost; the re-sent pull brings both messages, and
    he commits them. -/
def lostReply : DemoSession :=
  demoSession (.call (.pull "r" none none) :: .send 4 (demoFresh 4) 0 :: demoRun 4 ++
    .resend :: .send 5 (demoFresh 5) 0 :: demoRun 5 ++ .receive ::
    demoCall 6 (.commitReads "r"))

theorem delivered_or_skipped_demo :
    lostReply.pool.state.store.getCursor "r" bob.id = 2 ∧
      2 ≤ highest "r" lostReply.received := by
  have cursor : lostReply.pool.state.store.getCursor "r" bob.id = 2 := by decide +kernel
  have reach : lostReply.Reachable (fun _ => []) bob (50 * 1024 * 1024) := demoSession_reachable _
  have low := (delivered_or_skipped reach "r").1
  rw [cursor] at low
  exact ⟨cursor, low⟩

/-- Bob reads from 1 on, and commits the cursor that came back. -/
def sinceRead : DemoSession :=
  demoSession (demoCall 4 (.pull "r" (some 1) none) ++ demoCall 5 (.commitReadsThrough "r" 2))

/-- A committed `since` read leaves a message behind the cursor that was never received. -/
theorem since_read_passes_message :
    sinceRead.Reachable (fun _ => []) bob (50 * 1024 * 1024) ∧
      ∃ r ∈ sinceRead.pool.state.store.messages, r.room = "r" ∧
        r.seq ≤ sinceRead.pool.state.store.getCursor "r" bob.id ∧
        ¬ ∃ b ∈ sinceRead.received, r.toStored ∈ b.messages :=
  ⟨demoSession_reachable _, by decide +kernel⟩

end Parler.Connector
