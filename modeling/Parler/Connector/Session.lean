import Parler.Connector.Agent
import Parler.Hub.Rules

/-!
# A client and its hub

One client over the hub's pool of requests. The client makes one call at a time;
its frame may reach the hub or not, the hub may serve it with any other requests
in between, and the reply may reach the client or not. `MeshAgent::request`
re-sends a frame once after a lost connection. An attempt the client has given up
may still be running at the hub. `received` records every batch that came back
from a pull, newest first.
-/

namespace Parler.Connector

open Parler.Lib Parler.Protocol Parler.Hub

/-! ## Calls of the client -/

/-- A call that waits for a reply. A commit made by `flush_acks` is followed by the
    commits of the rooms in `rest`. -/
inductive Task where
  | pull (room : String) (since : Option Int) (limit : Option Nat)
  | pullParked (room : String) (limit : Option Nat) (waitSecs : Nat)
  | commit (room : String) (cursor : Int) (rest : List String)
  deriving DecidableEq

/-- The frame of a call. -/
def Task.frame (a : MeshAgent) : Task → ClientFrame
  | .pull room since limit =>
      .pull room since limit none (if since.isNone then a.ackFor room else none)
  | .pullParked room limit waitSecs => .pull room none limit (some waitSecs) (a.ackFor room)
  | .commit room cursor _ => .pull room none (some 0) none (some cursor)

/-- The public calls that touch the acknowledgement state. -/
inductive Call where
  | pull (room : String) (since : Option Int) (limit : Option Nat)
  | pullParked (room : String) (limit : Option Nat) (waitSecs : Nat)
  | commitReads (room : String)
  | commitReadsThrough (room : String) (cursor : Int)
  | deferReads (room : String)
  | flushAcks (rooms : List String)
  deriving DecidableEq

namespace MeshAgent

variable (a : MeshAgent)

/-- `commit_reads_through` up to its request. -/
def commitReadsThrough (room : String) (cursor : Int) : MeshAgent × Option Task :=
  if a.commitSkips room cursor then (a.release room, none) else (a, some (.commit room cursor []))

/-- The loop of `flush_acks` up to its next request. -/
def flushAcks (a : MeshAgent) : List String → MeshAgent × Option Task
  | [] => (a, none)
  | room :: rest =>
      if a.commitSkips room (a.pending room) then (a.release room).flushAcks rest
      else (a, some (.commit room (a.pending room) rest))

/-- A call up to its request. -/
def start : Call → MeshAgent × Option Task
  | .pull room since limit => (a, some (.pull room since limit))
  | .pullParked room limit waitSecs => (a, some (.pullParked room limit waitSecs))
  | .commitReads room => a.commitReadsThrough room (a.pending room)
  | .commitReadsThrough room cursor => a.commitReadsThrough room cursor
  | .deferReads room => (a.deferReads room, none)
  | .flushAcks rooms => a.flushAcks rooms

/-- What a failed call leaves to do: `flush_acks` swallows the error of a room. -/
def fail : Task → MeshAgent × Option Task
  | .commit _ _ rest => a.flushAcks rest
  | _ => (a, none)

end MeshAgent

/-! ## The session -/

/-- A batch that a pull returned to the client's caller. -/
structure Receipt where
  room : String
  since : Option Int
  messages : List StoredMessage
  cursor : Int

/-- The call in flight: its frame, whether it was re-sent, and the request at the hub that
    serves this attempt. -/
structure Pending where
  task : Task
  frame : ClientFrame
  resent : Bool
  thread : Option Nat

structure Session (cfg : HubConfig) where
  pool : HubPool cfg
  agent : MeshAgent
  busy : Option Pending
  received : List Receipt

namespace Session

variable {cfg : HubConfig}

/-- The session goes on with what the client does next. -/
def next (S : Session cfg) (step : MeshAgent × Option Task) : Session cfg :=
  { S with
    agent := step.1
    busy := step.2.map (fun task => ⟨task, task.frame step.1, false, none⟩) }

/-- A pull returns. -/
def pulled (S : Session cfg) (room : String) (since : Option Int) : ServerFrame → Session cfg
  | .pulled _ messages cursor =>
      { S with
        agent := if since.isNone then S.agent.recordAck room cursor else S.agent
        busy := none
        received := ⟨room, since, messages, cursor⟩ :: S.received }
  | _ => { S with busy := none }

/-- The client gets a reply. -/
def finish (S : Session cfg) : Task → ServerFrame → Session cfg
  | .pull room since _, reply => S.pulled room since reply
  | .pullParked room _ _, reply => S.pulled room none reply
  | .commit room cursor rest, .pulled .. =>
      S.next ((S.agent.recordCommit room cursor).flushAcks rest)
  | .commit _ _ rest, _ => S.next (S.agent.flushAcks rest)

/-- Callers commit only a cursor that came back for the room, and `flush_acks` goes over
    rooms with an ack that are not held, in any order. -/
def Allows (S : Session cfg) : Call → Prop
  | .commitReadsThrough room cursor => ∃ b ∈ S.received, b.room = room ∧ b.cursor = cursor
  | .flushAcks rooms => rooms.Nodup ∧ ∀ room ∈ rooms,
      room ∈ S.agent.pendingAck.map Prod.fst ∧ room ∉ S.agent.heldReads
  | _ => True

/-- A request the client does not make through its pulls. -/
def Foreign (me : Authed) (req : Request) : Prop := ∀ room, req.pulls ≠ some (room, me.id)

variable (cardBytes : AgentCard → List UInt8) (me : Authed)

/-- The steps of a session: a request of someone else arrives at the hub, the hub executes a
    call of any request, the client makes a call, its frame reaches the hub, the
    client gets the reply, the client re-sends the frame, or the call fails. -/
inductive Step : Session cfg → Session cfg → Prop
  | arrive {S : Session cfg} (t : Nat) (req : Request) :
      S.pool.threads t = none → Foreign me req →
        Step S { S with pool := S.pool.spawn t req (serve cfg cardBytes req) }
  | exec {S : Session cfg} (t : Nat) (req : Request) (op : HubCall)
      (after : op.Res → Prog (hubMachine cfg) (List ServerFrame)) :
      S.pool.threads t = some (req, .call op after) → (hubMachine cfg).enabled op S.pool.state →
        Step S { S with pool := S.pool.exec t req op after }
  | call {S : Session cfg} (c : Call) :
      S.busy = none → S.Allows c → Step S (S.next (S.agent.start c))
  | send {S : Session cfg} (p : Pending) (t : Nat) (fresh : Fresh) (rounds : Nat) :
      S.busy = some p → p.thread = none → S.pool.threads t = none →
        Step S { S with
          pool := S.pool.spawn t (.frame me p.frame fresh none rounds)
            (serve cfg cardBytes (.frame me p.frame fresh none rounds))
          busy := some { p with thread := some t } }
  | receive {S : Session cfg} (p : Pending) (t : Nat) (req : Request) (reply : ServerFrame) :
      S.busy = some p → p.thread = some t → S.pool.answer t = some (req, [reply]) →
        Step S (S.finish p.task reply)
  | resend {S : Session cfg} (p : Pending) :
      S.busy = some p → p.resent = false →
        Step S { S with busy := some { p with resent := true, thread := none } }
  | giveUp {S : Session cfg} (p : Pending) :
      S.busy = some p → Step S (S.next (S.agent.fail p.task))

/-- A new client of an empty hub. -/
def init (inflight : Nat) : Session cfg := ⟨.start (.boot inflight), .fresh, none, []⟩

def Reachable (inflight : Nat) (S : Session cfg) : Prop :=
  Relation.ReflTransGen (Step cardBytes me) (init inflight) S

variable {cardBytes me}

/-- The invariant rule: a step may know that the pool is one of a hub's run. -/
theorem Reachable.invariant {inflight : Nat} {I : Session cfg → Prop} (start : I (init inflight))
    (step : ∀ S S', Pool.Reachable (serve cfg cardBytes) Pool.anySchedule (.boot inflight) S.pool →
      I S → Step cardBytes me S S' → I S') {S : Session cfg}
    (reach : Reachable cardBytes me inflight S) :
    Pool.Reachable (serve cfg cardBytes) Pool.anySchedule (.boot inflight) S.pool ∧ I S := by
  induction reach with
  | refl => exact ⟨Relation.ReflTransGen.refl, start⟩
  | tail _ taken ih =>
    obtain ⟨pool, holds⟩ := ih
    refine ⟨?_, step _ _ pool holds taken⟩
    cases taken with
    | arrive t req free _ => exact pool.tail (.spawn t req free)
    | exec t req op after pending enabled =>
      refine pool.tail ?_
      exact Pool.Step.exec (M := hubMachine cfg) (G := Pool.anySchedule) t req op after pending
        enabled trivial
    | call c idle allowed => exact pool
    | send p t fresh rounds busy unsent free => exact pool.tail (.spawn t _ free)
    | receive p t req reply busy sent answer =>
      cases p.task with
      | pull room since limit => cases reply <;> exact pool
      | pullParked room limit wait => cases reply <;> exact pool
      | commit room cursor rest => cases reply <;> exact pool
    | resend p busy fresh => exact pool
    | giveUp p busy => exact pool

/-! ## Executable schedules -/

instance (S : Session cfg) : (c : Call) → Decidable (S.Allows c)
  | .commitReadsThrough room cursor =>
      inferInstanceAs (Decidable (∃ b ∈ S.received, b.room = room ∧ b.cursor = cursor))
  | .flushAcks rooms =>
      inferInstanceAs (Decidable (rooms.Nodup ∧ ∀ room ∈ rooms,
        room ∈ S.agent.pendingAck.map Prod.fst ∧ room ∉ S.agent.heldReads))
  | .pull .. => isTrue trivial
  | .pullParked .. => isTrue trivial
  | .commitReads _ => isTrue trivial
  | .deferReads _ => isTrue trivial

instance (me : Authed) (req : Request) : Decidable (Foreign me req) :=
  match pulls : req.pulls with
  | none => isTrue (fun room same => nomatch pulls.symm.trans same)
  | some (room, agent) =>
      if own : agent = me.id then
        isFalse (fun foreign => foreign room (by rw [pulls, own]))
      else isTrue (fun other same => by
        rw [pulls] at same
        exact own (Prod.mk.inj (Option.some.inj same)).2)

/-- One decision: what arrives at the hub, which request makes its next call, what the
    client does, and what happens to its frame. -/
inductive Action where
  | arrive (t : Nat) (req : Request)
  | exec (t : Nat)
  | call (c : Call)
  | send (t : Nat) (fresh : Fresh) (rounds : Nat)
  | receive
  | resend
  | giveUp

section Play

variable (cardBytes : AgentCard → List UInt8) (me : Authed)

/-- Carry out a decision; one that is not possible is skipped. -/
def act (S : Session cfg) : Action → Session cfg
  | .arrive t req =>
      if (S.pool.threads t).isNone ∧ Foreign me req then
        { S with pool := S.pool.spawn t req (serve cfg cardBytes req) }
      else S
  | .exec t =>
      match S.pool.threads t with
      | some (req, .call op after) =>
          if (hubMachine cfg).enabled op S.pool.state then
            { S with pool := S.pool.exec t req op after }
          else S
      | _ => S
  | .call c =>
      if S.busy.isNone ∧ S.Allows c then S.next (S.agent.start c) else S
  | .send t fresh rounds =>
      match S.busy with
      | some p =>
          if p.thread = none ∧ (S.pool.threads t).isNone then
            { S with
              pool := S.pool.spawn t (.frame me p.frame fresh none rounds)
                (serve cfg cardBytes (.frame me p.frame fresh none rounds))
              busy := some { p with thread := some t } }
          else S
      | none => S
  | .receive =>
      match S.busy with
      | some p =>
          match p.thread.bind S.pool.answer with
          | some (_, [reply]) => S.finish p.task reply
          | _ => S
      | none => S
  | .resend =>
      match S.busy with
      | some p => if p.resent = false then
          { S with busy := some { p with resent := true, thread := none } } else S
      | none => S
  | .giveUp =>
      match S.busy with
      | some p => S.next (S.agent.fail p.task)
      | none => S

def play (S : Session cfg) (actions : List Action) : Session cfg :=
  actions.foldl (act cardBytes me) S

theorem act_step (S : Session cfg) (x : Action) :
    S.act cardBytes me x = S ∨ Step cardBytes me S (S.act cardBytes me x) := by
  cases x with
  | arrive t req =>
    rw [act]
    split
    · rename_i possible
      exact Or.inr (.arrive t req (Option.isNone_iff_eq_none.mp possible.1) possible.2)
    · exact Or.inl rfl
  | exec t =>
    rw [act]
    split
    · rename_i req op after at_t
      split
      · rename_i enabled
        exact Or.inr (.exec t req op after at_t enabled)
      · exact Or.inl rfl
    · exact Or.inl rfl
  | call c =>
    rw [act]
    split
    · rename_i possible
      exact Or.inr (.call c (Option.isNone_iff_eq_none.mp possible.1) possible.2)
    · exact Or.inl rfl
  | send t fresh rounds =>
    rw [act]
    split
    · rename_i p busy
      split
      · rename_i possible
        exact Or.inr (.send p t fresh rounds busy possible.1
          (Option.isNone_iff_eq_none.mp possible.2))
      · exact Or.inl rfl
    · exact Or.inl rfl
  | receive =>
    rw [act]
    split
    · rename_i p busy
      split
      · rename_i req reply answered
        obtain ⟨t, sent, answer⟩ := Option.bind_eq_some_iff.mp answered
        exact Or.inr (.receive p t req reply busy sent answer)
      · exact Or.inl rfl
    · exact Or.inl rfl
  | resend =>
    rw [act]
    split
    · rename_i p busy
      split
      · rename_i first
        exact Or.inr (.resend p busy first)
      · exact Or.inl rfl
    · exact Or.inl rfl
  | giveUp =>
    rw [act]
    split
    · rename_i p busy
      exact Or.inr (.giveUp p busy)
    · exact Or.inl rfl

/-- Whatever is played is a run of the session. -/
theorem play_reachable (inflight : Nat) (actions : List Action) :
    Reachable cardBytes me inflight ((init inflight : Session cfg).play cardBytes me actions) := by
  have general : ∀ S : Session cfg, Reachable cardBytes me inflight S →
      Reachable cardBytes me inflight (S.play cardBytes me actions) := by
    induction actions with
    | nil => exact fun S reach => reach
    | cons x actions ih =>
      intro S reach
      refine ih (S.act cardBytes me x) ?_
      rcases act_step cardBytes me S x with same | step
      · rw [same]
        exact reach
      · exact reach.tail step
  exact general _ Relation.ReflTransGen.refl

end Play

end Session

end Parler.Connector
