import Parler.Connector.Session
import Parler.Hub.Backlog
import Parler.Hub.Cursors
import Parler.Hub.ReadIsolation

/-!
# Acknowledgements at the hub

What the hub stores as the cursor of an agent comes from the acks of the agent's own pulls. A
property of cursors that every ack in flight has, and 0 has, is therefore a property of every
cursor the hub stores and of every cursor a pull has read, and the page a pull returns starts at a
cursor with the property.
-/

namespace Parler.Connector

open Parler.Lib Parler.Protocol Parler.Hub

variable {cfg : HubConfig} {me : Authed}

/-- A pull asks from a `seq`, or carries an ack with the property. -/
def Meets (K : String → Int → Prop) : ClientFrame → Prop
  | .pull room since _ _ ack => since.isSome ∨ ∃ a, ack = some a ∧ K room a
  | _ => True

theorem Meets.mono {K L : String → Int → Prop} (weaker : ∀ room v, K room v → L room v)
    {frame : ClientFrame} (meets : Meets K frame) : Meets L frame := by
  cases frame with
  | pull room since limit wait ack =>
    rcases meets with asks | ⟨a, own, holds⟩
    · exact Or.inl asks
    · exact Or.inr ⟨a, own, weaker room a holds⟩
  | _ => trivial

/-- The acks of the agent's frames at the hub, its stored cursors and those that calls have read
    have the property. -/
structure AcksMeet (K : String → Int → Prop) (me : Authed) (P : HubPool cfg) : Prop where
  threads : ∀ t me' frame fresh upload rounds prog, me'.id = me.id →
    P.threads t = some (.frame me' frame fresh upload rounds, prog) → Meets K frame
  cursor : ∀ room, K room (P.state.store.getCursor room me.id)
  reads : ∀ e ∈ P.log, ∀ room, e.op = .getCursor room me.id →
    K room (e.before.store.getCursor room me.id)

namespace AcksMeet

variable {K L : String → Int → Prop} {cardBytes : AgentCard → List UInt8} {inflight : Nat}
  {P : HubPool cfg}

theorem mono (meets : AcksMeet K me P) (weaker : ∀ room v, K room v → L room v) :
    AcksMeet L me P :=
  ⟨fun t me' frame fresh upload rounds prog same at_t =>
      (meets.threads t me' frame fresh upload rounds prog same at_t).mono weaker,
    fun room => weaker room _ (meets.cursor room),
    fun e member room reads => weaker room _ (meets.reads e member room reads)⟩

/-- What a request in flight may call. -/
theorem pool_may {P : HubPool cfg} {G : HubPool cfg → Nat → HubCall → Prop}
    (reach : Pool.Reachable (serve cfg cardBytes) G (.boot inflight) P) {t : Nat}
    {req : Request} {op : HubCall} {after : op.Res → Prog (hubMachine cfg) (List ServerFrame)}
    (pending : P.threads t = some (req, .call op after)) : req.may (Pool.ownPast P.log t) op := by
  have follows := (reach.own
    (K := fun (req : Request) (p : Prog (hubMachine cfg) (List ServerFrame)) past =>
      p.Follows (Request.may req) past) (serve_may cfg cardBytes) ?_).2 t req _ pending
  · exact follows.1
  · exact fun _ _ _ _ r follows => follows.2 r

/-- A cursor update by a request of the agent writes one of its acks. -/
theorem update (meets : AcksMeet K me P)
    (reach : Pool.Reachable (serve cfg cardBytes) Pool.anySchedule (.boot inflight) P) {t : Nat}
    {req : Request} {room : String} {v : Int}
    {after : Unit → Prog (hubMachine cfg) (List ServerFrame)}
    (pending : P.threads t = some (req, .call (.setCursor room me.id v) after)) : K room v := by
  have moves : req.moves room me.id v := pool_may reach pending
  unfold Request.moves at moves
  split at moves
  · obtain ⟨rfl, same, own⟩ := moves
    rcases meets.threads t _ _ _ _ _ _ same pending with asks | ⟨a, ack, holds⟩
    · cases asks
    · rw [own a ack]
      exact holds
  · exact moves.elim

theorem exec (meets : AcksMeet K me P) (zero : ∀ room, K room 0)
    (reach : Pool.Reachable (serve cfg cardBytes) Pool.anySchedule (.boot inflight) P) {t : Nat}
    {req : Request} {op : HubCall} {after : op.Res → Prog (hubMachine cfg) (List ServerFrame)}
    (pending : P.threads t = some (req, .call op after)) :
    AcksMeet K me (P.exec t req op after) := by
  refine ⟨?_, ?_, ?_⟩
  · intro u me' frame fresh upload rounds prog same at_u
    rw [Pool.exec_threads] at at_u
    split at at_u
    · cases at_u
      exact meets.threads t _ _ _ _ _ _ same pending
    · exact meets.threads u _ _ _ _ _ _ same at_u
  · intro room
    show K room ((op.exec cfg P.state).2.store.getCursor room me.id)
    rcases getCursor_exec cfg op P.state room me.id with same | gone | moved
    · rw [same]
      exact meets.cursor room
    · rw [gone]
      exact zero room
    · generalize (op.exec cfg P.state).2.store.getCursor room me.id = v at moved ⊢
      subst moved
      exact meets.update reach pending
  · intro e member room reads
    rcases List.mem_cons.mp member with rfl | old
    · exact meets.cursor room
    · exact meets.reads e old room reads

/-- A request arrives whose ack, if it is the agent's, has the property. -/
theorem spawn (meets : AcksMeet K me P) {t : Nat} (req : Request)
    (p : Prog (hubMachine cfg) (List ServerFrame))
    (own : ∀ me' frame fresh upload rounds, req = .frame me' frame fresh upload rounds →
      me'.id = me.id → Meets K frame) : AcksMeet K me (P.spawn t req p) := by
  refine ⟨?_, meets.cursor, meets.reads⟩
  intro u me' frame fresh upload rounds prog same at_u
  rw [Pool.spawn_threads] at at_u
  split at at_u
  · cases at_u
    exact own me' frame fresh upload rounds rfl same
  · exact meets.threads u _ _ _ _ _ _ same at_u

/-- A request that pulls nothing of the agent arrives. -/
theorem spawn_foreign (meets : AcksMeet K me P) {t : Nat} {req : Request}
    (p : Prog (hubMachine cfg) (List ServerFrame)) (foreign : Session.Foreign me req) :
    AcksMeet K me (P.spawn t req p) := by
  apply meets.spawn
  rintro me' frame fresh upload rounds rfl same
  cases frame with
  | pull room since limit wait ack =>
    exact absurd (congrArg (fun id => some (room, id)) same) (foreign room)
  | _ => trivial

/-- A pull reads no more than its limit. -/
def readsLimit (req : Request) (op : HubCall) : Prop :=
  ∀ me room since limit wait ack fresh upload rounds,
    req = .frame me (.pull room since limit wait ack) fresh upload rounds →
      ∀ r agent floor lim, op = .readBacklog r agent floor lim → lim = Store.pullLimit limit

theorem serve_readsLimit (cardBytes : AgentCard → List UInt8) (req : Request) :
    (serve cfg cardBytes req).Calls (readsLimit req) := by
  by_cases pulls : ∃ me room since limit wait ack fresh upload rounds,
      req = .frame me (.pull room since limit wait ack) fresh upload rounds
  · obtain ⟨me, room, since, limit, wait, ack, fresh, upload, rounds, rfl⟩ := pulls
    apply serve_pull_calls
    · rintro _ _ _ _ _ _ _ _ _ ⟨⟩ _ _ _ _ ⟨⟩
    · rintro _ _ _ _ _ _ _ _ _ _ ⟨⟩ _ _ _ _ ⟨⟩
    · rintro _ _ _ _ _ _ _ _ _ ⟨⟩ _ _ _ _ ⟨⟩
    · rintro _ _ _ _ _ _ _ _ _ ⟨⟩ _ _ _ _ ⟨⟩
    · rintro _ _ _ _ _ _ _ _ _ _ _ _ ⟨⟩ _ _ _ _ ⟨⟩
    · rintro floor _ _ _ _ _ _ _ _ _ ⟨⟩ _ _ _ _ ⟨⟩
      rfl
    · intro _ _ _
      constructor <;> rintro _ _ _ _ _ _ _ _ _ ⟨⟩ _ _ _ _ ⟨⟩
  · refine (serve_may cfg cardBytes req).calls ?_
    intro past op _ me room since limit wait ack fresh upload rounds same
    exact absurd ⟨me, room, since, limit, wait, ack, fresh, upload, rounds, same⟩ pulls

/-- The page of a reply to a pull of the agent starts where the pull asked, or at a cursor with the
    property; it still holds every message of the room up to its last one, and no more than the
    limit. -/
theorem page (meets : AcksMeet K me P)
    (reach : Pool.Reachable (serve cfg cardBytes) Pool.anySchedule (.boot inflight) P)
    {t : Nat} {room room' : String} {since ack : Option Int} {limit wait : Option Nat}
    {messages : List StoredMessage} {cursor : Int} {fresh : Fresh} {upload : Option (List UInt8)}
    {rounds : Nat} {frames : List ServerFrame}
    (at_t : P.threads t =
      some (.frame me (.pull room since limit wait ack) fresh upload rounds, .ret frames))
    (answer : .pulled room' messages cursor ∈ frames) :
    ∃ floor, PageHolds P.state.store room floor messages ∧ (∀ m ∈ messages, floor < m.seq) ∧
      cursor = (messages.getLast?.map StoredMessage.seq).getD floor ∧
      (since = some floor ∨ since = none ∧ K room floor) ∧
      messages.length ≤ Store.pullLimit limit := by
  have own := meets.threads t _ _ _ _ _ _ rfl at_t
  obtain ⟨-, floor, lim, recorded, starts, ends⟩ := reach.ends (serve_pulledPages cardBytes) at_t
    me room since limit wait ack fresh upload rounds rfl room' messages cursor answer
  obtain ⟨⟨u, op, h⟩, logged, byOwn, same⟩ := Pool.ownPast_event recorded
  obtain ⟨rfl, result⟩ := Sigma.mk.inj same
  have page : h.store.readBacklog room floor lim = messages := eq_of_heq result
  refine ⟨floor, ?_, ?_, ends, ?_, ?_⟩
  · rw [← page]
    exact (pages_hold reach).2 _ logged room me.id floor lim rfl
  · intro m listed
    rw [← page] at listed
    obtain ⟨row, -, -, above, rfl⟩ := Store.mem_readBacklog listed
    exact above
  rotate_left
  · have lims : lim = Store.pullLimit limit :=
      reach.calls (serve_readsLimit cardBytes) at_t logged byOwn me room since limit wait ack fresh
        upload rounds rfl room me.id floor lim rfl
    rw [← page, ← lims, Store.readBacklog, List.length_map]
    exact List.length_take_le _ _
  · refine starts.imp_right ?_
    rintro ⟨rfl, -, read | acked⟩
    · refine ⟨rfl, ?_⟩
      obtain ⟨⟨u, op, h⟩, logged, -, same⟩ := Pool.ownPast_event read
      obtain ⟨rfl, result⟩ := Sigma.mk.inj same
      have value : h.store.getCursor room me.id = floor := eq_of_heq result
      rw [← value]
      exact meets.reads _ logged room rfl
    · rcases own with asks | ⟨a, same, holds⟩
      · cases asks
      · rw [acked] at same
        cases same
        exact ⟨rfl, holds⟩

end AcksMeet

end Parler.Connector
