import Parler.Connector.Process

/-!
# Acknowledged and dealt with

When may a process acknowledge a batch? `D` says which messages of a room are dealt with, as the
turns of the processes so far show. If every ack that is sent is a cursor up to which all messages
of the room are dealt with, the cursor that the hub stores is one too, at every point of the run;
and a batch that comes back leaves out only messages that are dealt with.
-/

namespace Parler.Connector

open Parler.Lib Parler.Protocol Parler.Hub

variable {cfg : HubConfig} {H : Host} {α κ : Type}
  (D : List (Turn (clientMachine H)) → StoredMessage → Prop) (room : String)

/-- Every message of the room up to the cursor is dealt with or among the given ones. -/
def Covers (s : Store) (log : List (Turn (clientMachine H))) (messages : List StoredMessage)
    (cursor : Int) : Prop :=
  0 ≤ cursor ∧ cursor ≤ s.messageSeq ∧ ∀ r ∈ s.messages, r.room = room → r.seq ≤ cursor →
    D log r.toStored ∨ r.toStored ∈ messages

/-- A cursor of the room up to which all messages are dealt with. -/
def SafeAck (s : Store) (log : List (Turn (clientMachine H))) (other : String) (cursor : Int) : Prop :=
  other = room → Covers D room s log [] cursor

variable {D room}

theorem Covers.exec {h : HubState} {log : List (Turn (clientMachine H))}
    {messages : List StoredMessage} {cursor : Int} (covers : Covers D room h.store log messages cursor)
    (op : HubCall) : Covers D room (op.exec cfg h).2.store log messages cursor := by
  obtain ⟨positive, bound, dealt⟩ := covers
  cases messageChange_exec cfg op h with
  | kept p rows seq =>
    refine ⟨positive, bound.trans seq, ?_⟩
    intro r member
    rw [rows] at member
    exact dealt r (List.mem_filter.mp member).1
  | appended m _ rows seq =>
    refine ⟨positive, by rw [seq]; omega, ?_⟩
    intro r member here below
    rw [rows] at member
    rcases List.mem_append.mp member with old | new
    · exact dealt r old here below
    · -- The new message comes after the cursor.
      rw [List.mem_singleton.mp new] at below
      have below : h.store.messageSeq + 1 ≤ cursor := below
      omega

theorem Covers.grow {s : Store} {log : List (Turn (clientMachine H))}
    {messages : List StoredMessage} {cursor : Int} (covers : Covers D room s log messages cursor)
    {log' : List (Turn (clientMachine H))} (grows : ∀ m, D log m → D log' m) :
    Covers D room s log' messages cursor :=
  ⟨covers.1, covers.2.1, fun r member here below =>
    (covers.2.2 r member here below).imp_left (grows r.toStored)⟩

/-- A batch all of whose messages are dealt with. -/
theorem Covers.dealt {s : Store} {log : List (Turn (clientMachine H))}
    {messages : List StoredMessage} {cursor : Int} (covers : Covers D room s log messages cursor)
    (all : ∀ m ∈ messages, D log m) : Covers D room s log [] cursor := by
  refine ⟨covers.1, covers.2.1, ?_⟩
  intro r member here below
  rcases covers.2.2 r member here below with dealt | listed
  · exact Or.inl dealt
  · exact Or.inl (all _ listed)

/-- A page that starts at a safe cursor covers what is up to its end. -/
theorem Covers.page {s : Store} {log : List (Turn (clientMachine H))} {floor cursor : Int}
    {messages : List StoredMessage} (safe : Covers D room s log [] floor)
    (holds : PageHolds s room floor messages) (above : ∀ m ∈ messages, floor < m.seq)
    (ends : cursor = (messages.getLast?.map StoredMessage.seq).getD floor) :
    Covers D room s log messages cursor := by
  cases last : messages.getLast? with
  | none =>
    rw [last] at ends
    have same : cursor = floor := ends
    rw [same]
    exact ⟨safe.1, safe.2.1, fun r member here below =>
      Or.inl ((safe.2.2 r member here below).resolve_right List.not_mem_nil)⟩
  | some m =>
    rw [last] at ends
    have same : cursor = m.seq := ends
    obtain ⟨bound, listed⟩ := holds m last
    have past := above m (List.mem_of_getLast? last)
    have start := safe.1
    refine ⟨by omega, by omega, ?_⟩
    intro r member here below
    by_cases early : r.seq ≤ floor
    · exact Or.inl ((safe.2.2 r member here early).resolve_right List.not_mem_nil)
    · exact Or.inr (listed r member here (by omega) (by omega))

variable (D room) in
/-- The acks at the hub and its cursors are safe, and every batch of the room covers what is up to
    its end, within its limit. -/
structure Tracked (me : Authed) (w : Site cfg H α) : Prop where
  meets : AcksMeet (SafeAck D room w.pool.state.store w.log) me w.pool
  batches : ∀ n limit wait ack room' messages cursor,
    ⟨n, ⟨ClientCall.request (.pull room none limit wait ack),
      some (.pulled room' messages cursor)⟩⟩ ∈ w.log →
      Covers D room w.pool.state.store w.log messages cursor ∧
        messages.length ≤ Store.pullLimit limit

variable (room) in
/-- A cursor that a process may acknowledge after its turns: 0, or the one of a batch it has dealt
    with. -/
def Acknowledges (dealt : List (ClientDone H) → StoredMessage → Prop) (past : List (ClientDone H))
    (cursor : Int) : Prop :=
  cursor = 0 ∨ ∃ limit wait ack room' messages,
    ⟨ClientCall.request (.pull room none limit wait ack), some (.pulled room' messages cursor)⟩ ∈ past ∧
    (messages.length ≤ Store.pullLimit limit → ∀ m ∈ messages, dealt past m)

theorem Acknowledges.cons {dealt : List (ClientDone H) → StoredMessage → Prop}
    {past : List (ClientDone H)} {cursor : Int} (may : Acknowledges room dealt past cursor)
    (grows : ∀ d past m, dealt past m → dealt (d :: past) m) (d : ClientDone H) :
    Acknowledges room dealt (d :: past) cursor := by
  rcases may with zero | ⟨limit, wait, ack, room', messages, received, all⟩
  · exact Or.inl zero
  · exact Or.inr ⟨limit, wait, ack, room', messages, List.mem_cons_of_mem d received,
      fun short m listed => grows d past m (all short m listed)⟩

section Steps

variable {U : Setup cfg H α κ} {G : Site cfg H α → SiteAction H κ → Prop} {inflight : Nat}
  {w : Site cfg H α}

theorem safeAck_zero (reach : Site.Reachable U G inflight w) (other : String) :
    SafeAck D room w.pool.state.store w.log other 0 := by
  intro _
  obtain ⟨start, positive⟩ := seq_positive reach.pool
  refine ⟨le_refl _, start, ?_⟩
  intro r member _ below
  have above := positive r member
  omega

theorem tracked_init (me : Authed) (inflight : Nat) :
    Tracked D room me (Site.init inflight : Site cfg H α) := by
  refine ⟨⟨?_, ?_, ?_⟩, by simp⟩
  · intro t me' frame fresh upload rounds prog _ at_t
    cases at_t
  · intro other _
    refine ⟨le_refl _, le_refl _, ?_⟩
    intro r member
    cases member
  · intro e member
    cases member

/-- The step lemma: if what the processes are about to send is safe, the site stays tracked. -/
theorem Tracked.act (tracked : Tracked D room U.me w) (reach : Site.Reachable U G inflight w)
    (grows : ∀ turn log m, D log m → D (turn :: log) m)
    (acks : ∀ n p frame after, w.procs n = some p →
      p.prog = .call (ClientCall.request frame) after →
        Meets (SafeAck D room w.pool.state.store w.log) frame)
    {x : SiteAction H κ} {w' : Site cfg H α} (change : w.Change U x w') :
    Tracked D room U.me w' := by
  obtain ⟨meets, batches⟩ := tracked
  cases change with
  | same | start | stop | resend => exact ⟨meets, batches⟩
  | arrive t req free foreign => exact ⟨meets.spawn_foreign _ foreign, batches⟩
  | exec t req op after pending enabled =>
    refine ⟨?_, ?_⟩
    · refine (meets.exec (safeAck_zero reach) reach.pool pending).mono ?_
      intro other v safe here
      exact (safe here).exec op
    · intro n limit wait ack room' messages cursor logged
      obtain ⟨covers, short⟩ := batches n limit wait ack room' messages cursor logged
      exact ⟨covers.exec op, short⟩
  | send n t p frame after fresh rounds alive pending free =>
    refine ⟨?_, batches⟩
    apply meets.spawn
    rintro _ _ _ _ _ ⟨⟩ _
    exact acks n p frame after alive pending
  | turn x n p op after r guard disk alive pending effect =>
    refine ⟨?_, ?_⟩
    · apply meets.mono
      intro other v safe here
      exact (safe here).grow (grows _ _)
    · intro m limit wait ack room' messages cursor logged
      rcases List.mem_cons.mp logged with new | old
      · -- A batch comes back.
        cases new
        generalize same : (some (ServerFrame.pulled room' messages cursor) : Option ServerFrame) =
          result at effect
        cases effect with
        | failed => cases same
        | reply frame sent answer =>
          cases same
          obtain ⟨frame, after', fresh, rounds, prog, pending', at_t⟩ := reach.flights alive sent
          rw [pending] at pending'
          cases pending'
          have done := Pool.answer_eq answer
          rw [at_t] at done
          cases done
          obtain ⟨floor, holds, above, ends, impossible | ⟨-, safe⟩, short⟩ :=
            meets.page reach.pool at_t (List.mem_singleton.mpr rfl)
          · cases impossible
          · exact ⟨((safe rfl).page holds above ends).grow (grows _ _), short⟩
      · obtain ⟨covers, short⟩ := batches m limit wait ack room' messages cursor old
        exact ⟨covers.grow (grows _ _), short⟩

/-- What a process may acknowledge is safe, when what its turns show as dealt with is. -/
theorem Tracked.acknowledges (tracked : Tracked D room U.me w)
    (reach : Site.Reachable U G inflight w) {n : Nat}
    {dealt : List (ClientDone H) → StoredMessage → Prop} {cursor : Int}
    (may : Acknowledges room dealt (turnsOf w.log n) cursor)
    (sound : ∀ m, dealt (turnsOf w.log n) m → D w.log m) :
    Covers D room w.pool.state.store w.log [] cursor := by
  rcases may with rfl | ⟨limit, wait, ack, room', messages, received, all⟩
  · exact safeAck_zero reach room rfl
  · obtain ⟨covers, short⟩ :=
      tracked.batches n limit wait ack room' messages cursor (mem_turnsOf.mp received)
    apply covers.dealt
    intro m listed
    exact sound m (all short m listed)

end Steps

end Parler.Connector
