import Parler.Connector.Runtime
import Parler.Hub.Members
import Parler.Hub.WakeUps

/-!
# Held traffic

A runtime that calls `receive` again and again on a room to which nothing is added. A batch with a
held message is never acknowledged, so the next call reads it again: a runtime never gets past the
first page with a held message on it, whatever comes after.
-/

namespace Parler.Connector

open Parler.Lib Parler.Protocol Parler.Hub

/-! ## A process alone with its hub -/

/-- A host that is asked nothing. -/
def noHost : Host := ⟨Empty, Empty.elim⟩

/-- The hub, the ledger file, the guard of the process and its acknowledgement state. -/
structure Desk where
  hub : HubState
  disk : Option (List String)
  guard : AutonomousReplayGuard

variable (cfg : HubConfig) (cardBytes : AgentCard → List UInt8) (fresh : Fresh)
  (rt : ConnectorRuntime)

/-- The answers of the hub and the ledger without errors. The limits of rate and size, which refuse a
    frame as a whole, are left out. -/
def Desk.answer : (op : ClientCall noHost) → Desk → op.Res × Desk
  | .request frame, w =>
      match (handleFrame cfg rt.me fresh cardBytes frame).prog.run w.hub with
      | (.ok reply, hub) => (some reply, { w with hub := hub })
      | (.error _, hub) => (none, { w with hub := hub })
  | .admitMessage message, w =>
      let (admitted, disk, guard) := w.guard.admitMessage w.disk none rt.floats rt.verify message rt.me.id
      (admitted, { w with disk := disk, guard := guard })
  | .complete messages, w => ((), { w with guard := w.guard.complete messages })
  | .release messages, w =>
      let (released, disk, guard) := w.guard.release w.disk none messages
      (released, { w with disk := disk, guard := guard })
  | .sign .., w => (none, w)
  | .ask question, _ => question.elim

/-- A process between two calls. -/
structure Reader where
  desk : Desk
  agent : MeshAgent

namespace Reader

variable (room : String) (kind : RoomKind) (workerRole : Option String) (limit : Option Nat)

def receive (w : Reader) : Option Received × Reader :=
  let ((agent, received), desk) :=
    drive (Desk.answer cfg cardBytes fresh rt) (rt.receive room kind workerRole w.agent limit) w.desk
  (received, ⟨desk, agent⟩)

/-- After a number of calls. -/
def after (n : Nat) (w : Reader) : Reader :=
  (fun w => (receive cfg cardBytes fresh rt room kind workerRole limit w).2)^[n] w

/-- Some call returns the message. -/
def Returns (w : Reader) (m : StoredMessage) : Prop :=
  ∃ n received, (receive cfg cardBytes fresh rt room kind workerRole limit
    (after cfg cardBytes fresh rt room kind workerRole limit n w)).1 = some received ∧
      m ∈ received.messages

end Reader

/-! ## A pull that acknowledges -/

section Pull

variable {h : HubState} {room : String}

theorem handlePull_run {me : Authed} (member : h.store.isMember room me.id = true) (limit : Option Nat)
    (ack : Int) :
    (handleFrame cfg me fresh cardBytes (.pull room none limit none (some ack))).prog.run h =
      (.ok (.pulled room
        (h.store.readBacklog room (max (h.store.getCursor room me.id) ack) (Store.pullLimit limit))
        (((h.store.readBacklog room (max (h.store.getCursor room me.id) ack)
          (Store.pullLimit limit)).getLast?.map StoredMessage.seq).getD
            (max (h.store.getCursor room me.id) ack))),
        if ack > h.store.getCursor room me.id then
          { h with store := h.store.setCursor room me.id ack } else h) := by
  show (handlePull cfg me room none limit (some ack)).prog.run h = _
  by_cases newer : ack > h.store.getCursor room me.id
  · rw [if_pos newer, max_eq_right (le_of_lt newer)]
    simp [handlePull, requireMember, storePull, pullFloor, Handler.call, Handler.fail, Handler.andThen,
      hubMachine, HubCall.exec, member, newer, Bind.bind, Pure.pure, Prog.bind, Prog.run]
    exact ⟨rfl, rfl⟩
  · rw [if_neg newer, max_eq_left (not_lt.mp newer)]
    simp [handlePull, requireMember, storePull, pullFloor, Handler.call, Handler.fail, Handler.andThen,
      hubMachine, HubCall.exec, member, newer, Bind.bind, Pure.pure, Prog.bind, Prog.run]

theorem Desk.answer_request {w : Desk} {frame : ClientFrame} {reply : ServerFrame} {hub : HubState}
    (ran : (handleFrame cfg rt.me fresh cardBytes frame).prog.run w.hub = (.ok reply, hub)) :
    w.answer cfg cardBytes fresh rt (.request frame) = (some reply, { w with hub := hub }) := by
  simp only [Desk.answer, ran]
  rfl

end Pull

/-! ## Sifting a page -/

section Sift

variable (room : String) (kind : RoomKind) (workerRole : Option String)

/-- How the runtime treats a message: a peer's with a valid signature, by its policy. -/
def ConnectorRuntime.treats (m : StoredMessage) (decision : AttentionDecision) : Prop :=
  m.sender.id ≠ rt.me.id ∧ verifyMessageForRoom rt.floats rt.verify m rt.me.id = .valid ∧
    rt.attention.decide room kind m rt.me.name (rt.role workerRole) = decision

variable {rt room kind workerRole} in
/-- A message that counts has a key. -/
theorem ConnectorRuntime.treats.keyed {m : StoredMessage} {decision : AttentionDecision}
    (treated : rt.treats room kind workerRole m decision) : ∃ key, replayKey m = some key := by
  obtain ⟨sig, signed, -⟩ := verifyMessageForRoom_valid.mp treated.2.1
  refine ⟨m.sender.id ++ ":" ++ sig.uid, ?_⟩
  rw [replayKey, signed]
  rfl

instance (m : StoredMessage) (decision : AttentionDecision) :
    Decidable (rt.treats room kind workerRole m decision) :=
  inferInstanceAs (Decidable (_ ∧ _ ∧ _))

/-- The messages of a page that are admitted, from a ledger, and the ledger after them. -/
def ConnectorRuntime.admitted : List StoredMessage → List String → List StoredMessage × List String
  | [], ledger => ([], ledger)
  | m :: rest, ledger =>
      match replayKey m with
      | some key =>
          if rt.treats room kind workerRole m .wake ∧ key ∉ ledger then
            let (messages, ledger) := admitted rest (lastN replayCap (ledger ++ [key]))
            (m :: messages, ledger)
          else admitted rest ledger
      | none => admitted rest ledger

/-- The ledger of the process. -/
def Desk.ledger (w : Desk) : List String := w.disk.getD []

/-- The ledger file and the guard are as every operation leaves them. -/
def Desk.Formed (w : Desk) : Prop := GuardFormed w.guard ∧ DiskFormed w.disk

theorem ConnectorRuntime.admitted_cons (m : StoredMessage) (rest : List StoredMessage)
    (ledger : List String) :
    rt.admitted room kind workerRole (m :: rest) ledger =
      let first := rt.admitted room kind workerRole [m] ledger
      let others := rt.admitted room kind workerRole rest first.2
      (first.1 ++ others.1, others.2) := by
  simp only [admitted]
  split
  · split <;> simp
  · simp

variable {w : Desk}

/-- An admission appends the key to the ledger. -/
theorem Desk.Formed.admitMessage (formed : w.Formed) {m : StoredMessage} {key : String}
    (valid : verifyMessageForRoom rt.floats rt.verify m rt.me.id = .valid)
    (keyed : replayKey m = some key) :
    ∃ w', Desk.answer cfg cardBytes fresh rt (.admitMessage m) w = (some (decide (key ∉ w.ledger)), w') ∧
      w'.hub = w.hub ∧ w'.Formed ∧
      w'.ledger = if key ∉ w.ledger then lastN replayCap (w.ledger ++ [key]) else w.ledger := by
  obtain ⟨own, disk⟩ := formed
  have answered : Desk.answer cfg cardBytes fresh rt (.admitMessage m) w =
      let outcome := w.guard.admitMessage w.disk none rt.floats rt.verify m rt.me.id
      (outcome.1, ⟨w.hub, outcome.2.1, outcome.2.2⟩) := rfl
  unfold Desk.ledger
  rw [answered]
  rcases AutonomousReplayGuard.admit_cases rt.floats rt.verify own disk none m rt.me.id with
    ⟨result, g, equal, own', -, ⟨-, impossible⟩ | ⟨rfl, known⟩⟩ | ⟨key', keyed', new, g, own', -, equal⟩
  · exact absurd rfl impossible
  · have present := known valid key keyed
    rw [equal, decide_eq_false (not_not.mpr present), if_neg (not_not.mpr present)]
    exact ⟨⟨w.hub, w.disk, g⟩, rfl, rfl, ⟨own', disk⟩, rfl⟩
  · obtain rfl : key = key' := Option.some.inj (keyed.symm.trans keyed')
    rw [equal, decide_eq_true new, if_pos new]
    refine ⟨⟨w.hub, some (lastN replayCap (w.disk.getD [] ++ [key])), g⟩, rfl, rfl, ⟨own', ?_⟩,
      Option.getD_some⟩
    have nodup : (w.disk.getD [] ++ [key]).Nodup := by
      rw [List.nodup_append_comm]
      exact List.nodup_cons.mpr ⟨new, disk.1⟩
    exact diskFormed_some (nodup.sublist (lastN_sublist replayCap _)) (length_lastN_le replayCap _)

theorem sift_run (formed : w.Formed) (m : StoredMessage) (s : Sifted) :
    ∃ s' w', drive (Desk.answer cfg cardBytes fresh rt) (rt.sift room kind workerRole m s) w =
        (some s', w') ∧ w'.hub = w.hub ∧ w'.Formed ∧
      w'.ledger = (rt.admitted room kind workerRole [m] w.ledger).2 ∧
      s'.messages = s.messages ++ (rt.admitted room kind workerRole [m] w.ledger).1 ∧
      s'.held = (s.held || decide (rt.treats room kind workerRole m .hold)) := by
  -- A message that does not wake leaves the ledger.
  have asleep : ¬ rt.treats room kind workerRole m .wake →
      rt.admitted room kind workerRole [m] w.ledger = ([], w.ledger) := by
    intro idle
    simp only [ConnectorRuntime.admitted, idle, false_and, if_false]
    split <;> rfl
  unfold ConnectorRuntime.sift
  by_cases own : m.sender.id = rt.me.id
  · rw [if_pos own, asleep (fun treated => treated.1 own)]
    exact ⟨s, w, rfl, rfl, formed, rfl, by simp, by simp [ConnectorRuntime.treats, own]⟩
  · rw [if_neg own]
    by_cases valid : verifyMessageForRoom rt.floats rt.verify m rt.me.id = .valid
    · rw [if_neg (not_not.mpr valid)]
      cases decision : rt.attention.decide room kind m rt.me.name (rt.role workerRole) with
      | wake =>
        have wakes : rt.treats room kind workerRole m .wake := ⟨own, valid, decision⟩
        obtain ⟨key, keyed⟩ := wakes.keyed
        have idle : ¬ rt.treats room kind workerRole m .hold := by
          rintro ⟨-, -, held⟩
          rw [decision] at held
          cases held
        obtain ⟨w', answered, hub, formed', ledger⟩ := formed.admitMessage cfg cardBytes fresh rt valid keyed
        by_cases new : key ∉ w.ledger
        · rw [if_pos new] at ledger
          rw [decide_eq_true new] at answered
          simp only [ConnectorRuntime.admitted, keyed, wakes, new, not_false_eq_true, and_true, if_true]
          exact ⟨_, w', drive_call answered _, hub, formed', ledger, rfl, by simp [idle]⟩
        · rw [if_neg new] at ledger
          rw [decide_eq_false new] at answered
          simp only [ConnectorRuntime.admitted, keyed, wakes, new, and_false, if_false]
          exact ⟨_, w', drive_call answered _, hub, formed', ledger, by simp, by simp [idle]⟩
      | hold =>
        have held : rt.treats room kind workerRole m .hold := ⟨own, valid, decision⟩
        rw [asleep]
        · exact ⟨_, w, rfl, rfl, formed, rfl, by simp, by simp [held]⟩
        · rintro ⟨-, -, wakes⟩
          rw [decision] at wakes
          cases wakes
      | drop =>
        rw [asleep]
        · exact ⟨_, w, rfl, rfl, formed, rfl, by simp, by simp [ConnectorRuntime.treats, decision]⟩
        · rintro ⟨-, -, wakes⟩
          rw [decision] at wakes
          cases wakes
    · rw [if_pos valid, asleep (fun treated => valid treated.2.1)]
      exact ⟨_, w, rfl, rfl, formed, rfl, by simp, by simp [ConnectorRuntime.treats, valid]⟩

theorem siftAll_run (formed : w.Formed) (page : List StoredMessage) (s : Sifted) :
    ∃ s' w', drive (Desk.answer cfg cardBytes fresh rt) (rt.siftAll room kind workerRole page s) w =
        (some s', w') ∧ w'.hub = w.hub ∧ w'.Formed ∧
      w'.ledger = (rt.admitted room kind workerRole page w.ledger).2 ∧
      s'.messages = s.messages ++ (rt.admitted room kind workerRole page w.ledger).1 ∧
      s'.held = (s.held || page.any (fun m => rt.treats room kind workerRole m .hold)) := by
  induction page generalizing w s with
  | nil => exact ⟨s, w, rfl, rfl, formed, rfl, by simp [ConnectorRuntime.admitted], by simp⟩
  | cons m rest ih =>
    obtain ⟨s₁, w₁, first, hub₁, formed₁, ledger₁, messages₁, held₁⟩ :=
      sift_run cfg cardBytes fresh rt room kind workerRole formed m s
    obtain ⟨s₂, w₂, others, hub₂, formed₂, ledger₂, messages₂, held₂⟩ := ih formed₁ s₁
    refine ⟨s₂, w₂, ?_, hub₂.trans hub₁, formed₂, ?_, ?_, ?_⟩
    · rw [ConnectorRuntime.siftAll, drive_bind, first]
      exact others
    · rw [ledger₂, ledger₁, ConnectorRuntime.admitted_cons rt room kind workerRole m rest]
    · rw [messages₂, messages₁, ledger₁, ConnectorRuntime.admitted_cons rt room kind workerRole m rest,
        List.append_assoc]
    · rw [held₂, held₁, List.any_cons, Bool.or_assoc]

/-- What is admitted wakes, and comes from the page. -/
theorem ConnectorRuntime.mem_admitted {page : List StoredMessage} {ledger : List String}
    {m : StoredMessage} (listed : m ∈ (rt.admitted room kind workerRole page ledger).1) :
    m ∈ page ∧ rt.treats room kind workerRole m .wake := by
  induction page generalizing ledger with
  | nil => cases listed
  | cons first rest ih =>
    rw [admitted_cons] at listed
    rcases List.mem_append.mp listed with new | later
    · simp only [admitted] at new
      split at new
      · split at new
        · rename_i admitted
          rw [List.mem_singleton.mp new]
          exact ⟨List.mem_cons_self, admitted.1⟩
        · cases new
      · cases new
    · obtain ⟨member, wakes⟩ := ih later
      exact ⟨List.mem_cons_of_mem _ member, wakes⟩

/-- A new key in the ledger is one of the page. -/
theorem ConnectorRuntime.ledger_admitted {page : List StoredMessage} {ledger : List String}
    {key : String} (listed : key ∈ (rt.admitted room kind workerRole page ledger).2) :
    key ∈ ledger ∨ ∃ m ∈ page, replayKey m = some key := by
  induction page generalizing ledger with
  | nil => exact Or.inl listed
  | cons first rest ih =>
    rw [admitted_cons] at listed
    rcases ih listed with old | ⟨m, member, keyed⟩
    · simp only [admitted] at old
      split at old
      · rename_i key' keyed
        split at old
        · rcases List.mem_append.mp ((lastN_sublist replayCap _).subset old) with before | new
          · exact Or.inl before
          · rw [List.mem_singleton.mp new]
            exact Or.inr ⟨first, List.mem_cons_self, keyed⟩
        · exact Or.inl old
      · exact Or.inl old
    · exact Or.inr ⟨m, List.mem_cons_of_mem _ member, keyed⟩

/-- A message that wakes is admitted, unless its key is in the ledger or comes earlier on the page. -/
theorem ConnectorRuntime.admitted_mem {before after : List StoredMessage} {ledger : List String}
    {m : StoredMessage} {key : String} (wakes : rt.treats room kind workerRole m .wake)
    (keyed : replayKey m = some key) (new : key ∉ ledger)
    (first : ∀ m' ∈ before, replayKey m' ≠ some key) :
    m ∈ (rt.admitted room kind workerRole (before ++ m :: after) ledger).1 := by
  induction before generalizing ledger with
  | nil =>
    simp only [List.nil_append, admitted, keyed, wakes, new, not_false_eq_true, and_true, if_true]
    exact List.mem_cons_self
  | cons m' before ih =>
    rw [List.cons_append, admitted_cons]
    refine List.mem_append_right _ (ih ?_ (fun m'' later => first m'' (List.mem_cons_of_mem _ later)))
    intro listed
    rcases ledger_admitted rt room kind workerRole listed with old | ⟨m'', member, keyed'⟩
    · exact new old
    · rw [List.mem_singleton.mp member] at keyed'
      exact first m' List.mem_cons_self keyed'

/-- What was added to the ledger last stays at its end, as long as it fits. -/
theorem ConnectorRuntime.admitted_suffix {page : List StoredMessage} {ledger recent : List String}
    (last : recent <:+ ledger) (fits : recent.length + page.length ≤ replayCap) :
    recent ++ replayKeys (rt.admitted room kind workerRole page ledger).1 <:+
      (rt.admitted room kind workerRole page ledger).2 := by
  induction page generalizing ledger recent with
  | nil => simpa [admitted, replayKeys] using last
  | cons m rest ih =>
    rw [List.length_cons] at fits
    simp only [admitted]
    split
    · rename_i key keyed
      split
      · have kept : recent ++ [key] <:+ lastN replayCap (ledger ++ [key]) := by
          have whole : recent ++ [key] <:+ ledger ++ [key] :=
            (List.suffix_append_inj_of_length_eq rfl).mpr ⟨last, rfl⟩
          refine List.suffix_of_suffix_length_le whole (List.drop_suffix _ _) ?_
          rw [lastN, List.length_drop, List.length_append, List.length_append]
          have := last.length_le
          simp only [List.length_singleton]
          omega
        have tail := ih kept (by simp only [List.length_append, List.length_singleton]; omega)
        simpa [replayKeys, keyed] using tail
      · exact ih last (by omega)
    · exact ih last (by omega)

end Sift

/-! ## One call -/

/-- The cursor of the agent in the room. -/
def Reader.cursor (w : Reader) (room : String) : Int := w.desk.hub.store.getCursor room rt.me.id

/-- What every call leaves: the process is in the room, its ledger is formed, and it has nothing to
    acknowledge that the hub does not know, but for a room it defers. -/
structure Reader.Ready (w : Reader) (room : String) : Prop where
  formed : w.desk.Formed
  member : w.desk.hub.store.isMember room rt.me.id = true
  order : SeqOrder w.desk.hub.store
  positive : 0 ≤ w.cursor rt room
  synced : room ∈ w.agent.heldReads ∨ w.agent.pending room ≤ w.cursor rt room
  committed : w.agent.committed room ≤ w.cursor rt room

section Call

variable {w : Reader} {room : String}

theorem Store.getCursor_setCursor {s : Store} {agent : String} (member : s.isMember room agent = true)
    (v : Int) : (s.setCursor room agent v).getCursor room agent = v := by
  obtain ⟨row, own⟩ := Store.isMember_iff.mp member
  have named : row.room = room ∧ row.agent = agent := by
    rw [← Store.find_memberRow] at own
    simpa using List.find?_some own
  rw [Store.getCursor_eq, Store.memberRow_setCursor, own]
  simp [named]

theorem Store.isMember_setCursor {s : Store} {agent : String} (member : s.isMember room agent = true)
    (v : Int) : (s.setCursor room agent v).isMember room agent = true := by
  obtain ⟨row, own⟩ := Store.isMember_iff.mp member
  refine Store.isMember_iff.mpr ?_
  rw [Store.memberRow_setCursor, own]
  exact ⟨_, rfl⟩

/-- A pull that acknowledges nothing new. -/
theorem Reader.Ready.answer_pull (ready : w.Ready rt room) {ack : Int} (old : ack ≤ w.cursor rt room)
    (limit : Option Nat) :
    Desk.answer cfg cardBytes fresh rt (.request (.pull room none limit none (some ack))) w.desk =
      (some (.pulled room
        ((w.desk.hub.store.backlog room (w.cursor rt room)).take (Store.pullLimit limit))
        (pageEnd (w.cursor rt room)
          ((w.desk.hub.store.backlog room (w.cursor rt room)).take (Store.pullLimit limit)))),
        w.desk) := by
  have ran := handlePull_run cfg cardBytes fresh ready.member limit ack
  unfold Reader.cursor at old
  rw [if_neg (not_lt.mpr old), max_eq_left old, ready.order.readBacklog_eq] at ran
  exact Desk.answer_request cfg cardBytes fresh rt ran

/-- A commit moves the cursor forward. -/
theorem Reader.Ready.answer_commit (ready : w.Ready rt room) {cursor : Int}
    (forward : w.cursor rt room ≤ cursor) :
    ∃ reply desk, Desk.answer cfg cardBytes fresh rt
        (.request (.pull room none (some 0) none (some cursor))) w.desk =
          (some (.pulled room [] reply), desk) ∧ desk.Formed ∧ desk.ledger = w.desk.ledger ∧
      desk.hub.store.isMember room rt.me.id = true ∧ SeqOrder desk.hub.store ∧
      desk.hub.store.messages = w.desk.hub.store.messages ∧
      desk.hub.store.getCursor room rt.me.id = cursor := by
  have ran := handlePull_run cfg cardBytes fresh ready.member (some 0) cursor
  rw [ready.order.readBacklog_eq] at ran
  unfold Reader.cursor at forward
  rcases eq_or_lt_of_le forward with same | newer
  · rw [if_neg (not_lt.mpr (le_of_eq same.symm))] at ran
    exact ⟨_, _, Desk.answer_request cfg cardBytes fresh rt ran, ready.formed, rfl, ready.member,
      ready.order, rfl, same⟩
  · rw [if_pos newer] at ran
    exact ⟨_, _, Desk.answer_request cfg cardBytes fresh rt ran, ready.formed, rfl,
      Store.isMember_setCursor ready.member cursor, ⟨ready.order.increasing, ready.order.bounded⟩, rfl,
      Store.getCursor_setCursor ready.member cursor⟩

variable (kind : RoomKind) (workerRole : Option String)

/-- A call returns what it admits of the first page after the cursor, and the cursor moves to the end
    of the page if nothing was admitted and nothing is held. -/
theorem Reader.Ready.receive (ready : w.Ready rt room) (limit : Option Nat) :
    ∃ received w', w.receive cfg cardBytes fresh rt room kind workerRole limit = (some received, w') ∧
      w'.Ready rt room ∧ w'.desk.hub.store.messages = w.desk.hub.store.messages ∧
      let page := (w.desk.hub.store.backlog room (w.cursor rt room)).take (Store.pullLimit limit)
      let found := rt.admitted room kind workerRole page w.desk.ledger
      received.messages = found.1 ∧ w'.desk.ledger = found.2 ∧
      w'.cursor rt room =
        if page.any (fun m => rt.treats room kind workerRole m .hold) = true ∨ found.1 ≠ [] then
          w.cursor rt room
        else pageEnd (w.cursor rt room) page := by
  obtain ⟨desk, agent⟩ := w
  set c := Reader.cursor rt ⟨desk, agent⟩ room with cursor
  set page := (desk.hub.store.backlog room c).take (Store.pullLimit limit) with paged
  -- The pull acknowledges nothing new.
  obtain ⟨ack, acked, old⟩ : ∃ ack, agent.ackFor room = some ack ∧ ack ≤ c := by
    unfold MeshAgent.ackFor
    by_cases held : room ∈ agent.heldReads
    · exact ⟨0, by rw [if_pos held], ready.positive⟩
    · exact ⟨agent.pending room, by rw [if_neg held], ready.synced.resolve_left held⟩
  set ends := pageEnd c page with ended
  have first : drive (Desk.answer cfg cardBytes fresh rt) (agent.pull room limit) desk =
      ((agent.recordAck room ends, some page), desk) := by
    unfold MeshAgent.pull
    rw [acked]
    exact drive_call (ready.answer_pull cfg cardBytes fresh rt old limit) _
  obtain ⟨s, desk', sifted, hub, formed, ledger, messages, held⟩ :=
    siftAll_run cfg cardBytes fresh rt room kind workerRole ready.formed page ⟨[], false, 0⟩
  rw [List.nil_append] at messages
  rw [Bool.false_or] at held
  have same : Reader.cursor rt ⟨desk', agent⟩ room = c := by
    rw [cursor, Reader.cursor, hub]
    rfl
  have pending : (agent.recordAck room ends).pending room = ends := by simp
  have committed : (agent.recordAck room ends).committed room ≤ c := ready.committed
  have positive := ready.positive
  have member : desk'.hub.store.isMember room rt.me.id = true := hub ▸ ready.member
  have order : SeqOrder desk'.hub.store := hub ▸ ready.order
  by_cases pinned : (s.held || !s.messages.isEmpty) = true
  · -- The batch is deferred, and the hub is as it was.
    have run : Reader.receive cfg cardBytes fresh rt room kind workerRole limit ⟨desk, agent⟩ =
        (some ⟨room, ends, s.messages, s.held, s.dropped⟩,
          ⟨desk', (agent.recordAck room ends).deferReads room⟩) := by
      unfold Reader.receive ConnectorRuntime.receive
      rw [drive_bind, first]
      dsimp only
      rw [drive_bind, sifted]
      dsimp only
      rw [if_pos pinned, pending]
      rfl
    refine ⟨_, _, run, ⟨formed, member, order, same.symm ▸ positive, ?_, same.symm ▸ committed⟩,
      by rw [hub], messages, ledger, ?_⟩
    · exact Or.inl (List.mem_insert_self)
    · rw [if_pos]
      · exact same
      · rw [Bool.or_eq_true, held, messages] at pinned
        simpa using pinned
  · -- The batch is acknowledged.
    have forward : c ≤ ends := le_pageEnd c _
    have free : ¬ (page.any (fun m => rt.treats room kind workerRole m .hold) = true ∨
        (rt.admitted room kind workerRole page desk.ledger).1 ≠ []) := by
      rw [Bool.or_eq_true, held, messages] at pinned
      simpa using pinned
    have rest : ∀ committed desk'',
        drive (Desk.answer cfg cardBytes fresh rt) ((agent.recordAck room ends).commitReads room) desk' =
          ((committed, some ()), desk'') →
        Reader.receive cfg cardBytes fresh rt room kind workerRole limit ⟨desk, agent⟩ =
          (some ⟨room, ends, s.messages, s.held, s.dropped⟩, ⟨desk'', committed⟩) := by
      intro committed desk'' commits
      unfold Reader.receive ConnectorRuntime.receive
      rw [drive_bind, first]
      dsimp only
      rw [drive_bind, sifted]
      dsimp only
      rw [if_neg pinned, drive_bind, commits, pending]
      rfl
    by_cases skips : (agent.recordAck room ends).commitSkips room ends = true
    · have here : ends = c := by
        rw [MeshAgent.commitSkips, Bool.or_eq_true, decide_eq_true_eq, decide_eq_true_eq] at skips
        omega
      have commits : drive (Desk.answer cfg cardBytes fresh rt)
          ((agent.recordAck room ends).commitReads room) desk' =
            (((agent.recordAck room ends).release room, some ()), desk') := by
        unfold MeshAgent.commitReads
        rw [pending]
        dsimp only
        rw [if_pos skips]
        rfl
      refine ⟨_, _, rest _ _ commits, ⟨formed, member, order, same.symm ▸ positive, ?_,
        same.symm ▸ committed⟩, by rw [hub], messages, ledger, ?_⟩
      · refine Or.inr (le_of_eq ?_)
        rw [MeshAgent.pending_release, pending, here]
        exact same.symm
      · rw [if_neg free]
        exact same.trans here.symm
    · have ready' : Reader.Ready rt ⟨desk', agent⟩ room :=
        ⟨formed, member, order, same.symm ▸ positive, same.symm ▸ ready.synced, same.symm ▸ committed⟩
      obtain ⟨reply, desk'', answered, formed', ledger', member', order', messages', cursor'⟩ :=
        ready'.answer_commit cfg cardBytes fresh rt (same.symm ▸ forward)
      have commits : drive (Desk.answer cfg cardBytes fresh rt)
          ((agent.recordAck room ends).commitReads room) desk' =
            (((agent.recordAck room ends).recordCommit room ends, some ()), desk'') := by
        unfold MeshAgent.commitReads
        rw [pending]
        dsimp only
        rw [if_neg skips]
        exact drive_call answered _
      refine ⟨_, _, rest _ _ commits, ⟨formed', member', order', ?_, Or.inr (le_of_eq ?_), le_of_eq ?_⟩,
        messages'.trans (by rw [hub]), messages, ledger'.trans ledger, ?_⟩
      · exact (positive.trans forward).trans (le_of_eq cursor'.symm)
      · have kept := (agent.recordAck room ends).pending_committed room
        rw [pending] at kept
        exact kept.trans cursor'.symm
      · refine Eq.trans ?_ cursor'.symm
        simp [MeshAgent.committed, MeshAgent.recordCommit, MeshAgent.release]
      · rw [if_neg free]
        exact cursor'

end Call

/-! ## Call after call -/

section Calls

variable (room : String) (kind : RoomKind) (workerRole : Option String) (limit : Option Nat)
  (B : List StoredMessage)

/-- Page `i` of a backlog. -/
def pageAt (lim : Nat) (i : Nat) : List StoredMessage := (B.drop (i * lim)).take lim

/-- The process is about to read page `i`. -/
structure Reader.At (w : Reader) (i : Nat) : Prop where
  ready : w.Ready rt room
  left : w.desk.hub.store.backlog room (w.cursor rt room) = B.drop (i * Store.pullLimit limit)

variable {B limit} {w : Reader} {i : Nat}

/-- A call on page `i` stays there if it returns or holds something, and else turns the page. -/
theorem Reader.At.receive (here : w.At rt room limit B i) (asked : limit ≠ some 0) :
    ∃ received w', w.receive cfg cardBytes fresh rt room kind workerRole limit = (some received, w') ∧
      let page := pageAt B (Store.pullLimit limit) i
      let found := rt.admitted room kind workerRole page w.desk.ledger
      received.messages = found.1 ∧ w'.desk.ledger = found.2 ∧
      if page.any (fun m => rt.treats room kind workerRole m .hold) = true ∨ found.1 ≠ [] then
        w'.At rt room limit B i
      else w'.At rt room limit B (i + 1) := by
  obtain ⟨received, w', run, ready, same, messages, ledger, cursor⟩ :=
    here.ready.receive cfg cardBytes fresh rt kind workerRole limit
  refine ⟨received, w', run, ?_⟩
  unfold pageAt
  rw [here.left] at messages ledger cursor
  have backlog : ∀ floor, w'.desk.hub.store.backlog room floor = w.desk.hub.store.backlog room floor := by
    intro floor
    rw [Store.backlog, same, Store.backlog]
  refine ⟨messages, ledger, ?_⟩
  split
  · rename_i pinned
    refine ⟨ready, ?_⟩
    rw [cursor, if_pos pinned, backlog, here.left]
  · rename_i free
    refine ⟨ready, ?_⟩
    have turned := here.ready.order.backlog_pageEnd room (w.cursor rt room)
      (Nat.pos_of_ne_zero (pullLimit_ne_zero asked))
    rw [here.left, List.drop_drop] at turned
    rw [cursor, if_neg free, backlog, turned, Nat.succ_mul]

theorem Reader.after_succ (n : Nat) (w : Reader) :
    w.after cfg cardBytes fresh rt room kind workerRole limit (n + 1) =
      (w.receive cfg cardBytes fresh rt room kind workerRole limit).2.after cfg cardBytes fresh rt room kind
        workerRole limit n :=
  Function.iterate_succ_apply _ n w

theorem pullLimit_le (limit : Option Nat) : Store.pullLimit limit ≤ 1000 := Nat.min_le_right _ _

theorem replayCap_ge : 2 * 1000 ≤ replayCap := by
  unfold replayCap
  omega

/-- Distinct keys of a page are no more than its messages. -/
theorem length_pageKeys {page : List StoredMessage} {keys : List String} (nodup : keys.Nodup)
    (own : ∀ key ∈ keys, ∃ m ∈ page, replayKey m = some key) : keys.length ≤ page.length := by
  have among : keys ⊆ replayKeys page := by
    intro key member
    obtain ⟨m, listed, keyed⟩ := own key member
    exact List.mem_filterMap.mpr ⟨m, listed, keyed⟩
  exact (nodup.subperm among).length_le.trans (List.length_filterMap_le _ _)

/-- A call on a page without a held message turns the page, or adds keys of the page to those that
    were added last. -/
theorem Reader.At.advance (here : w.At rt room limit B i) (asked : limit ≠ some 0)
    (unheld : ∀ m ∈ pageAt B (Store.pullLimit limit) i, ¬ rt.treats room kind workerRole m .hold)
    {recent : List String} (last : recent <:+ w.desk.ledger)
    (own : ∀ key ∈ recent, ∃ m ∈ pageAt B (Store.pullLimit limit) i, replayKey m = some key) :
    ∃ w', w' = (w.receive cfg cardBytes fresh rt room kind workerRole limit).2 ∧
      (∀ key ∈ w'.desk.ledger, key ∈ w.desk.ledger ∨
        ∃ m ∈ pageAt B (Store.pullLimit limit) i, replayKey m = some key) ∧
      (w'.At rt room limit B (i + 1) ∨
        w'.At rt room limit B i ∧ ∃ recent', recent.length < recent'.length ∧
          recent' <:+ w'.desk.ledger ∧
          ∀ key ∈ recent', ∃ m ∈ pageAt B (Store.pullLimit limit) i, replayKey m = some key) := by
  obtain ⟨received, w', run, messages, ledger, moved⟩ :=
    here.receive cfg cardBytes fresh rt room kind workerRole asked
  set page := pageAt B (Store.pullLimit limit) i with paged
  set found := rt.admitted room kind workerRole page w.desk.ledger with admits
  have free : ¬ page.any (fun m => rt.treats room kind workerRole m .hold) = true := by
    simpa using unheld
  refine ⟨w', by rw [run], ?_, ?_⟩
  · intro key member
    rw [ledger] at member
    exact rt.ledger_admitted room kind workerRole member
  · by_cases idle : found.1 = []
    · rw [if_neg (fun pinned => pinned.elim free (fun some => some idle))] at moved
      exact Or.inl moved
    · rw [if_pos (Or.inr idle)] at moved
      obtain ⟨m, rest, first⟩ := List.exists_cons_of_ne_nil idle
      obtain ⟨key, keyed⟩ := (rt.mem_admitted room kind workerRole
        (show m ∈ found.1 from first ▸ List.mem_cons_self)).2.keyed
      have grown : key ∈ replayKeys found.1 :=
        List.mem_filterMap.mpr ⟨m, first ▸ List.mem_cons_self, keyed⟩
      have short : page.length ≤ 1000 := (List.length_take_le _ _).trans (pullLimit_le limit)
      have few := length_pageKeys (here.ready.formed.2.1.sublist last.sublist) own
      refine Or.inr ⟨moved, recent ++ replayKeys found.1, ?_, ?_, ?_⟩
      · rw [List.length_append]
        have := List.length_pos_of_mem grown
        omega
      · rw [ledger]
        refine rt.admitted_suffix room kind workerRole last ?_
        have := replayCap_ge
        omega
      · intro key member
        rcases List.mem_append.mp member with old | new
        · exact own key old
        · obtain ⟨m, listed, keyed⟩ := List.mem_filterMap.mp new
          exact ⟨m, (rt.mem_admitted room kind workerRole listed).1, keyed⟩

/-- A page without a held message is passed: no key of it leaves the ledger meanwhile, so that it is
    read at most once more than it has messages. -/
theorem Reader.At.pass (asked : limit ≠ some 0)
    (unheld : ∀ m ∈ pageAt B (Store.pullLimit limit) i, ¬ rt.treats room kind workerRole m .hold)
    {recent : List String} {d : Nat} (here : w.At rt room limit B i)
    (last : recent <:+ w.desk.ledger)
    (own : ∀ key ∈ recent, ∃ m ∈ pageAt B (Store.pullLimit limit) i, replayKey m = some key)
    (few : (pageAt B (Store.pullLimit limit) i).length < recent.length + d) :
    ∃ n, (w.after cfg cardBytes fresh rt room kind workerRole limit n).At rt room limit B (i + 1) ∧
      ∀ key ∈ (w.after cfg cardBytes fresh rt room kind workerRole limit n).desk.ledger,
        key ∈ w.desk.ledger ∨ ∃ m ∈ pageAt B (Store.pullLimit limit) i, replayKey m = some key := by
  induction d generalizing w recent with
  | zero =>
    have := length_pageKeys (here.ready.formed.2.1.sublist last.sublist) own
    omega
  | succ d ih =>
    obtain ⟨w', next, ledger, turned | ⟨still, recent', longer, last', own'⟩⟩ :=
      here.advance cfg cardBytes fresh rt room kind workerRole asked unheld last own
    · refine ⟨1, ?_⟩
      rw [Reader.after_succ, ← next]
      exact ⟨turned, ledger⟩
    · obtain ⟨n, turned, ledger'⟩ := ih still last' own' (by omega)
      refine ⟨n + 1, ?_⟩
      rw [Reader.after_succ, ← next]
      refine ⟨turned, ?_⟩
      intro key member
      rcases ledger' key member with old | new
      · exact ledger key old
      · exact Or.inr new

/-- The messages of the pages before page `j`. -/
theorem mem_take_pages {B : List StoredMessage} {lim j : Nat} {m : StoredMessage} :
    m ∈ B.take (j * lim) ↔ ∃ i < j, m ∈ pageAt B lim i := by
  induction j with
  | zero => simp
  | succ j ih =>
    rw [Nat.succ_mul, List.take_add, List.mem_append, ih]
    constructor
    · rintro (⟨i, below, listed⟩ | listed)
      · exact ⟨i, by omega, listed⟩
      · exact ⟨j, by omega, listed⟩
    · rintro ⟨i, below, listed⟩
      rcases Nat.lt_succ_iff_lt_or_eq.mp below with earlier | rfl
      · exact Or.inl ⟨i, earlier, listed⟩
      · exact Or.inr listed

theorem Reader.after_add (n k : Nat) (w : Reader) :
    w.after cfg cardBytes fresh rt room kind workerRole limit (n + k) =
      (w.after cfg cardBytes fresh rt room kind workerRole limit k).after cfg cardBytes fresh rt room kind
        workerRole limit n :=
  Function.iterate_add_apply _ n k w

section Message

variable {before later : List StoredMessage} {m : StoredMessage}

/-- If nothing is held on the pages before that of a message, every one of them is passed. -/
theorem Reader.At.reach (start : w.At rt room limit (before ++ m :: later) 0) (asked : limit ≠ some 0)
    {j : Nat} (inside : j * Store.pullLimit limit ≤ before.length)
    (unheld : ∀ m' ∈ before.take (j * Store.pullLimit limit), ¬ rt.treats room kind workerRole m' .hold) :
    ∃ n, (w.after cfg cardBytes fresh rt room kind workerRole limit n).At rt room limit
        (before ++ m :: later) j ∧
      ∀ key ∈ (w.after cfg cardBytes fresh rt room kind workerRole limit n).desk.ledger,
        key ∈ w.desk.ledger ∨ ∃ m' ∈ before, replayKey m' = some key := by
  have front : (before ++ m :: later).take (j * Store.pullLimit limit) =
      before.take (j * Store.pullLimit limit) := List.take_append_of_le_length inside
  have general : ∀ i, i ≤ j → ∃ n, (w.after cfg cardBytes fresh rt room kind workerRole limit n).At rt room
      limit (before ++ m :: later) i ∧
      ∀ key ∈ (w.after cfg cardBytes fresh rt room kind workerRole limit n).desk.ledger,
        key ∈ w.desk.ledger ∨ ∃ m' ∈ before, replayKey m' = some key := by
    intro i
    induction i with
    | zero => exact fun _ => ⟨0, start, fun key member => Or.inl member⟩
    | succ i ih =>
      intro below
      obtain ⟨n, here, known⟩ := ih (by omega)
      have among : pageAt (before ++ m :: later) (Store.pullLimit limit) i ⊆
          before.take (j * Store.pullLimit limit) := by
        intro m' listed
        rw [← front]
        exact mem_take_pages.mpr ⟨i, below, listed⟩
      have few : (pageAt (before ++ m :: later) (Store.pullLimit limit) i).length <
          ([] : List String).length + (Store.pullLimit limit + 1) := by
        have := List.length_take_le (Store.pullLimit limit)
          ((before ++ m :: later).drop (i * Store.pullLimit limit))
        rw [pageAt, List.length_nil]
        omega
      obtain ⟨n', turned, ledger⟩ := here.pass cfg cardBytes fresh rt room kind workerRole asked
        (fun m' listed => unheld m' (among listed)) List.nil_suffix (by simp) few
      refine ⟨n' + n, ?_⟩
      rw [Reader.after_add]
      refine ⟨turned, ?_⟩
      intro key member
      rcases ledger key member with old | ⟨m', listed, keyed⟩
      · exact known key old
      · exact Or.inr ⟨m', List.mem_of_mem_take (among listed), keyed⟩
  exact general j (le_refl j)

/-- The process is at some page of every set that it leaves only at a page with nothing held. -/
theorem Reader.At.stays {S : Nat → Prop} (here : w.At rt room limit B i) (asked : limit ≠ some 0) (own : S i)
    (next : ∀ i, S i → (∀ m' ∈ pageAt B (Store.pullLimit limit) i, ¬ rt.treats room kind workerRole m' .hold) →
      S (i + 1)) (n : Nat) :
    ∃ i, S i ∧ (w.after cfg cardBytes fresh rt room kind workerRole limit n).At rt room limit B i := by
  induction n generalizing w i with
  | zero => exact ⟨i, own, here⟩
  | succ n ih =>
    obtain ⟨received, w', run, -, -, moved⟩ :=
      here.receive cfg cardBytes fresh rt room kind workerRole asked
    have turned : (w.receive cfg cardBytes fresh rt room kind workerRole limit).2 = w' := by rw [run]
    rw [Reader.after_succ, turned]
    split at moved
    · exact ih moved own
    · rename_i free
      refine ih moved (next i own ?_)
      intro m' listed held
      exact free (Or.inl (List.any_eq_true.mpr ⟨m', listed, decide_eq_true held⟩))

end Message

end Calls

/-- A new process of a member is ready, whatever the hub and the ledger file have been through. -/
theorem ready_start {room : String} {inflight : Nat} {P : HubPool cfg} {G : HubPool cfg → Nat → HubCall → Prop}
    (reach : Pool.Reachable (serve cfg cardBytes) G (.boot inflight) P)
    (member : P.state.store.isMember room rt.me.id = true) {disk : Option (List String)}
    (formed : DiskFormed disk) :
    Reader.Ready rt ⟨⟨P.state, disk, .persistent⟩, .fresh⟩ room where
  formed := ⟨⟨rfl, Fifo.empty_bounded⟩, formed⟩
  member := member
  order := (pages_hold reach).1
  positive := (cursor_nonneg reach).1 room rt.me.id
  synced := Or.inr ((cursor_nonneg reach).1 room rt.me.id)
  committed := (cursor_nonneg reach).1 room rt.me.id

/-! ## Two limits -/

/-- Bob does not want to be disturbed; every signature is good. -/
def busyBob : ConnectorRuntime := ⟨bitsFormat, fun _ _ _ => true, bob, ⟨.dnd, [], []⟩⟩

def signedPart (uid : String) : Part := (MessageSig.mk "s" 1 uid (.room "r")).toPart

/-- Alice says hello and then hands over. -/
def heldRoom : DemoPool :=
  demoPlay [demoFrame 0 alice (.invite .channel (some "r") none none false),
    demoFrame 1 bob (.redeem "c0"),
    demoFrame 2 alice (.send (.room "r") [.text "hello", signedPart "u"] none none none),
    demoFrame 3 alice (.send (.room "r") [(HandoffRef.mk "do it" none (some "bob") none).toPart,
      signedPart "v"] none none none)]

def heldReader : Reader := ⟨⟨heldRoom.state, none, .persistent⟩, .fresh⟩

def heldMessage (seq : Int) (id : String) (parts : List Part) : StoredMessage :=
  ⟨seq, id, "r", ⟨"A", "alice", none⟩, parts, none, none, 0⟩

def heldHello : StoredMessage := heldMessage 1 "m2" [.text "hello", signedPart "u"]

def heldHandoff : StoredMessage :=
  heldMessage 2 "m3" [(HandoffRef.mk "do it" none (some "bob") none).toPart, signedPart "v"]

theorem heldReader_ready : heldReader.Ready busyBob "r" := by
  have reach : Pool.Reachable demoServe Pool.anySchedule demoHub heldRoom := demoPlay_reachable _
  exact ready_start demoConfig (fun _ => []) busyBob reach (by decide +kernel)
    ⟨List.nodup_nil, Nat.zero_le _⟩

theorem heldReader_backlog :
    heldReader.desk.hub.store.backlog "r" (heldReader.cursor busyBob "r") = [heldHello, heldHandoff] := by
  decide +kernel

theorem heldHandoff_wakes :
    verifyMessageForRoom busyBob.floats busyBob.verify heldHandoff busyBob.me.id = .valid ∧
      busyBob.attention.decide "r" .channel heldHandoff busyBob.me.name (busyBob.role none) = .wake := by
  decide +kernel

theorem heldHandoff_new (key : String) (keyed : replayKey heldHandoff = some key) :
    key ∉ heldReader.desk.ledger ∧ ∀ m' ∈ [heldHello], replayKey m' ≠ some key := by
  have own : replayKey heldHandoff = some "A:v" := by decide +kernel
  have other : replayKey heldHello = some "A:u" := by decide +kernel
  rw [own] at keyed
  cases keyed
  refine ⟨List.not_mem_nil, ?_⟩
  intro m' listed
  rw [List.mem_singleton.mp listed, other]
  decide

end Parler.Connector
