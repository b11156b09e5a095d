import Parler.Cli.Conversation

/-!
# A turn that is not finished

A run of the receiving task that ends with a message that the host has not acknowledged. The run leaves the
cursor before the message, as it means to, and the key of the message in the replay ledger, so that no receiving
task of the identity takes the message up again. What a later start does with it is in
`Parler.Cli.ConversationRestarts`.
-/

namespace Parler.Cli

open Parler.Lib Parler.Protocol Parler.Hub Parler.Connector

/-! ## The receiving task alone with its hub and its host -/

/-- The hub, the ledger, what the host was handed, newest first, and how often the others had a turn at
    the hub. -/
structure Stage where
  desk : Desk
  handed : List StoredMessage
  turns : Nat

/-- What the others do at the hub between two requests of the process: they post. Nobody takes the
    process out of the room or reads for it. -/
structure Others (rt : ConnectorRuntime) (room : String) where
  act : Nat → HubState → HubState
  member : ∀ n hub, hub.store.isMember room rt.me.id = true →
    (act n hub).store.isMember room rt.me.id = true
  order : ∀ n hub, SeqOrder hub.store → SeqOrder (act n hub).store
  cursor : ∀ n hub, (act n hub).store.getCursor room rt.me.id = hub.store.getCursor room rt.me.id
  posts : ∀ n hub cursor, hub.store.backlog room cursor <+: (act n hub).store.backlog room cursor

variable (cfg : HubConfig) (cardBytes : AgentCard → List UInt8) (fresh : Hub.Fresh) (rt : ConnectorRuntime)
  {room : String} (others : Others rt room) (host : Nat → StoredMessage → Delivery)

/-- The others have a turn. -/
def Stage.passes (s : Stage) : Stage :=
  { s with desk := { s.desk with hub := others.act s.turns s.desk.hub }, turns := s.turns + 1 }

/-- The hub and the ledger answer without errors and nobody waits; the host does with the messages what
    it does. -/
def Stage.answer : (op : ClientCall conversationHost) → Stage → op.Res × Stage
  | .request frame, s =>
      let s := s.passes rt others
      let (reply, desk) := s.desk.answer cfg cardBytes fresh rt (.request frame)
      (reply, { s with desk := desk })
  | .admitMessage message, s =>
      let (admitted, desk) := s.desk.answer cfg cardBytes fresh rt (.admitMessage message)
      (admitted, { s with desk := desk })
  | .complete messages, s =>
      let (done, desk) := s.desk.answer cfg cardBytes fresh rt (.complete messages)
      (done, { s with desk := desk })
  | .release messages, s =>
      let (released, desk) := s.desk.answer cfg cardBytes fresh rt (.release messages)
      (released, { s with desk := desk })
  | .sign .., s => (none, s)
  | .ask .budget, s => ((none : Option Nat), s)
  | .ask (.deliver message), s =>
      (host s.handed.length message, { s with handed := message :: s.handed })

/-- A run of the receiving task. -/
def Stage.run (waits rounds : Nat) (s : Stage) : Round × Stage :=
  let ((_, round), s) :=
    drive (Stage.answer cfg cardBytes fresh rt others host)
      (receiveLoop rt.floats rt.verify rt.me room waits rounds) s
  (round, s)

namespace Stage

/-- The cursor of the agent in the room. -/
def cursor (s : Stage) (room : String) : Int := s.desk.hub.store.getCursor room rt.me.id

/-- The messages of the room that the agent has not acknowledged. -/
def unread (s : Stage) (room : String) : List StoredMessage :=
  s.desk.hub.store.backlog room (s.cursor rt room)

/-- The process is in the room and its ledger and its acks are in order. -/
def Ready (s : Stage) (a : MeshAgent) (room : String) : Prop := Reader.Ready rt ⟨s.desk, a⟩ room

/-- What the room holds of messages is still there, in front of what came later. -/
def Grows (room : String) (s s' : Stage) : Prop :=
  ∀ cursor, s.desk.hub.store.backlog room cursor <+: s'.desk.hub.store.backlog room cursor

end Stage

section Steps

variable {rt} {s : Stage} {a : MeshAgent}

theorem Stage.answer_request {frame : ClientFrame} {reply : Option ServerFrame} {desk : Desk}
    (answered : (s.passes rt others).desk.answer cfg cardBytes fresh rt (.request frame) = (reply, desk)) :
    Stage.answer cfg cardBytes fresh rt others host (.request frame) s =
      (reply, { s.passes rt others with desk := desk }) := by
  simp only [Stage.answer, answered]
  rfl

theorem Stage.answer_admit {message : StoredMessage} {admitted : Option Bool} {desk : Desk}
    (answered : s.desk.answer cfg cardBytes fresh rt (.admitMessage message) = (admitted, desk)) :
    Stage.answer cfg cardBytes fresh rt others host (.admitMessage message) s =
      (admitted, { s with desk := desk }) := by
  simp only [Stage.answer, answered]
  rfl

namespace Stage

theorem Grows.refl (s : Stage) : Grows room s s := fun _ => List.prefix_refl _

theorem Grows.trans {s s' s'' : Stage} (first : Grows room s s') (second : Grows room s' s'') :
    Grows room s s'' := fun cursor => (first cursor).trans (second cursor)

theorem grows_passes : Grows room s (s.passes rt others) := fun cursor => others.posts _ _ cursor

theorem cursor_passes : (s.passes rt others).cursor rt room = s.cursor rt room := others.cursor _ _

theorem Ready.passes (ready : s.Ready rt a room) : (s.passes rt others).Ready rt a room := by
  have same : (s.passes rt others).desk.hub.store.getCursor room rt.me.id =
      s.desk.hub.store.getCursor room rt.me.id := others.cursor _ _
  refine ⟨ready.formed, others.member _ _ ready.member, others.order _ _ ready.order, ?_, ?_, ?_⟩
  · exact le_of_le_of_eq ready.positive same.symm
  · exact ready.synced.imp_right (fun old => old.trans (le_of_eq same.symm))
  · exact ready.committed.trans (le_of_eq same.symm)

/-- A new process is ready where one was. -/
theorem Ready.anew (ready : s.Ready rt a room) : s.Ready rt .fresh room :=
  ⟨ready.formed, ready.member, ready.order, ready.positive, Or.inr ready.positive, ready.positive⟩

/-- The ledger and what the host was handed are beside the cursor. -/
theorem Ready.beside (ready : s.Ready rt a room) (desk : Desk) (hub : desk.hub = s.desk.hub)
    (formed : desk.Formed) (handed : List StoredMessage) (turns : Nat) :
    Ready rt ⟨desk, handed, turns⟩ a room ∧ cursor rt ⟨desk, handed, turns⟩ room = s.cursor rt room ∧
      Grows room s ⟨desk, handed, turns⟩ := by
  obtain ⟨hub', disk, guard⟩ := desk
  cases hub
  exact ⟨⟨formed, ready.member, ready.order, ready.positive, ready.synced, ready.committed⟩, rfl,
    Grows.refl s⟩

/-- An unread message is of the room and past the cursor. -/
theorem unread_past {m : StoredMessage} (listed : m ∈ s.unread rt room) :
    m.room = room ∧ s.cursor rt room < m.seq := by
  obtain ⟨r, kept, rfl⟩ := List.mem_map.mp listed
  have own := of_decide_eq_true (List.mem_filter.mp kept).2
  exact ⟨own.1, own.2⟩

end Stage

/-- A commit of what was read moves the cursor there. -/
theorem commitOn_run (ready : s.Ready rt a room) {ends : Int} (forward : s.cursor rt room ≤ ends) :
    ∃ a' s', drive (Stage.answer cfg cardBytes fresh rt others host)
        (commitOn room (a.recordAck room ends)) s = ((a', .on), s') ∧
      s'.Ready rt a' room ∧ s'.cursor rt room = ends ∧ Stage.Grows room s s' ∧
      s'.desk.ledger = s.desk.ledger ∧ s'.handed = s.handed := by
  have pending : (a.recordAck room ends).pending room = ends := by simp
  have committed : (a.recordAck room ends).committed room ≤ s.cursor rt room := ready.committed
  have positive : 0 ≤ s.cursor rt room := ready.positive
  unfold commitOn
  rw [drive_bind]
  by_cases skips : (a.recordAck room ends).commitSkips room ends = true
  · have here : ends = s.cursor rt room := by
      rw [MeshAgent.commitSkips, Bool.or_eq_true, decide_eq_true_eq, decide_eq_true_eq] at skips
      omega
    have commits : drive (Stage.answer cfg cardBytes fresh rt others host)
        ((a.recordAck room ends).commitReads room) s =
          (((a.recordAck room ends).release room, some ()), s) := by
      unfold MeshAgent.commitReads
      rw [pending]
      dsimp only
      rw [if_pos skips]
      rfl
    rw [commits]
    refine ⟨_, s, rfl, ⟨ready.formed, ready.member, ready.order, ready.positive, Or.inr (le_of_eq ?_),
      committed⟩, here.symm, Stage.Grows.refl s, rfl, rfl⟩
    rw [MeshAgent.pending_release, pending]
    exact here
  · obtain ⟨reply, desk, answered, formed, ledger, member, order, messages, moved⟩ :=
      (ready.passes others).answer_commit cfg cardBytes fresh rt
        (le_of_eq_of_le (Stage.cursor_passes others) forward)
    have commits : drive (Stage.answer cfg cardBytes fresh rt others host)
        ((a.recordAck room ends).commitReads room) s =
          (((a.recordAck room ends).recordCommit room ends, some ()),
            { s.passes rt others with desk := desk }) := by
      unfold MeshAgent.commitReads
      rw [pending]
      dsimp only
      rw [if_neg skips]
      exact drive_call (Stage.answer_request cfg cardBytes fresh others host answered) _
    rw [commits]
    refine ⟨_, { s.passes rt others with desk := desk }, rfl, ⟨formed, member, order, ?_,
      Or.inr (le_of_eq ?_), le_of_eq ?_⟩, moved, ?_, ledger, rfl⟩
    · exact (positive.trans forward).trans (le_of_eq moved.symm)
    · have kept := (a.recordAck room ends).pending_committed room
      rw [pending] at kept
      exact kept.trans moved.symm
    · refine Eq.trans ?_ moved.symm
      simp [MeshAgent.committed, MeshAgent.recordCommit, MeshAgent.release]
    · refine (Stage.grows_passes others).trans ?_
      intro cursor
      rw [Store.backlog, Store.backlog, messages]

variable (rt room) in
/-- What a round does with the first unread message. -/
inductive Attended (host : Nat → StoredMessage → Delivery) (s : Stage) (m : StoredMessage) : Round → Stage → Prop where
  /-- It is no request, or its key is in the ledger. -/
  | passed {s' : Stage} (reason : isActionable rt.floats rt.verify m room rt.me = false ∨
      ∃ key ∈ s.desk.ledger, replayKey m = some key) (moved : s'.cursor rt room = m.seq)
      (handed : s'.handed = s.handed) : Attended host s m .on s'
  /-- The host has not finished it. -/
  | left {s' : Stage} {key : String} (actionable : isActionable rt.floats rt.verify m room rt.me = true)
      (keyed : replayKey m = some key) (new : key ∉ s.desk.ledger)
      (outcome : host s.handed.length m ≠ .acked) (stays : s'.cursor rt room = s.cursor rt room)
      (ledger : s'.desk.ledger = lastN replayCap (s.desk.ledger ++ [key]))
      (handed : s'.handed = m :: s.handed) : Attended host s m .returned s'
  /-- The host has finished it. -/
  | finished {s' : Stage} {key : String} (keyed : replayKey m = some key) (new : key ∉ s.desk.ledger)
      (outcome : host s.handed.length m = .acked) (moved : s'.cursor rt room = m.seq)
      (handed : s'.handed = m :: s.handed) : Attended host s m .on s'

/-- What is actionable is valid in the conversation. -/
theorem actionable_valid {m : StoredMessage} (actionable : isActionable rt.floats rt.verify m room rt.me = true) :
    validInConversation rt.floats rt.verify m room = true := by
  unfold isActionable at actionable
  split at actionable
  · cases actionable
  · rename_i fine
    simp only [Bool.or_eq_true, not_or, Bool.not_eq_true, Bool.not_eq_false'] at fine
    exact fine.2

/-- What is actionable has a key and is admitted unless the ledger has it. -/
theorem actionable_keyed {m : StoredMessage} (here : m.room = room)
    (actionable : isActionable rt.floats rt.verify m room rt.me = true) :
    verifyMessageForRoom rt.floats rt.verify m rt.me.id = .valid ∧ ∃ key, replayKey m = some key := by
  have valid := actionable_valid actionable
  unfold validInConversation at valid
  rw [Bool.and_eq_true, decide_eq_true_eq] at valid
  obtain ⟨genuine, routed⟩ := valid
  cases signed : MessageSig.fromParts m.parts with
  | none =>
    rw [signed] at routed
    cases routed
  | some ms =>
    rw [signed, Option.any_some, decide_eq_true_eq] at routed
    refine ⟨?_, m.sender.id ++ ":" ++ ms.uid, by rw [replayKey, signed]; rfl⟩
    simp only [verifyMessageForRoom, genuine, signed, routed, routedHere, here]
    simp

theorem attend_run (ready : s.Ready rt a room) {m : StoredMessage} (listed : m ∈ s.unread rt room) :
    ∃ a' round s', drive (Stage.answer cfg cardBytes fresh rt others host)
        (attend rt.floats rt.verify rt.me room (a.recordAck room m.seq) m) s = ((a', round), s') ∧
      Attended rt room host s m round s' ∧ Stage.Grows room s s' ∧
      (round = .on → s'.Ready rt a' room) ∧ s'.Ready rt .fresh room := by
  obtain ⟨here, past⟩ := Stage.unread_past listed
  have forward := le_of_lt past
  unfold attend
  cases actionable : isActionable rt.floats rt.verify m room rt.me with
  | false =>
    obtain ⟨a', s', run, ready', moved, grows, ledger, handed⟩ :=
      commitOn_run cfg cardBytes fresh others host ready forward
    exact ⟨a', .on, s', run, .passed (Or.inl actionable) moved handed, grows,
      fun _ => ready', ready'.anew⟩
  | true =>
    obtain ⟨valid, key, keyed⟩ := actionable_keyed here actionable
    obtain ⟨desk, answered, hub, formed, ledger⟩ :=
      ready.formed.admitMessage cfg cardBytes fresh rt valid keyed
    have admits := Stage.answer_admit cfg cardBytes fresh others host answered
    by_cases known : key ∈ s.desk.ledger
    · rw [decide_eq_false (not_not.mpr known)] at admits
      obtain ⟨ready', same, grows⟩ := ready.beside desk hub formed s.handed s.turns
      obtain ⟨a', s', run, ready'', moved, grows', -, handed⟩ :=
        commitOn_run cfg cardBytes fresh others host ready' (same.symm ▸ forward)
      exact ⟨a', .on, s', (drive_call admits _).trans run,
        .passed (Or.inr ⟨key, known, keyed⟩) moved handed, grows.trans grows', fun _ => ready'',
        ready''.anew⟩
    · rw [if_pos known] at ledger
      rw [decide_eq_true known] at admits
      have hands : Stage.answer cfg cardBytes fresh rt others host (.ask (.deliver m))
          { s with desk := desk } = (host s.handed.length m, ⟨desk, m :: s.handed, s.turns⟩) := rfl
      cases outcome : host s.handed.length m with
      | acked =>
        rw [outcome] at hands
        -- Completing the message changes only the guard.
        obtain ⟨ready', same, grows⟩ := ready.beside
          { desk with guard := desk.guard.complete [m] } hub formed (m :: s.handed) s.turns
        obtain ⟨a', s', run, ready'', moved, grows', -, handed⟩ :=
          commitOn_run cfg cardBytes fresh others host ready' (same.symm ▸ forward)
        exact ⟨a', .on, s', (drive_call admits _).trans ((drive_call hands _).trans run),
          .finished keyed known outcome moved handed, grows.trans grows', fun _ => ready'', ready''.anew⟩
      | closed =>
        rw [outcome] at hands
        obtain ⟨ready', same, grows⟩ := ready.beside desk hub formed (m :: s.handed) s.turns
        exact ⟨_, .returned, _, (drive_call admits _).trans (drive_call hands _),
          .left actionable keyed known (by simp [outcome]) same ledger rfl, grows, nofun, ready'.anew⟩
      | dropped =>
        rw [outcome] at hands
        obtain ⟨ready', same, grows⟩ := ready.beside desk hub formed (m :: s.handed) s.turns
        exact ⟨_, .returned, _, (drive_call admits _).trans (drive_call hands _),
          .left actionable keyed known (by simp [outcome]) same ledger rfl, grows, nofun, ready'.anew⟩

/-- The pull of a round brings the first unread message. -/
theorem pullWait_run (ready : s.Ready rt a room) (waits : Nat) :
    drive (Stage.answer cfg cardBytes fresh rt others host)
        (a.pullWait (Prog.perform (M := clientMachine conversationHost) (ClientCall.ask .budget)) room
          (some 1) waits) s =
      ((a.recordAck room (pageEnd (s.cursor rt room) (((s.passes rt others).unread rt room).take 1)),
        some (((s.passes rt others).unread rt room).take 1)), s.passes rt others) := by
  obtain ⟨ack, acked, old⟩ : ∃ ack, a.ackFor room = some ack ∧ ack ≤ s.cursor rt room := by
    unfold MeshAgent.ackFor
    by_cases held : room ∈ a.heldReads
    · exact ⟨0, by rw [if_pos held], ready.positive⟩
    · exact ⟨a.pending room, by rw [if_neg held], ready.synced.resolve_left held⟩
  have same := Stage.cursor_passes (s := s) others
  have answered := (ready.passes others).answer_pull cfg cardBytes fresh rt
    (old.trans (le_of_eq same.symm)) (some 1)
  have pulls : drive (Stage.answer cfg cardBytes fresh rt others host) (a.pull room (some 1)) s =
      ((a.recordAck room (pageEnd (s.cursor rt room) (((s.passes rt others).unread rt room).take 1)),
        some (((s.passes rt others).unread rt room).take 1)), s.passes rt others) := by
    unfold MeshAgent.pull
    rw [acked, ← same]
    exact drive_call (Stage.answer_request cfg cardBytes fresh others host answered) _
  cases waits with
  | zero => exact pulls
  | succ waits =>
    refine (congrArg (fun p => drive _ p s) (MeshAgent.pullWait_succ _ _ _ _ _)).trans ?_
    rw [drive_bind, pulls]
    cases ((s.passes rt others).unread rt room).take 1 with
    | nil => rfl
    | cons m rest => rfl

/-- A round with nothing to read changes nothing. -/
theorem receiveRound_idle (ready : s.Ready rt a room) (waits : Nat)
    (empty : (s.passes rt others).unread rt room = []) :
    ∃ a', drive (Stage.answer cfg cardBytes fresh rt others host)
        (receiveRound rt.floats rt.verify rt.me room waits a) s = ((a', .on), s.passes rt others) ∧
      (s.passes rt others).Ready rt a' room := by
  have ready' := ready.passes others
  refine ⟨a.recordAck room (s.cursor rt room), ?_, ?_⟩
  · rw [receiveRound, drive_bind, pullWait_run cfg cardBytes fresh others host ready waits, empty]
    rfl
  · refine ⟨ready'.formed, ready'.member, ready'.order, ready'.positive, Or.inr (le_of_eq ?_),
      ready'.committed⟩
    rw [MeshAgent.pending_recordAck, if_pos rfl]
    exact (Stage.cursor_passes others).symm

/-- A round with something to read attends to the first unread message. -/
theorem receiveRound_run (ready : s.Ready rt a room) (waits : Nat) {m : StoredMessage}
    {rest : List StoredMessage} (first : (s.passes rt others).unread rt room = m :: rest) :
    ∃ a' round s', drive (Stage.answer cfg cardBytes fresh rt others host)
        (receiveRound rt.floats rt.verify rt.me room waits a) s = ((a', round), s') ∧
      Attended rt room host (s.passes rt others) m round s' ∧ Stage.Grows room (s.passes rt others) s' ∧
      (round = .on → s'.Ready rt a' room) ∧ s'.Ready rt .fresh room := by
  obtain ⟨a', round, s', run, attended, rest⟩ := attend_run cfg cardBytes fresh others host
    (ready.passes others) (first ▸ List.mem_cons_self)
  refine ⟨a', round, s', ?_, attended, rest⟩
  rw [receiveRound, drive_bind, pullWait_run cfg cardBytes fresh others host ready waits, first]
  show drive (Stage.answer cfg cardBytes fresh rt others host)
    (attendAll rt.floats rt.verify rt.me room (a.recordAck room m.seq) [m]) (s.passes rt others) = _
  rw [attendAll, drive_bind, run]
  cases round <;> rfl

/-! ## A run -/

/-- A key that was added last is in the ledger. -/
theorem mem_lastN_append (ledger : List String) (key : String) :
    key ∈ lastN replayCap (ledger ++ [key]) := by
  have last : [key] <:+ lastN replayCap (ledger ++ [key]) := by
    refine List.suffix_of_suffix_length_le (List.suffix_append _ _) (List.drop_suffix _ _) ?_
    rw [lastN, List.length_drop, List.length_append, List.length_singleton, replayCap]
    omega
  exact last.subset (List.mem_singleton_self key)

/-- What was handed over stays so. -/
theorem receiveRounds_handed (waits rounds : Nat) (ready : s.Ready rt a room) :
    s.handed <:+ (drive (Stage.answer cfg cardBytes fresh rt others host)
      (receiveRounds rt.floats rt.verify rt.me room waits rounds a) s).2.handed := by
  induction rounds generalizing s a with
  | zero => exact List.suffix_refl _
  | succ rounds ih =>
    rw [receiveRounds, drive_bind]
    cases first : (s.passes rt others).unread rt room with
    | nil =>
      obtain ⟨a₁, one, ready₁⟩ := receiveRound_idle cfg cardBytes fresh others host ready waits first
      rw [one]
      exact ih ready₁
    | cons x rest =>
      obtain ⟨a₁, round, s₁, one, attended, grows, on, anew⟩ :=
        receiveRound_run cfg cardBytes fresh others host ready waits first
      have pushed : s.handed <:+ x :: s.handed := List.suffix_cons _ _
      rw [one]
      cases attended with
      | passed reason moved handed =>
        have kept : s₁.handed = s.handed := handed
        exact kept ▸ ih (on rfl)
      | finished keyed new outcome moved handed => exact pushed.trans (handed ▸ ih (on rfl))
      | left actionable keyed new outcome stays ledger handed =>
        show s.handed <:+ s₁.handed
        exact handed ▸ pushed

/-- How a run ends whose last message was not finished: the message is the first unread one, and its key
    is in the ledger. -/
structure Unfinished (rt : ConnectorRuntime) (room : String) (s : Stage) (m : StoredMessage) : Prop where
  handed : ∃ before, s.handed = m :: before
  actionable : isActionable rt.floats rt.verify m room rt.me = true
  first : ∃ rest, s.unread rt room = m :: rest
  keyed : ∃ key ∈ s.desk.ledger, replayKey m = some key
  ready : s.Ready rt .fresh room

/-- A run ends with the message that is not finished. -/
theorem receiveRounds_unfinished {waits rounds : Nat} (ready : s.Ready rt a room)
    {after before : List StoredMessage} {m : StoredMessage}
    (handed : (drive (Stage.answer cfg cardBytes fresh rt others host)
      (receiveRounds rt.floats rt.verify rt.me room waits rounds a) s).2.handed = after ++ m :: before)
    (here : s.handed.length ≤ before.length) (outcome : host before.length m ≠ .acked) :
    Unfinished rt room (drive (Stage.answer cfg cardBytes fresh rt others host)
      (receiveRounds rt.floats rt.verify rt.me room waits rounds a) s).2 m := by
  induction rounds generalizing s a with
  | zero =>
    have short := congrArg List.length handed
    rw [List.length_append, List.length_cons] at short
    change s.handed.length = _ at short
    omega
  | succ rounds ih =>
    rw [receiveRounds, drive_bind] at handed ⊢
    cases first : (s.passes rt others).unread rt room with
    | nil =>
      obtain ⟨a₁, one, ready₁⟩ := receiveRound_idle cfg cardBytes fresh others host ready waits first
      rw [one] at handed ⊢
      exact ih ready₁ handed here
    | cons x rest =>
      obtain ⟨a₁, round, s₁, one, attended, grows, on, anew⟩ :=
        receiveRound_run cfg cardBytes fresh others host ready waits first
      rw [one] at handed ⊢
      cases attended with
      | passed reason moved same =>
        have same : s₁.handed = s.handed := same
        exact ih (on rfl) handed (same ▸ here)
      | finished keyed new acked moved pushed =>
        have pushed : s₁.handed = x :: s.handed := pushed
        refine ih (on rfl) handed ?_
        rw [pushed, List.length_cons]
        by_contra short
        -- Then the message is the one that was finished.
        have level : s.handed.length = before.length := by omega
        obtain ⟨more, split⟩ := receiveRounds_handed cfg cardBytes fresh others host waits rounds (on rfl)
        rw [pushed] at split
        have same := (List.append_inj' (split.trans handed) (by simp [level])).2
        cases same
        exact outcome acked
      | left actionable keyed new outcome' stays ledger pushed =>
        have pushed : s₁.handed = x :: s.handed := pushed
        have last : s₁.handed = after ++ m :: before := handed
        have level := congrArg List.length (pushed.symm.trans last)
        simp only [List.length_cons, List.length_append] at level
        have none : after = [] := List.eq_nil_of_length_eq_zero (by omega)
        subst none
        have same : m :: before = x :: s.handed := last.symm.trans pushed
        cases same
        refine ⟨⟨s.handed, pushed⟩, actionable, ?_, ⟨_, ledger ▸ mem_lastN_append _ _, keyed⟩, anew⟩
        have front : m :: rest <+: s₁.unread rt room := by
          rw [← first, Stage.unread, Stage.unread, stays]
          exact grows _
        obtain ⟨more, split⟩ := front
        exact ⟨rest ++ more, split.symm⟩

end Steps

/-! ## A later start -/

/-- The hub at a later start: the agent is still in the room, nobody has read for it, and the messages are still
    there, in front of what came since. -/
structure Later (rt : ConnectorRuntime) (room : String) (hub next : HubState) : Prop where
  member : next.store.isMember room rt.me.id = true
  order : SeqOrder next.store
  cursor : next.store.getCursor room rt.me.id = hub.store.getCursor room rt.me.id
  grows : ∀ cursor, hub.store.backlog room cursor <+: next.store.backlog room cursor

/-! ## Bob is greeted -/

/-- Nobody else is at the hub. -/
def Others.quiet (rt : ConnectorRuntime) (room : String) : Others rt room where
  act _ hub := hub
  member _ _ member := member
  order _ _ order := order
  cursor _ _ := rfl
  posts _ _ _ := List.prefix_refl _

/-- Bob starts with alice's greeting and her handover unread. -/
def greeted : Stage := ⟨heldReader.desk, [], 0⟩

def bobRuns (host : Nat → StoredMessage → Delivery) (rounds : Nat) (s : Stage) : Round × Stage :=
  s.run demoConfig (fun _ => []) (demoFresh 0) busyBob (Others.quiet busyBob "r") host 0 rounds

/-- Bob's host quits over the greeting. -/
def quit : Stage := (bobRuns (fun _ _ => .dropped) 1 greeted).2

theorem quit_state : quit.handed = [heldHello] ∧ quit.cursor busyBob "r" = 0 ∧
    greeted.cursor busyBob "r" = 0 ∧ quit.desk.ledger = ["A:u"] ∧
    quit.desk.hub.store.messages = greeted.desk.hub.store.messages := by
  decide +kernel

end Parler.Cli
