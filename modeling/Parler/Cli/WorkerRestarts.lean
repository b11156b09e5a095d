import Parler.Cli.Worker

/-!
# A worker and its restarts

Runs of `parler work` one after the other, each ended by an error, a crash or its own return. The
ledger keeps the key of a message from before the agent runs, and a message whose key is in the
ledger is skipped and acknowledged. A message is therefore safe as long as no run stops between the
reservation and the result.
-/

namespace Parler.Cli

open Parler.Lib Parler.Protocol Parler.Hub Parler.Connector

variable {cfg : HubConfig}

abbrev WorkerSite (cfg : HubConfig) := Site cfg workerHost (Option WorkReport)

abbrev WorkerAction := SiteAction workerHost (Nat × Nat)

abbrev WorkerLog := List (Turn (clientMachine workerHost))

/-- Who works where, on what. -/
structure WorkerSetup (cfg : HubConfig) where
  cardBytes : AgentCard → List UInt8
  floats : FloatFormat
  verify : String → List UInt8 → String → Bool
  me : Authed
  room : String
  runner : String
  options : WorkOptions

namespace WorkerSetup

variable (W : WorkerSetup cfg)

def setup : Setup cfg workerHost (Option WorkReport) (Nat × Nat) where
  cardBytes := W.cardBytes
  floats := W.floats
  verify := W.verify
  me := W.me
  boot k := run W.floats W.verify W.me W.room W.runner W.options k.1 k.2

/-- A validly signed message that is work for this worker. -/
abbrev Selects (m : StoredMessage) : Prop := Selected W.floats W.verify W.me W.options m

end WorkerSetup

/-- Some run posted a terminal result of the message and the hub confirmed it. -/
def Posted (log : WorkerLog) (m : StoredMessage) : Prop :=
  ∃ n frame id seq room, ⟨n, ⟨ClientCall.request frame, some (.sent id seq room)⟩⟩ ∈ log ∧
    terminalFor m frame

theorem Posted.append {log : WorkerLog} {m : StoredMessage} (posted : Posted log m)
    (newer : WorkerLog) : Posted (newer ++ log) m := by
  obtain ⟨n, frame, id, seq, room, sent, terminal⟩ := posted
  exact ⟨n, frame, id, seq, room, List.mem_append_right _ sent, terminal⟩

theorem PostedIn.posted {log : WorkerLog} {n : Nat} {m : StoredMessage}
    (posted : PostedIn (turnsOf log n) m) : Posted log m := by
  obtain ⟨frame, id, seq, room, sent, terminal⟩ := posted
  exact ⟨n, frame, id, seq, room, mem_turnsOf.mp sent, terminal⟩

/-- Process `n` reserved the message. -/
def Reserved (log : WorkerLog) (n : Nat) (m : StoredMessage) : Prop :=
  ⟨n, ⟨ClientCall.admitMessage m, some true⟩⟩ ∈ log

/-- No two messages that the runs were handed carry the same author and uid. -/
def DistinctKeys (log : WorkerLog) : Prop :=
  ∀ n m r n' m' r', ⟨n, ⟨ClientCall.admitMessage m, r⟩⟩ ∈ log → ⟨n', ⟨ClientCall.admitMessage m', r'⟩⟩ ∈ log →
    replayKey m = replayKey m' → m = m'

/-- A run is started when the one before it has ended. -/
def oneAtATime (w : WorkerSite cfg) : WorkerAction → Prop
  | .start _ => ∀ n, w.procs n = none
  | _ => True

/-- No run is started after one that stopped between the reservation of a selected message and its
    terminal result. -/
def uninterrupted (W : WorkerSetup cfg) (w : WorkerSite cfg) : WorkerAction → Prop
  | .start _ => ∀ key ∈ w.disk.getD [], ∀ n m, Reserved w.log n m → replayKey m = some key →
      W.Selects m → Posted w.log m
  | _ => True

/-- The runs in which a selected message is safe. -/
def careful (W : WorkerSetup cfg) (w : WorkerSite cfg) (x : WorkerAction) : Prop :=
  oneAtATime w x ∧ uninterrupted W w x ∧ DistinctKeys (w.act W.setup x).log

section Runs

variable {W : WorkerSetup cfg} {inflight : Nat} {w : WorkerSite cfg}

/-- Every run keeps to the order of a worker. -/
theorem worker_ordered {G : WorkerSite cfg → WorkerAction → Prop}
    (reach : Site.Reachable W.setup G inflight w) {n : Nat}
    {p : Proc workerHost (Option WorkReport)} (alive : w.procs n = some p) :
    p.prog.Follows (workerRule W.floats W.verify W.me W.room W.options) (turnsOf w.log n) :=
  reach.own (K := fun prog past =>
      prog.Follows (workerRule W.floats W.verify W.me W.room W.options) past)
    (fun k => run_follows k.1 k.2) (fun _ _ _ r follows => follows.2 r) alive

/-- What holds of a careful run. -/
structure Safe (W : WorkerSetup cfg) (w : WorkerSite cfg) : Prop where
  alone : ∀ n n' p p', w.procs n = some p → w.procs n' = some p' → n = n'
  distinct : DistinctKeys w.log
  /-- A key of the ledger was reserved by the run alive, or the messages it was reserved for have
      results. -/
  keys : ∀ n p, w.procs n = some p → ∀ key ∈ w.disk.getD [],
    (∃ m, Reserved w.log n m ∧ replayKey m = some key) ∨
      ∀ n' m, Reserved w.log n' m → replayKey m = some key → W.Selects m → Posted w.log m
  /-- A selected message is refused only after it got a result. -/
  refusals : ∀ newer n m older, w.log = newer ++ ⟨n, ⟨ClientCall.admitMessage m, some false⟩⟩ :: older →
    W.Selects m → Posted older m
  tracked : Tracked (fun log m => W.Selects m → Posted log m) W.room W.me w

/-- What a run has dealt with has a result, if it is selected. -/
theorem Safe.dealt (safe : Safe W w) {n : Nat} {m : StoredMessage}
    (dealt : DealtIn W.floats W.verify W.me W.options (turnsOf w.log n) m)
    (selected : W.Selects m) : Posted w.log m := by
  rcases dealt selected with refused | posted
  · obtain ⟨newer, older, split⟩ := List.append_of_mem (mem_turnsOf.mp refused)
    have posted := safe.refusals newer n m older split selected
    rw [split, ← List.singleton_append, ← List.append_assoc]
    exact posted.append _
  · exact posted.posted

/-- What the runs send is safe. -/
theorem Safe.acks (safe : Safe W w) {G : WorkerSite cfg → WorkerAction → Prop}
    (reach : Site.Reachable W.setup G inflight w) {n : Nat}
    {p : Proc workerHost (Option WorkReport)} {frame : ClientFrame}
    {after : Option ServerFrame → Client workerHost (Option WorkReport)}
    (alive : w.procs n = some p) (pending : p.prog = .call (ClientCall.request frame) after) :
    Meets (SafeAck (fun log m => W.Selects m → Posted log m) W.room w.pool.state.store w.log)
      frame := by
  have follows := worker_ordered reach alive
  rw [pending] at follows
  have rule := follows.1
  cases frame with
  | pull r since limit wait ack =>
    obtain ⟨-, -, -, a, rfl, may⟩ := rule
    refine Or.inr ⟨a, rfl, fun _ => ?_⟩
    refine safe.tracked.acknowledges reach may ?_
    exact fun m dealt selected => safe.dealt dealt selected
  | _ => trivial

/-- A selected message is refused only when it has a result. -/
theorem Safe.refused (safe : Safe W w) {G : WorkerSite cfg → WorkerAction → Prop}
    (reach : Site.Reachable W.setup G inflight w) {x : WorkerAction} {n : Nat}
    {p : Proc workerHost (Option WorkReport)} {m : StoredMessage}
    {after : Option Bool → Client workerHost (Option WorkReport)} {guard : AutonomousReplayGuard}
    {disk : Option (List String)} (alive : w.procs n = some p)
    (pending : p.prog = .call (ClientCall.admitMessage m) after)
    (effect : w.Effect W.setup n p x (.admitMessage m) (some false) guard disk)
    (distinct : DistinctKeys (⟨n, ⟨ClientCall.admitMessage m, some false⟩⟩ :: w.log))
    (selected : W.Selects m) : Posted w.log m := by
  obtain ⟨formed, guards, reserved⟩ := reach.ledger
  obtain ⟨key, keyed, listed⟩ := effect.refused (guards n p alive) formed rfl selected.1
  -- Whoever reserved the key reserved it for this message.
  have same : ∀ n' m', Reserved w.log n' m' → replayKey m' = some key → m' = m := by
    intro n' m' admitted keyed'
    exact distinct n' m' _ n m _ (List.mem_cons_of_mem _ admitted) List.mem_cons_self
      (keyed'.trans keyed.symm)
  rcases safe.keys n p alive key listed with ⟨m', own, keyed'⟩ | done
  · rw [same n m' own keyed'] at own
    have follows := worker_ordered reach alive
    rw [pending] at follows
    have settled : SettledBut W.floats W.verify W.me W.options none (turnsOf w.log n) := follows.1
    have posted := (settled m (mem_turnsOf.mpr own) selected).resolve_right nofun
    exact posted.posted
  · obtain ⟨n', m', admitted, keyed'⟩ := reserved key listed
    rw [same n' m' admitted keyed'] at admitted
    exact done n' m admitted keyed selected

theorem safe_init (W : WorkerSetup cfg) (inflight : Nat) : Safe W (Site.init inflight) where
  alone := by simp
  distinct := fun _ _ _ _ _ _ logged => nomatch logged
  keys := by simp
  refusals := by simp
  tracked := tracked_init W.me inflight

/-- One process is alive at a time. -/
theorem Safe.alone_act (safe : Safe W w) {x : WorkerAction} {w' : WorkerSite cfg}
    (one : oneAtATime w x) (change : w.Change W.setup x w') :
    ∀ n n' p p', w'.procs n = some p → w'.procs n' = some p' → n = n' := by
  intro n n' p p' now now'
  rcases change.before now with ⟨q, alive⟩ | ⟨new, k, rfl⟩
  · rcases change.before now' with ⟨q', alive'⟩ | ⟨-, k, rfl⟩
    · exact safe.alone n n' q q' alive alive'
    · rw [one n] at alive
      cases alive
  · rcases change.before now' with ⟨q', alive'⟩ | ⟨new', -⟩
    · rw [one n'] at alive'
      cases alive'
    · rw [new, new']

theorem Safe.keys_act (safe : Safe W w) {G : WorkerSite cfg → WorkerAction → Prop}
    (reach : Site.Reachable W.setup G inflight w) {x : WorkerAction} {w' : WorkerSite cfg}
    (one : oneAtATime w x) (whole : uninterrupted W w x) (change : w.Change W.setup x w') :
    ∀ n p, w'.procs n = some p → ∀ key ∈ w'.disk.getD [],
      (∃ m, Reserved w'.log n m ∧ replayKey m = some key) ∨
        ∀ n' m, Reserved w'.log n' m → replayKey m = some key → W.Selects m → Posted w'.log m := by
  intro n p' now key member
  have single := safe.alone_act one change
  rcases change.before now with ⟨p, alive⟩ | ⟨-, k, rfl⟩
  · cases change with
    | start k =>
      rw [one n] at alive
      cases alive
    | turn x n' q op after r guard disk alive' pending effect =>
      have same : n = n' := safe.alone n n' p q alive alive'
      subst same
      obtain ⟨formed, guards, -⟩ := reach.ledger
      obtain ⟨-, -, origin⟩ := effect.ledger (guards n q alive') formed
      by_cases new : ∃ m, (⟨op, r⟩ : ClientDone workerHost) = ⟨ClientCall.admitMessage m, some true⟩ ∧
          replayKey m = some key
      · -- The run alive has reserved the key just now.
        obtain ⟨m, turn, keyed⟩ := new
        refine Or.inl ⟨m, ?_, keyed⟩
        rw [Reserved, ← turn]
        exact List.mem_cons_self
      · have old := (origin key member).resolve_right new
        rcases safe.keys n p alive key old with ⟨m, own, keyed⟩ | done
        · exact Or.inl ⟨m, List.mem_cons_of_mem _ own, keyed⟩
        · refine Or.inr ?_
          intro n' m admitted keyed selected
          rcases List.mem_cons.mp admitted with turn | before
          · cases turn
            exact absurd ⟨m, rfl, keyed⟩ new
          · exact (done n' m before keyed selected).append [_]
    | _ => exact safe.keys n p alive key member
  · cases change with
    | same | start => exact Or.inr (whole key member)
    | turn x n' q op after r guard disk alive pending effect => cases effect

theorem Safe.refusals_act (safe : Safe W w) {G : WorkerSite cfg → WorkerAction → Prop}
    (reach : Site.Reachable W.setup G inflight w) {x : WorkerAction} {w' : WorkerSite cfg}
    (distinct : DistinctKeys w'.log) (change : w.Change W.setup x w') :
    ∀ newer n m older, w'.log = newer ++ ⟨n, ⟨ClientCall.admitMessage m, some false⟩⟩ :: older →
      W.Selects m → Posted older m := by
  intro newer n m older split selected
  cases change with
  | turn x n' p op after r guard disk alive pending effect =>
    rcases List.cons_eq_append_iff.mp split with ⟨-, split⟩ | ⟨rest, -, split⟩
    · cases split
      exact safe.refused reach alive pending effect distinct selected
    · exact safe.refusals rest n m older split selected
  | _ => exact safe.refusals newer n m older split selected

/-- The run lemma. -/
theorem safe_of_careful (reach : Site.Reachable W.setup (careful W) inflight w) : Safe W w := by
  refine Site.Reachable.invariant (safe_init W inflight) ?_ reach
  rintro w x w' before safe ⟨one, whole, distinct⟩ change rfl
  refine ⟨safe.alone_act one change, distinct, safe.keys_act before one whole change,
    safe.refusals_act before distinct change, ?_⟩
  refine safe.tracked.act before ?_ (fun n p frame after => safe.acks before) change
  exact fun turn log m posted selected => (posted selected).append [turn]

/-- If no run is started while another is alive, none is started after one that stopped between
    reserving a selected message and posting its result, and no two messages have the same key, then
    the cursor of the worker stays below every selected message without a result, such a message is
    never refused as a replay, and a run that reads on after a batch that reaches to it has posted
    its result. -/
theorem unfinished_stays_unless_interrupted
    (reach : Site.Reachable W.setup (careful W) inflight w) :
    (∀ r ∈ w.pool.state.store.messages, r.room = W.room → W.Selects r.toStored →
      ¬ Posted w.log r.toStored → w.pool.state.store.getCursor W.room W.me.id < r.seq) ∧
    (∀ newer n m fresh older, w.log = newer ++ ⟨n, ⟨ClientCall.admitMessage m, some fresh⟩⟩ :: older →
      W.Selects m → ¬ Posted older m → fresh = true) ∧
    ∀ n p limit wait ack after, w.procs n = some p →
      p.prog = .call (ClientCall.request (.pull W.room none limit wait ack)) after →
      limit ≠ some 0 → ∀ limit' wait' ack' room' messages cursor,
        ⟨n, ⟨ClientCall.request (.pull W.room none limit' wait' ack'),
          some (.pulled room' messages cursor)⟩⟩ ∈ w.log →
        ∀ r ∈ w.pool.state.store.messages, r.room = W.room → r.seq ≤ cursor →
          W.Selects r.toStored → Posted w.log r.toStored := by
  have safe := safe_of_careful reach
  refine ⟨?_, ?_, ?_⟩
  · intro r member here selected missing
    by_contra! passed
    obtain ⟨-, -, dealt⟩ := safe.tracked.meets.cursor W.room rfl
    rcases dealt r member here passed with posted | impossible
    · exact missing (posted selected)
    · cases impossible
  · intro newer n m fresh older split selected missing
    cases fresh with
    | true => rfl
    | false => exact absurd (safe.refusals newer n m older split selected) missing
  · intro n p limit wait ack after alive pending reads limit' wait' ack' room' messages cursor
      received r member here below selected
    have follows := worker_ordered reach alive
    rw [pending] at follows
    have read := follows.1.1 reads
    obtain ⟨⟨-, -, dealt⟩, short⟩ :=
      safe.tracked.batches n limit' wait' ack' room' messages cursor received
    rcases dealt r member here below with posted | listed
    · exact posted selected
    · have handled := read _ (mem_turnsOf.mpr received) messages
        ⟨limit', wait', ack', room', cursor, short, rfl⟩ _ listed
      exact safe.dealt (handled.resolve_right List.not_mem_nil) selected

end Runs

/-! ## Two runs -/

/-- Bob works in the room `r`, on every signed message. -/
def demoWorker : WorkerSetup demoConfig :=
  ⟨fun _ => [], bitsFormat, acceptS, bob, "r", "codex", ⟨.room, true, [], 0, false⟩⟩

/-- What Alice asks for. -/
def demoRequest : List Part := [.text "work", (MessageSig.mk "s" 0 "x" (.room "r")).toPart]

/-- Her message as the hub stores it. -/
def demoTask : StoredMessage := ⟨1, "m2", "r", ⟨"A", "alice", none⟩, demoRequest, none, none, 0⟩

theorem demoTask_selected : demoWorker.Selects demoTask :=
  ⟨by decide +kernel, ⟨"m2", "A", "alice", "work", none, none, none, false⟩, by decide +kernel⟩

/-- The host of a worker: signing works, and so does the runner. -/
def demoAnswers : (op : ClientCall workerHost) → op.Res
  | .request _ => none
  | .admitMessage _ => none
  | .complete _ => ()
  | .release _ => none
  | .sign .. => some ⟨"s", 0, "y", "c"⟩
  | .ask .now => (0 : Int)
  | .ask .budget => none
  | .ask (.run _) => (⟨true, "done", none, 0⟩ : RunnerOutcome)

def demoWork (actions : List WorkerAction) : WorkerSite demoConfig :=
  (Site.init (50 * 1024 * 1024)).play demoWorker.setup (demoPosted demoRequest ++ actions)

/-- The turn is a message that the hub confirmed. -/
def confirms (turn : Turn (clientMachine workerHost)) : Bool :=
  match turn.done with
  | ⟨.request (.send ..), some (.sent ..)⟩ => true
  | _ => false

theorem Posted.confirmed {log : WorkerLog} {m : StoredMessage} (posted : Posted log m) :
    log.any confirms = true := by
  obtain ⟨n, frame, id, seq, room, sent, terminal⟩ := posted
  refine List.any_eq_true.mpr ⟨_, sent, ?_⟩
  cases frame with
  | send => rfl
  | _ => exact terminal.elim

/-- The messages that runs asked the ledger for. -/
def offered (log : WorkerLog) : List StoredMessage :=
  log.filterMap fun turn =>
    match turn.done with
    | ⟨.admitMessage m, _⟩ => some m
    | _ => none

theorem distinctKeys_of_only {log : WorkerLog} {only : StoredMessage}
    (all : ∀ m ∈ offered log, m = only) : DistinctKeys log := by
  intro n m r n' m' r' logged logged' _
  rw [all m (List.mem_filterMap.mpr ⟨_, logged, rfl⟩),
    all m' (List.mem_filterMap.mpr ⟨_, logged', rfl⟩)]

/-- Runs are started when no other is alive. -/
def startsIdle (w : WorkerSite demoConfig) : WorkerAction → Bool
  | .start _ => (List.range w.started).all (fun n => (w.procs n).isNone)
  | _ => true

theorem oneAtATime_of_idle {w : WorkerSite demoConfig} {x : WorkerAction} {inflight : Nat}
    {G : WorkerSite demoConfig → WorkerAction → Prop}
    (reach : Site.Reachable demoWorker.setup G inflight w) (idle : startsIdle w x = true) :
    oneAtATime w x := by
  cases x with
  | start k =>
    intro n
    by_contra alive
    obtain ⟨p, alive⟩ := Option.ne_none_iff_exists'.mp alive
    have old := reach.numbered.1 n p alive
    have gone := List.all_eq_true.mp idle n (List.mem_range.mpr old)
    rw [alive] at gone
    cases gone
  | _ => trivial

/-- They are started with an empty ledger, and one message is offered. -/
def carefulCheck (w : WorkerSite demoConfig) (x : WorkerAction) : Bool :=
  startsIdle w x &&
    ((match x with
      | .start _ => (w.disk.getD []).isEmpty
      | _ => true) &&
    (offered (w.act demoWorker.setup x).log).all (fun m => m = demoTask))

theorem careful_of_check {w : WorkerSite demoConfig} {x : WorkerAction} {inflight : Nat}
    (reach : Site.Reachable demoWorker.setup (careful demoWorker) inflight w)
    (passed : carefulCheck w x = true) : careful demoWorker w x := by
  obtain ⟨idle, passed⟩ := Bool.and_eq_true_iff.mp passed
  obtain ⟨starts, one⟩ := Bool.and_eq_true_iff.mp passed
  refine ⟨oneAtATime_of_idle reach idle, ?_, distinctKeys_of_only (by simpa using one)⟩
  cases x with
  | start k =>
    intro key member
    rw [List.isEmpty_iff.mp starts] at member
    cases member
  | _ => trivial

/-- A run reads the request and crashes; the next one reads and reserves it. -/
def crashedEarly : List WorkerAction :=
  SiteAction.start (1, 1) :: demoExchange 0 3 ++ demoExchange 0 4 ++
    [SiteAction.stop 0, SiteAction.start (1, 1)] ++
    demoExchange 1 5 ++ demoExchange 1 6 ++ [SiteAction.ledger 1 none]

theorem unfinished_stays_unless_interrupted_demo :
    (∃ r ∈ (demoWork crashedEarly).pool.state.store.messages, r.toStored = demoTask) ∧
      (demoWork crashedEarly).pool.state.store.getCursor "r" "B" < 1 := by
  have stored : ∃ r ∈ (demoWork crashedEarly).pool.state.store.messages,
      r.room = "r" ∧ r.seq = 1 ∧ r.toStored = demoTask := by decide +kernel
  obtain ⟨r, member, here, first, same⟩ := stored
  have reach : Site.Reachable demoWorker.setup (careful demoWorker) (50 * 1024 * 1024)
      (demoWork crashedEarly) :=
    Site.Reachable.play carefulCheck (fun _ _ => careful_of_check) .init (by decide +kernel)
  have quiet : (demoWork crashedEarly).log.any confirms = false := by decide +kernel
  have below := (unfinished_stays_unless_interrupted reach).1 r member here
    (by rw [same]; exact demoTask_selected)
    (fun posted => by rw [posted.confirmed] at quiet; cases quiet)
  rw [first] at below
  exact ⟨⟨r, member, same⟩, below⟩

/-- A run reserves the request, fails to announce it and ends; the next one takes the request for a
    replay. -/
def interruptedWork : List WorkerAction :=
  SiteAction.start (1, 1) :: demoExchange 0 3 ++ demoExchange 0 4 ++
    ([.ledger 0 none, .answer 0 demoAnswers, .answer 0 demoAnswers, .fail 0, .stop 0,
      .start (1, 1)] : List WorkerAction) ++
    demoExchange 1 5 ++ demoExchange 1 6 ++ ([.ledger 1 none, .ledger 1 none] : List WorkerAction) ++
    demoExchange 1 7

/-- The cursor has passed a selected message of which no result was posted. -/
theorem interrupted_work_is_lost :
    Site.Reachable demoWorker.setup oneAtATime (50 * 1024 * 1024) (demoWork interruptedWork) ∧
      DistinctKeys (demoWork interruptedWork).log ∧
      ∃ r ∈ (demoWork interruptedWork).pool.state.store.messages, r.room = "r" ∧
        demoWorker.Selects r.toStored ∧ ¬ Posted (demoWork interruptedWork).log r.toStored ∧
        r.seq ≤ (demoWork interruptedWork).pool.state.store.getCursor "r" "B" := by
  refine ⟨Site.Reachable.play startsIdle (fun _ _ => oneAtATime_of_idle) .init
    (by decide +kernel), ?_, ?_⟩
  · have only : ∀ m ∈ offered (demoWork interruptedWork).log, m = demoTask := by decide +kernel
    exact distinctKeys_of_only only
  · have stored : ∃ r ∈ (demoWork interruptedWork).pool.state.store.messages, r.room = "r" ∧
        r.toStored = demoTask ∧
        r.seq ≤ (demoWork interruptedWork).pool.state.store.getCursor "r" "B" := by decide +kernel
    obtain ⟨r, member, here, same, passed⟩ := stored
    have quiet : (demoWork interruptedWork).log.any confirms = false := by decide +kernel
    refine ⟨r, member, here, ?_, ?_, passed⟩
    · rw [same]
      exact demoTask_selected
    · intro posted
      rw [posted.confirmed] at quiet
      cases quiet

end Parler.Cli
