import Parler.Cli.ClaudeHooks
import Parler.Lib.Runs
import Parler.Lib.Table

/-!
# Signed messages in visible hosts

All processes of one identity that turn signed messages of peers into turns of a visible host: the
receiving tasks of Codex and OpenCode (`receive_loop`), which share the replay ledger, and the hooks of
Claude Code (`wake_hook`), which share the state files. The hub may answer whatever it likes.
-/

namespace Parler.Cli

open Parler.Lib Parler.Protocol Parler.Hub Parler.Connector

/-! ## The processes -/

/-- The hosts that `receive_loop` serves. -/
inductive LoopAdapter where
  | codex
  | opencode
  deriving DecidableEq

/-- What a signed message is known by, wherever it is delivered: its author and the author's uid. -/
def signedId (message : StoredMessage) : Option (String × String) :=
  (MessageSig.fromParts message.parts).map (fun sig => (message.sender.id, sig.uid))

/-- The key of a message in the ledger. -/
def ledgerKey (id : String × String) : String := id.1 ++ ":" ++ id.2

theorem replayKey_eq (message : StoredMessage) : replayKey message = (signedId message).map ledgerKey := by
  rw [replayKey, signedId, Option.map_map]
  rfl

/-- A turn that a receiving task started: the process, the host, and the message. -/
structure LoopTurn where
  process : Nat
  adapter : LoopAdapter
  id : String × String
  deriving DecidableEq

/-- A hook that waits for a peer, and the signed messages that its pulls have brought it. -/
structure WaitingHook where
  hook : Nat
  shown : List (String × String)
  deriving DecidableEq

/-- The processes of one identity, and the turns they started, newest first. -/
structure VisibleHosts where
  replay : ReplayWorld
  loops : Nat → Option (LoopAdapter × ConversationClient (MeshAgent × Round))
  hooks : Nat → Option (HookClient Unit)
  dir : HookDir
  loopTurns : List LoopTurn
  claudeTurns : List (String × String)
  /-- Which hooks wait, and what the hub has shown them; no process looks at it. -/
  waiting : List WaitingHook

def VisibleHosts.start (dir : HookDir) : VisibleHosts :=
  ⟨.init, fun _ => none, fun _ => none, dir, [], [], []⟩

/-- What a hook was shown, if it waits. -/
def shownTo (waiting : List WaitingHook) (n : Nat) : Option (List (String × String)) :=
  (rowOf WaitingHook.hook n waiting).map WaitingHook.shown

def setShown (waiting : List WaitingHook) (n : Nat) (shown : Option (List (String × String))) : List WaitingHook :=
  (shown.map (WaitingHook.mk n)).toList ++ deleteWhere (fun h => h.hook = n) waiting

/-- What can happen next. A process makes its next call; what the call does not find here, it is answered
    by whoever is asked, the hub foremost. -/
inductive HostEvent where
  | startLoop (n : Nat) (adapter : LoopAdapter) (room : String) (waits rounds : Nat)
  | stepLoop (n : Nat) (answers : (op : ClientCall conversationHost) → op.Res) (fault : Option Fault)
  | startHook (n : Nat) (input : HookInput) (tries waits rounds : Nat)
  | stepHook (n : Nat) (answers : (op : ClientCall claudeHost) → op.Res) (fault : Bool)
  | stop (n : Nat)
  /-- The launcher, another command or the file system changes the files of the hooks. -/
  | files (dir : HookDir)

section Step

variable (F : FloatFormat) (verify : String → List UInt8 → String → Bool)
  (readHandoff : String → Option HandoffRef) (me : Authed)

/-- The signed messages that the answer to a call shows as requests of peers, unless it is a commit. -/
def shownBy : (op : ClientCall claudeHost) → op.Res → List (String × String)
  | .request (.pull room _ limit _ _), reply =>
      if limit = some 0 then []
      else
        match (reply : Option ServerFrame) with
        | some (.pulled _ messages _) =>
            (messages.filter (fun m => isActionable F verify m room me)).filterMap signedId
        | _ => []
  | _, _ => []

/-- What a hook was shown, after a call. It waits from the `waiting` presence on, and a turn ends it. -/
def shownAfter : (op : ClientCall claudeHost) → op.Res → Option (List (String × String)) →
    Option (List (String × String))
  | .request (.presence status _ _), _, shown => if status = "waiting" then some [] else shown
  | .ask (.rewake ..), _, _ => none
  | op, answer, shown => shown.map (· ++ shownBy F verify me op answer)

namespace VisibleHosts

variable (w : VisibleHosts)

/-- A receiving task goes on. -/
def resumeLoop (n : Nat) (adapter : LoopAdapter) (p : ConversationClient (MeshAgent × Round)) :
    VisibleHosts := { w with loops := Function.update w.loops n (some (adapter, p)) }

/-- A hook goes on, or has ended. -/
def resumeHook (n : Nat) (p : HookClient Unit) : VisibleHosts :=
  { w with
    hooks := Function.update w.hooks n (some p)
    waiting := match p with
      | .ret _ => setShown w.waiting n none
      | .call .. => w.waiting }

/-- What `admit` returns to a process. -/
def admission (n : Nat) (message : StoredMessage) (fault : Option Fault) : Option Bool :=
  match w.replay.guards n with
  | none => none
  | some g => (g.admitMessage w.replay.disk fault F verify message me.id).1

/-- A call of a receiving task. -/
def callLoop (n : Nat) (adapter : LoopAdapter) (answers : (op : ClientCall conversationHost) → op.Res)
    (fault : Option Fault) :
    (op : ClientCall conversationHost) → (op.Res → ConversationClient (MeshAgent × Round)) → VisibleHosts
  | .admitMessage message, next =>
      { w with replay := w.replay.act F verify (.admitMessage n message me.id fault) }.resumeLoop n adapter
        (next (w.admission F verify me n message fault))
  | .complete messages, next =>
      { w with replay := w.replay.act F verify (.complete n messages) }.resumeLoop n adapter (next ())
  | .release messages, next =>
      { w with replay := w.replay.act F verify (.release n messages fault) }.resumeLoop n adapter
        (next (answers (.release messages)))
  | .ask (.deliver message), next =>
      { w with loopTurns := (signedId message).toList.map (LoopTurn.mk n adapter) ++ w.loopTurns }.resumeLoop
        n adapter (next (answers (.ask (.deliver message))))
  | op, next => w.resumeLoop n adapter (next (answers op))

/-- A call of a hook. -/
def callHook (n : Nat) (answers : (op : ClientCall claudeHost) → op.Res) (fault : Bool) :
    (op : ClientCall claudeHost) → (op.Res → HookClient Unit) → VisibleHosts
  | .ask question, next =>
      let (answer, dir) := w.dir.answer (fun q => answers (.ask q)) fault n question
      let started := match question with
        | .rewake (some message) _ => (signedId message).toList
        | _ => []
      { w with
        dir := dir
        claudeTurns := started ++ w.claudeTurns
        waiting := setShown w.waiting n (shownAfter F verify me (.ask question) answer (shownTo w.waiting n))
        }.resumeHook n (next answer)
  | op, next =>
      { w with
        waiting := setShown w.waiting n (shownAfter F verify me op (answers op) (shownTo w.waiting n))
        }.resumeHook n (next (answers op))

def step : HostEvent → VisibleHosts
  | .startLoop n adapter room waits rounds =>
      if .started n ∈ w.replay.log then w
      else
        { w with replay := w.replay.act F verify (.start n) }.resumeLoop n adapter
          (receiveLoop F verify me room waits rounds)
  | .stepLoop n answers fault =>
      match w.loops n with
      | some (adapter, .call op next) => w.callLoop F verify me n adapter answers fault op next
      | _ => w
  | .startHook n input tries waits rounds =>
      match w.hooks n with
      | some _ => w
      | none => w.resumeHook n (wakeHook F verify readHandoff me input tries waits rounds)
  | .stepHook n answers fault =>
      match w.hooks n with
      | some (.call op next) => w.callHook F verify me n answers fault op next
      | _ => w
  | .stop n =>
      { w with
        replay := w.replay.act F verify (.stop n)
        loops := Function.update w.loops n none
        hooks := Function.update w.hooks n none
        waiting := setShown w.waiting n none }
  | .files dir => { w with dir := dir }

end VisibleHosts

end Step

/-! ## What a receiving task asks -/

/-- A message goes to the host right after it was admitted, and nothing is released. -/
def Admitted (past : List (ClientDone conversationHost)) : ClientCall conversationHost → Prop
  | .ask (.deliver message) =>
      past.head? = some ⟨ClientCall.admitMessage message, (some true : Option Bool)⟩
  | .release _ => False
  | _ => True

/-- A request to the hub. -/
def IsRequest {H : Host} : ClientCall H → Prop
  | .request _ => True
  | _ => False

section Requests

variable {H : Host} {a : MeshAgent} {room : String}

theorem pull_requests {limit : Option Nat} :
    (a.pull room limit : Client H (MeshAgent × Option (List StoredMessage))).Calls IsRequest :=
  ⟨trivial, fun _ => trivial⟩

theorem pullParked_requests {limit : Option Nat} {chunk : Nat} :
    (a.pullParked room limit chunk : Client H (MeshAgent × Option (List StoredMessage))).Calls
      IsRequest :=
  ⟨trivial, fun _ => trivial⟩

theorem commitReads_requests :
    (a.commitReads room : Client H (MeshAgent × Option Unit)).Calls IsRequest := by
  unfold MeshAgent.commitReads
  dsimp only
  split
  · trivial
  · refine ⟨trivial, fun reply => ?_⟩
    dsimp only
    split <;> trivial

end Requests

theorem IsRequest.admitted (past : List (ClientDone conversationHost))
    (op : ClientCall conversationHost) (request : IsRequest op) : Admitted past op := by
  cases op with
  | request frame => trivial
  | _ => exact absurd request id

theorem pullWait_admitted {a : MeshAgent} {room : String} {limit : Option Nat} (waits : Nat)
    (past : List (ClientDone conversationHost)) :
    (a.pullWait (Prog.perform (M := clientMachine conversationHost) (ClientCall.ask .budget)) room limit
      waits).Follows Admitted past := by
  induction waits generalizing a past with
  | zero => exact pull_requests.follows IsRequest.admitted past
  | succ waits ih =>
    refine Prog.Follows.bind_free (pull_requests.follows IsRequest.admitted past) ?_
    intro first past
    cases first.2 with
    | none => trivial
    | some messages =>
      cases messages with
      | cons m rest => trivial
      | nil =>
        refine ⟨trivial, fun chunk => ?_⟩
        cases (chunk : Option Nat) with
        | none => trivial
        | some chunk =>
          apply Prog.Follows.bind_free (pullParked_requests.follows IsRequest.admitted _)
          intro second past
          cases second.2 with
          | none => trivial
          | some messages =>
            cases messages with
            | cons m rest => trivial
            | nil => exact ih past

section Loop

variable (F : FloatFormat) (verify : String → List UInt8 → String → Bool) (me : Authed) (room : String)

theorem commitOn_admitted (a : MeshAgent) (past : List (ClientDone conversationHost)) :
    (commitOn room a).Follows Admitted past := by
  apply Prog.Follows.bind_free (commitReads_requests.follows IsRequest.admitted past)
  intro committed past
  trivial

theorem attend_admitted (a : MeshAgent) (message : StoredMessage)
    (past : List (ClientDone conversationHost)) :
    (attend F verify me room a message).Follows Admitted past := by
  unfold attend
  split
  · exact commitOn_admitted room a past
  · refine ⟨trivial, fun admitted => ?_⟩
    cases (admitted : Option Bool) with
    | none => trivial
    | some admitted =>
      cases admitted with
      | false => exact commitOn_admitted room a _
      | true =>
        refine ⟨rfl, fun delivery => ?_⟩
        cases (delivery : Delivery) with
        | closed => trivial
        | dropped => trivial
        | acked => exact ⟨trivial, fun _ => commitOn_admitted room a _⟩

theorem attendAll_admitted (a : MeshAgent) (messages : List StoredMessage)
    (past : List (ClientDone conversationHost)) :
    (attendAll F verify me room a messages).Follows Admitted past := by
  induction messages generalizing a past with
  | nil => trivial
  | cons message rest ih =>
    apply Prog.Follows.bind_free (attend_admitted F verify me room a message past)
    intro attended past
    cases attended.2 with
    | on => exact ih attended.1 past
    | returned => trivial
    | failed => trivial

/-- The receiving task hands over what it has just admitted. -/
theorem receiveLoop_admitted (waits rounds : Nat) (past : List (ClientDone conversationHost)) :
    (receiveLoop F verify me room waits rounds).Follows Admitted past := by
  refine ⟨trivial, fun _ => ?_⟩
  have from_any : ∀ a past, (receiveRounds F verify me room waits rounds a).Follows Admitted past := by
    induction rounds with
    | zero => exact fun _ _ => trivial
    | succ rounds ih =>
      intro a past
      apply Prog.Follows.bind_free
      · apply Prog.Follows.bind_free (pullWait_admitted waits past)
        intro pulled past
        cases pulled.2 with
        | none => trivial
        | some messages => exact attendAll_admitted F verify me room pulled.1 messages past
      · intro round past
        cases round.2 with
        | on => exact ih round.1 past
        | returned => trivial
        | failed => trivial
  exact from_any .fresh _

end Loop

/-! ## Turns and admissions -/

/-- The processes that started a turn for a ledger key, with repetition. -/
def starters (turns : List LoopTurn) (key : String) : List Nat :=
  turns.filterMap (fun t => if ledgerKey t.id = key then some t.process else none)

/-- The processes that admitted a key, with repetition. -/
def admitters (log : List ReplayEvent) (key : String) : List Nat :=
  log.filterMap (fun e =>
    match e with
    | .admitted n k => if k = key then some n else none
    | _ => none)

/-- The key that a process has admitted and not handed over. -/
def armedKey : List (ClientDone conversationHost) → Option String
  | ⟨.admitMessage message, admitted⟩ :: _ =>
      match (admitted : Option Bool) with
      | some true => replayKey message
      | _ => none
  | _ => none

theorem armedKey_of_admission (message : StoredMessage) (admitted : Option Bool)
    (past : List (ClientDone conversationHost)) :
    armedKey (⟨.admitMessage message, admitted⟩ :: past) =
      if admitted = some true then replayKey message else none := by
  rcases admitted with _ | _ | _ <;> rfl

/-- A process started a turn for a key at most as often as it admitted it. -/
def Covered (replay : ReplayWorld) (turns : List LoopTurn) (n : Nat)
    (past : List (ClientDone conversationHost)) : Prop :=
  ∀ key, (starters turns key).count n + (if armedKey past = some key then 1 else 0) ≤
    (admitters replay.log key).count n

theorem Covered.unarmed {replay : ReplayWorld} {turns : List LoopTurn} {n : Nat}
    {past : List (ClientDone conversationHost)} (covered : Covered replay turns n past) :
    Covered replay turns n [] := by
  intro key
  have bound := covered key
  have none_armed : armedKey [] ≠ some key := by simp [armedKey]
  rw [if_neg none_armed]
  omega

/-- Admissions of other keys and processes leave what is covered covered. -/
theorem Covered.grow {replay replay' : ReplayWorld} {turns : List LoopTurn} {n : Nat}
    {past : List (ClientDone conversationHost)} (covered : Covered replay turns n past)
    (grows : ∀ key, (admitters replay.log key).count n ≤ (admitters replay'.log key).count n) :
    Covered replay' turns n past := fun key => (covered key).trans (grows key)

section Acts

variable {F : FloatFormat} {verify : String → List UInt8 → String → Bool} {r : ReplayWorld} {n : Nat}

theorem act_start_admitters (key : String) :
    admitters (r.act F verify (.start n)).log key = admitters r.log key := by
  unfold ReplayWorld.act
  dsimp only
  split <;> rfl

theorem act_complete_log (messages : List StoredMessage) :
    (r.act F verify (.complete n messages)).log = r.log := by
  unfold ReplayWorld.act
  dsimp only
  split <;> rfl

/-- An admission succeeds and is logged, or it leaves the log. -/
theorem act_admit {me : Authed} (formed : r.Formed) {w : VisibleHosts} (at_r : w.replay = r)
    (message : StoredMessage) (fault : Option Fault) :
    ((r.act F verify (.admitMessage n message me.id fault)).log = r.log ∧
      w.admission F verify me n message fault ≠ some true) ∨
    ∃ key, replayKey message = some key ∧
      (r.act F verify (.admitMessage n message me.id fault)).log = .admitted n key :: r.log ∧
      w.admission F verify me n message fault = some true := by
  subst at_r
  unfold ReplayWorld.act VisibleHosts.admission
  dsimp only
  cases alive : w.replay.guards n with
  | none => exact Or.inl ⟨rfl, nofun⟩
  | some g =>
    have own := formed.guards n g alive
    rcases AutonomousReplayGuard.admit_cases F verify own formed.disk fault message me.id with
      ⟨result, g', outcome, -, -, refused⟩ | ⟨key, keyed, -, g', -, -, outcome⟩
    · left
      dsimp only
      rw [outcome]
      rcases refused with ⟨rfl, -⟩ | ⟨rfl, -⟩
      · exact ⟨rfl, nofun⟩
      · exact ⟨rfl, nofun⟩
    · right
      refine ⟨key, keyed, ?_⟩
      dsimp only
      rw [outcome, keyed]
      exact ⟨rfl, rfl⟩

end Acts

/-- What holds of the receiving tasks in every run. -/
structure Tracked (F : FloatFormat) (verify : String → List UInt8 → String → Bool) (w : VisibleHosts) :
    Prop where
  replay : ReplayWorld.Reachable F verify ReplayWorld.ownReleases w.replay
  unreleased : ∀ n keys, .released n keys ∉ w.replay.log
  loops : ∀ n adapter p, w.loops n = some (adapter, p) →
    ∃ past, p.Follows Admitted past ∧ Covered w.replay w.loopTurns n past
  turns : ∀ n, Covered w.replay w.loopTurns n []

section Run

variable {F : FloatFormat} {verify : String → List UInt8 → String → Bool}
  {readHandoff : String → Option HandoffRef} {me : Authed} {w : VisibleHosts}

theorem tracked_start (dir : HookDir) : Tracked F verify (.start dir) where
  replay := .init
  unreleased := by simp [VisibleHosts.start, ReplayWorld.init]
  loops n adapter p is := nomatch is
  turns n key := by simp [VisibleHosts.start, starters, admitters, armedKey]

/-- Nothing but a release is logged as one. -/
theorem act_unreleased (formed : w.replay.Formed)
    (unreleased : ∀ n keys, .released n keys ∉ w.replay.log) {a : ReplayAction}
    (other : ∀ n messages fault, a ≠ .release n messages fault) (n : Nat) (keys : List String) :
    .released n keys ∉ (w.replay.act F verify a).log := by
  cases (ReplayWorld.act_change F verify formed a).2 with
  | quiet ledger log =>
    rcases log with same | ⟨m, started⟩
    · rw [same]
      exact unreleased n keys
    · rw [started]
      simp [unreleased]
  | admitted m key new ledger log =>
    rw [log]
    simp [unreleased]
  | released m messages fault g removed act => exact absurd act (other m messages fault)

/-- The processes but one go on as before, and what that one starts is covered. -/
theorem Tracked.move (tracked : Tracked F verify w) {w' : VisibleHosts} {n : Nat}
    (past : List (ClientDone conversationHost))
    (replay : ReplayWorld.Reachable F verify ReplayWorld.ownReleases w'.replay)
    (unreleased : ∀ m keys, .released m keys ∉ w'.replay.log)
    (others : ∀ m, m ≠ n → w'.loops m = w.loops m)
    (starts : ∀ m, m ≠ n → ∀ key, (starters w'.loopTurns key).count m = (starters w.loopTurns key).count m)
    (grows : ∀ m, m ≠ n → ∀ key,
      (admitters w.replay.log key).count m ≤ (admitters w'.replay.log key).count m)
    (follows : ∀ adapter p, w'.loops n = some (adapter, p) → p.Follows Admitted past)
    (covered : Covered w'.replay w'.loopTurns n past) : Tracked F verify w' := by
  have kept : ∀ m, m ≠ n → ∀ past, Covered w.replay w.loopTurns m past →
      Covered w'.replay w'.loopTurns m past := by
    intro m other past covered key
    rw [starts m other key]
    exact (covered key).trans (grows m other key)
  constructor
  · exact replay
  · exact unreleased
  · intro m adapter p is
    by_cases same : m = n
    · subst same
      exact ⟨past, follows adapter p is, covered⟩
    · rw [others m same] at is
      obtain ⟨past, follows, covered⟩ := tracked.loops m adapter p is
      exact ⟨past, follows, kept m same past covered⟩
  · intro m
    by_cases same : m = n
    · rw [same]
      exact covered.unarmed
    · exact kept m same [] (tracked.turns m)

theorem resumeLoop_program {n : Nat} {adapter adapter' : LoopAdapter}
    {p p' : ConversationClient (MeshAgent × Round)}
    (is : (w.resumeLoop n adapter p).loops n = some (adapter', p')) : p' = p := by
  simp only [VisibleHosts.resumeLoop, Function.update_self, Option.some.injEq, Prod.mk.injEq] at is
  exact is.2.symm

/-- What is covered without a reservation is covered after a call that reserves nothing. -/
theorem Covered.quiet {replay : ReplayWorld} {turns : List LoopTurn} {n : Nat}
    {past : List (ClientDone conversationHost)} (covered : Covered replay turns n [])
    (quiet : armedKey past = none) : Covered replay turns n past := by
  intro key
  have bound := covered key
  rw [quiet]
  exact bound

theorem count_starters_cons (turn : LoopTurn) (turns : List LoopTurn) (key : String) (n : Nat) :
    (starters (turn :: turns) key).count n =
      (starters turns key).count n + (if ledgerKey turn.id = key ∧ turn.process = n then 1 else 0) := by
  unfold starters
  by_cases own : ledgerKey turn.id = key
  · by_cases same : turn.process = n <;> simp [own, same]
  · simp [own]

theorem count_admitters_cons (log : List ReplayEvent) (m : Nat) (k key : String) (n : Nat) :
    (admitters (.admitted m k :: log) key).count n =
      (admitters log key).count n + (if k = key ∧ m = n then 1 else 0) := by
  unfold admitters
  by_cases own : k = key
  · by_cases same : m = n <;> simp [own, same]
  · simp [own]

/-- The step lemma of a receiving task. -/
theorem Tracked.callLoop (tracked : Tracked F verify w) {n : Nat} {adapter : LoopAdapter}
    (answers : (op : ClientCall conversationHost) → op.Res) (fault : Option Fault)
    {op : ClientCall conversationHost} {next : op.Res → ConversationClient (MeshAgent × Round)}
    (is : w.loops n = some (adapter, .call op next)) :
    Tracked F verify (w.callLoop F verify me n adapter answers fault op next) := by
  have formed := ReplayWorld.formed_run tracked.replay
  obtain ⟨past, ⟨allowed, rest⟩, covered⟩ := tracked.loops n adapter _ is
  have beside : ∀ (w' : VisibleHosts) p m, m ≠ n → w'.loops = w.loops →
      (w'.resumeLoop n adapter p).loops m = w.loops m := by
    intro w' p m other same
    rw [← same]
    exact Function.update_of_ne other _ _
  -- calls that touch neither the ledger nor the turns
  have plain : ∀ (op' : ClientCall conversationHost) (r : op'.Res) p,
      armedKey (⟨op', r⟩ :: past) = none → p.Follows Admitted (⟨op', r⟩ :: past) →
        Tracked F verify (w.resumeLoop n adapter p) := by
    intro op' r p quiet follows
    refine tracked.move (⟨op', r⟩ :: past) tracked.replay tracked.unreleased
      (fun m other => beside w p m other rfl) (fun _ _ _ => rfl) (fun _ _ _ => le_rfl) ?_ ?_
    · intro adapter' p' is'
      rw [resumeLoop_program is']
      exact follows
    · exact (tracked.turns n).quiet quiet
  cases op with
  | request frame => exact plain _ _ _ rfl (rest _)
  | sign target parts replyTo => exact plain _ _ _ rfl (rest _)
  | release messages => exact absurd allowed id
  | complete messages =>
    have log : (w.replay.act F verify (.complete n messages)).log = w.replay.log :=
      act_complete_log messages
    have same : ∀ key, admitters (w.replay.act F verify (.complete n messages)).log key =
        admitters w.replay.log key := fun key => congrArg (admitters · key) log
    refine tracked.move (⟨.complete messages, ()⟩ :: past) (tracked.replay.act (.complete n messages) trivial)
      (act_unreleased formed tracked.unreleased nofun)
      (fun m other => beside _ _ m other rfl) (fun _ _ _ => rfl) ?_ ?_ ?_
    · intro m other key
      exact le_of_eq (congrArg (List.count m) (same key).symm)
    · intro adapter' p' is'
      rw [resumeLoop_program is']
      exact rest ()
    · exact ((tracked.turns n).grow (fun key => le_of_eq (congrArg (List.count n) (same key).symm))).quiet rfl
  | admitMessage message =>
    have reach := tracked.replay.act (.admitMessage n message me.id fault) trivial
    have admits : ((w.replay.act F verify (.admitMessage n message me.id fault)).log = w.replay.log ∧
          w.admission F verify me n message fault ≠ some true) ∨
        ∃ key, replayKey message = some key ∧
          (w.replay.act F verify (.admitMessage n message me.id fault)).log =
            .admitted n key :: w.replay.log ∧
          w.admission F verify me n message fault = some true :=
      act_admit formed rfl message fault
    have follows : ∀ adapter' p',
        (w.callLoop F verify me n adapter answers fault (.admitMessage message) next).loops n =
          some (adapter', p') →
        p'.Follows Admitted (⟨.admitMessage message, w.admission F verify me n message fault⟩ :: past) := by
      intro adapter' p' is'
      rw [resumeLoop_program is']
      exact rest _
    refine tracked.move (⟨.admitMessage message, w.admission F verify me n message fault⟩ :: past) reach
      (act_unreleased formed tracked.unreleased nofun)
      (fun m other => beside _ _ m other rfl) (fun _ _ _ => rfl) ?_ follows ?_
    · intro m other key
      rcases admits with ⟨log, -⟩ | ⟨k, -, log, -⟩
      · exact le_of_eq (congrArg (fun log => (admitters log key).count m) log.symm)
      · show _ ≤ (admitters (w.replay.act F verify _).log key).count m
        rw [log, count_admitters_cons]
        exact Nat.le_add_right _ _
    · rcases admits with ⟨log, refused⟩ | ⟨k, keyed, log, admitted⟩
      · apply Covered.quiet
        · exact (tracked.turns n).grow
            (fun key => le_of_eq (congrArg (fun log => (admitters log key).count n) log.symm))
        · rw [armedKey_of_admission, if_neg refused]
      · -- the reservation is paid for by the admission
        intro key
        have bound := tracked.turns n key
        have armed : armedKey (⟨.admitMessage message, w.admission F verify me n message fault⟩ :: past) =
            some k := by
          rw [armedKey_of_admission, if_pos admitted, keyed]
        have none_armed : armedKey [] ≠ some key := by simp [armedKey]
        rw [if_neg none_armed] at bound
        show (starters w.loopTurns key).count n + _ ≤ (admitters (w.replay.act F verify _).log key).count n
        rw [log, count_admitters_cons, armed]
        by_cases own : k = key
        · simpa [own] using bound
        · simpa [own] using bound
  | ask question =>
    cases question with
    | budget => exact plain _ _ _ rfl (rest _)
    | deliver message =>
      have armed : armedKey past = (signedId message).map ledgerKey := by
        cases past with
        | nil => cases allowed
        | cons d past =>
          cases allowed
          exact replayKey_eq message
      have counts : ∀ key m, (starters ((signedId message).toList.map (LoopTurn.mk n adapter) ++
          w.loopTurns) key).count m = (starters w.loopTurns key).count m +
            (if armedKey past = some key ∧ n = m then 1 else 0) := by
        intro key m
        rw [armed]
        cases signedId message with
        | none => simp
        | some id =>
          show (starters (⟨n, adapter, id⟩ :: w.loopTurns) key).count m = _
          rw [count_starters_cons]
          simp
      refine tracked.move (⟨.ask (.deliver message), answers (.ask (.deliver message))⟩ :: past)
        tracked.replay tracked.unreleased (fun m other => beside _ _ m other rfl) ?_
        (fun _ _ _ => le_rfl) ?_ ?_
      · intro m other key
        show (starters (_ ++ w.loopTurns) key).count m = _
        rw [counts, if_neg (fun both => other both.2.symm), Nat.add_zero]
      · intro adapter' p' is'
        rw [resumeLoop_program is']
        exact rest _
      · intro key
        show (starters (_ ++ w.loopTurns) key).count n + _ ≤ _
        have unarmed : armedKey (⟨.ask (.deliver message), answers (.ask (.deliver message))⟩ :: past) ≠
            some key := nofun
        rw [counts, if_neg unarmed, Nat.add_zero]
        simp only [and_true]
        exact covered key

/-- What an event leaves of the receiving tasks, it leaves tracked. -/
theorem Tracked.same (tracked : Tracked F verify w) {w' : VisibleHosts} (replay : w'.replay = w.replay)
    (loops : w'.loops = w.loops) (turns : w'.loopTurns = w.loopTurns) : Tracked F verify w' := by
  obtain ⟨reach, unreleased, programs, covered⟩ := tracked
  constructor
  · rw [replay]
    exact reach
  · rw [replay]
    exact unreleased
  · rw [replay, loops, turns]
    exact programs
  · rw [replay, turns]
    exact covered

/-- A hook does not touch the ledger. -/
theorem callHook_loops {n : Nat} (answers : (op : ClientCall claudeHost) → op.Res) (fault : Bool)
    (op : ClientCall claudeHost) (next : op.Res → HookClient Unit) :
    (w.callHook F verify me n answers fault op next).replay = w.replay ∧
      (w.callHook F verify me n answers fault op next).loops = w.loops ∧
      (w.callHook F verify me n answers fault op next).loopTurns = w.loopTurns := by
  cases op <;> exact ⟨rfl, rfl, rfl⟩

/-- The step lemma. -/
theorem Tracked.step (tracked : Tracked F verify w) (e : HostEvent) :
    Tracked F verify (w.step F verify readHandoff me e) := by
  have formed := ReplayWorld.formed_run tracked.replay
  cases e with
  | startLoop n adapter room waits rounds =>
    unfold VisibleHosts.step
    dsimp only
    split
    · exact tracked
    · have same : ∀ key, admitters (w.replay.act F verify (.start n)).log key =
          admitters w.replay.log key := act_start_admitters
      refine tracked.move [] (tracked.replay.act (.start n) trivial)
        (act_unreleased formed tracked.unreleased nofun)
        (fun m other => Function.update_of_ne other _ _) (fun _ _ _ => rfl) ?_ ?_ ?_
      · intro m other key
        exact le_of_eq (congrArg (List.count m) (same key).symm)
      · intro adapter' p' is'
        rw [resumeLoop_program is']
        exact receiveLoop_admitted F verify me room waits rounds []
      · exact (tracked.turns n).grow (fun key => le_of_eq (congrArg (List.count n) (same key).symm))
  | stepLoop n answers fault =>
    unfold VisibleHosts.step
    dsimp only
    split
    · rename_i adapter op next is
      exact tracked.callLoop answers fault is
    · exact tracked
  | startHook n input tries waits rounds =>
    unfold VisibleHosts.step
    dsimp only
    split
    · exact tracked
    · exact tracked.same rfl rfl rfl
  | stepHook n answers fault =>
    unfold VisibleHosts.step
    dsimp only
    split
    · rename_i op next is
      obtain ⟨replay, loops, turns⟩ := callHook_loops (w := w) (n := n) answers fault op next
      exact tracked.same replay loops turns
    · exact tracked
  | stop n =>
    refine tracked.move (n := n) [] (tracked.replay.act (.stop n) trivial)
      (act_unreleased formed tracked.unreleased nofun)
      (fun m other => Function.update_of_ne other _ _) (fun _ _ _ => rfl) (fun _ _ _ => le_rfl) ?_
      (tracked.turns n)
    intro adapter p is
    simp [VisibleHosts.step] at is
  | files dir => exact tracked.same rfl rfl rfl

end Run

/-! ## At most one turn for a message -/

/-- Between two admissions of a key, `REPLAY_CAP` others were admitted. -/
def Readmitted (log : List ReplayEvent) (key : String) : Prop :=
  ∃ newer m since n older,
    log = newer ++ ReplayEvent.admitted m key :: (since ++ ReplayEvent.admitted n key :: older) ∧
    (∀ e ∈ since, e.admits ≠ some key) ∧ replayCap ≤ (ReplayWorld.others key since).card

/-- The receiving tasks started one turn at most for a signed message, or its key had left the ledger. -/
def LoopOnce (w : VisibleHosts) : Prop :=
  ∀ id, 2 ≤ (w.loopTurns.filter (fun t => t.id = id)).length → Readmitted w.replay.log (ledgerKey id)

/-- A list of admissions with two of a key has two of them next to each other. -/
theorem exists_two_admissions {log : List ReplayEvent} {key : String}
    (two : 2 ≤ (admitters log key).length) :
    ∃ newer m since n older,
      log = newer ++ ReplayEvent.admitted m key :: (since ++ ReplayEvent.admitted n key :: older) ∧
      ∀ e ∈ since, e.admits ≠ some key := by
  induction log with
  | nil => simp [admitters] at two
  | cons e log ih =>
    by_cases own : e.admits = some key
    · obtain ⟨m, rfl⟩ : ∃ m, e = .admitted m key := by
        cases e with
        | admitted m k => exact ⟨m, by rw [Option.some.inj own]⟩
        | started m => cases own
        | released m keys => cases own
      have one : ∃ e ∈ log, e.admits = some key := by
        have some_left : admitters log key ≠ [] := by
          intro none_left
          have grown : admitters (.admitted m key :: log) key = m :: admitters log key := by
            simp [admitters]
          rw [grown, none_left] at two
          simp at two
        obtain ⟨n, member⟩ := List.exists_mem_of_ne_nil _ some_left
        obtain ⟨e, listed, admits⟩ := List.mem_filterMap.mp member
        refine ⟨e, listed, ?_⟩
        split at admits
        · split at admits
          · rename_i same
            exact congrArg some same
          · cases admits
        · cases admits
      obtain ⟨since, e, older, split, admits, none_between⟩ := exists_newest one
      cases e with
      | admitted n k =>
        cases Option.some.inj admits
        exact ⟨[], m, since, n, older, by rw [split]; rfl, none_between⟩
      | started n => cases admits
      | released n keys => cases admits
    · have rest : admitters (e :: log) key = admitters log key := by
        cases e with
        | admitted m k =>
          have other : k ≠ key := fun same => own (congrArg some same)
          simp [admitters, other]
        | started m => rfl
        | released m keys => rfl
      rw [rest] at two
      obtain ⟨newer, m, since, n, older, split, none_between⟩ := ih two
      exact ⟨e :: newer, m, since, n, older, by rw [split]; rfl, none_between⟩

section Once

variable {F : FloatFormat} {verify : String → List UInt8 → String → Bool}
  {readHandoff : String → Option HandoffRef} {me : Authed} {w : VisibleHosts}

/-- Receiving tasks start no turn for a message that one of them has had, while the ledger has its key. -/
theorem Tracked.loopOnce (tracked : Tracked F verify w) : LoopOnce w := by
  intro id two
  have starts : (w.loopTurns.filter (fun t => t.id = id)).length ≤
      (starters w.loopTurns (ledgerKey id)).length := by
    induction w.loopTurns with
    | nil => exact Nat.zero_le _
    | cons t turns ih =>
      by_cases own : t.id = id
      · simpa [starters, own] using ih
      · by_cases same : ledgerKey t.id = ledgerKey id
        · simp only [starters, List.filter_cons, own, decide_false, List.filterMap_cons, same, if_true,
            List.length_cons] at ih ⊢
          exact Nat.le_succ_of_le ih
        · simpa [starters, own, same] using ih
  have admits : (starters w.loopTurns (ledgerKey id)).length ≤
      (admitters w.replay.log (ledgerKey id)).length := by
    have below : (starters w.loopTurns (ledgerKey id) : Multiset Nat) ≤
        (admitters w.replay.log (ledgerKey id) : Multiset Nat) := by
      rw [Multiset.le_iff_count]
      intro n
      rw [Multiset.coe_count, Multiset.coe_count]
      have bound := tracked.turns n (ledgerKey id)
      exact (Nat.le_add_right _ _).trans bound
    exact Multiset.card_le_card below
  obtain ⟨newer, m, since, n, older, split, last⟩ := exists_two_admissions (two.trans (starts.trans admits))
  refine ⟨newer, m, since, n, older, split, last, ?_⟩
  rcases (ReplayWorld.once_run tracked.replay).2 newer m _ since n older split last with
    ⟨keys, released, -⟩ | evicted
  · refine absurd ?_ (tracked.unreleased n keys)
    rw [split]
    exact List.mem_append_right _ (List.mem_cons_of_mem _ (List.mem_append_left _ released))
  · exact evicted

end Once

end Parler.Cli
