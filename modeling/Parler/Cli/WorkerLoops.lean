import Mathlib.Data.List.ProdSigma
import Parler.Cli.WorkerReads
import Parler.Cli.WorkerRestarts
import Parler.Connector.Ledgers

/-!
# Workers that answer each other

Any number of workers read one board of messages and post on it what they did. A worker that is
handed a result continues the task, so that runs set off runs. What ends this is spread over the
worker: every report carries a `TaskRef`, a message with one is work only if it also carries a
handoff, and the handoff that a worker adds on its own goes only to tasks that came without a
`TaskRef`. That a worker does not run one message twice rests on the acks of its pulls, since the
replay ledger forgets.
-/

namespace Parler.Cli

open Parler.Lib Parler.Protocol Parler.Hub Parler.Connector

/-! ## The workers and their board -/

/-- What a worker is started with, and where its ledger is. -/
structure WorkerArgs where
  home : String
  me : Authed
  room : String
  runner : String
  options : WorkOptions
  waits : Nat
  rounds : Nat

def WorkerArgs.place (args : WorkerArgs) : String × String := (args.home, args.me.id)

/-- The runner is timed in a `u64`. -/
def timed : (op : ClientCall workerHost) → op.Res → Prop
  | .ask (.run _), outcome => (outcome : RunnerOutcome).elapsedMs < 2 ^ 64
  | _, _ => True

instance (op : ClientCall workerHost) (r : op.Res) : Decidable (timed op r) := by
  unfold timed
  split <;> infer_instance

/-- Workers share replay ledgers; the hub answers pulls in order. -/
def workerWall (F : FloatFormat) (verify : String → List UInt8 → String → Bool) :
    Wall (ClientCall workerHost) ClientCall.Res StoredMessage WorkerArgs (Option WorkReport) Ledgers
      (Option Fault) where
  boot args := run F verify args.me args.room args.runner args.options args.waits args.rounds
  shared := fun _ => .init
  begins n args ledgers := ledgers.act F verify args.place (.start n)
  ends n args ledgers := ledgers.act F verify args.place (.stop n)
  serve n args op r fault ledgers :=
    if timed op r ∧ inOrder op r then Ledgers.serve F verify args.place n op r fault ledgers else none
  shows op r := brought ⟨op, r⟩
  posts args := mayPost args.me
  fresh := newId

/-- The board of a number of workers. -/
abbrev WorkerBoard :=
  Board (ClientCall workerHost) ClientCall.Res StoredMessage WorkerArgs (Option WorkReport) Ledgers

/-- The parts report on a task. -/
def reports (task : String) (parts : List Part) : Bool :=
  parts.any (fun part => (TaskRef.fromPart part).any (fun t => t.task == some task))

/-- A run of the runner: the worker and the item. -/
structure Run where
  worker : Nat
  item : WorkItem

namespace WorkerBoard

/-- The run was made. -/
def Ran (w : WorkerBoard) (r : Run) : Prop :=
  ∃ outcome : RunnerOutcome, ⟨r.worker, ⟨ClientCall.ask (.run r.item), outcome⟩⟩ ∈ w.log

/-- The message of the second run is one that the worker of the first posted on its task. -/
def Triggers (w : WorkerBoard) (first second : Run) : Prop :=
  ∃ e ∈ w.entries, e.author = some first.worker ∧ reports first.item.taskId e.post.parts = true ∧
    e.post.id = second.item.taskId

/-- No runner has asked for a continuation. -/
def NoContinuations (w : WorkerBoard) : Prop :=
  ∀ n item (outcome : RunnerOutcome), ⟨n, ⟨ClientCall.ask (.run item), outcome⟩⟩ ∈ w.log →
    outcome.continuation = none

end WorkerBoard

/-! ## What a worker may do -/

/-- The runner was run on the message. -/
def isRun (id : String) : ClientCall workerHost → Bool
  | .ask (.run item) => item.taskId == id
  | _ => false

/-- A report on the message was sent. -/
def isReport (id : String) : ClientCall workerHost → Bool
  | .request (.send _ parts _ _ _) => reports id parts
  | _ => false

def runCount (past : List (ClientDone workerHost)) (id : String) : Nat :=
  past.countP (fun d => isRun id d.1)

def reportCount (past : List (ClientDone workerHost)) (id : String) : Nat :=
  past.countP (fun d => isReport id d.1)

/-- The item is one of a message that was brought. -/
def Chosen (args : WorkerArgs) (past : List (ClientDone workerHost)) (item : WorkItem) : Prop :=
  ∃ d ∈ past, ∃ m ∈ brought d, selectMessage m .valid args.me args.options = .work item

/-- Where the time and the continuation of a result come from: the runner, or nowhere. -/
def FromRun (past : List (ClientDone workerHost)) (item : WorkItem) (elapsedMs : Nat)
    (given : Option HandoffRef) : Prop :=
  (elapsedMs = 0 ∧ given = none) ∨ ∃ outcome : RunnerOutcome,
    ⟨ClientCall.ask (.run item), outcome⟩ ∈ past ∧ elapsedMs = outcome.elapsedMs ∧
      (given = none ∨ given = outcome.continuation)

/-- What a worker posts on an item, but for the signature. -/
inductive Reporting (args : WorkerArgs) (past : List (ClientDone workerHost)) (item : WorkItem) :
    List Part → Prop where
  | working : Reporting args past item
      [(TaskRef.mk .working (some item.taskId) (some (args.runner ++ " is executing the request"))
        none none none).toPart]
  | terminal (text : String) (status : TaskStatus) (body : String) (elapsedMs : Nat)
      (given : Option HandoffRef) (source : FromRun past item elapsedMs given) :
      Reporting args past item ([.text text, terminalPart item status body elapsedMs] ++
        (continuationOf args.options item status given).toList.map HandoffRef.toPart)

/-- A worker runs only what it has chosen, as often as it was admitted, and posts only reports on
    that, at most three for each admission. -/
def loopRule (args : WorkerArgs) (past : List (ClientDone workerHost)) :
    ClientCall workerHost → Prop
  | .ask (.run item) =>
      Chosen args past item ∧ runCount past item.taskId < admissions past item.taskId
  | .request (.send _ parts _ _ _) => ∃ item plain, ∃ sig : MessageSig, Chosen args past item ∧
      Reporting args past item plain ∧ parts = unsigned plain ++ [sig.toPart] ∧
      reportCount past item.taskId < 3 * admissions past item.taskId
  | _ => True

/-! ## What a worker does -/

/-- What is left to do on a message: runs and reports. -/
structure Budget (past : List (ClientDone workerHost)) (id : String) (run report : Nat) : Prop where
  ran : runCount past id + run ≤ admissions past id
  reported : reportCount past id + report ≤ 3 * admissions past id

/-- Nothing is overdrawn since `base`, and there is left to do on a message. -/
structure Within (base : List (ClientDone workerHost)) (id : String) (run report : Nat)
    (past : List (ClientDone workerHost)) : Prop where
  since : base <:+ past
  kept : ∀ id, Budget past id 0 0
  own : Budget past id run report

/-- The calls that spend nothing. -/
def spendsNothing : ClientCall workerHost → Bool
  | .request (.send ..) | .ask (.run _) => false
  | _ => true

section Program

variable {F : FloatFormat} {verify : String → List UInt8 → String → Bool} {args : WorkerArgs}
  {base past : List (ClientDone workerHost)} {id : String} {run report : Nat}

theorem runCount_cons (d : ClientDone workerHost) :
    runCount (d :: past) id = runCount past id + if isRun id d.1 = true then 1 else 0 :=
  List.countP_cons

theorem reportCount_cons (d : ClientDone workerHost) :
    reportCount (d :: past) id = reportCount past id + if isReport id d.1 = true then 1 else 0 :=
  List.countP_cons

theorem Budget.cons (budget : Budget past id run report) (op : ClientCall workerHost) (r : op.Res)
    (noRun : isRun id op = false) (noReport : isReport id op = false) :
    Budget (⟨op, r⟩ :: past) id run report := by
  obtain ⟨ran, reported⟩ := budget
  constructor
  · rw [runCount_cons, admissions_cons, if_neg (by rw [noRun]; decide)]
    omega
  · rw [reportCount_cons, admissions_cons, if_neg (by rw [noReport]; decide)]
    omega

/-- A call that may be a report is one less to send. -/
theorem Budget.spendReport (budget : Budget past id run (report + 1)) (op : ClientCall workerHost)
    (r : op.Res) (noRun : isRun id op = false) : Budget (⟨op, r⟩ :: past) id run report := by
  obtain ⟨ran, reported⟩ := budget
  constructor
  · rw [runCount_cons, admissions_cons, if_neg (by rw [noRun]; decide)]
    omega
  · rw [reportCount_cons, admissions_cons]
    split <;> omega

/-- A call that may be a run is one less to make. -/
theorem Budget.spendRun (budget : Budget past id (run + 1) report) (op : ClientCall workerHost)
    (r : op.Res) (noReport : isReport id op = false) : Budget (⟨op, r⟩ :: past) id run report := by
  obtain ⟨ran, reported⟩ := budget
  constructor
  · rw [runCount_cons, admissions_cons]
    split <;> omega
  · rw [reportCount_cons, admissions_cons, if_neg (by rw [noReport]; decide)]
    omega

theorem Budget.less {run' report' : Nat} (budget : Budget past id run report) (runs : run' ≤ run)
    (reports : report' ≤ report) : Budget past id run' report' :=
  ⟨by have := budget.ran; omega, by have := budget.reported; omega⟩

theorem Within.less {run' report' : Nat} (within : Within base id run report past)
    (runs : run' ≤ run) (reports : report' ≤ report) : Within base id run' report' past :=
  ⟨within.since, within.kept, within.own.less runs reports⟩

theorem Within.rebase (within : Within base id run report past) : Within past id run report past :=
  ⟨List.suffix_rfl, within.kept, within.own⟩

theorem Within.back {base' : List (ClientDone workerHost)} (within : Within base id run report past)
    (before : base' <:+ base) : Within base' id run report past :=
  ⟨before.trans within.since, within.kept, within.own⟩

theorem Within.cons (within : Within base id run report past) (op : ClientCall workerHost)
    (r : op.Res) (nothing : spendsNothing op = true) :
    Within base id run report (⟨op, r⟩ :: past) := by
  have spends : ∀ id, isRun id op = false ∧ isReport id op = false := by
    intro id
    cases op with
    | request frame =>
      cases frame with
      | send => cases nothing
      | _ => exact ⟨rfl, rfl⟩
    | ask question =>
      cases question with
      | run => cases nothing
      | _ => exact ⟨rfl, rfl⟩
    | _ => exact ⟨rfl, rfl⟩
  exact ⟨within.since.trans (List.suffix_cons _ _),
    fun id => (within.kept id).cons op r (spends id).1 (spends id).2,
    within.own.cons op r (spends _).1 (spends _).2⟩

/-- A program that spends nothing keeps what is left. -/
theorem within_upholds {α : Type} {p : WorkerClient α}
    (calls : p.Calls (fun op => spendsNothing op = true)) (now : Within base id run report past) :
    p.Upholds (loopRule args) (fun _ past => Within base id run report past) past := by
  refine calls.upholds (J := Within base id run report) ?_ ?_ (fun _ _ now => now) now
  · intro past op nothing _
    cases op with
    | request frame =>
      cases frame with
      | send => cases nothing
      | _ => trivial
    | ask question =>
      cases question with
      | run => cases nothing
      | _ => trivial
    | _ => trivial
  · exact fun op r past nothing now => now.cons op r nothing

/-! ### Reports -/

theorem reports_iff {task : String} {parts : List Part} :
    reports task parts = true ↔
      ∃ part ∈ parts, ∃ t, TaskRef.fromPart part = some t ∧ t.task = some task := by
  simp [reports, List.any_eq_true, Option.any_eq_true]

variable {item : WorkItem} {plain : List Part}

/-- A report is one on its own item. -/
theorem Reporting.task (reporting : Reporting args past item plain) (sig : MessageSig) {task : String}
    (on : reports task (unsigned plain ++ [sig.toPart]) = true) : task = item.taskId := by
  obtain ⟨part, member, t, read, own⟩ := reports_iff.mp on
  have named : t.task = some item.taskId := by
    rcases List.mem_append.mp member with among | signed
    · have among := (List.mem_filter.mp among).1
      cases reporting with
      | working =>
        rw [List.mem_singleton.mp among] at read
        exact TaskRef.task_of_fromPart read
      | terminal text status body elapsedMs given source =>
        rcases List.mem_append.mp among with result | next
        · rcases List.mem_cons.mp result with rfl | result
          · cases read
          · rw [List.mem_singleton.mp result] at read
            exact TaskRef.task_of_fromPart read
        · obtain ⟨h, -, rfl⟩ := List.mem_map.mp next
          rw [TaskRef.fromPart_handoff] at read
          cases read
    · rw [List.mem_singleton.mp signed, taskRef_sig] at read
      cases read
  rw [own] at named
  exact Option.some.inj named

theorem Reporting.grow {past' : List (ClientDone workerHost)} (later : past <:+ past')
    (reporting : Reporting args past item plain) : Reporting args past' item plain := by
  cases reporting with
  | working => exact .working
  | terminal text status body elapsedMs given source =>
    refine .terminal text status body elapsedMs given (source.imp_right ?_)
    rintro ⟨outcome, ran, rest⟩
    exact ⟨outcome, later.subset ran, rest⟩

theorem Chosen.grow {past' : List (ClientDone workerHost)} (later : past <:+ past')
    (chosen : Chosen args past item) : Chosen args past' item := by
  obtain ⟨d, member, rest⟩ := chosen
  exact ⟨d, later.subset member, rest⟩

theorem Within.sent (now : Within base id run (report + 1) past) {parts : List Part}
    (own : ∀ task, reports task parts = true → task = id) (target : Target)
    (mentions : Option (List String)) (replyTo clientId : Option String)
    (r : (ClientCall.request (H := workerHost) (.send target parts mentions replyTo clientId)).Res) :
    Within base id run report
      (⟨ClientCall.request (.send target parts mentions replyTo clientId), r⟩ :: past) := by
  have spent := now.own.spendReport _ r rfl
  refine ⟨now.since.trans (List.suffix_cons _ _), ?_, spent⟩
  intro task
  by_cases on : reports task parts = true
  · rw [own task on]
    exact spent.less (Nat.zero_le _) (Nat.zero_le _)
  · exact (now.kept task).cons _ r rfl (Bool.not_eq_true _ ▸ on)

theorem Within.ran (now : Within base item.taskId (run + 1) report past) (outcome : RunnerOutcome) :
    Within base item.taskId run report (⟨ClientCall.ask (.run item), outcome⟩ :: past) := by
  have spent := now.own.spendRun (.ask (.run item)) outcome rfl
  refine ⟨now.since.trans (List.suffix_cons _ _), ?_, spent⟩
  intro task
  by_cases own : item.taskId = task
  · rw [← own]
    exact spent.less (Nat.zero_le _) (Nat.zero_le _)
  · exact (now.kept task).cons (.ask (.run item)) outcome (by simpa [isRun] using own) rfl

/-- Sending a report. -/
theorem send_within {target : Target} {mentions : Option (List String)} {replyTo : Option String}
    (chosen : Chosen args base item) (reporting : Reporting args base item plain)
    (now : Within base item.taskId run (report + 1) past) :
    (send target plain mentions replyTo).Upholds (loopRule args)
      (fun _ past => Within base item.taskId run report past) past := by
  refine ⟨trivial, ?_⟩
  intro drawn
  have drew := now.cons (.sign target (unsigned plain) replyTo) drawn rfl
  cases drawn with
  | none => exact drew.less (Nat.le_refl _) (Nat.le_succ _)
  | some s =>
    have left : reportCount _ item.taskId + (report + 1) ≤ _ := drew.own.reported
    refine ⟨⟨item, plain, _, chosen.grow drew.since, reporting.grow drew.since, rfl, by omega⟩, ?_⟩
    intro reply
    have after := drew.sent (fun _ on => reporting.task ⟨s.sig, s.ts, s.uid, target⟩ on) target
      mentions replyTo (some s.clientId) reply
    dsimp only
    split <;> exact after

/-! ### The steps of the program -/

section Steps

variable {room runner : String} {o : WorkOptions} {s : WorkerState} {m : StoredMessage}

/-- The calls of a program that spends nothing. -/
abbrev Idle {α : Type} (p : WorkerClient α) : Prop := p.Calls (fun op => spendsNothing op = true)

theorem presence_idle (status : String) (activity : Option String) (attention : Option Attention) :
    Idle (presence status activity attention) := presence_calls rfl

theorem commitThen_idle {next : WorkerState → WorkerClient Flow} (after : ∀ s, Idle (next s)) :
    Idle (commitThen room s next) := by
  refine (commitReads_calls (fun _ => rfl) s.agent).bind ?_
  rintro ⟨agent, result⟩
  cases result with
  | none => trivial
  | some _ => exact after _

theorem skipMessage_idle : Idle (skipMessage room m s) := by
  refine ⟨rfl, ?_⟩
  intro released
  cases released with
  | none => trivial
  | some _ => exact commitThen_idle (fun _ => trivial)

/-- The end of a step: whatever is left is not spent. -/
theorem Within.idles {α : Type} {p : WorkerClient α} (now : Within base id run report past)
    (idle : Idle p) :
    p.Upholds (loopRule args) (fun _ past => Within base id 0 0 past) past :=
  within_upholds idle (now.less (Nat.zero_le _) (Nat.zero_le _))

theorem postTerminal_within {status : TaskStatus} {body : String} {elapsedMs : Nat}
    {given : Option HandoffRef} (chosen : Chosen args base item)
    (source : FromRun base item elapsedMs given)
    (now : Within base item.taskId run (report + 2) past) :
    (postTerminal args.room args.options item status body elapsedMs given).Upholds (loopRule args)
      (fun _ past => Within base item.taskId run report past) past := by
  unfold postTerminal
  dsimp only
  have reporting : ∀ text, Reporting args base item _ :=
    fun text => Reporting.terminal text status body elapsedMs given source
  split
  · refine (send_within chosen (reporting _) now).bind ?_
    intro sent past now
    exact now.less (Nat.le_refl _) (Nat.le_succ _)
  · refine (send_within chosen (reporting _) now).bind ?_
    intro sent past now
    cases sent with
    | some result => exact now.less (Nat.le_refl _) (Nat.le_succ _)
    | none =>
      refine (send_within chosen (reporting _) now).bind ?_
      exact fun _ _ now => now

theorem refuseItem_within (chosen : Chosen args base item)
    (now : Within base item.taskId 1 3 past) :
    (refuseItem args.room args.options m item s).Upholds (loopRule args)
      (fun _ past => Within base item.taskId 0 0 past) past := by
  refine (postTerminal_within chosen (Or.inl ⟨rfl, rfl⟩) now).bind ?_
  intro posted past now
  cases posted with
  | none => exact now.less (Nat.zero_le _) (Nat.zero_le _)
  | some responseRoom =>
    exact now.idles ⟨rfl, fun _ => commitThen_idle (fun _ => trivial)⟩

theorem runItem_within (chosen : Chosen args base item) (now : Within base item.taskId 1 3 past) :
    (runItem args.room args.runner args.options m item s).Upholds (loopRule args)
      (fun _ past => Within base item.taskId 0 0 past) past := by
  refine (send_within chosen .working now).bind ?_
  intro announced past now
  cases announced with
  | none => exact now.less (Nat.zero_le _) (Nat.zero_le _)
  | some _ =>
    refine (within_upholds (presence_idle _ _ _) now).bind ?_
    intro shown past now
    cases shown with
    | none => exact now.less (Nat.zero_le _) (Nat.zero_le _)
    | some _ =>
      have left : runCount past item.taskId + 1 ≤ _ := now.own.ran
      refine ⟨⟨chosen.grow now.since, left⟩, ?_⟩
      intro outcome
      have now := now.ran outcome
      refine ⟨trivial, ?_⟩
      intro r
      have now := now.cons (.complete [m]) r rfl
      -- The result rests on the outcome, which is now on record.
      have source : FromRun (⟨ClientCall.complete [m], r⟩ ::
          ⟨ClientCall.ask (.run item), outcome⟩ :: past) item (outcome : RunnerOutcome).elapsedMs
          (if (outcome : RunnerOutcome).succeeded then (outcome : RunnerOutcome).continuation
            else none) := by
        refine Or.inr ⟨outcome, List.mem_cons_of_mem _ List.mem_cons_self, rfl, ?_⟩
        split
        · exact Or.inr rfl
        · exact Or.inl rfl
      refine (postTerminal_within (chosen.grow now.since) source now.rebase).bind ?_
      intro posted past after
      have now := after.back now.since
      cases posted with
      | none => exact now
      | some responseRoom =>
        exact now.idles (commitThen_idle (fun s => (presence_idle _ _ _).bind (fun _ => trivial)))

/-- An admitted message may be run once and reported on three times. -/
theorem Within.admitted (now : Within base id run report past) (m : StoredMessage) :
    Within base m.id 1 3 (⟨ClientCall.admitMessage m, some true⟩ :: past) := by
  refine ⟨now.since.trans (List.suffix_cons _ _), ?_, ?_⟩
  · intro id
    exact (now.kept id).cons (.admitMessage m) (some true) rfl rfl
  · obtain ⟨ran, reported⟩ := now.kept m.id
    constructor
    · rw [runCount_cons, admissions_admitted, if_pos rfl]
      simp only [isRun, Bool.false_eq_true, if_false]
      omega
    · rw [reportCount_cons, admissions_admitted, if_pos rfl]
      simp only [isReport, Bool.false_eq_true, if_false]
      omega

theorem skip_within {trusted : SigStatus} (doubt : trusted ≠ .valid)
    (now : Within base id run report past) :
    (handleTrusted args.me args.room args.runner args.options m s trusted).Upholds (loopRule args)
      (fun _ past => Within base id 0 0 past) past := by
  obtain ⟨reason, ignored⟩ := selectMessage_invalid args.me args.options m doubt
  unfold handleTrusted
  rw [ignored]
  exact now.idles skipMessage_idle

theorem handle_within (has : ∃ d ∈ base, m ∈ brought d) (now : Within base m.id 0 0 past) :
    (handle F verify args.me args.room args.runner args.options m s).Upholds (loopRule args)
      (fun _ past => Within base m.id 0 0 past) past := by
  unfold handle
  split
  · refine ⟨trivial, ?_⟩
    intro admitted
    rcases admitted with _ | _ | _
    · exact now.cons (.admitMessage m) none rfl
    · exact skip_within (by decide) (now.cons (.admitMessage m) (some false) rfl)
    · have now := now.admitted m
      dsimp only
      unfold handleTrusted
      cases selected : selectMessage m .valid args.me args.options with
      | ignore reason => exact now.idles skipMessage_idle
      | work item =>
        obtain ⟨d, member, shown⟩ := has
        have chosen : Chosen args base item := ⟨d, member, m, shown, selected⟩
        have own : m.id = item.taskId := (selectMessage_work selected).2.symm
        refine ⟨trivial, ?_⟩
        intro time
        have now := now.cons (.ask .now) time rfl
        rw [own] at now ⊢
        dsimp only
        split
        · exact runItem_within chosen now
        · exact refuseItem_within chosen now
  · rename_i doubt
    exact skip_within doubt now

theorem handleAll_within {messages : List StoredMessage}
    (has : ∀ m ∈ messages, ∃ d ∈ base, m ∈ brought d) (now : Within base id 0 0 past) :
    (handleAll F verify args.me args.room args.runner args.options messages s).Upholds
      (loopRule args) (fun _ past => Within base id 0 0 past) past := by
  induction messages generalizing s past with
  | nil => exact now
  | cons m rest ih =>
    have start : Within base m.id 0 0 past := ⟨now.since, now.kept, now.kept m.id⟩
    refine (handle_within (has m List.mem_cons_self) start).bind ?_
    intro flow past after
    have now : Within base id 0 0 past := ⟨after.since, after.kept, after.kept id⟩
    cases flow with
    | «over» report => exact now
    | go s => exact ih (fun m later => has m (List.mem_cons_of_mem _ later)) now

/-- What a pull returns was brought. -/
theorem pulling_within {a : MeshAgent} {op : ClientFrame} (now : Within base id 0 0 past)
    (plain : spendsNothing (.request op) = true) :
    Prog.Upholds (loopRule args) (fun pulled past => Within base id 0 0 past ∧
        ∀ messages, pulled.2 = some messages → ∀ m ∈ messages, ∃ d ∈ past, m ∈ brought d)
      (.call (ClientCall.request op) fun reply => .ret (a.pulled args.room reply)) past := by
  have allowed : loopRule args past (.request op) := by
    cases op with
    | send => cases plain
    | _ => trivial
  refine ⟨allowed, ?_⟩
  intro reply
  refine ⟨now.cons (.request op) reply plain, ?_⟩
  intro messages got m member
  rcases a.pulled_cases args.room reply with ⟨room', batch, cursor, rfl, equal⟩ | equal
  · rw [equal] at got
    cases got
    exact ⟨_, List.mem_cons_self, member⟩
  · rw [equal] at got
    cases got

theorem pullWait_within (waits : Nat) (a : MeshAgent) (now : Within base id 0 0 past) :
    (pullWait args.room a waits).Upholds (loopRule args) (fun pulled past => Within base id 0 0 past ∧
      ∀ messages, pulled.2 = some messages → ∀ m ∈ messages, ∃ d ∈ past, m ∈ brought d) past := by
  induction waits generalizing a past with
  | zero =>
    refine ⟨now, ?_⟩
    intro messages got m member
    cases got
    cases member
  | succ waits ih =>
    refine (pulling_within now rfl).bind ?_
    rintro ⟨a, messages⟩ past ⟨now, got⟩
    rcases messages with _ | _ | ⟨_, _⟩
    · exact ⟨now, got⟩
    · refine ⟨trivial, ?_⟩
      intro chunk
      have now := now.cons (.ask .budget) chunk rfl
      cases chunk with
      | none =>
        refine ⟨now, ?_⟩
        intro messages got m member
        cases got
        cases member
      | some chunk =>
        refine (pulling_within now rfl).bind ?_
        rintro ⟨a, messages⟩ past ⟨now, got⟩
        rcases messages with _ | _ | ⟨_, _⟩
        · exact ⟨now, got⟩
        · exact ih a now
        · exact ⟨now, got⟩
    · exact ⟨now, got⟩

theorem watch_within (waits rounds : Nat) (now : Within base id 0 0 past) :
    (watch F verify args.me args.room args.runner args.options waits rounds s).Upholds
      (loopRule args) (fun _ _ => True) past := by
  induction rounds generalizing s base past with
  | zero => trivial
  | succ rounds ih =>
    refine (pullWait_within waits s.agent now).bind ?_
    rintro ⟨a, messages⟩ past ⟨now, got⟩
    cases messages with
    | none => trivial
    | some messages =>
      refine (handleAll_within (got messages rfl) now.rebase).bind ?_
      intro flow past now
      cases flow with
      | «over» report => trivial
      | go s => exact ih now

end Steps

/-- A worker follows the rule. -/
theorem boot_follows (F : FloatFormat) (verify : String → List UInt8 → String → Bool)
    (args : WorkerArgs) : ((workerWall F verify).boot args).Follows (loopRule args) [] := by
  have start : Within [] "" 0 0 [] := by
    have zero : ∀ id, Budget [] id 0 0 := fun id => ⟨Nat.zero_le _, Nat.zero_le _⟩
    exact ⟨List.suffix_rfl, zero, zero ""⟩
  refine Prog.Upholds.follows (I := fun _ _ => True) ?_
  refine (within_upholds (presence_idle _ _ _) start).bind ?_
  intro shown past now
  cases shown with
  | none => trivial
  | some _ => exact watch_within args.waits args.rounds now

end Program

/-! ## Selection and reports -/

/-- An item knows whether its message reports on a task. -/
theorem selectMessage_hadTaskRef {m : StoredMessage} {trusted : SigStatus} {me : Authed}
    {o : WorkOptions} {item : WorkItem} (work : selectMessage m trusted me o = .work item) :
    item.hadTaskRef = m.parts.any (fun p => (TaskRef.fromPart p).isSome) := by
  unfold selectMessage at work
  split at work
  · cases work
  · split at work
    · cases work
    · split at work
      · cases work
      · dsimp only at work
        split at work
        · split at work
          · split at work <;> cases work
            rfl
          · cases work
        · split at work
          · cases work
          · rename_i plain
            split at work
            · cases work
            · split at work <;> cases work
              exact (Bool.not_eq_true _ ▸ plain).symm

/-- A message that reports on a task is work only with a handoff. -/
theorem selectMessage_handoff {m : StoredMessage} {trusted : SigStatus} {me : Authed}
    {o : WorkOptions} {item : WorkItem} (work : selectMessage m trusted me o = .work item)
    (about : item.hadTaskRef = true) : ∃ part ∈ m.parts, ∃ h, HandoffRef.fromPart part = some h := by
  have reported := selectMessage_hadTaskRef work
  unfold selectMessage at work
  split at work
  · cases work
  · split at work
    · cases work
    · split at work
      · cases work
      · dsimp only at work
        split at work
        · rename_i handoffs
          obtain ⟨part, listed, read⟩ : ∃ part ∈ m.parts, HandoffRef.fromPart part ≠ none := by
            simpa using handoffs
          obtain ⟨h, is⟩ := Option.ne_none_iff_exists'.mp read
          exact ⟨part, listed, h, is⟩
        · rw [← reported, about, if_pos rfl] at work
          cases work

theorem unsigned_task {t : TaskRef} {plain : List Part} (member : t.toPart ∈ plain) (sig : MessageSig) :
    t.toPart ∈ unsigned plain ++ [sig.toPart] :=
  List.mem_append_left _ (List.mem_filter.mpr ⟨member, rfl⟩)

section Reports

variable {args : WorkerArgs} {past : List (ClientDone workerHost)} {item : WorkItem}
  {plain : List Part}

/-- Whoever reads a report sees that it is one. -/
theorem Reporting.reports (reporting : Reporting args past item plain) (sig : MessageSig)
    (small : ∀ outcome : RunnerOutcome, ⟨ClientCall.ask (.run item), outcome⟩ ∈ past →
      outcome.elapsedMs < 2 ^ 64) :
    Cli.reports item.taskId (unsigned plain ++ [sig.toPart]) = true := by
  cases reporting with
  | working =>
    refine reports_iff.mpr ⟨_, unsigned_task List.mem_cons_self sig, _,
      TaskRef.fromPart_toPart _ nofun nofun, rfl⟩
  | terminal text status body elapsedMs given source =>
    have bound : elapsedMs < 2 ^ 64 := by
      rcases source with ⟨rfl, -⟩ | ⟨outcome, ran, rfl, -⟩
      · decide
      · exact small outcome ran
    refine reports_iff.mpr ⟨terminalPart item status body elapsedMs, ?_, _,
      TaskRef.fromPart_toPart _ nofun ?_, rfl⟩
    · apply unsigned_task
      exact List.mem_append_left _ (List.mem_cons_of_mem _ List.mem_cons_self)
    · intro n is
      cases is
      exact bound

/-- Without a continuation of the runner, only an item whose message was no report is answered with
    a handoff. -/
theorem Reporting.first (reporting : Reporting args past item plain) {sig : MessageSig}
    (quiet : ∀ outcome : RunnerOutcome, ⟨ClientCall.ask (.run item), outcome⟩ ∈ past →
      outcome.continuation = none)
    {part : Part} (member : part ∈ unsigned plain ++ [sig.toPart]) {h : HandoffRef}
    (read : HandoffRef.fromPart part = some h) : item.hadTaskRef = false := by
  rcases List.mem_append.mp member with among | signed
  · have among := (List.mem_filter.mp among).1
    cases reporting with
    | working =>
      rw [List.mem_singleton.mp among, HandoffRef.fromPart_task] at read
      cases read
    | terminal text status body elapsedMs given source =>
      have silent : given = none := by
        rcases source with ⟨-, is⟩ | ⟨outcome, ran, -, is | is⟩
        · exact is
        · exact is
        · exact is.trans (quiet outcome ran)
      rcases List.mem_append.mp among with result | next
      · rcases List.mem_cons.mp result with rfl | result
        · cases read
        · rw [List.mem_singleton.mp result, terminalPart, HandoffRef.fromPart_task] at read
          cases read
      · obtain ⟨h, is, -⟩ := List.mem_map.mp next
        rw [Option.mem_toList, silent, continuationOf] at is
        by_cases reported : item.hadTaskRef = true
        · simp [reported] at is
        · exact Bool.not_eq_true _ ▸ reported
  · rw [List.mem_singleton.mp signed, handoffRef_sig] at read
    cases read

end Reports

/-! ## What holds on every board -/

namespace WorkerBoard

variable {F : FloatFormat} {verify : String → List UInt8 → String → Bool} {w : WorkerBoard}

/-- The answers that workers get. -/
theorem answers_timed (reach : Board.Reachable (workerWall F verify) w)
    {turn : Turn (clientMachine workerHost)} (logged : turn ∈ w.log) :
    timed turn.done.1 turn.done.2 ∧ inOrder turn.done.1 turn.done.2 :=
  (reach.answered (Q := fun op r => timed op r ∧ inOrder op r)
    (fun _ _ _ _ _ _ _ served => (Option.ite_none_right_eq_some.mp served).1) _ logged).1

/-- What a worker has chosen is on the board. -/
theorem chosen_posted (reach : Board.Reachable (workerWall F verify) w) {n : Nat}
    {later earlier : List (ClientDone workerHost)} {d : ClientDone workerHost}
    (split : turnsOf w.log n = later ++ d :: earlier) {args : WorkerArgs} {item : WorkItem}
    (chosen : Chosen args earlier item) :
    ∃ m ∈ w.posts, selectMessage m .valid args.me args.options = .work item ∧ m.id = item.taskId := by
  obtain ⟨d', member, m, shown, work⟩ := chosen
  have logged : d' ∈ turnsOf w.log n := by
    rw [split]
    exact List.mem_append_right _ (List.mem_cons_of_mem _ member)
  refine ⟨m, brought_posted (fun _ _ => rfl) reach logged shown, work, ?_⟩
  exact (selectMessage_work work).2.symm

/-- A run is of a message on the board that its worker selects. -/
theorem ran_posted (reach : Board.Reachable (workerWall F verify) w) {r : Run} (ran : Ran w r) :
    ∃ m ∈ w.posts, m.id = r.item.taskId ∧
      ∃ args : WorkerArgs, selectMessage m .valid args.me args.options = .work r.item := by
  obtain ⟨outcome, logged⟩ := ran
  obtain ⟨later, earlier, split⟩ := List.append_of_mem (mem_turnsOf.mpr logged)
  obtain ⟨args, -, chosen, -⟩ := reach.followed (boot_follows F verify) split
  obtain ⟨m, posted, work, own⟩ := chosen_posted reach split chosen
  exact ⟨m, posted, own, args, work⟩

/-- What a worker has on the board is a report on a message that it selected. -/
theorem entry_report (reach : Board.Reachable (workerWall F verify) w)
    (quiet : NoContinuations w) {e : Entry StoredMessage} (member : e ∈ w.entries) {n : Nat}
    (own : e.author = some n) :
    ∃ m ∈ w.posts, ∃ item, m.id = item.taskId ∧
      (∃ args : WorkerArgs, selectMessage m .valid args.me args.options = .work item) ∧
      reports item.taskId e.post.parts = true ∧
      (∀ task, reports task e.post.parts = true → task = item.taskId) ∧
      ((∃ part ∈ e.post.parts, ∃ h, HandoffRef.fromPart part = some h) → item.hadTaskRef = false) := by
  obtain ⟨args, later, d, earlier, has, split, posts⟩ := reach.written member own
  obtain ⟨args', has', rule⟩ := reach.followed (boot_follows F verify) split
  obtain ⟨target, mentions, replyTo, clientId, sends, -⟩ := mayPost_cases posts
  rw [sends] at rule
  obtain ⟨item, plain, sig, chosen, reporting, same, -⟩ := rule
  obtain ⟨m, posted, work, named⟩ := chosen_posted reach split chosen
  have logged : ∀ outcome : RunnerOutcome, ⟨ClientCall.ask (.run item), outcome⟩ ∈ earlier →
      ⟨n, ⟨ClientCall.ask (.run item), outcome⟩⟩ ∈ w.log := by
    intro outcome ran
    apply mem_turnsOf.mp
    rw [split]
    exact List.mem_append_right _ (List.mem_cons_of_mem _ ran)
  rw [same]
  refine ⟨m, posted, item, named, ⟨args', work⟩, ?_, ?_, ?_⟩
  · exact reporting.reports sig (fun outcome ran => (answers_timed reach (logged outcome ran)).1)
  · exact fun task on => reporting.task sig on
  · rintro ⟨part, listed, h, read⟩
    exact reporting.first (fun outcome ran => quiet n item outcome (logged outcome ran)) listed read

/-- The message of a run that was set off by a run is no task that came without a report. -/
theorem triggered_hadTaskRef (reach : Board.Reachable (workerWall F verify) w)
    (quiet : NoContinuations w) {first second : Run} (triggers : Triggers w first second)
    {m : StoredMessage} (posted : m ∈ w.posts) (own : m.id = second.item.taskId) :
    m.parts.any (fun p => (TaskRef.fromPart p).isSome) = true := by
  obtain ⟨e, member, author, -, named⟩ := triggers
  have same : m = e.post :=
    same_message rfl reach posted (List.mem_map_of_mem member) (own.trans named.symm)
  obtain ⟨_, _, item, -, -, reported, -⟩ := entry_report reach quiet member author
  obtain ⟨part, listed, t, read, -⟩ := reports_iff.mp reported
  rw [same, List.any_eq_true]
  exact ⟨part, listed, by rw [read]; rfl⟩

/-- A run that was set off by a run sets off no run. -/
theorem triggers_no_more (reach : Board.Reachable (workerWall F verify) w)
    (quiet : NoContinuations w) {first second third : Run} (triggers : Triggers w first second)
    (again : Triggers w second third) (ran : Ran w third) : False := by
  -- The message of the third run carries a report, so it was selected for its handoff.
  obtain ⟨m, posted, own, args, work⟩ := ran_posted reach ran
  have reported := triggered_hadTaskRef reach quiet again posted own
  have handoff := selectMessage_handoff work ((selectMessage_hadTaskRef work).trans reported)
  obtain ⟨e, member, author, on, named⟩ := again
  have same : m = e.post :=
    same_message rfl reach posted (List.mem_map_of_mem member) (own.trans named.symm)
  obtain ⟨m', posted', item, own', ⟨args', work'⟩, -, task, bare⟩ := entry_report reach quiet member author
  -- It reports on the message of the second run, which came as a report too.
  have about : m'.id = second.item.taskId := own'.trans (task _ on).symm
  have first := triggered_hadTaskRef reach quiet triggers posted' about
  rw [← same] at bare
  rw [← selectMessage_hadTaskRef work', bare handoff] at first
  cases first

/-! ## How many runs there are -/

/-- The call runs the runner. -/
def runsSome : ClientCall workerHost → Bool
  | .ask (.run _) => true
  | _ => false

def runsMade (w : WorkerBoard) : Nat := w.log.countP (fun turn => runsSome turn.done.1)

/-- A call that a worker made on the ledger stood in the rule, and its message is on the board. -/
theorem reserved_posted (reach : Board.Reachable (workerWall F verify) w) {n : Nat}
    {later earlier : List (ClientDone workerHost)} {m : StoredMessage} {r : Option Bool}
    (split : turnsOf w.log n = later ++ ⟨ClientCall.admitMessage m, r⟩ :: earlier) :
    reserveRule earlier (.admitMessage m) ∧ m ∈ w.posts := by
  obtain ⟨args, -, rule⟩ := reach.followed (C := fun _ => reserveRule)
    (fun args => run_reserves F verify args.me args.room args.runner args.options args.waits args.rounds) split
  obtain ⟨d, member, shown⟩ := rule.1
  refine ⟨rule, brought_posted (fun _ _ => rfl) reach (n := n) ?_ shown⟩
  rw [split]
  exact List.mem_append_right _ (List.mem_cons_of_mem _ member)

/-- No worker is admitted a message twice: the second time it would come after itself. -/
theorem admissions_le_one (reach : Board.Reachable (workerWall F verify) w) (n : Nat) (id : String) :
    admissions (turnsOf w.log n) id ≤ 1 := by
  refine countP_le_allowance (c := fun _ => 1) (fun _ _ => le_refl _) ?_
  intro later d earlier split admitted
  rw [Nat.lt_one_iff, List.countP_eq_zero]
  intro d' member admitted'
  obtain ⟨m, rfl, own⟩ := isAdmitted_iff.mp admitted
  obtain ⟨m', rfl, own'⟩ := isAdmitted_iff.mp admitted'
  obtain ⟨⟨-, before⟩, posted⟩ := reserved_posted reach split
  obtain ⟨mid, rest, within⟩ := List.append_of_mem member
  have split' : turnsOf w.log n = (later ++ ⟨ClientCall.admitMessage m, some true⟩ :: mid) ++
      ⟨ClientCall.admitMessage m', some true⟩ :: rest := by
    rw [split, within]
    simp
  have same : m' = m := same_message rfl reach (reserved_posted reach split').2 posted (own'.trans own.symm)
  have orderly : Orderly earlier := by
    intro d old
    have logged : d ∈ turnsOf w.log n := by
      rw [split]
      exact List.mem_append_right _ (List.mem_cons_of_mem _ old)
    exact (answers_timed reach (mem_turnsOf.mp logged)).2
  exact absurd (before orderly m' _ member) (by rw [same]; exact lt_irrefl _)

theorem runCount_le (reach : Board.Reachable (workerWall F verify) w) (n : Nat) (id : String) :
    runCount (turnsOf w.log n) id ≤ admissions (turnsOf w.log n) id := by
  refine countP_le_allowance (c := fun l => admissions l id)
    (fun d l => by rw [admissions_cons]; omega) ?_
  intro later d earlier split kind
  obtain ⟨args, -, rule⟩ := reach.followed (boot_follows F verify) split
  obtain ⟨op, r⟩ := d
  cases op with
  | ask question =>
    cases question with
    | run item =>
      have own : item.taskId = id := by simpa [isRun] using kind
      rw [← own]
      exact rule.2
    | _ => cases kind
  | _ => cases kind

theorem reportCount_le (reach : Board.Reachable (workerWall F verify) w) (n : Nat) (id : String) :
    reportCount (turnsOf w.log n) id ≤ 3 * admissions (turnsOf w.log n) id := by
  refine countP_le_allowance (c := fun l => 3 * admissions l id)
    (fun d l => by rw [admissions_cons]; omega) ?_
  intro later d earlier split kind
  obtain ⟨args, -, rule⟩ := reach.followed (boot_follows F verify) split
  obtain ⟨op, r⟩ := d
  cases op with
  | request frame =>
    cases frame with
    | send target parts mentions replyTo clientId =>
      obtain ⟨item, plain, sig, -, reporting, rfl, left⟩ := rule
      rw [reporting.task sig kind]
      exact left
    | _ => cases kind
  | _ => cases kind

/-- A message of a worker that was run is a report on a message that no worker has posted. -/
theorem second_hand (reach : Board.Reachable (workerWall F verify) w) (quiet : NoContinuations w)
    {e : Entry StoredMessage} (member : e ∈ w.entries) {n : Nat} (own : e.author = some n)
    {turn : Turn (clientMachine workerHost)} (logged : turn ∈ w.log)
    (ran : isRun e.post.id turn.done.1 = true) :
    ∃ x ∈ w.entries, x.author = none ∧ reports x.post.id e.post.parts = true := by
  obtain ⟨m, posted, item, named, -, reported, -⟩ := entry_report reach quiet member own
  obtain ⟨x, listed, rfl⟩ := List.mem_map.mp posted
  cases author : x.author with
  | none =>
    rw [← named] at reported
    exact ⟨x, listed, author, reported⟩
  | some n' =>
    obtain ⟨-, -, item', -, -, reported', -⟩ := entry_report reach quiet listed author
    obtain ⟨c, ⟨op, r⟩⟩ := turn
    cases op with
    | ask question =>
      cases question with
      | run third =>
        have own' : third.taskId = e.post.id := by simpa [isRun] using ran
        have once : Triggers w ⟨n', item'⟩ ⟨n, item⟩ := ⟨x, listed, author, reported', named⟩
        have twice : Triggers w ⟨n, item⟩ ⟨c, third⟩ := ⟨e, member, own, reported, own'.symm⟩
        exact (triggers_no_more reach quiet once twice ⟨r, logged⟩).elim
      | _ => cases ran
    | _ => cases ran

/-- The messages of workers that were run are few. -/
theorem second_hand_le (reach : Board.Reachable (workerWall F verify) w) (quiet : NoContinuations w) :
    w.entries.countP (fun e => e.author.isSome && w.log.any (fun turn => isRun e.post.id turn.done.1)) ≤
      w.started * external w * 3 := by
  have indices : (List.range w.started ×ˢ w.entries.filter (fun e => e.author.isNone)).length =
      w.started * external w := by
    rw [List.length_product, List.length_range, external, List.countP_eq_length_filter]
  rw [← indices]
  refine countP_le_mul (f := fun i e => e.author = some i.1 && reports i.2.post.id e.post.parts) ?_ ?_
  · intro e member kind
    obtain ⟨authored, ran⟩ := Bool.and_eq_true_iff.mp kind
    obtain ⟨n, own⟩ := Option.isSome_iff_exists.mp authored
    obtain ⟨turn, logged, ran⟩ := List.any_eq_true.mp ran
    obtain ⟨x, listed, outside, reported⟩ := second_hand reach quiet member own logged ran
    obtain ⟨args, -, -, -, has, -⟩ := reach.written member own
    refine ⟨(n, x), List.mem_product.mpr ⟨List.mem_range.mpr (reach.numbered.1 n args has), ?_⟩, ?_⟩
    · exact List.mem_filter.mpr ⟨listed, by rw [outside]; rfl⟩
    · simp [own, reported]
  · rintro ⟨n, x⟩ -
    have sent := reach.count_written (q := fun m => reports x.post.id m.parts)
      (p := isReport x.post.id) (by
        intro args op m posts on
        obtain ⟨target, mentions, replyTo, clientId, rfl, -⟩ := mayPost_cases posts
        exact on) n
    have few := (sent.trans (reportCount_le reach n x.post.id)).trans
      (Nat.mul_le_mul_left 3 (admissions_le_one reach n x.post.id))
    refine le_trans (List.countP_mono_left ?_) few
    intro e _ holds
    simp only [Bool.and_eq_true, decide_eq_true_eq] at holds ⊢
    exact holds.2

/-- The runs are at most one for each worker and each message that is run. -/
theorem runsMade_le (reach : Board.Reachable (workerWall F verify) w) (quiet : NoContinuations w) :
    runsMade w ≤ w.started * (external w + w.started * external w * 3) := by
  have bound := second_hand_le reach quiet
  have indices : (List.range w.started ×ˢ
      (w.entries.filter (fun e => e.author.isNone) ++ w.entries.filter (fun e =>
        e.author.isSome && w.log.any (fun turn => isRun e.post.id turn.done.1)))).length ≤
      w.started * (external w + w.started * external w * 3) := by
    rw [List.length_product, List.length_range, List.length_append, ← List.countP_eq_length_filter,
      ← List.countP_eq_length_filter]
    exact Nat.mul_le_mul_left _ (Nat.add_le_add_left bound _)
  refine le_trans (countP_le_mul (k := 1)
    (f := fun (i : Nat × Entry StoredMessage) turn =>
      turn.speaker = i.1 && isRun i.2.post.id turn.done.1) ?_ ?_)
    (by rw [Nat.mul_one]; exact indices)
  · rintro ⟨n, ⟨op, r⟩⟩ logged kind
    cases op with
    | ask question =>
      cases question with
      | run item =>
        obtain ⟨m, posted, own, -⟩ := ran_posted reach (r := ⟨n, item⟩) ⟨r, logged⟩
        obtain ⟨e, listed, rfl⟩ := List.mem_map.mp posted
        have ran : isRun e.post.id (.ask (.run item)) = true := by simp [isRun, own]
        refine ⟨(n, e), List.mem_product.mpr
          ⟨List.mem_range.mpr (reach.numbered.2.2 _ logged), ?_⟩, by simpa using ran⟩
        cases author : e.author with
        | none => exact List.mem_append_left _ (List.mem_filter.mpr ⟨listed, by rw [author]; rfl⟩)
        | some n' =>
          refine List.mem_append_right _ (List.mem_filter.mpr ⟨listed, ?_⟩)
          rw [author, Option.isSome_some, Bool.true_and]
          exact List.any_eq_true.mpr ⟨_, logged, ran⟩
      | _ => cases kind
    | _ => cases kind
  · rintro ⟨n, e⟩ -
    have few := (runCount_le reach n e.post.id).trans (admissions_le_one reach n e.post.id)
    rw [runCount, countP_turnsOf] at few
    refine le_trans (List.countP_mono_left ?_) few
    intro turn _ holds
    exact (Bool.and_eq_true_iff.mp holds).2

/-- For any workers that share a board and any order of their steps: while no runner asks for a
    continuation, a chain of runs each of which was set off by a report of the one before has at most
    two runs, and the runs are bounded by the messages of others and the workers. -/
theorem worker_runs_die_out (reach : Board.Reachable (workerWall F verify) w)
    (quiet : NoContinuations w) :
    (∀ chain : List Run, (∀ r ∈ chain, Ran w r) → chain.IsChain (Triggers w) → chain.length ≤ 2) ∧
      runsMade w ≤ w.started * (external w + w.started * external w * 3) := by
  refine ⟨?_, runsMade_le reach quiet⟩
  intro chain ran linked
  match chain, ran, linked with
  | [], _, _ => exact Nat.zero_le _
  | [_], _, _ => exact Nat.le_succ _
  | [_, _], _, _ => exact Nat.le_refl _
  | first :: second :: third :: rest, ran, linked =>
    obtain ⟨once, linked⟩ := List.isChain_cons_cons.mp linked
    obtain ⟨twice, -⟩ := List.isChain_cons_cons.mp linked
    exact (triggers_no_more reach quiet once twice (ran third (by simp))).elim

end WorkerBoard

/-! ## Two workers -/

instance (F : FloatFormat) (verify : String → List UInt8 → String → Bool) (args : WorkerArgs)
    (op : ClientCall workerHost) (m : StoredMessage) :
    Decidable ((workerWall F verify).posts args op m) :=
  inferInstanceAs (Decidable (mayPost args.me op m))

instance (F : FloatFormat) (verify : String → List UInt8 → String → Bool)
    (posts : List StoredMessage) (m : StoredMessage) :
    Decidable ((workerWall F verify).fresh posts m) :=
  inferInstanceAs (Decidable (newId posts m))

/-- The hub answers, and a pull brings the message of an id if it comes after the ack. -/
def demoReplies (w : WorkerBoard) (id : String) : (op : ClientCall workerHost) → op.Res
  | .request (.pull _ _ _ _ ack) =>
      let page := w.posts.filter (fun m => m.id = id ∧ ack.getD 0 < m.seq)
      some (.pulled "r" page ((page.getLast?.map StoredMessage.seq).getD (ack.getD 0)))
  | .request (.send ..) => some (.sent id 1 "r")
  | .request (.presence ..) => some .presenceOk
  | .admitMessage _ => some true
  | .sign .. => some ⟨"s", 0, id, id⟩
  | op => demoAnswers op

abbrev DemoMove :=
  WorkerBoard → Board.Move (ClientCall workerHost) ClientCall.Res StoredMessage WorkerArgs (Option Fault)

/-- The worker makes a number of turns; a pull brings the message of the id, and a send puts up a
    message of the id. -/
def demoTurns (n count : Nat) (id : String) : List DemoMove :=
  List.replicate count (fun w => .turn n (demoReplies w id) none (demoPending WorkerArgs.me w n id))

/-- Bob runs what Alice asked for; the worker of Alice runs his result. -/
def demoChain : WorkerBoard :=
  Board.play (workerWall bitsFormat acceptS) <|
    [fun _ => .outside demoTask,
      fun _ => .start ⟨"home", bob, "r", "codex", ⟨.room, true, [], 0, false⟩, 1, 1⟩,
      fun _ => .start ⟨"home", alice, "r", "codex", ⟨.room, false, [], 0, false⟩, 1, 1⟩] ++
    demoTurns 0 2 "m2" ++ demoTurns 0 4 "m3" ++ demoTurns 0 5 "m4" ++
    demoTurns 1 2 "m4" ++ demoTurns 1 4 "m5" ++ demoTurns 1 2 "m6"

theorem demoChain_reachable : Board.Reachable (workerWall bitsFormat acceptS) demoChain :=
  Board.play_reachable _ _

/-- The turn is no run that ended with a continuation. -/
def endsTask (turn : Turn (clientMachine workerHost)) : Bool :=
  match turn.done with
  | ⟨.ask (.run _), outcome⟩ => (outcome : RunnerOutcome).continuation.isNone
  | _ => true

theorem noContinuations_of_all {w : WorkerBoard} (all : w.log.all endsTask = true) :
    WorkerBoard.NoContinuations w := by
  intro n item outcome logged
  exact Option.isNone_iff_eq_none.mp (List.all_eq_true.mp all _ logged)

theorem demoChain_counts :
    demoChain.started = 2 ∧ external demoChain = 1 ∧ WorkerBoard.runsMade demoChain = 2 ∧
      demoChain.log.all endsTask = true := by
  decide +kernel

theorem worker_runs_die_out_demo :
    WorkerBoard.runsMade demoChain = 2 ∧ external demoChain = 1 ∧
      (∀ chain : List Run, (∀ r ∈ chain, WorkerBoard.Ran demoChain r) →
        chain.IsChain (WorkerBoard.Triggers demoChain) → chain.length ≤ 2) ∧
      WorkerBoard.runsMade demoChain ≤ 2 * (1 + 2 * 1 * 3) := by
  obtain ⟨two, one, made, quiet⟩ := demoChain_counts
  have both := WorkerBoard.worker_runs_die_out demoChain_reachable (noContinuations_of_all quiet)
  have bound := both.2
  rw [two, one] at bound
  exact ⟨made, one, both.1, bound⟩

end Parler.Cli
