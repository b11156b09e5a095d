import Mathlib.Data.List.ProdSigma
import Parler.Cli.Supervise
import Parler.Connector.Ledgers
import Parler.Connector.Readers

/-!
# Supervisors in one channel

Any number of supervisors listen to one channel and post the status of their tasks into it. Nothing in
the supervisor tells a status message from a request: the own ones are skipped by their sender, and
those of others wake it whenever its policy wakes it for a message that names nobody. A batch that is
held is read again and again; what keeps a message of it from starting a second runner is the replay
ledger, for as long as it remembers.
-/

namespace Parler.Cli

open Parler.Lib Parler.Protocol Parler.Hub Parler.Connector

/-! ## The supervisors and their board -/

/-- What a supervisor is started with, and where its ledger is. -/
structure SupervisorArgs where
  home : String
  me : Authed
  attention : AttentionPolicy
  leaseSecs : Nat
  once : Bool
  ticks : Nat
  rounds : Nat

def SupervisorArgs.place (args : SupervisorArgs) : String × String := (args.home, args.me.id)

/-- Supervisors share replay ledgers. -/
def supervisorWall (F : FloatFormat) (verify : String → List UInt8 → String → Bool) (room : String) :
    Wall (ClientCall superviseHost) ClientCall.Res StoredMessage SupervisorArgs (Option Unit) Ledgers
      (Option Fault) where
  boot args := supervise ⟨F, verify, args.me, args.attention⟩
    ⟨room, .channel, none, args.leaseSecs, args.once⟩ args.ticks args.rounds
  shared := fun _ => .init
  begins n args ledgers := ledgers.act F verify args.place (.start n)
  ends n args ledgers := ledgers.act F verify args.place (.stop n)
  serve n args op r fault ledgers := Ledgers.serve F verify args.place n op r fault ledgers
  shows op r := brought ⟨op, r⟩
  posts args := mayPost args.me
  fresh := newId

abbrev SupervisorBoard :=
  Board (ClientCall superviseHost) ClientCall.Res StoredMessage SupervisorArgs (Option Unit) Ledgers

namespace SupervisorBoard

/-- A runner was started for the message. -/
def Started (w : SupervisorBoard) (n : Nat) (m : StoredMessage) : Prop :=
  ∃ r : Spawned, ⟨n, ⟨ClientCall.ask (.spawn m), r⟩⟩ ∈ w.log

end SupervisorBoard

/-- The policy wakes for a message of a channel that is for nobody in particular. -/
def wakesForAll (room : String) (policy : AttentionPolicy) : Prop :=
  policy.mode = .open ∧ room ∉ policy.quietRooms ∧ room ∉ policy.mutedRooms

/-! ## What a supervisor may do -/

def isSpawn (id : String) : ClientCall superviseHost → Bool
  | .ask (.spawn m) => m.id == id
  | _ => false

def spawnCount (past : List (ClientDone superviseHost)) (id : String) : Nat :=
  past.countP (fun d => isSpawn id d.1)

/-- The message was brought, comes from another and wakes. -/
structure Woken (room : String) (args : SupervisorArgs) (past : List (ClientDone superviseHost))
    (m : StoredMessage) : Prop where
  brought : ∃ d ∈ past, m ∈ brought d
  other : m.sender.id ≠ args.me.id
  wakes : args.attention.decide room .channel m args.me.name args.me.role = .wake

/-- A supervisor reserves only what wakes it and releases nothing, starts the runner only for what wakes
    it, as often as it was admitted, and posts only the status of such messages. -/
def statusRule (room : String) (args : SupervisorArgs) (past : List (ClientDone superviseHost)) :
    ClientCall superviseHost → Prop
  | .ask (.spawn m) => Woken room args past m ∧ spawnCount past m.id < admissions past m.id
  | .request (.send _ parts _ _ _) => ∃ source status note output, ∃ sig : MessageSig,
      Woken room args past source ∧
        parts = unsigned (statusParts source status note output) ++ [sig.toPart]
  | .admitMessage m => Woken room args past m
  | .release _ => False
  | _ => True

/-! ## What a supervisor does -/

/-- Every admitted message is run once at most, those in hand not yet. -/
structure InHand (room : String) (args : SupervisorArgs) (base : List (ClientDone superviseHost))
    (todo : List StoredMessage) (past : List (ClientDone superviseHost)) : Prop where
  since : base <:+ past
  woken : ∀ m ∈ todo, Woken room args past m
  counted : ∀ id, spawnCount past id + todo.countP (fun m => m.id = id) ≤ admissions past id

/-- The calls that neither post nor start, nor reserve or release. -/
def staysQuiet : ClientCall superviseHost → Bool
  | .request (.send ..) | .ask (.spawn _) | .admitMessage _ | .release _ => false
  | _ => true

section Program

variable {F : FloatFormat} {verify : String → List UInt8 → String → Bool} {room : String}
  {args : SupervisorArgs} {base past : List (ClientDone superviseHost)} {todo : List StoredMessage}

theorem Woken.grow {past' : List (ClientDone superviseHost)} (later : past <:+ past') {m : StoredMessage}
    (woken : Woken room args past m) : Woken room args past' m := by
  obtain ⟨⟨d, member, shown⟩, other, wakes⟩ := woken
  exact ⟨⟨d, later.subset member, shown⟩, other, wakes⟩

theorem spawnCount_cons (d : ClientDone superviseHost) (id : String) :
    spawnCount (d :: past) id = spawnCount past id + if isSpawn id d.1 = true then 1 else 0 :=
  List.countP_cons

theorem InHand.cons (hand : InHand room args base todo past) (op : ClientCall superviseHost)
    (r : op.Res) (noSpawn : ∀ id, isSpawn id op = false) :
    InHand room args base todo (⟨op, r⟩ :: past) := by
  refine ⟨hand.since.trans (List.suffix_cons _ _),
    fun m member => (hand.woken m member).grow (List.suffix_cons _ _), ?_⟩
  intro id
  have count := hand.counted id
  rw [spawnCount_cons, admissions_cons, if_neg (by rw [noSpawn id]; decide)]
  omega

theorem InHand.drop {m : StoredMessage} (hand : InHand room args base (m :: todo) past) :
    InHand room args base todo past := by
  refine ⟨hand.since, fun m member => hand.woken m (List.mem_cons_of_mem _ member), ?_⟩
  intro id
  have count := hand.counted id
  rw [List.countP_cons] at count
  omega

/-- The first message in hand is run. -/
theorem InHand.spawn {m : StoredMessage} (hand : InHand room args base (m :: todo) past)
    (r : Spawned) : InHand room args base todo (⟨ClientCall.ask (.spawn m), r⟩ :: past) := by
  refine ⟨hand.since.trans (List.suffix_cons _ _), ?_, ?_⟩
  · exact fun m member => (hand.woken m (List.mem_cons_of_mem _ member)).grow (List.suffix_cons _ _)
  · intro id
    have count := hand.counted id
    rw [List.countP_cons] at count
    rw [spawnCount_cons, admissions_cons]
    have same : isSpawn id (ClientCall.ask (H := superviseHost) (.spawn m)) = decide (m.id = id) := by
      simp [isSpawn, beq_eq_decide]
    rw [same]
    have none : isAdmitted (H := superviseHost) id ⟨ClientCall.ask (.spawn m), r⟩ = false := rfl
    rw [none]
    omega

/-- A message that wakes and was admitted is taken in hand. -/
theorem InHand.admitMessage (hand : InHand room args base todo past) {m : StoredMessage}
    (woken : Woken room args past m) :
    InHand room args base (todo ++ [m]) (⟨ClientCall.admitMessage m, some true⟩ :: past) := by
  refine ⟨hand.since.trans (List.suffix_cons _ _), ?_, ?_⟩
  · intro m' member
    rcases List.mem_append.mp member with old | new
    · exact (hand.woken m' old).grow (List.suffix_cons _ _)
    · rw [List.mem_singleton.mp new]
      exact woken.grow (List.suffix_cons _ _)
  · intro id
    have count := hand.counted id
    rw [spawnCount_cons, admissions_admitted, List.countP_append, List.countP_cons, List.countP_nil]
    simp only [isSpawn, Bool.false_eq_true, if_false, decide_eq_true_eq]
    omega

theorem quiet_rule {op : ClientCall superviseHost} (quiet : staysQuiet op = true) :
    statusRule room args past op := by
  cases op with
  | request frame =>
    cases frame with
    | send => cases quiet
    | _ => trivial
  | ask question =>
    cases question with
    | spawn => cases quiet
    | _ => trivial
  | admitMessage | release => cases quiet
  | _ => trivial

theorem quiet_noSpawn {op : ClientCall superviseHost} (quiet : staysQuiet op = true) (id : String) :
    isSpawn id op = false := by
  cases op with
  | ask question =>
    cases question with
    | spawn => cases quiet
    | _ => rfl
  | _ => rfl

/-- The calls of a program that stays quiet. -/
abbrev Quiet {α : Type} (p : SuperviseClient α) : Prop := p.Calls (fun op => staysQuiet op = true)

theorem Quiet.upholds {α : Type} {p : SuperviseClient α} (quiet : Quiet p)
    (now : InHand room args base todo past) :
    p.Upholds (statusRule room args) (fun _ past => InHand room args base todo past) past := by
  refine Prog.Calls.upholds (J := InHand room args base todo) ?_ ?_ (fun _ _ now => now) quiet now
  · exact fun _ _ calm _ => quiet_rule calm
  · exact fun op r _ calm now => now.cons op r (quiet_noSpawn calm)

/-! ### The steps of the program -/

section Steps

variable {rt : ConnectorRuntime} {o : SuperviseOptions} {m : StoredMessage}

theorem lifecycle_quiet (status : String) (activity : Option String) :
    Quiet (lifecycle rt status activity) := presence_calls rfl

theorem claim_quiet (room message : String) (leaseSecs : Option Nat) :
    Quiet (claim room message leaseSecs) := by
  refine ⟨rfl, ?_⟩
  intro reply
  dsimp only
  split <;> trivial

theorem completeClaim_quiet (room message : String) (status : TaskStatus) :
    Quiet (completeClaim room message status) := by
  refine ⟨rfl, ?_⟩
  intro reply
  dsimp only
  split <;> trivial

theorem watchChild_quiet (ticks : Nat) : Quiet (watchChild rt o m ticks) := by
  induction ticks with
  | zero => trivial
  | succ ticks ih =>
    refine ⟨rfl, ?_⟩
    intro waited
    cases waited with
    | ended => trivial
    | broken => trivial
    | renew =>
      dsimp only
      cases o.role with
      | none => exact ih
      | some role =>
        refine (claim_quiet _ _ _).bind ?_
        intro renewed
        rcases renewed with _ | _ | _
        · trivial
        · trivial
        · refine (lifecycle_quiet _ _).bind ?_
          intro shown
          cases shown with
          | none => trivial
          | some _ => exact ih

theorem sendStatus_upholds {status : TaskStatus} {note : String} {output : Option String}
    (woken : Woken room args base m) (now : InHand room args base todo past) :
    (send (.room room) (statusParts m status note output) none (some m.id)).Upholds
      (statusRule room args) (fun _ past => InHand room args base todo past) past := by
  refine ⟨trivial, ?_⟩
  intro drawn
  have drew := now.cons (.sign (.room room) (unsigned (statusParts m status note output)) (some m.id))
    drawn (fun _ => rfl)
  cases drawn with
  | none => exact drew
  | some s =>
    refine ⟨⟨m, status, note, output, _, woken.grow drew.since, rfl⟩, ?_⟩
    intro reply
    have after := drew.cons (.request (.send (.room room)
      (unsigned (statusParts m status note output) ++ [(MessageSig.mk s.sig s.ts s.uid (.room room)).toPart])
      none (some m.id) (some s.clientId))) reply (fun _ => rfl)
    dsimp only
    split <;> exact after

theorem postStatus_upholds {status : TaskStatus} {note : String} {output : Option String}
    (woken : Woken room args base m) (now : InHand room args base todo past) :
    (postStatus room m status note output).Upholds (statusRule room args)
      (fun _ past => InHand room args base todo past) past :=
  (sendStatus_upholds woken now).bind (fun _ _ now => now)

theorem runRunner_upholds (ticks : Nat) (woken : Woken room args base m)
    (now : InHand room args base (m :: todo) past) :
    (runRunner rt o ticks m).Upholds (statusRule room args)
      (fun _ past => InHand room args base todo past) past := by
  have left := now.counted m.id
  rw [List.countP_cons_of_pos (by simp)] at left
  refine ⟨⟨woken.grow now.since, by omega⟩, ?_⟩
  intro spawned
  have now := now.spawn spawned
  cases spawned with
  | unstarted => exact now
  | unfed => exact now
  | started => exact (watchChild_quiet ticks).upholds now

theorem report_upholds {claimed : Bool} {outcome : ChildOutcome} (here : o.room = room)
    (woken : Woken room args base m) (now : InHand room args base todo past) :
    (report rt o m claimed outcome).Upholds (statusRule room args)
      (fun _ past => InHand room args base todo past) past := by
  unfold report
  split
  · exact ((lifecycle_quiet _ _).upholds now).bind (fun _ _ now => now)
  · dsimp only
    rw [here]
    refine (postStatus_upholds woken now).bind ?_
    intro posted past now
    cases posted with
    | none => exact now
    | some _ =>
      have closing : Quiet (if claimed then completeClaim room m.id
          (if outcome.succeeded then TaskStatus.done else .failed) else .ret (some true)) := by
        split
        · exact completeClaim_quiet _ _ _
        · trivial
      refine (closing.upholds now).bind ?_
      intro closed past now
      cases closed with
      | none => exact now
      | some _ => exact ((lifecycle_quiet _ _).upholds now).bind (fun _ _ now => now)

theorem runOne_upholds {ticks : Nat} {claimed : Bool} (here : o.room = room)
    (woken : Woken room args base m) (now : InHand room args base (m :: todo) past) :
    (runOne rt o ticks claimed m).Upholds (statusRule room args)
      (fun _ past => InHand room args base todo past) past := by
  unfold runOne
  rw [here]
  refine ((lifecycle_quiet _ _).upholds now).bind ?_
  intro shown past now
  cases shown with
  | none => exact now.drop
  | some _ =>
    refine (postStatus_upholds woken now).bind ?_
    intro posted past now
    cases posted with
    | none => exact now.drop
    | some _ =>
      refine (postStatus_upholds woken now).bind ?_
      intro posted past now
      cases posted with
      | none => exact now.drop
      | some _ =>
        refine (runRunner_upholds ticks woken now).bind ?_
        intro outcome past now
        cases outcome with
        | none => exact now
        | some outcome =>
          refine ⟨trivial, ?_⟩
          intro r
          exact report_upholds here woken (now.cons (.complete [m]) r (fun _ => rfl))

theorem runAll_upholds {ticks : Nat} {completed : Bool} {messages : List StoredMessage}
    (here : o.room = room) (woken : ∀ m ∈ messages, Woken room args base m)
    (now : InHand room args base messages past) :
    (runAll rt o ticks messages completed).Upholds (statusRule room args)
      (fun ran past => ran ≠ none → InHand room args base [] past) past := by
  induction messages generalizing completed past with
  | nil => exact fun _ => now
  | cons m rest ih =>
    refine (runOne_upholds here (woken m List.mem_cons_self) now).bind ?_
    intro ran past now
    cases ran with
    | none => exact fun failed => absurd rfl failed
    | some done => exact ih (fun m later => woken m (List.mem_cons_of_mem _ later)) now

theorem InHand.rebase (hand : InHand room args base todo past) : InHand room args past todo past :=
  ⟨List.suffix_rfl, hand.woken, hand.counted⟩

/-- The runtime of a supervisor. -/
abbrev runtimeOf (F : FloatFormat) (verify : String → List UInt8 → String → Bool)
    (args : SupervisorArgs) : ConnectorRuntime := ⟨F, verify, args.me, args.attention⟩

theorem sift_upholds {s : Sifted} (has : ∃ d ∈ base, m ∈ brought d)
    (now : InHand room args base s.messages past) :
    ((runtimeOf F verify args).sift room .channel none m s).Upholds (statusRule room args)
      (fun sifted past => ∀ s, sifted = some s → InHand room args base s.messages past) past := by
  unfold ConnectorRuntime.sift
  split
  · intro s' same
    cases same
    exact now
  · rename_i other
    split
    · intro s' same
      cases same
      exact now
    · split
      · rename_i wakes
        have woken : Woken room args past m := by
          obtain ⟨d, member, shown⟩ := has
          exact ⟨⟨d, now.since.subset member, shown⟩, other, wakes⟩
        refine ⟨woken, ?_⟩
        intro admitted
        rcases admitted with _ | _ | _
        · exact fun s' impossible => nomatch impossible
        · intro s' same
          cases same
          exact now.cons (.admitMessage m) (some false) (fun _ => rfl)
        · intro s' same
          cases same
          exact now.admitMessage woken
      · intro s' same
        cases same
        exact now
      · intro s' same
        cases same
        exact now

theorem siftAll_upholds {s : Sifted} {messages : List StoredMessage}
    (has : ∀ m ∈ messages, ∃ d ∈ base, m ∈ brought d) (now : InHand room args base s.messages past) :
    ((runtimeOf F verify args).siftAll room .channel none messages s).Upholds (statusRule room args)
      (fun sifted past => ∀ s, sifted = some s → InHand room args base s.messages past) past := by
  induction messages generalizing s past with
  | nil =>
    intro s' same
    cases same
    exact now
  | cons m rest ih =>
    refine (sift_upholds (has m List.mem_cons_self) now).bind ?_
    intro sifted past after
    cases sifted with
    | none => exact fun s' impossible => nomatch impossible
    | some s => exact ih (fun m later => has m (List.mem_cons_of_mem _ later)) (after s rfl)

theorem receive_upholds {a : MeshAgent} {limit : Option Nat} (now : InHand room args base [] past) :
    ((runtimeOf F verify args).receive room .channel none a limit).Upholds (statusRule room args)
      (fun received past => ∀ batch, received.2 = some batch →
        InHand room args past batch.messages past) past := by
  refine Prog.Upholds.bind (J := fun pulled past => InHand room args past [] past ∧
    ∀ messages, pulled.2 = some messages → ∀ m ∈ messages, ∃ d ∈ past, m ∈ brought d) ⟨trivial, ?_⟩ ?_
  · intro reply
    have pulled := now.cons (.request (.pull room none limit none (a.ackFor room))) reply (fun _ => rfl)
    refine ⟨pulled.rebase, ?_⟩
    intro messages got m member
    rcases a.pulled_cases room reply with ⟨room', batch, cursor, rfl, equal⟩ | equal
    · rw [equal] at got
      cases got
      exact ⟨_, List.mem_cons_self, member⟩
    · rw [equal] at got
      cases got
  · rintro ⟨a, messages⟩ past ⟨now, got⟩
    cases messages with
    | none => exact fun batch impossible => nomatch impossible
    | some all =>
      refine (siftAll_upholds (s := ⟨[], false, 0⟩) (got all rfl) now).bind ?_
      intro sifted past after
      cases sifted with
      | none => exact fun batch impossible => nomatch impossible
      | some s =>
        have now := (after s rfl).rebase
        dsimp only
        split
        · intro batch same
          cases same
          exact now
        · have quiet : Quiet (a.commitReads room) := commitReads_calls (fun _ => rfl) a
          refine (quiet.upholds now).bind ?_
          rintro ⟨a, committed⟩ past after batch same
          cases committed with
          | none => cases same
          | some _ =>
            cases same
            exact after.rebase

variable {leaseSecs : Nat} {once : Bool}

theorem roomPass_upholds {ticks : Nat} {a : MeshAgent} (now : InHand room args base [] past) :
    (roomPass (runtimeOf F verify args) ⟨room, .channel, none, leaseSecs, once⟩ ticks a).Upholds
      (statusRule room args)
      (fun passed past => ∀ completed, passed.2 = .on completed → InHand room args past [] past) past := by
  refine (receive_upholds now).bind ?_
  rintro ⟨a, batch⟩ past got
  cases batch with
  | none => exact fun _ impossible => nomatch impossible
  | some batch =>
    have now := got batch rfl
    refine (runAll_upholds (o := ⟨room, .channel, none, leaseSecs, once⟩) rfl now.woken now).bind ?_
    intro ran past after
    cases ran with
    | none => exact fun _ impossible => nomatch impossible
    | some completed =>
      have now := after nofun
      have quiet : Quiet (if (!batch.held && !batch.messages.isEmpty) = true then a.commitReads room
          else .ret (a, some ())) := by
        split
        · exact commitReads_calls (fun _ => rfl) a
        · trivial
      refine (quiet.upholds now).bind ?_
      rintro ⟨a, committed⟩ past now _ _
      exact now.rebase

theorem superviseLoop_upholds {ticks rounds : Nat} {a : MeshAgent}
    (now : InHand room args base [] past) :
    (superviseLoop (runtimeOf F verify args) ⟨room, .channel, none, leaseSecs, once⟩ ticks rounds
      a).Upholds (statusRule room args) (fun _ _ => True) past := by
  induction rounds generalizing a base past with
  | zero => trivial
  | succ rounds ih =>
    refine (roomPass_upholds now).bind ?_
    rintro ⟨a, passed⟩ past after
    cases passed with
    | failed => trivial
    | returned => trivial
    | on completed =>
      have now := after completed rfl
      refine ⟨trivial, ?_⟩
      intro stale
      have now := now.cons (.ask .stale) stale (fun _ => rfl)
      have quiet : Quiet (if (completed || (stale : Bool)) = true then
          lifecycle (runtimeOf F verify args) "waiting" (some ("supervising " ++ "room"))
          else .ret (some ())) := by
        split
        · exact lifecycle_quiet _ _
        · trivial
      refine (quiet.upholds now).bind ?_
      intro shown past now
      cases shown with
      | none => trivial
      | some _ =>
        refine ⟨trivial, ?_⟩
        intro rung
        have now := now.cons (.ask .doorbell) rung (fun _ => rfl)
        cases rung with
        | none => trivial
        | some _ => exact ih now

end Steps

/-- A supervisor follows the rule. -/
theorem supervise_follows (F : FloatFormat) (verify : String → List UInt8 → String → Bool)
    (room : String) (args : SupervisorArgs) :
    ((supervisorWall F verify room).boot args).Follows (statusRule room args) [] := by
  have start : InHand room args [] [] [] := ⟨List.suffix_rfl, nofun, fun _ => Nat.zero_le _⟩
  refine Prog.Upholds.follows (I := fun _ _ => True) ?_
  refine ((lifecycle_quiet _ _).upholds start).bind ?_
  intro shown past now
  cases shown with
  | none => trivial
  | some _ =>
    refine ((lifecycle_quiet _ _).upholds now).bind ?_
    intro shown past now
    cases shown with
    | none => trivial
    | some _ =>
      refine ⟨trivial, ?_⟩
      intro reply
      exact superviseLoop_upholds (now.cons (.request .subscribe) reply (fun _ => rfl))

end Program

/-! ## What holds on every board -/

/-- A message of a channel that hands nothing over and asks for no role wakes whom every message
    wakes. -/
theorem decide_ambient {room : String} {policy : AttentionPolicy} {m : StoredMessage}
    (plain : ∀ part ∈ m.parts, HandoffRef.fromPart part = none ∧ dispatchRole part = none)
    (name : String) (role : Option String)
    (wakes : policy.decide room .channel m name role = .wake) : wakesForAll room policy := by
  have handoffs : m.parts.filterMap HandoffRef.fromPart = [] :=
    List.filterMap_eq_nil_iff.mpr (fun part member => (plain part member).1)
  have roles : m.parts.filterMap dispatchRole = [] :=
    List.filterMap_eq_nil_iff.mpr (fun part member => (plain part member).2)
  unfold AttentionPolicy.decide at wakes
  rw [handoffs, roles] at wakes
  by_cases muted : room ∈ policy.mutedRooms
  · rw [if_pos muted] at wakes
    cases wakes
  · rw [if_neg muted] at wakes
    by_cases calm : room ∈ policy.quietRooms
    · simp [calm] at wakes
    · refine ⟨?_, calm, muted⟩
      cases mode : policy.mode <;> simp [calm, mode] at wakes ⊢

/-- A status message wakes whom every message wakes. -/
theorem decide_status {room : String} {policy : AttentionPolicy} {m source : StoredMessage}
    {status : TaskStatus} {note : String} {output : Option String} {sig : MessageSig}
    (parts : m.parts = unsigned (statusParts source status note output) ++ [sig.toPart]) (name : String)
    (role : Option String) (wakes : policy.decide room .channel m name role = .wake) :
    wakesForAll room policy := by
  apply decide_ambient _ name role wakes
  intro part member
  rw [parts] at member
  rcases List.mem_append.mp member with among | signed
  · rcases List.mem_append.mp (List.mem_filter.mp among).1 with task | said
    · rw [List.mem_singleton.mp task]
      exact ⟨HandoffRef.fromPart_task _, dispatchRole_task _⟩
    · obtain ⟨text, -, rfl⟩ := List.mem_map.mp said
      exact ⟨rfl, rfl⟩
  · rw [List.mem_singleton.mp signed]
    exact ⟨handoffRef_sig _, dispatchRole_sig _⟩

/-- Nobody wakes for what a policy has muted. -/
theorem decide_muted {room : String} {policy : AttentionPolicy} {m : StoredMessage} {name : String}
    {role : Option String} (wakes : policy.decide room .channel m name role = .wake) :
    room ∉ policy.mutedRooms := by
  intro muted
  rw [AttentionPolicy.decide, if_pos muted] at wakes
  cases wakes

namespace SupervisorBoard

variable {F : FloatFormat} {verify : String → List UInt8 → String → Bool} {room : String}
  {w : SupervisorBoard}

/-- Whoever listens to everything in the channel shares it with others only who have muted it. -/
def Apart (room : String) (w : SupervisorBoard) : Prop :=
  ∀ i j a b, w.arguments i = some a → w.arguments j = some b → a.me.id ≠ b.me.id →
    wakesForAll room a.attention → room ∈ b.attention.mutedRooms

/-- The message is a status message of a supervisor. -/
def IsStatus (w : SupervisorBoard) (m : StoredMessage) : Prop :=
  ∃ e ∈ w.entries, e.author ≠ none ∧ e.post = m

/-- Runners that were started. -/
def startsSome : ClientCall superviseHost → Bool
  | .ask (.spawn _) => true
  | _ => false

def starts (w : SupervisorBoard) : Nat := w.log.countP (fun turn => startsSome turn.done.1)

/-- What wakes a supervisor is on the board. -/
theorem woken_posted (reach : Board.Reachable (supervisorWall F verify room) w) {n : Nat}
    {later earlier : List (ClientDone superviseHost)} {d : ClientDone superviseHost}
    (split : turnsOf w.log n = later ++ d :: earlier) {args : SupervisorArgs} {m : StoredMessage}
    (woken : Woken room args earlier m) : m ∈ w.posts := by
  obtain ⟨d', member, shown⟩ := woken.brought
  refine brought_posted (fun _ _ => rfl) reach (n := n) ?_ shown
  rw [split]
  exact List.mem_append_right _ (List.mem_cons_of_mem _ member)

/-- A runner is started for a message that wakes its supervisor. -/
theorem started_woken (reach : Board.Reachable (supervisorWall F verify room) w) {n : Nat}
    {m : StoredMessage} (started : Started w n m) : ∃ later d earlier args,
      turnsOf w.log n = later ++ d :: earlier ∧ w.arguments n = some args ∧ Woken room args earlier m := by
  obtain ⟨r, logged⟩ := started
  obtain ⟨later, earlier, split⟩ := List.append_of_mem (mem_turnsOf.mpr logged)
  obtain ⟨args, has, woken, -⟩ := reach.followed (supervise_follows F verify room) split
  exact ⟨later, _, earlier, args, split, has, woken⟩

/-- What a supervisor has on the board is a status message, and it does not mute the channel. -/
theorem entry_status (reach : Board.Reachable (supervisorWall F verify room) w)
    {e : Entry StoredMessage} (member : e ∈ w.entries) {n : Nat} (own : e.author = some n) :
    ∃ args, w.arguments n = some args ∧ e.post.sender.id = args.me.id ∧
      room ∉ args.attention.mutedRooms ∧ ∃ source status note output, ∃ sig : MessageSig,
        e.post.parts = unsigned (statusParts source status note output) ++ [sig.toPart] := by
  obtain ⟨args, later, d, earlier, has, split, posts⟩ := reach.written member own
  obtain ⟨args', has', rule⟩ := reach.followed (supervise_follows F verify room) split
  rw [has] at has'
  cases has'
  obtain ⟨target, mentions, replyTo, clientId, sends, sender⟩ := mayPost_cases posts
  rw [sends] at rule
  obtain ⟨source, status, note, output, sig, woken, same⟩ := rule
  exact ⟨args, has, sender, decide_muted woken.wakes, source, status, note, output, sig, same⟩

/-- No supervisor is woken by a status message of another. -/
theorem status_wakes_none (reach : Board.Reachable (supervisorWall F verify room) w)
    (apart : Apart room w) {n : Nat} {args : SupervisorArgs} (has : w.arguments n = some args)
    {past : List (ClientDone superviseHost)} {m : StoredMessage} (woken : Woken room args past m) :
    ¬ IsStatus w m := by
  rintro ⟨e, member, posted, rfl⟩
  obtain ⟨author, own⟩ := Option.ne_none_iff_exists'.mp posted
  obtain ⟨args', has', sender, unmuted, source, status, note, output, sig, parts⟩ :=
    entry_status reach member own
  refine unmuted (apart n author args args' has has' ?_ (decide_status parts _ _ woken.wakes))
  rw [← sender]
  exact woken.other.symm

/-- What wakes a supervisor comes from outside. -/
theorem woken_external (reach : Board.Reachable (supervisorWall F verify room) w)
    (apart : Apart room w) {n : Nat} {later earlier : List (ClientDone superviseHost)}
    {d : ClientDone superviseHost} (split : turnsOf w.log n = later ++ d :: earlier) {args : SupervisorArgs}
    (has : w.arguments n = some args) {m : StoredMessage} (woken : Woken room args earlier m) :
    ∃ e ∈ w.entries, e.author.isNone = true ∧ e.post = m := by
  obtain ⟨e, listed, same⟩ := List.mem_map.mp (woken_posted reach split woken)
  refine ⟨e, listed, ?_, same⟩
  rw [Option.isNone_iff_eq_none]
  by_contra posted
  exact status_wakes_none reach apart has woken ⟨e, listed, posted, same⟩

/-! ## What the ledgers let pass -/

/-- No ledger was released from, and each holds what its processes were admitted. -/
structure Recorded (F : FloatFormat) (verify : String → List UInt8 → String → Bool)
    (w : SupervisorBoard) : Prop where
  held : ∀ place, (w.shared place).Unreleased F verify
  kept : ∀ place n, (w.shared place).log.filterMap (ReplayEvent.admitsFor n) =
    if (w.arguments n).map SupervisorArgs.place = some place then
      (turnsOf w.log n).filterMap admittedKey else []

theorem recorded_empty : Recorded F verify (Board.empty (supervisorWall F verify room)) :=
  ⟨fun _ => ReplayWorld.unreleased_init, fun _ _ => rfl⟩

theorem Recorded.start (recorded : Recorded F verify w) (args : SupervisorArgs)
    (unused : w.arguments w.started = none) (silent : turnsOf w.log w.started = []) :
    Recorded F verify { w with
      shared := w.shared.act F verify args.place (.start w.started)
      programs := fun n => if n = w.started then
        some (args, (supervisorWall F verify room).boot args) else w.programs n
      arguments := fun n => if n = w.started then some args else w.arguments n
      started := w.started + 1 } := by
  obtain ⟨held, kept⟩ := recorded
  refine ⟨Ledgers.act_unreleased held (fun _ _ _ => nofun), ?_⟩
  intro place n
  dsimp only
  rw [Ledgers.act_start_admits, kept place n]
  by_cases new : n = w.started
  · subst new
    simp [unused, silent]
  · simp only [if_neg new]

theorem Recorded.turn (recorded : Recorded F verify w) {n : Nat} {args : SupervisorArgs}
    (has : w.arguments n = some args) {op : ClientCall superviseHost} {r : op.Res} {fault : Option Fault}
    {ledgers : Ledgers} (keeps : keepsKeys op)
    (served : Ledgers.serve F verify args.place n op r fault w.shared = some ledgers)
    (entries : List (Entry StoredMessage))
    (programs : Nat → Option (SupervisorArgs × SuperviseClient (Option Unit))) :
    Recorded F verify { w with
      entries := entries
      shared := ledgers
      programs := programs
      log := ⟨n, ⟨op, r⟩⟩ :: w.log } := by
  obtain ⟨held, kept⟩ := recorded
  obtain ⟨held', log⟩ := Ledgers.serve_unreleased held keeps served
  refine ⟨held', ?_⟩
  intro place k
  dsimp only
  rw [log place, turnsOf_cons, List.filterMap_append, kept place k]
  by_cases here : place = args.place
  · by_cases own : n = k
    · subst own
      rw [if_pos here, if_pos rfl, admitsFor_self]
      simp only [has, Option.map_some, here, if_true, List.filterMap_cons]
      cases admittedKey (⟨op, r⟩ : ClientDone superviseHost) <;> rfl
    · rw [if_pos here, if_neg own, admitsFor_other own]
      rfl
  · rw [if_neg here]
    by_cases own : n = k
    · subst own
      have elsewhere : ¬ some args.place = some place := fun same => here (Option.some.inj same).symm
      rw [has, Option.map_some, if_neg elsewhere]
      simp [elsewhere]
    · rw [if_neg own]
      rfl

/-- In every run the ledgers are on record. -/
theorem recorded_run (reach : Board.Reachable (supervisorWall F verify room) w) : Recorded F verify w := by
  refine Board.Reachable.invariant (I := fun w => Board.Reachable (supervisorWall F verify room) w ∧
    Recorded F verify w) ⟨.refl, recorded_empty⟩ ?_ reach |>.2
  rintro w w' ⟨before, recorded⟩ step
  have after := before.tail step
  refine ⟨after, ?_⟩
  cases step with
  | outside post new => exact ⟨recorded.held, recorded.kept⟩
  | start args =>
    refine recorded.start args ?_ (before.silent (Nat.le_refl _))
    cases unused : w.arguments w.started with
    | none => rfl
    | some a => exact absurd (before.numbered.1 _ a unused) (Nat.lt_irrefl _)
  | stop n args had =>
    refine ⟨Ledgers.act_unreleased recorded.held (fun _ _ _ => nofun), ?_⟩
    intro place k
    dsimp only
    exact (congrArg _ (Ledgers.act_stop_log ..)).trans (recorded.kept place k)
  | turn n args op next r fault ledgers posted pending served =>
    refine recorded.turn (before.numbered.2.1 n args _ pending) ?_ served _ _
    have newest : turnsOf ((⟨n, ⟨op, r⟩⟩ : Turn (clientMachine superviseHost)) :: w.log) n =
        [] ++ ⟨op, r⟩ :: turnsOf w.log n := by
      rw [turnsOf_cons, if_pos rfl]
      rfl
    obtain ⟨args', -, rule⟩ := Board.Reachable.followed (supervise_follows F verify room) after newest
    cases op with
    | release messages => exact rule
    | _ => trivial

/-- What a supervisor was admitted, by its key. -/
theorem recorded_keys (reach : Board.Reachable (supervisorWall F verify room) w) {n : Nat}
    {args : SupervisorArgs} (has : w.arguments n = some args) :
    (turnsOf w.log n).filterMap admittedKey =
      (w.shared args.place).log.filterMap (ReplayEvent.admitsFor n) := by
  rw [(recorded_run reach).kept, has, Option.map_some, if_pos rfl]

/-- The keys that a ledger let pass are those of messages from outside. -/
theorem keys_external (reach : Board.Reachable (supervisorWall F verify room) w) (apart : Apart room w)
    (place : String × String) : (w.shared place).log.filterMap ReplayEvent.admits ⊆
      (w.entries.filter (fun e => e.author.isNone)).filterMap (fun e => replayKey e.post) := by
  intro key member
  obtain ⟨e, logged, admits⟩ := List.mem_filterMap.mp member
  cases e with
  | admitted n k =>
    cases admits
    have own : key ∈ (w.shared place).log.filterMap (ReplayEvent.admitsFor n) :=
      List.mem_filterMap.mpr ⟨_, logged, if_pos rfl⟩
    rw [(recorded_run reach).kept] at own
    split at own
    · obtain ⟨d, turned, keyed⟩ := List.mem_filterMap.mp own
      obtain ⟨m, rfl, is⟩ := admittedKey_some keyed
      obtain ⟨later, earlier, split⟩ := List.append_of_mem turned
      obtain ⟨args, has, woken⟩ := reach.followed (supervise_follows F verify room) split
      obtain ⟨e, listed, outside, same⟩ := woken_external reach apart split has woken
      exact List.mem_filterMap.mpr ⟨e, List.mem_filter.mpr ⟨listed, outside⟩, same.symm ▸ is⟩
    · cases own
  | _ => cases admits

/-- What a supervisor is admitted has a key. -/
theorem admitted_key (reach : Board.Reachable (supervisorWall F verify room) w) {n : Nat}
    {m : StoredMessage} (admitted : ⟨ClientCall.admitMessage m, some true⟩ ∈ turnsOf w.log n) :
    ∃ key, replayKey m = some key := by
  refine (reach.answered (Q := fun op r => ∀ m,
    (⟨op, r⟩ : ClientDone superviseHost) = ⟨ClientCall.admitMessage m, some true⟩ →
      ∃ key, replayKey m = some key) ?_ _ (mem_turnsOf.mp admitted)).1 m rfl
  rintro n args op r fault s s' served m same
  cases same
  obtain ⟨w, does, -⟩ := Option.map_eq_some_iff.mp served
  exact ReplayWorld.serve_key does

/-- While there are no more messages from outside than the ledger remembers, no supervisor is admitted
    a message twice. -/
theorem admissions_le_one (reach : Board.Reachable (supervisorWall F verify room) w)
    (apart : Apart room w) (few : external w ≤ replayCap) (n : Nat) (id : String) :
    admissions (turnsOf w.log n) id ≤ 1 := by
  refine countP_le_allowance (c := fun _ => 1) (fun _ _ => le_refl _) ?_
  intro later d earlier split admitted
  rw [Nat.lt_one_iff, List.countP_eq_zero]
  intro d' member admitted'
  obtain ⟨m, rfl, own⟩ := isAdmitted_iff.mp admitted
  obtain ⟨m', rfl, own'⟩ := isAdmitted_iff.mp admitted'
  obtain ⟨args, has, woken⟩ := reach.followed (supervise_follows F verify room) split
  obtain ⟨mid, rest, within⟩ := List.append_of_mem member
  have split' : turnsOf w.log n = (later ++ ⟨ClientCall.admitMessage m, some true⟩ :: mid) ++
      ⟨ClientCall.admitMessage m', some true⟩ :: rest := by
    rw [split, within]
    simp
  obtain ⟨args', -, woken'⟩ := reach.followed (supervise_follows F verify room) split'
  have same : m' = m := same_message rfl reach (woken_posted reach split' woken')
    (woken_posted reach split woken) (own'.trans own.symm)
  -- The ledger lets each key pass once.
  have once : ((w.shared args.place).log.filterMap ReplayEvent.admits).Nodup := by
    obtain ⟨reached, kept⟩ := (recorded_run reach).held args.place
    refine (ReplayWorld.once_run reached).2.nodup kept (le_trans ?_ few)
    have outside := keys_external reach apart args.place
    refine (Finset.card_le_card (fun key passed =>
      List.mem_toFinset.mpr (outside (List.mem_toFinset.mp passed)))).trans ?_
    refine (List.toFinset_card_le _).trans ((List.length_filterMap_le _ _).trans ?_)
    rw [← List.countP_eq_length_filter]
    exact le_refl _
  have distinct := once.sublist (ReplayEvent.admitsFor_sublist n _)
  obtain ⟨key, keyed⟩ := admitted_key reach (n := n) (m := m) (by rw [split]; simp)
  have passed : admittedKey (⟨ClientCall.admitMessage m, some true⟩ : ClientDone superviseHost) = some key :=
    keyed
  rw [← recorded_keys reach has, split, List.filterMap_append, List.filterMap_cons_some passed] at distinct
  have again : key ∈ earlier.filterMap admittedKey :=
    List.mem_filterMap.mpr ⟨_, same ▸ member, passed⟩
  exact (List.nodup_cons.mp (distinct.sublist (List.sublist_append_right _ _))).1 again

theorem spawnCount_le (reach : Board.Reachable (supervisorWall F verify room) w) (n : Nat) (id : String) :
    spawnCount (turnsOf w.log n) id ≤ admissions (turnsOf w.log n) id := by
  refine countP_le_allowance (c := fun l => admissions l id)
    (fun d l => by rw [admissions_cons]; omega) ?_
  intro later d earlier split kind
  obtain ⟨args, -, rule⟩ := reach.followed (supervise_follows F verify room) split
  obtain ⟨op, r⟩ := d
  cases op with
  | ask question =>
    cases question with
    | spawn m =>
      have own : m.id = id := by simpa [isSpawn] using kind
      rw [← own]
      exact rule.2
    | _ => cases kind
  | _ => cases kind

/-- The runners are at most one for each supervisor and each message of others. -/
theorem starts_le (reach : Board.Reachable (supervisorWall F verify room) w) (apart : Apart room w)
    (few : external w ≤ replayCap) : starts w ≤ w.started * external w := by
  have indices : (List.range w.started ×ˢ w.entries.filter (fun e => e.author.isNone)).length =
      w.started * external w := by
    rw [List.length_product, List.length_range, external, List.countP_eq_length_filter]
  rw [← indices, ← Nat.mul_one (List.length _)]
  refine countP_le_mul (f := fun i turn => turn.speaker = i.1 && isSpawn i.2.post.id turn.done.1) ?_ ?_
  · rintro ⟨n, ⟨op, r⟩⟩ logged kind
    cases op with
    | ask question =>
      cases question with
      | spawn m =>
        obtain ⟨later, d, earlier, args, split, has, woken⟩ := started_woken reach (n := n) (m := m) ⟨r, logged⟩
        obtain ⟨e, listed, outside, rfl⟩ := woken_external reach apart split has woken
        exact ⟨(n, e), List.mem_product.mpr ⟨List.mem_range.mpr (reach.numbered.2.2 _ logged),
          List.mem_filter.mpr ⟨listed, outside⟩⟩, by simp [isSpawn]⟩
      | _ => cases kind
    | _ => cases kind
  · rintro ⟨n, e⟩ -
    have once := (spawnCount_le reach n e.post.id).trans (admissions_le_one reach apart few n e.post.id)
    rw [spawnCount, countP_turnsOf] at once
    refine le_trans (List.countP_mono_left ?_) once
    intro turn _ holds
    exact (Bool.and_eq_true_iff.mp holds).2

/-- In every run in which those who listen to everything in the channel share it with others only who
    have muted it, no status message starts a runner; and while there are no more messages of others than
    the replay ledger remembers, the runners are at most those messages times the supervisors. -/
theorem status_starts_nothing_if_apart (reach : Board.Reachable (supervisorWall F verify room) w)
    (apart : Apart room w) :
    (∀ n m, Started w n m → ¬ IsStatus w m) ∧
      (external w ≤ replayCap → starts w ≤ w.started * external w) := by
  refine ⟨?_, starts_le reach apart⟩
  intro n m started
  obtain ⟨later, d, earlier, args, split, has, woken⟩ := started_woken reach started
  exact status_wakes_none reach apart has woken

end SupervisorBoard

/-! ## Two supervisors -/

section Demo

variable (F : FloatFormat) (verify : String → List UInt8 → String → Bool) (room : String)

instance (args : SupervisorArgs) (op : ClientCall superviseHost) (m : StoredMessage) :
    Decidable ((supervisorWall F verify room).posts args op m) :=
  inferInstanceAs (Decidable (mayPost args.me op m))

instance (posts : List StoredMessage) (m : StoredMessage) :
    Decidable ((supervisorWall F verify room).fresh posts m) :=
  inferInstanceAs (Decidable (newId posts m))

end Demo

/-- What Carol asks for in the room. -/
def carolsOrder : StoredMessage :=
  ⟨1, "m1", "r", ⟨"C", "carol", none⟩, [.text "work", (MessageSig.mk "s" 0 "x" (.room "r")).toPart],
    none, none, 0⟩

/-- The hub answers, a pull brings messages of the board, and the child ends at once. -/
def superviseReplies (w : SupervisorBoard) (ids : List String) : (op : ClientCall superviseHost) → op.Res
  | .request (.pull ..) => some (.pulled "r" (w.posts.filter (fun m => m.id ∈ ids)) 1)
  | .request (.send ..) => some (.sent "m" 1 "r")
  | .request (.presence ..) => some .presenceOk
  | .request _ => none
  | .admitMessage _ => some true
  | .complete _ => ()
  | .release _ => none
  | .sign .. => some ⟨"s", 0, ids.headD "", "c"⟩
  | .ask (.spawn _) => Spawned.started
  | .ask (.wait _) => Waited.ended true "done"
  | .ask .stale => false
  | .ask .doorbell => none

abbrev SuperviseMove :=
  SupervisorBoard →
    Board.Move (ClientCall superviseHost) ClientCall.Res StoredMessage SupervisorArgs (Option Fault)

/-- The supervisor makes a number of turns; a pull brings the messages of the ids, and a send puts up a
    message of the first. -/
def superviseTurns (n count : Nat) (ids : List String) : List SuperviseMove :=
  List.replicate count
    (fun w => .turn n (superviseReplies w ids) none (demoPending SupervisorArgs.me w n (ids.headD "")))

def demoSupervisor (me : Authed) (policy : AttentionPolicy) : SuperviseMove :=
  fun _ => .start ⟨"home", me, policy, 60, false, 1, 1⟩

/-- Bob runs what Carol asked for. -/
def bobAlone (policy : AttentionPolicy) : List SuperviseMove :=
  [fun _ => .outside carolsOrder, demoSupervisor bob ⟨.open, [], []⟩, demoSupervisor alice policy] ++
    superviseTurns 0 5 ["m1"] ++ superviseTurns 0 3 ["m2"] ++ superviseTurns 0 3 ["m3"]

/-- Alice has muted the room. -/
def mutedChannel : SupervisorBoard :=
  Board.play (supervisorWall bitsFormat acceptS "r") (bobAlone ⟨.open, [], ["r"]⟩)

/-- Alice listens to everything too, and reads what Bob has posted. -/
def openChannel : SupervisorBoard :=
  Board.play (supervisorWall bitsFormat acceptS "r") (bobAlone ⟨.open, [], []⟩ ++
    superviseTurns 1 6 ["m2", "m3"] ++ superviseTurns 1 3 ["m4"] ++ superviseTurns 1 2 ["m5"] ++
    superviseTurns 1 5 ["m6"] ++ superviseTurns 1 4 ["m7"] ++ superviseTurns 1 3 ["m8"])

theorem channel_reachable (moves : List SuperviseMove) :
    Board.Reachable (supervisorWall bitsFormat acceptS "r")
      (Board.play (supervisorWall bitsFormat acceptS "r") moves) :=
  Board.play_reachable _ _

/-- The message that a turn starts a runner for. -/
def startedFor (turn : Turn (clientMachine superviseHost)) : Option StoredMessage :=
  match turn.done.1 with
  | .ask (.spawn m) => some m
  | _ => none

theorem started_of_mem {w : SupervisorBoard} {m : StoredMessage}
    (member : m ∈ w.log.filterMap startedFor) : ∃ n, SupervisorBoard.Started w n m := by
  obtain ⟨⟨n, ⟨op, r⟩⟩, logged, is⟩ := List.mem_filterMap.mp member
  cases op with
  | ask question =>
    cases question with
    | spawn m' =>
      cases is
      exact ⟨n, r, logged⟩
    | _ => cases is
  | _ => cases is

/-- Two supervisors that listen to everything: one message from outside starts three runners, two of
    them for status messages. -/
theorem status_starts_runner :
    Board.Reachable (supervisorWall bitsFormat acceptS "r") openChannel ∧
      (∃ n m, SupervisorBoard.Started openChannel n m ∧ SupervisorBoard.IsStatus openChannel m) ∧
      openChannel.started * external openChannel < SupervisorBoard.starts openChannel := by
  have facts : (∃ m ∈ openChannel.log.filterMap startedFor, ∃ e ∈ openChannel.entries,
        e.author ≠ none ∧ e.post = m) ∧
      openChannel.started * external openChannel < SupervisorBoard.starts openChannel := by
    decide +kernel
  obtain ⟨⟨m, member, status⟩, more⟩ := facts
  obtain ⟨n, started⟩ := started_of_mem member
  exact ⟨channel_reachable _, ⟨n, m, started, status⟩, more⟩

instance (room : String) (policy : AttentionPolicy) : Decidable (wakesForAll room policy) :=
  inferInstanceAs (Decidable (_ ∧ _ ∧ _))

/-- Two supervisors are not of one mind about the channel, or are one. -/
def keepsApart (room : String) (a b : SupervisorArgs) : Bool :=
  a.me.id ≠ b.me.id → wakesForAll room a.attention → room ∈ b.attention.mutedRooms

theorem apart_of_check {room : String} {F : FloatFormat}
    {verify : String → List UInt8 → String → Bool} {w : SupervisorBoard}
    (reach : Board.Reachable (supervisorWall F verify room) w)
    (check : ∀ i < w.started, ∀ j < w.started,
      (w.arguments i).all (fun a => (w.arguments j).all (keepsApart room a)) = true) :
    SupervisorBoard.Apart room w := by
  intro i j a b first second
  have passed := check i (reach.numbered.1 i a first) j (reach.numbered.1 j b second)
  rw [first, second, Option.all_some, Option.all_some] at passed
  exact of_decide_eq_true passed

theorem status_starts_nothing_demo :
    SupervisorBoard.starts mutedChannel = 1 ∧
      (∀ n m, SupervisorBoard.Started mutedChannel n m → ¬ SupervisorBoard.IsStatus mutedChannel m) ∧
      SupervisorBoard.starts mutedChannel ≤ mutedChannel.started * external mutedChannel := by
  have facts : SupervisorBoard.starts mutedChannel = 1 ∧ external mutedChannel = 1 ∧
      ∀ i < mutedChannel.started, ∀ j < mutedChannel.started, (mutedChannel.arguments i).all (fun a =>
        (mutedChannel.arguments j).all (keepsApart "r" a)) = true := by
    decide +kernel
  obtain ⟨one, single, check⟩ := facts
  have both := SupervisorBoard.status_starts_nothing_if_apart (channel_reachable _)
    (apart_of_check (channel_reachable _) check)
  exact ⟨one, both.1, both.2 (single ▸ ReplayWorld.replayCap_pos)⟩

end Parler.Cli
