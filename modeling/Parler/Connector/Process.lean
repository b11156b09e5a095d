import Parler.Connector.Acks
import Parler.Connector.Replay
import Parler.Hub.Demo
import Parler.Lib.Dialogue

/-!
# Local processes of one identity

The programs that read a room and act on what they read: the connector runtime, the room worker and
the supervisor. A process is a program over the calls that leave it. It sends a frame to the hub and
gets a reply or an error, it reserves and releases keys in the replay ledger that all processes of
the identity share, and it asks its host. The hub serves requests of others in between, call by
call; an attempt the process has given up may still be running there; and a process may stop
anywhere.
-/

namespace Parler.Connector

open Parler.Lib Parler.Protocol Parler.Hub

/-- What a process asks of its host, and what the host answers. -/
structure Host where
  Ask : Type
  Answer : Ask → Type

/-- What `MeshAgent::send` draws: the signature with its time and uid, and the client id. -/
structure Signed where
  sig : String
  ts : Int
  uid : String
  clientId : String

/-- A call that leaves the process. -/
inductive ClientCall (H : Host) where
  | request (frame : ClientFrame)
  | admitMessage (message : StoredMessage)
  | complete (messages : List StoredMessage)
  | release (messages : List StoredMessage)
  | sign (target : Target) (parts : List Part) (replyTo : Option String)
  | ask (question : H.Ask)

variable {H : Host} {α β : Type}

/-- What comes back; `none` is an error. -/
def ClientCall.Res : ClientCall H → Type
  | .request _ => Option ServerFrame
  | .admitMessage _ => Option Bool
  | .complete _ => Unit
  | .release _ => Option Unit
  | .sign .. => Option Signed
  | .ask question => H.Answer question

abbrev clientMachine (H : Host) : Machine ((op : ClientCall H) → op.Res) :=
  talk (ClientCall H) ClientCall.Res

/-- A program of a process. -/
abbrev Client (H : Host) (α : Type) := Prog (clientMachine H) α

/-- A call of a process with its answer. -/
abbrev ClientDone (H : Host) := Done (clientMachine H)

/-! ## The calls of `MeshAgent` -/

namespace MeshAgent

variable (a : MeshAgent) (room : String)

/-- What a pull does with its reply. -/
def pulled : Option ServerFrame → MeshAgent × Option (List StoredMessage)
  | some (.pulled _ messages cursor) => (a.recordAck room cursor, some messages)
  | _ => (a, none)

theorem pulled_cases (reply : Option ServerFrame) :
    (∃ room' messages cursor, reply = some (.pulled room' messages cursor) ∧
      a.pulled room reply = (a.recordAck room cursor, some messages)) ∨
    a.pulled room reply = (a, none) := by
  unfold pulled
  split
  · rename_i room' messages cursor
    exact Or.inl ⟨room', messages, cursor, rfl, rfl⟩
  · exact Or.inr rfl

/-- `pull` without a `since`. -/
def pull (limit : Option Nat) : Client H (MeshAgent × Option (List StoredMessage)) :=
  .call (ClientCall.request (.pull room none limit none (a.ackFor room))) fun reply =>
    .ret (a.pulled room reply)

/-- `pull_parked`. -/
def pullParked (limit : Option Nat) (waitSecs : Nat) :
    Client H (MeshAgent × Option (List StoredMessage)) :=
  .call (ClientCall.request (.pull room none limit (some waitSecs) (a.ackFor room))) fun reply =>
    .ret (a.pulled room reply)

/-- `commit_reads`. -/
def commitReads : Client H (MeshAgent × Option Unit) :=
  let cursor := a.pending room
  if a.commitSkips room cursor then .ret (a.release room, some ())
  else
    .call (ClientCall.request (.pull room none (some 0) none (some cursor))) fun reply =>
      match (reply : Option ServerFrame) with
      | some (.pulled ..) => .ret (a.recordCommit room cursor, some ())
      | _ => .ret (a, none)

end MeshAgent

/-- `MeshAgent::send`: the id, the `seq` and the room of the message. -/
def send (target : Target) (parts : List Part) (mentions : Option (List String))
    (replyTo : Option String) : Client H (Option (String × Int × String)) :=
  .call (ClientCall.sign target (unsigned parts) replyTo) fun drawn =>
    match (drawn : Option Signed) with
    | none => .ret none
    | some s =>
        .call (ClientCall.request (.send target
            (unsigned parts ++ [(MessageSig.mk s.sig s.ts s.uid target).toPart]) mentions replyTo
            (some s.clientId))) fun reply =>
          match (reply : Option ServerFrame) with
          | some (.sent id seq room) => .ret (some (id, seq, room))
          | _ => .ret none

/-- `MeshAgent::presence_with_attention`. -/
def presence (status : String) (activity : Option String) (attention : Option Attention) :
    Client H (Option Unit) :=
  .call (ClientCall.request (.presence status activity attention)) fun reply =>
    match (reply : Option ServerFrame) with
    | some .presenceOk => .ret (some ())
    | _ => .ret none

/-! ## What these calls keep -/

section Specs

variable {C : List (ClientDone H) → ClientCall H → Prop} {J : List (ClientDone H) → Prop}
  {past : List (ClientDone H)}

/-- A call that the discipline allows where `J` holds, and that keeps `J`. -/
structure Free (C : List (ClientDone H) → ClientCall H → Prop) (J : List (ClientDone H) → Prop)
    (op : ClientCall H) : Prop where
  allowed : ∀ past, J past → C past op
  kept : ∀ past (r : op.Res), J past → J (⟨op, r⟩ :: past)

theorem send_upholds {target : Target} {parts : List Part} {mentions : Option (List String)}
    {replyTo : Option String} (signs : Free C J (.sign target (unsigned parts) replyTo))
    (sends : ∀ parts clientId, Free C J (.request (.send target parts mentions replyTo clientId)))
    (now : J past) :
    (send target parts mentions replyTo).Upholds C (fun sent past => J past ∧
      ∀ id seq room, sent = some (id, seq, room) → ∃ sig clientId,
        ⟨ClientCall.request (.send target (unsigned parts ++ [MessageSig.toPart sig]) mentions replyTo
          clientId), some (.sent id seq room)⟩ ∈ past) past := by
  refine ⟨signs.allowed past now, ?_⟩
  intro drawn
  have drew := signs.kept past drawn now
  cases drawn with
  | none => exact ⟨drew, nofun⟩
  | some s =>
    refine ⟨(sends _ _).allowed _ drew, ?_⟩
    intro reply
    have after := (sends (unsigned parts ++ [(MessageSig.mk s.sig s.ts s.uid target).toPart])
      (some s.clientId)).kept _ reply drew
    dsimp only
    split
    · rename_i id seq room
      refine ⟨after, ?_⟩
      rintro _ _ _ ⟨⟩
      exact ⟨_, _, List.mem_cons_self⟩
    · exact ⟨after, nofun⟩

theorem presence_upholds {status : String} {activity : Option String}
    {attention : Option Attention}
    (free : Free C J (.request (.presence status activity attention))) (now : J past) :
    (presence status activity attention).Upholds C (fun _ past => J past) past := by
  refine ⟨free.allowed past now, ?_⟩
  intro reply
  have after := free.kept past reply now
  dsimp only
  split <;> exact after

theorem MeshAgent.pending_committed (a : MeshAgent) (room : String) :
    (a.recordCommit room (a.pending room)).pending room = a.pending room := by
  rcases a.pending_recordCommit room room (a.pending room) with same | ⟨-, same | same⟩
  · exact same
  · exact same
  · rw [same, max_self]

/-- A commit sends the pending ack or nothing, leaves the pending ack and defers nothing. -/
theorem commitReads_upholds {a : MeshAgent} {room : String} (now : J past)
    (commits : a.pending room ≠ 0 →
      Free C J (.request (.pull room none (some 0) none (some (a.pending room))))) :
    (a.commitReads room).Upholds C
      (fun committed past => J past ∧ committed.1.pending room = a.pending room ∧
        committed.1.heldReads ⊆ a.heldReads) past := by
  unfold MeshAgent.commitReads
  dsimp only
  split
  · exact ⟨now, rfl, List.filter_subset_self _⟩
  · rename_i sends
    have positive : a.pending room ≠ 0 := by
      intro zero
      simp [MeshAgent.commitSkips, zero] at sends
    have free := commits positive
    refine ⟨free.allowed past now, ?_⟩
    intro reply
    have after := free.kept past reply now
    dsimp only
    split
    · exact ⟨after, a.pending_committed room, List.filter_subset_self _⟩
    · exact ⟨after, rfl, fun _ member => member⟩

end Specs

/-! ## The site -/

/-- A process: its replay guard, what is left of its program, the request at the hub that serves
    its frame, and whether the frame was sent again. -/
structure Proc (H : Host) (α : Type) where
  guard : AutonomousReplayGuard
  prog : Client H α
  thread : Option Nat
  resent : Bool

/-- The hub, the ledger file, the processes alive, how many were started, and their turns, newest
    first. -/
structure Site (cfg : HubConfig) (H : Host) (α : Type) where
  pool : HubPool cfg
  disk : Option (List String)
  procs : Nat → Option (Proc H α)
  started : Nat
  log : List (Turn (clientMachine H))

/-- What may happen: a request of someone else arrives at the hub, the hub executes a call, a
    process starts or stops, its frame reaches the hub, it gets the reply, it sends the frame again,
    its request fails, it works on the ledger, or it is answered. -/
inductive SiteAction (H : Host) (κ : Type) where
  | arrive (t : Nat) (req : Request)
  | exec (t : Nat)
  | start (argument : κ)
  | stop (n : Nat)
  | send (n t : Nat) (fresh : Fresh) (rounds : Nat)
  | receive (n : Nat)
  | resend (n : Nat)
  | fail (n : Nat)
  | ledger (n : Nat) (fault : Option Fault)
  | answer (n : Nat) (answers : (op : ClientCall H) → op.Res)

/-- What stays the same in a run: the code outside the repository, who the processes are, and the
    program that a process is started with. -/
structure Setup (cfg : HubConfig) (H : Host) (α κ : Type) where
  cardBytes : AgentCard → List UInt8
  floats : FloatFormat
  verify : String → List UInt8 → String → Bool
  me : Authed
  boot : κ → Client H α

namespace Site

variable {cfg : HubConfig} {κ : Type}

def init (inflight : Nat) : Site cfg H α := ⟨.start (.boot inflight), none, fun _ => none, 0, []⟩

@[simp] theorem init_procs (inflight n : Nat) :
    (init inflight : Site cfg H α).procs n = none := rfl

@[simp] theorem init_log (inflight : Nat) : (init inflight : Site cfg H α).log = [] := rfl

/-- Process `n` has made a call and goes on. -/
def turn (w : Site cfg H α) (n : Nat) (op : ClientCall H) (after : op.Res → Client H α) (r : op.Res)
    (guard : AutonomousReplayGuard) (disk : Option (List String)) : Site cfg H α :=
  { w with
    disk := disk
    procs := Function.update w.procs n (some ⟨guard, after r, none, false⟩)
    log := ⟨n, ⟨op, r⟩⟩ :: w.log }

variable (U : Setup cfg H α κ)

/-- Process `n` works on the ledger. -/
def ledgerTurn (w : Site cfg H α) (n : Nat) (p : Proc H α) (fault : Option Fault) :
    Site cfg H α :=
  match p.prog with
  | .call (ClientCall.admitMessage message) after =>
      let (result, disk, guard) := p.guard.admitMessage w.disk fault U.floats U.verify message U.me.id
      w.turn n (.admitMessage message) after result guard disk
  | .call (ClientCall.complete messages) after =>
      w.turn n (.complete messages) after () (p.guard.complete messages) w.disk
  | .call (ClientCall.release messages) after =>
      let (result, disk, guard) := p.guard.release w.disk fault messages
      w.turn n (.release messages) after result guard disk
  | _ => w

/-- The host answers process `n`. -/
def answerTurn (w : Site cfg H α) (n : Nat) (p : Proc H α)
    (answers : (op : ClientCall H) → op.Res) : Site cfg H α :=
  match p.prog with
  | .call (ClientCall.sign target parts replyTo) after =>
      w.turn n (.sign target parts replyTo) after (answers (.sign target parts replyTo)) p.guard
        w.disk
  | .call (ClientCall.ask question) after =>
      w.turn n (.ask question) after (answers (.ask question)) p.guard w.disk
  | _ => w

/-- Process `n`, which waits for a reply, sends its frame, gets the reply, sends again or gives
    up. -/
def requestTurn (w : Site cfg H α) (n : Nat) (p : Proc H α) (frame : ClientFrame)
    (after : Option ServerFrame → Client H α) : SiteAction H κ → Site cfg H α
  | .send _ t fresh rounds =>
      if p.thread = none ∧ (w.pool.threads t).isNone then
        { w with
          pool := w.pool.spawn t (.frame U.me frame fresh none rounds)
            (serve cfg U.cardBytes (.frame U.me frame fresh none rounds))
          procs := Function.update w.procs n (some { p with thread := some t }) }
      else w
  | .receive _ =>
      match p.thread.bind w.pool.answer with
      | some (_, [reply]) => w.turn n (.request frame) after (some reply) p.guard w.disk
      | _ => w
  | .resend _ =>
      if p.resent = false then
        { w with procs := Function.update w.procs n (some { p with thread := none, resent := true }) }
      else w
  | .fail _ => w.turn n (.request frame) after none p.guard w.disk
  | _ => w

/-- One step; an action that is not possible does nothing. -/
def act (w : Site cfg H α) (x : SiteAction H κ) : Site cfg H α :=
  match x with
  | .arrive t req =>
      if (w.pool.threads t).isNone ∧ Session.Foreign U.me req then
        { w with pool := w.pool.spawn t req (serve cfg U.cardBytes req) }
      else w
  | .exec t =>
      match w.pool.threads t with
      | some (req, .call op after) =>
          if (hubMachine cfg).enabled op w.pool.state then
            { w with pool := w.pool.exec t req op after }
          else w
      | _ => w
  | .start argument =>
      { w with
        procs := Function.update w.procs w.started (some ⟨.persistent, U.boot argument, none, false⟩)
        started := w.started + 1 }
  | .stop n => { w with procs := Function.update w.procs n none }
  | .ledger n fault =>
      match w.procs n with
      | some p => w.ledgerTurn U n p fault
      | none => w
  | .answer n answers =>
      match w.procs n with
      | some p => w.answerTurn n p answers
      | none => w
  | .send n _ _ _ | .receive n | .resend n | .fail n =>
      match w.procs n with
      | some p =>
          match p.prog with
          | .call (ClientCall.request frame) after => w.requestTurn U n p frame after x
          | _ => w
      | none => w

/-- The sites that runs reach all of whose steps `G` lets happen. -/
inductive Reachable (G : Site cfg H α → SiteAction H κ → Prop) (inflight : Nat) :
    Site cfg H α → Prop where
  | init : Reachable G inflight (init inflight)
  | act {w : Site cfg H α} (x : SiteAction H κ) :
      Reachable G inflight w → G w x → Reachable G inflight (w.act U x)

/-! ## What a step does -/

/-- How process `n` gets the answer of a call, with its guard and the ledger file afterwards. -/
inductive Effect (w : Site cfg H α) (n : Nat) (p : Proc H α) : SiteAction H κ →
    (op : ClientCall H) → op.Res → AutonomousReplayGuard → Option (List String) → Prop where
  | reply (frame : ClientFrame) {t : Nat} {req : Request} {reply : ServerFrame}
      (sent : p.thread = some t) (answer : w.pool.answer t = some (req, [reply])) :
      Effect w n p (.receive n) (.request frame) (some reply) p.guard w.disk
  | failed (frame : ClientFrame) : Effect w n p (.fail n) (.request frame) none p.guard w.disk
  | admitMessage (message : StoredMessage) (fault : Option Fault) {result : Option Bool}
      {disk : Option (List String)} {guard : AutonomousReplayGuard}
      (outcome : p.guard.admitMessage w.disk fault U.floats U.verify message U.me.id =
        (result, disk, guard)) :
      Effect w n p (.ledger n fault) (.admitMessage message) result guard disk
  | complete (messages : List StoredMessage) (fault : Option Fault) :
      Effect w n p (.ledger n fault) (.complete messages) () (p.guard.complete messages) w.disk
  | release (messages : List StoredMessage) (fault : Option Fault) {result : Option Unit}
      {disk : Option (List String)} {guard : AutonomousReplayGuard}
      (outcome : p.guard.release w.disk fault messages = (result, disk, guard)) :
      Effect w n p (.ledger n fault) (.release messages) result guard disk
  | signed (target : Target) (parts : List Part) (replyTo : Option String)
      (answers : (op : ClientCall H) → op.Res) :
      Effect w n p (.answer n answers) (.sign target parts replyTo)
        (answers (.sign target parts replyTo)) p.guard w.disk
  | told (question : H.Ask) (answers : (op : ClientCall H) → op.Res) :
      Effect w n p (.answer n answers) (.ask question) (answers (.ask question)) p.guard w.disk

/-- What a step does to the site. -/
inductive Change (w : Site cfg H α) : SiteAction H κ → Site cfg H α → Prop where
  | same (x : SiteAction H κ) : Change w x w
  | arrive (t : Nat) (req : Request) (free : w.pool.threads t = none)
      (foreign : Session.Foreign U.me req) :
      Change w (.arrive t req) { w with pool := w.pool.spawn t req (serve cfg U.cardBytes req) }
  | exec (t : Nat) (req : Request) (op : HubCall)
      (after : op.Res → Prog (hubMachine cfg) (List ServerFrame))
      (pending : w.pool.threads t = some (req, .call op after))
      (enabled : (hubMachine cfg).enabled op w.pool.state) :
      Change w (.exec t) { w with pool := w.pool.exec t req op after }
  | start (argument : κ) :
      Change w (.start argument)
        { w with
          procs := Function.update w.procs w.started (some ⟨.persistent, U.boot argument, none, false⟩)
          started := w.started + 1 }
  | stop (n : Nat) : Change w (.stop n) { w with procs := Function.update w.procs n none }
  | send (n t : Nat) (p : Proc H α) (frame : ClientFrame) (after : Option ServerFrame → Client H α)
      (fresh : Fresh) (rounds : Nat) (alive : w.procs n = some p)
      (pending : p.prog = .call (ClientCall.request frame) after)
      (free : w.pool.threads t = none) :
      Change w (.send n t fresh rounds)
        { w with
          pool := w.pool.spawn t (.frame U.me frame fresh none rounds)
            (serve cfg U.cardBytes (.frame U.me frame fresh none rounds))
          procs := Function.update w.procs n (some { p with thread := some t }) }
  | resend (n : Nat) (p : Proc H α) (alive : w.procs n = some p) :
      Change w (.resend n)
        { w with procs := Function.update w.procs n (some { p with thread := none, resent := true }) }
  | turn (x : SiteAction H κ) (n : Nat) (p : Proc H α) (op : ClientCall H)
      (after : op.Res → Client H α) (r : op.Res) (guard : AutonomousReplayGuard)
      (disk : Option (List String)) (alive : w.procs n = some p) (pending : p.prog = .call op after)
      (effect : w.Effect U n p x op r guard disk) : Change w x (w.turn n op after r guard disk)

theorem ledgerTurn_change (w : Site cfg H α) {n : Nat} {p : Proc H α} (alive : w.procs n = some p)
    (fault : Option Fault) : w.Change U (.ledger n fault) (w.ledgerTurn U n p fault) := by
  unfold ledgerTurn
  split
  · rename_i message after pending
    exact .turn _ n p (.admitMessage message) after _ _ _ alive pending (.admitMessage message fault rfl)
  · rename_i messages after pending
    exact .turn _ n p (.complete messages) after _ _ _ alive pending (.complete messages fault)
  · rename_i messages after pending
    exact .turn _ n p (.release messages) after _ _ _ alive pending (.release messages fault rfl)
  · exact .same _

theorem answerTurn_change (w : Site cfg H α) {n : Nat} {p : Proc H α} (alive : w.procs n = some p)
    (answers : (op : ClientCall H) → op.Res) :
    w.Change U (.answer n answers) (w.answerTurn n p answers) := by
  unfold answerTurn
  split
  · rename_i target parts replyTo after pending
    exact .turn _ n p (.sign target parts replyTo) after _ _ _ alive pending (.signed target parts replyTo answers)
  · rename_i question after pending
    exact .turn _ n p (.ask question) after _ _ _ alive pending (.told question answers)
  · exact .same _

theorem requestTurn_change (w : Site cfg H α) {n : Nat} {p : Proc H α} (alive : w.procs n = some p)
    {frame : ClientFrame} {after : Option ServerFrame → Client H α}
    (pending : p.prog = .call (ClientCall.request frame) after) {x : SiteAction H κ}
    (own : (∃ t fresh rounds, x = .send n t fresh rounds) ∨ x = .receive n ∨ x = .resend n ∨
      x = .fail n) : w.Change U x (w.requestTurn U n p frame after x) := by
  rcases own with ⟨t, fresh, rounds, rfl⟩ | rfl | rfl | rfl
  · rw [requestTurn]
    split
    · rename_i possible
      exact .send n t p frame after fresh rounds alive pending
        (Option.isNone_iff_eq_none.mp possible.2)
    · exact .same _
  · rw [requestTurn]
    split
    · rename_i req reply answered
      obtain ⟨t, sent, answer⟩ := Option.bind_eq_some_iff.mp answered
      exact .turn _ n p (.request frame) after _ _ _ alive pending (.reply frame sent answer)
    · exact .same _
  · rw [requestTurn]
    split
    · exact .resend n p alive
    · exact .same _
  · exact .turn _ n p (.request frame) after _ _ _ alive pending (.failed frame)

/-- The step lemma. -/
theorem act_change (w : Site cfg H α) (x : SiteAction H κ) : w.Change U x (w.act U x) := by
  have requests : ∀ n, ((∃ t fresh rounds, x = .send n t fresh rounds) ∨ x = .receive n ∨
      x = .resend n ∨ x = .fail n) →
      w.Change U x (match w.procs n with
        | some p =>
            match p.prog with
            | .call (ClientCall.request frame) after => w.requestTurn U n p frame after x
            | _ => w
        | none => w) := by
    intro n own
    split
    · rename_i p alive
      split
      · rename_i frame after pending
        exact requestTurn_change U w alive pending own
      · exact .same _
    · exact .same _
  cases x with
  | arrive t req =>
    rw [act]
    split
    · rename_i possible
      exact .arrive t req (Option.isNone_iff_eq_none.mp possible.1) possible.2
    · exact .same _
  | exec t =>
    rw [act]
    split
    · rename_i req op after pending
      split
      · rename_i enabled
        exact .exec t req op after pending enabled
      · exact .same _
    · exact .same _
  | start argument => exact .start argument
  | stop n => exact .stop n
  | ledger n fault =>
    rw [act]
    split
    · rename_i p alive
      exact ledgerTurn_change U w alive fault
    · exact .same _
  | answer n answers =>
    rw [act]
    split
    · rename_i p alive
      exact answerTurn_change U w alive answers
    · exact .same _
  | send n t fresh rounds => exact requests n (Or.inl ⟨t, fresh, rounds, rfl⟩)
  | receive n => exact requests n (Or.inr (Or.inl rfl))
  | resend n => exact requests n (Or.inr (Or.inr (Or.inl rfl)))
  | fail n => exact requests n (Or.inr (Or.inr (Or.inr rfl)))

/-- What a step does to one process that is alive after it. -/
inductive ProcChange (w : Site cfg H α) (x : SiteAction H κ) (w' : Site cfg H α) (n : Nat)
    (p' : Proc H α) : Prop where
  | kept (alive : w.procs n = some p') (log : turnsOf w'.log n = turnsOf w.log n)
      (threads : ∀ t req p, w.pool.threads t = some (req, p) →
        ∃ p, w'.pool.threads t = some (req, p))
  | sent (p : Proc H α) (t : Nat) (frame : ClientFrame) (after : Option ServerFrame → Client H α)
      (fresh : Fresh) (rounds : Nat) (alive : w.procs n = some p)
      (pending : p.prog = .call (ClientCall.request frame) after)
      (same : p' = { p with thread := some t }) (log : w'.log = w.log)
      (thread : ∃ prog, w'.pool.threads t = some (.frame U.me frame fresh none rounds, prog))
  | unsent (p : Proc H α) (alive : w.procs n = some p)
      (same : p' = { p with thread := none, resent := true }) (log : w'.log = w.log)
  | started (argument : κ) (starts : x = .start argument) (new : n = w.started)
      (same : p' = ⟨.persistent, U.boot argument, none, false⟩) (log : w'.log = w.log)
      (next : w'.started = w.started + 1)
  | moved (p : Proc H α) (op : ClientCall H) (after : op.Res → Client H α) (r : op.Res)
      (guard : AutonomousReplayGuard) (disk : Option (List String)) (alive : w.procs n = some p)
      (pending : p.prog = .call op after) (effect : w.Effect U n p x op r guard disk)
      (same : p' = ⟨guard, after r, none, false⟩) (step : w' = w.turn n op after r guard disk)

theorem spawn_keeps {P : HubPool cfg} {t : Nat} (free : P.threads t = none) (req : Request)
    (p : Prog (hubMachine cfg) (List ServerFrame)) {u : Nat} {req' : Request}
    {q : Prog (hubMachine cfg) (List ServerFrame)} (at_u : P.threads u = some (req', q)) :
    (P.spawn t req p).threads u = some (req', q) := by
  have other : u ≠ t := by
    intro same
    rw [same, free] at at_u
    cases at_u
  rw [Pool.spawn_threads, if_neg other]
  exact at_u

variable {U} in
theorem Change.proc {w w' : Site cfg H α} {x : SiteAction H κ} (change : w.Change U x w') {n : Nat}
    {p' : Proc H α} (alive : w'.procs n = some p') : w.ProcChange U x w' n p' := by
  cases change with
  | same => exact .kept alive rfl (fun _ _ p at_t => ⟨p, at_t⟩)
  | arrive t req free foreign =>
    exact .kept alive rfl (fun _ _ p at_u => ⟨p, spawn_keeps free req _ at_u⟩)
  | exec t req op after pending enabled =>
    refine .kept alive rfl ?_
    intro u req' p at_u
    dsimp only
    rw [Pool.exec_threads]
    split
    · rename_i same
      subst same
      rw [pending] at at_u
      cases at_u
      exact ⟨_, rfl⟩
    · exact ⟨p, at_u⟩
  | start argument =>
    dsimp only at alive
    by_cases same : n = w.started
    · rw [same, Function.update_self] at alive
      cases alive
      exact .started argument rfl same rfl rfl rfl
    · rw [Function.update_of_ne same] at alive
      exact .kept alive rfl (fun _ _ p at_t => ⟨p, at_t⟩)
  | stop m =>
    dsimp only at alive
    by_cases same : n = m
    · rw [same, Function.update_self] at alive
      cases alive
    · rw [Function.update_of_ne same] at alive
      exact .kept alive rfl (fun _ _ p at_t => ⟨p, at_t⟩)
  | send m t p frame after fresh rounds before pending free =>
    dsimp only at alive
    by_cases same : n = m
    · subst same
      rw [Function.update_self] at alive
      cases alive
      exact .sent p t frame after fresh rounds before pending rfl rfl
        ⟨_, by rw [Pool.spawn_threads, if_pos rfl]⟩
    · rw [Function.update_of_ne same] at alive
      exact .kept alive rfl (fun _ _ p at_u => ⟨p, spawn_keeps free _ _ at_u⟩)
  | resend m p before =>
    dsimp only at alive
    by_cases same : n = m
    · subst same
      rw [Function.update_self] at alive
      cases alive
      exact .unsent p before rfl rfl
    · rw [Function.update_of_ne same] at alive
      exact .kept alive rfl (fun _ _ p at_t => ⟨p, at_t⟩)
  | turn x m p op after r guard disk before pending effect =>
    dsimp only [Site.turn] at alive
    by_cases same : n = m
    · subst same
      rw [Function.update_self] at alive
      cases alive
      exact .moved p op after r guard disk before pending effect rfl rfl
    · rw [Function.update_of_ne same] at alive
      refine .kept alive ?_ (fun _ _ p at_t => ⟨p, at_t⟩)
      rw [Site.turn, turnsOf_cons, if_neg (Ne.symm same)]

variable {U} in
/-- A process that is alive was alive before, or was started. -/
theorem Change.before {w w' : Site cfg H α} {x : SiteAction H κ} (change : w.Change U x w') {n : Nat}
    {p' : Proc H α} (now : w'.procs n = some p') :
    (∃ p, w.procs n = some p) ∨ (n = w.started ∧ ∃ argument, x = .start argument) := by
  cases change.proc now with
  | kept alive => exact Or.inl ⟨p', alive⟩
  | sent p _ _ _ _ _ alive | unsent p alive | moved p _ _ _ _ _ alive => exact Or.inl ⟨p, alive⟩
  | started argument starts new => exact Or.inr ⟨new, argument, starts⟩

/-! ## What holds in every run -/

section Runs

variable {U : Setup cfg H α κ} {G : Site cfg H α → SiteAction H κ → Prop} {inflight : Nat}
  {w : Site cfg H α}

/-- The invariant rule. -/
theorem Reachable.invariant {I : Site cfg H α → Prop} (start : I (Site.init inflight))
    (step : ∀ w x w', Reachable U G inflight w → I w → G w x → w.Change U x w' → w' = w.act U x →
      I w') (reach : Reachable U G inflight w) : I w := by
  induction reach with
  | init => exact start
  | act x before allowed ih => exact step _ x _ before ih allowed (act_change U _ x) rfl

/-- Processes are numbered in the order of their starts. -/
theorem Reachable.numbered (reach : Reachable U G inflight w) :
    (∀ n p, w.procs n = some p → n < w.started) ∧ ∀ turn ∈ w.log, turn.speaker < w.started := by
  refine Reachable.invariant (I := fun w => (∀ n p, w.procs n = some p → n < w.started) ∧
    ∀ turn ∈ w.log, turn.speaker < w.started) ⟨by simp, by simp⟩ ?_ reach
  rintro w x w' - ⟨alive, spoken⟩ - change -
  have grows : w.started ≤ w'.started := by
    cases change <;> first | exact le_refl _ | exact Nat.le_succ _
  refine ⟨?_, ?_⟩
  · intro n p' now
    cases change.proc now with
    | kept before => exact (alive n p' before).trans_le grows
    | sent p _ _ _ _ _ before | unsent p before | moved p _ _ _ _ _ before =>
      exact (alive n p before).trans_le grows
    | started argument starts new same log next =>
      rw [new, next]
      exact Nat.lt_succ_self _
  · intro turn member
    cases change with
    | turn x n p op after r guard disk before =>
      rcases List.mem_cons.mp member with rfl | old
      · exact alive n p before
      · exact spoken turn old
    | start => exact (spoken turn member).trans (Nat.lt_succ_self _)
    | _ => exact spoken turn member

/-- The own-turns rule: what relates every program that a process is started with to no turns, and
    each continuation to the turns with the call made, relates every process to its turns. -/
theorem Reachable.own {K : Client H α → List (ClientDone H) → Prop}
    (boots : ∀ argument, K (U.boot argument) [])
    (stable : ∀ op next past r, K (.call op next) past → K (next r) (⟨op, r⟩ :: past))
    (reach : Reachable U G inflight w) {n : Nat} {p : Proc H α} (alive : w.procs n = some p) :
    K p.prog (turnsOf w.log n) := by
  refine Reachable.invariant (I := fun w => ∀ n p, w.procs n = some p →
    K p.prog (turnsOf w.log n)) (by simp) ?_ reach n p alive
  rintro w x w' before related - change - n p' now
  cases change.proc now with
  | kept alive log =>
    rw [log]
    exact related n p' alive
  | sent p t frame after fresh rounds alive pending same log =>
    rw [log, same]
    exact related n p alive
  | unsent p alive same log =>
    rw [log, same]
    exact related n p alive
  | started argument starts new same log =>
    have silent : turnsOf w.log w.started = [] := by
      rw [turnsOf, List.filter_eq_nil_iff.mpr]
      · rfl
      · intro turn member
        have old := before.numbered.2 turn member
        simpa using Nat.ne_of_lt old
    rw [log, same, new, silent]
    exact boots argument
  | moved p op after r guard disk alive pending effect same step =>
    have own := related n p alive
    rw [pending] at own
    rw [step, same, turn, turnsOf_cons, if_pos rfl]
    exact stable op after _ r own

/-- The discipline rule: what every program follows that a process is started with, every turn followed
    with respect to the earlier turns of its process. -/
theorem Reachable.followed {C : List (ClientDone H) → ClientCall H → Prop}
    (boots : ∀ argument, (U.boot argument).Follows C []) (reach : Reachable U G inflight w) {n : Nat}
    {later earlier : List (ClientDone H)} {d : ClientDone H}
    (parts : turnsOf w.log n = later ++ d :: earlier) : C earlier d.1 := by
  refine Reachable.invariant (I := fun w => ∀ n later d earlier,
    turnsOf w.log n = later ++ d :: earlier → C earlier d.1) ?_ ?_ reach n later d earlier parts
  · intro n later d earlier empty
    simp [turnsOf] at empty
  rintro w x w' before followed - change - n later d earlier parts
  cases change with
  | turn x m p op after r guard disk alive pending effect =>
    have follows : p.prog.Follows C (turnsOf w.log m) :=
      before.own (K := fun prog past => prog.Follows C past) boots (fun _ _ _ r follows => follows.2 r) alive
    rw [pending] at follows
    rw [Site.turn, turnsOf_cons] at parts
    by_cases same : m = n
    · rw [if_pos same] at parts
      cases later with
      | nil =>
        cases parts
        rw [← same]
        exact follows.1
      | cons first later =>
        rw [List.cons_append, List.cons.injEq] at parts
        exact followed n later d earlier parts.2
    · rw [if_neg same] at parts
      exact followed n later d earlier parts
  | _ => exact followed n later d earlier parts

/-- The attempt of a process in flight is at the hub. -/
theorem Reachable.flights (reach : Reachable U G inflight w) {n t : Nat} {p : Proc H α}
    (alive : w.procs n = some p) (sent : p.thread = some t) :
    ∃ frame after fresh rounds prog, p.prog = .call (ClientCall.request frame) after ∧
      w.pool.threads t = some (.frame U.me frame fresh none rounds, prog) := by
  refine Reachable.invariant (I := fun w => ∀ n t p, w.procs n = some p → p.thread = some t →
    ∃ frame after fresh rounds prog, p.prog = .call (ClientCall.request frame) after ∧
      w.pool.threads t = some (.frame U.me frame fresh none rounds, prog)) (by simp) ?_ reach n t p
    alive sent
  rintro w x w' - flying - change - n t p' now sent
  cases change.proc now with
  | kept alive log threads =>
    obtain ⟨frame, after, fresh, rounds, prog, pending, at_t⟩ := flying n t p' alive sent
    obtain ⟨prog', at_t⟩ := threads t _ prog at_t
    exact ⟨frame, after, fresh, rounds, prog', pending, at_t⟩
  | sent p t' frame after fresh rounds alive pending same log thread =>
    rw [same] at sent ⊢
    cases sent
    obtain ⟨prog, at_t⟩ := thread
    exact ⟨frame, after, fresh, rounds, prog, pending, at_t⟩
  | unsent p alive same =>
    rw [same] at sent
    cases sent
  | started argument starts new same =>
    rw [same] at sent
    cases sent
  | moved p op after r guard disk alive pending effect same =>
    rw [same] at sent
    cases sent

/-- The hub's part of a run is a run of the hub. -/
theorem Reachable.pool (reach : Reachable U G inflight w) :
    Pool.Reachable (serve cfg U.cardBytes) Pool.anySchedule (.boot inflight) w.pool := by
  refine Reachable.invariant (I := fun w => Pool.Reachable (serve cfg U.cardBytes)
    Pool.anySchedule (.boot inflight) w.pool) Relation.ReflTransGen.refl ?_ reach
  rintro w x w' - pool - change -
  cases change with
  | arrive t req free foreign => exact pool.tail (.spawn t req free)
  | exec t req op after pending enabled =>
    exact pool.tail (Pool.Step.exec (M := hubMachine cfg) (G := Pool.anySchedule) t req op after
      pending enabled trivial)
  | send n t p frame after fresh rounds alive pending free => exact pool.tail (.spawn t _ free)
  | _ => exact pool

/-- The ledger as it is after a call, and where its keys come from. -/
theorem Effect.ledger {n : Nat} {p : Proc H α} {x : SiteAction H κ} {op : ClientCall H} {r : op.Res}
    {guard : AutonomousReplayGuard} {disk : Option (List String)}
    (effect : w.Effect U n p x op r guard disk) (own : GuardFormed p.guard)
    (formed : DiskFormed w.disk) :
    GuardFormed guard ∧ DiskFormed disk ∧ ∀ key ∈ disk.getD [], key ∈ w.disk.getD [] ∨
      ∃ message, (⟨op, r⟩ : ClientDone H) = ⟨ClientCall.admitMessage message, some true⟩ ∧
        replayKey message = some key := by
  cases effect with
  | reply | failed | signed | told => exact ⟨own, formed, fun _ member => Or.inl member⟩
  | complete messages => exact ⟨own, formed, fun _ member => Or.inl member⟩
  | admitMessage message fault outcome =>
    rcases AutonomousReplayGuard.admit_cases U.floats U.verify own formed fault message U.me.id with
      ⟨result, g, equal, own', -, -⟩ | ⟨key, keyed, new, g, own', -, equal⟩
    · rw [equal] at outcome
      cases outcome
      exact ⟨own', formed, fun _ member => Or.inl member⟩
    · rw [equal] at outcome
      cases outcome
      have nodup : (w.disk.getD [] ++ [key]).Nodup :=
        List.nodup_append.mpr ⟨formed.1, List.nodup_singleton _, by
          intro k member k' single same
          rw [List.mem_singleton.mp single] at same
          exact new (same ▸ member)⟩
      refine ⟨own', diskFormed_some (nodup.sublist (lastN_sublist replayCap _))
        (length_lastN_le replayCap _), ?_⟩
      intro k member
      rw [Option.getD_some] at member
      rcases List.mem_append.mp ((lastN_sublist replayCap _).subset member) with old | last
      · exact Or.inl old
      · rw [List.mem_singleton.mp last]
        exact Or.inr ⟨message, rfl, keyed⟩
  | release messages fault outcome =>
    obtain ⟨result, disk', g, equal, own', done⟩ :=
      AutonomousReplayGuard.release_cases own formed fault messages
    rw [equal] at outcome
    cases outcome
    rcases done with ⟨-, rfl⟩ | ⟨-, removed, -, -, file⟩
    · exact ⟨own', formed, fun _ member => Or.inl member⟩
    · have kept : (disk.getD []).Sublist (w.disk.getD []) := by
        rw [file]
        exact List.filter_sublist
      exact ⟨own', ⟨formed.1.sublist kept, kept.length_le.trans formed.2⟩,
        fun key member => Or.inl (kept.subset member)⟩

/-- A valid message that is refused has its key in the ledger. -/
theorem Effect.refused {n : Nat} {p : Proc H α} {x : SiteAction H κ} {op : ClientCall H} {r : op.Res}
    {guard : AutonomousReplayGuard} {disk : Option (List String)}
    (effect : w.Effect U n p x op r guard disk) (own : GuardFormed p.guard)
    (formed : DiskFormed w.disk) {message : StoredMessage}
    (refused : (⟨op, r⟩ : ClientDone H) = ⟨ClientCall.admitMessage message, some false⟩)
    (valid : verifyMessageForRoom U.floats U.verify message U.me.id = .valid) :
    ∃ key, replayKey message = some key ∧ key ∈ w.disk.getD [] := by
  obtain ⟨sig, signed, -⟩ := verifyMessageForRoom_valid.mp valid
  have keyed : replayKey message = some (message.sender.id ++ ":" ++ sig.uid) := by
    rw [replayKey, signed]
    rfl
  refine ⟨_, keyed, ?_⟩
  cases refused
  generalize same : (some false : Option Bool) = result at effect
  cases effect with
  | admitMessage _ fault outcome =>
    subst same
    rcases AutonomousReplayGuard.admit_cases U.floats U.verify own formed fault message U.me.id with
      ⟨result, g, equal, -, -, ⟨rfl, -⟩ | ⟨-, known⟩⟩ | ⟨key, -, new, g, -, -, equal⟩
    · rw [equal] at outcome
      cases outcome
    · exact known valid _ keyed
    · rw [equal] at outcome
      cases outcome

/-- In every run the ledgers are formed and each key of the file was admitted. -/
theorem Reachable.ledger (reach : Reachable U G inflight w) :
    DiskFormed w.disk ∧ (∀ n p, w.procs n = some p → GuardFormed p.guard) ∧
      ∀ key ∈ w.disk.getD [], ∃ n message,
        ⟨n, ⟨ClientCall.admitMessage message, some true⟩⟩ ∈ w.log ∧ replayKey message = some key := by
  refine Reachable.invariant (I := fun w => DiskFormed w.disk ∧
    (∀ n p, w.procs n = some p → GuardFormed p.guard) ∧ ∀ key ∈ w.disk.getD [], ∃ n message,
      ⟨n, ⟨ClientCall.admitMessage message, some true⟩⟩ ∈ w.log ∧ replayKey message = some key) ?_ ?_ reach
  · exact ⟨⟨List.nodup_nil, Nat.zero_le _⟩, by simp, by simp [Site.init]⟩
  · rintro w x w' - ⟨formed, guards, reserved⟩ - change -
    have guarded : ∀ n p', w'.procs n = some p' → GuardFormed p'.guard := by
      intro n p' now
      cases change.proc now with
      | kept alive => exact guards n p' alive
      | sent p t frame after fresh rounds alive pending same =>
        rw [same]
        exact guards n p alive
      | unsent p alive same =>
        rw [same]
        exact guards n p alive
      | started argument starts new same =>
        rw [same]
        exact ⟨rfl, Fifo.empty_bounded⟩
      | moved p op after r guard disk alive pending effect same =>
        rw [same]
        exact (effect.ledger (guards n p alive) formed).1
    cases change with
    | turn x n p op after r guard disk alive pending effect =>
      obtain ⟨-, formed', origin⟩ := effect.ledger (guards n p alive) formed
      refine ⟨formed', guarded, ?_⟩
      intro key member
      rcases origin key member with old | ⟨message, same, keyed⟩
      · obtain ⟨m, message, logged, keyed⟩ := reserved key old
        exact ⟨m, message, List.mem_cons_of_mem _ logged, keyed⟩
      · refine ⟨n, message, ?_, keyed⟩
        rw [← same]
        exact List.mem_cons_self
    | _ => exact ⟨formed, guarded, reserved⟩

end Runs

/-! ## Running a list of actions -/

def play (w : Site cfg H α) (actions : List (SiteAction H κ)) : Site cfg H α :=
  actions.foldl (act U) w

/-- The check passes before every action. -/
def allowed (check : Site cfg H α → SiteAction H κ → Bool) (w : Site cfg H α) :
    List (SiteAction H κ) → Bool
  | [] => true
  | x :: xs => check w x && allowed check (w.act U x) xs

variable {U} in
theorem Reachable.play {G : Site cfg H α → SiteAction H κ → Prop}
    (check : Site cfg H α → SiteAction H κ → Bool) {inflight : Nat} {w : Site cfg H α}
    (sound : ∀ w x, Reachable U G inflight w → check w x = true → G w x)
    (reach : Reachable U G inflight w) {actions : List (SiteAction H κ)}
    (passed : w.allowed U check actions = true) : Reachable U G inflight (w.play U actions) := by
  induction actions generalizing w with
  | nil => exact reach
  | cons x xs ih =>
    obtain ⟨now, later⟩ := Bool.and_eq_true_iff.mp passed
    exact ih (.act x reach (sound w x reach now)) later

end Site

section Demo

variable {κ : Type}

/-- Request `t` runs to its end at the hub. -/
def demoServed (t : Nat) : List (SiteAction H κ) := List.replicate demoSteps (.exec t)

/-- Process `n` makes a request that is served and answered. -/
def demoExchange (n t : Nat) : List (SiteAction H κ) :=
  SiteAction.send n t (demoFresh t) 0 :: demoServed t ++ [SiteAction.receive n]

/-- Alice opens the room `r`, Bob joins it, and Alice posts. -/
def demoPosted (parts : List Part) : List (SiteAction H κ) :=
  .arrive 0 (demoFrame 0 alice (.invite .channel (some "r") none none false)) :: demoServed 0 ++
  .arrive 1 (demoFrame 1 bob (.redeem "c0")) :: demoServed 1 ++
  .arrive 2 (demoFrame 2 alice (.send (.room "r") parts none none none)) :: demoServed 2

end Demo

end Parler.Connector
