import Parler.Cli.BacklogWindow
import Parler.Cli.PortableKeys
import Parler.Cli.VisibleHosts

/-!
# A conversation that is entered again

The start of `parler conversation` with a key, up to the receiving task, for Codex and OpenCode:
`enter_conversation`, `prepare_backlog` and the catch-up turn, from `crates/parler-cli/src/conversation.rs`. The
unread backlog goes to the host as one prompt, and the cursor is committed when the host has taken it. So it is
here, and not in the receiving task, that a run meets what an earlier run of the identity has left unfinished.
-/

namespace Parler.Cli

open Parler.Lib Parler.Protocol Parler.Hub Parler.Connector

/-! ## The program -/

def LoopAdapter.host : LoopAdapter → ConversationHost
  | .codex => .codex
  | .opencode => .opencode

/-- What a start asks besides: the files of the backlog, and a turn of the host with a prompt. -/
inductive StartAsk where
  | materialize (messages : List StoredMessage)
  /-- `run_bootstrap_turn` of Codex and `add_context` of OpenCode; it may fail. -/
  | catchUp (prompt : String)

def StartAsk.Answer : StartAsk → Type
  | .materialize _ => List String
  | .catchUp _ => Option Unit

def startHost : Host := ⟨StartAsk, StartAsk.Answer⟩

/-- A call of `prepare_backlog`, made by the start. -/
def asStart : (op : ClientCall backlogHost) → Client startHost op.Res
  | .request frame => .call (ClientCall.request frame) .ret
  | .ask (.materialize messages) => .call (ClientCall.ask (.materialize messages)) .ret
  | .admitMessage message => .call (ClientCall.admitMessage message) .ret
  | .complete messages => .call (ClientCall.complete messages) .ret
  | .release messages => .call (ClientCall.release messages) .ret
  | .sign target parts replyTo => .call (ClientCall.sign target parts replyTo) .ret

/-- `enter_conversation` with the code of a key, for a number of requests while the owner has not approved. -/
def enterConversation (code : String) :
    Nat → MeshAgent → Client startHost (MeshAgent × Option (String × List StoredMessage))
  | 0, a => .ret (a, none)
  | tries + 1, a =>
      .call (ClientCall.request (.redeem code)) fun reply =>
        match (reply : Option ServerFrame) with
        | some (.joined room .channel) =>
            a.pull room none >>= fun pulled => .ret (pulled.1, pulled.2.map (fun initial => (room, initial)))
        | some (.joinPending _) => enterConversation code tries a
        | _ => .ret (a, none)

/-- The start of a run with a key. It comes to the room that it announces itself in, or ends with an error. -/
def startUp (F : FloatFormat) (verify : String → List UInt8 → String → Bool) (key : String) (tries : Nat)
    (adapter : LoopAdapter) : Client startHost (Option String) :=
  enterConversation (splitPortableKey key).1 tries .fresh >>= fun entered =>
    match entered.2 with
    | none => .ret none
    | some (room, initial) =>
        (prepareBacklog F verify room entered.1 initial false adapter.host).through asStart >>= fun prepared =>
          match prepared.2 with
          | .error _ => .ret none
          | .ok ⟨none, _⟩ => .ret (some room)
          | .ok ⟨some prompt, cursor⟩ =>
              .call (ClientCall.ask (.catchUp prompt)) fun taken =>
                match (taken : Option Unit), cursor with
                | some (), some cursor =>
                    prepared.1.commitThrough room cursor >>= fun committed =>
                      .ret (committed.2.map (fun _ => room))
                | _, _ => .ret none

/-! ## The start at the hub -/

/-- The hub, how often the others had a turn at it, and the prompts that the host was given, newest first. -/
structure Launch where
  joiner : Joiner
  prompts : List String

section Start

variable (cfg : HubConfig) (cardBytes : AgentCard → List UInt8) (fresh : Hub.Fresh) {rt : ConnectorRuntime}
  {room : String} (others : Others rt room) (files : List StoredMessage → List String) (takes : String → Bool)

/-- The others post before every request; the hub answers without errors, and the host takes a prompt or
    fails over it. -/
def Launch.answer : (op : ClientCall startHost) → Launch → op.Res × Launch
  | .request frame, l =>
      let (reply, joiner) := Joiner.answer cfg cardBytes fresh others files (.request frame) l.joiner
      (reply, { l with joiner := joiner })
  | .ask (.materialize messages), l => (files messages, l)
  | .ask (.catchUp prompt), l =>
      ((if takes prompt then some () else none : Option Unit), { l with prompts := prompt :: l.prompts })
  | .admitMessage _, l => (none, l)
  | .complete _, l => ((), l)
  | .release _, l => (none, l)
  | .sign .., l => (none, l)

/-- A start with a key, where nobody has been given a prompt. -/
def Launch.start (key : String) (tries : Nat) (adapter : LoopAdapter) (hub : HubState) : Option String × Launch :=
  drive (Launch.answer cfg cardBytes fresh others files takes) (startUp rt.floats rt.verify key tries adapter)
    ⟨⟨hub, 0⟩, []⟩

/-! ## A message that waits -/

/-- The message is unread and valid, and the agent is in its room. -/
structure Waiting (rt : ConnectorRuntime) (room : String) (floor : Int) (m : StoredMessage) (hub : HubState) :
    Prop where
  member : hub.store.isMember room rt.me.id = true
  order : SeqOrder hub.store
  positive : 0 ≤ floor
  cursor : hub.store.getCursor room rt.me.id = floor
  unread : m ∈ hub.store.backlog room floor
  valid : validInConversation rt.floats rt.verify m room = true

/-- The code of the key is of the room, if it is of any. -/
def OpensRoom (room key : String) (hub : HubState) : Prop :=
  ∀ inv, hub.store.invites.find? (fun r => r.code = normalizeCode (splitPortableKey key).1) = some inv →
    inv.room = room

/-- The code of the key opens no conversation. -/
def OpensNothing (key : String) (hub : HubState) : Prop :=
  ∀ inv, hub.store.invites.find? (fun r => r.code = normalizeCode (splitPortableKey key).1) = some inv →
    inv.kind ≠ .channel

/-- What keeps a start from its prompt: the key, or a backlog that is too long or that cannot be shown. -/
def Blocked (rt : ConnectorRuntime) (room key : String) (floor : Int) (hub : HubState) : Prop :=
  OpensNothing key hub ∨ maxBacklogMessages < (hub.store.backlog room floor).length ∨
    ¬ Presentable rt room (hub.store.backlog room floor)

variable (rt room) in
/-- The messages in a room's conversation that are valid. -/
def validOnes (messages : List StoredMessage) : List StoredMessage :=
  messages.filter (fun m => validInConversation rt.floats rt.verify m room)

variable (rt room) in
/-- A prompt with the newest valid messages of what was read: what was unread at the start, and what came meanwhile.
    It has the renderings of all of them, if they fit. -/
def CatchesUp (adapter : LoopAdapter) (unread after : List StoredMessage) (prompt : String) : Prop :=
  ∃ read kept, unread <+: read ∧ read <+: after ∧
    Newest (BacklogWindow.renderedChars rt.floats rt.verify) maxContextChars (validOnes rt room read) kept ∧
    prompt = catchupPrompt rt.floats rt.verify room kept (files kept) adapter.host ∧
    ((renderedBacklog rt.floats rt.verify (validOnes rt room read)).toList.length ≤
        contextBudget room (files (validOnes rt room read)) adapter.host →
      ∀ m ∈ validOnes rt room read, (renderMessage rt.floats rt.verify m).toList <:+: prompt.toList)

/-- How a start goes where a message waits. -/
inductive Restarted (key : String) (adapter : LoopAdapter) (floor : Int) (m : StoredMessage) (s : Joiner) :
    Option String → Launch → Prop where
  /-- It does not come to a prompt, and the message still waits. -/
  | failed {l : Launch} (silent : l.prompts = []) (blocked : Blocked rt room key floor l.joiner.hub)
      (waits : Waiting rt room floor m l.joiner.hub) (passes : s.Passes others l.joiner) :
      Restarted key adapter floor m s none l
  /-- The host fails over the prompt, and the message still waits. -/
  | refused {l : Launch} {prompt : String} (given : l.prompts = [prompt])
      (shown : CatchesUp rt room files adapter (s.hub.store.backlog room floor)
        (l.joiner.hub.store.backlog room floor) prompt) (fails : takes prompt = false)
      (waits : Waiting rt room floor m l.joiner.hub) (passes : s.Passes others l.joiner) :
      Restarted key adapter floor m s none l
  /-- The host takes the prompt, and the cursor goes past the message. -/
  | caught {l : Launch} {prompt : String} (given : l.prompts = [prompt])
      (shown : CatchesUp rt room files adapter (s.hub.store.backlog room floor)
        (l.joiner.hub.store.backlog room floor) prompt) (took : takes prompt = true)
      (moved : m.seq ≤ l.joiner.hub.store.getCursor room rt.me.id) (along : s.Along others floor l.joiner) :
      Restarted key adapter floor m s (some room) l

end Start

/-! ## The prompt -/

section Prompt

variable {F : FloatFormat} {verify : String → List UInt8 → String → Bool}

theorem renderedBacklog_cons {m : StoredMessage} {rest : List StoredMessage} (more : rest ≠ []) :
    renderedBacklog F verify (m :: rest) = renderMessage F verify m ++ "\n" ++ renderedBacklog F verify rest := by
  rw [renderedBacklog, List.map_cons, String.intercalate_cons_of_ne_nil (by simpa using more)]
  rfl

theorem renderMessage_inside {m : StoredMessage} {messages : List StoredMessage} (member : m ∈ messages) :
    (renderMessage F verify m).toList <:+: (renderedBacklog F verify messages).toList := by
  induction messages with
  | nil => cases member
  | cons first rest ih =>
    by_cases more : rest = []
    · subst more
      rw [List.mem_singleton.mp member, renderedBacklog, List.map_singleton, String.intercalate_singleton]
    · rw [renderedBacklog_cons more, String.toList_append, String.toList_append, List.append_assoc]
      rcases List.mem_cons.mp member with rfl | later
      · exact (List.prefix_append _ _).isInfix
      · exact (ih later).trans (List.suffix_append_of_suffix (List.suffix_append _ _)).isInfix

/-- A rendering weighs as much as its line. -/
theorem load_renderedChars {messages : List StoredMessage} (some_message : messages ≠ []) :
    load (BacklogWindow.renderedChars F verify) messages = (renderedBacklog F verify messages).toList.length + 1 := by
  induction messages with
  | nil => exact absurd rfl some_message
  | cons first rest ih =>
    by_cases more : rest = []
    · subst more
      rw [renderedBacklog, List.map_singleton, String.intercalate_singleton]
      rfl
    · rw [load_cons, ih more, renderedBacklog_cons more, String.toList_append, String.toList_append,
        List.length_append, List.length_append, BacklogWindow.renderedChars]
      have newline : "\n".toList.length = 1 := rfl
      omega

theorem contextBudget_lt (room : String) (files : List String) (host : ConversationHost) :
    contextBudget room files host < maxContextChars := by
  have closing : 0 < catchupClosing.toList.length := by decide
  have most : host.catchupPromptChars ≤ maxContextChars := by cases host <;> decide
  have some_char : 0 < maxContextChars := by decide
  rw [contextBudget, fixedChars]
  omega

/-- The prompt of the newest valid messages has them all where they fit. -/
theorem catchesUp_of_newest {rt : ConnectorRuntime} {room : String} {files : List StoredMessage → List String}
    {adapter : LoopAdapter} {unread read after kept : List StoredMessage} (all : unread <+: read)
    (there : read <+: after) (newest : Newest (BacklogWindow.renderedChars rt.floats rt.verify) maxContextChars
      (validOnes rt room read) kept) :
    CatchesUp rt room files adapter unread after
      (catchupPrompt rt.floats rt.verify room kept (files kept) adapter.host) := by
  refine ⟨read, kept, all, there, newest, rfl, ?_⟩
  intro fits m trusted
  have whole : kept = validOnes rt room read := by
    refine newest.suffix.eq_of_length (le_antisymm newest.suffix.length_le (not_lt.mp ?_))
    intro fewer
    have heavy := newest.longest _ (List.suffix_refl _) fewer
    rw [load_renderedChars (List.ne_nil_of_mem trusted)] at heavy
    have light := fits.trans_lt (contextBudget_lt _ _ _)
    omega
  rw [← whole] at fits trusted
  have context : catchupContext rt.floats rt.verify room kept (files kept) adapter.host =
      renderedBacklog rt.floats rt.verify kept := (clipTail_spec _ _).1 fits
  have parts : (catchupPrompt rt.floats rt.verify room kept (files kept) adapter.host).toList =
      (catchupPrefix room adapter.host).toList ++ (renderedBacklog rt.floats rt.verify kept).toList ++
        (catchupClosing.toList ++ (catchupFiles room (files kept) adapter.host).toList) := by
    rw [← context, catchupPrompt, String.toList_append, String.toList_append, String.toList_append,
      List.append_assoc _ catchupClosing.toList]
  rw [parts]
  exact (renderMessage_inside trusted).trans (List.infix_append _ _ _)

end Prompt

/-! ## A start, step by step -/

section Run

variable (cfg : HubConfig) (cardBytes : AgentCard → List UInt8) (fresh : Hub.Fresh) {rt : ConnectorRuntime}
  {room key : String} (others : Others rt room) (files : List StoredMessage → List String) (takes : String → Bool)
  {floor : Int} {m : StoredMessage} {s : Joiner}

theorem Waiting.act {hub : HubState} (waits : Waiting rt room floor m hub) (n : Nat) :
    Waiting rt room floor m (others.act n hub) :=
  ⟨others.member n hub waits.member, others.order n hub waits.order, waits.positive,
    (others.cursor n hub).trans waits.cursor, (others.posts n hub floor).subset waits.unread, waits.valid⟩

variable {others} in
theorem Waiting.passes {s' : Joiner} (waits : Waiting rt room floor m s.hub) (passes : s.Passes others s') :
    Waiting rt room floor m s'.hub := passes _ (fun n _ waits => waits.act others n) waits

/-- A message that waits is past the cursor. -/
theorem Waiting.past {hub : HubState} (waits : Waiting rt room floor m hub) : floor < m.seq := by
  obtain ⟨r, kept, rfl⟩ := List.mem_map.mp waits.unread
  exact (of_decide_eq_true (List.mem_filter.mp kept).2).2

theorem Launch.answer_asStart (op : ClientCall backlogHost) (prompts : List String) (s : Joiner) :
    drive (Launch.answer cfg cardBytes fresh others files takes) (asStart op) ⟨s, prompts⟩ =
      ((Joiner.answer cfg cardBytes fresh others files op s).1,
        ⟨(Joiner.answer cfg cardBytes fresh others files op s).2, prompts⟩) := by
  cases op with
  | ask question =>
    cases question
    rfl
  | _ => rfl

theorem Launch.answer_request {frame : ClientFrame} {reply : Option ServerFrame} {joiner : Joiner}
    {prompts : List String}
    (answered : Joiner.answer cfg cardBytes fresh others files (.request frame) s = (reply, joiner)) :
    Launch.answer cfg cardBytes fresh others files takes (.request frame) ⟨s, prompts⟩ =
      (reply, ⟨joiner, prompts⟩) := by
  simp only [Launch.answer, answered]
  rfl

/-- `prepare_backlog` runs as it does alone. -/
theorem Launch.drive_prepare {α : Type} {p : Client backlogHost α} {value : α} {joiner : Joiner}
    {prompts : List String} (ran : drive (Joiner.answer cfg cardBytes fresh others files) p s = (value, joiner)) :
    drive (Launch.answer cfg cardBytes fresh others files takes) (p.through asStart) ⟨s, prompts⟩ =
      (value, ⟨joiner, prompts⟩) := by
  have alone := drive_through
    (fun op s => Launch.answer_asStart cfg cardBytes fresh others files takes op prompts s) p s
  rw [ran] at alone
  exact alone

/-- The code of a room that the agent is in lets it in again. -/
theorem redeem_member (me : Authed) {h : HubState} {code : String} {inv : InviteRow}
    (found : h.store.invites.find? (fun r => r.code = normalizeCode code) = some inv)
    (member : h.store.isMember inv.room me.id = true) :
    (handleFrame cfg me fresh cardBytes (.redeem code)).prog.run h = (.ok (.joined inv.room inv.kind), h) := by
  show (handleRedeem cfg me code).prog.run h = _
  simp [handleRedeem, Handler.call, Handler.check, Handler.andThen, hubMachine, HubCall.exec,
    HubState.tryStoreWith, Store.redeemInvite, found, member, Bind.bind, Pure.pure, Prog.bind, Prog.run]

theorem redeem_unknown {h : HubState} {me : Authed} {code : String}
    (unknown : h.store.invites.find? (fun r => r.code = normalizeCode code) = none) :
    (handleFrame cfg me fresh cardBytes (.redeem code)).prog.run h =
      (.error (.plain "invalid or unknown invite code"), h) := by
  show (handleRedeem cfg me code).prog.run h = _
  simp [handleRedeem, Handler.call, Handler.check, Handler.andThen, hubMachine, HubCall.exec,
    HubState.tryStoreWith, Store.redeemInvite, unknown, Bind.bind, Pure.pure, Prog.bind, Prog.run]

variable {files} {takes} in
theorem Launch.answer_ok {frame : ClientFrame} {reply : ServerFrame} {hub : HubState} (prompts : List String)
    (ran : (handleFrame cfg rt.me fresh cardBytes frame).prog.run (others.act s.turns s.hub) = (.ok reply, hub)) :
    Launch.answer cfg cardBytes fresh others files takes (.request frame) ⟨s, prompts⟩ =
      (some reply, ⟨⟨hub, s.turns + 1⟩, prompts⟩) :=
  Launch.answer_request cfg cardBytes fresh others files takes
    (Joiner.answer_request cfg cardBytes fresh others files ran)

variable {files} {takes} in
theorem Launch.answer_refused {frame : ClientFrame} {failure : Failure} {hub : HubState} (prompts : List String)
    (ran : (handleFrame cfg rt.me fresh cardBytes frame).prog.run (others.act s.turns s.hub) =
      (.error failure, hub)) :
    Launch.answer cfg cardBytes fresh others files takes (.request frame) ⟨s, prompts⟩ =
      (none, ⟨⟨hub, s.turns + 1⟩, prompts⟩) := by
  refine Launch.answer_request cfg cardBytes fresh others files takes ?_
  simp only [Joiner.answer, ran]
  rfl

/-- What an agent in the room pulls first. -/
theorem firstPull_run (waits : Waiting rt room floor m s.hub) (prompts : List String) :
    ∃ a s', drive (Launch.answer cfg cardBytes fresh others files takes) (MeshAgent.fresh.pull room none)
        ⟨s, prompts⟩ = ((a, some ((s'.hub.store.backlog room floor).take (Store.pullLimit none))), ⟨s', prompts⟩) ∧
      s.Passes others s' ∧ a.committed room = 0 := by
  have there := waits.act others s.turns
  have ran := handlePull_run cfg cardBytes fresh there.member none 0
  rw [there.order.readBacklog_eq, there.cursor, max_eq_left waits.positive,
    if_neg (not_lt.mpr waits.positive)] at ran
  have pulled := drive_call (@Launch.answer_ok cfg cardBytes fresh rt room others files takes s _ _ _ prompts ran)
    (fun reply => (.ret (MeshAgent.fresh.pulled room reply) : Client startHost _))
  exact ⟨_, ⟨others.act s.turns s.hub, s.turns + 1⟩, pulled, fun P kept here => kept _ _ here, rfl⟩

/-- The key opens no conversation, or the first page of the backlog comes. -/
theorem enterConversation_run (waits : Waiting rt room floor m s.hub) (opens : OpensRoom room key s.hub)
    (kept : ∀ n hub, OpensRoom room key hub → OpensRoom room key (others.act n hub)) (tries : Nat) :
    ∃ a entered s', drive (Launch.answer cfg cardBytes fresh others files takes)
        (enterConversation (splitPortableKey key).1 (tries + 1) .fresh) ⟨s, []⟩ = ((a, entered), ⟨s', []⟩) ∧
      s.Passes others s' ∧ a.committed room = 0 ∧
      (entered = none ∧ OpensNothing key s'.hub ∨
        ∃ initial, entered = some (room, initial) ∧ Pushed rt room floor initial s' ∧
          initial.length ≤ maxBacklogMessages) := by
  have there := waits.act others s.turns
  have opens' := kept s.turns s.hub opens
  cases found : (others.act s.turns s.hub).store.invites.find?
      (fun r => r.code = normalizeCode (splitPortableKey key).1) with
  | none =>
    refine ⟨_, none, _, drive_call (Launch.answer_refused cfg cardBytes fresh others []
      (redeem_unknown cfg cardBytes fresh found)) _, fun P kept here => kept _ _ here, rfl, Or.inl ⟨rfl, ?_⟩⟩
    intro inv is
    rw [found] at is
    cases is
  | some inv =>
    have here := opens' inv found
    have ran := redeem_member cfg cardBytes fresh rt.me found (by rw [here]; exact there.member)
    rw [here] at ran
    by_cases channel : inv.kind = .channel
    · rw [channel] at ran
      obtain ⟨a, s', pulled, passes, uncommitted⟩ := firstPull_run cfg cardBytes fresh others files takes
        (s := ⟨others.act s.turns s.hub, s.turns + 1⟩) there []
      have waits' : Waiting rt room floor m s'.hub := there.passes passes
      refine ⟨a, some (room, (s'.hub.store.backlog room floor).take (Store.pullLimit none)), s',
        (drive_call (Launch.answer_ok cfg cardBytes fresh others [] ran) _).trans ?_,
        fun P keeps now => passes P keeps (keeps _ _ now), uncommitted, Or.inr ⟨_, rfl, ?_, ?_⟩⟩
      · show drive _ (MeshAgent.fresh.pull room none >>= _) _ = _
        rw [drive_bind, pulled]
        rfl
      · refine ⟨waits'.member, waits'.order, ?_, List.take_prefix _ _⟩
        have some_unread := List.ne_nil_of_mem waits'.unread
        have some_page : Store.pullLimit none ≠ 0 := by decide
        simpa [some_page] using some_unread
      · rw [List.length_take]
        exact (Nat.min_le_left _ _).trans (by decide)
    · refine ⟨.fresh, none, ⟨others.act s.turns s.hub, s.turns + 1⟩,
        (drive_call (Launch.answer_ok cfg cardBytes fresh others [] ran) _).trans ?_,
        fun P kept here => kept _ _ here, rfl, Or.inl ⟨rfl, ?_⟩⟩
      · cases kind : inv.kind with
        | channel => exact absurd kind channel
        | _ => rfl
      · intro inv' is
        rw [found] at is
        cases is
        exact channel

/-- A commit past what an agent has committed moves the cursor. -/
theorem commitThrough_run (waits : Waiting rt room floor m s.hub) {a : MeshAgent} (uncommitted : a.committed room = 0)
    {cursor : Int} (past : floor < cursor) (prompts : List String) :
    ∃ a' s', drive (Launch.answer cfg cardBytes fresh others files takes) (a.commitThrough room cursor)
        ⟨s, prompts⟩ = ((a', some ()), ⟨s', prompts⟩) ∧
      s'.hub.store.getCursor room rt.me.id = cursor ∧ ∀ floor, s.Along others floor s' := by
  have there := waits.act others s.turns
  have unskipped : ¬ a.commitSkips room cursor = true := by
    have positive := waits.positive
    rw [MeshAgent.commitSkips, uncommitted, Bool.or_eq_true, decide_eq_true_eq]
    omega
  have ran := handlePull_run cfg cardBytes fresh there.member (some 0) cursor
  rw [there.cursor, if_pos past] at ran
  refine ⟨a.recordCommit room cursor,
    ⟨{ others.act s.turns s.hub with store := (others.act s.turns s.hub).store.setCursor room rt.me.id cursor },
      s.turns + 1⟩, ?_, Store.getCursor_setCursor there.member cursor, fun _ => .request rfl⟩
  unfold MeshAgent.commitThrough
  rw [if_neg unskipped]
  exact drive_call (Launch.answer_ok cfg cardBytes fresh others prompts ran) _

/-- The beginning of an increasing list up to a position. -/
theorem filter_le_initial {l : List StoredMessage} (increasing : l.Pairwise (fun a b => a.seq < b.seq))
    (cursor : Int) : l.filter (fun m => m.seq ≤ cursor) <+: l := by
  induction l with
  | nil => exact List.prefix_refl _
  | cons first rest ih =>
    obtain ⟨below, sorted⟩ := List.pairwise_cons.mp increasing
    by_cases early : first.seq ≤ cursor
    · rw [List.filter_cons_of_pos (by simpa using early)]
      exact (List.prefix_cons_inj first).mpr (ih sorted)
    · have none_left : (first :: rest).filter (fun m => m.seq ≤ cursor) = [] := by
        rw [List.filter_eq_nil_iff]
        intro m member
        rcases List.mem_cons.mp member with rfl | later
        · simpa using early
        · have above := below m later
          simp only [decide_eq_true_eq]
          omega
      rw [none_left]
      exact List.nil_prefix

/-- A start at a hub where a message waits. -/
theorem startUp_restarted (waits : Waiting rt room floor m s.hub) (opens : OpensRoom room key s.hub)
    (kept : ∀ n hub, OpensRoom room key hub → OpensRoom room key (others.act n hub)) (tries : Nat)
    (adapter : LoopAdapter) :
    ∃ outcome l, drive (Launch.answer cfg cardBytes fresh others files takes)
        (startUp rt.floats rt.verify key (tries + 1) adapter) ⟨s, []⟩ = (outcome, l) ∧
      Restarted others files takes key adapter floor m s outcome l := by
  obtain ⟨a, entered, s₁, enters, passes, uncommitted, opened⟩ :=
    enterConversation_run cfg cardBytes fresh others files takes waits opens kept tries
  have waits₁ := waits.passes passes
  rw [startUp, drive_bind, enters]
  rcases opened with ⟨rfl, nothing⟩ | ⟨initial, rfl, here, few⟩
  · exact ⟨_, _, rfl, .failed rfl (Or.inl nothing) waits₁ passes⟩
  · dsimp only
    obtain ⟨outcome, a₂, s₂, prepares, -, along, untouched, result⟩ :=
      prepareBacklog_run cfg cardBytes fresh others files a adapter.host here waits.positive few
    rw [drive_bind, Launch.drive_prepare cfg cardBytes fresh others files takes prepares]
    rcases result with ⟨pushed, w, -, all, -, read, sorted, holds, rfl⟩ | ⟨rfl, long⟩ | ⟨rfl, hidden⟩
    · -- the message is among what was read
      have unread : s.hub.store.backlog room floor <+: pushed := ((passes.along floor).grows).trans all
      have listed : m ∈ validOnes rt room pushed :=
        List.mem_filter.mpr ⟨unread.subset waits.unread, waits.valid⟩
      have prompted : w.intoMessages ≠ [] := holds.newest.some_left (List.ne_nil_of_mem listed)
      have prepared : preparedOf rt room files adapter.host w = ⟨some (catchupPrompt rt.floats rt.verify room
          w.intoMessages (files w.intoMessages) adapter.host), some w.cursor⟩ := if_neg prompted
      have still := untouched (by rw [prepared]; simp)
      obtain ⟨rfl, passes₂⟩ := still
      have waits₂ := waits₁.passes passes₂
      have early : m.seq ≤ w.cursor := by
        have member := List.mem_of_mem_filter listed
        rw [read] at member
        simpa using (List.mem_filter.mp member).2
      have shown : ∀ after, s₂.hub.store.backlog room floor <+: after →
          CatchesUp rt room files adapter (s.hub.store.backlog room floor) after
            (catchupPrompt rt.floats rt.verify room w.intoMessages (files w.intoMessages) adapter.host) := by
        intro after later
        refine catchesUp_of_newest unread ?_ holds.newest
        rw [read]
        exact (filter_le_initial (waits₂.order.backlog_increasing room floor) _).trans later
      rw [prepared]
      generalize catchupPrompt rt.floats rt.verify room w.intoMessages (files w.intoMessages) adapter.host = prompt
        at shown
      cases took : takes prompt with
      | false =>
        have answered : Launch.answer cfg cardBytes fresh others files takes (.ask (.catchUp prompt)) ⟨s₂, []⟩ =
            ((none : Option Unit), ⟨s₂, [prompt]⟩) := by
          simp only [Launch.answer, took]
          rfl
        exact ⟨_, _, drive_call answered _,
          .refused rfl (shown _ (List.prefix_refl _)) took waits₂ (passes.trans passes₂)⟩
      | true =>
        have answered : Launch.answer cfg cardBytes fresh others files takes (.ask (.catchUp prompt)) ⟨s₂, []⟩ =
            ((some () : Option Unit), ⟨s₂, [prompt]⟩) := by
          simp only [Launch.answer, took]
          rfl
        obtain ⟨a₃, s₃, commits, moved, along₃⟩ := commitThrough_run cfg cardBytes fresh others files takes waits₂
          uncommitted (waits.past.trans_le early) [prompt]
        refine ⟨some room, ⟨s₃, [prompt]⟩, (drive_call answered _).trans ?_,
          .caught rfl (shown _ (along₃ floor).grows) took (early.trans (le_of_eq moved.symm))
            (((passes.trans passes₂).along floor).trans (along₃ floor))⟩
        show drive _ (a₂.commitThrough room w.cursor >>= _) _ = _
        rw [drive_bind, commits]
        rfl
    · obtain ⟨-, passes₂⟩ := untouched nofun
      exact ⟨_, _, rfl, .failed rfl (Or.inr (Or.inl long)) (waits₁.passes passes₂) (passes.trans passes₂)⟩
    · obtain ⟨-, passes₂⟩ := untouched nofun
      exact ⟨_, _, rfl, .failed rfl (Or.inr (Or.inr hidden)) (waits₁.passes passes₂) (passes.trans passes₂)⟩

variable {cfg} {cardBytes} {fresh} {others} {files} {takes} in
/-- A start that nothing keeps from its prompt, with a host that takes it. -/
theorem Restarted.taken {adapter : LoopAdapter} {outcome : Option String} {l : Launch}
    (restarted : Restarted others files takes key adapter floor m s outcome l)
    (free : ∀ s', s.Passes others s' → ¬ Blocked rt room key floor s'.hub) (all : ∀ prompt, takes prompt = true) :
    ∃ prompt, outcome = some room ∧ l.prompts = [prompt] ∧
      CatchesUp rt room files adapter (s.hub.store.backlog room floor) (l.joiner.hub.store.backlog room floor)
        prompt ∧
      m.seq ≤ l.joiner.hub.store.getCursor room rt.me.id ∧ s.Along others floor l.joiner := by
  cases restarted with
  | failed silent blocked waits passes => exact absurd blocked (free _ passes)
  | refused given shown fails waits passes =>
    rw [all] at fails
    cases fails
  | caught given shown took moved along => exact ⟨_, rfl, given, shown, moved, along⟩

/-! ## A run and a later start -/

end Run

/-! ## Bob starts again -/

theorem quiet_passes {rt : ConnectorRuntime} {room : String} {s s' : Joiner}
    (passes : s.Passes (Others.quiet rt room) s') : s'.hub = s.hub :=
  passes (· = s.hub) (fun _ _ same => same) rfl

/-- What the others leave of a hub. -/
theorem Later.act {rt : ConnectorRuntime} {room : String} (others : Others rt room) {hub : HubState}
    (member : hub.store.isMember room rt.me.id = true) (order : SeqOrder hub.store) (n : Nat) :
    Later rt room hub (others.act n hub) :=
  ⟨others.member n hub member, others.order n hub order, others.cursor n hub, fun cursor => others.posts n hub cursor⟩

theorem Later.refl {rt : ConnectorRuntime} {room : String} {hub : HubState}
    (member : hub.store.isMember room rt.me.id = true) (order : SeqOrder hub.store) : Later rt room hub hub :=
  .act (Others.quiet rt room) member order 0

/-- Bob starts again with the key of the room, and his host takes the prompt. -/
def bobStarts (hub : HubState) : Option String × Launch :=
  Launch.start demoConfig (fun _ => []) (demoFresh 0) (Others.quiet busyBob "r") (fun _ => []) (fun _ => true) "c0" 1
    .codex hub

/-- The key of a hub opens the room `r`. -/
def Keyed (hub : HubState) : Prop :=
  (hub.store.invites.find? (fun r => r.code = normalizeCode (splitPortableKey "c0").1)).map
    (fun inv => (inv.room, inv.kind)) = some ("r", .channel)

instance (hub : HubState) : Decidable (Keyed hub) := inferInstanceAs (Decidable (_ = _))

theorem Keyed.opens {hub : HubState} (keyed : Keyed hub) : OpensRoom "r" "c0" hub ∧ ¬ OpensNothing "c0" hub := by
  obtain ⟨inv, found, is⟩ := Option.map_eq_some_iff.mp keyed
  obtain ⟨room, kind⟩ := Prod.mk.inj is
  refine ⟨fun inv' found' => ?_, fun nothing => nothing inv found kind⟩
  rw [found] at found'
  cases found'
  exact room

theorem greeting_plain : ∀ m ∈ [heldHello, heldHandoff], ∀ p ∈ m.parts, TipShortens p := by
  have shown : ∀ m ∈ [heldHello, heldHandoff], ∀ p ∈ m.parts, BundleRef.fromPart p = none := by decide +kernel
  intro m member p part b is_bundle
  rw [shown m member p part] at is_bundle
  cases is_bundle

theorem quit_hub : quit.desk.hub.store.isMember "r" busyBob.me.id = true ∧ SeqOrder quit.desk.hub.store ∧
    Keyed quit.desk.hub ∧ quit.desk.hub.store.backlog "r" 0 = [heldHello, heldHandoff] ∧
    quit.desk.hub.store.messageSeq = 2 ∧ quit.desk.hub.store.messages.map MessageRow.id = ["m2", "m3"] := by
  decide +kernel

/-- A start of Bob's that nothing keeps from its prompt. -/
theorem Restarted.bob {hub : HubState} {outcome : Option String} {l : Launch}
    (restarted : Restarted (Others.quiet busyBob "r") (fun _ => []) (fun _ => true) "c0" .codex 0 heldHello ⟨hub, 0⟩
      outcome l) (keyed : Keyed hub) (few : (hub.store.backlog "r" 0).length ≤ maxBacklogMessages)
    (plain : ∀ m ∈ hub.store.backlog "r" 0, ∀ p ∈ m.parts, TipShortens p) :
    outcome = some "r" ∧ heldHello.seq ≤ l.joiner.hub.store.getCursor "r" busyBob.me.id ∧
      ∃ prompt, l.prompts = [prompt] ∧ ∃ kept, Newest (BacklogWindow.renderedChars busyBob.floats busyBob.verify)
          maxContextChars (validOnes busyBob "r" (hub.store.backlog "r" 0)) kept ∧
        prompt = catchupPrompt busyBob.floats busyBob.verify "r" kept [] .codex ∧
        ((renderedBacklog busyBob.floats busyBob.verify
            (validOnes busyBob "r" (hub.store.backlog "r" 0))).toList.length ≤ contextBudget "r" [] .codex →
          ∀ m ∈ validOnes busyBob "r" (hub.store.backlog "r" 0),
            (renderMessage busyBob.floats busyBob.verify m).toList <:+: prompt.toList) := by
  have free : ∀ s', (Joiner.mk hub 0).Passes (Others.quiet busyBob "r") s' →
      ¬ Blocked busyBob "r" "c0" 0 s'.hub := by
    intro s' passes
    rw [quiet_passes passes]
    rintro (nothing | long | hidden)
    · exact keyed.opens.2 nothing
    · exact absurd few (not_le.mpr long)
    · exact hidden (fun m member _ => plain m member)
  obtain ⟨prompt, rfl, given, ⟨read, kept, all, there, newest, is, whole⟩, moved, along⟩ :=
    restarted.taken free (fun _ => rfl)
  have same : l.joiner.hub.store.backlog "r" 0 = hub.store.backlog "r" 0 :=
    along (· = hub.store.backlog "r" 0) (fun _ _ same => same) rfl
  have within : read <+: hub.store.backlog "r" 0 := by
    rw [← same]
    exact there
  obtain rfl : read = hub.store.backlog "r" 0 :=
    within.eq_of_length (le_antisymm within.length_le all.length_le)
  exact ⟨rfl, moved, prompt, given, kept, newest, is, whole⟩

theorem catchupFiles_nil (room : String) (host : ConversationHost) : catchupFiles room [] host = "" := by
  simp only [catchupFiles, if_true]
  split_ifs
  · rfl
  · exact if_pos (by simp)

/-- The fixed texts of Bob's prompt. -/
theorem bobPrompt_fixed : '1' ∉ (catchupPrefix "r" .codex).toList ++ catchupClosing.toList ∧
    (catchupFiles "r" [] .codex).toList = [] ∧ 15000 ≤ contextBudget "r" [] .codex := by
  obtain ⟨front, back, is_front, is_back, absent, short⟩ : ∃ front back, (catchupPrefix "r" .codex).toList = front ∧
      catchupClosing.toList = back ∧ '1' ∉ front ++ back ∧ front.length + back.length ≤ 9000 := by
    unfold catchupPrefix catchupOpening catchupInstructions startLine catchupClosing ConversationHost.display
    exact ⟨_, _, toList_append_of (toList_append_of (toList_append_of String.toList_ofList String.toList_ofList)
      (toList_append_of (toList_append_of (toList_append_of (toList_append_of (toList_append_of
        String.toList_ofList String.toList_ofList) String.toList_ofList) String.toList_ofList)
          String.toList_ofList) String.toList_ofList)) String.toList_ofList, String.toList_ofList,
      by decide +kernel, by decide +kernel⟩
  have no_files : (catchupFiles "r" [] .codex).toList = [] := by
    rw [catchupFiles_nil]
    rfl
  have most : ConversationHost.codex.catchupPromptChars = 24000 := rfl
  rw [contextBudget, fixedChars, is_front, is_back, no_files, most]
  refine ⟨absent, rfl, ?_⟩
  rw [List.length_nil]
  omega

/-- A new message is the last one of its room's backlog. -/
theorem append_backlog_new (cfg : HubConfig) {hub : HubState} {m : NewMessage} {floor : Int}
    (unnamed : m.clientId = none) (new : m.id ∉ hub.store.messages.map MessageRow.id)
    (past : floor < hub.store.messageSeq + 1) :
    ((HubCall.appendMessage m).exec cfg hub).2.store.backlog m.room floor =
      hub.store.backlog m.room floor ++ [(m.toRow (hub.store.messageSeq + 1)).toStored] := by
  have absent : ¬ ∃ r ∈ hub.store.messages, r.id = m.id := by
    rintro ⟨r, member, same⟩
    exact new (same ▸ List.mem_map_of_mem member)
  have appended : hub.store.appendMessage m =
      .ok (⟨m.id, hub.store.messageSeq + 1, estimateMessageTokens m.parts, false⟩,
        (hub.store.insertMessage m).insertDispatches m.room m.id (hub.store.messageSeq + 1) m.roles) := by
    simp [Store.appendMessage, Store.original, unnamed, absent]
  obtain ⟨rows, inserted⟩ := Store.insertDispatches_eq (s := hub.store.insertMessage m) m.room m.id
    (hub.store.messageSeq + 1) m.roles
  rw [HubCall.exec, appended, inserted]
  show ((hub.store.messages ++ [m.toRow (hub.store.messageSeq + 1)]).filter _).map _ = _
  rw [List.filter_append, List.map_append]
  refine congrArg (_ ++ ·) ?_
  rw [List.filter_cons_of_pos]
  · rfl
  · rw [decide_eq_true_eq]
    exact ⟨rfl, past⟩

/-- Alice writes more than a prompt has room for. -/
def flood : NewMessage :=
  ⟨"long", "r", ⟨"A", "alice", none⟩, [.text (String.ofList (List.replicate maxContextChars 'x')), signedPart "w"],
    none, none, none, 1⟩

def flooding : StoredMessage := (flood.toRow 3).toStored

def flooded (hub : HubState) : HubState := ((HubCall.appendMessage flood).exec demoConfig hub).2

theorem flooded_backlog {hub : HubState} (backlog : hub.store.backlog "r" 0 = [heldHello, heldHandoff])
    (seq : hub.store.messageSeq = 2) (ids : hub.store.messages.map MessageRow.id = ["m2", "m3"]) :
    (flooded hub).store.backlog "r" 0 = [heldHello, heldHandoff, flooding] := by
  have grown := @append_backlog_new demoConfig hub flood 0 rfl (by rw [ids]; decide) (by rw [seq]; decide)
  rw [seq, show flood.room = "r" from rfl, backlog] at grown
  exact grown

theorem Keyed.flooded {hub : HubState} (keyed : Keyed hub) : Keyed (flooded hub) := by
  have same : (Cli.flooded hub).store.invites = hub.store.invites :=
    exec_same demoConfig (.appendMessage flood) hub .invites (by simp [HubCall.writes])
  unfold Keyed
  rw [same]
  exact keyed

theorem renderParts_signed (F : FloatFormat) (text uid : String) :
    renderParts F [.text text, signedPart uid] = text := by
  simp [renderParts, renderPart, signedPart, isMessageSigPart, MessageSig.toPart, BundleRef.fromPart,
    FileRef.fromPart, HandoffRef.fromPart, TaskRef.fromPart]

/-- The greeting's number is not in the rendering of the long message. -/
theorem flooding_rendered : '1' ∉ (renderedBacklog busyBob.floats busyBob.verify [flooding]).toList := by
  have body : renderParts busyBob.floats flooding.parts = String.ofList (List.replicate maxContextChars 'x') :=
    renderParts_signed _ _ _
  have head : '1' ∉ (messageHead busyBob.floats busyBob.verify flooding).toList := by decide +kernel
  have rendered : renderMessage busyBob.floats busyBob.verify flooding =
      messageHead busyBob.floats busyBob.verify flooding ++ renderParts busyBob.floats flooding.parts := rfl
  rw [renderedBacklog, List.map_singleton, String.intercalate_singleton, rendered, body, String.toList_append,
    String.toList_ofList, List.mem_append, not_or]
  refine ⟨head, fun member => ?_⟩
  exact absurd (List.eq_of_mem_replicate member) (by decide)

/-- The long message leaves no room for another one. -/
theorem flooding_newest {messages kept : List StoredMessage}
    (newest : Newest (BacklogWindow.renderedChars busyBob.floats busyBob.verify) maxContextChars
      (messages ++ [flooding]) kept) : kept = [flooding] := by
  have body : renderParts busyBob.floats flooding.parts = String.ofList (List.replicate maxContextChars 'x') :=
    renderParts_signed _ _ _
  have heavy : maxContextChars < BacklogWindow.renderedChars busyBob.floats busyBob.verify flooding := by
    rw [BacklogWindow.renderedChars, renderMessage, body, String.toList_append, List.length_append,
      String.toList_ofList, List.length_replicate]
    omega
  have one : kept ≠ [] := newest.some_left (by simp)
  obtain ⟨front, last, rfl⟩ := (List.eq_nil_or_concat' kept).resolve_left one
  obtain ⟨before, split⟩ := newest.suffix
  rw [← List.append_assoc] at split
  obtain rfl : last = flooding := by simpa using (List.append_inj' split rfl).2
  rcases newest.fits with light | single
  · rw [load_append, load_cons] at light
    omega
  · rw [List.length_append, List.length_singleton, Nat.add_eq_right, List.length_eq_zero_iff] at single
    rw [single, List.nil_append]

end Parler.Cli
