import Parler.Cli.ConversationRetry
import Parler.Cli.Prompts
import Parler.Hub.Invites
import Parler.Lib.Newest

/-!
# The backlog of a joined conversation

`BacklogWindow` and `prepare_backlog` from `crates/parler-cli/src/conversation.rs`. The history of a room is
read page by page from the hub, which takes more messages meanwhile. The newest part of what is valid is
kept for the prompt, and the cursor is committed up to the last message that was read. A valid message that
cannot be rendered is a panic.
-/

namespace Parler.Connector.MeshAgent

open Parler.Protocol

/-- What a pull with a `since` does with its reply: it leaves the acks alone. -/
def pulledSince : Option ServerFrame → Option (List StoredMessage × Int)
  | some (.pulled _ messages cursor) => some (messages, cursor)
  | _ => none

end Parler.Connector.MeshAgent

namespace Parler.Cli

open Parler.Lib Parler.Protocol Parler.Hub Parler.Connector

/-! ## The window -/

structure BacklogWindow where
  messages : List (StoredMessage × Nat)
  retainedChars : Nat
  total : Nat
  rejected : Nat
  cursor : Int

namespace BacklogWindow

def new : BacklogWindow := ⟨[], 0, 0, 0, 0⟩

/-- The loop of `push`: the oldest messages go while there is too much, but never the last one. -/
def popFront : List (StoredMessage × Nat) → Nat → List (StoredMessage × Nat) × Nat
  | first :: second :: rest, retained =>
      if maxContextChars < retained then popFront (second :: rest) (retained - first.2)
      else (first :: second :: rest, retained)
  | messages, retained => (messages, retained)

variable (F : FloatFormat) (verify : String → List UInt8 → String → Bool)

def renderedChars (message : StoredMessage) : Nat := (renderMessage F verify message).toList.length + 1

/-- `push` of a message whose rendering does not panic. -/
def push (room : String) (w : BacklogWindow) (message : StoredMessage) : BacklogWindow :=
  let w := { w with total := w.total + 1, cursor := max w.cursor message.seq }
  if !validInConversation F verify message room then { w with rejected := w.rejected + 1 }
  else
    let chars := renderedChars F verify message
    let (messages, retained) := popFront (w.messages ++ [(message, chars)]) (w.retainedChars + chars)
    { w with messages := messages, retainedChars := retained }

def pushAll (room : String) (w : BacklogWindow) (messages : List StoredMessage) : BacklogWindow :=
  messages.foldl (push F verify room) w

/-- `push`, which renders what it does not reject. -/
def tryPush (room : String) (w : BacklogWindow) (m : StoredMessage) : Option BacklogWindow :=
  if validInConversation F verify m room then
    (tryRenderMessage F verify m).map (fun _ => w.push F verify room m)
  else some (w.push F verify room m)

def tryPushAll (room : String) (w : BacklogWindow) (messages : List StoredMessage) : Option BacklogWindow :=
  messages.foldlM (tryPush F verify room) w

def intoMessages (w : BacklogWindow) : List StoredMessage := w.messages.map Prod.fst

end BacklogWindow

/-! ## The program -/

/-- `MAX_BACKLOG_MESSAGES` -/
def maxBacklogMessages : Nat := 10000

/-- `BACKLOG_PAGE_SIZE` -/
def backlogPageSize : Nat := 1000

/-- The files of the messages that are shown are fetched in between; the paths come back. -/
inductive BacklogAsk where
  | materialize (messages : List StoredMessage)

def backlogHost : Host where
  Ask := BacklogAsk
  Answer _ := List String

/-- A request failed, the program gives up, or it panics. -/
inductive BacklogError where
  | request
  | bail (text : String)
  | panicked
  deriving DecidableEq

def notAdvanced (cursor : Int) : String :=
  "conversation backlog pagination did not advance past cursor " ++ toString cursor

def backlogExceeds : String :=
  "conversation backlog exceeds " ++ toString maxBacklogMessages ++
    " messages; start a fresh conversation or consolidate this one before joining"

structure PreparedBacklog where
  prompt : Option String
  commitCursor : Option Int
  deriving DecidableEq

section Program

variable (F : FloatFormat) (verify : String → List UInt8 → String → Bool) (room : String)

theorem BacklogWindow.total_push (w : BacklogWindow) (message : StoredMessage) :
    (w.push F verify room message).total = w.total + 1 := by
  simp only [push]
  split_ifs <;> rfl

theorem BacklogWindow.total_pushAll (w : BacklogWindow) (messages : List StoredMessage) :
    (w.pushAll F verify room messages).total = w.total + messages.length := by
  induction messages generalizing w with
  | nil => rfl
  | cons message rest ih =>
    have pushed : w.pushAll F verify room (message :: rest) =
        (w.push F verify room message).pushAll F verify room rest := rfl
    rw [pushed, ih, total_push, List.length_cons]
    omega

theorem BacklogWindow.tryPush_isSome {w : BacklogWindow} {m : StoredMessage} :
    (w.tryPush F verify room m).isSome ↔ (validInConversation F verify m room = true → Showable m) := by
  rw [tryPush]
  split_ifs with valid
  · rw [Option.isSome_map, tryRenderMessage_isSome]
    simp [valid]
  · simp [valid]

theorem BacklogWindow.tryPush_eq {w w' : BacklogWindow} {m : StoredMessage}
    (done : w.tryPush F verify room m = some w') : w' = w.push F verify room m := by
  rw [tryPush] at done
  split_ifs at done
  · obtain ⟨-, -, rfl⟩ := Option.map_eq_some_iff.mp done
    rfl
  · exact (Option.some.inj done).symm

theorem BacklogWindow.tryPushAll_isSome {w : BacklogWindow} {messages : List StoredMessage} :
    (w.tryPushAll F verify room messages).isSome ↔
      ∀ m ∈ messages, validInConversation F verify m room = true → Showable m := by
  induction messages generalizing w with
  | nil => simp [tryPushAll]
  | cons m messages ih =>
    rw [List.forall_mem_cons, ← tryPush_isSome (w := w), tryPushAll, List.foldlM_cons]
    cases w.tryPush F verify room m with
    | none => simp
    | some w' => simpa [tryPushAll] using ih

theorem BacklogWindow.tryPushAll_eq {w w' : BacklogWindow} {messages : List StoredMessage}
    (done : w.tryPushAll F verify room messages = some w') : w' = w.pushAll F verify room messages := by
  induction messages generalizing w with
  | nil => exact (Option.some.inj done).symm
  | cons m messages ih =>
    rw [tryPushAll, List.foldlM_cons] at done
    obtain ⟨next, first, rest⟩ := Option.bind_eq_some_iff.mp done
    rw [ih rest, tryPush_eq F verify room first]
    rfl

/-- The loop of `prepare_backlog`. -/
def readPages (backlog : BacklogWindow) : Client backlogHost (Except BacklogError BacklogWindow) :=
  let limit := min backlogPageSize (maxBacklogMessages + 1 - backlog.total)
  .call (ClientCall.request (.pull room (some backlog.cursor) (some limit) none none)) fun reply =>
    match MeshAgent.pulledSince reply with
    | none => .ret (.error .request)
    | some ([], _) => .ret (.ok backlog)
    | some (first :: rest, cursor) =>
        if cursor ≤ backlog.cursor then .ret (.error (.bail (notAdvanced backlog.cursor)))
        else
          match _ : backlog.tryPushAll F verify room (first :: rest) with
          | none => .ret (.error .panicked)
          | some pushed =>
              if maxBacklogMessages < pushed.total then .ret (.error (.bail backlogExceeds))
              else if (first :: rest).length < limit then .ret (.ok pushed)
              else readPages pushed
termination_by maxBacklogMessages + 1 - backlog.total
decreasing_by
  rename_i done fits _
  rw [BacklogWindow.tryPushAll_eq F verify room done, BacklogWindow.total_pushAll, List.length_cons] at fits ⊢
  omega

/-- What `prepare_backlog` does with the window. -/
def presentBacklog (a : MeshAgent) (host : ConversationHost) (backlog : BacklogWindow) :
    Client backlogHost (MeshAgent × Except BacklogError PreparedBacklog) :=
  let trusted := backlog.intoMessages
  if trusted = [] then
    a.commitThrough room backlog.cursor >>= fun committed =>
      .ret (committed.1, match committed.2 with
        | none => .error .request
        | some _ => .ok ⟨none, none⟩)
  else
    .call (ClientCall.ask (.materialize trusted)) fun (files : List String) =>
      .ret (a, match tryCatchupPrompt F verify room trusted files host with
        | none => .error .panicked
        | some prompt => .ok ⟨some prompt, some backlog.cursor⟩)

/-- `prepare_backlog` -/
def prepareBacklog (a : MeshAgent) (initial : List StoredMessage) (created : Bool) (host : ConversationHost) :
    Client backlogHost (MeshAgent × Except BacklogError PreparedBacklog) :=
  if initial = [] then .ret (a, .ok ⟨none, none⟩)
  else if created then
    -- The owner has the seed in front of it already.
    a.commitThrough room ((initial.getLast?.map StoredMessage.seq).getD 0) >>= fun committed =>
      .ret (committed.1, match committed.2 with
        | none => .error .request
        | some _ => .ok ⟨none, none⟩)
  else
    match BacklogWindow.new.tryPushAll F verify room initial with
    | none => .ret (a, .error .panicked)
    | some backlog =>
        readPages F verify room backlog >>= fun read =>
          match read with
          | .error error => .ret (a, .error error)
          | .ok backlog => presentBacklog F verify room a host backlog

end Program

/-! ## What the window holds -/

section Window

variable {F : FloatFormat} {verify : String → List UInt8 → String → Bool} {room : String}

namespace BacklogWindow

/-- With the weight counted right, the loop sheds what is too heavy. -/
theorem popFront_eq (messages : List (StoredMessage × Nat)) :
    popFront messages (load Prod.snd messages) =
      (shed Prod.snd maxContextChars messages, load Prod.snd (shed Prod.snd maxContextChars messages)) := by
  induction messages with
  | nil => rfl
  | cons first rest ih =>
    cases rest with
    | nil => rfl
    | cons second rest =>
      rw [popFront, shed]
      split_ifs with heavy
      · rw [load_cons, Nat.add_sub_cancel_left]
        exact ih
      · rfl

/-- Of the messages that were pushed, the newest ones that are valid are kept, and all are counted. -/
structure Holds (F : FloatFormat) (verify : String → List UInt8 → String → Bool) (room : String)
    (pushed : List StoredMessage) (w : BacklogWindow) : Prop where
  newest : Newest (renderedChars F verify) maxContextChars
    (pushed.filter (fun m => validInConversation F verify m room)) w.intoMessages
  sized : w.messages = w.intoMessages.map (fun m => (m, renderedChars F verify m))
  retained : w.retainedChars = (w.messages.map Prod.snd).sum
  total : w.total = pushed.length
  counted : w.rejected + (pushed.filter (fun m => validInConversation F verify m room)).length = w.total
  cursor : w.cursor = pushed.foldl (fun cursor m => max cursor m.seq) 0

theorem holds_new : Holds F verify room [] new :=
  ⟨newest_nil, rfl, rfl, rfl, rfl, rfl⟩

/-- A message that does not count. -/
theorem push_rejected {w : BacklogWindow} {m : StoredMessage}
    (invalid : validInConversation F verify m room = false) :
    w.push F verify room m =
      { w with total := w.total + 1, rejected := w.rejected + 1, cursor := max w.cursor m.seq } := by
  rw [push, invalid]
  rfl

/-- A valid message, into a window with the weight counted right. -/
theorem push_valid {w : BacklogWindow} {m : StoredMessage} (valid : validInConversation F verify m room = true)
    (retained : w.retainedChars = load Prod.snd w.messages) :
    w.push F verify room m =
      { messages := shed Prod.snd maxContextChars (w.messages ++ [(m, renderedChars F verify m)])
        retainedChars := load Prod.snd (shed Prod.snd maxContextChars (w.messages ++ [(m, renderedChars F verify m)]))
        total := w.total + 1
        rejected := w.rejected
        cursor := max w.cursor m.seq } := by
  have weight : w.retainedChars + renderedChars F verify m =
      load Prod.snd (w.messages ++ [(m, renderedChars F verify m)]) := by
    rw [load_append, retained]
    rfl
  rw [push, valid]
  dsimp only
  rw [if_neg (by decide), weight, popFront_eq]

theorem Holds.push {pushed : List StoredMessage} {w : BacklogWindow} (holds : Holds F verify room pushed w)
    (m : StoredMessage) : Holds F verify room (pushed ++ [m]) (w.push F verify room m) := by
  have cursor : max w.cursor m.seq = (pushed ++ [m]).foldl (fun cursor m => max cursor m.seq) 0 := by
    rw [List.foldl_append, holds.cursor]
    rfl
  have total : w.total + 1 = (pushed ++ [m]).length := by
    rw [holds.total, List.length_append, List.length_singleton]
  have counted := holds.counted
  cases valid : validInConversation F verify m room with
  | true =>
    have trusted : (pushed ++ [m]).filter (fun m => validInConversation F verify m room) =
        pushed.filter (fun m => validInConversation F verify m room) ++ [m] := by
      simp [List.filter_append, valid]
    have entries : w.messages ++ [(m, renderedChars F verify m)] =
        (w.intoMessages ++ [m]).map (fun m => (m, renderedChars F verify m)) := by
      rw [List.map_append, ← holds.sized]
      rfl
    have after := push_valid valid holds.retained
    have kept : (w.push F verify room m).messages =
        (shed (renderedChars F verify) maxContextChars (w.intoMessages ++ [m])).map
          (fun m => (m, renderedChars F verify m)) := by
      rw [after, entries, shed_map]
      rfl
    have into : (w.push F verify room m).intoMessages =
        shed (renderedChars F verify) maxContextChars (w.intoMessages ++ [m]) := by
      rw [intoMessages, kept, List.map_map]
      exact List.map_id _
    constructor
    · rw [into, trusted]
      exact holds.newest.push m
    · rw [into, kept]
    · rw [after]
      rfl
    · rw [after]
      exact total
    · rw [after, trusted, List.length_append, List.length_singleton]
      dsimp only
      omega
    · rw [after]
      exact cursor
  | false =>
    have trusted : (pushed ++ [m]).filter (fun m => validInConversation F verify m room) =
        pushed.filter (fun m => validInConversation F verify m room) := by
      simp [List.filter_append, valid]
    rw [push_rejected valid]
    refine ⟨?_, holds.sized, holds.retained, total, ?_, cursor⟩
    · rw [trusted]
      exact holds.newest
    · rw [trusted]
      dsimp only
      omega

theorem Holds.pushAll {pushed : List StoredMessage} {w : BacklogWindow} (holds : Holds F verify room pushed w)
    (messages : List StoredMessage) :
    Holds F verify room (pushed ++ messages) (w.pushAll F verify room messages) := by
  induction messages generalizing pushed w with
  | nil => simpa [BacklogWindow.pushAll] using holds
  | cons m rest ih =>
    have next := ih (holds.push m)
    rwa [List.append_assoc] at next

end BacklogWindow

end Window

/-! ## What is read of the room -/

/-- The largest of increasing positions is the last one. -/
theorem foldl_max_seq {pushed : List StoredMessage} {floor : Int} (start : 0 ≤ floor)
    (above : ∀ m ∈ pushed, floor < m.seq) (increasing : pushed.Pairwise (fun a b => a.seq < b.seq))
    (some_pushed : pushed ≠ []) :
    pushed.foldl (fun cursor m => max cursor m.seq) 0 = pageEnd floor pushed := by
  have le_of_all : ∀ (l : List StoredMessage) (c b : Int), c ≤ b → (∀ m ∈ l, m.seq ≤ b) →
      l.foldl (fun cursor m => max cursor m.seq) c ≤ b := by
    intro l
    induction l with
    | nil => exact fun c b le _ => le
    | cons m rest ih =>
      intro c b le below
      obtain ⟨first, later⟩ := List.forall_mem_cons.mp below
      exact ih _ b (max_le le first) later
  obtain ⟨front, last, rfl⟩ := (List.eq_nil_or_concat' pushed).resolve_left some_pushed
  have before : front.foldl (fun cursor m => max cursor m.seq) 0 ≤ last.seq := by
    apply le_of_all
    · exact start.trans (le_of_lt (above last (List.mem_append_right _ List.mem_cons_self)))
    · intro m member
      exact le_of_lt ((List.pairwise_append.mp increasing).2.2 m member last List.mem_cons_self)
  rw [List.foldl_append, pageEnd, List.getLast?_concat]
  exact max_eq_right before

/-- A beginning of an increasing list is what it has up to the last entry of the beginning. -/
theorem filter_le_last {l pushed : List StoredMessage} {floor : Int} (front : pushed <+: l)
    (increasing : l.Pairwise (fun a b => a.seq < b.seq)) (some_pushed : pushed ≠ []) :
    l.filter (fun m => m.seq ≤ pageEnd floor pushed) = pushed := by
  obtain ⟨rest, rfl⟩ := front
  obtain ⟨front, last, rfl⟩ := (List.eq_nil_or_concat' pushed).resolve_left some_pushed
  obtain ⟨sorted, -, across⟩ := List.pairwise_append.mp increasing
  have ends : pageEnd floor (front ++ [last]) = last.seq := by rw [pageEnd, List.getLast?_concat]; rfl
  have early : ∀ m ∈ front ++ [last], m.seq ≤ last.seq := by
    intro m member
    rcases List.mem_append.mp member with old | new
    · exact le_of_lt ((List.pairwise_append.mp sorted).2.2 m old last List.mem_cons_self)
    · rw [List.mem_singleton.mp new]
  have late : ∀ m ∈ rest, ¬ m.seq ≤ last.seq := fun m member =>
    not_le.mpr (across last (List.mem_append_right _ List.mem_cons_self) m member)
  rw [ends, List.filter_append, List.filter_eq_self.mpr, List.filter_eq_nil_iff.mpr, List.append_nil]
  · simpa using late
  · simpa using early

/-! ## The run at the hub -/

section Run

variable (cfg : HubConfig) (cardBytes : AgentCard → List UInt8) (fresh : Hub.Fresh) {rt : ConnectorRuntime}
  {room : String} (others : Others rt room) (files : List StoredMessage → List String)

/-- The hub, and how often the others had a turn at it. -/
structure Joiner where
  hub : HubState
  turns : Nat

/-- The others post before every request; the hub answers without errors. -/
def Joiner.answer : (op : ClientCall backlogHost) → Joiner → op.Res × Joiner
  | .request frame, s =>
      match (handleFrame cfg rt.me fresh cardBytes frame).prog.run (others.act s.turns s.hub) with
      | (.ok reply, hub) => (some reply, ⟨hub, s.turns + 1⟩)
      | (.error _, hub) => (none, ⟨hub, s.turns + 1⟩)
  | .ask (.materialize messages), s => (files messages, s)
  | .admitMessage _, s => (none, s)
  | .complete _, s => ((), s)
  | .release _, s => (none, s)
  | .sign .., s => (none, s)

theorem Joiner.answer_request {s : Joiner} {frame : ClientFrame} {reply : ServerFrame} {hub : HubState}
    (ran : (handleFrame cfg rt.me fresh cardBytes frame).prog.run (others.act s.turns s.hub) = (.ok reply, hub)) :
    Joiner.answer cfg cardBytes fresh others files (.request frame) s = (some reply, ⟨hub, s.turns + 1⟩) := by
  simp only [Joiner.answer, ran]
  rfl

/-- A pull with a `since` changes nothing. -/
theorem handlePull_since_run {h : HubState} {me : Authed} (member : h.store.isMember room me.id = true)
    (since : Int) (limit : Option Nat) :
    (handleFrame cfg me fresh cardBytes (.pull room (some since) limit none none)).prog.run h =
      (.ok (.pulled room (h.store.readBacklog room since (Store.pullLimit limit))
        (pageEnd since (h.store.readBacklog room since (Store.pullLimit limit)))), h) := by
  show (handlePull cfg me room (some since) limit none).prog.run h = _
  simp [handlePull, requireMember, storePull, pullFloor, Handler.call, Handler.fail, Handler.andThen,
    hubMachine, HubCall.exec, member, Bind.bind, Pure.pure, Prog.bind, Prog.run, pageEnd]

/-- The valid ones among the messages can be shown. -/
def Presentable (rt : ConnectorRuntime) (room : String) (messages : List StoredMessage) : Prop :=
  ∀ m ∈ messages, validInConversation rt.floats rt.verify m room = true → Showable m

/-- The backlog is still what the others make of it. -/
def Joiner.Along (others : Others rt room) (floor : Int) (s s' : Joiner) : Prop :=
  ∀ P : List StoredMessage → Prop,
    (∀ n hub, P (hub.store.backlog room floor) → P ((others.act n hub).store.backlog room floor)) →
      P (s.hub.store.backlog room floor) → P (s'.hub.store.backlog room floor)

/-- What the others keep up, still holds of the hub. -/
def Joiner.Passes (others : Others rt room) (s s' : Joiner) : Prop :=
  ∀ P : HubState → Prop, (∀ n hub, P hub → P (others.act n hub)) → P s.hub → P s'.hub

/-- What was pushed so far is the beginning of the room's backlog past the floor. -/
structure Pushed (rt : ConnectorRuntime) (room : String) (floor : Int) (pushed : List StoredMessage) (s : Joiner) :
    Prop where
  member : s.hub.store.isMember room rt.me.id = true
  order : SeqOrder s.hub.store
  some_pushed : pushed ≠ []
  front : pushed <+: s.hub.store.backlog room floor

/-- The window after these messages. -/
abbrev windowOf (rt : ConnectorRuntime) (room : String) (pushed : List StoredMessage) : BacklogWindow :=
  BacklogWindow.new.pushAll rt.floats rt.verify room pushed

theorem windowOf_holds (pushed : List StoredMessage) :
    (windowOf rt room pushed).Holds rt.floats rt.verify room pushed :=
  BacklogWindow.holds_new.pushAll pushed

theorem tryPushAll_presentable {pushed : List StoredMessage} (shown : Presentable rt room pushed) :
    BacklogWindow.new.tryPushAll rt.floats rt.verify room pushed = some (windowOf rt room pushed) := by
  obtain ⟨w, done⟩ := Option.isSome_iff_exists.mp
    ((@BacklogWindow.tryPushAll_isSome rt.floats rt.verify room .new pushed).mpr shown)
  rw [done, BacklogWindow.tryPushAll_eq _ _ _ done]

theorem windowOf_tryPushAll {pushed page : List StoredMessage} {w : BacklogWindow}
    (done : (windowOf rt room pushed).tryPushAll rt.floats rt.verify room page = some w) :
    w = windowOf rt room (pushed ++ page) := by
  rw [BacklogWindow.tryPushAll_eq _ _ _ done]
  exact List.foldl_append.symm

variable {floor : Int} {pushed : List StoredMessage} {s : Joiner}

theorem Pushed.sorted (here : Pushed rt room floor pushed s) :
    pushed.Pairwise (fun a b => a.seq < b.seq) :=
  (here.order.backlog_increasing room floor).sublist here.front.sublist

theorem Pushed.cursor (here : Pushed rt room floor pushed s) (start : 0 ≤ floor) :
    (windowOf rt room pushed).cursor = pageEnd floor pushed := by
  rw [(windowOf_holds pushed).cursor]
  apply foldl_max_seq start ?_ here.sorted here.some_pushed
  intro m member
  obtain ⟨r, kept, rfl⟩ := List.mem_map.mp (here.front.subset member)
  exact (of_decide_eq_true (List.mem_filter.mp kept).2).2

namespace Joiner.Along

theorem refl (s : Joiner) : s.Along others floor s := fun _ _ here => here

theorem trans {others : Others rt room} {s s' s'' : Joiner} (first : s.Along others floor s')
    (second : s'.Along others floor s'') : s.Along others floor s'' :=
  fun P kept here => second P kept (first P kept here)

/-- A request that leaves the messages alone. -/
theorem request {others : Others rt room} {s : Joiner} {hub : HubState}
    (same : hub.store.messages = (others.act s.turns s.hub).store.messages) :
    s.Along others floor ⟨hub, s.turns + 1⟩ := by
  intro P kept here
  show P (hub.store.backlog room floor)
  have unmoved : hub.store.backlog room floor = (others.act s.turns s.hub).store.backlog room floor := by
    rw [Store.backlog, Store.backlog, same]
  rw [unmoved]
  exact kept _ _ here

/-- What the room held of messages is still there. -/
theorem grows {others : Others rt room} {s s' : Joiner} (along : s.Along others floor s') :
    s.hub.store.backlog room floor <+: s'.hub.store.backlog room floor :=
  along (s.hub.store.backlog room floor <+: ·) (fun n hub front => front.trans (others.posts n hub floor))
    (List.prefix_refl _)

end Joiner.Along

namespace Joiner.Passes

theorem refl (s : Joiner) : s.Passes others s := fun _ _ here => here

theorem trans {others : Others rt room} {s s' s'' : Joiner} (first : s.Passes others s')
    (second : s'.Passes others s'') : s.Passes others s'' :=
  fun P kept here => second P kept (first P kept here)

theorem along {others : Others rt room} {s s' : Joiner} (passes : s.Passes others s') (floor : Int) :
    s.Along others floor s' :=
  fun P kept here => passes (fun hub => P (hub.store.backlog room floor)) kept here

end Joiner.Passes

/-- The answer to the next pull is what comes next in the backlog, and the others posted before it. A page that
    is not full is the end of the backlog. -/
theorem Pushed.answer (here : Pushed rt room floor pushed s) (start : 0 ≤ floor) {limit : Nat}
    (bounded : limit ≤ backlogPageSize) :
    ∃ page s', Joiner.answer cfg cardBytes fresh others files
        (.request (.pull room (some (windowOf rt room pushed).cursor) (some limit) none none)) s =
          (some (.pulled room page (pageEnd (windowOf rt room pushed).cursor page)), s') ∧
      s'.turns = s.turns + 1 ∧ page.length ≤ limit ∧ Pushed rt room floor (pushed ++ page) s' ∧
      s.Passes others s' ∧ (∀ m ∈ page, (windowOf rt room pushed).cursor < m.seq) ∧
      (page.length < limit → pushed ++ page = s'.hub.store.backlog room floor) := by
  have member := others.member s.turns s.hub here.member
  have order := others.order s.turns s.hub here.order
  have front : pushed <+: (others.act s.turns s.hub).store.backlog room floor :=
    here.front.trans (others.posts s.turns s.hub floor)
  have full : Store.pullLimit (some limit) = limit := Nat.min_eq_left bounded
  have ran := handlePull_since_run cfg cardBytes fresh member (windowOf rt room pushed).cursor (some limit)
  rw [order.readBacklog_eq, full] at ran
  -- Past the cursor comes what is behind the messages that were pushed.
  have behind := order.backlog_pageEnd room floor (List.length_pos_iff.mpr here.some_pushed)
  rw [← List.prefix_iff_eq_take.mp front, ← here.cursor start] at behind
  obtain ⟨rest, split⟩ := front
  rw [← split, List.drop_left] at behind
  refine ⟨_, _, Joiner.answer_request cfg cardBytes fresh others files ran, rfl, ?_, ⟨member, order, ?_, ?_⟩,
    fun P kept here => kept _ _ here, ?_, ?_⟩
  · rw [List.length_take]
    exact Nat.min_le_left _ _
  · exact List.append_ne_nil_of_left_ne_nil here.some_pushed _
  · rw [behind, ← split, List.prefix_append_right_inj]
    exact List.take_prefix _ _
  · intro m listed
    obtain ⟨r, kept, rfl⟩ := List.mem_map.mp (List.mem_of_mem_take listed)
    exact (of_decide_eq_true (List.mem_filter.mp kept).2).2
  · intro short
    rw [behind, List.length_take] at short
    rw [behind, List.take_of_length_le (by omega)]
    exact split

variable (rt room floor) in
/-- How the loop ends: at the end of the backlog, over a backlog that is too long, or in a panic. -/
inductive PagesRead (others : Others rt room) (s s' : Joiner) (pushed : List StoredMessage) :
    Except BacklogError BacklogWindow → Prop where
  | whole {more : List StoredMessage} (there : Pushed rt room floor (pushed ++ more) s')
      (ends : pushed ++ more = s'.hub.store.backlog room floor) (shown : Presentable rt room more) :
      PagesRead others s s' pushed (.ok (windowOf rt room (pushed ++ more)))
  | exceeds (long : maxBacklogMessages < (s'.hub.store.backlog room floor).length) :
      PagesRead others s s' pushed (.error (.bail backlogExceeds))
  | panics (hidden : ¬ Presentable rt room (s'.hub.store.backlog room floor)) :
      PagesRead others s s' pushed (.error .panicked)

/-- The loop reads to the end of the backlog, gives up over a backlog that is too long, or panics at a message
    that cannot be shown. -/
theorem readPages_run (here : Pushed rt room floor pushed s) (start : 0 ≤ floor)
    (few : pushed.length ≤ maxBacklogMessages) :
    ∃ outcome s', drive (Joiner.answer cfg cardBytes fresh others files)
        (readPages rt.floats rt.verify room (windowOf rt room pushed)) s = (outcome, s') ∧
      s'.turns ≤ s.turns + (maxBacklogMessages + 1 - pushed.length) + 1 ∧ s.Passes others s' ∧
      PagesRead rt room floor others s s' pushed outcome := by
  -- The induction is on the messages that may still be pushed.
  generalize left : maxBacklogMessages + 1 - pushed.length = n
  induction n using Nat.strong_induction_on generalizing pushed s with
  | _ n ih =>
    have total : (windowOf rt room pushed).total = pushed.length := (windowOf_holds pushed).total
    obtain ⟨page, s', answered, turn, short, next, passes, above, ends⟩ :=
      here.answer cfg cardBytes fresh others files start (Nat.min_le_left backlogPageSize
        (maxBacklogMessages + 1 - (windowOf rt room pushed).total))
    cases page with
    | nil =>
      have whole : pushed ++ [] = s'.hub.store.backlog room floor := by
        apply ends
        rw [total]
        exact lt_min (by decide) (by rw [List.length_nil]; omega)
      have read : PagesRead rt room floor others s s' pushed (.ok (windowOf rt room (pushed ++ []))) :=
        .whole next whole nofun
      rw [List.append_nil] at read
      refine ⟨.ok (windowOf rt room pushed), s', ?_, by omega, passes, read⟩
      rw [readPages]
      exact drive_call answered _
    | cons first rest =>
      have advanced : ¬ pageEnd (windowOf rt room pushed).cursor (first :: rest) ≤
          (windowOf rt room pushed).cursor := by
        rw [not_le, pageEnd, List.getLast?_eq_some_getLast (List.cons_ne_nil first rest)]
        exact above _ (List.getLast_mem _)
      have total' : (windowOf rt room (pushed ++ first :: rest)).total = (pushed ++ first :: rest).length :=
        (windowOf_holds _).total
      have longer : (pushed ++ first :: rest).length = pushed.length + (first :: rest).length := List.length_append
      have one : 1 ≤ (first :: rest).length := Nat.succ_le_of_lt (List.length_pos_of_mem List.mem_cons_self)
      have step : drive (Joiner.answer cfg cardBytes fresh others files)
          (readPages rt.floats rt.verify room (windowOf rt room pushed)) s =
            drive (Joiner.answer cfg cardBytes fresh others files)
              (match (windowOf rt room pushed).tryPushAll rt.floats rt.verify room (first :: rest) with
                | none => .ret (.error .panicked)
                | some after =>
                    if maxBacklogMessages < after.total then .ret (.error (.bail backlogExceeds))
                    else if (first :: rest).length <
                        min backlogPageSize (maxBacklogMessages + 1 - (windowOf rt room pushed).total) then
                      .ret (.ok after)
                    else readPages rt.floats rt.verify room after) s' := by
        rw [readPages]
        refine (drive_call answered _).trans ?_
        simp only [MeshAgent.pulledSince, if_neg advanced]
        split <;> rename_i done <;> rw [done]
      rw [step]
      cases done : (windowOf rt room pushed).tryPushAll rt.floats rt.verify room (first :: rest) with
      | none =>
        refine ⟨_, s', rfl, by omega, passes, .panics ?_⟩
        intro shown
        have renders : ((windowOf rt room pushed).tryPushAll rt.floats rt.verify room (first :: rest)).isSome :=
          (BacklogWindow.tryPushAll_isSome _ _ _).mpr
            (fun m member => shown m (next.front.subset (List.mem_append_right _ member)))
        rw [done] at renders
        cases renders
      | some w =>
        have shown : Presentable rt room (first :: rest) :=
          (BacklogWindow.tryPushAll_isSome _ _ _).mp (by rw [done]; rfl)
        obtain rfl := windowOf_tryPushAll done
        dsimp only
        rw [total']
        split_ifs with exceeds last_page
        · exact ⟨_, s', rfl, by omega, passes, .exceeds (lt_of_lt_of_le exceeds next.front.length_le)⟩
        · exact ⟨_, s', rfl, by omega, passes, .whole next (ends last_page) shown⟩
        · obtain ⟨outcome, s'', ran, turns, passes', result⟩ := ih _ (by omega) next (by omega) rfl
          refine ⟨outcome, s'', ran, by omega, passes.trans passes', ?_⟩
          cases result with
          | whole there ends more_shown =>
            rw [List.append_assoc] at there ends ⊢
            exact .whole there ends (List.forall_mem_append.mpr ⟨shown, more_shown⟩)
          | exceeds long => exact .exceeds long
          | panics hidden => exact .panics hidden

/-- A commit leaves the messages as they are. -/
theorem Pushed.commit (here : Pushed rt room floor pushed s) (a : MeshAgent) (cursor : Int) :
    ∃ a' s', drive (Joiner.answer cfg cardBytes fresh others files) (a.commitThrough room cursor) s =
        ((a', some ()), s') ∧ s'.turns ≤ s.turns + 1 ∧ Pushed rt room floor pushed s' ∧
      s.Along others floor s' := by
  unfold MeshAgent.commitThrough
  split_ifs with skips
  · exact ⟨_, s, rfl, by omega, here, .refl others s⟩
  · have member := others.member s.turns s.hub here.member
    have order := others.order s.turns s.hub here.order
    have front : pushed <+: (others.act s.turns s.hub).store.backlog room floor :=
      here.front.trans (others.posts s.turns s.hub floor)
    have ran := handlePull_run cfg cardBytes fresh member (some 0) cursor
    have answered := Joiner.answer_request cfg cardBytes fresh others files ran
    refine ⟨_, _, drive_call answered _, le_refl _, ?_, .request ?_⟩
    · split_ifs with newer
      · exact ⟨Store.isMember_setCursor member cursor, ⟨order.increasing, order.bounded⟩, here.some_pushed, front⟩
      · exact ⟨member, order, here.some_pushed, front⟩
    · split_ifs <;> rfl

/-- What `prepare_backlog` returns for a window. -/
def preparedOf (rt : ConnectorRuntime) (room : String) (files : List StoredMessage → List String)
    (host : ConversationHost) (w : BacklogWindow) : PreparedBacklog :=
  if w.intoMessages = [] then ⟨none, none⟩
  else ⟨some (catchupPrompt rt.floats rt.verify room w.intoMessages (files w.intoMessages) host), some w.cursor⟩

/-- What is in the window has been rendered before. -/
theorem presentBacklog_run (here : Pushed rt room floor pushed s) (a : MeshAgent) (host : ConversationHost)
    (shown : Presentable rt room pushed) :
    ∃ a' s', drive (Joiner.answer cfg cardBytes fresh others files)
        (presentBacklog rt.floats rt.verify room a host (windowOf rt room pushed)) s =
          ((a', .ok (preparedOf rt room files host (windowOf rt room pushed))), s') ∧
      s'.turns ≤ s.turns + 1 ∧ Pushed rt room floor pushed s' ∧ s.Along others floor s' ∧
      (preparedOf rt room files host (windowOf rt room pushed) ≠ ⟨none, none⟩ → a' = a ∧ s' = s) := by
  unfold presentBacklog preparedOf
  dsimp only
  split_ifs with nothing
  · obtain ⟨a', s', ran, turns, there, along⟩ :=
      here.commit cfg cardBytes fresh others files a (windowOf rt room pushed).cursor
    refine ⟨a', s', ?_, turns, there, along, fun prompted => absurd rfl prompted⟩
    rw [drive_bind, ran]
    rfl
  · have kept : ∀ m ∈ (windowOf rt room pushed).intoMessages, Showable m := by
      intro m member
      have valid := (windowOf_holds pushed).newest.suffix.subset member
      exact shown m (List.mem_of_mem_filter valid) (List.mem_filter.mp valid).2
    obtain ⟨prompt, made⟩ := Option.isSome_iff_exists.mp ((@tryCatchupPrompt_isSome rt.floats rt.verify room
      (files (windowOf rt room pushed).intoMessages) _ host).mpr kept)
    refine ⟨a, s, ?_, by omega, here, .refl others s, fun _ => ⟨rfl, rfl⟩⟩
    show (((a, match tryCatchupPrompt rt.floats rt.verify room (windowOf rt room pushed).intoMessages
      (files (windowOf rt room pushed).intoMessages) host with
        | none => .error .panicked
        | some prompt => .ok ⟨some prompt, some (windowOf rt room pushed).cursor⟩) :
          MeshAgent × Except BacklogError PreparedBacklog), s) = _
    rw [made, tryCatchupPrompt_eq made]

variable (rt room floor) in
/-- The messages of the room from the initial cursor to the end of what was read, all that was there at the
beginning among them, went through the window once each and in their order, and the newest valid ones are
kept. -/
def PreparedExactly (s s' : Joiner) (host : ConversationHost) (initial : List StoredMessage)
    (outcome : Except BacklogError PreparedBacklog) : Prop :=
  ∃ pushed w, initial <+: pushed ∧ s.hub.store.backlog room floor <+: pushed ∧
    BacklogWindow.new.tryPushAll rt.floats rt.verify room pushed = some w ∧
    pushed = (s'.hub.store.backlog room floor).filter (fun m => m.seq ≤ w.cursor) ∧
    pushed.Pairwise (fun m m' => m.seq < m'.seq) ∧ w.Holds rt.floats rt.verify room pushed ∧
    outcome = .ok (preparedOf rt room files host w)

/-- What was read can be shown. -/
theorem PreparedExactly.presentable {s s' : Joiner} {host : ConversationHost} {initial : List StoredMessage}
    {outcome : Except BacklogError PreparedBacklog}
    (exactly : PreparedExactly rt room files floor s s' host initial outcome) :
    Presentable rt room (s.hub.store.backlog room floor) := by
  obtain ⟨pushed, w, -, all, done, -⟩ := exactly
  have shown : Presentable rt room pushed := (BacklogWindow.tryPushAll_isSome _ _ _).mp (by rw [done]; rfl)
  exact fun m member => shown m (all.subset member)

/-- How `prepare_backlog` ends for a joined conversation, whatever the others post meanwhile. -/
theorem prepareBacklog_run (a : MeshAgent) (host : ConversationHost) {initial : List StoredMessage}
    (here : Pushed rt room floor initial s) (start : 0 ≤ floor) (few : initial.length ≤ maxBacklogMessages) :
    ∃ outcome a' s', drive (Joiner.answer cfg cardBytes fresh others files)
        (prepareBacklog rt.floats rt.verify room a initial false host) s = ((a', outcome), s') ∧
      s'.turns ≤ s.turns + maxBacklogMessages + 2 ∧ s.Along others floor s' ∧
      (outcome ≠ .ok ⟨none, none⟩ → a' = a ∧ s.Passes others s') ∧
      (PreparedExactly rt room files floor s s' host initial outcome ∨
        outcome = .error (.bail backlogExceeds) ∧
          maxBacklogMessages < (s'.hub.store.backlog room floor).length ∨
        outcome = .error .panicked ∧ ¬ Presentable rt room (s'.hub.store.backlog room floor)) := by
  have one : 0 < initial.length := List.length_pos_iff.mpr here.some_pushed
  rw [prepareBacklog, if_neg here.some_pushed, if_neg Bool.false_ne_true]
  cases done : BacklogWindow.new.tryPushAll rt.floats rt.verify room initial with
  | none =>
    refine ⟨_, a, s, rfl, by omega, .refl others s, fun _ => ⟨rfl, .refl others s⟩, Or.inr (Or.inr ⟨rfl, ?_⟩)⟩
    intro shown
    have renders : (BacklogWindow.new.tryPushAll rt.floats rt.verify room initial).isSome :=
      (BacklogWindow.tryPushAll_isSome _ _ _).mpr (fun m member => shown m (here.front.subset member))
    rw [done] at renders
    cases renders
  | some w =>
    have shown : Presentable rt room initial := (BacklogWindow.tryPushAll_isSome _ _ _).mp (by rw [done]; rfl)
    obtain rfl : w = windowOf rt room initial := BacklogWindow.tryPushAll_eq _ _ _ done
    obtain ⟨read, s', ran, turns, passes, result⟩ := readPages_run cfg cardBytes fresh others files here start few
    dsimp only
    rw [drive_bind, ran]
    cases result with
    | whole there ends more_shown =>
      rename_i more
      have all_shown : Presentable rt room (initial ++ more) := List.forall_mem_append.mpr ⟨shown, more_shown⟩
      obtain ⟨a', s'', presented, turn, last, along', prompted⟩ :=
        presentBacklog_run cfg cardBytes fresh others files there a host all_shown
      have read : initial ++ more = (s''.hub.store.backlog room floor).filter
          (fun m => m.seq ≤ (windowOf rt room (initial ++ more)).cursor) := by
        rw [last.cursor start]
        exact (filter_le_last last.front (last.order.backlog_increasing room floor) last.some_pushed).symm
      have all : s.hub.store.backlog room floor <+: initial ++ more := ends ▸ (passes.along floor).grows
      refine ⟨_, a', s'', presented, by omega, (passes.along floor).trans along', ?_, Or.inl ?_⟩
      · intro told
        obtain ⟨rfl, rfl⟩ := prompted (fun nothing => told (congrArg Except.ok nothing))
        exact ⟨rfl, passes⟩
      exact ⟨_, _, List.prefix_append _ _, all, tryPushAll_presentable all_shown, read, last.sorted,
        windowOf_holds _, rfl⟩
    | exceeds long =>
      exact ⟨_, a, s', rfl, by omega, passes.along floor, fun _ => ⟨rfl, passes⟩, Or.inr (Or.inl ⟨rfl, long⟩)⟩
    | panics hidden =>
      exact ⟨_, a, s', rfl, by omega, passes.along floor, fun _ => ⟨rfl, passes⟩, Or.inr (Or.inr ⟨rfl, hidden⟩)⟩

end Run

/-! ## Posts while the backlog is read -/

/-- A post leaves the backlog as it is, but for its end. -/
theorem append_backlog_added (cfg : HubConfig) (hub : HubState) (m : NewMessage) (room : String) (floor : Int) :
    ∃ added, ((HubCall.appendMessage m).exec cfg hub).2.store.backlog room floor =
      hub.store.backlog room floor ++ added ∧ ∀ x ∈ added, x.parts = m.parts := by
  rcases hub.tryStoreWith_cases (hub.store.appendMessage m) with ⟨out, s, ok, after⟩ | same
  · rw [HubCall.exec, after]
    rcases Store.appendMessage_ok ok with ⟨-, -, -, rfl⟩ | ⟨-, -, -, rfl⟩
    · exact ⟨[], (List.append_nil _).symm, nofun⟩
    · obtain ⟨rows, inserted⟩ := Store.insertDispatches_eq (s := hub.store.insertMessage m) m.room m.id
        (hub.store.messageSeq + 1) m.roles
      rw [inserted]
      refine ⟨(([m.toRow (hub.store.messageSeq + 1)]).filter
        (fun r => r.room = room ∧ floor < r.seq)).map MessageRow.toStored, ?_, ?_⟩
      · show ((hub.store.messages ++ [_]).filter _).map _ = _
        rw [List.filter_append, List.map_append]
        rfl
      · intro x member
        obtain ⟨r, kept, rfl⟩ := List.mem_map.mp member
        rw [List.mem_singleton.mp (List.mem_of_mem_filter kept)]
        rfl
  · rw [HubCall.exec, same]
    exact ⟨[], (List.append_nil _).symm, nofun⟩

theorem append_backlog (cfg : HubConfig) (hub : HubState) (m : NewMessage) (room : String) (floor : Int) :
    hub.store.backlog room floor <+: ((HubCall.appendMessage m).exec cfg hub).2.store.backlog room floor := by
  obtain ⟨added, grown, -⟩ := append_backlog_added cfg hub m room floor
  exact grown ▸ List.prefix_append _ _

/-- The others post what they like before each request. -/
def Others.posting (cfg : HubConfig) (rt : ConnectorRuntime) (room : String) (posts : Nat → List NewMessage) :
    Others rt room where
  act n hub := (posts n).foldl (fun hub m => ((HubCall.appendMessage m).exec cfg hub).2) hub
  member n hub := by
    generalize posts n = posts
    induction posts generalizing hub with
    | nil => exact id
    | cons m rest ih => exact fun member => ih _ (isMember_exec cfg (.appendMessage m) hub nofun member)
  order n hub := by
    generalize posts n = posts
    induction posts generalizing hub with
    | nil => exact id
    | cons m rest ih => exact fun order => ih _ (order.exec (.appendMessage m))
  cursor n hub := by
    generalize posts n = posts
    induction posts generalizing hub with
    | nil => rfl
    | cons m rest ih =>
      have same : ((HubCall.appendMessage m).exec cfg hub).2.store.members = hub.store.members :=
        exec_same cfg (.appendMessage m) hub .members (by simp [HubCall.writes])
      refine (ih _).trans ?_
      rw [Store.getCursor, same, Store.getCursor]
  posts n hub floor := by
    generalize posts n = posts
    induction posts generalizing hub with
    | nil => exact List.prefix_refl _
    | cons m rest ih => exact (append_backlog cfg hub m room floor).trans (ih _)

/-- Posts that can be shown keep the backlog presentable. -/
theorem posting_presentable (cfg : HubConfig) (rt : ConnectorRuntime) (room : String)
    {posts : Nat → List NewMessage} (shown : ∀ n, ∀ m ∈ posts n, ∀ p ∈ m.parts, TipShortens p) (floor : Int)
    (n : Nat) (hub : HubState) (here : Presentable rt room (hub.store.backlog room floor)) :
    Presentable rt room (((Others.posting cfg rt room posts).act n hub).store.backlog room floor) := by
  have each := shown n
  change Presentable rt room (((posts n).foldl _ hub).store.backlog room floor)
  generalize posts n = posts at each
  induction posts generalizing hub with
  | nil => exact here
  | cons m rest ih =>
    obtain ⟨first, others⟩ := List.forall_mem_cons.mp each
    obtain ⟨added, grown, own⟩ := append_backlog_added cfg hub m room floor
    refine ih _ ?_ others
    rw [grown]
    refine List.forall_mem_append.mpr ⟨here, ?_⟩
    intro x member _ p part
    rw [own x member] at part
    exact first p part

/-- Alice goes on writing while bob reads. -/
def furtherPost (n : Nat) : NewMessage :=
  ⟨"more" ++ toString n, "r", ⟨"A", "alice", none⟩, [.text "more", signedPart "w"], none, none, none, 1⟩

theorem signedText_shown (text uid : String) : ∀ p ∈ [Part.text text, signedPart uid], TipShortens p := by
  intro p member b bundle
  have none_read : BundleRef.fromPart p = none := by
    rcases List.mem_cons.mp member with rfl | signed
    · rfl
    · rw [List.mem_singleton.mp signed]
      exact fromPart_of_sig rfl
  rw [none_read] at bundle
  cases bundle

/-- A bundle whose tip has a character of two bytes after eleven others. -/
def wideTip : BundleRef := ⟨"a3", "git", some "aaaaaaaaaaaé", none, none, 1, none⟩

theorem wideTip_uncut : ¬ TipShortens wideTip.toPart := by
  intro shortens
  have tip := shortens wideTip (BundleRef.fromPart_toPart wideTip (by decide)) "aaaaaaaaaaaé" rfl
  exact @not_slicesAt_inside 12 (List.replicate 11 'a') [] 'é' (by decide) (by decide) tip

/-- Alice says hello and then sends the bundle. -/
def bundledRoom : DemoPool :=
  demoPlay [demoFrame 0 alice (.invite .channel (some "r") none none false),
    demoFrame 1 bob (.redeem "c0"),
    demoFrame 2 alice (.send (.room "r") [.text "hello", signedPart "u"] none none none),
    demoFrame 3 alice (.send (.room "r") [wideTip.toPart, signedPart "v"] none none none)]

def bundledMessage : StoredMessage := heldMessage 2 "m3" [wideTip.toPart, signedPart "v"]

end Parler.Cli
