import Parler.Cli.ByteCuts

/-!
# Wakes that are cut

`ConnectorRuntime::inject` hands a batch to `ClaudeStopInjector`, which joins the rendered messages, cuts the
text at 64 KiB and prints it; then the runtime commits the batch, unless a part of it is held. What
`parler_recv` returns afterwards is what is still above the cursor.
-/

namespace Parler.Cli

open Parler.Lib Parler.Protocol Parler.Hub Parler.Connector

/-! ## Cutting -/

/-- The characters before the last boundary within a number of bytes. -/
def keptChars : Nat → List Char → List Char
  | _, [] => []
  | cap, c :: cs => if c.utf8Size ≤ cap then c :: keptChars (cap - c.utf8Size) cs else []

/-- `truncate_wake` -/
def truncateWake (input : String) (cap : Nat) : String :=
  if byteLen input ≤ cap then input
  else String.ofList (keptChars cap input.toList) ++
    "\n[...wake context truncated; use parler_recv for the full durable backlog]"

/-- The cap of `ClaudeStopInjector`. -/
def wakeCap : Nat := 64 * 1024

theorem keptChars_initial (cap : Nat) (cs : List Char) : keptChars cap cs <+: cs := by
  induction cs generalizing cap with
  | nil => exact List.prefix_rfl
  | cons c cs ih =>
    rw [keptChars]
    split_ifs with fits
    · exact List.cons_prefix_cons.mpr ⟨rfl, ih _⟩
    · exact List.nil_prefix

theorem keptChars_eq_self {cap : Nat} {cs : List Char} : keptChars cap cs = cs ↔ String.utf8Len cs ≤ cap := by
  induction cs generalizing cap with
  | nil => simp [keptChars]
  | cons c cs ih =>
    rw [keptChars, String.utf8Len_cons]
    split_ifs with fits
    · rw [List.cons_inj_right, ih]
      omega
    · exact iff_of_false not_false (by omega)

theorem length_keptChars_le (cap : Nat) (cs : List Char) : (keptChars cap cs).length ≤ cap := by
  induction cs generalizing cap with
  | nil => exact Nat.zero_le cap
  | cons c cs ih =>
    have wide := Char.utf8Size_pos c
    rw [keptChars]
    split_ifs with fits
    · have tail := ih (cap - c.utf8Size)
      rw [List.length_cons]
      omega
    · exact Nat.zero_le cap

section Inject

variable (F : FloatFormat) (verify : String → List UInt8 → String → Bool)

/-- The rendered messages; `none` is a panic. -/
def wakeLines (messages : List StoredMessage) : Option (List String) :=
  messages.mapM (tryRenderMessage F verify)

/-- What `ClaudeStopInjector` prints as the reason to continue. -/
def stopReason (room : String) (messages : List StoredMessage) : Option String :=
  (wakeLines F verify messages).map fun lines =>
    "New messages from other agents in session '" ++ room ++ "':\n" ++
      truncateWake ("\n".intercalate lines) wakeCap ++
      "\n\nContinue the conversation — reply with parler_send if a response is warranted; " ++
      "otherwise you can stop."

variable {F} {verify}

/-- The text up to the end of line `i` is within what is kept of all lines. -/
def WhollyShown (lines : List String) (i : Nat) : Prop :=
  ("\n".intercalate (lines.take (i + 1))).toList <+: keptChars wakeCap ("\n".intercalate lines).toList

theorem byteLen_eq (s : String) : byteLen s = String.utf8Len s.toList := by
  rw [← String.utf8ByteSize_ofList, String.ofList_toList]
  rfl

/-- The last line is shown exactly if nothing is cut. -/
theorem whollyShown_last {lines : List String} {i : Nat} (last : i + 1 = lines.length) :
    WhollyShown lines i ↔ byteLen ("\n".intercalate lines) ≤ wakeCap := by
  rw [WhollyShown, last, List.take_length, byteLen_eq, ← keptChars_eq_self]
  constructor
  · intro whole
    exact (keptChars_initial _ _).eq_of_length (le_antisymm (keptChars_initial _ _).length_le whole.length_le)
  · intro whole
    rw [whole]

/-- The first of some texts are a beginning of all of them. -/
theorem intercalate_take_prefix (sep : List Char) (texts : List (List Char)) (n : Nat) :
    sep.intercalate (texts.take n) <+: sep.intercalate texts := by
  induction texts generalizing n with
  | nil => simp
  | cons x texts ih =>
    cases n with
    | zero => exact List.nil_prefix
    | succ n =>
      cases texts with
      | nil => simp
      | cons y texts =>
        cases n with
        | zero => simp [List.intercalate_cons_cons]
        | succ n =>
          rw [List.take_succ_cons, List.take_succ_cons, List.intercalate_cons_cons, List.intercalate_cons_cons,
            ← List.take_succ_cons]
          exact (List.prefix_append_right_inj _).mpr (ih (n + 1))

/-- If nothing is cut, every line is shown. -/
theorem whollyShown_of_short {lines : List String} (short : byteLen ("\n".intercalate lines) ≤ wakeCap) (i : Nat) :
    WhollyShown lines i := by
  rw [byteLen_eq, ← keptChars_eq_self] at short
  rw [WhollyShown, short, String.toList_intercalate, String.toList_intercalate, List.map_take]
  exact intercalate_take_prefix _ _ _

theorem suffix_intercalate (sep : List Char) (texts : List (List Char)) (last : List Char) :
    last <:+ sep.intercalate (texts ++ [last]) := by
  induction texts with
  | nil => simp
  | cons x texts ih =>
    rw [List.cons_append, List.intercalate_cons_of_ne_nil (by simp)]
    exact ih.trans (List.suffix_append _ _)

theorem keptChars_truncateWake (input : String) (cap : Nat) :
    keptChars cap input.toList <+: (truncateWake input cap).toList := by
  rw [truncateWake]
  split_ifs with short
  · exact keptChars_initial cap input.toList
  · rw [String.toList_append, String.toList_ofList]
    exact List.prefix_append _ _

/-- A line that is wholly shown is contained in what is printed. -/
theorem infix_of_whollyShown {room : String} {messages : List StoredMessage} {lines : List String}
    {reason line : String} {i : Nat} (rendered : wakeLines F verify messages = some lines)
    (printed : stopReason F verify room messages = some reason) (there : lines[i]? = some line)
    (shown : WhollyShown lines i) : line.toList <:+: reason.toList := by
  obtain ⟨inside, at_i⟩ := List.getElem?_eq_some_iff.mp there
  have ends : line.toList <:+ ("\n".intercalate (lines.take (i + 1))).toList := by
    rw [← List.take_append_getElem inside, at_i, String.toList_intercalate, List.map_append]
    exact suffix_intercalate _ _ _
  have kept : line.toList <:+: (truncateWake ("\n".intercalate lines) wakeCap).toList :=
    (ends.isInfix.trans shown.isInfix).trans (keptChars_truncateWake _ _).isInfix
  rw [stopReason, rendered, Option.map_some, Option.some.injEq] at printed
  rw [← printed]
  simp only [String.toList_append]
  exact ((kept.trans (List.suffix_append _ _).isInfix).trans (List.prefix_append _ _).isInfix).trans
    (List.prefix_append _ _).isInfix

theorem length_truncateWake_le (input : String) (cap : Nat) :
    (truncateWake input cap).toList.length ≤ cap + 100 := by
  rw [truncateWake]
  split_ifs with short
  · rw [byteLen_eq, ← keptChars_eq_self] at short
    have kept := length_keptChars_le cap input.toList
    rw [short] at kept
    omega
  · have marker :
        "\n[...wake context truncated; use parler_recv for the full durable backlog]".toList.length ≤ 100 := by
      decide +kernel
    have kept := length_keptChars_le cap input.toList
    rw [String.toList_append, String.toList_ofList, List.length_append]
    omega

/-- What is printed is bounded. -/
theorem length_stopReason_le {room : String} {messages : List StoredMessage} {reason : String}
    (printed : stopReason F verify room messages = some reason) :
    reason.toList.length ≤ room.toList.length + wakeCap + 400 := by
  obtain ⟨lines, -, rfl⟩ := Option.map_eq_some_iff.mp printed
  have body := length_truncateWake_le ("\n".intercalate lines) wakeCap
  have head : "New messages from other agents in session '".toList.length ≤ 50 := by decide +kernel
  have quote : "':\n".toList.length ≤ 50 := by decide +kernel
  have request : "\n\nContinue the conversation — reply with parler_send if a response is warranted; ".toList.length ≤
      100 := by decide +kernel
  have leave : "otherwise you can stop.".toList.length ≤ 50 := by decide +kernel
  simp only [String.toList_append, List.length_append]
  omega

end Inject

/-! ## The processes -/

section Processes

variable (cfg : HubConfig) (cardBytes : AgentCard → List UInt8) (fresh : Hub.Fresh) (rt : ConnectorRuntime)

/-- `ConnectorRuntime::inject` with the injector of the Stop hook: what it prints, if it prints. A panic
    in rendering and a commit that fails are errors. -/
def inject {H : Host} (a : MeshAgent) (received : Received) :
    Client H (MeshAgent × Option (Option String)) :=
  if received.messages.isEmpty then .ret (a, some none)
  else
    match stopReason rt.floats rt.verify received.room received.messages with
    | none => .ret (a, none)
    | some reason =>
        .call (ClientCall.complete received.messages) fun _ =>
          (if received.held then .ret (a, some ()) else a.commitReads received.room) >>= fun committed =>
            .ret (committed.1, committed.2.map fun _ => some reason)

def injectAt (w : Reader) (received : Received) : Option (Option String) × Reader :=
  let ((agent, printed), desk) := drive (Desk.answer cfg cardBytes fresh rt) (inject rt w.agent received) w.desk
  (printed, ⟨desk, agent⟩)

/-- The same hub and ledger for the tools, whose host has nothing more to ask. -/
def toolAnswer : (op : ClientCall mcpHost) → Desk → op.Res × Desk
  | .request frame, w => w.answer cfg cardBytes fresh rt (.request frame)
  | .admitMessage message, w => w.answer cfg cardBytes fresh rt (.admitMessage message)
  | .complete messages, w => w.answer cfg cardBytes fresh rt (.complete messages)
  | .release messages, w => w.answer cfg cardBytes fresh rt (.release messages)
  | .sign .., w => (none, w)
  | .ask .next, w => (McpInput.closed, w)
  | .ask (.reply _), w => ((), w)
  | .ask .budget, w => ((none : Option Nat), w)
  | .ask .poll, w => (false, w)
  | .ask .sessionKey, w => ((none : Option (Option String)), w)
  | .ask (.log _), w => ((), w)

variable (S : McpServer)

/-- One call of `parler_recv` that goes by the cursor. -/
def recvAt (room : String) (limit : Option Nat) (w : Reader) : ToolResult × Reader :=
  let ((agent, result), desk) := drive (toolAnswer cfg cardBytes fresh rt)
    (recvTool S 0 w.agent (some room) none none limit none) w.desk
  (result, ⟨desk, agent⟩)

/-- What one call after the other returns. -/
def recvs (room : String) : List (Option Nat) → Reader → List StoredMessage
  | [], _ => []
  | limit :: limits, w =>
      (recvAt cfg cardBytes fresh rt S room limit w).1.rendered ++
        recvs room limits (recvAt cfg cardBytes fresh rt S room limit w).2

/-- Some later call of `parler_recv` returns the message. -/
def StillReturned (room : String) (w : Reader) (m : StoredMessage) : Prop :=
  ∃ limits, m ∈ recvs cfg cardBytes fresh rt S room limits w

variable {cfg cardBytes fresh rt} {room : String}

variable (cfg cardBytes fresh rt) in
theorem toolAnswer_request (frame : ClientFrame) (w : Desk) :
    toolAnswer cfg cardBytes fresh rt (.request frame) w = w.answer cfg cardBytes fresh rt (.request frame) := rfl

/-- A commit of what was pulled moves the cursor there. -/
theorem commitReads_run {H : Host} {answer : (op : ClientCall H) → Desk → op.Res × Desk}
    (requests : ∀ frame w, answer (.request frame) w = w.answer cfg cardBytes fresh rt (.request frame))
    {desk : Desk} {a : MeshAgent} {ends : Int} (formed : desk.Formed)
    (member : desk.hub.store.isMember room rt.me.id = true) (order : SeqOrder desk.hub.store)
    (positive : 0 ≤ desk.hub.store.getCursor room rt.me.id) (pending : a.pending room = ends)
    (forward : desk.hub.store.getCursor room rt.me.id ≤ ends)
    (known : a.committed room ≤ desk.hub.store.getCursor room rt.me.id) :
    ∃ a' desk', drive answer (a.commitReads room) desk = ((a', some ()), desk') ∧
      Reader.Ready rt ⟨desk', a'⟩ room ∧ Reader.cursor rt ⟨desk', a'⟩ room = ends ∧
      desk'.hub.store.messages = desk.hub.store.messages := by
  by_cases skips : a.commitSkips room ends = true
  · have here : desk.hub.store.getCursor room rt.me.id = ends := by
      rw [MeshAgent.commitSkips, Bool.or_eq_true, decide_eq_true_eq, decide_eq_true_eq] at skips
      omega
    refine ⟨a.release room, desk, ?_, ⟨formed, member, order, positive, Or.inr ?_, known⟩, here, rfl⟩
    · rw [MeshAgent.commitReads, pending, if_pos skips]
      rfl
    · rw [MeshAgent.pending_release, pending]
      exact le_of_eq here.symm
  · have ready : Reader.Ready rt ⟨desk, .fresh⟩ room :=
      ⟨formed, member, order, positive, Or.inr positive, positive⟩
    obtain ⟨reply, desk', answered, formed', -, member', order', messages', cursor'⟩ :=
      ready.answer_commit cfg cardBytes fresh rt forward
    refine ⟨a.recordCommit room ends, desk', ?_, ⟨formed', member', order', ?_, Or.inr (le_of_eq ?_),
      le_of_eq ?_⟩, cursor', messages'⟩
    · rw [MeshAgent.commitReads, pending, if_neg skips]
      exact drive_call ((requests _ _).trans answered) _
    · exact (positive.trans forward).trans (le_of_eq cursor'.symm)
    · have kept := a.pending_committed room
      rw [pending] at kept
      exact kept.trans cursor'.symm
    · refine Eq.trans ?_ cursor'.symm
      simp [MeshAgent.committed, MeshAgent.recordCommit, MeshAgent.release]

variable (cfg cardBytes fresh rt) in
/-- Asking for the join requests changes nothing. -/
theorem answer_joinRequests (room : String) (w : Desk) :
    ∃ reply, w.answer cfg cardBytes fresh rt (.request (.joinRequests room)) = (reply, w) := by
  have ran : ((handleFrame cfg rt.me fresh cardBytes (.joinRequests room)).prog.run w.hub).2 = w.hub := by
    show ((handleJoinRequests cfg rt.me room).prog.run w.hub).2 = w.hub
    cases found : w.hub.store.pendingJoinRequests room rt.me.id <;>
      simp [handleJoinRequests, Handler.call, Handler.andThen, hubMachine, HubCall.exec, Handler.check,
        found, Bind.bind, Pure.pure, Prog.bind]
  cases reply : (handleFrame cfg rt.me fresh cardBytes (.joinRequests room)).prog.run w.hub with
  | mk result hub =>
    obtain rfl : hub = w.hub := by rw [← ran, reply]
    cases result with
    | ok frame => exact ⟨some frame, w.answer_request cfg cardBytes fresh rt reply⟩
    | error failure => exact ⟨none, by simp only [Desk.answer, reply]⟩

variable (cfg cardBytes fresh) in
/-- One call returns the first messages above the cursor, and leaves the others above it. -/
theorem recvAt_run {w : Reader} (ready : w.Ready rt room) (limit : Option Nat) :
    ∃ w', recvAt cfg cardBytes fresh rt S room limit w =
        (⟨false, (w.desk.hub.store.backlog room (w.cursor rt room)).take
          (Store.pullLimit (recvLimit limit S.verbose)), []⟩, w') ∧
      w'.Ready rt room ∧
      w'.desk.hub.store.backlog room (w'.cursor rt room) =
        (w.desk.hub.store.backlog room (w.cursor rt room)).drop
          (Store.pullLimit (recvLimit limit S.verbose)) := by
  obtain ⟨desk, a⟩ := w
  set lim := recvLimit limit S.verbose with limit_is
  set c := Reader.cursor rt ⟨desk, a⟩ room with cursor
  set page := (desk.hub.store.backlog room c).take (Store.pullLimit lim) with paged
  obtain ⟨ack, acked, old⟩ : ∃ ack, a.ackFor room = some ack ∧ ack ≤ c := by
    unfold MeshAgent.ackFor
    by_cases held : room ∈ a.heldReads
    · exact ⟨0, by rw [if_pos held], ready.positive⟩
    · exact ⟨a.pending room, by rw [if_neg held], ready.synced.resolve_left held⟩
  set ends := pageEnd c page with ended
  have first : drive (toolAnswer cfg cardBytes fresh rt) (pullOrWait 0 a room lim none) desk =
      ((a.recordAck room ends, some page), desk) := by
    have pulled : drive (toolAnswer cfg cardBytes fresh rt) (a.pull room lim) desk =
        ((a.recordAck room ends, some page), desk) := by
      unfold MeshAgent.pull
      rw [acked]
      exact drive_call ((toolAnswer_request cfg cardBytes fresh rt _ _).trans
        (ready.answer_pull cfg cardBytes fresh rt old lim)) _
    unfold pullOrWait
    rw [drive_bind, pulled]
    dsimp only
    rw [if_neg (by simp)]
    rfl
  have pending : (a.recordAck room ends).pending room = ends := by simp
  have forward : c ≤ ends := le_pageEnd c _
  have rest : desk.hub.store.backlog room ends =
      (desk.hub.store.backlog room c).drop (Store.pullLimit lim) := by
    rcases Nat.eq_zero_or_pos (Store.pullLimit lim) with zero | positive
    · rw [ended, paged, zero, List.take_zero, List.drop_zero]
      rfl
    · exact ready.order.backlog_pageEnd room c positive
  -- An empty page needs no commit.
  obtain ⟨a', desk', commits, ready', cursor', messages'⟩ : ∃ a' desk',
      drive (toolAnswer cfg cardBytes fresh rt) (if page.isEmpty then .ret (a.recordAck room ends, some ())
        else (a.recordAck room ends).commitReads room) desk = ((a', some ()), desk') ∧
      Reader.Ready rt ⟨desk', a'⟩ room ∧ Reader.cursor rt ⟨desk', a'⟩ room = ends ∧
      desk'.hub.store.messages = desk.hub.store.messages := by
    by_cases empty : page.isEmpty = true
    · have here : ends = c := by
        rw [ended, List.isEmpty_iff.mp empty]
        rfl
      rw [if_pos empty]
      exact ⟨a.recordAck room ends, desk, rfl, ⟨ready.formed, ready.member, ready.order, ready.positive,
        Or.inr (le_of_eq (pending.trans here)), ready.committed⟩, here.symm, rfl⟩
    · rw [if_neg empty]
      exact commitReads_run (toolAnswer_request cfg cardBytes fresh rt) ready.formed ready.member ready.order
        ready.positive pending
        forward ready.committed
  obtain ⟨reply, noticed⟩ := answer_joinRequests cfg cardBytes fresh rt room desk'
  have notice : drive (toolAnswer cfg cardBytes fresh rt) (pendingJoinNotice room) desk' = ((), desk') :=
    drive_call ((toolAnswer_request cfg cardBytes fresh rt _ _).trans noticed) _
  refine ⟨⟨desk', a'⟩, ?_, ready', ?_⟩
  · have run : drive (toolAnswer cfg cardBytes fresh rt) (recvTool S 0 a (some room) none none limit none)
        desk = ((a', ⟨false, page, []⟩), desk') := by
      show drive (toolAnswer cfg cardBytes fresh rt) (recvNew 0 a room lim none) desk = _
      unfold recvNew
      rw [drive_bind, first]
      dsimp only
      rw [drive_bind, commits]
      dsimp only
      rw [drive_bind, notice]
      rfl
    unfold recvAt
    rw [run]
  · rw [cursor', ← rest, Store.backlog, messages', Store.backlog]

variable (cfg cardBytes fresh) in
/-- What the calls return is above the cursor. -/
theorem recvs_subset {w : Reader} (ready : w.Ready rt room) (limits : List (Option Nat)) :
    recvs cfg cardBytes fresh rt S room limits w ⊆ w.desk.hub.store.backlog room (w.cursor rt room) := by
  induction limits generalizing w with
  | nil => exact List.nil_subset _
  | cons limit limits ih =>
    obtain ⟨w', run, ready', left⟩ := recvAt_run cfg cardBytes fresh S ready limit
    have later := ih ready'
    rw [left] at later
    rw [recvs, run]
    exact List.append_subset.mpr ⟨List.take_subset _ _, List.Subset.trans later (List.drop_subset _ _)⟩

/-- A message is still returned exactly if it is above the cursor. -/
theorem stillReturned_iff {w : Reader} (ready : w.Ready rt room) {m : StoredMessage} :
    StillReturned cfg cardBytes fresh rt S room w m ↔
      m ∈ w.desk.hub.store.backlog room (w.cursor rt room) := by
  constructor
  · rintro ⟨limits, returned⟩
    exact recvs_subset cfg cardBytes fresh S ready limits returned
  · intro above
    obtain ⟨before, later, split⟩ := List.append_of_mem above
    -- Every call passes a message before it, or returns it.
    induction length : before.length using Nat.strong_induction_on generalizing w before with
    | _ n ih =>
      obtain ⟨w', run, ready', left⟩ := recvAt_run cfg cardBytes fresh S ready none
      set lim := Store.pullLimit (recvLimit none S.verbose) with limited
      have positive : 0 < lim := by
        apply Nat.pos_of_ne_zero
        apply pullLimit_ne_zero
        rw [recvLimit]
        cases S.verbose <;> simp
      by_cases inside : before.length < lim
      · refine ⟨[none], ?_⟩
        rw [recvs, run, split]
        refine List.mem_append_left _ ?_
        rw [List.mem_take_iff_getElem]
        exact ⟨before.length, by simp; omega, by simp⟩
      · have rest : w'.desk.hub.store.backlog room (w'.cursor rt room) = before.drop lim ++ m :: later := by
          rw [left, split, List.drop_append_of_le_length (by omega)]
        have shorter : (before.drop lim).length < n := by
          rw [List.length_drop]
          omega
        obtain ⟨limits, returned⟩ := ih _ shorter ready' (by simp [rest]) _ rest rfl
        refine ⟨none :: limits, ?_⟩
        rw [recvs, run]
        exact List.mem_append_right _ returned

/-! ## The wake -/

variable {kind : RoomKind} {workerRole : Option String} {limit : Option Nat} {w w' : Reader} {received : Received}

/-- A batch that wakes is deferred: it is a part of the page above the cursor, and the page is what the
    process would commit. -/
theorem receive_woken (ready : w.Ready rt room)
    (run : w.receive cfg cardBytes fresh rt room kind workerRole limit = (some received, w'))
    (woken : received.messages ≠ []) :
    let page := (w.desk.hub.store.backlog room (w.cursor rt room)).take (Store.pullLimit limit)
    received.room = room ∧ received.held = page.any (fun m => rt.treats room kind workerRole m .hold) ∧
      received.messages ⊆ page ∧ w'.Ready rt room ∧
      w'.cursor rt room = w.cursor rt room ∧ w'.desk.hub.store.messages = w.desk.hub.store.messages ∧
      w'.agent.pending room = pageEnd (w.cursor rt room) page := by
  intro page
  obtain ⟨received', w₁, run₁, ready', messages', found, -, cursor'⟩ :=
    ready.receive cfg cardBytes fresh rt kind workerRole limit
  obtain ⟨same, rfl⟩ := Prod.mk.inj (run.symm.trans run₁)
  obtain rfl := Option.some.inj same
  have admitted : (rt.admitted room kind workerRole page w.desk.ledger).1 ≠ [] := found ▸ woken
  have inside : received.messages ⊆ page := by
    intro m member
    rw [found] at member
    exact (rt.mem_admitted room kind workerRole member).1
  have still : w'.cursor rt room = w.cursor rt room := by
    rw [cursor', if_pos (Or.inr admitted)]
  suffices deferred : received.room = room ∧
      received.held = page.any (fun m => rt.treats room kind workerRole m .hold) ∧
      w'.agent.pending room = pageEnd (w.cursor rt room) page from
    ⟨deferred.1, deferred.2.1, inside, ready', still, messages', deferred.2.2⟩
  obtain ⟨desk, a⟩ := w
  set c := Reader.cursor rt ⟨desk, a⟩ room with cursor
  obtain ⟨ack, acked, old⟩ : ∃ ack, a.ackFor room = some ack ∧ ack ≤ c := by
    unfold MeshAgent.ackFor
    by_cases held : room ∈ a.heldReads
    · exact ⟨0, by rw [if_pos held], ready.positive⟩
    · exact ⟨a.pending room, by rw [if_neg held], ready.synced.resolve_left held⟩
  have first : drive (Desk.answer cfg cardBytes fresh rt) (a.pull room limit) desk =
      ((a.recordAck room (pageEnd c page), some page), desk) := by
    unfold MeshAgent.pull
    rw [acked]
    exact drive_call (ready.answer_pull cfg cardBytes fresh rt old limit) _
  obtain ⟨s, desk', sifted, -, -, -, messages, held⟩ :=
    siftAll_run cfg cardBytes fresh rt room kind workerRole ready.formed page ⟨[], false, 0⟩
  have pinned : (s.held || !s.messages.isEmpty) = true := by
    rw [messages, List.nil_append]
    simp [admitted]
  have deferred : Reader.receive cfg cardBytes fresh rt room kind workerRole limit ⟨desk, a⟩ =
      (some ⟨room, pageEnd c page, s.messages, s.held, s.dropped⟩,
        ⟨desk', (a.recordAck room (pageEnd c page)).deferReads room⟩) := by
    unfold Reader.receive ConnectorRuntime.receive
    rw [drive_bind, first]
    dsimp only
    rw [drive_bind, sifted]
    dsimp only
    rw [if_pos pinned, MeshAgent.pending_recordAck, if_pos rfl]
    rfl
  obtain ⟨same', rfl⟩ := Prod.mk.inj (run.symm.trans deferred)
  obtain rfl := Option.some.inj same'
  exact ⟨rfl, by rw [held, Bool.false_or], by simp⟩

theorem woken_of_accepted {reason : String} {w'' : Reader}
    (accepted : injectAt cfg cardBytes fresh rt w received = (some (some reason), w'')) :
    received.messages ≠ [] := by
  intro none
  have nothing : injectAt cfg cardBytes fresh rt w received = (some .none, w) := by
    unfold injectAt inject
    rw [none]
    rfl
  rw [nothing] at accepted
  cases accepted

/-- A batch that can be rendered is accepted, and moves the cursor to what was pulled unless a part of it is
    held. -/
theorem injectAt_run (ready : w.Ready rt room) (at_room : received.room = room)
    (woken : received.messages ≠ []) {reason : String} (forward : w.cursor rt room ≤ w.agent.pending room)
    (printed : stopReason rt.floats rt.verify room received.messages = some reason) :
    ∃ w'', injectAt cfg cardBytes fresh rt w received = (some (some reason), w'') ∧
      w''.Ready rt room ∧ w''.desk.hub.store.messages = w.desk.hub.store.messages ∧
      w''.cursor rt room = if received.held then w.cursor rt room else w.agent.pending room := by
  obtain ⟨desk, a⟩ := w
  subst at_room
  have some_message : ¬ received.messages.isEmpty = true := by simpa using woken
  set desk₁ : Desk := { desk with guard := desk.guard.complete received.messages } with completed
  have formed : desk₁.Formed := ready.formed
  have step : ∀ a' desk', drive (Desk.answer cfg cardBytes fresh rt)
      (if received.held then .ret (a, some ()) else a.commitReads received.room) desk₁ =
        ((a', some ()), desk') →
      injectAt cfg cardBytes fresh rt ⟨desk, a⟩ received = (some (some reason), ⟨desk', a'⟩) := by
    intro a' desk' commits
    have run : drive (Desk.answer cfg cardBytes fresh rt) (inject rt a received) desk =
        ((a', some (some reason)), desk') := by
      unfold inject
      rw [if_neg some_message, printed]
      have first : Desk.answer cfg cardBytes fresh rt (.complete received.messages) desk = ((), desk₁) := rfl
      refine (drive_call first _).trans ?_
      rw [drive_bind, commits]
      rfl
    unfold injectAt
    rw [run]
  by_cases held : received.held = true
  · rw [if_pos held] at step ⊢
    exact ⟨⟨desk₁, a⟩, step a desk₁ rfl,
      ⟨formed, ready.member, ready.order, ready.positive, ready.synced, ready.committed⟩, rfl, rfl⟩
  · rw [if_neg held] at step ⊢
    obtain ⟨a', desk', commits, ready', cursor', messages'⟩ := commitReads_run
      (fun frame w => rfl) formed ready.member ready.order ready.positive rfl forward ready.committed
    exact ⟨⟨desk', a'⟩, step a' desk' commits, ready', messages', cursor'⟩

end Processes

/-! ## One message -/

/-- Bob listens to everything; every signature is good. -/
def openBob : ConnectorRuntime := ⟨bitsFormat, fun _ _ _ => true, bob, ⟨.open, [], []⟩⟩

def bobTools : McpServer := ⟨bitsFormat, bob, false, fun _ => false⟩

/-- Bob has joined Alice's room. -/
def joinedRoom : DemoPool :=
  demoPlay [demoFrame 0 alice (.invite .channel (some "r") none none false), demoFrame 1 bob (.redeem "c0")]

/-- Alice has sent a text. -/
def textReader (text : String) : Reader :=
  ⟨⟨{ joinedRoom.state with store := { joinedRoom.state.store with
      messages := [⟨1, "m2", "r", "A", "alice", none, [.text text, signedPart "v"], none, none, 0, 0, none⟩]
      messageSeq := 1 } }, none, .persistent⟩, .fresh⟩

def textMessage (text : String) : StoredMessage := heldMessage 1 "m2" [.text text, signedPart "v"]

theorem textReader_ready (text : String) : (textReader text).Ready openBob "r" := by
  have start : joinedRoom.state.store.isMember "r" "B" = true ∧
      joinedRoom.state.store.getCursor "r" "B" = 0 := by decide +kernel
  have cursor : (textReader text).cursor openBob "r" = 0 := start.2
  refine ⟨⟨⟨rfl, Fifo.empty_bounded⟩, ⟨List.nodup_nil, Nat.zero_le _⟩⟩, start.1, ?_, ge_of_eq cursor,
    Or.inr (ge_of_eq cursor), ge_of_eq cursor⟩
  exact ⟨List.pairwise_singleton _ _, by simp [textReader]⟩

theorem textReader_backlog (text : String) :
    (textReader text).desk.hub.store.backlog "r" ((textReader text).cursor openBob "r") = [textMessage text] := by
  have cursor : (textReader text).cursor openBob "r" = 0 := by
    have start : joinedRoom.state.store.getCursor "r" "B" = 0 := by decide +kernel
    exact start
  rw [cursor]
  rfl

theorem textMessage_sig (text : String) :
    MessageSig.fromParts (textMessage text).parts = some ⟨"s", 1, "v", .room "r"⟩ :=
  MessageSig.ofPart_toPart ⟨"s", 1, "v", .room "r"⟩ (by decide)

theorem textMessage_wakes (text : String) : openBob.treats "r" .channel none (textMessage text) .wake := by
  refine ⟨?_, verifyMessageForRoom_valid.mpr ⟨_, textMessage_sig text, rfl, ?_⟩, rfl⟩
  · show "A" ≠ "B"
    decide
  · simp [routedHere, textMessage, heldMessage]

theorem textMessage_line (text : String) :
    wakeLines openBob.floats openBob.verify [textMessage text] = some ["[1] alice: " ++ text] := by
  have shows : Showable (textMessage text) := by
    intro p member
    rcases List.mem_cons.mp member with rfl | sig
    · intro other cuts
      cases cuts
    · rw [List.mem_singleton.mp sig, TipShortens, fromPart_of_sig (by rfl)]
      intro other cuts
      cases cuts
  obtain ⟨line, shown⟩ := Option.isSome_iff_exists.mp
    (@tryRenderMessage_isSome openBob.floats openBob.verify (textMessage text) |>.mpr shows)
  have line_is : line = "[1] alice: " ++ text := by
    have body : renderParts openBob.floats (textMessage text).parts = text := rfl
    rw [tryRenderMessage_eq shown, renderMessage, verifyMessage, textMessage_sig, body]
    rfl
  rw [wakeLines, List.mapM_cons, shown, line_is]
  rfl

/-- Bob is handed the message, and it is committed. -/
theorem textReader_run (text : String) : ∃ received w' reason w'',
    (textReader text).receive demoConfig (fun _ => []) (demoFresh 0) openBob "r" .channel none none =
        (some received, w') ∧
      received.messages = [textMessage text] ∧ received.held = false ∧
      injectAt demoConfig (fun _ => []) (demoFresh 0) openBob w' received = (some (some reason), w'') ∧
      stopReason openBob.floats openBob.verify "r" [textMessage text] = some reason ∧
      Reader.Ready openBob ⟨w''.desk, .fresh⟩ "r" ∧
      w''.desk.hub.store.backlog "r" (w''.cursor openBob "r") = [] := by
  have ready := textReader_ready text
  obtain ⟨received, w', run, -, -, messages, -⟩ :=
    ready.receive demoConfig (fun _ => []) (demoFresh 0) openBob .channel none none
  have page : ((textReader text).desk.hub.store.backlog "r" ((textReader text).cursor openBob "r")).take
      (Store.pullLimit none) = [textMessage text] := by
    rw [textReader_backlog]
    rfl
  have key : replayKey (textMessage text) = some "A:v" := by
    rw [replayKey, textMessage_sig]
    rfl
  have no_ledger : (textReader text).desk.ledger = [] := rfl
  have whole : received.messages = [textMessage text] := by
    rw [messages, page, no_ledger]
    simp [ConnectorRuntime.admitted, key, textMessage_wakes]
  have woken : received.messages ≠ [] := by simp [whole]
  obtain ⟨at_room, held, -, ready', still, messages', pending⟩ := receive_woken ready run woken
  have forward : w'.cursor openBob "r" ≤ w'.agent.pending "r" := by
    rw [still, pending]
    exact le_pageEnd _ _
  have printed : ∃ reason, stopReason openBob.floats openBob.verify "r" received.messages = some reason := by
    rw [stopReason, whole, textMessage_line]
    exact ⟨_, rfl⟩
  obtain ⟨reason, printed⟩ := printed
  obtain ⟨w'', accepted, ready'', messages'', cursor''⟩ := injectAt_run ready' at_room woken forward printed
  have free : received.held = false := by
    rw [held, page, List.any_cons, List.any_nil, Bool.or_false, decide_eq_false_iff_not]
    intro holds
    have decides := holds.2.2.symm.trans (textMessage_wakes text).2.2
    cases decides
  have later : Reader.Ready openBob ⟨w''.desk, .fresh⟩ "r" :=
    ⟨ready''.formed, ready''.member, ready''.order, ready''.positive, Or.inr ready''.positive, ready''.positive⟩
  have passed : w''.desk.hub.store.backlog "r" (w''.cursor openBob "r") = [] := by
    rw [cursor'', free, if_neg (by simp), pending, page, Store.backlog, messages'', messages']
    rfl
  exact ⟨received, w', reason, w'', run, whole, free, accepted, whole ▸ printed, later, passed⟩

/-- A longer message is cut, and no call of `parler_recv` returns it any more. -/
theorem long_text_lost {text : String} (long : wakeCap + 401 < text.toList.length) : ∃ received w' reason w'',
    (textReader text).receive demoConfig (fun _ => []) (demoFresh 0) openBob "r" .channel none none =
        (some received, w') ∧
      received.messages = [textMessage text] ∧
      injectAt demoConfig (fun _ => []) (demoFresh 0) openBob w' received = (some (some reason), w'') ∧
      ¬ ("[1] alice: " ++ text).toList <:+: reason.toList ∧
      Reader.Ready openBob ⟨w''.desk, .fresh⟩ "r" ∧
      ¬ StillReturned demoConfig (fun _ => []) (demoFresh 0) openBob bobTools "r" ⟨w''.desk, .fresh⟩
        (textMessage text) := by
  obtain ⟨received, w', reason, w'', run, whole, -, accepted, printed, later, passed⟩ := textReader_run text
  refine ⟨received, w', reason, w'', run, whole, accepted, ?_, later, ?_⟩
  · intro inside
    have longer := inside.length_le
    have short := length_stopReason_le printed
    have room : "r".toList.length = 1 := rfl
    rw [String.toList_append, List.length_append] at longer
    omega
  · rw [stillReturned_iff bobTools later]
    have none_left : w''.desk.hub.store.backlog "r" (Reader.cursor openBob ⟨w''.desk, .fresh⟩ "r") = [] := passed
    rw [none_left]
    exact List.not_mem_nil

/-- A text of so many letters. -/
def letters (n : Nat) : String := String.ofList (List.replicate n 'a')

theorem length_letters (n : Nat) : (letters n).toList.length = n := by
  rw [letters, String.toList_ofList, List.length_replicate]

end Parler.Cli
