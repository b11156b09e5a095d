import Parler.Cli.WakeCuts

/-!
# What a late joiner is shown

`enter_session` of `crates/parler-cli/src/mcp.rs` shows a digest of the messages that the joiner has not read, and
commits them; the two prompts show the room without reading it. What a digest leaves out, and what a message is cut
by, is read again with `parler_recv since=..`.
-/

namespace Parler.Cli

open Parler.Lib Parler.Protocol Parler.Hub Parler.Connector

/-! ## The prompts -/

section Prompts

variable (S : McpServer)

/-- The digest of `parler_session_handoff`. -/
def handoffPrompt (active : Option String) : McpClient ToolResult :=
  match active with
  | none => .ret .note
  | some room =>
      .call (ClientCall.request (.pull room (some 0) none none none)) fun reply =>
        .call (ClientCall.request (.roster room)) fun _ =>
          match (reply : Option ServerFrame) with
          | some (.pulled _ messages _) => .ret (digestBacklog S.floats messages .recent)
          | _ => .ret .note

/-- The messages of `parler_consolidate_session`. -/
def consolidatePrompt (active : Option String) : McpClient ToolResult :=
  match active with
  | none => .ret .note
  | some room =>
      .call (ClientCall.request (.pull room (some 0) none none none)) fun reply =>
        match (reply : Option ServerFrame) with
        | some (.pulled _ messages _) => .ret ⟨false, lastN 100 messages, []⟩
        | _ => .ret .note

end Prompts

/-! ## Digests -/

section Digests

variable (F : FloatFormat)

/-- The seed is not between the first message and the newest ones. -/
def Placed (messages : List StoredMessage) : Prop :=
  ∀ i, messages.findIdx? (isSeed F) = some i → i = 0 ∨ messages.length - joinTail ≤ i

/-- What a digest of these messages promises: it is made of the page of those that the hub returns. -/
structure Digests (unread : List StoredMessage) (shown : ToolResult) : Prop where
  once : Placed F (unread.take (Store.pullLimit none)) →
    (shown.rendered ++ shown.omitted).Perm (unread.take (Store.pullLimit none))
  newest : unread.length ≤ Store.pullLimit none → lastN joinTail unread <:+ shown.rendered
  seed : unread.length ≤ Store.pullLimit none → ∀ m, unread.find? (isSeed F) = some m → m ∈ shown.rendered

variable {F} {messages unread : List StoredMessage}

/-- The digest of a long list without the places of its parts. -/
theorem digestBacklog_long (long : joinTail < messages.length) :
    digestBacklog F messages .recent =
      let tailStart := messages.length - joinTail
      let seed := (messages.findIdx? (isSeed F)).filter (fun i => i < tailStart)
      ⟨false, (seed.bind (fun i => messages[i]?)).toList ++ messages.drop tailStart,
        (messages.take tailStart).drop ((seed.map (fun i => i + 1)).getD 0)⟩ := by
  unfold digestBacklog
  rw [if_neg (by simp [long])]

theorem digestBacklog_short {mode : Backlog} (short : mode = .full ∨ messages.length ≤ joinTail) :
    digestBacklog F messages mode = ⟨false, messages, []⟩ := if_pos short

/-- A list that is digested whole, or a long one. -/
theorem backlog_cases (messages : List StoredMessage) (mode : Backlog) :
    (mode = .full ∨ messages.length ≤ joinTail) ∨ mode = .recent ∧ joinTail < messages.length := by
  cases mode with
  | full => exact Or.inl (Or.inl rfl)
  | recent =>
    rcases Nat.lt_or_ge joinTail messages.length with long | short
    · exact Or.inr ⟨rfl, long⟩
    · exact Or.inl (Or.inr short)

theorem digestBacklog_once (placed : Placed F messages) (mode : Backlog) :
    ((digestBacklog F messages mode).rendered ++ (digestBacklog F messages mode).omitted).Perm messages := by
  rcases backlog_cases messages mode with short | ⟨rfl, long⟩
  · rw [digestBacklog_short short, List.append_nil]
  · rw [digestBacklog_long long]
    set tailStart := messages.length - joinTail
    dsimp only
    have whole : (messages.drop tailStart ++ messages.take tailStart).Perm messages := by
      conv_rhs => rw [← List.take_append_drop tailStart messages]
      exact List.perm_append_comm
    cases found : messages.findIdx? (isSeed F) with
    | none => simpa using whole
    | some i =>
      by_cases before : i < tailStart
      · -- A seed before the tail is the first message.
        obtain rfl : i = 0 := (placed i found).resolve_right (not_le.mpr before)
        cases messages with
        | nil => cases found
        | cons m rest =>
          obtain ⟨n, tail_is⟩ := Nat.exists_eq_succ_of_ne_zero (Nat.ne_of_gt before)
          rw [tail_is] at whole ⊢
          simp only [Option.filter_some, Nat.succ_pos, decide_true, if_true, Option.bind_some, Option.map_some,
            Option.getD_some, List.getElem?_cons_zero, Option.toList_some, List.take_succ_cons, List.drop_succ_cons,
            List.drop_zero, List.cons_append, List.nil_append]
          conv_rhs => rw [← List.take_append_drop n rest]
          exact List.perm_append_comm.cons m
      · have later : (some i).filter (fun i => decide (i < tailStart)) = none := by
          rw [Option.filter_some, if_neg (by simpa using before)]
        rw [later]
        simpa using whole

theorem digestBacklog_newest (mode : Backlog) :
    lastN joinTail messages <:+ (digestBacklog F messages mode).rendered := by
  rcases backlog_cases messages mode with short | ⟨rfl, long⟩
  · rw [digestBacklog_short short]
    exact List.drop_suffix _ _
  · rw [digestBacklog_long long]
    exact List.suffix_append _ _

theorem digestBacklog_seed {m : StoredMessage} (seed : messages.find? (isSeed F) = some m) (mode : Backlog) :
    m ∈ (digestBacklog F messages mode).rendered := by
  rcases backlog_cases messages mode with short | ⟨rfl, long⟩
  · rw [digestBacklog_short short]
    exact List.mem_of_find?_eq_some seed
  · rw [digestBacklog_long long]
    dsimp only
    rw [List.find?_eq_bind_findIdx?_getElem?] at seed
    obtain ⟨i, found, there⟩ := Option.bind_eq_some_iff.mp seed
    rw [found]
    by_cases before : i < messages.length - joinTail
    · have early : (some i).filter (fun i => decide (i < messages.length - joinTail)) = some i := by
        rw [Option.filter_some, if_pos (decide_eq_true before)]
      rw [early, Option.bind_some, there]
      exact List.mem_append_left _ (List.mem_singleton_self m)
    · refine List.mem_append_right _ (List.mem_of_getElem? (i := i - (messages.length - joinTail)) ?_)
      rw [List.getElem?_drop, Nat.add_sub_cancel' (not_lt.mp before), there]

theorem digestBacklog_digests (unread : List StoredMessage) (mode : Backlog) :
    Digests F unread (digestBacklog F (unread.take (Store.pullLimit none)) mode) where
  once placed := digestBacklog_once placed mode
  newest fits := by
    rw [List.take_of_length_le fits]
    exact digestBacklog_newest mode
  seed fits m seed := by
    rw [List.take_of_length_le fits]
    exact digestBacklog_seed seed mode

/-! ## Their texts -/

variable {verify : String → List UInt8 → String → Bool}

variable (F verify) in
/-- The text reads as the result: between the seed and the newest messages, a line counts what is left out and
    names the seq before its first message. -/
def ReadsAs (text : String) (shown : ToolResult) : Prop :=
  ∃ seed tail, shown.rendered = seed ++ tail ∧
    text = "\n".intercalate (seed.map (renderMessage F verify) ++
      (shown.omitted.head?.map (fun m => omissionLine shown.omitted.length (m.seq - 1))).toList ++
      tail.map (renderMessage F verify))

theorem tryRenderMessages_eq {lines : List String} (done : messages.mapM (tryRenderMessage F verify) = some lines) :
    lines = messages.map (renderMessage F verify) :=
  mapM_eq_map (fun _ _ shown => tryRenderMessage_eq shown) done

theorem tryDigest_readsAs {mode : Backlog} {text : String} (some_there : messages ≠ [])
    (done : tryDigest F verify messages mode = some text) : ReadsAs F verify text (digestBacklog F messages mode) := by
  rw [tryDigest, if_neg some_there] at done
  rcases backlog_cases messages mode with short | ⟨rfl, long⟩
  · rw [if_pos short, tryRenderAll] at done
    obtain ⟨lines, all, rfl⟩ := Option.map_eq_some_iff.mp done
    rw [digestBacklog_short short, tryRenderMessages_eq all]
    exact ⟨[], messages, rfl, by simp⟩
  · rw [if_neg (by simp [long])] at done
    obtain ⟨index, found, done⟩ := Option.bind_eq_some_iff.mp done
    obtain ⟨first, firsts, done⟩ := Option.bind_eq_some_iff.mp done
    obtain ⟨last, lasts, done⟩ := Option.bind_eq_some_iff.mp done
    rw [digestBacklog_long long, ← trySeedIndex_eq found]
    refine ⟨_, _, rfl, ?_⟩
    rw [← tryRenderMessages_eq firsts, ← tryRenderMessages_eq lasts]
    have count : ((messages.take (messages.length - joinTail)).drop
        (((index.filter (fun i => i < messages.length - joinTail)).map (fun i => i + 1)).getD 0)).length =
        messages.length - joinTail -
          ((index.filter (fun i => i < messages.length - joinTail)).map (fun i => i + 1)).getD 0 := by
      rw [List.length_drop, List.length_take, Nat.min_eq_left (Nat.sub_le _ _)]
    dsimp only
    rw [count]
    exact (Option.some.inj done).symm

/-- The note on a message that is cut. -/
def truncationNote (dropped : Nat) (resume : Int) : String :=
  "…[+" ++ toString dropped ++ " chars — parler_recv since=" ++ toString resume ++ " limit=1 for full]"

/-- A longer message is cut, and names the seq before its own. -/
theorem tryRenderBudgeted_cut {m : StoredMessage} {full : String} (shown : tryRenderMessage F verify m = some full)
    (longer : msgMaxChars < full.toList.length) :
    tryRenderBudgeted F verify m = some (String.ofList (full.toList.take msgMaxChars) ++
      truncationNote (full.toList.length - msgMaxChars) (m.seq - 1)) := by
  rw [tryRenderBudgeted, shown, Option.map_some]
  dsimp only
  rw [if_neg (not_le.mpr longer)]
  simp [truncationNote, String.append_assoc]

end Digests

/-! ## The room meanwhile -/

/-- The agent is where it was in the room, and the room holds what it held, in front of what came later. -/
structure RoomStays (room id : String) (h h' : HubState) : Prop where
  member : h.store.isMember room id = true → h'.store.isMember room id = true
  order : SeqOrder h.store → SeqOrder h'.store
  cursor : h'.store.getCursor room id = h.store.getCursor room id
  posts : ∀ floor, h.store.backlog room floor <+: h'.store.backlog room floor

section RoomStays

variable {room id : String} {h h' h'' : HubState}

theorem RoomStays.refl (h : HubState) : RoomStays room id h h :=
  ⟨fun there => there, fun there => there, rfl, fun _ => List.prefix_refl _⟩

theorem RoomStays.trans (first : RoomStays room id h h') (second : RoomStays room id h' h'') :
    RoomStays room id h h'' where
  member there := second.member (first.member there)
  order there := second.order (first.order there)
  cursor := second.cursor.trans first.cursor
  posts floor := (first.posts floor).trans (second.posts floor)

/-- The requests of a join after its pull and its commit, and that of a prompt. -/
inductive LeavesRooms : ClientFrame → Prop
  | send (room : String) (parts : List Part) (mentions : Option (List String)) (replyTo clientId : Option String) :
      LeavesRooms (.send (.room room) parts mentions replyTo clientId)
  | «recall» (query : String) (room : Option String) (limit : Option Nat) (embedding : Option (List UInt32))
      (key : Option String) : LeavesRooms (.«recall» query room limit embedding key)
  | roster (room : String) : LeavesRooms (.roster room)
  | joinRequests (room : String) : LeavesRooms (.joinRequests room)

/-- The calls that write messages or members. -/
def TouchesRooms : HubCall → Prop
  | .appendMessage _ | .addMember .. | .deleteRoom .. | .redeemInvite .. | .resolveJoin .. | .setCursor ..
  | .pruneMessages .. => True
  | _ => False

theorem quiet_writes {op : HubCall} (quiet : ¬ TouchesRooms op) : .messages ∉ op.writes ∧ .members ∉ op.writes := by
  cases op <;> simp [TouchesRooms, HubCall.writes] at quiet ⊢

theorem stays_quiet (cfg : HubConfig) {op : HubCall} (quiet : ¬ TouchesRooms op) (h : HubState) :
    RoomStays room id h (op.exec cfg h).2 := by
  have messages : (op.exec cfg h).2.store.messages = h.store.messages :=
    (exec_same cfg op h .messages (quiet_writes quiet).1).1
  have members : (op.exec cfg h).2.store.members = h.store.members :=
    exec_same cfg op h .members (quiet_writes quiet).2
  refine ⟨?_, fun order => order.exec op, ?_, ?_⟩
  · intro there
    rw [Store.isMember, members]
    exact there
  · rw [Store.getCursor, members, Store.getCursor]
  · intro floor
    rw [Store.backlog, Store.backlog, messages]

theorem stays_append (cfg : HubConfig) (m : NewMessage) (h : HubState) :
    RoomStays room id h ((HubCall.appendMessage m).exec cfg h).2 where
  member there := isMember_exec cfg (.appendMessage m) h (by simp) there
  order order := order.exec (.appendMessage m)
  cursor := by
    have members : ((HubCall.appendMessage m).exec cfg h).2.store.members = h.store.members :=
      exec_same cfg (.appendMessage m) h .members (by simp [HubCall.writes])
    rw [Store.getCursor, members, Store.getCursor]
  posts floor := append_backlog cfg h m room floor

theorem stays_calm (cfg : HubConfig) (cardBytes : AgentCard → List UInt8) (fresh : Hub.Fresh) (me : Authed)
    {frame : ClientFrame} (calm : LeavesRooms frame) (h : HubState) :
    RoomStays room id h ((handleFrame cfg me fresh cardBytes frame).prog.run h).2 := by
  have made := handleFrame_madeFor cfg me fresh cardBytes frame (by cases calm <;> nofun)
  refine Prog.Calls.run_related RoomStays.refl RoomStays.trans ?_ made h
  intro op h made
  by_cases quiet : TouchesRooms op
  · cases op with
    | appendMessage m => exact stays_append cfg m h
    | _ => cases calm <;> simp [TouchesRooms, HubCall.madeFor, frameTarget] at quiet made
  · exact stays_quiet cfg quiet h

end RoomStays

/-! ## Runs -/

section Runs

variable (cfg : HubConfig) (cardBytes : AgentCard → List UInt8) (fresh : Hub.Fresh) {rt : ConnectorRuntime}
  {room : String} (others : Others rt room) (signer : Target → List Part → Option String → Option Signed)

/-- The others post before every request; the hub answers without errors, and the host has nothing to say. -/
def Joiner.toolAnswer : (op : ClientCall mcpHost) → Joiner → op.Res × Joiner
  | .request frame, s =>
      match (handleFrame cfg rt.me fresh cardBytes frame).prog.run (others.act s.turns s.hub) with
      | (.ok reply, hub) => (some reply, ⟨hub, s.turns + 1⟩)
      | (.error _, hub) => (none, ⟨hub, s.turns + 1⟩)
  | .admitMessage _, s => (none, s)
  | .complete _, s => ((), s)
  | .release _, s => (none, s)
  | .sign target parts replyTo, s => (signer target parts replyTo, s)
  | .ask .next, s => (McpInput.closed, s)
  | .ask (.reply _), s => ((), s)
  | .ask .budget, s => ((none : Option Nat), s)
  | .ask .poll, s => (false, s)
  | .ask .sessionKey, s => ((none : Option (Option String)), s)
  | .ask (.log _), s => ((), s)

/-- The cursor of the agent in the room. -/
def Joiner.cursor (rt : ConnectorRuntime) (s : Joiner) (room : String) : Int := s.hub.store.getCursor room rt.me.id

/-- What the hub holds of the room past a floor when the next request comes. -/
def Joiner.past (others : Others rt room) (s : Joiner) (floor : Int) : List StoredMessage :=
  (others.act s.turns s.hub).store.backlog room floor

/-- Where a read by the cursor begins: what the process has yet to acknowledge was returned before. -/
def Joiner.floor (rt : ConnectorRuntime) (a : MeshAgent) (s : Joiner) (room : String) : Int :=
  max (s.cursor rt room) (if room ∈ a.heldReads then 0 else a.pending room)

variable {s : Joiner}

theorem Joiner.toolAnswer_request {frame : ClientFrame} {reply : ServerFrame} {hub : HubState}
    (ran : (handleFrame cfg rt.me fresh cardBytes frame).prog.run (others.act s.turns s.hub) = (.ok reply, hub)) :
    Joiner.toolAnswer cfg cardBytes fresh others signer (.request frame) s = (some reply, ⟨hub, s.turns + 1⟩) := by
  simp only [Joiner.toolAnswer, ran]
  rfl

theorem stays_others (n : Nat) (h : HubState) : RoomStays room rt.me.id h (others.act n h) :=
  ⟨others.member n h, others.order n h, others.cursor n h, others.posts n h⟩

theorem Joiner.toolAnswer_calm {frame : ClientFrame} (calm : LeavesRooms frame) (s : Joiner) :
    ∃ reply s', Joiner.toolAnswer cfg cardBytes fresh others signer (.request frame) s = (reply, s') ∧
      RoomStays room rt.me.id s.hub s'.hub := by
  have stays := (stays_others others s.turns s.hub).trans
    (stays_calm cfg cardBytes fresh rt.me calm (others.act s.turns s.hub))
  simp only [Joiner.toolAnswer]
  split
  · rename_i reply hub ran
    rw [ran] at stays
    exact ⟨_, _, rfl, stays⟩
  · rename_i failure hub ran
    rw [ran] at stays
    exact ⟨_, _, rfl, stays⟩

/-- A pull acknowledges, and is answered with what is past the cursor then. -/
theorem Joiner.toolAnswer_pull (member : s.hub.store.isMember room rt.me.id = true) (order : SeqOrder s.hub.store)
    (limit : Option Nat) (ack : Int) :
    let page := (s.past others (max (s.cursor rt room) ack)).take (Store.pullLimit limit)
    ∃ s', Joiner.toolAnswer cfg cardBytes fresh others signer (.request (.pull room none limit none (some ack))) s =
        (some (.pulled room page (pageEnd (max (s.cursor rt room) ack) page)), s') ∧
      s'.hub.store.isMember room rt.me.id = true ∧ SeqOrder s'.hub.store ∧
      s'.cursor rt room = max (s.cursor rt room) ack ∧
      ∀ floor, s'.hub.store.backlog room floor = s.past others floor := by
  intro page
  have there := others.member s.turns s.hub member
  have sorted := others.order s.turns s.hub order
  have same : (others.act s.turns s.hub).store.getCursor room rt.me.id = s.cursor rt room :=
    others.cursor s.turns s.hub
  have ran := handlePull_run cfg cardBytes fresh there limit ack
  rw [sorted.readBacklog_eq, same] at ran
  refine ⟨_, Joiner.toolAnswer_request cfg cardBytes fresh others signer ran, ?_⟩
  dsimp only
  by_cases newer : ack > s.cursor rt room
  · rw [if_pos newer, max_eq_right (le_of_lt newer)]
    exact ⟨Store.isMember_setCursor there _, ⟨sorted.increasing, sorted.bounded⟩,
      Store.getCursor_setCursor there _, fun _ => rfl⟩
  · rw [if_neg newer, max_eq_left (not_lt.mp newer)]
    exact ⟨there, sorted, same, fun _ => rfl⟩

/-- A commit leaves the cursor where it is, or moves it to what was pulled. -/
theorem commit_run (member : s.hub.store.isMember room rt.me.id = true) (order : SeqOrder s.hub.store) {a : MeshAgent}
    {ends : Int} (pending : a.pending room = ends) (forward : s.cursor rt room ≤ ends) :
    ∃ a' s', drive (Joiner.toolAnswer cfg cardBytes fresh others signer) (a.commitReads room) s =
        ((a', some ()), s') ∧
      s'.hub.store.isMember room rt.me.id = true ∧ SeqOrder s'.hub.store ∧
      (∀ floor, s.hub.store.backlog room floor <+: s'.hub.store.backlog room floor) ∧
      (s'.cursor rt room = s.cursor rt room ∨ s'.cursor rt room = ends) ∧
      (0 ≤ s.cursor rt room → a.committed room ≤ s.cursor rt room → s'.cursor rt room = ends) := by
  by_cases skips : a.commitSkips room ends = true
  · refine ⟨a.release room, s, ?_, member, order, fun _ => List.prefix_refl _, Or.inl rfl, ?_⟩
    · rw [MeshAgent.commitReads, pending, if_pos skips]
      rfl
    · intro positive known
      rw [MeshAgent.commitSkips, Bool.or_eq_true, decide_eq_true_eq, decide_eq_true_eq] at skips
      omega
  · obtain ⟨s', answered, member', order', moved, posts⟩ :=
      Joiner.toolAnswer_pull cfg cardBytes fresh others signer member order (some 0) ends
    rw [max_eq_right forward] at moved
    refine ⟨a.recordCommit room ends, s', ?_, member', order', ?_, Or.inr moved, fun _ _ => moved⟩
    · rw [MeshAgent.commitReads, pending, if_neg skips]
      exact drive_call answered _
    · intro floor
      rw [posts floor]
      exact others.posts s.turns s.hub floor

/-- The announcement of a join: whatever comes of it, the room stays. -/
theorem announce_run (parts : List Part) (s : Joiner) :
    ∃ sent s', drive (Joiner.toolAnswer cfg cardBytes fresh others signer)
        (Connector.send (.room room) parts none none) s = (sent, s') ∧ RoomStays room rt.me.id s.hub s'.hub := by
  have signs : Joiner.toolAnswer cfg cardBytes fresh others signer
      (ClientCall.sign (.room room) (unsigned parts) none) s = (signer (.room room) (unsigned parts) none, s) := rfl
  unfold Connector.send
  cases drawn : signer (.room room) (unsigned parts) none with
  | none =>
    rw [drawn] at signs
    exact ⟨none, s, drive_call signs _, .refl _⟩
  | some signed =>
    rw [drawn] at signs
    obtain ⟨reply, s', answered, stays⟩ := Joiner.toolAnswer_calm cfg cardBytes fresh others signer
      (.send room (unsigned parts ++ [(MessageSig.mk signed.sig signed.ts signed.uid (.room room)).toPart]) none none
        (some signed.clientId)) s
    cases reply with
    | none => exact ⟨none, s', (drive_call signs _).trans (drive_call answered _), stays⟩
    | some frame =>
      cases frame <;> exact ⟨_, s', (drive_call signs _).trans (drive_call answered _), stays⟩

/-- A join shows a digest of what is past its floor, and the room stays but for the cursor. -/
theorem enterSession_run (S : McpServer) (member : s.hub.store.isMember room rt.me.id = true)
    (order : SeqOrder s.hub.store) (a : MeshAgent) (mode : Backlog) :
    let floor := s.floor rt a room
    let page := (s.past others floor).take (Store.pullLimit none)
    ∃ a' s', drive (Joiner.toolAnswer cfg cardBytes fresh others signer) (enterSession S a room mode) s =
        ((a', digestBacklog S.floats page mode), s') ∧
      s'.hub.store.isMember room rt.me.id = true ∧ SeqOrder s'.hub.store ∧
      (∀ below, s.past others below <+: s'.hub.store.backlog room below) ∧
      (s'.cursor rt room = floor ∨ s'.cursor rt room = pageEnd floor page) ∧
      (0 ≤ floor → a.committed room ≤ floor → s'.cursor rt room = pageEnd floor page) := by
  intro floor page
  obtain ⟨s₁, answered, member₁, order₁, cursor₁, posts₁⟩ :=
    Joiner.toolAnswer_pull cfg cardBytes fresh others signer member order none
      (if room ∈ a.heldReads then 0 else a.pending room)
  have pulled : drive (Joiner.toolAnswer cfg cardBytes fresh others signer) (a.pull room none) s =
      ((a.recordAck room (pageEnd floor page), some page), s₁) := drive_call answered _
  have forward : s₁.cursor rt room ≤ pageEnd floor page := by
    rw [cursor₁]
    exact le_pageEnd _ _
  obtain ⟨a₂, s₂, committed, member₂, order₂, posts₂, moved, known⟩ :=
    commit_run cfg cardBytes fresh others signer member₁ order₁
      (a := a.recordAck room (pageEnd floor page)) (by simp) forward
  obtain ⟨sent, s₃, announced, stays₃⟩ := announce_run cfg cardBytes fresh others signer
    [.text (S.me.name ++ " joined the session")] s₂
  obtain ⟨facts, s₄, recalled, stays₄⟩ := Joiner.toolAnswer_calm cfg cardBytes fresh others signer
    (.«recall» "SESSION DIGEST" (some room) (some 1) none (some "session-digest")) s₃
  obtain ⟨entries, s₅, listed, stays₅⟩ := Joiner.toolAnswer_calm cfg cardBytes fresh others signer (.roster room) s₄
  have stays := (stays₃.trans stays₄).trans stays₅
  refine ⟨a₂, s₅, ?_, stays.member member₂, stays.order order₂, ?_, ?_, ?_⟩
  · unfold enterSession
    rw [drive_bind, pulled]
    dsimp only
    rw [drive_bind, committed]
    dsimp only
    rw [drive_bind, announced]
    exact (drive_call recalled _).trans (drive_call listed _)
  · intro below
    rw [← posts₁ below]
    exact (posts₂ below).trans (stays.posts below)
  · rw [cursor₁] at moved
    exact moved.imp stays.cursor.trans stays.cursor.trans
  · intro positive acked
    rw [cursor₁] at known
    exact stays.cursor.trans (known positive acked)

/-- What was there is there when the next request comes. -/
theorem Joiner.past_mono {m : StoredMessage} {floor : Int} (there : m ∈ s.hub.store.backlog room floor) :
    m ∈ s.past others floor := (others.posts s.turns s.hub floor).subset there

/-- `parler_recv since=..` with the seq before the message returns it first, with `limit=1` alone. -/
def ReadAgain (S : McpServer) (s : Joiner) (m : StoredMessage) : Prop :=
  ∀ a active limit, limit ≠ some 0 → ∃ rest s',
    drive (Joiner.toolAnswer cfg cardBytes fresh others signer)
      (recvTool S 0 a (some room) active (some (m.seq - 1)) limit none) s = ((a, ⟨false, m :: rest, []⟩), s') ∧
    (limit = some 1 → rest = [])

theorem readAgain (S : McpServer) (member : s.hub.store.isMember room rt.me.id = true) (order : SeqOrder s.hub.store)
    {m : StoredMessage} {floor : Int} (there : m ∈ s.hub.store.backlog room floor) :
    ReadAgain cfg cardBytes fresh others signer S s m := by
  intro a active limit asked
  have sorted := others.order s.turns s.hub order
  obtain ⟨rest, listed⟩ := backlog_from sorted (Joiner.past_mono others there)
  set lim := Store.pullLimit (recvLimit limit S.verbose) with limited
  have positive : lim ≠ 0 := by
    apply pullLimit_ne_zero
    cases limit with
    | none =>
      rw [recvLimit, Option.none_or]
      split <;> simp
    | some n => exact asked
  obtain ⟨n, lim_is⟩ := Nat.exists_eq_succ_of_ne_zero positive
  have ran := handlePull_since_run cfg cardBytes fresh (others.member s.turns s.hub member) (m.seq - 1)
    (recvLimit limit S.verbose)
  rw [sorted.readBacklog_eq, ← limited, listed, lim_is, List.take_succ_cons] at ran
  obtain ⟨notice, s', noticed, -⟩ := Joiner.toolAnswer_calm cfg cardBytes fresh others signer (.joinRequests room)
    ⟨others.act s.turns s.hub, s.turns + 1⟩
  refine ⟨rest.take n, s', ?_, ?_⟩
  · refine (drive_call (Joiner.toolAnswer_request cfg cardBytes fresh others signer ran) _).trans ?_
    exact drive_call noticed _
  · rintro rfl
    have one : lim = 1 := rfl
    obtain rfl : n = 0 := by omega
    exact List.take_zero

/-- The handoff prompt shows a digest of the room, and leaves it as it is. -/
theorem handoffPrompt_run (S : McpServer) (member : s.hub.store.isMember room rt.me.id = true)
    (order : SeqOrder s.hub.store) :
    ∃ s', drive (Joiner.toolAnswer cfg cardBytes fresh others signer) (handoffPrompt S (some room)) s =
        (digestBacklog S.floats ((s.past others 0).take (Store.pullLimit none)) .recent, s') ∧
      (∀ floor, s.past others floor <+: s'.hub.store.backlog room floor) ∧ RoomStays room rt.me.id s.hub s'.hub := by
  have ran := handlePull_since_run cfg cardBytes fresh (others.member s.turns s.hub member) 0 none
  rw [(others.order s.turns s.hub order).readBacklog_eq] at ran
  obtain ⟨entries, s', listed, stays⟩ := Joiner.toolAnswer_calm cfg cardBytes fresh others signer (.roster room)
    ⟨others.act s.turns s.hub, s.turns + 1⟩
  refine ⟨s', ?_, stays.posts, (stays_others others s.turns s.hub).trans stays⟩
  refine (drive_call (Joiner.toolAnswer_request cfg cardBytes fresh others signer ran) _).trans ?_
  exact drive_call listed _

/-- The consolidation prompt shows the newest messages, and leaves the room as it is. -/
theorem consolidatePrompt_run (member : s.hub.store.isMember room rt.me.id = true) (order : SeqOrder s.hub.store) :
    ∃ s', drive (Joiner.toolAnswer cfg cardBytes fresh others signer) (consolidatePrompt (some room)) s =
        (⟨false, lastN 100 ((s.past others 0).take (Store.pullLimit none)), []⟩, s') ∧
      RoomStays room rt.me.id s.hub s'.hub := by
  have ran := handlePull_since_run cfg cardBytes fresh (others.member s.turns s.hub member) 0 none
  rw [(others.order s.turns s.hub order).readBacklog_eq] at ran
  exact ⟨⟨others.act s.turns s.hub, s.turns + 1⟩,
    drive_call (Joiner.toolAnswer_request cfg cardBytes fresh others signer ran) _, stays_others others s.turns s.hub⟩

/-- What a digest of these messages is worth for a joiner that is at `s` by then. -/
structure DigestCovers (verify : String → List UInt8 → String → Bool) (S : McpServer) (unread : List StoredMessage)
    (mode : Backlog) (s : Joiner) : Prop where
  digests : Digests S.floats unread (digestBacklog S.floats (unread.take (Store.pullLimit none)) mode)
  resumes : ∀ m rest, (digestBacklog S.floats (unread.take (Store.pullLimit none)) mode).omitted = m :: rest →
    ReadAgain cfg cardBytes fresh others signer S s m
  reads : ∀ text, unread ≠ [] → tryDigest S.floats verify (unread.take (Store.pullLimit none)) mode = some text →
    ReadsAs S.floats verify text (digestBacklog S.floats (unread.take (Store.pullLimit none)) mode)

/-- What a digest leaves out was on the page. -/
theorem omitted_subset {F : FloatFormat} (messages : List StoredMessage) (mode : Backlog) :
    (digestBacklog F messages mode).omitted ⊆ messages := by
  rcases backlog_cases messages mode with short | ⟨rfl, long⟩
  · rw [digestBacklog_short short]
    exact List.nil_subset _
  · rw [digestBacklog_long long]
    exact List.Subset.trans (List.drop_subset _ _) (List.take_subset _ _)

theorem digestCovers {verify : String → List UInt8 → String → Bool} (S : McpServer) (mode : Backlog) {s' : Joiner}
    (member : s'.hub.store.isMember room rt.me.id = true) (order : SeqOrder s'.hub.store) {floor : Int}
    (posts : s.past others floor <+: s'.hub.store.backlog room floor) :
    DigestCovers cfg cardBytes fresh others signer verify S (s.past others floor) mode s' where
  digests := digestBacklog_digests _ mode
  resumes m rest first := by
    have omitted : m ∈ (digestBacklog S.floats ((s.past others floor).take (Store.pullLimit none)) mode).omitted := by
      rw [first]
      exact List.mem_cons_self
    have listed : m ∈ s.past others floor := List.mem_of_mem_take (omitted_subset _ mode omitted)
    exact readAgain cfg cardBytes fresh others signer S member order (posts.subset listed)
  reads text some_there done := by
    refine tryDigest_readsAs ?_ done
    intro none_taken
    rcases List.take_eq_nil_iff.mp none_taken with zero | empty
    · exact absurd zero (by decide)
    · exact some_there empty

end Runs

/-! ## Every history -/

/-- The hub after these requests. -/
def played (frames : List Request) : Joiner := ⟨(demoPlay frames).state, 0⟩

theorem played_order (frames : List Request) : SeqOrder (played frames).hub.store := by
  have reach : Pool.Reachable demoServe Pool.anySchedule demoHub (demoPlay frames) := demoPlay_reachable frames
  exact (pages_hold reach).1

/-- Alice has opened a session with its context, and bob has joined and read it. -/
def readFrames : List Request :=
  [demoFrame 0 alice (.invite .channel (some "r") none none false),
    demoFrame 1 alice (.send (.room "r") [.text "📋 session context\nship by friday"] none none none),
    demoFrame 2 bob (.redeem "c0"), demoFrame 3 bob (.pull "r" none none none none)]

def readSeed : StoredMessage := heldMessage 1 "m1" [.text "📋 session context\nship by friday"]

def textRow (text : String) (n : Nat) : MessageRow :=
  ⟨n + 1, "m" ++ toString n, "r", "A", "alice", none, [.text text], none, none, 0, 0, none⟩

/-- Bob has joined alice's room, and she has written so often; one of her messages is the context. -/
def writtenRoom (seed count : Nat) : Joiner :=
  ⟨{ joinedRoom.state with store := { joinedRoom.state.store with
      messages := (List.range count).map (fun n => textRow (if n = seed then seedMarker else "more") n)
      messageSeq := count } }, 0⟩

theorem writtenRoom_order (seed count : Nat) : SeqOrder (writtenRoom seed count).hub.store := by
  constructor
  · refine List.pairwise_map.mpr (List.pairwise_lt_range.imp ?_)
    intro m n below
    show (m : Int) + 1 < n + 1
    omega
  · intro r listed
    obtain ⟨n, below, rfl⟩ := List.mem_map.mp listed
    have bound := List.mem_range.mp below
    show (n : Int) + 1 ≤ count
    omega

/-- Bob's first join. -/
theorem writtenRoom_join (seed count : Nat) : ∃ a' s',
    drive (Joiner.toolAnswer demoConfig (fun _ => []) (demoFresh 0) (Others.quiet openBob "r") (fun _ _ _ => none))
      (enterSession bobTools .fresh "r" .recent) (writtenRoom seed count) =
        ((a', digestBacklog bitsFormat (((writtenRoom seed count).past (Others.quiet openBob "r") 0).take
          (Store.pullLimit none)) .recent), s') := by
  have start : joinedRoom.state.store.isMember "r" "B" = true ∧
      joinedRoom.state.store.getCursor "r" "B" = 0 := by decide +kernel
  obtain ⟨a', s', run, -⟩ := enterSession_run demoConfig (fun _ => []) (demoFresh 0) (Others.quiet openBob "r")
    (fun _ _ _ => none) (s := writtenRoom seed count) bobTools start.1 (writtenRoom_order seed count) .fresh .recent
  have floor : (writtenRoom seed count).floor openBob .fresh "r" = 0 := max_eq_left (ge_of_eq start.2)
  rw [floor] at run
  exact ⟨a', s', run⟩

/-- What a digest shows or counts. -/
def ToolResult.covered (shown : ToolResult) : List Int := (shown.rendered ++ shown.omitted).map StoredMessage.seq

end Parler.Cli
