import Parler.Hub.Sends

/-!
# Idempotent sends

The key of a message is its room, its author and its client id, if it has one. At most one message is
stored under a key, and while it is, every append under the key reports it. Its one announcement
is that of the append that stored it.
-/

namespace Parler.Hub

open Parler.Lib Parler.Protocol

variable {cfg : HubConfig}

/-! ## Keys -/

/-- The idempotency key: room, author and client id. -/
structure SendKey where
  room : String
  author : String
  clientId : String
  deriving DecidableEq

def NewMessage.key (m : NewMessage) : Option SendKey :=
  m.clientId.map (fun c => ⟨m.room, m.sender.id, c⟩)

def MessageRow.key (r : MessageRow) : Option SendKey :=
  r.clientId.map (fun c => ⟨r.room, r.author, c⟩)

@[simp] theorem toRow_key (m : NewMessage) (seq : Int) : (m.toRow seq).key = m.key := rfl

theorem key_eq_iff {r : MessageRow} {m : NewMessage} {c : String} (keyed : m.clientId = some c) :
    r.key = m.key ↔ r.room = m.room ∧ r.author = m.sender.id ∧ r.clientId = some c := by
  unfold MessageRow.key NewMessage.key
  rw [keyed]
  cases r.clientId with
  | none => simp
  | some d => simp

namespace Store

variable {s : Store} {m : NewMessage}

theorem original_some {row : MessageRow} (found : s.original m = some row) :
    row ∈ s.messages ∧ row.key = m.key ∧ m.key ≠ none := by
  unfold original at found
  split at found
  · cases found
  · rename_i c keyed
    refine ⟨List.mem_of_find?_eq_some found, ?_, ?_⟩
    · rw [key_eq_iff keyed]
      simpa using List.find?_some found
    · simp [NewMessage.key, keyed]

theorem original_none (absent : s.original m = none) {r : MessageRow} (stored : r ∈ s.messages)
    (keyed : m.key ≠ none) : r.key ≠ m.key := by
  unfold original at absent
  split at absent
  · rename_i unkeyed
    exact absurd (by simp [NewMessage.key, unkeyed]) keyed
  · rename_i c keyed
    rw [Ne, key_eq_iff keyed]
    simpa using List.find?_eq_none.mp absent r stored

end Store

/-- What an append does: it reports the message stored under its key, or fails, or stores its own. -/
inductive AppendChange (cfg : HubConfig) (m : NewMessage) (h : HubState) : Prop where
  | replayed (row : MessageRow) (stored : row ∈ h.store.messages) (same : row.key = m.key)
      (keyed : m.key ≠ none)
      (outcome : HubCall.exec cfg (.appendMessage m) h =
        (.ok ⟨row.id, row.seq, 0, true⟩, { h with store := h.store.skipSeq }))
  | failed (e : Failure) (absent : m.key ≠ none → ∀ r ∈ h.store.messages, r.key ≠ m.key)
      (outcome : HubCall.exec cfg (.appendMessage m) h = (.error e, h))
  | stored (absent : m.key ≠ none → ∀ r ∈ h.store.messages, r.key ≠ m.key)
      (outcome : (HubCall.exec cfg (.appendMessage m) h).1 =
        .ok ⟨m.id, h.store.messageSeq + 1, estimateMessageTokens m.parts, false⟩)
      (rows : (HubCall.exec cfg (.appendMessage m) h).2.store.messages =
        h.store.messages ++ [m.toRow (h.store.messageSeq + 1)])

theorem appendChange (cfg : HubConfig) (m : NewMessage) (h : HubState) : AppendChange cfg m h := by
  have absent : h.store.original m = none → m.key ≠ none → ∀ r ∈ h.store.messages, r.key ≠ m.key :=
    fun none keyed r stored => Store.original_none none stored keyed
  cases result : h.store.appendMessage m with
  | error e =>
    refine .failed e (absent ?_) (by simp [HubCall.exec, HubState.tryStoreWith, result])
    unfold Store.appendMessage at result
    split at result
    · cases result
    · assumption
  | ok r =>
    obtain ⟨out, s'⟩ := r
    have outcome : HubCall.exec cfg (.appendMessage m) h = (.ok out, { h with store := s' }) := by
      simp [HubCall.exec, HubState.tryStoreWith, result]
    rcases Store.appendMessage_ok result with ⟨row, found, rfl, rfl⟩ | ⟨none, -, rfl, rfl⟩
    · obtain ⟨stored, same, keyed⟩ := Store.original_some found
      exact .replayed row stored same keyed outcome
    · refine .stored (absent none) (by rw [outcome]) ?_
      rw [outcome]
      obtain ⟨rows, equal⟩ := Store.insertDispatches_eq (s := h.store.insertMessage m) m.room m.id
        (h.store.messageSeq + 1) m.roles
      rw [equal]
      rfl

/-- A stored message was stored before, or by the call. -/
theorem stored_before_or_by (e : HubEvent cfg) {r : MessageRow}
    (stored : r ∈ e.after.store.messages) : r ∈ e.before.store.messages ∨
      ∃ m out, Appended m out e ∧ out.deduped = false ∧ r = m.toRow out.seq := by
  obtain ⟨t, op, h⟩ := e
  have stored : r ∈ (op.exec cfg h).2.store.messages := stored
  cases messageChange_exec cfg op h with
  | kept p rows seq =>
    rw [rows] at stored
    exact Or.inl (List.mem_of_mem_filter stored)
  | appended m append rows seq =>
    subst append
    cases appendChange cfg m h with
    | replayed row found same keyed outcome =>
      rw [outcome] at stored
      exact Or.inl stored
    | failed e absent outcome =>
      rw [outcome] at stored
      exact Or.inl stored
    | stored absent outcome rows =>
      rw [rows, List.mem_append, List.mem_singleton] at stored
      rcases stored with old | rfl
      · exact Or.inl old
      · exact Or.inr ⟨m, _, congrArg (Sigma.mk _) outcome, rfl, rfl⟩

/-! ## One message per key -/

/-- No two messages are stored under one key. -/
def KeysUnique (s : Store) : Prop :=
  ∀ a ∈ s.messages, ∀ b ∈ s.messages, a.key ≠ none → a.key = b.key → a = b

theorem KeysUnique.exec {h : HubState} (unique : KeysUnique h.store) (op : HubCall) :
    KeysUnique (op.exec cfg h).2.store := by
  cases messageChange_exec cfg op h with
  | kept p rows seq =>
    intro a first b second keyed same
    rw [rows] at first second
    exact unique a (List.mem_of_mem_filter first) b (List.mem_of_mem_filter second) keyed same
  | appended m append rows seq =>
    subst append
    have absent : m.key ≠ none → ∀ r ∈ h.store.messages, r.key ≠ m.key := by
      cases appendChange cfg m h with
      | replayed row stored same keyed outcome =>
        have unchanged := congrArg List.length rows
        simp [outcome, Store.skipSeq] at unchanged
      | failed e absent outcome => exact absent
      | stored absent outcome rows => exact absent
    intro a first b second keyed same
    rw [rows, List.mem_append, List.mem_singleton] at first second
    rcases first with old | rfl
    · rcases second with old' | rfl
      · exact unique a old b old' keyed same
      · exact absurd same (absent (fun unkeyed => keyed (same.trans unkeyed)) a old)
    · rcases second with old | rfl
      · exact absurd same.symm (absent keyed b old)
      · rfl

/-- The call takes the message of the key out of the store. -/
def Drops (key : SendKey) (e : HubEvent cfg) : Prop :=
  (∃ r ∈ e.before.store.messages, r.key = some key) ∧ ∀ r ∈ e.after.store.messages, r.key ≠ some key

/-- Messages are taken out by pruning and with their room. -/
theorem Drops.cases {key : SendKey} {e : HubEvent cfg} (drops : Drops key e) :
    (∃ retain keep now, e.op = .pruneMessages retain keep now) ∨
      ∃ owner, e.op = .deleteRoom key.room owner := by
  obtain ⟨⟨r, stored, keyed⟩, gone⟩ := drops
  have lost : r ∉ e.after.store.messages := fun stays => gone r stays keyed
  have here : r.room = key.room := by
    unfold MessageRow.key at keyed
    obtain ⟨c, -, rfl⟩ := Option.map_eq_some_iff.mp keyed
    rfl
  obtain ⟨t, op, h⟩ := e
  have stored : r ∈ h.store.messages := stored
  have lost : r ∉ (op.exec cfg h).2.store.messages := lost
  have written : TableName.messages ∈ op.writes := by
    by_contra other
    obtain ⟨rows, -⟩ := exec_same cfg op h .messages other
    exact lost (rows ▸ stored)
  cases op with
  | pruneMessages retain keep now => exact Or.inl ⟨retain, keep, now, rfl⟩
  | appendMessage m =>
    cases appendChange cfg m h with
    | replayed row found same keyed outcome =>
      rw [outcome] at lost
      exact absurd stored lost
    | failed e absent outcome =>
      rw [outcome] at lost
      exact absurd stored lost
    | stored absent outcome rows =>
      rw [rows] at lost
      exact absurd (List.mem_append_left _ stored) lost
  | deleteRoom room owner =>
    refine Or.inr ⟨owner, ?_⟩
    rcases h.tryStore_cases (h.store.deleteRoom room owner) with ⟨s, ok, equal⟩ | unchanged
    · rw [HubCall.exec, equal, (Store.deleteRoom_ok ok).2] at lost
      by_cases same : r.room = room
      · rw [← same, here]
      · refine absurd ?_ lost
        exact List.mem_filter.mpr ⟨stored, by simpa using same⟩
    · rw [HubCall.exec, unchanged] at lost
      exact absurd stored lost
  | _ => simp [HubCall.writes] at written

/-- The message of a key stays what it is until a call takes it out. -/
theorem stays {key : SendKey} {e : HubEvent cfg} {r : MessageRow} (unique : KeysUnique e.before.store)
    (keyed : r.key = some key) (kept : ¬ Drops key e) (stored : r ∈ e.before.store.messages) :
    r ∈ e.after.store.messages := by
  have remains : ∃ r' ∈ e.after.store.messages, r'.key = some key := by
    by_contra gone
    refine kept ⟨⟨r, stored, keyed⟩, ?_⟩
    intro r' stored' same
    exact gone ⟨r', stored', same⟩
  obtain ⟨r', stored', same⟩ := remains
  unfold Event.after at stored' ⊢
  cases messageChange_exec cfg e.op e.before with
  | kept p rows seq =>
    have among := List.mem_of_mem_filter (rows ▸ stored')
    have equal : r = r' := unique r stored r' among (by simp [keyed]) (keyed.trans same.symm)
    exact equal ▸ stored'
  | appended m append rows seq =>
    rw [rows]
    exact List.mem_append_left _ stored

section Runs

variable {cardBytes : AgentCard → List UInt8} {G : HubPool cfg → Nat → HubCall → Prop} {inflight : Nat}
  {P : HubPool cfg}

theorem keysUnique_run (reach : Pool.Reachable (serve cfg cardBytes) G (.boot inflight) P) :
    KeysUnique P.state.store ∧
      ∀ newer e older, P.log = newer ++ e :: older → KeysUnique e.before.store := by
  refine reach.history (I := fun _ h => KeysUnique h.store) ?_ ?_
  · intro a stored
    cases stored
  · intro log e unique
    exact unique.exec e.op

/-- A message that no call has taken out of the store since it was stored is stored. -/
theorem stored_since (reach : Pool.Reachable (serve cfg cardBytes) G (.boot inflight) P)
    {newer older : List (HubEvent cfg)} {e : HubEvent cfg} (split : P.log = newer ++ e :: older)
    {key : SendKey} {r : MessageRow} (keyed : r.key = some key) (stored : r ∈ e.after.store.messages)
    (kept : ∀ g ∈ newer, ¬ Drops key g) : r ∈ P.state.store.messages := by
  refine reach.since (J := fun h => r ∈ h.store.messages) split stored ?_
  intro g later before
  obtain ⟨front, back, rfl⟩ := List.append_of_mem later
  have unique := (keysUnique_run reach).2 front g (back ++ e :: older) (by simp [split])
  exact stays unique keyed (kept g later) before

/-- The message stored under a key was stored by an append, and no call has taken it out since. -/
theorem keyed_origin (reach : Pool.Reachable (serve cfg cardBytes) G (.boot inflight) P) {key : SendKey}
    {r : MessageRow} (stored : r ∈ P.state.store.messages) (keyed : r.key = some key) :
    ∃ newer e older m out, P.log = newer ++ e :: older ∧ Appended m out e ∧ out.deduped = false ∧
      r = m.toRow out.seq ∧ ∀ g ∈ newer, ¬ Drops key g := by
  refine (reach.history (I := fun (log : List (HubEvent cfg)) h => ∀ r ∈ h.store.messages,
    r.key = some key → ∃ newer e older m out, log = newer ++ e :: older ∧ Appended m out e ∧
      out.deduped = false ∧ r = m.toRow out.seq ∧ ∀ g ∈ newer, ¬ Drops key g) ?_ ?_).1 r stored keyed
  · intro r stored
    cases stored
  · intro log e before r stored keyed
    have later : r ∈ e.before.store.messages → ∃ newer e' older m out,
        e :: log = newer ++ e' :: older ∧ Appended m out e' ∧ out.deduped = false ∧
          r = m.toRow out.seq ∧ ∀ g ∈ newer, ¬ Drops key g := by
      intro old
      obtain ⟨newer, e', older, m, out, rfl, append, new, row, kept⟩ := before r old keyed
      refine ⟨e :: newer, e', older, m, out, rfl, append, new, row, ?_⟩
      intro g member
      rcases List.mem_cons.mp member with rfl | member
      · exact fun drops => drops.2 r stored keyed
      · exact kept g member
    rcases stored_before_or_by e stored with old | ⟨m, out, append, new, row⟩
    · exact later old
    · exact ⟨[], e, log, m, out, rfl, append, new, row, by simp⟩

end Runs

/-! ## Announcements -/

/-- The call appends under the key. -/
def sendsUnder (key : SendKey) : HubCall → Bool
  | .appendMessage m => m.key = some key
  | _ => false

theorem sendsUnder_append {key : SendKey} {op : HubCall} (under : sendsUnder key op = true) :
    ∃ m, op = .appendMessage m ∧ m.key = some key := by
  cases op with
  | appendMessage m => exact ⟨m, rfl, of_decide_eq_true under⟩
  | _ => cases under

theorem NewMessage.room_of_key {m : NewMessage} {key : SendKey} (keyed : m.key = some key) :
    m.room = key.room := by
  obtain ⟨c, -, rfl⟩ := Option.map_eq_some_iff.mp keyed
  rfl

/-- The thread appends under the key. -/
def sendsIn (key : SendKey) (log : List (HubEvent cfg)) (t : Nat) : Bool :=
  log.any (fun g => g.thread = t && sendsUnder key g.op)

/-- The announcements that the threads have made, newest first. -/
def announcementsOf (senders : Nat → Bool) (log : List (HubEvent cfg)) : List (HubDone cfg) :=
  (log.filter (fun x => x.op.announces && senders x.thread)).map (fun x => ⟨x.op, x.result⟩)

theorem announcementsOf_thread (log : List (HubEvent cfg)) (t : Nat) :
    announcementsOf (fun u => u = t) log =
      (sendCalls (Pool.ownPast log t)).filter (fun d => d.1.announces) := by
  unfold announcementsOf sendCalls Pool.ownPast
  rw [List.filter_map, List.filter_map, List.filter_filter, List.filter_filter]
  congr 1
  refine List.filter_congr ?_
  intro x _
  have sends : x.op.announces = true → x.op.sends = true := by
    cases x.op <;> simp [HubCall.announces, HubCall.sends]
  by_cases announces : x.op.announces = true
  · simp [announces, sends announces]
  · simp [announces]

/-- The call stores a message. -/
structure Stores (m : NewMessage) (out : AppendOutcome) (e : HubEvent cfg) : Prop where
  appends : Appended m out e
  id : out.id = m.id
  tokens : out.tokens = estimateMessageTokens m.parts
  row : m.toRow out.seq ∈ e.after.store.messages

theorem stores_of_new {m : NewMessage} {out : AppendOutcome} {e : HubEvent cfg}
    (appends : Appended m out e) (new : out.deduped = false) : Stores m out e := by
  obtain ⟨t, op, h⟩ := e
  obtain ⟨rfl, result⟩ := Sigma.mk.inj appends
  have result : (HubCall.exec cfg (.appendMessage m) h).1 = .ok out := eq_of_heq result
  cases appendChange cfg m h with
  | replayed row found same keyed outcome =>
    rw [outcome] at result
    cases result
    cases new
  | failed e absent outcome =>
    rw [outcome] at result
    cases result
  | stored absent outcome rows =>
    rw [outcome] at result
    cases result
    refine ⟨appends, rfl, rfl, ?_⟩
    show _ ∈ (HubCall.exec cfg (.appendMessage m) h).2.store.messages
    rw [rows]
    exact List.mem_append_right _ (List.mem_singleton.mpr rfl)

section Runs

variable {cardBytes : AgentCard → List UInt8} {G : HubPool cfg → Nat → HubCall → Prop} {inflight : Nat}
  {P : HubPool cfg} {key : SendKey} {newer older : List (HubEvent cfg)} {e : HubEvent cfg}
  {m : NewMessage} {out : AppendOutcome}

/-- An append under a key reports the message that is stored under it. -/
theorem replay_of_stored (reach : Pool.Reachable (serve cfg cardBytes) G (.boot inflight) P)
    (split : P.log = newer ++ e :: older) (stores : Stores m out e) (keyed : m.key = some key)
    (kept : ∀ g ∈ newer, ¬ Drops key g) {g : HubEvent cfg} (later : g ∈ newer) {m' : NewMessage}
    (op : g.op = .appendMessage m') (same : m'.key = some key) :
    Appended m' ⟨out.id, out.seq, 0, true⟩ g := by
  obtain ⟨front, back, rfl⟩ := List.append_of_mem later
  have split' : P.log = front ++ g :: (back ++ e :: older) := by simp [split]
  obtain ⟨P', _, _, reach', log, state, -⟩ := reach.event split'
  have stored : m.toRow out.seq ∈ P'.state.store.messages :=
    stored_since reach' log keyed stores.row (fun x member => kept x (by simp [member]))
  have unique := (keysUnique_run reach').1
  obtain ⟨t, op', h⟩ := g
  subst op
  obtain rfl : P'.state = h := state
  cases appendChange cfg m' P'.state with
  | replayed row found equal keyed' outcome =>
    have row_eq : m.toRow out.seq = row := by
      refine unique _ stored row found (by simp [keyed]) ?_
      rw [toRow_key, keyed, equal, same]
    refine congrArg (Sigma.mk _) ((congrArg Prod.fst outcome).trans ?_)
    rw [← row_eq, stores.id]
    rfl
  | failed _ absent _ =>
    exact absurd (keyed.trans same.symm) (absent (by simp [same]) _ stored)
  | stored absent _ _ =>
    exact absurd (keyed.trans same.symm) (absent (by simp [same]) _ stored)

/-- The thread of an append makes the announcement of the append. -/
theorem announcements_of_append (reach : Pool.Reachable (serve cfg cardBytes) G (.boot inflight) P)
    (logged : e ∈ P.log) (appends : Appended m out e) :
    announcementsOf (fun u => u = e.thread) P.log <:+ announced m out ∧
      ∀ req answer, P.answer e.thread = some (req, answer) →
        answer = [.sent out.id out.seq m.room] ∧
          announcementsOf (fun u => u = e.thread) P.log = announced m out := by
  obtain ⟨told, part, calls, finish⟩ := append_trace reach logged appends
  have own : announcementsOf (fun u => u = e.thread) P.log = told := by
    rw [announcementsOf_thread, calls, List.filter_append,
      List.filter_eq_self.mpr (fun d member => announces_of_mem (part.mem member))]
    exact List.append_nil told
  rw [own]
  exact ⟨part, finish⟩

/-- The thread of a replay announces nothing. -/
theorem silent_of_replay (reach : Pool.Reachable (serve cfg cardBytes) G (.boot inflight) P)
    (logged : e ∈ P.log) (appends : Appended m out e) (replay : out.deduped = true)
    {x : HubEvent cfg} (member : x ∈ P.log) (own : x.thread = e.thread) : x.op.announces = false := by
  have part := (announcements_of_append reach logged appends).1
  rw [announced, if_pos replay, List.suffix_nil, announcementsOf, List.map_eq_nil_iff,
    List.filter_eq_nil_iff] at part
  simpa [own] using part x member

/-- If only one of the sends under a key is no replay, only its thread announces anything. -/
theorem announcements_of_sends (reach : Pool.Reachable (serve cfg cardBytes) G (.boot inflight) P)
    (split : P.log = newer ++ e :: older) (under : sendsUnder key e.op = true)
    (replays : ∀ g ∈ newer, ∀ m', g.op = .appendMessage m' → m'.key = some key →
      Appended m' ⟨out.id, out.seq, 0, true⟩ g) :
    announcementsOf (sendsIn key (e :: newer)) P.log =
      announcementsOf (fun u => u = e.thread) P.log := by
  unfold announcementsOf
  congr 1
  refine List.filter_congr ?_
  intro x member
  by_cases announces : x.op.announces = true
  · have senders : sendsIn key (e :: newer) x.thread = true ↔ x.thread = e.thread := by
      constructor
      · intro sends
        obtain ⟨g, sent, own⟩ := List.any_eq_true.mp sends
        rw [Bool.and_eq_true, decide_eq_true_eq] at own
        rcases List.mem_cons.mp sent with rfl | later
        · exact own.1.symm
        · -- The thread would have announced a replay.
          obtain ⟨m', op, same⟩ := sendsUnder_append own.2
          have logged : g ∈ P.log := by
            rw [split]
            exact List.mem_append_left _ later
          have quiet := silent_of_replay reach logged (replays g later m' op same) rfl member own.1.symm
          rw [quiet] at announces
          cases announces
      · intro own
        exact List.any_eq_true.mpr ⟨e, List.mem_cons_self, by simp [own, under]⟩
    rw [announces, Bool.true_and, Bool.true_and, Bool.eq_iff_iff, senders, decide_eq_true_eq]
  · simp [announces]

/-- What the sends under a key have done since its message was stored. -/
structure SentOnce (P : HubPool cfg) (key : SendKey) (newer : List (HubEvent cfg)) (e : HubEvent cfg)
    (m : NewMessage) (out : AppendOutcome) : Prop where
  /-- The message is stored. -/
  stored : m.toRow out.seq ∈ P.state.store.messages
  /-- Every later append under the key is a replay of it. -/
  replays : ∀ g ∈ newer, ∀ m', g.op = .appendMessage m' → m'.key = some key →
    Appended m' ⟨out.id, out.seq, 0, true⟩ g
  /-- Every reply names it. -/
  answers : ∀ g ∈ e :: newer, sendsUnder key g.op = true → ∀ req answer,
    P.answer g.thread = some (req, answer) → answer = [.sent out.id out.seq key.room]
  /-- Together the sends announce it at most once. -/
  atMost : announcementsOf (sendsIn key (e :: newer)) P.log <:+ announcement m out
  /-- They have announced it once the send that stored it is answered. -/
  exactly : ∀ req answer, P.answer e.thread = some (req, answer) →
    announcementsOf (sendsIn key (e :: newer)) P.log = announcement m out

theorem sentOnce (reach : Pool.Reachable (serve cfg cardBytes) G (.boot inflight) P)
    (split : P.log = newer ++ e :: older) (appends : Appended m out e) (new : out.deduped = false)
    (keyed : m.key = some key) (kept : ∀ g ∈ newer, ¬ Drops key g) :
    SentOnce P key newer e m out := by
  have stores := stores_of_new appends new
  have replays : ∀ g ∈ newer, ∀ m', g.op = .appendMessage m' → m'.key = some key →
      Appended m' ⟨out.id, out.seq, 0, true⟩ g :=
    fun g later m' op same => replay_of_stored reach split stores keyed kept later op same
  have logged : ∀ g ∈ e :: newer, g ∈ P.log := by
    intro g member
    rw [split]
    rcases List.mem_cons.mp member with rfl | later
    · exact List.mem_append_right _ List.mem_cons_self
    · exact List.mem_append_left _ later
  have under : sendsUnder key e.op = true := by
    rw [(Sigma.mk.inj appends).1]
    exact decide_eq_true keyed
  have told : announced m out = (announcement m out : List (HubDone cfg)) := by
    simp [announced, new]
  obtain ⟨part, finish⟩ := announcements_of_append reach (logged e List.mem_cons_self) appends
  rw [told] at part finish
  rw [← announcements_of_sends reach split under replays] at part finish
  refine ⟨stored_since reach split keyed stores.row kept, replays, ?_, part, ?_⟩
  · intro g member under req answer answers
    rcases List.mem_cons.mp member with rfl | later
    · rw [(finish req answer answers).1, NewMessage.room_of_key keyed]
    · obtain ⟨m', op, same⟩ := sendsUnder_append under
      have replay := replays g later m' op same
      rw [((announcements_of_append reach (logged g member) replay).2 req answer answers).1,
        NewMessage.room_of_key same]
  · exact fun req answer answers => (finish req answer answers).2

end Runs

/-! ## Counters -/

/-- The tokens that a call adds to the hub's counter. -/
def countedTokens : HubCall → Option Nat
  | .countMessage tokens => some tokens
  | _ => none

theorem counters_exec (cfg : HubConfig) (op : HubCall) (h : HubState) (other : countedTokens op = none) :
    (op.exec cfg h).2.messagesTotal = h.messagesTotal ∧
      (op.exec cfg h).2.tokensTotal = h.tokensTotal := by
  have kept : op.storeOnly = true → (op.exec cfg h).2.messagesTotal = h.messagesTotal ∧
      (op.exec cfg h).2.tokensTotal = h.tokensTotal := by
    intro plain
    obtain ⟨s, equal⟩ := exec_storeOnly cfg op h plain
    rw [equal]
    exact ⟨rfl, rfl⟩
  cases op with
  | countMessage tokens => cases other
  | acquireUpload n =>
    unfold HubCall.exec
    dsimp only
    split <;> exact ⟨rfl, rfl⟩
  | roomRateAllows room kind now => cases kind <;> exact ⟨rfl, rfl⟩
  | tick | rateAllows | lockQuota | unlockQuota | releaseUpload | writeBlobFile | removeBlobFile
  | pruneRateWindows => exact ⟨rfl, rfl⟩
  | _ => exact kept rfl

/-- The counters count the announced messages and their tokens. -/
theorem counters_run {cardBytes : AgentCard → List UInt8} {G : HubPool cfg → Nat → HubCall → Prop}
    {inflight : Nat} {P : HubPool cfg}
    (reach : Pool.Reachable (serve cfg cardBytes) G (.boot inflight) P) :
    P.state.messagesTotal = (P.log.filterMap (fun e => countedTokens e.op)).length ∧
      P.state.tokensTotal = (P.log.filterMap (fun e => countedTokens e.op)).sum := by
  refine (reach.history (I := fun (log : List (HubEvent cfg)) h =>
    h.messagesTotal = (log.filterMap (fun e => countedTokens e.op)).length ∧
      h.tokensTotal = (log.filterMap (fun e => countedTokens e.op)).sum) ⟨rfl, rfl⟩ ?_).1
  intro log e before
  cases counts : countedTokens e.op with
  | none =>
    obtain ⟨messages, tokens⟩ := counters_exec cfg e.op e.before counts
    simp only [List.filterMap_cons, counts]
    exact ⟨messages.trans before.1, tokens.trans before.2⟩
  | some n =>
    obtain ⟨t, op, h⟩ := e
    cases op with
    | countMessage tokens =>
      cases counts
      have messages : h.messagesTotal = _ := before.1
      have tokens : h.tokensTotal = _ := before.2
      simp only [List.filterMap_cons, countedTokens, List.length_cons, List.sum_cons]
      refine ⟨?_, ?_⟩
      · show h.messagesTotal + 1 = _
        rw [messages]
        rfl
      · show h.tokensTotal + n = _
        rw [tokens, Nat.add_comm]
        rfl
    | _ => cases counts

/-- A send without a client id is never taken for a replay. -/
theorem new_of_unkeyed {m : NewMessage} {out : AppendOutcome} {e : HubEvent cfg}
    (appends : Appended m out e) (unkeyed : m.clientId = none) : out.deduped = false := by
  obtain ⟨t, op, h⟩ := e
  obtain ⟨rfl, result⟩ := Sigma.mk.inj appends
  have result : (HubCall.exec cfg (.appendMessage m) h).1 = .ok out := eq_of_heq result
  cases appendChange cfg m h with
  | replayed row found same keyed outcome => exact absurd (by simp [NewMessage.key, unkeyed]) keyed
  | failed e absent outcome =>
    rw [outcome] at result
    cases result
  | stored absent outcome rows =>
    rw [outcome] at result
    cases result
    rfl

/-- Sends are idempotent: at most one message is stored under a key, and it was stored by an append;
    from then on, until a call takes it out, every send under the key is answered with it, and together
    they count it, wake its room and push it once. The counters add up what is counted, and a send
    without a client id stores a message of its own. -/
theorem sends_idempotent {cardBytes : AgentCard → List UInt8} {G : HubPool cfg → Nat → HubCall → Prop}
    {inflight : Nat} {P : HubPool cfg}
    (reach : Pool.Reachable (serve cfg cardBytes) G (.boot inflight) P) :
    KeysUnique P.state.store ∧
    (∀ key, ∀ r ∈ P.state.store.messages, r.key = some key →
      ∃ newer e older m out, P.log = newer ++ e :: older ∧ Appended m out e ∧ out.deduped = false ∧
        r = m.toRow out.seq ∧ ∀ g ∈ newer, ¬ Drops key g) ∧
    (∀ key newer e older m out, P.log = newer ++ e :: older → Appended m out e →
      out.deduped = false → m.key = some key → (∀ g ∈ newer, ¬ Drops key g) →
        Stores m out e ∧ SentOnce P key newer e m out) ∧
    (∀ key, ∀ e : HubEvent cfg, Drops key e →
      (∃ retain keep now, e.op = .pruneMessages retain keep now) ∨
        ∃ owner, e.op = .deleteRoom key.room owner) ∧
    P.state.messagesTotal = (P.log.filterMap (fun e => countedTokens e.op)).length ∧
    P.state.tokensTotal = (P.log.filterMap (fun e => countedTokens e.op)).sum ∧
    (∀ e ∈ P.log, ∀ m out, Appended m out e → m.clientId = none →
      out.deduped = false ∧ Stores m out e) := by
  refine ⟨(keysUnique_run reach).1, ?_, ?_, fun key e drops => drops.cases, (counters_run reach).1,
    (counters_run reach).2, ?_⟩
  · exact fun key r stored keyed => keyed_origin reach stored keyed
  · intro key newer e older m out split appends new keyed kept
    exact ⟨stores_of_new appends new, sentOnce reach split appends new keyed kept⟩
  · intro e logged m out appends unkeyed
    have new := new_of_unkeyed appends unkeyed
    exact ⟨new, stores_of_new appends new⟩

/-- A send, its retry, and the same text without a client id. -/
def retryDemo : DemoPool :=
  demoPlay [demoFrame 0 alice (.invite .channel (some "r") none none false),
    demoFrame 1 alice (.send (.room "r") [.text "hi"] none none (some "k")),
    demoFrame 2 alice (.send (.room "r") [.text "hi"] none none (some "k")),
    demoFrame 3 alice (.send (.room "r") [.text "hi"] none none none)]

theorem sends_idempotent_demo :
    retryDemo.state.messagesTotal = 2 ∧
    ∃ newer e older m out, retryDemo.log = newer ++ e :: older ∧
      SentOnce retryDemo ⟨"r", "A", "k"⟩ newer e m out := by
  have reach : Pool.Reachable demoServe Pool.anySchedule demoHub retryDemo := demoPlay_reachable _
  obtain ⟨-, origin, once, -⟩ := sends_idempotent reach
  have stored : ∃ r ∈ retryDemo.state.store.messages, r.key = some ⟨"r", "A", "k"⟩ := by
    decide +kernel
  obtain ⟨r, stored, keyed⟩ := stored
  obtain ⟨newer, e, older, m, out, split, appends, new, rfl, kept⟩ := origin _ r stored keyed
  exact ⟨by decide +kernel, newer, e, older, m, out, split,
    (once _ newer e older m out split appends new keyed kept).2⟩

end Parler.Hub
