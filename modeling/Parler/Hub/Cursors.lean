import Parler.Hub.Demo
import Parler.Hub.Members
import Parler.Hub.Rules

/-!
# Read cursors under concurrent pulls

`Store::pull` reads the cursor on a pooled reader and later writes it with an
unconditional update. What a pull does with the cursor it read is a discipline of
its program (`cursorRule`); from it follows what holds across all interleavings
in which no cursor statement of a pull is overtaken by a larger update: the
stored cursor never decreases while its row exists, and a message at or below an
acknowledged cursor is not returned again by a cursor read.
-/

namespace Parler.Hub

open Parler.Lib Parler.Protocol Handler

variable {cfg : HubConfig}

/-! ## What a pull does with the cursor it read -/

/-- The cursor a call read. -/
def cursorRead (room agent : String) : HubDone cfg → Option Int
  | ⟨.getCursor r a, c⟩ => if r = room ∧ a = agent then some c else none
  | _ => none

/-- The last cursor a request read. -/
def lastCursorRead (room agent : String) (past : List (HubDone cfg)) : Option Int :=
  past.findSome? (cursorRead room agent)

theorem lastCursorRead_cons (room agent : String) (d : HubDone cfg) (past : List (HubDone cfg)) :
    lastCursorRead room agent (d :: past) =
      (cursorRead room agent d).or (lastCursorRead room agent past) := by
  unfold lastCursorRead
  rw [List.findSome?_cons]
  cases cursorRead room agent d <;> rfl

/-- A pull updates the cursor only past the one it read, and reads the backlog from
    there or above. -/
def cursorRule (past : List (HubDone cfg)) : HubCall → Prop
  | .setCursor room agent v => ∃ c, lastCursorRead room agent past = some c ∧ c < v
  | .readBacklog room agent floor _ => ∀ c, lastCursorRead room agent past = some c → c ≤ floor
  | _ => True

theorem storePull_cursorRule (room agent : String) (since : Option Int) (limit : Option Nat)
    (ack : Option Int) (past : List (HubDone cfg))
    (unread : since.isSome → lastCursorRead room agent past = none) :
    (storePull cfg room agent since limit ack).Follows cursorRule past := by
  cases since with
  | some floor =>
    have unread := unread rfl
    simp [storePull, pullFloor, cursorRule, unread]
  | none =>
    cases ack with
    | none => simp [storePull, pullFloor, cursorRule, lastCursorRead_cons, cursorRead]
    | some a =>
      have acked : ∀ c : Int, c < a → c ≤ a := fun c below => below.le
      simp +contextual [storePull, pullFloor, cursorRule, lastCursorRead_cons, cursorRead, acked]

theorem pullLoop_cursorRule (room agent : String) (limit : Option Nat) (ack : Option Int)
    (rounds : Nat) (past : List (HubDone cfg)) :
    (pullLoop cfg room agent limit ack rounds).Follows cursorRule past := by
  induction rounds generalizing past with
  | zero => exact ⟨trivial, fun _ => storePull_cursorRule room agent none limit ack _ (by simp)⟩
  | succ rounds ih =>
    refine ⟨trivial, fun _ => ?_⟩
    refine follows_bind_free (storePull_cursorRule room agent none limit ack _ (by simp)) ?_
    rintro ⟨messages, cursor⟩ past
    dsimp only
    split
    · exact ⟨trivial, fun _ => ih _⟩
    · trivial

theorem storeWaitedPull_cursorRule (me : Authed) (room : String) (since : Option Int)
    (limit : Option Nat) (ack : Option Int) (rounds : Nat) :
    (storeWaitedPull cfg me room since limit ack rounds).Follows cursorRule [] := by
  simp only [storeWaitedPull, requireMember, bind_bind, follows_call_bind]
  refine ⟨trivial, ?_⟩
  intro member
  rw [ite_bind, fail_bind, return_bind, follows_ite]
  refine ⟨fun _ => trivial, fun _ => ?_⟩
  refine follows_bind_free (storePull_cursorRule room me.id since limit ack _ (fun _ => rfl)) ?_
  intro first past
  split
  · trivial
  · exact pullLoop_cursorRule room me.id limit ack rounds past

theorem serve_cursorRule (cardBytes : AgentCard → List UInt8) (req : Request) :
    (serve cfg cardBytes req).Follows cursorRule [] := by
  cases pulled : req.pulls with
  | none =>
    refine (serve_elsewhere cfg cardBytes req pulled).follows ?_ []
    intro past op other
    cases op <;> trivial
  | some target =>
    cases req with
    | frame me frame fresh upload rounds =>
      cases frame with
      | pull room since limit wait ack =>
        refine dispatch_follows _ _ _ _ upload _ trivial (fun _ => trivial) ?_ ?_ ?_
        · rintro _ _ _ _ _ ⟨⟩
          exact follows_bind_free
            (storeWaitedPull_cursorRule me room since limit ack rounds) (fun _ _ => trivial)
        · rintro _ _ _ _ _ _ ⟨⟩
        · intro now allowed
          simp only [handleFrame, handlePull, requireMember, bind_bind, follows_call_bind]
          refine ⟨trivial, ?_⟩
          intro member
          rw [ite_bind, fail_bind, return_bind, follows_ite]
          refine ⟨fun _ => trivial, fun _ => ?_⟩
          exact follows_bind_free
            (storePull_cursorRule room me.id since limit ack _ (fun _ => rfl)) (fun _ _ => trivial)
      | _ => cases pulled
    | _ => cases pulled

/-! ## The law -/

/-- The call is a cursor read by thread `t`. -/
def ReadsCursor (t : Nat) (room agent : String) (e : HubEvent cfg) : Prop :=
  e.thread = t ∧ e.op = .getCursor room agent

/-- Since the last cursor read of thread `t`, a call has updated the cursor past `v`. -/
def Overtaken (log : List (HubEvent cfg)) (t : Nat) (room agent : String) (v : Int) : Prop :=
  ∃ newer : List (HubEvent cfg), ∃ g older, log = newer ++ g :: older ∧ ReadsCursor t room agent g ∧
    (∀ e ∈ newer, ¬ ReadsCursor t room agent e) ∧
    ∃ e ∈ newer, ∃ v', e.op = .setCursor room agent v' ∧ v < v'

/-- The schedules in which no pull acts on a cursor that a larger update has overtaken. -/
def notOvertaken (P : HubPool cfg) (t : Nat) : HubCall → Prop
  | .setCursor room agent v => ¬ Overtaken P.log t room agent v
  | .readBacklog room agent floor _ => ¬ Overtaken P.log t room agent floor
  | _ => True

/-- The cursor was moved to `v` and its row has existed since. -/
def Acknowledged (log : List (HubEvent cfg)) (room agent : String) (v : Int) : Prop :=
  ∃ newer : List (HubEvent cfg), ∃ a older, log = newer ++ a :: older ∧ a.op = .setCursor room agent v ∧
    a.before.store.isMember room agent ∧ ∀ e ∈ newer, e.after.store.isMember room agent

/-- The cursor law at a call `e` after the calls `older`: the stored cursor does not
    decrease, and a cursor read returns nothing at or below an acknowledged cursor. -/
structure CursorLaw (older : List (HubEvent cfg)) (e : HubEvent cfg) (room agent : String) :
    Prop where
  grows : ∀ row row', e.before.store.memberRow room agent = some row →
    e.after.store.memberRow room agent = some row' → row.cursor ≤ row'.cursor
  final : ∀ floor lim v, e.op = .readBacklog room agent floor lim →
    (∃ g ∈ older, ReadsCursor e.thread room agent g) → Acknowledged older room agent v →
      ∀ m ∈ e.before.store.readBacklog room floor lim, v < m.seq

/-! ## Cursors between a read and its use -/

/-- The last cursor read of a thread stands in the log. -/
theorem lastCursorRead_event {log : List (HubEvent cfg)} {t : Nat} {room agent : String} {c : Int}
    (read : lastCursorRead room agent (Pool.ownPast log t) = some c) :
    ∃ newer g older, log = newer ++ g :: older ∧ ReadsCursor t room agent g ∧
      (∀ e ∈ newer, ¬ ReadsCursor t room agent e) ∧ g.before.store.getCursor room agent = c := by
  induction log with
  | nil => simp [Pool.ownPast, lastCursorRead] at read
  | cons e log ih =>
    by_cases own : ReadsCursor t room agent e
    · refine ⟨[], e, log, rfl, own, by simp, ?_⟩
      obtain ⟨u, op, h⟩ := e
      obtain ⟨rfl, rfl⟩ := own
      rw [Pool.ownPast_cons, if_pos rfl, lastCursorRead_cons] at read
      simpa [cursorRead, Event.result, HubCall.exec] using read
    · have rest : lastCursorRead room agent (Pool.ownPast log t) = some c := by
        rw [Pool.ownPast_cons] at read
        split at read
        · rename_i same
          rw [lastCursorRead_cons] at read
          obtain ⟨u, op, h⟩ := e
          have unread : cursorRead room agent
              (⟨op, (⟨u, op, h⟩ : HubEvent cfg).result⟩ : HubDone cfg) = none := by
            cases op with
            | getCursor r a =>
              simp only [cursorRead, ite_eq_right_iff]
              rintro ⟨rfl, rfl⟩
              exact absurd ⟨same, rfl⟩ own
            | _ => rfl
          simpa [unread] using read
        · exact read
      obtain ⟨newer, g, older, rfl, reads, later, value⟩ := ih rest
      refine ⟨e :: newer, g, older, rfl, reads, ?_, value⟩
      intro e' member
      rcases List.mem_cons.mp member with rfl | old
      · exact own
      · exact later e' old

theorem lastCursorRead_of_mem {log : List (HubEvent cfg)} {t : Nat} {room agent : String}
    {g : HubEvent cfg} (member : g ∈ log) (reads : ReadsCursor t room agent g) :
    ∃ c, lastCursorRead room agent (Pool.ownPast log t) = some c := by
  obtain ⟨u, op, h⟩ := g
  obtain ⟨rfl, rfl⟩ := reads
  have own : (⟨.getCursor room agent, h.store.getCursor room agent⟩ : HubDone cfg) ∈
      Pool.ownPast log u := by
    refine List.mem_map.mpr ⟨⟨u, .getCursor room agent, h⟩, ?_, rfl⟩
    simpa using member
  have found : (lastCursorRead room agent (Pool.ownPast log u)).isSome := by
    refine List.findSome?_isSome_iff.mpr ⟨_, own, ?_⟩
    simp [cursorRead]
  exact Option.isSome_iff_exists.mp found

/-- What a call may do to a stored cursor, a missing row reading as 0. -/
theorem getCursor_exec (cfg : HubConfig) (op : HubCall) (h : HubState) (room agent : String) :
    (op.exec cfg h).2.store.getCursor room agent = h.store.getCursor room agent ∨
    (op.exec cfg h).2.store.getCursor room agent = 0 ∨
    op = .setCursor room agent ((op.exec cfg h).2.store.getCursor room agent) := by
  rw [Store.getCursor_eq, Store.getCursor_eq]
  have change := memberChange_exec cfg op h room agent
  generalize (op.exec cfg h).2.store.memberRow room agent = after at change
  cases change with
  | same => exact Or.inl rfl
  | joined => exact Or.inr (Or.inl rfl)
  | deleted => exact Or.inr (Or.inl rfl)
  | moved v moves =>
    cases h.store.memberRow room agent with
    | none => exact Or.inl rfl
    | some row => exact Or.inr (Or.inr moves)

/-- A cursor read at most `v` stays at most `v` as long as no call updates it further. -/
theorem cursor_bounded {G : HubPool cfg → Nat → HubCall → Prop}
    {cardBytes : AgentCard → List UInt8} {inflight : Nat} {P : HubPool cfg}
    (reach : Pool.Reachable (serve cfg cardBytes) G (.boot inflight) P) {room agent : String}
    {v : Int} (positive : 0 ≤ v) {newer older : List (HubEvent cfg)} {g : HubEvent cfg}
    (split : P.log = newer ++ g :: older) (reads : g.op = .getCursor room agent)
    (start : g.before.store.getCursor room agent ≤ v)
    (updates : ∀ e ∈ newer, ∀ v', e.op = .setCursor room agent v' → v' ≤ v) :
    P.state.store.getCursor room agent ≤ v := by
  refine reach.since (J := fun h => h.store.getCursor room agent ≤ v) split ?_ ?_
  · obtain ⟨t, op, h⟩ := g
    cases reads
    exact start
  · intro e member before
    rcases getCursor_exec cfg e.op e.before room agent with unchanged | zero | moved
    · exact unchanged.le.trans before
    · exact zero.le.trans positive
    · exact updates e member _ moved

section Guarded

variable {G : HubPool cfg → Nat → HubCall → Prop} {cardBytes : AgentCard → List UInt8}
  {inflight : Nat} {P : HubPool cfg} {t : Nat} {req : Request} {room agent : String}

/-- No cursor is negative. -/
theorem cursor_nonneg (reach : Pool.Reachable (serve cfg cardBytes) G (.boot inflight) P) :
    (∀ room agent, 0 ≤ P.state.store.getCursor room agent) ∧
      ∀ e ∈ P.log, ∀ room agent, 0 ≤ e.before.store.getCursor room agent := by
  refine Pool.Reachable.induct (I := fun P =>
    (∀ room agent, 0 ≤ P.state.store.getCursor room agent) ∧
      ∀ e ∈ P.log, ∀ room agent, 0 ≤ e.before.store.getCursor room agent) ?_ ?_ reach
  · exact ⟨fun _ _ => le_refl 0, by simp⟩
  · rintro P Q reach ⟨now, past⟩ step
    cases step with
    | spawn t req free => exact ⟨now, past⟩
    | exec t req op next pending enabled allowed =>
      refine ⟨?_, ?_⟩
      · intro room agent
        rcases getCursor_exec cfg op P.state room agent with unchanged | zero | moved
        · exact unchanged ▸ now room agent
        · exact zero.ge
        · -- An update goes past a cursor that was read, which was not negative.
          have follows := (reach.follows (serve_cursorRule cardBytes) pending).1
          rw [moved] at follows
          obtain ⟨c, read, below⟩ := follows
          obtain ⟨newer, g, older, split, -, -, value⟩ := lastCursorRead_event read
          have start := past g (by simp [split]) room agent
          exact (start.trans value.le).trans below.le
      · intro e member
        rcases List.mem_cons.mp member with rfl | old
        · exact now
        · exact past e old

/-- The step lemma: a call that is not overtaken does not move a cursor back. -/
theorem cursor_grows (reach : Pool.Reachable (serve cfg cardBytes) G (.boot inflight) P)
    {op : HubCall} {next : op.Res → Prog (hubMachine cfg) (List ServerFrame)}
    (pending : P.threads t = some (req, .call op next)) (allowed : notOvertaken P t op)
    {row row' : MemberRow} (before : P.state.store.memberRow room agent = some row)
    (after : (op.exec cfg P.state).2.store.memberRow room agent = some row') :
    row.cursor ≤ row'.cursor := by
  have change := memberChange_exec cfg op P.state room agent
  rw [before, after] at change
  have follows := (reach.follows (serve_cursorRule cardBytes) pending).1
  cases change with
  | same => exact le_refl _
  | joined now absent => cases absent
  | moved v moves =>
    subst moves
    obtain ⟨c, read, below⟩ := follows
    obtain ⟨newer, g, older, split, reads, later, value⟩ := lastCursorRead_event read
    have start : 0 ≤ c := value ▸ (cursor_nonneg reach).2 g (by simp [split]) room agent
    have updates : ∀ e ∈ newer, ∀ v', e.op = .setCursor room agent v' → v' ≤ v := by
      intro e member v' sets
      by_contra larger
      exact allowed ⟨newer, g, older, split, reads, later, e, member, v', sets, not_le.mp larger⟩
    have bounded := cursor_bounded reach (start.trans below.le) split reads.2
      (value.le.trans below.le) updates
    rwa [Store.getCursor_eq, before] at bounded

/-- The run lemma: an acknowledged cursor is reached as long as its row exists. -/
theorem acknowledged_reached
    (reach : Pool.Reachable (serve cfg cardBytes) notOvertaken (.boot inflight) P) {v : Int}
    (acked : Acknowledged P.log room agent v) :
    ∃ row, P.state.store.memberRow room agent = some row ∧ v ≤ row.cursor := by
  refine Pool.Reachable.induct (I := fun P => Acknowledged P.log room agent v →
    ∃ row, P.state.store.memberRow room agent = some row ∧ v ≤ row.cursor) ?_ ?_ reach acked
  · rintro ⟨newer, a, older, split, -⟩
    simp at split
  · intro P Q reach now step
    cases step with
    | spawn t req free => exact now
    | exec t req op next pending enabled allowed =>
      rintro ⟨newer, a, older, split, sets, member, kept⟩
      rw [Pool.exec_log] at split
      rcases List.append_eq_cons_iff.mp split.symm with ⟨rfl, same⟩ | ⟨rest, rfl, same⟩
      · obtain ⟨rfl, rfl⟩ := List.cons.inj same
        obtain ⟨row, found⟩ := Store.isMember_iff.mp member
        have key := (rowOf_mem found).2
        obtain rfl : op = .setCursor room agent v := sets
        refine ⟨{ row with cursor := v }, ?_, le_refl v⟩
        show (P.state.store.setCursor room agent v).memberRow room agent = _
        rw [Store.memberRow_setCursor, found]
        simp [Prod.mk.inj key]
      · obtain ⟨row, found, reached⟩ := now ⟨rest, a, older, same, sets, member,
          fun e member => kept e (List.mem_cons_of_mem _ member)⟩
        obtain ⟨row', found'⟩ := Store.isMember_iff.mp (kept ⟨t, op, P.state⟩ List.mem_cons_self)
        exact ⟨row', found', reached.trans (cursor_grows reach pending allowed found found')⟩

end Guarded

/-- Two marked positions of one list. -/
theorem split_cases {α : Type} {l n o n' o' : List α} {g a : α} (first : l = n ++ g :: o)
    (second : l = n' ++ a :: o') : a ∈ n ∨ a = g ∨ ∃ mid, o = mid ++ a :: o' ∧ n' = n ++ g :: mid := by
  rw [first] at second
  rcases List.append_eq_append_iff.mp second with ⟨mid, rfl, same⟩ | ⟨mid, rfl, same⟩
  · cases mid with
    | nil => exact Or.inr (Or.inl (List.cons.inj same).1.symm)
    | cons x mid =>
      obtain ⟨rfl, rfl⟩ := List.cons.inj same
      exact Or.inr (Or.inr ⟨mid, rfl, rfl⟩)
  · cases mid with
    | nil => exact Or.inr (Or.inl (List.cons.inj same).1)
    | cons x mid =>
      obtain ⟨rfl, rfl⟩ := List.cons.inj same
      exact Or.inl (by simp)

/-- In every run in which no pull acts on a cursor that a larger update has overtaken, the
    cursor law holds at every call, for every room and agent. -/
theorem cursor_law_unless_overtaken {cardBytes : AgentCard → List UInt8} {inflight : Nat}
    {P : HubPool cfg}
    (reach : Pool.Reachable (serve cfg cardBytes) notOvertaken (.boot inflight) P)
    {newer older : List (HubEvent cfg)} {e : HubEvent cfg} (split : P.log = newer ++ e :: older)
    (room agent : String) : CursorLaw older e room agent := by
  obtain ⟨P', req, next, reach', rfl, state, pending, -, allowed⟩ := reach.event split
  refine ⟨?_, ?_⟩
  · intro row row' before after
    rw [← state] at before
    refine cursor_grows reach' pending allowed before ?_
    rw [state]
    exact after
  · rintro floor lim v reads ⟨g, member, own⟩ acked m listed
    obtain ⟨row, -, -, above, rfl⟩ := Store.mem_readBacklog listed
    refine lt_of_le_of_lt ?_ above
    have follows := (reach'.follows (serve_cursorRule cardBytes) pending).1
    rw [reads] at follows allowed
    obtain ⟨c, read⟩ := lastCursorRead_of_mem member own
    obtain ⟨n, g, o, split', own, later, value⟩ := lastCursorRead_event read
    have floor_above : c ≤ floor := follows c read
    obtain ⟨n', a, o', split'', sets, present, kept⟩ := acked
    rcases split_cases split' split'' with newerAck | same | ⟨mid, rfl, rfl⟩
    · -- The acknowledgement came after the cursor read, and did not overtake it.
      by_contra larger
      exact allowed ⟨n, g, o, split', own, later, a, newerAck, v, sets, not_le.mp larger⟩
    · subst same
      rw [own.2] at sets
      cases sets
    · -- It came before, and the cursor has not moved back since.
      obtain ⟨Q, _, _, reachQ, logQ, stateQ, -⟩ := reach'.event split'
      have earlier : Acknowledged Q.log room agent v :=
        ⟨mid, a, o', logQ, sets, present, fun e member => kept e (by simp [member])⟩
      obtain ⟨row', found, reached⟩ := acknowledged_reached reachQ earlier
      rw [stateQ] at found
      have stored : g.before.store.getCursor room agent = row'.cursor := by
        rw [Store.getCursor_eq, found]
        rfl
      omega

/-- Alice opens a room, Bob joins it and posts twice. -/
def roomDemo : List Request :=
  [demoFrame 1 alice (.invite .channel (some "r") none none false),
    demoFrame 2 bob (.redeem "c1"),
    demoFrame 3 bob (.send (.room "r") [.text "one"] none none none),
    demoFrame 4 bob (.send (.room "r") [.text "two"] none none none)]

/-- Alice pulls both messages, which advances her cursor. -/
def pullDemo : DemoPool := demoPlay (roomDemo ++ [demoFrame 5 alice (.pull "r" none none none none)])

theorem pullDemo_log : pullDemo.log ≠ [] := List.ne_nil_of_length_pos (by decide +kernel)

/-- The cursor update a call makes. -/
def cursorUpdate : HubCall → Option (String × String × Int)
  | .setCursor room agent v => some (room, agent, v)
  | _ => none

theorem cursorUpdate_eq {op : HubCall} {room agent : String} {v : Int}
    (update : cursorUpdate op = some (room, agent, v)) : op = .setCursor room agent v := by
  cases op <;> cases update
  rfl

/-- Nothing overtakes before the first update. -/
theorem notOvertaken_of_no_update {P : HubPool cfg} (t : Nat) (op : HubCall)
    (none : ∀ e ∈ P.log, cursorUpdate e.op = none) : notOvertaken P t op := by
  have never : ∀ room agent v, ¬ Overtaken P.log t room agent v := by
    rintro room agent v ⟨newer, g, older, split, -, -, e, member, v', sets, -⟩
    have absent := none e (by simp [split, member])
    rw [sets] at absent
    cases absent
  cases op <;> first | exact never _ _ _ | trivial

theorem cursor_law_unless_overtaken_demo :
    ∃ e older, pullDemo.log = [] ++ e :: older ∧ e.op = .setCursor "r" "A" 2 ∧
      CursorLaw older e "r" "A" := by
  have split : pullDemo.log = [] ++ pullDemo.log.head pullDemo_log :: pullDemo.log.tail := by simp
  have update : cursorUpdate (pullDemo.log.head pullDemo_log).op = some ("r", "A", 2) := by
    decide +kernel
  have first : ∀ e ∈ pullDemo.log.tail, cursorUpdate e.op = none := by decide +kernel
  have reach : Pool.Reachable demoServe notOvertaken demoHub pullDemo := by
    refine (demoPlay_reachable _).restrict ?_
    intro P t op newer past
    refine notOvertaken_of_no_update t op ?_
    intro e member
    refine first e ?_
    have past : pullDemo.log = newer ++ ⟨t, op, P.state⟩ :: P.log := past
    rw [past]
    cases newer <;> simp [member]
  exact ⟨_, _, split, cursorUpdate_eq update, cursor_law_unless_overtaken reach split "r" "A"⟩

/-- Two connections of Alice pull at the same time. Both read cursor 0; the one that
    acknowledges 2 updates it first, the one that acknowledges 1 second. -/
def crossedAcks : DemoPool :=
  (Pool.start demoHub).play demoServe
    (demoActions 0 roomDemo ++
      [Pool.Action.spawn 4 (demoFrame 5 alice (.pull "r" none none none (some 2))),
        Pool.Action.spawn 5 (demoFrame 6 alice (.pull "r" none none none (some 1)))] ++
      List.replicate 4 (Pool.Action.step 4) ++ List.replicate 4 (Pool.Action.step 5) ++
      [Pool.Action.step 4, Pool.Action.step 5])

theorem crossedAcks_log : crossedAcks.log ≠ [] := List.ne_nil_of_length_pos (by decide +kernel)

/-- The cursor law fails in a run of the hub. -/
theorem crossed_acks_move_cursor_back :
    ∃ (P : DemoPool) (e : HubEvent demoConfig) (older : List (HubEvent demoConfig)),
      Pool.Reachable demoServe Pool.anySchedule demoHub P ∧ P.log = e :: older ∧
        ¬ CursorLaw older e "r" "A" := by
  refine ⟨crossedAcks, crossedAcks.log.head crossedAcks_log, crossedAcks.log.tail,
    Pool.play_reachable _ _ _, by simp, ?_⟩
  intro law
  have before : (crossedAcks.log.head crossedAcks_log).before.store.memberRow "r" "A" =
      some ⟨"r", "A", 0, 2⟩ := by decide +kernel
  have after : (crossedAcks.log.head crossedAcks_log).after.store.memberRow "r" "A" =
      some ⟨"r", "A", 0, 1⟩ := by decide +kernel
  exact absurd (law.grows _ _ before after) (by decide)

end Parler.Hub
