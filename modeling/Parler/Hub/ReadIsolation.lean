import Parler.Hub.Demo
import Parler.Hub.Members
import Parler.Hub.Rules

/-!
# Read isolation of pulls

A pull checks membership once and reads the backlog afterwards, a long-poll any
number of times. `readRule` is that discipline. Membership lasts until the room
is deleted, so a pull whose room was not deleted since its check reads as a
member; after a deletion the missing row reads as cursor 0 and the next read
returns whatever a new room of the same name holds.
-/

namespace Parler.Hub

open Parler.Lib Parler.Protocol Handler

variable {cfg : HubConfig}

/-! ## What a pull checks and returns -/

/-- The request has confirmed a membership. -/
def Confirmed (room agent : String) (past : List (HubDone cfg)) : Prop :=
  (⟨.isMember room agent, true⟩ : HubDone cfg) ∈ past

theorem Confirmed.cons {room agent : String} (d : HubDone cfg) (past : List (HubDone cfg))
    (confirmed : Confirmed room agent past) : Confirmed room agent (d :: past) :=
  List.mem_cons_of_mem d confirmed

/-- A backlog is read after the caller's membership was confirmed. -/
def readRule (past : List (HubDone cfg)) : HubCall → Prop
  | .readBacklog room agent _ _ => Confirmed room agent past
  | _ => True

/-- A pull reads from where it was asked to, or from no earlier than its ack: from the cursor it read
    or from the ack. -/
def readFloor (room agent : String) (since ack : Option Int) (floor : Int)
    (past : List (HubDone cfg)) : Prop :=
  since = some floor ∨
    since = none ∧ (∀ a, ack = some a → a ≤ floor) ∧
      ((⟨.getCursor room agent, floor⟩ : HubDone cfg) ∈ past ∨ ack = some floor)

theorem readFloor.cons {room agent : String} {since ack : Option Int} {floor : Int}
    {past : List (HubDone cfg)} (starts : readFloor room agent since ack floor past)
    (d : HubDone cfg) : readFloor room agent since ack floor (d :: past) :=
  starts.imp_right (And.imp_right (And.imp_right (Or.imp_left (List.mem_cons_of_mem d))))

/-- A pull returns the page of one of its reads and the cursor after it. -/
def readPage (room agent : String) (since ack : Option Int) (page : List StoredMessage × Int)
    (past : List (HubDone cfg)) : Prop :=
  ∃ floor lim, (⟨.readBacklog room agent floor lim, page.1⟩ : HubDone cfg) ∈ past ∧
    readFloor room agent since ack floor past ∧
    page.2 = (page.1.getLast?.map StoredMessage.seq).getD floor

section Pull

variable (room agent : String) (since : Option Int) (limit : Option Nat) (ack : Option Int)
  (past : List (HubDone cfg))

theorem storePull_readRule (member : Confirmed room agent past) :
    (storePull cfg room agent since limit ack).Follows readRule past := by
  cases since <;> cases ack <;> simp [storePull, pullFloor, readRule, member, Confirmed.cons]

theorem pullFloor_ends :
    (pullFloor cfg room agent since ack).Ends (readFloor room agent since ack) past := by
  cases since <;> cases ack <;> simp [pullFloor, readFloor]

theorem storePull_page :
    (storePull cfg room agent since limit ack).Ends (readPage room agent since ack) past := by
  refine ends_bind (pullFloor_ends room agent since ack past) ?_
  intro cur past floor
  rw [ends_call_bind]
  intro messages
  dsimp only
  split
  · rw [ends_call_bind]
    intro _
    rw [ends_pure]
    exact ⟨cur, Store.pullLimit limit, by simp, (floor.cons _).cons _, rfl⟩
  · rw [ends_pure]
    exact ⟨cur, Store.pullLimit limit, by simp, floor.cons _, rfl⟩

variable (rounds : Nat)

theorem pullLoop_readRule (member : Confirmed room agent past) :
    (pullLoop cfg room agent limit ack rounds).Follows readRule past := by
  induction rounds generalizing past with
  | zero =>
    exact ⟨trivial, fun _ => storePull_readRule room agent none limit ack _ (member.cons _ _)⟩
  | succ rounds ih =>
    refine ⟨trivial, fun _ => ?_⟩
    refine follows_bind (storePull_readRule room agent none limit ack _ (member.cons _ _))
      (ends_of_grows Confirmed.cons _ (member.cons _ _)) ?_
    rintro ⟨messages, cursor⟩ past member
    dsimp only
    split
    · exact ⟨trivial, fun _ => ih _ (member.cons _ _)⟩
    · trivial

theorem pullLoop_page :
    (pullLoop cfg room agent limit ack rounds).Ends (readPage room agent none ack) past := by
  induction rounds generalizing past with
  | zero => exact fun _ => storePull_page room agent none limit ack _
  | succ rounds ih =>
    intro _
    refine ends_bind (storePull_page room agent none limit ack _) ?_
    rintro ⟨messages, cursor⟩ past page
    dsimp only
    split
    · exact fun _ => ih _
    · exact (ends_pure _ _).mpr page

theorem storeWaitedPull_readRule (me : Authed) :
    (storeWaitedPull cfg me room since limit ack rounds).Follows readRule past := by
  simp only [storeWaitedPull, requireMember, bind_bind, follows_call_bind]
  refine ⟨trivial, ?_⟩
  intro member
  rw [ite_bind, fail_bind, return_bind, follows_ite]
  refine ⟨fun _ => trivial, fun is => ?_⟩
  obtain rfl : member = true := by simpa using is
  have confirmed : Confirmed room me.id (⟨.isMember room me.id, true⟩ :: past) :=
    List.mem_cons_self
  refine follows_bind (storePull_readRule room me.id since limit ack _ confirmed)
    (ends_of_grows Confirmed.cons _ confirmed) ?_
  intro first past member
  split
  · trivial
  · exact pullLoop_readRule room me.id limit ack past rounds member

theorem storeWaitedPull_page (me : Authed) :
    (storeWaitedPull cfg me room since limit ack rounds).Ends (readPage room me.id since ack)
      past := by
  simp only [storeWaitedPull, requireMember, bind_bind, ends_call_bind]
  intro member
  rw [ite_bind, fail_bind, return_bind, ends_ite]
  refine ⟨fun _ => ends_fail _ _, fun _ => ?_⟩
  refine ends_bind (storePull_page room me.id since limit ack _) ?_
  intro first past page
  split
  · exact (ends_pure _ _).mpr page
  · rename_i parks
    cases since with
    | none => exact pullLoop_page room me.id limit ack past rounds
    | some floor => simp at parks

theorem handlePull_readRule (me : Authed) :
    (handlePull cfg me room since limit ack).Follows readRule past := by
  simp only [handlePull, requireMember, bind_bind, follows_call_bind]
  refine ⟨trivial, ?_⟩
  intro member
  rw [ite_bind, fail_bind, return_bind, follows_ite]
  refine ⟨fun _ => trivial, fun is => ?_⟩
  obtain rfl : member = true := by simpa using is
  exact follows_bind_free (storePull_readRule room me.id since limit ack _ List.mem_cons_self)
    (fun _ _ => trivial)

theorem handlePull_page (me : Authed) :
    (handlePull cfg me room since limit ack).Ends
      (fun frame past => ∃ messages cursor, frame = .pulled room messages cursor ∧
        readPage room me.id since ack (messages, cursor) past) past := by
  simp only [handlePull, requireMember, bind_bind, ends_call_bind]
  intro member
  rw [ite_bind, fail_bind, return_bind, ends_ite]
  refine ⟨fun _ => ends_fail _ _, fun _ => ?_⟩
  refine ends_bind (storePull_page room me.id since limit ack _) ?_
  rintro ⟨messages, cursor⟩ past page
  exact (ends_pure _ _).mpr ⟨messages, cursor, rfl, page⟩

theorem handleWaitedPull_page (me : Authed) :
    (handleWaitedPull cfg me room since limit ack rounds).Ends
      (fun frame past => ∃ messages cursor, frame = .pulled room messages cursor ∧
        readPage room me.id since ack (messages, cursor) past) past := by
  refine ends_bind (storeWaitedPull_page room since limit ack past rounds me) ?_
  rintro ⟨messages, cursor⟩ past page
  exact (ends_pure _ _).mpr ⟨messages, cursor, rfl, page⟩

end Pull

theorem serve_readRule (cardBytes : AgentCard → List UInt8) (req : Request) :
    (serve cfg cardBytes req).Follows readRule [] := by
  cases pulled : req.pulls with
  | none =>
    refine (serve_elsewhere cfg cardBytes req pulled).follows ?_ []
    intro past op other
    cases op <;> trivial
  | some target =>
    cases req with
    | frame me frame fresh upload rounds =>
      cases frame with
      | pull room since limit wait ack =>
        refine dispatch_follows _ _ _ _ upload _ trivial (fun _ => trivial) ?_ ?_ ?_
        · rintro _ _ _ _ _ ⟨⟩
          exact follows_bind_free
            (storeWaitedPull_readRule room since limit ack [] rounds me) (fun _ _ => trivial)
        · rintro _ _ _ _ _ _ ⟨⟩
        · intro now allowed
          exact handlePull_readRule room since limit ack _ me
      | _ => cases pulled
    | _ => cases pulled

/-- Every page a pull answers with is the page of one of its reads. -/
def pulledPages (req : Request) (frames : List ServerFrame) (past : List (HubDone cfg)) : Prop :=
  ∀ me room since limit wait ack fresh upload rounds,
    req = .frame me (.pull room since limit wait ack) fresh upload rounds →
      ∀ room' messages cursor, .pulled room' messages cursor ∈ frames →
        room' = room ∧ readPage room me.id since ack (messages, cursor) past

theorem errorFrame_pulledPages (req : Request) (e : Failure) (past : List (HubDone cfg)) :
    pulledPages req (errorFrame e) past := by
  intro me room since limit wait ack fresh upload rounds _ room' messages cursor listed
  cases e <;> simp [errorFrame] at listed

theorem replies_pulledPages {me : Authed} {room : String} {since ack : Option Int}
    {limit wait : Option Nat} {fresh : Fresh} {upload : Option (List UInt8)} {rounds : Nat}
    (r : Except Failure ServerFrame) (past : List (HubDone cfg))
    (page : ∀ frame, r = .ok frame → ∃ messages cursor, frame = .pulled room messages cursor ∧
      readPage room me.id since ack (messages, cursor) past) :
    pulledPages (.frame me (.pull room since limit wait ack) fresh upload rounds) (replies r)
      past := by
  cases r with
  | error e => exact errorFrame_pulledPages _ e past
  | ok frame =>
    obtain ⟨messages, cursor, rfl, read⟩ := page frame rfl
    rintro _ _ _ _ _ _ _ _ _ ⟨⟩ room' messages' cursor' listed
    simp only [replies, List.mem_singleton, ServerFrame.pulled.injEq] at listed
    obtain ⟨rfl, rfl, rfl⟩ := listed
    exact ⟨rfl, read⟩

theorem serve_pulledPages (cardBytes : AgentCard → List UInt8) (req : Request) :
    (serve cfg cardBytes req).Ends (pulledPages req) [] := by
  by_cases pulls : ∃ me room since limit wait ack fresh upload rounds,
      req = .frame me (.pull room since limit wait ack) fresh upload rounds
  · obtain ⟨me, room, since, limit, wait, ack, fresh, upload, rounds, rfl⟩ := pulls
    cases wait with
    | some wait =>
      exact Prog.Ends.bind (handleWaitedPull_page room since limit ack [] rounds me)
        replies_pulledPages
    | none =>
      intro now allowed
      dsimp only
      split
      · split
        · exact errorFrame_pulledPages _ _ _
        · exact Prog.Ends.bind (handlePull_page room since limit ack _ me) replies_pulledPages
      · exact errorFrame_pulledPages _ _ _
  · refine Prog.Ends.of_grows (I := fun _ => True) (fun _ _ _ => trivial) ?_ _ trivial
    intro frames past _ me room since limit wait ack fresh upload rounds same
    exact absurd ⟨me, room, since, limit, wait, ack, fresh, upload, rounds, same⟩ pulls

/-- A request reads only the backlog it pulls, for its own caller. -/
def ownReads (req : Request) : HubCall → Prop
  | .readBacklog room agent _ _ => req.pulls = some (room, agent)
  | _ => True

theorem serve_ownReads (cardBytes : AgentCard → List UInt8) (req : Request) :
    (serve cfg cardBytes req).Calls (ownReads req) := by
  refine (serve_may cfg cardBytes req).calls ?_
  intro past op may
  cases op <;> trivial

/-! ## The law -/

/-- The call is a store read that returned the message. -/
def returned (m : StoredMessage) (e : HubEvent cfg) : Bool :=
  match e.op with
  | .readBacklog room _ floor lim => m ∈ e.before.store.readBacklog room floor lim
  | _ => false

/-- Every message of every `Pulled` reply was returned by a store read of the request, and
    the caller was a member of the message's room at every read that returned it. -/
def PullsIsolated (P : HubPool cfg) : Prop :=
  ∀ t req frames room agent room' messages cursor, P.answer t = some (req, frames) →
    req.pulls = some (room, agent) → .pulled room' messages cursor ∈ frames → ∀ m ∈ messages,
      (∃ e ∈ P.log, e.thread = t ∧ returned m e) ∧
      ∀ e ∈ P.log, e.thread = t → returned m e → e.before.store.isMember m.room agent

/-- The call deletes the room. -/
def DeletesRoom (room : String) (e : HubEvent cfg) : Prop :=
  ∃ owner, e.op = .deleteRoom room owner ∧ e.before.store.roomOwnedBy room owner

/-- The room was deleted after thread `t` had confirmed the caller's membership. -/
def DeletedSinceCheck (log : List (HubEvent cfg)) (t : Nat) (room agent : String) : Prop :=
  ∃ newer : List (HubEvent cfg), ∃ g older, log = newer ++ g :: older ∧ g.thread = t ∧ g.op = .isMember room agent ∧
    ∃ e ∈ newer, DeletesRoom room e

/-- The schedules in which no pull reads a room that was deleted since its check. -/
def readsCheckedRoom (P : HubPool cfg) (t : Nat) : HubCall → Prop
  | .readBacklog room agent _ _ => ¬ DeletedSinceCheck P.log t room agent
  | _ => True

theorem returned_read {m : StoredMessage} {e : HubEvent cfg} (reads : returned m e) :
    ∃ agent floor lim, e.op = .readBacklog m.room agent floor lim := by
  obtain ⟨t, op, h⟩ := e
  cases op with
  | readBacklog room agent floor lim =>
    obtain ⟨row, -, rfl, -, rfl⟩ := Store.mem_readBacklog (of_decide_eq_true reads)
    exact ⟨agent, floor, lim, rfl⟩
  | _ => cases reads

/-- Membership lasts until the room is deleted. -/
theorem isMember_after {e : HubEvent cfg} {room agent : String}
    (member : e.before.store.isMember room agent) (kept : ¬ DeletesRoom room e) :
    e.after.store.isMember room agent := by
  obtain ⟨row, found⟩ := Store.isMember_iff.mp member
  have change := memberChange_exec cfg e.op e.before room agent
  rw [found] at change
  refine Store.isMember_iff.mpr ?_
  show ∃ row, (e.op.exec cfg e.before).2.store.memberRow room agent = some row
  generalize (e.op.exec cfg e.before).2.store.memberRow room agent = after at change
  cases change with
  | same => exact ⟨row, rfl⟩
  | joined now absent => cases absent
  | deleted owner op owned => exact absurd ⟨owner, op, owned⟩ kept
  | moved v _ => exact ⟨_, rfl⟩

theorem confirmed_event {log : List (HubEvent cfg)} {t : Nat} {room agent : String}
    (confirmed : Confirmed room agent (Pool.ownPast log t)) :
    ∃ g ∈ log, g.thread = t ∧ g.op = .isMember room agent ∧
      g.after.store.isMember room agent := by
  obtain ⟨⟨u, op, h⟩, member, own, same⟩ := Pool.ownPast_event confirmed
  obtain ⟨rfl, result⟩ := Sigma.mk.inj same
  exact ⟨_, member, own, rfl, eq_of_heq result⟩

/-- A read of a room that was not deleted since the check is a member's read. -/
theorem read_isMember {cardBytes : AgentCard → List UInt8} {inflight : Nat} {P : HubPool cfg}
    (reach : Pool.Reachable (serve cfg cardBytes) readsCheckedRoom (.boot inflight) P)
    {e : HubEvent cfg} (logged : e ∈ P.log) {room agent : String} {floor : Int} {lim : Nat}
    (reads : e.op = .readBacklog room agent floor lim) : e.before.store.isMember room agent := by
  obtain ⟨newer, older, split⟩ := List.append_of_mem logged
  obtain ⟨P', req, next, reach', rfl, state, pending, -, allowed⟩ := reach.event split
  have follows := (reach'.follows (serve_readRule cardBytes) pending).1
  rw [reads] at follows allowed
  obtain ⟨g, member, own, op, is⟩ := confirmed_event follows
  obtain ⟨newer', older', split'⟩ := List.append_of_mem member
  rw [← state]
  refine reach'.since (J := fun h => h.store.isMember room agent) split' is ?_
  intro e' later before
  refine isMember_after before ?_
  intro deletes
  exact allowed ⟨newer', g, older', split', own, op, e', later, deletes⟩

/-- In every run in which no pull reads a room that was deleted since its membership check,
    pulls are isolated. -/
theorem pulls_isolated_unless_deleted {cardBytes : AgentCard → List UInt8} {inflight : Nat}
    {P : HubPool cfg}
    (reach : Pool.Reachable (serve cfg cardBytes) readsCheckedRoom (.boot inflight) P) :
    PullsIsolated P := by
  intro t req frames room agent room' messages cursor answers pulls reply m listed
  have at_t := Pool.answer_eq answers
  refine ⟨?_, ?_⟩
  · obtain ⟨me, since, limit, wait, ack, fresh, upload, rounds, rfl, rfl⟩ :=
      Request.pulls_frame pulls
    obtain ⟨-, floor, lim, recorded, -, -⟩ := reach.ends (serve_pulledPages cardBytes) at_t me room
      since limit wait ack fresh upload rounds rfl room' messages cursor reply
    obtain ⟨⟨u, op, h⟩, logged, own, same⟩ := Pool.ownPast_event recorded
    obtain ⟨rfl, result⟩ := Sigma.mk.inj same
    have page : h.store.readBacklog room floor lim = messages := eq_of_heq result
    exact ⟨_, logged, own, decide_eq_true (page ▸ listed)⟩
  · intro e logged own returns
    have reads := reach.calls (serve_ownReads cardBytes) at_t logged own
    obtain ⟨agent', floor, lim, op⟩ := returned_read returns
    rw [op] at reads
    obtain ⟨rfl, rfl⟩ := Prod.mk.inj (Option.some.inj (pulls.symm.trans reads))
    exact read_isMember reach logged op

/-- Alice opens a room, Bob joins it, and Alice posts. -/
def isolationDemo : DemoPool :=
  demoPlay [demoFrame 1 alice (.invite .channel (some "r") none none false),
    demoFrame 2 bob (.redeem "c1"),
    demoFrame 3 alice (.send (.room "r") [.text "hello"] none none none),
    demoFrame 4 bob (.pull "r" none none none none)]

/-- The room a call deletes. -/
def deletedRoom : HubCall → Option String
  | .deleteRoom room _ => some room
  | _ => none

/-- The page of a reply. -/
def pageOf : ServerFrame → Option (String × List StoredMessage × Int)
  | .pulled room messages cursor => some (room, messages, cursor)
  | _ => none

theorem pulls_isolated_unless_deleted_demo :
    ((isolationDemo.answer 3).map (fun a => (a.2.filterMap pageOf).map (fun page => page.2.2)) =
      some [1]) ∧ PullsIsolated isolationDemo := by
  refine ⟨by decide +kernel, ?_⟩
  have none : ∀ e ∈ isolationDemo.log, deletedRoom e.op = none := by decide +kernel
  have reach : Pool.Reachable demoServe readsCheckedRoom demoHub isolationDemo := by
    refine (demoPlay_reachable _).restrict ?_
    intro P t op newer past
    cases op with
    | readBacklog room agent floor lim =>
      rintro ⟨newer', g, older, split, -, -, e, later, owner, deletes, -⟩
      have logged : e ∈ isolationDemo.log := by
        unfold isolationDemo
        rw [past, split]
        simp [later]
      have absent := none e logged
      rw [deletes] at absent
      cases absent
    | _ => trivial
  exact pulls_isolated_unless_deleted reach

/-- Bob's long-poll finds nothing and parks. Alice deletes the room, opens another of the
    same name, which Bob is not a member of, and posts; then Bob's poll wakes up. -/
def reusedName : DemoPool :=
  (Pool.start demoHub).play demoServe
    (demoActions 0 [demoFrame 1 alice (.invite .channel (some "r") none none false),
        demoFrame 2 bob (.redeem "c1")] ++
      Pool.Action.spawn 2 (.frame bob (.pull "r" none none (some 30) none) (demoFresh 3) none 1) ::
        List.replicate 6 (Pool.Action.step 2) ++
      demoActions 3 [demoFrame 4 alice (.deleteRoom "r"),
        demoFrame 5 alice (.invite .channel (some "r") none none false),
        demoFrame 6 alice (.send (.room "r") [.text "secret"] none none none)] ++
      List.replicate 5 (Pool.Action.step 2))

/-- The message posted in the second room. -/
def secret : StoredMessage :=
  ⟨1, "m6", "r", ⟨"A", "alice", none⟩, [.text "secret"], none, none, 0⟩

/-- A parked pull reads a room its caller was never a member of. -/
theorem parked_pull_reads_reused_room :
    ∃ P : DemoPool, Pool.Reachable demoServe Pool.anySchedule demoHub P ∧ ¬ PullsIsolated P := by
  refine ⟨reusedName, Pool.play_reachable _ _ _, ?_⟩
  intro isolated
  have answered : (reusedName.answer 2).map (fun a => (a.1.pulls, a.2.filterMap pageOf)) =
      some (some ("r", "B"), [("r", [secret], 1)]) := by decide +kernel
  have read : ∃ e ∈ reusedName.log, e.thread = 2 ∧ returned secret e ∧
      e.before.store.isMember "r" "B" = false := by decide +kernel
  obtain ⟨⟨req, frames⟩, answers, same⟩ := Option.map_eq_some_iff.mp answered
  obtain ⟨pulls, pages⟩ := Prod.mk.inj same
  obtain ⟨frame, listed, page⟩ := List.mem_filterMap.mp
    (pages ▸ List.mem_singleton_self ("r", [secret], (1 : Int)))
  cases frame with
  | pulled room messages cursor =>
    cases page
    obtain ⟨e, logged, own, returns, outsider⟩ := read
    have member := (isolated 2 req frames "r" "B" "r" [secret] 1 answers pulls listed secret
      (List.mem_singleton_self _)).2 e logged own returns
    rw [show secret.room = "r" from rfl, outsider] at member
    cases member
  | _ => cases page

end Parler.Hub
