import Parler.Hub.Idempotence

/-!
# Long-polls and their wake-ups

A long-poll arms its waiter, reads the backlog, and sleeps if it read nothing. A send stores its
message before it wakes the room. So a message that the read missed was stored after it, and its
wake-up reaches the waiter, which was armed before it.
-/

namespace Parler.Hub

open Parler.Lib Parler.Protocol Handler

variable {cfg : HubConfig}

/-! ## What a sleeping waiter has done -/

/-- The floor of the thread's last backlog read. -/
def lastFloor (log : List (HubEvent cfg)) (t : Nat) : Option Int :=
  (Pool.ownPast log t).findSome? (fun d =>
    match d.1 with
    | .readBacklog _ _ floor _ => some floor
    | _ => none)

namespace HubCall

def armsOn (room : String) : HubCall → Bool
  | .notified r => r = room
  | _ => false

def wakes (room : String) : HubCall → Bool
  | .notifyRoom r => r = room
  | _ => false

/-- The last call of a fan-out. -/
def pushes : HubCall → Bool
  | .push .. => true
  | _ => false

end HubCall

/-- The room was woken since the thread last armed its waiter on it. -/
def wakePending (log : List (HubEvent cfg)) (t : Nat) (room : String) : Bool :=
  log.any (fun e => e.thread = t && e.op.armsOn room) &&
    (log.takeWhile (fun e => !(e.thread = t && e.op.armsOn room))).any (fun e => e.op.wakes room)

/-- A waiter falls asleep right after a read that found nothing, and was armed before that read. -/
def parkRule (req : Request) (past : List (HubDone cfg)) : HubCall → Prop
  | .parked room => ∃ me limit wait ack fresh upload rounds floor earlier,
      req = .frame me (.pull room none limit (some wait) ack) fresh upload rounds ∧
      past = ⟨.readBacklog room me.id floor (Store.pullLimit limit), []⟩ :: earlier ∧
      ⟨.notified room, ()⟩ ∈ earlier
  | _ => True

theorem parkRule_free (req : Request) (past : List (HubDone cfg)) (op : HubCall)
    (other : ∀ room, op ≠ .parked room) : parkRule req past op := by
  cases op with
  | parked r => exact absurd rfl (other r)
  | _ => trivial

section Handlers

variable (cfg) (room agent : String) (limit : Option Nat) (ack : Option Int)

/-- A pull that found nothing has read last. -/
theorem storePull_empty {d : HubDone cfg} {past : List (HubDone cfg)} (before : d ∈ past) :
    (storePull cfg room agent none limit ack).Ends (fun page past' => page.1 = [] →
      ∃ floor earlier, past' = ⟨.readBacklog room agent floor (Store.pullLimit limit), []⟩ :: earlier ∧
        d ∈ earlier) past := by
  refine ends_bind (ends_of_grows (I := fun past => d ∈ past)
    (fun _ _ member => List.mem_cons_of_mem _ member) (pullFloor cfg room agent none ack) before) ?_
  intro floor earlier before
  rw [ends_call_bind]
  intro messages
  by_cases none : messages = []
  · -- An empty page moves no cursor.
    subst none
    simp only [List.getLast?_nil, Option.map_none, Option.getD_none, gt_iff_lt, lt_self_iff_false,
      decide_false, Bool.and_false, Bool.false_eq_true, if_false, ends_pure]
    exact fun _ => ⟨floor, earlier, rfl, before⟩
  · simp only [ends_ite, ends_call_bind, ends_pure]
    exact ⟨fun _ _ empty => absurd empty none, fun _ empty => absurd empty none⟩

variable {me : Authed} {fresh : Fresh} {upload : Option (List UInt8)} {wait rounds' : Nat}

theorem pullLoop_parkRule (rounds : Nat) (past : List (HubDone cfg)) :
    (pullLoop cfg room me.id limit ack rounds).Follows
      (parkRule (.frame me (.pull room none limit (some wait) ack) fresh upload rounds')) past := by
  have reads : ∀ past, (storePull cfg room me.id none limit ack).Follows
      (parkRule (.frame me (.pull room none limit (some wait) ack) fresh upload rounds')) past := by
    intro past
    refine Prog.Calls.follows (parkRule_free _) ?_ past
    exact storePull_calls (by simp) (by simp) (by simp)
  induction rounds generalizing past with
  | zero => exact ⟨trivial, fun _ => reads _⟩
  | succ rounds ih =>
    refine ⟨trivial, fun _ => ?_⟩
    refine follows_bind (reads _) (storePull_empty cfg room me.id limit ack List.mem_cons_self) ?_
    intro page past' empty
    obtain ⟨messages, cursor⟩ := page
    dsimp only
    split
    · rename_i none
      obtain ⟨floor, earlier, rfl, armed⟩ := empty (List.isEmpty_iff.mp none)
      refine ⟨?_, fun _ => ih _⟩
      exact ⟨me, limit, wait, ack, fresh, upload, rounds', floor, earlier, rfl, rfl, armed⟩
    · trivial

end Handlers

theorem serve_parkRule (cardBytes : AgentCard → List UInt8) (req : Request) :
    (serve cfg cardBytes req).Follows (parkRule req) [] := by
  by_cases waiting : ∃ me room limit wait ack fresh upload rounds,
      req = .frame me (.pull room none limit (some wait) ack) fresh upload rounds
  · obtain ⟨me, room, limit, wait, ack, fresh, upload, rounds, rfl⟩ := waiting
    refine Prog.Follows.bind_free ?_ (fun _ _ => trivial)
    refine follows_bind_free ?_ (fun _ _ => trivial)
    refine follows_bind_free ?_ ?_
    · simp [requireMember, parkRule]
    · intro _ past
      refine follows_bind_free ?_ ?_
      · refine Prog.Calls.follows (parkRule_free _) ?_ past
        exact storePull_calls (by simp) (by simp) (by simp)
      · intro first past
        rw [follows_ite]
        exact ⟨fun _ => trivial, fun _ => pullLoop_parkRule cfg room limit ack rounds past⟩
  · refine (serve_makes cardBytes req).follows ?_ []
    intro past op made
    refine parkRule_free req past op ?_
    intro room same
    subst same
    cases req with
    | frame me sent fresh upload rounds =>
      obtain ⟨limit, wait, ack, rfl⟩ := made
      exact waiting ⟨me, room, limit, wait, ack, fresh, upload, rounds, rfl⟩
    | welcome me => rcases made with same | ⟨now, same | same⟩ <;> cases same
    | janitor => exact made
    | tick ms => cases made

/-- The request that a thread sleeps in, and the room it sleeps on. -/
def sleeps (P : HubPool cfg) (t : Nat) : Option (Request × String) :=
  match P.threads t with
  | some (req, .call (.parked room) _) => some (req, room)
  | _ => none

theorem sleeps_eq {P : HubPool cfg} {t : Nat} {req : Request} {room : String}
    (asleep : sleeps P t = some (req, room)) :
    ∃ next, P.threads t = some (req, .call (.parked room) next) := by
  unfold sleeps at asleep
  split at asleep
  · rename_i next at_t
    cases asleep
    exact ⟨next, at_t⟩
  · cases asleep

/-! ## What a read has missed -/

theorem Store.readBacklog_nil {s : Store} {room : String} {floor : Int} {lim : Nat} (some : lim ≠ 0)
    (empty : s.readBacklog room floor lim = []) {r : MessageRow} (stored : r ∈ s.messages)
    (here : r.room = room) : r.seq ≤ floor := by
  unfold Store.readBacklog at empty
  rw [List.map_eq_nil_iff, List.take_eq_nil_iff] at empty
  have none := empty.resolve_left some
  by_contra beyond
  have listed : r ∈ (s.messages.filter (fun r => r.room = room ∧ r.seq > floor)).insertionSort
      (fun a b => a.seq ≤ b.seq) := by
    rw [List.mem_insertionSort, List.mem_filter]
    refine ⟨stored, ?_⟩
    simp only [here, true_and, decide_eq_true_eq]
    omega
  rw [none] at listed
  cases listed

theorem pullLimit_ne_zero {limit : Option Nat} (some : limit ≠ some 0) : Store.pullLimit limit ≠ 0 := by
  unfold Store.pullLimit
  cases limit with
  | none => decide
  | some n =>
    have positive : n ≠ 0 := fun zero => some (by rw [zero])
    simp only [Option.getD_some]
    omega

section Runs

variable {cardBytes : AgentCard → List UInt8} {G : HubPool cfg → Nat → HubCall → Prop} {inflight : Nat}
  {P : HubPool cfg} {newer older : List (HubEvent cfg)}

/-- A message that was not there after a call was stored by a later one. -/
theorem stored_later (reach : Pool.Reachable (serve cfg cardBytes) G (.boot inflight) P)
    {g : HubEvent cfg} (split : P.log = newer ++ g :: older) {r : MessageRow}
    (stored : r ∈ P.state.store.messages) (missing : r ∉ g.after.store.messages) :
    ∃ e ∈ newer, ∃ m out, Appended m out e ∧ out.deduped = false ∧ r = m.toRow out.seq := by
  refine (reach.history (I := fun (log : List (HubEvent cfg)) h => ∀ newer g older,
    log = newer ++ g :: older → r ∈ h.store.messages → r ∉ g.after.store.messages →
      ∃ e ∈ newer, ∃ m out, Appended m out e ∧ out.deduped = false ∧ r = m.toRow out.seq) ?_ ?_).1
    newer g older split stored missing
  · intro newer g older split
    simp at split
  · intro log e before newer g older split stored missing
    cases newer with
    | nil =>
      cases split
      exact absurd stored missing
    | cons first newer =>
      rw [List.cons_append, List.cons.injEq] at split
      obtain ⟨rfl, split⟩ := split
      rcases stored_before_or_by e stored with old | ⟨m, out, append, new, row⟩
      · obtain ⟨e', later, origin⟩ := before newer g older split old missing
        exact ⟨e', List.mem_cons_of_mem _ later, origin⟩
      · exact ⟨e, List.mem_cons_self, m, out, append, new, row⟩

/-- A send that has pushed its message has woken its room since it stored it. -/
theorem woken_of_pushed (reach : Pool.Reachable (serve cfg cardBytes) G (.boot inflight) P)
    {e : HubEvent cfg} (split : P.log = newer ++ e :: older) {m : NewMessage} {out : AppendOutcome}
    (appends : Appended m out e) (new : out.deduped = false) {x : HubEvent cfg} (logged : x ∈ P.log)
    (own : x.thread = e.thread) (pushes : x.op.pushes = true) :
    ∃ w ∈ newer, w.op.wakes m.room = true := by
  obtain ⟨part, before⟩ := announced_since reach split appends
  have sends : x.op.sends = true := by
    cases op : x.op <;> rw [op] at pushes <;> cases pushes
    rfl
  have later : (⟨x.op, x.result⟩ : HubDone cfg) ∈ sendCalls (Pool.ownPast newer e.thread) := by
    have among : (⟨x.op, x.result⟩ : HubDone cfg) ∈ sendCalls (Pool.ownPast P.log e.thread) :=
      List.mem_filter.mpr
        ⟨List.mem_map.mpr ⟨x, List.mem_filter.mpr ⟨logged, by simp [own]⟩, rfl⟩, sends⟩
    rw [split, Pool.ownPast_append, Pool.ownPast_cons, if_pos rfl, sendCalls_append,
      List.mem_append] at among
    rcases among with after | rest
    · exact after
    · rw [appends] at rest
      simp only [sendCalls_cons, HubCall.sends, if_true, before, List.mem_singleton] at rest
      rw [(Sigma.mk.inj rest).1] at pushes
      cases pushes
  -- The push is the last call of the announcement, so all of it was made.
  have all : sendCalls (Pool.ownPast newer e.thread) = announcement m out := by
    rw [announced, new, if_neg Bool.false_ne_true, announcement, List.suffix_cons_iff] at part
    refine part.resolve_right ?_
    intro short
    have among := short.mem later
    simp only [List.mem_cons, List.not_mem_nil, or_false] at among
    rcases among with same | same <;> rw [(Sigma.mk.inj same).1] at pushes <;> cases pushes
  have woken : (⟨.notifyRoom m.room, ()⟩ : HubDone cfg) ∈ sendCalls (Pool.ownPast newer e.thread) := by
    simp [all, announcement]
  obtain ⟨w, logged, -, same⟩ := Pool.ownPast_event (List.mem_of_mem_filter woken)
  refine ⟨w, logged, ?_⟩
  rw [(Sigma.mk.inj same).1]
  exact decide_eq_true rfl

/-- A sleeping waiter was armed, and not again since its read, which found nothing. -/
theorem asleep_cases (reach : Pool.Reachable (serve cfg cardBytes) G (.boot inflight) P) {t : Nat}
    {req : Request} {room : String} (asleep : sleeps P t = some (req, room)) :
    ∃ me limit wait ack fresh upload rounds floor, ∃ newer : List (HubEvent cfg), ∃ g older,
      req = .frame me (.pull room none limit (some wait) ack) fresh upload rounds ∧
      lastFloor P.log t = some floor ∧ P.log = newer ++ g :: older ∧
      (⟨g.op, g.result⟩ : HubDone cfg) =
        ⟨.readBacklog room me.id floor (Store.pullLimit limit), []⟩ ∧
      (∃ a ∈ P.log, a.thread = t ∧ a.op.armsOn room = true) ∧
      ∀ e ∈ newer, e.thread = t → e.op.armsOn room = false := by
  obtain ⟨next, asleep⟩ := sleeps_eq asleep
  have follows := (reach.own (K := fun req p past => p.Follows (parkRule req) past)
    (serve_parkRule cardBytes) (fun _ _ _ _ r follows => follows.2 r)).2 t req _ asleep
  obtain ⟨me, limit, wait, ack, fresh, upload, rounds, floor, earlier, rfl, past, armed⟩ := follows.1
  obtain ⟨newer, g, older, split, -, read, none, -⟩ :=
    Pool.ownPast_split (past.trans (List.nil_append _).symm)
  refine ⟨me, limit, wait, ack, fresh, upload, rounds, floor, newer, g, older, rfl, ?_, split, read, ?_,
    ?_⟩
  · rw [lastFloor, past]
    rfl
  · obtain ⟨a, logged, own, same⟩ := Pool.ownPast_event (past ▸ List.mem_cons_of_mem _ armed)
    refine ⟨a, logged, own, ?_⟩
    rw [(Sigma.mk.inj same).1]
    exact decide_eq_true rfl
  · intro e member own
    have recorded : (⟨e.op, e.result⟩ : HubDone cfg) ∈ Pool.ownPast newer t :=
      List.mem_map.mpr ⟨e, List.mem_filter.mpr ⟨member, by simp [own]⟩, rfl⟩
    rw [none] at recorded
    cases recorded

end Runs

/-- Every send that stored a message of the room beyond the floor has finished its fan-out. -/
def FannedOut (log : List (HubEvent cfg)) (room : String) (floor : Int) : Prop :=
  ∀ e ∈ log, ∀ m out, Appended m out e → out.deduped = false → m.room = room → floor < out.seq →
    ∃ x ∈ log, x.thread = e.thread ∧ x.op.pushes = true

/-- The waiter sleeps, and nothing is going to wake it, over a message of the room that it has not
    read and that was announced. -/
def LostWakeUp (P : HubPool cfg) (t : Nat) (room : String) : Prop :=
  wakePending P.log t room = false ∧ ∃ floor, lastFloor P.log t = some floor ∧
    (∃ r ∈ P.state.store.messages, r.room = room ∧ floor < r.seq) ∧ FannedOut P.log room floor

/-- The request pulls with a limit of no messages. -/
def Request.pullsNothing : Request → Bool
  | .frame _ (.pull _ _ (some 0) _ _) _ _ _ => true
  | _ => false

/-- No wake-up is lost on a pull that asks for messages: while a waiter sleeps without a pending wake-up,
    every message beyond its floor still waits for the fan-out of its send. -/
theorem no_lost_wakeUp_unless_nothing {cardBytes : AgentCard → List UInt8}
    {G : HubPool cfg → Nat → HubCall → Prop} {inflight : Nat} {P : HubPool cfg}
    (reach : Pool.Reachable (serve cfg cardBytes) G (.boot inflight) P) {t : Nat} {req : Request}
    {room : String} (asleep : sleeps P t = some (req, room)) (asks : req.pullsNothing = false) :
    ¬ LostWakeUp P t room := by
  obtain ⟨me, limit, wait, ack, fresh, upload, rounds, floor, newer, g, older, rfl, last, split, read,
    armed, unarmed⟩ := asleep_cases reach asleep
  have positive : limit ≠ some 0 := by
    rintro rfl
    cases asks
  intro lost
  obtain ⟨quiet, floor', last', ⟨r, stored, here, beyond⟩, told⟩ := lost
  rw [last] at last'
  cases last'
  -- The read found nothing, so the message was stored after it.
  have missing : r ∉ g.after.store.messages := by
    obtain ⟨u, op, h⟩ := g
    obtain ⟨rfl, page⟩ := Sigma.mk.inj read
    intro there
    have below := Store.readBacklog_nil (pullLimit_ne_zero positive) (eq_of_heq page) there here
    omega
  obtain ⟨e, later, m, out, appends, new, rfl⟩ := stored_later reach split stored missing
  have logged : e ∈ P.log := by
    rw [split]
    exact List.mem_append_left _ later
  obtain ⟨x, pushed, own, pushes⟩ := told e logged m out appends new here beyond
  -- Its send has woken the room since, when the waiter was armed.
  obtain ⟨front, back, rfl⟩ := List.append_of_mem later
  have split' : P.log = front ++ e :: (back ++ g :: older) := by simp [split]
  obtain ⟨w, woken, wakes⟩ := woken_of_pushed reach split' appends new pushed own pushes
  have pending : wakePending P.log t room = true := by
    obtain ⟨a, member, own, arms⟩ := armed
    have armed : P.log.any (fun e => e.thread = t && e.op.armsOn room) = true :=
      List.any_eq_true.mpr ⟨a, member, by simp [own, arms]⟩
    rw [wakePending, armed, split, List.takeWhile_append_of_pos, List.any_append, List.any_append]
    · have found : front.any (fun e => e.op.wakes room) = true :=
        List.any_eq_true.mpr ⟨w, woken, here ▸ wakes⟩
      rw [found]
      rfl
    · intro e member
      by_cases own : e.thread = t
      · simp [unarmed e member own]
      · simp [own]
  rw [pending] at quiet
  cases quiet

/-- A waiter with the limit that falls asleep on a room, before or after a send to it. -/
def waitDemo (limit : Option Nat) : List (Pool.Action Request) :=
  .spawn 2 (.frame alice (.pull "r" none limit (some 30) none) (demoFresh 2) none 1) ::
    List.replicate 6 (.step 2)

def sendDemo : List (Pool.Action Request) :=
  demoActions 1 [demoFrame 1 alice (.send (.room "r") [.text "hi"] none none none)]

/-- A message lands while the waiter sleeps. -/
def wokenDemo : DemoPool :=
  (Pool.start demoHub).play demoServe
    (demoActions 0 [demoFrame 0 alice (.invite .channel (some "r") none none false)] ++
      waitDemo none ++ sendDemo)

theorem no_lost_wakeUp_unless_nothing_demo :
    wokenDemo.state.store.messages.length = 1 ∧ (sleeps wokenDemo 2).map Prod.snd = some "r" ∧
      ¬ LostWakeUp wokenDemo 2 "r" := by
  have asleep : (sleeps wokenDemo 2).map Prod.snd = some "r" := by decide +kernel
  have asks : (sleeps wokenDemo 2).all (fun w => !w.1.pullsNothing) = true := by decide +kernel
  refine ⟨by decide +kernel, asleep, ?_⟩
  obtain ⟨⟨req, room⟩, at_t, rfl⟩ := Option.map_eq_some_iff.mp asleep
  rw [at_t] at asks
  have reach : Pool.Reachable demoServe Pool.anySchedule demoHub wokenDemo :=
    Pool.play_reachable _ _ _
  exact no_lost_wakeUp_unless_nothing reach at_t (by simpa using asks)

/-- The waiter asks for no messages, with one already there. -/
def unreadDemo : DemoPool :=
  (Pool.start demoHub).play demoServe
    (demoActions 0 [demoFrame 0 alice (.invite .channel (some "r") none none false)] ++
      sendDemo ++ waitDemo (some 0))

/-- A waiter that asks for no messages sleeps over one that lies beyond its floor. -/
theorem nothing_asked_sleeps :
    Pool.Reachable demoServe Pool.anySchedule demoHub unreadDemo ∧
      (sleeps unreadDemo 2).map Prod.snd = some "r" ∧ LostWakeUp unreadDemo 2 "r" := by
  have told : ∀ e ∈ unreadDemo.log, (e.op.sends && !e.op.announces) = true →
      ∃ x ∈ unreadDemo.log, x.thread = e.thread ∧ x.op.pushes = true := by decide +kernel
  refine ⟨Pool.play_reachable _ _ _, by decide +kernel, by decide +kernel, 0, by decide +kernel,
    by decide +kernel, ?_⟩
  intro e logged m out appends _ _ _
  refine told e logged ?_
  rw [(Sigma.mk.inj appends).1]
  rfl

end Parler.Hub
