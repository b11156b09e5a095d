import Parler.Hub.Cursors
import Parler.Hub.Queue

/-!
# Pruning and cursor pulls

A prune deletes the expired messages below the newest ones of each room and leaves the cursors
alone. Since a `seq` is never used again, the pulls of a member that are made one after another
still pass every message once, in order: all but those that are gone when a pull comes to them.
-/

namespace Parler.Hub

open Parler.Lib Parler.Protocol

variable {cfg : HubConfig}

/-! ## What a prune deletes -/

/-- In a decreasing list an entry is at most the `n`-th one if at least `n` entries are larger. -/
theorem le_nth_iff_countP {l : List Int} (decreasing : l.Pairwise (· > ·)) {x low : Int} (member : x ∈ l)
    (above : low < x) (n : Nat) : x ≤ l[n]?.getD low ↔ n ≤ l.countP (fun y => x < y) := by
  induction l generalizing n with
  | nil => cases member
  | cons a l ih =>
    obtain ⟨first, rest⟩ := List.pairwise_cons.mp decreasing
    rcases List.mem_cons.mp member with rfl | later
    · have none : (x :: l).countP (fun y => x < y) = 0 := by
        rw [List.countP_eq_zero]
        intro y listed
        rcases List.mem_cons.mp listed with rfl | listed
        · simp
        · have below := first y listed
          simp only [decide_eq_true_eq]
          omega
      rw [none]
      cases n with
      | zero => simp
      | succ n =>
        have below : l[n]?.getD low < x := by
          cases found : l[n]? with
          | none => exact above
          | some y => exact first y (List.mem_of_getElem? found)
        simp only [List.getElem?_cons_succ]
        omega
    · have larger : x < a := first x later
      rw [List.countP_cons_of_pos (by simpa using larger)]
      cases n with
      | zero =>
        simp only [List.getElem?_cons_zero, Option.getD_some]
        omega
      | succ n =>
        rw [List.getElem?_cons_succ, ih rest later]
        omega

namespace Store

/-- How many messages of its room are newer than the message. -/
def newerCount (s : Store) (r : MessageRow) : Nat :=
  s.messages.countP (fun r' => r'.room = r.room ∧ r.seq < r'.seq)

/-- The message is expired, and at least `keep` messages of its room are newer. -/
def prunable (s : Store) (retainMs keep now : Int) (r : MessageRow) : Bool :=
  r.ts < now - retainMs && keep ≤ s.newerCount r

end Store

section Prune

variable {s : Store} (order : SeqOrder s) (positive : ∀ r ∈ s.messages, 0 < r.seq)
  {retainMs keep now : Int} (natural : 0 ≤ keep)

include order positive natural

/-- The offset subquery selects the boundary of the newest `keep` messages. -/
theorem le_nthNewestSeq {r : MessageRow} (stored : r ∈ s.messages) :
    r.seq ≤ (s.nthNewestSeq r.room keep.toNat).getD (-1) ↔ keep ≤ s.newerCount r := by
  unfold Store.nthNewestSeq
  set seqs := (s.messages.filter (fun r' => r'.room = r.room)).map MessageRow.seq with listed
  have permuted := List.perm_insertionSort (fun a b : Int => b ≤ a) seqs
  have distinct : (seqs.insertionSort (fun a b => b ≤ a)).Nodup := by
    rw [permuted.nodup_iff, listed]
    refine List.pairwise_map.mpr ((order.increasing.filter _).imp ?_)
    exact fun below => ne_of_lt below
  have decreasing : (seqs.insertionSort (fun a b => b ≤ a)).Pairwise (· > ·) := by
    refine (List.pairwise_insertionSort (fun a b : Int => b ≤ a) seqs).imp₂ ?_ distinct
    intro a b le ne
    exact lt_of_le_of_ne le (Ne.symm ne)
  have member : r.seq ∈ seqs.insertionSort (fun a b => b ≤ a) := by
    rw [List.mem_insertionSort, listed]
    exact List.mem_map_of_mem (List.mem_filter.mpr ⟨stored, by simp⟩)
  have above : (-1 : Int) < r.seq := by
    have := positive r stored
    omega
  have counted : seqs.countP (fun y => r.seq < y) = s.newerCount r := by
    rw [listed, List.countP_map, List.countP_filter]
    refine List.countP_congr ?_
    intro r' _
    simp [and_comm]
  rw [le_nth_iff_countP decreasing member above, permuted.countP_eq, counted]
  omega

theorem pruneMessages_eq :
    (s.pruneMessages retainMs keep now).messages =
      s.messages.filter (fun r => !s.prunable retainMs keep now r) := by
  refine List.filter_congr ?_
  intro r stored
  have boundary := le_nthNewestSeq order positive natural stored
  simp only [Store.prunable, boundary, Bool.decide_and, decide_not]

/-- A prune deletes exactly the expired messages that are not among the newest. -/
theorem mem_pruneMessages (r : MessageRow) :
    r ∈ (s.pruneMessages retainMs keep now).messages ↔
      r ∈ s.messages ∧ s.prunable retainMs keep now r = false := by
  rw [pruneMessages_eq order positive natural, List.mem_filter, Bool.not_eq_true']

/-- Running a prune again deletes nothing. -/
theorem pruneMessages_idempotent :
    (s.pruneMessages retainMs keep now).pruneMessages retainMs keep now =
      s.pruneMessages retainMs keep now := by
  have kept : ∀ r ∈ (s.pruneMessages retainMs keep now).messages, r ∈ s.messages :=
    fun r stored => ((mem_pruneMessages order positive natural r).mp stored).1
  have order' : SeqOrder (s.pruneMessages retainMs keep now) :=
    ⟨order.increasing.filter _, fun r stored => order.bounded r (kept r stored)⟩
  have positive' : ∀ r ∈ (s.pruneMessages retainMs keep now).messages, 0 < r.seq :=
    fun r stored => positive r (kept r stored)
  have rest : ((s.pruneMessages retainMs keep now).pruneMessages retainMs keep now).messages =
      (s.pruneMessages retainMs keep now).messages := by
    rw [pruneMessages_eq order' positive' natural, List.filter_eq_self]
    intro r stored
    have spared := ((mem_pruneMessages order positive natural r).mp stored).2
    -- A message that was spared has no more newer ones than before.
    have fewer : (s.pruneMessages retainMs keep now).newerCount r ≤ s.newerCount r :=
      List.Sublist.countP_le List.filter_sublist
    simp only [Store.prunable, Bool.and_eq_false_iff, decide_eq_false_iff_not,
      Bool.not_eq_true'] at spared ⊢
    omega
  calc (s.pruneMessages retainMs keep now).pruneMessages retainMs keep now
      = { s.pruneMessages retainMs keep now with
          messages :=
            ((s.pruneMessages retainMs keep now).pruneMessages retainMs keep now).messages } := rfl
    _ = s.pruneMessages retainMs keep now := by rw [rest]

end Prune

/-! ## The pulls of a member among appends and prunes -/

/-- A call of the store by a sender, the janitor or the member. -/
inductive StoreRequest where
  | append (m : NewMessage)
  | prune (retainMs keep now : Int)
  | pull (limit : Option Nat)

inductive StoreReply where
  | appended (outcome : Except Failure AppendOutcome)
  | pruned
  | pulled (batch : Except Failure (List StoredMessage × Int))

abbrev StorePool (cfg : HubConfig) := Pool (hubMachine cfg) StoreRequest StoreReply

section Store

variable (cfg) (room agent : String)

/-- The member pulls from its cursor and acknowledges by reading on. -/
def serveStore : StoreRequest → Prog (hubMachine cfg) StoreReply
  | .append m => .call (.appendMessage m) fun outcome => .ret (.appended outcome)
  | .prune retainMs keep now => .call (.pruneMessages retainMs keep now) fun _ => .ret .pruned
  | .pull limit => (storePull cfg room agent none limit none).prog.bind fun r => .ret (.pulled r)

/-- The rest of a pull that has read its batch. -/
def settle (floor : Int) (page : List StoredMessage) : Prog (hubMachine cfg) StoreReply :=
  let cursor := (page.getLast?.map StoredMessage.seq).getD floor
  if floor < cursor then
    .call (.setCursor room agent cursor) fun _ => .ret (.pulled (.ok (page, cursor)))
  else .ret (.pulled (.ok (page, cursor)))

variable {cfg room agent} in
theorem settle_none {floor : Int} {page : List StoredMessage} (empty : page.getLast? = none) :
    settle cfg room agent floor page = .ret (.pulled (.ok (page, floor))) := by
  simp [settle, empty]

variable {cfg room agent} in
theorem settle_some {floor : Int} {page : List StoredMessage} {m : StoredMessage}
    (last : page.getLast? = some m) (above : floor < m.seq) :
    settle cfg room agent floor page =
      .call (.setCursor room agent m.seq) fun _ => .ret (.pulled (.ok (page, m.seq))) := by
  simp [settle, last, above]

theorem serveStore_pull (limit : Option Nat) :
    serveStore cfg room agent (.pull limit) =
      .call (.getCursor room agent) fun (floor : Int) =>
        .call (.readBacklog room agent floor (Store.pullLimit limit)) fun page =>
          settle cfg room agent floor page := by
  refine congrArg (Prog.call _) (funext fun floor => congrArg (Prog.call _) (funext fun page => ?_))
  simp only [settle, Prog.bind, Handler.andThen, Option.isNone_none, Bool.true_and, gt_iff_lt,
    decide_eq_true_eq]
  by_cases advances : floor < (page.getLast?.map StoredMessage.seq).getD floor
  · rw [if_pos advances, if_pos advances]
    rfl
  · rw [if_neg advances, if_neg advances]
    rfl

end Store

/-- A pull that has begun goes on with its read or with moving the cursor. -/
def busy : Prog (hubMachine cfg) StoreReply → Bool
  | .call (.readBacklog ..) _ => true
  | .call (.setCursor ..) _ => true
  | _ => false

/-- A pull that has read a batch goes on with moving the cursor. -/
def moving : Prog (hubMachine cfg) StoreReply → Bool
  | .call (.setCursor ..) _ => true
  | _ => false

def underWay (P : StorePool cfg) (t : Nat) : Bool := (P.threads t).any (fun thread => busy thread.2)

def moves (P : StorePool cfg) (t : Nat) : Bool := (P.threads t).any (fun thread => moving thread.2)

/-- The schedules in which a pull begins when no other is under way. -/
def oneAfterAnother (P : StorePool cfg) (_ : Nat) : HubCall → Prop
  | .getCursor .. => ∀ e ∈ P.log, underWay P e.thread = false
  | _ => True

/-- The batch that a call reads. -/
def batchOf : HubDone cfg → Option (List StoredMessage)
  | ⟨.readBacklog .., page⟩ => some page
  | _ => none

/-- The batches read, oldest first, one after the other. -/
def delivered (log : List (HubEvent cfg)) : List StoredMessage :=
  (log.reverse.filterMap (fun e => batchOf ⟨e.op, e.result⟩)).flatten

theorem mem_delivered {m : StoredMessage} {log : List (HubEvent cfg)} :
    m ∈ delivered log ↔
      ∃ e ∈ log, ∃ page, batchOf (⟨e.op, e.result⟩ : HubDone cfg) = some page ∧ m ∈ page := by
  simp only [delivered, List.mem_flatten, List.mem_filterMap, List.mem_reverse]
  constructor
  · intro received
    obtain ⟨page, ⟨e, logged, reads⟩, listed⟩ := received
    exact ⟨e, logged, page, reads, listed⟩
  · intro received
    obtain ⟨e, logged, page, reads, listed⟩ := received
    exact ⟨page, ⟨e, logged, reads⟩, listed⟩

theorem delivered_cons (e : HubEvent cfg) (log : List (HubEvent cfg)) :
    delivered (e :: log) = delivered log ++ (batchOf ⟨e.op, e.result⟩).getD [] := by
  unfold delivered
  rw [List.reverse_cons, List.filterMap_append, List.flatten_append]
  cases reads : batchOf (⟨e.op, e.result⟩ : HubDone cfg) with
  | none => simp [reads]
  | some page => simp [reads]

/-- A page is sorted by `seq`. -/
theorem SeqOrder.readBacklog_sorted {s : Store} (order : SeqOrder s) (room : String) (floor : Int)
    (lim : Nat) : (s.readBacklog room floor lim).Pairwise (fun a b => a.seq < b.seq) := by
  unfold Store.readBacklog
  set rows := (s.messages.filter (fun r => r.room = room ∧ r.seq > floor)).insertionSort
    (fun a b => a.seq ≤ b.seq) with sorted
  have permuted : rows.Perm (s.messages.filter (fun r => r.room = room ∧ r.seq > floor)) :=
    List.perm_insertionSort _ _
  have distinct : (rows.map MessageRow.seq).Nodup := by
    rw [(permuted.map MessageRow.seq).nodup_iff]
    refine List.pairwise_map.mpr ((order.increasing.filter _).imp ?_)
    exact fun below => ne_of_lt below
  have increasing : rows.Pairwise (fun a b => a.seq < b.seq) := by
    refine (List.pairwise_insertionSort (fun a b : MessageRow => a.seq ≤ b.seq) _).imp₂ ?_
      (List.pairwise_map.mp distinct)
    intro a b le ne
    exact lt_of_le_of_ne le ne
  exact List.pairwise_map.mpr (increasing.sublist (List.take_sublist _ _))

section Invariant

/-- The last `seq` delivered; where the member started, if none was. -/
def lastDelivered (start : Int) (log : List (HubEvent cfg)) : Int :=
  ((delivered log).getLast?.map StoredMessage.seq).getD start

/-- How far a request has come, while the cursor is `cur` and `last` was delivered last. -/
inductive Stage (cfg : HubConfig) (room agent : String) (cur last : Int) :
    StoreRequest → Prog (hubMachine cfg) StoreReply → Prop
  | waiting (req : StoreRequest) : Stage cfg room agent cur last req (serveStore cfg room agent req)
  | reading (limit : Option Nat) : Stage cfg room agent cur last (.pull limit)
      (.call (.readBacklog room agent cur (Store.pullLimit limit)) (settle cfg room agent cur))
  | moving (limit : Option Nat) (reply : StoreReply) : Stage cfg room agent cur last (.pull limit)
      (.call (.setCursor room agent last) fun _ => .ret reply)
  | done (req : StoreRequest) (reply : StoreReply) : Stage cfg room agent cur last req (.ret reply)

theorem moving_busy {p : Prog (hubMachine cfg) StoreReply} (idle : busy p = false) : moving p = false := by
  cases p with
  | ret reply => rfl
  | call op next =>
    cases op with
    | setCursor => cases idle
    | _ => rfl

theorem moves_of_idle {P : StorePool cfg} {u : Nat} (idle : underWay P u = false) : moves P u = false := by
  unfold underWay at idle
  unfold moves
  cases at_u : P.threads u with
  | none => rfl
  | some thread =>
    rw [at_u] at idle
    exact moving_busy idle

theorem busy_serveStore (cfg : HubConfig) (room agent : String) (req : StoreRequest) :
    busy (serveStore cfg room agent req) = false := by
  cases req with
  | pull limit => rw [serveStore_pull]; rfl
  | _ => rfl

/-- A request that is not under way does not depend on the cursor. -/
theorem Stage.of_idle {room agent : String} {cur last cur' last' : Int} {req : StoreRequest}
    {p : Prog (hubMachine cfg) StoreReply} (stage : Stage cfg room agent cur last req p)
    (idle : busy p = false) : Stage cfg room agent cur' last' req p := by
  cases stage with
  | waiting => exact .waiting req
  | reading => cases idle
  | moving => cases idle
  | done => exact .done req _

variable (room agent : String) (start : Int)

/-- The invariant of the runs: the cursor stands where the last batch ended, unless a pull is about to
    move it there. -/
structure Steady (P : StorePool cfg) : Prop where
  member : P.state.store.isMember room agent = true
  order : SeqOrder P.state.store
  stages : ∀ t req p, P.threads t = some (req, p) →
    Stage cfg room agent (P.state.store.getCursor room agent) (lastDelivered start P.log) req p
  begun : ∀ t, underWay P t = true → ∃ e ∈ P.log, e.thread = t
  one : ∀ t u, underWay P t = true → underWay P u = true → t = u
  settled : (∀ t, moves P t = false) →
    P.state.store.getCursor room agent = lastDelivered start P.log
  sorted : (delivered P.log).Pairwise (fun a b => a.seq < b.seq)
  beyond : ∀ m ∈ delivered P.log, start < m.seq

variable {room agent start} {P : StorePool cfg} {t : Nat} {req : StoreRequest} {op : HubCall}
  {next : op.Res → Prog (hubMachine cfg) StoreReply}

theorem underWay_exec (u : Nat) : underWay (P.exec t req op next) u =
    if u = t then busy (next (op.exec cfg P.state).1) else underWay P u := by
  unfold underWay
  rw [Pool.exec_threads]
  split <;> rfl

theorem moves_exec (u : Nat) : moves (P.exec t req op next) u =
    if u = t then moving (next (op.exec cfg P.state).1) else moves P u := by
  unfold moves
  rw [Pool.exec_threads]
  split <;> rfl

/-- A call besides the pulls keeps the invariant. -/
theorem Steady.beside (steady : Steady room agent start P)
    (pending : P.threads t = some (req, .call op next)) (idle : busy (.call op next) = false)
    (members : (op.exec cfg P.state).2.store.members = P.state.store.members)
    (unread : batchOf (⟨op, (op.exec cfg P.state).1⟩ : HubDone cfg) = none) {reply : StoreReply}
    (ends : next (op.exec cfg P.state).1 = .ret reply) : Steady room agent start (P.exec t req op next) := by
  have same : delivered (P.exec t req op next).log = delivered P.log := by
    rw [Pool.exec_log, delivered_cons]
    show _ ++ (batchOf (⟨op, (op.exec cfg P.state).1⟩ : HubDone cfg)).getD [] = _
    rw [unread]
    exact List.append_nil _
  have last : lastDelivered start (P.exec t req op next).log = lastDelivered start P.log := by
    unfold lastDelivered
    rw [same]
  have cursor : (P.exec t req op next).state.store.getCursor room agent =
      P.state.store.getCursor room agent := by
    unfold Store.getCursor
    rw [Pool.exec_state, members]
  refine ⟨?_, steady.order.exec op, ?_, ?_, ?_, ?_, ?_, ?_⟩
  · have member := steady.member
    unfold Store.isMember at member ⊢
    rw [Pool.exec_state, members]
    exact member
  · intro u req' p at_u
    rw [cursor, last]
    rw [Pool.exec_threads] at at_u
    split at at_u
    · cases at_u
      rw [ends]
      exact .done req reply
    · exact steady.stages u req' p at_u
  · intro u busy
    rw [underWay_exec, ends] at busy
    split at busy
    · cases busy
    · obtain ⟨e, logged, own⟩ := steady.begun u busy
      exact ⟨e, List.mem_cons_of_mem _ logged, own⟩
  · intro u v first second
    rw [underWay_exec] at first second
    rw [ends] at first second
    split at first
    · cases first
    · split at second
      · cases second
      · exact steady.one u v first second
  · intro still
    rw [cursor, last]
    refine steady.settled ?_
    intro u
    by_cases own : u = t
    · subst own
      rw [moves, pending]
      exact moving_busy idle
    · have still := still u
      rwa [moves_exec, if_neg own] at still
  · rw [same]
    exact steady.sorted
  · rw [same]
    exact steady.beyond

/-- A call of a pull, while no other is under way, keeps the invariant if it does for this one. -/
theorem Steady.alone (steady : Steady room agent start P) (others : ∀ u, u ≠ t → underWay P u = false)
    (member : (op.exec cfg P.state).2.store.isMember room agent = true)
    (stage : Stage cfg room agent ((op.exec cfg P.state).2.store.getCursor room agent)
      (lastDelivered start (⟨t, op, P.state⟩ :: P.log)) req (next (op.exec cfg P.state).1))
    (settled : moving (next (op.exec cfg P.state).1) = false →
      (op.exec cfg P.state).2.store.getCursor room agent =
        lastDelivered start (⟨t, op, P.state⟩ :: P.log))
    (sorted : (delivered (⟨t, op, P.state⟩ :: P.log)).Pairwise (fun a b => a.seq < b.seq))
    (beyond : ∀ m ∈ delivered (⟨t, op, P.state⟩ :: P.log : List (HubEvent cfg)), start < m.seq) :
    Steady room agent start (P.exec t req op next) := by
  have only : ∀ u, underWay (P.exec t req op next) u = true → u = t := by
    intro u busy
    by_contra other
    rw [underWay_exec, if_neg other, others u other] at busy
    cases busy
  refine ⟨member, steady.order.exec op, ?_, ?_, ?_, ?_, sorted, beyond⟩
  · intro u req' p at_u
    rw [Pool.exec_threads] at at_u
    split at at_u
    · cases at_u
      exact stage
    · rename_i other
      have idle := others u other
      rw [underWay, at_u] at idle
      exact (steady.stages u req' p at_u).of_idle idle
  · intro u busy
    exact ⟨⟨t, op, P.state⟩, List.mem_cons_self, (only u busy).symm⟩
  · intro u v first second
    rw [only u first, only v second]
  · intro still
    have own := still t
    rw [moves_exec, if_pos rfl] at own
    exact settled own

theorem lastDelivered_cons (e : HubEvent cfg) (log : List (HubEvent cfg)) :
    lastDelivered start (e :: log) =
      (((batchOf (⟨e.op, e.result⟩ : HubDone cfg)).getD []).getLast?.map StoredMessage.seq).getD
        (lastDelivered start log) := by
  unfold lastDelivered
  rw [delivered_cons, List.getLast?_append]
  cases ((batchOf (⟨e.op, e.result⟩ : HubDone cfg)).getD []).getLast? <;> rfl

/-- Nothing delivered lies beyond the last one. -/
theorem Steady.delivered_le (steady : Steady room agent start P) {m : StoredMessage}
    (received : m ∈ delivered P.log) : m.seq ≤ lastDelivered start P.log := by
  have sorted := steady.sorted
  unfold lastDelivered
  rcases List.eq_nil_or_concat (delivered P.log) with none | ⟨front, last, same⟩
  · rw [none] at received
    cases received
  · rw [List.concat_eq_append] at same
    rw [same] at received sorted ⊢
    rw [List.getLast?_concat]
    show m.seq ≤ last.seq
    rcases List.mem_append.mp received with earlier | final
    · exact le_of_lt ((List.pairwise_append.mp sorted).2.2 m earlier last (by simp))
    · rw [List.mem_singleton.mp final]

section Pull

variable {limit : Option Nat}

theorem Steady.others (steady : Steady room agent start P) (own : underWay P t = true) (u : Nat)
    (other : u ≠ t) : underWay P u = false := by
  by_contra busy
  exact other (steady.one u t (by simpa using busy) own)

theorem Steady.start_le (steady : Steady room agent start P) : start ≤ lastDelivered start P.log := by
  unfold lastDelivered
  cases last : (delivered P.log).getLast? with
  | none => exact le_refl start
  | some m => exact le_of_lt (steady.beyond m (List.mem_of_getLast? last))

/-- A pull that is about to read reads on from the last delivered message. -/
theorem Steady.floor (steady : Steady room agent start P) {floor : Int} {lim : Nat}
    {next : List StoredMessage → Prog (hubMachine cfg) StoreReply}
    (pending : P.threads t = some (req, .call (.readBacklog room agent floor lim) next)) :
    P.state.store.getCursor room agent = lastDelivered start P.log := by
  have own : underWay P t = true := by
    rw [underWay, pending]
    rfl
  refine steady.settled ?_
  intro u
  by_cases same : u = t
  · subst same
    rw [moves, pending]
    rfl
  · exact moves_of_idle (steady.others own u same)

/-- The cursor read of a pull keeps the invariant, when no other pull is under way. -/
theorem Steady.begin (steady : Steady room agent start P) (idle : ∀ u, underWay P u = false) :
    Steady room agent start (P.exec t (.pull limit) (.getCursor room agent) fun floor =>
      .call (.readBacklog room agent floor (Store.pullLimit limit)) (settle cfg room agent floor)) := by
  have same : delivered (⟨t, .getCursor room agent, P.state⟩ :: P.log : List (HubEvent cfg)) =
      delivered P.log := by
    rw [delivered_cons]
    exact List.append_nil _
  have settled : P.state.store.getCursor room agent = lastDelivered start P.log := by
    exact steady.settled (fun u => moves_of_idle (idle u))
  refine steady.alone (fun u _ => idle u) steady.member (.reading limit) ?_ ?_ ?_
  · intro _
    rw [lastDelivered_cons]
    exact settled
  · rw [same]
    exact steady.sorted
  · rw [same]
    exact steady.beyond

/-- The read of a pull keeps the invariant. -/
theorem Steady.read (steady : Steady room agent start P)
    (pending : P.threads t = some (.pull limit,
      .call (.readBacklog room agent (P.state.store.getCursor room agent) (Store.pullLimit limit))
        (settle cfg room agent (P.state.store.getCursor room agent)))) :
    Steady room agent start (P.exec t (.pull limit)
      (.readBacklog room agent (P.state.store.getCursor room agent) (Store.pullLimit limit))
      (settle cfg room agent (P.state.store.getCursor room agent))) := by
  have own : underWay P t = true := by
    rw [underWay, pending]
    rfl
  have floor := steady.floor pending
  set cur := P.state.store.getCursor room agent with at_cur
  set page := P.state.store.readBacklog room cur (Store.pullLimit limit) with read
  have grown : delivered (⟨t, .readBacklog room agent cur (Store.pullLimit limit), P.state⟩ ::
      P.log : List (HubEvent cfg)) = delivered P.log ++ page := delivered_cons _ _
  have last : lastDelivered start (⟨t, .readBacklog room agent cur (Store.pullLimit limit), P.state⟩ ::
      P.log : List (HubEvent cfg)) = (page.getLast?.map StoredMessage.seq).getD cur := by
    rw [lastDelivered_cons, ← floor]
    rfl
  have above : ∀ m ∈ page, cur < m.seq := by
    intro m listed
    obtain ⟨row, -, -, above, rfl⟩ := Store.mem_readBacklog listed
    exact above
  refine steady.alone (steady.others own) steady.member ?_ ?_ ?_ ?_
  · show Stage cfg room agent cur _ _ (settle cfg room agent cur page)
    rw [last]
    cases ends : page.getLast? with
    | none =>
      rw [settle_none ends]
      exact .done _ _
    | some m =>
      rw [settle_some ends (above m (List.mem_of_getLast? ends))]
      exact .moving limit _
  · show moving (settle cfg room agent cur page) = false → cur = _
    rw [last]
    cases ends : page.getLast? with
    | none => exact fun _ => rfl
    | some m =>
      rw [settle_some ends (above m (List.mem_of_getLast? ends))]
      intro still
      cases still
  · rw [grown, List.pairwise_append]
    refine ⟨steady.sorted, steady.order.readBacklog_sorted _ _ _, ?_⟩
    intro a old b new
    exact lt_of_le_of_lt (floor ▸ steady.delivered_le old) (above b new)
  · rw [grown]
    intro m received
    rcases List.mem_append.mp received with old | new
    · exact steady.beyond m old
    · exact lt_of_le_of_lt (floor ▸ steady.start_le) (above m new)

theorem Steady.move (steady : Steady room agent start P) {reply : StoreReply}
    (pending : P.threads t = some (.pull limit,
      .call (.setCursor room agent (lastDelivered start P.log)) fun _ => .ret reply)) :
    Steady room agent start (P.exec t (.pull limit)
      (.setCursor room agent (lastDelivered start P.log)) fun _ => .ret reply) := by
  have own : underWay P t = true := by
    rw [underWay, pending]
    rfl
  obtain ⟨row, found⟩ := Store.isMember_iff.mp steady.member
  have moved : (P.state.store.setCursor room agent (lastDelivered start P.log)).memberRow room agent =
      some { row with cursor := lastDelivered start P.log } := by
    rw [Store.memberRow_setCursor, found]
    simp [Prod.mk.inj (rowOf_mem found).2]
  have cursor : (P.state.store.setCursor room agent (lastDelivered start P.log)).getCursor room agent =
      lastDelivered start P.log := by
    rw [Store.getCursor_eq, moved]
    rfl
  have same : delivered (⟨t, .setCursor room agent (lastDelivered start P.log), P.state⟩ ::
      P.log : List (HubEvent cfg)) = delivered P.log := by
    rw [delivered_cons]
    exact List.append_nil _
  refine steady.alone (steady.others own) (Store.isMember_iff.mpr ⟨_, moved⟩) (.done _ reply) ?_ ?_ ?_
  · intro _
    rw [lastDelivered_cons]
    exact cursor
  · rw [same]
    exact steady.sorted
  · rw [same]
    exact steady.beyond

end Pull

theorem Steady.step {Q : StorePool cfg} (steady : Steady room agent start P)
    (step : Pool.Step (serveStore cfg room agent) oneAfterAnother P Q) : Steady room agent start Q := by
  cases step with
  | spawn t req free =>
    have idle : ∀ u, underWay (P.spawn t req (serveStore cfg room agent req)) u = underWay P u := by
      intro u
      unfold underWay
      rw [Pool.spawn_threads]
      split
      · rename_i same
        subst same
        rw [free]
        exact busy_serveStore cfg room agent req
      · rfl
    have still : ∀ u, moves (P.spawn t req (serveStore cfg room agent req)) u = moves P u := by
      intro u
      unfold moves
      rw [Pool.spawn_threads]
      split
      · rename_i same
        subst same
        rw [free]
        exact moving_busy (busy_serveStore cfg room agent req)
      · rfl
    refine ⟨steady.member, steady.order, ?_, ?_, ?_, ?_, steady.sorted, steady.beyond⟩
    · intro u req' p at_u
      rw [Pool.spawn_threads] at at_u
      split at at_u
      · cases at_u
        exact .waiting req
      · exact steady.stages u req' p at_u
    · intro u
      rw [idle]
      exact steady.begun u
    · intro u v
      rw [idle, idle]
      exact steady.one u v
    · intro none
      exact steady.settled (fun u => (still u).symm.trans (none u))
  | exec t req op next pending enabled allowed =>
    have stage := steady.stages t req _ pending
    generalize same : (Prog.call op next : Prog (hubMachine cfg) StoreReply) = p at stage
    cases stage with
    | waiting =>
      cases req with
      | append m =>
        cases same
        refine steady.beside pending rfl ?_ rfl rfl
        exact exec_same cfg _ P.state .members (by simp [HubCall.writes])
      | prune retainMs keep now =>
        cases same
        exact steady.beside pending rfl rfl rfl rfl
      | pull limit =>
        rw [serveStore_pull] at same
        cases same
        refine steady.begin ?_
        intro u
        by_contra busy
        have busy : underWay P u = true := by simpa using busy
        obtain ⟨e, logged, rfl⟩ := steady.begun u busy
        rw [allowed e logged] at busy
        cases busy
    | reading limit =>
      cases same
      exact steady.read pending
    | moving limit reply =>
      cases same
      exact steady.move pending
    | done => cases same

end Invariant

/-! ## Delivery -/

/-- How far a pull looks: to the end of its batch if the batch is full, else to the newest message. -/
def windowEnd : HubEvent cfg → Option Int
  | ⟨_, .readBacklog room _ floor lim, h⟩ =>
      let page := h.store.readBacklog room floor lim
      some (if page.length < lim then h.store.messageSeq
        else (page.getLast?.map StoredMessage.seq).getD floor)
  | _ => none

/-- A page that is not full holds every message of its room beyond its floor. -/
theorem Store.readBacklog_short {s : Store} {room : String} {floor : Int} {lim : Nat}
    (short : (s.readBacklog room floor lim).length < lim) {r : MessageRow} (stored : r ∈ s.messages)
    (here : r.room = room) (above : floor < r.seq) : r.toStored ∈ s.readBacklog room floor lim := by
  unfold Store.readBacklog at short ⊢
  rw [List.length_map, List.length_take] at short
  rw [List.take_of_length_le (by omega)]
  refine List.mem_map_of_mem ?_
  rw [List.mem_insertionSort, List.mem_filter]
  exact ⟨stored, by simp [here, above]⟩

section Delivery

variable {room agent : String} {h : HubState} {P : StorePool cfg}

theorem steady_run (member : h.store.isMember room agent = true) (order : SeqOrder h.store)
    (run : Pool.Reachable (serveStore cfg room agent) oneAfterAnother h P) :
    Steady room agent (h.store.getCursor room agent) P := by
  refine Pool.Reachable.invariant (I := Steady room agent (h.store.getCursor room agent)) ?_
    (fun P Q steady step => steady.step step) run
  refine ⟨member, order, ?_, ?_, ?_, fun _ => rfl, List.Pairwise.nil, ?_⟩
  · intro t req p at_t
    cases at_t
  · intro t busy
    cases busy
  · intro t u first
    cases first
  · intro m received
    cases received

/-- Every read of a run reads on from what was delivered before. -/
theorem read_floor (member : h.store.isMember room agent = true) (order : SeqOrder h.store)
    (run : Pool.Reachable (serveStore cfg room agent) oneAfterAnother h P)
    {newer older : List (HubEvent cfg)} {g : HubEvent cfg} (split : P.log = newer ++ g :: older)
    {w : Int} (reads : windowEnd g = some w) :
    ∃ lim, g.op = .readBacklog room agent (lastDelivered (h.store.getCursor room agent) older) lim ∧
      SeqOrder g.before.store := by
  obtain ⟨P', req, next, run', rfl, state, pending, -⟩ := run.event split
  have steady := steady_run member order run'
  have stage := steady.stages _ _ _ pending
  obtain ⟨u, op, before⟩ := g
  generalize same : (Prog.call op next : Prog (hubMachine cfg) StoreReply) = p at stage
  cases stage with
  | waiting =>
    cases req with
    | append m =>
      cases same
      cases reads
    | prune retainMs keep now =>
      cases same
      cases reads
    | pull limit =>
      rw [serveStore_pull] at same
      cases same
      cases reads
  | reading limit =>
    cases same
    exact ⟨Store.pullLimit limit, by rw [steady.floor pending], state ▸ steady.order⟩
  | moving limit reply =>
    cases same
    cases reads
  | done => cases same

/-- A batch ends within the window of its pull. -/
theorem batch_le_windowEnd {e : HubEvent cfg} (order : SeqOrder e.before.store)
    {page : List StoredMessage} (reads : batchOf (⟨e.op, e.result⟩ : HubDone cfg) = some page)
    {m : StoredMessage} (last : page.getLast? = some m) : ∃ w, windowEnd e = some w ∧ m.seq ≤ w := by
  obtain ⟨t, op, h⟩ := e
  cases op with
  | readBacklog room agent floor lim =>
    cases reads
    obtain ⟨row, stored, -, -, rfl⟩ := Store.mem_readBacklog (List.mem_of_getLast? last)
    refine ⟨_, rfl, ?_⟩
    split
    · exact order.bounded row stored
    · have last : (h.store.readBacklog room floor lim).getLast? = some row.toStored := last
      rw [last]
      exact le_refl _
  | _ => cases reads

/-- What was delivered lies within the windows of the pulls so far. -/
theorem delivered_reached (order : SeqOrder h.store)
    (run : Pool.Reachable (serveStore cfg room agent) oneAfterAnother h P) {start x : Int}
    (below : start < x) (unreached : ∀ e ∈ P.log, ∀ w, windowEnd e = some w → w < x) :
    lastDelivered start P.log < x := by
  refine (run.history (I := fun (log : List (HubEvent cfg)) h => SeqOrder h.store ∧
    ((∀ e ∈ log, ∀ w, windowEnd e = some w → w < x) → lastDelivered start log < x)) ?_ ?_).1.2 unreached
  · exact ⟨order, fun _ => below⟩
  · intro log e before
    refine ⟨before.1.exec e.op, ?_⟩
    intro unreached
    have earlier := before.2 (fun e' member => unreached e' (List.mem_cons_of_mem _ member))
    rw [lastDelivered_cons]
    cases reads : batchOf (⟨e.op, e.result⟩ : HubDone cfg) with
    | none => exact earlier
    | some page =>
      rw [Option.getD_some]
      cases last : page.getLast? with
      | none => exact earlier
      | some m =>
        obtain ⟨w, window, within⟩ := batch_le_windowEnd before.1 reads last
        exact lt_of_le_of_lt within (unreached e List.mem_cons_self w window)

/-- The first pull whose window reaches a message returns it, if it is still stored. -/
theorem delivered_of_reached (member : h.store.isMember room agent = true) (order : SeqOrder h.store)
    (run : Pool.Reachable (serveStore cfg room agent) oneAfterAnother h P)
    {newer older : List (HubEvent cfg)} {g : HubEvent cfg} (split : P.log = newer ++ g :: older)
    {w : Int} (window : windowEnd g = some w) {r : MessageRow} (stored : r ∈ g.before.store.messages)
    (here : r.room = room) (start : h.store.getCursor room agent < r.seq) (within : r.seq ≤ w)
    (first : ∀ e ∈ older, ∀ w, windowEnd e = some w → w < r.seq) :
    ∃ page, batchOf (⟨g.op, g.result⟩ : HubDone cfg) = some page ∧ r.toStored ∈ page := by
  obtain ⟨lim, op, ordered⟩ := read_floor member order run split window
  obtain ⟨P', _, _, run', log, -⟩ := run.event split
  have beyond : lastDelivered (h.store.getCursor room agent) older < r.seq := by
    rw [← log] at first ⊢
    exact delivered_reached order run' start first
  obtain ⟨t, op', before⟩ := g
  subst op
  refine ⟨_, rfl, ?_⟩
  have window := Option.some.inj window
  split at window
  · rename_i short
    exact Store.readBacklog_short short stored here beyond
  · subst window
    cases last : (before.store.readBacklog room
        (lastDelivered (h.store.getCursor room agent) older) lim).getLast? with
    | none =>
      rw [last] at within
      exact absurd beyond (not_lt.mpr within)
    | some m =>
      rw [last] at within
      exact ordered.page last stored here beyond within

/-- The batches that a thread has read. -/
def batchesOf (log : List (HubEvent cfg)) (t : Nat) : List (List StoredMessage) :=
  (Pool.ownPast log t).filterMap batchOf

/-- A finished pull returns the one batch that it has read. -/
theorem pull_answer {t : Nat} {limit : Option Nat} {reply : StoreReply}
    (run : Pool.Reachable (serveStore cfg room agent) oneAfterAnother h P)
    (answers : P.answer t = some (.pull limit, reply)) :
    ∃ page cursor, reply = .pulled (.ok (page, cursor)) ∧ batchesOf P.log t = [page] := by
  refine run.ends (I := fun req reply past => ∀ limit, req = .pull limit →
    ∃ page cursor, reply = .pulled (.ok (page, cursor)) ∧ past.filterMap batchOf = [page]) ?_
    (Pool.answer_eq answers) limit rfl
  intro req
  cases req with
  | append m => exact fun outcome limit same => nomatch same
  | prune retainMs keep now => exact fun _ limit same => nomatch same
  | pull limit =>
    rw [serveStore_pull]
    intro floor page
    unfold settle
    dsimp only
    split
    · exact fun _ limit' _ => ⟨page, _, rfl, rfl⟩
    · exact fun limit' _ => ⟨page, _, rfl, rfl⟩

end Delivery

/-- Delivery across retention. Whatever is appended and pruned, the batches of the member's pulls, made one
    after another, are strictly increasing in `seq` and hold no message twice; each pull returns
    its own batch; and the first pull whose window reaches a message returns it if it
    is still stored. A prune deletes exactly the expired messages that are not among the newest of their
    room, and deletes nothing when it is run again. -/
theorem delivery_across_retention {cardBytes : AgentCard → List UInt8}
    {G : HubPool cfg → Nat → HubCall → Prop} {inflight : Nat} {H : HubPool cfg}
    (hub : Pool.Reachable (serve cfg cardBytes) G (.boot inflight) H) {room agent : String}
    (member : H.state.store.isMember room agent = true) {P : StorePool cfg}
    (run : Pool.Reachable (serveStore cfg room agent) oneAfterAnother H.state P) :
    (delivered P.log).Pairwise (fun a b => a.seq < b.seq) ∧
    (delivered P.log).Nodup ∧
    (∀ t limit reply, P.answer t = some (.pull limit, reply) →
      ∃ page cursor, reply = .pulled (.ok (page, cursor)) ∧ batchesOf P.log t = [page]) ∧
    (∀ newer g older w, P.log = newer ++ g :: older → windowEnd g = some w →
      ∀ r ∈ g.before.store.messages, r.room = room → H.state.store.getCursor room agent < r.seq →
        r.seq ≤ w → (∀ e ∈ older, ∀ w', windowEnd e = some w' → w' < r.seq) →
          r.toStored ∈ delivered P.log) ∧
    ∀ retainMs keep now, 0 ≤ keep →
      (∀ r, r ∈ (P.state.store.pruneMessages retainMs keep now).messages ↔
        r ∈ P.state.store.messages ∧ P.state.store.prunable retainMs keep now r = false) ∧
      (P.state.store.pruneMessages retainMs keep now).pruneMessages retainMs keep now =
        P.state.store.pruneMessages retainMs keep now := by
  have order := seqOrder_run hub
  have steady := steady_run member order run
  refine ⟨steady.sorted, ?_, fun t limit reply answers => pull_answer run answers, ?_, ?_⟩
  · refine steady.sorted.imp ?_
    intro a b below same
    rw [same] at below
    exact lt_irrefl _ below
  · intro newer g older w split window r stored here start within first
    obtain ⟨page, reads, listed⟩ :=
      delivered_of_reached member order run split window stored here start within first
    have logged : g ∈ P.log := by simp [split]
    exact mem_delivered.mpr ⟨g, logged, page, reads, listed⟩
  · intro retainMs keep now natural
    have positive : SeqPositive P.state.store :=
      (run.history (I := fun (_ : List (HubEvent cfg)) h => SeqPositive h.store) (seq_positive hub)
        (fun log e positive => positive.exec e.op)).1
    exact ⟨mem_pruneMessages steady.order positive.2 natural,
      pruneMessages_idempotent steady.order positive.2 natural⟩

/-- Alice has opened a room. -/
def ownRoomDemo : DemoPool := demoPlay [demoFrame 0 alice (.invite .channel (some "r") none none false)]

def demoText (n : Nat) : NewMessage :=
  ⟨"m" ++ toString n, "r", ⟨"A", "alice", none⟩, [.text "hi"], none, none, none, n⟩

/-- Three messages; a pull of one; a prune that keeps the newest; a pull of the rest. -/
def retentionDemo : StorePool demoConfig :=
  (Pool.start ownRoomDemo.state).play (serveStore demoConfig "r" "A")
    [.spawn 0 (.append (demoText 1)), .step 0, .spawn 1 (.append (demoText 2)), .step 1,
      .spawn 2 (.append (demoText 3)), .step 2, .spawn 3 (.pull (some 1)), .step 3, .step 3, .step 3,
      .spawn 4 (.prune 0 1 10), .step 4, .spawn 5 (.pull none), .step 5, .step 5, .step 5]

def oneAfterAnotherCheck (P : StorePool cfg) (_ : Nat) : HubCall → Bool
  | .getCursor .. => P.log.all (fun e => !underWay P e.thread)
  | _ => true

theorem oneAfterAnother_of_check (P : StorePool cfg) (t : Nat) (op : HubCall)
    (passed : oneAfterAnotherCheck P t op = true) : oneAfterAnother P t op := by
  cases op with
  | getCursor room agent => simpa [oneAfterAnother, oneAfterAnotherCheck] using passed
  | _ => trivial

theorem delivery_across_retention_demo :
    (delivered retentionDemo.log).map StoredMessage.seq = [1, 3] ∧
      (delivered retentionDemo.log).Pairwise (fun a b => a.seq < b.seq) := by
  have hub : Pool.Reachable demoServe Pool.anySchedule demoHub ownRoomDemo := demoPlay_reachable _
  have run : Pool.Reachable (serveStore demoConfig "r" "A") oneAfterAnother ownRoomDemo.state
      retentionDemo :=
    Pool.play_reachable_of_checks _ oneAfterAnother_of_check .refl (by decide +kernel)
  exact ⟨by decide +kernel, (delivery_across_retention hub (by decide +kernel) run).1⟩

end Parler.Hub
