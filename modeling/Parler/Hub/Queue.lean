import Mathlib.Data.List.Dedup
import Parler.Lib.Repeats
import Parler.Hub.Backlog
import Parler.Hub.CrashSafety
import Parler.Hub.Demo
import Parler.Hub.Leases

/-!
# The queue listing and the claim

Whether a message is work for a worker is computed twice: a claim parses the parts
of the message again and compares roles without regard to case, a listing joins the
index of dispatch rows with the messages. The index has one row for each spelling of a
role, so the join returns a message once per spelling that names the worker's role.
The listing is the list of what can be claimed exactly when nothing on the page is
spelled twice.
-/

namespace Parler.Hub

open Parler.Lib Parler.Protocol

variable {cfg : HubConfig}

/-! ## The index -/

/-- The roles a stored message dispatches to, one per dispatch part. -/
def MessageRow.roles (m : MessageRow) : List String := m.parts.filterMap dispatchRole

/-- The dispatch rows of a message are those of its roles, under its `seq`. -/
structure Indexed (s : Store) : Prop where
  rows : (s.serviceDispatches.map Store.dispatchKey).Nodup
  ids : (s.messages.map MessageRow.id).Nodup
  sound : ∀ d ∈ s.serviceDispatches, ∀ m ∈ s.messages, m.id = d.message → m.room = d.room →
    d.seq = m.seq ∧ d.role ∈ m.roles
  complete : ∀ m ∈ s.messages, ∀ role ∈ m.roles,
    ∃ d ∈ s.serviceDispatches, d.room = m.room ∧ d.message = m.id ∧ d.role = role

theorem insertDispatches_unique {s : Store} {room message : String} {seq : Int} {roles : List String}
    (unique : (s.serviceDispatches.map Store.dispatchKey).Nodup) :
    ((s.insertDispatches room message seq roles).serviceDispatches.map Store.dispatchKey).Nodup := by
  induction roles generalizing s with
  | nil => exact unique
  | cons role roles ih => exact ih (s := s.insertDispatch room message seq role) (nodup_insertNew unique)

/-- An append under an id that no dispatch row names keeps the index. -/
theorem Indexed.append {s : Store} (index : Indexed s) {m : NewMessage}
    (fresh : ∀ d ∈ s.serviceDispatches, d.message ≠ m.id) (new : ∀ r ∈ s.messages, r.id ≠ m.id) :
    Indexed ((s.insertMessage m).insertDispatches m.room m.id (s.messageSeq + 1) m.roles) := by
  have messages : ((s.insertMessage m).insertDispatches m.room m.id (s.messageSeq + 1)
      m.roles).messages = s.messages ++ [m.toRow (s.messageSeq + 1)] := insertDispatches_messages ..
  constructor
  · exact insertDispatches_unique (s := s.insertMessage m) index.rows
  · rw [messages, List.map_append, List.nodup_append]
    refine ⟨index.ids, by simp, ?_⟩
    intro first old second new' equal
    obtain ⟨r, listed, rfl⟩ := List.mem_map.mp old
    exact new r listed (equal.trans (by simpa [NewMessage.toRow] using new'))
  · intro d dispatched r listed named room
    rw [messages] at listed
    rcases Store.mem_insertDispatches dispatched with old | ⟨role, among, rfl⟩
    · rcases List.mem_append.mp listed with before | now
      · exact index.sound d old r before named room
      · rw [List.mem_singleton.mp now] at named
        exact absurd named.symm (fresh d old)
    · rcases List.mem_append.mp listed with before | now
      · exact absurd named (new r before)
      · rw [List.mem_singleton.mp now]
        exact ⟨rfl, among⟩
  · intro r listed role among
    rw [messages] at listed
    rcases List.mem_append.mp listed with before | now
    · obtain ⟨d, dispatched, same⟩ := index.complete r before role among
      exact ⟨d, Store.mem_insertDispatches_of_mem (s := s.insertMessage m) dispatched, same⟩
    · rw [List.mem_singleton.mp now] at among ⊢
      obtain ⟨d, dispatched, key⟩ := Store.insertDispatches_has (s := s.insertMessage m) m.room m.id
        (s.messageSeq + 1) among
      have same := Prod.mk.inj key
      exact ⟨d, dispatched, same.1, (Prod.mk.inj same.2).1, (Prod.mk.inj same.2).2⟩

/-- Losing messages keeps the index. -/
theorem Indexed.forget {s s' : Store} (index : Indexed s) {p : MessageRow → Bool}
    (messages : s'.messages = s.messages.filter p)
    (dispatches : s'.serviceDispatches = s.serviceDispatches) : Indexed s' := by
  have listed : ∀ m ∈ s'.messages, m ∈ s.messages := by
    intro m member
    rw [messages] at member
    exact (List.mem_filter.mp member).1
  constructor
  · rw [dispatches]
    exact index.rows
  · rw [messages]
    exact index.ids.sublist (List.filter_sublist.map MessageRow.id)
  · intro d dispatched m member
    rw [dispatches] at dispatched
    exact index.sound d dispatched m (listed m member)
  · intro m member role among
    rw [dispatches]
    exact index.complete m (listed m member) role among

/-! ## Runs -/

/-- The schedules in which every message id is drawn once. -/
def drawsNewIds (P : HubPool cfg) (_ : Nat) (op : HubCall) : Prop :=
  ∀ m, op = .appendMessage m → ∀ e ∈ P.log, ∀ m', e.op = .appendMessage m' → m'.id ≠ m.id

/-- The id a call appends a message under. -/
def HubCall.appendedId : HubCall → Option String
  | .appendMessage m => some m.id
  | _ => none

/-- A run whose appends are under different ids draws each id once. -/
theorem drawsNewIds_of_nodup {cardBytes : AgentCard → List UInt8} {inflight : Nat} {P : HubPool cfg}
    (reach : Pool.Reachable (serve cfg cardBytes) Pool.anySchedule (.boot inflight) P)
    (distinct : (P.log.filterMap (fun e => e.op.appendedId)).Nodup) :
    Pool.Reachable (serve cfg cardBytes) drawsNewIds (.boot inflight) P := by
  apply reach.restrict
  intro P' t op newer split m appends e logged m' appends' same
  rw [split, List.filterMap_append, List.nodup_append] at distinct
  have tail := distinct.2.1
  rw [List.filterMap_cons_some (b := m.id) (by simp [appends, HubCall.appendedId]),
    List.nodup_cons] at tail
  apply tail.1
  rw [List.mem_filterMap]
  exact ⟨e, logged, by simp [appends', HubCall.appendedId, same]⟩

/-- The index holds, and a dispatch row was written by an append of its message. -/
theorem indexed_run {cardBytes : AgentCard → List UInt8} {inflight : Nat} {P : HubPool cfg}
    (reach : Pool.Reachable (serve cfg cardBytes) drawsNewIds (.boot inflight) P) :
    Indexed P.state.store ∧ ∀ d ∈ P.state.store.serviceDispatches,
      ∃ e ∈ P.log, ∃ m, e.op = .appendMessage m ∧ m.id = d.message := by
  refine Pool.Reachable.invariant (I := fun P : HubPool cfg => Indexed P.state.store ∧
    ∀ d ∈ P.state.store.serviceDispatches,
      ∃ e ∈ P.log, ∃ m, e.op = .appendMessage m ∧ m.id = d.message) ?_ ?_ reach
  · refine ⟨⟨List.nodup_nil, List.nodup_nil, ?_, ?_⟩, ?_⟩
    · intro d dispatched
      cases dispatched
    · intro m listed
      cases listed
    · intro d dispatched
      cases dispatched
  · intro P Q before step
    obtain ⟨index, written⟩ := before
    cases step with
    | spawn t req free => exact ⟨index, written⟩
    | exec t req op next pending enabled allowed =>
      have later : ∀ d ∈ P.state.store.serviceDispatches,
          ∃ e ∈ (P.exec t req op next).log, ∃ m, e.op = .appendMessage m ∧ m.id = d.message := by
        intro d dispatched
        obtain ⟨e, logged, m, appends⟩ := written d dispatched
        exact ⟨e, List.mem_cons_of_mem _ logged, m, appends⟩
      by_cases appends : ∃ m, op = .appendMessage m
      · obtain ⟨m, rfl⟩ := appends
        rcases P.state.tryStoreWith_cases (P.state.store.appendMessage m) with
          ⟨out, s, ok, after⟩ | same
        · rw [Pool.exec_state]
          simp only [HubCall.exec, after]
          rcases Store.appendMessage_ok ok with ⟨-, -, -, rfl⟩ | ⟨-, new, -, rfl⟩
          · exact ⟨⟨index.rows, index.ids, index.sound, index.complete⟩, later⟩
          · refine ⟨index.append ?_ new, ?_⟩
            · intro d dispatched same
              obtain ⟨e, logged, m', appended, named⟩ := written d dispatched
              exact allowed m rfl e logged m' appended (named.trans same)
            · intro d dispatched
              rcases Store.mem_insertDispatches dispatched with old | ⟨role, -, rfl⟩
              · exact later d old
              · exact ⟨_, List.mem_cons_self, m, rfl, rfl⟩
        · rw [Pool.exec_state]
          simp only [HubCall.exec, same]
          exact ⟨index, later⟩
      · have dispatches : (op.exec cfg P.state).2.store.serviceDispatches =
            P.state.store.serviceDispatches := by
          refine exec_same cfg op P.state .serviceDispatches ?_
          cases op with
          | appendMessage m => exact absurd ⟨m, rfl⟩ appends
          | _ => simp [HubCall.writes]
        cases messageChange_exec cfg op P.state with
        | kept p rows seq =>
          refine ⟨index.forget rows dispatches, ?_⟩
          intro d dispatched
          rw [Pool.exec_state, dispatches] at dispatched
          exact later d dispatched
        | appended m append => exact absurd ⟨m, append⟩ appends

/-- Messages are ordered in every run. -/
theorem seqOrder_run {cardBytes : AgentCard → List UInt8} {inflight : Nat} {P : HubPool cfg}
    {G : HubPool cfg → Nat → HubCall → Prop}
    (reach : Pool.Reachable (serve cfg cardBytes) G (.boot inflight) P) : SeqOrder P.state.store := by
  refine Pool.Reachable.invariant (I := fun P : HubPool cfg => SeqOrder P.state.store) ?_ ?_ reach
  · exact ⟨List.Pairwise.nil, fun r listed => nomatch listed⟩
  · intro P Q order step
    cases step with
    | spawn t req free => exact order
    | exec t req op next pending enabled allowed => exact order.exec op

/-- A message has at most one claim row in every run. -/
theorem claims_unique_run {cardBytes : AgentCard → List UInt8} {inflight : Nat} {P : HubPool cfg}
    {G : HubPool cfg → Nat → HubCall → Prop}
    (reach : Pool.Reachable (serve cfg cardBytes) G (.boot inflight) P) :
    (P.state.store.serviceClaims.map Store.claimKey).Nodup := by
  have any : Pool.Reachable (serve cfg cardBytes) Pool.anySchedule (.boot inflight) P :=
    reach.restrict (fun _ _ _ _ _ => trivial)
  exact (claimsAgree_run any).1.unique

/-! ## What can be claimed -/

section Listing

variable (s : Store) (room worker role : String) (now : Int)

/-- The messages of a room that a claim would be granted for, apart from those the worker has a
    live lease on, oldest first. -/
def Store.grantable (lease : Nat) : List MessageRow :=
  s.messages.filter (fun m => m.room = room ∧
    (s.claimServiceMessage room m.id worker lease now).1.isSome = true ∧
    s.ownsLiveClaim room m.id worker now = false)

/-- In how many spellings the message dispatches to the role. -/
def MessageRow.spellings (m : MessageRow) : Nat :=
  (m.roles.filter (fun r => eqIgnoreAsciiCase r role)).dedup.length

variable {s room worker role now}

theorem spellings_pos {m : MessageRow} :
    1 ≤ m.spellings role ↔ m.roles.any (fun r => eqIgnoreAsciiCase r role) = true := by
  unfold MessageRow.spellings
  rw [Nat.one_le_iff_ne_zero, ne_eq, List.length_eq_zero_iff, List.dedup_eq_nil, List.filter_eq_nil_iff]
  simp

theorem claimable_iff {message : String} :
    s.claimable room message now = true ↔
      ∀ c, claimOf room message s = some c → c.state = .active ∧ c.leaseUntil ≤ now := by
  unfold Store.claimable
  rw [find_claim]
  cases claimOf room message s with
  | none => simp
  | some c => simp

theorem ownsLiveClaim_iff {message : String} (unique : (s.serviceClaims.map Store.claimKey).Nodup) :
    s.ownsLiveClaim room message worker now = true ↔
      ∃ c, claimOf room message s = some c ∧ c.worker = worker ∧ c.state = .active ∧
        now < c.leaseUntil := by
  unfold Store.ownsLiveClaim
  rw [List.any_eq_true]
  constructor
  · intro owns
    obtain ⟨c, listed, holds⟩ := owns
    simp only [decide_eq_true_eq] at holds
    obtain ⟨rfl, rfl, rest⟩ := holds
    exact ⟨c, rowOf_of_mem unique listed, rest⟩
  · intro owns
    obtain ⟨c, row, rest⟩ := owns
    obtain ⟨listed, key⟩ := rowOf_mem row
    obtain ⟨rfl, rfl⟩ := Prod.mk.inj key
    exact ⟨c, listed, by simpa using rest⟩

theorem claim_granted_iff {served message : String} {lease : Nat}
    (serves : s.servedRole room worker = some served) :
    (s.claimServiceMessage room message worker lease now).1.isSome = true ↔
      (s.ownsLiveClaim room message worker now = true ∨ s.available worker now = true) ∧
        s.dispatchedTo room message served = true ∧
        s.claimAllowed room message worker now = true := by
  unfold Store.claimServiceMessage
  rw [serves]
  dsimp only
  cases dispatched : s.dispatchedTo room message served <;>
    cases s.ownsLiveClaim room message worker now <;> cases s.available worker now <;>
    cases s.claimAllowed room message worker now <;> simp

/-- A claim by a worker without a live lease is granted when the worker is available, the message
    dispatches to its role, and the message has no claim but an expired one. -/
theorem granted_iff {served message : String} {lease : Nat}
    (unique : (s.serviceClaims.map Store.claimKey).Nodup)
    (serves : s.servedRole room worker = some served) :
    ((s.claimServiceMessage room message worker lease now).1.isSome = true ∧
        s.ownsLiveClaim room message worker now = false) ↔
      s.available worker now = true ∧ s.dispatchedTo room message served = true ∧
        s.claimable room message now = true := by
  rw [claim_granted_iff serves, Bool.eq_false_iff, ne_eq, ownsLiveClaim_iff unique, claimAllowed_iff,
    claimable_iff]
  constructor
  · intro granted
    obtain ⟨⟨owns | available, dispatched, allowed⟩, free⟩ := granted
    · exact absurd owns free
    · refine ⟨available, dispatched, ?_⟩
      intro c row
      obtain ⟨active, own | expired⟩ := allowed c row
      · refine ⟨active, ?_⟩
        by_contra live
        exact free ⟨c, row, own, active, by omega⟩
      · exact ⟨active, expired⟩
  · intro claimable
    obtain ⟨available, dispatched, claimable⟩ := claimable
    refine ⟨⟨Or.inr available, dispatched, ?_⟩, ?_⟩
    · intro c row
      exact ⟨(claimable c row).1, Or.inr (claimable c row).2⟩
    · intro owns
      obtain ⟨c, row, -, -, live⟩ := owns
      have expired := (claimable c row).2
      omega

/-- In a store with an index, the rows of a message for a role are its spellings. -/
theorem dispatchRows_length (index : Indexed s) {m : MessageRow} (listed : m ∈ s.messages) :
    (s.serviceDispatches.filter (fun d => d.room = m.room ∧ d.message = m.id ∧
      toAsciiLowercase d.role = toAsciiLowercase role)).length = m.spellings role := by
  have keys : ((s.serviceDispatches.filter (fun d => d.room = m.room ∧ d.message = m.id ∧
      toAsciiLowercase d.role = toAsciiLowercase role)).map Store.dispatchKey).Nodup :=
    index.rows.sublist (List.filter_sublist.map Store.dispatchKey)
  -- Within one message the key is the role.
  have keyed : (s.serviceDispatches.filter (fun d => d.room = m.room ∧ d.message = m.id ∧
      toAsciiLowercase d.role = toAsciiLowercase role)).map Store.dispatchKey =
      ((s.serviceDispatches.filter (fun d => d.room = m.room ∧ d.message = m.id ∧
        toAsciiLowercase d.role = toAsciiLowercase role)).map DispatchRow.role).map
        (fun r => (m.room, m.id, r)) := by
    rw [List.map_map]
    apply List.map_congr_left
    intro d member
    have own := (List.mem_filter.mp member).2
    simp only [decide_eq_true_eq] at own
    simp [Store.dispatchKey, own.1, own.2.1]
  rw [keyed] at keys
  have distinct := List.Nodup.of_map _ keys
  rw [← List.length_map (f := DispatchRow.role)]
  unfold MessageRow.spellings
  apply List.Perm.length_eq
  rw [List.perm_ext_iff_of_nodup distinct (List.nodup_dedup _)]
  intro r
  rw [List.mem_dedup, List.mem_map, List.mem_filter]
  constructor
  · intro made
    obtain ⟨d, member, rfl⟩ := made
    obtain ⟨dispatched, own⟩ := List.mem_filter.mp member
    simp only [decide_eq_true_eq] at own
    exact ⟨(index.sound d dispatched m listed own.2.1.symm own.1.symm).2, by
      simpa [eqIgnoreAsciiCase] using own.2.2⟩
  · intro among
    obtain ⟨among, same⟩ := among
    obtain ⟨d, dispatched, room, message, rfl⟩ := index.complete m listed r among
    refine ⟨d, List.mem_filter.mpr ⟨dispatched, ?_⟩, rfl⟩
    simpa [room, message, eqIgnoreAsciiCase] using same

/-- Ids are unique, so any search that names the id finds the message. -/
theorem find_message {p : MessageRow → Bool} {m : MessageRow}
    (ids : (s.messages.map MessageRow.id).Nodup) (listed : m ∈ s.messages) (fits : p m = true)
    (only : ∀ r, p r = true → r.id = m.id) : s.messages.find? p = some m := by
  cases found : s.messages.find? p with
  | none => exact absurd fits (by simpa using List.find?_eq_none.mp found m listed)
  | some r =>
    have same : r.id = m.id := only r (List.find?_some found)
    rw [List.inj_on_of_nodup_map ids (List.mem_of_find?_eq_some found) listed same]

/-- The join of a dispatch row with the messages. -/
def Store.joinMessage (s : Store) (d : DispatchRow) : Option MessageRow :=
  s.messages.find? (fun m => m.id = d.message ∧ m.room = d.room)

theorem joinMessage_iff (ids : (s.messages.map MessageRow.id).Nodup) {d : DispatchRow}
    {m : MessageRow} :
    s.joinMessage d = some m ↔ m ∈ s.messages ∧ m.id = d.message ∧ m.room = d.room := by
  constructor
  · intro found
    have fits := List.find?_some found
    simp only [decide_eq_true_eq] at fits
    exact ⟨List.mem_of_find?_eq_some found, fits⟩
  · intro joined
    obtain ⟨listed, id, room⟩ := joined
    refine find_message ids listed (by simp [id, room]) ?_
    intro r fits
    simp only [decide_eq_true_eq] at fits
    rw [fits.1, id]

theorem dispatchedTo_iff (ids : (s.messages.map MessageRow.id).Nodup) {m : MessageRow}
    (listed : m ∈ s.messages) {served : String} (same : eqIgnoreAsciiCase served role = true) :
    s.dispatchedTo m.room m.id served = true ↔ 1 ≤ m.spellings role := by
  have found : s.messages.find? (fun r => r.room = m.room ∧ r.id = m.id) = some m := by
    refine find_message ids listed (by simp) ?_
    intro r fits
    simp only [decide_eq_true_eq] at fits
    exact fits.2
  have alike : ∀ r, eqIgnoreAsciiCase r served = eqIgnoreAsciiCase r role := by
    intro r
    simp only [eqIgnoreAsciiCase, decide_eq_true_eq] at same ⊢
    rw [same]
  unfold Store.dispatchedTo
  rw [found, spellings_pos]
  simp only [alike]
  rfl

/-- How often the join returns a message. -/
theorem count_joined (index : Indexed s) (m : MessageRow) :
    ((s.claimableRows room role now).filterMap s.joinMessage).count m =
      if m ∈ s.messages ∧ m.room = room ∧ s.claimable room m.id now = true then m.spellings role
      else 0 := by
  rw [List.count_filterMap, List.countP_eq_length_filter, Store.claimableRows, List.filter_filter]
  by_cases here : m ∈ s.messages ∧ m.room = room ∧ s.claimable room m.id now = true
  · obtain ⟨listed, rfl, claimable⟩ := here
    rw [if_pos ⟨listed, rfl, claimable⟩, ← dispatchRows_length index listed]
    congr 1
    apply List.filter_congr
    intro d _
    rw [Bool.eq_iff_iff]
    simp only [Bool.and_eq_true, beq_iff_eq, decide_eq_true_eq, joinMessage_iff index.ids]
    constructor
    · intro both
      obtain ⟨⟨-, id, room⟩, -, lower, -⟩ := both
      exact ⟨room.symm, id.symm, lower⟩
    · intro own
      obtain ⟨room, id, lower⟩ := own
      exact ⟨⟨listed, id.symm, room.symm⟩, room, lower, by rw [id]; exact claimable⟩
  · rw [if_neg here, List.length_eq_zero_iff, List.filter_eq_nil_iff]
    intro d _ both
    simp only [Bool.and_eq_true, beq_iff_eq, decide_eq_true_eq, joinMessage_iff index.ids] at both
    obtain ⟨⟨listed, id, room⟩, own, -, claimable⟩ := both
    exact here ⟨listed, room.trans own, by rw [id]; exact claimable⟩

theorem mem_grantable (index : Indexed s) (unique : (s.serviceClaims.map Store.claimKey).Nodup)
    {served : String} (serves : s.servedRole room worker = some served)
    (same : eqIgnoreAsciiCase served role = true) {lease : Nat} {m : MessageRow} :
    m ∈ s.grantable room worker now lease ↔ m ∈ s.messages ∧ m.room = room ∧
      s.available worker now = true ∧ 1 ≤ m.spellings role ∧ s.claimable room m.id now = true := by
  unfold Store.grantable
  rw [List.mem_filter, decide_eq_true_eq, granted_iff unique serves]
  constructor
  · intro granted
    obtain ⟨listed, rfl, available, dispatched, claimable⟩ := granted
    exact ⟨listed, rfl, available, (dispatchedTo_iff index.ids listed same).mp dispatched, claimable⟩
  · intro listed
    obtain ⟨listed, rfl, available, spelled, claimable⟩ := listed
    exact ⟨listed, rfl, available, (dispatchedTo_iff index.ids listed same).mpr spelled, claimable⟩

theorem count_joined_grantable (index : Indexed s)
    (unique : (s.serviceClaims.map Store.claimKey).Nodup) {served : String}
    (serves : s.servedRole room worker = some served)
    (same : eqIgnoreAsciiCase served role = true) (available : s.available worker now = true)
    (lease : Nat) (m : MessageRow) :
    ((s.claimableRows room role now).filterMap s.joinMessage).count m =
      if m ∈ s.grantable room worker now lease then m.spellings role else 0 := by
  rw [count_joined index m]
  by_cases spelled : 1 ≤ m.spellings role
  · apply if_congr _ rfl rfl
    rw [mem_grantable index unique serves same]
    simp [available, spelled]
  · have none : m.spellings role = 0 := by omega
    rw [none, ite_self, ite_self]

theorem grantable_sorted (order : SeqOrder s) (room worker : String) (now : Int) (lease : Nat) :
    (s.grantable room worker now lease).Pairwise (fun a b => a.seq < b.seq) :=
  order.increasing.filter _

/-- The join, sorted by `seq`, is what can be claimed with each message once per spelling. -/
theorem joined_eq (index : Indexed s) (order : SeqOrder s)
    (unique : (s.serviceClaims.map Store.claimKey).Nodup) {served : String}
    (serves : s.servedRole room worker = some served)
    (same : eqIgnoreAsciiCase served role = true) (available : s.available worker now = true)
    (lease : Nat) :
    ((s.claimableRows room role now).insertionSort (fun a b => a.seq ≤ b.seq)).filterMap
        s.joinMessage =
      repeated (fun m => m.spellings role) (s.grantable room worker now lease) := by
  have sorted := grantable_sorted order room worker now lease
  refine List.Perm.eq_of_pairwise
    (?_ : ∀ a b : MessageRow, a ∈ _ → b ∈ _ → a.seq ≤ b.seq → b.seq ≤ a.seq → a = b) ?_ ?_ ?_
  · intro a b joined repeats below above
    obtain ⟨d, -, found⟩ := List.mem_filterMap.mp joined
    have listed := ((joinMessage_iff index.ids).mp found).1
    have listed' := (List.mem_filter.mp (mem_of_mem_repeated repeats)).1
    exact order.unique listed listed' (by omega)
  · rw [List.pairwise_filterMap]
    refine (List.pairwise_insertionSort (fun a b : DispatchRow => a.seq ≤ b.seq) _).imp_of_mem ?_
    intro d d' first second below m found m' found'
    have rows : ∀ {d : DispatchRow} {m : MessageRow}, d ∈ (s.claimableRows room role now).insertionSort
        (fun a b => a.seq ≤ b.seq) → s.joinMessage d = some m → d.seq = m.seq := by
      intro d m member found
      have dispatched := (List.mem_filter.mp ((List.mem_insertionSort _).mp member)).1
      obtain ⟨listed, id, room⟩ := (joinMessage_iff index.ids).mp found
      exact (index.sound d dispatched m listed id room).1
    rw [← rows first found, ← rows second found']
    exact below
  · exact pairwise_repeated (fun a => le_refl a.seq) (sorted.imp (fun below => le_of_lt below))
  · rw [List.perm_iff_count]
    intro m
    have nodup : (s.grantable room worker now lease).Nodup :=
      sorted.imp (fun below equal => by rw [equal] at below; omega)
    rw [count_repeated nodup, ← count_joined_grantable index unique serves same available lease m]
    exact ((List.perm_insertionSort _ _).filterMap _).count_eq m

/-- A page of the join. -/
theorem queued_eq {served : String} (serves : s.servedRole room worker = some served)
    (same : eqIgnoreAsciiCase served role = true) (available : s.available worker now = true)
    (limit : Option Nat) :
    s.queuedServiceMessages room worker role limit now =
      ((((s.claimableRows room role now).insertionSort (fun a b => a.seq ≤ b.seq)).filterMap
        s.joinMessage).take (min (limit.getD 50) 200)).map MessageRow.toStored := by
  unfold Store.queuedServiceMessages
  rw [serves]
  simp only [same, available]
  rfl

end Listing

/-- In every reachable state: what a worker can claim is ordered by `seq`, and the listing is the
    first page of it, each message once, exactly when no message before the last place of the page
    names the role in two spellings. -/
theorem queue_lists_grantable_iff {cardBytes : AgentCard → List UInt8} {inflight : Nat}
    {P : HubPool cfg}
    (reach : Pool.Reachable (serve cfg cardBytes) drawsNewIds (.boot inflight) P)
    (room worker role served : String) (serves : P.state.store.servedRole room worker = some served)
    (same : eqIgnoreAsciiCase served role = true) (limit : Option Nat) (lease : Nat) (now : Int) :
    (P.state.store.grantable room worker now lease).Pairwise (fun a b => a.seq < b.seq) ∧
    (P.state.store.queuedServiceMessages room worker role limit now =
        ((P.state.store.grantable room worker now lease).take (min (limit.getD 50) 200)).map
          MessageRow.toStored ↔
      ∀ i m, (P.state.store.grantable room worker now lease)[i]? = some m →
        i + 1 < min (limit.getD 50) 200 → m.spellings role = 1) := by
  have index := (indexed_run reach).1
  have order := seqOrder_run reach
  have unique := claims_unique_run reach
  have sorted := grantable_sorted order room worker now lease
  refine ⟨sorted, ?_⟩
  cases available : P.state.store.available worker now with
  | false =>
    have none : P.state.store.grantable room worker now lease = [] := by
      rw [List.eq_nil_iff_forall_not_mem]
      intro m member
      have free := ((mem_grantable index unique serves same).mp member).2.2.1
      rw [available] at free
      cases free
    have empty : P.state.store.queuedServiceMessages room worker role limit now = [] := by
      unfold Store.queuedServiceMessages
      rw [serves]
      simp [same, available]
    simp [none, empty]
  | true =>
    have nodup : (P.state.store.grantable room worker now lease).Nodup :=
      sorted.imp (fun below equal => by rw [equal] at below; omega)
    have spelled : ∀ m ∈ P.state.store.grantable room worker now lease, 1 ≤ m.spellings role :=
      fun m member => ((mem_grantable index unique serves same).mp member).2.2.2.1
    rw [queued_eq serves same available, joined_eq index order unique serves same available lease,
      ← take_repeated_iff nodup spelled]
    constructor
    · apply eq_of_map_eq
      intro a taken b taken' equal
      have listed := mem_of_mem_repeated (List.mem_of_mem_take taken)
      have listed' := List.mem_of_mem_take taken'
      exact order.unique (List.mem_filter.mp listed).1 (List.mem_filter.mp listed').1
        (congrArg StoredMessage.seq equal)
    · intro pages
      rw [pages]

/-- Alice serves reviews, and two tasks for reviewers are sent. -/
def queueDemo : DemoPool :=
  demoPlay [
    .welcome alice,
    demoFrame 1 alice (.serve "review"),
    demoFrame 2 alice (.send (.service "review") [dispatchPart "review"] none none none),
    demoFrame 3 alice (.send (.service "review") [dispatchPart "REVIEW"] none none none)]

theorem queue_lists_grantable_iff_demo :
    queueDemo.state.store.queuedServiceMessages "svc.review" "A" "review" none 0 ≠ [] ∧
      queueDemo.state.store.queuedServiceMessages "svc.review" "A" "review" none 0 =
        ((queueDemo.state.store.grantable "svc.review" "A" 0 60).take 50).map MessageRow.toStored := by
  have reach : Pool.Reachable demoServe Pool.anySchedule demoHub queueDemo := demoPlay_reachable _
  refine ⟨List.ne_nil_of_length_pos (by decide +kernel), ?_⟩
  refine (queue_lists_grantable_iff (drawsNewIds_of_nodup reach (by decide +kernel)) "svc.review" "A"
    "review" "review" (by decide +kernel) (by decide +kernel) none 60 0).2.mpr ?_
  have once : ∀ m ∈ queueDemo.state.store.grantable "svc.review" "A" 0 60,
      m.spellings "review" = 1 := by decide +kernel
  intro i m found inside
  exact once m (List.mem_of_getElem? found)

/-- One task that names the reviewers in two spellings. -/
def twiceSpelledDemo : DemoPool :=
  demoPlay [
    .welcome alice,
    demoFrame 1 alice (.serve "review"),
    demoFrame 2 alice (.send (.service "review") [dispatchPart "review", dispatchPart "REVIEW"]
      none none none)]

/-- The one message a claim would be granted for is listed twice. -/
theorem queue_lists_message_twice :
    ∃ P : DemoPool, Pool.Reachable demoServe drawsNewIds demoHub P ∧
      P.state.store.servedRole "svc.review" "A" = some "review" ∧
      (P.state.store.grantable "svc.review" "A" 0 60).map MessageRow.id = ["m2"] ∧
      (P.state.store.queuedServiceMessages "svc.review" "A" "review" none 0).map StoredMessage.id =
        ["m2", "m2"] := by
  have reach : Pool.Reachable demoServe Pool.anySchedule demoHub twiceSpelledDemo :=
    demoPlay_reachable _
  exact ⟨twiceSpelledDemo, drawsNewIds_of_nodup reach (by decide +kernel), by decide +kernel,
    by decide +kernel, by decide +kernel⟩

end Parler.Hub
