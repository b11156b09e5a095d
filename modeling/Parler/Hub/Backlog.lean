import Parler.Hub.Server
import Parler.Hub.Specs

/-!
# Backlog reads

The messages of a hub are stored in the order of their `seq`, and a new one comes
after all others. A page read from the backlog therefore holds every message of its
room between its floor and its last message, and no later append or deletion changes
that.
-/

namespace Parler.Hub

open Parler.Lib Parler.Protocol

variable {cfg : HubConfig}

/-- Messages are stored by increasing `seq`, up to the counter. -/
structure SeqOrder (s : Store) : Prop where
  increasing : s.messages.Pairwise (fun a b => a.seq < b.seq)
  bounded : ∀ r ∈ s.messages, r.seq ≤ s.messageSeq

instance (s : Store) : Decidable (SeqOrder s) :=
  decidable_of_iff (s.messages.Pairwise (fun a b => a.seq < b.seq) ∧ ∀ r ∈ s.messages, r.seq ≤ s.messageSeq)
    ⟨fun both => ⟨both.1, both.2⟩, fun order => ⟨order.increasing, order.bounded⟩⟩

theorem SeqOrder.exec {h : HubState} (order : SeqOrder h.store) (op : HubCall) :
    SeqOrder (op.exec cfg h).2.store := by
  cases messageChange_exec cfg op h with
  | kept p rows seq =>
    refine ⟨?_, ?_⟩
    · rw [rows]
      exact order.increasing.filter p
    · intro r member
      rw [rows] at member
      exact (order.bounded r (List.mem_filter.mp member).1).trans seq
  | appended m _ rows seq =>
    refine ⟨?_, ?_⟩
    · rw [rows, List.pairwise_append]
      refine ⟨order.increasing, by simp, ?_⟩
      intro a old b new
      rw [List.mem_singleton.mp new]
      exact Int.lt_add_one_of_le (order.bounded a old)
    · intro r member
      rw [rows] at member
      rw [seq]
      rcases List.mem_append.mp member with old | new
      · exact (order.bounded r old).trans (by omega)
      · rw [List.mem_singleton.mp new]
        exact le_refl _

theorem SeqOrder.unique {s : Store} (order : SeqOrder s) {a b : MessageRow} (first : a ∈ s.messages)
    (second : b ∈ s.messages) (same : a.seq = b.seq) : a = b := by
  have distinct : (s.messages.map MessageRow.seq).Nodup :=
    List.pairwise_map.mpr (order.increasing.imp (fun below => ne_of_lt below))
  exact List.inj_on_of_nodup_map distinct first second same

/-- A page holds every message of its room from its floor to its last message. -/
theorem SeqOrder.page {s : Store} (order : SeqOrder s) {room : String} {floor : Int} {lim : Nat}
    {last : StoredMessage} (ends : (s.readBacklog room floor lim).getLast? = some last)
    {r : MessageRow} (member : r ∈ s.messages) (here : r.room = room) (above : floor < r.seq)
    (below : r.seq ≤ last.seq) : r.toStored ∈ s.readBacklog room floor lim := by
  unfold Store.readBacklog at ends ⊢
  set rows := (s.messages.filter (fun r => r.room = room ∧ r.seq > floor)).insertionSort
    (fun a b => a.seq ≤ b.seq) with sorted
  have stored : ∀ row ∈ rows, row ∈ s.messages := by
    intro row listed
    rw [sorted, List.mem_insertionSort] at listed
    exact (List.mem_filter.mp listed).1
  have listed : r ∈ rows.take lim ++ rows.drop lim := by
    rw [List.take_append_drop, sorted, List.mem_insertionSort, List.mem_filter]
    exact ⟨member, by simp [here, above]⟩
  have ranked : rows.Pairwise (fun a b => a.seq ≤ b.seq) := List.pairwise_insertionSort _ _
  rw [← List.take_append_drop lim rows, List.pairwise_append] at ranked
  rcases List.mem_append.mp listed with taken | dropped
  · exact List.mem_map_of_mem taken
  · rw [List.getLast?_map, Option.map_eq_some_iff] at ends
    obtain ⟨row, found, rfl⟩ := ends
    have taken := List.mem_of_getLast? found
    have least := ranked.2.2 row taken r dropped
    have same : r = row := order.unique member (stored row (List.mem_of_mem_take taken))
      (le_antisymm below least)
    rw [same]
    exact List.mem_map_of_mem taken

/-- What a page still says about the store. -/
def PageHolds (s : Store) (room : String) (floor : Int) (page : List StoredMessage) : Prop :=
  ∀ last, page.getLast? = some last → last.seq ≤ s.messageSeq ∧
    ∀ r ∈ s.messages, r.room = room → floor < r.seq → r.seq ≤ last.seq → r.toStored ∈ page

theorem PageHolds.exec {h : HubState} {room : String} {floor : Int} {page : List StoredMessage}
    (holds : PageHolds h.store room floor page) (op : HubCall) :
    PageHolds (op.exec cfg h).2.store room floor page := by
  intro last ends
  obtain ⟨bound, covers⟩ := holds last ends
  cases messageChange_exec cfg op h with
  | kept p rows seq =>
    rw [rows]
    exact ⟨bound.trans seq, fun r member => covers r (List.mem_filter.mp member).1⟩
  | appended m _ rows seq =>
    rw [rows, seq]
    refine ⟨by omega, ?_⟩
    intro r member here above below
    rcases List.mem_append.mp member with old | new
    · exact covers r old here above below
    · -- A new message comes after every page.
      rw [List.mem_singleton.mp new] at below
      have next : h.store.messageSeq + 1 ≤ last.seq := below
      omega

/-- Every page read in a run still says what it said. -/
theorem pages_hold {serve : Request → Prog (hubMachine cfg) (List ServerFrame)}
    {G : HubPool cfg → Nat → HubCall → Prop} {inflight : Nat} {P : HubPool cfg}
    (reach : Pool.Reachable serve G (.boot inflight) P) :
    SeqOrder P.state.store ∧ ∀ e ∈ P.log, ∀ room agent floor lim,
      e.op = .readBacklog room agent floor lim →
        PageHolds P.state.store room floor (e.before.store.readBacklog room floor lim) := by
  refine (reach.history (I := fun (log : List (HubEvent cfg)) h => SeqOrder h.store ∧
    ∀ e ∈ log, ∀ room agent floor lim, e.op = .readBacklog room agent floor lim →
      PageHolds h.store room floor (e.before.store.readBacklog room floor lim)) ?_ ?_).1
  · exact ⟨⟨List.Pairwise.nil, by simp [HubState.boot, Store.empty]⟩, by simp⟩
  · rintro log ⟨t, op, h⟩ ⟨order, pages⟩
    refine ⟨order.exec op, ?_⟩
    intro e member room agent floor lim reads
    rcases List.mem_cons.mp member with rfl | old
    · dsimp only at reads
      subst reads
      intro last ends
      obtain ⟨row, stored, -, -, rfl⟩ := Store.mem_readBacklog (List.mem_of_getLast? ends)
      exact ⟨order.bounded row stored, fun r member here above below =>
        order.page ends member here above below⟩
    · exact (pages e old room agent floor lim reads).exec op

/-- Every `seq` is positive. -/
def SeqPositive (s : Store) : Prop := 0 ≤ s.messageSeq ∧ ∀ r ∈ s.messages, 0 < r.seq

theorem SeqPositive.exec {h : HubState} (positive : SeqPositive h.store) (op : HubCall) :
    SeqPositive (op.exec cfg h).2.store := by
  obtain ⟨start, positive⟩ := positive
  unfold SeqPositive
  cases messageChange_exec cfg op h with
  | kept p rows seq =>
    rw [rows]
    exact ⟨start.trans seq, fun r member => positive r (List.mem_filter.mp member).1⟩
  | appended m _ rows seq =>
    rw [rows, seq]
    refine ⟨by omega, ?_⟩
    intro r member
    rcases List.mem_append.mp member with old | new
    · exact positive r old
    · rw [List.mem_singleton.mp new]
      exact Int.lt_add_one_of_le start

theorem seq_positive {serve : Request → Prog (hubMachine cfg) (List ServerFrame)}
    {G : HubPool cfg → Nat → HubCall → Prop} {inflight : Nat} {P : HubPool cfg}
    (reach : Pool.Reachable serve G (.boot inflight) P) :
    0 ≤ P.state.store.messageSeq ∧ ∀ r ∈ P.state.store.messages, 0 < r.seq := by
  refine (reach.history (I := fun _ h => SeqPositive h.store) ?_ ?_).1
  · simp [SeqPositive, HubState.boot, Store.empty]
  · exact fun log e positive => positive.exec e.op

/-! ## Pages one after the other -/

/-- The messages of a room past a floor, in their order. -/
def Store.backlog (s : Store) (room : String) (floor : Int) : List StoredMessage :=
  (s.messages.filter (fun r => r.room = room ∧ r.seq > floor)).map MessageRow.toStored

theorem SeqOrder.readBacklog_eq {s : Store} (order : SeqOrder s) (room : String) (floor : Int) (lim : Nat) :
    s.readBacklog room floor lim = (s.backlog room floor).take lim := by
  have sorted : (s.messages.filter (fun r => r.room = room ∧ r.seq > floor)).Pairwise
      (fun a b => a.seq ≤ b.seq) := (order.increasing.filter _).imp (fun below => le_of_lt below)
  rw [Store.readBacklog, Store.backlog, sorted.insertionSort_eq, List.map_take]

theorem SeqOrder.backlog_increasing {s : Store} (order : SeqOrder s) (room : String) (floor : Int) :
    (s.backlog room floor).Pairwise (fun a b => a.seq < b.seq) :=
  List.pairwise_map.mpr (order.increasing.filter _)

theorem mem_backlog {store : Store} {room : String} {m : StoredMessage} {floor : Int} :
    m ∈ store.backlog room floor ↔ ∃ r ∈ store.messages, r.room = room ∧ floor < r.seq ∧ r.toStored = m := by
  simp [Store.backlog, and_assoc]

theorem backlog_raise {store : Store} {room : String} {m : StoredMessage} {floor above : Int}
    (there : m ∈ store.backlog room floor)
    (past : above < m.seq) : m ∈ store.backlog room above := by
  obtain ⟨r, stored, here, -, rfl⟩ := mem_backlog.mp there
  exact mem_backlog.mpr ⟨r, stored, here, past, rfl⟩

theorem backlog_past {store : Store} {room : String} {m : StoredMessage} {floor : Int}
    (there : m ∈ store.backlog room floor) :
    floor < m.seq := by
  obtain ⟨r, -, -, past, rfl⟩ := mem_backlog.mp there
  exact past

/-- Past the seq before a message, it comes first. -/
theorem backlog_from {store : Store} {room : String} (order : SeqOrder store) {m : StoredMessage} {floor : Int}
    (there : m ∈ store.backlog room floor) : ∃ rest, store.backlog room (m.seq - 1) = m :: rest := by
  have own : m ∈ store.backlog room (m.seq - 1) := backlog_raise there (by omega)
  have increasing := order.backlog_increasing room (m.seq - 1)
  cases listed : store.backlog room (m.seq - 1) with
  | nil =>
    rw [listed] at own
    cases own
  | cons x rest =>
    have first : x ∈ store.backlog room (m.seq - 1) := by simp [listed]
    have past := backlog_past first
    rw [listed] at own increasing
    rcases List.mem_cons.mp own with rfl | later
    · exact ⟨rest, rfl⟩
    · have below := List.rel_of_pairwise_cons increasing later
      omega

/-- Where a page ends. -/
def pageEnd (floor : Int) (page : List StoredMessage) : Int :=
  (page.getLast?.map StoredMessage.seq).getD floor

/-- The backlog after a page is what the page left. -/
theorem SeqOrder.backlog_pageEnd {s : Store} (order : SeqOrder s) (room : String) (floor : Int) {lim : Nat}
    (some : 0 < lim) :
    s.backlog room (pageEnd floor ((s.backlog room floor).take lim)) = (s.backlog room floor).drop lim := by
  have increasing := order.backlog_increasing room floor
  have above : ∀ m ∈ s.backlog room floor, floor < m.seq := by
    intro m listed
    obtain ⟨r, kept, rfl⟩ := List.mem_map.mp listed
    exact (of_decide_eq_true (List.mem_filter.mp kept).2).2
  cases last : ((s.backlog room floor).take lim).getLast? with
  | none =>
    have empty : s.backlog room floor = [] := by
      rw [List.getLast?_eq_none_iff, List.take_eq_nil_iff] at last
      exact last.resolve_left (Nat.ne_of_gt some)
    rw [pageEnd, last, Option.map_none, Option.getD_none, empty, List.drop_nil]
  | some x =>
    rw [pageEnd, last, Option.map_some, Option.getD_some]
    have taken : x ∈ (s.backlog room floor).take lim := List.mem_of_getLast? last
    have past : floor < x.seq := above x (List.mem_of_mem_take taken)
    -- Past `x` is what was past the floor and is past `x`.
    have narrowed : s.backlog room x.seq = (s.backlog room floor).filter (fun m => x.seq < m.seq) := by
      unfold Store.backlog
      rw [List.filter_map, List.filter_filter]
      refine congrArg _ (List.filter_congr ?_)
      intro r _
      simp only [Function.comp_apply, MessageRow.toStored, gt_iff_lt, Bool.decide_and]
      rw [Bool.eq_iff_iff]
      simp only [Bool.and_eq_true, decide_eq_true_eq]
      constructor
      · exact fun here => ⟨decide_eq_true here.2, here.1, past.trans here.2⟩
      · exact fun here => ⟨here.2.1, of_decide_eq_true here.1⟩
    have split : (s.backlog room floor).take lim ++ (s.backlog room floor).drop lim =
        s.backlog room floor := List.take_append_drop lim _
    rw [← split, List.pairwise_append] at increasing
    rw [narrowed]
    nth_rewrite 1 [← split]
    rw [List.filter_append, List.filter_eq_nil_iff.mpr, List.nil_append, List.filter_eq_self.mpr]
    · intro m dropped
      exact decide_eq_true (increasing.2.2 x taken m dropped)
    · intro m kept
      have ends : m = x ∨ m.seq < x.seq := by
        obtain ⟨front, whole⟩ := List.getLast?_eq_some_iff.mp last
        rw [whole] at kept
        rcases List.mem_append.mp kept with earlier | same
        · rw [whole, List.pairwise_append] at increasing
          exact Or.inr (increasing.1.2.2 m earlier x List.mem_cons_self)
        · exact Or.inl (List.mem_singleton.mp same)
      rcases ends with rfl | below
      · simp
      · simp [le_of_lt below]

theorem le_pageEnd {s : Store} {room : String} (floor : Int) (lim : Nat) :
    floor ≤ pageEnd floor ((s.backlog room floor).take lim) := by
  unfold pageEnd
  cases last : ((s.backlog room floor).take lim).getLast? with
  | none => exact le_refl _
  | some x =>
    obtain ⟨r, kept, rfl⟩ := List.mem_map.mp (List.mem_of_mem_take (List.mem_of_getLast? last))
    exact le_of_lt (of_decide_eq_true (List.mem_filter.mp kept).2).2

theorem seq_le_pageEnd {s : Store} (order : SeqOrder s) {room : String} {floor : Int} {lim : Nat} {m : StoredMessage}
    (member : m ∈ (s.backlog room floor).take lim) :
    m.seq ≤ pageEnd floor ((s.backlog room floor).take lim) := by
  have increasing := (order.backlog_increasing room floor).sublist (List.take_sublist lim _)
  obtain ⟨front, last, split⟩ := (List.eq_nil_or_concat _).resolve_left (List.ne_nil_of_mem member)
  rw [split] at member increasing ⊢
  rw [List.concat_eq_append] at member increasing ⊢
  rw [pageEnd, List.getLast?_concat, Option.map_some, Option.getD_some]
  rcases List.mem_append.mp member with earlier | here
  · exact le_of_lt ((List.pairwise_append.mp increasing).2.2 m earlier last List.mem_cons_self)
  · rw [List.mem_singleton.mp here]

/-- What is not on the first page is past its end. -/
theorem pageEnd_lt {store : Store} {room : String} (order : SeqOrder store) {m : StoredMessage} {floor : Int}
    {lim : Nat}
    (some : 0 < lim) (there : m ∈ store.backlog room floor) (off : m ∉ (store.backlog room floor).take lim) :
    pageEnd floor ((store.backlog room floor).take lim) < m.seq := by
  have rest : m ∈ (store.backlog room floor).drop lim := by
    rw [← List.take_append_drop lim (store.backlog room floor)] at there
    exact (List.mem_append.mp there).resolve_left off
  rw [← order.backlog_pageEnd room floor some] at rest
  exact backlog_past rest

end Parler.Hub
