import Parler.Cli.CodexTurns

/-!
# Pages of a thread and the turns already seen

`RecentIds`, `read_recent_thread` and `collect_unseen_terminal_turns` from
`crates/parler-cli/src/conversation.rs`. Each poll reads the newest turns of the thread, and the ids of the
turns that were seen to end are remembered up to a bound. Turns end in another order than they start, so a
page can bring an old turn that is new to the memory.
-/

namespace Parler.Cli

open Parler.Lib
open Codex (collect_cons_new collect_cons_old collect_spec terminalThreadOutcome_id)

/-! ## The bounded memory -/

namespace RecentIds

/-- The loop of `RecentIds::insert`. -/
def makeRoom (capacity : Nat) : Finset String → List String → RecentIds
  | set, [] => ⟨set, []⟩
  | set, oldest :: order =>
      if capacity ≤ (oldest :: order).length then makeRoom capacity (set.erase oldest) order
      else ⟨set, oldest :: order⟩

/-- `RecentIds::insert`, at any capacity. -/
def insertWithin (capacity : Nat) (ids : RecentIds) (id : String) : Bool × RecentIds :=
  if capacity = 0 ∨ id ∈ ids.members then (false, ids)
  else
    let room := makeRoom capacity ids.members ids.order
    (true, ⟨Insert.insert id room.members, room.order ++ [id]⟩)

/-- Insertions one after the other, with the ids that were new. -/
def insertAll (capacity : Nat) : List String → RecentIds → List String × RecentIds
  | [], ids => ([], ids)
  | id :: later, ids =>
      let (new, ids) := insertWithin capacity ids id
      let (accepted, ids) := insertAll capacity later ids
      ((if new then [id] else []) ++ accepted, ids)

theorem makeRoom_succ (n : Nat) (set : Finset String) (order : List String) :
    makeRoom (n + 1) set order = Fifo.trim n set order := by
  induction order generalizing set with
  | nil => rfl
  | cons oldest order ih =>
    rw [makeRoom, Fifo.trim, ih]
    rfl

/-- A new id goes to the end, and the oldest ones make room for it. -/
theorem insertWithin_new {capacity : Nat} {ids : RecentIds} {id : String} (bounded : ids.Bounded capacity)
    (room : capacity ≠ 0) (new : id ∉ ids.members) :
    insertWithin capacity ids id = (true, ids.remember capacity id) := by
  have fresh : id ∉ ids.order := fun listed => new (bounded.mem_iff.mpr listed)
  obtain ⟨n, rfl⟩ := Nat.exists_eq_succ_of_ne_zero room
  have last : lastN (n + 1) (ids.order ++ [id]) = lastN n ids.order ++ [id] := by
    rw [lastN, lastN, List.length_append, List.length_singleton, Nat.add_sub_add_right,
      List.drop_append_of_le_length (Nat.sub_le _ _)]
  rw [insertWithin, if_neg (not_or.mpr ⟨room, new⟩), makeRoom_succ, bounded.members,
    Fifo.trim_eq bounded.nodup, Fifo.remember_eq bounded fresh, last, Fifo.toFinset_append_singleton]

theorem insertWithin_old {capacity : Nat} {ids : RecentIds} {id : String}
    (old : capacity = 0 ∨ id ∈ ids.members) : insertWithin capacity ids id = (false, ids) := by
  rw [insertWithin, if_pos old]

/-- The memory is bounded in every run, holds each id once, and holds the last ids that were new. -/
theorem insertAll_spec {capacity : Nat} (later : List String) {ids : RecentIds} {before : List String}
    (bounded : ids.Bounded capacity) (order : ids.order = lastN capacity before) :
    (insertAll capacity later ids).2.Bounded capacity ∧
      (insertAll capacity later ids).2.order =
        lastN capacity (before ++ (insertAll capacity later ids).1) := by
  induction later generalizing ids before with
  | nil => exact ⟨bounded, by simpa [insertAll] using order⟩
  | cons id later ih =>
    by_cases old : capacity = 0 ∨ id ∈ ids.members
    · simpa [insertAll, insertWithin_old old] using ih bounded order
    · obtain ⟨room, new⟩ := not_or.mp old
      have fresh : id ∉ ids.order := fun listed => new (bounded.mem_iff.mpr listed)
      have order' : (ids.remember capacity id).order = lastN capacity (before ++ [id]) := by
        rw [Fifo.remember_eq bounded fresh, order, lastN_lastN_append]
      simpa [insertAll, insertWithin_new bounded room new] using
        ih (Fifo.remember_bounded bounded fresh) order'

end RecentIds

/-! ## The polls -/

/-- `CODEX_TURN_PAGE_SIZE` -/
def codexTurnPageSize : Nat := 64

/-- `read_recent_thread`: the app-server lists the newest turns first. -/
def readRecentThread (thread : List TurnView) : List TurnView :=
  (thread.reverse.take codexTurnPageSize).reverse

/-- One poll after the other, each of the thread as it is then. -/
def pollThreads : List (List TurnView) → RecentIds → List ThreadTurnOutcome × RecentIds
  | [], seen => ([], seen)
  | thread :: later, seen =>
      let (outcomes, seen) := collectUnseenTerminalTurns (readRecentThread thread) seen
      let (rest, seen) := pollThreads later seen
      (outcomes ++ rest, seen)

/-- A thread as the polls find it: turns are only appended, and no two have one id. Their items and their
statuses change at any time. -/
structure AppendOnly (threads : List (List TurnView)) : Prop where
  appends : threads.Pairwise (fun before after => before.map TurnView.id <+: after.map TurnView.id)
  distinct : ∀ thread ∈ threads, (thread.filterMap TurnView.id).Nodup

theorem readRecentThread_eq (thread : List TurnView) :
    readRecentThread thread = lastN codexTurnPageSize thread := by
  rw [readRecentThread, lastN, List.take_reverse, List.reverse_reverse]

/-- A turn of the page is one of the newest turns of the thread. -/
theorem readRecentThread_place {thread : List TurnView} {turn : TurnView}
    (shown : turn ∈ readRecentThread thread) :
    ∃ i, thread[i]? = some turn ∧ i < thread.length ∧ thread.length ≤ i + codexTurnPageSize := by
  rw [readRecentThread_eq, lastN] at shown
  obtain ⟨i, found⟩ := List.mem_iff_getElem?.mp shown
  rw [List.getElem?_drop] at found
  have within := (List.getElem?_eq_some_iff.mp found).1
  exact ⟨_, found, within, by omega⟩

/-- The ids of the newest thread, by place. -/
def nameAt (newest : List (Option String)) (i : Nat) : Option String := newest[i]?.join

def placeOf (newest : List (Option String)) (id : String) : Nat := newest.idxOf (some id)

theorem placeOf_eq {newest : List (Option String)} (distinct : (newest.filterMap fun n => n).Nodup)
    {i : Nat} {id : String} (found : newest[i]? = some (some id)) :
    placeOf newest id = i ∧ nameAt newest i = some id := by
  refine ⟨?_, by simp [nameAt, found]⟩
  have listed : some id ∈ newest := List.mem_of_getElem? found
  have short := List.idxOf_lt_length_of_mem listed
  obtain ⟨within, at_i⟩ := List.getElem?_eq_some_iff.mp found
  have at_place := List.getElem_idxOf short
  have apart := List.pairwise_iff_getElem.mp (List.pairwise_filterMap.mp distinct)
  rcases Nat.lt_trichotomy (newest.idxOf (some id)) i with less | same | more
  · exact absurd rfl (apart _ _ short within less id at_place id at_i)
  · exact same
  · exact absurd rfl (apart _ _ within short more id at_i id at_place)

/-- What the coordinator remembers and has reported, when the thread has `n` turns. -/
def Remembers (newest : List (Option String)) (n : Nat) (reported : List String) (seen : RecentIds) : Prop :=
  seen.Taken (nameAt newest) (placeOf newest) codexTurnPageSize codexSeenTurns n reported

section Polls

variable {newest : List (Option String)} {thread : List TurnView} {reported : List String} {seen : RecentIds}

/-- A page reports the turns that ended and were never reported, each once. -/
theorem collect_remembers (distinct : (newest.filterMap fun n => n).Nodup)
    (front : thread.map TurnView.id <+: newest) {page : List TurnView}
    (shown : ∀ turn ∈ page, turn ∈ readRecentThread thread)
    (known : Remembers newest thread.length reported seen) :
    Remembers newest thread.length
        (reported ++ (collectUnseenTerminalTurns page seen).1.map ThreadTurnOutcome.id)
        (collectUnseenTerminalTurns page seen).2 ∧
      ∀ turn ∈ page, ∀ outcome, terminalThreadOutcome turn = some outcome →
        outcome.id ∈ reported ++ (collectUnseenTerminalTurns page seen).1.map ThreadTurnOutcome.id := by
  induction page generalizing reported seen with
  | nil => exact ⟨by simpa [collectUnseenTerminalTurns] using known, nofun⟩
  | cons turn page ih =>
    obtain ⟨first, rest⟩ := List.forall_mem_cons.mp shown
    -- A turn that ended is known exactly when it was reported: it is still visible.
    have visible : ∀ outcome, terminalThreadOutcome turn = some outcome →
        nameAt newest (placeOf newest outcome.id) = some outcome.id ∧
          placeOf newest outcome.id < thread.length ∧
          thread.length ≤ placeOf newest outcome.id + codexTurnPageSize := by
      intro outcome ended
      obtain ⟨i, found, within, recent⟩ := readRecentThread_place first
      have named : (thread.map TurnView.id)[i]? = some (some outcome.id) := by
        rw [List.getElem?_map, found, Option.map_some, terminalThreadOutcome_id ended]
      obtain ⟨more, rfl⟩ := front
      obtain ⟨at_place, name⟩ := placeOf_eq distinct (List.getElem?_append_left
        (List.getElem?_eq_some_iff.mp named).1 ▸ named)
      rw [at_place]
      exact ⟨name, within, recent⟩
    by_cases old : ∀ outcome, terminalThreadOutcome turn = some outcome → outcome.id ∈ seen.members
    · rw [collect_cons_old old]
      obtain ⟨known', complete⟩ := ih rest known
      refine ⟨known', List.forall_mem_cons.mpr ⟨fun outcome ended => ?_, complete⟩⟩
      obtain ⟨-, -, recent⟩ := visible outcome ended
      exact List.mem_append_left _ ((known.mem_iff (by decide) recent).mp (old outcome ended))
    · obtain ⟨outcome, ended, new⟩ : ∃ outcome, terminalThreadOutcome turn = some outcome ∧
          outcome.id ∉ seen.members := by
        simpa using old
      obtain ⟨name, within, recent⟩ := visible outcome ended
      obtain ⟨known', complete⟩ := ih rest (known.take (by decide) name within recent new)
      rw [collect_cons_new ended new, List.map_cons]
      rw [List.append_assoc, List.singleton_append] at known' complete
      refine ⟨known', List.forall_mem_cons.mpr ⟨fun outcome' ended' => ?_, complete⟩⟩
      rw [ended] at ended'
      cases ended'
      exact List.mem_append_right _ List.mem_cons_self

/-- A run of polls reports what ended on some page, each turn once. -/
theorem pollThreads_remembers {threads : List (List TurnView)} {n : Nat}
    (distinct : (newest.filterMap fun n => n).Nodup)
    (fronts : ∀ thread ∈ threads, thread.map TurnView.id <+: newest)
    (grows : threads.Pairwise (fun before after => before.length ≤ after.length))
    (longer : ∀ thread ∈ threads, n ≤ thread.length) (known : Remembers newest n reported seen) :
    (∃ m, Remembers newest m (reported ++ (pollThreads threads seen).1.map ThreadTurnOutcome.id)
        (pollThreads threads seen).2) ∧
      (∀ outcome ∈ (pollThreads threads seen).1, ∃ thread ∈ threads, ∃ turn ∈ readRecentThread thread,
        terminalThreadOutcome turn = some outcome) ∧
      ∀ thread ∈ threads, ∀ turn ∈ readRecentThread thread, ∀ outcome,
        terminalThreadOutcome turn = some outcome →
          outcome.id ∈ reported ++ (pollThreads threads seen).1.map ThreadTurnOutcome.id := by
  induction threads generalizing n reported seen with
  | nil => exact ⟨⟨n, by simpa [pollThreads] using known⟩, nofun, nofun⟩
  | cons thread later ih =>
    obtain ⟨front, fronts⟩ := List.forall_mem_cons.mp fronts
    obtain ⟨grows, growing⟩ := List.pairwise_cons.mp grows
    obtain ⟨known', complete⟩ := collect_remembers distinct front (fun _ shown => shown)
      (known.grow (longer thread List.mem_cons_self))
    have sound := (collect_spec (readRecentThread thread) seen).1
    obtain ⟨remembers, sound', complete'⟩ := ih fronts growing grows known'
    simp only [pollThreads, List.map_append, ← List.append_assoc]
    refine ⟨remembers, ?_, ?_⟩
    · intro outcome listed
      rcases List.mem_append.mp listed with here | there
      · exact ⟨thread, List.mem_cons_self, sound outcome here⟩
      · obtain ⟨other, member, shown⟩ := sound' outcome there
        exact ⟨other, List.mem_cons_of_mem _ member, shown⟩
    · intro other member turn shown outcome ended
      rcases List.mem_cons.mp member with rfl | after
      · exact List.mem_append_left _ (complete turn shown outcome ended)
      · exact complete' other after turn shown outcome ended

end Polls

/-- The threads of a run are all the front of one list of ids. -/
theorem AppendOnly.newest {threads : List (List TurnView)} (run : AppendOnly threads) :
    ∃ newest : List (Option String), (newest.filterMap fun n => n).Nodup ∧
      ∀ thread ∈ threads, thread.map TurnView.id <+: newest := by
  rcases threads.eq_nil_or_concat' with rfl | ⟨earlier, last, rfl⟩
  · exact ⟨[], List.nodup_nil, nofun⟩
  · refine ⟨last.map TurnView.id, ?_, ?_⟩
    · rw [List.filterMap_map]
      exact run.distinct last (List.mem_append_right _ List.mem_cons_self)
    · intro thread member
      rcases List.mem_append.mp member with before | is_last
      · exact (List.pairwise_append.mp run.appends).2.2 thread before last List.mem_cons_self
      · rw [List.mem_singleton.mp is_last]

/-- The memory of ids keeps its bound at any capacity and forgets the oldest first. With the capacity of the
coordinator, a turn that ended is reported exactly once, however long the thread grows between two polls and
in whatever order its turns end. -/
theorem turns_reported_once :
    (∀ capacity ids, ∀ accepted : List String, ∀ memory : RecentIds,
      RecentIds.insertAll capacity ids Fifo.empty = (accepted, memory) →
        memory.order.length ≤ capacity ∧ memory.order.Nodup ∧ memory.members = memory.order.toFinset ∧
          memory.order = lastN capacity accepted) ∧
    ∀ threads, AppendOnly threads →
      ((pollThreads threads Fifo.empty).1.map ThreadTurnOutcome.id).Nodup ∧
        ∀ id, id ∈ (pollThreads threads Fifo.empty).1.map ThreadTurnOutcome.id ↔
          ∃ thread ∈ threads, ∃ turn ∈ readRecentThread thread, ∃ outcome,
            terminalThreadOutcome turn = some outcome ∧ outcome.id = id := by
  constructor
  · intro capacity ids accepted memory made
    obtain ⟨bounded, order⟩ := @RecentIds.insertAll_spec capacity ids Fifo.empty [] Fifo.empty_bounded
      (by simp [Fifo.empty, lastN])
    rw [made] at bounded order
    exact ⟨bounded.short, bounded.nodup, bounded.members, by simpa using order⟩
  · intro threads run
    obtain ⟨newest, distinct, fronts⟩ := run.newest
    have grows := run.appends.imp (fun {_ _} front => by simpa using front.length_le)
    obtain ⟨⟨m, remembers⟩, sound, complete⟩ := pollThreads_remembers (n := 0) distinct fronts grows
      (fun _ _ => Nat.zero_le _) Fifo.empty_taken
    rw [List.nil_append] at remembers complete
    refine ⟨remembers.once, fun id => ⟨fun listed => ?_, ?_⟩⟩
    · obtain ⟨outcome, reported, rfl⟩ := List.mem_map.mp listed
      obtain ⟨thread, member, turn, shown, ended⟩ := sound outcome reported
      exact ⟨thread, member, turn, shown, outcome, ended, rfl⟩
    · rintro ⟨thread, member, turn, shown, outcome, ended, rfl⟩
      exact complete thread member turn shown outcome ended

/-- A turn that ends after a later one. -/
theorem turns_reported_once_late_end :
    "a" ∈ (pollThreads
      [[⟨some "a", some "inProgress", [], none⟩, ⟨some "b", some "completed", [], none⟩],
        [⟨some "a", some "completed", [], none⟩, ⟨some "b", some "completed", [], none⟩]]
      Fifo.empty).1.map ThreadTurnOutcome.id := by
  apply ((turns_reported_once.2 _ ⟨by decide, by decide⟩).2 "a").mpr
  exact ⟨_, List.mem_cons_of_mem _ List.mem_cons_self, ⟨some "a", some "completed", [], none⟩,
    by decide, _, rfl, rfl⟩

end Parler.Cli
