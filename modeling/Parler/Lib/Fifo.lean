import Mathlib.Data.Finset.Dedup
import Mathlib.Data.Finset.Card
import Mathlib.Order.Interval.Finset.Nat

/-!
# Bounded sets that forget their oldest members

A set of keys beside the queue of their insertion. Beyond a capacity the oldest key is
dropped from both. The set and the queue hold the same keys, each once.
-/

namespace Parler.Lib

/-- The last `n` entries of a list. -/
def lastN {K : Type} (n : Nat) (keys : List K) : List K := keys.drop (keys.length - n)

theorem lastN_eq {K : Type} {n : Nat} {keys : List K} (short : keys.length ≤ n) :
    lastN n keys = keys := by
  simp [lastN, Nat.sub_eq_zero_of_le short]

theorem lastN_sublist {K : Type} (n : Nat) (keys : List K) : (lastN n keys).Sublist keys :=
  List.drop_sublist _ _

theorem length_lastN_le {K : Type} (n : Nat) (keys : List K) : (lastN n keys).length ≤ n := by
  rw [lastN, List.length_drop]
  omega

theorem lastN_lastN_append {K : Type} (n : Nat) (keys more : List K) :
    lastN n (lastN n keys ++ more) = lastN n (keys ++ more) := by
  by_cases short : keys.length ≤ n
  · rw [lastN_eq short]
  · have length : (lastN n keys).length = n := by
      rw [lastN, List.length_drop]
      omega
    have cut : (keys ++ more).length - n = keys.length - n + more.length := by
      rw [List.length_append]
      omega
    have cut' : (lastN n keys ++ more).length - n = more.length := by
      rw [List.length_append, length]
      omega
    have front : lastN n keys ++ more = (keys ++ more).drop (keys.length - n) := by
      rw [lastN, List.drop_append_of_le_length (by omega)]
    rw [lastN, cut', front, List.drop_drop, lastN, cut]

/-- A key appended to a full queue drops the oldest one. -/
theorem lastN_append_full {K : Type} {n : Nat} {old key : K} {rest : List K}
    (full : (old :: rest).length = n) : lastN n (old :: rest ++ [key]) = rest ++ [key] := by
  have one : (old :: rest ++ [key]).length - n = 1 := by
    rw [← full]
    simp
  rw [lastN, one]
  rfl

variable {K : Type} [DecidableEq K]

/-- A set of keys and the queue of their insertion, oldest first. -/
structure Fifo (K : Type) [DecidableEq K] where
  members : Finset K
  order : List K

namespace Fifo

def empty : Fifo K := ⟨∅, []⟩

/-- Insert a key at the end unless it is a member. -/
def push (q : Fifo K) (key : K) : Fifo K :=
  if key ∈ q.members then q else ⟨insert key q.members, q.order ++ [key]⟩

/-- Drop the oldest keys while there are more than `cap`. -/
def trim (cap : Nat) : Finset K → List K → Fifo K
  | members, [] => ⟨members, []⟩
  | members, old :: rest =>
      if cap < (old :: rest).length then trim cap (members.erase old) rest
      else ⟨members, old :: rest⟩

/-- Insert a key and forget the oldest ones beyond `cap`. -/
def remember (cap : Nat) (q : Fifo K) (key : K) : Fifo K :=
  trim cap (q.push key).members (q.push key).order

/-- The queue of the last `cap` keys of a list, each at its first occurrence there. -/
def load (cap : Nat) (keys : List K) : Fifo K := (lastN cap keys).foldl push empty

def remove (q : Fifo K) (key : K) : Fifo K :=
  ⟨q.members.erase key, q.order.filter (fun k => k ≠ key)⟩

/-- The queue holds each member once, and at most `cap` of them. -/
structure Bounded (cap : Nat) (q : Fifo K) : Prop where
  nodup : q.order.Nodup
  members : q.members = q.order.toFinset
  short : q.order.length ≤ cap

variable {cap : Nat} {q : Fifo K} {key : K}

theorem Bounded.mem_iff (bounded : q.Bounded cap) : key ∈ q.members ↔ key ∈ q.order := by
  rw [bounded.members, List.mem_toFinset]

theorem empty_bounded : (empty : Fifo K).Bounded cap := ⟨List.nodup_nil, rfl, Nat.zero_le _⟩

theorem push_new (new : key ∉ q.members) : q.push key = ⟨insert key q.members, q.order ++ [key]⟩ :=
  if_neg new

theorem members_trim {keys : Finset K} {order : List K} : (trim cap keys order).members ⊆ keys := by
  induction order generalizing keys with
  | nil => exact subset_refl _
  | cons old rest ih =>
    unfold trim
    split
    · exact ih.trans (Finset.erase_subset _ _)
    · exact subset_refl _

/-- What is a member after an insertion was one, or was inserted. -/
theorem mem_remember {other : K} (listed : other ∈ (q.remember cap key).members) :
    other = key ∨ other ∈ q.members := by
  have pushed : other ∈ (q.push key).members := members_trim listed
  unfold push at pushed
  split at pushed
  · exact Or.inr pushed
  · exact Finset.mem_insert.mp pushed

/-- Dropping the oldest keys leaves the last ones. -/
theorem trim_eq {keys : List K} (nodup : keys.Nodup) :
    trim cap keys.toFinset keys = ⟨(lastN cap keys).toFinset, lastN cap keys⟩ := by
  induction keys with
  | nil => simp [trim, lastN]
  | cons old rest ih =>
    obtain ⟨new, nodup⟩ := List.nodup_cons.mp nodup
    unfold trim
    split
    · rename_i long
      have erased : (old :: rest).toFinset.erase old = rest.toFinset := by
        rw [List.toFinset_cons, Finset.erase_insert (by simpa using new)]
      have same : lastN cap (old :: rest) = lastN cap rest := by
        rw [List.length_cons] at long
        have more : (old :: rest).length - cap = rest.length - cap + 1 := by
          rw [List.length_cons]
          omega
        rw [lastN, more, List.drop_succ_cons, lastN]
      rw [erased, ih nodup, same]
    · rename_i short
      rw [lastN_eq (by omega)]

theorem Bounded.nodup_append (bounded : q.Bounded cap) (new : key ∉ q.order) :
    (q.order ++ [key]).Nodup := by
  rw [List.nodup_append]
  refine ⟨bounded.nodup, List.nodup_singleton _, ?_⟩
  intro k member k' single same
  rw [List.mem_singleton.mp single] at same
  exact new (same ▸ member)

theorem toFinset_append_singleton (keys : List K) (key : K) :
    (keys ++ [key]).toFinset = insert key keys.toFinset := by
  rw [List.toFinset_append, List.toFinset_cons, List.toFinset_nil, Finset.union_comm]
  rfl

/-- What is remembered of a new key. -/
theorem remember_eq (bounded : q.Bounded cap) (new : key ∉ q.order) :
    q.remember cap key =
      ⟨(lastN cap (q.order ++ [key])).toFinset, lastN cap (q.order ++ [key])⟩ := by
  unfold remember
  rw [push_new (fun member => new (bounded.mem_iff.mp member)), bounded.members,
    ← toFinset_append_singleton, trim_eq (bounded.nodup_append new)]

theorem bounded_lastN {keys : List K} (nodup : keys.Nodup) :
    (⟨(lastN cap keys).toFinset, lastN cap keys⟩ : Fifo K).Bounded cap :=
  ⟨nodup.sublist (lastN_sublist cap keys), rfl, length_lastN_le cap keys⟩

theorem remember_bounded (bounded : q.Bounded cap) (new : key ∉ q.order) :
    (q.remember cap key).Bounded cap := by
  rw [remember_eq bounded new]
  exact bounded_lastN (bounded.nodup_append new)

theorem remove_bounded (bounded : q.Bounded cap) : (q.remove key).Bounded cap := by
  refine ⟨bounded.nodup.sublist List.filter_sublist, ?_, ?_⟩
  · rw [remove, bounded.members]
    ext k
    simp [and_comm]
  · exact (List.length_filter_le _ _).trans bounded.short

/-- Loading puts distinct keys in their order. -/
theorem foldl_push {keys : List K} {q : Fifo K} (distinct : (q.order ++ keys).Nodup)
    (members : q.members = q.order.toFinset) :
    keys.foldl push q = ⟨(q.order ++ keys).toFinset, q.order ++ keys⟩ := by
  induction keys generalizing q with
  | nil =>
    rw [List.append_nil, ← members]
    rfl
  | cons key keys ih =>
    have new : key ∉ q.members := by
      rw [members, List.mem_toFinset]
      intro member
      exact (List.nodup_append.mp distinct).2.2 key member key List.mem_cons_self rfl
    have grown : (⟨insert key q.members, q.order ++ [key]⟩ : Fifo K).members =
        (q.order ++ [key]).toFinset := by
      rw [toFinset_append_singleton, ← members]
    rw [List.foldl_cons, push_new new, ih (by simpa using distinct) grown]
    simp

/-- Distinct keys within the capacity are loaded as they stand. -/
theorem load_eq {keys : List K} (distinct : keys.Nodup) (short : keys.length ≤ cap) :
    load cap keys = ⟨keys.toFinset, keys⟩ := by
  rw [load, lastN_eq short, foldl_push (by simpa [empty] using distinct) rfl]
  rfl

/-! ## A window that moves over a sequence of keys -/

/-- The keys that were taken, in the order they were, from a sequence of which the last `window` of the first
`n` places are visible, and the queue that remembers them. -/
structure Taken (names : Nat → Option K) (place : K → Nat) (window cap n : Nat) (log : List K)
    (q : Fifo K) : Prop where
  kept : q = ⟨(lastN cap log).toFinset, lastN cap log⟩
  once : log.Nodup
  named : ∀ key ∈ log, names (place key) = some key
  past : ∀ key ∈ log, place key < n
  near : log.Pairwise (fun earlier later => place earlier < place later + window)

section Taken

variable {names : Nat → Option K} {place : K → Nat} {window n : Nat} {log : List K}

theorem empty_taken : (empty : Fifo K).Taken names place window cap n [] :=
  ⟨by simp [empty, lastN], List.nodup_nil, nofun, nofun, List.Pairwise.nil⟩

theorem Taken.grow {m : Nat} (taken : q.Taken names place window cap n log) (more : n ≤ m) :
    q.Taken names place window cap m log :=
  ⟨taken.kept, taken.once, taken.named, fun key member => (taken.past key member).trans_le more, taken.near⟩

theorem Taken.bounded (taken : q.Taken names place window cap n log) : q.Bounded cap :=
  taken.kept ▸ bounded_lastN taken.once

/-- Few keys were taken since one that is still visible. -/
theorem Taken.since_short {before since : List K}
    (taken : q.Taken names place window cap n (before ++ key :: since))
    (visible : n ≤ place key + window) : (key :: since).length ≤ 2 * window - 1 := by
  have member : ∀ k ∈ key :: since, k ∈ before ++ key :: since := fun k => List.mem_append_right _
  have distinct : ((key :: since).map place).Nodup := by
    apply List.Nodup.map_on _ (List.nodup_append.mp taken.once).2.1
    intro k listed k' listed' same
    have at_k := taken.named k (member k listed)
    rw [same, taken.named k' (member k' listed')] at at_k
    exact (Option.some.inj at_k).symm
  have near := (List.pairwise_cons.mp (List.pairwise_append.mp taken.near).2.1).1
  have inside : ((key :: since).map place).toFinset ⊆
      Finset.Ico (place key + 1 - window) (place key + window) := by
    intro p listed
    rw [List.mem_toFinset] at listed
    obtain ⟨k, within, rfl⟩ := List.mem_map.mp listed
    have below := (taken.past k (member k within)).trans_le visible
    rw [Finset.mem_Ico]
    rcases List.mem_cons.mp within with rfl | later
    · omega
    · have above := near k later
      omega
  have count := Finset.card_le_card inside
  rw [List.toFinset_card_of_nodup distinct, List.length_map, Nat.card_Ico] at count
  omega

/-- A visible key is remembered exactly when it was taken. -/
theorem Taken.mem_iff (taken : q.Taken names place window cap n log) (wide : 2 * window ≤ cap + 1)
    (visible : n ≤ place key + window) : key ∈ q.members ↔ key ∈ log := by
  rw [taken.bounded.mem_iff, taken.kept]
  refine ⟨fun listed => (lastN_sublist cap log).mem listed, fun listed => ?_⟩
  obtain ⟨before, since, rfl⟩ := List.append_of_mem listed
  have short := taken.since_short visible
  have cut : (before ++ key :: since).length - cap ≤ before.length := by
    rw [List.length_append]
    omega
  rw [lastN, List.drop_append_of_le_length cut]
  exact List.mem_append_right _ List.mem_cons_self

/-- A visible key that is not remembered is taken for the first time. -/
theorem Taken.take (taken : q.Taken names place window cap n log) (wide : 2 * window ≤ cap + 1)
    (named : names (place key) = some key) (past : place key < n) (visible : n ≤ place key + window)
    (new : key ∉ q.members) : (q.remember cap key).Taken names place window cap n (log ++ [key]) := by
  have fresh : key ∉ log := fun listed => new ((taken.mem_iff wide visible).mpr listed)
  refine ⟨?_, ?_, ?_, ?_, ?_⟩
  · have order : q.order = lastN cap log := by rw [taken.kept]
    rw [remember_eq taken.bounded (fun listed => new (taken.bounded.mem_iff.mpr listed)), order,
      lastN_lastN_append]
  · exact List.nodup_append.mpr ⟨taken.once, List.nodup_singleton _, fun k listed k' single same =>
      fresh ((List.mem_singleton.mp single) ▸ same ▸ listed)⟩
  · intro k listed
    rcases List.mem_append.mp listed with old | single
    · exact taken.named k old
    · rw [List.mem_singleton.mp single]
      exact named
  · intro k listed
    rcases List.mem_append.mp listed with old | single
    · exact taken.past k old
    · rw [List.mem_singleton.mp single]
      exact past
  · refine List.pairwise_append.mpr ⟨taken.near, List.pairwise_singleton _ _, ?_⟩
    intro k listed k' single
    rw [List.mem_singleton.mp single]
    have below := taken.past k listed
    omega

end Taken

end Fifo

end Parler.Lib
