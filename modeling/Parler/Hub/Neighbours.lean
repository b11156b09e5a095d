import Mathlib.Algebra.Order.Field.Rat
import Parler.Hub.Recall

/-!
# The nearest facts

`recall_vec` asks the vector index for five times as many rows as it is to return, at most 200, and
drops those out of the caller's scope afterwards. What it returns are nearest facts of the scope; how
many of them depends on what else is stored near the query.
-/

namespace Parler.Hub

open Parler.Lib Parler.Protocol

/-- The vector index returns the `k` nearest rows in ascending distance. -/
def ExactKnn (ext : Externals) (distance : List UInt32 → List UInt32 → Rat) : Prop :=
  ∀ rows query k, ∃ order : List (Int × Rat),
    order.Perm (rows.map (fun row => (row.1, distance row.2 query))) ∧
      order.Pairwise (fun a b => a.2 ≤ b.2) ∧ ext.knn rows query k = order.take k

namespace Store

variable (s : Store) (distance : List UInt32 → List UInt32 → Rat) (agent : String)
  (embedding : List UInt32) (room : Option String) (lim : Nat)

/-- The fetched rows that are facts of the scope. -/
def inScope (near : List (Int × Rat)) : List RecallHit :=
  (near.filterMap (fun c => (s.facts.find? (fun f => f.id = c.1)).map (fun f => toHit f c.2))).filter
    (hitScope agent room (s.agentRooms agent room))

/-- All rows of the vector index with their distances. -/
def distances : List (Int × Rat) :=
  s.vecFacts.map (fun v => (v.factId, distance v.embedding embedding))

/-- The hits are the `lim` nearest facts of the scope in ascending distance, or all of them. -/
def AreNearest (hits : List RecallHit) : Prop :=
  ∃ order : List RecallHit, order.Perm (s.inScope agent room (s.distances distance embedding)) ∧
    order.Pairwise (fun a b => a.score ≤ b.score) ∧ hits = order.take lim

/-- How many rows are asked of the index. -/
def overFetch : Nat := min (lim * 5) 200

variable {s distance agent embedding room lim}

/-- The scope as a selection of rows. -/
theorem inScope_eq (near : List (Int × Rat)) : s.inScope agent room near = near.filterMap (fun c =>
    ((s.facts.find? (fun f => f.id = c.1)).map (fun f => toHit f c.2)).filter
      (hitScope agent room (s.agentRooms agent room))) := by
  unfold inScope
  rw [List.filter_filterMap]

theorem inScope_sorted {near : List (Int × Rat)} (sorted : near.Pairwise (fun a b => a.2 ≤ b.2)) :
    (s.inScope agent room near).Pairwise (fun a b => a.score ≤ b.score) := by
  rw [inScope_eq, List.pairwise_filterMap]
  refine sorted.imp ?_
  intro c c' ascending hit joined hit' joined'
  have score : ∀ (c : Int × Rat) (hit : RecallHit),
      ((s.facts.find? (fun f => f.id = c.1)).map (fun f => toHit f c.2)).filter
        (hitScope agent room (s.agentRooms agent room)) = some hit → hit.score = c.2 := by
    intro c hit joined
    obtain ⟨joined, -⟩ := Option.filter_eq_some_iff.mp joined
    obtain ⟨f, -, rfl⟩ := Option.map_eq_some_iff.mp joined
    rfl
  rw [score c hit joined, score c' hit' joined']
  exact ascending

theorem inScope_perm (s : Store) (agent : String) (room : Option String)
    {near near' : List (Int × Rat)} (perm : near.Perm near') :
    (s.inScope agent room near).Perm (s.inScope agent room near') := by
  rw [inScope_eq, inScope_eq]
  exact perm.filterMap _

/-- What is in scope of the first rows comes first of what is in scope. -/
theorem inScope_take (near : List (Int × Rat)) (k : Nat) : s.inScope agent room (near.take k) =
    (s.inScope agent room near).take (s.inScope agent room (near.take k)).length := by
  have first : s.inScope agent room (near.take k) <+: s.inScope agent room near := by
    rw [inScope_eq, inScope_eq]
    exact (List.take_prefix k near).filterMap _
  exact List.prefix_iff_eq_take.mp first

theorem length_inScope_le (s : Store) (agent : String) (room : Option String)
    (near : List (Int × Rat)) :
    (s.inScope agent room near).length ≤ near.length := by
  rw [inScope_eq]
  exact List.length_filterMap_le _ _

theorem inScope_append (near near' : List (Int × Rat)) : s.inScope agent room (near ++ near') =
    s.inScope agent room near ++ s.inScope agent room near' := by
  simp only [inScope_eq, List.filterMap_append]

/-- Nearest facts are `lim` of them, or all. -/
theorem AreNearest.length {hits : List RecallHit}
    (nearest : s.AreNearest distance agent embedding room lim hits) :
    hits.length = min lim (s.inScope agent room (s.distances distance embedding)).length := by
  obtain ⟨order, perm, -, rfl⟩ := nearest
  rw [List.length_take, perm.length_eq]

/-- The hits of the vector path are nearest facts of the scope, as many as are wanted of those that
    are among the rows fetched from the index; so they are the `lim` nearest ones exactly when that
    many, or all, are among these rows, as they are where the index holds few rows of other facts. -/
theorem vector_recall_nearest {ext : Externals} (s : Store) (agent : String)
    (embedding : List UInt32) (room : Option String) (lim : Nat) (exact : ExactKnn ext distance) :
    ∃ order : List (Int × Rat), order.Perm (s.distances distance embedding) ∧
      order.Pairwise (fun a b => a.2 ≤ b.2) ∧
      s.AreNearest distance agent embedding room
        (min lim (s.inScope agent room (order.take (overFetch lim))).length)
        (s.recallVec ext agent embedding room lim) ∧
      (s.AreNearest distance agent embedding room lim (s.recallVec ext agent embedding room lim) ↔
        min lim (s.inScope agent room (s.distances distance embedding)).length ≤
          (s.inScope agent room (order.take (overFetch lim))).length) ∧
      ((s.distances distance embedding).length + lim ≤
          overFetch lim + (s.inScope agent room (s.distances distance embedding)).length →
        s.AreNearest distance agent embedding room lim (s.recallVec ext agent embedding room lim)) := by
  obtain ⟨order, perm, ascending, fetches⟩ :=
    exact (s.vecFacts.map (fun v => (v.factId, v.embedding))) embedding (overFetch lim)
  rw [List.map_map] at perm
  have perm : order.Perm (s.distances distance embedding) := perm
  have result : s.recallVec ext agent embedding room lim = (s.inScope agent room order).take
      (min lim (s.inScope agent room (order.take (overFetch lim))).length) := by
    rw [← List.take_take, ← inScope_take, ← fetches]
    rfl
  have scope := inScope_perm s agent room perm
  have nearest : s.AreNearest distance agent embedding room
      (min lim (s.inScope agent room (order.take (overFetch lim))).length)
      (s.recallVec ext agent embedding room lim) :=
    ⟨_, scope, inScope_sorted ascending, result⟩
  have complete : s.AreNearest distance agent embedding room lim
      (s.recallVec ext agent embedding room lim) ↔
        min lim (s.inScope agent room (s.distances distance embedding)).length ≤
          (s.inScope agent room (order.take (overFetch lim))).length := by
    constructor
    · intro all
      have length := all.length
      rw [nearest.length] at length
      omega
    · intro enough
      refine ⟨_, scope, inScope_sorted ascending, ?_⟩
      rw [result, ← List.take_length (l := s.inScope agent room order), List.take_take, List.take_take,
        scope.length_eq]
      congr 1
      omega
  refine ⟨order, perm, ascending, nearest, complete, ?_⟩
  intro few
  apply complete.mpr
  -- Of the rows that were not fetched, no more are in scope than there are.
  have parts : (s.inScope agent room (order.take (overFetch lim))).length +
      (s.inScope agent room (order.drop (overFetch lim))).length =
        (s.inScope agent room (s.distances distance embedding)).length := by
    rw [← List.length_append, ← inScope_append, List.take_append_drop, scope.length_eq]
  have rest := length_inScope_le s agent room (order.drop (overFetch lim))
  rw [List.length_drop, perm.length_eq] at rest
  omega

end Store

/-! ## A crowded neighbourhood -/

/-- How far two vectors of one number are apart. -/
def apartBy (v w : List UInt32) : Rat :=
  let m := (v.headD 0).toNat
  let n := (w.headD 0).toNat
  ((max m n - min m n : Nat) : Rat)

/-- An index that sorts all its rows. -/
def sortedExternals : Externals :=
  { demoExternals with
    knn := fun rows query k => ((rows.map (fun row => (row.1, apartBy row.2 query))).insertionSort
      (fun a b => a.2 ≤ b.2)).take k }

theorem sortedExternals_exact : ExactKnn sortedExternals apartBy := by
  intro rows query k
  have total : Std.Total (fun a b : Int × Rat => a.2 ≤ b.2) := ⟨fun a b => le_total _ _⟩
  have trans : IsTrans (Int × Rat) (fun a b => a.2 ≤ b.2) := ⟨fun _ _ _ ab bc => ab.trans bc⟩
  exact ⟨_, List.perm_insertionSort _ _, List.pairwise_insertionSort _ _, rfl⟩

/-- A note of Alice, and Bob's own ones next to the query. -/
def crowdedStore (others : Nat) : Store :=
  { Store.empty with
    facts := ⟨1, none, none, "A", "plan", 0, none⟩ ::
      (List.range others).map (fun n => ⟨n + 2, none, none, "B", "", 0, none⟩)
    vecFacts := ⟨1, [5]⟩ :: (List.range others).map (fun n => ⟨n + 2, [0]⟩) }

theorem vector_recall_nearest_demo : (crowdedStore 5).AreNearest apartBy "A" [0] none 2
    ((crowdedStore 5).recallVec sortedExternals "A" [0] none 2) := by
  obtain ⟨-, -, -, -, -, enough⟩ := Store.vector_recall_nearest (crowdedStore 5) "A" [0] none 2
    sortedExternals_exact
  exact enough (by decide +kernel)

/-- Five facts of Bob hide Alice's own from her. -/
theorem crowded_out :
    ((crowdedStore 0).recallVec sortedExternals "A" [0] none 1).length = 1 ∧
      (crowdedStore 5).recallVec sortedExternals "A" [0] none 1 = [] ∧
      ¬ (crowdedStore 5).AreNearest apartBy "A" [0] none 1
        ((crowdedStore 5).recallVec sortedExternals "A" [0] none 1) := by
  refine ⟨by decide +kernel, by decide +kernel, ?_⟩
  intro nearest
  have length := nearest.length
  exact absurd length (by decide +kernel)

end Parler.Hub
