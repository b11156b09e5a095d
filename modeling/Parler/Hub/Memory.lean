import Mathlib.Data.List.Sort
import Parler.Hub.Tables

/-!
# The fact memory

`remember`, the three recall paths and the fact retention of
`crates/parler-hub/src/store.rs`. The full-text index holds exactly the texts of
`facts` (its triggers keep it so), so it is computed from them; the vector index
is the table `vec_facts`, which has no trigger. Scores are exact rationals.
-/

namespace Parler.Hub

open Parler.Lib Parler.Protocol

/-- Reciprocal-rank constant (`RRF_K`). -/
def rrfK : Nat := 60

/-- The key under which two hit lists are merged; slicing at byte 128 panics inside a
    character (`store.rs`, `hit_key`). -/
def hitKey (hit : RecallHit) : Option String :=
  let cut := hit.text.toUTF8.toList.take 128
  (String.fromUTF8? ⟨cut.toArray⟩).map (fun text =>
    "|".intercalate [hit.author, toString hit.ts, hit.room.getD "", text])

/-- Add a rank's share to a hit's entry. -/
def rrfAdd (scores : List (String × RecallHit)) (key : String) (hit : RecallHit) (rank : Nat) :
    List (String × RecallHit) :=
  let share : Rat := 1 / (rrfK + rank + 1)
  upsert Prod.fst (key, { hit with score := share })
    (fun e => (e.1, { e.2 with score := e.2.score + share })) scores

def rrfAddAll (hits : List RecallHit) (scores : List (String × RecallHit)) :
    Option (List (String × RecallHit)) :=
  hits.zipIdx.foldlM (fun acc entry => (hitKey entry.1).map (fun key =>
    rrfAdd acc key entry.1 entry.2)) scores

/-- Reciprocal rank fusion of two ranked lists; `none` is a panic. -/
def rrfFuse (fts vec : List RecallHit) (limit : Nat) : Option (List RecallHit) := do
  let first ← rrfAddAll fts []
  let scores ← rrfAddAll vec first
  return ((scores.map Prod.snd).insertionSort (fun a b => b.score ≤ a.score)).take limit

/-- Split on characters that are not alphanumeric, dropping empty pieces. -/
def alphanumericTerms (isAlphanumeric : Char → Bool) (cs : List Char) : List (List Char) :=
  let step := fun (acc : List Char × List (List Char)) (c : Char) =>
    if isAlphanumeric c then (c :: acc.1, acc.2)
    else if acc.1.isEmpty then acc else ([], acc.1.reverse :: acc.2)
  let last := cs.foldl step ([], [])
  (if last.1.isEmpty then last.2 else last.1.reverse :: last.2).reverse

/-- `build_fts_query`. -/
def buildFtsQuery (ext : Externals) (q : String) : String :=
  " OR ".intercalate ((alphanumericTerms ext.isAlphanumeric q.toList).map
    (fun term => ext.toLowercase (String.ofList term) ++ "*"))

namespace Store

variable (s : Store)

/-- `IFNULL(room, '')`. -/
def roomOrEmpty (room : Option String) : String := room.getD ""

def sameKeyedFact (author key : String) (room : Option String) (f : FactRow) : Bool :=
  f.author = author ∧ roomOrEmpty f.room = roomOrEmpty room ∧ f.key = some key

def insertFact (key room : Option String) (author text : String) (ts : Int)
    (model : Option String) : Store :=
  { s with
    facts := s.facts ++ [⟨s.factSeq + 1, key, room, author, text, ts, model⟩]
    factSeq := s.factSeq + 1 }

/-- Replace a fact's vector. -/
def putVec (factId : Int) (embedding : List UInt32) : Store :=
  { s with
    vecFacts := deleteWhere (fun v => v.factId = factId) s.vecFacts ++ [⟨factId, embedding⟩] }

/-- The fact row a `remember` writes, and its id. -/
def writeFact (author : String) (fact : Fact) (ts : Int) (model : Option String) : Int × Store :=
  match fact.key with
  | none => (s.factSeq + 1, s.insertFact none fact.room author fact.text ts model)
  | some k =>
      match s.facts.find? (sameKeyedFact author k fact.room) with
      | none => (s.factSeq + 1, s.insertFact (some k) fact.room author fact.text ts model)
      | some row => (row.id, { s with
          facts := updateWhere (fun f => sameKeyedFact author k fact.room f)
            (fun f => { f with text := fact.text, ts := ts, embeddingModel := model }) s.facts })

def dimensionMismatch (got expected : Nat) : Failure :=
  .plain s!"embedding dimension mismatch: got {got}, expected {expected}"

/-- `remember` (`store.rs:1561-1616`). -/
def remember (vecDim : Nat) (author : String) (fact : Fact) (ts : Int)
    (embedding : Option (List UInt32)) (model : Option String) : Except Failure Store :=
  match embedding with
  | none => .ok (s.writeFact author fact ts model).2
  | some emb =>
      if emb.length ≠ vecDim then .error (dimensionMismatch emb.length vecDim)
      else
        let written := s.writeFact author fact ts model
        .ok (written.2.putVec written.1 emb)

def keyedFactWithinQuota (author key : String) (room : Option String) (max : Nat) : Bool :=
  s.facts.any (fun f => f.author = author ∧ f.key = some key ∧ f.room = room) ||
    (s.facts.filter (fun f => f.author = author ∧ f.key.isSome)).length < max

/-- The scope of the text and key paths, in their `WHERE` clauses: the facts of the room, or
    without one the agent's own unroomed facts and those of its rooms. -/
def sqlScope (agent : String) (room : Option String) (f : FactRow) : Bool :=
  match room with
  | some r => f.room = some r
  | none => (f.room = none ∧ f.author = agent) ∨
      s.members.any (fun m => m.agent = agent ∧ f.room = some m.room)

/-- The rooms that `recall_vec` fetches for its filter. -/
def agentRooms (agent : String) (room : Option String) : Option (List String) :=
  if room.isNone then some ((s.members.filter (fun m => m.agent = agent)).map MemberRow.room)
  else none

/-- The filter of `recall_vec` on a fetched hit. -/
def hitScope (agent : String) (room : Option String) (rooms : Option (List String))
    (hit : RecallHit) : Bool :=
  match room with
  | some r => hit.room = some r
  | none =>
      match hit.room with
      | none => hit.author = agent
      | some r => rooms.any (fun rooms => rooms.contains r)

def toHit (f : FactRow) (score : Rat) : RecallHit :=
  ⟨f.text, f.key, f.room, f.author, f.ts, score⟩

/-- The number of hits of a recall: 8 unless asked, at most 50. -/
def recallLimit (limit : Option Nat) : Nat := min (limit.getD 8) 50

/-- `recall_by_key`. -/
def recallByKey (agent key : String) (room : Option String) (limit : Option Nat) :
    List RecallHit :=
  (((s.facts.filter (fun f => f.key = some key ∧ s.sqlScope agent room f)
    ).insertionSort (fun a b => b.ts ≤ a.ts)).take (recallLimit limit)).map (fun f => toHit f 0)

/-- `recall_fts`. -/
def recallFts (ext : Externals) (agent query : String) (room : Option String) (lim : Nat) :
    List RecallHit :=
  let index := s.facts.map (fun f => (f.id, f.text))
  (((s.facts.filter (s.sqlScope agent room)).filterMap
    (fun f => (ext.bm25 index query f.id).map (toHit f))).insertionSort
      (fun a b => a.score ≤ b.score)).take lim

/-- `recall_vec`: over-fetch from the index, then filter by scope. -/
def recallVec (ext : Externals) (agent : String) (embedding : List UInt32)
    (room : Option String) (lim : Nat) : List RecallHit :=
  let near := ext.knn (s.vecFacts.map (fun v => (v.factId, v.embedding))) embedding
    (min (lim * 5) 200)
  ((near.filterMap (fun c => (s.facts.find? (fun f => f.id = c.1)).map (fun f => toHit f c.2))
    ).filter (hitScope agent room (s.agentRooms agent room))).take lim

/-- `recall` (`store.rs:1621-1668`). -/
def «recall» (ext : Externals) (vecDim : Nat) (agent query : String) (room : Option String)
    (limit : Option Nat) (embedding : Option (List UInt32)) : Except Failure (List RecallHit) :=
  let lim := recallLimit limit
  let matchQ := buildFtsQuery ext query
  let fts := if matchQ.isEmpty then [] else s.recallFts ext agent matchQ room lim
  match embedding with
  | none => .ok fts
  | some emb =>
      if emb.length ≠ vecDim then .error (dimensionMismatch emb.length vecDim)
      else
        let vec := s.recallVec ext agent emb room lim
        if vec.isEmpty then .ok fts
        else if fts.isEmpty then .ok vec
        else
          match rrfFuse fts vec lim with
          | some hits => .ok hits
          | none => .error .panicked

/-- The id of the `(n + 1)`-th newest unkeyed fact of an author in a scope. -/
def nthNewestFact (author : String) (room : Option String) (n : Nat) : Option Int :=
  (((s.facts.filter (fun f => f.key = none ∧ f.author = author ∧
    roomOrEmpty f.room = roomOrEmpty room)).map FactRow.id).insertionSort (fun a b => b ≤ a))[n]?

/-- Keep the newest `keep` unkeyed facts of each author and scope; vectors without a
    fact go with them when anything was deleted. -/
def pruneFacts (keep : Int) : Store :=
  let facts := deleteWhere (fun f => f.key = none ∧
    f.id ≤ (s.nthNewestFact f.author f.room keep.toNat).getD (-1)) s.facts
  if facts.length = s.facts.length then s
  else { s with
    facts := facts
    vecFacts := deleteWhere (fun v => !facts.any (fun f => f.id = v.factId)) s.vecFacts }

end Store

end Parler.Hub
