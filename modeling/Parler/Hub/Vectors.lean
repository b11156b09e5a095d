import Parler.Hub.Demo
import Parler.Hub.Facts

/-!
# The vector index

The table `vec_facts` has no trigger: a write with an embedding replaces the fact's vector, fact
retention deletes the vectors without a fact, and nothing else touches it. It stays consistent with
the facts as long as no fact with a vector is overwritten by another text without an embedding and
no room with such a fact is deleted.
-/

namespace Parler.Hub

open Parler.Lib Parler.Protocol

variable {cfg : HubConfig}

/-- A successful write of a fact: the row's id, the text and the embedding that came with it. -/
structure FactWrite where
  id : Int
  text : String
  embedding : Option (List UInt32)

/-- The write that a call makes. -/
def writeOf (e : HubEvent cfg) : Option FactWrite :=
  match e.op with
  | .remember author fact ts embedding model =>
      match e.before.store.remember cfg.vecDim author fact ts embedding model with
      | .ok _ => some ⟨(e.before.store.writeFact author fact ts model).1, fact.text, embedding⟩
      | .error _ => none
  | _ => none

/-- The writes of a fact, newest first. -/
def factWrites (log : List (HubEvent cfg)) (id : Int) : List FactWrite :=
  (log.filterMap writeOf).filter (fun w => w.id = id)

/-- The last write of a fact that supplied an embedding. -/
def lastEmbedded (log : List (HubEvent cfg)) (id : Int) : Option FactWrite :=
  (factWrites log id).find? (fun w => w.embedding.isSome)

/-- The index and the facts agree: a vector belongs to a fact and is the last embedding supplied for
    it, which came with the fact's current text; a fact whose last write supplied an embedding has
    this one vector. -/
structure IndexConsistent (log : List (HubEvent cfg)) (s : Store) : Prop where
  refers : ∀ v ∈ s.vecFacts, ∃ f ∈ s.facts, f.id = v.factId ∧ ∃ w, lastEmbedded log f.id = some w ∧
    w.text = f.text ∧ w.embedding = some v.embedding
  indexed : ∀ f ∈ s.facts, ∀ w emb, (factWrites log f.id).head? = some w → w.embedding = some emb →
    s.vecFacts.filter (fun v => v.factId = f.id) = [⟨f.id, emb⟩]

/-- The fact has a vector. -/
def Store.indexes (s : Store) (f : FactRow) : Bool := s.vecFacts.any (fun v => v.factId = f.id)

/-- The calls that leave no stale vector: a write without an embedding keeps the text of an indexed
    fact, and a deleted room has no indexed fact. -/
def leavesNoVector (h : HubState) : HubCall → Prop
  | .remember author fact _ none _ => ∀ row, h.store.overwritten author fact = some row →
      h.store.indexes row = true → fact.text = row.text
  | .deleteRoom room owner => h.store.roomOwnedBy room owner = true → ∀ f ∈ h.store.facts,
      f.room = some room → h.store.indexes f = false
  | _ => True

/-- The schedules all of whose calls leave no stale vector. -/
def noStaleVectors {Req α : Type} (P : Pool (hubMachine cfg) Req α) (_ : Nat) (op : HubCall) : Prop :=
  leavesNoVector P.state op

/-! ## One call -/

theorem factWrites_silent {e : HubEvent cfg} (silent : writeOf e = none) (log : List (HubEvent cfg))
    (id : Int) : factWrites (e :: log) id = factWrites log id := by
  simp [factWrites, silent]

theorem factWrites_write {e : HubEvent cfg} {w : FactWrite} (write : writeOf e = some w)
    (log : List (HubEvent cfg)) (id : Int) :
    factWrites (e :: log) id = if w.id = id then w :: factWrites log id else factWrites log id := by
  simp only [factWrites, List.filterMap_cons, write, List.filter_cons, decide_eq_true_eq]

section Step

variable {log : List (HubEvent cfg)} {e : HubEvent cfg} {s s' : Store}

/-- A call that writes no fact and keeps the indexed facts and their vectors. -/
theorem IndexConsistent.of_kept (now : IndexConsistent log s) (silent : writeOf e = none)
    (facts : ∀ f ∈ s'.facts, f ∈ s.facts)
    (vectors : ∀ v ∈ s'.vecFacts, v ∈ s.vecFacts ∧ ∃ f ∈ s'.facts, f.id = v.factId)
    (keyed : s.FactsKeyed)
    (kept : ∀ f ∈ s'.facts, s'.vecFacts.filter (fun v => v.factId = f.id) =
      s.vecFacts.filter (fun v => v.factId = f.id)) : IndexConsistent (e :: log) s' := by
  refine ⟨?_, ?_⟩
  · intro v listed
    obtain ⟨old, f, stored, own⟩ := vectors v listed
    obtain ⟨f', stored', own', w, last, rest⟩ := now.refers v old
    obtain rfl := keyed.eq_of_id (facts f stored) stored' (own.trans own'.symm)
    refine ⟨f, stored, own, w, ?_, rest⟩
    rw [lastEmbedded, factWrites_silent silent]
    exact last
  · intro f stored w emb newest embedded
    rw [factWrites_silent silent] at newest
    rw [kept f stored]
    exact now.indexed f (facts f stored) w emb newest embedded

theorem IndexConsistent.refl (now : IndexConsistent log s) (keyed : s.FactsKeyed)
    (silent : writeOf e = none) (rows : s'.facts = s.facts) (vectors : s'.vecFacts = s.vecFacts) :
    IndexConsistent (e :: log) s' := by
  refine now.of_kept silent (by simp [rows]) ?_ keyed (by simp [vectors])
  intro v listed
  rw [vectors] at listed
  obtain ⟨f, stored, own, -⟩ := now.refers v listed
  exact ⟨listed, f, by rw [rows]; exact stored, own⟩

/-- The vectors after a write: the fact's is replaced when the write supplied one. -/
theorem remember_vectors {author : String} {fact : Fact} {ts : Int} {embedding : Option (List UInt32)}
    {model : Option String} (ok : s.remember cfg.vecDim author fact ts embedding model = .ok s') :
    s'.facts = (s.writeFact author fact ts model).2.facts ∧
      s'.vecFacts = match embedding with
        | none => s.vecFacts
        | some emb => deleteWhere (fun v => v.factId = (s.writeFact author fact ts model).1) s.vecFacts ++
            [⟨(s.writeFact author fact ts model).1, emb⟩] := by
  have untouched : (s.writeFact author fact ts model).2.vecFacts = s.vecFacts := by
    rcases s.writeFact_eq author fact ts model with equal | ⟨key, -, equal⟩
    · rw [equal]
      rfl
    · rw [equal]
  unfold Store.remember at ok
  cases embedding with
  | none =>
    obtain rfl := Except.ok.inj ok
    exact ⟨rfl, untouched⟩
  | some emb =>
    dsimp only at ok
    split at ok
    · cases ok
    · obtain rfl := Except.ok.inj ok
      refine ⟨rfl, ?_⟩
      simp only [Store.putVec, untouched]

/-- A fact that is not written keeps its vectors. -/
theorem filter_replaced {id other : Int} (apart : other ≠ id) (rows : List VecRow) (emb : List UInt32) :
    (deleteWhere (fun v : VecRow => v.factId = id) rows ++ [(⟨id, emb⟩ : VecRow)]).filter
      (fun v => v.factId = other) = rows.filter (fun v => v.factId = other) := by
  have missing : ¬ id = other := fun same => apart same.symm
  rw [List.filter_append, List.filter_singleton, deleteWhere, List.filter_filter]
  simp only [missing, decide_false, cond_false, List.append_nil]
  refine List.filter_congr ?_
  intro v _
  by_cases own : v.factId = other
  · simp [own, apart]
  · simp [own]

theorem filter_replacing (id : Int) (rows : List VecRow) (emb : List UInt32) :
    (deleteWhere (fun v : VecRow => v.factId = id) rows ++ [(⟨id, emb⟩ : VecRow)]).filter
      (fun v => v.factId = id) = [⟨id, emb⟩] := by
  rw [List.filter_append, List.filter_singleton, deleteWhere, List.filter_filter]
  simp

/-- A write with an embedding leaves the index consistent. -/
theorem IndexConsistent.of_embedded (now : IndexConsistent log s) (keyed : s.FactsKeyed)
    {author : String} {fact : Fact} {ts : Int} {emb : List UInt32} {model : Option String}
    (ok : s.remember cfg.vecDim author fact ts (some emb) model = .ok s')
    (write : writeOf e = some ⟨(s.writeFact author fact ts model).1, fact.text, some emb⟩) :
    IndexConsistent (e :: log) s' := by
  obtain ⟨new, id_eq, text_eq, facts⟩ := keyed.mem_written author fact ts model
  obtain ⟨rows, vectors⟩ := remember_vectors ok
  rw [← id_eq] at write vectors
  dsimp only at vectors
  refine ⟨?_, ?_⟩
  · intro v listed
    rw [vectors, List.mem_append, mem_deleteWhere, List.mem_singleton] at listed
    rcases listed with ⟨old, other⟩ | rfl
    · obtain ⟨f, stored, own, w, last, rest⟩ := now.refers v old
      have apart : f.id ≠ new.id := own ▸ other
      refine ⟨f, ?_, own, w, ?_, rest⟩
      · rw [rows]
        exact (facts f).mpr (Or.inl ⟨stored, apart⟩)
      · rw [lastEmbedded, factWrites_write write, if_neg (Ne.symm apart)]
        exact last
    · refine ⟨new, ?_, rfl, ⟨new.id, fact.text, some emb⟩, ?_, text_eq.symm, rfl⟩
      · rw [rows]
        exact (facts new).mpr (Or.inr rfl)
      · rw [lastEmbedded, factWrites_write write, if_pos rfl]
        rfl
  · intro f stored w emb' newest embedded
    rw [rows, facts] at stored
    rw [vectors]
    rw [factWrites_write write] at newest
    rcases stored with ⟨stored, apart⟩ | rfl
    · rw [if_neg (Ne.symm apart)] at newest
      rw [filter_replaced apart]
      exact now.indexed f stored w emb' newest embedded
    · rw [if_pos rfl] at newest
      cases newest
      cases embedded
      exact filter_replacing _ _ _

/-- A write without an embedding leaves the index consistent if it keeps an indexed text. -/
theorem IndexConsistent.of_plain (now : IndexConsistent log s) (keyed : s.FactsKeyed)
    {author : String} {fact : Fact} {ts : Int} {model : Option String}
    (allowed : ∀ row, s.overwritten author fact = some row → s.indexes row = true → fact.text = row.text)
    (ok : s.remember cfg.vecDim author fact ts none model = .ok s')
    (write : writeOf e = some ⟨(s.writeFact author fact ts model).1, fact.text, none⟩) :
    IndexConsistent (e :: log) s' := by
  obtain ⟨new, id_eq, text_eq, facts⟩ := keyed.mem_written author fact ts model
  obtain ⟨rows, vectors⟩ := remember_vectors ok
  dsimp only at vectors
  -- An indexed fact that is written keeps its text.
  have sameText : ∀ v ∈ s.vecFacts, ∀ f ∈ s.facts, f.id = v.factId → f.id = new.id →
      fact.text = f.text := by
    intro v listed f stored own same
    rcases s.writeFact_cases author fact ts model with ⟨-, equal⟩ | ⟨key, row, overwritten, -, old, -, equal⟩
    · rw [equal] at id_eq
      have below := keyed.bounded f stored
      rw [same, id_eq] at below
      omega
    · rw [equal] at id_eq
      obtain rfl := keyed.eq_of_id stored old (same.trans id_eq)
      exact allowed f overwritten (List.any_eq_true.mpr ⟨v, listed, by simp [own]⟩)
  rw [← id_eq] at write
  refine ⟨?_, ?_⟩
  · intro v listed
    rw [vectors] at listed
    obtain ⟨f, stored, own, w, last, text, embedding⟩ := now.refers v listed
    by_cases same : f.id = new.id
    · refine ⟨new, ?_, same.symm.trans own, w, ?_, ?_, embedding⟩
      · rw [rows]
        exact (facts new).mpr (Or.inr rfl)
      · rw [lastEmbedded, factWrites_write write, if_pos rfl, ← same]
        exact last
      · rw [text, text_eq]
        exact (sameText v listed f stored own same).symm
    · refine ⟨f, ?_, own, w, ?_, text, embedding⟩
      · rw [rows]
        exact (facts f).mpr (Or.inl ⟨stored, same⟩)
      · rw [lastEmbedded, factWrites_write write, if_neg (Ne.symm same)]
        exact last
  · intro f stored w emb newest embedded
    rw [rows, facts] at stored
    rw [vectors]
    rw [factWrites_write write] at newest
    rcases stored with ⟨stored, apart⟩ | rfl
    · rw [if_neg (Ne.symm apart)] at newest
      exact now.indexed f stored w emb newest embedded
    · rw [if_pos rfl] at newest
      cases newest
      cases embedded

/-- Deleting a room without indexed facts leaves the index consistent. -/
theorem IndexConsistent.of_deleted (now : IndexConsistent log s) (keyed : s.FactsKeyed) {room : String}
    (silent : writeOf e = none)
    (allowed : ∀ f ∈ s.facts, f.room = some room → s.indexes f = false) :
    IndexConsistent (e :: log) (s.eraseRoom room) := by
  refine now.of_kept silent ?_ ?_ keyed (fun _ _ => rfl)
  · intro f stored
    exact (mem_deleteWhere.mp stored).1
  · intro v listed
    obtain ⟨f, stored, own, -⟩ := now.refers v listed
    refine ⟨listed, f, mem_deleteWhere.mpr ⟨stored, ?_⟩, own⟩
    intro inside
    have unindexed := allowed f stored inside
    rw [Store.indexes, List.any_eq_false] at unindexed
    exact unindexed v listed (by simp [own])

/-- A stored fact keeps its vectors when those without a fact are deleted. -/
theorem filter_referring {facts : List FactRow} {f : FactRow} (stored : f ∈ facts) (rows : List VecRow) :
    (deleteWhere (fun v : VecRow => (!facts.any (fun f => f.id = v.factId)) = true) rows).filter
      (fun v => v.factId = f.id) = rows.filter (fun v => v.factId = f.id) := by
  rw [deleteWhere, List.filter_filter]
  refine List.filter_congr ?_
  intro v _
  by_cases own : v.factId = f.id
  · have has : facts.any (fun g => g.id = v.factId) = true :=
      List.any_eq_true.mpr ⟨f, stored, by simp [own]⟩
    rw [has]
    simp
  · simp [own]

/-- Fact retention leaves the index consistent. -/
theorem IndexConsistent.of_pruned (now : IndexConsistent log s) (keyed : s.FactsKeyed)
    (silent : writeOf e = none) (keep : Int) : IndexConsistent (e :: log) (s.pruneFacts keep) := by
  unfold Store.pruneFacts
  dsimp only
  split
  · exact now.refl keyed silent rfl rfl
  · refine now.of_kept silent ?_ ?_ keyed ?_
    · intro f stored
      exact (mem_deleteWhere.mp stored).1
    · intro v listed
      obtain ⟨old, has⟩ := mem_deleteWhere.mp listed
      rw [Bool.not_eq_true', Bool.not_eq_false, List.any_eq_true] at has
      obtain ⟨f, stored, own⟩ := has
      exact ⟨old, f, stored, by simpa using own⟩
    · intro f stored
      exact filter_referring stored _

/-- The step lemma. -/
theorem indexConsistent_exec (now : IndexConsistent log e.before.store)
    (keyed : e.before.store.FactsKeyed) (allowed : leavesNoVector e.before e.op) :
    IndexConsistent (e :: log) e.after.store := by
  obtain ⟨t, op, h⟩ := e
  by_cases written : TableName.facts ∈ op.writes
  · cases op with
    | remember author fact ts embedding model =>
      cases ok : h.store.remember cfg.vecDim author fact ts embedding model with
      | error failure =>
        refine now.refl keyed (by simp [writeOf, ok]) ?_ ?_ <;>
          simp [Event.after, HubCall.exec, ok, HubState.tryStore]
      | ok s =>
        have after : (⟨t, .remember author fact ts embedding model, h⟩ : HubEvent cfg).after.store = s := by
          simp [Event.after, HubCall.exec, ok, HubState.tryStore]
        rw [after]
        cases embedding with
        | none => exact now.of_plain keyed allowed ok (by simp [writeOf, ok])
        | some emb => exact now.of_embedded keyed ok (by simp [writeOf, ok])
    | deleteRoom room owner =>
      rcases h.tryStore_cases (h.store.deleteRoom room owner) with ⟨s, ok, equal⟩ | unchanged
      · obtain ⟨owned, rfl⟩ := Store.deleteRoom_ok ok
        have after : (⟨t, .deleteRoom room owner, h⟩ : HubEvent cfg).after.store = h.store.eraseRoom room := by
          simp [Event.after, HubCall.exec, equal]
        rw [after]
        exact now.of_deleted keyed rfl (allowed owned)
      · refine now.refl keyed rfl ?_ ?_ <;> simp [Event.after, HubCall.exec, unchanged]
    | pruneFacts keep => exact now.of_pruned keyed rfl keep
    | _ => simp [HubCall.writes] at written
  · have silent : writeOf (⟨t, op, h⟩ : HubEvent cfg) = none := by
      cases op with
      | remember => simp [HubCall.writes] at written
      | _ => rfl
    have unindexed : TableName.vecFacts ∉ op.writes := by
      intro indexed
      cases op <;> simp [HubCall.writes] at indexed written
    exact now.refl keyed silent (exec_same cfg op h .facts written).1
      (exec_same cfg op h .vecFacts unindexed)

end Step

/-- In every run of the hub's calls, whatever programs make them, in which no indexed fact is
    overwritten by another text without an embedding and no room with an indexed fact is deleted, the
    vector index is consistent with the facts. -/
theorem vectors_consistent_unless_stale {Req α : Type} {serve : Req → Prog (hubMachine cfg) α}
    {inflight : Nat} {P : Pool (hubMachine cfg) Req α}
    (reach : Pool.Reachable serve noStaleVectors (.boot inflight) P) :
    IndexConsistent P.log P.state.store := by
  refine Pool.Reachable.induct (I := fun P => IndexConsistent P.log P.state.store) ?_ ?_ reach
  · refine ⟨fun v listed => ?_, fun f stored => ?_⟩
    · cases listed
    · cases stored
  · intro P Q reach now step
    cases step with
    | spawn t req free => exact now
    | exec t req op next pending enabled allowed =>
      exact indexConsistent_exec (e := ⟨t, op, P.state⟩) now (factsKeyed_run reach) allowed

/-- Vectors of one coordinate. -/
def vectorConfig : HubConfig := { demoConfig with vecDim := 1 }

/-- A program of one call. -/
def oneCall (op : HubCall) : Prog (hubMachine vectorConfig) Unit := .call op fun _ => .ret ()

abbrev CallPool := Pool (hubMachine vectorConfig) HubCall Unit

/-- Make the calls one after the other. -/
def callActions : Nat → List HubCall → List (Pool.Action HubCall)
  | _, [] => []
  | t, op :: ops => .spawn t op :: .step t :: callActions (t + 1) ops

def callPlay (ops : List HubCall) : CallPool := (Pool.start demoHub).play oneCall (callActions 0 ops)

/-- The fact under a key, with an embedding, written again with another. -/
def rewrittenFact : CallPool :=
  callPlay [.remember "A" ⟨some "k", "old", none⟩ 1 (some [10]) none,
    .remember "A" ⟨some "k", "new", none⟩ 2 (some [20]) none, .pruneFacts 0]

/-- The decision procedure of `leavesNoVector`. -/
def leavesNoVectorCheck (h : HubState) : HubCall → Bool
  | .remember author fact _ none _ =>
      match h.store.overwritten author fact with
      | some row => !h.store.indexes row || fact.text = row.text
      | none => true
  | .deleteRoom room owner => !h.store.roomOwnedBy room owner ||
      h.store.facts.all (fun f => !(f.room = some room) || !h.store.indexes f)
  | _ => true

theorem leavesNoVector_of_check {h : HubState} {op : HubCall} (passed : leavesNoVectorCheck h op = true) :
    leavesNoVector h op := by
  cases op with
  | remember author fact ts embedding model =>
    cases embedding with
    | some emb => trivial
    | none =>
      intro row overwritten indexed
      simpa [leavesNoVectorCheck, overwritten, indexed] using passed
  | deleteRoom room owner =>
    intro owned f stored inside
    have checked := passed
    simp only [leavesNoVectorCheck, owned, Bool.not_true, Bool.false_or, List.all_eq_true] at checked
    simpa [inside] using checked f stored
  | _ => trivial

theorem vectors_consistent_unless_stale_demo :
    rewrittenFact.state.store.vecFacts = [⟨1, [20]⟩] ∧
      ∃ f ∈ rewrittenFact.state.store.facts, f.id = 1 ∧ f.text = "new" := by
  have sound : ∀ (P : CallPool) (t : Nat) (op : HubCall), leavesNoVectorCheck P.state op = true →
      noStaleVectors P t op := fun _ _ _ passed => leavesNoVector_of_check passed
  have reach : Pool.Reachable oneCall noStaleVectors demoHub rewrittenFact :=
    Pool.play_reachable_of_checks oneCall sound .refl (by decide +kernel)
  have vectors : rewrittenFact.state.store.vecFacts = [⟨1, [20]⟩] := by decide +kernel
  have consistent := vectors_consistent_unless_stale reach
  refine ⟨vectors, ?_⟩
  obtain ⟨f, stored, own, -⟩ := consistent.refers ⟨1, [20]⟩ (by rw [vectors]; simp)
  refine ⟨f, stored, own, ?_⟩
  have texts : ∀ f ∈ rewrittenFact.state.store.facts, f.text = "new" := by decide +kernel
  exact texts f stored

/-- The fact under a key, with an embedding, written again without one. -/
def staleVector : CallPool :=
  callPlay [.remember "A" ⟨some "k", "old", none⟩ 1 (some [10]) none,
    .remember "A" ⟨some "k", "new", none⟩ 2 none none]

/-- A run after which the vector of the old text stands for the new one. -/
theorem overwrite_leaves_stale_vector :
    Pool.Reachable oneCall Pool.anySchedule demoHub staleVector ∧
      ¬ IndexConsistent staleVector.log staleVector.state.store := by
  refine ⟨Pool.play_reachable _ _ _, ?_⟩
  intro consistent
  have listed : (⟨1, [10]⟩ : VecRow) ∈ staleVector.state.store.vecFacts := by decide +kernel
  obtain ⟨f, stored, own, w, last, text, -⟩ := consistent.refers _ listed
  have texts : ∀ f ∈ staleVector.state.store.facts, f.text = "new" := by decide +kernel
  have first : (lastEmbedded staleVector.log 1).map FactWrite.text = some "old" := by decide +kernel
  rw [show f.id = 1 from own] at last
  rw [last, Option.map_some, text, texts f stored] at first
  exact absurd first (by decide)

end Parler.Hub
