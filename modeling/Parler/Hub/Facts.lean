import Mathlib.Data.List.Pairwise
import Parler.Hub.Specs

/-!
# The facts of a store

What a call may do to the fact table: it deletes rows, inserts one under the next id, or rewrites
the one row of an author, a room and a key. Ids are never used again and a key names at most one
row of its author and room.
-/

namespace Parler.Hub

open Parler.Lib Parler.Protocol

namespace Store

variable {s : Store}

/-- A keyed fact with its text, time and model replaced. -/
def rewriteFact (fact : Fact) (ts : Int) (model : Option String) (f : FactRow) : FactRow :=
  { f with text := fact.text, ts := ts, embeddingModel := model }

/-- The keyed row that the write of a fact would overwrite. -/
def overwritten (s : Store) (author : String) (fact : Fact) : Option FactRow :=
  fact.key.bind (fun key => s.facts.find? (sameKeyedFact author key fact.room))

theorem sameKeyedFact_iff {author key : String} {room : Option String} {f : FactRow} :
    sameKeyedFact author key room f = true ↔
      f.author = author ∧ roomOrEmpty f.room = roomOrEmpty room ∧ f.key = some key := by
  simp [sameKeyedFact]

/-- A write inserts a row under the next id, or rewrites the rows of its author, room and key. -/
theorem writeFact_cases (s : Store) (author : String) (fact : Fact) (ts : Int)
    (model : Option String) :
    ((s.overwritten author fact = none ∧ ∀ key, fact.key = some key → ∀ f ∈ s.facts,
        sameKeyedFact author key fact.room f = false) ∧
      s.writeFact author fact ts model =
        (s.factSeq + 1, s.insertFact fact.key fact.room author fact.text ts model)) ∨
    ∃ key row, s.overwritten author fact = some row ∧ fact.key = some key ∧ row ∈ s.facts ∧
      sameKeyedFact author key fact.room row = true ∧
      s.writeFact author fact ts model = (row.id, { s with
        facts := updateWhere (fun f => sameKeyedFact author key fact.room f)
          (rewriteFact fact ts model) s.facts }) := by
  unfold writeFact overwritten
  cases named : fact.key with
  | none => exact Or.inl ⟨⟨rfl, fun key impossible => (nomatch impossible)⟩, rfl⟩
  | some key =>
    simp only [Option.bind_some]
    cases found : s.facts.find? (sameKeyedFact author key fact.room) with
    | none =>
      refine Or.inl ⟨⟨rfl, ?_⟩, rfl⟩
      intro key' same f listed
      cases same
      simpa using List.find?_eq_none.mp found f listed
    | some row =>
      exact Or.inr ⟨key, row, rfl, rfl, List.mem_of_find?_eq_some found, List.find?_some found, rfl⟩

/-- Ids increase in insertion order, and a key names one row of its author and room. -/
structure FactsKeyed (s : Store) : Prop where
  increasing : s.facts.Pairwise (fun f g => f.id < g.id)
  bounded : ∀ f ∈ s.facts, f.id ≤ s.factSeq
  distinct : s.facts.Pairwise (fun f g => f.author = g.author → f.key.isSome = true →
    f.key = g.key → roomOrEmpty f.room ≠ roomOrEmpty g.room)

/-- Two facts of one id are the same fact. -/
theorem FactsKeyed.eq_of_id (keyed : s.FactsKeyed) {f g : FactRow} (listed : f ∈ s.facts)
    (listed' : g ∈ s.facts) (same : f.id = g.id) : f = g := by
  have ids : (s.facts.map FactRow.id).Nodup :=
    List.pairwise_map.mpr (keyed.increasing.imp (fun below => ne_of_lt below))
  exact List.inj_on_of_nodup_map ids listed listed' same

/-- Two facts of one author, room and key are the same fact. -/
theorem FactsKeyed.eq_of_key (keyed : s.FactsKeyed) {f g : FactRow} (listed : f ∈ s.facts)
    (listed' : g ∈ s.facts) {author key : String} {room : Option String}
    (own : sameKeyedFact author key room f = true) (own' : sameKeyedFact author key room g = true) :
    f = g := by
  obtain ⟨author_f, room_f, key_f⟩ := sameKeyedFact_iff.mp own
  obtain ⟨author_g, room_g, key_g⟩ := sameKeyedFact_iff.mp own'
  have symmetric : Std.Symm (fun f g : FactRow => f.author = g.author → f.key.isSome = true →
      f.key = g.key → roomOrEmpty f.room ≠ roomOrEmpty g.room) := by
    refine ⟨?_⟩
    intro f g apart author isKeyed key
    exact (apart author.symm (key ▸ isKeyed) key.symm).symm
  by_contra different
  refine keyed.distinct.forall listed listed' different ?_ ?_ ?_ ?_
  · rw [author_f, author_g]
  · rw [key_f]
    rfl
  · rw [key_f, key_g]
  · rw [room_f, room_g]

/-- A rewrite touches the one row of its author, room and key. -/
theorem FactsKeyed.mem_rewritten (keyed : s.FactsKeyed) {author key : String} {room : Option String}
    {row : FactRow} (listed : row ∈ s.facts) (own : sameKeyedFact author key room row = true)
    {rewrite : FactRow → FactRow} {f : FactRow} :
    f ∈ updateWhere (fun f => sameKeyedFact author key room f) rewrite s.facts ↔
      (f ∈ s.facts ∧ f ≠ row) ∨ f = rewrite row := by
  rw [mem_updateWhere]
  constructor
  · rintro (⟨kept, other⟩ | ⟨f', kept, same, rfl⟩)
    · refine Or.inl ⟨kept, ?_⟩
      rintro rfl
      exact other own
    · rw [keyed.eq_of_key kept listed same own]
      exact Or.inr rfl
  · rintro (⟨kept, other⟩ | rfl)
    · exact Or.inl ⟨kept, fun same => other (keyed.eq_of_key kept listed same own)⟩
    · exact Or.inr ⟨row, listed, own, rfl⟩

/-- After a write the facts are the others as they were and the written one, whose id the write
    returned. -/
theorem FactsKeyed.mem_written (keyed : s.FactsKeyed) (author : String) (fact : Fact) (ts : Int)
    (model : Option String) : ∃ new : FactRow, new.id = (s.writeFact author fact ts model).1 ∧
      new.text = fact.text ∧ ∀ f, f ∈ (s.writeFact author fact ts model).2.facts ↔
        (f ∈ s.facts ∧ f.id ≠ new.id) ∨ f = new := by
  rcases s.writeFact_cases author fact ts model with ⟨-, equal⟩ | ⟨key, row, -, -, listed, own, equal⟩
  · rw [equal]
    refine ⟨⟨s.factSeq + 1, fact.key, fact.room, author, fact.text, ts, model⟩, rfl, rfl, ?_⟩
    intro f
    simp only [insertFact, List.mem_append, List.mem_singleton]
    refine or_congr_left (iff_self_and.mpr ?_)
    intro stored
    have below := keyed.bounded f stored
    omega
  · rw [equal]
    refine ⟨rewriteFact fact ts model row, rfl, rfl, ?_⟩
    intro f
    rw [keyed.mem_rewritten listed own]
    refine or_congr_left (and_congr_right ?_)
    intro stored
    refine not_congr ⟨fun same => by rw [same]; rfl, fun same => keyed.eq_of_id stored listed same⟩

theorem factsKeyed_filter (keyed : s.FactsKeyed) {s' : Store} (p : FactRow → Bool)
    (rows : s'.facts = s.facts.filter p) (seq : s'.factSeq = s.factSeq) : s'.FactsKeyed := by
  refine ⟨?_, ?_, ?_⟩
  · rw [rows]
    exact keyed.increasing.filter p
  · intro f listed
    rw [rows] at listed
    rw [seq]
    exact keyed.bounded f (List.mem_of_mem_filter listed)
  · rw [rows]
    exact keyed.distinct.filter p

theorem factsKeyed_insert (keyed : s.FactsKeyed) {author : String} {fact : Fact} {ts : Int}
    {model : Option String} (new : ∀ key, fact.key = some key → ∀ f ∈ s.facts,
      sameKeyedFact author key fact.room f = false) :
    (s.insertFact fact.key fact.room author fact.text ts model).FactsKeyed := by
  refine ⟨?_, ?_, ?_⟩
  · refine List.pairwise_append.mpr ⟨keyed.increasing, List.pairwise_singleton _ _, ?_⟩
    intro f listed g inserted
    rw [List.mem_singleton.mp inserted]
    have below := keyed.bounded f listed
    dsimp only
    omega
  · intro f listed
    rcases List.mem_append.mp listed with old | inserted
    · have below := keyed.bounded f old
      simp only [insertFact]
      omega
    · rw [List.mem_singleton.mp inserted]
      exact le_refl _
  · refine List.pairwise_append.mpr ⟨keyed.distinct, List.pairwise_singleton _ _, ?_⟩
    intro f listed g inserted author_eq isKeyed key_eq room_eq
    rw [List.mem_singleton.mp inserted] at author_eq key_eq room_eq
    obtain ⟨key, named⟩ := Option.isSome_iff_exists.mp isKeyed
    have absent := new key (key_eq.symm.trans named) f listed
    rw [sameKeyedFact_iff.mpr ⟨author_eq, room_eq, named⟩] at absent
    cases absent

theorem factsKeyed_rewrite (keyed : s.FactsKeyed) {p : FactRow → Prop} [DecidablePred p] (fact : Fact)
    (ts : Int) (model : Option String) :
    ({ s with facts := updateWhere p (rewriteFact fact ts model) s.facts } : Store).FactsKeyed := by
  have id_eq : ∀ f : FactRow, (if p f then rewriteFact fact ts model f else f).id = f.id := by
    intro f
    split <;> rfl
  have author_eq : ∀ f : FactRow, (if p f then rewriteFact fact ts model f else f).author = f.author := by
    intro f
    split <;> rfl
  have key_eq : ∀ f : FactRow, (if p f then rewriteFact fact ts model f else f).key = f.key := by
    intro f
    split <;> rfl
  have room_eq : ∀ f : FactRow, (if p f then rewriteFact fact ts model f else f).room = f.room := by
    intro f
    split <;> rfl
  refine ⟨?_, ?_, ?_⟩
  · refine List.pairwise_map.mpr (keyed.increasing.imp ?_)
    intro f g below
    rw [id_eq, id_eq]
    exact below
  · intro f listed
    obtain ⟨old, kept, rfl⟩ := List.mem_map.mp listed
    rw [id_eq]
    exact keyed.bounded old kept
  · refine List.pairwise_map.mpr (keyed.distinct.imp ?_)
    intro f g apart
    rw [author_eq, author_eq, key_eq, key_eq, room_eq, room_eq]
    exact apart

end Store

/-- What a call does to the facts: it selects among them, or writes one. -/
inductive FactChange (cfg : HubConfig) (op : HubCall) (s s' : Store) : Prop where
  | kept (p : FactRow → Bool) (rows : s'.facts = s.facts.filter p) (seq : s'.factSeq = s.factSeq)
  | wrote (author : String) (fact : Fact) (ts : Int) (embedding : Option (List UInt32))
      (model : Option String) (write : op = .remember author fact ts embedding model)
      (rows : s'.facts = (s.writeFact author fact ts model).2.facts)
      (seq : s'.factSeq = (s.writeFact author fact ts model).2.factSeq)

theorem factChange_exec (cfg : HubConfig) (op : HubCall) (h : HubState) :
    FactChange cfg op h.store (op.exec cfg h).2.store := by
  have same : ∀ s, s = h.store → FactChange cfg op h.store s := by
    rintro s rfl
    exact .kept (fun _ => true) (by simp) rfl
  by_cases written : TableName.facts ∈ op.writes
  · cases op with
    | remember author fact ts embedding model =>
      rcases h.tryStore_cases (h.store.remember cfg.vecDim author fact ts embedding model) with
        ⟨s, ok, equal⟩ | unchanged
      · obtain ⟨rows, rfl⟩ := Store.remember_ok ok
        rw [HubCall.exec, equal]
        exact .wrote author fact ts embedding model rfl rfl rfl
      · rw [HubCall.exec, unchanged]
        exact same _ rfl
    | deleteRoom room owner =>
      rcases h.tryStore_cases (h.store.deleteRoom room owner) with ⟨s, ok, equal⟩ | unchanged
      · rw [HubCall.exec, equal, (Store.deleteRoom_ok ok).2]
        exact .kept _ rfl rfl
      · rw [HubCall.exec, unchanged]
        exact same _ rfl
    | pruneFacts keep =>
      rcases h.store.pruneFacts_cases keep with unchanged | ⟨vecs, equal⟩
      · simp only [HubCall.exec, unchanged]
        exact same _ rfl
      · simp only [HubCall.exec, equal]
        exact .kept _ rfl rfl
    | _ => simp [HubCall.writes] at written
  · obtain ⟨rows, seq⟩ := exec_same cfg op h .facts written
    exact .kept (fun _ => true) (by simp [rows]) seq

theorem factsKeyed_exec (cfg : HubConfig) (op : HubCall) (h : HubState) (keyed : h.store.FactsKeyed) :
    (op.exec cfg h).2.store.FactsKeyed := by
  rcases factChange_exec cfg op h with ⟨p, rows, seq⟩ | ⟨author, fact, ts, -, model, -, rows, seq⟩
  · exact Store.factsKeyed_filter keyed p rows seq
  · have written : (h.store.writeFact author fact ts model).2.FactsKeyed := by
      rcases h.store.writeFact_cases author fact ts model with ⟨⟨-, new⟩, equal⟩ | ⟨key, row, -, -, -, -, equal⟩
      · rw [equal]
        exact Store.factsKeyed_insert keyed new
      · rw [equal]
        exact Store.factsKeyed_rewrite keyed fact ts model
    exact Store.factsKeyed_filter written (fun _ => true) (by simp [rows]) seq

/-- The facts of every run of the hub's calls are keyed, whatever programs make the calls. -/
theorem factsKeyed_run {cfg : HubConfig} {Req α : Type} {serve : Req → Prog (hubMachine cfg) α}
    {G : Pool (hubMachine cfg) Req α → Nat → HubCall → Prop} {inflight : Nat}
    {P : Pool (hubMachine cfg) Req α} (reach : Pool.Reachable serve G (.boot inflight) P) :
    P.state.store.FactsKeyed := by
  refine (reach.history (I := fun _ h => h.store.FactsKeyed) ?_ ?_).1
  · exact ⟨List.Pairwise.nil, by simp [HubState.boot, Store.empty], List.Pairwise.nil⟩
  · intro log e keyed
    exact factsKeyed_exec cfg e.op e.before keyed

end Parler.Hub
