import Parler.Hub.ReadIsolation

/-!
# What a recall may return

The access rule of the fact memory is written in the `WHERE` clauses of the text and key paths and
again in Rust over the fetched vector hits; the lists are then fused under string keys. The two
spellings agree, and every hit of every recall is a stored fact of the caller's scope.
-/

namespace Parler.Hub

open Parler.Lib Parler.Protocol Handler

variable {cfg : HubConfig}

namespace Store

variable (s : Store)

/-- The access rule: a fact of the requested room, or without one a fact of a room of the agent
    or an unroomed fact of its own. -/
def Recallable (agent : String) (room : Option String) (f : FactRow) : Prop :=
  match room with
  | some r => f.room = some r
  | none => (f.room = none ∧ f.author = agent) ∨ ∃ r, f.room = some r ∧ s.isMember r agent = true

theorem sqlScope_iff {agent : String} {room : Option String} {f : FactRow} :
    s.sqlScope agent room f = true ↔ s.Recallable agent room f := by
  cases room with
  | some r => simp [sqlScope, Recallable]
  | none =>
    simp only [sqlScope, Recallable, isMember, List.any_eq_true, decide_eq_true_eq]
    refine or_congr_right ?_
    constructor
    · rintro ⟨m, listed, own, inside⟩
      exact ⟨m.room, inside, m, listed, rfl, own⟩
    · rintro ⟨r, inside, m, listed, rfl, own⟩
      exact ⟨m, listed, own, inside⟩

/-- The `WHERE` clauses and the Rust filter accept the same facts. -/
theorem hitScope_eq_sqlScope (agent : String) (room : Option String) (f : FactRow) (score : Rat) :
    hitScope agent room (s.agentRooms agent room) (toHit f score) = s.sqlScope agent room f := by
  cases room with
  | some r => rfl
  | none =>
    rw [Bool.eq_iff_iff, sqlScope_iff]
    cases inside : f.room with
    | none => simp [hitScope, toHit, Recallable, inside]
    | some r =>
      simp only [hitScope, toHit, inside, agentRooms, Option.isNone_none, if_true, Option.any_some,
        List.contains_iff_mem, List.mem_map, List.mem_filter, decide_eq_true_eq, Recallable, isMember,
        List.any_eq_true, reduceCtorEq, false_and, false_or, Option.some.injEq]
      constructor
      · rintro ⟨m, ⟨listed, own⟩, rfl⟩
        exact ⟨m.room, rfl, m, listed, rfl, own⟩
      · rintro ⟨r', rfl, m, listed, rfl, own⟩
        exact ⟨m, ⟨listed, own⟩, rfl⟩

/-- The hit is a stored fact of the scope; its score is the path's own. -/
def Shows (agent : String) (room : Option String) (hit : RecallHit) : Prop :=
  ∃ f ∈ s.facts, hit = toHit f hit.score ∧ s.Recallable agent room f

variable {s} {agent : String} {room : Option String}

theorem Shows.rescored {hit : RecallHit} (shows : s.Shows agent room hit) (score : Rat) :
    s.Shows agent room { hit with score := score } := by
  obtain ⟨f, stored, same, within⟩ := shows
  refine ⟨f, stored, ?_, within⟩
  rw [same]
  rfl

theorem recallByKey_shows {key : String} {limit : Option Nat} {hit : RecallHit}
    (listed : hit ∈ s.recallByKey agent key room limit) : s.Shows agent room hit := by
  obtain ⟨f, taken, rfl⟩ := List.mem_map.mp listed
  have kept := List.mem_filter.mp ((List.mem_insertionSort _).mp (List.mem_of_mem_take taken))
  exact ⟨f, kept.1, rfl, s.sqlScope_iff.mp (of_decide_eq_true kept.2).2⟩

theorem recallFts_shows {ext : Externals} {query : String} {lim : Nat} {hit : RecallHit}
    (listed : hit ∈ s.recallFts ext agent query room lim) : s.Shows agent room hit := by
  have ranked := (List.mem_insertionSort _).mp (List.mem_of_mem_take listed)
  obtain ⟨f, kept, matched⟩ := List.mem_filterMap.mp ranked
  obtain ⟨score, -, rfl⟩ := Option.map_eq_some_iff.mp matched
  obtain ⟨stored, within⟩ := List.mem_filter.mp kept
  exact ⟨f, stored, rfl, s.sqlScope_iff.mp within⟩

theorem recallVec_shows {ext : Externals} {embedding : List UInt32} {lim : Nat} {hit : RecallHit}
    (listed : hit ∈ s.recallVec ext agent embedding room lim) : s.Shows agent room hit := by
  obtain ⟨fetched, within⟩ := List.mem_filter.mp (List.mem_of_mem_take listed)
  obtain ⟨near, -, joined⟩ := List.mem_filterMap.mp fetched
  obtain ⟨f, found, rfl⟩ := Option.map_eq_some_iff.mp joined
  rw [hitScope_eq_sqlScope] at within
  exact ⟨f, List.mem_of_find?_eq_some found, rfl, s.sqlScope_iff.mp within⟩

end Store

/-! ## The fusion -/

section Fusion

variable {Q : RecallHit → Prop} (rescored : ∀ hit score, Q hit → Q { hit with score := score })

include rescored

theorem rrfAdd_mem {scores : List (String × RecallHit)} {key : String} {hit : RecallHit} {rank : Nat}
    (old : ∀ e ∈ scores, Q e.2) (new : Q hit) : ∀ e ∈ rrfAdd scores key hit rank, Q e.2 := by
  intro e listed
  rcases mem_of_mem_upsert listed with kept | rfl | ⟨r, kept, -, rfl⟩
  · exact old e kept
  · exact rescored hit _ new
  · exact rescored r.2 _ (old r kept)

/-- A ranked list adds only its own hits, under some score. -/
theorem rrfAddAll_mem {hits : List RecallHit} {scores out : List (String × RecallHit)}
    (old : ∀ e ∈ scores, Q e.2) (new : ∀ hit ∈ hits, Q hit) (added : rrfAddAll hits scores = some out) :
    ∀ e ∈ out, Q e.2 := by
  have ranked : ∀ entry ∈ hits.zipIdx, Q entry.1 := by
    intro entry listed
    exact new entry.1 (List.fst_mem_of_mem_zipIdx listed)
  unfold rrfAddAll at added
  generalize hits.zipIdx = entries at added ranked
  induction entries generalizing scores with
  | nil =>
    cases added
    exact old
  | cons entry entries ih =>
    rw [List.foldlM_cons] at added
    cases keyed : hitKey entry.1 with
    | none =>
      rw [keyed] at added
      cases added
    | some key =>
      rw [keyed] at added
      refine ih (rrfAdd_mem rescored old (ranked entry List.mem_cons_self)) added ?_
      exact fun entry' later => ranked entry' (List.mem_cons_of_mem _ later)

theorem rrfFuse_mem {fts vec hits : List RecallHit} {limit : Nat} (texts : ∀ hit ∈ fts, Q hit)
    (vectors : ∀ hit ∈ vec, Q hit) (fused : rrfFuse fts vec limit = some hits) : ∀ hit ∈ hits, Q hit := by
  unfold rrfFuse at fused
  cases first : rrfAddAll fts [] with
  | none =>
    rw [first] at fused
    cases fused
  | some one =>
    cases second : rrfAddAll vec one with
    | none =>
      rw [first] at fused
      simp [second] at fused
    | some both =>
      rw [first] at fused
      simp only [Option.pure_def, Option.bind_eq_bind, Option.bind_some, second, Option.some.injEq] at fused
      intro hit listed
      rw [← fused] at listed
      have merged := (List.mem_insertionSort _).mp (List.mem_of_mem_take listed)
      obtain ⟨e, kept, rfl⟩ := List.mem_map.mp merged
      have fromTexts := rrfAddAll_mem rescored (by simp) texts first
      exact rrfAddAll_mem rescored fromTexts vectors second e kept

end Fusion

namespace Store

/-- Every hit of a recall is a stored fact of the scope. -/
theorem recall_shows {s : Store} {ext : Externals} {vecDim : Nat} {agent query : String}
    {room : Option String} {limit : Option Nat} {embedding : Option (List UInt32)}
    {hits : List RecallHit} (ok : s.recall ext vecDim agent query room limit embedding = .ok hits)
    {hit : RecallHit} (listed : hit ∈ hits) : s.Shows agent room hit := by
  have texts : ∀ hit ∈ (if (buildFtsQuery ext query).isEmpty then []
      else s.recallFts ext agent (buildFtsQuery ext query) room (recallLimit limit)),
      s.Shows agent room hit := by
    intro hit listed
    split at listed
    · cases listed
    · exact recallFts_shows listed
  unfold «recall» at ok
  dsimp only at ok
  generalize (if (buildFtsQuery ext query).isEmpty then []
    else s.recallFts ext agent (buildFtsQuery ext query) room (recallLimit limit)) = fts at ok texts
  cases embedding with
  | none =>
    obtain rfl := Except.ok.inj ok
    exact texts hit listed
  | some emb =>
    dsimp only at ok
    split at ok
    · cases ok
    · split at ok
      · obtain rfl := Except.ok.inj ok
        exact texts hit listed
      · split at ok
        · obtain rfl := Except.ok.inj ok
          exact recallVec_shows listed
        · split at ok
          · rename_i fused
            obtain rfl := Except.ok.inj ok
            exact rrfFuse_mem (fun _ score shows => shows.rescored score) texts
              (fun _ fetched => recallVec_shows fetched) fused hit listed
          · cases ok

end Store

/-! ## The request -/

/-- The store read of a recall, with the hits it returned. -/
def RecallRead (me : Authed) (query : String) (room : Option String) (limit : Option Nat)
    (embedding : Option (List UInt32)) (hits : List RecallHit) (d : HubDone cfg) : Prop :=
  d = ⟨.recall me.id query room limit embedding, .ok hits⟩ ∨
    ∃ key, d = ⟨.recallByKey me.id key room limit, hits⟩

/-- A recall answers with the hits of its one read, made after the check of the room. -/
def recalledHits (req : Request) (frames : List ServerFrame) (past : List (HubDone cfg)) : Prop :=
  ∀ me query room limit embedding key fresh upload rounds,
    req = .frame me (.recall query room limit embedding key) fresh upload rounds →
      ∀ hits, .recalled hits ∈ frames → ∃ d earlier, past = d :: earlier ∧
        RecallRead me query room limit embedding hits d ∧
        ∀ r, room = some r → Confirmed r me.id earlier

section Request

variable (me : Authed) (query : String) (room : Option String) (limit : Option Nat)
  (embedding : Option (List UInt32)) (key : Option String)

theorem handleRecall_hits (past : List (HubDone cfg)) :
    (handleRecall cfg me query room limit embedding key).Ends (fun frame past =>
      ∃ hits d earlier, frame = .recalled hits ∧ past = d :: earlier ∧
        RecallRead me query room limit embedding hits d ∧
        ∀ r, room = some r → Confirmed r me.id earlier) past := by
  -- The read, once the room is known to be the caller's.
  have reads : ∀ past : List (HubDone cfg), (∀ r, room = some r → Confirmed r me.id past) →
      (match key.filter (fun k => !k.isEmpty) with
        | some k => do
            let hits ← call (.recallByKey me.id k room limit)
            return .recalled hits
        | none => do
            let hits ← check (← call (.recall me.id query room limit embedding))
            return .recalled hits : Handler cfg ServerFrame).Ends (fun frame past =>
        ∃ hits d earlier, frame = .recalled hits ∧ past = d :: earlier ∧
          RecallRead me query room limit embedding hits d ∧
          ∀ r, room = some r → Confirmed r me.id earlier) past := by
    intro past confirmed
    split
    · rename_i k _
      intro hits frame same
      cases same
      exact ⟨hits, _, past, rfl, rfl, Or.inr ⟨k, rfl⟩, confirmed⟩
    · intro outcome
      cases outcome with
      | error e => exact fun frame impossible => nomatch impossible
      | ok hits =>
        intro frame same
        cases same
        exact ⟨hits, _, past, rfl, rfl, Or.inl rfl, confirmed⟩
  unfold handleRecall
  cases room with
  | none => exact reads past (fun r impossible => (nomatch impossible))
  | some r =>
    simp only [requireMember, bind_bind, ite_bind, fail_bind, return_bind, ends_call_bind, ends_ite,
      ends_fail, implies_true, true_and]
    intro member inside
    obtain rfl : member = true := by simpa using inside
    refine reads _ ?_
    intro r' same
    cases same
    exact List.mem_cons_self

theorem handleRecall_run {h : HubState} {frame : ServerFrame}
    (ok : ((handleRecall cfg me query room limit embedding key).prog.run h).1 = .ok frame) :
    (∀ r, room = some r → h.store.isMember r me.id = true) ∧
      ∀ hits, frame = .recalled hits → ∀ hit ∈ hits, h.store.Shows me.id room hit := by
  have reads : ((match key.filter (fun k => !k.isEmpty) with
        | some k => do
            let hits ← call (.recallByKey me.id k room limit)
            return .recalled hits
        | none => do
            let hits ← check (← call (.recall me.id query room limit embedding))
            return .recalled hits : Handler cfg ServerFrame).prog.run h).1 = .ok frame →
      ∀ hits, frame = .recalled hits → ∀ hit ∈ hits, h.store.Shows me.id room hit := by
    intro ok hits same hit listed
    subst same
    split at ok
    · rw [run_call_bind] at ok
      cases Except.ok.inj ok
      exact Store.recallByKey_shows listed
    · rw [run_call_bind] at ok
      cases outcome : h.store.recall cfg.ext cfg.vecDim me.id query room limit embedding with
      | error e =>
        simp only [HubCall.exec, outcome] at ok
        cases ok
      | ok found =>
        simp only [HubCall.exec, outcome] at ok
        cases Except.ok.inj ok
        exact Store.recall_shows outcome listed
  unfold handleRecall at ok
  cases room with
  | none => exact ⟨fun r impossible => (nomatch impossible), reads ok⟩
  | some r =>
    simp only [requireMember, bind_bind, ite_bind, fail_bind, return_bind] at ok
    rw [run_call_bind] at ok
    cases member : h.store.isMember r me.id with
    | false =>
      simp only [HubCall.exec, member] at ok
      cases ok
    | true =>
      simp only [HubCall.exec, member] at ok
      refine ⟨?_, reads ok⟩
      intro r' same
      cases same
      exact member

end Request

theorem errorFrame_recalledHits (req : Request) (e : Failure) (past : List (HubDone cfg)) :
    recalledHits req (errorFrame e) past := by
  intro me query room limit embedding key fresh upload rounds _ hits listed
  cases e <;> simp [errorFrame] at listed

theorem serve_recalledHits (cardBytes : AgentCard → List UInt8) (req : Request) :
    (serve cfg cardBytes req).Ends (recalledHits req) [] := by
  by_cases recalls : ∃ me query room limit embedding key fresh upload rounds,
      req = .frame me (.recall query room limit embedding key) fresh upload rounds
  · obtain ⟨me, query, room, limit, embedding, key, fresh, upload, rounds, rfl⟩ := recalls
    intro now allowed
    dsimp only
    split
    · split
      · exact errorFrame_recalledHits _ _ _
      · refine Prog.Ends.bind (handleRecall_hits me query room limit embedding key _) ?_
        intro r past ends
        cases r with
        | error e => exact errorFrame_recalledHits _ e past
        | ok frame =>
          obtain ⟨hits, d, earlier, rfl, rfl, read, confirmed⟩ := ends frame rfl
          rintro _ _ _ _ _ _ _ _ _ ⟨⟩ hits' listed
          simp only [replies, List.mem_singleton, ServerFrame.recalled.injEq] at listed
          subst listed
          exact ⟨d, earlier, rfl, read, confirmed⟩
    · exact errorFrame_recalledHits _ _ _
  · refine Prog.Ends.of_grows (I := fun _ => True) (fun _ _ _ => trivial) ?_ _ trivial
    intro frames past _ me query room limit embedding key fresh upload rounds same
    exact absurd ⟨me, query, room, limit, embedding, key, fresh, upload, rounds, same⟩ recalls

/-- The fact is the caller's to see: in the requested room or, without one, in a room that `inside`
    says is the caller's, or unroomed and its own. -/
def CallersFact (inside : String → Prop) (agent : String) (room : Option String) (f : FactRow) : Prop :=
  (∃ r, f.room = some r ∧ (∀ asked, room = some asked → asked = r) ∧ inside r) ∨
    (room = none ∧ f.room = none ∧ f.author = agent)

theorem Store.Shows.callersFact {s : Store} {agent : String} {room : Option String} {hit : RecallHit}
    {inside : String → Prop} (shows : s.Shows agent room hit)
    (asked : ∀ r, room = some r → inside r) (own : ∀ r, s.isMember r agent = true → inside r) :
    ∃ f ∈ s.facts, hit = Store.toHit f hit.score ∧ CallersFact inside agent room f := by
  obtain ⟨f, stored, same, within⟩ := shows
  refine ⟨f, stored, same, ?_⟩
  cases room with
  | some r =>
    refine Or.inl ⟨r, within, ?_, asked r rfl⟩
    intro r' same
    exact (Option.some.inj same).symm
  | none =>
    rcases within with ⟨unroomed, mine⟩ | ⟨r, inRoom, member⟩
    · exact Or.inr ⟨rfl, unroomed, mine⟩
    · exact Or.inl ⟨r, inRoom, fun _ impossible => (nomatch impossible), own r member⟩

theorem run_charged {agent : String} {kind : RateKind} {now : Int}
    (served refused : Prog (hubMachine cfg) (List ServerFrame)) (h : HubState) :
    (Prog.call (.rateAllows agent kind now) fun (allowed : Bool) =>
        if allowed then served else refused : Prog (hubMachine cfg) _).run h =
      (if (h.rateAllows cfg agent kind now).1 then served else refused).run
        (h.rateAllows cfg agent kind now).2 := rfl

/-- A recall that a state of the hub answers shows facts of that state. -/
theorem recall_answer {cardBytes : AgentCard → List UInt8} {h : HubState} {me : Authed}
    {query : String} {room : Option String} {limit : Option Nat} {embedding : Option (List UInt32)}
    {key : Option String} {fresh : Fresh} {upload : Option (List UInt8)} {rounds : Nat}
    {hits : List RecallHit}
    (answers : .recalled hits ∈ ((serve cfg cardBytes
      (.frame me (.recall query room limit embedding key) fresh upload rounds)).run h).1) :
    ∀ hit ∈ hits, ∃ f ∈ h.store.facts, hit = Store.toHit f hit.score ∧
      CallersFact (fun r => h.store.isMember r me.id = true) me.id room f := by
  have errors : ∀ e, .recalled hits ∉ errorFrame e := by
    intro e listed
    cases e <;> simp [errorFrame] at listed
  -- The rate window is no part of the store.
  have same : (h.rateAllows cfg me.id .operation h.clock).2.store = h.store := rfl
  unfold serve dispatch at answers
  rw [Prog.run_call, run_charged] at answers
  replace answers : _ ∈ (Prog.run (ite ((h.rateAllows cfg me.id .operation h.clock).1 = true) _ _)
    (h.rateAllows cfg me.id .operation h.clock).2).1 := answers
  intro hit listed
  by_cases allowed : (h.rateAllows cfg me.id .operation h.clock).1 = true
  · rw [if_pos allowed] at answers
    split at answers
    · exact absurd answers (errors _)
    · rw [Prog.run_bind] at answers
      cases ran : ((handleRecall cfg me query room limit embedding key).prog.run
          (h.rateAllows cfg me.id .operation h.clock).2).1 with
      | error e =>
        unfold handleFrame at answers
        rw [ran] at answers
        exact absurd answers (errors e)
      | ok frame =>
        unfold handleFrame at answers
        rw [ran] at answers
        obtain ⟨member, shows⟩ := handleRecall_run me query room limit embedding key ran
        rw [same] at member shows
        have listed := shows hits (List.mem_singleton.mp answers).symm hit listed
        exact listed.callersFact member (fun _ inside => inside)
  · rw [if_neg allowed] at answers
    exact absurd answers (errors (.coded _ _))

section Runs

variable {cardBytes : AgentCard → List UInt8} {inflight : Nat} {P : HubPool cfg}
  {G : HubPool cfg → Nat → HubCall → Prop}

/-- The read of a recall shows facts of the state it found. -/
theorem recallRead_shows {me : Authed} {query : String} {room : Option String} {limit : Option Nat}
    {embedding : Option (List UInt32)} {hits : List RecallHit} {e : HubEvent cfg}
    (read : RecallRead me query room limit embedding hits (⟨e.op, e.result⟩ : HubDone cfg)) :
    ∀ hit ∈ hits, e.before.store.Shows me.id room hit := by
  obtain ⟨t, op, h⟩ := e
  intro hit listed
  rcases read with same | ⟨key, same⟩
  · obtain ⟨rfl, result⟩ := Sigma.mk.inj same
    exact Store.recall_shows (eq_of_heq result) listed
  · obtain ⟨rfl, result⟩ := Sigma.mk.inj same
    rw [← eq_of_heq result] at listed
    exact Store.recallByKey_shows listed

/-- A membership that a request has confirmed lasts until the room is deleted. -/
theorem confirmed_isMember (reach : Pool.Reachable (serve cfg cardBytes) G (.boot inflight) P)
    {newer older : List (HubEvent cfg)} {e : HubEvent cfg} (split : P.log = newer ++ e :: older)
    {r agent : String} (confirmed : Confirmed r agent (Pool.ownPast older e.thread)) :
    (∃ c ∈ older, c.thread = e.thread ∧ c.before.store.isMember r agent = true) ∧
      (e.before.store.isMember r agent = true ∨ DeletedSinceCheck older e.thread r agent) := by
  obtain ⟨c, logged, own, op, after⟩ := confirmed_event confirmed
  refine ⟨⟨c, logged, own, ?_⟩, ?_⟩
  · obtain ⟨u, _, h⟩ := c
    cases op
    exact after
  · by_cases deleted : DeletedSinceCheck older e.thread r agent
    · exact Or.inr deleted
    · obtain ⟨P', req, next, reach', rfl, state, -⟩ := reach.event split
      obtain ⟨newer', older', split'⟩ := List.append_of_mem logged
      refine Or.inl (state ▸ reach'.since (J := fun h => h.store.isMember r agent = true) split' after ?_)
      intro e' later before
      refine isMember_after before ?_
      intro deletes
      exact deleted ⟨newer', c, older', split', own, op, e', later, deletes⟩

/-- Recalls keep to their scope. Whatever state of the hub answers a recall, every hit is a fact stored
    there, in a room of which the caller is a member (the requested one, if any) or unroomed and the
    caller's own. With other requests in between, every hit is such a fact of the state that the request
    read, and of its room the caller was found a member by the same request, and still is one unless the
    room was deleted since. The two spellings of the scope accept the same facts. -/
theorem recalls_scoped (reach : Pool.Reachable (serve cfg cardBytes) G (.boot inflight) P) :
    (∀ me query room limit embedding key fresh upload rounds hits,
      .recalled hits ∈ ((serve cfg cardBytes
        (.frame me (.recall query room limit embedding key) fresh upload rounds)).run P.state).1 →
      ∀ hit ∈ hits, ∃ f ∈ P.state.store.facts, hit = Store.toHit f hit.score ∧
        CallersFact (fun r => P.state.store.isMember r me.id = true) me.id room f) ∧
    (∀ t me query room limit embedding key fresh upload rounds frames hits,
      P.answer t = some (.frame me (.recall query room limit embedding key) fresh upload rounds, frames) →
      .recalled hits ∈ frames → ∃ newer e older, P.log = newer ++ e :: older ∧ e.thread = t ∧
        ∀ hit ∈ hits, ∃ f ∈ e.before.store.facts, hit = Store.toHit f hit.score ∧
          CallersFact (fun r =>
            (∃ c ∈ e :: older, c.thread = t ∧ c.before.store.isMember r me.id = true) ∧
              (e.before.store.isMember r me.id = true ∨ DeletedSinceCheck older t r me.id)) me.id room f) ∧
    ∀ (s : Store) agent room f score,
      Store.hitScope agent room (s.agentRooms agent room) (Store.toHit f score) = s.sqlScope agent room f := by
  refine ⟨?_, ?_, fun s => s.hitScope_eq_sqlScope⟩
  · intro me query room limit embedding key fresh upload rounds hits answers
    exact recall_answer answers
  · intro t me query room limit embedding key fresh upload rounds frames hits answers listed
    obtain ⟨d, earlier, past, read, confirmed⟩ :=
      reach.ends (serve_recalledHits cardBytes) (Pool.answer_eq answers) me query room limit embedding key
        fresh upload rounds rfl hits listed
    have past : Pool.ownPast P.log t = [] ++ d :: earlier := past
    obtain ⟨newer, e, older, split, rfl, same, -, before⟩ := Pool.ownPast_split past
    refine ⟨newer, e, older, split, rfl, ?_⟩
    intro hit listed
    rw [← same] at read
    refine (recallRead_shows read hit listed).callersFact ?_ ?_
    · intro r asked
      obtain ⟨⟨c, logged, own, member⟩, still⟩ :=
        confirmed_isMember reach split (before ▸ confirmed r asked)
      exact ⟨⟨c, List.mem_cons_of_mem _ logged, own, member⟩, still⟩
    · intro r member
      exact ⟨⟨e, List.mem_cons_self, rfl, member⟩, Or.inl member⟩

end Runs

/-- Alice keeps a note of her own and one in a room of hers; Bob keeps one, too. -/
def recallDemo : DemoPool :=
  demoPlay [demoFrame 1 alice (.invite .channel (some "r") none none false),
    demoFrame 2 alice (.remember ⟨some "k", "mine", none⟩ none none),
    demoFrame 3 bob (.remember ⟨some "k", "his", none⟩ none none),
    demoFrame 4 alice (.remember ⟨some "k", "ours", some "r"⟩ none none)]

theorem recalls_scoped_demo :
    ∃ hits, .recalled hits ∈ ((demoServe (demoFrame 5 alice (.recall "" none none none (some "k")))).run
        recallDemo.state).1 ∧ hits.map RecallHit.text = ["mine", "ours"] ∧
      ∀ hit ∈ hits, ∃ f ∈ recallDemo.state.store.facts, hit = Store.toHit f hit.score ∧
        CallersFact (fun r => recallDemo.state.store.isMember r "A" = true) "A" none f := by
  have reach : Pool.Reachable demoServe Pool.anySchedule demoHub recallDemo := demoPlay_reachable _
  have answers : .recalled (recallDemo.state.store.recallByKey "A" "k" none none) ∈
      ((demoServe (demoFrame 5 alice (.recall "" none none none (some "k")))).run recallDemo.state).1 := by
    decide +kernel
  refine ⟨_, answers, by decide +kernel, ?_⟩
  exact (recalls_scoped reach).1 alice "" none none none (some "k") _ _ _ _ answers

end Parler.Hub
