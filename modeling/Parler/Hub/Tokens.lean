import Parler.Hub.Demo
import Parler.Hub.Footprint
import Parler.Hub.Integrity

/-!
# Capability tokens

Directory tokens and watch tokens share one table, told apart by a scope that holds
the name of the watched room. A row is in the table exactly as long as its mint says: from the mint
to its expiry, or to the deletion of the room it watches.
-/

namespace Parler.Hub

open Parler.Lib Parler.Protocol

variable {cfg : HubConfig}

namespace Store

theorem watchedRoom_some {scope room : String} (watched : watchedRoom scope = some room) :
    scope = watchScope room := by
  unfold watchedRoom at watched
  split at watched
  · rename_i matched
    obtain ⟨rest, same⟩ := List.isPrefixOf_iff_prefix.mp matched
    cases watched
    refine String.ext ?_
    rw [watchScope, String.toList_append, ← same]
    simp
  · cases watched

theorem watchScope_ne_hub (room : String) : watchScope room ≠ "hub" := by
  intro same
  have first := congrArg (fun s => s.toList.head?) same
  simp [watchScope] at first

end Store

/-- The call mints the row. -/
def Mints (row : TokenRow) : HubDone cfg → Prop
  | ⟨.mintDirectoryToken token scope expires creator made, .ok _⟩ =>
      row = ⟨token, scope, expires, creator, made⟩
  | ⟨.mintWatchToken token room owner expires made, .ok _⟩ =>
      row = ⟨token, watchScope room, expires, owner, made⟩
  | _ => False

theorem Mints.cases {row : TokenRow} {d : HubDone cfg} (mint : Mints row d) :
    d = ⟨.mintDirectoryToken row.token row.scope row.expires row.createdBy row.created, .ok ()⟩ ∨
      ∃ room, row.scope = watchScope room ∧
        d = ⟨.mintWatchToken row.token room row.createdBy row.expires row.created, .ok ()⟩ := by
  unfold Mints at mint
  split at mint
  · subst mint
    exact Or.inl rfl
  · subst mint
    exact Or.inr ⟨_, rfl, rfl⟩
  · exact mint.elim

/-- The call deletes the room that the row watches. -/
def revokes (row : TokenRow) : HubDone cfg → Bool
  | ⟨.deleteRoom room _, .ok _⟩ => row.scope = watchScope room
  | _ => false

theorem revokes_watch {row : TokenRow} {room : String} (scope : row.scope = watchScope room)
    (d : HubDone cfg) : revokes row d = deletesRoom room d := by
  obtain ⟨op, r⟩ := d
  cases op with
  | deleteRoom deleted owner =>
    cases r with
    | error e => rfl
    | ok _ =>
      have same : watchScope room = watchScope deleted ↔ deleted = room :=
        ⟨fun same => (Store.watchScope_injective same).symm, fun same => by rw [same]⟩
      simp [revokes, deletesRoom, scope, same]
  | _ => rfl

theorem revokes_hub {row : TokenRow} (scope : row.scope = "hub") (d : HubDone cfg) :
    revokes row d = false := by
  unfold revokes
  split
  · simpa [scope] using Ne.symm (Store.watchScope_ne_hub _)
  · rfl

/-- What a call does to the rows of tokens. -/
structure TokenStep (d : HubDone cfg) (s s' : Store) : Prop where
  /-- A row is an old one that was not revoked, or minted by the call. -/
  origin : ∀ row ∈ s'.directoryTokens,
    (row ∈ s.directoryTokens ∧ revokes row d = false) ∨ Mints row d
  minted : ∀ row, Mints row d → row ∈ s'.directoryTokens
  /-- An old row stays unless it is revoked, or swept after its expiry. -/
  kept : ∀ row ∈ s.directoryTokens, revokes row d = false →
    (∀ now, d.1 = .sweepExpired now → now ≤ row.expires) → row ∈ s'.directoryTokens
  keyed : (s.directoryTokens.map TokenRow.token).Nodup →
    (s'.directoryTokens.map TokenRow.token).Nodup

theorem tokenStep_same {d : HubDone cfg} {s s' : Store}
    (same : s'.directoryTokens = s.directoryTokens) (idle : ∀ row, revokes row d = false)
    (mints : ∀ row, ¬ Mints row d) : TokenStep d s s' := by
  refine ⟨?_, fun row mint => absurd mint (mints row), ?_, ?_⟩
  · rw [same]
    exact fun row member => Or.inl ⟨member, idle row⟩
  · rw [same]
    exact fun row member _ _ => member
  · rw [same]
    exact id

theorem tokenStep_insert {d : HubDone cfg} {s s' : Store} {row : TokenRow}
    (ok : s.insertToken row = .ok s') (idle : ∀ row, revokes row d = false)
    (mints : ∀ row', Mints row' d ↔ row' = row) : TokenStep d s s' := by
  have absent : ¬ s.directoryTokens.any (fun r => r.token = row.token) = true := by
    intro present
    rw [Store.insertToken, if_pos present] at ok
    cases ok
  obtain rfl := Store.insertToken_ok ok
  refine ⟨?_, ?_, ?_, ?_⟩
  · intro row' member
    rcases List.mem_append.mp member with old | new
    · exact Or.inl ⟨old, idle row'⟩
    · exact Or.inr ((mints row').mpr (List.mem_singleton.mp new))
  · intro row' mint
    exact List.mem_append_right _ (List.mem_singleton.mpr ((mints row').mp mint))
  · exact fun row' member _ _ => List.mem_append_left _ member
  · intro keyed
    show ((s.directoryTokens ++ [row]).map TokenRow.token).Nodup
    rw [List.map_append, List.nodup_append]
    refine ⟨keyed, by simp, ?_⟩
    intro key member other new
    obtain ⟨row', listed, rfl⟩ := List.mem_map.mp member
    rw [List.map_singleton, List.mem_singleton] at new
    intro same
    exact absent (List.any_eq_true.mpr ⟨row', listed, by simpa [new] using same⟩)

theorem tokenStep_delete {d : HubDone cfg} {s s' : Store} {p : TokenRow → Prop} [DecidablePred p]
    (rows : s'.directoryTokens = deleteWhere p s.directoryTokens) (mints : ∀ row, ¬ Mints row d)
    (taken : ∀ row, p row → revokes row d = true ∨ ∃ now, d.1 = .sweepExpired now ∧ row.expires < now)
    (revoked : ∀ row, revokes row d = true → p row) : TokenStep d s s' := by
  refine ⟨?_, fun row mint => absurd mint (mints row), ?_, ?_⟩
  · intro row member
    rw [rows, mem_deleteWhere] at member
    refine Or.inl ⟨member.1, ?_⟩
    exact Bool.eq_false_iff.mpr (fun revokes => member.2 (revoked row revokes))
  · intro row member unrevoked unswept
    rw [rows, mem_deleteWhere]
    refine ⟨member, fun takes => ?_⟩
    rcases taken row takes with revokes | ⟨now, sweeps, expired⟩
    · rw [unrevoked] at revokes
      cases revokes
    · have late := unswept now sweeps
      omega
  · rw [rows]
    exact nodup_deleteWhere

theorem tokenStep_exec (cfg : HubConfig) (op : HubCall) (h : HubState) :
    TokenStep (⟨op, (op.exec cfg h).1⟩ : HubDone cfg) h.store (op.exec cfg h).2.store := by
  cases op with
  | mintDirectoryToken token scope expires creator made =>
    simp only [HubCall.exec]
    cases ok : h.store.mintDirectoryToken token scope expires creator made with
    | error e => exact tokenStep_same rfl (fun _ => rfl) (fun _ mint => mint)
    | ok s => exact tokenStep_insert ok (fun _ => rfl) (fun _ => Iff.rfl)
  | mintWatchToken token room owner expires made =>
    simp only [HubCall.exec]
    cases ok : h.store.mintWatchToken token room owner expires made with
    | error e => exact tokenStep_same rfl (fun _ => rfl) (fun _ mint => mint)
    | ok s =>
      obtain ⟨owned, -⟩ := Store.mintWatchToken_ok ok
      rw [Store.mintWatchToken, if_pos owned] at ok
      exact tokenStep_insert ok (fun _ => rfl) (fun _ => Iff.rfl)
  | sweepExpired now =>
    refine tokenStep_delete (p := fun r => r.expires < now) rfl (fun _ mint => mint) ?_ ?_
    · exact fun row expired => Or.inr ⟨now, rfl, expired⟩
    · exact fun row revokes => nomatch revokes
  | deleteRoom room owner =>
    simp only [HubCall.exec]
    cases ok : h.store.deleteRoom room owner with
    | error e => exact tokenStep_same rfl (fun _ => rfl) (fun _ mint => mint)
    | ok s =>
      obtain ⟨-, rfl⟩ := Store.deleteRoom_ok ok
      refine tokenStep_delete (p := fun r => r.scope = watchScope room) rfl (fun _ mint => mint) ?_ ?_
      · exact fun row watches => Or.inl (decide_eq_true watches)
      · exact fun row revokes => of_decide_eq_true revokes
  | _ =>
    exact tokenStep_same (exec_same cfg _ h .directoryTokens (by simp [HubCall.writes]))
      (fun _ => rfl) (fun _ mint => mint)

section Runs

variable {cardBytes : AgentCard → List UInt8} {inflight : Nat} {P : HubPool cfg}
  {G : HubPool cfg → Nat → HubCall → Prop}

/-- Every row of the table was minted, and not revoked since. -/
theorem token_minted (reach : Pool.Reachable (serve cfg cardBytes) G (.boot inflight) P)
    {row : TokenRow} (member : row ∈ P.state.store.directoryTokens) :
    ∃ newer : List (HubEvent cfg), ∃ e older, P.log = newer ++ e :: older ∧
      Mints row (⟨e.op, e.result⟩ : HubDone cfg) ∧
      ∀ e ∈ newer, revokes row (⟨e.op, e.result⟩ : HubDone cfg) = false := by
  have origin := (reach.history (I := fun log h => ∀ row ∈ h.store.directoryTokens,
    ∃ newer : List (HubEvent cfg), ∃ e older, log = newer ++ e :: older ∧ Mints row (⟨e.op, e.result⟩ : HubDone cfg) ∧
      ∀ e ∈ newer, revokes row (⟨e.op, e.result⟩ : HubDone cfg) = false) ?_ ?_).1
  · exact origin row member
  · intro row member
    cases member
  · intro log e before row member
    rcases (tokenStep_exec cfg e.op e.before).origin row member with ⟨old, unrevoked⟩ | mint
    · obtain ⟨newer, first, older, rfl, mint, since⟩ := before row old
      refine ⟨e :: newer, first, older, rfl, mint, ?_⟩
      intro e' later
      rcases List.mem_cons.mp later with rfl | later
      · exact unrevoked
      · exact since e' later
    · exact ⟨[], e, log, rfl, mint, by simp⟩

/-- A minted row is in the table until it is revoked or swept after its expiry. -/
theorem token_lives (reach : Pool.Reachable (serve cfg cardBytes) G (.boot inflight) P)
    {newer older : List (HubEvent cfg)} {e : HubEvent cfg} (split : P.log = newer ++ e :: older)
    {row : TokenRow} (mint : Mints row (⟨e.op, e.result⟩ : HubDone cfg))
    (since : ∀ e ∈ newer, revokes row (⟨e.op, e.result⟩ : HubDone cfg) = false ∧
      ∀ now, e.op = .sweepExpired now → now ≤ row.expires) :
    row ∈ P.state.store.directoryTokens := by
  refine reach.since (J := fun h => row ∈ h.store.directoryTokens) split
    ((tokenStep_exec cfg e.op e.before).minted row mint) ?_
  intro e' later before
  exact (tokenStep_exec cfg e'.op e'.before).kept row before (since e' later).1 (since e' later).2

theorem tokens_keyed (reach : Pool.Reachable (serve cfg cardBytes) G (.boot inflight) P) :
    (P.state.store.directoryTokens.map TokenRow.token).Nodup :=
  (reach.history (I := fun _ h => (h.store.directoryTokens.map TokenRow.token).Nodup) (by
    simp [HubState.boot, Store.empty])
    (fun _ e keyed => (tokenStep_exec cfg e.op e.before).keyed keyed)).1

theorem token_unique (reach : Pool.Reachable (serve cfg cardBytes) G (.boot inflight) P)
    {row row' : TokenRow} (member : row ∈ P.state.store.directoryTokens)
    (member' : row' ∈ P.state.store.directoryTokens) (same : row.token = row'.token) : row = row' := by
  have found := rowOf_of_mem (tokens_keyed reach) member
  rw [same, rowOf_of_mem (tokens_keyed reach) member'] at found
  exact (Option.some.inj found).symm

theorem minted_owned (cfg : HubConfig) {h : HubState} {token room owner : String} {expires made : Int}
    (ok : (HubCall.exec cfg (.mintWatchToken token room owner expires made) h).1 = .ok ()) :
    h.store.roomOwnedBy room owner = true := by
  simp only [HubCall.exec] at ok
  cases minted : h.store.mintWatchToken token room owner expires made with
  | error e =>
    rw [minted] at ok
    cases ok
  | ok s => exact (Store.mintWatchToken_ok minted).1

theorem validateWatchToken_some {s : Store} {token room : String} {now : Int}
    (valid : s.validateWatchToken token now = some room) :
    ∃ row ∈ s.directoryTokens, row.token = token ∧ now ≤ row.expires ∧
      row.scope = watchScope room := by
  unfold Store.validateWatchToken at valid
  split at valid
  · rename_i row found
    split at valid
    · rename_i live
      refine ⟨row, List.mem_of_find?_eq_some found, ?_, live, Store.watchedRoom_some valid⟩
      simpa using List.find?_some found
    · cases valid
  · cases valid

theorem validateWatchToken_of_mem {s : Store} (keyed : (s.directoryTokens.map TokenRow.token).Nodup)
    {row : TokenRow} (member : row ∈ s.directoryTokens) {room : String}
    (scope : row.scope = watchScope room) {now : Int} (live : now ≤ row.expires) :
    s.validateWatchToken row.token now = some room := by
  have found : s.directoryTokens.find? (fun r => r.token = row.token) = some row :=
    rowOf_of_mem keyed member
  unfold Store.validateWatchToken
  rw [found]
  dsimp only
  rw [if_pos live, scope]
  exact Store.watchedRoom_watchScope room

theorem validateDirectoryToken_iff {s : Store}
    (keyed : (s.directoryTokens.map TokenRow.token).Nodup) {token : String} {now : Int} :
    s.validateDirectoryToken token now = true ↔
      ∃ row ∈ s.directoryTokens, row.token = token ∧ row.scope = "hub" ∧ now ≤ row.expires := by
  unfold Store.validateDirectoryToken
  cases found : s.directoryTokens.find? (fun r => r.token = token ∧ r.scope = "hub") with
  | none =>
    have absent := List.find?_eq_none.mp found
    refine ⟨fun impossible => (nomatch impossible), ?_⟩
    rintro ⟨row, member, own, hub, -⟩
    exact absurd (absent row member) (by simp [own, hub])
  | some r =>
    have member := List.mem_of_find?_eq_some found
    obtain ⟨own, hub⟩ : r.token = token ∧ r.scope = "hub" := by simpa using List.find?_some found
    refine ⟨fun live => ⟨r, member, own, hub, of_decide_eq_true live⟩, ?_⟩
    rintro ⟨row, member', own', -, live⟩
    have same := rowOf_of_mem keyed member
    rw [own, ← own', rowOf_of_mem keyed member'] at same
    cases same
    exact decide_eq_true live

/-- The frame that minted a row. -/
theorem minted_by (reach : Pool.Reachable (serve cfg cardBytes) G (.boot inflight) P)
    {e : HubEvent cfg} (logged : e ∈ P.log) {row : TokenRow}
    (mint : Mints row (⟨e.op, e.result⟩ : HubDone cfg)) :
    ∃ me, me.id = row.createdBy ∧
      ((row.scope = "hub" ∧ (∃ ttl, ServesFrame P e.thread me (.mintDirectoryToken ttl)) ∧
        (⟨e.op, e.result⟩ : HubDone cfg) =
          ⟨.mintDirectoryToken row.token "hub" row.expires me.id row.created, .ok ()⟩) ∨
      ∃ room, row.scope = watchScope room ∧
        (∃ ttl, ServesFrame P e.thread me (.mintWatch room ttl)) ∧
        e.before.store.roomOwnedBy room me.id = true ∧
        (⟨e.op, e.result⟩ : HubDone cfg) =
          ⟨.mintWatchToken row.token room me.id row.expires row.created, .ok ()⟩) := by
  obtain ⟨req, p, at_t, makes⟩ := log_makes reach logged
  obtain ⟨t, op, h⟩ := e
  rcases mint.cases with same | ⟨room, scope, same⟩
  · obtain ⟨rfl, result⟩ := Sigma.mk.inj same
    cases req with
    | frame me frame fresh upload rounds =>
      obtain ⟨own, -, hub, ttl, rfl⟩ := makes
      refine ⟨me, own.symm, Or.inl ⟨hub, ⟨ttl, fresh, upload, rounds, p, at_t⟩, ?_⟩⟩
      rw [← own, ← hub]
      exact same
    | _ => simp [Request.makes] at makes
  · obtain ⟨rfl, result⟩ := Sigma.mk.inj same
    cases req with
    | frame me frame fresh upload rounds =>
      obtain ⟨own, -, ttl, rfl⟩ := makes
      refine ⟨me, own.symm, Or.inr ⟨room, scope, ⟨ttl, fresh, upload, rounds, p, at_t⟩, ?_, ?_⟩⟩
      · rw [← own]
        exact minted_owned cfg (eq_of_heq result)
      · rw [← own]
        exact same
    | _ => simp [Request.makes] at makes

/-- Tokens are exact: a watch token opens the room it was minted for by the room's owner until it
    expires or the room is deleted, a directory token opens the directory until it expires,
    and no token opens both. -/
theorem tokens_exact (reach : Pool.Reachable (serve cfg cardBytes) G (.boot inflight) P) {now : Int}
    (later : ∀ e ∈ P.log, ∀ swept, e.op = .sweepExpired swept → swept ≤ now) (token : String) :
    (∀ room, P.state.store.validateWatchToken token now = some room ↔
      ∃ newer e older me ttl expires made, P.log = newer ++ e :: older ∧
        ServesFrame P e.thread me (.mintWatch room ttl) ∧
        (⟨e.op, e.result⟩ : HubDone cfg) =
          ⟨.mintWatchToken token room me.id expires made, .ok ()⟩ ∧
        e.before.store.roomOwnedBy room me.id = true ∧ now ≤ expires ∧
        ∀ e ∈ newer, deletesRoom room (⟨e.op, e.result⟩ : HubDone cfg) = false) ∧
    (P.state.store.validateDirectoryToken token now = true ↔
      ∃ e ∈ P.log, ∃ me ttl expires made, ServesFrame P e.thread me (.mintDirectoryToken ttl) ∧
        (⟨e.op, e.result⟩ : HubDone cfg) =
          ⟨.mintDirectoryToken token "hub" expires me.id made, .ok ()⟩ ∧ now ≤ expires) ∧
    ∀ time time', ¬ ((P.state.store.validateWatchToken token time).isSome = true ∧
      P.state.store.validateDirectoryToken token time' = true) := by
  refine ⟨fun room => ⟨?_, ?_⟩, ⟨?_, ?_⟩, ?_⟩
  · intro valid
    obtain ⟨row, member, rfl, live, scope⟩ := validateWatchToken_some valid
    obtain ⟨newer, e, older, split, mint, since⟩ := token_minted reach member
    obtain ⟨me, own, ⟨hub, -⟩ | ⟨room', scope', ⟨ttl, serves⟩, owned, same⟩⟩ :=
      minted_by reach (split ▸ List.mem_append_right _ List.mem_cons_self) mint
    · exact absurd (scope.symm.trans hub) (Store.watchScope_ne_hub room)
    · obtain rfl := Store.watchScope_injective (scope'.symm.trans scope)
      refine ⟨newer, e, older, me, ttl, row.expires, row.created, split, serves, same, owned, live, ?_⟩
      intro e' later'
      rw [← revokes_watch scope]
      exact since e' later'
  · rintro ⟨newer, e, older, me, ttl, expires, made, split, serves, same, owned, live, since⟩
    have member : (⟨token, watchScope room, expires, me.id, made⟩ : TokenRow) ∈
        P.state.store.directoryTokens := by
      refine token_lives reach split (by rw [same]; rfl) ?_
      intro e' later'
      refine ⟨?_, ?_⟩
      · rw [revokes_watch rfl]
        exact since e' later'
      · intro swept sweeps
        exact (later e' (split ▸ List.mem_append_left _ later') swept sweeps).trans live
    exact validateWatchToken_of_mem (tokens_keyed reach) member rfl live
  · intro valid
    obtain ⟨row, member, rfl, hub, live⟩ := (validateDirectoryToken_iff (tokens_keyed reach)).mp valid
    obtain ⟨newer, e, older, split, mint, -⟩ := token_minted reach member
    have logged : e ∈ P.log := split ▸ List.mem_append_right _ List.mem_cons_self
    obtain ⟨me, own, ⟨-, ⟨ttl, serves⟩, same⟩ | ⟨room, scope, -⟩⟩ := minted_by reach logged mint
    · exact ⟨e, logged, me, ttl, row.expires, row.created, serves, same, live⟩
    · exact absurd (scope.symm.trans hub) (Store.watchScope_ne_hub room)
  · rintro ⟨e, logged, me, ttl, expires, made, serves, same, live⟩
    obtain ⟨newer, older, split⟩ := List.append_of_mem logged
    have member : (⟨token, "hub", expires, me.id, made⟩ : TokenRow) ∈
        P.state.store.directoryTokens := by
      refine token_lives reach split (by rw [same]; rfl) ?_
      intro e' later'
      refine ⟨revokes_hub rfl _, ?_⟩
      intro swept sweeps
      exact (later e' (split ▸ List.mem_append_left _ later') swept sweeps).trans live
    exact (validateDirectoryToken_iff (tokens_keyed reach)).mpr ⟨_, member, rfl, rfl, live⟩
  · rintro time time' ⟨watches, unlocks⟩
    obtain ⟨room, valid⟩ := Option.isSome_iff_exists.mp watches
    obtain ⟨row, member, own, -, scope⟩ := validateWatchToken_some valid
    obtain ⟨row', member', own', hub, -⟩ :=
      (validateDirectoryToken_iff (tokens_keyed reach)).mp unlocks
    obtain rfl := token_unique reach member member' (own.trans own'.symm)
    exact Store.watchScope_ne_hub room (scope.symm.trans hub)

end Runs

/-- Alice opens a room, mints a watch token for it and a directory token, and an hour passes. -/
def tokenDemo : DemoPool :=
  demoPlay [demoFrame 0 alice (.invite .channel (some "r") none none false),
    demoFrame 1 alice (.mintWatch "r" none), demoFrame 2 alice (.mintDirectoryToken none),
    .tick 3600000]

theorem tokens_exact_demo :
    tokenDemo.state.store.validateWatchToken "t1" 3600000 = some "r" ∧
      tokenDemo.state.store.validateDirectoryToken "t1" 3600000 = false ∧
      tokenDemo.state.store.validateDirectoryToken "t2" 3600000 = true := by
  have unswept : ∀ e ∈ tokenDemo.log, ∀ swept, e.op = .sweepExpired swept → swept ≤ 3600000 := by
    have none : tokenDemo.log.all (fun e => match e.op with | .sweepExpired _ => false | _ => true) =
        true := by decide +kernel
    intro e logged swept sweeps
    have quiet := List.all_eq_true.mp none e logged
    rw [sweeps] at quiet
    cases quiet
  have watches : tokenDemo.state.store.validateWatchToken "t1" 3600000 = some "r" := by decide +kernel
  have exclusive := (tokens_exact (P := tokenDemo) (demoPlay_reachable _) unswept "t1").2.2
  refine ⟨watches, Bool.eq_false_iff.mpr (fun unlocks => ?_), by decide +kernel⟩
  refine exclusive 3600000 3600000 ⟨?_, unlocks⟩
  rw [watches]
  rfl

end Parler.Hub
