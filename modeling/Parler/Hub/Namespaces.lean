import Parler.Hub.Integrity
import Parler.Hub.Invites

/-!
# Room names and kinds

A room's kind is decided when its row is inserted and never checked again, so
the separation of service queues, direct messages and channels rests on the
names the handlers build: `svc.` and `dm.` before a token or a drawn suffix, and a
bare token, which has no dot, for a channel. `nameRule` is that discipline; in
every run the prefix of a room's name is its kind.
-/

namespace Parler.Hub

open Parler.Lib Parler.Protocol Handler

variable {cfg : HubConfig}

/-! ## Names -/

/-- The kind a room name stands for. -/
def kindOf (name : String) : RoomKind :=
  if "svc.".toList.isPrefixOf name.toList then .service
  else if "dm.".toList.isPrefixOf name.toList then .dm
  else .channel

@[simp] theorem kindOf_svc (rest : String) : kindOf ("svc." ++ rest) = .service := by
  simp [kindOf]

@[simp] theorem kindOf_dm (rest : String) : kindOf ("dm." ++ rest) = .dm := by
  simp [kindOf]

@[simp] theorem kindOf_room (rest : String) : kindOf ("room." ++ rest) = .channel := by
  simp [kindOf]

theorem isPrefixOf_mem {pre l : List Char} (starts : pre.isPrefixOf l = true) {c : Char}
    (member : c ∈ pre) : c ∈ l := by
  obtain ⟨rest, rfl⟩ := List.isPrefixOf_iff_prefix.mp starts
  exact List.mem_append_left rest member

/-- A name without a dot is a channel's. -/
theorem kindOf_dotless {name : String} (dotless : '.' ∉ name.toList) : kindOf name = .channel := by
  have svc : "svc.".toList.isPrefixOf name.toList = false := by
    by_contra starts
    exact dotless (isPrefixOf_mem (by simpa using starts) (by decide))
  have dm : "dm.".toList.isPrefixOf name.toList = false := by
    by_contra starts
    exact dotless (isPrefixOf_mem (by simpa using starts) (by decide))
  unfold kindOf
  rw [svc, dm]
  rfl

/-- A routing token has no dot. -/
theorem token_dotless (s : String) : '.' ∉ (token s).toList := by
  unfold token
  dsimp only
  split
  · decide
  · rw [String.toList_ofList, List.mem_map]
    intro made
    obtain ⟨c, -, same⟩ := made
    by_cases kept : (isAsciiAlphanumeric c || c = '_' || c = '-') = true
    · rw [if_pos kept] at same
      subst same
      revert kept
      decide
    · rw [if_neg kept] at same
      revert same
      decide

@[simp] theorem kindOf_token (s : String) : kindOf (token s) = .channel :=
  kindOf_dotless (token_dotless s)

@[simp] theorem inviteRoom_dm (fresh : Fresh) (room : Option String) :
    inviteRoom fresh .dm room = "dm." ++ fresh.suffix := rfl

/-- The room of an invite has the kind of the invite. -/
@[simp] theorem kindOf_inviteRoom (fresh : Fresh) (kind : RoomKind) (room : Option String) :
    kindOf (inviteRoom fresh kind room) = kind := by
  cases kind with
  | dm => simp [inviteRoom]
  | service => simp [inviteRoom]
  | channel => cases room <;> simp [inviteRoom]

/-! ## What a request names -/

namespace HubCall

def opensRoom : HubCall → Bool
  | .ensureRoom .. => true
  | _ => false

end HubCall

/-- The request has opened no room so far. -/
def OpensNone (past : List (HubDone cfg)) : Prop := ∀ d ∈ past, d.1.opensRoom = false

@[simp] theorem opensNone_nil : OpensNone ([] : List (HubDone cfg)) := by simp [OpensNone]

@[simp] theorem opensNone_cons (d : HubDone cfg) (past : List (HubDone cfg)) :
    OpensNone (d :: past) ↔ d.1.opensRoom = false ∧ OpensNone past := by
  simp [OpensNone]

/-- What a request may do with room names: it opens at most one room, under the kind of its
    name and, for a direct message, under the suffix drawn for it; it mints a code for
    the room it ensured; and when it is addressed to a service it joins nothing but
    service rooms. -/
@[simp]
def nameRule (toService : Bool) (suffix : String) (past : List (HubDone cfg)) : HubCall → Prop
  | .ensureRoom name kind _ =>
      kind = kindOf name ∧ (kind = .dm → name = "dm." ++ suffix) ∧ OpensNone past
  | .createInvite _ room kind .. =>
      kind = kindOf room ∧ ∃ now, (⟨.ensureRoom room kind now, ()⟩ : HubDone cfg) ∈ past
  | .addMember room _ _ => toService = true → kindOf room = .service
  | .redeemInvite .. => toService = false
  | .resolveJoin .. => toService = false
  | _ => True

theorem nameRule_free (toService : Bool) (suffix : String) (past : List (HubDone cfg))
    (op : HubCall) (aside : op.aside = true) : nameRule toService suffix past op := by
  cases op <;> trivial

section Walk

variable (cfg) (me : Authed) (fresh : Fresh) {past : List (HubDone cfg)}

/-- The target is a service. -/
def ofService : Target → Bool
  | .service _ => true
  | _ => false

theorem resolveTarget_nameRule (target : Target) (none : OpensNone past) :
    (resolveTarget cfg me fresh target).Follows (nameRule (ofService target) fresh.suffix)
      past := by
  cases target with
  | room room => simp [resolveTarget, requireMember]
  | service service => simp [resolveTarget]
  | dm agent =>
    simp only [resolveTarget, follows_call_bind]
    refine ⟨trivial, ?_⟩
    intro shared
    cases shared with
    | some room => simp
    | none =>
      simp only [follows_call_bind]
      refine ⟨trivial, ?_⟩
      intro visibility
      cases visibility with
      | none => simp
      | some visible => simp [HubCall.opensRoom, ofService, none]

theorem withQuota_nameRule {α : Type} {toService : Bool} {suffix : String} {p : Handler cfg α}
    (body : p.Follows (nameRule toService suffix) (⟨.lockQuota, ()⟩ :: past)) :
    (withQuota p).Follows (nameRule toService suffix) past :=
  follows_withQuota trivial (fun _ => trivial) body

theorem handleInvite_nameRule (kind : RoomKind) (room : Option String)
    (ttlSecs maxUses : Option Nat) (requireApproval : Bool) (none : OpensNone past) :
    (handleInvite cfg me fresh kind room ttlSecs maxUses requireApproval).Follows
      (nameRule false fresh.suffix) past := by
  simp only [handleInvite, follows_call_bind]
  refine ⟨trivial, fun now => withQuota_nameRule cfg ?_⟩
  simp only [follows_call_bind]
  refine ⟨trivial, fun existing => ?_⟩
  have named : kind = .dm → inviteRoom fresh kind room = "dm." ++ fresh.suffix := by
    rintro rfl
    rfl
  cases existing with
  | none => simpa [requireRoomQuota, HubCall.opensRoom, none] using fun _ _ => named
  | some kind' => simpa [HubCall.opensRoom, none] using named

theorem handleServe_nameRule (service : String) (none : OpensNone past) :
    (handleServe cfg me service).Follows (nameRule true fresh.suffix) past := by
  simp only [handleServe, follows_call_bind]
  refine ⟨trivial, fun now => withQuota_nameRule cfg ?_⟩
  simp [requireRoomQuota, HubCall.opensRoom, none]

theorem handleRemember_nameRule (suffix : String) (fact : Fact) (embedding : Option (List UInt32))
    (model : Option String) :
    (handleRemember cfg me fact embedding model).Follows (nameRule false suffix) past := by
  have keyed : ∀ {α β : Type} {p : Handler cfg α} {f : α → Handler cfg β} past',
      p.Follows (nameRule false suffix) (⟨.lockQuota, ()⟩ :: past') →
      (∀ a past, (f a).Follows (nameRule false suffix) past) →
      (withQuota p >>= f).Follows (nameRule false suffix) past' :=
    fun past' body follows => follows_bind_free (withQuota_nameRule cfg body) follows
  unfold handleRemember
  cases fact.room <;> cases fact.key <;> simp [requireMember, keyed]

/-- A frame addressed to a service: `Serve`, or a message or an upload for a service. -/
def frameToService : ClientFrame → Bool
  | .serve _ => true
  | .send target .. | .putBlob target .. => ofService target
  | _ => false

theorem frame_nameRule (cardBytes : AgentCard → List UInt8) (frame : ClientFrame)
    (upload : Option (List UInt8)) (rounds : Nat) :
    (serve cfg cardBytes (.frame me frame fresh upload rounds)).Follows
      (nameRule (frameToService frame) fresh.suffix) [] := by
  refine serve_follows_rooms me fresh (J := OpensNone) (nameRule_free _ _) ?_ opensNone_nil
    cardBytes frame upload rounds ?_ ?_
  · intro d past aside none
    refine (opensNone_cons d past).mpr ⟨?_, none⟩
    obtain ⟨op, r⟩ := d
    cases op <;> first | rfl | cases aside
  · intro target targeted past none
    have same : frameToService frame = ofService target := by
      cases frame <;> cases targeted <;> rfl
    rw [same]
    exact resolveTarget_nameRule cfg me fresh target none
  · intro writes past none
    cases frame with
    | invite kind room ttl uses approval =>
      exact handleInvite_nameRule cfg me fresh kind room ttl uses approval none
    | serve service => exact handleServe_nameRule cfg me fresh service none
    | remember => exact handleRemember_nameRule ..
    | redeem | resolveJoin | deleteRoom | mintDirectoryToken | mintWatch =>
      simp [handleFrame, handleRedeem, handleResolveJoin, handleDeleteRoom,
        handleMintDirectoryToken, handleMintWatch, requireTokenQuota, withQuota_nameRule,
        frameToService]
    | _ => cases writes

end Walk

/-- The request is addressed to a service. -/
def Request.toService : Request → Bool
  | .frame _ sent _ _ _ => frameToService sent
  | _ => false

/-- The suffix drawn for a request. -/
def Request.suffix : Request → String
  | .frame _ _ fresh _ _ => fresh.suffix
  | _ => ""

theorem serve_nameRule (cfg : HubConfig) (cardBytes : AgentCard → List UInt8) (req : Request) :
    (serve cfg cardBytes req).Follows (nameRule req.toService req.suffix) [] := by
  refine serve_follows (C := fun req => nameRule req.toService req.suffix) ?_ ?_ req
  · intro req past op own
    cases op <;> trivial
  · exact fun me frame fresh upload rounds => frame_nameRule cfg me fresh cardBytes frame upload rounds

/-! ## The invariant -/

namespace Store

/-- Every room has the kind of its name, and every invite the kind of its room's name. -/
structure Namespaced (s : Store) : Prop where
  rooms : ∀ r ∈ s.rooms, r.kind = kindOf r.name
  invites : ∀ i ∈ s.invites, i.kind = kindOf i.room

end Store

/-- Where a room row comes from: an older row of its name and kind, or its creation. -/
theorem room_origin (cfg : HubConfig) (op : HubCall) (h : HubState) {r : RoomRow}
    (member : r ∈ (op.exec cfg h).2.store.rooms) :
    (∃ old ∈ h.store.rooms, old.name = r.name ∧ old.kind = r.kind) ∨
      ∃ now, op = .ensureRoom r.name r.kind now := by
  by_cases written : TableName.rooms ∈ op.writes
  · cases op with
    | ensureRoom name kind now =>
      rcases mem_of_mem_insertNew member with old | rfl
      · exact Or.inl ⟨r, old, rfl, rfl⟩
      · exact Or.inr ⟨now, rfl⟩
    | setRoomOwner room owner =>
      rcases mem_updateWhere.mp member with ⟨old, -⟩ | ⟨old, listed, -, rfl⟩
      · exact Or.inl ⟨r, old, rfl, rfl⟩
      · exact Or.inl ⟨old, listed, rfl, rfl⟩
    | deleteRoom room owner =>
      rcases h.tryStore_cases (h.store.deleteRoom room owner) with ⟨s, ok, after⟩ | same
      · rw [HubCall.exec, after, (Store.deleteRoom_ok ok).2] at member
        exact Or.inl ⟨r, (mem_deleteWhere.mp member).1, rfl, rfl⟩
      · rw [HubCall.exec, same] at member
        exact Or.inl ⟨r, member, rfl, rfl⟩
    | _ => simp [HubCall.writes] at written
  · rw [exec_same cfg op h .rooms written] at member
    exact Or.inl ⟨r, member, rfl, rfl⟩

/-- The step lemma: a call that names rooms by the rule keeps the namespaces apart. -/
theorem Store.Namespaced.exec {h : HubState} (apart : h.store.Namespaced) {op : HubCall}
    {toService : Bool} {suffix : String} {past : List (HubDone cfg)}
    (rule : nameRule toService suffix past op) : (op.exec cfg h).2.store.Namespaced := by
  constructor
  · intro r member
    rcases room_origin cfg op h member with ⟨old, listed, name, kind⟩ | ⟨now, rfl⟩
    · rw [← name, ← kind]
      exact apart.rooms old listed
    · exact rule.1
  · intro i member
    rcases invite_origin cfg op h member with ⟨old, listed, same⟩ | ⟨_, _, _, rfl, -, -⟩
    · rw [← same.kind, ← same.room]
      exact apart.invites old listed
    · exact rule.1

section Runs

variable {cardBytes : AgentCard → List UInt8} {inflight : Nat} {P : HubPool cfg}
  {G : HubPool cfg → Nat → HubCall → Prop}

/-- What a request in flight may call next. -/
theorem pending_nameRule (reach : Pool.Reachable (serve cfg cardBytes) G (.boot inflight) P)
    {t : Nat} {req : Request} {op : HubCall}
    {next : op.Res → Prog (hubMachine cfg) (List ServerFrame)}
    (pending : P.threads t = some (req, .call op next)) :
    nameRule req.toService req.suffix (Pool.ownPast P.log t) op :=
  ((reach.own (K := fun (req : Request) p past => p.Follows (nameRule req.toService req.suffix) past)
    (serve_nameRule cfg cardBytes) (fun _ _ _ _ r follows => follows.2 r)).2 t req _ pending).1

/-- The run lemma: the namespaces stay apart. -/
theorem namespaced_run (reach : Pool.Reachable (serve cfg cardBytes) G (.boot inflight) P) :
    P.state.store.Namespaced := by
  refine Pool.Reachable.induct (I := fun P => P.state.store.Namespaced) ?_ ?_ reach
  · exact ⟨by simp [HubState.boot, Store.empty], by simp [HubState.boot, Store.empty]⟩
  · intro P Q reach apart step
    cases step with
    | spawn t req free => exact apart
    | exec t req op next pending enabled allowed => exact apart.exec (pending_nameRule reach pending)

/-- A room that exists was ensured. -/
theorem ensured_of_hasRoom (reach : Pool.Reachable (serve cfg cardBytes) G (.boot inflight) P)
    {room : String} (has : P.state.store.hasRoom room) :
    ∃ g ∈ P.log, ∃ kind now, g.op = .ensureRoom room kind now := by
  refine Pool.Reachable.invariant (I := fun P : HubPool cfg => P.state.store.hasRoom room →
    ∃ g ∈ P.log, ∃ kind now, g.op = .ensureRoom room kind now) ?_ ?_ reach has
  · intro has
    obtain ⟨r, member, -⟩ := has
    cases member
  · intro P Q before step has
    cases step with
    | spawn t req free => exact before has
    | exec t req op next pending enabled allowed =>
      obtain ⟨r, member, name⟩ := has
      rcases room_origin cfg op P.state member with ⟨old, listed, same, -⟩ | ⟨now, rfl⟩
      · obtain ⟨g, logged, ensures⟩ := before ⟨old, listed, same.trans name⟩
        exact ⟨g, List.mem_cons_of_mem _ logged, ensures⟩
      · exact ⟨_, List.mem_cons_self, r.kind, now, by rw [← name]⟩

/-- Thread `t` opened the room: it ensured the room and found none of that name. -/
def Opened (log : List (HubEvent cfg)) (t : Nat) (room : String) : Prop :=
  ∃ g ∈ log, g.thread = t ∧ (∃ kind now, g.op = .ensureRoom room kind now) ∧
    ¬ g.before.store.hasRoom room

/-- Another request than that of thread `t` ensured the room. -/
def EnsuredByOther (log : List (HubEvent cfg)) (t : Nat) (room : String) : Prop :=
  ∃ g ∈ log, g.thread ≠ t ∧ ∃ kind now, g.op = .ensureRoom room kind now

/-- A code is minted for a room that its request opened, unless another request ensured a room
    of that name before. -/
theorem minted_for_opened (reach : Pool.Reachable (serve cfg cardBytes) G (.boot inflight) P)
    {newer older : List (HubEvent cfg)} {e : HubEvent cfg} (split : P.log = newer ++ e :: older)
    {code room : String} {kind : RoomKind} {maxUses : Nat} {expires : Int} {createdBy : String}
    {approval : Bool} {now : Int}
    (mints : e.op = .createInvite code room kind maxUses expires createdBy approval now) :
    Opened older e.thread room ∨ EnsuredByOther older e.thread room := by
  obtain ⟨P', req, next, reach', rfl, -, pending, -, -⟩ := reach.event split
  have rule := pending_nameRule reach' pending
  rw [mints] at rule
  obtain ⟨-, ensuredAt, recorded⟩ := rule
  obtain ⟨g, logged, own, same⟩ := Pool.ownPast_event recorded
  have ensures : g.op = .ensureRoom room kind ensuredAt := (Sigma.mk.inj same).1
  by_cases has : g.before.store.hasRoom room
  · -- The room was there: some call before `g` ensured it, and not one of this request.
    obtain ⟨newer', older', split'⟩ := List.append_of_mem logged
    obtain ⟨P'', req', next', reach'', rfl, state, pending', -, -⟩ := reach'.event split'
    rw [← state] at has
    obtain ⟨g', before, ensures'⟩ := ensured_of_hasRoom reach'' has
    refine Or.inr ⟨g', by simp [split', before], ?_, ensures'⟩
    intro same
    have rule := pending_nameRule reach'' pending'
    rw [ensures] at rule
    have silent : g'.op.opensRoom = false := rule.2.2 ⟨g'.op, g'.result⟩
      (List.mem_map.mpr ⟨g', by simp [before, same, own], rfl⟩)
    obtain ⟨kind', now', ensures'⟩ := ensures'
    rw [ensures'] at silent
    cases silent
  · exact Or.inl ⟨g, logged, own, ⟨kind, ensuredAt, ensures⟩, has⟩

/-- The calls of a request addressed to a service join service rooms only. -/
theorem joins_service {e : HubEvent cfg} {req : Request} {p : Prog (hubMachine cfg) (List ServerFrame)}
    (reach : Pool.Reachable (serve cfg cardBytes) G (.boot inflight) P) (logged : e ∈ P.log)
    (at_t : P.threads e.thread = some (req, p)) (toService : req.toService = true) {room agent : String}
    (joins : e.op.joins e.before.store room agent) : kindOf room = .service := by
  have calls : ∀ req, (serve cfg cardBytes req).Calls (fun op : HubCall =>
      ∀ s room agent, op.joins s room agent → req.toService = true → kindOf room = .service) := by
    intro req
    refine (serve_nameRule cfg cardBytes req).calls ?_
    intro past op rule s room agent joins toService
    cases op with
    | addMember room' agent' now =>
      obtain ⟨rfl, -⟩ := joins
      exact rule toService
    | redeemInvite | resolveJoin =>
      rw [nameRule, toService] at rule
      cases rule
    | _ => exact joins.elim
  exact reach.calls calls at_t logged rfl _ room agent joins toService

end Runs

/-- In every run the prefix of a room's name is its kind and every invite has the kind of its
    room. A request addressed to a service makes nobody a member of any other room, and a
    code for a direct message is minted by a request that opened the room, unless another
    request ensured a room of that name before (under the same drawn suffix). -/
theorem namespaces_separate {cardBytes : AgentCard → List UInt8} {inflight : Nat} {P : HubPool cfg}
    (reach : Pool.Reachable (serve cfg cardBytes) Pool.anySchedule (.boot inflight) P) :
    (∀ r ∈ P.state.store.rooms, r.kind = kindOf r.name) ∧
    (∀ i ∈ P.state.store.invites, ∀ r ∈ P.state.store.rooms, r.name = i.room → i.kind = r.kind) ∧
    (∀ e ∈ P.log, ∀ req p, P.threads e.thread = some (req, p) → req.toService = true →
      ∀ room agent, e.before.store.isMember room agent = false →
        e.after.store.isMember room agent = true → kindOf room = .service) ∧
    (∀ newer e older, P.log = newer ++ e :: older →
      ∀ code room maxUses expires createdBy approval now,
        e.op = .createInvite code room .dm maxUses expires createdBy approval now →
        Opened older e.thread room ∨ EnsuredByOther older e.thread room) := by
  have apart := namespaced_run reach
  refine ⟨apart.rooms, ?_, ?_, ?_⟩
  · intro i invited r listed name
    rw [apart.invites i invited, apart.rooms r listed, name]
  · intro e logged req p at_t toService room agent before after
    exact joins_service reach logged at_t toService (joins_of_joined cfg e.op e.before before after)
  · intro newer e older split code room maxUses expires createdBy approval now mints
    exact minted_for_opened reach split mints

/-- Alice opens a direct message for Bob, serves a queue and opens a channel. -/
def namesDemo : DemoPool :=
  demoPlay [demoFrame 1 alice (.invite .dm none none none false),
    demoFrame 2 bob (.redeem "c1"),
    demoFrame 3 alice (.serve "dm.review"),
    demoFrame 4 bob (.invite .channel (some "svc.review") none none true)]

theorem namespaces_separate_demo :
    namesDemo.state.store.rooms.map (fun r => (r.name, r.kind)) =
      [("dm.s1", .dm), ("svc.dm_review", .service), ("svc_review", .channel)] ∧
    ∀ r ∈ namesDemo.state.store.rooms, r.kind = kindOf r.name := by
  have reach : Pool.Reachable demoServe Pool.anySchedule demoHub namesDemo := demoPlay_reachable _
  exact ⟨by decide +kernel, (namespaces_separate reach).1⟩

/-- Alice has a direct message with Bob when the suffix of its name is drawn for her again; her
    request has just minted its code. -/
def suffixAgain : DemoPool :=
  (Pool.start demoHub).play demoServe
    (demoActions 0 [demoFrame 1 alice (.invite .dm none none none false),
      demoFrame 2 bob (.redeem "c1")] ++
      Pool.Action.spawn 2 (.frame alice (.invite .dm none none none false) ⟨"m3", "c3", "s1", "t3"⟩ none 0) ::
        List.replicate 10 (Pool.Action.step 2))

/-- The direct-message code a call mints, and its room. -/
def mintsDm : HubCall → Option (String × String)
  | .createInvite code room .dm .. => some (code, room)
  | _ => none

theorem mintsDm_eq {op : HubCall} {code room : String} (mints : mintsDm op = some (code, room)) :
    ∃ maxUses expires createdBy approval now,
      op = .createInvite code room .dm maxUses expires createdBy approval now := by
  unfold mintsDm at mints
  split at mints
  · cases mints
    exact ⟨_, _, _, _, _, rfl⟩
  · cases mints

theorem suffixAgain_log : suffixAgain.log ≠ [] := List.ne_nil_of_length_pos (by decide +kernel)

/-- A run mints a code for a direct message that its request did not open. -/
theorem dm_invite_reuses_room :
    ∃ (P : DemoPool) (e : HubEvent demoConfig) (older : List (HubEvent demoConfig)),
      Pool.Reachable demoServe Pool.anySchedule demoHub P ∧ P.log = e :: older ∧
      (∃ code room maxUses expires createdBy approval now,
        e.op = .createInvite code room .dm maxUses expires createdBy approval now ∧
        (∃ i ∈ e.after.store.invites, i.code = code ∧ i.room = room) ∧
        ¬ Opened older e.thread room) := by
  refine ⟨suffixAgain, suffixAgain.log.head suffixAgain_log, suffixAgain.log.tail,
    Pool.play_reachable _ _ _, by simp, ?_⟩
  have mints : mintsDm (suffixAgain.log.head suffixAgain_log).op = some ("c3", "dm.s1") := by
    decide +kernel
  have minted : ∃ i ∈ (suffixAgain.log.head suffixAgain_log).after.store.invites,
      i.code = "c3" ∧ i.room = "dm.s1" := by decide +kernel
  have thread : (suffixAgain.log.head suffixAgain_log).thread = 2 := by decide +kernel
  have found : ∀ g ∈ suffixAgain.log.tail, g.thread = 2 → g.op.opensRoom = true →
      ∃ r ∈ g.before.store.rooms, r.name = "dm.s1" := by decide +kernel
  obtain ⟨maxUses, expires, createdBy, approval, now, mints⟩ := mintsDm_eq mints
  refine ⟨"c3", "dm.s1", maxUses, expires, createdBy, approval, now, mints, minted, ?_⟩
  intro opened
  obtain ⟨g, logged, own, ⟨kind, now, ensures⟩, absent⟩ := opened
  exact absent (found g logged (own.trans thread) (by rw [ensures]; rfl))

end Parler.Hub
