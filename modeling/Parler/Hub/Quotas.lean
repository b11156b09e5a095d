import Parler.Hub.Approval
import Parler.Hub.Demo
import Parler.Hub.Erasure
import Parler.Hub.Facts
import Parler.Hub.Footprint

/-!
# Durable quotas

Rooms owned, tokens alive and keyed facts are bounded for each agent. A handler counts, compares and
writes in separate calls under the `durable_quota` lock, so the bound is a statement about sections of
the lock. Tokens and facts keep theirs in every interleaving. An invite counts the caller's rooms only
when the room is new, and makes the caller the owner of any room that has none: of a direct-message
room, or of one that its owner deletes while the invite is on its way.
-/

namespace Parler.Hub

open Parler.Lib Parler.Protocol Handler

variable {cfg : HubConfig}

/-! ## Calls that use up a quota -/

namespace HubCall

def ownsRoom : HubCall → Bool
  | .setRoomOwner .. => true
  | _ => false

def mintsToken : HubCall → Bool
  | .mintDirectoryToken .. | .mintWatchToken .. => true
  | _ => false

def writesKeyed : HubCall → Bool
  | .remember _ fact .. => fact.key.isSome
  | _ => false

end HubCall

/-- A new row counts once where it counts at all. -/
theorem length_filter_insert {α : Type} {p : α → Bool} (table : List α) {row : α} {counted : Prop}
    [Decidable counted] (own : p row = true → counted) :
    ((table ++ [row]).filter p).length ≤ (table.filter p).length + if counted then 1 else 0 := by
  rw [List.filter_append, List.length_append]
  refine Nat.add_le_add_left ?_ _
  by_cases holds : p row = true
  · simp [own holds, holds]
  · simp [holds]

/-! ## Rooms -/

theorem countP_key_le_one {α κ : Type} [DecidableEq κ] {key : α → κ} {table : List α}
    (nodup : (table.map key).Nodup) {p : α → Bool} {k : κ} (own : ∀ r, p r = true → key r = k) :
    table.countP p ≤ 1 := by
  calc table.countP p ≤ table.countP (fun r => key r == k) :=
        List.countP_mono_left (fun r _ holds => by simpa using own r holds)
    _ = (table.map key).count k := by rw [List.count, List.countP_map]; rfl
    _ ≤ 1 := List.nodup_iff_count_le_one.mp nodup k

theorem roomsKeyed_exec (cfg : HubConfig) (op : HubCall) (h : HubState)
    (keyed : (h.store.rooms.map RoomRow.name).Nodup) :
    ((op.exec cfg h).2.store.rooms.map RoomRow.name).Nodup := by
  by_cases written : TableName.rooms ∈ op.writes
  · cases op with
    | ensureRoom => exact nodup_insertNew keyed
    | setRoomOwner => exact nodup_updateWhere (fun _ => rfl) keyed
    | deleteRoom room owner =>
      rcases h.tryStore_cases (h.store.deleteRoom room owner) with ⟨s, ok, equal⟩ | same
      · rw [HubCall.exec, equal, (Store.deleteRoom_ok ok).2]
        exact nodup_deleteWhere keyed
      · rw [HubCall.exec, same]
        exact keyed
    | _ => simp [HubCall.writes] at written
  · rw [exec_same cfg op h .rooms written]
    exact keyed

/-- The room is there and has no owner. -/
def Store.unowned (s : Store) (room : String) : Bool :=
  s.rooms.any (fun r => r.name = room ∧ r.owner = none)

/-- Only `set_room_owner` gives rooms to anybody. -/
theorem ownedRoomCount_exec (cfg : HubConfig) (op : HubCall) (h : HubState) (other : op.ownsRoom = false)
    (owner : String) : (op.exec cfg h).2.store.ownedRoomCount owner ≤ h.store.ownedRoomCount owner := by
  unfold Store.ownedRoomCount
  by_cases written : TableName.rooms ∈ op.writes
  · cases op with
    | setRoomOwner => cases other
    | ensureRoom name kind now =>
      simp only [HubCall.exec, Store.ensureRoom, insertNew]
      split
      · exact le_refl _
      · simp [List.filter_append]
    | deleteRoom room owner' =>
      rcases h.tryStore_cases (h.store.deleteRoom room owner') with ⟨s, ok, equal⟩ | same
      · rw [HubCall.exec, equal, (Store.deleteRoom_ok ok).2]
        exact (List.filter_sublist.filter _).length_le
      · rw [HubCall.exec, same]
    | _ => simp [HubCall.writes] at written
  · rw [exec_same cfg op h .rooms written]

theorem countP_updateWhere {α : Type} {p : α → Prop} [DecidablePred p] {f : α → α} {q : α → Bool}
    (table : List α) (fresh : ∀ r, p r → q r = false) :
    (updateWhere p f table).countP q ≤ table.countP q + table.countP (fun r => p r ∧ q (f r) = true) := by
  induction table with
  | nil => simp [updateWhere]
  | cons r table ih =>
    simp only [updateWhere, List.map_cons, List.countP_cons] at ih ⊢
    by_cases updated : p r
    · by_cases counted : q (f r) = true
      · simp [updated, counted, fresh r updated] at ih ⊢
        omega
      · simp [updated, counted, fresh r updated] at ih ⊢
        omega
    · simp [updated] at ih ⊢
      omega

/-- Setting an owner gives at most one room, to that owner, and none that has one. -/
theorem ownedRoomCount_setRoomOwner {s : Store} (keyed : (s.rooms.map RoomRow.name).Nodup)
    (room owner owner' : String) :
    (s.setRoomOwner room owner).ownedRoomCount owner' ≤
      s.ownedRoomCount owner' + if owner' = owner ∧ s.unowned room = true then 1 else 0 := by
  have counted : (s.setRoomOwner room owner).ownedRoomCount owner' ≤ s.ownedRoomCount owner' +
      s.rooms.countP (fun r => (r.name = room ∧ r.owner = none) ∧ decide (some owner = some owner') = true) := by
    simp only [Store.ownedRoomCount, Store.setRoomOwner, ← List.countP_eq_length_filter]
    refine countP_updateWhere s.rooms ?_
    intro r unowned
    simp [unowned.2]
  refine counted.trans (Nat.add_le_add_left ?_ _)
  split
  · exact countP_key_le_one keyed (k := room) (fun r found => (of_decide_eq_true found).1.1)
  · rename_i other
    rw [Nat.le_zero, List.countP_eq_zero]
    intro r listed found
    obtain ⟨unowned, same⟩ := of_decide_eq_true found
    have same : owner = owner' := by simpa using same
    exact other ⟨same.symm, List.any_eq_true.mpr ⟨r, listed, decide_eq_true unowned⟩⟩

/-- Rooms owned by an agent. -/
def roomQuota (cfg : HubConfig) : Quota (hubMachine cfg) String where
  uses := HubCall.ownsRoom
  promises owner d := ∃ n, n < cfg.maxOwnedRooms ∧ d = ⟨.ownedRoomCount owner, n⟩
  left owner h := h.store.ownedRoomCount owner < cfg.maxOwnedRooms
  bound h := ∀ owner, h.store.ownedRoomCount owner ≤ cfg.maxOwnedRooms
  promised := by
    intro owner op h _ _ promise
    obtain ⟨n, below, same⟩ := promise
    obtain ⟨rfl, result⟩ := Sigma.mk.inj same
    have count : h.store.ownedRoomCount owner = n := eq_of_heq result
    rw [← count] at below
    exact below
  kept := by
    intro owner op h _ idle left
    exact lt_of_le_of_lt (ownedRoomCount_exec cfg op h idle owner) left

/-! ## Tokens -/

/-- Tokens come from the two mints only. -/
theorem directoryTokens_exec (cfg : HubConfig) (op : HubCall) (h : HubState)
    (other : op.mintsToken = false) :
    (op.exec cfg h).2.store.directoryTokens.Sublist h.store.directoryTokens := by
  by_cases written : TableName.directoryTokens ∈ op.writes
  · cases op with
    | mintDirectoryToken | mintWatchToken => cases other
    | sweepExpired now => exact List.filter_sublist
    | deleteRoom room owner =>
      rcases h.tryStore_cases (h.store.deleteRoom room owner) with ⟨s, ok, equal⟩ | same
      · rw [HubCall.exec, equal, (Store.deleteRoom_ok ok).2]
        exact List.filter_sublist
      · rw [HubCall.exec, same]
    | _ => simp [HubCall.writes] at written
  · rw [exec_same cfg op h .directoryTokens written]

theorem activeTokenCount_exec (cfg : HubConfig) (op : HubCall) (h : HubState)
    (other : op.mintsToken = false) (creator : String) (now : Int) :
    (op.exec cfg h).2.store.activeTokenCount creator now ≤ h.store.activeTokenCount creator now :=
  ((directoryTokens_exec cfg op h other).filter _).length_le

/-- Fewer tokens are alive later. -/
theorem activeTokenCount_later (s : Store) (creator : String) {now later : Int} (after : now ≤ later) :
    s.activeTokenCount creator later ≤ s.activeTokenCount creator now := by
  refine (List.monotone_filter_right _ ?_).length_le
  intro r alive
  simp only [ge_iff_le, decide_eq_true_eq] at alive ⊢
  exact ⟨alive.1, after.trans alive.2⟩

/-- A mint adds one token, of its creator. -/
theorem activeTokenCount_insertToken {s s' : Store} {row : TokenRow} (ok : s.insertToken row = .ok s')
    (creator : String) (now : Int) :
    s'.activeTokenCount creator now ≤
      s.activeTokenCount creator now + if creator = row.createdBy then 1 else 0 := by
  rw [Store.insertToken_ok ok]
  refine length_filter_insert s.directoryTokens ?_
  intro counted
  exact (of_decide_eq_true counted).1.symm

theorem clock_le_exec (cfg : HubConfig) (op : HubCall) (h : HubState) :
    h.clock ≤ (op.exec cfg h).2.clock := by
  by_cases ticks : op.ticks = true
  · cases op with
    | tick ms =>
      simp only [HubCall.exec]
      omega
    | _ => cases ticks
  · rw [exec_clock op h (by simpa using ticks)]

/-- Unexpired tokens of an agent: counted at the time that a request read. -/
def tokenQuota (cfg : HubConfig) : Quota (hubMachine cfg) (String × Int) where
  uses := HubCall.mintsToken
  promises k d := ∃ n, n < cfg.maxActiveTokens ∧ d = ⟨.activeTokenCount k.1 k.2, n⟩
  left k h := h.store.activeTokenCount k.1 k.2 < cfg.maxActiveTokens
  bound h := ∀ creator, h.store.activeTokenCount creator h.clock ≤ cfg.maxActiveTokens
  promised := by
    intro k op h _ _ promise
    obtain ⟨n, below, same⟩ := promise
    obtain ⟨rfl, result⟩ := Sigma.mk.inj same
    have count : h.store.activeTokenCount k.1 k.2 = n := eq_of_heq result
    rw [← count] at below
    exact below
  kept := by
    intro k op h _ idle left
    exact lt_of_le_of_lt (activeTokenCount_exec cfg op h idle k.1 k.2) left

/-! ## Keyed facts -/

/-- The facts of an author that have a key. -/
def Store.keyedFacts (s : Store) (author : String) : List FactRow :=
  s.facts.filter (fun f => f.author = author ∧ f.key.isSome)

/-- What the check of a keyed fact is about. -/
structure FactName where
  author : String
  key : String
  room : Option String

/-- A fact that is there already, as the check compares them. -/
def FactName.stored (k : FactName) (s : Store) : Bool :=
  s.facts.any (fun f => f.author = k.author ∧ f.key = some k.key ∧ f.room = k.room)

/-- A call that writes no keyed fact keeps the keyed facts it does not delete. -/
theorem keyedFacts_exec (cfg : HubConfig) (op : HubCall) (h : HubState) (other : op.writesKeyed = false)
    (author : String) :
    ((op.exec cfg h).2.store.keyedFacts author).Sublist (h.store.keyedFacts author) := by
  unfold Store.keyedFacts
  rcases factChange_exec cfg op h with ⟨p, rows, -⟩ | ⟨author', fact, ts, embedding, model, rfl, rows, -⟩
  · rw [rows]
    exact List.filter_sublist.filter _
  · have unkeyed : fact.key = none := by simpa [HubCall.writesKeyed] using other
    rw [rows]
    rcases h.store.writeFact_cases author' fact ts model with ⟨-, equal⟩ | ⟨key, row, -, named, -⟩
    · rw [equal]
      simp [Store.insertFact, List.filter_append, unkeyed]
    · rw [unkeyed] at named
      cases named

/-- A write adds at most one keyed fact, of its author, and none if the key has one. -/
theorem keyedFacts_writeFact (s : Store) (author' author : String) (fact : Fact) (ts : Int)
    (model : Option String) :
    ((s.writeFact author' fact ts model).2.keyedFacts author).length ≤ (s.keyedFacts author).length +
      if author = author' ∧ s.overwritten author' fact = none then 1 else 0 := by
  rcases s.writeFact_cases author' fact ts model with ⟨⟨new, -⟩, equal⟩ | ⟨key, row, -, -, -, -, equal⟩
  · rw [equal]
    refine length_filter_insert s.facts ?_
    intro counted
    exact ⟨(of_decide_eq_true counted).1.symm, new⟩
  · rw [equal]
    simp only [Store.keyedFacts, updateWhere, ← List.countP_eq_length_filter, List.countP_map]
    refine Nat.le_add_right_of_le (List.countP_mono_left ?_)
    intro f _ counted
    simp only [Function.comp_apply] at counted
    split at counted <;> exact counted

/-- Keyed facts of an author. -/
def factQuota (cfg : HubConfig) : Quota (hubMachine cfg) FactName where
  uses := HubCall.writesKeyed
  promises k d := d = ⟨.keyedFactWithinQuota k.author k.key k.room, true⟩
  left k h := k.stored h.store = true ∨ (h.store.keyedFacts k.author).length < cfg.maxKeyedFacts
  bound h := ∀ author, (h.store.keyedFacts author).length ≤ cfg.maxKeyedFacts
  promised := by
    intro k op h _ _ promise
    obtain ⟨rfl, result⟩ := Sigma.mk.inj promise
    have within : h.store.keyedFactWithinQuota k.author k.key k.room cfg.maxKeyedFacts = true :=
      eq_of_heq result
    rw [Store.keyedFactWithinQuota, Bool.or_eq_true, decide_eq_true_eq] at within
    exact within
  kept := by
    intro k op h bound idle left
    have rows := keyedFacts_exec cfg op h idle k.author
    rcases left with stored | below
    · -- If the fact is gone then there is one keyed fact less.
      rw [or_iff_not_imp_left]
      intro gone
      obtain ⟨f, listed, own⟩ := List.any_eq_true.mp stored
      have keyed : f ∈ h.store.keyedFacts k.author := by
        simp at own
        simp [Store.keyedFacts, listed, own]
      have missing : f ∉ (op.exec cfg h).2.store.keyedFacts k.author := by
        intro still
        exact gone (List.any_eq_true.mpr ⟨f, (List.mem_filter.mp still).1, own⟩)
      have fewer : ((op.exec cfg h).2.store.keyedFacts k.author).length <
          (h.store.keyedFacts k.author).length := by
        refine lt_of_le_of_ne rows.length_le ?_
        intro same
        exact missing (rows.eq_of_length same ▸ keyed)
      exact lt_of_lt_of_le fewer (bound k.author)
    · exact Or.inr (lt_of_le_of_lt rows.length_le below)

/-! ## What a request has checked -/

/-- A request makes its caller the owner of a room under the lock, after a check of the quota or
    because it found the room, and mints tokens and writes keyed facts after a check. -/
@[simp]
def quotaRule (cfg : HubConfig) (past : List (HubDone cfg)) : HubCall → Prop
  | .setRoomOwner room owner => ((quotaLock cfg).sinceTaken past).isSome = true ∧
      ((quotaLock cfg).Found (roomQuota cfg) past owner ∨
        ∃ kind, (⟨.roomKind room, some kind⟩ : HubDone cfg) ∈ past)
  | .mintDirectoryToken _ _ _ creator now | .mintWatchToken _ _ creator _ now =>
      (quotaLock cfg).Found (tokenQuota cfg) past (creator, now) ∧
        (⟨.nowMs, now⟩ : HubDone cfg) ∈ past
  | .remember author fact .. => ∀ key, fact.key = some key →
      (quotaLock cfg).Found (factQuota cfg) past ⟨author, key, fact.room⟩
  | _ => True

section Walk

variable (me : Authed) (fresh : Fresh) {past : List (HubDone cfg)}

theorem withQuota_quotaRule {α : Type} {p : Handler cfg α}
    (body : p.Follows (quotaRule cfg) (⟨.lockQuota, ()⟩ :: past)) :
    (withQuota p).Follows (quotaRule cfg) past :=
  follows_withQuota trivial (fun _ => trivial) body

theorem handleInvite_quotaRule (kind : RoomKind) (room : Option String)
    (ttlSecs maxUses : Option Nat) (requireApproval : Bool) :
    (handleInvite cfg me fresh kind room ttlSecs maxUses requireApproval).Follows (quotaRule cfg) past := by
  simp only [handleInvite, follows_call_bind]
  refine ⟨trivial, fun now => withQuota_quotaRule ?_⟩
  rw [follows_call_bind]
  refine ⟨trivial, fun existing => ?_⟩
  cases existing with
  | some kind' =>
    simp only [Option.isSome_some, if_true, follows_call_bind, fail_bind, follows_ite, follows_fail,
      Option.isNone_some, Bool.false_eq_true, if_false]
    refine ⟨trivial, fun member => ⟨fun _ => trivial, fun inside => ?_⟩⟩
    refine ⟨trivial, fun _ => ⟨trivial, fun _ => ⟨⟨?_, Or.inr ⟨kind', ?_⟩⟩, fun _ => ?_⟩⟩⟩
    · simp [Lock.sinceTaken, quotaLock]
    · simp
    · simp
  | none =>
    simp only [Option.isSome_none, Bool.false_eq_true, if_false, Option.isNone_none, if_true,
      requireRoomQuota, bind_bind, ite_bind, follows_call_bind, fail_bind, follows_ite, follows_fail]
    refine ⟨trivial, fun owned => ⟨fun _ => trivial, fun left => ?_⟩⟩
    refine ⟨trivial, fun _ => ⟨trivial, fun _ => ⟨⟨?_, Or.inl ?_⟩, fun _ => ⟨trivial, fun minted => ?_⟩⟩⟩⟩
    · simp [Lock.sinceTaken, quotaLock]
    · refine ⟨_, rfl, ?_, ⟨.ownedRoomCount me.id, owned⟩, by simp, owned, Nat.lt_of_not_le left, rfl⟩
      simp [roomQuota, HubCall.ownsRoom]
    · cases minted <;> trivial

theorem handleServe_quotaRule (service : String) :
    (handleServe cfg me service).Follows (quotaRule cfg) past := by
  simp only [handleServe, follows_call_bind]
  refine ⟨trivial, fun now => withQuota_quotaRule ?_⟩
  rw [follows_call_bind]
  refine ⟨trivial, fun existing => ?_⟩
  cases existing with
  | some kind => simp
  | none =>
    simp only [Option.isNone_none, if_true, requireRoomQuota, bind_bind, ite_bind, follows_call_bind,
      fail_bind, follows_ite, follows_fail]
    refine ⟨trivial, fun owned => ⟨fun _ => trivial, fun left => ?_⟩⟩
    refine ⟨trivial, fun _ => ⟨trivial, fun _ => ⟨⟨?_, Or.inl ?_⟩, fun _ => ⟨trivial, fun _ => trivial⟩⟩⟩⟩
    · simp [Lock.sinceTaken, quotaLock]
    · refine ⟨_, rfl, ?_, ⟨.ownedRoomCount me.id, owned⟩, by simp, owned, Nat.lt_of_not_le left, rfl⟩
      simp [roomQuota, HubCall.ownsRoom]

/-- The check of a token quota and a mint on it. -/
theorem mint_quotaRule {now : Int} {mint : HubCall} (rest : mint.Res → Handler cfg ServerFrame)
    (free : ∀ r past, (rest r).Follows (quotaRule cfg) past)
    (ruled : ∀ past, (quotaLock cfg).Found (tokenQuota cfg) past (me.id, now) ∧
      (⟨.nowMs, now⟩ : HubDone cfg) ∈ past → quotaRule cfg past mint)
    (read : (⟨.nowMs, now⟩ : HubDone cfg) ∈ past) :
    (withQuota do
      requireTokenQuota cfg me now
      let r ← call mint
      rest r : Handler cfg ServerFrame).Follows (quotaRule cfg) past := by
  refine withQuota_quotaRule ?_
  simp only [requireTokenQuota, bind_bind, ite_bind, follows_call_bind, fail_bind, follows_ite,
    follows_fail]
  refine ⟨trivial, fun alive => ⟨fun _ => trivial, fun left => ?_⟩⟩
  refine ⟨ruled _ ⟨?_, by simp [read]⟩, fun r => free r _⟩
  refine ⟨_, rfl, ?_, ⟨.activeTokenCount me.id now, alive⟩, by simp, alive, Nat.lt_of_not_le left, rfl⟩
  simp [tokenQuota, HubCall.mintsToken]

theorem handleMintDirectoryToken_quotaRule (ttlSecs : Option Nat) :
    (handleMintDirectoryToken cfg me fresh ttlSecs).Follows (quotaRule cfg) past := by
  simp only [handleMintDirectoryToken, follows_call_bind]
  refine ⟨trivial, fun now => mint_quotaRule me _ ?_ (fun _ found => found) (by simp)⟩
  intro r past
  simp

theorem handleMintWatch_quotaRule (room : String) (ttlSecs : Option Nat) :
    (handleMintWatch cfg me fresh room ttlSecs).Follows (quotaRule cfg) past := by
  simp only [handleMintWatch, follows_call_bind]
  refine ⟨trivial, fun now => mint_quotaRule me _ ?_ (fun _ found => found) (by simp)⟩
  intro r past
  simp

theorem handleRemember_quotaRule (fact : Fact) (embedding : Option (List UInt32))
    (model : Option String) :
    (handleRemember cfg me fact embedding model).Follows (quotaRule cfg) past := by
  have keyed : ∀ (key : String) (past : List (HubDone cfg)), fact.key = some key → (do
      withQuota do
        if !(← call (.keyedFactWithinQuota me.id key fact.room)) then
          fail (.coded ErrorCode.atCapacity
            "keyed fact quota reached — update an existing key or remove old memory")
        let now ← call .nowMs
        check (← call (.remember me.id fact now embedding model))
      return ServerFrame.remembered true : Handler cfg ServerFrame).Follows (quotaRule cfg) past := by
    intro key past named
    refine follows_bind_free (withQuota_quotaRule ?_) (by simp)
    simp only [follows_call_bind, fail_bind, follows_ite, follows_fail]
    refine ⟨trivial, fun left => ⟨fun _ => trivial, fun within => ?_⟩⟩
    obtain rfl : left = true := by simpa using within
    refine ⟨trivial, fun now => ⟨?_, fun r => trivial⟩⟩
    intro key' named'
    obtain rfl : key = key' := Option.some.inj (named.symm.trans named')
    refine ⟨_, rfl, ?_, ⟨.keyedFactWithinQuota me.id key fact.room, true⟩, by simp, rfl⟩
    simp [factQuota, HubCall.writesKeyed]
  obtain ⟨key, text, room⟩ := fact
  unfold handleRemember
  cases key with
  | none => cases room <;> simp [requireMember]
  | some key =>
    cases room with
    | none => exact keyed key past rfl
    | some name =>
      simp only [requireMember, bind_bind, ite_bind, follows_call_bind, follows_ite, fail_bind,
        follows_fail]
      refine ⟨trivial, fun member => ⟨fun _ => trivial, fun _ => ?_⟩⟩
      exact keyed key _ rfl

/-- The frames that write under a quota. -/
def quotaFrame : ClientFrame → Bool
  | .invite .. | .serve _ | .mintDirectoryToken _ | .mintWatch .. | .remember .. => true
  | _ => false

theorem handleFrame_quotaRule (cardBytes : AgentCard → List UInt8) {frame : ClientFrame}
    (quota : quotaFrame frame = true) :
    (handleFrame cfg me fresh cardBytes frame).Follows (quotaRule cfg) past := by
  cases frame with
  | invite => exact handleInvite_quotaRule me fresh ..
  | serve => exact handleServe_quotaRule me ..
  | mintDirectoryToken => exact handleMintDirectoryToken_quotaRule me fresh ..
  | mintWatch => exact handleMintWatch_quotaRule me fresh ..
  | remember => exact handleRemember_quotaRule me ..
  | _ => cases quota

theorem frame_quotaRule (cardBytes : AgentCard → List UInt8) (frame : ClientFrame)
    (upload : Option (List UInt8)) (rounds : Nat) :
    (serve cfg cardBytes (.frame me frame fresh upload rounds)).Follows (quotaRule cfg) [] := by
  by_cases quota : quotaFrame frame = true
  · refine dispatch_follows cardBytes me frame fresh upload rounds trivial (fun _ => trivial) ?_ ?_ ?_
    · rintro room since limit wait ack rfl
      cases quota
    · rintro target sha256 size mediaType now allowed rfl
      cases quota
    · exact fun now allowed => handleFrame_quotaRule me fresh cardBytes quota
  · -- The other frames make no call that the rule is about.
    refine (serve_madeFor cardBytes me frame fresh upload rounds).follows ?_ []
    intro past op made
    cases op with
    | setRoomOwner name owner =>
      obtain ⟨-, ⟨_, _, _, _, _, rfl, -⟩ | ⟨_, rfl, -⟩⟩ := made <;> exact absurd rfl quota
    | mintDirectoryToken =>
      obtain ⟨-, -, -, _, rfl⟩ := made
      exact absurd rfl quota
    | mintWatchToken =>
      obtain ⟨-, -, _, rfl⟩ := made
      exact absurd rfl quota
    | remember =>
      obtain ⟨-, rfl⟩ := made
      exact absurd rfl quota
    | _ => trivial

end Walk

theorem serve_quotaRule (cardBytes : AgentCard → List UInt8) (req : Request) :
    (serve cfg cardBytes req).Follows (quotaRule cfg) [] := by
  refine serve_follows (C := fun _ => quotaRule cfg) ?_ ?_ req
  · intro req past op own
    cases op <;> trivial
  · exact fun me frame fresh upload rounds => frame_quotaRule me fresh cardBytes frame upload rounds

/-! ## Every interleaving -/

/-- A call that makes an agent the owner of a room it found, and that has no owner by now, is made
    only for an agent under its quota. -/
def adoptsWithinQuota (P : HubPool cfg) (t : Nat) : HubCall → Prop
  | .setRoomOwner room owner =>
      (∃ kind, (⟨.roomKind room, some kind⟩ : HubDone cfg) ∈ Pool.ownPast P.log t) →
        P.state.store.unowned room = true → P.state.store.ownedRoomCount owner < cfg.maxOwnedRooms
  | _ => True

section Runs

variable {cardBytes : AgentCard → List UInt8} {G : HubPool cfg → Nat → HubCall → Prop} {inflight : Nat}
  {P : HubPool cfg}

theorem roomsKeyed_run (reach : Pool.Reachable (serve cfg cardBytes) G (.boot inflight) P) :
    (P.state.store.rooms.map RoomRow.name).Nodup := by
  refine (reach.history (I := fun _ h => (h.store.rooms.map RoomRow.name).Nodup) List.nodup_nil ?_).1
  intro log e keyed
  exact roomsKeyed_exec cfg e.op e.before keyed

/-- The time that a request read is past. -/
theorem read_le_clock (reach : Pool.Reachable (serve cfg cardBytes) G (.boot inflight) P) {t : Nat}
    {now : Int} (read : (⟨.nowMs, now⟩ : HubDone cfg) ∈ Pool.ownPast P.log t) :
    now ≤ P.state.clock := by
  have past := (reach.history (I := fun log h => ∀ e ∈ log, ∀ now,
    (⟨e.op, e.result⟩ : HubDone cfg) = ⟨.nowMs, now⟩ → now ≤ h.clock) (by simp) ?_).1
  · obtain ⟨e, logged, -, same⟩ := Pool.ownPast_event read
    exact past e logged now same
  · intro log e before e' logged now same
    rcases List.mem_cons.mp logged with rfl | older
    · obtain ⟨called, result⟩ := Sigma.mk.inj same
      have own : e'.before.clock = now := by
        obtain ⟨u, op, h⟩ := e'
        cases called
        exact eq_of_heq result
      rw [← own]
      exact clock_le_exec cfg e'.op e'.before
    · exact (before e' older now same).trans (clock_le_exec cfg e.op e.before)

theorem pending_quotaRule (reach : Pool.Reachable (serve cfg cardBytes) G (.boot inflight) P) {t : Nat}
    {req : Request} {op : HubCall} {next : op.Res → Prog (hubMachine cfg) (List ServerFrame)}
    (pending : P.threads t = some (req, .call op next)) : quotaRule cfg (Pool.ownPast P.log t) op :=
  (reach.follows (serve_quotaRule cardBytes) pending).1

theorem quotaLock_exclusive (P : HubPool cfg)
    (reach : Pool.Reachable (serve cfg cardBytes) G (.boot inflight) P) : (quotaLock cfg).Exclusive P :=
  (quotaLock cfg).exclusive (serve_proper cfg cardBytes) reach

theorem ownedRooms_bounded
    (reach : Pool.Reachable (serve cfg cardBytes) adoptsWithinQuota (.boot inflight) P) :
    (roomQuota cfg).bound P.state := by
  refine (quotaLock cfg).bounded (roomQuota cfg) quotaLock_exclusive ?_ ?_ ?_ reach
  · intro P t req op next reach pending used
    cases op with
    | setRoomOwner => exact (pending_quotaRule reach pending).1
    | _ => cases used
  · intro owner
    exact Nat.zero_le _
  · intro P t req op next reach pending within bound found agent
    by_cases used : op.ownsRoom = true
    · cases op with
      | setRoomOwner room owner =>
        refine (ownedRoomCount_setRoomOwner (roomsKeyed_run reach) room owner agent).trans ?_
        by_cases given : agent = owner ∧ P.state.store.unowned room = true
        · rw [if_pos given]
          have below : P.state.store.ownedRoomCount owner < cfg.maxOwnedRooms := by
            rcases (pending_quotaRule reach pending).2 with checked | existed
            · exact found owner checked
            · exact within existed given.2
          rw [given.1]
          exact below
        · rw [if_neg given]
          exact bound agent
      | _ => cases used
    · exact (ownedRoomCount_exec cfg op P.state (by simpa using used) agent).trans (bound agent)

/-- A mint with what its section found. -/
theorem tokens_mint {h : HubState} {row : TokenRow} {s : Store} (ok : h.store.insertToken row = .ok s)
    (bound : (tokenQuota cfg).bound h) (past : row.created ≤ h.clock)
    (left : (tokenQuota cfg).left (row.createdBy, row.created) h) (creator : String) :
    s.activeTokenCount creator h.clock ≤ cfg.maxActiveTokens := by
  refine (activeTokenCount_insertToken ok creator h.clock).trans ?_
  by_cases own : creator = row.createdBy
  · rw [if_pos own, own]
    exact Nat.succ_le_of_lt (lt_of_le_of_lt (activeTokenCount_later _ _ past) left)
  · rw [if_neg own]
    exact bound creator

theorem activeTokens_bounded (reach : Pool.Reachable (serve cfg cardBytes) G (.boot inflight) P) :
    (tokenQuota cfg).bound P.state := by
  refine (quotaLock cfg).bounded (tokenQuota cfg) quotaLock_exclusive ?_ ?_ ?_ reach
  · intro P t req op next reach pending used
    cases op with
    | mintDirectoryToken => exact (pending_quotaRule reach pending).1.held
    | mintWatchToken => exact (pending_quotaRule reach pending).1.held
    | _ => cases used
  · intro creator
    exact Nat.zero_le _
  · intro P t req op next reach pending _ bound found creator
    by_cases used : op.mintsToken = true
    · cases op with
      | mintDirectoryToken token scope expires creator' now =>
        obtain ⟨checked, read⟩ := pending_quotaRule reach pending
        rcases P.state.tryStore_cases
          (P.state.store.mintDirectoryToken token scope expires creator' now) with ⟨s, ok, equal⟩ | same
        · simp only [hubMachine, HubCall.exec, equal]
          exact tokens_mint ok bound (read_le_clock reach read) (found _ checked) creator
        · simp only [hubMachine, HubCall.exec, same]
          exact bound creator
      | mintWatchToken token room owner expires now =>
        obtain ⟨checked, read⟩ := pending_quotaRule reach pending
        rcases P.state.tryStore_cases
          (P.state.store.mintWatchToken token room owner expires now) with ⟨s, ok, equal⟩ | same
        · simp only [hubMachine, HubCall.exec, equal]
          have inserted : P.state.store.insertToken ⟨token, watchScope room, expires, owner, now⟩ = .ok s := by
            unfold Store.mintWatchToken at ok
            split at ok
            · exact ok
            · cases ok
          exact tokens_mint inserted bound (read_le_clock reach read) (found _ checked) creator
        · simp only [hubMachine, HubCall.exec, same]
          exact bound creator
      | _ => cases used
    · refine (activeTokenCount_later _ creator (clock_le_exec cfg op P.state)).trans ?_
      exact (activeTokenCount_exec cfg op P.state (by simpa using used) creator _).trans (bound creator)

theorem keyedFacts_bounded (reach : Pool.Reachable (serve cfg cardBytes) G (.boot inflight) P) :
    (factQuota cfg).bound P.state := by
  refine (quotaLock cfg).bounded (factQuota cfg) quotaLock_exclusive ?_ ?_ ?_ reach
  · intro P t req op next reach pending used
    cases op with
    | remember author fact ts embedding model =>
      obtain ⟨key, named⟩ := Option.isSome_iff_exists.mp used
      exact (pending_quotaRule reach pending key named).held
    | _ => cases used
  · intro author
    exact Nat.zero_le _
  · intro P t req op next reach pending _ bound found author
    by_cases used : op.writesKeyed = true
    · rcases factChange_exec cfg op P.state with
        ⟨p, rows, -⟩ | ⟨author', fact, ts, embedding, model, rfl, rows, -⟩
      · refine le_trans ?_ (bound author)
        simp only [hubMachine, Store.keyedFacts, rows]
        exact (List.filter_sublist.filter _).length_le
      · obtain ⟨key, named⟩ := Option.isSome_iff_exists.mp used
        have left := found _ (pending_quotaRule reach pending key named)
        simp only [hubMachine, Store.keyedFacts, rows]
        refine (keyedFacts_writeFact P.state.store author' author fact ts model).trans ?_
        by_cases new : author = author' ∧ P.state.store.overwritten author' fact = none
        · rw [if_pos new, new.1]
          -- A row that the check accepted is one that the write would find.
          rcases left with stored | below
          · obtain ⟨f, listed, own⟩ := List.any_eq_true.mp stored
            obtain ⟨sameAuthor, sameKey, sameRoom⟩ := of_decide_eq_true own
            have missing := new.2
            rw [Store.overwritten, named, Option.bind_some, List.find?_eq_none] at missing
            refine absurd (Store.sameKeyedFact_iff.mpr ⟨sameAuthor, ?_, sameKey⟩) (missing f listed)
            rw [sameRoom]
          · exact below
        · rw [if_neg new]
          exact bound author
    · exact (keyedFacts_exec cfg op P.state (by simpa using used) author).length_le.trans (bound author)

end Runs

theorem keyedFacts_nodup {s : Store} (keyed : s.FactsKeyed) (author : String) :
    ((s.keyedFacts author).map (fun f => (f.room, f.key))).Nodup := by
  refine List.pairwise_map.mpr (List.Pairwise.imp_of_mem ?_ (keyed.distinct.filter _))
  intro f g listed listed' apart same
  obtain ⟨room, key⟩ := Prod.mk.inj same
  obtain ⟨author_f, isKeyed⟩ := of_decide_eq_true (List.mem_filter.mp listed).2
  obtain ⟨author_g, -⟩ := of_decide_eq_true (List.mem_filter.mp listed').2
  exact apart (author_f.trans author_g.symm) isKeyed key (by rw [room])

/-- The durable quotas of an agent. -/
structure WithinQuotas (cfg : HubConfig) (h : HubState) (agent : String) : Prop where
  rooms : h.store.ownedRoomCount agent ≤ cfg.maxOwnedRooms
  tokens : h.store.activeTokenCount agent h.clock ≤ cfg.maxActiveTokens
  facts : (h.store.keyedFacts agent).length ≤ cfg.maxKeyedFacts
  distinct : ((h.store.keyedFacts agent).map (fun f => (f.room, f.key))).Nodup

/-- In every interleaving the quotas hold, as long as no agent at its room quota adopts a room. -/
theorem quotas_hold_unless_adopted {cardBytes : AgentCard → List UInt8} {inflight : Nat} {P : HubPool cfg}
    (reach : Pool.Reachable (serve cfg cardBytes) adoptsWithinQuota (.boot inflight) P) (agent : String) :
    WithinQuotas cfg P.state agent where
  rooms := ownedRooms_bounded reach agent
  tokens := activeTokens_bounded reach agent
  facts := keyedFacts_bounded reach agent
  distinct := keyedFacts_nodup (factsKeyed_run reach) agent

/-- One room for each agent. -/
def tightConfig : HubConfig := { demoConfig with maxOwnedRooms := 1 }

abbrev TightPool := Pool (hubMachine tightConfig) Request (List ServerFrame)

def tightServe : Request → Prog (hubMachine tightConfig) (List ServerFrame) :=
  serve tightConfig (fun _ => [])

/-- Bob opens a service that Alice joins, and Alice opens a channel. -/
def tightRooms : List Request :=
  [demoFrame 0 bob (.serve "x"), demoFrame 1 alice (.serve "x"),
    demoFrame 2 alice (.invite .channel (some "a") none none false)]

/-- Alice asks for one more channel, and to share the service. -/
def tightRefused : TightPool :=
  (Pool.start demoHub).play tightServe (demoActions 0 (tightRooms ++
    [demoFrame 3 alice (.invite .channel (some "b") none none false),
      demoFrame 4 alice (.invite .service (some "x") none none false)]))

/-- The decision procedure of `adoptsWithinQuota`, for rooms that were found or not. -/
def adoptsCheck (P : TightPool) : HubCall → Bool
  | .setRoomOwner room owner =>
      !P.state.store.unowned room || decide (P.state.store.ownedRoomCount owner < tightConfig.maxOwnedRooms)
  | _ => true

theorem quotas_hold_unless_adopted_demo :
    tightRefused.state.store.ownedRoomCount "A" = 1 ∧ WithinQuotas tightConfig tightRefused.state "A" := by
  have sound : ∀ (P : TightPool) (t : Nat) (op : HubCall), adoptsCheck P op = true →
      adoptsWithinQuota P t op := by
    intro P t op passed
    cases op with
    | setRoomOwner room owner =>
      intro _ unowned
      simpa [adoptsCheck, unowned] using passed
    | _ => trivial
  have reach : Pool.Reachable tightServe adoptsWithinQuota demoHub tightRefused :=
    Pool.play_reachable_of_checks tightServe sound .refl (by decide +kernel)
  exact ⟨by decide +kernel, quotas_hold_unless_adopted reach "A"⟩

/-- Bob deletes the service after Alice's invite to it found it and her in it. -/
def tightAdopted : TightPool :=
  (Pool.start demoHub).play tightServe (demoActions 0 tightRooms ++
    Pool.Action.spawn 3 (demoFrame 3 alice (.invite .service (some "x") none none false)) ::
      List.replicate 6 (Pool.Action.step 3) ++
    demoActions 4 [demoFrame 4 bob (.deleteRoom "svc.x")] ++ List.replicate demoSteps (Pool.Action.step 3))

/-- The invite makes the room again, and Alice its owner: the second of one that she may own. -/
theorem invite_adopts_over_quota :
    Pool.Reachable tightServe Pool.anySchedule demoHub tightAdopted ∧
      ¬ WithinQuotas tightConfig tightAdopted.state "A" := by
  refine ⟨Pool.play_reachable _ _ _, ?_⟩
  intro within
  have owned : tightAdopted.state.store.ownedRoomCount "A" = 2 := by decide +kernel
  have bound := within.rooms
  rw [owned] at bound
  exact absurd bound (by decide)

end Parler.Hub
