import Parler.Hub.Demo
import Parler.Hub.Rules
import Parler.Hub.Specs
import Parler.Lib.Simulation

/-!
# What a deleted room leaves behind

`delete_room` clears eight tables. Five more places are keyed by a room:
`service_workers`, `service_claims`, `service_dispatches`, the vectors of the
room's facts, and the room's flood windows in memory. `forgetRoom` is the state
in which the room was never there. A leftover dispatch row names a message that
is gone, so no answer depends on it, nor on a flood window that has run out; where
nothing else is left the two states answer every later sequence of requests alike. A
leftover worker, claim, vector or running flood window shows up once the name is used
again.
-/

namespace Parler.Hub

open Parler.Lib Parler.Protocol Handler

variable {cfg : HubConfig}

/-- The state without the room: its rows, its vectors and its flood windows are gone, the
    `seq` counters and the blobs stay. -/
def HubState.forgetRoom (h : HubState) (room : String) : HubState :=
  { h with
    store := { h.store.eraseRoom room with
      serviceWorkers := deleteWhere (fun w => w.room = room) h.store.serviceWorkers
      serviceClaims := deleteWhere (fun c => c.room = room) h.store.serviceClaims
      serviceDispatches := deleteWhere (fun d => d.room = room) h.store.serviceDispatches
      vecFacts := deleteWhere (fun v => ∃ f ∈ h.store.facts, f.room = some room ∧ f.id = v.factId)
        h.store.vecFacts }
    roomRate := deleteWhere (fun e => e.1 = room) h.roomRate }

/-- The window has run its length. -/
def Window.Spent (clock len : Int) (w : Window) : Prop := w.start + len ≤ clock

instance (clock len : Int) (w : Window) : Decidable (w.Spent clock len) :=
  inferInstanceAs (Decidable (w.start + len ≤ clock))

/-- Nobody serves the room, holds a claim in it or has stored a vector for one of its
    facts, and the flood windows kept for it have run out. -/
structure NothingLeft (h : HubState) (room : String) : Prop where
  workers : ∀ w ∈ h.store.serviceWorkers, w.room ≠ room
  claims : ∀ c ∈ h.store.serviceClaims, c.room ≠ room
  vectors : ∀ f ∈ h.store.facts, f.room = some room → ∀ v ∈ h.store.vecFacts, v.factId ≠ f.id
  windows : ∀ e ∈ h.roomRate, e.1 = room →
    3600000 ≤ h.clock ∧ e.2.sends.Spent h.clock 60000 ∧ e.2.blobs.Spent h.clock 3600000

/-! ## Calls that look at neither dispatches nor room windows -/

/-- The state with other dispatch rows and other room windows. -/
def HubState.withLeftovers (h : HubState) (rows : List DispatchRow) (rates : RateTable) :
    HubState :=
  { h with store := { h.store with serviceDispatches := rows }, roomRate := rates }

namespace HubCall

/-- The calls that read or write dispatch rows or room windows. -/
def usesLeftovers : HubCall → Bool
  | .appendMessage _ => true
  | .queuedServiceMessages .. => true
  | .roomRateAllows .. => true
  | .pruneRateWindows _ => true
  | _ => false

end HubCall

theorem tryStore_withLeftovers (h : HubState) (rows : List DispatchRow) (rates : RateTable)
    {r r' : Except Failure Store}
    (same : r' = r.map (fun s => { s with serviceDispatches := rows })) :
    (h.withLeftovers rows rates).tryStore r' =
      ((h.tryStore r).1, (h.tryStore r).2.withLeftovers rows rates) := by
  subst same
  cases r <;> rfl

theorem tryStoreWith_withLeftovers {α : Type} (h : HubState) (rows : List DispatchRow)
    (rates : RateTable) {r r' : Except Failure (α × Store)}
    (same : r' = r.map (fun p => (p.1, { p.2 with serviceDispatches := rows }))) :
    (h.withLeftovers rows rates).tryStoreWith r' =
      ((h.tryStoreWith r).1, (h.tryStoreWith r).2.withLeftovers rows rates) := by
  subst same
  cases r <;> rfl

section Store

variable (s : Store) (rows : List DispatchRow)

theorem redeemInvite_withDispatches (code agent : String) (now : Int) :
    Store.redeemInvite { s with serviceDispatches := rows } code agent now =
      (s.redeemInvite code agent now).map
        (fun p => (p.1, { p.2 with serviceDispatches := rows })) := by
  unfold Store.redeemInvite
  cases s.invites.find? (fun r => r.code = code) with
  | none => rfl
  | some inv =>
    show (if s.isMember inv.room agent then _ else _) =
      Except.map _ (if s.isMember inv.room agent then _ else _)
    by_cases member : s.isMember inv.room agent
    · rw [if_pos member, if_pos member]
      rfl
    · rw [if_neg member, if_neg member]
      split
      · rfl
      · split
        · cases (s.joinRequests.find? (fun r => r.room = inv.room ∧ r.agent = agent)).map
            JoinRow.status with
          | none => dsimp only; split <;> rfl
          | some status => cases status <;> rfl
        · split <;> rfl

theorem resolveJoin_withDispatches (room owner agent : String) (approve : Bool) (now : Int) :
    Store.resolveJoin { s with serviceDispatches := rows } room owner agent approve now =
      (s.resolveJoin room owner agent approve now).map
        (fun p => (p.1, { p.2 with serviceDispatches := rows })) := by
  simp only [Store.resolveJoin, Store.roomOwnedBy]
  split
  · rfl
  · split
    · rfl
    · split <;> rfl

theorem claimServiceMessage_withDispatches (room message worker : String) (secs : Nat) (now : Int) :
    Store.claimServiceMessage { s with serviceDispatches := rows } room message worker secs now =
      ((s.claimServiceMessage room message worker secs now).1,
        { (s.claimServiceMessage room message worker secs now).2 with
          serviceDispatches := rows }) := by
  have serves : Store.servedRole { s with serviceDispatches := rows } room worker = s.servedRole room worker := rfl
  have owns : Store.ownsLiveClaim { s with serviceDispatches := rows } room message worker now =
      s.ownsLiveClaim room message worker now := rfl
  have available : Store.available { s with serviceDispatches := rows } worker now = s.available worker now := rfl
  have addressed : ∀ role, Store.dispatchedTo { s with serviceDispatches := rows } room message role =
      s.dispatchedTo room message role := fun _ => rfl
  have allowed : Store.claimAllowed { s with serviceDispatches := rows } room message worker now =
      s.claimAllowed room message worker now := rfl
  unfold Store.claimServiceMessage
  rw [serves]
  cases s.servedRole room worker with
  | none => rfl
  | some role =>
    simp only [owns, available, addressed, allowed]
    split
    · rfl
    · split
      · rfl
      · split <;> rfl

theorem remember_withDispatches (vecDim : Nat) (author : String) (fact : Fact) (ts : Int)
    (embedding : Option (List UInt32)) (model : Option String) :
    Store.remember { s with serviceDispatches := rows } vecDim author fact ts embedding model =
      (s.remember vecDim author fact ts embedding model).map
        (fun s => { s with serviceDispatches := rows }) := by
  have written : Store.writeFact { s with serviceDispatches := rows } author fact ts model =
      ((s.writeFact author fact ts model).1,
        { (s.writeFact author fact ts model).2 with serviceDispatches := rows }) := by
    simp only [Store.writeFact]
    split
    · rfl
    · split <;> rfl
  simp only [Store.remember, written]
  split
  · rfl
  · split <;> rfl

theorem insertToken_withDispatches (row : TokenRow) :
    Store.insertToken { s with serviceDispatches := rows } row =
      (s.insertToken row).map (fun s => { s with serviceDispatches := rows }) := by
  simp only [Store.insertToken]
  split <;> rfl

theorem pruneFacts_withDispatches (keep : Int) :
    Store.pruneFacts { s with serviceDispatches := rows } keep =
      { s.pruneFacts keep with serviceDispatches := rows } := by
  unfold Store.pruneFacts
  by_cases same : (deleteWhere (fun f : FactRow => f.key = none ∧
      f.id ≤ (s.nthNewestFact f.author f.room keep.toNat).getD (-1)) s.facts).length = s.facts.length
  · exact (if_pos same).trans (by rw [if_pos same])
  · exact (if_neg same).trans (by rw [if_neg same]; rfl)

end Store

theorem exec_withLeftovers (cfg : HubConfig) (op : HubCall) (h : HubState) (rows : List DispatchRow)
    (rates : RateTable) (other : op.usesLeftovers = false) :
    op.exec cfg (h.withLeftovers rows rates) =
      ((op.exec cfg h).1, (op.exec cfg h).2.withLeftovers rows rates) := by
  cases op with
  | appendMessage => cases other
  | queuedServiceMessages => cases other
  | roomRateAllows => cases other
  | pruneRateWindows => cases other
  | deleteRoom room owner =>
    refine tryStore_withLeftovers h rows rates ?_
    show (if h.store.roomOwnedBy room owner then _ else _) = Except.map _ (if _ then _ else _)
    split <;> rfl
  | createInvite code room kind maxUses expires createdBy requireApproval now =>
    refine tryStore_withLeftovers h rows rates ?_
    show (if h.store.invites.any (fun r => r.code = code) then _ else _) =
      Except.map _ (if _ then _ else _)
    split <;> rfl
  | redeemInvite =>
    exact tryStoreWith_withLeftovers h rows rates (redeemInvite_withDispatches h.store rows ..)
  | resolveJoin =>
    exact tryStoreWith_withLeftovers h rows rates (resolveJoin_withDispatches h.store rows ..)
  | mintDirectoryToken =>
    exact tryStore_withLeftovers h rows rates (insertToken_withDispatches h.store rows _)
  | mintWatchToken token room owner expires now =>
    refine tryStore_withLeftovers h rows rates ?_
    show (if h.store.roomOwnedBy room owner then _ else _) = Except.map _ (if _ then _ else _)
    split
    · exact insertToken_withDispatches h.store rows _
    · rfl
  | claimServiceMessage room message worker secs now =>
    have same := claimServiceMessage_withDispatches h.store rows room message worker secs now
    simp only [HubCall.exec, HubState.withLeftovers, same]
  | completeServiceMessage room message worker status now =>
    refine tryStoreWith_withLeftovers h rows rates ?_
    show (if !status.isTerminal then _ else _) = Except.map _ (if !status.isTerminal then _ else _)
    split <;> rfl
  | remember => exact tryStore_withLeftovers h rows rates (remember_withDispatches h.store rows ..)
  | pruneFacts keep =>
    have same := pruneFacts_withDispatches h.store rows keep
    simp only [HubCall.exec, HubState.withLeftovers, same]
  | acquireUpload n =>
    by_cases fits : n ≤ h.inflightFree <;> simp [HubCall.exec, HubState.withLeftovers, fits]
  | _ => rfl

/-! ## Room windows that have run out -/

/-- Two windows that no charge from now on tells apart. -/
def Window.Alike (clock len : Int) (w w' : Window) : Prop :=
  w = w' ∨ (w.Spent clock len ∧ w'.Spent clock len)

namespace RateWindows

/-- The windows a room is charged in. -/
structure Alike (clock : Int) (ws ws' : RateWindows) : Prop where
  sends : ws.sends.Alike clock 60000 ws'.sends
  blobs : ws.blobs.Alike clock 3600000 ws'.blobs

structure Spent (clock : Int) (ws : RateWindows) : Prop where
  sends : ws.sends.Spent clock 60000
  blobs : ws.blobs.Spent clock 3600000

variable {clock : Int} {ws ws' : RateWindows}

theorem Alike.symm (alike : ws.Alike clock ws') : ws'.Alike clock ws :=
  ⟨alike.sends.imp Eq.symm And.symm, alike.blobs.imp Eq.symm And.symm⟩

theorem Spent.alike (spent : ws.Spent clock) (spent' : ws'.Spent clock) : ws.Alike clock ws' :=
  ⟨Or.inr ⟨spent.sends, spent'.sends⟩, Or.inr ⟨spent.blobs, spent'.blobs⟩⟩

theorem Alike.spent (alike : ws.Alike clock ws') (spent : ws.Spent clock) : ws'.Spent clock := by
  refine ⟨?_, ?_⟩
  · rcases alike.sends with same | ⟨-, spent'⟩
    · exact same ▸ spent.sends
    · exact spent'
  · rcases alike.blobs with same | ⟨-, spent'⟩
    · exact same ▸ spent.blobs
    · exact spent'

theorem fresh_spent (late : 3600000 ≤ clock) : RateWindows.fresh.Spent clock := by
  refine ⟨?_, ?_⟩ <;> simp only [RateWindows.fresh, Window.Spent] <;> omega

end RateWindows

theorem chargeWindow_alike {clock len : Int} {limit : Nat} {w w' : Window}
    (alike : w.Alike clock len w') (limited : limit ≠ 0) :
    chargeWindow w limit len clock = chargeWindow w' limit len clock := by
  rcases alike with rfl | ⟨spent, spent'⟩
  · rfl
  · unfold Window.Spent at spent spent'
    have run_out : clock - w.start ≥ len := by omega
    have run_out' : clock - w'.start ≥ len := by omega
    simp [chargeWindow, limited, run_out, run_out']

/-- The two ways a room is charged. -/
def RoomCharge (kind : RateKind) (len : Int) : Prop :=
  (kind = .send ∧ len = 60000) ∨ (kind = .blob ∧ len = 3600000)

theorem charge_alike {clock len : Int} {limit : Nat} {ws ws' : RateWindows} {kind : RateKind}
    (alike : ws.Alike clock ws') (limited : limit ≠ 0) (charge : RoomCharge kind len) :
    (ws.charge kind limit len clock).1 = (ws'.charge kind limit len clock).1 ∧
      (ws.charge kind limit len clock).2.Alike clock (ws'.charge kind limit len clock).2 := by
  rcases charge with ⟨rfl, rfl⟩ | ⟨rfl, rfl⟩
  · have same := chargeWindow_alike alike.sends limited
    refine ⟨?_, ?_, alike.blobs⟩
    · show (chargeWindow ws.sends limit 60000 clock).1 = _
      rw [same]
      rfl
    · exact Or.inl (congrArg Prod.snd same)
  · have same := chargeWindow_alike alike.blobs limited
    refine ⟨?_, alike.sends, ?_⟩
    · show (chargeWindow ws.blobs limit 3600000 clock).1 = _
      rw [same]
      rfl
    · exact Or.inl (congrArg Prod.snd same)

/-- The entries of a room. -/
def ownEntries (table : RateTable) (room : String) : RateTable :=
  deleteWhere (fun e => e.1 ≠ room) table

/-- The windows a room may be charged in next: one of its entries, or fresh ones. -/
def HasWindows (table : RateTable) (room : String) (ws : RateWindows) : Prop :=
  (room, ws) ∈ ownEntries table room ∨ (ownEntries table room = [] ∧ ws = .fresh)

theorem hasWindows_lookup (table : RateTable) (room : String) :
    HasWindows table room (((table.find? (fun e => e.1 = room)).map Prod.snd).getD .fresh) := by
  cases found : table.find? (fun e => e.1 = room) with
  | some e =>
    obtain ⟨key, ws⟩ := e
    have member := List.mem_of_find?_eq_some found
    have same : key = room := by simpa using List.find?_some found
    subst same
    exact Or.inl (mem_deleteWhere.mpr ⟨member, fun other => other rfl⟩)
  | none =>
    refine Or.inr ⟨?_, rfl⟩
    unfold ownEntries deleteWhere
    simpa [List.filter_eq_nil_iff] using found

section Charged

variable (table : RateTable) {room key : String} (w : RateWindows)

theorem others_charged : deleteWhere (fun e => e.1 = room)
    (upsert Prod.fst (room, w) (fun _ => (room, w)) table) =
      deleteWhere (fun e => e.1 = room) table :=
  deleteWhere_upsert_own (fun _ same => same) (fun _ _ => rfl)

theorem others_charged_other (other : key ≠ room) : deleteWhere (fun e => e.1 = room)
    (upsert Prod.fst (key, w) (fun _ => (key, w)) table) =
      upsert Prod.fst (key, w) (fun _ => (key, w)) (deleteWhere (fun e => e.1 = room) table) :=
  deleteWhere_upsert (fun _ own here => other (own.symm.trans here)) (fun _ _ => rfl)

theorem ownEntries_charged_other (other : key ≠ room) :
    ownEntries (upsert Prod.fst (key, w) (fun _ => (key, w)) table) room =
      ownEntries table room :=
  deleteWhere_upsert_own (fun _ own here => other (own.symm.trans here)) (fun _ _ => rfl)

theorem charged_present : (room, w) ∈ upsert Prod.fst (room, w) (fun _ => (room, w)) table := by
  have row : rowOf Prod.fst room (upsert Prod.fst (room, w) (fun _ => (room, w)) table) = _ :=
    rowOf_upsert_self rfl (fun _ _ => rfl)
  have member := (rowOf_mem row).1
  cases found : rowOf Prod.fst room table <;> rwa [found] at member

variable {table w}

theorem hasWindows_charged {ws : RateWindows}
    (has : HasWindows (upsert Prod.fst (room, w) (fun _ => (room, w)) table) room ws) : ws = w := by
  rcases has with member | ⟨none, -⟩
  · exact congrArg Prod.snd (eq_of_mem_upsert (mem_deleteWhere.mp member).1 rfl)
  · have present : (room, w) ∈ ownEntries (upsert Prod.fst (room, w) (fun _ => (room, w)) table)
        room := mem_deleteWhere.mpr ⟨charged_present table w, fun other => other rfl⟩
    rw [none] at present
    cases present

end Charged

/-- Two tables of room windows that differ, if at all, in what `room` is charged from. -/
structure RatesAlike (room : String) (clock : Int) (table table' : RateTable) : Prop where
  late : 3600000 ≤ clock
  others : deleteWhere (fun e => e.1 = room) table = deleteWhere (fun e => e.1 = room) table'
  own : ∀ ws ws', HasWindows table room ws → HasWindows table' room ws' → ws.Alike clock ws'

theorem RatesAlike.lookup {room key : String} {clock : Int} {table table' : RateTable}
    (alike : RatesAlike room clock table table') (other : key ≠ room) :
    table.find? (fun e => e.1 = key) = table'.find? (fun e => e.1 = key) := by
  have read : ∀ table : RateTable, rowOf Prod.fst key (deleteWhere (fun e => e.1 = room) table) =
      rowOf Prod.fst key table := by
    intro table
    rw [rowOf_deleteWhere (q := fun k => k = room) (fun _ => Iff.rfl), if_neg other]
  have same := congrArg (rowOf Prod.fst key) alike.others
  rwa [read, read] at same

theorem RatesAlike.charge {room : String} {clock len : Int} {kind : RateKind}
    {table table' : RateTable} (alike : RatesAlike room clock table table')
    (charge : RoomCharge kind len) (key : String) (limit : Nat) :
    (chargeKey table key kind limit len clock).1 = (chargeKey table' key kind limit len clock).1 ∧
      RatesAlike room clock (chargeKey table key kind limit len clock).2
        (chargeKey table' key kind limit len clock).2 := by
  by_cases unlimited : limit = 0
  · simp only [chargeKey, unlimited, if_true]
    exact ⟨trivial, alike⟩
  · simp only [chargeKey, unlimited, if_false]
    by_cases same : key = room
    · subst same
      have charged := charge_alike (alike.own _ _ (hasWindows_lookup table key)
        (hasWindows_lookup table' key)) unlimited charge
      refine ⟨charged.1, alike.late, ?_, ?_⟩
      · rw [others_charged, others_charged]
        exact alike.others
      · intro ws ws' has has'
        rw [hasWindows_charged has, hasWindows_charged has']
        exact charged.2
    · rw [alike.lookup same]
      refine ⟨rfl, alike.late, ?_, ?_⟩
      · rw [others_charged_other _ _ same, others_charged_other _ _ same, alike.others]
      · intro ws ws' has has'
        unfold HasWindows at has has'
        rw [ownEntries_charged_other _ _ same] at has has'
        exact alike.own ws ws' has has'

/-- What pruning leaves of a room's windows. -/
theorem hasWindows_pruned {table : RateTable} {room : String} {clock : Int} {ws : RateWindows}
    (has : HasWindows (table.filter (fun e =>
      clock - e.2.sends.start < 3600000 || clock - e.2.blobs.start < 3600000)) room ws) :
    HasWindows table room ws ∨
      (ws = .fresh ∧ ∃ old, HasWindows table room old ∧ old.Spent clock) := by
  rcases has with member | ⟨none, rfl⟩
  · left
    left
    obtain ⟨member, own⟩ := mem_deleteWhere.mp member
    exact mem_deleteWhere.mpr ⟨(List.mem_filter.mp member).1, own⟩
  · cases entries : ownEntries table room with
    | nil => exact Or.inl (Or.inr ⟨entries, rfl⟩)
    | cons e rest =>
      right
      have member : e ∈ ownEntries table room := by rw [entries]; simp
      obtain ⟨key, old⟩ := e
      obtain ⟨here, own⟩ := mem_deleteWhere.mp member
      have same : key = room := by simpa using own
      subst same
      refine ⟨rfl, old, Or.inl member, ?_⟩
      have dropped : ¬ (key, old) ∈ table.filter (fun e : String × RateWindows =>
          clock - e.2.sends.start < 3600000 || clock - e.2.blobs.start < 3600000) := by
        intro kept
        have left : (key, old) ∈ ownEntries (table.filter (fun e =>
            clock - e.2.sends.start < 3600000 || clock - e.2.blobs.start < 3600000)) key :=
          mem_deleteWhere.mpr ⟨kept, own⟩
        rw [none] at left
        cases left
      have idle : ¬ (clock - old.sends.start < 3600000) ∧ ¬ (clock - old.blobs.start < 3600000) := by
        simpa [here] using dropped
      refine ⟨?_, ?_⟩ <;> unfold Window.Spent <;> omega

theorem RatesAlike.prune {room : String} {clock : Int} {table table' : RateTable}
    (alike : RatesAlike room clock table table') :
    RatesAlike room clock
      (table.filter (fun e =>
        clock - e.2.sends.start < 3600000 || clock - e.2.blobs.start < 3600000))
      (table'.filter (fun e =>
        clock - e.2.sends.start < 3600000 || clock - e.2.blobs.start < 3600000)) := by
  have fresh := RateWindows.fresh_spent alike.late
  refine ⟨alike.late, ?_, ?_⟩
  · unfold deleteWhere
    rw [List.filter_comm, List.filter_comm _ _ table']
    exact congrArg _ alike.others
  · intro ws ws' has has'
    rcases hasWindows_pruned has with old | ⟨rfl, gone, before, spent⟩
    · rcases hasWindows_pruned has' with old' | ⟨rfl, gone, before, spent⟩
      · exact alike.own ws ws' old old'
      · exact ((alike.own ws gone old before).symm.spent spent).alike fresh
    · rcases hasWindows_pruned has' with old' | ⟨rfl, -, -, -⟩
      · exact fresh.alike ((alike.own gone ws' before old').spent spent)
      · exact fresh.alike fresh

theorem RatesAlike.later {room : String} {clock clock' : Int} {table table' : RateTable}
    (alike : RatesAlike room clock table table') (later : clock ≤ clock') :
    RatesAlike room clock' table table' := by
  have window : ∀ {len : Int} {w w' : Window}, w.Alike clock len w' → w.Alike clock' len w' := by
    intro len w w' alike
    refine alike.imp_right ?_
    rintro ⟨spent, spent'⟩
    unfold Window.Spent at spent spent' ⊢
    exact ⟨by omega, by omega⟩
  refine ⟨by have := alike.late; omega, alike.others, ?_⟩
  intro ws ws' has has'
  have own := alike.own ws ws' has has'
  exact ⟨window own.sends, window own.blobs⟩

/-! ## Dispatch rows of messages that are gone -/

section Dispatches

variable (room : String) (dead : List String)

/-- The dispatch rows without those that name a dead message of the room. -/
def liveDispatches (s : Store) : List DispatchRow :=
  deleteWhere (fun d => d.room = room ∧ d.message ∈ dead) s.serviceDispatches

/-- The store as a reader sees it who has none of the dead rows. -/
def withoutDead (s : Store) : Store := { s with serviceDispatches := liveDispatches room dead s }

variable {room dead}

theorem insertDispatches_withoutDead (s : Store) {message : String} (alive : message ∉ dead)
    (r : String) (seq : Int) (roles : List String) :
    (withoutDead room dead s).insertDispatches r message seq roles =
      withoutDead room dead (s.insertDispatches r message seq roles) := by
  unfold Store.insertDispatches
  induction roles generalizing s with
  | nil => rfl
  | cons role roles ih =>
    rw [List.foldl_cons, List.foldl_cons, ← ih]
    congr 1
    unfold Store.insertDispatch withoutDead liveDispatches
    rw [deleteWhere_insertNew]
    rintro d same ⟨-, isDead⟩
    have own : d.message = message := congrArg (fun k => k.2.1) same
    exact alive (own ▸ isDead)

theorem appendMessage_withoutDead (s : Store) {m : NewMessage} (alive : m.id ∉ dead) :
    (withoutDead room dead s).appendMessage m =
      (s.appendMessage m).map (fun p => (p.1, withoutDead room dead p.2)) := by
  have inserted : (withoutDead room dead (s.insertMessage m)).insertDispatches m.room m.id
      (s.messageSeq + 1) m.roles = _ := insertDispatches_withoutDead _ alive _ _ _
  have original : (withoutDead room dead s).original m = s.original m := rfl
  have messages : (withoutDead room dead s).messages = s.messages := rfl
  unfold Store.appendMessage
  rw [original]
  cases s.original m with
  | some row => rfl
  | none =>
    simp only [messages]
    split
    · rfl
    · exact congrArg Except.ok (Prod.ext rfl inserted)

/-- A dead row names no message, so the queue does not show it. -/
theorem queued_withoutDead {s : Store} (gone : ∀ r ∈ s.messages, r.room = room → r.id ∉ dead)
    (r worker role : String) (limit : Option Nat) (now : Int) :
    (withoutDead room dead s).queuedServiceMessages r worker role limit now =
      s.queuedServiceMessages r worker role limit now := by
  have dropped : ∀ rows : List DispatchRow,
      (rows.filter (fun d => !decide (d.room = room ∧ d.message ∈ dead))).filterMap
        (fun d => s.messages.find? (fun m => m.id = d.message ∧ m.room = d.room)) =
      rows.filterMap (fun d => s.messages.find? (fun m => m.id = d.message ∧ m.room = d.room)) := by
    intro rows
    rw [List.filterMap_filter]
    congr 1
    funext d
    split
    · rfl
    · rename_i isDead
      have isDead : d.room = room ∧ d.message ∈ dead := by simpa using isDead
      symm
      rw [List.find?_eq_none]
      intro m member found
      have same : m.id = d.message ∧ m.room = d.room := by simpa using found
      exact gone m member (same.2.trans isDead.1) (same.1 ▸ isDead.2)
  have serves : (withoutDead room dead s).servedRole r worker = s.servedRole r worker := rfl
  have available : (withoutDead room dead s).available worker now = s.available worker now := rfl
  unfold Store.queuedServiceMessages
  rw [serves]
  cases s.servedRole r worker with
  | none => rfl
  | some served =>
    simp only [available]
    split
    · rfl
    · split
      · rfl
      · rw [← dropped, filter_insertionSort, List.filter_comm]
        unfold withoutDead liveDispatches deleteWhere
        simp only [decide_not]
        rfl

end Dispatches

/-! ## The two states stay alike -/

/-- What a request served after a deletion calls: it appends under ids that no leftover
    dispatch row names, and uses the time it has read. -/
def afterDelete (dead : List String) (past : List (HubDone cfg)) : HubCall → Prop
  | .appendMessage m => m.id ∉ dead
  | .roomRateAllows _ _ now => ⟨.nowMs, now⟩ ∈ past
  | .pruneRateWindows now => ⟨.nowMs, now⟩ ∈ past
  | .tick _ => past = []
  | _ => True

/-- The second state is the first without its leftovers: the dispatch rows of dead messages
    of the room and the windows that have run out. -/
structure Leftover (room : String) (dead : List String) (past : List (HubDone cfg))
    (h h' : HubState) : Prop where
  same : h' = h.withLeftovers (liveDispatches room dead h.store) h'.roomRate
  gone : ∀ r ∈ h.store.messages, r.room = room → r.id ∉ dead
  rates : h.roomRate = h'.roomRate ∨ RatesAlike room h.clock h.roomRate h'.roomRate
  read : ∀ now, ⟨.nowMs, now⟩ ∈ past → now = h.clock

theorem tryStore_clock (h : HubState) (r : Except Failure Store) :
    (h.tryStore r).2.clock = h.clock := by
  cases r <;> rfl

theorem tryStoreWith_clock {α : Type} (h : HubState) (r : Except Failure (α × Store)) :
    (h.tryStoreWith r).2.clock = h.clock := by
  cases r <;> rfl

namespace HubCall

/-- Time passes. -/
def ticks : HubCall → Bool
  | .tick _ => true
  | _ => false

end HubCall

theorem exec_clock (op : HubCall) (h : HubState) (other : op.ticks = false) :
    (op.exec cfg h).2.clock = h.clock := by
  cases op with
  | tick ms => cases other
  | deleteRoom | createInvite | mintDirectoryToken | mintWatchToken | remember =>
    exact tryStore_clock h _
  | redeemInvite | resolveJoin | completeServiceMessage | appendMessage =>
    exact tryStoreWith_clock h _
  | acquireUpload n =>
    simp only [HubCall.exec]
    split <;> rfl
  | roomRateAllows room kind now => cases kind <;> rfl
  | _ => rfl

section Stays

variable {room : String} {dead : List String} {past : List (HubDone cfg)} {h h' : HubState}

/-- A call answers alike and keeps the relation if it takes the leftovers along. -/
theorem Leftover.step {op : HubCall} (table : RateTable)
    (equal : op.exec cfg h' = ((op.exec cfg h).1, (op.exec cfg h).2.withLeftovers
      (liveDispatches room dead (op.exec cfg h).2.store) table))
    (gone : ∀ r ∈ (op.exec cfg h).2.store.messages, r.room = room → r.id ∉ dead)
    (rates : (op.exec cfg h).2.roomRate = table ∨
      RatesAlike room (op.exec cfg h).2.clock (op.exec cfg h).2.roomRate table)
    (read : ∀ now, (⟨.nowMs, now⟩ : HubDone cfg) ∈ ⟨op, (op.exec cfg h).1⟩ :: past →
      now = (op.exec cfg h).2.clock) :
    (op.exec cfg h).1 = (op.exec cfg h').1 ∧
      Leftover room dead (⟨op, (op.exec cfg h).1⟩ :: past) (op.exec cfg h).2
        (op.exec cfg h').2 := by
  rw [equal]
  exact ⟨rfl, rfl, gone, rates, read⟩

/-- What was read stays the time. -/
theorem read_step (read : ∀ now, (⟨.nowMs, now⟩ : HubDone cfg) ∈ past → now = h.clock)
    {op : HubCall} (other : op.ticks = false) :
    ∀ now, (⟨.nowMs, now⟩ : HubDone cfg) ∈ ⟨op, (op.exec cfg h).1⟩ :: past →
      now = (op.exec cfg h).2.clock := by
  intro now member
  rw [exec_clock op h other]
  rcases List.mem_cons.mp member with same | old
  · cases op with
    | nowMs => exact eq_of_heq (Sigma.mk.inj same).2
    | _ => cases (Sigma.mk.inj same).1
  · exact read now old

theorem append_withLeftovers (table : RateTable) {m : NewMessage} (alive : m.id ∉ dead) :
    HubCall.exec cfg (.appendMessage m) (h.withLeftovers (liveDispatches room dead h.store) table) =
      ((HubCall.exec cfg (.appendMessage m) h).1, (HubCall.exec cfg (.appendMessage m) h).2.withLeftovers
        (liveDispatches room dead (HubCall.exec cfg (.appendMessage m) h).2.store) table) := by
  show (h.withLeftovers _ table).tryStoreWith ((withoutDead room dead h.store).appendMessage m) = _
  rw [appendMessage_withoutDead h.store alive]
  simp only [HubCall.exec]
  cases h.store.appendMessage m <;> rfl

/-- Messages with dead ids stay away. -/
theorem exec_gone (op : HubCall) (gone : ∀ r ∈ h.store.messages, r.room = room → r.id ∉ dead)
    (may : afterDelete dead past op) :
    ∀ r ∈ (op.exec cfg h).2.store.messages, r.room = room → r.id ∉ dead := by
  intro r member here
  cases messageChange_exec cfg op h with
  | kept p rows _ =>
    rw [rows] at member
    exact gone r (List.mem_filter.mp member).1 here
  | appended m append rows _ =>
    rw [rows] at member
    rcases List.mem_append.mp member with old | new
    · exact gone r old here
    · rw [List.mem_singleton.mp new]
      rw [append] at may
      exact may

/-- A call that uses no leftovers leaves them alone. -/
theorem exec_leftovers (cfg : HubConfig) (op : HubCall) (h : HubState) (other : op.usesLeftovers = false) :
    (op.exec cfg h).2.store.serviceDispatches = h.store.serviceDispatches ∧
      (op.exec cfg h).2.roomRate = h.roomRate := by
  have own := congrArg Prod.snd
    (exec_withLeftovers cfg op h h.store.serviceDispatches h.roomRate other)
  have rows := congrArg (fun after : HubState => after.store.serviceDispatches) own
  have rates := congrArg HubState.roomRate own
  exact ⟨rows, rates⟩

theorem append_rates (m : NewMessage) (h : HubState) :
    (HubCall.exec cfg (.appendMessage m) h).2.roomRate = h.roomRate := by
  simp only [HubCall.exec]
  cases h.store.appendMessage m <;> rfl

theorem roomRateAllows_alike (cfg : HubConfig) {table : RateTable}
    (rates : h.roomRate = table ∨ RatesAlike room h.clock h.roomRate table)
    (rows : List DispatchRow) (r : String) (kind : RateKind) :
    ∃ table', HubCall.exec cfg (.roomRateAllows r kind h.clock) (h.withLeftovers rows table) =
        ((HubCall.exec cfg (.roomRateAllows r kind h.clock) h).1,
          (HubCall.exec cfg (.roomRateAllows r kind h.clock) h).2.withLeftovers rows table') ∧
      ((HubCall.exec cfg (.roomRateAllows r kind h.clock) h).2.roomRate = table' ∨
        RatesAlike room h.clock (HubCall.exec cfg (.roomRateAllows r kind h.clock) h).2.roomRate
          table') := by
  rcases rates with rfl | alike
  · refine ⟨_, ?_, Or.inl rfl⟩
    cases kind <;> rfl
  · cases kind with
    | operation => exact ⟨table, rfl, Or.inr alike⟩
    | send =>
      obtain ⟨same, after⟩ := alike.charge (Or.inl ⟨rfl, rfl⟩) r
        cfg.limits.maxRoomSendsPerMin
      exact ⟨_, Prod.ext same.symm rfl, Or.inr after⟩
    | blob =>
      obtain ⟨same, after⟩ := alike.charge (Or.inr ⟨rfl, rfl⟩) r
        cfg.limits.maxRoomBlobsPerHour
      exact ⟨_, Prod.ext same.symm rfl, Or.inr after⟩

/-- No call after a deletion tells the two states apart. -/
theorem leftover_simulates (cfg : HubConfig) (room : String) (dead : List String) :
    Simulates (hubMachine cfg) (afterDelete dead) (Leftover room dead) := by
  intro past op h h' may left
  obtain ⟨same, gone, rates, read⟩ := left
  generalize h'.roomRate = table at same rates
  subst same
  by_cases uses : op.usesLeftovers
  · cases op with
    | appendMessage m =>
      refine Leftover.step table (append_withLeftovers table may) (exec_gone _ gone may) ?_
        (read_step read rfl)
      rw [append_rates, exec_clock _ _ rfl]
      exact rates
    | queuedServiceMessages r worker role limit now =>
      refine Leftover.step table (Prod.ext ?_ rfl) gone rates (read_step read rfl)
      exact queued_withoutDead gone r worker role limit now
    | roomRateAllows r kind now =>
      obtain rfl := read now may
      obtain ⟨table', equal, after⟩ := roomRateAllows_alike cfg rates
        (liveDispatches room dead h.store) r kind
      refine Leftover.step table' ?_ ?_ ?_ (read_step read rfl)
      · rw [equal]
        cases kind <;> rfl
      · cases kind <;> exact gone
      · rw [exec_clock _ _ rfl]
        exact after
    | pruneRateWindows now =>
      obtain rfl := read now may
      refine Leftover.step (table.filter (fun e =>
        h.clock - e.2.sends.start < 3600000 || h.clock - e.2.blobs.start < 3600000)) ?_ gone ?_
        (read_step read rfl)
      · rfl
      · rcases rates with rfl | alike
        · exact Or.inl rfl
        · exact Or.inr alike.prune
    | _ => cases uses
  · have other : op.usesLeftovers = false := by simpa using uses
    obtain ⟨rows, kept⟩ := exec_leftovers cfg op h other
    have equal := exec_withLeftovers cfg op h (liveDispatches room dead h.store) table other
    have live : liveDispatches room dead h.store =
        liveDispatches room dead (op.exec cfg h).2.store := by
      unfold liveDispatches
      rw [rows]
    refine Leftover.step table (equal.trans (by rw [live])) (exec_gone op gone may) ?_ ?_
    · rw [kept]
      cases op with
      | tick ms =>
        refine rates.imp_right (fun alike => alike.later ?_)
        show h.clock ≤ h.clock + ms
        omega
      | _ => rwa [exec_clock _ _ rfl]
    · cases op with
      | tick ms =>
        have first : past = [] := may
        subst first
        simp
      | _ => exact read_step read rfl

end Stays

/-! ## The law -/

/-- The ids drawn for later messages are new: no dispatch row of the room names one. -/
def FreshIds (h : HubState) (room : String) (reqs : List Request) : Prop :=
  ∀ req ∈ reqs, ∀ id, req.uuid = some id →
    ∀ d ∈ h.store.serviceDispatches, d.room = room → d.message ≠ id

/-- Two stores give every agent the same roles, claims and queued work. -/
structure RolesAlike (s s' : Store) : Prop where
  workers : s.serviceWorkers = s'.serviceWorkers
  claims : s.serviceClaims = s'.serviceClaims
  queued : ∀ room worker role limit now, s.queuedServiceMessages room worker role limit now =
    s'.queuedServiceMessages room worker role limit now

section Law

variable {h : HubState} {room owner : String}

theorem deleteRoom_owned (owned : h.store.roomOwnedBy room owner) :
    (HubCall.exec cfg (.deleteRoom room owner) h).2 =
      { h with store := h.store.eraseRoom room } := by
  simp [HubCall.exec, Store.deleteRoom, owned, HubState.tryStore]

/-- The messages that dispatch rows of the room name. -/
def dispatchedIn (h : HubState) (room : String) : List String :=
  (h.store.serviceDispatches.filter (fun d => d.room = room)).map DispatchRow.message

theorem mem_dispatchedIn {d : DispatchRow} (member : d ∈ h.store.serviceDispatches)
    (here : d.room = room) : d.message ∈ dispatchedIn h room :=
  List.mem_map_of_mem (List.mem_filter.mpr ⟨member, by simpa using here⟩)

/-- After the deletion the state differs from the one without the room in leftovers. -/
theorem NothingLeft.leftover (nothing : NothingLeft h room) :
    Leftover room (dispatchedIn h room) ([] : List (HubDone cfg))
      { h with store := h.store.eraseRoom room } (h.forgetRoom room) := by
  have workers : deleteWhere (fun w => w.room = room) h.store.serviceWorkers =
      h.store.serviceWorkers := deleteWhere_eq_self.mpr nothing.workers
  have claims : deleteWhere (fun c => c.room = room) h.store.serviceClaims =
      h.store.serviceClaims := deleteWhere_eq_self.mpr nothing.claims
  have vectors : deleteWhere
      (fun v => ∃ f ∈ h.store.facts, f.room = some room ∧ f.id = v.factId) h.store.vecFacts =
      h.store.vecFacts := by
    refine deleteWhere_eq_self.mpr ?_
    rintro v member ⟨f, fact, here, same⟩
    exact nothing.vectors f fact here v member same.symm
  have dispatches : deleteWhere (fun d => d.room = room) h.store.serviceDispatches =
      deleteWhere (fun d => d.room = room ∧ d.message ∈ dispatchedIn h room)
        h.store.serviceDispatches := by
    refine List.filter_congr ?_
    intro d member
    have same : d.room = room ∧ d.message ∈ dispatchedIn h room ↔ d.room = room :=
      ⟨And.left, fun here => ⟨here, mem_dispatchedIn member here⟩⟩
    simp only [same]
  refine ⟨?_, ?_, ?_, nofun⟩
  · unfold HubState.forgetRoom HubState.withLeftovers liveDispatches
    rw [workers, claims, vectors, dispatches]
    rfl
  · intro r member here
    exact absurd here (mem_deleteWhere.mp member).2
  · by_cases kept : ∃ e ∈ h.roomRate, e.1 = room
    · obtain ⟨e, member, here⟩ := kept
      have late := (nothing.windows e member here).1
      refine Or.inr ⟨late, ?_, ?_⟩
      · unfold deleteWhere HubState.forgetRoom
        simp [deleteWhere, List.filter_filter]
      · intro ws ws' has has'
        have spent : ws.Spent h.clock := by
          rcases has with entry | ⟨-, rfl⟩
          · have windows := (nothing.windows _ (mem_deleteWhere.mp entry).1 rfl).2
            exact ⟨windows.1, windows.2⟩
          · exact RateWindows.fresh_spent late
        have spent' : ws'.Spent h.clock := by
          rcases has' with entry | ⟨-, rfl⟩
          · exact absurd rfl (mem_deleteWhere.mp (mem_deleteWhere.mp entry).1).2
          · exact RateWindows.fresh_spent late
        exact spent.alike spent'
    · refine Or.inl (deleteWhere_eq_self.mpr ?_).symm
      exact fun e member here => kept ⟨e, member, here⟩

theorem Leftover.rolesAlike {dead : List String} {past : List (HubDone cfg)} {h h' : HubState}
    (left : Leftover room dead past h h') : RolesAlike h.store h'.store := by
  have store : h'.store = withoutDead room dead h.store := by rw [left.same]; rfl
  rw [store]
  exact ⟨rfl, rfl, fun r worker role limit now =>
    (queued_withoutDead left.gone r worker role limit now).symm⟩

theorem serve_afterDelete (cfg : HubConfig) (cardBytes : AgentCard → List UInt8)
    {reqs : List Request} (fresh : FreshIds h room reqs) {req : Request} (member : req ∈ reqs) :
    (serve cfg cardBytes req).Follows (afterDelete (dispatchedIn h room)) [] := by
  refine (serve_may cfg cardBytes req).mono ?_
  intro past op may
  cases op with
  | appendMessage m =>
    intro dispatched
    obtain ⟨d, row, same⟩ := List.mem_map.mp dispatched
    obtain ⟨row, here⟩ := List.mem_filter.mp row
    exact fresh req member m.id may d row (by simpa using here) same
  | _ => trivial

/-- Where a deletion leaves nothing behind, the hub answers every later sequence of requests
    as if the room had never been there, and gives every agent the same roles, claims and
    queued work; a worker or a claim of the room stays when there was one. -/
theorem deleted_room_forgotten (cfg : HubConfig) (cardBytes : AgentCard → List UInt8)
    (owned : h.store.roomOwnedBy room owner) :
    (NothingLeft h room → ∀ reqs, FreshIds h room reqs →
      answers (serve cfg cardBytes) reqs (HubCall.exec cfg (.deleteRoom room owner) h).2 =
        answers (serve cfg cardBytes) reqs (h.forgetRoom room) ∧
      RolesAlike
        (leaves (serve cfg cardBytes) reqs (HubCall.exec cfg (.deleteRoom room owner) h).2).store
        (leaves (serve cfg cardBytes) reqs (h.forgetRoom room)).store) ∧
    (RolesAlike (HubCall.exec cfg (.deleteRoom room owner) h).2.store (h.forgetRoom room).store →
      (∀ w ∈ h.store.serviceWorkers, w.room ≠ room) ∧
        ∀ c ∈ h.store.serviceClaims, c.room ≠ room) := by
  rw [deleteRoom_owned owned]
  refine ⟨?_, ?_⟩
  · intro nothing reqs fresh
    obtain ⟨same, left⟩ := answers_simulates (leftover_simulates cfg room (dispatchedIn h room))
      (fun past s s' left => ⟨left.same, left.gone, left.rates, nofun⟩)
      (fun req member => serve_afterDelete cfg cardBytes fresh member) nothing.leftover
    exact ⟨same, left.rolesAlike⟩
  · intro alike
    exact ⟨deleteWhere_eq_self.mp alike.workers.symm, deleteWhere_eq_self.mp alike.claims.symm⟩

end Law

/-- Alice has a channel `lab` with a message in it, and two hours have passed. -/
def labHub : HubState :=
  (demoPlay [.welcome alice, demoFrame 1 alice (.invite .channel (some "lab") none none false),
    demoFrame 2 alice (.send (.room "lab") [.text "hi"] none none none), .tick 7200000]).state

theorem labHub_nothing : NothingLeft labHub "lab" := by
  constructor <;> decide +kernel

/-- Bob comes, and Alice opens the channel again. -/
def labAgain : List Request :=
  [.welcome bob, demoFrame 6 alice (.invite .channel (some "lab") none none false),
    demoFrame 7 alice (.pull "lab" none none none none)]

theorem deleted_room_forgotten_demo :
    labHub.store.roomOwnedBy "lab" "A" ∧
      answers demoServe labAgain (HubCall.exec demoConfig (.deleteRoom "lab" "A") labHub).2 =
        answers demoServe labAgain (labHub.forgetRoom "lab") :=
  ⟨by decide +kernel, ((deleted_room_forgotten demoConfig (fun _ => []) (by decide +kernel)).1
    labHub_nothing labAgain (by unfold FreshIds; decide +kernel)).1⟩

/-- Alice serves `review`. -/
def reviewHub : HubState :=
  (demoPlay [.welcome alice, demoFrame 1 alice (.serve "review")]).state

/-- After the room is gone Bob serves the role, and Alice, who joins by a request for work,
    asks who is there. -/
def reviewAgain : List Request :=
  [.welcome bob, demoFrame 6 bob (.serve "review"),
    demoFrame 7 alice (.send (.service "review") [.text "hi"] none none none),
    demoFrame 8 alice (.roster "svc.review")]

/-- A worker of a deleted room is a worker of the next room of that name. -/
theorem deleted_room_keeps_worker :
    reviewHub.store.roomOwnedBy "svc.review" "A" ∧ FreshIds reviewHub "svc.review" reviewAgain ∧
      answers demoServe reviewAgain
          (HubCall.exec demoConfig (.deleteRoom "svc.review" "A") reviewHub).2 ≠
        answers demoServe reviewAgain (reviewHub.forgetRoom "svc.review") := by
  refine ⟨by decide +kernel, by unfold FreshIds; decide +kernel, by decide +kernel⟩

end Parler.Hub
