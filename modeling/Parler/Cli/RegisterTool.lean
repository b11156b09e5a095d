import Parler.Cli.Mcp
import Parler.Hub.Connection
import Parler.Hub.Demo

/-!
# Publishing a card again

`parler_register` of `crates/parler-cli/src/mcp.rs` looks up the agent's card, puts the arguments over it, and
publishes the result with `MeshAgent::register`. A lookup that fails counts as the answer that there is no
card.
-/

namespace Parler.Cli

open Parler.Lib Parler.Protocol Parler.Hub Parler.Connector

/-! ## The program -/

/-- `str_list` -/
def strList (args : Map) (key : String) : List String :=
  match args.get key with
  | some (.arr items) => items.filterMap asStr
  | _ => []

/-- `(!items.is_empty()).then_some(items)` -/
def listed {α : Type} (items : List α) : Option (List α) := if items.isEmpty then none else some items

/-- The visibility and the card that `parler_register` publishes, with the entry that it has looked up. -/
def mergedCard (me : Authed) (args : Map) (current : Option DirectoryEntry) : Visibility × AgentCard :=
  let asked : Visibility := if textArg args "visibility" = some "public" then .pub else .priv
  let visibility :=
    if (textArg args "visibility").isSome then asked else (current.map DirectoryEntry.visibility).getD asked
  let tags :=
    if (args.get "tags").isSome then strList args "tags"
    else (current.bind (fun e => e.card.tags)).getD []
  let skills : List AgentSkill :=
    if (args.get "skills").isSome then (strList args "skills").map (fun k => ⟨k, k, none⟩)
    else (current.bind (fun e => e.card.skills)).getD []
  let description := (textArg args "description").or (current.bind (fun e => e.card.description))
  (visibility, ⟨me.id, me.name, .agent, me.role, description, listed tags, listed skills, none,
    some protocolVersion⟩)

/-- `agent.lookup(..).await.ok().flatten()` -/
def lookedUp : Option ServerFrame → Option DirectoryEntry
  | some (.card entry) => entry
  | _ => none

/-- The end of `MeshAgent::register`. -/
def registeredReply : Option ServerFrame → Option (Visibility × Bool)
  | some (.registered _ visibility verified) => some (visibility, verified)
  | _ => none

/-- `parler_register`: the visibility and whether the signature is verified. `sign` makes the signature of
    a card. -/
def registerTool (me : Authed) (sign : AgentCard → Option String) (args : Map) :
    McpClient (Option (Visibility × Bool)) :=
  .call (ClientCall.request (.lookup me.id)) fun reply =>
    let (visibility, card) := mergedCard me args (lookedUp reply)
    match sign card with
    | none => .ret none
    | some sig =>
        .call (ClientCall.request (.register card visibility (some sig))) fun reply =>
          .ret (registeredReply reply)

/-! ## A call -/

variable (cfg : HubConfig) (cardBytes : AgentCard → List UInt8) (fresh : Hub.Fresh) (me : Authed)

/-- The hub's reply to a frame that its rate limit lets pass. -/
def hubReply (frame : ClientFrame) (h : HubState) : Option ServerFrame × HubState :=
  match validateFrameBounds cfg frame with
  | .error _ => (none, h)
  | .ok _ =>
      match (handleFrame cfg me fresh cardBytes frame).prog.run h with
      | (.ok reply, h) => (some reply, h)
      | (.error _, h) => (none, h)

/-- What a tool finds that only makes requests. -/
def answerRequests (reply : ClientFrame → HubState → Option ServerFrame × HubState) :
    (op : ClientCall mcpHost) → HubState → op.Res × HubState
  | .request frame, h => reply frame h
  | .admitMessage _, h => (none, h)
  | .complete _, h => ((), h)
  | .release _, h => (none, h)
  | .sign .., h => (none, h)
  | .ask .next, h => (McpInput.closed, h)
  | .ask (.reply _), h => ((), h)
  | .ask .budget, h => ((none : Option Nat), h)
  | .ask .poll, h => (false, h)
  | .ask .sessionKey, h => ((none : Option (Option String)), h)
  | .ask (.log _), h => ((), h)

/-- The hub where the lookup has an outcome of its own. -/
def lookupReply (outcome : Option ServerFrame) : ClientFrame → HubState → Option ServerFrame × HubState
  | .lookup _, h => (outcome, h)
  | frame, h => hubReply cfg cardBytes fresh me frame h

/-- What may come of the lookup: the hub's answer, or an error of the transport or the hub. -/
inductive LookupOutcome (h : HubState) : Option ServerFrame → Prop
  | answered (now : Int) : LookupOutcome h (some (.card (h.store.lookupCard me.id cfg.name true now)))
  | failed {reply : Option ServerFrame} (no_card : ∀ entry, reply ≠ some (.card entry)) : LookupOutcome h reply

def registerAt (sign : AgentCard → Option String) (args : Map) (outcome : Option ServerFrame) (h : HubState) :
    Option (Visibility × Bool) × HubState :=
  drive (answerRequests (lookupReply cfg cardBytes fresh me outcome)) (registerTool me sign args) h

/-- The stored card of an agent. -/
def cardRow (s : Store) (agent : String) : Option DirectoryRow := rowOf DirectoryRow.agent agent s.directory

variable {cfg cardBytes fresh me}

/-- What the lookup finds is the stored card. -/
theorem lookedUp_cases {h : HubState} {outcome : Option ServerFrame} {row : DirectoryRow}
    (possible : LookupOutcome cfg me h outcome) (there : cardRow h.store me.id = some row) :
    lookedUp outcome = none ∨
      ∃ entry, lookedUp outcome = some entry ∧ entry.card = row.card ∧ entry.visibility = row.visibility := by
  cases possible with
  | failed no_card =>
    refine Or.inl ?_
    unfold lookedUp
    split
    · rename_i entry
      exact absurd rfl (no_card entry)
    · rfl
  | answered now =>
    have found : h.store.directory.find? (fun d => d.agent = me.id) = some row := there
    show h.store.lookupCard me.id cfg.name true now = none ∨
      ∃ entry, h.store.lookupCard me.id cfg.name true now = some entry ∧ _
    unfold Store.lookupCard
    rw [found]
    dsimp only
    cases h.store.agents.find? (fun a => a.id = row.agent) with
    | none => exact Or.inl rfl
    | some a => exact Or.inr ⟨_, rfl, rfl, rfl⟩

theorem cardRow_registerCard (s : Store) (ext : Externals) (card : AgentCard) (sig : Option String)
    (verified : Bool) (visibility : Visibility) (now : Int) :
    ∃ row, cardRow (s.registerCard ext card sig verified visibility now) card.id = some row ∧
      (row.visibility, row.card) = (visibility, card) := by
  unfold cardRow Store.registerCard
  refine ⟨_, rowOf_upsert_self rfl (fun _ same => same), ?_⟩
  cases rowOf DirectoryRow.agent card.id s.directory <;> rfl

theorem hubReply_some {frame : ClientFrame} {h after : HubState} {reply : ServerFrame}
    (replied : hubReply cfg cardBytes fresh me frame h = (some reply, after)) :
    (handleFrame cfg me fresh cardBytes frame).prog.run h = (.ok reply, after) := by
  unfold hubReply at replied
  split at replied
  · cases replied
  · split at replied
    · rename_i ran
      rw [ran]
      cases replied
      rfl
    · cases replied

/-- A registration that the hub grants is the agent's own, and is in the directory. -/
theorem handleRegister_granted {h after : HubState} {card : AgentCard} {bytes : List UInt8}
    {visibility : Visibility} {sig : String} {reply : ServerFrame}
    (run : (handleRegister cfg me card bytes visibility (some sig)).prog.run h = (.ok reply, after)) :
    card.id = me.id ∧ ∃ verified now,
      after.store = h.store.registerCard cfg.ext card (some sig) verified visibility now := by
  by_cases own : card.id = me.id
  · refine ⟨own, ?_⟩
    cases checked : cfg.ext.verify card.id bytes sig with
    | false =>
      simp [handleRegister, Handler.call, Handler.fail, Handler.andThen, own, own ▸ checked, Bind.bind, Pure.pure,
        Prog.bind] at run
    | true =>
      simp [handleRegister, Handler.call, Handler.andThen, hubMachine, HubCall.exec, own, own ▸ checked, Bind.bind,
        Pure.pure, Prog.bind, Prog.run] at run
      exact ⟨true, h.clock, by rw [← run.2]⟩
  · simp [handleRegister, Handler.fail, Handler.andThen, own, Bind.bind, Prog.bind] at run

/-- A call that succeeds stores the merged card. -/
theorem registerAt_stores {sign : AgentCard → Option String} {args : Map} {outcome : Option ServerFrame}
    {h h' : HubState} {result : Visibility × Bool}
    (run : registerAt cfg cardBytes fresh me sign args outcome h = (some result, h')) :
    ∃ row', cardRow h'.store me.id = some row' ∧
      (row'.visibility, row'.card) = mergedCard me args (lookedUp outcome) := by
  replace run := (drive_call (show answerRequests (lookupReply cfg cardBytes fresh me outcome)
    (.request (.lookup me.id)) h = (outcome, h) from rfl) _).symm.trans run
  cases merged : mergedCard me args (lookedUp outcome) with
  | mk visibility card =>
    rw [merged] at run
    dsimp only at run
    cases signed : sign card with
    | none =>
      rw [signed] at run
      cases run
    | some sig =>
      rw [signed] at run
      cases replied : hubReply cfg cardBytes fresh me (.register card visibility (some sig)) h with
      | mk reply after =>
        have answer : answerRequests (lookupReply cfg cardBytes fresh me outcome)
            (.request (.register card visibility (some sig))) h = (reply, after) := replied
        have ended := (drive_call answer _).symm.trans run
        cases reply with
        | none => cases ended
        | some frame =>
          have left : after = h' := congrArg Prod.snd ended
          obtain ⟨own, verified, now, stored⟩ := handleRegister_granted (hubReply_some replied)
          rw [← left, stored, ← own]
          exact cardRow_registerCard _ _ _ _ _ _ _

/-! ## What a call leaves -/

/-- The fields that the call does not name are as they were. -/
def LeavesOmitted (args : Map) (row row' : DirectoryRow) : Prop :=
  (args.get "visibility" = none → row'.visibility = row.visibility) ∧
    (args.get "tags" = none → row'.card.tags = row.card.tags) ∧
    (args.get "skills" = none → row'.card.skills = row.card.skills) ∧
    (args.get "description" = none → row'.card.description = row.card.description)

/-- With the card at hand, no omitted list is an empty one. -/
def NoEmptyList (args : Map) (row : DirectoryRow) : Prop :=
  (args.get "tags" = none → row.card.tags ≠ some []) ∧ (args.get "skills" = none → row.card.skills ≠ some [])

/-- Every omitted field is as a new card has it. -/
def OmittedAreNew (args : Map) (row : DirectoryRow) : Prop :=
  (args.get "visibility" = none → row.visibility = .priv) ∧ (args.get "tags" = none → row.card.tags = none) ∧
    (args.get "skills" = none → row.card.skills = none) ∧
    (args.get "description" = none → row.card.description = none)

theorem listed_getD {α : Type} (items : Option (List α)) : listed (items.getD []) = items ↔ items ≠ some [] := by
  cases items with
  | none => simp [listed]
  | some items => cases items <;> simp [listed]

theorem textArg_none {args : Map} {key : String} (omitted : args.get key = none) : textArg args key = none := by
  unfold textArg
  rw [omitted]
  rfl

/-- With the card at hand, the merge keeps what is omitted. -/
theorem mergedCard_found {args : Map} {entry : DirectoryEntry} {row row' : DirectoryRow}
    (same_card : entry.card = row.card) (same_visibility : entry.visibility = row.visibility)
    (stored : (row'.visibility, row'.card) = mergedCard me args (some entry)) :
    LeavesOmitted args row row' ↔ NoEmptyList args row := by
  obtain ⟨visibility, card⟩ := Prod.mk.inj stored
  have kept_visibility : args.get "visibility" = none → row'.visibility = row.visibility := by
    intro omitted
    rw [visibility, textArg_none omitted, ← same_visibility]
    rfl
  have kept_description : args.get "description" = none → row'.card.description = row.card.description := by
    intro omitted
    rw [card, textArg_none omitted, ← same_card]
    rfl
  have tags : args.get "tags" = none → (row'.card.tags = row.card.tags ↔ row.card.tags ≠ some []) := by
    intro omitted
    rw [card, omitted, ← same_card]
    exact listed_getD _
  have skills : args.get "skills" = none → (row'.card.skills = row.card.skills ↔ row.card.skills ≠ some []) := by
    intro omitted
    rw [card, omitted, ← same_card]
    exact listed_getD _
  unfold LeavesOmitted NoEmptyList
  constructor
  · rintro ⟨-, kept_tags, kept_skills, -⟩
    exact ⟨fun omitted => (tags omitted).mp (kept_tags omitted),
      fun omitted => (skills omitted).mp (kept_skills omitted)⟩
  · rintro ⟨some_tags, some_skills⟩
    exact ⟨kept_visibility, fun omitted => (tags omitted).mpr (some_tags omitted),
      fun omitted => (skills omitted).mpr (some_skills omitted), kept_description⟩

/-- Without it, the merge makes a new card. -/
theorem mergedCard_missed {args : Map} {row row' : DirectoryRow}
    (stored : (row'.visibility, row'.card) = mergedCard me args none) :
    LeavesOmitted args row row' ↔ OmittedAreNew args row := by
  obtain ⟨visibility, card⟩ := Prod.mk.inj stored
  have new_visibility : args.get "visibility" = none → row'.visibility = .priv := by
    intro omitted
    rw [visibility, textArg_none omitted]
    rfl
  have new_tags : args.get "tags" = none → row'.card.tags = none := by
    intro omitted
    rw [card, omitted]
    rfl
  have new_skills : args.get "skills" = none → row'.card.skills = none := by
    intro omitted
    rw [card, omitted]
    rfl
  have new_description : args.get "description" = none → row'.card.description = none := by
    intro omitted
    rw [card, textArg_none omitted]
    rfl
  unfold LeavesOmitted OmittedAreNew
  constructor
  · rintro ⟨kept_visibility, kept_tags, kept_skills, kept_description⟩
    exact ⟨fun omitted => (kept_visibility omitted).symm.trans (new_visibility omitted),
      fun omitted => (kept_tags omitted).symm.trans (new_tags omitted),
      fun omitted => (kept_skills omitted).symm.trans (new_skills omitted),
      fun omitted => (kept_description omitted).symm.trans (new_description omitted)⟩
  · rintro ⟨visibility, tags, skills, description⟩
    exact ⟨fun omitted => (new_visibility omitted).trans (visibility omitted).symm,
      fun omitted => (new_tags omitted).trans (tags omitted).symm,
      fun omitted => (new_skills omitted).trans (skills omitted).symm,
      fun omitted => (new_description omitted).trans (description omitted).symm⟩

/-- The condition on the arguments, the stored card and the outcome of the lookup. -/
def Mergeable (args : Map) (row : DirectoryRow) (outcome : Option ServerFrame) : Prop :=
  if (lookedUp outcome).isSome then NoEmptyList args row else OmittedAreNew args row

/-- A call that succeeds leaves the fields that it omits exactly when the lookup has found the card, with no
    omitted list stored as an empty one, or else when the omitted fields are those of a new card. -/
theorem register_leaves_omitted_iff {h h' : HubState} {row : DirectoryRow}
    (there : cardRow h.store me.id = some row) (sign : AgentCard → Option String) (args : Map)
    {outcome : Option ServerFrame} (possible : LookupOutcome cfg me h outcome) {result : Visibility × Bool}
    (run : registerAt cfg cardBytes fresh me sign args outcome h = (some result, h')) :
    ∃ row', cardRow h'.store me.id = some row' ∧ (LeavesOmitted args row row' ↔ Mergeable args row outcome) := by
  obtain ⟨row', after, stored⟩ := registerAt_stores run
  refine ⟨row', after, ?_⟩
  unfold Mergeable
  rcases lookedUp_cases possible there with missed | ⟨entry, found, same_card, same_visibility⟩
  · rw [missed] at stored ⊢
    exact mergedCard_missed stored
  · rw [found] at stored ⊢
    exact mergedCard_found same_card same_visibility stored

section Demo

/-- A hub that accepts every signature. -/
def trustingConfig : HubConfig := { demoConfig with ext := { demoExternals with verify := fun _ _ _ => true } }

def aliceCard : AgentCard := ⟨"A", "alice", .agent, none, some "reviews", some ["rust"], none, none, none⟩

/-- Alice has published her card. -/
def publishedHub : HubState :=
  { demoHub with store := { demoHub.store with
      agents := [⟨"A", "alice", none, 0, 0⟩]
      directory := [⟨"A", .pub, aliceCard, none, false, "rust", "", 0, 0⟩] } }

/-- A call without arguments. -/
def registerAgain (outcome : Option ServerFrame) : Option (Visibility × Bool) × HubState :=
  registerAt trustingConfig (fun _ => []) (demoFresh 0) alice (fun _ => some "sig") Map.empty outcome publishedHub

/-- With the lookup answered, the published card stays. -/
theorem register_leaves_omitted_alice : ∃ row row',
    cardRow publishedHub.store "A" = some row ∧
      cardRow (registerAgain (some (.card (publishedHub.store.lookupCard "A" "hub" true 0)))).2.store "A" = some row' ∧
      LeavesOmitted Map.empty row row' := by
  obtain ⟨row', after, kept⟩ := @register_leaves_omitted_iff trustingConfig (fun _ => []) (demoFresh 0) alice
    publishedHub _ ⟨"A", .pub, aliceCard, none, false, "rust", "", 0, 0⟩ rfl (fun _ => some "sig") Map.empty _
    (.answered 0) (.pub, true) rfl
  exact ⟨_, row', rfl, after, kept.mpr ⟨fun _ => by decide, fun _ => by decide⟩⟩

/-- With the lookup failed, a call without arguments makes a public card private and empties it. -/
theorem failed_lookup_empties : LookupOutcome trustingConfig alice publishedHub none ∧
    (registerAgain none).1 = some (.priv, true) ∧
    ∃ row row', cardRow publishedHub.store "A" = some row ∧ cardRow (registerAgain none).2.store "A" = some row' ∧
      (row.visibility, row.card.tags, row.card.description) = (.pub, some ["rust"], some "reviews") ∧
      (row'.visibility, row'.card.tags, row'.card.description) = (.priv, none, none) ∧
      ¬ LeavesOmitted Map.empty row row' := by
  refine ⟨.failed (fun _ => nofun), rfl, _, _, rfl, rfl, rfl, rfl, ?_⟩
  intro kept
  exact absurd (kept.1 rfl) (by decide)

end Demo

end Parler.Cli
