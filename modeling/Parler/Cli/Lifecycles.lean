import Parler.Cli.McpSessions
import Parler.Hub.Demo
import Parler.Hub.Specs

/-!
# The lifecycle of an MCP server

The presence that `crates/parler-cli/src/mcp.rs` publishes for its identity: by `parler_presence`, by the tools that
open and close a session, and by each heartbeat, which publishes again what the server remembers. Only
`parler_presence` is remembered.
-/

namespace Parler.Cli

open Parler.Lib Parler.Protocol Parler.Hub

/-- A status and an activity. -/
abbrev Advert := String × Option String

def lifecycleOf (row : PresenceRow) : Advert := (row.status, row.activity)

/-! ## Tools -/

/-- How a request for presence ends: it is taken and answered, taken without an answer, or not taken. -/
inductive Outcome where
  | answered
  | unanswered
  | lost

def Outcome.heard : Outcome → Bool
  | .answered => true
  | _ => false

def Outcome.taken : Outcome → Bool
  | .lost => false
  | _ => true

/-- What a session tool publishes, given the topic of a session that it opens. -/
def Station.publishes (w : Station) (topic : Option String) : ToolCall → Option Advert
  | .openSession _ _ (some _) _ => some ("working", some (topic.getD "shared session"))
  | .closeSession _ => w.mcp.activeSession.map (fun _ => ("idle", none))
  | _ => none

/-- The session that `parler_bring` opens for the review, if there is none. -/
def Station.bringCall (w : Station) (room : Option String) (saved : FileOutcome) : ToolCall :=
  match w.mcp.activeSession with
  | some _ => .other
  | none => .openSession true none room saved

/-- `McpState`, with its session at the station. -/
structure LiveMcp where
  station : Station
  presenceStatus : String
  presenceActivity : Option String
  presenceManagedExternally : Bool

/-- What the server remembers. -/
def LiveMcp.lifecycle (s : LiveMcp) : Advert := (s.presenceStatus, s.presenceActivity)

/-- `McpState::new`, without an external presence. -/
def LiveMcp.new (station : Station) : LiveMcp := ⟨station, "idle", some "MCP connected", false⟩

/-! ## Events -/

/-- What happens to the server and to its hub. -/
inductive McpEvent where
  /-- `parler_presence` -/
  | presence (status : String) (activity : Option String) (outcome : Outcome)
  /-- A session tool, with the topic of a session that it opens. -/
  | tool (call : ToolCall) (topic : Option String) (outcome : Outcome)
  /-- `parler_bring`, with the name of the other agent. -/
  | bring (name : String) (room : Option String) (saved : FileOutcome) (outcome : Outcome)
  /-- A command of the CLI in the same home. -/
  | cli (command : CliCommand)
  /-- Any other call at the hub: of another agent, of another request of the server, or of the greeting when the
      server makes a lost connection anew. -/
  | elsewhere (op : HubCall)
  /-- A heartbeat; says whether the ping and the presence are taken. -/
  | heartbeat (pinged published : Bool)

/-- What a tool call has published, and whether the server remembers it. -/
structure Announcement where
  lifecycle : Advert
  remembered : Bool

/-- The server, the hub, and the last announcement of a tool call. -/
structure Watch where
  mcp : LiveMcp
  hub : HubState
  announced : Option Announcement

section Steps

variable (cfg : HubConfig) (agent : String)

/-- What the hub stores for the agent. -/
def Watch.stored (w : Watch) : Option PresenceRow := w.hub.store.presenceOf agent

/-- The hub takes the presence of the agent. -/
def takePresence (lifecycle : Advert) (h : HubState) : HubState :=
  (HubCall.exec cfg (.touchPresence agent lifecycle.1 lifecycle.2 none h.clock) h).2

/-- The hub takes a ping of the agent. -/
def takePing (h : HubState) : HubState := (HubCall.exec cfg (.refreshPresence agent h.clock) h).2

/-- A tool call publishes. -/
def Watch.announce (w : Watch) (lifecycle : Advert) (remembered : Bool) (outcome : Outcome) : Watch :=
  if outcome.taken then
    { w with hub := takePresence cfg agent lifecycle w.hub, announced := some ⟨lifecycle, remembered⟩ }
  else w

/-- `call_session_tool`, but for `parler_presence`. -/
def Watch.call (w : Watch) (call : ToolCall) (topic : Option String) (outcome : Outcome) : Watch :=
  let moved := { w with mcp := { w.mcp with station := w.mcp.station.callSessionTool call } }
  match w.mcp.station.publishes topic call with
  | none => moved
  | some lifecycle => moved.announce cfg agent lifecycle false outcome

/-- `refresh_external_active_conversation_from` -/
def Watch.refresh (w : Watch) : Watch := { w with mcp := { w.mcp with station := w.mcp.station.refresh } }

/-- `parler_presence` -/
def Watch.present (w : Watch) (status : String) (activity : Option String) (outcome : Outcome) : Watch :=
  let w := w.announce cfg agent (status, activity) outcome.heard outcome
  if outcome.heard then { w with mcp := { w.mcp with presenceStatus := status, presenceActivity := activity } }
  else w

/-- `heartbeat_presence` -/
def Watch.beat (w : Watch) (pinged published : Bool) : Watch :=
  let pinged := if pinged then { w with hub := takePing cfg agent w.hub } else w
  if w.mcp.presenceManagedExternally then pinged
  else if published then { pinged with hub := takePresence cfg agent w.mcp.lifecycle pinged.hub }
  else pinged

def Watch.step (w : Watch) : McpEvent → Watch
  | .presence status activity outcome => w.refresh.present cfg agent status activity outcome
  | .tool call topic outcome => w.refresh.call cfg agent call topic outcome
  | .bring name room saved outcome =>
      let w := w.refresh
      w.call cfg agent (w.mcp.station.bringCall room saved) (some (name ++ "-review")) outcome
  | .cli command => { w with mcp := { w.mcp with station := w.mcp.station.command command } }
  | .elsewhere op => { w with hub := (op.exec cfg w.hub).2 }
  | .heartbeat pinged published => w.beat cfg agent pinged published

/-- A heartbeat leaves the lifecycle that a tool call announced last, and moves nothing else but the time. -/
def Watch.HeartbeatKeeps (w : Watch) : McpEvent → Prop
  | .heartbeat pinged published => ∀ a, w.announced = some a → ∃ row, w.stored agent = some row ∧
      (w.beat cfg agent pinged published).stored agent = some { row with
        status := a.lifecycle.1, activity := a.lifecycle.2,
        ts := if pinged || published then w.hub.clock else row.ts }
  | _ => True

/-- At a heartbeat that is taken, the server remembers the last announcement: `parler_presence` made it, or a
    session tool announced what was remembered before. At one that is lost, the hub still has it. -/
def Watch.Remembers (w : Watch) : McpEvent → Prop
  | .heartbeat _ published => ∀ a, w.announced = some a →
      if published then a.remembered = true ∨ a.lifecycle = w.mcp.lifecycle
      else (w.stored agent).map lifecycleOf = some a.lifecycle
  | _ => True

end Steps

/-- A server that has just connected. -/
def Watch.start (station : Station) (hub : HubState) : Watch := ⟨LiveMcp.new station, hub, none⟩

/-! ## The row of an agent -/

section Rows

variable {cfg : HubConfig} {agent : String}

theorem presenceOf_touchPresence (s : Store) (status : String) (activity : Option String)
    (attention : Option Attention) (now : Int) :
    (s.touchPresence agent status activity attention now).presenceOf agent =
      some ((s.presenceOf agent).elim ⟨agent, status, activity, attention, now⟩ (fun row => { row with
        status := status, activity := activity, attention := attention.or row.attention, ts := now })) :=
  rowOf_upsert_self rfl (fun _ same => same)

theorem presenceOf_refreshPresence (s : Store) (now : Int) :
    (s.refreshPresence agent now).presenceOf agent =
      some ((s.presenceOf agent).elim ⟨agent, "idle", none, none, now⟩ (fun row => { row with ts := now })) :=
  rowOf_upsert_self rfl (fun _ same => same)

/-- No call at the hub deletes presence. -/
theorem presenceOf_exec (op : HubCall) (h : HubState) (present : (h.store.presenceOf agent).isSome) :
    ((op.exec cfg h).2.store.presenceOf agent).isSome := by
  by_cases writes : TableName.presence ∈ op.writes
  · cases op with
    | touchPresence => exact rowOf_upsert_isSome (fun _ same => same) present
    | refreshPresence => exact rowOf_upsert_isSome (fun _ same => same) present
    | setAttention => exact rowOf_upsert_isSome (fun _ same => same) present
    | _ => simp [HubCall.writes] at writes
  · have same : (op.exec cfg h).2.store.presence = h.store.presence := exec_same cfg op h .presence writes
    unfold Store.presenceOf at present ⊢
    rw [same]
    exact present

theorem presenceOf_takePresence (lifecycle : Advert) (h : HubState) :
    (takePresence cfg agent lifecycle h).store.presenceOf agent =
      some ((h.store.presenceOf agent).elim ⟨agent, lifecycle.1, lifecycle.2, none, h.clock⟩ (fun row => { row with
        status := lifecycle.1, activity := lifecycle.2, ts := h.clock })) := by
  refine (presenceOf_touchPresence h.store lifecycle.1 lifecycle.2 none h.clock).trans ?_
  simp only [Option.none_or]

end Rows

/-! ## What is kept -/

/-- The server owns its presence, remembers what `parler_presence` announced, and the hub has a row for what was
    announced. -/
structure Watch.Tracked (agent : String) (w : Watch) : Prop where
  own : w.mcp.presenceManagedExternally = false
  kept : ∀ a, w.announced = some a → a.remembered = true → a.lifecycle = w.mcp.lifecycle
  present : w.announced.isSome → (w.stored agent).isSome

section Kept

variable {cfg : HubConfig} {agent : String} {w : Watch}

theorem start_tracked (station : Station) (hub : HubState) : (Watch.start station hub).Tracked agent :=
  ⟨rfl, by simp [Watch.start], by simp [Watch.start]⟩

theorem announce_tracked (tracked : w.Tracked agent) {lifecycle : Advert} {outcome : Outcome} :
    (w.announce cfg agent lifecycle false outcome).Tracked agent := by
  unfold Watch.announce
  split
  · refine ⟨tracked.own, ?_, fun _ => ?_⟩
    · intro a announced remembered
      cases announced
      cases remembered
    · exact Option.isSome_of_eq_some (@presenceOf_takePresence cfg agent lifecycle w.hub)
  · exact tracked

theorem refresh_tracked (tracked : w.Tracked agent) : w.refresh.Tracked agent :=
  ⟨tracked.own, tracked.kept, tracked.present⟩

theorem call_tracked (tracked : w.Tracked agent) {call : ToolCall} {topic : Option String} {outcome : Outcome} :
    (w.call cfg agent call topic outcome).Tracked agent := by
  have moved : Watch.Tracked agent
      { w with mcp := { w.mcp with station := w.mcp.station.callSessionTool call } } :=
    ⟨tracked.own, tracked.kept, tracked.present⟩
  unfold Watch.call
  split
  · exact moved
  · exact announce_tracked moved

theorem present_tracked (tracked : w.Tracked agent) {status : String} {activity : Option String}
    {outcome : Outcome} : (w.present cfg agent status activity outcome).Tracked agent := by
  cases outcome with
  | answered =>
    refine ⟨tracked.own, ?_, fun _ => ?_⟩
    · intro a announced _
      cases announced
      rfl
    · exact Option.isSome_of_eq_some (@presenceOf_takePresence cfg agent (status, activity) w.hub)
  | unanswered => exact @announce_tracked cfg agent w tracked (status, activity) .unanswered
  | lost => exact tracked

@[simp] theorem beat_mcp (pinged published : Bool) : (w.beat cfg agent pinged published).mcp = w.mcp := by
  cases pinged <;> cases published <;> simp only [Watch.beat] <;> split <;> rfl

@[simp] theorem beat_announced (pinged published : Bool) :
    (w.beat cfg agent pinged published).announced = w.announced := by
  cases pinged <;> cases published <;> simp only [Watch.beat] <;> split <;> rfl

/-- What a heartbeat leaves of a row. -/
theorem beat_stored (own : w.mcp.presenceManagedExternally = false) {row : PresenceRow}
    (stored : w.stored agent = some row) (pinged published : Bool) :
    (w.beat cfg agent pinged published).stored agent = some { row with
      status := if published then w.mcp.presenceStatus else row.status
      activity := if published then w.mcp.presenceActivity else row.activity
      ts := if pinged || published then w.hub.clock else row.ts } := by
  have ping : (takePing cfg agent w.hub).store.presenceOf agent = some { row with ts := w.hub.clock } := by
    refine (presenceOf_refreshPresence w.hub.store w.hub.clock).trans ?_
    rw [show w.hub.store.presenceOf agent = some row from stored]
    rfl
  have publish : ∀ (h : HubState) (row : PresenceRow), h.store.presenceOf agent = some row →
      (takePresence cfg agent w.mcp.lifecycle h).store.presenceOf agent = some { row with
        status := w.mcp.presenceStatus, activity := w.mcp.presenceActivity, ts := h.clock } := by
    intro h row stored
    rw [presenceOf_takePresence, stored]
    rfl
  unfold Watch.beat
  rw [own]
  cases pinged <;> cases published
  · exact stored
  · exact publish w.hub row stored
  · exact ping
  · exact publish (takePing cfg agent w.hub) { row with ts := w.hub.clock } ping

theorem beat_tracked (tracked : w.Tracked agent) {pinged published : Bool} :
    (w.beat cfg agent pinged published).Tracked agent := by
  refine ⟨?_, ?_, ?_⟩
  · rw [beat_mcp]
    exact tracked.own
  · rw [beat_mcp, beat_announced]
    exact tracked.kept
  · rw [beat_announced]
    intro announced
    obtain ⟨row, stored⟩ := Option.isSome_iff_exists.mp (tracked.present announced)
    exact Option.isSome_of_eq_some (beat_stored tracked.own stored pinged published)

theorem step_tracked (w : Watch) (e : McpEvent) (tracked : w.Tracked agent) : (w.step cfg agent e).Tracked agent := by
  cases e with
  | presence status activity outcome => exact present_tracked (refresh_tracked tracked)
  | tool call topic outcome => exact call_tracked (refresh_tracked tracked)
  | bring name room saved outcome => exact call_tracked (refresh_tracked tracked)
  | cli command => exact ⟨tracked.own, tracked.kept, tracked.present⟩
  | elsewhere op => exact ⟨tracked.own, tracked.kept, fun some => presenceOf_exec op w.hub (tracked.present some)⟩
  | heartbeat pinged published => exact beat_tracked tracked

/-- A heartbeat keeps the lifecycle just if the server remembers it. -/
theorem heartbeatKeeps_iff (tracked : w.Tracked agent) (e : McpEvent) :
    w.HeartbeatKeeps cfg agent e ↔ w.Remembers agent e := by
  cases e with
  | heartbeat pinged published =>
    apply forall₂_congr
    intro a announced
    obtain ⟨row, stored⟩ := Option.isSome_iff_exists.mp (tracked.present (Option.isSome_of_eq_some announced))
    have beats := @beat_stored cfg agent w tracked.own row stored pinged published
    have left : (∃ row, w.stored agent = some row ∧
        (w.beat cfg agent pinged published).stored agent = some { row with
          status := a.lifecycle.1, activity := a.lifecycle.2,
          ts := if pinged || published then w.hub.clock else row.ts }) ↔
        (if published then w.mcp.lifecycle else lifecycleOf row) = a.lifecycle := by
      rw [beats, stored]
      constructor
      · rintro ⟨row', found, same⟩
        cases found
        cases published <;> simpa [LiveMcp.lifecycle, lifecycleOf, Prod.ext_iff] using same
      · intro same
        refine ⟨row, rfl, ?_⟩
        rw [← same]
        cases published <;> rfl
    refine left.trans ?_
    cases published with
    | true =>
      constructor
      · exact fun same => .inr same.symm
      · exact fun known => (known.elim (tracked.kept a announced) id).symm
    | false =>
      rw [stored]
      exact (Option.some_inj).symm
  | _ => exact Iff.rfl

end Kept

/-- In every run, the heartbeats keep the lifecycle that a tool call announced last just if the server remembers
    it at each of them. -/
theorem heartbeats_keep_iff (cfg : HubConfig) (agent : String) (station : Station) (hub : HubState)
    (run : List McpEvent) :
    EachStep (Watch.step cfg agent) (Watch.HeartbeatKeeps cfg agent) (.start station hub) run ↔
      EachStep (Watch.step cfg agent) (Watch.Remembers agent) (.start station hub) run :=
  eachStep_congr step_tracked (fun _ e tracked => heartbeatKeeps_iff tracked e) (start_tracked station hub)

/-- A heartbeat after a closed session announces the work again. -/
theorem closed_session_works :
    ¬ EachStep (Watch.step demoConfig "alice") (Watch.HeartbeatKeeps demoConfig "alice")
      (.start (Station.start false) demoHub)
      [.presence "working" (some "reviewing auth") .answered,
        .tool (.openSession false none (some "room.plan") .done) none .answered,
        .tool (.closeSession .done) none .answered, .heartbeat true true] := by
  rintro ⟨-, -, -, keeps, -⟩
  obtain ⟨row, -, after⟩ := keeps ⟨("idle", none), false⟩ rfl
  have status : some "working" = some "idle" := congrArg (Option.map PresenceRow.status) after
  exact absurd status (by decide)

end Parler.Cli
