import Mathlib.Logic.Function.Basic
import Parler.Lib.Runs
import Parler.Protocol.Types

/-!
# The session of an MCP server

The session tools of `crates/parler-cli/src/mcp.rs` and the CLI commands that share their home directory.
The active session is kept twice: in the memory of the server, and in the file `active_session`, which the
Stop hook reads. The names that the owner of a gated session approved in advance are kept in memory only,
under the room.
-/

namespace Parler.Cli

open Parler.Lib Parler.Protocol

/-! ## State -/

/-- The session fields of `McpState`. -/
structure McpState where
  activeSession : Option String
  preapprovals : String → Option (List String)
  activeConversationManagedExternally : Bool

/-- `McpState::new` -/
def McpState.new (managed : Bool) : McpState := ⟨none, fun _ => none, managed⟩

/-- An MCP server and the file `active_session` of its home. -/
structure Station where
  mcp : McpState
  file : Option String

/-- How an operation on the file ends; one that fails leaves something behind. -/
inductive FileOutcome where
  | done
  | failed (left : Option String)

def FileOutcome.result (outcome : FileOutcome) (wanted : Option String) : Option String :=
  match outcome with
  | .done => wanted
  | .failed left => left

/-- `load_active_session` -/
def loadActiveSession (file : Option String) : Option String := file.map trim

/-- `save_active_session` -/
def saveActiveSession (outcome : FileOutcome) (room : String) : Option String := outcome.result (some room)

/-- `clear_active_session` -/
def clearActiveSession (outcome : FileOutcome) : Option String := outcome.result none

/-- The room that the Stop hook polls (`wake_hook` in `lib.rs`). -/
def Station.stopHookRoom (w : Station) : Option String :=
  if w.mcp.activeConversationManagedExternally then none else loadActiveSession w.file

/-! ## Names approved in advance -/

/-- `str::split` at the separators of a list of names. -/
def splitNames : List Char → List (List Char)
  | [] => [[]]
  | c :: rest =>
      if c = ',' ∨ c = ' ' ∨ c = '\n' then [] :: splitNames rest
      else match splitNames rest with
        | [] => [[c]]
        | piece :: pieces => (c :: piece) :: pieces

/-- The names that are left of some texts. -/
def presentNames (texts : List String) : List String := (texts.map trim).filter (fun name => name ≠ "")

/-- `parse_name_list` -/
def parseNameList : Option Json → List String
  | some (.arr items) => presentNames (items.filterMap (fun item =>
      match item with
      | .str text => some text
      | _ => none))
  | some (.str text) => presentNames ((splitNames text.toList).map String.ofList)
  | _ => []

/-- The names of a `preapprove` argument. -/
def listedNames (preapprove : Option Json) : List String := presentNames (parseNameList preapprove)

/-- A joiner is on a list by name or by id. -/
def isListed (allow : List String) (joiner : JoinRequest) : Bool :=
  allow.any (fun a => eqIgnoreAsciiCase a joiner.name || a = joiner.agent)

/-- `auto_approve_preapproved`: the joiners it approves, given the pending requests, if the hub shows
    them. -/
def autoApprovePreapproved (state : McpState) (room : String) (pending : Option (List JoinRequest)) :
    List JoinRequest :=
  match state.preapprovals room, pending with
  | some allow, some requests => requests.filter (isListed allow)
  | _, _ => []

/-! ## Tools and commands -/

/-- A call of a tool, with the answers of the hub that it depends on. -/
inductive ToolCall where
  /-- `parler_open_session`, with the room if the hub made the invite and took the context. -/
  | openSession (approval : Bool) (preapprove : Option Json) (room : Option String) (saved : FileOutcome)
  /-- `parler_join_session` and `parler_join`, with the channel if the key admits and its context is
      read. -/
  | joinSession (room : Option String) (saved : FileOutcome)
  | closeSession (cleared : FileOutcome)
  /-- `parler_delete_room`; says whether the hub deletes. -/
  | deleteRoom (room : Option String) (deleted : Bool) (cleared : FileOutcome)
  /-- A tool that leaves the session alone. -/
  | other

/-- `refresh_external_active_conversation_from` -/
def Station.refresh (w : Station) : Station :=
  if w.mcp.activeConversationManagedExternally then
    { w with mcp := { w.mcp with activeSession := loadActiveSession w.file } }
  else w

/-- The room is now the active session. -/
def Station.adopt (w : Station) (room : String) (saved : FileOutcome) : Station :=
  { mcp := { w.mcp with activeSession := some room }, file := saveActiveSession saved room }

/-- The room is left, and its list is dropped. -/
def Station.leave (w : Station) (room : String) (cleared : FileOutcome) : Station :=
  { mcp := { w.mcp with
      activeSession := none, preapprovals := Function.update w.mcp.preapprovals room none },
    file := clearActiveSession cleared }

/-- `call_session_tool` -/
def Station.callSessionTool (w : Station) : ToolCall → Station
  | .openSession _ _ none _ => w
  | .openSession approval preapprove (some room) saved =>
      let w := w.adopt room saved
      let listed := listedNames preapprove
      if approval ∧ listed ≠ [] then
        { w with mcp := { w.mcp with
            preapprovals := Function.update w.mcp.preapprovals room (some listed) } }
      else w
  | .joinSession none _ => w
  | .joinSession (some room) saved => w.adopt room saved
  | .closeSession cleared =>
      match w.mcp.activeSession with
      | none => w
      | some room => w.leave room cleared
  | .deleteRoom room deleted cleared =>
      match room.or w.mcp.activeSession with
      | none => w
      | some target =>
          if deleted ∧ w.mcp.activeSession = some target then w.leave target cleared else w
  | .other => w

/-- `handle`, for `tools/call` -/
def Station.handle (w : Station) (call : ToolCall) : Station := w.refresh.callSessionTool call

/-- The commands of the CLI that move the file, with the answers of the hub. -/
inductive CliCommand where
  /-- `parler session open` and `parler session join` -/
  | session (room : Option String) (saved : FileOutcome)
  /-- `parler delete-room` -/
  | deleteRoom (room : String) (deleted : Bool) (cleared : FileOutcome)

/-- `cmd_session` and `cmd_delete_room` -/
def Station.command (w : Station) : CliCommand → Station
  | .session none _ => w
  | .session (some room) saved => { w with file := saveActiveSession saved room }
  | .deleteRoom room deleted cleared =>
      if deleted ∧ loadActiveSession w.file = some room then { w with file := clearActiveSession cleared }
      else w

inductive SessionEvent where
  /-- The server ends and another one starts. -/
  | restart
  | tool (call : ToolCall)
  | cli (command : CliCommand)

def Station.step (w : Station) : SessionEvent → Station
  | .restart => { w with mcp := McpState.new w.mcp.activeConversationManagedExternally }
  | .tool call => w.handle call
  | .cli command => w.command command

/-- A server that has just started; nothing was left in its home. -/
def Station.start (managed : Bool) : Station := ⟨McpState.new managed, none⟩

@[simp] theorem adopt_file (w : Station) (room : String) (saved : FileOutcome) :
    (w.adopt room saved).file = saveActiveSession saved room := rfl

@[simp] theorem adopt_active (w : Station) (room : String) (saved : FileOutcome) :
    (w.adopt room saved).mcp.activeSession = some room := rfl

@[simp] theorem adopt_preapprovals (w : Station) (room : String) (saved : FileOutcome) :
    (w.adopt room saved).mcp.preapprovals = w.mcp.preapprovals := rfl

@[simp] theorem leave_file (w : Station) (room : String) (cleared : FileOutcome) :
    (w.leave room cleared).file = clearActiveSession cleared := rfl

@[simp] theorem leave_active (w : Station) (room : String) (cleared : FileOutcome) :
    (w.leave room cleared).mcp.activeSession = none := rfl

@[simp] theorem leave_preapprovals (w : Station) (room : String) (cleared : FileOutcome) :
    (w.leave room cleared).mcp.preapprovals = Function.update w.mcp.preapprovals room none := rfl

@[simp] theorem refresh_preapprovals (w : Station) :
    w.refresh.mcp.preapprovals = w.mcp.preapprovals := by
  unfold Station.refresh
  split <;> rfl

/-- Nothing changes who owns the conversation. -/
theorem step_managed (w : Station) (e : SessionEvent) :
    (w.step e).mcp.activeConversationManagedExternally = w.mcp.activeConversationManagedExternally := by
  have refreshed : w.refresh.mcp.activeConversationManagedExternally =
      w.mcp.activeConversationManagedExternally := by
    unfold Station.refresh
    split <;> rfl
  cases e with
  | restart => rfl
  | cli command =>
    cases command with
    | session room saved => cases room <;> rfl
    | deleteRoom room deleted cleared =>
      simp only [Station.step, Station.command]
      split <;> rfl
  | tool call =>
    simp only [Station.step, Station.handle]
    rw [← refreshed]
    cases call with
    | openSession approval preapprove room saved =>
      cases room with
      | none => rfl
      | some room =>
        simp only [Station.callSessionTool]
        split <;> rfl
    | joinSession room saved => cases room <;> rfl
    | closeSession cleared =>
      simp only [Station.callSessionTool]
      split <;> rfl
    | deleteRoom room deleted cleared =>
      simp only [Station.callSessionTool]
      split
      · rfl
      · split <;> rfl
    | other => rfl

/-! ## The two copies of the active session -/

/-- The file and the memory name the same room. -/
def Station.Agree (w : Station) : Prop := loadActiveSession w.file = w.mcp.activeSession

/-- A step that leaves both copies with the same room, if they had the same before. A tool that moves the
    session is harmless when its file operation is done; a restart, when the file names no room; a command,
    when it leaves the file with the active session. -/
def Harmless (w : Station) : SessionEvent → Prop
  | .restart => w.file = none
  | .tool (.openSession _ _ (some room) saved) => loadActiveSession (saveActiveSession saved room) = some room
  | .tool (.joinSession (some room) saved) => loadActiveSession (saveActiveSession saved room) = some room
  | .tool (.closeSession cleared) => w.mcp.activeSession ≠ none → clearActiveSession cleared = none
  | .tool (.deleteRoom room deleted cleared) =>
      w.mcp.activeSession ≠ none → deleted = true → room.or w.mcp.activeSession = w.mcp.activeSession →
        clearActiveSession cleared = none
  | .tool _ => True
  | .cli (.session none _) => True
  | .cli (.session (some room) saved) =>
      loadActiveSession (saveActiveSession saved room) = w.mcp.activeSession
  | .cli (.deleteRoom room deleted cleared) =>
      deleted = true → w.mcp.activeSession = some room →
        loadActiveSession (clearActiveSession cleared) = w.mcp.activeSession

theorem load_eq_none {file : Option String} : loadActiveSession file = none ↔ file = none := by
  simp [loadActiveSession]

theorem refresh_of_agree {w : Station} (agree : w.Agree) : w.refresh = w := by
  unfold Station.refresh
  split
  · obtain ⟨mcp, file⟩ := w
    obtain ⟨active, lists, managed⟩ := mcp
    simp only [Station.Agree] at agree
    rw [agree]
  · rfl

/-- From copies that agree, just the harmless steps lead to copies that agree. -/
theorem agree_step {w : Station} (agree : w.Agree) (e : SessionEvent) :
    (w.step e).Agree ↔ Harmless w e := by
  have same : loadActiveSession w.file = w.mcp.activeSession := agree
  cases e with
  | restart => exact load_eq_none
  | cli command =>
    cases command with
    | session room saved =>
      cases room with
      | none => exact iff_of_true agree trivial
      | some room => rfl
    | deleteRoom room deleted cleared =>
      simp only [Station.step, Station.command, Harmless, same]
      by_cases gone : deleted = true ∧ w.mcp.activeSession = some room
      · rw [if_pos gone]
        exact ⟨fun after _ _ => after, fun after => after gone.1 gone.2⟩
      · rw [if_neg gone]
        exact iff_of_true agree (fun deleted active => absurd ⟨deleted, active⟩ gone)
  | tool call =>
    simp only [Station.step, Station.handle, refresh_of_agree agree]
    cases call with
    | openSession approval preapprove room saved =>
      cases room with
      | none => exact iff_of_true agree trivial
      | some room =>
        simp only [Station.callSessionTool]
        split <;> rfl
    | joinSession room saved =>
      cases room with
      | none => exact iff_of_true agree trivial
      | some room => rfl
    | closeSession cleared =>
      simp only [Station.callSessionTool, Harmless]
      split
      · rename_i inactive
        exact iff_of_true agree (fun active => absurd inactive active)
      · rename_i room active
        exact load_eq_none.trans ⟨fun clear _ => clear, fun clear => clear (by simp [active])⟩
    | deleteRoom room deleted cleared =>
      simp only [Station.callSessionTool, Harmless]
      split
      · rename_i nothing
        have inactive : w.mcp.activeSession = none := (Option.or_eq_none_iff.mp nothing).2
        exact iff_of_true agree (fun active => absurd inactive active)
      · rename_i target named
        by_cases gone : deleted = true ∧ w.mcp.activeSession = some target
        · rw [if_pos gone]
          refine load_eq_none.trans ⟨fun clear _ _ _ => clear, fun clear => ?_⟩
          exact clear (by simp [gone.2]) gone.1 (named.trans gone.2.symm)
        · rw [if_neg gone]
          refine iff_of_true agree (fun _ deleted own => ?_)
          exact absurd ⟨deleted, own.symm.trans named⟩ gone
    | other => exact iff_of_true agree trivial

theorem close_active (w : Station) (cleared : FileOutcome) :
    (w.step (.tool (.closeSession cleared))).mcp.activeSession = none := by
  simp only [Station.step, Station.handle, Station.callSessionTool]
  split
  · assumption
  · rfl

/-- No conversation is managed by another process in a run from the start. -/
theorem run_unmanaged (run : List SessionEvent) :
    (run.foldl Station.step (Station.start false)).mcp.activeConversationManagedExternally = false := by
  have kept : ∀ (run : List SessionEvent) (w : Station),
      w.mcp.activeConversationManagedExternally = false →
        (run.foldl Station.step w).mcp.activeConversationManagedExternally = false := by
    intro run
    induction run with
    | nil => exact fun w unmanaged => unmanaged
    | cons e run ih => exact fun w unmanaged => ih (w.step e) ((step_managed w e).trans unmanaged)
  exact kept run _ rfl

theorem run_polls (run : List SessionEvent) :
    (run.foldl Station.step (Station.start false)).stopHookRoom =
      loadActiveSession (run.foldl Station.step (Station.start false)).file := by
  unfold Station.stopHookRoom
  rw [run_unmanaged run]
  rfl

/-- The Stop hook polls the active session in every state of a run, and no room after the session was
    closed, just when every step of the run is harmless. -/
theorem stop_hook_polls_active (run : List SessionEvent) :
    ((∀ part, part <+: run →
        (part.foldl Station.step (Station.start false)).stopHookRoom =
          (part.foldl Station.step (Station.start false)).mcp.activeSession) ∧
      ∀ part cleared, part ++ [.tool (.closeSession cleared)] <+: run →
        ((part ++ [.tool (.closeSession cleared)]).foldl Station.step
          (Station.start false)).stopHookRoom = none) ↔
      ∀ part e, part ++ [e] <+: run → Harmless (part.foldl Station.step (Station.start false)) e := by
  have agrees : Throughout Station.step Station.Agree (Station.start false) run ↔
      EachStep Station.step Harmless (Station.start false) run := by
    apply throughout_iff_eachStep (I := fun _ => True)
    · exact fun _ _ _ => trivial
    · exact fun w e _ agree => agree_step agree e
    · trivial
    · rfl
  rw [← eachStep_iff, ← agrees, throughout_iff]
  constructor
  · rintro ⟨polls, -⟩ part short
    exact (run_polls part).symm.trans (polls part short)
  · intro agree
    have polls : ∀ part, part <+: run → (part.foldl Station.step (Station.start false)).stopHookRoom =
        (part.foldl Station.step (Station.start false)).mcp.activeSession := by
      intro part short
      exact (run_polls part).trans (agree part short)
    refine ⟨polls, ?_⟩
    intro part cleared short
    rw [polls _ short, List.foldl_append]
    exact close_active _ cleared

/-- A server that is started anew finds no session to close, and the Stop hook goes on polling the room of
    the one before. -/
theorem closed_session_still_polled :
    ¬ ∀ (run : List SessionEvent) (cleared : FileOutcome),
      ((run ++ [SessionEvent.tool (.closeSession cleared)]).foldl Station.step
        (Station.start false)).stopHookRoom = none := by
  intro always
  have polled := always [.tool (.joinSession (some "plan") .done), .restart] .done
  exact absurd polled (by decide)

/-! ## Whom the server approves by itself -/

/-- A station, and the names that the owner has approved in advance for a room: those of its latest
    opening, until the room is closed or deleted. -/
structure Owner where
  station : Station
  promised : String → Option (List String)

/-- What a step makes of the owner's word. -/
def Owner.word (o : Owner) : SessionEvent → String → Option (List String)
  | .restart => fun _ => none
  | .tool (.openSession _ preapprove (some room) _) =>
      Function.update o.promised room (some (listedNames preapprove))
  | .tool (.closeSession _) =>
      match o.station.refresh.mcp.activeSession with
      | none => o.promised
      | some room => Function.update o.promised room none
  | .tool (.deleteRoom room true _) =>
      match room.or o.station.refresh.mcp.activeSession with
      | none => o.promised
      | some target => Function.update o.promised target none
  | _ => o.promised

def Owner.step (o : Owner) (e : SessionEvent) : Owner := ⟨o.station.step e, o.word e⟩

def Owner.start (managed : Bool) : Owner := ⟨Station.start managed, fun _ => none⟩

/-- Whoever the server approves by itself is on the owner's list. -/
def Owner.Sound (o : Owner) : Prop :=
  ∀ room pending, ∀ joiner ∈ autoApprovePreapproved o.station.mcp room pending,
    ∃ names, o.promised room = some names ∧ isListed names joiner = true

/-- A step that leaves no stale list behind. A room for which the server holds a list is not opened again
    without a new one, unless all names of the old one are given again; and it is deleted only as the
    active session. -/
def Fresh (o : Owner) : SessionEvent → Prop
  | .tool (.openSession approval preapprove (some room) _) =>
      (approval = true ∧ listedNames preapprove ≠ []) ∨
        ∀ old, o.station.mcp.preapprovals room = some old → ∀ a ∈ old, a ∈ listedNames preapprove
  | .tool (.deleteRoom room true _) =>
      ∀ target, room.or o.station.refresh.mcp.activeSession = some target →
        o.station.refresh.mcp.activeSession = some target ∨ o.station.mcp.preapprovals target = none
  | _ => True

/-- The lists hold names, and there are no empty ones in memory. -/
structure Owner.Tidy (o : Owner) : Prop where
  lists : ∀ room old, o.station.mcp.preapprovals room = some old → old ≠ [] ∧ "" ∉ old
  words : ∀ room names, o.promised room = some names → "" ∉ names

/-- Every list in memory is within the owner's word. -/
def Owner.Within (o : Owner) : Prop :=
  ∀ room old, o.station.mcp.preapprovals room = some old →
    ∃ names, o.promised room = some names ∧ ∀ a ∈ old, a ∈ names

theorem presentNames_present (texts : List String) : "" ∉ presentNames texts := by
  simp [presentNames]

theorem eqIgnoreAsciiCase_empty {a : String} (same : eqIgnoreAsciiCase a "" = true) : a = "" := by
  have lower : a.toList.map asciiLower = [] := by
    simpa [eqIgnoreAsciiCase, toAsciiLowercase] using same
  simpa using lower

theorem isListed_of_subset {old names : List String} (within : ∀ a ∈ old, a ∈ names)
    {joiner : JoinRequest} (listed : isListed old joiner = true) : isListed names joiner = true := by
  obtain ⟨a, member, same⟩ := List.any_eq_true.mp listed
  exact List.any_eq_true.mpr ⟨a, within a member, same⟩

/-- A joiner who has an entry of a list for an id, and no name, is listed by that entry alone. -/
theorem isListed_nameless {names : List String} (present : "" ∉ names) {a : String} :
    isListed names ⟨a, "", none, 0⟩ = true ↔ a ∈ names := by
  constructor
  · intro listed
    obtain ⟨b, member, same⟩ := List.any_eq_true.mp listed
    rcases Bool.or_eq_true_iff.mp same with byName | byId
    · exact absurd (eqIgnoreAsciiCase_empty byName ▸ member) present
    · have same : b = a := of_decide_eq_true byId
      exact same ▸ member
  · intro member
    exact List.any_eq_true.mpr ⟨a, member, by simp⟩

/-- Approvals are sound just when the lists in memory are within the owner's word. -/
theorem sound_iff {o : Owner} (tidy : o.Tidy) : o.Sound ↔ o.Within := by
  constructor
  · intro sound room old held
    have approved : ∀ a ∈ old, ∃ names, o.promised room = some names ∧ a ∈ names := by
      intro a member
      have listed : isListed old ⟨a, "", none, 0⟩ = true :=
        (isListed_nameless (tidy.lists room old held).2).mpr member
      obtain ⟨names, promised, among⟩ := sound room (some [⟨a, "", none, 0⟩]) ⟨a, "", none, 0⟩
        (by simp [autoApprovePreapproved, held, listed])
      exact ⟨names, promised, (isListed_nameless (tidy.words room names promised)).mp among⟩
    obtain ⟨a, rest, same⟩ := List.exists_cons_of_ne_nil (tidy.lists room old held).1
    obtain ⟨names, promised, -⟩ := approved a (by simp [same])
    refine ⟨names, promised, fun b member => ?_⟩
    obtain ⟨names', promised', among⟩ := approved b member
    rw [promised] at promised'
    cases promised'
    exact among
  · intro within room pending joiner approved
    unfold autoApprovePreapproved at approved
    split at approved
    · rename_i allow requests held
      obtain ⟨names, promised, among⟩ := within room allow held
      exact ⟨names, promised, isListed_of_subset among (List.mem_filter.mp approved).2⟩
    · cases approved

/-- What a step does to the lists and to the word, and whether it is fresh. -/
inductive ListChange (o : Owner) (e : SessionEvent) : Prop where
  | kept (fresh : Fresh o e)
      (lists : (o.step e).station.mcp.preapprovals = o.station.mcp.preapprovals)
      (word : (o.step e).promised = o.promised)
  | restarted (fresh : Fresh o e) (lists : (o.step e).station.mcp.preapprovals = fun _ => none)
      (word : (o.step e).promised = fun _ => none)
  | recorded (fresh : Fresh o e) (room : String) (names : List String) (some_names : names ≠ [])
      (present : "" ∉ names)
      (lists : (o.step e).station.mcp.preapprovals =
        Function.update o.station.mcp.preapprovals room (some names))
      (word : (o.step e).promised = Function.update o.promised room (some names))
  | opened (room : String) (names : List String) (present : "" ∉ names)
      (fresh : Fresh o e ↔
        ∀ old, o.station.mcp.preapprovals room = some old → ∀ a ∈ old, a ∈ names)
      (lists : (o.step e).station.mcp.preapprovals = o.station.mcp.preapprovals)
      (word : (o.step e).promised = Function.update o.promised room (some names))
  | dropped (fresh : Fresh o e) (room : String)
      (lists : (o.step e).station.mcp.preapprovals =
        Function.update o.station.mcp.preapprovals room none)
      (word : (o.step e).promised = Function.update o.promised room none)
  | deleted (room : String) (fresh : Fresh o e ↔ o.station.mcp.preapprovals room = none)
      (lists : (o.step e).station.mcp.preapprovals = o.station.mcp.preapprovals)
      (word : (o.step e).promised = Function.update o.promised room none)

theorem open_change (o : Owner) (approval : Bool) (preapprove : Option Json) (room : String)
    (saved : FileOutcome) : ListChange o (.tool (.openSession approval preapprove (some room) saved)) := by
  by_cases recorded : approval = true ∧ listedNames preapprove ≠ []
  · refine ListChange.recorded (Or.inl recorded) room (listedNames preapprove) recorded.2
      (presentNames_present _) ?_ ?_
    · simp [Owner.step, Station.step, Station.handle, Station.callSessionTool, recorded]
    · rfl
  · apply ListChange.opened room (listedNames preapprove) (presentNames_present _)
    · exact or_iff_right recorded
    · simp only [Owner.step, Station.step, Station.handle, Station.callSessionTool, if_neg recorded]
      rw [adopt_preapprovals, refresh_preapprovals]
    · rfl

theorem close_change (o : Owner) (cleared : FileOutcome) :
    ListChange o (.tool (.closeSession cleared)) := by
  cases active : o.station.refresh.mcp.activeSession with
  | none =>
    refine ListChange.kept trivial ?_ ?_
    · simp [Owner.step, Station.step, Station.handle, Station.callSessionTool, active]
    · simp [Owner.step, Owner.word, active]
  | some room =>
    refine ListChange.dropped trivial room ?_ ?_
    · simp [Owner.step, Station.step, Station.handle, Station.callSessionTool, active]
    · simp [Owner.step, Owner.word, active]

theorem delete_change (o : Owner) (room : Option String) (deleted : Bool) (cleared : FileOutcome) :
    ListChange o (.tool (.deleteRoom room deleted cleared)) := by
  cases deleted with
  | false =>
    refine ListChange.kept trivial ?_ ?_
    · simp only [Owner.step, Station.step, Station.handle, Station.callSessionTool]
      cases room.or o.station.refresh.mcp.activeSession <;> simp
    · rfl
  | true =>
    cases named : room.or o.station.refresh.mcp.activeSession with
    | none =>
      apply ListChange.kept
      · simp [Fresh, named]
      · simp [Owner.step, Station.step, Station.handle, Station.callSessionTool, named]
      · simp [Owner.step, Owner.word, named]
    | some target =>
      have word : (o.step (.tool (.deleteRoom room true cleared))).promised =
          Function.update o.promised target none := by
        simp only [Owner.step, Owner.word, named]
      by_cases active : o.station.refresh.mcp.activeSession = some target
      · refine .dropped ?_ target ?_ word
        · simp only [Fresh, named, Option.some.injEq, forall_eq']
          exact Or.inl active
        · simp only [Owner.step, Station.step, Station.handle, Station.callSessionTool, named,
            if_pos (And.intro trivial active)]
          rw [leave_preapprovals, refresh_preapprovals]
      · refine .deleted target ?_ ?_ word
        · simp only [Fresh, named, Option.some.injEq, forall_eq']
          exact or_iff_right active
        · simp only [Owner.step, Station.step, Station.handle, Station.callSessionTool, named,
            if_neg (fun both : True ∧ _ => active both.2)]
          exact refresh_preapprovals o.station

theorem list_change (o : Owner) (e : SessionEvent) : ListChange o e := by
  cases e with
  | restart => exact .restarted trivial rfl rfl
  | cli command =>
    refine .kept trivial ?_ rfl
    cases command with
    | session room saved => cases room <;> rfl
    | deleteRoom room deleted cleared =>
      simp only [Owner.step, Station.step, Station.command]
      split <;> rfl
  | tool call =>
    cases call with
    | openSession approval preapprove room saved =>
      cases room with
      | none => exact .kept trivial (refresh_preapprovals o.station) rfl
      | some room => exact open_change o approval preapprove room saved
    | joinSession room saved =>
      cases room with
      | none => exact .kept trivial (refresh_preapprovals o.station) rfl
      | some room => exact .kept trivial (refresh_preapprovals o.station) rfl
    | closeSession cleared => exact close_change o cleared
    | deleteRoom room deleted cleared => exact delete_change o room deleted cleared
    | other => exact .kept trivial (refresh_preapprovals o.station) rfl

theorem update_cases {f : String → Option (List String)} {target room : String}
    {v : Option (List String)} {names : List String} (has : Function.update f target v room = some names) :
    (room = target ∧ v = some names) ∨ (room ≠ target ∧ f room = some names) := by
  by_cases same : room = target
  · subst same
    exact Or.inl ⟨rfl, by simpa using has⟩
  · exact Or.inr ⟨same, by simpa [same] using has⟩

theorem tidy_step {o : Owner} (tidy : o.Tidy) (e : SessionEvent) : (o.step e).Tidy := by
  obtain ⟨held, words⟩ := tidy
  cases list_change o e with
  | kept fresh lists word => exact ⟨by rwa [lists], by rwa [word]⟩
  | restarted fresh lists word => exact ⟨by rw [lists]; nofun, by rw [word]; nofun⟩
  | recorded fresh target names some_names present lists word =>
    constructor
    · intro room old has
      rw [lists] at has
      rcases update_cases has with ⟨-, new⟩ | ⟨-, old⟩
      · rw [← Option.some.inj new]
        exact ⟨some_names, present⟩
      · exact held room _ old
    · intro room names' has
      rw [word] at has
      rcases update_cases has with ⟨-, new⟩ | ⟨-, old⟩
      · cases new
        exact present
      · exact words room _ old
  | opened target names present fresh lists word =>
    refine ⟨by rwa [lists], ?_⟩
    intro room names' has
    rw [word] at has
    rcases update_cases has with ⟨-, new⟩ | ⟨-, old⟩
    · cases new
      exact present
    · exact words room _ old
  | dropped fresh target lists word =>
    constructor
    · intro room old has
      rw [lists] at has
      rcases update_cases has with ⟨-, new⟩ | ⟨-, old⟩
      · cases new
      · exact held room _ old
    · intro room names has
      rw [word] at has
      rcases update_cases has with ⟨-, new⟩ | ⟨-, old⟩
      · cases new
      · exact words room _ old
  | deleted target fresh lists word =>
    refine ⟨by rwa [lists], ?_⟩
    intro room names has
    rw [word] at has
    rcases update_cases has with ⟨-, new⟩ | ⟨-, old⟩
    · cases new
    · exact words room _ old

/-- From lists within the word, just the fresh steps lead to lists within the word. -/
theorem within_step {o : Owner} (within : o.Within) (e : SessionEvent) :
    (o.step e).Within ↔ Fresh o e := by
  cases list_change o e with
  | kept fresh lists word =>
    apply iff_of_true _ fresh
    unfold Owner.Within
    rwa [lists, word]
  | restarted fresh lists word =>
    apply iff_of_true _ fresh
    unfold Owner.Within
    rw [lists]
    nofun
  | recorded fresh target names some_names present lists word =>
    apply iff_of_true _ fresh
    intro room old has
    rw [lists] at has
    rw [word]
    rcases update_cases has with ⟨here, new⟩ | ⟨other, held⟩
    · refine ⟨names, by simp [here], fun a member => ?_⟩
      rwa [Option.some.inj new]
    · obtain ⟨given, promised, among⟩ := within room old held
      exact ⟨given, by simpa [other] using promised, among⟩
  | opened target names present fresh lists word =>
    rw [fresh]
    constructor
    · intro after old held a member
      rw [← lists] at held
      obtain ⟨given, promised, among⟩ := after target old held
      rw [word, Function.update_self] at promised
      cases promised
      exact among a member
    · intro covered room old has
      rw [lists] at has
      rw [word]
      by_cases same : room = target
      · subst same
        exact ⟨names, by simp, covered old has⟩
      · obtain ⟨given, promised, among⟩ := within room old has
        exact ⟨given, by simpa [same] using promised, among⟩
  | dropped fresh target lists word =>
    apply iff_of_true _ fresh
    intro room old has
    rw [lists] at has
    rw [word]
    rcases update_cases has with ⟨-, new⟩ | ⟨other, held⟩
    · cases new
    · obtain ⟨given, promised, among⟩ := within room old held
      exact ⟨given, by simpa [other] using promised, among⟩
  | deleted target fresh lists word =>
    rw [fresh]
    constructor
    · intro after
      by_contra held
      obtain ⟨old, held⟩ := Option.ne_none_iff_exists'.mp held
      rw [← lists] at held
      obtain ⟨given, promised, -⟩ := after target old held
      rw [word, Function.update_self] at promised
      cases promised
    · intro absent room old has
      rw [lists] at has
      rw [word]
      by_cases same : room = target
      · rw [same, absent] at has
        cases has
      · obtain ⟨given, promised, among⟩ := within room old has
        exact ⟨given, by simpa [same] using promised, among⟩

/-- In every state of a run the joiners that the server would approve by itself are on the list of the
    latest opening of a room that was neither closed nor deleted since, just when every step of the run
    is fresh. -/
theorem preapprovals_fresh (managed : Bool) (run : List SessionEvent) :
    (∀ part, part <+: run → (part.foldl Owner.step (Owner.start managed)).Sound) ↔
      ∀ part e, part ++ [e] <+: run → Fresh (part.foldl Owner.step (Owner.start managed)) e := by
  have start : (Owner.start managed).Tidy := ⟨nofun, nofun⟩
  rw [← eachStep_iff, ← throughout_iff]
  apply throughout_iff_eachStep (I := Owner.Tidy)
  · exact fun o e tidy => tidy_step tidy e
  · intro o e tidy sound
    rw [sound_iff (tidy_step tidy e)]
    exact within_step ((sound_iff tidy).mp sound) e
  · exact start
  · exact (sound_iff start).mpr nofun

/-- A room is opened behind the gate with bob on its list, and opened again without a list. Bob, who
    redeems the first key now, is still let in. -/
theorem stale_list_admits :
    ¬ ∀ (managed : Bool) (run : List SessionEvent), (run.foldl Owner.step (Owner.start managed)).Sound := by
  intro always
  obtain ⟨names, promised, listed⟩ := always false
    [.tool (.openSession true (some (.arr [.str "bob"])) (some "plan") .done),
      .tool (.openSession false none (some "plan") .done)]
    "plan" (some [⟨"B", "Bob", none, 0⟩]) ⟨"B", "Bob", none, 0⟩ (by decide +kernel)
  have empty : names = [] := by
    symm
    simpa [Owner.step, Owner.word, Owner.start, listedNames, parseNameList, presentNames] using promised
  rw [empty] at listed
  cases listed

end Parler.Cli
