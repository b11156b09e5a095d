import Parler.Cli.Codex
import Mathlib.Logic.Relation

/-!
# Every finished turn is reported once

What the coordinator does about one turn that it started, over a whole run: it notes the message that the
turn is for, and when the turn has ended it posts the result and acknowledges the message. The app-server
may deliver what it knows in any order but three.
-/

namespace Parler.Cli

open Parler.Lib Parler.Protocol Parler.Hub Parler.Connector

/-- The turn that an act is about; a request has none yet. -/
def CodexAct.turn : CodexAct → Option String
  | .started .. => none
  | .injected turn _ | .recorded turn | .posted turn _ | .acked turn _ => some turn

/-- The act says what a request or a turn is for. -/
def CodexAct.assigns : CodexAct → Bool
  | .started .. | .injected .. => true
  | .recorded _ | .posted .. | .acked .. => false

/-- The app-server: which turn it makes of a `turn/start`, and what the agent says last in a turn. -/
structure AppServer where
  turnOf : Nat → String
  distinct : Function.Injective turnOf
  resultOf : String → String

namespace Codex

/-- What was done about a turn, in order. -/
def trace (s : Codex) (turn : String) : List CodexAct := s.log.filter (fun act => act.turn = some turn)

def Recorded (s : Codex) (turn : String) : Prop := CodexAct.recorded turn ∈ s.log

/-- The app-server has been asked for the turn and has not refused it. -/
def Begun (W : AppServer) (s : Codex) (request : Nat) : Prop :=
  request ∈ s.pendingStarts.map Prod.fst ∨ s.trace (W.turnOf request) ≠ []

/-- What the app-server says is true. -/
def Honest (W : AppServer) (s : Codex) : CodexEvent → Prop
  | .response request (.result (some turn)) => turn = W.turnOf request
  | .poll (some page) =>
      (page.filterMap TurnView.id).Nodup ∧
        ∀ view ∈ page, ∀ outcome, terminalThreadOutcome view = some outcome →
          ∀ request, outcome.id = W.turnOf request →
            s.Begun W request ∧ (outcome.error = none → outcome.text = W.resultOf outcome.id)
  | .turnCompleted view => ∀ request, view.id = some (W.turnOf request) → s.Begun W request
  | _ => True

/-- The orders that the coordinator copes with. -/
def Orderly (W : AppServer) (known : RecentIds) (s : Codex) : CodexEvent → Prop
  /- A turn does not start after its end was noted. -/
  | .turnStarted turn => turn ∉ known.members ∧ ¬ s.Recorded turn
  | .turnCompleted view => ∀ request, view.id = some (W.turnOf request) →
      (s.turns (W.turnOf request)).isSome →
        /- The end of a turn that is watched does not come before the reply that names the turn. -/
        request ∉ s.pendingStarts.map Prod.fst ∧
        /- It comes with the last message of the agent. -/
        (incompleteTurnReason view = none → finalText view = W.resultOf (W.turnOf request)) ∧
        /- The end of a turn that was noted is not forgotten. -/
        (s.Recorded (W.turnOf request) → W.turnOf request ∈ s.terminalTurns.members)
  | .poll (some page) => ∀ outcome ∈ (collectUnseenTerminalTurns page s.terminalTurns).1,
      ∀ request, outcome.id = W.turnOf request → ¬ s.Recorded outcome.id
  | _ => True

section Run

variable (W : AppServer) (known : RecentIds) (readHandoff : String → Option HandoffRef)

/-- A round of the loop in which the app-server is honest and keeps to the order. -/
def Step (s s' : Codex) : Prop :=
  ∃ event, s.Honest W event ∧ s.Orderly W known event ∧ s.step readHandoff event = some s'

/-- All that is done about a turn whose result was reported. -/
def reported (turn : String) (message : StoredMessage) : List CodexAct :=
  [CodexAct.injected turn message, CodexAct.recorded turn] ++
    (if trim (W.resultOf turn) = "" then []
      else [CodexAct.posted turn (peerResult readHandoff message (trim (W.resultOf turn)))]) ++
    [CodexAct.acked turn message]

/-- How far a turn of the coordinator is: what was done about it, whether it is among the injected
    turns, and its capture. -/
inductive Phase (turn : String) : List CodexAct → Prop → Option TurnCapture → Prop where
  /-- The coordinator does not know yet that the turn is its own. -/
  | unknown {injected : Prop} {capture : Option TurnCapture} (out : ¬ injected)
      (plain : ∀ c, capture = some c → c.incoming = none) : Phase turn [] injected capture
  | running {injected : Prop} (message : StoredMessage) (text : String) (inside : injected) :
      Phase turn [.injected turn message] injected (some ⟨some message, text⟩)
  | done {injected : Prop} {capture : Option TurnCapture} (message : StoredMessage) (out : ¬ injected) :
      Phase turn (reported W readHandoff turn message) injected capture

/-- The invariant of the loop. -/
structure Sound (s : Codex) : Prop where
  phase : ∀ request, Phase W readHandoff (W.turnOf request) (s.trace (W.turnOf request))
    (W.turnOf request ∈ s.injectedTurns) (s.turns (W.turnOf request))
  distinct : (s.pendingStarts.map Prod.fst).Nodup
  waiting : ∀ request ∈ s.pendingStarts.map Prod.fst, s.trace (W.turnOf request) = []
  asked : ∀ request, s.trace (W.turnOf request) ≠ [] ∨ request ∈ s.pendingStarts.map Prod.fst →
    request < s.nextId
  own : ∀ turn ∈ s.injectedTurns, ∃ request, turn = W.turnOf request
  active : ∀ turn ∈ s.activeTurns, turn ∉ known.members ∧ ¬ s.Recorded turn

/-- The terminal turns were known from the start or recorded. -/
def Noted (s : Codex) : Prop := ∀ turn ∈ s.terminalTurns.members, turn ∈ known.members ∨ s.Recorded turn

end Run

/-! ## What is done about a turn -/

section Trace

variable {s : Codex} {turn : String} {acts : List CodexAct}

theorem filter_turn_append {log : List CodexAct} (all : ∀ act ∈ acts, act.turn = some turn) (other : String) :
    (log ++ acts).filter (fun act => act.turn = some other) =
      log.filter (fun act => act.turn = some other) ++ if turn = other then acts else [] := by
  rw [List.filter_append]
  congr 1
  split
  · rename_i same
    exact List.filter_eq_self.mpr (fun act listed => decide_eq_true ((all act listed).trans (congrArg some same)))
  · rename_i different
    refine List.filter_eq_nil_iff.mpr ?_
    intro act listed same
    exact different (Option.some.inj ((all act listed).symm.trans (of_decide_eq_true same)))

theorem recorded_iff : s.Recorded turn ↔ CodexAct.recorded turn ∈ s.trace turn := by
  unfold Recorded trace
  rw [List.mem_filter]
  exact ⟨fun listed => ⟨listed, decide_eq_true rfl⟩, fun listed => listed.1⟩

variable (readHandoff : String → Option HandoffRef)

theorem publish_turn (capture : TurnCapture) :
    ∀ act ∈ publish readHandoff turn capture, act.turn = some turn ∧ act.assigns = false := by
  intro act listed
  rcases List.mem_append.mp listed with posted | acked
  · obtain ⟨post, -, rfl⟩ := List.mem_map.mp posted
    exact ⟨rfl, rfl⟩
  · obtain ⟨message, -, rfl⟩ := List.mem_map.mp acked
    exact ⟨rfl, rfl⟩

theorem reported_eq (W : AppServer) (message : StoredMessage) :
    reported W readHandoff turn message =
      [CodexAct.injected turn message] ++ ([CodexAct.recorded turn] ++
        publish readHandoff turn ⟨some message, W.resultOf turn⟩) := by
  unfold reported publish publication
  by_cases blank : trim (W.resultOf turn) = ""
  · simp [blank]
  · simp [blank]

end Trace

/-! ## One event -/

section Events

variable {W : AppServer} {known : RecentIds} {readHandoff : String → Option HandoffRef} {s s' : Codex}

/-- A change to one turn. -/
theorem Sound.change (sound : Sound W known readHandoff s) (turn : String)
    (pending : s'.pendingStarts = s.pendingStarts) (next : s.nextId ≤ s'.nextId)
    (traces : ∀ other ≠ turn, s'.trace other = s.trace other)
    (captures : ∀ other ≠ turn, s'.turns other = s.turns other)
    (same : ∀ other ≠ turn, (other ∈ s'.injectedTurns ↔ other ∈ s.injectedTurns))
    (fewer : s'.injectedTurns ⊆ s.injectedTurns)
    (active : ∀ other ∈ s'.activeTurns, other ∉ known.members ∧ ¬ s'.Recorded other)
    (here : ∀ request, turn = W.turnOf request →
      Phase W readHandoff turn (s'.trace turn) (turn ∈ s'.injectedTurns) (s'.turns turn) ∧
        (s.trace turn = [] → s'.trace turn = [])) : Sound W known readHandoff s' := by
  have silent : ∀ request, s.trace (W.turnOf request) = [] → s'.trace (W.turnOf request) = [] := by
    intro request empty
    by_cases own : W.turnOf request = turn
    · rw [own] at empty ⊢
      exact (here request own.symm).2 empty
    · rw [traces _ own]
      exact empty
  refine ⟨?_, ?_, ?_, ?_, ?_, active⟩
  · intro request
    by_cases own : W.turnOf request = turn
    · rw [own]
      exact (here request own.symm).1
    · rw [traces _ own, captures _ own, same _ own]
      exact sound.phase request
  · rw [pending]
    exact sound.distinct
  · intro request waits
    rw [pending] at waits
    exact silent request (sound.waiting request waits)
  · intro request begun
    rw [pending] at begun
    exact (sound.asked request (begun.imp_left (mt (silent request)))).trans_le next
  · exact fun other inside => sound.own other (fewer inside)

/-- A change beside the turns. -/
theorem Sound.aside (sound : Sound W known readHandoff s) (pending : s'.pendingStarts = s.pendingStarts)
    (next : s.nextId ≤ s'.nextId) (log : s'.log = s.log) (turns : s'.turns = s.turns)
    (injected : s'.injectedTurns = s.injectedTurns) (active : s'.activeTurns = s.activeTurns) :
    Sound W known readHandoff s' := by
  have traces : ∀ turn, s'.trace turn = s.trace turn := by
    intro turn
    rw [trace, log, trace]
  have recorded : ∀ turn, s'.Recorded turn ↔ s.Recorded turn := by
    intro turn
    rw [Recorded, log, Recorded]
  refine sound.change (W.turnOf 0) pending next (fun _ _ => traces _) (fun _ _ => by rw [turns])
    (fun _ _ => by rw [injected]) (by rw [injected]) ?_ ?_
  · intro other inside
    rw [recorded]
    exact sound.active other (active ▸ inside)
  · intro request own
    rw [traces, injected, turns, own]
    exact ⟨sound.phase request, id⟩

theorem turns_capture (turn : String) (f : TurnCapture → TurnCapture) (other : String) :
    (s.capture turn f).turns other =
      if other = turn then some (f ((s.turns turn).getD ⟨none, ""⟩)) else s.turns other := by
  unfold capture
  exact Function.update_apply _ _ _ _

/-- A change to the text of a turn. -/
theorem Phase.retext {turn : String} {acts : List CodexAct} {injected : Prop} {watched : Option TurnCapture}
    (phase : Phase W readHandoff turn acts injected watched) {f : TurnCapture → TurnCapture}
    (keeps : ∀ c, (f c).incoming = c.incoming) :
    Phase W readHandoff turn acts injected (some (f (watched.getD ⟨none, ""⟩))) := by
  cases phase with
  | unknown out plain =>
    refine .unknown out ?_
    intro c same
    cases same
    rw [keeps]
    cases watched with
    | none => rfl
    | some c => exact plain c rfl
  | running message text inside =>
    have kept := keeps ⟨some message, text⟩
    rw [Option.getD_some]
    generalize f ⟨some message, text⟩ = c at kept ⊢
    obtain ⟨incoming, text'⟩ := c
    change incoming = some message at kept
    subst kept
    exact .running message text' inside
  | done message out => exact .done message out

theorem Sound.capture (sound : Sound W known readHandoff s) (turn : String) {f : TurnCapture → TurnCapture}
    (keeps : ∀ c, (f c).incoming = c.incoming) : Sound W known readHandoff (s.capture turn f) := by
  refine sound.change turn rfl (le_refl _) (fun _ _ => rfl) ?_ (fun _ _ => Iff.rfl)
    (fun _ inside => inside) sound.active ?_
  · intro other different
    rw [turns_capture, if_neg different]
  · intro request own
    refine ⟨?_, id⟩
    rw [turns_capture, if_pos rfl]
    subst own
    exact (sound.phase request).retext keeps

/-- A turn starts. -/
theorem Sound.turnStarted (sound : Sound W known readHandoff s) {turn : String}
    (new : turn ∉ known.members ∧ ¬ s.Recorded turn) :
    Sound W known readHandoff
      { s with threadActive := true, activeTurns := insert turn s.activeTurns } := by
  refine sound.change turn rfl (le_refl _) (fun _ _ => rfl) (fun _ _ => rfl) (fun _ _ => Iff.rfl)
    (fun _ inside => inside) ?_ ?_
  · intro other inside
    rcases Finset.mem_insert.mp inside with rfl | old
    · exact new
    · exact sound.active other old
  · intro request own
    subst own
    exact ⟨sound.phase request, id⟩

/-- The first queued message gets its request. -/
theorem Sound.startNext (sound : Sound W known readHandoff s) : Sound W known readHandoff s.startNext := by
  unfold Codex.startNext
  split
  · split
    · exact sound
    · rename_i message rest queued
      have keys : (s.pendingStarts ++ [(s.nextId, message)]).map Prod.fst =
          s.pendingStarts.map Prod.fst ++ [s.nextId] := by
        rw [List.map_append]
        rfl
      have new : s.nextId ∉ s.pendingStarts.map Prod.fst := by
        intro waits
        exact absurd (sound.asked _ (Or.inr waits)) (lt_irrefl _)
      have traces : ∀ turn, (s.log ++ [CodexAct.started s.nextId message]).filter
          (fun act => act.turn = some turn) = s.trace turn := by
        intro turn
        rw [List.filter_append, List.filter_singleton]
        exact List.append_nil _
      refine ⟨?_, ?_, ?_, ?_, sound.own, ?_⟩
      · intro request
        show Phase W readHandoff _ ((s.log ++ _).filter _) _ _
        rw [traces]
        exact sound.phase request
      · show ((s.pendingStarts ++ [(s.nextId, message)]).map Prod.fst).Nodup
        rw [keys]
        exact List.nodup_append.mpr ⟨sound.distinct, List.nodup_singleton _, by
          intro a listed b last same
          rw [List.mem_singleton.mp last] at same
          exact new (same ▸ listed)⟩
      · intro request waits
        change request ∈ (s.pendingStarts ++ [(s.nextId, message)]).map Prod.fst at waits
        rw [keys, List.mem_append] at waits
        show (s.log ++ _).filter _ = []
        rw [traces]
        rcases waits with old | last
        · exact sound.waiting request old
        · by_contra touched
          have early := sound.asked request (Or.inl touched)
          rw [List.mem_singleton.mp last] at early
          exact lt_irrefl _ early
      · intro request begun
        change (s.log ++ _).filter _ ≠ [] ∨
          request ∈ (s.pendingStarts ++ [(s.nextId, message)]).map Prod.fst at begun
        rw [traces, keys, List.mem_append, List.mem_singleton] at begun
        show request < s.nextId + 1
        rcases begun with touched | old | last
        · have := sound.asked request (Or.inl touched)
          omega
        · have := sound.asked request (Or.inr old)
          omega
        · omega
      · intro turn inside
        refine ⟨(sound.active turn inside).1, ?_⟩
        intro recorded
        rcases List.mem_append.mp recorded with old | new
        · exact (sound.active turn inside).2 old
        · cases List.mem_singleton.mp new
  · exact sound

/-- A request is answered. -/
theorem Sound.answered (sound : Sound W known readHandoff s) (request : Nat) :
    Sound W known readHandoff
      { s with pendingStarts := s.pendingStarts.filter (fun pending => pending.1 ≠ request) } := by
  have kept : ((s.pendingStarts.filter (fun pending => pending.1 ≠ request)).map Prod.fst).Sublist
      (s.pendingStarts.map Prod.fst) := List.filter_sublist.map _
  refine ⟨sound.phase, kept.nodup sound.distinct, ?_, ?_, sound.own, sound.active⟩
  · exact fun other waits => sound.waiting other (kept.subset waits)
  · exact fun other begun => sound.asked other (begun.imp_right (fun waits => kept.subset waits))

/-- The reply names the turn. -/
theorem Sound.injected (sound : Sound W known readHandoff s) {request : Nat}
    (asked : request < s.nextId) (alone : request ∉ s.pendingStarts.map Prod.fst)
    (silent : s.trace (W.turnOf request) = []) (message : StoredMessage) :
    Sound W known readHandoff
      ({ s with injectedTurns := insert (W.turnOf request) s.injectedTurns
                log := s.log ++ [CodexAct.injected (W.turnOf request) message] }.capture
        (W.turnOf request) (fun capture => { capture with incoming := some message })) := by
  have traces : ∀ turn, (s.log ++ [CodexAct.injected (W.turnOf request) message]).filter
      (fun act => act.turn = some turn) =
        s.trace turn ++ if W.turnOf request = turn then [.injected (W.turnOf request) message] else [] :=
    filter_turn_append (by
      intro act listed
      rw [List.mem_singleton.mp listed]
      rfl)
  have others : ∀ other, other ≠ request → W.turnOf other ≠ W.turnOf request :=
    fun other different => W.distinct.ne different
  refine ⟨?_, sound.distinct, ?_, ?_, ?_, ?_⟩
  · intro other
    rw [turns_capture]
    by_cases own : other = request
    · subst own
      show Phase W readHandoff _ ((s.log ++ _).filter _) _ _
      rw [if_pos rfl, traces, silent, if_pos rfl]
      exact .running message _ (Finset.mem_insert_self _ _)
    · show Phase W readHandoff _ ((s.log ++ _).filter _) (_ ∈ insert _ _) _
      rw [if_neg (others other own), traces, if_neg (others other own).symm, List.append_nil,
        Finset.mem_insert, or_iff_right (others other own)]
      exact sound.phase other
  · intro other waits
    show (s.log ++ _).filter _ = []
    have different : other ≠ request := by
      intro same
      exact alone (same ▸ waits)
    rw [traces, if_neg (others other different).symm, List.append_nil]
    exact sound.waiting other waits
  · intro other begun
    by_cases own : other = request
    · rw [own]
      exact asked
    · refine sound.asked other (begun.imp_left ?_)
      intro touched silent'
      refine touched ?_
      show (s.log ++ _).filter _ = []
      rw [traces, if_neg (others other own).symm, List.append_nil]
      exact silent'
  · intro turn inside
    rcases Finset.mem_insert.mp inside with rfl | old
    · exact ⟨request, rfl⟩
    · exact sound.own turn old
  · intro turn inside
    refine ⟨(sound.active turn inside).1, ?_⟩
    intro recorded
    rcases List.mem_append.mp recorded with old | new
    · exact (sound.active turn inside).2 old
    · cases List.mem_singleton.mp new

theorem Sound.handleResponse (sound : Sound W known readHandoff s) {request : Nat} {reply : StartReply}
    (honest : s.Honest W (.response request reply))
    (handled : s.handleResponse request reply = some s') : Sound W known readHandoff s' := by
  unfold Codex.handleResponse at handled
  split at handled
  · cases handled
    exact sound
  · rename_i found
    have same := List.find?_some found
    rw [decide_eq_true_eq] at same
    have listed : request ∈ s.pendingStarts.map Prod.fst := by
      rw [← same]
      exact List.mem_map_of_mem (List.mem_of_find?_eq_some found)
    have answered := sound.answered request
    cases reply with
    | error text =>
      dsimp only at handled
      split at handled
      · cases handled
        exact answered.aside rfl (le_refl _) rfl rfl rfl rfl
      · cases handled
    | result turn =>
      cases turn with
      | none =>
        cases handled
        exact answered
      | some turn =>
        have own : turn = W.turnOf request := honest
        subst own
        cases handled
        refine answered.injected (sound.asked request (Or.inr listed)) ?_ (sound.waiting request listed) _
        intro still
        obtain ⟨pending, kept, same⟩ := List.mem_map.mp still
        exact of_decide_eq_true (List.mem_filter.mp kept).2 same

/-- A turn ends. -/
theorem Sound.finish (sound : Sound W known readHandoff s) (turn : String) {acts : List CodexAct}
    (all : ∀ act ∈ acts, act.turn = some turn) (pending : s'.pendingStarts = s.pendingStarts)
    (next : s.nextId ≤ s'.nextId) (log : s'.log = s.log ++ acts)
    (captures : s'.turns = s.turns ∨ s'.turns = Function.update s.turns turn none)
    (injected : s'.injectedTurns = s.injectedTurns.erase turn)
    (active : s'.activeTurns = s.activeTurns.erase turn)
    (ends : ∀ request, turn = W.turnOf request → (acts = [] ∧ turn ∉ s.injectedTurns) ∨
      ∃ message, s.trace turn = [.injected turn message] ∧
        acts = [.recorded turn] ++ publish readHandoff turn ⟨some message, W.resultOf turn⟩) :
    Sound W known readHandoff s' := by
  have traces : ∀ other, s'.trace other = s.trace other ++ if turn = other then acts else [] := by
    intro other
    rw [trace, log]
    exact filter_turn_append all other
  have out : turn ∉ s'.injectedTurns := by
    rw [injected]
    exact Finset.notMem_erase _ _
  refine sound.change turn pending next ?_ ?_ ?_ ?_ ?_ ?_
  · intro other different
    rw [traces, if_neg different.symm, List.append_nil]
  · intro other different
    rcases captures with same | cleared
    · rw [same]
    · rw [cleared, Function.update_of_ne different]
  · intro other different
    rw [injected, Finset.mem_erase]
    exact and_iff_right different
  · rw [injected]
    exact Finset.erase_subset _ _
  · intro other inside
    rw [active, Finset.mem_erase] at inside
    refine ⟨(sound.active other inside.2).1, ?_⟩
    intro recorded
    rw [Recorded, log, List.mem_append] at recorded
    rcases recorded with old | new
    · exact (sound.active other inside.2).2 old
    · exact inside.1 (Option.some.inj (all _ new))
  · intro request own
    have phase := sound.phase request
    rw [← own] at phase
    rw [traces, if_pos rfl]
    rcases ends request own with ⟨rfl, outside⟩ | ⟨message, started, rfl⟩
    · refine ⟨?_, fun silent => by rw [silent]; rfl⟩
      rw [List.append_nil]
      generalize s.trace turn = before at phase ⊢
      generalize was : s.turns turn = watched at phase
      cases phase with
      | unknown out' plain =>
        refine .unknown out ?_
        intro c watched
        rcases captures with same | cleared
        · rw [same, was] at watched
          exact plain c watched
        · rw [cleared, Function.update_self] at watched
          cases watched
      | running message text inside => exact absurd inside outside
      | done message out' => exact .done message out
    · refine ⟨?_, ?_⟩
      · rw [started, ← reported_eq]
        exact .done message out
      · intro silent
        rw [silent] at started
        cases started

/-- What the coordinator does when it learns from the history that a turn has ended. -/
theorem settle_cases {outcome : ThreadTurnOutcome} (settled : s.settle readHandoff outcome = some s') :
    s'.activeTurns = s.activeTurns.erase outcome.id ∧
      s'.injectedTurns = s.injectedTurns.erase outcome.id ∧ s'.pendingStarts = s.pendingStarts ∧
      s'.nextId = s.nextId ∧ s'.terminalTurns = s.terminalTurns ∧ s'.threadActive = s.threadActive ∧
      s'.queued = s.queued ∧
      (s'.turns = s.turns ∨ s'.turns = Function.update s.turns outcome.id none) ∧
      ∃ acts, s'.log = s.log ++ ([.recorded outcome.id] ++ acts) ∧
        (∀ act ∈ acts, act.turn = some outcome.id ∧ act.assigns = false) ∧
        (outcome.id ∈ s.injectedTurns → outcome.error = none ∧ ∃ capture,
          s.turns outcome.id = some capture ∧
            acts = publish readHandoff outcome.id { capture with text := outcome.text }) := by
  unfold settle at settled
  dsimp only at settled
  split at settled
  · rename_i inside
    split at settled
    · cases settled
    · rename_i capture watched
      split at settled
      · cases settled
      · rename_i fine
        rw [Bool.not_eq_true, Option.isSome_eq_false_iff, Option.isNone_iff_eq_none] at fine
        cases settled
        exact ⟨rfl, rfl, rfl, rfl, rfl, rfl, rfl, Or.inr rfl, _, List.append_assoc _ _ _,
          publish_turn readHandoff _, fun _ => ⟨fine, capture, watched, rfl⟩⟩
  · rename_i outside
    have erased := (Finset.erase_eq_of_notMem outside).symm
    split at settled
    · cases settled
      exact ⟨rfl, erased, rfl, rfl, rfl, rfl, rfl, Or.inl rfl, _, List.append_assoc _ _ _,
        publish_turn readHandoff _, fun inside => absurd inside outside⟩
    · cases settled
      exact ⟨rfl, erased, rfl, rfl, rfl, rfl, rfl, Or.inl rfl, [], by simp, nofun,
        fun inside => absurd inside outside⟩

/-- An outcome of the history that the coordinator copes with. -/
def Due (W : AppServer) (s : Codex) (outcome : ThreadTurnOutcome) : Prop :=
  ∀ request, outcome.id = W.turnOf request → outcome.id ∈ s.injectedTurns ∧
    (outcome.error = none → outcome.text = W.resultOf outcome.id)

theorem Sound.settle (sound : Sound W known readHandoff s) {outcome : ThreadTurnOutcome}
    (due : s.Due W outcome) (settled : s.settle readHandoff outcome = some s') :
    Sound W known readHandoff s' := by
  obtain ⟨active, injected, pending, next, -, -, -, captures, acts, log, about, final⟩ :=
    settle_cases settled
  have all : ∀ act ∈ [CodexAct.recorded outcome.id] ++ acts, act.turn = some outcome.id := by
    intro act listed
    rcases List.mem_append.mp listed with first | listed
    · rw [List.mem_singleton.mp first]
      rfl
    · exact (about act listed).1
  refine sound.finish outcome.id all pending (le_of_eq next.symm) log captures injected active ?_
  intro request own
  obtain ⟨inside, ends⟩ := due request own
  obtain ⟨fine, capture, watched, same⟩ := final inside
  have phase := sound.phase request
  rw [← own, watched] at phase
  refine Or.inr ?_
  generalize s.trace outcome.id = before at phase ⊢
  cases phase with
  | unknown out plain => exact absurd inside out
  | running message text _ => exact ⟨message, rfl, by rw [same, ends fine]⟩
  | done message out => exact absurd inside out

/-- What the coordinator does when it is told that a turn is completed. -/
theorem handleTurnCompleted_cases {view : TurnView} {turn : String} (named : view.id = some turn)
    (handled : s.handleTurnCompleted readHandoff view = some s') :
    s'.activeTurns = s.activeTurns.erase turn ∧ s'.injectedTurns = s.injectedTurns.erase turn ∧
      s'.pendingStarts = s.pendingStarts ∧ s'.nextId = s.nextId ∧
      s'.turns = Function.update s.turns turn none ∧ ∃ acts, s'.log = s.log ++ acts ∧
        ((acts = [] ∧ s'.terminalTurns = s.terminalTurns ∧
            (s.turns turn = none ∨ turn ∈ s.terminalTurns.members)) ∨
          ∃ capture, s.turns turn = some capture ∧ turn ∉ s.terminalTurns.members ∧
            s'.terminalTurns = s.terminalTurns.remember codexSeenTurns turn ∧
            ((capture.incoming = none ∧ acts = [.recorded turn]) ∨
              (incompleteTurnReason view = none ∧ acts = [.recorded turn] ++
                publish readHandoff turn (completedCapture capture view)))) := by
  unfold handleTurnCompleted at handled
  rw [named] at handled
  dsimp only at handled
  cases watched : s.turns turn with
  | none =>
    simp only [watched, Option.isSome_none, Option.any_none, Bool.false_eq_true, if_false, Bool.and_false,
      List.append_nil, ite_self] at handled
    cases handled
    exact ⟨rfl, rfl, rfl, rfl, rfl, [], (List.append_nil _).symm, Or.inl ⟨rfl, rfl, Or.inl rfl⟩⟩
  | some capture =>
    by_cases seen : turn ∈ s.terminalTurns.members
    · simp only [watched, Option.isSome_some, RecentIds.insert, if_pos seen, Bool.false_eq_true, if_false,
        Bool.false_and, List.append_nil, ite_self] at handled
      cases handled
      exact ⟨rfl, rfl, rfl, rfl, rfl, [], (List.append_nil _).symm, Or.inl ⟨rfl, rfl, Or.inr seen⟩⟩
    · simp only [watched, Option.isSome_some, if_true, RecentIds.insert, if_neg seen, Bool.true_and,
        Option.any_some, Option.map_some, Option.getD_some] at handled
      split at handled
      · split at handled
        · cases handled
        · rename_i plain
          cases handled
          refine ⟨rfl, rfl, rfl, rfl, rfl, _, rfl, Or.inr ⟨capture, rfl, seen, rfl, Or.inl ⟨?_, rfl⟩⟩⟩
          rwa [Bool.not_eq_true, Option.isSome_eq_false_iff, Option.isNone_iff_eq_none] at plain
      · rename_i complete
        cases handled
        refine ⟨rfl, rfl, rfl, rfl, rfl, _, List.append_assoc _ _ _,
          Or.inr ⟨capture, rfl, seen, rfl, Or.inr ⟨?_, rfl⟩⟩⟩
        rwa [Bool.not_eq_true, Option.isSome_eq_false_iff, Option.isNone_iff_eq_none] at complete

/-- A turn that is completed has its last message as the text. -/
theorem completedCapture_eq {view : TurnView} {turn : String} (named : view.id = some turn)
    (complete : incompleteTurnReason view = none) (message : StoredMessage) (text : String) :
    completedCapture ⟨some message, text⟩ view = ⟨some message, finalText view⟩ := by
  unfold incompleteTurnReason at complete
  unfold completedCapture terminalThreadOutcome
  rw [named]
  split at complete
  · cases complete
  · rename_i status stated
    split at complete
    · rename_i done
      rw [stated, done]
      rfl
    · cases complete

theorem Sound.handleTurnCompleted (sound : Sound W known readHandoff s) (noted : Noted known s)
    (unused : ∀ request, W.turnOf request ∉ known.members) {view : TurnView}
    (honest : s.Honest W (.turnCompleted view)) (orderly : s.Orderly W known (.turnCompleted view))
    (handled : s.handleTurnCompleted readHandoff view = some s') : Sound W known readHandoff s' := by
  cases named : view.id with
  | none =>
    unfold Codex.handleTurnCompleted at handled
    rw [named] at handled
    cases handled
    exact sound
  | some turn =>
    obtain ⟨active, injected, pending, next, captures, acts, log, kind⟩ :=
      handleTurnCompleted_cases named handled
    have about : ∀ act ∈ acts, act.turn = some turn := by
      rcases kind with ⟨rfl, -⟩ | ⟨capture, -, -, -, ⟨-, rfl⟩ | ⟨-, rfl⟩⟩
      · exact fun act listed => absurd listed List.not_mem_nil
      · intro act listed
        rw [List.mem_singleton.mp listed]
        rfl
      · intro act listed
        rcases List.mem_append.mp listed with first | published
        · rw [List.mem_singleton.mp first]
          rfl
        · exact (publish_turn readHandoff _ act published).1
    refine sound.finish turn about pending (le_of_eq next.symm) log (Or.inr captures) injected active ?_
    intro request own
    subst own
    have phase := sound.phase request
    have begun := honest request named
    have order := orderly request named
    rcases kind with ⟨rfl, -, missed⟩ | ⟨capture, watched, new, -, published⟩
    · -- The turn is not among the injected ones, for those are watched and not yet terminal.
      refine Or.inl ⟨rfl, ?_⟩
      intro inside
      generalize was : s.trace (W.turnOf request) = before at phase
      generalize had : s.turns (W.turnOf request) = watched at phase
      cases phase with
      | unknown out plain => exact out inside
      | done message out => exact out inside
      | running message text _ =>
        rcases missed with unwatched | seen
        · rw [unwatched] at had
          cases had
        · rcases noted _ seen with old | recorded
          · exact unused request old
          · rw [recorded_iff, was] at recorded
            cases List.mem_singleton.mp recorded
    · rw [watched] at phase order
      obtain ⟨told, final, kept⟩ := order rfl
      generalize was : s.trace (W.turnOf request) = before at phase
      cases phase with
      | unknown out plain => exact absurd was (begun.resolve_left told)
      | running message text inside =>
        refine Or.inr ⟨message, rfl, ?_⟩
        rcases published with ⟨plain, -⟩ | ⟨complete, rfl⟩
        · cases plain
        · rw [completedCapture_eq named complete, final complete]
      | done message out =>
        refine absurd (kept ?_) new
        rw [recorded_iff, was]
        simp [reported]

/-! ## The history -/

theorem collect_cons_new {view : TurnView} {outcome : ThreadTurnOutcome} {page : List TurnView}
    {terminal : RecentIds} (ended : terminalThreadOutcome view = some outcome)
    (new : outcome.id ∉ terminal.members) :
    collectUnseenTerminalTurns (view :: page) terminal =
      (outcome :: (collectUnseenTerminalTurns page (terminal.remember codexSeenTurns outcome.id)).1,
        (collectUnseenTerminalTurns page (terminal.remember codexSeenTurns outcome.id)).2) := by
  simp only [collectUnseenTerminalTurns, ended, if_neg new, RecentIds.insert]

theorem collect_cons_old {view : TurnView} {page : List TurnView} {terminal : RecentIds}
    (old : ∀ outcome, terminalThreadOutcome view = some outcome → outcome.id ∈ terminal.members) :
    collectUnseenTerminalTurns (view :: page) terminal = collectUnseenTerminalTurns page terminal := by
  rw [collectUnseenTerminalTurns]
  split
  · rfl
  · rename_i outcome ended
    rw [if_pos (old outcome ended)]

theorem terminalThreadOutcome_id {view : TurnView} {outcome : ThreadTurnOutcome}
    (ended : terminalThreadOutcome view = some outcome) : view.id = some outcome.id := by
  unfold terminalThreadOutcome at ended
  split at ended
  · rename_i named stated
    split at ended
    · cases ended
    · cases ended
      exact named
  · cases ended

/-- What a page brings: turns of the page that were not terminal, each once, and no such turn is
    missed. -/
theorem collect_spec (page : List TurnView) (terminal : RecentIds) :
    (∀ outcome ∈ (collectUnseenTerminalTurns page terminal).1,
      ∃ view ∈ page, terminalThreadOutcome view = some outcome) ∧
    ((collectUnseenTerminalTurns page terminal).1.map ThreadTurnOutcome.id).Sublist
      (page.filterMap TurnView.id) ∧
    (∀ turn ∈ (collectUnseenTerminalTurns page terminal).2.members, turn ∈ terminal.members ∨
      turn ∈ (collectUnseenTerminalTurns page terminal).1.map ThreadTurnOutcome.id) ∧
    ∀ view ∈ page, ∀ outcome, terminalThreadOutcome view = some outcome → outcome.id ∈ terminal.members ∨
      outcome.id ∈ (collectUnseenTerminalTurns page terminal).1.map ThreadTurnOutcome.id := by
  induction page generalizing terminal with
  | nil => exact ⟨nofun, List.Sublist.refl _, fun _ listed => Or.inl listed, nofun⟩
  | cons view page ih =>
    by_cases new : ∃ outcome, terminalThreadOutcome view = some outcome ∧ outcome.id ∉ terminal.members
    · obtain ⟨outcome, ended, new⟩ := new
      obtain ⟨shown, ordered, grown, complete⟩ := ih (terminal.remember codexSeenTurns outcome.id)
      rw [collect_cons_new ended new]
      refine ⟨?_, ?_, ?_, ?_⟩
      · intro other listed
        rcases List.mem_cons.mp listed with rfl | later
        · exact ⟨view, List.mem_cons_self, ended⟩
        · obtain ⟨view', listed', ended'⟩ := shown other later
          exact ⟨view', List.mem_cons_of_mem _ listed', ended'⟩
      · rw [List.filterMap_cons_some (terminalThreadOutcome_id ended)]
        exact ordered.cons_cons _
      · intro turn listed
        rcases grown turn listed with old | later
        · rcases Fifo.mem_remember old with rfl | old
          · exact Or.inr List.mem_cons_self
          · exact Or.inl old
        · exact Or.inr (List.mem_cons_of_mem _ later)
      · intro view' listed outcome' ended'
        rcases List.mem_cons.mp listed with rfl | later
        · rw [ended] at ended'
          cases ended'
          exact Or.inr List.mem_cons_self
        · rcases complete view' later outcome' ended' with old | collected
          · rcases Fifo.mem_remember old with same | old
            · rw [same]
              exact Or.inr List.mem_cons_self
            · exact Or.inl old
          · exact Or.inr (List.mem_cons_of_mem _ collected)
    · have old : ∀ outcome, terminalThreadOutcome view = some outcome → outcome.id ∈ terminal.members := by
        intro outcome ended
        by_contra unseen
        exact new ⟨outcome, ended, unseen⟩
      obtain ⟨shown, ordered, grown, complete⟩ := ih terminal
      rw [collect_cons_old old]
      refine ⟨?_, ?_, grown, ?_⟩
      · intro outcome listed
        obtain ⟨view', listed', ended⟩ := shown outcome listed
        exact ⟨view', List.mem_cons_of_mem _ listed', ended⟩
      · exact ordered.trans ((List.sublist_cons_self _ _).filterMap _)
      · intro view' listed outcome' ended'
        rcases List.mem_cons.mp listed with rfl | later
        · exact Or.inl (old outcome' ended')
        · exact complete view' later outcome' ended'

/-- What settling a list of outcomes does. -/
structure Settled (s : Codex) (outcomes : List ThreadTurnOutcome) (s' : Codex) : Prop where
  active : ∀ turn, turn ∈ s'.activeTurns ↔
    turn ∈ s.activeTurns ∧ turn ∉ outcomes.map ThreadTurnOutcome.id
  injected : ∀ turn, turn ∈ s'.injectedTurns ↔
    turn ∈ s.injectedTurns ∧ turn ∉ outcomes.map ThreadTurnOutcome.id
  recorded : ∀ turn, s.Recorded turn ∨ turn ∈ outcomes.map ThreadTurnOutcome.id → s'.Recorded turn
  terminal : s'.terminalTurns = s.terminalTurns
  pending : s'.pendingStarts = s.pendingStarts
  running : s'.threadActive = s.threadActive
  queued : s'.queued = s.queued

theorem Settled.cons {s₁ : Codex} {outcome : ThreadTurnOutcome} {outcomes : List ThreadTurnOutcome}
    (settled : s.settle readHandoff outcome = some s₁) (rest : Settled s₁ outcomes s') :
    Settled s (outcome :: outcomes) s' := by
  obtain ⟨active, injected, pending, -, terminal, running, queued, -, acts, log, -⟩ := settle_cases settled
  refine ⟨?_, ?_, ?_, rest.terminal.trans terminal, rest.pending.trans pending, rest.running.trans running,
    rest.queued.trans queued⟩
  · intro turn
    rw [rest.active, active, Finset.mem_erase, List.map_cons, List.mem_cons, not_or]
    tauto
  · intro turn
    rw [rest.injected, injected, Finset.mem_erase, List.map_cons, List.mem_cons, not_or]
    tauto
  · intro turn known
    refine rest.recorded turn ?_
    rw [Recorded, log, List.mem_append, List.mem_append, List.mem_singleton]
    rcases known with old | listed
    · exact Or.inl (Or.inl old)
    · rcases List.mem_cons.mp listed with same | later
      · exact Or.inl (Or.inr (Or.inl (by rw [same])))
      · exact Or.inr later

/-- Outcomes of other turns stay due. -/
theorem Due.after {s₁ : Codex} {outcome other : ThreadTurnOutcome} (due : s.Due W other)
    (settled : s.settle readHandoff outcome = some s₁) (different : other.id ≠ outcome.id) :
    s₁.Due W other := by
  obtain ⟨-, injected, -⟩ := settle_cases settled
  intro request own
  obtain ⟨inside, final⟩ := due request own
  rw [injected]
  exact ⟨Finset.mem_erase.mpr ⟨different, inside⟩, final⟩

theorem Sound.settleAll {outcomes : List ThreadTurnOutcome} (sound : Sound W known readHandoff s)
    (due : ∀ outcome ∈ outcomes, s.Due W outcome)
    (distinct : (outcomes.map ThreadTurnOutcome.id).Nodup)
    (settled : outcomes.foldlM (Codex.settle readHandoff) s = some s') :
    Sound W known readHandoff s' ∧ Settled s outcomes s' := by
  induction outcomes generalizing s with
  | nil =>
    cases settled
    exact ⟨sound, by simp, by simp, by simp, rfl, rfl, rfl, rfl⟩
  | cons outcome outcomes ih =>
    rw [List.foldlM_cons] at settled
    obtain ⟨s₁, first, rest⟩ := Option.bind_eq_some_iff.mp settled
    obtain ⟨new, distinct⟩ := List.nodup_cons.mp distinct
    obtain ⟨sound', all⟩ := ih (sound.settle (due outcome List.mem_cons_self) first)
      (fun other listed => (due other (List.mem_cons_of_mem _ listed)).after first
        (fun same => new (same ▸ List.mem_map_of_mem listed))) distinct rest
    exact ⟨sound', Settled.cons first all⟩

/-- Nothing fails unless a turn has failed. -/
theorem Sound.settleAll_some {outcomes : List ThreadTurnOutcome} (sound : Sound W known readHandoff s)
    (due : ∀ outcome ∈ outcomes, s.Due W outcome)
    (distinct : (outcomes.map ThreadTurnOutcome.id).Nodup)
    (fine : ∀ outcome ∈ outcomes, outcome.id ∈ s.injectedTurns → outcome.error = none) :
    ∃ s', outcomes.foldlM (Codex.settle readHandoff) s = some s' := by
  induction outcomes generalizing s with
  | nil => exact ⟨s, rfl⟩
  | cons outcome outcomes ih =>
    obtain ⟨s₁, first⟩ : ∃ s₁, s.settle readHandoff outcome = some s₁ := by
      unfold Codex.settle
      dsimp only
      by_cases inside : outcome.id ∈ s.injectedTurns
      · obtain ⟨request, own⟩ := sound.own _ inside
        have phase := sound.phase request
        rw [← own] at phase
        rw [if_pos inside]
        generalize s.trace outcome.id = before at phase
        generalize s.turns outcome.id = watched at phase ⊢
        cases phase with
        | unknown out plain => exact absurd inside out
        | done message out => exact absurd inside out
        | running message text _ =>
          dsimp only
          rw [fine outcome List.mem_cons_self inside]
          exact ⟨_, rfl⟩
      · rw [if_neg inside]
        split
        · exact ⟨_, rfl⟩
        · exact ⟨_, rfl⟩
    obtain ⟨-, injected, -⟩ := settle_cases first
    obtain ⟨new, distinct⟩ := List.nodup_cons.mp distinct
    obtain ⟨s', rest⟩ := ih (sound.settle (due outcome List.mem_cons_self) first)
      (fun other listed => (due other (List.mem_cons_of_mem _ listed)).after first
        (fun same => new (same ▸ List.mem_map_of_mem listed))) distinct
      (fun other listed inside => fine other (List.mem_cons_of_mem _ listed)
        (Finset.mem_of_mem_erase (injected ▸ inside)))
    refine ⟨s', ?_⟩
    rw [List.foldlM_cons, first]
    exact rest

/-- The poll of the history is due. -/
def PollDue (s : Codex) : Prop := s.pendingStarts = [] ∧ (s.threadActive = true ∨ s.threadNeedsSync = true)

/-- The state in which the outcomes of a page are settled. -/
def polled (s : Codex) (page : List TurnView) : Codex :=
  { s with
    nextId := s.nextId + 1
    threadActive := threadHasRunningTurn page
    terminalTurns := (collectUnseenTerminalTurns page s.terminalTurns).2 }

theorem handlePoll_due (due : s.PollDue) (page : List TurnView) :
    s.handlePoll readHandoff (some page) =
      ((collectUnseenTerminalTurns page s.terminalTurns).1.foldlM (settle readHandoff) (s.polled page)).map
        (fun s => { s with threadNeedsSync := false }) := by
  have guard : (s.pendingStarts.isEmpty && (s.threadActive || s.threadNeedsSync)) = true := by
    rw [due.1, List.isEmpty_nil, Bool.true_and, Bool.or_eq_true]
    exact due.2
  unfold handlePoll
  rw [if_pos guard]
  rfl

theorem Sound.polled (sound : Sound W known readHandoff s) (page : List TurnView) :
    Sound W known readHandoff (s.polled page) :=
  sound.aside rfl (Nat.le_succ _) rfl rfl rfl rfl

/-- All that a page brings is due. -/
theorem Sound.collect_due (sound : Sound W known readHandoff s) (due : s.PollDue) {page : List TurnView}
    (honest : s.Honest W (.poll (some page))) (orderly : s.Orderly W known (.poll (some page))) :
    ∀ outcome ∈ (collectUnseenTerminalTurns page s.terminalTurns).1, (s.polled page).Due W outcome := by
  intro outcome listed request own
  obtain ⟨view, shown, ended⟩ := (collect_spec page s.terminalTurns).1 outcome listed
  obtain ⟨begun, final⟩ := honest.2 view shown outcome ended request own
  have new := orderly outcome listed request own
  refine ⟨?_, final⟩
  have touched : s.trace (W.turnOf request) ≠ [] := by
    refine begun.resolve_left ?_
    rw [due.1]
    exact List.not_mem_nil
  show outcome.id ∈ s.injectedTurns
  have phase := sound.phase request
  rw [own, recorded_iff] at new
  rw [own]
  generalize s.trace (W.turnOf request) = before at phase touched new
  generalize s.turns (W.turnOf request) = watched at phase
  cases phase with
  | unknown out plain => exact absurd rfl touched
  | running message text inside => exact inside
  | done message out => exact absurd (by simp [reported]) new

theorem collect_distinct {page : List TurnView} (honest : s.Honest W (.poll (some page))) :
    ((collectUnseenTerminalTurns page s.terminalTurns).1.map ThreadTurnOutcome.id).Nodup :=
  (collect_spec page s.terminalTurns).2.1.nodup honest.1

theorem Settled.noted {page : List TurnView} (noted : Noted known s)
    (settled : Settled (s.polled page) (collectUnseenTerminalTurns page s.terminalTurns).1 s') :
    Noted known s' := by
  intro turn listed
  rw [settled.terminal] at listed
  rcases (collect_spec page s.terminalTurns).2.2.1 turn listed with old | collected
  · rcases noted turn old with initial | recorded
    · exact Or.inl initial
    · exact Or.inr (settled.recorded turn (Or.inl recorded))
  · exact Or.inr (settled.recorded turn (Or.inr collected))

/-- The invariant goes on over a poll. -/
theorem Sound.handlePoll (sound : Sound W known readHandoff s) (noted : Noted known s)
    {page : Option (List TurnView)} (honest : s.Honest W (.poll page))
    (orderly : s.Orderly W known (.poll page)) (handled : s.handlePoll readHandoff page = some s') :
    Sound W known readHandoff s' ∧ Noted known s' := by
  by_cases due : s.PollDue
  · cases page with
    | none =>
      unfold Codex.handlePoll at handled
      split at handled
      · dsimp only at handled
        split at handled
        · cases handled
          exact ⟨sound.aside rfl (Nat.le_succ _) rfl rfl rfl rfl, noted⟩
        · cases handled
          exact ⟨sound.aside rfl (Nat.le_succ _) rfl rfl rfl rfl, noted⟩
      · cases handled
        exact ⟨sound, noted⟩
    | some page =>
      rw [handlePoll_due due] at handled
      obtain ⟨s₁, folded, rfl⟩ := Option.map_eq_some_iff.mp handled
      obtain ⟨sound₁, settled⟩ := (sound.polled page).settleAll (sound.collect_due due honest orderly)
        (collect_distinct honest) folded
      have noted₁ : Noted known s₁ := settled.noted noted
      exact ⟨sound₁.aside rfl (le_refl _) rfl rfl rfl rfl, noted₁⟩
  · unfold Codex.handlePoll at handled
    rw [if_neg] at handled
    · cases handled
      exact ⟨sound, noted⟩
    · intro guard
      rw [Bool.and_eq_true, Bool.or_eq_true, List.isEmpty_iff] at guard
      exact due guard

end Events

/-! ## Runs -/

section Runs

variable {W : AppServer} {known : RecentIds} {readHandoff : String → Option HandoffRef} {s s' : Codex}

theorem Noted.keeps (noted : Noted known s) (terminal : s'.terminalTurns = s.terminalTurns)
    {acts : List CodexAct} (log : s'.log = s.log ++ acts) : Noted known s' := by
  intro turn listed
  rw [terminal] at listed
  refine (noted turn listed).imp_right ?_
  intro recorded
  rw [Recorded, log]
  exact List.mem_append_left _ recorded

theorem Noted.handleResponse (noted : Noted known s) {request : Nat} {reply : StartReply}
    (handled : s.handleResponse request reply = some s') : Noted known s' := by
  unfold Codex.handleResponse at handled
  split at handled
  · cases handled
    exact noted
  · dsimp only at handled
    split at handled
    · split at handled
      · cases handled
        exact noted
      · cases handled
    · cases handled
      exact noted
    · cases handled
      exact noted.keeps rfl rfl

theorem Noted.handleTurnCompleted (noted : Noted known s) {view : TurnView}
    (handled : s.handleTurnCompleted readHandoff view = some s') : Noted known s' := by
  cases named : view.id with
  | none =>
    unfold Codex.handleTurnCompleted at handled
    rw [named] at handled
    cases handled
    exact noted
  | some turn =>
    obtain ⟨-, -, -, -, -, acts, log, kind⟩ := handleTurnCompleted_cases named handled
    rcases kind with ⟨-, terminal, -⟩ | ⟨capture, -, -, terminal, published⟩
    · exact noted.keeps terminal log
    · intro other listed
      rw [terminal] at listed
      have first : CodexAct.recorded turn ∈ acts := by
        rcases published with ⟨-, rfl⟩ | ⟨-, rfl⟩
        · exact List.mem_singleton_self _
        · exact List.mem_append_left _ (List.mem_singleton_self _)
      rw [Recorded, log, List.mem_append]
      rcases Fifo.mem_remember listed with rfl | old
      · exact Or.inr (Or.inr first)
      · exact (noted other old).imp_right Or.inl

theorem Sound.handle (sound : Sound W known readHandoff s) (noted : Noted known s)
    (unused : ∀ request, W.turnOf request ∉ known.members) {event : CodexEvent}
    (honest : s.Honest W event) (orderly : s.Orderly W known event)
    (handled : s.handle readHandoff event = some s') :
    Sound W known readHandoff s' ∧ Noted known s' := by
  cases event with
  | incoming message =>
    cases handled
    exact ⟨sound.aside rfl (le_refl _) rfl rfl rfl rfl, noted⟩
  | poll page => exact sound.handlePoll noted honest orderly handled
  | response request reply => exact ⟨sound.handleResponse honest handled, noted.handleResponse handled⟩
  | turnStarted turn =>
    cases handled
    exact ⟨(sound.turnStarted orderly).capture turn (fun _ => rfl), noted⟩
  | statusChanged status =>
    cases handled
    cases status <;> exact ⟨sound.aside rfl (le_refl _) rfl rfl rfl rfl, noted⟩
  | itemCompleted turn text =>
    cases handled
    exact ⟨sound.capture turn (fun _ => rfl), noted⟩
  | turnCompleted view =>
    exact ⟨sound.handleTurnCompleted noted unused honest orderly handled,
      noted.handleTurnCompleted handled⟩

theorem sound_start (initiallyActive : Bool) (nextId : Nat) :
    Sound W known readHandoff (start known initiallyActive nextId) :=
  ⟨fun _ => .unknown (Finset.notMem_empty _) nofun, List.nodup_nil, nofun,
    fun _ begun => (begun.elim (fun touched => touched rfl) (fun waits => absurd waits List.not_mem_nil)).elim,
    nofun, nofun⟩

theorem startNext_beside :
    s.startNext.terminalTurns = s.terminalTurns ∧ ∃ acts, s.startNext.log = s.log ++ acts := by
  unfold startNext
  split
  · split
    · exact ⟨rfl, [], (List.append_nil _).symm⟩
    · exact ⟨rfl, _, rfl⟩
  · exact ⟨rfl, [], (List.append_nil _).symm⟩

/-! ### What a turn is for -/

/-- Every turn that the coordinator injects a message into was asked for with that message, and a request is
    for one message. -/
structure Asked (W : AppServer) (s : Codex) : Prop where
  sent : ∀ pending ∈ s.pendingStarts, CodexAct.started pending.1 pending.2 ∈ s.log
  injected : ∀ request message, CodexAct.injected (W.turnOf request) message ∈ s.log →
    CodexAct.started request message ∈ s.log
  numbered : ∀ request message, CodexAct.started request message ∈ s.log → request < s.nextId
  once : ∀ request message message', CodexAct.started request message ∈ s.log →
    CodexAct.started request message' ∈ s.log → message = message'

/-- Acts that assign nothing. -/
theorem Asked.keeps (asked : Asked W s) (pending : s'.pendingStarts ⊆ s.pendingStarts)
    (next : s.nextId ≤ s'.nextId) {acts : List CodexAct} (log : s'.log = s.log ++ acts)
    (plain : ∀ act ∈ acts, act.assigns = false) : Asked W s' := by
  have old : ∀ act, act.assigns = true → (act ∈ s'.log ↔ act ∈ s.log) := by
    intro act assigns
    rw [log, List.mem_append, or_iff_left]
    intro new
    rw [plain act new] at assigns
    cases assigns
  refine ⟨?_, ?_, ?_, ?_⟩
  · intro waiting listed
    exact (old _ rfl).mpr (asked.sent waiting (pending listed))
  · intro request message injected
    exact (old _ rfl).mpr (asked.injected request message ((old _ rfl).mp injected))
  · intro request message started
    exact (asked.numbered request message ((old _ rfl).mp started)).trans_le next
  · intro request message message' first second
    exact asked.once request message message' ((old _ rfl).mp first) ((old _ rfl).mp second)

theorem Asked.aside (asked : Asked W s) (pending : s'.pendingStarts = s.pendingStarts)
    (next : s.nextId ≤ s'.nextId) (log : s'.log = s.log) : Asked W s' :=
  asked.keeps (by rw [pending]; exact fun _ listed => listed) next (log.trans (List.append_nil _).symm)
    (fun _ listed => absurd listed List.not_mem_nil)

theorem Asked.startNext (asked : Asked W s) : Asked W s.startNext := by
  unfold Codex.startNext
  split
  · split
    · exact asked
    · rename_i message rest queued
      have either : ∀ request message', CodexAct.started request message' ∈
          s.log ++ [.started s.nextId message] → CodexAct.started request message' ∈ s.log ∨
            request = s.nextId ∧ message' = message := by
        intro request message' started
        refine (List.mem_append.mp started).imp_right ?_
        intro last
        cases List.mem_singleton.mp last
        exact ⟨rfl, rfl⟩
      refine ⟨?_, ?_, ?_, ?_⟩
      · intro pending listed
        rcases List.mem_append.mp listed with waiting | last
        · exact List.mem_append_left _ (asked.sent pending waiting)
        · rw [List.mem_singleton.mp last]
          exact List.mem_append_right _ (List.mem_singleton_self _)
      · intro request message' injected
        rcases List.mem_append.mp injected with old | last
        · exact List.mem_append_left _ (asked.injected request message' old)
        · cases List.mem_singleton.mp last
      · intro request message' started
        show request < s.nextId + 1
        rcases either request message' started with old | ⟨rfl, -⟩
        · exact (asked.numbered request message' old).trans (Nat.lt_succ_self _)
        · exact Nat.lt_succ_self _
      · intro request first second started started'
        rcases either request first started with old | ⟨rfl, rfl⟩
        · rcases either request second started' with old' | ⟨rfl, rfl⟩
          · exact asked.once request first second old old'
          · exact absurd (asked.numbered _ _ old) (lt_irrefl _)
        · rcases either _ second started' with old' | ⟨-, rfl⟩
          · exact absurd (asked.numbered _ _ old') (lt_irrefl _)
          · rfl
  · exact asked

/-- The reply gives the turn the message that was asked for. -/
theorem Asked.handleResponse (asked : Asked W s) {request : Nat} {reply : StartReply}
    (honest : s.Honest W (.response request reply))
    (handled : s.handleResponse request reply = some s') : Asked W s' := by
  unfold Codex.handleResponse at handled
  split at handled
  · cases handled
    exact asked
  · rename_i number message found
    have same := List.find?_some found
    rw [decide_eq_true_eq] at same
    change number = request at same
    have sent := asked.sent _ (List.mem_of_find?_eq_some found)
    have answered : Asked W
        { s with pendingStarts := s.pendingStarts.filter (fun pending => pending.1 ≠ request) } :=
      asked.keeps (List.filter_subset_self _) (le_refl _) (List.append_nil _).symm
        (fun _ listed => absurd listed List.not_mem_nil)
    cases reply with
    | error text =>
      dsimp only at handled
      split at handled
      · cases handled
        exact answered.aside rfl (le_refl _) rfl
      · cases handled
    | result turn =>
      cases turn with
      | none =>
        cases handled
        exact answered
      | some turn =>
        have own : turn = W.turnOf request := honest
        subst own
        subst same
        cases handled
        have before : ∀ n m, CodexAct.started n m ∈ s.log ++ [.injected (W.turnOf number) message] →
            CodexAct.started n m ∈ s.log := by
          intro n m started
          refine (List.mem_append.mp started).resolve_right ?_
          intro last
          cases List.mem_singleton.mp last
        refine ⟨?_, ?_, ?_, ?_⟩
        · intro pending listed
          exact List.mem_append_left _ (answered.sent pending listed)
        · intro n m injected
          refine List.mem_append_left _ ?_
          rcases List.mem_append.mp injected with old | last
          · exact asked.injected n m old
          · injection List.mem_singleton.mp last with turns messages
            rw [W.distinct turns, messages]
            exact sent
        · exact fun n m started => asked.numbered n m (before n m started)
        · exact fun n m m' first second => asked.once n m m' (before n m first) (before n m' second)

theorem Asked.settleAll {outcomes : List ThreadTurnOutcome} (asked : Asked W s)
    (settled : outcomes.foldlM (Codex.settle readHandoff) s = some s') : Asked W s' := by
  induction outcomes generalizing s with
  | nil =>
    cases settled
    exact asked
  | cons outcome outcomes ih =>
    rw [List.foldlM_cons] at settled
    obtain ⟨s₁, first, rest⟩ := Option.bind_eq_some_iff.mp settled
    obtain ⟨-, -, pending, next, -, -, -, -, acts, log, about, -⟩ := settle_cases first
    refine ih (asked.keeps (by rw [pending]; exact fun _ listed => listed) (le_of_eq next.symm) log ?_) rest
    intro act listed
    rcases List.mem_append.mp listed with recorded | published
    · rw [List.mem_singleton.mp recorded]
      rfl
    · exact (about act published).2

theorem Asked.handlePoll (asked : Asked W s) {page : Option (List TurnView)}
    (handled : s.handlePoll readHandoff page = some s') : Asked W s' := by
  by_cases due : s.PollDue
  · cases page with
    | none =>
      unfold Codex.handlePoll at handled
      split at handled
      · dsimp only at handled
        split at handled
        · cases handled
          exact asked.aside rfl (Nat.le_succ _) rfl
        · cases handled
          exact asked.aside rfl (Nat.le_succ _) rfl
      · cases handled
        exact asked
    | some page =>
      rw [handlePoll_due due] at handled
      obtain ⟨s₁, folded, rfl⟩ := Option.map_eq_some_iff.mp handled
      have polled : Asked W (s.polled page) := asked.aside rfl (Nat.le_succ _) rfl
      exact (polled.settleAll folded).aside rfl (le_refl _) rfl
  · unfold Codex.handlePoll at handled
    rw [if_neg] at handled
    · cases handled
      exact asked
    · intro guard
      rw [Bool.and_eq_true, Bool.or_eq_true, List.isEmpty_iff] at guard
      exact due guard

theorem Asked.handleTurnCompleted (asked : Asked W s) {view : TurnView}
    (handled : s.handleTurnCompleted readHandoff view = some s') : Asked W s' := by
  cases named : view.id with
  | none =>
    unfold Codex.handleTurnCompleted at handled
    rw [named] at handled
    cases handled
    exact asked
  | some turn =>
    obtain ⟨-, -, pending, next, -, acts, log, kind⟩ := handleTurnCompleted_cases named handled
    refine asked.keeps (by rw [pending]; exact fun _ listed => listed) (le_of_eq next.symm) log ?_
    rcases kind with ⟨rfl, -⟩ | ⟨capture, -, -, -, ⟨-, rfl⟩ | ⟨-, rfl⟩⟩
    · exact fun _ listed => absurd listed List.not_mem_nil
    · intro act listed
      rw [List.mem_singleton.mp listed]
      rfl
    · intro act listed
      rcases List.mem_append.mp listed with recorded | published
      · rw [List.mem_singleton.mp recorded]
        rfl
      · exact (publish_turn readHandoff _ act published).2

theorem Asked.handle (asked : Asked W s) {event : CodexEvent} (honest : s.Honest W event)
    (handled : s.handle readHandoff event = some s') : Asked W s' := by
  cases event with
  | incoming message =>
    cases handled
    exact asked.aside rfl (le_refl _) rfl
  | poll page => exact asked.handlePoll handled
  | response request reply => exact asked.handleResponse honest handled
  | turnStarted turn =>
    cases handled
    exact asked.aside rfl (le_refl _) rfl
  | statusChanged status =>
    cases handled
    cases status <;> exact asked.aside rfl (le_refl _) rfl
  | itemCompleted turn text =>
    cases handled
    exact asked.aside rfl (le_refl _) rfl
  | turnCompleted view => exact asked.handleTurnCompleted handled

theorem asked_start (initiallyActive : Bool) (nextId : Nat) : Asked W (start known initiallyActive nextId) :=
  ⟨fun _ listed => absurd listed List.not_mem_nil, fun _ _ listed => absurd listed List.not_mem_nil,
    fun _ _ listed => absurd listed List.not_mem_nil, fun _ _ _ listed => absurd listed List.not_mem_nil⟩

theorem asked_reachable {initiallyActive : Bool} {nextId : Nat}
    (reach : Relation.ReflTransGen (Step W known readHandoff) (start known initiallyActive nextId) s) :
    Asked W s := by
  induction reach with
  | refl => exact asked_start _ _
  | tail _ step ih =>
    obtain ⟨event, honest, -, stepped⟩ := step
    obtain ⟨s₁, handled, rfl⟩ := Option.map_eq_some_iff.mp stepped
    exact (ih.handle honest handled).startNext

/-- The message of an injected turn is the one of its request. -/
theorem Asked.message (asked : Asked W s) {request : Nat} {message : StoredMessage}
    (noted : CodexAct.injected (W.turnOf request) message ∈ s.trace (W.turnOf request)) :
    CodexAct.started request message ∈ s.log :=
  asked.injected request message (List.mem_of_mem_filter noted)

theorem injected_mem_reported {turn : String} {message : StoredMessage} :
    CodexAct.injected turn message ∈ reported W readHandoff turn message := by
  rw [reported_eq]
  exact List.mem_append_left _ (List.mem_singleton_self _)

/-! ### All runs -/

theorem sound_reachable (unused : ∀ request, W.turnOf request ∉ known.members) {initiallyActive : Bool}
    {nextId : Nat}
    (reach : Relation.ReflTransGen (Step W known readHandoff) (start known initiallyActive nextId) s) :
    Sound W known readHandoff s ∧ Noted known s := by
  induction reach with
  | refl => exact ⟨sound_start _ _, fun turn listed => Or.inl listed⟩
  | tail _ step ih =>
    obtain ⟨event, honest, orderly, stepped⟩ := step
    obtain ⟨s₁, handled, rfl⟩ := Option.map_eq_some_iff.mp stepped
    obtain ⟨sound₁, noted₁⟩ := ih.1.handle ih.2 unused honest orderly handled
    obtain ⟨terminal, acts, log⟩ := startNext_beside (s := s₁)
    exact ⟨sound₁.startNext, noted₁.keeps terminal log⟩

/-- A page on which every turn has ended. It shows all turns that the coordinator waits for, and its own
    turns have ended well. -/
structure Complete (s : Codex) (page : List TurnView) : Prop where
  ended : ∀ view ∈ page, view.status ≠ some "inProgress"
  shown : ∀ turn ∈ s.activeTurns ∪ s.injectedTurns, ∃ view ∈ page, ∃ outcome,
    terminalThreadOutcome view = some outcome ∧ outcome.id = turn
  fine : ∀ view ∈ page, ∀ outcome, terminalThreadOutcome view = some outcome →
    outcome.id ∈ s.injectedTurns → outcome.error = none

/-- A turn that is under way was not recorded. -/
theorem Sound.injected_new (sound : Sound W known readHandoff s)
    (unused : ∀ request, W.turnOf request ∉ known.members) {turn : String}
    (inside : turn ∈ s.injectedTurns) : turn ∉ known.members ∧ ¬ s.Recorded turn := by
  obtain ⟨request, rfl⟩ := sound.own turn inside
  refine ⟨unused request, ?_⟩
  rw [recorded_iff]
  have phase := sound.phase request
  generalize s.trace (W.turnOf request) = before at phase ⊢
  generalize s.turns (W.turnOf request) = watched at phase
  cases phase with
  | unknown out plain => exact absurd inside out
  | done message out => exact absurd inside out
  | running message text _ =>
    intro recorded
    cases List.mem_singleton.mp recorded

/-- After a poll of a complete page nothing is under way. -/
theorem Sound.cleared (sound : Sound W known readHandoff s) (noted : Noted known s)
    (unused : ∀ request, W.turnOf request ∉ known.members) {page : List TurnView}
    (complete : s.Complete page)
    (settled : Settled (s.polled page) (collectUnseenTerminalTurns page s.terminalTurns).1 s') :
    s'.activeTurns = ∅ ∧ s'.injectedTurns = ∅ := by
  have collected : ∀ turn ∈ s.activeTurns ∪ s.injectedTurns, turn ∉ known.members ∧ ¬ s.Recorded turn →
      turn ∈ (collectUnseenTerminalTurns page s.terminalTurns).1.map ThreadTurnOutcome.id := by
    intro turn waited new
    obtain ⟨view, listed, outcome, ended, rfl⟩ := complete.shown turn waited
    refine ((collect_spec page s.terminalTurns).2.2.2 view listed outcome ended).resolve_left ?_
    intro seen
    exact (noted _ seen).elim new.1 new.2
  refine ⟨?_, ?_⟩
  · refine Finset.eq_empty_of_forall_notMem ?_
    intro turn inside
    obtain ⟨waited, unsettled⟩ := (settled.active turn).mp inside
    exact unsettled (collected turn (Finset.mem_union_left _ waited) (sound.active turn waited))
  · refine Finset.eq_empty_of_forall_notMem ?_
    intro turn inside
    obtain ⟨waited, unsettled⟩ := (settled.injected turn).mp inside
    exact unsettled (collected turn (Finset.mem_union_right _ waited) (sound.injected_new unused waited))

/-- In every run that keeps to the order, the coordinator has done nothing about a turn of its own, or has
    noted its message, the one that the turn was asked for with, or has reported it: posted the result of the
    turn as the result of that message and then acknowledged the message, each once. No request is for two
    messages. When a poll finds that all turns have ended, it reports what is left and nothing is under way, so
    that the next message can have its turn. -/
theorem codex_reports_once (unused : ∀ request, W.turnOf request ∉ known.members) {initiallyActive : Bool}
    {nextId : Nat}
    (reach : Relation.ReflTransGen (Step W known readHandoff) (start known initiallyActive nextId) s) :
    (∀ request, s.trace (W.turnOf request) = [] ∨ ∃ message, CodexAct.started request message ∈ s.log ∧
      (s.trace (W.turnOf request) = [.injected (W.turnOf request) message] ∨
        s.trace (W.turnOf request) = reported W readHandoff (W.turnOf request) message)) ∧
    (∀ request message message', CodexAct.started request message ∈ s.log →
      CodexAct.started request message' ∈ s.log → message = message') ∧
    ∀ page, s.PollDue → s.Honest W (.poll (some page)) → s.Orderly W known (.poll (some page)) →
      s.Complete page → ∃ s', s.handle readHandoff (.poll (some page)) = some s' ∧
        s'.activeTurns = ∅ ∧ s'.pendingStarts = [] ∧ s'.injectedTurns = ∅ ∧ s'.idle = true ∧
        ∀ request, s'.trace (W.turnOf request) = [] ∨ ∃ message, CodexAct.started request message ∈ s'.log ∧
          s'.trace (W.turnOf request) = reported W readHandoff (W.turnOf request) message := by
  obtain ⟨sound, noted⟩ := sound_reachable unused reach
  have asked := asked_reachable reach
  refine ⟨?_, asked.once, ?_⟩
  · intro request
    have phase := sound.phase request
    have own := fun message => @asked.message _ _ request message
    generalize s.trace (W.turnOf request) = before at phase own ⊢
    generalize s.turns (W.turnOf request) = watched at phase
    cases phase with
    | unknown => exact Or.inl rfl
    | running message => exact Or.inr ⟨message, own message (List.mem_singleton_self _), Or.inl rfl⟩
    | done message => exact Or.inr ⟨message, own message injected_mem_reported, Or.inr rfl⟩
  · intro page due honest orderly complete
    have all := sound.collect_due due honest orderly
    obtain ⟨s₁, folded⟩ := (sound.polled page).settleAll_some all (collect_distinct honest) (by
      intro outcome listed inside
      obtain ⟨view, shown, ended⟩ := (collect_spec page s.terminalTurns).1 outcome listed
      exact complete.fine view shown outcome ended inside)
    obtain ⟨sound₁, settled⟩ := (sound.polled page).settleAll all (collect_distinct honest) folded
    obtain ⟨active, injected⟩ := sound.cleared noted unused complete settled
    have pending : s₁.pendingStarts = [] := settled.pending.trans due.1
    have quiet : s₁.threadActive = false := by
      refine settled.running.trans (List.any_eq_false.mpr ?_)
      intro view listed
      rw [decide_eq_true_eq]
      exact complete.ended view listed
    refine ⟨{ s₁ with threadNeedsSync := false }, ?_, active, pending, injected, ?_, ?_⟩
    · show s.handlePoll readHandoff (some page) = _
      rw [handlePoll_due due, folded]
      rfl
    · simp [idle, active, pending, injected, quiet]
    · intro request
      show s₁.trace _ = [] ∨ ∃ message, _ ∈ s₁.log ∧ s₁.trace _ = _
      have polled : Asked W (s.polled page) := asked.aside rfl (Nat.le_succ _) rfl
      have phase := sound₁.phase request
      have own := fun message => @(polled.settleAll folded).message _ _ request message
      rw [injected] at phase
      generalize s₁.trace (W.turnOf request) = before at phase own ⊢
      generalize s₁.turns (W.turnOf request) = watched at phase
      cases phase with
      | unknown => exact Or.inl rfl
      | running message text inside => exact absurd inside (Finset.notMem_empty _)
      | done message => exact Or.inr ⟨message, own message injected_mem_reported, rfl⟩

end Runs

/-! ## A turn for a greeting -/

/-- The turns are `t`, `tt`, `ttt` and so on, and all end with the same words. -/
def demoServer : AppServer where
  turnOf n := String.ofList (List.replicate (n + 1) 't')
  distinct := by
    intro n n' same
    have lengths := congrArg (fun name => name.toList.length) same
    simpa using lengths
  resultOf _ := "well met"

def demoView : TurnView := ⟨some "t", some "completed", [.agentMessage (some "well met")], none⟩

/-- The coordinator after a list of events. -/
def demoAfter (events : List CodexEvent) : Codex :=
  (events.foldlM (step (fun _ => none)) (start .empty false 0)).getD (start .empty false 0)

theorem demoAfter_step (events : List CodexEvent) {event : CodexEvent}
    (runs : ((events ++ [event]).foldlM (step (fun _ => none)) (start .empty false 0)).isSome = true) :
    (demoAfter events).step (fun _ => none) event = some (demoAfter (events ++ [event])) := by
  unfold demoAfter
  rw [List.foldlM_append] at runs ⊢
  cases run : events.foldlM (step (fun _ => none)) (start .empty false 0) with
  | none =>
    rw [run] at runs
    cases runs
  | some s =>
    rw [run] at runs
    cases last : s.step (fun _ => none) event with
    | none => simp [last] at runs
    | some s' => simp [last]

theorem turnOf_first {request : Nat} (same : "t" = demoServer.turnOf request) : request = 0 := by
  have first : demoServer.turnOf 0 = "t" := by decide
  exact (demoServer.distinct (first.trans same)).symm

theorem demoView_outcome {outcome : ThreadTurnOutcome} (ended : terminalThreadOutcome demoView = some outcome) :
    outcome = ⟨"t", "well met", "well met", none⟩ := by
  have computed : terminalThreadOutcome demoView = some ⟨"t", "well met", "well met", none⟩ := by
    decide +kernel
  rw [computed] at ended
  exact (Option.some.inj ended).symm

/-- A page with the turn alone is honest once the app-server has named the turn. -/
theorem demoPage_honest {s : Codex} (named : s.trace "t" ≠ []) :
    s.Honest demoServer (.poll (some [demoView])) := by
  refine ⟨by decide, ?_⟩
  intro view listed outcome ended request own
  rw [List.mem_singleton.mp listed] at ended
  cases demoView_outcome ended
  cases turnOf_first own
  exact ⟨Or.inr named, fun _ => rfl⟩

/-- The greeting comes, the reply names its turn, and the thread gets idle. -/
def demoEvents : List CodexEvent :=
  [.incoming heldHello, .response 0 (.result (some "t")), .statusChanged .idle]

/-- The poll that follows reports the turn. -/
theorem codex_reports_once_demo :
    ∃ s', (demoAfter demoEvents).handle (fun _ => none) (.poll (some [demoView])) = some s' ∧
      s'.injectedTurns = ∅ ∧ s'.idle = true := by
  have pending : (demoAfter demoEvents).pendingStarts = [] := rfl
  have named : (demoAfter demoEvents).trace "t" = [.injected "t" heldHello] := by decide +kernel
  have active : (demoAfter demoEvents).activeTurns = ∅ := rfl
  have injected : (demoAfter demoEvents).injectedTurns = {"t"} := rfl
  have reach : Relation.ReflTransGen (Step demoServer .empty (fun _ => none)) (start .empty false 0)
      (demoAfter demoEvents) := by
    have first : Step demoServer .empty (fun _ => none) (start .empty false 0)
        (demoAfter [.incoming heldHello]) :=
      ⟨.incoming heldHello, trivial, trivial, demoAfter_step [] (by decide +kernel)⟩
    have second : Step demoServer .empty (fun _ => none) (demoAfter [.incoming heldHello])
        (demoAfter [.incoming heldHello, .response 0 (.result (some "t"))]) :=
      ⟨.response 0 (.result (some "t")), rfl, trivial, demoAfter_step [.incoming heldHello] (by decide +kernel)⟩
    exact ((Relation.ReflTransGen.single first).tail second).tail ⟨.statusChanged .idle, trivial, trivial,
      demoAfter_step [.incoming heldHello, .response 0 (.result (some "t"))] (by decide +kernel)⟩
  have unrecorded : ¬ (demoAfter demoEvents).Recorded "t" := by
    rw [recorded_iff, named]
    intro recorded
    cases List.mem_singleton.mp recorded
  have complete : (demoAfter demoEvents).Complete [demoView] := by
    refine ⟨by decide, ?_, ?_⟩
    · intro turn waited
      rw [active, injected, Finset.empty_union, Finset.mem_singleton] at waited
      exact ⟨demoView, List.mem_singleton_self _, _, rfl, waited.symm⟩
    · intro view listed outcome ended _
      rw [List.mem_singleton.mp listed] at ended
      rw [demoView_outcome ended]
  obtain ⟨s', handled, -, -, cleared, idle, -⟩ :=
    (codex_reports_once (fun _ => Finset.notMem_empty _) reach).2.2 [demoView] ⟨pending, Or.inr rfl⟩
      (demoPage_honest (by rw [named]; exact List.cons_ne_nil _ _)) (by
        intro outcome listed request own
        obtain ⟨view, shown, ended⟩ := (collect_spec _ _).1 outcome listed
        rw [List.mem_singleton.mp shown] at ended
        cases demoView_outcome ended
        exact unrecorded) complete
  exact ⟨s', handled, cleared, idle⟩

/-- A round of the loop in which the app-server is honest. -/
def HonestStep (s s' : Codex) : Prop :=
  ∃ event, s.Honest demoServer event ∧ s.step (fun _ => none) event = some s'

theorem demoAfter_honest (events : List CodexEvent) {event : CodexEvent}
    (reach : Relation.ReflTransGen HonestStep (start .empty false 0) (demoAfter events))
    (honest : (demoAfter events).Honest demoServer event)
    (runs : ((events ++ [event]).foldlM (step (fun _ => none)) (start .empty false 0)).isSome = true) :
    Relation.ReflTransGen HonestStep (start .empty false 0) (demoAfter (events ++ [event])) :=
  reach.tail ⟨event, honest, demoAfter_step events runs⟩

/-- The notifications of the turn. -/
def notified : List CodexEvent :=
  [.incoming heldHello, .turnStarted "t", .itemCompleted "t" "well met", .turnCompleted demoView]

/-- They come before the reply that names the turn. -/
def overtaken : List CodexEvent :=
  notified ++ [CodexEvent.response 0 (.result (some "t"))] ++ [CodexEvent.statusChanged .idle] ++
    [CodexEvent.poll (some [demoView])]

theorem overtaken_honest : Relation.ReflTransGen HonestStep (start .empty false 0) (demoAfter overtaken) := by
  have facts : 0 ∈ (demoAfter [.incoming heldHello, .turnStarted "t",
      .itemCompleted "t" "well met"]).pendingStarts.map Prod.fst ∧
        (demoAfter (notified ++ [.response 0 (.result (some "t"))] ++ [.statusChanged .idle])).trace "t" ≠
          [] := by
    decide +kernel
  refine demoAfter_honest _ ?_ (demoPage_honest facts.2) (by decide +kernel)
  refine demoAfter_honest _ ?_ trivial (by decide +kernel)
  refine demoAfter_honest _ ?_ rfl (by decide +kernel)
  refine demoAfter_honest [.incoming heldHello, .turnStarted "t", .itemCompleted "t" "well met"] ?_ ?_
    (by decide +kernel)
  · refine demoAfter_honest [.incoming heldHello, .turnStarted "t"] ?_ trivial (by decide +kernel)
    refine demoAfter_honest [.incoming heldHello] ?_ trivial (by decide +kernel)
    exact demoAfter_honest [] .refl trivial (by decide +kernel)
  · intro request named
    cases turnOf_first (Option.some.inj named)
    exact Or.inl facts.1

/-- The result of the turn goes to the room as words of the local human, the greeting is never
    acknowledged, and the turn stays among the injected ones though it has ended and the history was
    read. -/
theorem overtaken_turn_misfiled :
    Relation.ReflTransGen HonestStep (start .empty false 0) (demoAfter overtaken) ∧
      (demoAfter overtaken).log =
        [.started 0 heldHello, .recorded "t", .posted "t" (plainText "well met"), .injected "t" heldHello] ∧
      (demoAfter overtaken).injectedTurns = {"t"} ∧ (demoAfter overtaken).idle = false :=
  ⟨overtaken_honest, by decide +kernel⟩

end Codex

end Parler.Cli
