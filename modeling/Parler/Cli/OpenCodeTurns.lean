import Parler.Cli.OpenCode
import Mathlib.Logic.Relation

/-!
# The final answer of a turn is published once

What the coordinator does about one turn that it started, over a whole run. The session says truly what
has completed. What it says too early is taken for the end: the coordinator copes with it as long as
nothing of a turn is collected before its final answer.
-/

namespace Parler.Cli

open Parler.Lib Parler.Protocol Parler.Hub Parler.Connector

/-- The user message that an act is about. -/
def OpenCodeAct.id : OpenCodeAct → String
  | .injected id _ | .posted id _ | .acked id _ => id

/-- The session: the last message of the assistant in each turn that the coordinator starts, and its
    text. -/
structure OpenCodeServer where
  finalStep : Nat → String
  answer : Nat → String

namespace OpenCode

/-- What was done about a user message, in order. -/
def trace (s : OpenCode) (id : String) : List OpenCodeAct := s.log.filter (fun act => act.id = id)

/-- The messages that a collection takes, with their ids. -/
def collected : List MessageView → RecentIds → List (String × MessageView)
  | [], _ => []
  | message :: rest, known =>
      match uncollected known message with
      | none => collected rest known
      | some id => (id, message) :: collected rest (known.remember seenAssistantLimit id)

section Run

variable (W : OpenCodeServer) (readHandoff : String → Option HandoffRef) (process : Nat)

/-- What is done about the messages of a turn that a collection takes. -/
def collectedOf (s : OpenCode) (messages : List MessageView) (n : Nat) : List (String × MessageView) :=
  (collected messages s.known).filter (fun c => parentOf c.2 c.1 = messageId process n)

/-- What the session shows as completed is true: it belongs to turns that were started, and the last
    message of a turn has its text. -/
def Honest (s : OpenCode) : OpenCodeEvent → Prop
  | .idle (some messages) _ => ∀ message ∈ messages, message.role = "assistant" → message.completed = true →
      ∀ id, message.id = some id → ∀ n,
        (parentOf message id = messageId process n → s.trace (messageId process n) ≠ [] ∧
          (id = W.finalStep n → message.error = none → textParts message false = W.answer n)) ∧
        (id = W.finalStep n → parentOf message id = messageId process n)
  | _ => True

/-- A collection that takes something of a turn takes its final answer last, while the turn is pending,
    and that answer is not blank. -/
def Timely (s : OpenCode) : OpenCodeEvent → Prop
  | .idle (some messages) _ => ∀ n, ∀ last ∈ (s.collectedOf process messages n).getLast?,
      (s.waiting (messageId process n)).isSome = true ∧ last.1 = W.finalStep n ∧ trim (W.answer n) ≠ ""
  | _ => True

/-- A round of the loop in which the session is honest and nothing is collected too early. -/
def Step (s s' : OpenCode) : Prop :=
  ∃ round, s.Honest W process round.event ∧ s.Timely W process round.event ∧
    s.step readHandoff process round = some s'

/-- All that is done about a turn whose answer was published. -/
def reported (n : Nat) (message : StoredMessage) : List OpenCodeAct :=
  [.injected (messageId process n) message,
    .posted (messageId process n) (peerResult readHandoff message (trim (W.answer n))),
    .acked (messageId process n) message]

/-- How far a turn of the coordinator is: what was done about it, and the message that waits for it. -/
inductive Phase (n : Nat) : List OpenCodeAct → Option StoredMessage → Prop where
  | unknown : Phase n [] none
  | running (message : StoredMessage) :
      Phase n [.injected (messageId process n) message] (some message)
  | done (message : StoredMessage) : Phase n (reported W readHandoff process n message) none

/-- The invariant of the loop. -/
structure Sound (s : OpenCode) : Prop where
  phase : ∀ n, Phase W readHandoff process n (s.trace (messageId process n)) (s.waiting (messageId process n))
  fresh : ∀ n, s.nextMessage ≤ n → s.trace (messageId process n) = []

/-- The final answers that were collected are published. -/
def Noted (s : OpenCode) : Prop := ∀ n, W.finalStep n ∈ s.known.members →
  ∃ message, s.trace (messageId process n) = reported W readHandoff process n message

end Run

theorem messageId_injective {process n n' : Nat} (same : messageId process n = messageId process n') :
    n = n' := by
  have chars := congrArg String.toList same
  simp only [messageId, String.toList_append, String.toList_ofList] at chars
  exact toDigits_inj (List.append_cancel_left chars)

/-! ## What a collection takes -/

theorem putOutcome_mem {outcomes : List OpenCodeOutcome} {outcome o : OpenCodeOutcome} :
    o ∈ putOutcome outcomes outcome ↔ o = outcome ∨ o ∈ outcomes ∧ o.parentId ≠ outcome.parentId := by
  unfold putOutcome
  split
  · rename_i present
    rw [List.mem_map]
    constructor
    · rintro ⟨old, listed, rfl⟩
      split
      · exact Or.inl rfl
      · rename_i other
        exact Or.inr ⟨listed, other⟩
    · rintro (rfl | ⟨listed, other⟩)
      · obtain ⟨old, listed, same⟩ := List.any_eq_true.mp present
        exact ⟨old, listed, if_pos (of_decide_eq_true same)⟩
      · exact ⟨o, listed, if_neg other⟩
  · rename_i absent
    rw [List.mem_append, List.mem_singleton]
    constructor
    · rintro (listed | rfl)
      · refine Or.inr ⟨listed, fun same => absent ?_⟩
        exact List.any_eq_true.mpr ⟨o, listed, decide_eq_true same⟩
      · exact Or.inl rfl
    · rintro (rfl | ⟨listed, -⟩)
      · exact Or.inr rfl
      · exact Or.inl listed

theorem putOutcome_distinct {outcomes : List OpenCodeOutcome} (outcome : OpenCodeOutcome)
    (distinct : (outcomes.map OpenCodeOutcome.parentId).Nodup) :
    ((putOutcome outcomes outcome).map OpenCodeOutcome.parentId).Nodup := by
  unfold putOutcome
  split
  · have same : (outcomes.map (fun o => if o.parentId = outcome.parentId then outcome else o)).map
        OpenCodeOutcome.parentId = outcomes.map OpenCodeOutcome.parentId := by
      rw [List.map_map]
      apply List.map_congr_left
      intro o _
      rw [Function.comp_apply]
      split
      · rename_i equal
        exact equal.symm
      · rfl
    rw [same]
    exact distinct
  · rename_i absent
    rw [List.map_append, List.map_singleton, List.nodup_append]
    refine ⟨distinct, List.nodup_singleton _, ?_⟩
    intro id listed id' last same
    obtain ⟨o, member, rfl⟩ := List.mem_map.mp listed
    rw [List.mem_singleton] at last
    exact absent (List.any_eq_true.mpr ⟨o, member, decide_eq_true (same.trans last)⟩)

/-- The outcomes of a list: each turn once, with its last outcome. -/
theorem putAll_spec (list : List OpenCodeOutcome) :
    ((list.foldl putOutcome []).map OpenCodeOutcome.parentId).Nodup ∧
      ∀ o, o ∈ list.foldl putOutcome [] ↔
        (list.filter (fun o' => o'.parentId = o.parentId)).getLast? = some o := by
  induction list using List.reverseRecOn with
  | nil => exact ⟨List.nodup_nil, fun o => by simp⟩
  | append_singleton list last ih =>
    rw [List.foldl_append, List.foldl_cons, List.foldl_nil]
    refine ⟨putOutcome_distinct last ih.1, fun o => ?_⟩
    rw [putOutcome_mem, ih.2, List.filter_append]
    by_cases same : last.parentId = o.parentId
    · have kept : [last].filter (fun o' => o'.parentId = o.parentId) = [last] := by simp [same]
      rw [kept, List.getLast?_concat, Option.some.injEq]
      constructor
      · rintro (rfl | ⟨-, other⟩)
        · rfl
        · exact absurd same.symm other
      · exact fun is => Or.inl is.symm
    · have dropped : [last].filter (fun o' => o'.parentId = o.parentId) = [] := by simp [same]
      rw [dropped, List.append_nil]
      constructor
      · rintro (rfl | ⟨is, -⟩)
        · exact absurd rfl same
        · exact is
      · exact fun is => Or.inr ⟨is, fun equal => same equal.symm⟩

/-- The loop of a collection puts the outcomes of what it takes. -/
theorem collectFrom_outcomes (messages rest : List MessageView) (outcomes : List OpenCodeOutcome)
    (known : RecentIds) :
    (collectFrom messages rest (outcomes, known)).1 =
      ((collected rest known).map (fun c => outcomeOf messages c.2 c.1)).foldl putOutcome outcomes := by
  induction rest generalizing outcomes known with
  | nil => rfl
  | cons message rest ih =>
    rw [collectFrom, collected]
    cases uncollected known message with
    | none => exact ih outcomes known
    | some id => exact ih _ _

/-- What is known after a collection was known before or was taken. -/
theorem collectFrom_known {messages rest : List MessageView} {outcomes : List OpenCodeOutcome}
    {known : RecentIds} {id : String}
    (listed : id ∈ (collectFrom messages rest (outcomes, known)).2.members) :
    id ∈ known.members ∨ ∃ message, (id, message) ∈ collected rest known := by
  induction rest generalizing outcomes known with
  | nil => exact Or.inl listed
  | cons message rest ih =>
    rw [collectFrom] at listed
    rw [collected]
    cases new : uncollected known message with
    | none =>
      rw [new] at listed
      exact ih listed
    | some id' =>
      rw [new] at listed
      rcases ih listed with old | ⟨message', later⟩
      · rcases Fifo.mem_remember old with rfl | old
        · exact Or.inr ⟨message, List.mem_cons_self⟩
        · exact Or.inl old
      · exact Or.inr ⟨message', List.mem_cons_of_mem _ later⟩

theorem uncollected_some {known : RecentIds} {message : MessageView} {id : String}
    (new : uncollected known message = some id) :
    message.role = "assistant" ∧ message.id = some id ∧ message.completed = true := by
  unfold uncollected at new
  split at new
  · rename_i assistant
    obtain ⟨named, fits⟩ := Option.filter_eq_some_iff.mp new
    exact ⟨assistant, named, (of_decide_eq_true fits).2⟩
  · cases new

/-- What a collection takes is shown as completed. -/
theorem collected_shown {rest : List MessageView} {known : RecentIds} {c : String × MessageView}
    (taken : c ∈ collected rest known) :
    c.2 ∈ rest ∧ c.2.role = "assistant" ∧ c.2.id = some c.1 ∧ c.2.completed = true := by
  induction rest generalizing known with
  | nil => cases taken
  | cons message rest ih =>
    rw [collected] at taken
    cases new : uncollected known message with
    | none =>
      rw [new] at taken
      obtain ⟨listed, rest⟩ := ih taken
      exact ⟨List.mem_cons_of_mem _ listed, rest⟩
    | some id =>
      rw [new] at taken
      rcases List.mem_cons.mp taken with rfl | later
      · exact ⟨List.mem_cons_self, uncollected_some new⟩
      · obtain ⟨listed, rest⟩ := ih later
        exact ⟨List.mem_cons_of_mem _ listed, rest⟩

/-- What is shown as completed is known or taken. -/
theorem taken_or_known {rest : List MessageView} (known : RecentIds) {message : MessageView} {id : String}
    (listed : message ∈ rest) (assistant : message.role = "assistant") (named : message.id = some id)
    (completed : message.completed = true) :
    id ∈ known.members ∨ ∃ message', (id, message') ∈ collected rest known := by
  induction rest generalizing known with
  | nil => cases listed
  | cons first rest ih =>
    rw [collected]
    rcases List.mem_cons.mp listed with rfl | later
    · by_cases old : id ∈ known.members
      · exact Or.inl old
      · have new : uncollected known message = some id := by
          simp [uncollected, assistant, named, completed, old]
        rw [new]
        exact Or.inr ⟨message, List.mem_cons_self⟩
    · cases new : uncollected known first with
      | none => exact ih known later
      | some id' =>
        rcases ih (known.remember seenAssistantLimit id') later with old | ⟨message', taken⟩
        · rcases Fifo.mem_remember old with rfl | old
          · exact Or.inr ⟨first, List.mem_cons_self⟩
          · exact Or.inl old
        · exact Or.inr ⟨message', List.mem_cons_of_mem _ taken⟩

/-! ## One outcome -/

section Settle

variable {W : OpenCodeServer} {readHandoff : String → Option HandoffRef} {process : Nat}
  {s s' : OpenCode}

/-- An outcome of a turn of the coordinator is the final answer of a pending one. -/
def Due (W : OpenCodeServer) (process : Nat) (s : OpenCode) (outcome : OpenCodeOutcome) : Prop :=
  ∀ n, outcome.parentId = messageId process n → (s.waiting (messageId process n)).isSome = true ∧
    trim (W.answer n) ≠ "" ∧ (outcome.error = none → outcome.answer = W.answer n)

theorem trace_append {acts : List OpenCodeAct} {id : String} (log : s'.log = s.log ++ acts)
    (all : ∀ act ∈ acts, act.id = id) (other : String) :
    s'.trace other = s.trace other ++ if id = other then acts else [] := by
  rw [trace, log, List.filter_append]
  congr 1
  split
  · rename_i same
    exact List.filter_eq_self.mpr (fun act listed => decide_eq_true ((all act listed).trans same))
  · rename_i different
    refine List.filter_eq_nil_iff.mpr ?_
    intro act listed same
    exact different ((all act listed).symm.trans (of_decide_eq_true same))

theorem publish_id (id : String) (capture : TurnCapture) :
    ∀ act ∈ publish readHandoff id capture, act.id = id := by
  intro act listed
  rcases List.mem_append.mp listed with posted | acked
  · obtain ⟨post, -, rfl⟩ := List.mem_map.mp posted
    rfl
  · obtain ⟨message, -, rfl⟩ := List.mem_map.mp acked
    rfl

/-- What an outcome changes: the turn it is about. -/
structure Settled (s : OpenCode) (outcome : OpenCodeOutcome) (s' : OpenCode) : Prop where
  known : s'.known = s.known
  next : s'.nextMessage = s.nextMessage
  traces : ∀ id ≠ outcome.parentId, s'.trace id = s.trace id
  waits : ∀ id ≠ outcome.parentId, s'.waiting id = s.waiting id

theorem find_filter_ne (entries : List (String × StoredMessage)) (id other : String) :
    (entries.filter (fun entry => entry.1 ≠ id)).find? (fun entry => entry.1 = other) =
      if other = id then none else entries.find? (fun entry => entry.1 = other) := by
  induction entries with
  | nil => simp
  | cons entry entries ih =>
    by_cases gone : entry.1 = id
    · rw [List.filter_cons_of_neg (by simpa using gone), ih]
      by_cases same : other = id
      · rw [if_pos same, if_pos same]
      · have differs : ¬ entry.1 = other := fun is => same (is.symm.trans gone)
        rw [if_neg same, if_neg same, List.find?_cons_of_neg (by simpa using differs)]
    · rw [List.filter_cons_of_pos (by simpa using gone)]
      by_cases own : entry.1 = other
      · have differs : ¬ other = id := fun is => gone (own.trans is)
        rw [if_neg differs, List.find?_cons_of_pos (by simpa using own),
          List.find?_cons_of_pos (by simpa using own)]
      · rw [List.find?_cons_of_neg (by simpa using own), ih, List.find?_cons_of_neg (by simpa using own)]

theorem waiting_filter (id other : String) :
    (({ s with pending := s.pending.filter (fun entry => entry.1 ≠ id) } : OpenCode)).waiting other =
      if other = id then none else s.waiting other := by
  unfold waiting
  dsimp only
  rw [find_filter_ne]
  split <;> rfl

/-- What settling an outcome does: nothing to other turns, and for a pending one the publication and the
    end of its wait. -/
theorem settle_cases {outcome : OpenCodeOutcome} (settled : s.settle readHandoff outcome = some s') :
    s.Settled outcome s' ∧
      ∀ incoming, s.waiting outcome.parentId = some incoming →
        outcome.error = none ∧ s'.waiting outcome.parentId = none ∧
          s'.trace outcome.parentId = s.trace outcome.parentId ++
            publish readHandoff outcome.parentId ⟨some incoming, outcome.answer⟩ := by
  unfold settle at settled
  cases waits : s.waiting outcome.parentId with
  | some incoming =>
    rw [waits] at settled
    dsimp only at settled
    split at settled
    · cases settled
    · rename_i fine
      cases settled
      have traces : ∀ id, ({ s with
          pending := s.pending.filter (fun entry => entry.1 ≠ outcome.parentId)
          log := s.log ++ publish readHandoff outcome.parentId ⟨some incoming, outcome.answer⟩ } :
            OpenCode).trace id = s.trace id ++
              if outcome.parentId = id then publish readHandoff outcome.parentId ⟨some incoming, outcome.answer⟩
              else [] :=
        trace_append rfl (publish_id outcome.parentId ⟨some incoming, outcome.answer⟩)
      refine ⟨⟨rfl, rfl, ?_, ?_⟩, ?_⟩
      · intro id other
        rw [traces, if_neg other.symm, List.append_nil]
      · intro id other
        exact (waiting_filter outcome.parentId id).trans (if_neg other)
      · rintro incoming' ⟨⟩
        refine ⟨Option.not_isSome_iff_eq_none.mp fine, ?_, ?_⟩
        · exact (waiting_filter outcome.parentId outcome.parentId).trans (if_pos rfl)
        · rw [traces, if_pos rfl]
  | none =>
    rw [waits] at settled
    dsimp only at settled
    refine ⟨?_, nofun⟩
    split at settled
    · cases settled
      refine ⟨rfl, rfl, ?_, fun _ _ => rfl⟩
      intro id other
      rw [trace_append (s := s) rfl (publish_id outcome.parentId ⟨none, outcome.localText⟩), if_neg other.symm,
        List.append_nil]
    · cases settled
      exact ⟨rfl, rfl, fun _ _ => rfl, fun _ _ => rfl⟩

theorem reported_eq {n : Nat} (message : StoredMessage) (text : trim (W.answer n) ≠ "") :
    reported W readHandoff process n message = [OpenCodeAct.injected (messageId process n) message] ++
      publish readHandoff (messageId process n) ⟨some message, W.answer n⟩ := by
  simp [reported, publish, publication, text]

/-- The step lemma of an outcome. -/
theorem Sound.settle (sound : Sound W readHandoff process s) {outcome : OpenCodeOutcome}
    (due : s.Due W process outcome) (settled : s.settle readHandoff outcome = some s') :
    Sound W readHandoff process s' ∧ ∀ n, outcome.parentId = messageId process n →
      ∃ message, s'.trace (messageId process n) = reported W readHandoff process n message := by
  obtain ⟨frame, own⟩ := settle_cases settled
  have done : ∀ n, outcome.parentId = messageId process n → ∃ message,
      s'.trace (messageId process n) = reported W readHandoff process n message ∧
        s'.waiting (messageId process n) = none := by
    intro n is
    obtain ⟨pending, text, answers⟩ := due n is
    obtain ⟨message, waits⟩ := Option.isSome_iff_exists.mp pending
    obtain ⟨fine, over_now, traced⟩ := own message (is ▸ waits)
    rw [is] at over_now traced
    have phase := sound.phase n
    rw [waits] at phase
    cases was : s.trace (messageId process n) with
    | nil =>
      rw [was] at phase
      cases phase
    | cons act acts =>
      rw [was] at phase
      cases phase
      refine ⟨message, ?_, over_now⟩
      rw [traced, was, reported_eq message text, answers fine]
  refine ⟨⟨?_, ?_⟩, fun n is => (done n is).imp (fun _ both => both.1)⟩
  · intro n
    by_cases is : outcome.parentId = messageId process n
    · obtain ⟨message, traced, over_now⟩ := done n is
      rw [traced, over_now]
      exact .done message
    · rw [frame.traces _ (Ne.symm is), frame.waits _ (Ne.symm is)]
      exact sound.phase n
  · intro n new
    rw [frame.next] at new
    by_cases is : outcome.parentId = messageId process n
    · -- a turn that was not started does not wait
      have phase := sound.phase n
      rw [sound.fresh n new] at phase
      obtain ⟨pending, -⟩ := due n is
      cases waits : s.waiting (messageId process n) with
      | none =>
        rw [waits] at pending
        cases pending
      | some message =>
        rw [waits] at phase
        cases phase
    · rw [frame.traces _ (Ne.symm is)]
      exact sound.fresh n new

/-- The run lemma of the outcomes of a collection. -/
theorem Sound.settleAll {outcomes : List OpenCodeOutcome} (sound : Sound W readHandoff process s)
    (distinct : (outcomes.map OpenCodeOutcome.parentId).Nodup)
    (due : ∀ outcome ∈ outcomes, s.Due W process outcome)
    (folded : outcomes.foldlM (OpenCode.settle readHandoff) s = some s') :
    Sound W readHandoff process s' ∧ s'.known = s.known ∧ s'.nextMessage = s.nextMessage ∧
      (∀ id, id ∉ outcomes.map OpenCodeOutcome.parentId → s'.trace id = s.trace id) ∧
      ∀ n, messageId process n ∈ outcomes.map OpenCodeOutcome.parentId →
        ∃ message, s'.trace (messageId process n) = reported W readHandoff process n message := by
  induction outcomes generalizing s with
  | nil =>
    cases folded
    exact ⟨sound, rfl, rfl, fun _ _ => rfl, nofun⟩
  | cons outcome outcomes ih =>
    rw [List.foldlM_cons] at folded
    obtain ⟨s₁, settled, folded⟩ := Option.bind_eq_some_iff.mp folded
    obtain ⟨new, distinct⟩ := List.nodup_cons.mp distinct
    obtain ⟨sound₁, done⟩ := sound.settle (due outcome List.mem_cons_self) settled
    obtain ⟨frame, -⟩ := settle_cases settled
    have due₁ : ∀ other ∈ outcomes, s₁.Due W process other := by
      intro other listed n is
      have differs : messageId process n ≠ outcome.parentId := by
        intro same
        exact new (List.mem_map.mpr ⟨other, listed, is.trans same⟩)
      rw [frame.waits _ differs]
      exact due other (List.mem_cons_of_mem _ listed) n is
    obtain ⟨sound', known, next, others, rest⟩ := ih sound₁ distinct due₁ folded
    refine ⟨sound', known.trans frame.known, next.trans frame.next, ?_, ?_⟩
    · intro id absent
      rw [List.map_cons, List.mem_cons, not_or] at absent
      rw [others id absent.2, frame.traces id absent.1]
    · intro n listed
      rw [List.map_cons, List.mem_cons] at listed
      rcases listed with first | later
      · obtain ⟨message, traced⟩ := done n first.symm
        refine ⟨message, ?_⟩
        rw [others _ (first ▸ new), traced]
      · exact rest n later

end Settle

/-! ## One round -/

section Rounds

variable {W : OpenCodeServer} {readHandoff : String → Option HandoffRef} {process : Nat}
  {s s' : OpenCode}

/-- The outcomes of a collection are those of the last messages that it takes of each turn. -/
theorem collectCompletedOutcomes_spec (process : Nat) (s : OpenCode) (messages : List MessageView) :
    ((collectCompletedOutcomes messages s.known).1.map OpenCodeOutcome.parentId).Nodup ∧
      ∀ n, (∀ o ∈ (collectCompletedOutcomes messages s.known).1, o.parentId = messageId process n →
          ∃ last ∈ (s.collectedOf process messages n).getLast?, o = outcomeOf messages last.2 last.1) ∧
        (s.collectedOf process messages n ≠ [] →
          messageId process n ∈ (collectCompletedOutcomes messages s.known).1.map OpenCodeOutcome.parentId) := by
  unfold collectCompletedOutcomes
  rw [collectFrom_outcomes]
  obtain ⟨distinct, listed⟩ := putAll_spec ((collected messages s.known).map (fun c => outcomeOf messages c.2 c.1))
  have last : ∀ n, (((collected messages s.known).map (fun c => outcomeOf messages c.2 c.1)).filter
      (fun o => o.parentId = messageId process n)).getLast? =
        (s.collectedOf process messages n).getLast?.map (fun c => outcomeOf messages c.2 c.1) := by
    intro n
    rw [List.filter_map, List.getLast?_map]
    rfl
  refine ⟨distinct, fun n => ⟨?_, ?_⟩⟩
  · intro o member own
    have is := (listed o).mp member
    rw [own, last n] at is
    obtain ⟨c, taken, rfl⟩ := Option.map_eq_some_iff.mp is
    exact ⟨c, taken, rfl⟩
  · intro some_taken
    obtain ⟨c, taken⟩ := Option.isSome_iff_exists.mp (List.getLast?_isSome.mpr some_taken)
    have own : parentOf c.2 c.1 = messageId process n :=
      of_decide_eq_true (List.mem_filter.mp (List.mem_of_getLast? taken)).2
    refine List.mem_map.mpr ⟨outcomeOf messages c.2 c.1, (listed _).mpr ?_, own⟩
    show (List.filter (fun o : OpenCodeOutcome => o.parentId = parentOf c.2 c.1) _).getLast? = _
    rw [own, last n, taken]
    rfl

/-- The turns whose final answer a page shows. -/
def Shows (W : OpenCodeServer) (messages : List MessageView) (n : Nat) : Prop :=
  ∃ message ∈ messages, message.role = "assistant" ∧ message.completed = true ∧
    message.id = some (W.finalStep n)

theorem collect_due {messages : List MessageView} {isBusy : Option Bool}
    (honest : s.Honest W process (.idle (some messages) isBusy))
    (timely : s.Timely W process (.idle (some messages) isBusy)) {outcome : OpenCodeOutcome}
    (listed : outcome ∈ (collectCompletedOutcomes messages s.known).1) : s.Due W process outcome := by
  intro n own
  obtain ⟨last, taken, rfl⟩ := ((collectCompletedOutcomes_spec process s messages).2 n).1
    outcome listed own
  obtain ⟨pending, final, text⟩ := timely n last taken
  have shown := collected_shown (List.mem_filter.mp (List.mem_of_getLast? taken)).1
  refine ⟨pending, text, fun fine => ?_⟩
  exact ((honest last.2 shown.1 shown.2.1 shown.2.2.2 last.1 shown.2.2.1 n).1 own).2 final fine

/-- The step lemma of a collection: it publishes the final answers that it is shown. -/
theorem Sound.collect (sound : Sound W readHandoff process s) (noted : Noted W readHandoff process s)
    {messages : List MessageView} {isBusy : Option Bool}
    (honest : s.Honest W process (.idle (some messages) isBusy))
    (timely : s.Timely W process (.idle (some messages) isBusy))
    (collects : s.collect readHandoff messages = some s') :
    Sound W readHandoff process s' ∧ Noted W readHandoff process s' ∧ ∀ n, Shows W messages n →
      ∃ message, s'.trace (messageId process n) = reported W readHandoff process n message := by
  obtain ⟨distinct, taken⟩ := collectCompletedOutcomes_spec process s messages
  have base : Sound W readHandoff process
      { s with busy := false, known := (collectCompletedOutcomes messages s.known).2 } :=
    ⟨sound.phase, sound.fresh⟩
  obtain ⟨sound', known, -, others, done⟩ := base.settleAll distinct
    (fun outcome listed => collect_due honest timely listed) collects
  -- a turn of which something is taken is published, and a published one stays so
  have of_taken : ∀ n message, (W.finalStep n, message) ∈ collected messages s.known →
      ∃ message, s'.trace (messageId process n) = reported W readHandoff process n message := by
    intro n message took
    have shown := collected_shown took
    have own := (honest message shown.1 shown.2.1 shown.2.2.2 _ shown.2.2.1 n).2 rfl
    apply done n
    apply (taken n).2
    exact List.ne_nil_of_mem (List.mem_filter.mpr ⟨took, decide_eq_true own⟩)
  have of_known : ∀ n, W.finalStep n ∈ s.known.members →
      ∃ message, s'.trace (messageId process n) = reported W readHandoff process n message := by
    intro n old
    by_cases again : messageId process n ∈
        (collectCompletedOutcomes messages s.known).1.map OpenCodeOutcome.parentId
    · exact done n again
    · rw [others _ again]
      exact noted n old
  refine ⟨sound', ?_, ?_⟩
  · intro n listed
    rw [known] at listed
    rcases collectFrom_known listed with old | ⟨message, took⟩
    · exact of_known n old
    · exact of_taken n message took
  · rintro n ⟨message, listed, assistant, completed, named⟩
    rcases taken_or_known s.known listed assistant named completed with old | ⟨message', took⟩
    · exact of_known n old
    · exact of_taken n message' took

theorem Sound.handle (sound : Sound W readHandoff process s) (noted : Noted W readHandoff process s)
    {event : OpenCodeEvent} (honest : s.Honest W process event) (timely : s.Timely W process event)
    (handles : s.handle readHandoff event = some s') :
    Sound W readHandoff process s' ∧ Noted W readHandoff process s' ∧
      ∀ messages isBusy, event = .idle (some messages) isBusy → ∀ n, Shows W messages n →
        ∃ message, s'.trace (messageId process n) = reported W readHandoff process n message := by
  cases event with
  | incoming message =>
    cases handles
    exact ⟨⟨sound.phase, sound.fresh⟩, noted, nofun⟩
  | working =>
    cases handles
    exact ⟨⟨sound.phase, sound.fresh⟩, noted, nofun⟩
  | other =>
    cases handles
    exact ⟨sound, noted, nofun⟩
  | idle messages isBusy =>
    obtain ⟨messages, rfl, handles⟩ := Option.bind_eq_some_iff.mp handles
    obtain ⟨s₁, collects, handles⟩ := Option.bind_eq_some_iff.mp handles
    obtain ⟨busy, rfl, handles⟩ := Option.bind_eq_some_iff.mp handles
    cases handles
    obtain ⟨sound₁, noted₁, done⟩ := sound.collect noted honest timely collects
    refine ⟨⟨sound₁.phase, sound₁.fresh⟩, noted₁, ?_⟩
    rintro _ _ ⟨⟩
    exact done

theorem trace_startTurn (s : OpenCode) (message : StoredMessage) (n : Nat) :
    (s.startTurn process message).trace (messageId process n) = s.trace (messageId process n) ++
      if n = s.nextMessage then [OpenCodeAct.injected (messageId process s.nextMessage) message] else [] := by
  have log : (s.startTurn process message).log =
      s.log ++ [.injected (messageId process s.nextMessage) message] := rfl
  have all : ∀ act ∈ [OpenCodeAct.injected (messageId process s.nextMessage) message],
      act.id = messageId process s.nextMessage :=
    fun act listed => congrArg OpenCodeAct.id (List.mem_singleton.mp listed)
  rw [trace_append log all]
  by_cases own : n = s.nextMessage
  · rw [if_pos own, own]
    exact congrArg _ (if_pos rfl)
  · rw [if_neg own]
    exact congrArg _ (if_neg (fun same => own (messageId_injective same).symm))

theorem waiting_startTurn (s : OpenCode) (message : StoredMessage) (n : Nat) :
    (s.startTurn process message).waiting (messageId process n) =
      (s.waiting (messageId process n)).or (if n = s.nextMessage then some message else none) := by
  have split : (s.startTurn process message).waiting (messageId process n) =
      ((s.pending ++ [(messageId process s.nextMessage, message)]).find?
        (fun entry => entry.1 = messageId process n)).map Prod.snd := rfl
  rw [split, List.find?_append, waiting]
  by_cases own : n = s.nextMessage
  · rw [if_pos own, own, List.find?_cons_of_pos (by simp)]
    cases s.pending.find? (fun entry => entry.1 = messageId process s.nextMessage) <;> rfl
  · have other : ¬ messageId process s.nextMessage = messageId process n :=
      fun same => own (messageId_injective same).symm
    rw [if_neg own, List.find?_cons_of_neg (by simpa using other), List.find?_nil, Option.or_none,
      Option.or_none]

/-- A new turn waits, and the others stay as they are. -/
theorem Sound.startTurn (sound : Sound W readHandoff process s) (message : StoredMessage) :
    Sound W readHandoff process (s.startTurn process message) := by
  constructor
  · intro n
    rw [trace_startTurn, waiting_startTurn]
    by_cases own : n = s.nextMessage
    · have phase := sound.phase n
      rw [sound.fresh n (le_of_eq own.symm)] at phase ⊢
      generalize s.waiting (messageId process n) = waits at phase ⊢
      cases phase
      rw [if_pos own, if_pos own, ← own]
      exact .running message
    · rw [if_neg own, if_neg own, List.append_nil, Option.or_none]
      exact sound.phase n
  · intro n new
    have later : s.nextMessage + 1 ≤ n := new
    have other : n ≠ s.nextMessage := by omega
    rw [trace_startTurn, if_neg other, List.append_nil]
    exact sound.fresh n (by omega)

/-- Starting a turn leaves the turns that were started. -/
theorem Sound.startNext (sound : Sound W readHandoff process s) (noted : Noted W readHandoff process s)
    {isBusy : Option Bool} {accepted : Bool} (starts : s.startNext process isBusy accepted = some s') :
    Sound W readHandoff process s' ∧ Noted W readHandoff process s' ∧
      ∀ n, s.trace (messageId process n) ≠ [] →
        s'.trace (messageId process n) = s.trace (messageId process n) := by
  unfold OpenCode.startNext at starts
  split at starts
  · split at starts
    · cases starts
      exact ⟨sound, noted, fun _ _ => rfl⟩
    · rename_i message rest queued
      split at starts
      · cases starts
      · cases starts
        exact ⟨⟨sound.phase, sound.fresh⟩, noted, fun _ _ => rfl⟩
      · split at starts
        · cases starts
          have next := sound.startTurn message
          have kept : ∀ n, s.trace (messageId process n) ≠ [] →
              (s.startTurn process message).trace (messageId process n) = s.trace (messageId process n) := by
            intro n started
            have other : n ≠ s.nextMessage := fun same => started (sound.fresh n (le_of_eq same.symm))
            rw [trace_startTurn, if_neg other, List.append_nil]
          refine ⟨⟨next.phase, next.fresh⟩, ?_, kept⟩
          intro n listed
          obtain ⟨message', traced⟩ := noted n listed
          refine ⟨message', (kept n ?_).trans traced⟩
          rw [traced]
          exact List.cons_ne_nil _ _
        · cases starts
  · cases starts
    exact ⟨sound, noted, fun _ _ => rfl⟩

/-- The step lemma of the loop. -/
theorem Sound.step (sound : Sound W readHandoff process s) (noted : Noted W readHandoff process s)
    {round : OpenCodeRound} (honest : s.Honest W process round.event)
    (timely : s.Timely W process round.event) (steps : s.step readHandoff process round = some s') :
    Sound W readHandoff process s' ∧ Noted W readHandoff process s' ∧
      ∀ messages isBusy, round.event = .idle (some messages) isBusy → ∀ n, Shows W messages n →
        ∃ message, s'.trace (messageId process n) = reported W readHandoff process n message := by
  obtain ⟨s₁, handles, starts⟩ := Option.bind_eq_some_iff.mp steps
  obtain ⟨sound₁, noted₁, done⟩ := sound.handle noted honest timely handles
  obtain ⟨sound', noted', kept⟩ := sound₁.startNext noted₁ starts
  refine ⟨sound', noted', ?_⟩
  intro messages isBusy is n shows
  obtain ⟨message, traced⟩ := done messages isBusy is n shows
  refine ⟨message, ?_⟩
  rw [kept n (by rw [traced]; exact List.cons_ne_nil _ _), traced]

theorem sound_start (known : RecentIds) (busy : Bool) (nextMessage : Nat) :
    Sound W readHandoff process (start known busy nextMessage) :=
  ⟨fun _ => .unknown, fun _ _ => rfl⟩

/-- The run lemma. -/
theorem sound_reachable {known : RecentIds} (unused : ∀ n, W.finalStep n ∉ known.members) {busy : Bool}
    {nextMessage : Nat}
    (reach : Relation.ReflTransGen (Step W readHandoff process) (start known busy nextMessage) s) :
    Sound W readHandoff process s ∧ Noted W readHandoff process s := by
  induction reach with
  | refl => exact ⟨sound_start known busy nextMessage, fun n listed => absurd listed (unused n)⟩
  | tail before last ih =>
    obtain ⟨round, honest, timely, steps⟩ := last
    obtain ⟨sound, noted, -⟩ := ih.1.step ih.2 honest timely steps
    exact ⟨sound, noted⟩

/-- In every run in which nothing of a turn is collected before its final answer, the coordinator has done
    nothing about a turn of its own, or has noted its message, or has published its final answer as the
    result of that message and then acknowledged the message, each once. It has done so once an idle
    session has shown it the final answer. -/
theorem opencode_publishes_once {known : RecentIds} (unused : ∀ n, W.finalStep n ∉ known.members)
    {busy : Bool} {nextMessage : Nat}
    (reach : Relation.ReflTransGen (Step W readHandoff process) (start known busy nextMessage) s) :
    (∀ n, s.trace (messageId process n) = [] ∨ ∃ message,
      s.trace (messageId process n) = [.injected (messageId process n) message] ∨
        s.trace (messageId process n) = reported W readHandoff process n message) ∧
    ∀ messages isBusy topBusy accepted s', s.Honest W process (.idle (some messages) isBusy) →
      s.Timely W process (.idle (some messages) isBusy) →
      s.step readHandoff process ⟨.idle (some messages) isBusy, topBusy, accepted⟩ = some s' →
        ∀ n, Shows W messages n →
          ∃ message, s'.trace (messageId process n) = reported W readHandoff process n message := by
  obtain ⟨sound, noted⟩ := sound_reachable unused reach
  refine ⟨?_, ?_⟩
  · intro n
    have phase := sound.phase n
    generalize s.trace (messageId process n) = before at phase ⊢
    generalize s.waiting (messageId process n) = waits at phase
    cases phase with
    | unknown => exact Or.inl rfl
    | running message => exact Or.inr ⟨message, Or.inl rfl⟩
    | done message => exact Or.inr ⟨message, Or.inr rfl⟩
  · intro messages isBusy topBusy accepted s' honest timely steps
    exact (sound.step noted honest timely steps).2.2 messages isBusy rfl

end Rounds

/-! ## Runs -/

/-- A session whose turns end with a message named after them. -/
def demoOpenCode : OpenCodeServer := ⟨fun n => "end_" ++ messageId 7 n, fun _ => "well met"⟩

/-- A message of the assistant in the first turn of the coordinator. -/
def demoReply (name text : String) : MessageView :=
  ⟨"assistant", some name, some (messageId 7 0), true, none, [⟨"text", false, false, some text⟩]⟩

def demoFirstStep : MessageView := demoReply "look" "let me look"

def demoFinalStep : MessageView := demoReply (demoOpenCode.finalStep 0) "well met"

theorem finalStep_first {n : Nat} (same : demoOpenCode.finalStep 0 = demoOpenCode.finalStep n) : n = 0 := by
  have chars := congrArg String.toList same
  simp only [demoOpenCode, String.toList_append] at chars
  exact (messageId_injective (String.toList_inj.mp (List.append_cancel_left chars))).symm

theorem look_not_final (n : Nat) : "look" ≠ demoOpenCode.finalStep n := by
  intro same
  have first := congrArg (fun name => name.toList.head?) same
  simp [demoOpenCode] at first

/-- What the session shows of the turn is honest once it runs. -/
theorem demoPage_honest {s : OpenCode} {messages : List MessageView} {isBusy : Option Bool}
    (listed : ∀ message ∈ messages, message = demoFirstStep ∨ message = demoFinalStep)
    (started : s.trace (messageId 7 0) ≠ []) :
    s.Honest demoOpenCode 7 (.idle (some messages) isBusy) := by
  intro message shown _ _ id named n
  have text : textParts demoFinalStep false = "well met" := by decide +kernel
  rcases listed message shown with rfl | rfl
  · cases Option.some.inj named
    constructor
    · intro own
      cases messageId_injective (own : messageId 7 0 = messageId 7 n)
      exact ⟨started, fun final => absurd final (look_not_final 0)⟩
    · exact fun final => absurd final (look_not_final n)
  · cases Option.some.inj named
    constructor
    · intro own
      cases messageId_injective (own : messageId 7 0 = messageId 7 n)
      exact ⟨started, fun _ _ => text⟩
    · intro final
      rw [finalStep_first final]
      rfl

/-- The coordinator after a round. -/
def after (s : OpenCode) (round : OpenCodeRound) : OpenCode := (s.step (fun _ => none) 7 round).getD s

theorem step_after {s : OpenCode} {round : OpenCodeRound}
    (runs : (s.step (fun _ => none) 7 round).isSome = true) :
    s.step (fun _ => none) 7 round = some (s.after round) := by
  obtain ⟨s', steps⟩ := Option.isSome_iff_exists.mp runs
  rw [after, steps]
  rfl

/-- The greeting comes, and its turn starts. -/
def demoInjected : OpenCode := (start .empty false 0).after ⟨.incoming heldHello, some false, true⟩

/-- The session is idle and shows the messages. -/
def demoIdle (messages : List MessageView) (isBusy : Bool) : OpenCodeRound :=
  ⟨.idle (some messages) (some isBusy), some true, false⟩

theorem demoInjected_trace : demoInjected.trace (messageId 7 0) ≠ [] := by decide +kernel

/-- The session is idle once the turn has ended. -/
theorem opencode_publishes_once_demo :
    ∃ message, (demoInjected.after (demoIdle [demoFinalStep] false)).trace (messageId 7 0) =
      reported demoOpenCode (fun _ => none) 7 0 message := by
  have reach : Relation.ReflTransGen (Step demoOpenCode (fun _ => none) 7) (start .empty false 0)
      demoInjected :=
    .single ⟨⟨.incoming heldHello, some false, true⟩, trivial, trivial, step_after (by decide +kernel)⟩
  have timely : demoInjected.Timely demoOpenCode 7 (.idle (some [demoFinalStep]) (some false)) := by
    intro n last taken
    have only : collected [demoFinalStep] demoInjected.known =
        [(demoOpenCode.finalStep 0, demoFinalStep)] := by
      decide +kernel
    have listed := List.mem_of_getLast? taken
    rw [collectedOf, only, List.mem_filter, List.mem_singleton] at listed
    obtain ⟨rfl, own⟩ := listed
    cases messageId_injective (of_decide_eq_true own : messageId 7 0 = messageId 7 n)
    exact ⟨by decide +kernel, rfl, by decide +kernel⟩
  apply (opencode_publishes_once (fun _ => Finset.notMem_empty _) reach).2 [demoFinalStep] (some false)
    (some true) false _ _ timely (step_after (by decide +kernel)) 0
  · exact ⟨demoFinalStep, List.mem_singleton_self _, rfl, rfl, rfl⟩
  · exact demoPage_honest (fun _ listed => Or.inr (List.mem_singleton.mp listed)) demoInjected_trace

/-- A round of the loop in which the session is honest. -/
def HonestStep (s s' : OpenCode) : Prop :=
  ∃ round, s.Honest demoOpenCode 7 round.event ∧ s.step (fun _ => none) 7 round = some s'

/-- An idle event from before the turn is handled between its two steps. -/
def demoStale : OpenCode := demoInjected.after (demoIdle [demoFirstStep] true)

def demoEnded : OpenCode := demoStale.after (demoIdle [demoFirstStep, demoFinalStep] false)

/-- The first step is published as the result, and the final answer as words of the local human. -/
theorem stale_idle_misfiles_answer :
    Relation.ReflTransGen HonestStep (start .empty false 0) demoEnded ∧
      demoEnded.log = [.injected (messageId 7 0) heldHello,
        .posted (messageId 7 0) (peerResult (fun _ => none) heldHello "let me look"),
        .acked (messageId 7 0) heldHello,
        .posted (messageId 7 0) (plainText "well met")] := by
  have injected : HonestStep (start .empty false 0) demoInjected :=
    ⟨⟨.incoming heldHello, some false, true⟩, trivial, step_after (by decide +kernel)⟩
  have stale : HonestStep demoInjected demoStale := by
    refine ⟨demoIdle [demoFirstStep] true, ?_, step_after (by decide +kernel)⟩
    exact demoPage_honest (fun _ listed => Or.inl (List.mem_singleton.mp listed)) demoInjected_trace
  have ended : HonestStep demoStale demoEnded := by
    refine ⟨demoIdle [demoFirstStep, demoFinalStep] false, ?_, step_after (by decide +kernel)⟩
    apply demoPage_honest _ (by decide +kernel)
    intro message listed
    simpa using listed
  exact ⟨((Relation.ReflTransGen.single injected).tail stale).tail ended, by decide +kernel⟩

end OpenCode

end Parler.Cli
