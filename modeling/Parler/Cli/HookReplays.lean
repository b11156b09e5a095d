import Parler.Cli.VisibleHosts

/-!
# Messages that are shown again to the hooks of Claude Code

The hooks keep no ledger, so it is up to the hub what they start a second turn for. A waiting hook starts a turn
for a message that a pull has brought it since it waits. Where the hub shows no waiting hook a message that a turn
was started for, or that another waiting hook has got, no message has two turns.
-/

namespace Parler.Cli

open Parler.Lib Parler.Protocol Parler.Hub Parler.Connector

/-! ## Turns of the hooks -/

/-- Since the last turn of a message, if it had one, hooks started turns for `REPLAY_CAP` others. -/
def Spaced (turns : List (String × String)) (id : String × String) : Prop :=
  ∀ since older, turns = since ++ id :: older → id ∉ since → replayCap ≤ since.toFinset.card

/-- The hooks started one turn at most for a signed message, or enough others between two. -/
def ClaudeOnce (turns : List (String × String)) : Prop :=
  ∀ newer id older, turns = newer ++ id :: older → Spaced older id

theorem claudeOnce_cons {turns : List (String × String)} {id : String × String} :
    ClaudeOnce (id :: turns) ↔ ClaudeOnce turns ∧ Spaced turns id := by
  constructor
  · intro once
    refine ⟨fun newer id' older split => once (id :: newer) id' older (by rw [split]; rfl), ?_⟩
    exact once [] id turns rfl
  · rintro ⟨once, spaced⟩ newer id' older split
    cases newer with
    | nil =>
      obtain ⟨rfl, rfl⟩ := List.cons.inj split
      exact spaced
    | cons first newer => exact once newer id' older (List.cons.inj split).2

theorem Spaced.of_notMem {turns : List (String × String)} {id : String × String} (new : id ∉ turns) :
    Spaced turns id := by
  rintro since older rfl -
  exact absurd (List.mem_append_right _ List.mem_cons_self) new

/-- A turn of another message leaves a message as far from its last turn. -/
theorem Spaced.cons {turns : List (String × String)} {id other : String × String} (spaced : Spaced turns id)
    (different : other ≠ id) : Spaced (other :: turns) id := by
  intro since older split new
  cases since with
  | nil => exact absurd (List.cons.inj split).1 different
  | cons first since =>
    obtain ⟨rfl, rest⟩ := List.cons.inj split
    refine (spaced since older rest (fun member => new (List.mem_cons_of_mem _ member))).trans ?_
    rw [List.toFinset_cons]
    exact Finset.card_le_card (Finset.subset_insert _ _)

theorem spaced_iff {turns : List (String × String)} {id : String × String} :
    Spaced turns id ↔ id ∉ turns ∨ replayCap ≤ (turns.takeWhile (fun other => other ≠ id)).toFinset.card := by
  have before : ∀ since older, id ∉ since →
      (since ++ id :: older).takeWhile (fun other => other ≠ id) = since := by
    intro since older new
    rw [List.takeWhile_append_of_pos, List.takeWhile_cons_of_neg (by simp), List.append_nil]
    intro other member
    rw [decide_eq_true_eq]
    rintro rfl
    exact new member
  constructor
  · intro spaced
    refine or_iff_not_imp_left.mpr (fun had => ?_)
    obtain ⟨since, older, rfl, new⟩ := List.eq_append_cons_of_mem (not_not.mp had)
    rw [before since older new]
    exact spaced since older rfl new
  · rintro (new | far)
    · exact .of_notMem new
    · rintro since older rfl new
      rwa [before since older new] at far

instance (turns : List (String × String)) (id : String × String) : Decidable (Spaced turns id) :=
  decidable_of_iff _ spaced_iff.symm

/-! ## What a hook is shown -/

section Shown

variable {waiting : List WaitingHook} {n m : Nat} {shown : Option (List (String × String))}

theorem mem_setShown {h : WaitingHook} :
    h ∈ setShown waiting n shown ↔ (h.hook = n ∧ shown = some h.shown) ∨ (h ∈ waiting ∧ h.hook ≠ n) := by
  rw [setShown, List.mem_append, mem_deleteWhere]
  refine or_congr_left ?_
  cases shown with
  | none => simp
  | some ids =>
    obtain ⟨hook, own⟩ := h
    simp [eq_comm]

theorem shownTo_setShown_self : shownTo (setShown waiting n shown) n = shown := by
  unfold shownTo setShown
  cases shown with
  | none =>
    rw [Option.map_none, Option.toList_none, List.nil_append,
      rowOf_deleteWhere (q := fun hook => hook = n) (fun _ => Iff.rfl), if_pos rfl]
    rfl
  | some ids =>
    simp [rowOf]

theorem shownTo_setShown_other (other : m ≠ n) : shownTo (setShown waiting n shown) m = shownTo waiting m := by
  have kept : rowOf WaitingHook.hook m (deleteWhere (fun h => h.hook = n) waiting) =
      rowOf WaitingHook.hook m waiting := by
    rw [rowOf_deleteWhere (q := fun hook => hook = n) (fun _ => Iff.rfl), if_neg other]
  unfold shownTo setShown
  cases shown with
  | none => exact congrArg _ kept
  | some ids =>
    have skipped : rowOf WaitingHook.hook m (⟨n, ids⟩ :: deleteWhere (fun h => h.hook = n) waiting) =
        rowOf WaitingHook.hook m (deleteWhere (fun h => h.hook = n) waiting) :=
      List.find?_cons_of_neg (by simpa using other.symm)
    exact congrArg _ (skipped.trans kept)

theorem mem_of_shownTo {ids : List (String × String)} (is : shownTo waiting n = some ids) : ⟨n, ids⟩ ∈ waiting := by
  obtain ⟨row, found, rfl⟩ := Option.map_eq_some_iff.mp is
  obtain ⟨member, rfl⟩ := rowOf_mem found
  exact member

/-- What hooks were shown is not about to be a second turn, whichever hook goes on. -/
structure ShownOnce (waiting : List WaitingHook) (turns : List (String × String)) : Prop where
  spaced : ∀ h ∈ waiting, ∀ id ∈ h.shown, Spaced turns id
  apart : ∀ h ∈ waiting, ∀ h' ∈ waiting, h.hook ≠ h'.hook → ∀ id ∈ h.shown, id ∉ h'.shown

theorem ShownOnce.set {turns : List (String × String)} (fresh : ShownOnce waiting turns)
    (new : ∀ ids, shown = some ids → ∀ id ∈ ids,
      Spaced turns id ∧ ∀ h ∈ waiting, h.hook ≠ n → id ∉ h.shown) :
    ShownOnce (setShown waiting n shown) turns := by
  constructor
  · intro h member id own
    rcases mem_setShown.mp member with ⟨-, is⟩ | ⟨old, -⟩
    · exact (new _ is id own).1
    · exact fresh.spaced h old id own
  · intro h member h' member' different id own own'
    rcases mem_setShown.mp member with ⟨here, is⟩ | ⟨old, away⟩
    · rcases mem_setShown.mp member' with ⟨here', -⟩ | ⟨old', away'⟩
      · exact different (here.trans here'.symm)
      · exact (new _ is id own).2 h' old' away' own'
    · rcases mem_setShown.mp member' with ⟨-, is'⟩ | ⟨old', -⟩
      · exact (new _ is' id own').2 h old away own
      · exact fresh.apart h old h' old' different id own own'

/-- A hook that stops waiting. -/
theorem ShownOnce.leave {turns : List (String × String)} (fresh : ShownOnce waiting turns) :
    ShownOnce (setShown waiting n none) turns := fresh.set nofun

/-- A hook that starts a turn for what it was shown. -/
theorem ShownOnce.turn {turns : List (String × String)} (fresh : ShownOnce waiting turns)
    {ids : List (String × String)}
    (is : shownTo waiting n = some ids) {id : String × String} (own : id ∈ ids) :
    ShownOnce (setShown waiting n none) (id :: turns) := by
  have kept := fresh.leave (n := n)
  refine ⟨?_, kept.apart⟩
  intro h member id' own'
  obtain ⟨old, away⟩ := (mem_setShown.mp member).resolve_left (fun both => nomatch both.2)
  refine (fresh.spaced h old id' own').cons ?_
  rintro rfl
  exact fresh.apart h old ⟨n, ids⟩ (mem_of_shownTo is) away id own' own

end Shown

/-! ## What a hook starts a turn for -/

section Discipline

variable (F : FloatFormat) (verify : String → List UInt8 → String → Bool) (me : Authed)

/-- What a hook was shown in its past. -/
def heard (past : List (ClientDone claudeHost)) : Option (List (String × String)) :=
  past.foldr (fun done shown => shownAfter F verify me done.1 done.2 shown) none

/-- The message is one that the waiting hook was shown. -/
def Heard (past : List (ClientDone claudeHost)) (message : StoredMessage) : Prop :=
  ∀ id ∈ signedId message, ∃ ids, heard F verify me past = some ids ∧ id ∈ ids

/-- A hook starts a turn for a message only if it was shown it while it waited. -/
def Heeds (past : List (ClientDone claudeHost)) : ClientCall claudeHost → Prop
  | .ask (.rewake (some message) _) => Heard F verify me past message
  | _ => True

/-- No call that starts a turn. -/
def StartsNothing : ClientCall claudeHost → Prop
  | .ask (.rewake ..) => False
  | _ => True

variable {F} {verify} {me}

theorem StartsNothing.heeds {past : List (ClientDone claudeHost)} {op : ClientCall claudeHost}
    (nothing : StartsNothing op) : Heeds F verify me past op := by
  cases op with
  | ask question =>
    cases question with
    | rewake message prompt => exact absurd nothing id
    | _ => trivial
  | _ => trivial

/-- A call that leaves a waiting hook what it was shown. -/
def KeepsHeard : ClientCall claudeHost → Prop
  | .ask (.rewake ..) => False
  | .request (.presence status _ _) => status ≠ "waiting"
  | _ => True

/-- The hook waits. -/
def Waits (F : FloatFormat) (verify : String → List UInt8 → String → Bool) (me : Authed)
    (past : List (ClientDone claudeHost)) : Prop := ∃ ids, heard F verify me past = some ids

variable {past : List (ClientDone claudeHost)} {op : ClientCall claudeHost} {answer : op.Res}

theorem heard_kept (keeps : KeepsHeard op) {ids : List (String × String)} (is : heard F verify me past = some ids) :
    ∃ more, heard F verify me (⟨op, answer⟩ :: past) = some (ids ++ more) := by
  have after : heard F verify me (⟨op, answer⟩ :: past) = shownAfter F verify me op answer (some ids) :=
    congrArg _ is
  rw [after]
  cases op with
  | request frame =>
    cases frame with
    | presence status activity attention => exact ⟨[], (if_neg keeps).trans (by rw [List.append_nil])⟩
    | _ => exact ⟨_, rfl⟩
  | ask question =>
    cases question with
    | rewake message prompt => exact absurd keeps id
    | _ => exact ⟨_, rfl⟩
  | _ => exact ⟨_, rfl⟩

theorem Waits.keeps (waits : Waits F verify me past) (keeps : KeepsHeard op) :
    Waits F verify me (⟨op, answer⟩ :: past) := by
  obtain ⟨ids, is⟩ := waits
  obtain ⟨more, after⟩ := heard_kept keeps is
  exact ⟨_, after⟩

theorem Heard.keeps {message : StoredMessage} (heard : Heard F verify me past message) (keeps : KeepsHeard op) :
    Heard F verify me (⟨op, answer⟩ :: past) message := by
  intro id signed
  obtain ⟨ids, is, own⟩ := heard id signed
  obtain ⟨more, after⟩ := heard_kept keeps is
  exact ⟨_, after, List.mem_append_left _ own⟩

theorem KeepsHeard.heeds (keeps : KeepsHeard op) : Heeds F verify me past op := by
  apply StartsNothing.heeds
  cases op with
  | ask question =>
    cases question with
    | rewake message prompt => exact absurd keeps id
    | _ => trivial
  | _ => trivial

/-- What a pull brings was shown. -/
theorem pulled_heard {room : String} {since : Option Int} {limit : Option Nat} {wait : Option Nat} {ack : Option Int}
    (some_asked : limit ≠ some 0) (waits : Waits F verify me past) (a : MeshAgent) (reply : Option ServerFrame)
    {messages : List StoredMessage} (brought : (a.pulled room reply).2 = some messages) {m : StoredMessage}
    (member : m ∈ messages) (actionable : isActionable F verify m room me = true) :
    Heard F verify me (⟨ClientCall.request (.pull room since limit wait ack), reply⟩ :: past) m := by
  intro id signed
  obtain ⟨ids, is⟩ := waits
  have after : heard F verify me (⟨ClientCall.request (.pull room since limit wait ack), reply⟩ :: past) =
      some (ids ++ shownBy F verify me (.request (.pull room since limit wait ack)) reply) := congrArg _ is
  refine ⟨_, after, List.mem_append_right _ ?_⟩
  rcases a.pulled_cases room reply with ⟨room', messages', cursor, rfl, same⟩ | same
  · rw [same] at brought
    obtain rfl := Option.some.inj brought
    show id ∈ if limit = some 0 then _ else _
    rw [if_neg some_asked]
    exact List.mem_filterMap.mpr ⟨m, List.mem_filter.mpr ⟨member, actionable⟩, signed⟩
  · rw [same] at brought
    cases brought

/-- What a hook that ends starts a turn for, if it starts one for a message, it was shown. -/
def WakeHeard (F : FloatFormat) (verify : String → List UInt8 → String → Bool) (me : Authed) (wake : Wake)
    (past : List (ClientDone claudeHost)) : Prop :=
  ∀ message prompt, wake = some (some message, prompt) → Heard F verify me past message

/-- The messages that a pull has brought. -/
def PullHeard (F : FloatFormat) (verify : String → List UInt8 → String → Bool) (me : Authed) (room : String)
    (messages : List StoredMessage) (past : List (ClientDone claudeHost)) : Prop :=
  Waits F verify me past ∧
    ∀ m ∈ messages, isActionable F verify m room me = true → Heard F verify me past m

variable {room : String}

theorem PullHeard.keeps {messages : List StoredMessage} (brought : PullHeard F verify me room messages past)
    (keeps : KeepsHeard op) : PullHeard F verify me room messages (⟨op, answer⟩ :: past) :=
  ⟨brought.1.keeps keeps, fun m member actionable => (brought.2 m member actionable).keeps keeps⟩

theorem brought_nil (waits : Waits F verify me past) : PullHeard F verify me room [] past := ⟨waits, nofun⟩

/-! ## Asking -/

section Ask

variable {α : Type} {C : List (ClientDone claudeHost) → ClientCall claudeHost → Prop}
  {I : α → List (ClientDone claudeHost) → Prop} {question : HookAsk} {f : question.Answer → HookClient α}

theorem askHook_upholds (allowed : C past (.ask question))
    (rest : ∀ answer, (f answer).Upholds C I (⟨ClientCall.ask question, answer⟩ :: past)) :
    (askHook question >>= f).Upholds C I past := ⟨allowed, rest⟩

theorem askHook_follows (allowed : C past (.ask question))
    (rest : ∀ answer, (f answer).Follows C (⟨ClientCall.ask question, answer⟩ :: past)) :
    (askHook question >>= f).Follows C past := ⟨allowed, rest⟩

theorem askHook_calls {Q : ClientCall claudeHost → Prop} (allowed : Q (.ask question))
    (rest : ∀ answer, (f answer).Calls Q) : (askHook question >>= f).Calls Q := ⟨allowed, rest⟩

end Ask

/-! ## The waiting hook -/

theorem pulls_brought (a : MeshAgent) (wait : Option Nat) (now : Waits F verify me past) :
    (Prog.call (ClientCall.request (.pull room none (some 1) wait (a.ackFor room))) fun reply =>
        .ret (a.pulled room reply) : HookClient (MeshAgent × Option (List StoredMessage))).Upholds
      (Heeds F verify me) (fun pulled past => PullHeard F verify me room (pulled.2.getD []) past) past := by
  refine ⟨trivial, fun reply => ⟨now.keeps trivial, ?_⟩⟩
  intro m member
  cases brought : (a.pulled room reply).2 with
  | none =>
    rw [brought] at member
    cases member
  | some messages =>
    rw [brought] at member
    exact pulled_heard (by simp) now a reply brought member

theorem pullWait_brought (a : MeshAgent) (waits : Nat) (now : Waits F verify me past) :
    (a.pullWait (askHook .budget) room (some 1) waits).Upholds (Heeds F verify me)
      (fun pulled past => PullHeard F verify me room (pulled.2.getD []) past) past := by
  induction waits generalizing a past with
  | zero => exact pulls_brought a none now
  | succ waits ih =>
    refine Prog.Upholds.bind (pulls_brought a none now) ?_
    rintro ⟨a, result⟩ past first
    match result, first with
    | none, first => exact first
    | some (_ :: _), first => exact first
    | some [], first =>
      refine askHook_upholds trivial (fun chunk => ?_)
      have later : Waits F verify me (⟨ClientCall.ask .budget, chunk⟩ :: past) := first.1.keeps trivial
      match chunk with
      | none => exact brought_nil later
      | some chunk =>
        refine Prog.Upholds.bind (pulls_brought a (some chunk) later) ?_
        rintro ⟨a, result⟩ past second
        match result, second with
        | none, second => exact second
        | some (_ :: _), second => exact second
        | some [], second => exact ih a second.1

theorem wakeHeard_none : WakeHeard F verify me none past := nofun

/-- How the messages of one pull end. -/
def WatchHeard (F : FloatFormat) (verify : String → List UInt8 → String → Bool) (me : Authed) :
    Watched → List (ClientDone claudeHost) → Prop
  | .on _, past => Waits F verify me past
  | .ended wake, past => WakeHeard F verify me wake past

theorem waits_waiting {activity : Option String} {attention : Option Attention} {reply : Option ServerFrame} :
    Waits F verify me (⟨ClientCall.request (.presence "waiting" activity attention), reply⟩ :: past) := by
  refine ⟨[], ?_⟩
  show (if "waiting" = "waiting" then some [] else heard F verify me past) = some []
  exact if_pos rfl

theorem watchMessages_upholds (session : String) (generation : Nat) (a : MeshAgent)
    (messages : List StoredMessage) (brought : PullHeard F verify me room messages past) :
    (watchMessages F verify me room session generation a messages).Upholds (Heeds F verify me)
      (WatchHeard F verify me) past := by
  induction messages generalizing a past with
  | nil => exact brought.1
  | cons message rest ih =>
    refine askHook_upholds trivial (fun state => ?_)
    replace brought : PullHeard F verify me room (message :: rest)
      (⟨ClientCall.ask (.readState session), state⟩ :: past) := brought.keeps trivial
    split
    · exact wakeHeard_none
    · split
      · -- the message is passed over
        refine Prog.Upholds.bind (commitReads_upholds (J := PullHeard F verify me room (message :: rest)) brought
          (fun _ => ⟨fun _ _ => trivial, fun _ _ now => now.keeps trivial⟩)) ?_
        rintro ⟨a, committed⟩ past ⟨brought, -⟩
        cases committed with
        | none => exact wakeHeard_none
        | some _ =>
          exact ih a ⟨brought.1, fun m member => brought.2 m (List.mem_cons_of_mem _ member)⟩
      · rename_i actionable
        have shown := brought.2 message List.mem_cons_self (by simpa using actionable)
        refine askHook_upholds trivial (fun prompt => askHook_upholds trivial (fun accepted => ?_))
        replace shown : Heard F verify me
            (⟨ClientCall.ask (.livePrompt message), prompt⟩ ::
              ⟨ClientCall.ask (.readState session), state⟩ :: past) message := shown.keeps trivial
        replace shown : Heard F verify me
            (⟨ClientCall.ask (.modify session (.accept generation message.id)), accepted⟩ ::
              ⟨ClientCall.ask (.livePrompt message), prompt⟩ ::
              ⟨ClientCall.ask (.readState session), state⟩ :: past) message := shown.keeps trivial
        match accepted with
        | none => exact wakeHeard_none
        | some false => exact wakeHeard_none
        | some true =>
          have working :
              KeepsHeard (.request (.presence "working" (some ("live conversation '" ++ room ++ "'")) none)) :=
            fun same => absurd same (by decide)
          refine Prog.Upholds.bind (presence_upholds (J := fun past => Heard F verify me past message)
            ⟨fun _ _ => trivial, fun _ _ now => now.keeps working⟩ shown) ?_
          rintro _ past shown m text ⟨⟩
          exact shown

theorem watchLoop_upholds (session : String) (generation waits rounds : Nat) (a : MeshAgent)
    (now : Waits F verify me past) :
    (watchLoop F verify me room session generation waits rounds a).Upholds (Heeds F verify me)
      (WakeHeard F verify me) past := by
  induction rounds generalizing a past with
  | zero => exact wakeHeard_none
  | succ rounds ih =>
    refine askHook_upholds trivial (fun state => ?_)
    replace now : Waits F verify me (⟨ClientCall.ask (.readState session), state⟩ :: past) := now.keeps trivial
    split
    · exact wakeHeard_none
    · refine Prog.Upholds.bind (pullWait_brought a waits now) ?_
      rintro ⟨a, result⟩ past brought
      cases result with
      | none => exact wakeHeard_none
      | some messages =>
        refine Prog.Upholds.bind (watchMessages_upholds session generation a messages brought) ?_
        intro watched past ends
        cases watched with
        | on a => exact ih a ends
        | ended wake => exact ends

/-- A hook waits from its `waiting` presence on, whatever it did before. -/
theorem waitForPeer_upholds (session : String) (waits rounds : Nat) (a : MeshAgent)
    (past : List (ClientDone claudeHost)) :
    (waitForPeer F verify me room session waits rounds a).Upholds (Heeds F verify me)
      (WakeHeard F verify me) past := by
  refine askHook_upholds trivial (fun state => ?_)
  cases (state : Option HookState) with
  | none => exact wakeHeard_none
  | some state =>
    refine Prog.Upholds.bind (J := fun _ past => Waits F verify me past) ?_
      (fun _ past now => watchLoop_upholds session state.generation waits rounds a now)
    refine ⟨trivial, fun reply => ?_⟩
    dsimp only
    split <;> exact waits_waiting

/-! ## The other calls of a hook -/

theorem startTurn_upholds (session : String) (bootstrap : Bootstrap) (past : List (ClientDone claudeHost)) :
    (startTurn room session bootstrap).Upholds (Heeds F verify me)
      (fun started past => ∀ wake, started = some wake → WakeHeard F verify me wake past) past := by
  unfold startTurn
  refine Prog.Upholds.bind (J := fun _ _ => True) ?_ ?_
  · cases bootstrap.commitCursor with
    | none => trivial
    | some cursor => exact ⟨trivial, fun _ => trivial⟩
  · intro adopted past _
    cases adopted with
    | none =>
      rintro wake ⟨⟩
      exact wakeHeard_none
    | some adopted =>
      cases bootstrap.prompt with
      | none =>
        intro wake impossible
        cases impossible
      | some prompt =>
        refine Prog.Upholds.bind (presence_upholds (J := fun _ => True)
          ⟨fun _ _ => trivial, fun _ _ _ => trivial⟩ trivial) ?_
        rintro _ past - wake ⟨⟩ message text impossible
        cases impossible

theorem commitThrough_calls (a : MeshAgent) (cursor : Int) :
    (a.commitThrough room cursor : HookClient (MeshAgent × Option Unit)).Calls StartsNothing := by
  unfold MeshAgent.commitThrough
  split
  · trivial
  · refine ⟨trivial, fun reply => ?_⟩
    dsimp only
    split <;> trivial

theorem sendPost_calls (post : Post) : (sendPost room post).Calls StartsNothing := by
  refine Prog.Calls.bind ⟨trivial, fun drawn => ?_⟩ (fun _ => trivial)
  cases (drawn : Option Signed) with
  | none => trivial
  | some signed =>
    refine ⟨trivial, fun reply => ?_⟩
    dsimp only
    split <;> trivial

theorem pullPendingMessage_calls (expected : String) (tries : Nat) (a : MeshAgent) :
    (pullPendingMessage F verify me room expected tries a).Calls StartsNothing := by
  induction tries generalizing a with
  | zero => trivial
  | succ tries ih =>
    refine Prog.Calls.bind ⟨trivial, fun _ => trivial⟩ (fun pulled => ?_)
    split
    · trivial
    · trivial
    · split
      · trivial
      · split
        · trivial
        · refine Prog.Calls.bind (commitThrough_calls _ _) (fun committed => ?_)
          cases committed.2 with
          | none => trivial
          | some _ => exact ih committed.1

theorem sendInjectedResult_calls (readHandoff : String → Option HandoffRef) (room : String)
    (message : StoredMessage) (answer : String) :
    (sendInjectedResult readHandoff room message answer).Calls StartsNothing := by
  rw [sendInjectedResult]
  split
  · trivial
  · exact sendPost_calls _

-- Lean would try to decide whether the answer is blank.
attribute [local irreducible] sendInjectedResult

theorem settleTurn_calls (readHandoff : String → Option HandoffRef) (tries : Nat) (a : MeshAgent)
    (snapshot : HookState) (answer : String) :
    (settleTurn F verify readHandoff me room tries a snapshot answer).Calls StartsNothing := by
  unfold settleTurn
  rcases snapshot.pending with _ | cursor | id
  · dsimp only
    split
    · trivial
    · exact Prog.Calls.bind (sendPost_calls _) (fun _ => trivial)
  · refine Prog.Calls.bind (commitThrough_calls a cursor) (fun committed => ?_)
    cases committed.2 with
    | none => trivial
    | some _ =>
      dsimp only
      split
      · trivial
      · exact Prog.Calls.bind (sendPost_calls _) (fun _ => trivial)
  · refine Prog.Calls.bind (pullPendingMessage_calls id tries a) (fun pulled => ?_)
    cases pulled.2 with
    | none => trivial
    | some message =>
      refine Prog.Calls.bind (sendInjectedResult_calls _ _ _ _) (fun sent => ?_)
      cases sent with
      | none => trivial
      | some _ => exact commitReads_calls (fun _ => trivial) pulled.1

theorem completeTurn_calls (readHandoff : String → Option HandoffRef) (tries : Nat) (session answer : String)
    (a : MeshAgent) :
    (completeTurn F verify readHandoff me room tries session answer a).Calls StartsNothing := by
  refine askHook_calls trivial (fun snapshot => ?_)
  cases (snapshot : Option HookState) with
  | none => trivial
  | some snapshot =>
    refine Prog.Calls.bind (settleTurn_calls readHandoff tries a snapshot answer) (fun settled => ?_)
    cases settled.2 with
    | none => trivial
    | some _ => exact askHook_calls trivial (fun _ => trivial)

theorem watchRoom_upholds (readHandoff : String → Option HandoffRef) (input : HookInput) (tries waits rounds : Nat)
    (past : List (ClientDone claudeHost)) :
    (watchRoom F verify readHandoff me room input tries waits rounds).Upholds (Heeds F verify me)
      (WakeHeard F verify me) past := by
  refine askHook_upholds trivial (fun connected => ?_)
  cases (connected : Option Unit) with
  | none => exact wakeHeard_none
  | some _ =>
    dsimp only
    split
    · refine askHook_upholds trivial (fun bootstrap => ?_)
      match (bootstrap : Option (Option Bootstrap)) with
      | none => exact wakeHeard_none
      | some none => exact waitForPeer_upholds _ waits rounds _ _
      | some (some bootstrap) =>
        refine Prog.Upholds.bind (startTurn_upholds _ bootstrap _) ?_
        intro started past ends
        cases started with
        | none => exact waitForPeer_upholds _ waits rounds _ _
        | some wake => exact ends wake rfl
    · split
      · have settles : ∀ past, (completeTurn F verify readHandoff me room tries input.sessionId
            (input.lastAssistantMessage.getD "") .fresh).Upholds (Heeds F verify me) (fun _ _ => True) past := by
          intro past
          have calls := @completeTurn_calls F verify me room readHandoff tries input.sessionId
            (input.lastAssistantMessage.getD "") .fresh
          exact calls.upholds (J := fun _ => True) (fun _ _ nothing _ => nothing.heeds)
            (fun _ _ _ _ _ => trivial) (fun _ _ _ => trivial) trivial
        refine Prog.Upholds.bind (settles _) ?_
        intro completed past _
        cases completed.2 with
        | none => exact wakeHeard_none
        | some _ => exact waitForPeer_upholds _ waits rounds _ _
      · exact waitForPeer_upholds _ waits rounds _ _

/-- A hook starts a turn for a message only if it was shown it while it waited. -/
theorem wakeHook_follows (readHandoff : String → Option HandoffRef) (input : HookInput) (tries waits rounds : Nat) :
    (wakeHook F verify readHandoff me input tries waits rounds).Follows (Heeds F verify me) [] := by
  refine askHook_follows trivial (fun watches => ?_)
  rcases (watches : Option Bool) with _ | _ | _
  · trivial
  · trivial
  · refine askHook_follows trivial (fun lock => ?_)
    rcases (lock : Option Bool) with _ | _ | _
    · trivial
    · trivial
    · refine Prog.Upholds.follows (I := fun _ _ => True) (Prog.Upholds.bind (J := WakeHeard F verify me) ?_ ?_)
      · refine askHook_upholds trivial (fun room => ?_)
        cases (room : Option String) with
        | none => exact wakeHeard_none
        | some room => exact watchRoom_upholds readHandoff input tries waits rounds _
      · intro wake past ends
        refine askHook_upholds trivial (fun dropped => ?_)
        rcases wake with _ | ⟨_ | message, prompt⟩
        · trivial
        · exact ⟨trivial, fun _ => trivial⟩
        · exact ⟨(ends message prompt rfl).keeps trivial, fun _ => trivial⟩

end Discipline

/-! ## All hooks -/

section All

variable (F : FloatFormat) (verify : String → List UInt8 → String → Bool) (me : Authed)

/-- The requests of peers that an event is about to show a waiting hook, and the hook. -/
def newlyShown (w : VisibleHosts) : HostEvent → Option WaitingHook
  | .stepHook n answers _ =>
      match w.hooks n with
      | some (.call op _) =>
          (shownTo w.waiting n).map (fun _ => ⟨n, shownBy F verify me op (answers op)⟩)
      | _ => none
  | _ => none

/-- The hub shows a waiting hook no request that hooks started a turn for, with fewer than `REPLAY_CAP` others
    since, and none that another waiting hook has got. -/
def Unreplayed (w : VisibleHosts) (e : HostEvent) : Prop :=
  ∀ h ∈ newlyShown F verify me w e, ∀ id ∈ h.shown,
    Spaced w.claudeTurns id ∧ ∀ h' ∈ w.waiting, h'.hook ≠ h.hook → id ∉ h'.shown

instance (w : VisibleHosts) (e : HostEvent) : Decidable (Unreplayed F verify me w e) := by
  unfold Unreplayed
  infer_instance

/-- Hooks start turns for what they were shown, and were shown nothing twice. -/
structure Hooked (w : VisibleHosts) : Prop where
  going : ∀ n, ∃ past, (∀ p, w.hooks n = some p → p.Follows (Heeds F verify me) past) ∧
    (w.hooks n = none → past = []) ∧ shownTo w.waiting n = heard F verify me past
  fresh : ShownOnce w.waiting w.claudeTurns
  once : ClaudeOnce w.claudeTurns

variable {F} {verify} {me} {readHandoff : String → Option HandoffRef} {w w' : VisibleHosts} {n : Nat}

theorem hooked_start (dir : HookDir) : Hooked F verify me (.start dir) := by
  refine ⟨fun n => ⟨[], nofun, fun _ => rfl, rfl⟩, ⟨nofun, nofun⟩, ?_⟩
  intro newer id older split
  cases newer <;> cases split

/-- What an event leaves of the hooks. -/
theorem Hooked.same (hooked : Hooked F verify me w) (hooks : w'.hooks = w.hooks)
    (waiting : w'.waiting = w.waiting) (turns : w'.claudeTurns = w.claudeTurns) : Hooked F verify me w' := by
  constructor
  · rw [hooks, waiting]
    exact hooked.going
  · rw [waiting, turns]
    exact hooked.fresh
  · rw [turns]
    exact hooked.once

/-- A hook that goes on as it may, or has ended. -/
theorem Hooked.resume (hooked : Hooked F verify me w) {p : HookClient Unit} (past : List (ClientDone claudeHost))
    (others : ∀ m, m ≠ n → w'.hooks m = w.hooks m ∧ shownTo w'.waiting m = shownTo w.waiting m)
    (follows : p.Follows (Heeds F verify me) past) (is : shownTo w'.waiting n = heard F verify me past)
    (fresh : ShownOnce w'.waiting w'.claudeTurns) (once : ClaudeOnce w'.claudeTurns) :
    Hooked F verify me (w'.resumeHook n p) := by
  have beside : ∀ m, m ≠ n → (w'.resumeHook n p).hooks m = w.hooks m :=
    fun m other => (Function.update_of_ne other _ _).trans (others m other).1
  cases p with
  | ret value =>
    refine ⟨fun m => ?_, fresh.leave, once⟩
    by_cases same : m = n
    · subst same
      refine ⟨[], ?_, fun _ => rfl, shownTo_setShown_self⟩
      intro p resumed
      obtain rfl := Option.some.inj ((Function.update_self m _ _).symm.trans resumed)
      trivial
    · rw [beside m same]
      have away : shownTo (w'.resumeHook n (.ret value)).waiting m = shownTo w.waiting m :=
        (shownTo_setShown_other same).trans (others m same).2
      rw [away]
      exact hooked.going m
  | call op next =>
    refine ⟨fun m => ?_, fresh, once⟩
    by_cases same : m = n
    · subst same
      have resumed : (w'.resumeHook m (.call op next)).hooks m = some (.call op next) :=
        Function.update_self m _ _
      rw [resumed]
      refine ⟨past, ?_, nofun, is⟩
      rintro p ⟨⟩
      exact follows
    · rw [beside m same]
      have away : shownTo (w'.resumeHook n (.call op next)).waiting m = shownTo w.waiting m := (others m same).2
      rw [away]
      exact hooked.going m

/-- What a call adds to what a hook was shown. -/
theorem shownAfter_cases {op : ClientCall claudeHost} {answer : op.Res} {shown : Option (List (String × String))}
    {ids : List (String × String)} (after : shownAfter F verify me op answer shown = some ids) :
    ids = [] ∨ ∃ old, shown = some old ∧ (ids = old ∨ ids = old ++ shownBy F verify me op answer) := by
  have grows : shown.map (· ++ shownBy F verify me op answer) = some ids →
      ids = [] ∨ ∃ old, shown = some old ∧ (ids = old ∨ ids = old ++ shownBy F verify me op answer) := by
    intro grown
    obtain ⟨old, had, rfl⟩ := Option.map_eq_some_iff.mp grown
    exact .inr ⟨old, had, .inr rfl⟩
  cases op with
  | request frame =>
    cases frame with
    | presence status activity attention =>
      by_cases waits : status = "waiting"
      · exact .inl (Option.some.inj ((if_pos waits).symm.trans after)).symm
      · exact .inr ⟨ids, (if_neg waits).symm.trans after, .inl rfl⟩
    | _ => exact grows after
  | ask question =>
    cases question with
    | rewake message prompt => cases after
    | _ => exact grows after
  | _ => exact grows after

/-- A call that starts no turn. -/
theorem ShownOnce.after {waiting : List WaitingHook} {turns : List (String × String)} (fresh : ShownOnce waiting turns)
    {op : ClientCall claudeHost} {answer : op.Res}
    (new : ∀ ids, shownTo waiting n = some ids → ∀ id ∈ shownBy F verify me op answer,
      Spaced turns id ∧ ∀ h ∈ waiting, h.hook ≠ n → id ∉ h.shown) :
    ShownOnce (setShown waiting n (shownAfter F verify me op answer (shownTo waiting n))) turns := by
  refine fresh.set (fun ids after id own => ?_)
  have known : ∀ old, shownTo waiting n = some old → id ∈ old →
      Spaced turns id ∧ ∀ h ∈ waiting, h.hook ≠ n → id ∉ h.shown := by
    intro old is member
    have row := mem_of_shownTo is
    exact ⟨fresh.spaced _ row id member, fun h listed other => fresh.apart _ row h listed other.symm id member⟩
  rcases shownAfter_cases after with rfl | ⟨old, is, rfl | rfl⟩
  · cases own
  · exact known ids is own
  · rcases List.mem_append.mp own with member | member
    · exact known old is member
    · exact new old is id member

/-- The step lemma of a hook. -/
theorem Hooked.callHook (hooked : Hooked F verify me w) (answers : (op : ClientCall claudeHost) → op.Res)
    (fault : Bool) {op : ClientCall claudeHost} {next : op.Res → HookClient Unit}
    (is : w.hooks n = some (.call op next)) (unreplayed : Unreplayed F verify me w (.stepHook n answers fault)) :
    Hooked F verify me (w.callHook F verify me n answers fault op next) := by
  obtain ⟨past, follows, -, shown⟩ := hooked.going n
  obtain ⟨allowed, rest⟩ := follows _ is
  -- what the hook is shown beside, if it is the answer of the hub
  have new : ∀ ids, shownTo w.waiting n = some ids → ∀ id ∈ shownBy F verify me op (answers op),
      Spaced w.claudeTurns id ∧ ∀ h ∈ w.waiting, h.hook ≠ n → id ∉ h.shown := by
    intro ids waits
    refine unreplayed ⟨n, shownBy F verify me op (answers op)⟩ ?_
    show newlyShown F verify me w (.stepHook n answers fault) = _
    unfold newlyShown
    dsimp only
    rw [is, waits]
    rfl
  have others : ∀ (dir : HookDir) turns (answer : op.Res) m, m ≠ n →
      ({ w with
          dir := dir
          claudeTurns := turns
          waiting := setShown w.waiting n
            (shownAfter F verify me op answer (shownTo w.waiting n)) } : VisibleHosts).hooks m = w.hooks m ∧
        shownTo (setShown w.waiting n (shownAfter F verify me op answer (shownTo w.waiting n))) m =
          shownTo w.waiting m :=
    fun _ _ _ _ other => ⟨rfl, shownTo_setShown_other other⟩
  have after : ∀ answer : op.Res,
      shownTo (setShown w.waiting n (shownAfter F verify me op answer (shownTo w.waiting n))) n =
        heard F verify me (⟨op, answer⟩ :: past) := by
    intro answer
    rw [shownTo_setShown_self, shown]
    rfl
  cases op with
  | ask question =>
    -- a question shows nothing
    have keeps : ∀ answer : question.Answer,
        ShownOnce (setShown w.waiting n (shownAfter F verify me (.ask question) answer (shownTo w.waiting n)))
          w.claudeTurns := fun answer => hooked.fresh.after nofun
    cases question with
    | rewake message prompt =>
      cases message with
      | none =>
        exact hooked.resume (⟨ClientCall.ask (.rewake none prompt), ()⟩ :: past) (others _ _ _) (rest ()) (after ())
          (keeps ()) hooked.once
      | some message =>
        cases signed : signedId message with
        | none =>
          refine hooked.resume (⟨ClientCall.ask (.rewake (some message) prompt), ()⟩ :: past) (others _ _ _) (rest ())
            (after ()) ?_ ?_
          · show ShownOnce _ ((signedId message).toList ++ w.claudeTurns)
            rw [signed]
            exact keeps ()
          · show ClaudeOnce ((signedId message).toList ++ w.claudeTurns)
            rw [signed]
            exact hooked.once
        | some id =>
          obtain ⟨ids, had, own⟩ := allowed id signed
          have waits : shownTo w.waiting n = some ids := shown.trans had
          refine hooked.resume (⟨ClientCall.ask (.rewake (some message) prompt), ()⟩ :: past) (others _ _ _) (rest ())
            (after ()) ?_ ?_
          · show ShownOnce _ ((signedId message).toList ++ w.claudeTurns)
            rw [signed]
            exact hooked.fresh.turn waits own
          · show ClaudeOnce ((signedId message).toList ++ w.claudeTurns)
            rw [signed]
            exact claudeOnce_cons.mpr ⟨hooked.once, hooked.fresh.spaced _ (mem_of_shownTo waits) id own⟩
    | _ => exact hooked.resume (⟨_, _⟩ :: past) (others _ _ _) (rest _) (after _) (keeps _) hooked.once
  | _ =>
    exact hooked.resume (⟨_, _⟩ :: past) (others w.dir w.claudeTurns _) (rest _) (after _)
      (hooked.fresh.after new) hooked.once

/-- The step lemma. -/
theorem Hooked.step (hooked : Hooked F verify me w) (e : HostEvent) (unreplayed : Unreplayed F verify me w e) :
    Hooked F verify me (w.step F verify readHandoff me e) := by
  cases e with
  | startLoop m adapter room waits rounds =>
    unfold VisibleHosts.step
    dsimp only
    split
    · exact hooked
    · exact hooked.same rfl rfl rfl
  | stepLoop m answers fault =>
    unfold VisibleHosts.step
    dsimp only
    split
    · rename_i adapter op next is
      cases op with
      | ask question => cases question <;> exact hooked.same rfl rfl rfl
      | _ => exact hooked.same rfl rfl rfl
    · exact hooked
  | startHook m input tries waits rounds =>
    unfold VisibleHosts.step
    dsimp only
    split
    · exact hooked
    · rename_i ended
      obtain ⟨past, -, started, shown⟩ := hooked.going m
      obtain rfl := started ended
      exact hooked.resume [] (fun _ _ => ⟨rfl, rfl⟩) (wakeHook_follows readHandoff input tries waits rounds) shown
        hooked.fresh hooked.once
  | stepHook m answers fault =>
    unfold VisibleHosts.step
    dsimp only
    split
    · rename_i op next is
      exact hooked.callHook answers fault is unreplayed
    · exact hooked
  | stop m =>
    refine ⟨fun k => ?_, hooked.fresh.leave, hooked.once⟩
    by_cases same : k = m
    · subst same
      refine ⟨[], ?_, fun _ => rfl, shownTo_setShown_self⟩
      intro p is
      simp [VisibleHosts.step] at is
    · have beside : (w.step F verify readHandoff me (.stop m)).hooks k = w.hooks k :=
        Function.update_of_ne same _ _
      have away : shownTo (w.step F verify readHandoff me (.stop m)).waiting k = shownTo w.waiting k :=
        shownTo_setShown_other same
      rw [beside, away]
      exact hooked.going k
  | files dir => exact hooked.same rfl rfl rfl

end All

/-! ## At most one turn for a message -/

/-- Whatever the hub answers, and however processes start, stop and interleave, the receiving tasks of
    Codex and OpenCode start no second turn for a signed message while the ledger has its key. All three
    adapters together do so as long as the hub shows no waiting hook a request that hooks have had. -/
theorem replays_start_nothing (F : FloatFormat) (verify : String → List UInt8 → String → Bool)
    (readHandoff : String → Option HandoffRef) (me : Authed) (dir : HookDir) (run : List HostEvent) :
    Throughout (fun w e => w.step F verify readHandoff me e) LoopOnce (.start dir) run ∧
      (EachStep (fun w e => w.step F verify readHandoff me e) (Unreplayed F verify me) (.start dir) run →
        Throughout (fun w e => w.step F verify readHandoff me e)
          (fun w => LoopOnce w ∧ ClaudeOnce w.claudeTurns) (.start dir) run) := by
  constructor
  · have tracked : Throughout (fun w e => w.step F verify readHandoff me e) (Tracked F verify) (.start dir) run :=
      throughout_of_keeps (Q := fun _ _ => True) (fun _ e own _ => own.step e) (tracked_start dir)
        (eachStep_iff.mpr (fun _ _ _ => trivial))
    exact tracked.mono (fun _ own => own.loopOnce)
  · intro unreplayed
    have both : Throughout (fun w e => w.step F verify readHandoff me e)
        (fun w => Tracked F verify w ∧ Hooked F verify me w) (.start dir) run :=
      throughout_of_keeps (fun _ e own fresh => ⟨own.1.step e, own.2.step e fresh⟩)
        ⟨tracked_start dir, hooked_start dir⟩ unreplayed
    exact both.mono (fun _ own => ⟨own.1.loopOnce, own.2.once⟩)

/-- A hub that shows some messages, and a host that asks for no waiting. -/
def shownAnswers (shown : List StoredMessage) : (op : ClientCall claudeHost) → op.Res
  | .request (.pull ..) => some (.pulled "r" shown 7)
  | .request (.send ..) => some (.sent "m9" 9 "r")
  | .request _ => some .presenceOk
  | .admitMessage _ => none
  | .complete _ => ()
  | .release _ => none
  | .sign .. => some ⟨"s", 0, "u", "c"⟩
  | .ask (.modify ..) => none
  | .ask (.readState _) => none
  | .ask (.removeState ..) => none
  | .ask (.acquireWatch _) => none
  | .ask (.dropWatch _) => ()
  | .ask .activeSession => none
  | .ask .connect => some ()
  | .ask .takeBootstrap => none
  | .ask (.livePrompt _) => "continue"
  | .ask .budget => none
  | .ask (.rewake ..) => ()

/-- A session starts and answers a message; when it stops, the hub shows it the messages `shown`. -/
def wakeRun (shown : List StoredMessage) : List HostEvent :=
  [HostEvent.startHook 0 ⟨"s", "SessionStart", some "startup", none, none⟩ 1 0 1] ++
    List.replicate 15 (HostEvent.stepHook 0 (shownAnswers [numbered 1]) false) ++
    [HostEvent.startHook 1 ⟨"s", "Stop", none, none, some "done"⟩ 1 0 1] ++
    List.replicate 13 (HostEvent.stepHook 1 (shownAnswers [numbered 1]) false) ++
    List.replicate 7 (HostEvent.stepHook 1 (shownAnswers shown) false)

/-- The files of a hook in the conversation `r`. -/
def roomFiles : HookDir := ⟨fun _ => none, fun _ => none, none, some "r"⟩

/-- The next message starts the next turn. -/
theorem replays_start_nothing_demo :
    Throughout (fun w e => w.step bitsFormat acceptS (fun _ => none) ⟨"B", "bob", none⟩ e)
        (fun w => LoopOnce w ∧ ClaudeOnce w.claudeTurns) (.start roomFiles) (wakeRun [numbered 2]) ∧
      ((wakeRun [numbered 2]).foldl
        (fun (w : VisibleHosts) e => w.step bitsFormat acceptS (fun _ => none) ⟨"B", "bob", none⟩ e)
        (VisibleHosts.start roomFiles)).claudeTurns = [("A", "xx"), ("A", "x")] :=
  ⟨(replays_start_nothing bitsFormat acceptS (fun _ => none) ⟨"B", "bob", none⟩ roomFiles
      (wakeRun [numbered 2])).2 (by decide +kernel), by decide +kernel⟩

/-- The same signed message under another id, number and time of the hub. -/
def shownAgain : StoredMessage := { numbered 1 with seq := 8, id := "again", ts := 9 }

/-- Without a ledger the hooks start a second turn for a message that the hub shows again. -/
theorem replayed_message_starts_turn :
    ¬ ∀ (F : FloatFormat) (verify : String → List UInt8 → String → Bool)
      (readHandoff : String → Option HandoffRef) (me : Authed) (dir : HookDir) (run : List HostEvent),
      Throughout (fun w e => w.step F verify readHandoff me e)
        (fun w => LoopOnce w ∧ ClaudeOnce w.claudeTurns) (.start dir) run := by
  intro once
  have through := once bitsFormat acceptS (fun _ => none) ⟨"B", "bob", none⟩ roomFiles (wakeRun [shownAgain])
  have turns : ((wakeRun [shownAgain]).foldl
      (fun (w : VisibleHosts) e => w.step bitsFormat acceptS (fun _ => none) ⟨"B", "bob", none⟩ e)
      (VisibleHosts.start roomFiles)).claudeTurns = [("A", "x"), ("A", "x")] := by
    decide +kernel
  have last := (throughout_iff.mp through (wakeRun [shownAgain]) (List.prefix_refl _)).2
  rw [turns] at last
  have spaced := last [] ("A", "x") [("A", "x")] rfl [] [] rfl List.not_mem_nil
  exact absurd spaced (Nat.not_le.mpr ReplayWorld.replayCap_pos)

end Parler.Cli
