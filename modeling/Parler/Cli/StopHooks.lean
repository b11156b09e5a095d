import Parler.Cli.SuperviseLoops
import Parler.Connector.HeldTraffic

/-!
# The Stop hook and the lifecycle mirror

`cmd_hook` and `wake_hook` of `crates/parler-cli/src/lib.rs`. One hook of a Claude session posts what
the session does into its room, another waits at the end of a turn for messages of the room and has
the turn continue with them. What a mirror has posted is a signed message like any other.
-/

namespace Parler.Cli

open Parler.Lib Parler.Protocol Parler.Hub Parler.Connector

/-! ## The mirror -/

/-- The hooks that mirror the lifecycle of a session. -/
inductive Lifecycle where
  | sessionStart
  | sessionEnd
  | promptSubmit
  | toolUse
  deriving DecidableEq

def Lifecycle.parse (kind : String) : Option Lifecycle :=
  if kind = "session-start" ∨ kind = "SessionStart" then some .sessionStart
  else if kind = "session-end" ∨ kind = "SessionEnd" then some .sessionEnd
  else if kind ∈ ["user-prompt-submit", "UserPromptSubmit", "prompt-submit", "PromptSubmit"] then
    some .promptSubmit
  else if kind ∈ ["post-tool-use", "PostToolUse", "post-tool-use-failure", "PostToolUseFailure"] then
    some .toolUse
  else none

/-- The status and the activity of the presence. -/
def Lifecycle.presence : Lifecycle → String × Option String
  | .sessionStart => ("idle", none)
  | .sessionEnd => ("waiting", some "session ended")
  | .promptSubmit => ("working", some "responding to a prompt")
  | .toolUse => ("working", some "running tools")

/-- A key of the payload; `none` is a payload that is no object. -/
def payloadGet (payload : Option Map) (key : String) : Option Value :=
  payload.bind (fun fields => fields.lookup key)

/-- The first key of the payload that there is, where it is a text. -/
def payloadText (payload : Option Map) (keys : List String) (default : String) : String :=
  ((keys.findSome? (payloadGet payload)).bind (fun v => asStr v.json)).getD default

/-- `&text[..n]` with a mark where the text is longer; `none` is the panic inside a character. -/
def truncateAt (n : Nat) (text : String) : Option String :=
  if byteLen text > n then
    (String.fromUTF8? ⟨(text.toUTF8.toList.take n).toArray⟩).map (fun cut => cut ++ "\n[...truncated]")
  else some text

/-- The output of a tool as text. -/
def outputText (F : FloatFormat) (result : Json) : String :=
  match result with
  | .str text => text
  | .obj fields =>
      let field := fun key => (fields.find? (fun f => f.1 = key)).map Prod.snd
      (((field "text_result_for_llm").or (field "textResultForLlm")).bind asStr).getD
        (String.ofList (render F result))
  | _ => String.ofList (render F result)

def observationKind : String := "com.parler.observation"

/-- What a mirror posts: nothing for an empty prompt; `none` is a panic. -/
def mirrorParts (F : FloatFormat) (name kind : String) (payload : Option Map) :
    Lifecycle → Option (List Part)
  | .sessionStart => some [.text ("🚀 Session started by agent " ++ name ++ " in directory " ++
      payloadText payload ["cwd"] "")]
  | .sessionEnd => some [.text "👋 Session ended."]
  | .promptSubmit =>
      let prompt := trim (payloadText payload ["prompt", "text", "message"] "")
      if prompt = "" then some []
      else (truncateAt 1000 prompt).map (fun prompt => [.text ("💬 Prompt: " ++ prompt)])
  | .toolUse =>
      let input := (["tool_input", "toolArgs"].findSome? (payloadGet payload)).getD Map.empty.toValue
      let result := ((["tool_response", "tool_output", "toolResult"].findSome?
        (payloadGet payload)).map Value.json).getD .null
      let status := if "failure".toList <:+: kind.toList then "failure" else "success"
      (truncateAt 2000 (outputText F result)).map (fun output =>
        [.extension observationKind (Map.ofFields [("type", .str "tool"),
          ("tool_name", .str (payloadText payload ["tool_name", "toolName"] "unknown")),
          ("tool_input", input), ("tool_output", .str output), ("status", .str status)])])

/-! ## The hooks -/

inductive StopAsk where
  /-- Print the decision to continue the turn with the messages. -/
  | continueTurn (room : String) (messages : List StoredMessage)
  /-- The doorbell, a pause, or the deadline. -/
  | wait

def hookHost : Host where
  Ask := StopAsk
  Answer
    | .continueTurn .. => Unit
    | .wait => Option Bool

abbrev StopClient (α : Type) := Client hookHost α

/-- What a hook is run with: the agent and its policy, the active session, the kind and the payload,
    and whether a visible conversation has a hook of its own. -/
structure HookArgs where
  me : Authed
  attention : AttentionPolicy
  session : Option String
  kind : String
  payload : Option Map
  managed : Bool
  rounds : Nat

def HookArgs.isStop (args : HookArgs) : Prop :=
  args.kind ∈ ["stop", "Stop", "wake", "Wake"]

instance (args : HookArgs) : Decidable args.isStop := inferInstanceAs (Decidable (_ ∈ _))

section Program

variable (rt : ConnectorRuntime)

/-- `listen_until`, for a number of rounds. -/
def listenUntil (room : String) : Nat → MeshAgent → StopClient (Option Bool)
  | 0, _ => .ret none
  | rounds + 1, a =>
      rt.receive room .channel none a none >>= fun received =>
        match received.2 with
        | none => .ret none
        | some batch =>
            if batch.messages.isEmpty then
              .call (ClientCall.ask .wait) fun (waited : Option Bool) =>
                match waited with
                | none => .ret none
                | some false => .ret (some false)
                | some true => listenUntil room rounds received.1
            else
              .call (ClientCall.ask (.continueTurn room batch.messages)) fun _ =>
                .call (ClientCall.complete batch.messages) fun _ =>
                  (if batch.held then .ret (received.1, some ()) else received.1.commitReads room) >>=
                    fun committed => .ret (committed.2.map fun _ => true)

/-- `wake_hook` of the `Stop` hook. -/
def stopHook (args : HookArgs) : StopClient (Option Unit) :=
  if args.managed then .ret (some ())
  else
    match args.session with
    | none => .ret (some ())
    | some room =>
        presence "waiting" (some ("waiting in session " ++ room)) (some rt.attention.mode) >>= fun shown =>
          match shown with
          | none => .ret none
          | some _ =>
              .call (ClientCall.request .subscribe) fun _ =>
                listenUntil rt room args.rounds .fresh >>= fun woken => .ret (woken.map fun _ => ())

/-- The mirror; its error in sending is ignored. -/
def mirrorHook (args : HookArgs) : StopClient (Option Unit) :=
  match args.session, Lifecycle.parse args.kind with
  | some room, some hook =>
      presence hook.presence.1 hook.presence.2 (some rt.attention.mode) >>= fun shown =>
        match shown with
        | none => .ret none
        | some _ =>
            match mirrorParts rt.floats rt.me.name args.kind args.payload hook with
            | none => .ret none
            | some [] => .ret (some ())
            | some parts => send (.room room) parts none none >>= fun _ => .ret (some ())
  | _, _ => .ret (some ())

/-- `cmd_hook`, but for the hooks of a visible conversation. -/
def cmdHook (args : HookArgs) : StopClient (Option Unit) :=
  if args.isStop then stopHook rt args else mirrorHook rt args

end Program

/-! ## The sessions of a room -/

/-- A Stop hook waits in the room with a policy that wakes for everything in it. -/
def HookArgs.Listens (args : HookArgs) (room : String) : Prop :=
  args.isStop ∧ args.managed = false ∧ args.session = some room ∧ wakesForAll room args.attention

/-- A mirror posts the parts into the room. -/
structure HookArgs.Mirrors (F : FloatFormat) (args : HookArgs) (room : String) (parts : List Part) :
    Prop where
  noStop : ¬ args.isStop
  session : args.session = some room
  made : ∃ hook, Lifecycle.parse args.kind = some hook ∧
    mirrorParts F args.me.name args.kind args.payload hook = some parts
  nonempty : parts ≠ []

/-- A message that is sent to a room is in it, and a pull of a room brings messages of it. -/
def staysInRoom : ClientCall hookHost → StoredMessage → Prop
  | .request (.send (.room room) ..), m => m.room = room
  | .request (.pull room ..), m => m.room = room
  | _, _ => True

instance (op : ClientCall hookHost) (m : StoredMessage) : Decidable (staysInRoom op m) := by
  unfold staysInRoom
  split <;> infer_instance

/-- Sessions run their hooks; what an agent says on its own comes from outside. -/
def hookWall (F : FloatFormat) (verify : String → List UInt8 → String → Bool) :
    Wall (ClientCall hookHost) ClientCall.Res StoredMessage HookArgs (Option Unit) Unit Unit where
  boot args := cmdHook ⟨F, verify, args.me, args.attention⟩ args
  shared := ()
  begins _ _ shared := shared
  ends _ _ shared := shared
  serve _ _ op r _ shared := if ∀ m ∈ brought ⟨op, r⟩, staysInRoom op m then some shared else none
  shows op r := brought ⟨op, r⟩
  posts args op m := mayPost args.me op m ∧ staysInRoom op m
  fresh := newId

abbrev HookBoard := Board (ClientCall hookHost) ClientCall.Res StoredMessage HookArgs (Option Unit) Unit

namespace HookBoard

/-- A Stop hook has its turn continue with the messages. -/
def Continues (w : HookBoard) (n : Nat) (room : String) (messages : List StoredMessage) : Prop :=
  ∃ r : Unit, ⟨n, ⟨ClientCall.ask (.continueTurn room messages), r⟩⟩ ∈ w.log

/-- A mirror has posted the message. -/
def Mirrored (w : HookBoard) (m : StoredMessage) : Prop :=
  ∃ e ∈ w.entries, e.author ≠ none ∧ e.post = m

/-- An agent has posted the message on its own. -/
def Said (w : HookBoard) (m : StoredMessage) : Prop :=
  ∃ e ∈ w.entries, e.author = none ∧ e.post = m

/-- No Stop hook waits for everything in a room into which another agent mirrors. -/
def Calm (F : FloatFormat) (w : HookBoard) : Prop :=
  ∀ i j a b room parts, w.arguments i = some a → w.arguments j = some b → a.Listens room →
    b.Mirrors F room parts → a.me.id = b.me.id

end HookBoard

/-! ## What a hook does -/

def pulls (room : String) : ClientCall hookHost → Prop
  | .request (.pull pulled ..) => pulled = room
  | _ => False

/-- A pull of the room has brought the message. -/
def BroughtFrom (room : String) (past : List (ClientDone hookHost)) (m : StoredMessage) : Prop :=
  ∃ d ∈ past, pulls room d.1 ∧ m ∈ brought d

/-- The message was brought and wakes the runtime. -/
def Wakes (rt : ConnectorRuntime) (room : String) (past : List (ClientDone hookHost))
    (m : StoredMessage) : Prop :=
  BroughtFrom room past m ∧ rt.treats room .channel none m .wake

/-- The runtime of a hook. -/
abbrev hookRuntime (F : FloatFormat) (verify : String → List UInt8 → String → Bool) (args : HookArgs) :
    ConnectorRuntime := ⟨F, verify, args.me, args.attention⟩

/-- A Stop hook continues the turn for what wakes it only, and a mirror posts its parts only. -/
def hookRule (F : FloatFormat) (verify : String → List UInt8 → String → Bool) (args : HookArgs)
    (past : List (ClientDone hookHost)) : ClientCall hookHost → Prop
  | .ask (.continueTurn room messages) =>
      (args.isStop ∧ args.managed = false ∧ args.session = some room) ∧ messages ≠ [] ∧
        ∀ m ∈ messages, Wakes (hookRuntime F verify args) room past m
  | .request (.send target parts _ _ _) => ∃ room mirrored, ∃ sig : MessageSig,
      args.Mirrors F room mirrored ∧ target = .room room ∧ parts = unsigned mirrored ++ [sig.toPart]
  | _ => True

section Rules

variable {F : FloatFormat} {verify : String → List UInt8 → String → Bool} {args : HookArgs}
  {room : String} {past : List (ClientDone hookHost)} {m : StoredMessage} {s : Sifted}

theorem Wakes.cons {rt : ConnectorRuntime} (wakes : Wakes rt room past m) (d : ClientDone hookHost) :
    Wakes rt room (d :: past) m := by
  obtain ⟨⟨d', member, shown⟩, treated⟩ := wakes
  exact ⟨⟨d', List.mem_cons_of_mem _ member, shown⟩, treated⟩

/-- What the loop over a batch has found wakes. -/
def FoundBy (rt : ConnectorRuntime) (room : String) (messages : List StoredMessage)
    (past : List (ClientDone hookHost)) : Prop :=
  ∀ m ∈ messages, Wakes rt room past m

theorem FoundBy.cons {rt : ConnectorRuntime} {messages : List StoredMessage}
    (found : FoundBy rt room messages past) (d : ClientDone hookHost) :
    FoundBy rt room messages (d :: past) :=
  fun m listed => (found m listed).cons d

/-- The calls that neither post nor continue a turn. -/
def isIdle : ClientCall hookHost → Bool
  | .request (.send ..) | .ask (.continueTurn ..) => false
  | _ => true

theorem idle_rule {op : ClientCall hookHost} (idle : isIdle op = true) :
    hookRule F verify args past op := by
  cases op with
  | request frame =>
    cases frame with
    | send => cases idle
    | _ => trivial
  | ask question =>
    cases question with
    | continueTurn => cases idle
    | wait => trivial
  | _ => trivial

/-- What happens after a pull: the base is what had happened then. -/
structure Since (rt : ConnectorRuntime) (room : String) (base : List (ClientDone hookHost))
    (messages : List StoredMessage) (past : List (ClientDone hookHost)) : Prop where
  later : base <:+ past
  found : FoundBy rt room messages past

theorem Since.cons {rt : ConnectorRuntime} {base : List (ClientDone hookHost)}
    {messages : List StoredMessage} (since : Since rt room base messages past)
    (d : ClientDone hookHost) : Since rt room base messages (d :: past) :=
  ⟨since.later.trans (List.suffix_cons _ _), since.found.cons d⟩

theorem Since.start (rt : ConnectorRuntime) (room : String) (past : List (ClientDone hookHost)) :
    Since rt room past [] past :=
  ⟨List.suffix_rfl, fun _ listed => nomatch listed⟩

variable {base : List (ClientDone hookHost)} {messages : List StoredMessage}

/-- A program that neither posts nor continues a turn. -/
theorem idle_upholds {α : Type} {p : StopClient α} (idle : p.Calls (fun op => isIdle op = true))
    (since : Since (hookRuntime F verify args) room base messages past) :
    p.Upholds (hookRule F verify args)
      (fun _ past => Since (hookRuntime F verify args) room base messages past) past := by
  refine Prog.Calls.upholds (J := Since (hookRuntime F verify args) room base messages)
    ?_ ?_ (fun _ _ now => now) idle since
  · exact fun _ _ calm _ => idle_rule calm
  · exact fun op r _ _ now => now.cons ⟨op, r⟩

theorem sift_found (has : BroughtFrom room base m)
    (since : Since (hookRuntime F verify args) room base s.messages past) :
    ((hookRuntime F verify args).sift room .channel none m s).Upholds (hookRule F verify args)
      (fun sifted past => ∀ s, sifted = some s →
        Since (hookRuntime F verify args) room base s.messages past) past := by
  unfold ConnectorRuntime.sift
  split
  · intro s' same
    cases same
    exact since
  · rename_i other
    split
    · intro s' same
      cases same
      exact since
    · rename_i valid
      split
      · rename_i wakes
        refine ⟨trivial, ?_⟩
        intro admitted
        have since := since.cons ⟨ClientCall.admitMessage m, admitted⟩
        rcases admitted with _ | _ | _
        · exact fun s' impossible => nomatch impossible
        · intro s' same
          cases same
          exact since
        · intro s' same
          cases same
          refine ⟨since.later, ?_⟩
          intro m' listed
          rcases List.mem_append.mp listed with old | new
          · exact since.found m' old
          · rw [List.mem_singleton.mp new]
            obtain ⟨d, member, shown⟩ := has
            exact ⟨⟨d, since.later.subset member, shown⟩, other, not_not.mp valid, wakes⟩
      · intro s' same
        cases same
        exact since
      · intro s' same
        cases same
        exact since

theorem siftAll_found {page : List StoredMessage} (has : ∀ m ∈ page, BroughtFrom room base m)
    (since : Since (hookRuntime F verify args) room base s.messages past) :
    ((hookRuntime F verify args).siftAll room .channel none page s).Upholds (hookRule F verify args)
      (fun sifted past => ∀ s, sifted = some s →
        Since (hookRuntime F verify args) room base s.messages past) past := by
  induction page generalizing s past with
  | nil =>
    intro s' same
    cases same
    exact since
  | cons m page ih =>
    refine (sift_found (has m List.mem_cons_self) since).bind ?_
    intro sifted past after
    cases sifted with
    | none => exact fun s' impossible => nomatch impossible
    | some s => exact ih (fun m later => has m (List.mem_cons_of_mem _ later)) (after s rfl)

theorem receive_found (a : MeshAgent) :
    ((hookRuntime F verify args).receive room .channel none a none).Upholds (hookRule F verify args)
      (fun received past => ∀ batch, received.2 = some batch →
        FoundBy (hookRuntime F verify args) room batch.messages past) past := by
  refine Prog.Upholds.bind (J := fun pulled past =>
    ∀ messages, pulled.2 = some messages → ∀ m ∈ messages, BroughtFrom room past m) ⟨trivial, ?_⟩ ?_
  · intro reply messages got m member
    rcases a.pulled_cases room reply with ⟨room', batch, cursor, rfl, equal⟩ | equal
    · rw [equal] at got
      cases got
      exact ⟨_, List.mem_cons_self, rfl, member⟩
    · rw [equal] at got
      cases got
  · rintro ⟨a, messages⟩ past got
    cases messages with
    | none => exact fun batch impossible => nomatch impossible
    | some all =>
      refine (siftAll_found (s := ⟨[], false, 0⟩) (got all rfl) (Since.start _ room _)).bind ?_
      intro sifted past after
      cases sifted with
      | none => exact fun batch impossible => nomatch impossible
      | some s =>
        have since := after s rfl
        dsimp only
        split
        · intro batch same
          cases same
          exact since.found
        · refine (idle_upholds (commitReads_calls (fun _ => rfl) a) since).bind ?_
          rintro ⟨a, committed⟩ past after batch same
          cases committed with
          | none => cases same
          | some _ =>
            cases same
            exact after.found

theorem listenUntil_upholds (stop : args.isStop) (free : args.managed = false)
    (session : args.session = some room) (rounds : Nat) (a : MeshAgent) :
    (listenUntil (hookRuntime F verify args) room rounds a).Upholds (hookRule F verify args)
      (fun _ _ => True) past := by
  induction rounds generalizing a past with
  | zero => trivial
  | succ rounds ih =>
    refine (receive_found a).bind ?_
    rintro ⟨a, batch⟩ past found
    cases batch with
    | none => trivial
    | some batch =>
      dsimp only
      split
      · refine ⟨trivial, ?_⟩
        intro waited
        rcases waited with _ | _ | _
        · trivial
        · trivial
        · exact ih a
      · rename_i nonempty
        refine ⟨⟨⟨stop, free, session⟩, by simpa using nonempty, found batch rfl⟩, ?_⟩
        intro printed
        refine ⟨trivial, ?_⟩
        intro completed
        have idle : Prog.Calls (fun op => isIdle op = true) (if batch.held then
            (.ret (a, some ()) : StopClient (MeshAgent × Option Unit)) else a.commitReads room) := by
          split
          · trivial
          · exact commitReads_calls (fun _ => rfl) a
        exact (idle_upholds idle (Since.start _ room _)).bind (fun _ _ _ => trivial)

theorem stopHook_upholds (stop : args.isStop) :
    (stopHook (hookRuntime F verify args) args).Upholds (hookRule F verify args) (fun _ _ => True)
      past := by
  unfold stopHook
  split
  · trivial
  · rename_i free
    split
    · trivial
    · rename_i room session
      have idle : Prog.Calls (fun op => isIdle op = true)
          (presence "waiting" (some ("waiting in session " ++ room)) (some args.attention.mode) :
            StopClient (Option Unit)) := presence_calls rfl
      refine (idle_upholds idle (Since.start _ room _)).bind ?_
      intro shown past _
      cases shown with
      | none => trivial
      | some _ =>
        refine ⟨trivial, ?_⟩
        intro subscribed
        exact (listenUntil_upholds stop (by simpa using free) session args.rounds .fresh).bind
          (fun _ _ _ => trivial)

theorem mirrorHook_upholds (noStop : ¬ args.isStop) :
    (mirrorHook (hookRuntime F verify args) args).Upholds (hookRule F verify args) (fun _ _ => True)
      past := by
  unfold mirrorHook
  split
  · rename_i room hook session parsed
    have idle : Prog.Calls (fun op => isIdle op = true)
        (presence hook.presence.1 hook.presence.2 (some args.attention.mode) :
          StopClient (Option Unit)) := presence_calls rfl
    refine (idle_upholds idle (Since.start _ room _)).bind ?_
    intro shown past _
    cases shown with
    | none => trivial
    | some _ =>
      dsimp only
      split
      · trivial
      · trivial
      · rename_i parts nonempty made
        have mirrors : args.Mirrors F room parts := ⟨noStop, session, ⟨hook, parsed, made⟩, nonempty⟩
        refine ⟨trivial, ?_⟩
        intro drawn
        cases drawn with
        | none => trivial
        | some s =>
          refine ⟨⟨room, parts, ⟨s.sig, s.ts, s.uid, .room room⟩, mirrors, rfl, rfl⟩, ?_⟩
          intro reply
          dsimp only
          split <;> trivial
  · trivial

/-- A hook follows the rule. -/
theorem cmdHook_follows (F : FloatFormat) (verify : String → List UInt8 → String → Bool)
    (args : HookArgs) : ((hookWall F verify).boot args).Follows (hookRule F verify args) [] := by
  apply Prog.Upholds.follows (I := fun _ _ => True)
  show (cmdHook (hookRuntime F verify args) args).Upholds _ _ _
  unfold cmdHook
  split
  · rename_i stop
    exact stopHook_upholds stop
  · rename_i noStop
    exact mirrorHook_upholds noStop

end Rules

/-! ## What holds on every board -/

theorem observation_plain (fields : Map) :
    HandoffRef.fromPart (.extension observationKind fields) = none ∧
      dispatchRole (.extension observationKind fields) = none := by
  have handoff : observationKind ≠ handoffKind := by decide
  have dispatch : observationKind ≠ dispatchKind := by decide
  simp [HandoffRef.fromPart, dispatchRole, handoff, dispatch]

/-- What a mirror posts hands nothing over and asks for no role. -/
theorem mirrorParts_plain {F : FloatFormat} {name kind : String} {payload : Option Map}
    {hook : Lifecycle} {parts : List Part} (made : mirrorParts F name kind payload hook = some parts) :
    ∀ part ∈ parts, HandoffRef.fromPart part = none ∧ dispatchRole part = none := by
  intro part member
  cases hook with
  | sessionStart =>
    cases made
    rw [List.mem_singleton.mp member]
    exact ⟨rfl, rfl⟩
  | sessionEnd =>
    cases made
    rw [List.mem_singleton.mp member]
    exact ⟨rfl, rfl⟩
  | promptSubmit =>
    simp only [mirrorParts] at made
    split at made
    · cases made
      cases member
    · obtain ⟨prompt, -, rfl⟩ := Option.map_eq_some_iff.mp made
      rw [List.mem_singleton.mp member]
      exact ⟨rfl, rfl⟩
  | toolUse =>
    obtain ⟨output, -, rfl⟩ := Option.map_eq_some_iff.mp made
    rw [List.mem_singleton.mp member]
    exact observation_plain _

namespace HookBoard

variable {F : FloatFormat} {verify : String → List UInt8 → String → Bool} {w : HookBoard}

/-- A turn is continued by a Stop hook, with messages of its room that wake it. -/
theorem continues_woken (reach : Board.Reachable (hookWall F verify) w) {n : Nat} {room : String}
    {messages : List StoredMessage} (continues : Continues w n room messages) :
    messages ≠ [] ∧ ∃ args, w.arguments n = some args ∧
      (args.isStop ∧ args.managed = false ∧ args.session = some room) ∧
      ∀ m ∈ messages, m ∈ w.posts ∧ m.room = room ∧
        (hookRuntime F verify args).treats room .channel none m .wake := by
  obtain ⟨r, logged⟩ := continues
  obtain ⟨later, earlier, split⟩ := List.append_of_mem (mem_turnsOf.mpr logged)
  obtain ⟨args, has, stop, nonempty, wakes⟩ := reach.followed (cmdHook_follows F verify) split
  refine ⟨nonempty, args, has, stop, ?_⟩
  intro m member
  obtain ⟨⟨⟨op, reply⟩, past, pulled, shown⟩, treated⟩ := wakes m member
  have logged : ⟨op, reply⟩ ∈ turnsOf w.log n := by
    rw [split]
    exact List.mem_append_right _ (List.mem_cons_of_mem _ past)
  refine ⟨brought_posted (fun _ _ => rfl) reach logged shown, ?_, treated⟩
  have stays := (reach.answered (Q := fun op r => ∀ m ∈ brought ⟨op, r⟩, staysInRoom op m)
    (fun _ _ _ _ _ _ _ served => (Option.ite_none_right_eq_some.mp served).1) _
    (mem_turnsOf.mp logged)).1 m shown
  cases op with
  | request frame =>
    cases frame with
    | pull pulledRoom =>
      cases pulled
      exact stays
    | _ => cases pulled
  | _ => cases pulled

/-- What a hook has on the board, it mirrors. -/
theorem mirrored_entry (reach : Board.Reachable (hookWall F verify) w) {e : Entry StoredMessage}
    (member : e ∈ w.entries) {n : Nat} (own : e.author = some n) :
    ∃ args parts, ∃ sig : MessageSig, w.arguments n = some args ∧ e.post.sender.id = args.me.id ∧
      args.Mirrors F e.post.room parts ∧ e.post.parts = unsigned parts ++ [sig.toPart] := by
  obtain ⟨args, later, d, earlier, has, split, posts, stays⟩ := reach.written member own
  obtain ⟨args', has', rule⟩ := reach.followed (cmdHook_follows F verify) split
  rw [has] at has'
  cases has'
  obtain ⟨target, mentions, replyTo, clientId, sends, sender⟩ := mayPost_cases posts
  rw [sends] at rule stays
  obtain ⟨room, parts, sig, mirrors, rfl, same⟩ := rule
  have here : e.post.room = room := stays
  exact ⟨args, parts, sig, has, sender, here ▸ mirrors, same⟩

/-- A mirrored message that continues a turn was mirrored by another agent for one who listens. -/
theorem mirrored_continues (reach : Board.Reachable (hookWall F verify) w) {n : Nat} {room : String}
    {messages : List StoredMessage} (continues : Continues w n room messages) {m : StoredMessage}
    (member : m ∈ messages) (mirrored : Mirrored w m) :
    ∃ i j a b parts, w.arguments i = some a ∧ w.arguments j = some b ∧ a.Listens room ∧
      HookArgs.Mirrors F b room parts ∧ a.me.id ≠ b.me.id := by
  obtain ⟨-, a, hasA, ⟨stop, free, session⟩, woken⟩ := continues_woken reach continues
  obtain ⟨-, here, other, -, wakes⟩ := woken m member
  obtain ⟨e, listed, posted, rfl⟩ := mirrored
  obtain ⟨author, own⟩ := Option.ne_none_iff_exists'.mp posted
  obtain ⟨b, parts, sig, hasB, sender, mirrors, same⟩ := mirrored_entry reach listed own
  have plain : ∀ part ∈ e.post.parts, HandoffRef.fromPart part = none ∧ dispatchRole part = none := by
    intro part member
    rw [same] at member
    rcases List.mem_append.mp member with among | signed
    · obtain ⟨hook, -, made⟩ := mirrors.made
      exact mirrorParts_plain made part (List.mem_filter.mp among).1
    · rw [List.mem_singleton.mp signed]
      exact ⟨handoffRef_sig _, dispatchRole_sig _⟩
  refine ⟨n, author, a, b, parts, hasA, hasB, ⟨stop, free, session, ?_⟩, here ▸ mirrors, ?_⟩
  · exact decide_ambient plain _ _ wakes
  · rw [← sender]
    exact other.symm

/-- In every run in which no Stop hook waits for everything in a room into which another agent
    mirrors, no mirrored message continues a turn, and nothing does when nobody says anything. -/
theorem mirror_continues_nothing_if_calm (reach : Board.Reachable (hookWall F verify) w)
    (calm : Calm F w) :
    (∀ n room messages, Continues w n room messages → ∀ m ∈ messages, ¬ Mirrored w m) ∧
      ((∀ m, ¬ Said w m) → ∀ n room messages, ¬ Continues w n room messages) := by
  have mirrors : ∀ n room messages, Continues w n room messages → ∀ m ∈ messages, ¬ Mirrored w m := by
    intro n room messages continues m member mirrored
    obtain ⟨i, j, a, b, parts, hasA, hasB, listens, mirrors, other⟩ :=
      mirrored_continues reach continues member mirrored
    exact other (calm i j a b room parts hasA hasB listens mirrors)
  refine ⟨mirrors, ?_⟩
  intro silent n room messages continues
  obtain ⟨nonempty, args, -, -, woken⟩ := continues_woken reach continues
  obtain ⟨m, member⟩ := List.exists_mem_of_ne_nil _ nonempty
  obtain ⟨e, listed, same⟩ := List.mem_map.mp (woken m member).1
  cases author : e.author with
  | none => exact silent m ⟨e, listed, author, same⟩
  | some writer =>
    have posted : e.author ≠ none := by simp [author]
    exact mirrors n room messages continues m member ⟨e, listed, posted, same⟩

end HookBoard

/-! ## Two sessions -/

section Demo

variable (F : FloatFormat) (verify : String → List UInt8 → String → Bool)

instance (args : HookArgs) (op : ClientCall hookHost) (m : StoredMessage) :
    Decidable ((hookWall F verify).posts args op m) :=
  inferInstanceAs (Decidable (mayPost args.me op m ∧ staysInRoom op m))

instance (posts : List StoredMessage) (m : StoredMessage) :
    Decidable ((hookWall F verify).fresh posts m) :=
  inferInstanceAs (Decidable (newId posts m))

end Demo

/-- The hub answers, and a pull brings everything on the board. -/
def hookReplies (w : HookBoard) : (op : ClientCall hookHost) → op.Res
  | .request (.pull ..) => some (.pulled "r" w.posts 1)
  | .request (.send ..) => some (.sent "m" 1 "r")
  | .request (.presence ..) => some .presenceOk
  | .request _ => none
  | .admitMessage _ => some true
  | .complete _ => ()
  | .release _ => none
  | .sign .. => some ⟨"s", 0, "y", "c"⟩
  | .ask (.continueTurn ..) => ()
  | .ask .wait => some false

abbrev HookMove := HookBoard → Board.Move (ClientCall hookHost) ClientCall.Res StoredMessage HookArgs Unit

/-- The hook makes a number of turns; what it sends is put up under the id. -/
def hookTurns (n count : Nat) (id : String) : List HookMove :=
  List.replicate count (fun w => .turn n (hookReplies w) () (demoPending HookArgs.me w n id))

/-- A hook of a session in the room `r`, whose policy wakes for everything. -/
def demoHook (me : Authed) (kind : String) (payload : List (String × Value)) : HookMove :=
  fun _ => .start ⟨me, ⟨.open, [], []⟩, some "r", kind, some (Map.ofFields payload), false, 1⟩

/-- Alice prompts, Bob's turn goes on with that and uses a tool, and Alice's turn goes on with that. -/
def twoSessions : HookBoard :=
  Board.play (hookWall bitsFormat acceptS) <|
    [demoHook alice "user-prompt-submit" [("prompt", .str "go")], demoHook bob "stop" [],
      demoHook bob "post-tool-use" [("tool_output", .str "done")], demoHook alice "stop" []] ++
    hookTurns 0 3 "m1" ++ hookTurns 1 5 "" ++ hookTurns 2 3 "m2" ++ hookTurns 3 6 ""

/-- Bob's turn goes on with what Carol has said, while his own tool is mirrored. -/
def oneSession : HookBoard :=
  Board.play (hookWall bitsFormat acceptS) <|
    [fun _ => .outside carolsOrder, demoHook bob "post-tool-use" [("tool_output", .str "done")],
      demoHook bob "stop" []] ++ hookTurns 0 3 "m2" ++ hookTurns 1 5 ""

/-- What a turn continues with. -/
def continuedWith (turn : Turn (clientMachine hookHost)) : Option (String × List StoredMessage) :=
  match turn.done.1 with
  | .ask (.continueTurn room messages) => some (room, messages)
  | _ => none

theorem continues_of_mem {w : HookBoard} {room : String} {messages : List StoredMessage}
    (member : (room, messages) ∈ w.log.filterMap continuedWith) :
    ∃ n, HookBoard.Continues w n room messages := by
  obtain ⟨⟨n, ⟨op, r⟩⟩, logged, is⟩ := List.mem_filterMap.mp member
  cases op with
  | ask question =>
    cases question with
    | continueTurn room' messages' =>
      cases is
      exact ⟨n, r, logged⟩
    | wait => cases is
  | _ => cases is

theorem hooks_reachable (moves : List HookMove) :
    Board.Reachable (hookWall bitsFormat acceptS) (Board.play (hookWall bitsFormat acceptS) moves) :=
  Board.play_reachable _ _

/-- One prompt, mirrored, has the turns of two sessions go on, and nobody has said anything. -/
theorem mirrored_prompt_continues :
    Board.Reachable (hookWall bitsFormat acceptS) twoSessions ∧
      (∀ m, ¬ HookBoard.Said twoSessions m) ∧
      (twoSessions.log.filterMap continuedWith).length = 2 ∧
      ∃ n room messages, HookBoard.Continues twoSessions n room messages ∧
        ∃ m ∈ messages, HookBoard.Mirrored twoSessions m := by
  have facts : (∀ e ∈ twoSessions.entries, e.author ≠ none) ∧
      (twoSessions.log.filterMap continuedWith).length = 2 ∧
      ∃ c ∈ twoSessions.log.filterMap continuedWith, ∃ m ∈ c.2, ∃ e ∈ twoSessions.entries,
        e.author ≠ none ∧ e.post = m := by
    decide +kernel
  obtain ⟨mirrored, two, ⟨room, messages⟩, member, m, among, listed⟩ := facts
  obtain ⟨n, continues⟩ := continues_of_mem member
  refine ⟨hooks_reachable _, ?_, two, n, room, messages, continues, m, among, listed⟩
  rintro m ⟨e, member, said, -⟩
  exact mirrored e member said

/-- The hooks of one agent do not wake each other. -/
theorem calm_of_one {F : FloatFormat} {verify : String → List UInt8 → String → Bool} {w : HookBoard}
    {me : String} (reach : Board.Reachable (hookWall F verify) w)
    (check : ∀ n < w.started, (w.arguments n).all (fun args => args.me.id = me) = true) :
    HookBoard.Calm F w := by
  have own : ∀ n args, w.arguments n = some args → args.me.id = me := by
    intro n args has
    have passed := check n (reach.numbered.1 n args has)
    rw [has, Option.all_some] at passed
    exact of_decide_eq_true passed
  intro i j a b room parts first second _ _
  rw [own i a first, own j b second]

theorem mirror_continues_nothing_demo :
    (∃ n, HookBoard.Continues oneSession n "r" [carolsOrder]) ∧
      (∃ m, HookBoard.Mirrored oneSession m) ∧
      (∀ n room messages, HookBoard.Continues oneSession n room messages →
        ∀ m ∈ messages, ¬ HookBoard.Mirrored oneSession m) ∧
      ((∀ m, ¬ HookBoard.Said oneSession m) →
        ∀ n room messages, ¬ HookBoard.Continues oneSession n room messages) := by
  have facts : ("r", [carolsOrder]) ∈ oneSession.log.filterMap continuedWith ∧
      (∃ e ∈ oneSession.entries, e.author ≠ none) ∧
      ∀ n < oneSession.started,
        (oneSession.arguments n).all (fun args => args.me.id = "B") = true := by
    decide +kernel
  obtain ⟨member, ⟨e, listed, posted⟩, check⟩ := facts
  exact ⟨continues_of_mem member, ⟨e.post, e, listed, posted, rfl⟩,
    HookBoard.mirror_continues_nothing_if_calm (hooks_reachable _) (calm_of_one (hooks_reachable _) check)⟩

end Parler.Cli
