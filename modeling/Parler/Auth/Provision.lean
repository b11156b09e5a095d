import Parler.Lib.Wildcards
import Parler.Protocol.Subjects

/-!
# The permissions of an agent

`agent_permissions` of `crates/parler-auth/src/provision.rs`: the default-deny lists of subject patterns that are
minted into an agent's credentials. An agent publishes under its own name only.
-/

namespace Parler.Auth

open Parler.Lib Parler.Protocol

/-- `CONTROL_PRIVILEGED` -/
def controlPrivileged : String := "manager"

/-- `CONTROL_SELF_SERVICE` -/
def controlSelfService : String := "self"

/-- `CONTROL_DELIVERY` -/
def controlDelivery : String := "delivery"

/-- What shapes a minted user's permissions. -/
structure MintOpts where
  allowSubscribe : List String
  allowPublish : List String
  role : Option String
  manager : Option String
  capabilities : List String

/-- The lists of the permission object. -/
structure Permissions where
  pubAllow : List String
  pubDeny : List String
  subAllow : List String
  deriving DecidableEq

/-- A stream or bucket of a space. -/
def ofSpace (name space : String) : String := name ++ token space

def kvStream (bucket : String) : String := "KV_" ++ bucket

/-- A subject of the broker's own API. -/
def js (path : String) : String := "$JS." ++ path

/-- The channels that may be read: `general` unless some are given. -/
def readableChannels (opts : MintOpts) : List String :=
  if opts.allowSubscribe.isEmpty then ["general"] else opts.allowSubscribe

/-- `agent_permissions` -/
def agentPermissions (space id : String) (opts : MintOpts) : Except SubjectError Permissions := do
  let chat := ofSpace "CHAT_" space
  let dm := ofSpace "DM_" space
  let task := ofSpace "TASK_" space
  let dlv := ofSpace "DLV_" space
  let presence := ofSpace "parler_presence_" space
  let kv := kvStream presence
  let chkv := kvStream (ofSpace "parler_channels_" space)
  let dlvkv := kvStream (ofSpace "parler_delivery_" space)
  let _ ← (readableChannels opts ++ opts.allowPublish).mapM assertValidChannel
  let manager := opts.manager.getD controlPrivileged
  let chatHistD := "chathist_" ++ token id
  let dmD := "dm_" ++ token id
  let dlvD := "dlv_" ++ token id
  let posts ← opts.allowPublish.mapM (chatSubject space id)
  let reads ← (readableChannels opts).mapM (chatSubject space "*")
  return {
    pubAllow :=
      posts ++
      [unicastSubject space "*" id, anycastSubject space "*" id,
        controlServiceSubject space controlSelfService id, controlServiceSubject space controlDelivery id,
        js "API.INFO", js ("API.STREAM.INFO." ++ chat), js ("API.STREAM.INFO." ++ kv),
        js ("API.STREAM.INFO." ++ chkv)] ++
      reads.map (fun subject => js ("API.CONSUMER.CREATE." ++ chat ++ "." ++ chatHistD ++ "." ++ subject)) ++
      [js ("API.CONSUMER.INFO." ++ chat ++ "." ++ chatHistD),
        js ("API.CONSUMER.MSG.NEXT." ++ chat ++ "." ++ chatHistD),
        js ("API.CONSUMER.DELETE." ++ chat ++ "." ++ chatHistD),
        js ("API.CONSUMER.INFO." ++ dm ++ "." ++ dmD), js ("API.CONSUMER.MSG.NEXT." ++ dm ++ "." ++ dmD),
        js ("ACK." ++ dm ++ "." ++ dmD ++ ".>"),
        js ("API.CONSUMER.INFO." ++ dlv ++ "." ++ dlvD), js ("API.CONSUMER.MSG.NEXT." ++ dlv ++ "." ++ dlvD),
        js ("ACK." ++ dlv ++ "." ++ dlvD ++ ".>"),
        js ("API.CONSUMER.CREATE." ++ kv ++ ".>"), js ("API.CONSUMER.INFO." ++ kv ++ ".>"), js "FC.>",
        "$KV." ++ (presence ++ "." ++ id),
        js ("API.STREAM.MSG.GET." ++ chkv), js ("API.CONSUMER.CREATE." ++ chkv ++ ".>"),
        js ("API.CONSUMER.INFO." ++ chkv ++ ".>"),
        js ("API.STREAM.INFO." ++ dlvkv), js ("API.STREAM.MSG.GET." ++ dlvkv)] ++
      (match opts.role with
        | none => []
        | some role =>
            let svcD := "svc_" ++ token role
            [js ("API.CONSUMER.INFO." ++ task ++ "." ++ svcD),
              js ("API.CONSUMER.MSG.NEXT." ++ task ++ "." ++ svcD),
              js ("ACK." ++ task ++ "." ++ svcD ++ ".>")]) ++
      (if "spawn" ∈ opts.capabilities then [controlServiceSubject space manager id] else [])
    pubDeny := [dm, task, dlv].flatMap (fun stream =>
      [js ("API.CONSUMER.CREATE." ++ stream), js ("API.CONSUMER.CREATE." ++ stream ++ ".>"),
        js ("API.CONSUMER.DURABLE.CREATE." ++ stream ++ ".>")])
    subAllow :=
      ["_INBOX_" ++ id ++ ".>", controlServiceSubject space controlDelivery id ++ ".>"] ++ reads }

/-- Some pattern of the list matches the subject. -/
def Granted (patterns : List String) (subject : String) : Prop :=
  ∃ p ∈ patterns, subjectMatches p subject = true

/-! ## The patterns of the lists -/

theorem mapM_cons_ok {α β ε : Type} {f : α → Except ε β} {x : α} {xs : List α} {ys : List β}
    (made : (x :: xs).mapM f = .ok ys) : ∃ y zs, ys = y :: zs ∧ f x = .ok y ∧ xs.mapM f = .ok zs := by
  rw [List.mapM_cons] at made
  cases head : f x with
  | error e =>
    rw [head] at made
    cases made
  | ok y =>
    cases tail : xs.mapM f with
    | error e =>
      rw [head, tail] at made
      cases made
    | ok zs =>
      rw [head, tail] at made
      cases made
      exact ⟨y, zs, rfl, rfl, rfl⟩

theorem mem_of_mapM {α β ε : Type} {f : α → Except ε β} {xs : List α} {ys : List β}
    (made : xs.mapM f = .ok ys) : ∀ y ∈ ys, ∃ x ∈ xs, f x = .ok y := by
  induction xs generalizing ys with
  | nil =>
    cases made
    exact nofun
  | cons x xs ih =>
    obtain ⟨y, zs, rfl, head, tail⟩ := mapM_cons_ok made
    intro z member
    rcases List.mem_cons.mp member with rfl | later
    · exact ⟨x, List.mem_cons_self, head⟩
    · obtain ⟨x', within, is⟩ := ih tail z later
      exact ⟨x', List.mem_cons_of_mem _ within, is⟩

theorem ok_of_mapM {α β ε : Type} {f : α → Except ε β} {xs : List α} {ys : List β}
    (made : xs.mapM f = .ok ys) : ∀ x ∈ xs, ∃ y, f x = .ok y := by
  induction xs generalizing ys with
  | nil => exact nofun
  | cons x xs ih =>
    obtain ⟨y, zs, rfl, head, tail⟩ := mapM_cons_ok made
    exact List.forall_mem_cons.mpr ⟨⟨y, head⟩, ih tail⟩

/-- What an agent may publish to: chat on its own channels, peers, control services, and the broker. -/
inductive PublishPattern (space id : String) (opts : MintOpts) : String → Prop
  | post {channel p : String} : channel ∈ opts.allowPublish → ChannelSegs (segs channel) →
      chatSubject space id channel = .ok p → PublishPattern space id opts p
  | unicast : PublishPattern space id opts (unicastSubject space "*" id)
  | anycast : PublishPattern space id opts (anycastSubject space "*" id)
  | control {service : String} :
      service = controlSelfService ∨ service = controlDelivery ∨ "spawn" ∈ opts.capabilities →
      PublishPattern space id opts (controlServiceSubject space service id)
  | api (path : String) : PublishPattern space id opts (js path)
  | presence (path : String) : PublishPattern space id opts ("$KV." ++ path)

/-- What it may subscribe to. -/
inductive SubscribePattern (space id : String) (opts : MintOpts) : String → Prop
  | inbox : SubscribePattern space id opts ("_INBOX_" ++ id ++ ".>")
  | delivery : SubscribePattern space id opts (controlServiceSubject space controlDelivery id ++ ".>")
  | read {channel p : String} : channel ∈ readableChannels opts → ChannelSegs (segs channel) →
      chatSubject space "*" channel = .ok p → SubscribePattern space id opts p

theorem patterns_of_ok {space id : String} {opts : MintOpts} {perms : Permissions}
    (made : agentPermissions space id opts = .ok perms) :
    (∀ p ∈ perms.pubAllow, PublishPattern space id opts p) ∧
      ∀ p ∈ perms.subAllow, SubscribePattern space id opts p := by
  unfold agentPermissions at made
  dsimp only at made
  cases checked : (readableChannels opts ++ opts.allowPublish).mapM assertValidChannel with
  | error e =>
    rw [checked] at made
    cases made
  | ok names =>
    cases posted : opts.allowPublish.mapM (chatSubject space id) with
    | error e =>
      rw [checked, posted] at made
      cases made
    | ok posts =>
      cases readable : (readableChannels opts).mapM (chatSubject space "*") with
      | error e =>
        rw [checked, posted, readable] at made
        cases made
      | ok reads =>
        rw [checked, posted, readable] at made
        cases made
        have formed : ∀ channel ∈ readableChannels opts ++ opts.allowPublish,
            ChannelSegs (segs channel) := by
          intro channel member
          obtain ⟨accepted, valid⟩ := ok_of_mapM checked channel member
          exact ((assertValidChannel_iff channel accepted).mp valid).1
        constructor
        · intro p member
          simp only [List.mem_append, List.mem_map] at member
          rcases member with ((((member | member) | member) | member) | member) | member
          · obtain ⟨channel, within, is⟩ := mem_of_mapM posted p member
            exact .post within (formed channel (List.mem_append_right _ within)) is
          · simp only [List.mem_cons, List.not_mem_nil, or_false] at member
            rcases member with rfl | rfl | rfl | rfl | rfl | rfl | rfl | rfl
            · exact .unicast
            · exact .anycast
            · exact .control (Or.inl rfl)
            · exact .control (Or.inr (Or.inl rfl))
            all_goals exact .api _
          · obtain ⟨subject, -, rfl⟩ := member
            exact .api _
          · simp only [List.mem_cons, List.not_mem_nil, or_false] at member
            rcases member with rfl | rfl | rfl | rfl | rfl | rfl | rfl | rfl | rfl | rfl | rfl | rfl | rfl |
              rfl | rfl | rfl | rfl | rfl
            all_goals first | exact .api _ | exact .presence _
          · cases role : opts.role with
            | none =>
              rw [role] at member
              cases member
            | some name =>
              rw [role] at member
              simp only [List.mem_cons, List.not_mem_nil, or_false] at member
              rcases member with rfl | rfl | rfl <;> exact .api _
          · split_ifs at member with spawn
            · rw [List.mem_singleton.mp member]
              exact .control (Or.inr (Or.inr spawn))
            · cases member
        · intro p member
          rcases List.mem_append.mp member with own | read
          · simp only [List.mem_cons, List.not_mem_nil, or_false] at own
            rcases own with rfl | rfl
            · exact .inbox
            · exact .delivery
          · obtain ⟨channel, within, is⟩ := mem_of_mapM readable p read
            exact .read within (formed channel (List.mem_append_left _ within)) is

/-! ## What the patterns match -/

section Matches

variable {space id : String} {opts : MintOpts} {p s : String}

theorem segs_js (path : String) : segs (js path) = "$JS" :: segs path := by
  have dotted : js path = "$JS" ++ "." ++ path := rfl
  rw [dotted, segs_append, segs_of_no_dot (s := "$JS") (by decide)]
  rfl

theorem segs_presence (path : String) : segs ("$KV." ++ path) = "$KV" :: segs path := by
  have dotted : "$KV." ++ path = "$KV" ++ "." ++ path := rfl
  rw [dotted, segs_append, segs_of_no_dot (s := "$KV") (by decide)]
  rfl

theorem segs_chatSubject {sender channel : String} (formed : ChannelSegs (segs channel))
    (built : chatSubject space sender channel = .ok p) :
    segs p = [root, token space, "chat", routeToken sender] ++ segs channel := by
  simp only [chatSubject, formed.channelPath, Except.map] at built
  cases built
  have dotted : spacePrefix space ++ ".chat." = spacePrefix space ++ "." ++ "chat" ++ "." := by
    simp only [String.append_assoc]
    rfl
  rw [dotted, segs_append, segs_append, segs_append, segs_spacePrefix, segs_routeToken,
    segs_of_no_dot (s := "chat") (by decide)]
  rfl

/-- Every subject that is granted for publishing, by its tokens. -/
inductive Published (space id : String) (opts : MintOpts) : List String → Prop
  | chat {channel : String} {rest : List String} : channel ∈ opts.allowPublish →
      matchTokens "*" ">" (segs channel) rest = true →
      Published space id opts ([root, token space, "chat", token id] ++ rest)
  | peer (mode target : String) : mode = "inst" ∨ mode = "svc" →
      Published space id opts [root, token space, mode, target, token id]
  | control (service : String) :
      service = controlSelfService ∨ service = controlDelivery ∨ "spawn" ∈ opts.capabilities →
      Published space id opts [root, token space, "ctl", service, token id]
  | broker {first : String} (rest : List String) : first ≠ root → Published space id opts (first :: rest)

theorem isToken_plain {t : String} (formed : IsToken t) : t ≠ "*" ∧ t ≠ ">" := ⟨formed.ne_star, formed.ne_gt⟩

theorem isToken_control {name : String} (control : name = controlSelfService ∨ name = controlDelivery) :
    IsToken name := by
  rcases control with rfl | rfl
  · exact ⟨by decide, by simp [controlSelfService, isTokenChar, isAsciiAlphanumeric]⟩
  · exact ⟨by decide, by simp [controlDelivery, isTokenChar, isAsciiAlphanumeric]⟩

theorem routeToken_ne_gt (t : String) : routeToken t ≠ ">" := by
  rw [routeToken]
  split_ifs with any
  · decide
  · exact (token_isToken t).ne_gt

theorem routeToken_id (formed : IsToken id) : routeToken id = token id := if_neg formed.ne_star

/-- The tokens before the routed part of a subject. -/
theorem front_plain {mode : String} (plain : mode ≠ "*" ∧ mode ≠ ">") :
    ∀ t ∈ [root, token space, mode], t ≠ "*" ∧ t ≠ ">" := by
  have root_plain : root ≠ "*" ∧ root ≠ ">" := by decide
  simpa using ⟨root_plain, isToken_plain (token_isToken space), plain⟩

theorem matches_routed {mode target : String} (no_dot : '.' ∉ mode.toList)
    (plain : mode ≠ "*" ∧ mode ≠ ">") (formed : IsToken id)
    (matched : subjectMatches (routedSubject mode space target id) s = true) :
    ∃ x, segs s = [root, token space, mode, x, token id] ∧ (routeToken target = "*" ∨ routeToken target = x) := by
  have split : segs (routedSubject mode space target id) =
      [root, token space, mode] ++ [routeToken target, token id] := by
    rw [segs_routedSubject no_dot, routeToken_id formed]
    rfl
  rw [subjectMatches, split, matchTokens_append (front_plain plain)] at matched
  obtain ⟨rest, same, tail⟩ := matched
  cases rest with
  | nil => simp [matchTokens_cons_nil (routeToken_ne_gt target)] at tail
  | cons x rest =>
    rw [matchTokens_cons (routeToken_ne_gt target)] at tail
    cases rest with
    | nil => simp [matchTokens_cons_nil (token_isToken id).ne_gt] at tail
    | cons y rest =>
      rw [matchTokens_cons (token_isToken id).ne_gt] at tail
      have sender : token id = y := tail.2.1.resolve_left (token_isToken id).ne_star
      have empty : rest = [] := by simpa [matchTokens] using tail.2.2
      exact ⟨x, by rw [same, ← sender, empty]; rfl, tail.1⟩

theorem matches_foreign {first : String} {later : List String} (split : segs p = first :: later)
    (plain : first ≠ "*" ∧ first ≠ ">") (matched : subjectMatches p s = true) :
    ∃ rest, segs s = first :: rest := by
  have front : segs p = [first] ++ later := split
  rw [subjectMatches, front, matchTokens_append (by simpa using plain)] at matched
  obtain ⟨rest, same, -⟩ := matched
  exact ⟨rest, same⟩

theorem matches_chat {sender channel : String} (formed : ChannelSegs (segs channel))
    (built : chatSubject space sender channel = .ok p) (matched : subjectMatches p s = true) :
    ∃ x rest, segs s = [root, token space, "chat", x] ++ rest ∧
      (routeToken sender = "*" ∨ routeToken sender = x) ∧
      matchTokens "*" ">" (segs channel) rest = true := by
  have split : segs p = [root, token space, "chat"] ++ (routeToken sender :: segs channel) :=
    segs_chatSubject formed built
  rw [subjectMatches, split, matchTokens_append (front_plain (by decide))] at matched
  obtain ⟨rest, same, tail⟩ := matched
  cases rest with
  | nil => simp [matchTokens_cons_nil (routeToken_ne_gt sender)] at tail
  | cons x rest =>
    rw [matchTokens_cons (routeToken_ne_gt sender)] at tail
    exact ⟨x, rest, same, tail⟩

theorem PublishPattern.published (pattern : PublishPattern space id opts p) (formed : IsToken id)
    (matched : subjectMatches p s = true) : Published space id opts (segs s) := by
  cases pattern with
  | post within valid built =>
    obtain ⟨x, rest, same, own, tail⟩ := matches_chat valid built matched
    rw [routeToken_id formed] at own
    rw [same, ← own.resolve_left (token_isToken id).ne_star]
    exact .chat within tail
  | unicast =>
    obtain ⟨x, same, -⟩ := matches_routed (by decide) (by decide) formed matched
    rw [same]
    exact .peer "inst" x (Or.inl rfl)
  | anycast =>
    obtain ⟨x, same, -⟩ := matches_routed (by decide) (by decide) formed matched
    rw [same]
    exact .peer "svc" x (Or.inr rfl)
  | @control service allowed =>
    obtain ⟨x, same, target⟩ := matches_routed (by decide) (by decide) formed matched
    have fixed : ∀ name : String, IsToken name → service = name → x = name := by
      rintro name named rfl
      have kept : routeToken service = service := (routeToken_id named).trans named.token
      rw [kept] at target
      exact (target.resolve_left named.ne_star).symm
    rw [same]
    refine .control x ?_
    rcases allowed with own | own | spawn
    · exact Or.inl (fixed _ (isToken_control (Or.inl rfl)) own)
    · exact Or.inr (Or.inl (fixed _ (isToken_control (Or.inr rfl)) own))
    · exact Or.inr (Or.inr spawn)
  | api path =>
    obtain ⟨rest, same⟩ := matches_foreign (segs_js path) (by decide) matched
    rw [same]
    exact .broker rest (by decide)
  | presence path =>
    obtain ⟨rest, same⟩ := matches_foreign (segs_presence path) (by decide) matched
    rw [same]
    exact .broker rest (by decide)

/-- A chat subject that is granted for subscribing is one of a readable channel. -/
theorem SubscribePattern.chat (pattern : SubscribePattern space id opts p) (formed : IsToken id)
    (matched : subjectMatches p s = true) (from_root : (segs s).head? = some root)
    (chat : (segs s)[2]? = some "chat") :
    ∃ channel ∈ readableChannels opts, ∃ sender rest,
      segs s = [root, token space, "chat", sender] ++ rest ∧
        matchTokens "*" ">" (segs channel) rest = true := by
  cases pattern with
  | inbox =>
    have inbox_token : IsToken ("_INBOX_" ++ id) := by
      refine ⟨by simp, fun c member => ?_⟩
      rw [String.toList_append] at member
      rcases List.mem_append.mp member with own | within
      · have letters : "_INBOX_".toList = ['_', 'I', 'N', 'B', 'O', 'X', '_'] := rfl
        simp only [letters, List.mem_cons, List.not_mem_nil, or_false] at own
        rcases own with rfl | rfl | rfl | rfl | rfl | rfl | rfl <;> rfl
      · exact formed.chars c within
    have dotted : "_INBOX_" ++ id ++ ".>" = "_INBOX_" ++ id ++ "." ++ ">" := by
      simp only [String.append_assoc]
      rfl
    have split : segs ("_INBOX_" ++ id ++ ".>") = ("_INBOX_" ++ id) :: segs ">" := by
      rw [dotted, segs_append, segs_of_no_dot inbox_token.no_dot]
      rfl
    obtain ⟨rest, same⟩ := matches_foreign split (isToken_plain inbox_token) matched
    rw [same, List.head?_cons, Option.some.injEq] at from_root
    have first := congrArg (fun t : String => t.toList.head?) from_root
    simp [root] at first
  | delivery =>
    have dotted : controlServiceSubject space controlDelivery id ++ ".>" =
        controlServiceSubject space controlDelivery id ++ "." ++ ">" := by
      rw [String.append_assoc]
      rfl
    have split : segs (controlServiceSubject space controlDelivery id ++ ".>") =
        [root, token space, "ctl"] ++ ([routeToken controlDelivery, routeToken id] ++ segs ">") := by
      rw [dotted, segs_append, controlServiceSubject, segs_routedSubject (by decide)]
      rfl
    rw [subjectMatches, split, matchTokens_append (front_plain (by decide))] at matched
    obtain ⟨rest, same, -⟩ := matched
    rw [same] at chat
    simp at chat
  | read within valid built =>
    obtain ⟨x, rest, same, -, tail⟩ := matches_chat valid built matched
    exact ⟨_, within, x, rest, same, tail⟩

/-! ## Parsing what is matched -/

theorem parseSubject_head {parsed : ParsedSubject} (is : parseSubject s = some parsed) :
    (segs s).head? = some root := by
  by_contra other
  simp [parseSubject, other] at is

theorem parseSubject_chat_tokens {sender channel : String}
    (is : parseSubject s = some ⟨.chat, sender, channel⟩) : (segs s)[2]? = some "chat" := by
  by_contra other
  rw [parseSubject] at is
  dsimp only at is
  split_ifs at is <;> simp_all

theorem parseSubject_of_chat {sender : String} {rest : List String} (more : rest ≠ [])
    (split : segs s = [root, token space, "chat", sender] ++ rest) :
    parseSubject s = some ⟨.chat, sender, joinSegs rest⟩ := by
  have long : ¬ rest.length + 1 + 1 + 1 + 1 < 5 := by
    have := List.length_pos_iff.mpr more
    omega
  simp [parseSubject, split, long]

theorem parseSubject_of_routed {mode target sender : String}
    (split : segs s = [root, token space, mode, target, sender]) :
    (mode = "inst" → parseSubject s = some ⟨.inst, sender, target⟩) ∧
    (mode = "svc" → parseSubject s = some ⟨.svc, sender, target⟩) ∧
    (mode = "ctl" → parseSubject s = some ⟨.ctl, sender, target⟩) := by
  refine ⟨?_, ?_, ?_⟩ <;> rintro rfl <;> simp [parseSubject, split]

theorem ne_nil_of_matches {channel : String} {rest : List String}
    (tail : matchTokens "*" ">" (segs channel) rest = true) : rest ≠ [] := by
  rintro rfl
  exact segs_ne_nil channel ((matchTokens_nil _).mp tail)

/-- The channel that the parser reads is matched as its tokens are. -/
theorem matches_joinSegs {channel : String} {front rest : List String} (split : segs s = front ++ rest)
    (tail : matchTokens "*" ">" (segs channel) rest = true) :
    subjectMatches channel (joinSegs rest) = true := by
  rw [subjectMatches, segs_joinSegs (ne_nil_of_matches tail)]
  · exact tail
  · intro part member
    apply dot_notMem_segs (s := s)
    rw [split]
    exact List.mem_append_right _ member

/-- How a granted subject of the space parses: under the agent's name. -/
theorem Published.parse (own : Published space id opts (segs s)) (from_root : (segs s).head? = some root) :
    (∃ channel ∈ opts.allowPublish, ∃ rest, parseSubject s = some ⟨.chat, token id, joinSegs rest⟩ ∧
      subjectMatches channel (joinSegs rest) = true) ∨
    (∃ kind target, parseSubject s = some ⟨kind, token id, target⟩ ∧ kind ≠ .chat ∧ kind ≠ .ctl) ∨
    ∃ service, parseSubject s = some ⟨.ctl, token id, service⟩ ∧
      (service = controlSelfService ∨ service = controlDelivery ∨ "spawn" ∈ opts.capabilities) := by
  generalize split : segs s = tokens at own from_root
  cases own with
  | @chat channel rest within tail =>
    exact Or.inl ⟨channel, within, rest, parseSubject_of_chat (ne_nil_of_matches tail) split,
      matches_joinSegs split tail⟩
  | peer mode target known =>
    rcases known with is | is
    · exact Or.inr (Or.inl ⟨.inst, target, (parseSubject_of_routed split).1 is, nofun, nofun⟩)
    · exact Or.inr (Or.inl ⟨.svc, target, (parseSubject_of_routed split).2.1 is, nofun, nofun⟩)
  | control service allowed =>
    exact Or.inr (Or.inr ⟨service, (parseSubject_of_routed split).2.2 rfl, allowed⟩)
  | broker rest foreign => exact absurd (Option.some.inj from_root) foreign

end Matches

/-- Under the minted permissions an agent publishes to its peers under its own name only, and reads and
writes the channels it was given; without any channel to read it reads `general`. A control service other
than its own two takes the capability. -/
theorem permissions_bind_sender {space id : String} {opts : MintOpts} {perms : Permissions}
    (some_char : id ≠ "") (alphanumeric : ∀ c ∈ id.toList, isAsciiAlphanumeric c = true)
    (made : agentPermissions space id opts = .ok perms) (s : String) :
    (Granted perms.pubAllow s → (segs s).head? = some root →
      ∃ parsed, parseSubject s = some parsed ∧ parsed.sender = token id) ∧
    (∀ sender channel, parseSubject s = some ⟨.chat, sender, channel⟩ →
      (Granted perms.pubAllow s → Granted opts.allowPublish channel) ∧
      (Granted perms.subAllow s →
        Granted (if opts.allowSubscribe.isEmpty then ["general"] else opts.allowSubscribe) channel)) ∧
    ∀ sender service, parseSubject s = some ⟨.ctl, sender, service⟩ →
      service ≠ controlSelfService → service ≠ controlDelivery →
      Granted perms.pubAllow s → "spawn" ∈ opts.capabilities := by
  have formed : IsToken id := by
    refine ⟨some_char, fun c member => ?_⟩
    simp [isTokenChar, alphanumeric c member]
  obtain ⟨publishes, subscribes⟩ := patterns_of_ok made
  have published : Granted perms.pubAllow s → Published space id opts (segs s) := by
    rintro ⟨p, member, matched⟩
    exact (publishes p member).published formed matched
  refine ⟨fun granted from_root => ?_, fun sender channel parsed => ⟨fun granted => ?_, fun granted => ?_⟩,
    fun sender service parsed other other' granted => ?_⟩
  · rcases (published granted).parse from_root with ⟨channel, -, rest, read, -⟩ | ⟨kind, target, read, -⟩ |
      ⟨service, read, -⟩
    all_goals exact ⟨_, read, rfl⟩
  · rcases (published granted).parse (parseSubject_head parsed) with
      ⟨own, within, rest, read, matched⟩ | ⟨kind, target, read, other, -⟩ | ⟨service, read, -⟩
    · rw [parsed, Option.some.injEq, ParsedSubject.mk.injEq] at read
      rw [read.2.2]
      exact ⟨own, within, matched⟩
    · rw [parsed, Option.some.injEq, ParsedSubject.mk.injEq] at read
      exact absurd read.1.symm other
    · rw [parsed] at read
      cases read
  · obtain ⟨p, member, matched⟩ := granted
    obtain ⟨own, within, x, rest, split, tail⟩ := (subscribes p member).chat formed matched
      (parseSubject_head parsed) (parseSubject_chat_tokens parsed)
    have read := parseSubject_of_chat (ne_nil_of_matches tail) split
    rw [parsed, Option.some.injEq, ParsedSubject.mk.injEq] at read
    rw [read.2.2]
    exact ⟨own, within, matches_joinSegs split tail⟩
  · rcases (published granted).parse (parseSubject_head parsed) with
      ⟨own, -, rest, read, -⟩ | ⟨kind, target, read, -, own⟩ | ⟨target, read, allowed⟩
    · rw [parsed] at read
      cases read
    · rw [parsed, Option.some.injEq, ParsedSubject.mk.injEq] at read
      exact absurd read.1.symm own
    · rw [parsed] at read
      cases read
      exact (allowed.resolve_left other).resolve_left other'

instance (patterns : List String) (subject : String) : Decidable (Granted patterns subject) :=
  inferInstanceAs (Decidable (∃ p ∈ patterns, subjectMatches p subject = true))

def bareOpts : MintOpts := ⟨[], ["team.>"], none, none, []⟩

def barePermissions : Permissions :=
  match agentPermissions "demo" "UA" bareOpts with
  | .ok perms => perms
  | .error _ => ⟨[], [], []⟩

theorem barePermissions_minted : agentPermissions "demo" "UA" bareOpts = .ok barePermissions := by
  decide +kernel

theorem permissions_bind_sender_team : Granted bareOpts.allowPublish "team.a" :=
  ((@permissions_bind_sender "demo" "UA" bareOpts barePermissions (by decide) (by simp [isAsciiAlphanumeric])
    barePermissions_minted "parler.demo.chat.UA.team.a").2.1 "UA" "team.a"
      (by decide +kernel)).1 (by decide +kernel)

/-- Without channels to read, `general` is one that no entry of the list matches. -/
theorem subscribes_to_general :
    agentPermissions "demo" "UA" bareOpts = .ok barePermissions ∧
      parseSubject "parler.demo.chat.UB.general" = some ⟨.chat, "UB", "general"⟩ ∧
      Granted barePermissions.subAllow "parler.demo.chat.UB.general" ∧
      ¬ Granted bareOpts.allowSubscribe "general" := by
  refine ⟨barePermissions_minted, ?_, ?_, ?_⟩ <;> decide +kernel

end Parler.Auth
