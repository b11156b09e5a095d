import Parler.Lib.Paths
import Parler.Lib.Wildcards
import Parler.Protocol.Types

/-!
# Subjects

The routing half of the wire contract, from `crates/parler-protocol/src/subjects.rs`: the builders of the
four subjects that carry a sender, the parser that reads them back, and the checks of a channel name.

```text
  parler.<space>.chat.<sender>.<channel…>
  parler.<space>.svc.<service>.<sender>
  parler.<space>.inst.<instance>.<sender>
  parler.<space>.ctl.<service>.<sender>
```
-/

namespace Parler.Protocol

open Parler.Lib (matchTokens TailLast Named notMem_of_mem_splitOn)

/-- `ROOT` -/
def root : String := "parler"

inductive SubjectError where
  | wildcardNotLast (channel : String)
  | invalidChannel (channel reason : String)
  deriving DecidableEq

/-- The `Display` of a `SubjectError`. -/
def SubjectError.text : SubjectError → String
  | .wildcardNotLast channel => "channel \"" ++ channel ++ "\": '>' is only valid as the last segment"
  | .invalidChannel channel reason => "invalid channel \"" ++ channel ++ "\": " ++ reason

/-- `split('.')` -/
def segs (s : String) : List String := (s.toList.splitOn '.').map String.ofList

/-- `join(".")` -/
def joinSegs (parts : List String) : String := String.ofList (['.'].intercalate (parts.map String.toList))

/-- A character that `token` keeps. -/
def isTokenChar (c : Char) : Bool := isAsciiAlphanumeric c || c = '_' || c = '-'

def spacePrefix (space : String) : String := root ++ "." ++ token space

/-- The loop of `channel_path` over the trimmed segments that are not empty. -/
def pathSegs (channel : String) : List String → Except SubjectError (List String)
  | [] => .ok []
  | s :: rest =>
      if s = ">" then
        if rest ≠ [] then .error (.wildcardNotLast channel)
        else (pathSegs channel rest).map (fun out => ">" :: out)
      else if s = "*" then (pathSegs channel rest).map (fun out => "*" :: out)
      else (pathSegs channel rest).map (fun out => token s :: out)

def channelPath (channel : String) : Except SubjectError String :=
  let parts := ((segs channel).map trim).filter (fun s => s ≠ "")
  if parts = [] then .ok "_" else (pathSegs channel parts).map joinSegs

def routeToken (s : String) : String := if s = "*" then "*" else token s

def chatSubject (space sender channel : String) : Except SubjectError String :=
  (channelPath channel).map
    (fun path => spacePrefix space ++ ".chat." ++ routeToken sender ++ "." ++ path)

/-- A channel that can be published to. -/
def isConcreteChannel (channel : String) : Bool :=
  !(segs channel).any (fun s => trim s = "*" || trim s = ">")

def subjectMatches (pattern subject : String) : Bool := matchTokens "*" ">" (segs pattern) (segs subject)

/-- The loop of `assert_valid_channel` over the segments. -/
def checkSegs (channel : String) : List String → Except SubjectError String
  | [] => .ok channel
  | s :: rest =>
      if s = ">" then
        if rest ≠ [] then .error (.wildcardNotLast channel) else checkSegs channel rest
      else if s = "*" then checkSegs channel rest
      -- The source looks at the bytes: those of a character outside ASCII are none of these.
      else if !s.toList.all isTokenChar then
        .error (.invalidChannel channel
          ("segment \"" ++ s ++ "\" must be a NATS-safe token ([A-Za-z0-9_-]), '*', or '>'"))
      else checkSegs channel rest

def assertValidChannel (channel : String) : Except SubjectError String :=
  if channel = "" ∨ "" ∈ segs channel then
    .error (.invalidChannel channel "empty segment (no leading/trailing/double dots)")
  else checkSegs channel (segs channel)

/-- What `unicast_subject`, `anycast_subject` and `control_service_subject` share. -/
def routedSubject (mode space target sender : String) : String :=
  spacePrefix space ++ "." ++ mode ++ "." ++ routeToken target ++ "." ++ routeToken sender

def unicastSubject (space target sender : String) : String := routedSubject "inst" space target sender

def anycastSubject (space service sender : String) : String := routedSubject "svc" space service sender

def controlServiceSubject (space service sender : String) : String :=
  routedSubject "ctl" space service sender

inductive SubjectKind where
  | chat
  | inst
  | svc
  | ctl
  deriving DecidableEq

structure ParsedSubject where
  kind : SubjectKind
  sender : String
  rest : String
  deriving DecidableEq

def parseSubject (subject : String) : Option ParsedSubject :=
  let parts := segs subject
  if parts.head? ≠ some root then none
  else if parts[2]? = some "chat" then
    if parts.length < 5 then none
    else some ⟨.chat, parts.getD 3 "", joinSegs (parts.drop 4)⟩
  else if parts[2]? = some "inst" ∨ parts[2]? = some "svc" ∨ parts[2]? = some "ctl" then
    if parts.length ≠ 5 then none
    else
      let kind : SubjectKind :=
        if parts[2]? = some "inst" then .inst else if parts[2]? = some "svc" then .svc else .ctl
      some ⟨kind, parts.getD 4 "", parts.getD 3 ""⟩
  else none

/-! ## Segments -/

theorem segs_append (front back : String) : segs (front ++ "." ++ back) = segs front ++ segs back := by
  have chars : (front ++ "." ++ back).toList = front.toList ++ '.' :: back.toList := by simp
  rw [segs, chars, List.splitOn_append_cons_self, List.map_append]
  rfl

theorem segs_ne_nil (s : String) : segs s ≠ [] := by
  simp [segs, List.splitOn_ne_nil]

/-- Splitting undoes joining. -/
theorem segs_joinSegs {parts : List String} (some_part : parts ≠ [])
    (no_dots : ∀ part ∈ parts, '.' ∉ part.toList) : segs (joinSegs parts) = parts := by
  rw [segs, joinSegs, String.toList_ofList, List.splitOn_intercalate]
  · simp [List.map_map, Function.comp_def]
  · intro chars member
    obtain ⟨part, within, rfl⟩ := List.mem_map.mp member
    exact no_dots part within
  · simpa using some_part

/-- Joining undoes splitting. -/
theorem joinSegs_segs (s : String) : joinSegs (segs s) = s := by
  simp only [joinSegs, segs, List.map_map, Function.comp_def, String.toList_ofList, List.map_id']
  rw [List.intercalate_splitOn, String.ofList_toList]

theorem dot_notMem_segs {s part : String} (member : part ∈ segs s) : '.' ∉ part.toList := by
  obtain ⟨chars, split, rfl⟩ := List.mem_map.mp member
  rw [String.toList_ofList]
  exact notMem_of_mem_splitOn split

theorem segs_of_no_dot {s : String} (no_dot : '.' ∉ s.toList) : segs s = [s] := by
  rw [segs, List.splitOn_eq_singleton no_dot, List.map_singleton, String.ofList_toList]

/-! ## Tokens -/

/-- A routing token that `token` leaves alone. -/
structure IsToken (s : String) : Prop where
  some_char : s ≠ ""
  chars : ∀ c ∈ s.toList, isTokenChar c = true

theorem isTokenChar_cases {c : Char} (token : isTokenChar c = true) :
    (48 ≤ c.toNat ∧ c.toNat ≤ 57) ∨ (65 ≤ c.toNat ∧ c.toNat ≤ 90) ∨ (97 ≤ c.toNat ∧ c.toNat ≤ 122) ∨
      c.toNat = 95 ∨ c.toNat = 45 := by
  simp only [isTokenChar, isAsciiAlphanumeric, Bool.or_eq_true, Bool.and_eq_true,
    decide_eq_true_eq] at token
  rcases token with (((digit | upper) | lower) | rfl) | rfl
  · exact Or.inl digit
  · exact Or.inr (Or.inl upper)
  · exact Or.inr (Or.inr (Or.inl lower))
  · exact Or.inr (Or.inr (Or.inr (Or.inl rfl)))
  · exact Or.inr (Or.inr (Or.inr (Or.inr rfl)))

theorem isWhitespace_of_isTokenChar {c : Char} (token : isTokenChar c = true) :
    isWhitespace c = false := by
  have range := isTokenChar_cases token
  simp only [isWhitespace, Bool.or_eq_false_iff, Bool.and_eq_false_iff, decide_eq_false_iff_not]
  omega

/-- Trimming keeps a text without white space. -/
theorem trimChars_of_plain {cs : List Char} (plain : ∀ c ∈ cs, isWhitespace c = false) :
    trimChars cs = cs := by
  have keep : ∀ ds : List Char, (∀ c ∈ ds, isWhitespace c = false) → ds.dropWhile isWhitespace = ds := by
    intro ds each
    cases ds with
    | nil => rfl
    | cons d ds => rw [List.dropWhile_cons_of_neg (by simp [each d List.mem_cons_self])]
  rw [trimChars, keep cs plain, keep cs.reverse (by simpa using plain), List.reverse_reverse]

theorem IsToken.trim {s : String} (formed : IsToken s) : trim s = s := by
  rw [Protocol.trim, trimChars_of_plain, String.ofList_toList]
  exact fun c member => isWhitespace_of_isTokenChar (formed.chars c member)

theorem IsToken.token {s : String} (formed : IsToken s) : token s = s := by
  have trimmed : trimChars s.toList = s.toList :=
    trimChars_of_plain (fun c member => isWhitespace_of_isTokenChar (formed.chars c member))
  have kept : s.toList.map (fun c => if isAsciiAlphanumeric c || c = '_' || c = '-' then c else '_') =
      s.toList.map id :=
    List.map_congr_left (fun c member => if_pos (formed.chars c member))
  have some_char : s.toList ≠ [] := by simpa using formed.some_char
  rw [Protocol.token, trimmed, kept, List.map_id]
  simp [some_char]

theorem isToken_underscore : IsToken "_" := by
  refine ⟨by decide, fun c member => ?_⟩
  have only : c = '_' := by simpa using member
  rw [only]
  rfl

theorem token_isToken (s : String) : IsToken (token s) := by
  rw [token]
  split_ifs with empty
  · exact isToken_underscore
  · constructor
    · simpa using empty
    · intro c member
      rw [String.toList_ofList] at member
      obtain ⟨d, -, rfl⟩ := List.mem_map.mp member
      split_ifs with kept
      · exact kept
      · rfl

theorem IsToken.no_dot {s : String} (formed : IsToken s) : '.' ∉ s.toList :=
  fun member => absurd (formed.chars '.' member) (by decide)

theorem IsToken.ne_star {s : String} (formed : IsToken s) : s ≠ "*" := by
  rintro rfl
  exact absurd (formed.chars '*' (by decide)) (by decide)

theorem IsToken.ne_gt {s : String} (formed : IsToken s) : s ≠ ">" := by
  rintro rfl
  exact absurd (formed.chars '>' (by decide)) (by decide)

/-! ## Channels -/

/-- The segments of a channel: tokens and `*`, and `>` as the last one only. -/
inductive ChannelSegs : List String → Prop where
  | nil : ChannelSegs []
  | gt : ChannelSegs [">"]
  | star {rest : List String} : ChannelSegs rest → ChannelSegs ("*" :: rest)
  | token {s : String} {rest : List String} : IsToken s → ChannelSegs rest → ChannelSegs (s :: rest)

theorem ChannelSegs.no_dots {parts : List String} (formed : ChannelSegs parts) :
    ∀ part ∈ parts, '.' ∉ part.toList := by
  induction formed with
  | nil => simp
  | gt => simp
  | star _ ih => simpa using ih
  | token head _ ih => exact List.forall_mem_cons.mpr ⟨head.no_dot, ih⟩

theorem ChannelSegs.some_char {parts : List String} (formed : ChannelSegs parts) : "" ∉ parts := by
  induction formed with
  | nil => simp
  | gt => simp
  | star _ ih => simpa using ih
  | token head _ ih => simpa [ih] using head.some_char.symm

theorem ChannelSegs.trim {parts : List String} (formed : ChannelSegs parts) :
    parts.map trim = parts := by
  induction formed with
  | nil => rfl
  | gt => decide
  | star _ ih =>
    rw [List.map_cons, ih]
    rfl
  | token head _ ih => rw [List.map_cons, ih, head.trim]

/-- `channel_path` leaves such segments alone. -/
theorem ChannelSegs.pathSegs {channel : String} {parts : List String} (formed : ChannelSegs parts) :
    pathSegs channel parts = .ok parts := by
  induction formed with
  | nil => rfl
  | gt => rfl
  | star _ ih => simp [Protocol.pathSegs, ih, Except.map]
  | token head _ ih => simp [Protocol.pathSegs, ih, Except.map, head.ne_gt, head.ne_star, head.token]

theorem ChannelSegs.checkSegs {channel : String} {parts : List String} (formed : ChannelSegs parts) :
    checkSegs channel parts = .ok channel := by
  induction formed with
  | nil => rfl
  | gt => rfl
  | star _ ih => simpa [Protocol.checkSegs] using ih
  | token head _ ih => simpa [Protocol.checkSegs, head.ne_gt, head.ne_star, ih] using head.chars

/-- What `channel_path` makes of any segments. -/
theorem pathSegs_formed {channel : String} {parts out : List String}
    (made : pathSegs channel parts = .ok out) : ChannelSegs out := by
  induction parts generalizing out with
  | nil =>
    cases made
    exact .nil
  | cons s rest ih =>
    rw [pathSegs] at made
    cases later : pathSegs channel rest with
    | error e => split_ifs at made <;> simp [later, Except.map] at made
    | ok tail =>
      simp only [later, Except.map] at made
      split_ifs at made with is_gt more is_star
      · have empty : rest = [] := by simpa using more
        subst empty
        cases later
        cases made
        exact .gt
      · cases made
        exact .star (ih later)
      · cases made
        exact .token (token_isToken s) (ih later)

theorem checkSegs_formed {channel accepted : String} {parts : List String} (some_char : "" ∉ parts)
    (checked : checkSegs channel parts = .ok accepted) : ChannelSegs parts ∧ accepted = channel := by
  induction parts with
  | nil =>
    cases checked
    exact ⟨.nil, rfl⟩
  | cons s rest ih =>
    rw [checkSegs] at checked
    obtain ⟨head, some_char⟩ := not_or.mp (fun within => some_char (List.mem_cons.mpr within))
    split_ifs at checked with is_gt more is_star other_char
    · have empty : rest = [] := by simpa using more
      subst empty
      cases checked
      exact ⟨is_gt ▸ .gt, rfl⟩
    · exact ⟨is_star ▸ .star (ih some_char checked).1, (ih some_char checked).2⟩
    · have safe : ∀ c ∈ s.toList, isTokenChar c = true := by simpa using other_char
      exact ⟨.token ⟨fun empty => head empty.symm, safe⟩ (ih some_char checked).1,
        (ih some_char checked).2⟩

/-- A channel is valid exactly when its segments are tokens and wildcards. -/
theorem assertValidChannel_iff (channel accepted : String) :
    assertValidChannel channel = .ok accepted ↔ ChannelSegs (segs channel) ∧ accepted = channel := by
  constructor
  · intro checked
    rw [assertValidChannel] at checked
    split_ifs at checked with empty
    exact checkSegs_formed (fun within => empty (Or.inr within)) checked
  · rintro ⟨formed, rfl⟩
    have some_char : accepted ≠ "" := by
      rintro rfl
      exact formed.some_char (by decide)
    rw [assertValidChannel, if_neg (not_or.mpr ⟨some_char, formed.some_char⟩), formed.checkSegs]

theorem ChannelSegs.channelPath {channel : String} (formed : ChannelSegs (segs channel)) :
    channelPath channel = .ok channel := by
  have kept : (segs channel).filter (fun s => s ≠ "") = segs channel := by
    apply List.filter_eq_self.mpr
    intro s member
    have some_char : s ≠ "" := fun empty => formed.some_char (empty ▸ member)
    simp [some_char]
  simp only [Protocol.channelPath, formed.trim, kept, segs_ne_nil, if_false, formed.pathSegs,
    Except.map, joinSegs_segs]

/-- What `channel_path` returns is a valid channel. -/
theorem channelPath_formed {channel path : String} (made : channelPath channel = .ok path) :
    ChannelSegs (segs path) := by
  rw [channelPath] at made
  split_ifs at made with empty
  · cases made
    exact segs_of_no_dot (s := "_") (by decide) ▸ .token isToken_underscore .nil
  · cases looped : pathSegs channel (((segs channel).map trim).filter (fun s => s ≠ "")) with
    | error e =>
      rw [looped] at made
      cases made
    | ok out =>
      rw [looped] at made
      cases made
      have formed := pathSegs_formed looped
      rw [segs_joinSegs _ formed.no_dots]
      · exact formed
      · rintro rfl
        -- Every segment leaves one behind.
        have some_part : ∀ parts : List String, pathSegs channel parts = .ok [] → parts = [] := by
          intro parts made
          cases parts with
          | nil => rfl
          | cons s rest =>
            rw [pathSegs] at made
            cases later : pathSegs channel rest <;>
              split_ifs at made <;> simp [later, Except.map] at made
        exact empty (some_part _ looped)

/-! ## Building and parsing -/

theorem segs_spacePrefix (space : String) : segs (spacePrefix space) = [root, token space] := by
  rw [spacePrefix, segs_append, segs_of_no_dot (s := root) (by decide),
    segs_of_no_dot (token_isToken space).no_dot]
  rfl

theorem segs_routeToken (s : String) : segs (routeToken s) = [routeToken s] := by
  apply segs_of_no_dot
  rw [routeToken]
  split_ifs with any
  · decide
  · exact (token_isToken s).no_dot

/-- A builder makes the subject: for a channel if it can, else from any target. -/
inductive Built : SubjectKind → String → String → String → String → Prop
  | chat {space sender channel subject : String} (made : chatSubject space sender channel = .ok subject) :
      Built .chat space sender channel subject
  | inst (space sender target : String) : Built .inst space sender target (unicastSubject space target sender)
  | svc (space sender service : String) : Built .svc space sender service (anycastSubject space service sender)
  | ctl (space sender service : String) :
      Built .ctl space sender service (controlServiceSubject space service sender)

/-- What a subject carries after its kind and its sender. -/
def targetPath (kind : SubjectKind) (target : String) : Except SubjectError String :=
  match kind with
  | .chat => channelPath target
  | .inst | .svc | .ctl => .ok (routeToken target)

theorem segs_routedSubject {mode : String} (no_dot : '.' ∉ mode.toList) (space target sender : String) :
    segs (routedSubject mode space target sender) =
      [root, token space, mode, routeToken target, routeToken sender] := by
  rw [routedSubject, segs_append, segs_append, segs_append, segs_spacePrefix, segs_of_no_dot no_dot,
    segs_routeToken, segs_routeToken]
  rfl

/-- The parser reads a chat subject back. -/
theorem parseSubject_chat {space sender channel subject : String}
    (built : chatSubject space sender channel = .ok subject) :
    ∃ path, channelPath channel = .ok path ∧
      parseSubject subject = some ⟨.chat, routeToken sender, path⟩ := by
  cases made : channelPath channel with
  | error e => simp [chatSubject, made, Except.map] at built
  | ok path =>
    simp only [chatSubject, made, Except.map] at built
    cases built
    refine ⟨path, rfl, ?_⟩
    have split : segs (spacePrefix space ++ ".chat." ++ routeToken sender ++ "." ++ path) =
        [root, token space, "chat", routeToken sender] ++ segs path := by
      have dotted : spacePrefix space ++ ".chat." = spacePrefix space ++ "." ++ "chat" ++ "." := by
        simp only [String.append_assoc]
        rfl
      rw [dotted, segs_append, segs_append, segs_append, segs_spacePrefix, segs_routeToken,
        segs_of_no_dot (s := "chat") (by decide)]
      rfl
    have some_part := List.length_pos_iff.mpr (segs_ne_nil path)
    have long : ¬ (segs path).length + 1 + 1 + 1 + 1 < 5 := by omega
    simp [parseSubject, split, long, joinSegs_segs]

/-- A chat subject can be built wherever its channel has a path. -/
theorem chatSubject_made (space sender : String) {channel path : String} (made : channelPath channel = .ok path) :
    ∃ subject, chatSubject space sender channel = .ok subject := by
  unfold chatSubject
  rw [made]
  exact ⟨_, rfl⟩

/-- The parser reads the other subjects back. -/
theorem parseSubject_routed (space target sender : String) :
    parseSubject (unicastSubject space target sender) = some ⟨.inst, routeToken sender, routeToken target⟩ ∧
      parseSubject (anycastSubject space target sender) = some ⟨.svc, routeToken sender, routeToken target⟩ ∧
      parseSubject (controlServiceSubject space target sender) =
        some ⟨.ctl, routeToken sender, routeToken target⟩ := by
  refine ⟨?_, ?_, ?_⟩
  · simp [parseSubject, unicastSubject, segs_routedSubject]
  · simp [parseSubject, anycastSubject, segs_routedSubject]
  · simp [parseSubject, controlServiceSubject, segs_routedSubject]

theorem parseSubject_built {kind : SubjectKind} {space sender target subject : String}
    (built : Built kind space sender target subject) :
    ∃ rest, targetPath kind target = .ok rest ∧
      parseSubject subject = some ⟨kind, routeToken sender, rest⟩ := by
  cases built with
  | chat made => exact parseSubject_chat made
  | inst => exact ⟨_, rfl, (parseSubject_routed space target sender).1⟩
  | svc => exact ⟨_, rfl, (parseSubject_routed space target sender).2.1⟩
  | ctl => exact ⟨_, rfl, (parseSubject_routed space target sender).2.2⟩

/-- The parser inverts every builder, so a subject tells its kind, its sender and its target; a chat subject can be
built exactly where `channel_path` succeeds. What `channel_path` returns is a valid channel that it leaves alone, as
it does every valid channel. -/
theorem subjects_inverse :
    (∀ space sender channel,
      (∀ subject, chatSubject space sender channel = .ok subject → ∃ path, channelPath channel = .ok path ∧
        parseSubject subject = some ⟨.chat, routeToken sender, path⟩) ∧
      ∀ path, channelPath channel = .ok path → ∃ subject, chatSubject space sender channel = .ok subject) ∧
    (∀ space sender target,
      parseSubject (unicastSubject space target sender) = some ⟨.inst, routeToken sender, routeToken target⟩ ∧
      parseSubject (anycastSubject space target sender) = some ⟨.svc, routeToken sender, routeToken target⟩ ∧
      parseSubject (controlServiceSubject space target sender) =
        some ⟨.ctl, routeToken sender, routeToken target⟩) ∧
    (∀ kind kind' space space' sender sender' target target' subject,
      Built kind space sender target subject → Built kind' space' sender' target' subject →
      kind = kind' ∧ routeToken sender = routeToken sender' ∧ targetPath kind target = targetPath kind' target') ∧
    (∀ channel path, channelPath channel = .ok path →
      assertValidChannel path = .ok path ∧ channelPath path = .ok path) ∧
    ∀ channel accepted, assertValidChannel channel = .ok accepted → channelPath channel = .ok channel := by
  refine ⟨?_, fun space sender target => parseSubject_routed space target sender, ?_, ?_, ?_⟩
  · exact fun space sender channel => ⟨fun subject => parseSubject_chat, fun path => chatSubject_made space sender⟩
  · intro kind kind' space space' sender sender' target target' subject built built'
    obtain ⟨rest, path, parsed⟩ := parseSubject_built built
    obtain ⟨rest', path', parsed'⟩ := parseSubject_built built'
    rw [parsed] at parsed'
    obtain ⟨rfl, same, rfl⟩ : kind = kind' ∧ routeToken sender = routeToken sender' ∧ rest = rest' := by
      simpa using parsed'
    exact ⟨rfl, same, path.trans path'.symm⟩
  · intro channel path made
    have formed := channelPath_formed made
    exact ⟨(assertValidChannel_iff path path).mpr ⟨formed, rfl⟩, formed.channelPath⟩
  · intro channel accepted valid
    exact ((assertValidChannel_iff channel accepted).mp valid).1.channelPath

/-- A sender and a channel that have to be rewritten first. -/
theorem subjects_inverse_rewritten :
    (∃ path, channelPath "team. .a b.>" = .ok path ∧
      parseSubject "parler.demo.chat.a_b.team.a_b.>" = some ⟨.chat, routeToken " a.b", path⟩) ∧
    (SubjectKind.inst = .inst ∧ routeToken " a.b" = routeToken "a.b" ∧
      targetPath .inst "x y" = targetPath .inst "x.y") ∧
    assertValidChannel "team.a_b.>" = .ok "team.a_b.>" ∧ channelPath "team.*" = .ok "team.*" := by
  have same : unicastSubject "demo" "x y" " a.b" = unicastSubject "demo" "x.y" "a.b" := by decide +kernel
  have built : Built .inst "demo" "a.b" "x.y" (unicastSubject "demo" "x y" " a.b") := by
    rw [same]
    exact .inst "demo" "a.b" "x.y"
  exact ⟨(subjects_inverse.1 "demo" " a.b" "team. .a b.>").1 _ (by decide +kernel),
    subjects_inverse.2.2.1 .inst .inst "demo" "demo" " a.b" "a.b" "x y" "x.y" _ (.inst "demo" " a.b" "x y") built,
    (subjects_inverse.2.2.2.1 "team. .a b.>" "team.a_b.>" (by decide +kernel)).1,
    subjects_inverse.2.2.2.2 "team.*" "team.*" (by decide +kernel)⟩

end Parler.Protocol
