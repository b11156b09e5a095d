import Parler.Cli.ClaudeHooks
import Parler.Cli.Rendering
import Parler.Cli.Texts

/-!
# The prompts of a visible host

`catchup_prompt`, `live_turn_prompt` and `clip_tail` from `crates/parler-cli/src/conversation.rs`. The sections
of a catch-up prompt share one budget: the fixed texts come first, then the files, and what is left is for the
newest part of the conversation. Both prompts render messages, and panic where that does.
-/

namespace Parler.Cli

open Parler.Lib Parler.Protocol

/-- `Host` -/
inductive ConversationHost where
  | codex
  | claude
  | opencode
  deriving DecidableEq

namespace ConversationHost

def display : ConversationHost → String
  | .codex => "Codex"
  | .claude => "Claude Code"
  | .opencode => "OpenCode"

def catchupPromptChars : ConversationHost → Nat
  | .claude => claudeWakePromptChars
  | .codex | .opencode => maxContextChars

end ConversationHost

/-- The marker of `clip_tail`. -/
def omissionMarker : String := "… earlier context omitted …\n"

def clipTail (text : String) (maxChars : Nat) : String :=
  let count := text.toList.length
  if count ≤ maxChars then text
  else
    let markerChars := omissionMarker.toList.length
    if maxChars ≤ markerChars then String.ofList (text.toList.drop (count - maxChars))
    else omissionMarker ++ String.ofList (text.toList.drop (count - (maxChars - markerChars)))

/-! ## The prompts -/

/-- The lines around the conversation in a catch-up prompt. -/
def startLine : String := "--- CONVERSATION SO FAR ---\n"

def catchupOpening : String := "You have joined the live Parler conversation '"

def catchupInstructions (host : ConversationHost) : String :=
  "' in this visible " ++ host.display ++
    " conversation. Read the \nsigned backlog below as conversation context, including any shared-file paths or fetch \n" ++
    "instructions. Catch up silently: do not re-summarize it, call Parler, or claim work merely \n" ++
    "because it appears in history. After this turn, new signed peer messages will arrive here \n" ++
    "automatically.\n\n"

def catchupPrefix (room : String) (host : ConversationHost) : String :=
  catchupOpening ++ room ++ catchupInstructions host ++ startLine

def catchupClosing : String := "\n--- END CONTEXT ---\n"

def fixedChars (room : String) (host : ConversationHost) : Nat :=
  (catchupPrefix room host).toList.length + catchupClosing.toList.length

/-- The section of the files, within its share of the budget. -/
def catchupFiles (room : String) (files : List String) (host : ConversationHost) : String :=
  let rawFiles :=
    if files = [] then ""
    else "\nShared files already materialized in this agent's local Parler inbox:\n" ++
      "\n".intercalate files ++ "\n"
  let fileBudget := Min.min (host.catchupPromptChars - fixedChars room host) (host.catchupPromptChars / 4)
  if fileBudget = 0 then "" else clip rawFiles fileBudget

/-- What the budget leaves for the conversation. -/
def contextBudget (room : String) (files : List String) (host : ConversationHost) : Nat :=
  host.catchupPromptChars - fixedChars room host - (catchupFiles room files host).toList.length

/-- The line before the message in the prompt of a live turn. -/
def peerLine : String := "PEER MESSAGE:\n"

def liveOpening : String :=
  "A cryptographically signed peer message arrived in your live Parler conversation '"

def liveInstructions (host : String) : String :=
  "'. \nContinue the conversation naturally in this visible " ++ host ++
    " conversation and act on any request in \n" ++
    "the current workspace. Do not merely say you received it. Your final response is shared back \n" ++
    "automatically; do not call Parler yourself. If a specific participant should take another \n" ++
    "autonomous turn after you, put exactly one marker on the final non-empty line:\n" ++
    "PARLER_HANDOFF \x7b\"to\":\"agent-name-or-role\",\"next\":\"specific next step\",\"summary\":\"what you completed\"\x7d\n" ++
    "Otherwise omit that marker, which ends this turn without an accidental reply loop.\n\n"

section Prompts

variable (F : FloatFormat) (verify : String → List UInt8 → String → Bool)

/-- The whole backlog, a message after the other. -/
def renderedBacklog (messages : List StoredMessage) : String :=
  "\n".intercalate (messages.map (renderMessage F verify))

/-- The section of the conversation. -/
def catchupContext (room : String) (messages : List StoredMessage) (files : List String)
    (host : ConversationHost) : String :=
  clipTail (renderedBacklog F verify messages) (contextBudget room files host)

/-- `catchup_prompt` of messages whose rendering does not panic. -/
def catchupPrompt (room : String) (messages : List StoredMessage) (files : List String)
    (host : ConversationHost) : String :=
  catchupPrefix room host ++ catchupContext F verify room messages files host ++ catchupClosing ++
    catchupFiles room files host

/-- `catchup_prompt` -/
def tryCatchupPrompt (room : String) (messages : List StoredMessage) (files : List String)
    (host : ConversationHost) : Option String :=
  (messages.mapM (tryRenderMessage F verify)).map fun lines =>
    catchupPrefix room host ++ clipTail ("\n".intercalate lines) (contextBudget room files host) ++
      catchupClosing ++ catchupFiles room files host

/-- The lines of the files of one message. -/
def liveFileLines (files : List String) : String :=
  if files = [] then "" else "\nShared files materialized locally:\n" ++ "\n".intercalate files ++ "\n"

/-- `live_turn_prompt` of a message whose rendering does not panic, with the files that `materialize_files`
    returned. -/
def liveTurnPrompt (room : String) (message : StoredMessage) (files : List String) (host : String) : String :=
  liveOpening ++ room ++ liveInstructions host ++ peerLine ++ renderMessage F verify message ++
    liveFileLines files

/-- `live_turn_prompt` -/
def tryLiveTurnPrompt (room : String) (message : StoredMessage) (files : List String) (host : String) :
    Option String :=
  (tryRenderMessage F verify message).map fun shown =>
    liveOpening ++ room ++ liveInstructions host ++ peerLine ++ shown ++ liveFileLines files

variable {F} {verify} {room : String} {files : List String}

/-- The prompts come about exactly where every message can be shown. -/
theorem tryCatchupPrompt_isSome {messages : List StoredMessage} {host : ConversationHost} :
    (tryCatchupPrompt F verify room messages files host).isSome ↔ ∀ m ∈ messages, Showable m := by
  rw [tryCatchupPrompt, Option.isSome_map, mapM_isSome]
  exact forall₂_congr (fun m _ => tryRenderMessage_isSome)

theorem tryCatchupPrompt_eq {messages : List StoredMessage} {host : ConversationHost} {prompt : String}
    (done : tryCatchupPrompt F verify room messages files host = some prompt) :
    prompt = catchupPrompt F verify room messages files host := by
  obtain ⟨lines, all, rfl⟩ := Option.map_eq_some_iff.mp done
  rw [mapM_eq_map (fun m line => tryRenderMessage_eq) all]
  rfl

theorem tryLiveTurnPrompt_isSome {message : StoredMessage} {host : String} :
    (tryLiveTurnPrompt F verify room message files host).isSome ↔ Showable message := by
  rw [tryLiveTurnPrompt, Option.isSome_map, tryRenderMessage_isSome]

theorem tryLiveTurnPrompt_eq {message : StoredMessage} {host prompt : String}
    (done : tryLiveTurnPrompt F verify room message files host = some prompt) :
    prompt = liveTurnPrompt F verify room message files host := by
  obtain ⟨shown, rendered, rfl⟩ := Option.map_eq_some_iff.mp done
  rw [tryRenderMessage_eq rendered]
  rfl

end Prompts

/-! ## The budget -/

theorem omissionMarker_length : omissionMarker.toList.length = 28 := by decide +kernel

theorem length_clipTail_le (text : String) (maxChars : Nat) : (clipTail text maxChars).toList.length ≤ maxChars := by
  simp only [clipTail]
  split_ifs with short tiny
  · exact short
  · rw [String.toList_ofList, List.length_drop]
    omega
  · rw [String.toList_append, List.length_append, String.toList_ofList, List.length_drop]
    omega

/-- A text that is cut keeps its end, after the marker where there is room for one. -/
theorem clipTail_spec (text : String) (maxChars : Nat) :
    (text.toList.length ≤ maxChars → clipTail text maxChars = text) ∧
      (maxChars < text.toList.length → ∃ tail, tail <:+ text.toList ∧
        (clipTail text maxChars).toList =
          (if omissionMarker.toList.length < maxChars then omissionMarker.toList else []) ++ tail) := by
  simp only [clipTail]
  constructor
  · intro short
    rw [if_pos short]
  · intro long
    rw [if_neg (by omega)]
    split_ifs with tiny roomy
    · omega
    · exact ⟨_, List.drop_suffix _ _, by rw [String.toList_ofList, List.nil_append]⟩
    · exact ⟨_, List.drop_suffix _ _, by rw [String.toList_append, String.toList_ofList]⟩
    · omega

theorem length_catchupFiles_le (room : String) (files : List String) (host : ConversationHost) :
    (catchupFiles room files host).toList.length ≤ host.catchupPromptChars - fixedChars room host := by
  simp only [catchupFiles]
  split_ifs with nothing empty
  · exact Nat.zero_le _
  all_goals exact (length_clip_le (by omega)).trans (Nat.min_le_left _ _)

theorem contextBudget_le (room : String) (files : List String) (host : ConversationHost) :
    contextBudget room files host ≤ host.catchupPromptChars :=
  (Nat.sub_le _ _).trans (Nat.sub_le _ _)

/-- A catch-up prompt keeps to the budget of its host, with its beginning and its closing line whole and the
newest end of the backlog between them. Both ways of clipping keep to their bound. -/
theorem catchupPrompt_budget (F : FloatFormat) (verify : String → List UInt8 → String → Bool) :
    (∀ room messages files (host : ConversationHost), fixedChars room host ≤ host.catchupPromptChars →
      (catchupPrompt F verify room messages files host).toList.length ≤ host.catchupPromptChars ∧
        ∃ context, catchupPrompt F verify room messages files host =
            catchupPrefix room host ++ context ++ catchupClosing ++ catchupFiles room files host ∧
          ((renderedBacklog F verify messages).toList.length ≤ contextBudget room files host →
            context = renderedBacklog F verify messages) ∧
          (contextBudget room files host < (renderedBacklog F verify messages).toList.length →
            ∃ tail, tail <:+ (renderedBacklog F verify messages).toList ∧
              context.toList =
                (if omissionMarker.toList.length < contextBudget room files host then omissionMarker.toList
                  else []) ++ tail)) ∧
    ∀ text maxChars, 1 ≤ maxChars →
      (clip text maxChars).toList.length ≤ maxChars ∧ (clipTail text maxChars).toList.length ≤ maxChars := by
  constructor
  · intro room messages files host fits
    refine ⟨?_, catchupContext F verify room messages files host, rfl, clipTail_spec _ _⟩
    have short := length_clipTail_le (renderedBacklog F verify messages) (contextBudget room files host)
    have files_short := length_catchupFiles_le room files host
    simp only [catchupPrompt, catchupContext, String.toList_append, List.length_append]
    simp only [contextBudget] at short ⊢
    simp only [fixedChars] at fits short files_short ⊢
    omega
  · intro text maxChars some_char
    exact ⟨length_clip_le some_char, length_clipTail_le text maxChars⟩

theorem renderParts_text (F : FloatFormat) (text : String) : renderParts F [.text text] = text := by
  simp [renderParts, renderPart, isMessageSigPart, BundleRef.fromPart, FileRef.fromPart, HandoffRef.fromPart,
    TaskRef.fromPart]

/-- A message that is longer than the budget. -/
def longMessage : StoredMessage :=
  ⟨1, "m1", "audit", ⟨"A", "alice", none⟩, [.text (String.ofList (List.replicate 10000 'a'))], none, none, 0⟩

theorem longMessage_length (F : FloatFormat) (verify : String → List UInt8 → String → Bool) :
    10000 ≤ (renderedBacklog F verify [longMessage]).toList.length := by
  have body : renderParts F longMessage.parts = String.ofList (List.replicate 10000 'a') := renderParts_text F _
  rw [renderedBacklog, List.map_singleton, String.intercalate_singleton, renderMessage, body, String.toList_append,
    List.length_append, String.toList_ofList, List.length_replicate]
  exact Nat.le_add_left _ _

/-- The room and the host of the source's own test, and a message that has to be cut. -/
theorem catchupPrompt_budget_audit :
    (catchupPrompt bitsFormat (fun _ _ _ => true) "audit" [longMessage] ["- /tmp/report.pdf"]
        .claude).toList.length ≤ ConversationHost.claude.catchupPromptChars ∧
      ∃ context tail, catchupPrompt bitsFormat (fun _ _ _ => true) "audit" [longMessage] ["- /tmp/report.pdf"]
          .claude = catchupPrefix "audit" .claude ++ context ++ catchupClosing ++
            catchupFiles "audit" ["- /tmp/report.pdf"] .claude ∧
        tail <:+ (renderedBacklog bitsFormat (fun _ _ _ => true) [longMessage]).toList ∧
        context.toList = (if omissionMarker.toList.length < contextBudget "audit" ["- /tmp/report.pdf"] .claude then
          omissionMarker.toList else []) ++ tail := by
  obtain ⟨front, back, is_front, is_back, short⟩ : ∃ front back, (catchupPrefix "audit" .claude).toList = front ∧
      catchupClosing.toList = back ∧ front.length + back.length ≤ 9000 := by
    unfold catchupPrefix catchupOpening catchupInstructions startLine catchupClosing ConversationHost.display
    exact ⟨_, _, toList_append_of (toList_append_of (toList_append_of String.toList_ofList String.toList_ofList)
      (toList_append_of (toList_append_of (toList_append_of (toList_append_of (toList_append_of
        String.toList_ofList String.toList_ofList) String.toList_ofList) String.toList_ofList)
          String.toList_ofList) String.toList_ofList)) String.toList_ofList, String.toList_ofList,
      by decide +kernel⟩
  have fits : fixedChars "audit" .claude ≤ ConversationHost.claude.catchupPromptChars := by
    rw [fixedChars, is_front, is_back]
    exact short
  obtain ⟨within, context, parts, -, cut⟩ := (catchupPrompt_budget bitsFormat (fun _ _ _ => true)).1 "audit"
    [longMessage] ["- /tmp/report.pdf"] .claude fits
  have beyond : contextBudget "audit" ["- /tmp/report.pdf"] .claude <
      (renderedBacklog bitsFormat (fun _ _ _ => true) [longMessage]).toList.length := by
    have few : ConversationHost.claude.catchupPromptChars < 10000 := by decide
    exact (contextBudget_le _ _ _).trans_lt (few.trans_le (longMessage_length _ _))
  obtain ⟨tail, suffix, is_context⟩ := cut beyond
  exact ⟨within, context, tail, parts, suffix, is_context⟩

end Parler.Cli
