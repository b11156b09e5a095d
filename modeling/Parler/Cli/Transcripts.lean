import Parler.Cli.Codex
import Parler.Cli.Prompts

/-!
# Unwrapping the prompts

`visible_user_transcript` from `crates/parler-cli/src/conversation.rs`, applied to the prompts of the
coordinator. The texts of Parler and those of the peers are told apart by lines that both may contain.
-/

namespace Parler.Cli

open Parler.Lib Parler.Protocol

/-- The line after the conversation in a catch-up prompt, as it is looked for. -/
def endLine : String := "\n--- END CONTEXT ---"

/-- What a live prompt begins with. -/
def liveStart : String := "A cryptographically signed peer message arrived"

def catchupStart : String := "You have joined the live Parler conversation"

theorem ne_empty_of_starts {text : String} {c : Char} {rest : List Char} (starts : text.toList = c :: rest) :
    text ≠ "" := by
  rintro rfl
  cases starts

/-- The unwrapping, once the text is known to be a live prompt. -/
theorem visibleUserTranscript_live {text : String} (starts : liveStart.toList <+: (trim text).toList)
    (some_text : trim text ≠ "") :
    visibleUserTranscript text =
      ((splitOnceChars peerLine.toList (trim text).toList).map
        (fun halves => ("Peer", trim (String.ofList halves.2)))).filter (fun shown => shown.2 ≠ "") := by
  have begins := List.isPrefixOf_iff_prefix.mpr starts
  unfold liveStart at begins
  dsimp only [visibleUserTranscript]
  rw [if_neg some_text, if_pos begins, splitOnce, Option.map_map]
  rfl

theorem visibleUserTranscript_catchup {text : String} (starts : catchupStart.toList <+: (trim text).toList)
    (other : ¬ liveStart.toList <+: (trim text).toList) (some_text : trim text ≠ "") :
    visibleUserTranscript text =
      (((splitOnceChars startLine.toList (trim text).toList).bind
        (fun halves => splitOnceChars endLine.toList halves.2)).map
          (fun halves => ("Conversation context", trim (String.ofList halves.1)))).filter
            (fun shown => shown.2 ≠ "") := by
  have begins := List.isPrefixOf_iff_prefix.mpr starts
  have not_live := fun live => other (List.isPrefixOf_iff_prefix.mp live)
  unfold catchupStart at begins
  unfold liveStart at not_live
  dsimp only [visibleUserTranscript]
  rw [if_neg some_text, if_neg not_live, if_pos begins]
  unfold startLine endLine splitOnce
  cases splitOnceChars "--- CONVERSATION SO FAR ---\n".toList (trim text).toList with
  | none => rfl
  | some halves =>
    dsimp only [Option.map_some, Option.bind_some]
    rw [@String.toList_ofList halves.2, Option.map_map]
    rfl

/-! ## The texts around the room -/

/-- A line to look for, and the texts around the room, which do not contain it. The room stands in quotes,
which the line does not contain either. -/
structure Quoted (mark opening body : List Char) : Prop where
  some_char : mark ≠ []
  unbordered : Unbordered mark
  no_quote : '\'' ∉ mark
  before : opening = opening.dropLast ++ ['\'']
  after : body = '\'' :: body.tail
  not_before : splitOnceChars mark opening.dropLast = none
  not_after : splitOnceChars mark body.tail = none

/-- A text around a room that has the line. -/
theorem Quoted.split_some {mark opening body room front back : List Char} (quoted : Quoted mark opening body)
    (found : splitOnceChars mark room = some (front, back)) (rest : List Char) :
    splitOnceChars mark (opening ++ room ++ body ++ rest) =
      some (opening ++ front, back ++ body ++ rest) := by
  rw [quoted.before]
  simp only [List.append_assoc, List.cons_append, List.nil_append]
  rw [splitOnceChars_skip quoted.some_char quoted.no_quote quoted.not_before,
    splitOnceChars_append quoted.some_char _ found]
  rfl

/-- A text around a room that does not have the line, which follows. -/
theorem Quoted.split_none {mark opening body room : List Char} (quoted : Quoted mark opening body)
    (missing : splitOnceChars mark room = none) (rest : List Char) :
    splitOnceChars mark (opening ++ room ++ body ++ (mark ++ rest)) = some (opening ++ room ++ body, rest) := by
  rw [quoted.before, quoted.after]
  simp only [List.append_assoc, List.cons_append, List.nil_append]
  rw [splitOnceChars_skip quoted.some_char quoted.no_quote quoted.not_before,
    splitOnceChars_skip quoted.some_char quoted.no_quote missing,
    splitOnceChars_first quoted.some_char quoted.unbordered quoted.not_after]
  simp

theorem live_quoted (host : ConversationHost) :
    Quoted peerLine.toList liveOpening.toList (liveInstructions host.display).toList ∧
      liveStart.toList <+: liveOpening.toList ∧ ∃ rest, liveOpening.toList = 'A' :: rest := by
  obtain ⟨mark, opening, body, start, line, head, tail, begins, facts⟩ : ∃ mark opening body start,
      peerLine.toList = mark ∧ liveOpening.toList = opening ∧ (liveInstructions host.display).toList = body ∧
        liveStart.toList = start ∧ Quoted mark opening body ∧ start.isPrefixOf opening = true ∧
          opening = 'A' :: opening.tail := by
    unfold peerLine liveOpening liveInstructions liveStart
    cases host <;> unfold ConversationHost.display <;>
      refine ⟨_, _, _, _, String.toList_ofList, String.toList_ofList,
        toList_append_of (toList_append_of (toList_append_of (toList_append_of (toList_append_of
          (toList_append_of (toList_append_of String.toList_ofList String.toList_ofList) String.toList_ofList)
            String.toList_ofList) String.toList_ofList) String.toList_ofList) String.toList_ofList)
              String.toList_ofList, String.toList_ofList, ?_, by decide +kernel, by decide +kernel⟩ <;>
      constructor <;> decide +kernel
  obtain ⟨quoted, starts, first⟩ := facts
  rw [line, head, tail, begins]
  exact ⟨quoted, List.isPrefixOf_iff_prefix.mp starts, _, first⟩

/-- The line after the conversation does not begin in the texts before it. -/
structure Guarded (mark start body : List Char) : Prop where
  some_char : mark ≠ []
  unbordered : Unbordered mark
  plain : '\'' ∉ mark ∧ 'R' ∉ mark ∧ '[' ∉ mark ∧ '…' ∉ mark
  ends : mark = mark.dropLast ++ ['-']
  start_split : start = start.take 22 ++ 'R' :: start.drop 23
  not_body : splitOnceChars mark (body.tail ++ start.take 22) = none
  not_start : splitOnceChars mark (start.drop 23) = none
  long : 28 < solid body

/-- What stands behind the start line of the room is more than the context. -/
theorem Guarded.shown_ne {mark start body after context : List Char} (guarded : Guarded mark start body)
    (quoted : body = '\'' :: body.tail) (unended : splitOnceChars mark after = none)
    (first : context.length ≤ 28 ∨ ∃ c rest, context = c :: rest ∧ (c = '[' ∨ c = '…')) (behind : List Char) :
    ∃ shown back, splitOnceChars mark (after ++ body ++ (start ++ (context ++ (mark ++ behind)))) =
      some (shown, back) ∧ trimChars shown ≠ trimChars context := by
  obtain ⟨no_quote, no_R, no_bracket, no_dots⟩ := guarded.plain
  obtain ⟨⟨later, back⟩, ended⟩ : ∃ halves,
      splitOnceChars mark (start.drop 23 ++ (context ++ (mark ++ behind))) = some halves := by
    rw [← Option.ne_none_iff_exists', Ne, splitOnceChars_none_iff guarded.some_char, not_not]
    exact ⟨start.drop 23 ++ context, behind, by simp only [List.append_assoc]⟩
  have split : splitOnceChars mark (after ++ body ++ (start ++ (context ++ (mark ++ behind)))) =
      some (after ++ '\'' :: (body.tail ++ start.take 22 ++ 'R' :: later), back) := by
    have whole : after ++ body ++ (start ++ (context ++ (mark ++ behind))) =
        after ++ '\'' :: (body.tail ++ start.take 22 ++
          'R' :: (start.drop 23 ++ (context ++ (mark ++ behind)))) := by
      conv_lhs => rw [quoted, guarded.start_split]
      simp only [List.append_assoc, List.cons_append]
    rw [whole, splitOnceChars_skip guarded.some_char no_quote unended,
      splitOnceChars_skip guarded.some_char no_R guarded.not_body, ended]
    rfl
  refine ⟨_, back, split, ?_⟩
  intro same
  have count := congrArg solid same
  have body_count : solid body = solid body.tail + 1 := by
    conv_lhs => rw [quoted]
    exact solid_cons (by decide)
  have long := guarded.long
  simp only [solid_trimChars, solid_append, solid_cons (show isWhitespace '\'' = false by decide),
    solid_cons (show isWhitespace 'R' = false by decide)] at count
  obtain short | ⟨c, rest, rfl, bracket⟩ := first
  · have few := solid_le_length context
    omega
  have other : c ∉ mark := by
    rcases bracket with rfl | rfl
    · exact no_bracket
    · exact no_dots
  have plain : isWhitespace c = false := by rcases bracket with rfl | rfl <;> decide
  cases inside : splitOnceChars mark (c :: rest) with
  | none =>
    -- All of the context is shown, behind the instructions.
    rw [List.cons_append, splitOnceChars_skip guarded.some_char other guarded.not_start,
      splitOnceChars_first guarded.some_char guarded.unbordered (splitOnceChars_none inside rfl).2] at ended
    cases ended
    dsimp only at count
    rw [solid_append] at count
    omega
  | some halves =>
    -- The context has the line inside, and what is shown does not.
    obtain ⟨pre, post⟩ := halves
    have context_eq := splitOnceChars_some inside
    have in_context : mark <:+: trimChars (c :: rest) := by
      cases pre with
      | nil =>
        obtain ⟨d, mark', rfl⟩ := List.exists_cons_of_ne_nil guarded.some_char
        exact absurd ((List.cons.inj context_eq).1 ▸ List.mem_cons_self) other
      | cons d pre =>
        obtain ⟨rfl, -⟩ := List.cons.inj context_eq
        have begins := @prefix_trimChars c '-' (pre ++ mark.dropLast) post plain (by decide)
        have whole : c :: (pre ++ mark.dropLast) ++ ['-'] ++ post = c :: rest := by
          rw [context_eq]
          conv_rhs => rw [guarded.ends]
          simp only [List.append_assoc, List.cons_append]
        rw [whole] at begins
        refine List.IsInfix.trans ?_ begins.isInfix
        refine ⟨c :: pre, [], ?_⟩
        conv_lhs => rw [guarded.ends]
        simp only [List.append_assoc, List.cons_append, List.append_nil]
    obtain ⟨front, post', -, -, shown_eq, -⟩ :=
      exists_trimChars (after ++ '\'' :: (body.tail ++ start.take 22 ++ 'R' :: later))
    have in_shown := (splitOnceChars_none_iff guarded.some_char).mp (splitOnceChars_front guarded.some_char split)
    apply in_shown
    rw [← same] at in_context
    exact in_context.trans ⟨front, post', shown_eq.symm⟩

set_option maxRecDepth 4000 in
theorem catchup_quoted (host : ConversationHost) :
    Quoted startLine.toList catchupOpening.toList (catchupInstructions host).toList ∧
      Guarded endLine.toList startLine.toList (catchupInstructions host).toList ∧
      catchupStart.toList <+: catchupOpening.toList ∧ (∃ rest, catchupOpening.toList = 'Y' :: rest) ∧
      (∃ rest, liveStart.toList = 'A' :: rest) ∧ catchupClosing.toList = endLine.toList ++ ['\n'] := by
  obtain ⟨start, mark, opening, body, head, live, closing, is_start, is_mark, is_opening, is_body, is_head,
    is_live, is_closing, quoted, guarded, begins, first, first_live, closes⟩ :
      ∃ start mark opening body head live closing, startLine.toList = start ∧ endLine.toList = mark ∧
        catchupOpening.toList = opening ∧ (catchupInstructions host).toList = body ∧
        catchupStart.toList = head ∧ liveStart.toList = live ∧ catchupClosing.toList = closing ∧
        Quoted start opening body ∧ Guarded mark start body ∧ head.isPrefixOf opening = true ∧
        opening = 'Y' :: opening.tail ∧ live = 'A' :: live.tail ∧ closing = mark ++ ['\n'] := by
    unfold startLine endLine catchupOpening catchupInstructions catchupStart liveStart catchupClosing
    cases host <;> unfold ConversationHost.display <;>
      refine ⟨_, _, _, _, _, _, _, String.toList_ofList, String.toList_ofList, String.toList_ofList,
        toList_append_of (toList_append_of (toList_append_of (toList_append_of (toList_append_of
          String.toList_ofList String.toList_ofList) String.toList_ofList) String.toList_ofList)
            String.toList_ofList) String.toList_ofList, String.toList_ofList, String.toList_ofList,
        String.toList_ofList, ?_, ?_, by decide +kernel, rfl, rfl, rfl⟩ <;>
      constructor <;> decide +kernel
  rw [is_start, is_mark, is_opening, is_body, is_head, is_live, is_closing]
  exact ⟨quoted, guarded, List.isPrefixOf_iff_prefix.mp begins, ⟨_, first⟩, ⟨_, first_live⟩, closes⟩

section Unwrapped

variable (F : FloatFormat) (verify : String → List UInt8 → String → Bool)

/-- The transcript of a live prompt is the message with its file lines. -/
def LiveUnwrapped (room : String) (message : StoredMessage) (files : List String) (host : ConversationHost) :
    Prop :=
  visibleUserTranscript (liveTurnPrompt F verify room message files host.display) =
    some ("Peer", trim (renderMessage F verify message ++ liveFileLines files))

/-- The transcript of a catch-up prompt is its context; there is none of an empty one. -/
def CatchupUnwrapped (room : String) (messages : List StoredMessage) (files : List String)
    (host : ConversationHost) : Prop :=
  visibleUserTranscript (catchupPrompt F verify room messages files host) =
    (some ("Conversation context", trim (catchupContext F verify room messages files host))).filter
      (fun shown => shown.2 ≠ "")

variable {F verify}

theorem containsText_eq (text part : String) :
    containsText text part = (splitOnceChars part.toList text.toList).isSome := by
  rw [containsText, splitOnce, Option.isSome_map]

theorem trim_ofList_trimChars (cs : List Char) : trim (String.ofList (trimChars cs)) = trim (String.ofList cs) := by
  rw [trim, trim, String.toList_ofList, String.toList_ofList, trimChars_trimChars]

/-- Texts with different numbers of visible characters are trimmed to different ones. -/
theorem solid_of_trim {s t : String} (same : trim s = trim t) : solid s.toList = solid t.toList := by
  rw [← solid_trimChars s.toList, ← solid_trimChars t.toList, ← toList_trim, ← toList_trim, same]

theorem renderMessage_first (m : StoredMessage) : ∃ rest, (renderMessage F verify m).toList = '[' :: rest := by
  have bracket : "[".toList = ['['] := by decide
  simp only [renderMessage, String.toList_append, bracket, List.append_assoc, List.singleton_append]
  exact ⟨_, rfl⟩

/-- The transcript of a live prompt is right unless the room has the line before the message. -/
theorem liveUnwrapped_iff (room : String) (message : StoredMessage) (files : List String)
    (host : ConversationHost) :
    LiveUnwrapped F verify room message files host ↔ containsText room peerLine = false := by
  obtain ⟨quoted, starts, opening, first⟩ := live_quoted host
  obtain ⟨rendered, bracket⟩ := @renderMessage_first F verify message
  obtain ⟨shown, is_shown⟩ : ∃ cs, (renderMessage F verify message ++ liveFileLines files).toList = cs :=
    ⟨_, rfl⟩
  have shown_first : shown = '[' :: (rendered ++ (liveFileLines files).toList) := by
    rw [← is_shown, String.toList_append, bracket, List.cons_append]
  have trimmed : (trim (liveTurnPrompt F verify room message files host.display)).toList =
      liveOpening.toList ++ room.toList ++ (liveInstructions host.display).toList ++
        (peerLine.toList ++ trimChars shown) := by
    have whole : (liveTurnPrompt F verify room message files host.display).toList =
        'A' :: (opening ++ room.toList ++ (liveInstructions host.display).toList ++ peerLine.toList) ++ shown := by
      simp only [liveTurnPrompt, String.toList_append, first, ← is_shown, List.append_assoc, List.cons_append]
    rw [toList_trim, whole, shown_first, trimChars_behind (by decide) (by decide), first]
    simp only [List.append_assoc, List.cons_append]
  have begins : liveStart.toList <+: (trim (liveTurnPrompt F verify room message files host.display)).toList := by
    rw [trimmed, List.append_assoc, List.append_assoc]
    exact starts.trans (List.prefix_append _ _)
  have some_text : trim (liveTurnPrompt F verify room message files host.display) ≠ "" := by
    apply ne_empty_of_starts
    rw [trimmed, first]
    rfl
  rw [LiveUnwrapped, visibleUserTranscript_live begins some_text, trimmed, containsText_eq]
  cases inside : splitOnceChars peerLine.toList room.toList with
  | none =>
    have same : trim (String.ofList (trimChars shown)) =
        trim (renderMessage F verify message ++ liveFileLines files) := by
      rw [trim_ofList_trimChars, ← is_shown, String.ofList_toList]
    have some_shown : trim (renderMessage F verify message ++ liveFileLines files) ≠ "" := by
      intro empty
      have nothing := solid_trimChars shown
      rw [← is_shown, trim_eq_empty.mp empty, is_shown, shown_first, solid_cons (by decide)] at nothing
      exact absurd nothing (by simp [solid])
    rw [quoted.split_none inside, Option.map_some, same]
    simp [some_shown]
  | some halves =>
    simp only [quoted.split_some inside, Option.map_some, Option.isSome_some, Bool.true_eq_false, iff_false]
    intro same
    have texts := solid_of_trim (congrArg Prod.snd (Option.some.inj (Option.filter_eq_some_iff.mp same).1))
    rw [is_shown, String.toList_ofList] at texts
    simp only [solid_append, solid_trimChars] at texts
    have line : 0 < solid peerLine.toList := by decide +kernel
    omega

/-- The context is short, or it begins with a message or with the omission marker. -/
theorem catchupContext_first (room : String) (messages : List StoredMessage) (files : List String)
    (host : ConversationHost) :
    (catchupContext F verify room messages files host).toList.length ≤ 28 ∨
      ∃ c rest, (catchupContext F verify room messages files host).toList = c :: rest ∧ (c = '[' ∨ c = '…') := by
  simp only [catchupContext, clipTail, omissionMarker_length]
  split_ifs with whole tiny
  · cases messages with
    | nil => exact Or.inl (Nat.zero_le _)
    | cons m messages =>
      obtain ⟨rest, bracket⟩ := @renderMessage_first F verify m
      right
      rw [renderedBacklog, List.map_cons, String.toList_intercalate, List.map_cons, bracket]
      cases messages with
      | nil => exact ⟨'[', rest, by simp, Or.inl rfl⟩
      | cons m' messages =>
        rw [List.map_cons, List.map_cons, List.intercalate_cons_cons]
        exact ⟨'[', _, rfl, Or.inl rfl⟩
  · left
    rw [String.toList_ofList, List.length_drop]
    omega
  · right
    have marker : omissionMarker.toList = '…' :: omissionMarker.toList.tail := by decide +kernel
    rw [String.toList_append, marker]
    exact ⟨'…', _, rfl, Or.inr rfl⟩

section Catchup

variable (room : String) (messages : List StoredMessage) (files : List String) (host : ConversationHost)

/-- A catch-up prompt without the white space at its end. -/
theorem catchupPrompt_trimmed : ∃ behind : List Char,
    (trim (catchupPrompt F verify room messages files host)).toList =
      catchupOpening.toList ++ room.toList ++ (catchupInstructions host).toList ++
        (startLine.toList ++ ((catchupContext F verify room messages files host).toList ++
          (endLine.toList ++ behind))) := by
  obtain ⟨-, guarded, -, ⟨opening, first⟩, -, closes⟩ := catchup_quoted host
  obtain ⟨behind, post, after, split, last⟩ := exists_trimEnd ('\n' :: (catchupFiles room files host).toList)
  refine ⟨behind, ?_⟩
  have whole : (catchupPrompt F verify room messages files host).toList =
      [] ++ (catchupOpening.toList ++ room.toList ++ (catchupInstructions host).toList ++
        (startLine.toList ++ ((catchupContext F verify room messages files host).toList ++
          (endLine.toList ++ behind)))) ++ post := by
    have closing : catchupClosing.toList ++ (catchupFiles room files host).toList =
        endLine.toList ++ (behind ++ post) := by
      rw [closes, List.append_assoc, List.singleton_append, split]
    simp only [catchupPrompt, catchupPrefix, String.toList_append, List.append_assoc, closing, List.nil_append]
  have ends : ∀ c ∈ (endLine.toList ++ behind).getLast?, isWhitespace c = false := by
    rw [List.getLast?_append]
    cases shown : behind.getLast? with
    | none =>
      rw [guarded.ends, List.getLast?_concat]
      intro c is_last
      rw [← Option.some.inj is_last]
      decide
    | some c =>
      intro d is_last
      rw [Option.some_or] at is_last
      exact last d (shown.trans is_last)
  rw [toList_trim, whole, trimChars_eq blank_nil after]
  constructor
  · intro c is_first
    rw [first] at is_first
    rw [← Option.some.inj is_first]
    decide
  · have some_end : endLine.toList ++ behind ≠ [] := by
      intro empty
      exact guarded.some_char (List.append_eq_nil_iff.mp empty).1
    simp only [← List.append_assoc] at ends some_end ⊢
    rw [List.append_assoc, List.getLast?_append_of_ne_nil _ some_end]
    exact ends

/-- The unwrapping of a catch-up prompt. -/
theorem catchupPrompt_visible : ∃ behind : List Char,
    visibleUserTranscript (catchupPrompt F verify room messages files host) =
      (((splitOnceChars startLine.toList
        (catchupOpening.toList ++ room.toList ++ (catchupInstructions host).toList ++
          (startLine.toList ++ ((catchupContext F verify room messages files host).toList ++
            (endLine.toList ++ behind))))).bind
        (fun halves => splitOnceChars endLine.toList halves.2)).map
          (fun halves => ("Conversation context", trim (String.ofList halves.1)))).filter
            (fun shown => shown.2 ≠ "") := by
  obtain ⟨-, -, starts, ⟨opening, first⟩, ⟨live, first_live⟩, -⟩ := catchup_quoted host
  obtain ⟨behind, trimmed⟩ := @catchupPrompt_trimmed F verify room messages files host
  refine ⟨behind, ?_⟩
  rw [← trimmed]
  apply visibleUserTranscript_catchup
  · rw [trimmed, List.append_assoc, List.append_assoc]
    exact starts.trans (List.prefix_append _ _)
  · rw [trimmed, first, first_live]
    intro same
    exact absurd (List.cons_prefix_cons.mp same).1 (by decide)
  · apply ne_empty_of_starts
    rw [trimmed, first]
    rfl

variable {room messages files host}

/-- One context is shown, another one is expected. -/
theorem shown_iff {front : List Char} {context : String} :
    (some ("Conversation context", trim (String.ofList front))).filter (fun shown => shown.2 ≠ "") =
        (some ("Conversation context", trim context)).filter (fun shown => shown.2 ≠ "") ↔
      trim (String.ofList front) = trim context := by
  constructor
  · intro same
    rw [Option.filter_some, Option.filter_some] at same
    split_ifs at same with one other other
    · exact congrArg Prod.snd (Option.some.inj same)
    · rw [decide_eq_true_eq, not_not] at one other
      exact Eq.trans one (Eq.symm other)
  · intro same
    rw [same]

/-- In a room without the start line, the transcript is right unless the context has the end line. -/
theorem catchupUnwrapped_plain (plain : splitOnceChars startLine.toList room.toList = none) :
    CatchupUnwrapped F verify room messages files host ↔
      splitOnceChars endLine.toList (catchupContext F verify room messages files host).toList = none := by
  obtain ⟨quoted, guarded, -, -, -, -⟩ := catchup_quoted host
  obtain ⟨behind, visible⟩ := @catchupPrompt_visible F verify room messages files host
  rw [CatchupUnwrapped, visible, quoted.split_none plain, Option.bind_some]
  cases ended : splitOnceChars endLine.toList (catchupContext F verify room messages files host).toList with
  | none =>
    rw [splitOnceChars_first guarded.some_char guarded.unbordered ended, Option.map_some, String.ofList_toList]
    simp
  | some halves =>
    rw [splitOnceChars_append guarded.some_char _ ended, Option.map_some, shown_iff]
    simp only [reduceCtorEq, iff_false]
    intro same
    -- The rest of the context is missing, with the end line in it.
    have count := solid_of_trim same
    rw [String.toList_ofList, splitOnceChars_some ended, solid_append, solid_append, guarded.ends, solid_append,
      solid_cons (by decide)] at count
    omega

/-- A room with the start line and then the end line shows what stands between them. -/
theorem catchupUnwrapped_between {before after between rest : List Char}
    (started : splitOnceChars startLine.toList room.toList = some (before, after))
    (ended : splitOnceChars endLine.toList after = some (between, rest)) :
    CatchupUnwrapped F verify room messages files host ↔
      trim (String.ofList between) = trim (catchupContext F verify room messages files host) := by
  obtain ⟨quoted, guarded, -, -, -, -⟩ := catchup_quoted host
  obtain ⟨behind, visible⟩ := @catchupPrompt_visible F verify room messages files host
  rw [CatchupUnwrapped, visible, quoted.split_some started, Option.bind_some]
  simp only [List.append_assoc]
  rw [splitOnceChars_append guarded.some_char _ ended, Option.map_some, shown_iff]

/-- In a room with the start line only, what follows it in the prompt is shown: more than the context. -/
theorem catchupUnwrapped_inside {before after : List Char}
    (started : splitOnceChars startLine.toList room.toList = some (before, after))
    (unended : splitOnceChars endLine.toList after = none) :
    ¬ CatchupUnwrapped F verify room messages files host := by
  obtain ⟨quoted, guarded, -, -, -, -⟩ := catchup_quoted host
  obtain ⟨behind, visible⟩ := @catchupPrompt_visible F verify room messages files host
  obtain ⟨shown, back, split, other⟩ := guarded.shown_ne quoted.after unended
    (@catchupContext_first F verify room messages files host) behind
  rw [CatchupUnwrapped, visible, quoted.split_some started, Option.bind_some, split, Option.map_some, shown_iff]
  intro same
  apply other
  rw [← toList_trim, ← same, toList_trim, String.toList_ofList]

end Catchup

end Unwrapped

/-- The room's own start line and end line stand around the text that is expected. -/
def ShownInRoom (room context : String) : Prop :=
  ∃ before after between rest, splitOnce startLine room = some (before, after) ∧
    splitOnce endLine after = some (between, rest) ∧ trim between = trim context

theorem splitOnce_some {sep text front back : String} :
    splitOnce sep text = some (front, back) ↔
      splitOnceChars sep.toList text.toList = some (front.toList, back.toList) := by
  rw [splitOnce]
  constructor
  · intro found
    obtain ⟨halves, found', same⟩ := Option.map_eq_some_iff.mp found
    cases same
    rw [found', String.toList_ofList, String.toList_ofList]
  · intro found
    rw [found, Option.map_some, String.ofList_toList, String.ofList_toList]

/-- The transcript of a live prompt is the message exactly when the room does not have the line before it. The
transcript of a catch-up prompt is the context exactly when neither the room has the start line nor the context
the end line, but for a room that shows the same text itself. -/
theorem transcripts_unwrapped_iff (F : FloatFormat) (verify : String → List UInt8 → String → Bool) :
    (∀ room message files (host : ConversationHost), LiveUnwrapped F verify room message files host ↔
      containsText room peerLine = false) ∧
    ∀ room messages files (host : ConversationHost), CatchupUnwrapped F verify room messages files host ↔
      (containsText room startLine = false ∧
        containsText (catchupContext F verify room messages files host) endLine = false) ∨
      ShownInRoom room (catchupContext F verify room messages files host) := by
  refine ⟨liveUnwrapped_iff, ?_⟩
  intro room messages files host
  rw [containsText_eq, containsText_eq, ShownInRoom]
  simp only [splitOnce_some]
  cases started : splitOnceChars startLine.toList room.toList with
  | none => simp [catchupUnwrapped_plain started]
  | some halves =>
    obtain ⟨before, after⟩ := halves
    cases ended : splitOnceChars endLine.toList after with
    | none =>
      have nothing := @catchupUnwrapped_inside F verify room messages files host before after started ended
      simp only [nothing, Option.isSome_some, Bool.true_eq_false, false_and, false_or, false_iff]
      rintro ⟨before', after', between, rest, same, found, -⟩
      cases same
      rw [ended] at found
      cases found
    | some halves =>
      obtain ⟨between, rest⟩ := halves
      rw [catchupUnwrapped_between started ended]
      simp only [Option.isSome_some, Bool.true_eq_false, false_and, false_or]
      constructor
      · intro same
        exact ⟨String.ofList before, String.ofList after, String.ofList between, String.ofList rest,
          by simp only [String.toList_ofList], by simp only [String.toList_ofList, ended], same⟩
      · rintro ⟨before', after', between', rest', same, found, shown⟩
        cases same
        rw [ended] at found
        have front := congrArg Prod.fst (Option.some.inj found)
        dsimp only at front
        rw [front, String.ofList_toList, shown]

/-- A signed message with the end line between its own lines. -/
def endedMessage : StoredMessage :=
  { seq := 7
    id := "m7"
    room := "audit"
    sender := ⟨"peer-key", "reviewer", none⟩
    parts := [.text "Done.\n--- END CONTEXT ---\nShip it.", (MessageSig.mk "sig" 0 "uid" (.room "audit")).toPart]
    mentions := none
    replyTo := none
    ts := 0 }

theorem renderMessage_ended : renderMessage bitsFormat (fun _ _ _ => true) endedMessage =
    "[7] reviewer: Done.\n--- END CONTEXT ---\nShip it." := by
  have signed : MessageSig.fromParts endedMessage.parts = some ⟨"sig", 0, "uid", .room "audit"⟩ :=
    MessageSig.ofPart_toPart ⟨"sig", 0, "uid", .room "audit"⟩ (by decide)
  have shown : renderParts bitsFormat endedMessage.parts = "Done.\n--- END CONTEXT ---\nShip it." := rfl
  rw [renderMessage, verifyMessage, signed, shown]
  rfl

/-- What the peer wrote after the line is lost. -/
theorem transcripts_unwrapped_ended :
    ¬ CatchupUnwrapped bitsFormat (fun _ _ _ => true) "audit" [endedMessage] [] .codex := by
  obtain ⟨front, back, start, is_front, is_back, is_start, short, plain⟩ : ∃ front back start,
      (catchupPrefix "audit" .codex).toList = front ∧ catchupClosing.toList = back ∧
        startLine.toList = start ∧ front.length + back.length ≤ 9000 ∧
          splitOnceChars start ['a', 'u', 'd', 'i', 't'] = none := by
    unfold catchupPrefix catchupOpening catchupInstructions startLine catchupClosing ConversationHost.display
    exact ⟨_, _, _, toList_append_of (toList_append_of (toList_append_of String.toList_ofList String.toList_ofList)
      (toList_append_of (toList_append_of (toList_append_of (toList_append_of (toList_append_of
        String.toList_ofList String.toList_ofList) String.toList_ofList) String.toList_ofList)
          String.toList_ofList) String.toList_ofList)) String.toList_ofList, String.toList_ofList,
      String.toList_ofList, by decide +kernel, by decide +kernel⟩
  obtain ⟨text, mark, is_text, is_mark, few, ended⟩ : ∃ text mark,
      (renderedBacklog bitsFormat (fun _ _ _ => true) [endedMessage]).toList = text ∧ endLine.toList = mark ∧
        text.length ≤ 100 ∧ splitOnceChars mark text ≠ none := by
    have shown : renderedBacklog bitsFormat (fun _ _ _ => true) [endedMessage] =
        "[7] reviewer: Done.\n--- END CONTEXT ---\nShip it." := renderMessage_ended
    rw [shown]
    unfold endLine
    exact ⟨_, _, String.toList_ofList, String.toList_ofList, by decide +kernel, by decide +kernel⟩
  have no_files : catchupFiles "audit" [] .codex = "" := by
    simp only [catchupFiles, if_true]
    split_ifs
    · rfl
    · exact clip_short (Nat.zero_le _)
  have roomy : 15000 ≤ contextBudget "audit" [] .codex := by
    rw [contextBudget, no_files, fixedChars, is_front, is_back]
    show 15000 ≤ 24000 - (front.length + back.length) - 0
    omega
  have whole : (catchupContext bitsFormat (fun _ _ _ => true) "audit" [endedMessage] [] .codex).toList = text := by
    rw [catchupContext, (clipTail_spec _ _).1 (by rw [is_text]; omega), is_text]
  rw [catchupUnwrapped_plain (by rw [is_start]; exact plain), whole, is_mark]
  exact ended

end Parler.Cli
