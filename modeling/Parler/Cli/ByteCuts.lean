import Parler.Cli.BacklogWindow
import Parler.Cli.StopHooks

/-!
# Texts that are cut by bytes

`short` of `crates/parler-cli/src/lib.rs` cuts an id at its twelfth byte, and `cmd_hook` cuts a prompt at its
thousandth and the output of a tool at its two thousandth; the program panics where that byte is inside a
character. Here are the tools' renderers and the hook with their panics: `none` is a panic.
-/

namespace Parler.Cli

open Parler.Lib Parler.Protocol Parler.Connector

section Render

variable {F : FloatFormat} {verify : String → List UInt8 → String → Bool}

/-! ## The tools -/

/-- `MSG_MAX_CHARS` -/
def msgMaxChars : Nat := 1200

variable (F verify) in
/-- `render_message_budgeted` -/
def tryRenderBudgeted (m : StoredMessage) : Option String :=
  (tryRenderMessage F verify m).map fun full =>
    let count := full.toList.length
    if count ≤ msgMaxChars then full
    else String.ofList (full.toList.take msgMaxChars) ++ "…[+" ++ toString (count - msgMaxChars) ++
      " chars — parler_recv since=" ++ toString (m.seq - 1) ++ " limit=1 for full]"

variable (F verify) in
/-- The messages of a tool's result, in full where it is a re-read. -/
def tryRenderAll (messages : List StoredMessage) (reRead : Bool) : Option String :=
  (messages.mapM (fun m => if reRead then tryRenderMessage F verify m else tryRenderBudgeted F verify m)).map
    (fun lines => "\n".intercalate lines)

variable (F) in
/-- Where `digest_backlog` finds the seed: it renders the bodies up to it. -/
def trySeedIndex : List StoredMessage → Option (Option Nat)
  | [] => some none
  | m :: messages => do
      let body ← tryRenderParts F m.parts
      if seedMarker.toList.isPrefixOf (body.toList.dropWhile isWhitespace) then some (some 0)
      else (trySeedIndex messages).map (fun index => index.map (fun i => i + 1))

/-- The line for the messages that a digest leaves out. -/
def omissionLine (count : Nat) (resume : Int) : String :=
  "— " ++ toString count ++ " earlier message(s) omitted; parler_recv since=" ++ toString resume ++
    " to re-read, parler_recall for decisions —"

variable (F verify) in
/-- `digest_backlog` -/
def tryDigest (messages : List StoredMessage) (mode : Backlog) : Option String :=
  if messages = [] then some "(no prior context yet)"
  else if mode = .full ∨ messages.length ≤ joinTail then tryRenderAll F verify messages true
  else do
    let tailStart := messages.length - joinTail
    let seed := (← trySeedIndex F messages).filter (fun i => i < tailStart)
    let first ← ((seed.bind (fun i => messages[i]?)).toList).mapM (tryRenderMessage F verify)
    let omittedStart := (seed.map (fun i => i + 1)).getD 0
    let omission := (((messages.take tailStart).drop omittedStart).head?.map (fun m =>
      omissionLine (tailStart - omittedStart) (m.seq - 1))).toList
    let tail ← (messages.drop tailStart).mapM (tryRenderMessage F verify)
    return "\n".intercalate (first ++ omission ++ tail)

variable (F) in
/-- The messages up to the seed, or all. -/
def upToSeed : List StoredMessage → List StoredMessage
  | [] => []
  | m :: messages => m :: if isSeed F m then [] else upToSeed messages

variable (F) in
/-- The messages that a digest renders, or looks at for the seed. -/
def digestReads (messages : List StoredMessage) (mode : Backlog) : List StoredMessage :=
  if mode = .full ∨ messages.length ≤ joinTail then messages
  else upToSeed F messages ++ messages.drop (messages.length - joinTail)

theorem tryRenderAll_isSome {messages : List StoredMessage} {reRead : Bool} :
    (tryRenderAll F verify messages reRead).isSome ↔ ∀ m ∈ messages, Showable m := by
  rw [tryRenderAll, Option.isSome_map, mapM_isSome]
  refine forall₂_congr (fun m _ => ?_)
  cases reRead with
  | true => exact tryRenderMessage_isSome
  | false => rw [if_neg (by simp), tryRenderBudgeted, Option.isSome_map, tryRenderMessage_isSome]

theorem trySeedIndex_cons {m : StoredMessage} {messages : List StoredMessage} :
    trySeedIndex F (m :: messages) =
      (tryRenderParts F m.parts).bind (fun _ =>
        if isSeed F m then some (some 0)
        else (trySeedIndex F messages).map (fun index => index.map (fun i => i + 1))) := by
  rw [trySeedIndex]
  refine Option.bind_congr (fun body shown => ?_)
  rw [tryRenderParts_eq shown]
  rfl

theorem trySeedIndex_isSome {messages : List StoredMessage} :
    (trySeedIndex F messages).isSome ↔ ∀ m ∈ upToSeed F messages, Showable m := by
  induction messages with
  | nil => simp [trySeedIndex, upToSeed]
  | cons m messages ih =>
    have first : (tryRenderParts F m.parts).isSome ↔ Showable m := tryRenderParts_isSome
    rw [trySeedIndex_cons, upToSeed, List.forall_mem_cons, ← first]
    cases tryRenderParts F m.parts with
    | none => simp
    | some body =>
      cases seed : isSeed F m with
      | true => simp
      | false => simpa using ih

theorem trySeedIndex_eq {messages : List StoredMessage} {index : Option Nat}
    (done : trySeedIndex F messages = some index) : index = messages.findIdx? (isSeed F) := by
  induction messages generalizing index with
  | nil => simpa [trySeedIndex] using done.symm
  | cons m messages ih =>
    rw [trySeedIndex_cons] at done
    obtain ⟨body, -, done⟩ := Option.bind_eq_some_iff.mp done
    rw [List.findIdx?_cons]
    split_ifs at done with seed
    · rw [if_pos seed]
      exact (Option.some.inj done).symm
    · obtain ⟨later, found, rfl⟩ := Option.map_eq_some_iff.mp done
      rw [if_neg seed, ih found]

/-- The seed that is found was looked at. -/
theorem mem_upToSeed {messages : List StoredMessage} {i : Nat} {m : StoredMessage}
    (found : messages.findIdx? (isSeed F) = some i) (there : messages[i]? = some m) :
    m ∈ upToSeed F messages := by
  induction messages generalizing i with
  | nil => cases there
  | cons first messages ih =>
    rw [List.findIdx?_cons] at found
    rw [upToSeed]
    split_ifs at found ⊢ with seed
    · cases found
      cases there
      exact List.mem_cons_self
    · obtain ⟨i', found', rfl⟩ := Option.map_eq_some_iff.mp found
      exact List.mem_cons_of_mem _ (ih found' there)

theorem tryDigest_isSome {messages : List StoredMessage} {mode : Backlog} :
    (tryDigest F verify messages mode).isSome ↔ ∀ m ∈ digestReads F messages mode, Showable m := by
  rw [tryDigest, digestReads]
  split_ifs with empty short
  · simp [empty]
  · simp [empty, upToSeed]
  · exact tryRenderAll_isSome
  · rw [List.forall_mem_append, ← trySeedIndex_isSome]
    have tail : ((messages.drop (messages.length - joinTail)).mapM (tryRenderMessage F verify)).isSome ↔
        ∀ m ∈ messages.drop (messages.length - joinTail), Showable m := by
      rw [mapM_isSome]
      exact forall₂_congr (fun m _ => tryRenderMessage_isSome)
    rw [← tail]
    cases found : trySeedIndex F messages with
    | none => simp
    | some index =>
      have looked : ∀ m ∈ upToSeed F messages, Showable m := trySeedIndex_isSome.mp (by rw [found]; rfl)
      have seed_shown : ((((index.filter (fun i => i < messages.length - joinTail)).bind
          (fun i => messages[i]?)).toList).mapM (tryRenderMessage F verify)).isSome := by
        rw [mapM_isSome]
        intro m member
        obtain ⟨i, kept, there⟩ := Option.bind_eq_some_iff.mp (Option.mem_toList.mp member)
        have is_index := (Option.filter_eq_some_iff.mp kept).1
        rw [trySeedIndex_eq found] at is_index
        exact tryRenderMessage_isSome.mpr (looked m (mem_upToSeed is_index there))
      obtain ⟨first, first_is⟩ := Option.isSome_iff_exists.mp seed_shown
      simp only [Option.bind_eq_bind, Option.bind_some, first_is, Option.isSome_some, true_and]
      cases (messages.drop (messages.length - joinTail)).mapM (tryRenderMessage F verify) <;> simp

end Render

/-! ## Shared files -/

/-- The id of a bundle, as `resolve_recent_blob` sees it, can be shortened. -/
def BlobShortens (p : Part) : Prop :=
  FileRef.fromPart p = none → ∀ b ∈ BundleRef.fromPart p, SlicesAt 12 b.blob

/-- The messages of a history that are read: the pages up to one that is not full. -/
def messagesRead : List (List StoredMessage) → List StoredMessage
  | [] => []
  | page :: pages => if page.length < 1000 then page else page ++ messagesRead pages

theorem sharedFile_isSome {seq : Int} {p : Part} : (sharedFile seq p).isSome ↔ BlobShortens p := by
  rw [sharedFile, BlobShortens]
  cases FileRef.fromPart p with
  | some f => simp
  | none =>
    cases BundleRef.fromPart p with
    | none => simp
    | some b =>
      have shortens := @short_isSome b.blob
      cases cut : short b.blob with
      | none => simpa [cut] using shortens
      | some id => simpa [cut] using shortens

theorem partFiles_isSome {seq : Int} {parts : List Part} :
    (partFiles seq parts).isSome ↔ ∀ p ∈ parts, BlobShortens p := by
  induction parts with
  | nil => simp [partFiles]
  | cons p parts ih =>
    rw [List.forall_mem_cons, ← ih, ← @sharedFile_isSome seq, partFiles]
    cases sharedFile seq p with
    | none => simp
    | some found => cases partFiles seq parts <;> simp

theorem messageFiles_isSome {messages : List StoredMessage} :
    (messageFiles messages).isSome ↔ ∀ m ∈ messages, ∀ p ∈ m.parts, BlobShortens p := by
  induction messages with
  | nil => simp [messageFiles]
  | cons m messages ih =>
    rw [List.forall_mem_cons, ← ih, ← @partFiles_isSome m.seq, messageFiles]
    cases partFiles m.seq m.parts with
    | none => simp
    | some files => cases messageFiles messages <;> simp

/-- The scan of a history to its end. -/
theorem scanPages_isSome {hint : Option String} {best : Option SharedFile} {pages : List (List StoredMessage)} :
    (scanPages hint best (pages ++ [[]])).isSome ↔
      ∀ m ∈ messagesRead pages, ∀ p ∈ m.parts, BlobShortens p := by
  induction pages generalizing best with
  | nil => simp [scanPages, messagesRead]
  | cons page pages ih =>
    rw [List.cons_append, scanPages, messagesRead, scanPage_eq]
    by_cases empty : page = []
    · simp [empty]
    · have some_page : page.isEmpty = false := by simpa using empty
      have page_shortens := @messageFiles_isSome page
      rw [some_page, if_neg (by simp)]
      cases files : messageFiles page with
      | none =>
        have stuck : ¬ ∀ m ∈ page, ∀ p ∈ m.parts, BlobShortens p := by simpa [files] using page_shortens
        refine iff_of_false (by simp) (fun all => stuck (fun m member => all m ?_))
        split_ifs
        · exact member
        · exact List.mem_append_left _ member
      | some files =>
        have passes : ∀ m ∈ page, ∀ p ∈ m.parts, BlobShortens p := by simpa [files] using page_shortens
        simp only [Option.map_some, Option.bind_eq_bind, Option.bind_some]
        split_ifs with last
        · exact iff_of_true rfl passes
        · rw [ih, List.forall_mem_append]
          exact (and_iff_right passes).symm

/-! ## The hook -/

variable (F : FloatFormat)

theorem truncateAt_isSome {n : Nat} {text : String} : (truncateAt n text).isSome ↔ SlicesAt n text := by
  rw [truncateAt]
  split_ifs with long
  · rw [Option.isSome_map]
    exact fromUTF8?_take_isSome
  · exact iff_of_true rfl (Or.inl (Nat.le_of_not_lt long))

/-- The prompt in a payload. -/
def hookPrompt (payload : Option Map) : String := trim (payloadText payload ["prompt", "text", "message"] "")

/-- The output of the tool in a payload. -/
def hookOutput (payload : Option Map) : String :=
  outputText F (((["tool_response", "tool_output", "toolResult"].findSome? (payloadGet payload)).map
    Value.json).getD .null)

/-- The text of a payload that a mirror cuts can be cut. -/
def Lifecycle.Cuts (payload : Option Map) : Lifecycle → Prop
  | .promptSubmit => SlicesAt 1000 (hookPrompt payload)
  | .toolUse => SlicesAt 2000 (hookOutput F payload)
  | .sessionStart | .sessionEnd => True

theorem mirrorParts_isSome {name kind : String} {payload : Option Map} {event : Lifecycle} :
    (mirrorParts F name kind payload event).isSome ↔ event.Cuts F payload := by
  cases event with
  | sessionStart => exact iff_of_true rfl trivial
  | sessionEnd => exact iff_of_true rfl trivial
  | promptSubmit =>
    rw [mirrorParts, Lifecycle.Cuts]
    split_ifs with empty
    · rw [hookPrompt, empty]
      exact iff_of_true rfl (Or.inl (by decide))
    · rw [Option.isSome_map, truncateAt_isSome]
      rfl
  | toolUse =>
    rw [mirrorParts, Lifecycle.Cuts, Option.isSome_map, truncateAt_isSome]
    rfl

/-- Exactly when texts from outside are shown and mirrored without a panic. -/
theorem outside_text_passes_iff (verify : String → List UInt8 → String → Bool) :
    (∀ m, (tryRenderMessage F verify m).isSome ↔ Showable m) ∧
    (∀ room w messages, (BacklogWindow.tryPushAll F verify room w messages).isSome ↔
      ∀ m ∈ messages, validInConversation F verify m room = true → Showable m) ∧
    (∀ messages reRead, (tryRenderAll F verify messages reRead).isSome ↔ ∀ m ∈ messages, Showable m) ∧
    (∀ messages mode, (tryDigest F verify messages mode).isSome ↔
      ∀ m ∈ digestReads F messages mode, Showable m) ∧
    (∀ name pages, (scanPages (Option.map nameHint name) none (pages ++ [[]])).isSome ↔
      ∀ m ∈ messagesRead pages, ∀ p ∈ m.parts, BlobShortens p) ∧
    ∀ name kind payload event, (mirrorParts F name kind payload event).isSome ↔ event.Cuts F payload := by
  refine ⟨fun m => tryRenderMessage_isSome, fun room w messages => BacklogWindow.tryPushAll_isSome F verify room,
    fun messages reRead => tryRenderAll_isSome, fun messages mode => tryDigest_isSome,
    fun name pages => scanPages_isSome, fun name kind payload event => mirrorParts_isSome F⟩

def wideTipMessage : StoredMessage :=
  { seq := 1
    id := "m1"
    room := "team"
    sender := ⟨"peer-key", "peer", none⟩
    parts := [wideTip.toPart]
    mentions := none
    replyTo := none
    ts := 0 }

/-- The payload of a prompt. -/
def promptPayload (text : String) : Option Map := some (Map.empty.insert "prompt" (.str text))

theorem hookPrompt_payload (text : String) : hookPrompt (promptPayload text) = trim text := rfl

/-- A character of two bytes after so many others. -/
def widePrompt (n : Nat) : String := String.ofList (List.replicate (n + 1) 'a' ++ ['é'])

theorem trim_widePrompt (n : Nat) : trim (widePrompt n) = widePrompt n := by
  have tight : Tight (List.replicate (n + 1) 'a' ++ ['é']) := by
    constructor
    · rintro c ⟨⟩
      decide +kernel
    · intro c last
      rw [List.getLast?_concat, Option.mem_some_iff] at last
      rw [← last]
      decide +kernel
  rw [trim, widePrompt, String.toList_ofList, trimChars_tight tight]

theorem not_slicesAt_widePrompt (n : Nat) : ¬ SlicesAt (n + 2) (widePrompt n) := by
  have letters : String.utf8Len (List.replicate (n + 1) 'a') = n + 1 := by
    induction n + 1 with
    | zero => rfl
    | succ k ih =>
      rw [List.replicate_succ, String.utf8Len_cons, ih]
      rfl
  have wide : String.utf8Len ['é'] = 2 := by decide +kernel
  have inside := @not_slicesAt_inside (n + 2) (List.replicate (n + 1) 'a') [] 'é'
    (by omega) (by rw [String.utf8Len_append]; omega)
  rwa [List.append_nil] at inside

/-- Neither the message nor the prompt comes through. -/
theorem wide_texts_panic :
    tryRenderMessage bitsFormat (fun _ _ _ => true) wideTipMessage = none ∧
      mirrorParts bitsFormat "dev" "UserPromptSubmit" (promptPayload (widePrompt 998)) .promptSubmit = none := by
  constructor
  · rw [← Option.not_isSome_iff_eq_none, tryRenderMessage_isSome]
    exact fun shown => wideTip_uncut (shown wideTip.toPart List.mem_cons_self)
  · rw [← Option.not_isSome_iff_eq_none]
    intro done
    have cuts : SlicesAt 1000 (hookPrompt (promptPayload (widePrompt 998))) :=
      (mirrorParts_isSome bitsFormat).mp done
    rw [hookPrompt_payload, trim_widePrompt] at cuts
    exact not_slicesAt_widePrompt 998 cuts

end Parler.Cli
