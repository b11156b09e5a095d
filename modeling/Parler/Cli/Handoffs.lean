import Parler.Cli.Texts
import Parler.Cli.Worker

/-!
# Handoffs in the output of a runner

`parse_runner_result` and the end of `run_process` from `crates/parler-cli/src/worker.rs`. A runner asks
somebody else to go on in the last line of its output. The visible hosts read that line before they clip the
text; the worker clips the output first.
-/

namespace Parler.Cli

open Parler.Lib Parler.Protocol

/-- `MAX_RESULT_CHARS` -/
def maxResultChars : Nat := 16000

/-- `MAX_ERROR_CHARS` -/
def maxErrorChars : Nat := 1000

structure RunnerResult where
  body : String
  continuation : Option HandoffRef
  deriving DecidableEq

inductive RunnerFailure where
  | notInstalled (runner : String)
  | notAuthed (runner : String)
  | timedOut (runner : String) (secs : Nat)
  | failed (runner detail : String)
  deriving DecidableEq

def RunnerFailure.remedy : RunnerFailure → String
  | .notInstalled runner =>
      "'" ++ runner ++ "' is not installed (not on PATH); install it, then restart the worker"
  | .notAuthed runner =>
      let login := if runner = "claude" then "claude auth login" else "codex login"
      "'" ++ runner ++ "' is not logged in; run `" ++ login ++ "`, then restart the worker"
  | .timedOut runner secs => runner ++ " exceeded the " ++ toString secs ++ "s turn timeout"
  | .failed runner detail => runner ++ " failed: " ++ detail

/-- The end of `run_process`: what the runner wrote, when it exited with success. -/
def finalResponse (runner written : String) : Except RunnerFailure String :=
  let output := trim written
  if output = "" then .error (.failed runner "produced no final response")
  else .ok (clip output maxResultChars)

/-- The one-line JSON of a handoff, as `serde_json::to_string` writes its fields. -/
def handoffJson (h : HandoffRef) : String :=
  String.ofList (render bitsFormat (.obj
    ([("next", .str h.next)] ++ (h.summary.map (fun s => ("summary", Json.str s))).toList ++
      (h.addressee.map (fun s => ("to", Json.str s))).toList ++
      (h.bundle.map (fun s => ("bundle", Json.str s))).toList)))

section Parse

/- Reading a JSON object into a handoff. -/
variable (readHandoff : String → Option HandoffRef)

def parseRunnerResult (output : String) : RunnerResult :=
  let output := trim output
  match rsplitOnce '\n' output with
  | none => ⟨output, none⟩
  | some (body, finalLine) =>
      match afterMarker handoffMarker (trim finalLine) with
      | none => ⟨output, none⟩
      | some payload =>
          match readHandoff payload with
          | none => ⟨output, none⟩
          | some handoff =>
              let addressed := handoff.addressee.any (fun name => trim name ≠ "")
              if trim body = "" ∨ trim handoff.next = "" ∨ !addressed then ⟨output, none⟩
              else ⟨trim body, some handoff⟩

/-- What the worker makes of the end of a run. -/
def runnerOutcome (outcome : Except RunnerFailure String) (elapsedMs : Nat) : RunnerOutcome :=
  match outcome with
  | .ok output =>
      let result := parseRunnerResult readHandoff output
      ⟨true, clip result.body maxResultChars, result.continuation, elapsedMs⟩
  | .error failure => ⟨false, clip failure.remedy maxErrorChars, none, elapsedMs⟩

/-- A handoff with an addressee and something to do. -/
def Addressed (h : HandoffRef) : Prop :=
  h.addressee.any (fun name => trim name ≠ "") = true ∧ trim h.next ≠ ""

/-- The last line of the output is the marker and a valid handoff, and there is a body before it. -/
def FinalHandoff (output body : String) (h : HandoffRef) : Prop :=
  ∃ line payload : String, (trim output).toList = body.toList ++ '\n' :: line.toList ∧
    '\n' ∉ line.toList ∧ (trim line).toList = handoffMarker.toList ++ payload.toList ∧
    readHandoff payload = some h ∧ Addressed h ∧ trim body ≠ ""

/-- Both parsers read the output alike, a handoff written after a body is found, an output without a valid
last line is left whole, and the worker's outcome is that reading. -/
structure HandoffKept (runner output : String) (elapsedMs : Nat) : Prop where
  alike : parseHandoff readHandoff output =
    ((parseRunnerResult readHandoff output).body, (parseRunnerResult readHandoff output).continuation)
  written : ∀ body h, output = body ++ "\n" ++ handoffMarker ++ handoffJson h → trim body ≠ "" →
    Addressed h → readHandoff (handoffJson h) = some h → parseHandoff readHandoff output = (trim body, some h)
  whole : (¬ ∃ body h, FinalHandoff readHandoff output body h) →
    parseHandoff readHandoff output = (trim output, none)
  worked : runnerOutcome readHandoff (finalResponse runner output) elapsedMs =
    ⟨true, clip (parseHandoff readHandoff output).1 maxResultChars, (parseHandoff readHandoff output).2,
      elapsedMs⟩

variable {readHandoff} {output body : String} {h : HandoffRef}

theorem parseRunnerResult_alike (output : String) : parseHandoff readHandoff output =
    ((parseRunnerResult readHandoff output).body, (parseRunnerResult readHandoff output).continuation) := by
  simp only [parseHandoff, parseRunnerResult]
  generalize rsplitOnce '\n' (trim output) = halves
  rcases halves with - | ⟨body, line⟩
  · rfl
  · rcases marked : afterMarker handoffMarker (trim line) with - | payload
    · simp only [marked]
    · rcases read : readHandoff payload with - | handoff
      · simp only [marked, read]
      · simp only [marked, read]
        generalize handoff.addressee.any (fun name => decide (trim name ≠ "")) = addressed
        cases addressed <;> by_cases next : trim handoff.next = "" <;>
          by_cases empty : trim body = "" <;> simp [next, empty]

theorem parseHandoff_final (final : FinalHandoff readHandoff output body h) :
    parseHandoff readHandoff output = (trim body, some h) := by
  obtain ⟨line, payload, split, one_line, marked, read, ⟨addressee, next⟩, some_body⟩ := final
  have halves : rsplitOnce '\n' (trim output) = some (body, line) := rsplitOnce_iff.mpr ⟨split, one_line⟩
  have rest : afterMarker handoffMarker (trim line) = some payload := afterMarker_iff.mpr marked
  simp only [parseHandoff, halves, rest, read]
  rw [if_pos ⟨addressee, next, some_body⟩]

theorem parseHandoff_whole (without : ¬ ∃ body h, FinalHandoff readHandoff output body h) :
    parseHandoff readHandoff output = (trim output, none) := by
  simp only [parseHandoff]
  rcases halves : rsplitOnce '\n' (trim output) with - | ⟨body, line⟩
  · rfl
  · obtain ⟨split, one_line⟩ := rsplitOnce_iff.mp halves
    rcases marked : afterMarker handoffMarker (trim line) with - | payload
    · simp only [marked]
    · rcases read : readHandoff payload with - | handoff
      · simp only [marked, read]
      · simp only [marked, read]
        rw [if_neg]
        rintro ⟨addressee, next, some_body⟩
        exact without ⟨body, handoff, line, payload, split, one_line, afterMarker_iff.mp marked, read,
          ⟨addressee, next⟩, some_body⟩

/-! ## One line of JSON -/

theorem newline_notMem_escapeChar (c : Char) : '\n' ∉ escapeChar c := by
  rcases escapeChar_cases c with ⟨-, text⟩ | ⟨-, text⟩ | ⟨n, -, text⟩ | ⟨-, -, text⟩
  · simp [text]
  · simp [text]
  · have plain : ∀ n : Fin 32, '\n' ∉ '\\' :: controlEscape n := by decide
    rw [text]
    exact plain n
  · intro member
    rw [text, List.mem_singleton] at member
    subst member
    exact absurd text (by decide)

theorem newline_notMem_quoted (s : String) : '\n' ∉ quoted s := by
  intro member
  rcases List.mem_cons.mp member with quote | member
  · cases quote
  · rcases List.mem_append.mp member with escaped | quote
    · obtain ⟨c, -, within⟩ := List.mem_flatMap.mp escaped
      exact newline_notMem_escapeChar c within
    · cases List.mem_singleton.mp quote

/-- An object of strings is one line that ends in its brace. -/
theorem renderMoreFields_line {fields : List (String × Json)}
    (strings : ∀ field ∈ fields, ∃ s, field.2 = .str s) :
    '\n' ∉ renderMoreFields bitsFormat fields ∧
      ∃ front, renderMoreFields bitsFormat fields = front ++ ['\x7d'] := by
  induction fields with
  | nil => exact ⟨by simp [renderMoreFields], [], rfl⟩
  | cons field fields ih =>
    obtain ⟨⟨s, value⟩, strings⟩ := List.forall_mem_cons.mp strings
    obtain ⟨line, front, ends⟩ := ih strings
    obtain ⟨key, json⟩ := field
    cases value
    constructor
    · simp [renderMoreFields, renderField, render, newline_notMem_quoted, line]
    · exact ⟨',' :: (renderField bitsFormat (key, .str s) ++ front), by simp [renderMoreFields, ends]⟩

theorem handoffJson_line (h : HandoffRef) :
    '\n' ∉ (handoffJson h).toList ∧ ∃ front, (handoffJson h).toList = front ++ ['\x7d'] := by
  have strings : ∀ field ∈ (h.summary.map (fun s => ("summary", Json.str s))).toList ++
      (h.addressee.map (fun s => ("to", Json.str s))).toList ++
      (h.bundle.map (fun s => ("bundle", Json.str s))).toList, ∃ s, field.2 = .str s := by
    intro field member
    simp only [List.mem_append, Option.mem_toList, Option.map_eq_some_iff] at member
    rcases member with (⟨s, -, rfl⟩ | ⟨s, -, rfl⟩) | ⟨s, -, rfl⟩ <;> exact ⟨s, rfl⟩
  obtain ⟨line, front, ends⟩ := renderMoreFields_line strings
  have shape : (handoffJson h).toList = '\x7b' :: (quoted "next" ++ ':' :: quoted h.next ++
      renderMoreFields bitsFormat ((h.summary.map (fun s => ("summary", Json.str s))).toList ++
        (h.addressee.map (fun s => ("to", Json.str s))).toList ++
        (h.bundle.map (fun s => ("bundle", Json.str s))).toList)) := by
    simp [handoffJson, render, renderFields, renderField]
  rw [shape]
  constructor
  · simpa [newline_notMem_quoted] using line
  · exact ⟨'\x7b' :: (quoted "next" ++ ':' :: quoted h.next ++ front), by rw [ends]; simp⟩

theorem toList_handoffMarker :
    handoffMarker.toList = ['P', 'A', 'R', 'L', 'E', 'R', '_', 'H', 'A', 'N', 'D', 'O', 'F', 'F', ' '] := by
  unfold handoffMarker
  exact String.toList_ofList

/-- A handoff written on a line of its own after a body is the last line of the output. -/
theorem finalHandoff_written (written : output = body ++ "\n" ++ handoffMarker ++ handoffJson h)
    (some_body : trim body ≠ "") (addressed : Addressed h) (read : readHandoff (handoffJson h) = some h) :
    ∃ front, trim front = trim body ∧ FinalHandoff readHandoff output front h := by
  obtain ⟨line, jsonFront, brace⟩ := handoffJson_line h
  obtain ⟨pre, post, before, after, split, tight⟩ := exists_trimChars body.toList
  have some_char : trimChars body.toList ≠ [] := fun empty => some_body (trim_eq_empty.mpr empty)
  obtain ⟨c, cs, first⟩ := List.exists_cons_of_ne_nil some_char
  have marker : handoffMarker.toList = 'P' :: handoffMarker.toList.drop 1 := by rw [toList_handoffMarker]; rfl
  have one_line : '\n' ∉ (handoffMarker ++ handoffJson h).toList := by
    rw [String.toList_append, List.mem_append, not_or]
    exact ⟨by rw [toList_handoffMarker]; decide, line⟩
  have tight_line : Tight (handoffMarker ++ handoffJson h).toList := by
    constructor
    · rw [String.toList_append, marker, List.cons_append]
      intro d is_first
      rw [← Option.some.inj is_first]
      decide
    · rw [String.toList_append, brace, ← List.append_assoc, List.getLast?_concat]
      intro d is_last
      rw [← Option.some.inj is_last]
      decide
  have tight_output : Tight (trimChars body.toList ++ post ++ '\n' :: (handoffMarker ++ handoffJson h).toList) := by
    constructor
    · rw [first]
      intro d is_first
      exact tight.first d (by rw [first]; exact is_first)
    · rw [List.getLast?_append_of_ne_nil _ (List.cons_ne_nil _ _), List.getLast?_cons_of_ne_nil]
      · exact tight_line.last
      · rw [String.toList_append, marker]
        exact List.cons_ne_nil _ _
  have trimmed : (trim output).toList =
      trimChars body.toList ++ post ++ '\n' :: (handoffMarker ++ handoffJson h).toList := by
    have whole : output.toList =
        pre ++ (trimChars body.toList ++ post ++ '\n' :: (handoffMarker ++ handoffJson h).toList) ++ [] := by
      rw [written, String.append_assoc, String.toList_append, String.toList_append]
      nth_rewrite 1 [split]
      simp
    rw [toList_trim, whole, trimChars_eq before blank_nil tight_output]
  refine ⟨String.ofList (trimChars body.toList ++ post), ?_, handoffMarker ++ handoffJson h, handoffJson h,
    ?_, one_line, ?_, read, addressed, ?_⟩
  · rw [trim, String.toList_ofList]
    exact congrArg String.ofList (by simpa using trimChars_eq blank_nil after tight)
  · rw [trimmed, String.toList_ofList]
  · rw [toList_trim, trimChars_tight tight_line, String.toList_append]
  · rw [trim, String.toList_ofList]
    intro empty
    apply some_body
    rw [← empty]
    exact congrArg String.ofList (by simpa using (trimChars_eq blank_nil after tight).symm)

/-- A line that was cut is no handoff, for no JSON ends in an ellipsis. -/
theorem not_finalHandoff_cut (closed : ∀ text h, readHandoff text = some h → text.toList.getLast? ≠ some '…')
    {front : List Char} (cut : output.toList = front ++ ['…']) : ¬ FinalHandoff readHandoff output body h := by
  rintro ⟨line, payload, split, one_line, marked, read, -, -⟩
  -- The ellipsis is the last character of the output, of its last line, and of the payload.
  have plain : isWhitespace '…' = false := by decide
  obtain ⟨front', trimmed⟩ := trimChars_concat front plain
  rw [toList_trim, cut, trimmed] at split
  have ends_line : line.toList.getLast? = some '…' := by
    have ends := congrArg List.getLast? split
    rw [List.getLast?_concat, List.getLast?_append] at ends
    cases chars : line.toList with
    | nil => simp [chars] at ends
    | cons c cs => simpa [chars] using ends.symm
  obtain ⟨spaces, line_split⟩ := List.getLast?_eq_some_iff.mp ends_line
  obtain ⟨front'', trimmed_line⟩ := trimChars_concat spaces plain
  rw [toList_trim, line_split, trimmed_line] at marked
  have ends := congrArg List.getLast? marked
  rw [List.getLast?_concat, List.getLast?_append] at ends
  have marker : handoffMarker.toList.getLast? = some ' ' := by rw [toList_handoffMarker]; rfl
  cases last : payload.toList.getLast? with
  | none =>
    rw [last, marker] at ends
    exact absurd ends (by decide)
  | some c =>
    rw [last] at ends
    exact closed payload h read (last.trans ends.symm)

theorem runnerOutcome_ok (runner : String) (elapsedMs : Nat) (some_output : trim output ≠ "") :
    runnerOutcome readHandoff (finalResponse runner output) elapsedMs =
      ⟨true, clip (parseHandoff readHandoff (clip (trim output) maxResultChars)).1 maxResultChars,
        (parseHandoff readHandoff (clip (trim output) maxResultChars)).2, elapsedMs⟩ := by
  have response : finalResponse runner output = .ok (clip (trim output) maxResultChars) := by
    simp only [finalResponse]
    rw [if_neg some_output]
  rw [response, runnerOutcome, parseRunnerResult_alike]

theorem parseHandoff_cut (closed : ∀ text h, readHandoff text = some h → text.toList.getLast? ≠ some '…')
    (long : maxResultChars < (trim output).toList.length) :
    parseHandoff readHandoff (clip (trim output) maxResultChars) =
      (clip (trim output) maxResultChars, none) := by
  rw [parseHandoff_whole, trim_clip (by decide) (trim_trim output)]
  rintro ⟨body, h, final⟩
  exact not_finalHandoff_cut closed (clip_long long) final

/-- The handoff at the end of an output that has to be clipped is lost. -/
theorem not_handoffKept (closed : ∀ text h, readHandoff text = some h → text.toList.getLast? ≠ some '…')
    {runner : String} {elapsedMs : Nat} (final : FinalHandoff readHandoff output body h)
    (long : maxResultChars < (trim output).toList.length) :
    ¬ HandoffKept readHandoff runner output elapsedMs := by
  intro kept
  have some_output : trim output ≠ "" := by
    intro empty
    rw [empty] at long
    exact absurd long (by decide)
  have worked := kept.worked
  rw [runnerOutcome_ok runner elapsedMs some_output, parseHandoff_cut closed long,
    parseHandoff_final final] at worked
  exact absurd (congrArg RunnerOutcome.continuation worked) (by simp)

end Parse

/-- The worker passes on what stands in the last line of an output, unless it has to clip the output. -/
theorem handoffKept_iff (readHandoff : String → Option HandoffRef)
    (closed : ∀ text h, readHandoff text = some h → text.toList.getLast? ≠ some '…')
    (runner output : String) (elapsedMs : Nat) (some_output : trim output ≠ "") :
    HandoffKept readHandoff runner output elapsedMs ↔
      ((∃ body h, FinalHandoff readHandoff output body h) → (trim output).toList.length ≤ maxResultChars) := by
  have again : parseHandoff readHandoff (trim output) = parseHandoff readHandoff output := by
    simp only [parseHandoff, trim_trim]
  constructor
  · rintro kept ⟨body, h, final⟩
    by_contra long
    exact not_handoffKept closed final (by omega) kept
  · intro short
    refine ⟨parseRunnerResult_alike output, ?_, parseHandoff_whole, ?_⟩
    · intro body h written some_body addressed read
      obtain ⟨front, same, final⟩ := finalHandoff_written written some_body addressed read
      rw [parseHandoff_final final, same]
    · rw [runnerOutcome_ok runner elapsedMs some_output]
      by_cases fits : (trim output).toList.length ≤ maxResultChars
      · rw [clip_short fits, again]
      · -- A clipped output has no handoff, and the whole one has none either.
        have without : ¬ ∃ body h, FinalHandoff readHandoff output body h := fun final => fits (short final)
        have limit : (clip (trim output) maxResultChars).toList.length ≤ maxResultChars :=
          length_clip_le (by decide)
        rw [parseHandoff_cut closed (by omega), parseHandoff_whole without, clip_short limit]

def reviewHandoff : HandoffRef := ⟨"review the patch", some "wrote it", some "reviewer", none⟩

/-- A reader of one line. -/
def readReview (text : String) : Option HandoffRef :=
  if text = handoffJson reviewHandoff then some reviewHandoff else none

theorem readReview_closed (text : String) (h : HandoffRef) (read : readReview text = some h) :
    text.toList.getLast? ≠ some '…' := by
  rw [readReview] at read
  split_ifs at read with same
  obtain ⟨-, front, ends⟩ := handoffJson_line reviewHandoff
  rw [same, ends, List.getLast?_concat]
  decide

theorem reviewHandoff_addressed : Addressed reviewHandoff := by
  constructor
  · show decide (trim "reviewer" ≠ "") = true
    rw [decide_eq_true_eq, Ne, trim_eq_empty, String.toList_ofList]
    decide
  · show trim "review the patch" ≠ ""
    rw [Ne, trim_eq_empty, String.toList_ofList]
    decide

theorem handoffKept_review :
    HandoffKept readReview "codex" ("Done.\n" ++ handoffMarker ++ handoffJson reviewHandoff) 5 := by
  obtain ⟨text, is_text, some_text, short⟩ : ∃ text,
      ("Done.\n" ++ handoffMarker ++ handoffJson reviewHandoff).toList = text ∧ trimChars text ≠ [] ∧
        text.length ≤ maxResultChars := by
    unfold handoffMarker handoffJson
    exact ⟨_, toList_append_of (toList_append_of String.toList_ofList String.toList_ofList) String.toList_ofList,
      by decide +kernel, by decide +kernel⟩
  apply (handoffKept_iff readReview readReview_closed "codex" _ 5 ?_).mpr
  · intro _
    rw [toList_trim, is_text]
    exact (length_trimChars_le text).trans short
  · rw [Ne, trim_eq_empty, is_text]
    exact some_text

/-- The handoff after a body of 16000 letters is lost. -/
theorem handoffKept_long_body :
    ¬ HandoffKept readReview "codex"
      (String.ofList (List.replicate 16000 'a') ++ "\n" ++ handoffMarker ++ handoffJson reviewHandoff) 5 := by
  have tight : Tight (List.replicate 16000 'a') := by
    constructor <;> intro c member
    · rw [List.eq_of_mem_replicate (List.mem_of_mem_head? member)]
      decide
    · rw [List.eq_of_mem_replicate (List.mem_of_getLast? member)]
      decide
  have trimmed : (trim (String.ofList (List.replicate 16000 'a'))).toList = List.replicate 16000 'a' := by
    rw [toList_trim, String.toList_ofList, trimChars_tight tight]
  have some_body : trim (String.ofList (List.replicate 16000 'a')) ≠ "" := by
    intro empty
    have length := congrArg List.length trimmed
    rw [empty, List.length_replicate] at length
    exact absurd length (by decide)
  have read : readReview (handoffJson reviewHandoff) = some reviewHandoff := if_pos rfl
  obtain ⟨front, same, final⟩ := finalHandoff_written rfl some_body reviewHandoff_addressed read
  apply not_handoffKept readReview_closed final
  obtain ⟨line, -, split, -⟩ := final
  have short := length_trimChars_le front.toList
  rw [← toList_trim, same, trimmed, List.length_replicate] at short
  rw [split, List.length_append, List.length_cons, maxResultChars]
  omega

end Parler.Cli
