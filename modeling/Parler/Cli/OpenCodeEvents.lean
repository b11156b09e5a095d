import Parler.Lib.Delimiters
import Parler.Lib.Json

/-!
# The event stream of OpenCode

`OpenCodeEvents::next` and `take_sse_event` of `crates/parler-cli/src/conversation/opencode.rs`. The frames of the
body may cut the stream anywhere, also inside a delimiter; the search for the next one goes on three bytes
before the end of what was searched.
-/

namespace Parler.Cli

open Parler.Lib

inductive SseError where
  | nonUtf8
  | invalidJson
  | closed
  | streamFailed
  | overLimit
  deriving DecidableEq

def SseError.text : SseError → String
  | .nonUtf8 => "OpenCode local event stream returned non-UTF-8 data"
  | .invalidJson => "OpenCode local event stream returned invalid JSON"
  | .closed => "OpenCode local event stream closed"
  | .streamFailed => "OpenCode local event stream failed"
  | .overLimit => "OpenCode local event exceeded the 8 MiB stream buffer limit"

/-- A frame of the HTTP body, or the error that takes its place. -/
inductive BodyFrame where
  | data (bytes : List UInt8)
  | trailers
  | failed

structure OpenCodeEvents where
  body : List BodyFrame
  buffer : List UInt8
  scanFrom : Nat

/-- `EVENT_BUFFER_LIMIT` -/
def eventBufferLimit : Nat := 8 * 1024 * 1024

/-- `\r\n\r\n` or `\n\n`. -/
def eventBoundary : Delimiter UInt8 where
  cut xs := if xs.take 4 = [13, 10, 13, 10] then some 4 else if xs.take 2 = [10, 10] then some 2 else none
  width := 4
  bounds := by
    intro xs d cut
    split_ifs at cut with crlf lf
    · have length := congrArg List.length crlf
      cases cut
      simp only [List.length_take, List.length_cons, List.length_nil] at length
      omega
    · have length := congrArg List.length lf
      cases cut
      simp only [List.length_take, List.length_cons, List.length_nil] at length
      omega
  decided := by
    intro xs ys wide
    rw [List.take_append_of_le_length wide, List.take_append_of_le_length (by omega)]
  settled := by
    intro xs ys j there
    match xs with
    | [] => simp at there
    | [a] => cases j <;> simp at there
    | [a, b] => rcases j with _ | _ | j <;> simp at there; simp [there]
    | [a, b, c] =>
      rcases j with _ | _ | _ | j <;> simp at there
      · simp [there]
      · simp [there]
    | a :: b :: c :: d :: rest => simp

/-! ## One event -/

/-- `str::lines` -/
def lines (cs : List Char) : List (List Char) :=
  let parts := cs.splitOn '\n'
  let ended := parts.dropLast.map (fun line => if line.getLast? = some '\r' then line.dropLast else line)
  match parts.getLast? with
  | none | some [] => ended
  | some rest => ended ++ [rest]

def stripPrefix (pre cs : List Char) : Option (List Char) :=
  if pre.isPrefixOf cs then some (cs.drop pre.length) else none

/-- The `data:` lines of an event, joined. -/
def eventData (text : String) : String :=
  let values := (lines text.toList).filterMap (stripPrefix "data:".toList)
  String.ofList (['\n'].intercalate (values.map (fun v => (stripPrefix [' '] v).getD v)))

-- `serde_json::from_str`.
variable (fromStr : String → Option Json)

/-- What `take_sse_event` makes of the bytes before a boundary. -/
def decodeEvent (payload : List UInt8) : Except SseError Json :=
  match String.fromUTF8? ⟨payload.toArray⟩ with
  | none => .error .nonUtf8
  | some text =>
      let data := eventData text
      if data = "" then .ok .null
      else
        match fromStr data with
        | none => .error .invalidJson
        | some event => .ok event

namespace OpenCodeEvents

variable (e : OpenCodeEvents)

def takeSseEvent : Except SseError (Option Json) × OpenCodeEvents :=
  match eventBoundary.firstCutFrom (e.scanFrom - 3) e.buffer with
  | none => (.ok none, { e with scanFrom := e.buffer.length })
  | some (payloadLen, delimiterLen) =>
      ((decodeEvent fromStr (e.buffer.take payloadLen)).map some,
        { e with buffer := e.buffer.drop (payloadLen + delimiterLen), scanFrom := 0 })

variable {fromStr e}

theorem takeSseEvent_cases {found : Except SseError (Option Json)} {e' : OpenCodeEvents}
    (taken : e.takeSseEvent fromStr = (found, e')) :
    (eventBoundary.firstCutFrom (e.scanFrom - 3) e.buffer = none ∧ found = .ok none ∧
      e' = { e with scanFrom := e.buffer.length }) ∨
    ∃ i d, eventBoundary.firstCutFrom (e.scanFrom - 3) e.buffer = some (i, d) ∧
      found = (decodeEvent fromStr (e.buffer.take i)).map some ∧
      e' = { e with buffer := e.buffer.drop (i + d), scanFrom := 0 } := by
  unfold takeSseEvent at taken
  cases search : eventBoundary.firstCutFrom (e.scanFrom - 3) e.buffer with
  | none =>
    simp only [search, Prod.mk.injEq] at taken
    exact Or.inl ⟨rfl, taken.1.symm, taken.2.symm⟩
  | some c =>
    simp only [search, Prod.mk.injEq] at taken
    exact Or.inr ⟨c.1, c.2, rfl, taken.1.symm, taken.2.symm⟩

/-- An event that is taken leaves the body alone and shortens the buffer. -/
theorem takeSseEvent_shrinks {event : Json} {e' : OpenCodeEvents}
    (taken : e.takeSseEvent fromStr = (.ok (some event), e')) :
    e'.body = e.body ∧ e'.buffer.length < e.buffer.length := by
  rcases takeSseEvent_cases taken with ⟨-, other, -⟩ | ⟨i, d, found, -, rfl⟩
  · cases other
  · obtain ⟨c, first, same⟩ := Option.map_eq_some_iff.mp found
    have bounds := eventBoundary.bounds (Delimiter.cut_of_firstCut first)
    cases same
    refine ⟨rfl, ?_⟩
    simp only [List.length_drop] at bounds ⊢
    omega

theorem takeSseEvent_body {e' : OpenCodeEvents} {found : Except SseError (Option Json)}
    (taken : e.takeSseEvent fromStr = (found, e')) : e'.body = e.body := by
  rcases takeSseEvent_cases taken with ⟨-, -, rfl⟩ | ⟨i, d, -, -, rfl⟩ <;> rfl

variable (fromStr e)

/-- `OpenCodeEvents::next` -/
def next (e : OpenCodeEvents) : Except SseError Json × OpenCodeEvents :=
  match _taken : e.takeSseEvent fromStr with
  | (.error err, e') => (.error err, e')
  | (.ok (some event), e') => if event = .null then next e' else (.ok event, e')
  | (.ok none, e') =>
      match _frames : e'.body with
      | [] => (.error .closed, e')
      | .failed :: body => (.error .streamFailed, { e' with body := body })
      | .trailers :: body => next { e' with body := body }
      | .data bytes :: body =>
          if eventBufferLimit < e'.buffer.length + bytes.length then
            (.error .overLimit, { e' with body := body })
          else next { e' with body := body, buffer := e'.buffer ++ bytes }
  termination_by (e.body.length, e.buffer.length)
  decreasing_by
    · obtain ⟨same, shorter⟩ := takeSseEvent_shrinks _taken
      rw [same]
      exact Prod.Lex.right _ shorter
    all_goals
      rw [← takeSseEvent_body _taken, _frames]
      exact Prod.Lex.left _ _ (Nat.lt_succ_self _)

/-- What a number of calls return; none is made after an error. -/
def yields : Nat → OpenCodeEvents → List (Except SseError Json)
  | 0, _ => []
  | n + 1, e =>
      match e.next fromStr with
      | (.error err, _) => [.error err]
      | (.ok event, e') => .ok event :: yields n e'

end OpenCodeEvents

/-- The bytes that arrive before the stream ends. -/
def bytesOf : List BodyFrame → List UInt8
  | [] => []
  | .failed :: _ => []
  | .trailers :: body => bytesOf body
  | .data bytes :: body => bytes ++ bytesOf body

/-- How the stream ends. -/
def endOf : List BodyFrame → SseError
  | [] => .closed
  | .failed :: _ => .streamFailed
  | .trailers :: body => endOf body
  | .data _ :: body => endOf body

/-- The events of payloads, up to the first error. -/
def decoded (final : SseError) : List (List UInt8) → List (Except SseError Json)
  | [] => [.error final]
  | payload :: later =>
      match decodeEvent fromStr payload with
      | .error err => [.error err]
      | .ok event => if event = .null then decoded final later else .ok event :: decoded final later

/-- The events of a whole stream. -/
def decodedWhole (bytes : List UInt8) (final : SseError) : List (Except SseError Json) :=
  decoded fromStr final (eventBoundary.pieces bytes).1

variable {fromStr}

theorem decodedWhole_none {bytes : List UInt8} (none : eventBoundary.firstCut bytes = none)
    (final : SseError) : decodedWhole fromStr bytes final = [.error final] := by
  rw [decodedWhole, Delimiter.pieces_of_none none]
  rfl

theorem decodedWhole_some {bytes : List UInt8} {i d : Nat}
    (found : eventBoundary.firstCut bytes = some (i, d)) (more : List UInt8) (final : SseError) :
    decodedWhole fromStr (bytes ++ more) final =
      match decodeEvent fromStr (bytes.take i) with
      | .error err => [.error err]
      | .ok event =>
          if event = .null then decodedWhole fromStr (bytes.drop (i + d) ++ more) final
          else .ok event :: decodedWhole fromStr (bytes.drop (i + d) ++ more) final := by
  rw [decodedWhole, Delimiter.pieces_append_of_some found, decoded]
  rfl

namespace OpenCodeEvents

/-! ## Reading in chunks -/

/-- The bytes of the buffer that are not searched again start no boundary, whatever arrives. -/
def Ready (e : OpenCodeEvents) : Prop := eventBoundary.Scanned e.buffer (e.scanFrom - 3)

/-- The results that are still to come. -/
def pending (fromStr : String → Option Json) (e : OpenCodeEvents) : List (Except SseError Json) :=
  decodedWhole fromStr (e.buffer ++ bytesOf e.body) (endOf e.body)

variable {e : OpenCodeEvents}

theorem Ready.search (ready : e.Ready) (more : List UInt8) :
    eventBoundary.firstCutFrom (e.scanFrom - 3) (e.buffer ++ more) =
      eventBoundary.firstCut (e.buffer ++ more) :=
  Delimiter.Scanned.firstCutFrom ready more

theorem Ready.takeSseEvent (ready : e.Ready) {found : Except SseError (Option Json)}
    {e' : OpenCodeEvents} (taken : e.takeSseEvent fromStr = (found, e')) : e'.Ready := by
  have whole := ready.search []
  rw [List.append_nil] at whole
  rcases takeSseEvent_cases taken with ⟨none, -, rfl⟩ | ⟨i, d, -, -, rfl⟩
  · exact Delimiter.scanned_of_none (whole.symm.trans none)
  · exact Delimiter.scanned_zero _

theorem Ready.read (ready : e.Ready) (bytes : List UInt8) (body : List BodyFrame) :
    Ready { e with body := body, buffer := e.buffer ++ bytes } :=
  Delimiter.Scanned.append ready bytes

/-- What is taken is the first of the pending results; otherwise there is no boundary in the buffer. -/
theorem Ready.taken (ready : e.Ready) {found : Except SseError (Option Json)} {e' : OpenCodeEvents}
    (taken : e.takeSseEvent fromStr = (found, e')) :
    (found = .ok none ∧ eventBoundary.firstCut e'.buffer = none ∧ e'.pending fromStr = e.pending fromStr) ∨
    (∃ err, found = .error err ∧ e.pending fromStr = [.error err]) ∨
    ∃ event, found = .ok (some event) ∧
      e.pending fromStr =
        if event = .null then e'.pending fromStr else .ok event :: e'.pending fromStr := by
  have whole := ready.search []
  rw [List.append_nil] at whole
  rcases takeSseEvent_cases taken with ⟨none, is, rfl⟩ | ⟨i, d, some, is, rfl⟩
  · exact Or.inl ⟨is, whole.symm.trans none, rfl⟩
  · have first := @decodedWhole_some fromStr _ _ _ (whole.symm.trans some) (bytesOf e.body)
      (endOf e.body)
    cases payload : decodeEvent fromStr (e.buffer.take i) with
    | error err =>
      rw [payload] at first is
      exact Or.inr (Or.inl ⟨err, is, first⟩)
    | ok event =>
      rw [payload] at first is
      exact Or.inr (Or.inr ⟨event, is, first⟩)

/-- `next` returns the first pending result and leaves the others, or it finds the buffer full. -/
theorem Ready.next (ready : e.Ready) :
    (∃ e', e.next fromStr = (.error .overLimit, e')) ∨
    (∃ err e', e.next fromStr = (.error err, e') ∧ e.pending fromStr = [.error err]) ∨
    ∃ event e', e.next fromStr = (.ok event, e') ∧ e'.Ready ∧
      e.pending fromStr = .ok event :: e'.pending fromStr := by
  fun_induction OpenCodeEvents.next fromStr e with
  | case1 e err e' taken =>
    rcases ready.taken taken with ⟨is, -⟩ | ⟨err', is, only⟩ | ⟨event, is, -⟩
    · cases is
    · cases is
      exact Or.inr (Or.inl ⟨err, e', rfl, only⟩)
    · cases is
  | case2 e e' taken ih =>
    rcases ready.taken taken with ⟨is, -⟩ | ⟨err', is, -⟩ | ⟨event, is, first⟩
    · cases is
    · cases is
    · cases is
      rw [if_pos rfl] at first
      rw [first]
      exact ih (ready.takeSseEvent taken)
  | case3 e event e' taken other =>
    rcases ready.taken taken with ⟨is, -⟩ | ⟨err', is, -⟩ | ⟨event, is, first⟩
    · cases is
    · cases is
    · cases is
      rw [if_neg other] at first
      exact Or.inr (Or.inr ⟨event, e', rfl, ready.takeSseEvent taken, first⟩)
  | case4 e e' taken frames =>
    rcases ready.taken taken with ⟨-, none, same⟩ | ⟨err', is, -⟩ | ⟨event, is, -⟩
    · refine Or.inr (Or.inl ⟨.closed, e', rfl, ?_⟩)
      rw [← same, pending, frames, bytesOf, List.append_nil]
      exact decodedWhole_none none _
    · cases is
    · cases is
  | case5 e e' taken body frames =>
    rcases ready.taken taken with ⟨-, none, same⟩ | ⟨err', is, -⟩ | ⟨event, is, -⟩
    · refine Or.inr (Or.inl ⟨.streamFailed, _, rfl, ?_⟩)
      rw [← same, pending, frames, bytesOf, List.append_nil]
      exact decodedWhole_none none _
    · cases is
    · cases is
  | case6 e e' taken body frames ih =>
    rcases ready.taken taken with ⟨-, none, same⟩ | ⟨err', is, -⟩ | ⟨event, is, -⟩
    · have kept : pending fromStr { e' with body := body } = e.pending fromStr := by
        rw [← same, pending, pending, frames]
        rfl
      have still : e'.Ready := ready.takeSseEvent taken
      rw [← kept]
      exact ih still
    · cases is
    · cases is
  | case7 e e' taken bytes body frames full => exact Or.inl ⟨_, rfl⟩
  | case8 e e' taken bytes body frames fits ih =>
    rcases ready.taken taken with ⟨-, none, same⟩ | ⟨err', is, -⟩ | ⟨event, is, -⟩
    · have kept : pending fromStr { e' with body := body, buffer := e'.buffer ++ bytes } =
          e.pending fromStr := by
        rw [← same, pending, pending, frames, bytesOf, List.append_assoc]
        rfl
      rw [← kept]
      exact ih ((ready.takeSseEvent taken).read bytes body)
    · cases is
    · cases is

/-- A run that never finds the buffer full returns the pending results in order. -/
theorem Ready.yields (ready : e.Ready) {n : Nat}
    (fits : .error .overLimit ∉ e.yields fromStr n) :
    e.yields fromStr n = (e.pending fromStr).take n := by
  induction n generalizing e with
  | zero => rfl
  | succ n ih =>
    rw [OpenCodeEvents.yields] at fits ⊢
    rcases @Ready.next fromStr _ ready with ⟨e', full⟩ | ⟨err, e', failed, only⟩ |
      ⟨event, e', returned, ready', first⟩
    · rw [full] at fits
      simp at fits
    · rw [failed, only]
      simp
    · rw [returned] at fits ⊢
      rw [first, List.take_succ_cons, ← ih ready' (fun member => fits (List.mem_cons_of_mem _ member))]

/-- The states between two searches and two frames. -/
inductive Reached (fromStr : String → Option Json) (body : List BodyFrame) : OpenCodeEvents → Prop
  | start : Reached fromStr body ⟨body, [], 0⟩
  | taken {e : OpenCodeEvents} : Reached fromStr body e → Reached fromStr body (e.takeSseEvent fromStr).2
  | passed {e : OpenCodeEvents} {frame : BodyFrame} {rest : List BodyFrame} : e.body = frame :: rest →
      Reached fromStr body e → Reached fromStr body { e with body := rest }
  | read {e : OpenCodeEvents} {bytes : List UInt8} {rest : List BodyFrame} :
      e.body = .data bytes :: rest → Reached fromStr body e →
      Reached fromStr body { e with body := rest, buffer := e.buffer ++ bytes }

theorem Reached.ready {body : List BodyFrame} (reached : Reached fromStr body e) : e.Ready := by
  induction reached with
  | start => exact Delimiter.scanned_zero _
  | taken _ ih => exact ih.takeSseEvent rfl
  | passed _ _ ih => exact ih
  | read _ _ ih => exact ih.read _ _

theorem Reached.next {body : List BodyFrame} (reached : Reached fromStr body e) :
    Reached fromStr body (e.next fromStr).2 := by
  have after : ∀ {e found e'}, Reached fromStr body e → e.takeSseEvent fromStr = (found, e') →
      Reached fromStr body e' := by
    intro e found e' reached is
    have taken := reached.taken
    rwa [is] at taken
  fun_induction OpenCodeEvents.next fromStr e with
  | case1 e err e' taken => exact after reached taken
  | case2 e e' taken ih => exact ih (after reached taken)
  | case3 e event e' taken other => exact after reached taken
  | case4 e e' taken frames => exact after reached taken
  | case5 e e' taken rest frames => exact (after reached taken).passed frames
  | case6 e e' taken rest frames ih => exact ih ((after reached taken).passed frames)
  | case7 e e' taken bytes rest frames full => exact (after reached taken).passed frames
  | case8 e e' taken bytes rest frames fits ih => exact ih ((after reached taken).read frames)

/-- The bytes that are in the buffer or still to come. -/
def load (e : OpenCodeEvents) : Nat := e.buffer.length + (bytesOf e.body).length

theorem load_takeSseEvent {found : Except SseError (Option Json)} {e' : OpenCodeEvents}
    (taken : e.takeSseEvent fromStr = (found, e')) : e'.load ≤ e.load := by
  rcases takeSseEvent_cases taken with ⟨-, -, rfl⟩ | ⟨i, d, -, -, rfl⟩
  · exact Nat.le_refl _
  · simp only [load, List.length_drop]
    omega

theorem takeSseEvent_ne_overLimit {e' : OpenCodeEvents} :
    e.takeSseEvent fromStr ≠ (.error .overLimit, e') := by
  intro taken
  rcases takeSseEvent_cases taken with ⟨-, is, -⟩ | ⟨i, d, -, is, -⟩
  · cases is
  · unfold decodeEvent at is
    split at is
    · cases is
    · dsimp only at is
      split_ifs at is
      · cases is
      · split at is <;> cases is

theorem load_next (small : e.load ≤ eventBufferLimit) :
    (e.next fromStr).1 ≠ .error .overLimit ∧
      ∀ event, (e.next fromStr).1 = .ok event → (e.next fromStr).2.load ≤ eventBufferLimit := by
  fun_induction OpenCodeEvents.next fromStr e with
  | case1 e err e' taken =>
    refine ⟨?_, nofun⟩
    intro is
    cases is
    exact takeSseEvent_ne_overLimit taken
  | case2 e e' taken ih => exact ih (Nat.le_trans (load_takeSseEvent taken) small)
  | case3 e event e' taken other =>
    exact ⟨nofun, fun _ _ => Nat.le_trans (load_takeSseEvent taken) small⟩
  | case4 e e' taken frames => exact ⟨nofun, nofun⟩
  | case5 e e' taken rest frames => exact ⟨nofun, nofun⟩
  | case6 e e' taken rest frames ih =>
    have small' := Nat.le_trans (load_takeSseEvent taken) small
    rw [load, frames, bytesOf] at small'
    exact ih small'
  | case7 e e' taken bytes rest frames full =>
    have small' := Nat.le_trans (load_takeSseEvent taken) small
    rw [load, frames, bytesOf, List.length_append] at small'
    omega
  | case8 e e' taken bytes rest frames fits ih =>
    have small' := Nat.le_trans (load_takeSseEvent taken) small
    rw [load, frames, bytesOf, List.length_append, ← Nat.add_assoc] at small'
    apply ih
    rwa [load, List.length_append]

/-- A stream that is not longer than the limit never finds the buffer full. -/
theorem overLimit_notMem {n : Nat} (small : e.load ≤ eventBufferLimit) :
    .error .overLimit ∉ e.yields fromStr n := by
  induction n generalizing e with
  | zero => exact List.not_mem_nil
  | succ n ih =>
    have step := @load_next fromStr _ small
    rw [yields]
    rcases returned : e.next fromStr with ⟨_ | event, e'⟩
    · rw [returned] at step
      simpa using step.1.symm
    · rw [returned] at step
      simpa using ih (step.2 event rfl)

end OpenCodeEvents

/-- Whatever the frames of the body, the calls of `next` return the events of the whole stream cut at its
leftmost boundaries, then its first error. In no state that they go through does a boundary start before
the place that is searched next, whatever arrives later. -/
theorem events_unfragmented (body : List BodyFrame)
    (fits : ∀ n, .error .overLimit ∉ OpenCodeEvents.yields fromStr n ⟨body, [], 0⟩) :
    (∀ n, OpenCodeEvents.yields fromStr n ⟨body, [], 0⟩ =
      (decodedWhole fromStr (bytesOf body) (endOf body)).take n) ∧
    ∀ e, OpenCodeEvents.Reached fromStr body e →
      OpenCodeEvents.Reached fromStr body (e.next fromStr).2 ∧
      ∀ more, eventBoundary.firstCutFrom (e.scanFrom - 3) (e.buffer ++ more) =
        eventBoundary.firstCut (e.buffer ++ more) := by
  constructor
  · intro n
    exact OpenCodeEvents.Ready.yields (e := ⟨body, [], 0⟩) (Delimiter.scanned_zero _) (fits n)
  · exact fun e reached => ⟨reached.next, reached.ready.search⟩

/-- `data: 1` and `data: 2`, the first boundary in three frames. -/
def cutStream : List BodyFrame :=
  [.data [100, 97, 116, 97, 58, 32, 49, 13, 10], .data [13], .trailers,
    .data [10, 100, 97, 116, 97, 58, 32, 50, 10, 10]]

/-- The two numbers. -/
def readNumber (s : String) : Option Json := if s = "1" then some (.int 1) else some (.int 2)

theorem decodedWhole_cutStream : decodedWhole readNumber (bytesOf cutStream) .closed =
    [.ok (.int 1), .ok (.int 2), .error .closed] := by
  have first : eventBoundary.firstCut (bytesOf cutStream) = some (7, 4) := by decide
  have second : eventBoundary.firstCut ((bytesOf cutStream).drop 11) = some (7, 2) := by decide
  have rest : eventBoundary.firstCut (((bytesOf cutStream).drop 11).drop 9) = none := by decide
  rw [decodedWhole, Delimiter.pieces_of_some first, Delimiter.pieces_of_some second,
    Delimiter.pieces_of_none rest]
  decide +kernel

theorem events_unfragmented_cut :
    OpenCodeEvents.yields readNumber 3 ⟨cutStream, [], 0⟩ = [.ok (.int 1), .ok (.int 2), .error .closed] := by
  rw [(events_unfragmented cutStream fun n => OpenCodeEvents.overLimit_notMem (by decide)).1 3]
  exact congrArg (List.take 3) decodedWhole_cutStream

end Parler.Cli
