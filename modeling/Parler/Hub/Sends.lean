import Parler.Hub.Backlog
import Parler.Hub.Demo
import Parler.Hub.Footprint

/-!
# Sends and their retries

A `Send` appends its message and then counts it, wakes the room and pushes the message, unless the
append found an earlier message of its author under the same client id. The earlier message is then
what the reply names, for as long as it is stored.
-/

namespace Parler.Hub

open Parler.Lib Parler.Protocol Handler

variable {cfg : HubConfig}

/-! ## The calls of a send -/

namespace HubCall

/-- The calls by which a stored message is counted, wakes its room and is pushed. -/
def announces : HubCall → Bool
  | .countMessage _ | .notifyRoom _ | .push .. => true
  | _ => false

/-- The calls of a send that matter here: its append and its announcement. -/
def sends : HubCall → Bool
  | .appendMessage _ => true
  | op => op.announces

end HubCall

/-- The announcement of a stored message, newest call first. -/
def announcement (m : NewMessage) (out : AppendOutcome) : List (HubDone cfg) :=
  [⟨.push m.room m.sender.id
      ⟨out.seq, out.id, m.room, m.sender, m.parts, m.mentions, m.replyTo, m.ts⟩, ()⟩,
    ⟨.notifyRoom m.room, ()⟩, ⟨.countMessage out.tokens.toNat, ()⟩]

/-- What is announced after an append. -/
def announced (m : NewMessage) (out : AppendOutcome) : List (HubDone cfg) :=
  if out.deduped then [] else announcement m out

/-- The append and the announcement of a send so far, newest call first. -/
inductive SendTrace : List (HubDone cfg) → Prop
  | before : SendTrace []
  | refused (m : NewMessage) (e : Failure) : SendTrace [⟨.appendMessage m, .error e⟩]
  | appended (m : NewMessage) (out : AppendOutcome) (calls : List (HubDone cfg)) :
      calls <:+ announced m out → SendTrace (calls ++ [⟨.appendMessage m, .ok out⟩])

/-- A send that is over: an append that went through was announced, and is answered. -/
inductive SendOver : Except Failure ServerFrame → List (HubDone cfg) → Prop
  | before (e : Failure) : SendOver (.error e) []
  | refused (m : NewMessage) (e : Failure) :
      SendOver (.error e) [⟨.appendMessage m, .error e⟩]
  | appended (m : NewMessage) (out : AppendOutcome) :
      SendOver (.ok (.sent out.id out.seq m.room))
        (announced m out ++ [⟨.appendMessage m, .ok out⟩])

/-- The append and the announcement in a thread's past. -/
def sendCalls (past : List (HubDone cfg)) : List (HubDone cfg) := past.filter (fun d => d.1.sends)

@[simp] theorem sendCalls_cons (d : HubDone cfg) (past : List (HubDone cfg)) :
    sendCalls (d :: past) = if d.1.sends = true then d :: sendCalls past else sendCalls past :=
  List.filter_cons

theorem sendCalls_append (newer older : List (HubDone cfg)) :
    sendCalls (newer ++ older) = sendCalls newer ++ sendCalls older :=
  List.filter_append newer older

theorem SendOver.trace {r : Except Failure ServerFrame} {calls : List (HubDone cfg)}
    (done : SendOver r calls) : SendTrace calls := by
  cases done with
  | before e => exact .before
  | refused m e => exact .refused m e
  | appended m out => exact .appended m out _ (List.suffix_refl _)

section Outcome

variable (m : NewMessage) {out : AppendOutcome}

theorem SendTrace.announcing (new : out.deduped = false) {calls : List (HubDone cfg)}
    (part : calls <:+ announcement m out) : SendTrace (calls ++ [⟨.appendMessage m, .ok out⟩]) := by
  refine .appended m out calls ?_
  simpa [announced, new] using part

theorem SendOver.stored (new : out.deduped = false) :
    SendOver (.ok (.sent out.id out.seq m.room))
      (announcement m out ++ [⟨.appendMessage m, .ok out⟩] : List (HubDone cfg)) := by
  simpa [announced, new] using @SendOver.appended cfg m out

theorem SendOver.replayed (replay : out.deduped = true) :
    SendOver (.ok (.sent out.id out.seq m.room)) ([⟨.appendMessage m, .ok out⟩] : List (HubDone cfg)) := by
  simpa [announced, replay] using @SendOver.appended cfg m out

end Outcome

section Handlers

variable (cfg) (me : Authed) (fresh : Fresh)

theorem resolveTarget_sends (target : Target) :
    (resolveTarget cfg me fresh target).Calls (fun op => op.sends = false) := by
  cases target with
  | room room => simp [resolveTarget, requireMember, HubCall.sends, HubCall.announces]
  | dm agent =>
    simp only [resolveTarget, calls_call_bind]
    refine ⟨rfl, ?_⟩
    intro shared
    cases shared with
    | some room => simp
    | none =>
      simp only [calls_call_bind]
      refine ⟨rfl, ?_⟩
      intro visibility
      cases visibility <;> simp [HubCall.sends, HubCall.announces]
  | service service => simp [resolveTarget, HubCall.sends, HubCall.announces]

/-- The append comes first, then the announcement, and an answer only after it. -/
theorem handleSend_trace (target : Target) (parts : List Part) (mentions : Option (List String))
    (replyTo clientId : Option String) {past : List (HubDone cfg)} (idle : sendCalls past = []) :
    (handleSend cfg me fresh target parts mentions replyTo clientId).Upholds
      (fun past _ => SendTrace (sendCalls past)) (fun r past => SendOver r (sendCalls past)) past := by
  have start : ∀ {past : List (HubDone cfg)}, sendCalls past = [] → SendTrace (sendCalls past) :=
    fun none => none ▸ SendTrace.before
  have stop : ∀ {past : List (HubDone cfg)} (e : Failure), sendCalls past = [] →
      SendOver (.error e) (sendCalls past) := fun e none => none ▸ SendOver.before e
  unfold handleSend
  simp only [upholds_call_bind, fail_bind, upholds_ite, upholds_fail]
  refine ⟨start idle, fun clock => ⟨start idle, fun allowed => ⟨fun _ => stop _ idle, fun _ => ?_⟩⟩⟩
  refine ⟨fun _ => stop _ idle, fun _ => ?_⟩
  refine upholds_bind (J := fun _ past => sendCalls past = []) ?_ ?_ (fun e past => stop e)
  · refine (resolveTarget_sends cfg me fresh target).upholds (J := fun past => sendCalls past = [])
      (fun past op _ => start) ?_ (fun _ _ none => none) idle
    intro op r past other none
    simpa [other] using none
  intro room past none
  simp only [upholds_call_bind, upholds_ite, upholds_fail, upholds_check_bind]
  refine ⟨start none, fun clock => ⟨start none, fun allowed => ⟨fun _ => stop _ none, fun _ => ?_⟩⟩⟩
  refine ⟨start none, fun now => ⟨start none, fun stored => ?_⟩⟩
  let m : NewMessage := ⟨fresh.uuid, room, ⟨me.id, me.name, me.role⟩, parts,
    mentions.bind (normalizeMentions cfg.ext), replyTo, clientId, now⟩
  refine ⟨?_, ?_⟩
  · intro out ok
    subst ok
    refine ⟨fun new => ?_, fun replay => ?_⟩
    · have new : out.deduped = false := by simpa using new
      simp only [fanout, bind_bind, upholds_call_bind, upholds_pure]
      simp only [sendCalls_cons, HubCall.sends, HubCall.announces, Bool.false_eq_true, if_true, if_false,
        none]
      refine ⟨SendTrace.announcing m new List.nil_suffix, fun _ => ⟨?_, fun _ => ⟨?_, fun _ => ?_⟩⟩⟩
      · exact SendTrace.announcing m new ⟨[_, _], rfl⟩
      · exact SendTrace.announcing m new ⟨[_], rfl⟩
      · exact SendOver.stored m new
    · simp only [upholds_pure, sendCalls_cons, HubCall.sends, HubCall.announces, Bool.false_eq_true,
        if_true, if_false, none]
      exact SendOver.replayed m (by simpa using replay)
  · intro e failed
    subst failed
    simp only [sendCalls_cons, HubCall.sends, HubCall.announces, Bool.false_eq_true, if_true, if_false,
      none]
    exact .refused m e

end Handlers

/-- The request carries a `Send`. -/
def Request.isSend : Request → Bool
  | .frame _ (.send ..) _ _ _ => true
  | _ => false

theorem serve_trace (cardBytes : AgentCard → List UInt8) (req : Request) :
    (serve cfg cardBytes req).Upholds (fun past _ => req.isSend = true → SendTrace (sendCalls past))
      (fun answer past => req.isSend = true →
        ∃ r, answer = replies r ∧ SendOver r (sendCalls past)) [] := by
  have free : req.isSend = false →
      (serve cfg cardBytes req).Upholds (fun past _ => req.isSend = true → SendTrace (sendCalls past))
        (fun answer past => req.isSend = true →
          ∃ r, answer = replies r ∧ SendOver r (sendCalls past)) [] := by
    intro other
    refine (Prog.calls_true _).upholds (J := fun _ => True) ?_ (fun _ _ _ _ _ => trivial) ?_ trivial
    · exact fun past op _ _ sends => absurd sends (by simp [other])
    · exact fun answer past _ sends => absurd sends (by simp [other])
  cases req with
  | frame me sent fresh upload rounds =>
    cases sent with
    | send target parts mentions replyTo clientId =>
      refine ⟨fun _ => .before, fun now => ⟨fun _ => .before, fun allowed => ?_⟩⟩
      dsimp only
      split
      · split
        · exact fun _ => ⟨.error _, rfl, .before _⟩
        · refine Prog.Upholds.bind (J := fun r past => SendOver r (sendCalls past)) ?_ ?_
          · have idle : sendCalls (entered me now allowed : List (HubDone cfg)) = [] := rfl
            exact (handleSend_trace cfg me fresh target parts mentions replyTo clientId idle).mono
              (fun _ _ trace _ => trace) (fun _ _ done => done)
          · exact fun r past done _ => ⟨r, rfl, done⟩
      · exact fun _ => ⟨.error (.coded _ _), rfl, .before _⟩
    | _ => exact free rfl
  | _ => exact free rfl

/-! ## Sends in a run -/

/-- The call appended the message, with the outcome. -/
def Appended (m : NewMessage) (out : AppendOutcome) (e : HubEvent cfg) : Prop :=
  (⟨e.op, e.result⟩ : HubDone cfg) = ⟨.appendMessage m, .ok out⟩

theorem announces_of_mem {m : NewMessage} {out : AppendOutcome} {d : HubDone cfg}
    (told : d ∈ announced m out) : d.1.announces = true := by
  unfold announced announcement at told
  split at told
  · cases told
  · simp only [List.mem_cons, List.not_mem_nil, or_false] at told
    rcases told with rfl | rfl | rfl <;> rfl

/-- The append in a trace is the oldest call of it. -/
theorem SendTrace.of_append {calls : List (HubDone cfg)} (trace : SendTrace calls) {m : NewMessage}
    {out : AppendOutcome} (appends : ⟨.appendMessage m, .ok out⟩ ∈ calls) :
    ∃ told, told <:+ announced m out ∧ calls = told ++ [⟨.appendMessage m, .ok out⟩] := by
  cases trace with
  | before => cases appends
  | refused m' e =>
    rw [List.mem_singleton] at appends
    cases appends
  | appended m' out' told part =>
    rcases List.mem_append.mp appends with among | last
    · have announces := announces_of_mem (part.mem among)
      cases announces
    · rw [List.mem_singleton] at last
      cases last
      exact ⟨told, part, rfl⟩

section Runs

variable {cardBytes : AgentCard → List UInt8} {G : HubPool cfg → Nat → HubCall → Prop} {inflight : Nat}
  {P : HubPool cfg}

/-- A thread that has made a call of a send serves one, and its calls are a trace of it. -/
theorem thread_trace (reach : Pool.Reachable (serve cfg cardBytes) G (.boot inflight) P) {req : Request}
    {t : Nat} {p : Prog (hubMachine cfg) (List ServerFrame)} (at_t : P.threads t = some (req, p))
    (sends : req.isSend = true) : SendTrace (sendCalls (Pool.ownPast P.log t)) := by
  refine (reach.upholds (serve_trace cardBytes) at_t).now
    (J := fun past => req.isSend = true → SendTrace (sendCalls past)) ?_ sends
  intro answer past done sends
  obtain ⟨r, -, done⟩ := done sends
  exact done.trace

theorem mem_sendCalls {e : HubEvent cfg} (logged : e ∈ P.log) (sends : e.op.sends = true) :
    (⟨e.op, e.result⟩ : HubDone cfg) ∈ sendCalls (Pool.ownPast P.log e.thread) := by
  refine List.mem_filter.mpr ⟨?_, sends⟩
  exact List.mem_map.mpr ⟨e, List.mem_filter.mpr ⟨logged, by simp⟩, rfl⟩

/-- The thread of an append has made it and part of its announcement; all of it once it answers. -/
theorem append_trace (reach : Pool.Reachable (serve cfg cardBytes) G (.boot inflight) P)
    {e : HubEvent cfg} (logged : e ∈ P.log) {m : NewMessage} {out : AppendOutcome}
    (appends : Appended m out e) :
    ∃ told, told <:+ announced m out ∧
      sendCalls (Pool.ownPast P.log e.thread) = told ++ [⟨.appendMessage m, .ok out⟩] ∧
      ∀ req answer, P.answer e.thread = some (req, answer) →
        answer = [.sent out.id out.seq m.room] ∧ told = announced m out := by
  obtain ⟨req, p, at_t, made⟩ := log_makes reach logged
  have op : e.op = .appendMessage m := (Sigma.mk.inj appends).1
  rw [op] at made
  have sends : req.isSend = true := by
    cases req with
    | frame me sent fresh upload rounds =>
      obtain ⟨-, -, target, mentions, rfl⟩ := made
      rfl
    | welcome me =>
      rcases made with same | ⟨now, same | same⟩ <;> cases same
    | janitor => exact made.elim
    | tick ms => cases made
  have upholds := reach.upholds (serve_trace cardBytes) at_t
  have trace := thread_trace reach at_t sends
  have among : (⟨.appendMessage m, .ok out⟩ : HubDone cfg) ∈
      sendCalls (Pool.ownPast P.log e.thread) := by
    have call := mem_sendCalls logged (by rw [op]; rfl)
    rwa [appends] at call
  obtain ⟨told, part, calls⟩ := trace.of_append among
  refine ⟨told, part, calls, ?_⟩
  intro req' answer answers
  have finished := Pool.answer_eq answers
  rw [at_t] at finished
  cases finished
  obtain ⟨r, rfl, done⟩ : ∃ r, answer = replies r ∧ SendOver r (sendCalls _) := upholds sends
  rw [calls] at done
  generalize same : told ++ [(⟨.appendMessage m, .ok out⟩ : HubDone cfg)] = all at done
  cases done with
  | before e => simp at same
  | refused m' e' =>
    obtain ⟨-, last⟩ := List.append_inj' (same.trans (List.nil_append _).symm) rfl
    cases last
  | appended m' out' =>
    obtain ⟨rfl, last⟩ := List.append_inj' same rfl
    cases last
    exact ⟨rfl, rfl⟩

/-- The announcement of an append comes after it. -/
theorem announced_since (reach : Pool.Reachable (serve cfg cardBytes) G (.boot inflight) P)
    {newer older : List (HubEvent cfg)} {e : HubEvent cfg} (split : P.log = newer ++ e :: older)
    {m : NewMessage} {out : AppendOutcome} (appends : Appended m out e) :
    sendCalls (Pool.ownPast newer e.thread) <:+ announced m out ∧
      sendCalls (Pool.ownPast older e.thread) = [] := by
  have logged : e ∈ P.log := by simp [split]
  obtain ⟨told, part, calls, -⟩ := append_trace reach logged appends
  have silent : (⟨.appendMessage m, .ok out⟩ : HubDone cfg) ∉ told := by
    intro among
    have announces := announces_of_mem (part.mem among)
    cases announces
  rw [split, Pool.ownPast_append, Pool.ownPast_cons, if_pos rfl, appends] at calls
  simp only [sendCalls_append, sendCalls_cons, HubCall.sends, if_true] at calls
  rw [List.append_eq_append_iff] at calls
  rcases calls with ⟨rest, same, last⟩ | ⟨rest, same, last⟩
  · cases rest with
    | nil =>
      rw [List.append_nil] at same
      exact ⟨same ▸ part, (List.cons.inj last).2⟩
    | cons d rest =>
      rw [List.cons_append, List.cons.injEq] at last
      refine absurd ?_ silent
      rw [same, ← last.1]
      simp
  · cases rest with
    | nil =>
      rw [List.append_nil] at same
      exact ⟨same ▸ part, (List.cons.inj last).2.symm⟩
    | cons d rest => simp at last

end Runs

end Parler.Hub
