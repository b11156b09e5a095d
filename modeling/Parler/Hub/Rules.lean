import Parler.Lib.Discipline
import Parler.Hub.Server

/-!
# Rules for handlers

How the two program predicates of `Parler.Lib.Discipline` pass through the
handler combinators, and the first use of them: only a pull reads a backlog or
touches a cursor.
-/

namespace Parler.Hub

open Parler.Lib Parler.Protocol

/-- A call of the hub with its result. -/
abbrev HubDone (cfg : HubConfig) := Done (hubMachine cfg)

variable {cfg : HubConfig}

namespace Handler

variable {α β γ : Type}

theorem prog_injective {p q : Handler cfg α} (same : p.prog = q.prog) : p = q := by
  cases p
  cases q
  exact congrArg Handler.mk same

@[simp] theorem bind_bind (p : Handler cfg α) (f : α → Handler cfg β) (g : β → Handler cfg γ) :
    ((p >>= f) >>= g) = (p >>= fun a => f a >>= g) := by
  refine prog_injective ((Prog.bind_assoc _ _ _).trans ?_)
  show p.prog.bind _ = p.prog.bind _
  congr 1
  funext r
  cases r <;> rfl

@[simp] theorem fail_bind (e : Failure) (f : α → Handler cfg β) :
    ((fail e : Handler cfg α) >>= f) = fail e := rfl

@[simp] theorem return_bind (a : α) (f : α → Handler cfg β) :
    ((pure a : Handler cfg α) >>= f) = f a := rfl

@[simp] theorem ite_bind (c : Prop) [Decidable c] (p q : Handler cfg α) (f : α → Handler cfg β) :
    ((if c then p else q) >>= f) = if c then p >>= f else q >>= f := by
  split <;> rfl

theorem run_call_bind {β : Type} (op : HubCall) (f : op.Res → Handler cfg β) (h : HubState) :
    (@bind (Handler cfg) _ (no_index op.Res) β (call op) f).prog.run h =
      (f (op.exec cfg h).1).prog.run (op.exec cfg h).2 := rfl

/-! ## Calls -/

/-- Every call of the handler satisfies `Q`. -/
def Calls (Q : HubCall → Prop) (p : Handler cfg α) : Prop := p.prog.Calls Q

section Calls

variable (Q : HubCall → Prop)

@[simp] theorem calls_call (op : HubCall) : Calls Q (call op : Handler cfg op.Res) ↔ Q op := by
  simp [Calls, call]

-- The result type of a call computes, so it is no part of the index.
@[simp] theorem calls_call_bind (op : HubCall) (f : op.Res → Handler cfg β) :
    Calls Q (@bind (Handler cfg) _ (no_index op.Res) β (call op) f) ↔
      Q op ∧ ∀ r, Calls Q (f r) := Iff.rfl

@[simp] theorem calls_fail (e : Failure) : Calls Q (fail e : Handler cfg α) := trivial

@[simp] theorem calls_pure (a : α) : Calls Q (pure a : Handler cfg α) := trivial

@[simp] theorem calls_check (r : Except Failure α) : Calls Q (check r : Handler cfg α) := trivial

@[simp] theorem calls_check_bind (r : Except Failure α) (f : α → Handler cfg β) :
    Calls Q (check r >>= f) ↔ ∀ a, r = .ok a → Calls Q (f a) := by
  cases r with
  | ok a => exact ⟨fun calls b same => Except.ok.inj same ▸ calls, fun all => all a rfl⟩
  | error e => exact ⟨fun _ _ impossible => (nomatch impossible), fun _ => trivial⟩

@[simp] theorem calls_ite (c : Prop) [Decidable c] (p q : Handler cfg α) :
    Calls Q (if c then p else q) ↔ (c → Calls Q p) ∧ (¬ c → Calls Q q) := by
  split <;> simp [*]

variable {Q}

theorem calls_bind {p : Handler cfg α} {f : α → Handler cfg β} (first : Calls Q p)
    (rest : ∀ a, Calls Q (f a)) : Calls Q (p >>= f) := by
  refine Prog.Calls.bind first ?_
  intro r
  cases r with
  | ok a => exact rest a
  | error e => trivial

theorem calls_withQuota {p : Handler cfg α} (lock : Q .lockQuota) (unlock : Q .unlockQuota)
    (body : Calls Q p) : Calls Q (withQuota p) := by
  refine ⟨lock, fun _ => Prog.Calls.bind body ?_⟩
  intro r
  exact ⟨unlock, fun _ => trivial⟩

end Calls

/-! ## Disciplines -/

/-- Every call of the handler stands in `C` to the calls before it. -/
def Follows (C : List (HubDone cfg) → HubCall → Prop) (p : Handler cfg α)
    (past : List (HubDone cfg)) : Prop := p.prog.Follows C past

section Follows

variable (C : List (HubDone cfg) → HubCall → Prop) (past : List (HubDone cfg))

@[simp] theorem follows_call (op : HubCall) :
    Follows C (call op : Handler cfg op.Res) past ↔ C past op := by
  simp [Follows, call]

@[simp] theorem follows_call_bind (op : HubCall) (f : op.Res → Handler cfg β) :
    Follows C (@bind (Handler cfg) _ (no_index op.Res) β (call op) f) past ↔
      C past op ∧ ∀ r, Follows C (f r) (⟨op, r⟩ :: past) := Iff.rfl

@[simp] theorem follows_fail (e : Failure) : Follows C (fail e : Handler cfg α) past := trivial

@[simp] theorem follows_pure (a : α) : Follows C (pure a : Handler cfg α) past := trivial

@[simp] theorem follows_check (r : Except Failure α) :
    Follows C (check r : Handler cfg α) past := trivial

@[simp] theorem follows_check_bind (r : Except Failure α) (f : α → Handler cfg β) :
    Follows C (check r >>= f) past ↔ ∀ a, r = .ok a → Follows C (f a) past := by
  cases r with
  | ok a => exact ⟨fun follows b same => Except.ok.inj same ▸ follows, fun all => all a rfl⟩
  | error e => exact ⟨fun _ _ impossible => (nomatch impossible), fun _ => trivial⟩

@[simp] theorem follows_ite (c : Prop) [Decidable c] (p q : Handler cfg α) :
    Follows C (if c then p else q) past ↔
      (c → Follows C p past) ∧ (¬ c → Follows C q past) := by
  split <;> simp [*]

variable {C past}

theorem follows_bind_free {p : Handler cfg α} {f : α → Handler cfg β} (first : Follows C p past)
    (rest : ∀ a past, Follows C (f a) past) : Follows C (p >>= f) past := by
  refine Prog.Follows.bind_free first ?_
  intro r past
  cases r with
  | ok a => exact rest a past
  | error e => trivial

/-- The handler ends, when it succeeds, with a value that stands in `I` to its past. -/
def Ends (I : α → List (HubDone cfg) → Prop) (p : Handler cfg α) (past : List (HubDone cfg)) :
    Prop := p.prog.Ends (fun r past => ∀ a, r = .ok a → I a past) past

/-- The end of a handler may rely on what its beginning leaves behind. -/
theorem follows_bind {I : α → List (HubDone cfg) → Prop} {p : Handler cfg α}
    {f : α → Handler cfg β} (first : Follows C p past)
    (ends : Ends I p past)
    (rest : ∀ a past, I a past → Follows C (f a) past) : Follows C (p >>= f) past := by
  refine Prog.Follows.bind first ends ?_
  intro r past holds
  cases r with
  | ok a => exact rest a past (holds a rfl)
  | error e => trivial

@[simp] theorem ends_call_bind (I : β → List (HubDone cfg) → Prop) (op : HubCall)
    (f : op.Res → Handler cfg β) :
    Ends I (@bind (Handler cfg) _ (no_index op.Res) β (call op) f) past ↔
      ∀ r, Ends I (f r) (⟨op, r⟩ :: past) := Iff.rfl

@[simp] theorem ends_pure (I : α → List (HubDone cfg) → Prop) (a : α) :
    Ends I (pure a : Handler cfg α) past ↔ I a past :=
  ⟨fun ends => ends a rfl, fun holds _ same => Except.ok.inj same ▸ holds⟩

@[simp] theorem ends_fail (I : α → List (HubDone cfg) → Prop) (e : Failure) :
    Ends I (fail e : Handler cfg α) past := fun _ impossible => nomatch impossible

@[simp] theorem ends_ite (I : α → List (HubDone cfg) → Prop) (c : Prop) [Decidable c]
    (p q : Handler cfg α) :
    Ends I (if c then p else q) past ↔ (c → Ends I p past) ∧ (¬ c → Ends I q past) := by
  split <;> simp [*]

theorem ends_of_grows {I : List (HubDone cfg) → Prop} (grows : ∀ d past, I past → I (d :: past))
    (p : Handler cfg α) (now : I past) : Ends (fun _ past => I past) p past :=
  Prog.Ends.of_grows grows (fun _ _ holds _ _ => holds) p.prog now

theorem ends_of_calls {Q : HubCall → Prop} {I : List (HubDone cfg) → Prop}
    (keeps : ∀ (op : HubCall) (r : op.Res) past, Q op → I past → I (⟨op, r⟩ :: past))
    {p : Handler cfg α} (calls : Calls Q p) (now : I past) : Ends (fun _ past => I past) p past :=
  Prog.Calls.ends keeps (fun _ _ holds _ _ => holds) calls now

theorem ends_bind {I : β → List (HubDone cfg) → Prop} {J : α → List (HubDone cfg) → Prop}
    {p : Handler cfg α} {f : α → Handler cfg β} (first : Ends J p past)
    (rest : ∀ a past, J a past → Ends I (f a) past) : Ends I (p >>= f) past := by
  refine Prog.Ends.bind first ?_
  intro r past holds
  cases r with
  | ok a => exact rest a past (holds a rfl)
  | error e => exact fun _ impossible => nomatch impossible

theorem follows_withQuota {p : Handler cfg α} (lock : C past .lockQuota)
    (unlock : ∀ past, C past .unlockQuota) (body : Follows C p (⟨.lockQuota, ()⟩ :: past)) :
    Follows C (withQuota p) past := by
  refine ⟨lock, fun _ => Prog.Follows.bind_free body ?_⟩
  intro r past
  exact ⟨unlock past, fun _ => trivial⟩

end Follows

/-! ## What a handler upholds -/

/-- Every call of the handler stands in `C` to the calls before it, and its result, a failure
    included, in `I`. -/
def Upholds (C : List (HubDone cfg) → HubCall → Prop)
    (I : Except Failure α → List (HubDone cfg) → Prop) (p : Handler cfg α)
    (past : List (HubDone cfg)) : Prop := p.prog.Upholds C I past

section Upholds

variable (C : List (HubDone cfg) → HubCall → Prop) (past : List (HubDone cfg))

@[simp] theorem upholds_call_bind (I : Except Failure β → List (HubDone cfg) → Prop) (op : HubCall)
    (f : op.Res → Handler cfg β) :
    Upholds C I (@bind (Handler cfg) _ (no_index op.Res) β (call op) f) past ↔
      C past op ∧ ∀ r, Upholds C I (f r) (⟨op, r⟩ :: past) := Iff.rfl

@[simp] theorem upholds_fail (I : Except Failure α → List (HubDone cfg) → Prop) (e : Failure) :
    Upholds C I (fail e : Handler cfg α) past ↔ I (.error e) past := Iff.rfl

@[simp] theorem upholds_pure (I : Except Failure α → List (HubDone cfg) → Prop) (a : α) :
    Upholds C I (pure a : Handler cfg α) past ↔ I (.ok a) past := Iff.rfl

@[simp] theorem upholds_check_bind (I : Except Failure β → List (HubDone cfg) → Prop)
    (r : Except Failure α) (f : α → Handler cfg β) :
    Upholds C I (check r >>= f) past ↔
      (∀ a, r = .ok a → Upholds C I (f a) past) ∧ ∀ e, r = .error e → I (.error e) past := by
  cases r with
  | ok a =>
    refine ⟨fun upholds => ⟨?_, fun e impossible => nomatch impossible⟩, fun both => both.1 a rfl⟩
    intro b same
    cases same
    exact upholds
  | error e =>
    refine ⟨fun holds => ⟨fun a impossible => (nomatch impossible), ?_⟩, fun both => both.2 e rfl⟩
    intro e' same
    cases same
    exact holds

@[simp] theorem upholds_ite (I : Except Failure α → List (HubDone cfg) → Prop) (c : Prop)
    [Decidable c] (p q : Handler cfg α) :
    Upholds C I (if c then p else q) past ↔
      (c → Upholds C I p past) ∧ (¬ c → Upholds C I q past) := by
  split <;> simp [*]

variable {C past}

theorem upholds_bind {J : Except Failure α → List (HubDone cfg) → Prop}
    {I : Except Failure β → List (HubDone cfg) → Prop} {p : Handler cfg α} {f : α → Handler cfg β}
    (first : Upholds C J p past) (rest : ∀ a past, J (.ok a) past → Upholds C I (f a) past)
    (failed : ∀ e past, J (.error e) past → I (.error e) past) : Upholds C I (p >>= f) past := by
  refine Prog.Upholds.bind first ?_
  intro r past holds
  cases r with
  | ok a => exact rest a past holds
  | error e => exact failed e past holds

end Upholds

end Handler

open Handler

/-- The calls of a request that has passed the operation limit. -/
def entered (me : Authed) (now : Int) (allowed : Bool) : List (HubDone cfg) :=
  [⟨.rateAllows me.id .operation now, allowed⟩, ⟨.nowMs, now⟩]

/-- A request follows a discipline if its handler does after the operation limit. -/
theorem dispatch_follows {C : List (HubDone cfg) → HubCall → Prop}
    (cardBytes : AgentCard → List UInt8) (me : Authed) (frame : ClientFrame) (fresh : Fresh)
    (upload : Option (List UInt8)) (rounds : Nat) (clock : C [] .nowMs)
    (limit : ∀ now, C [⟨.nowMs, now⟩] (.rateAllows me.id .operation now))
    (waited : ∀ room since limit wait ack, frame = .pull room since limit (some wait) ack →
      (handleWaitedPull cfg me room since limit ack rounds).Follows C [])
    (put : ∀ target sha256 size mediaType now allowed, frame = .putBlob target sha256 size mediaType →
      (servePutBlob cfg me fresh target sha256 size mediaType upload).Follows C
        (entered me now allowed))
    (plain : ∀ now allowed, (handleFrame cfg me fresh cardBytes frame).Follows C
      (entered me now allowed)) :
    (dispatch cfg cardBytes me frame fresh upload rounds).Follows C [] := by
  unfold dispatch
  split
  · exact Prog.Follows.bind_free (waited _ _ _ _ _ rfl) (fun _ _ => trivial)
  · refine ⟨clock, fun now => ⟨limit now, fun allowed => ?_⟩⟩
    dsimp only
    split
    · split
      · trivial
      · split
        · exact put _ _ _ _ now allowed rfl
        · exact Prog.Follows.bind_free (plain now allowed) (fun _ _ => trivial)
    · trivial

/-- The calls of a request are those of its handler, after the operation limit. -/
theorem dispatch_calls {Q : HubCall → Prop} (cardBytes : AgentCard → List UInt8) (me : Authed)
    (frame : ClientFrame) (fresh : Fresh) (upload : Option (List UInt8)) (rounds : Nat)
    (clock : Q .nowMs) (limit : ∀ now, Q (.rateAllows me.id .operation now))
    (waited : ∀ room since limit wait ack, frame = .pull room since limit (some wait) ack →
      (handleWaitedPull cfg me room since limit ack rounds).Calls Q)
    (put : ∀ target sha256 size mediaType, frame = .putBlob target sha256 size mediaType →
      (servePutBlob cfg me fresh target sha256 size mediaType upload).Calls Q)
    (plain : (handleFrame cfg me fresh cardBytes frame).Calls Q) :
    (dispatch cfg cardBytes me frame fresh upload rounds).Calls Q := by
  unfold dispatch
  split
  · exact Prog.Calls.bind (waited _ _ _ _ _ rfl) (fun _ => trivial)
  · refine ⟨clock, fun now => ⟨limit now, fun allowed => ?_⟩⟩
    dsimp only
    split
    · split
      · trivial
      · split
        · exact put _ _ _ _ rfl
        · exact Prog.Calls.bind plain (fun _ => trivial)
    · trivial

section PutBlob

variable (cfg) (me : Authed) (fresh : Fresh) (target : Target) (sha256 : String) (size : Nat)
  (mediaType : Option String) (upload : Option (List UInt8))

/-- An upload follows a discipline if its two halves do, the second after what the first ends
    with. -/
theorem servePutBlob_walk {C : List (HubDone cfg) → HubCall → Prop}
    {I : String → List (HubDone cfg) → Prop} {past : List (HubDone cfg)}
    (acquire : C past (.acquireUpload (max cfg.maxBlobBytes 1)))
    (release : ∀ past, C past (.releaseUpload (max cfg.maxBlobBytes 1)))
    (reserve : (reserveBlob cfg me fresh target size).Follows C
      (⟨.acquireUpload (max cfg.maxBlobBytes 1), true⟩ :: past))
    (reserved : (reserveBlob cfg me fresh target size).Ends I
      (⟨.acquireUpload (max cfg.maxBlobBytes 1), true⟩ :: past))
    (finish : ∀ room data past, I room past →
      (finishBlobUpload cfg me room sha256 size mediaType data).Follows C past) :
    (servePutBlob cfg me fresh target sha256 size mediaType upload).Follows C past := by
  have done : ∀ (frames : List ServerFrame) (past : List (HubDone cfg)),
      (Prog.call (.releaseUpload (max cfg.maxBlobBytes 1)) fun _ => .ret frames :
        Prog (hubMachine cfg) _).Follows C past :=
    fun frames past => ⟨release past, fun _ => trivial⟩
  unfold servePutBlob
  dsimp only
  split
  · trivial
  · split
    · trivial
    · refine ⟨acquire, ?_⟩
      intro granted
      cases granted with
      | false => trivial
      | true =>
        refine Prog.Follows.bind reserve reserved ?_
        intro room past known
        cases room with
        | error e => exact done _ past
        | ok room =>
          cases upload with
          | none => exact done _ past
          | some data =>
            exact Prog.Follows.bind_free (finish room data past (known room rfl))
              (fun r past => done _ past)

theorem servePutBlob_calls {Q : HubCall → Prop}
    (acquire : Q (.acquireUpload (max cfg.maxBlobBytes 1)))
    (release : Q (.releaseUpload (max cfg.maxBlobBytes 1)))
    (reserve : (reserveBlob cfg me fresh target size).Calls Q)
    (finish : ∀ room data, (finishBlobUpload cfg me room sha256 size mediaType data).Calls Q) :
    (servePutBlob cfg me fresh target sha256 size mediaType upload).Calls Q := by
  have follows : (servePutBlob cfg me fresh target sha256 size mediaType upload).Follows
      (fun _ op => Q op) [] := by
    refine servePutBlob_walk cfg me fresh target sha256 size mediaType upload (I := fun _ _ => True)
      acquire (fun _ => release) (reserve.follows (fun _ _ holds => holds) _) ?_ ?_
    · exact ends_of_grows (I := fun _ => True) (fun _ _ _ => trivial) _ trivial
    · exact fun room data past _ => (finish room data).follows (fun _ _ holds => holds) past
  exact Prog.Follows.calls (C := fun _ op => Q op) (fun _ _ holds => holds) follows

end PutBlob

/-! ## The calls of a request -/

namespace HubCall

/-- What a frame other than a pull may call: it leaves cursors and backlogs alone, appends
    under the id drawn for it, and charges a room at a time it has read. -/
@[simp]
def besidesPull (uuid : String) (past : List (HubDone cfg)) : HubCall → Prop
  | .getCursor .. => False
  | .setCursor .. => False
  | .readBacklog .. => False
  | .appendMessage m => m.id = uuid
  | .roomRateAllows _ _ now => ⟨.nowMs, now⟩ ∈ past
  | .pruneRateWindows _ => False
  | .tick _ => False
  | _ => True

/-- The calls of a janitor pass. -/
@[simp]
def ofJanitor (past : List (HubDone cfg)) : HubCall → Prop
  | .nowMs => True
  | .sweepExpired _ => True
  | .pruneMessages .. => True
  | .pruneFacts _ => True
  | .gcBlobs .. => True
  | .removeBlobFile _ => True
  | .pruneRateWindows now => ⟨.nowMs, now⟩ ∈ past
  | _ => False

/-- What the hub calls for no frame: to welcome an agent, in a janitor pass and for the clock. -/
@[simp]
def unasked : HubCall → Prop
  | .nowMs => True
  | .upsertAgent .. => True
  | .touchPresence .. => True
  | .sweepExpired _ => True
  | .pruneMessages .. => True
  | .pruneFacts _ => True
  | .gcBlobs .. => True
  | .removeBlobFile _ => True
  | .pruneRateWindows _ => True
  | .tick _ => True
  | _ => False

end HubCall

section Handlers

variable (cfg) (me : Authed) (fresh : Fresh) (past : List (HubDone cfg))

theorem withQuota_besides {α : Type} {uuid : String} {p : Handler cfg α}
    (body : p.Follows (HubCall.besidesPull uuid) (⟨.lockQuota, ()⟩ :: past)) :
    (withQuota p).Follows (HubCall.besidesPull uuid) past :=
  follows_withQuota trivial (fun _ => trivial) body

theorem resolveTarget_besides (target : Target) :
    (resolveTarget cfg me fresh target).Follows (HubCall.besidesPull fresh.uuid) past := by
  cases target with
  | room room => simp [resolveTarget, requireMember]
  | dm agent =>
    simp only [resolveTarget, follows_call_bind]
    refine ⟨trivial, ?_⟩
    intro shared
    cases shared with
    | some room => simp
    | none =>
      simp only [follows_call_bind]
      refine ⟨trivial, ?_⟩
      intro visibility
      cases visibility <;> simp
  | service service => simp [resolveTarget]

theorem handleSend_besides (target : Target) (parts : List Part) (mentions : Option (List String))
    (replyTo clientId : Option String) :
    (handleSend cfg me fresh target parts mentions replyTo clientId).Follows
      (HubCall.besidesPull fresh.uuid) past := by
  have rest : ∀ (f : String → Handler cfg ServerFrame) past',
      (∀ room past, (f room).Follows (HubCall.besidesPull fresh.uuid) past) →
      (resolveTarget cfg me fresh target >>= f).Follows (HubCall.besidesPull fresh.uuid) past' :=
    fun f past' follows => follows_bind_free (resolveTarget_besides cfg me fresh past' target) follows
  simp [handleSend, fanout, rest]

theorem handleRemember_besides (uuid : String) (fact : Fact) (embedding : Option (List UInt32))
    (model : Option String) :
    (handleRemember cfg me fact embedding model).Follows (HubCall.besidesPull uuid) past := by
  have keyed : ∀ {α β : Type} {p : Handler cfg α} {f : α → Handler cfg β} past',
      p.Follows (HubCall.besidesPull uuid) (⟨.lockQuota, ()⟩ :: past') →
      (∀ a past, (f a).Follows (HubCall.besidesPull uuid) past) →
      (withQuota p >>= f).Follows (HubCall.besidesPull uuid) past' :=
    fun past' body follows => follows_bind_free (withQuota_besides cfg past' body) follows
  unfold handleRemember
  cases fact.room <;> cases fact.key <;> simp [requireMember, keyed]

theorem handleRecall_besides (uuid query : String) (room : Option String) (limit : Option Nat)
    (embedding : Option (List UInt32)) (key : Option String) :
    (handleRecall cfg me query room limit embedding key).Follows (HubCall.besidesPull uuid)
      past := by
  unfold handleRecall
  generalize Option.filter (fun k => !k.isEmpty) key = wanted
  cases room <;> cases wanted <;> simp [requireMember]

theorem handleGetBlob_besides (uuid id : String) :
    (handleGetBlob cfg me id).Follows (HubCall.besidesPull uuid) past := by
  simp only [handleGetBlob, follows_call_bind]
  refine ⟨trivial, ?_⟩
  intro row
  cases row with
  | none => simp
  | some row =>
    simp only [fail_bind, follows_call_bind, follows_ite, follows_fail]
    refine ⟨trivial, fun readable => ⟨fun _ => trivial, fun _ => ?_⟩⟩
    refine ⟨trivial, fun now => ⟨trivial, fun _ => ⟨trivial, fun bytes => ?_⟩⟩⟩
    cases bytes <;> simp

theorem handleFrame_besides (cardBytes : AgentCard → List UInt8) (frame : ClientFrame)
    (other : ∀ room since limit wait ack, frame ≠ .pull room since limit wait ack) :
    (handleFrame cfg me fresh cardBytes frame).Follows (HubCall.besidesPull fresh.uuid) past := by
  have quota : ∀ {α : Type} {p : Handler cfg α} past',
      p.Follows (HubCall.besidesPull fresh.uuid) (⟨.lockQuota, ()⟩ :: past') →
      (withQuota p).Follows (HubCall.besidesPull fresh.uuid) past' :=
    fun past' body => withQuota_besides cfg past' body
  cases frame with
  | pull room since limit wait ack => exact absurd rfl (other room since limit wait ack)
  | send => exact handleSend_besides cfg me fresh past ..
  | remember => exact handleRemember_besides cfg me past ..
  | «recall» => exact handleRecall_besides cfg me past ..
  | getBlob => exact handleGetBlob_besides cfg me past ..
  | _ =>
    simp [handleFrame, handleInvite, handleRedeem, handleJoinRequests, handleResolveJoin,
      handleServe, handleClaim, handleQueue, handleComplete, handleRegister,
      handleMintDirectoryToken, handleMintWatch, handleDeleteRoom, handleRoster, requireMember,
      requireServiceRoom, requireRoomQuota, requireTokenQuota, quota]

theorem servePutBlob_besides (target : Target) (sha256 : String) (size : Nat)
    (mediaType : Option String) (upload : Option (List UInt8)) :
    (servePutBlob cfg me fresh target sha256 size mediaType upload).Follows
      (HubCall.besidesPull fresh.uuid) past := by
  have reserve : ∀ past, (reserveBlob cfg me fresh target size).Follows
      (HubCall.besidesPull fresh.uuid) past := by
    intro past
    have rest : ∀ (f : String → Handler cfg String) past',
        (∀ room past, (f room).Follows (HubCall.besidesPull fresh.uuid) past) →
        (resolveTarget cfg me fresh target >>= f).Follows (HubCall.besidesPull fresh.uuid) past' :=
      fun f past' follows =>
        follows_bind_free (resolveTarget_besides cfg me fresh past' target) follows
    simp [reserveBlob, rest]
  have finish : ∀ room data past,
      (finishBlobUpload cfg me room sha256 size mediaType data).Follows
        (HubCall.besidesPull fresh.uuid) past := by
    intro room data past
    simp [finishBlobUpload]
  exact servePutBlob_walk cfg me fresh target sha256 size mediaType upload (I := fun _ _ => True)
    trivial (fun _ => trivial) (reserve _)
    (ends_of_grows (I := fun _ => True) (fun _ _ _ => trivial) _ trivial)
    (fun room data past _ => finish room data past)

end Handlers

section Janitor

variable (cfg)

theorem whenSet_ofJanitor {α : Type} {setting : Option Int} {op : Int → HubCall}
    {next : Prog (hubMachine cfg) α} {past : List (HubDone cfg)} {now : Int}
    (read : ⟨.nowMs, now⟩ ∈ past) (own : ∀ v (past : List (HubDone cfg)), (op v).ofJanitor past)
    (rest : ∀ past, ⟨.nowMs, now⟩ ∈ past → next.Follows HubCall.ofJanitor past) :
    (whenSet cfg setting op next).Follows HubCall.ofJanitor past := by
  cases setting with
  | none => exact rest past read
  | some v => exact ⟨own v past, fun _ => rest _ (List.mem_cons_of_mem _ read)⟩

theorem janitor_ofJanitor : (janitor cfg).Follows HubCall.ofJanitor [] := by
  have unlink : ∀ ids past, (unlinkBlobs cfg ids).Follows HubCall.ofJanitor past := by
    intro ids
    induction ids with
    | nil => exact fun _ => trivial
    | cons id ids ih => exact fun past => ⟨trivial, fun _ => ih _⟩
  have grows : ∀ now (d : HubDone cfg) past, (⟨.nowMs, now⟩ : HubDone cfg) ∈ past →
      (⟨.nowMs, now⟩ : HubDone cfg) ∈ d :: past :=
    fun now d past read => List.mem_cons_of_mem d read
  refine ⟨trivial, fun now => ⟨trivial, fun _ => ?_⟩⟩
  have read : (⟨.nowMs, now⟩ : HubDone cfg) ∈ [⟨.sweepExpired now, ()⟩, ⟨.nowMs, now⟩] := by simp
  refine whenSet_ofJanitor cfg read (fun _ _ => trivial) (fun past read => ?_)
  refine whenSet_ofJanitor cfg read (fun _ _ => trivial) (fun past read => ?_)
  split
  · refine ⟨trivial, fun ids => ?_⟩
    refine Prog.Follows.bind (unlink ids _) (Prog.Ends.of_grows (grows now)
      (J := fun _ past => ⟨.nowMs, now⟩ ∈ past) (fun _ _ read => read) _ (grows now _ _ read)) ?_
    exact fun _ past read => ⟨read, fun _ => trivial⟩
  · exact ⟨read, fun _ => trivial⟩

variable {cfg}

/-- Every request follows a discipline that frees what the hub calls for no frame, if the frames do. -/
theorem serve_follows {C : Request → List (HubDone cfg) → HubCall → Prop}
    (free : ∀ req past op, op.unasked → C req past op) {cardBytes : AgentCard → List UInt8}
    (frames : ∀ me frame fresh upload rounds,
      (serve cfg cardBytes (.frame me frame fresh upload rounds)).Follows
        (C (.frame me frame fresh upload rounds)) [])
    (req : Request) : (serve cfg cardBytes req).Follows (C req) [] := by
  cases req with
  | frame me frame fresh upload rounds => exact frames me frame fresh upload rounds
  | welcome me =>
    exact ⟨free _ _ _ trivial,
      fun _ => ⟨free _ _ _ trivial, fun _ => ⟨free _ _ _ trivial, fun _ => trivial⟩⟩⟩
  | janitor =>
    refine (janitor_ofJanitor cfg).mono ?_
    intro past op own
    refine free _ _ _ ?_
    cases op <;> trivial
  | tick ms => exact ⟨free _ _ _ trivial, fun _ => trivial⟩

end Janitor

section PullCalls

variable {Q : HubCall → Prop} {room agent : String} {since : Option Int} {limit : Option Nat}
  {ack : Option Int} {rounds : Nat}

theorem storePull_calls (get : Q (.getCursor room agent))
    (set : ∀ v, since = none → (∀ a, ack = some a → v = a) → Q (.setCursor room agent v))
    (read : ∀ floor, Q (.readBacklog room agent floor (Store.pullLimit limit))) :
    (storePull cfg room agent since limit ack).Calls Q := by
  cases since <;> cases ack <;> simp [storePull, pullFloor, get, set, read]

theorem pullLoop_calls (get : Q (.getCursor room agent))
    (set : ∀ v, (∀ a, ack = some a → v = a) → Q (.setCursor room agent v))
    (read : ∀ floor, Q (.readBacklog room agent floor (Store.pullLimit limit)))
    (arm : Q (.notified room)) (park : Q (.parked room)) :
    (pullLoop cfg room agent limit ack rounds).Calls Q := by
  induction rounds with
  | zero => exact ⟨arm, fun _ => storePull_calls get (fun v _ => set v) read⟩
  | succ rounds ih =>
    refine ⟨arm, fun _ => calls_bind (storePull_calls get (fun v _ => set v) read) ?_⟩
    rintro ⟨messages, cursor⟩
    dsimp only
    split
    · exact ⟨park, fun _ => ih⟩
    · trivial

/-- What a pull calls, plain or parked. -/
theorem serve_pull_calls {cardBytes : AgentCard → List UInt8} {me : Authed} {wait : Option Nat}
    {fresh : Fresh} {upload : Option (List UInt8)} (clock : Q .nowMs)
    (limited : ∀ now, Q (.rateAllows me.id .operation now)) (member : Q (.isMember room me.id))
    (get : Q (.getCursor room me.id))
    (set : ∀ v, since = none → (∀ a, ack = some a → v = a) → Q (.setCursor room me.id v))
    (read : ∀ floor, Q (.readBacklog room me.id floor (Store.pullLimit limit)))
    (parks : since = none → ∀ secs, wait = some secs → Q (.notified room) ∧ Q (.parked room)) :
    (serve cfg cardBytes
      (.frame me (.pull room since limit wait ack) fresh upload rounds)).Calls Q := by
  have require : (requireMember cfg me room).Calls Q := by simp [requireMember, member]
  cases wait with
  | some wait =>
    refine Prog.Calls.bind (calls_bind (calls_bind require ?_) (fun _ => trivial))
      (fun _ => trivial)
    intro _
    refine calls_bind (storePull_calls get set read) ?_
    intro first
    split
    · trivial
    · rename_i empty
      have unset : since = none := by
        cases since with
        | none => rfl
        | some floor => simp at empty
      obtain ⟨arm, park⟩ := parks unset wait rfl
      exact pullLoop_calls get (fun v => set v unset) read arm park
  | none =>
    refine ⟨clock, fun now => ⟨limited now, fun allowed => ?_⟩⟩
    dsimp only
    split
    · split
      · trivial
      · refine Prog.Calls.bind (calls_bind require ?_) (fun _ => trivial)
        exact fun _ => calls_bind (storePull_calls get set read) (fun _ => trivial)
    · trivial

end PullCalls

/-- The room and the caller of a pull request. -/
def Request.pulls : Request → Option (String × String)
  | .frame me (.pull room _ _ _ _) _ _ _ => some (room, me.id)
  | _ => none

theorem Request.pulls_frame {req : Request} {room agent : String}
    (pulls : req.pulls = some (room, agent)) : ∃ me since limit wait ack fresh upload rounds,
      req = .frame me (.pull room since limit wait ack) fresh upload rounds ∧ me.id = agent := by
  unfold Request.pulls at pulls
  split at pulls
  · cases pulls
    exact ⟨_, _, _, _, _, _, _, _, rfl, rfl⟩
  · cases pulls

/-- The message id drawn for a request. -/
def Request.uuid : Request → Option String
  | .frame _ _ fresh _ _ => some fresh.uuid
  | _ => none

/-- The request is a cursor pull of the agent that may move the cursor to `v`: to its ack,
    if it has one. -/
def Request.moves (req : Request) (room agent : String) (v : Int) : Prop :=
  match req with
  | .frame me (.pull r none _ _ ack) _ _ _ =>
      r = room ∧ me.id = agent ∧ ∀ a, ack = some a → v = a
  | _ => False

theorem Request.moves_pulls {req : Request} {room agent : String} {v : Int}
    (moves : req.moves room agent v) : req.pulls = some (room, agent) := by
  unfold Request.moves at moves
  split at moves
  · obtain ⟨rfl, rfl, -⟩ := moves
    rfl
  · exact moves.elim

/-- What a request may call: the store's pull for what it pulls, an append under the id
    drawn for it, a charge or a pruning of room windows at a time it has read, a tick
    of the clock on its own, and the other calls. -/
def Request.may (req : Request) (past : List (HubDone cfg)) : HubCall → Prop
  | .getCursor room agent => req.pulls = some (room, agent)
  | .setCursor room agent v => req.moves room agent v
  | .readBacklog room agent _ _ => req.pulls = some (room, agent)
  | .appendMessage m => req.uuid = some m.id
  | .roomRateAllows _ _ now => ⟨.nowMs, now⟩ ∈ past
  | .pruneRateWindows now => ⟨.nowMs, now⟩ ∈ past
  | .tick _ => past = []
  | _ => True

theorem serve_may (cfg : HubConfig) (cardBytes : AgentCard → List UInt8) (req : Request) :
    (serve cfg cardBytes req).Follows req.may [] := by
  cases req with
  | frame me frame fresh upload rounds =>
    by_cases pulls : ∃ room since limit wait ack, frame = .pull room since limit wait ack
    · obtain ⟨room, since, limit, wait, ack, rfl⟩ := pulls
      let req := Request.frame me (.pull room since limit wait ack) fresh upload rounds
      refine (serve_pull_calls (Q := fun op => ∀ past : List (HubDone cfg), req.may past op)
        (fun _ => trivial) (fun _ _ => trivial) (fun _ => trivial) (fun _ => rfl) ?_
        (fun _ _ => rfl) (fun _ _ _ => ⟨fun _ => trivial, fun _ => trivial⟩)).follows
          (fun past op may => may past) []
      rintro v rfl own past
      exact ⟨rfl, rfl, own⟩
    · have other : ∀ room since limit wait ack, frame ≠ .pull room since limit wait ack :=
        fun room since limit wait ack same => pulls ⟨room, since, limit, wait, ack, same⟩
      have weaker : ∀ (past : List (HubDone cfg)) op, HubCall.besidesPull fresh.uuid past op →
          (Request.frame me frame fresh upload rounds).may past op := by
        intro past op besides
        cases op <;> first | trivial | exact congrArg some besides.symm
      refine dispatch_follows cardBytes me frame fresh upload rounds trivial (fun _ => trivial) ?_ ?_
        ?_
      · intro room since limit wait ack same
        exact absurd same (other _ _ _ _ _)
      · intro target sha256 size mediaType now allowed same
        exact (servePutBlob_besides cfg me fresh _ target sha256 size mediaType upload).mono weaker
      · intro now allowed
        exact (handleFrame_besides cfg me fresh _ cardBytes frame other).mono weaker
  | welcome me =>
    exact ⟨trivial, fun _ => ⟨trivial, fun _ => ⟨trivial, fun _ => trivial⟩⟩⟩
  | janitor =>
    refine (janitor_ofJanitor cfg).mono ?_
    intro past op own
    cases op <;> trivial
  | tick ms => exact ⟨rfl, fun _ => trivial⟩

namespace HubCall

/-- A call that leaves cursors and backlogs alone. -/
def elsewhere : HubCall → Prop
  | .getCursor .. => False
  | .setCursor .. => False
  | .readBacklog .. => False
  | _ => True

end HubCall

/-- Only a pull touches a cursor or reads a backlog. -/
theorem serve_elsewhere (cfg : HubConfig) (cardBytes : AgentCard → List UInt8) (req : Request)
    (other : req.pulls = none) : (serve cfg cardBytes req).Calls HubCall.elsewhere := by
  refine (serve_may cfg cardBytes req).calls ?_
  intro past op may
  cases op with
  | getCursor | readBacklog =>
    rw [Request.may, other] at may
    cases may
  | setCursor room agent v =>
    rw [Request.moves_pulls may] at other
    cases other
  | _ => trivial

/-! ## Calls that leave rooms alone -/

namespace HubCall

/-- A call that writes neither rooms, memberships, invites nor join requests, cursors apart, and
    leaves the quota lock alone. -/
def aside : HubCall → Bool
  | .lockQuota | .unlockQuota | .ensureRoom .. | .addMember .. | .setRoomOwner .. | .deleteRoom ..
  | .createInvite .. | .redeemInvite .. | .resolveJoin .. | .sweepExpired _ => false
  | _ => true

end HubCall

/-- A frame all of whose calls are, once its target is resolved. -/
def frameAside : ClientFrame → Bool
  | .invite .. | .redeem _ | .resolveJoin .. | .serve _ | .deleteRoom _ | .mintDirectoryToken _
  | .mintWatch .. | .remember .. => false
  | _ => true

/-- The target of a frame. -/
def frameTarget : ClientFrame → Option Target
  | .send target .. | .putBlob target .. => some target
  | _ => none

section Aside

variable (cfg) (me : Authed) (fresh : Fresh)

theorem handleFrame_aside (cardBytes : AgentCard → List UInt8) (frame : ClientFrame)
    (other : ∀ room since limit wait ack, frame ≠ .pull room since limit wait ack)
    (untargeted : frameTarget frame = none) (aside : frameAside frame = true) :
    (handleFrame cfg me fresh cardBytes frame).Calls (fun op => op.aside = true) := by
  cases frame with
  | pull room since limit wait ack => exact absurd rfl (other room since limit wait ack)
  | invite | redeem | resolveJoin | serve | deleteRoom | mintDirectoryToken | mintWatch | remember =>
    cases aside
  | send | putBlob => cases untargeted
  | «recall» query room limit embedding key =>
    simp only [handleFrame, handleRecall]
    generalize Option.filter (fun k => !k.isEmpty) key = wanted
    cases room <;> cases wanted <;> simp [requireMember, HubCall.aside]
  | getBlob id =>
    simp only [handleFrame, handleGetBlob, calls_call_bind]
    refine ⟨rfl, ?_⟩
    intro row
    cases row with
    | none => simp
    | some row =>
      simp only [fail_bind, calls_call_bind, calls_ite, calls_fail]
      refine ⟨rfl, fun readable => ⟨fun _ => trivial, fun _ => ?_⟩⟩
      refine ⟨rfl, fun now => ⟨rfl, fun _ => ⟨rfl, fun bytes => ?_⟩⟩⟩
      cases bytes <;> simp
  | _ =>
    simp [handleFrame, handleJoinRequests, handleClaim, handleQueue, handleComplete,
      handleRegister, handleRoster, requireMember, requireServiceRoom, HubCall.aside]

-- A discipline `C` that frees these calls, and a fact `J` about the past that they keep.
variable {cfg} {C : List (HubDone cfg) → HubCall → Prop} {J : List (HubDone cfg) → Prop}
  {past : List (HubDone cfg)}

theorem handleSend_follows (free : ∀ past op, op.aside = true → C past op)
    (grows : ∀ (d : HubDone cfg) past, d.1.aside = true → J past → J (d :: past)) {target : Target}
    (resolve : ∀ past, J past → (resolveTarget cfg me fresh target).Follows C past)
    (parts : List Part) (mentions : Option (List String)) (replyTo clientId : Option String)
    (now : J past) :
    (handleSend cfg me fresh target parts mentions replyTo clientId).Follows C past := by
  unfold handleSend
  simp only [follows_call_bind, fail_bind, follows_ite, follows_fail]
  refine ⟨free _ _ rfl, fun clock => ⟨free _ _ rfl, fun allowed => ⟨fun _ => trivial, fun _ => ?_⟩⟩⟩
  refine ⟨fun _ => trivial, fun _ => ?_⟩
  refine follows_bind_free (resolve _ (grows _ _ rfl (grows _ _ rfl now))) ?_
  intro room past
  refine Prog.Calls.follows free (?_ : Calls (fun op => op.aside = true) _) past
  simp [fanout, HubCall.aside]

theorem servePutBlob_follows (free : ∀ past op, op.aside = true → C past op)
    (grows : ∀ (d : HubDone cfg) past, d.1.aside = true → J past → J (d :: past)) {target : Target}
    (resolve : ∀ past, J past → (resolveTarget cfg me fresh target).Follows C past)
    (sha256 : String) (size : Nat) (mediaType : Option String) (upload : Option (List UInt8))
    (now : J past) :
    (servePutBlob cfg me fresh target sha256 size mediaType upload).Follows C past := by
  have reserve : ∀ past, J past → (reserveBlob cfg me fresh target size).Follows C past := by
    intro past now
    unfold reserveBlob
    simp only [follows_call_bind, fail_bind, follows_ite, follows_fail]
    refine ⟨free _ _ rfl, fun clock => ⟨free _ _ rfl, fun allowed => ⟨fun _ => trivial, fun _ => ?_⟩⟩⟩
    refine ⟨free _ _ rfl, fun used => ⟨fun _ => trivial, fun _ => ?_⟩⟩
    refine follows_bind_free (resolve _ (grows _ _ rfl (grows _ _ rfl (grows _ _ rfl now)))) ?_
    intro room past
    refine Prog.Calls.follows free (?_ : Calls (fun op => op.aside = true) _) past
    simp [HubCall.aside]
  have finish : ∀ room data past,
      (finishBlobUpload cfg me room sha256 size mediaType data).Follows C past := by
    intro room data past
    refine Prog.Calls.follows free (?_ : Calls (fun op => op.aside = true) _) past
    simp [finishBlobUpload, HubCall.aside]
  exact servePutBlob_walk cfg me fresh target sha256 size mediaType upload (I := fun _ _ => True)
    (free _ _ rfl) (fun _ => free _ _ rfl) (reserve _ (grows _ past rfl now))
    (ends_of_grows (I := fun _ => True) (fun _ _ _ => trivial) _ trivial)
    (fun room data past _ => finish room data past)

/-- A request follows a discipline on rooms if its target and the frames that write rooms do. -/
theorem serve_follows_rooms (free : ∀ past op, op.aside = true → C past op)
    (grows : ∀ (d : HubDone cfg) past, d.1.aside = true → J past → J (d :: past)) (now : J [])
    (cardBytes : AgentCard → List UInt8) (frame : ClientFrame) (upload : Option (List UInt8))
    (rounds : Nat)
    (resolve : ∀ target, frameTarget frame = some target → ∀ past, J past →
      (resolveTarget cfg me fresh target).Follows C past)
    (handle : frameAside frame = false → ∀ past, J past →
      (handleFrame cfg me fresh cardBytes frame).Follows C past) :
    (serve cfg cardBytes (.frame me frame fresh upload rounds)).Follows C [] := by
  by_cases pulls : ∃ room since limit wait ack, frame = .pull room since limit wait ack
  · obtain ⟨room, since, limit, wait, ack, rfl⟩ := pulls
    refine (serve_pull_calls (Q := fun op : HubCall => op.aside = true) rfl (fun _ => rfl) rfl rfl
      (fun _ _ _ => rfl) (fun _ => rfl) (fun _ _ _ => ⟨rfl, rfl⟩)).follows free []
  · have other : ∀ room since limit wait ack, frame ≠ .pull room since limit wait ack :=
      fun room since limit wait ack same => pulls ⟨room, since, limit, wait, ack, same⟩
    have after : ∀ now allowed, J (entered me now allowed) := by
      intro clock allowed
      exact grows _ _ rfl (grows _ _ rfl now)
    refine dispatch_follows cardBytes me frame fresh upload rounds (free _ _ rfl)
      (fun _ => free _ _ rfl) ?_ ?_ ?_
    · intro room since limit wait ack same
      exact absurd same (other _ _ _ _ _)
    · rintro target sha256 size mediaType clock allowed rfl
      exact servePutBlob_follows me fresh free grows (resolve target rfl) sha256 size mediaType upload
        (after clock allowed)
    · intro clock allowed
      by_cases quiet : frameAside frame = true
      · cases targeted : frameTarget frame with
        | none =>
          exact (handleFrame_aside cfg me fresh cardBytes frame other targeted quiet).follows free _
        | some target =>
          cases frame with
          | send target' parts mentions replyTo clientId =>
            cases targeted
            exact handleSend_follows me fresh free grows (resolve target rfl) parts mentions replyTo
              clientId (after clock allowed)
          | putBlob => trivial
          | _ => cases targeted
      · exact handle (by simpa using quiet) _ (after clock allowed)

end Aside

end Parler.Hub
