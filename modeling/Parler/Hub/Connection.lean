import Parler.Hub.Demo
import Parler.Hub.Handshake
import Parler.Hub.Metering

/-!
# One connection

`handle_socket` of `crates/parler-hub/src/server.rs` (1690-1803): the state of a connection, what one
received message does to it, and the programs it runs on the hub. The messages
of other connections run between the calls of such a program, so a run of a connection takes
whatever results its calls get.
-/

namespace Parler.Hub

open Parler.Lib Parler.Protocol

/-- An accepted `PutBlob` whose bytes the next binary message must deliver. -/
structure PendingUpload where
  id : String
  room : String
  author : String
  size : Nat
  mediaType : Option String

/-- `ConnState`, without the registration of pushes. -/
structure Conn where
  nonce : Option String
  authed : Option Authed
  pending : Option PendingUpload
  /-- A saturating byte. -/
  helloFrames : Nat

def Conn.new : Conn := ⟨none, none, none, 0⟩

/-- What a text message is read as. -/
inductive ClientText where
  | hello (id name : String) (role sig secret : Option String)
  | frame (frame : ClientFrame)
  | malformed (error : String)

inductive Incoming where
  | text (text : ClientText)
  /-- A text longer than the hub reads. -/
  | oversized (length limit : Nat)
  | binary (data : List UInt8)
  | control

inductive Sent where
  | challenge (nonce version : String)
  | welcome (id name : String)
  | frame (frame : ServerFrame)
  deriving DecidableEq

/-- The connection after a message, what was sent, and whether the socket stays open. -/
structure Outcome where
  conn : Conn
  sent : List Sent
  stays : Bool

section Receive

variable (cfg : HubConfig)

/-- The frames are sent and the socket stays open. -/
def Conn.answers (conn : Conn) (frames : List ServerFrame) : Outcome :=
  ⟨conn, frames.map .frame, true⟩

def Conn.refuses (conn : Conn) (code message : String) : Outcome :=
  conn.answers (errorFrame (.coded code message))

def helloBounds (id name : String) (role sig secret : Option String) : Except Failure Unit := do
  boundedString id "agent id" 256
  boundedString name "agent name" 256
  boundedOption role "agent role" 256
  boundedOption sig "signature" 512
  boundedOption secret "join secret" maxControlStringBytes

def protocolVersion : String := "0.2"

/-- `handle_hello` (`server.rs:2259-2333`). -/
def handleHello (conn : Conn) (uuid id name : String) (role sig secret : Option String) :
    Prog (hubMachine cfg) Outcome :=
  match helloBounds id name role sig secret with
  | .error e => .ret (conn.answers (errorFrame e))
  | .ok _ =>
      match sig with
      | none =>
          .call .nowMs fun (now : Int) =>
            let nonce := issueChallenge cfg.ext cfg.publicUrl now uuid
            .ret ⟨{ conn with nonce := some nonce }, [.challenge nonce protocolVersion], true⟩
      | some sig =>
          match conn.nonce with
          | none => .ret (conn.refuses ErrorCode.protocol
              "no challenge issued — send `hello` without a signature first")
          | some nonce =>
              .call .nowMs fun (now : Int) =>
                if !challengeValid cfg.ext nonce cfg.publicUrl now then
                  .ret (conn.refuses ErrorCode.unauthenticated
                    "challenge expired — reconnect and retry")
                else if !cfg.ext.verify id (utf8 nonce) sig then
                  .ret (conn.refuses ErrorCode.unauthenticated "signature verification failed")
                else if cfg.joinSecret.any (fun expected => !secretMatches expected secret) then
                  .ret (conn.refuses ErrorCode.notAuthorized
                    "this hub requires a join secret (set PARLER_JOIN_SECRET)")
                else
                  (serve cfg (fun _ => []) (.welcome ⟨id, name, role⟩)).bind fun _ =>
                    .ret ⟨{ conn with authed := some ⟨id, name, role⟩ }, [.welcome id name], true⟩

def alreadyAuthenticated : ServerFrame :=
  .error "connection is already authenticated" (some ErrorCode.protocol)

def tooManyAttempts : ServerFrame :=
  .error "too many authentication attempts on this connection" (some ErrorCode.rateLimited)

/-- The hello branch of `dispatch` (`server.rs:1886-1902`). -/
def dispatchHello (conn : Conn) (uuid id name : String) (role sig secret : Option String) :
    Prog (hubMachine cfg) Outcome :=
  if conn.authed.isSome then .ret (conn.answers [alreadyAuthenticated])
  else
    let conn := { conn with
      helloFrames := if conn.helloFrames < 255 then conn.helloFrames + 1 else conn.helloFrames }
    if conn.helloFrames > 4 then .ret (conn.answers [tooManyAttempts])
    else handleHello cfg conn uuid id name role sig secret

/-- `handle_put_blob` up to the reservation. -/
def handlePutBlob (me : Authed) (fresh : Fresh) (target : Target) (sha256 : String) (size : Nat)
    (mediaType : Option String) : Prog (hubMachine cfg) (Except Failure PendingUpload) :=
  let limit := cfg.maxBlobBytes
  if size > limit then
    .ret (.error (.coded ErrorCode.tooLarge s!"blob too large: {size} bytes > limit {limit}"))
  else if max limit 1 ≥ 2 ^ 32 then
    .ret (.error (.coded ErrorCode.tooLarge "blob is too large for the in-flight upload budget"))
  else
    .call (.acquireUpload (max limit 1)) fun (granted : Bool) =>
      if granted then
        (reserveBlob cfg me fresh target size).prog.bind fun
          | .error e => .call (.releaseUpload (max limit 1)) fun _ => .ret (.error e)
          | .ok room => .ret (.ok ⟨sha256, room, me.id, size, mediaType⟩)
      else
        .ret (.error (.coded ErrorCode.atCapacity
          "hub upload capacity is busy — retry after current uploads finish"))

/-- The permit of an upload that another one takes the place of is given back. -/
def dropPending (pending : Option PendingUpload) (next : Prog (hubMachine cfg) Outcome) :
    Prog (hubMachine cfg) Outcome :=
  match pending with
  | none => next
  | some _ => .call (.releaseUpload (max cfg.maxBlobBytes 1)) fun _ => next

/-- The put-blob branch of `dispatch`. -/
def dispatchPutBlob (conn : Conn) (me : Authed) (fresh : Fresh) (target : Target) (sha256 : String)
    (size : Nat) (mediaType : Option String) : Prog (hubMachine cfg) Outcome :=
  .call .nowMs fun (now : Int) =>
    .call (.rateAllows me.id .operation now) fun (allowed : Bool) =>
      if allowed then
        match validateFrameBounds cfg (.putBlob target sha256 size mediaType) with
        | .error e => .ret (conn.answers (errorFrame e))
        | .ok _ =>
            (handlePutBlob cfg me fresh target sha256 size mediaType).bind fun
              | .error e => .ret (conn.answers (errorFrame e))
              | .ok pending => dropPending cfg conn.pending
                  (.ret ({ conn with pending := some pending }.answers [.blobReady sha256]))
      else
        .ret (conn.refuses ErrorCode.rateLimited "rate limit: too many operations — slow down")

/-- The bytes of a pending upload arrive. -/
def receiveBytes (conn : Conn) (pending : PendingUpload) (data : List UInt8) :
    Prog (hubMachine cfg) Outcome :=
  (finishBlobUpload cfg ⟨pending.author, "", none⟩ pending.room pending.id pending.size
    pending.mediaType data).prog.bind fun r =>
      .call (.releaseUpload (max cfg.maxBlobBytes 1)) fun _ =>
        .ret ({ conn with pending := none }.answers (replies r))

/-- One turn of `handle_socket`. -/
def receive (cardBytes : AgentCard → List UInt8) (conn : Conn) (fresh : Fresh) (rounds : Nat) :
    Incoming → Prog (hubMachine cfg) Outcome
  | .oversized length limit => .ret { conn.refuses ErrorCode.tooLarge
      s!"structured frame too large: {length} bytes > limit {limit}" with stays := false }
  | .text (.malformed error) => .ret (conn.refuses ErrorCode.badFrame s!"malformed frame: {error}")
  | .text (.hello id name role sig secret) =>
      dispatchHello cfg conn fresh.uuid id name role sig secret
  | .text (.frame frame) =>
      match conn.authed with
      | none => .ret (conn.refuses ErrorCode.unauthenticated
          "not authenticated — send `hello` first")
      | some me =>
          match frame with
          | .putBlob target sha256 size mediaType =>
              dispatchPutBlob cfg conn me fresh target sha256 size mediaType
          | other => (dispatch cfg cardBytes me other fresh none rounds).bind fun frames =>
              .ret (conn.answers frames)
  | .binary data =>
      match conn.pending with
      | none => .ret { conn.refuses ErrorCode.protocol
          "unexpected binary frame (no PutBlob in flight)" with stays := false }
      | some pending => receiveBytes cfg conn pending data
  | .control => .ret ⟨conn, [], true⟩

end Receive

variable {cfg : HubConfig}

/-- An upload is two messages of its connection: the calls that `dispatch` makes for a frame with its
    bytes are those of the two messages, one after the other. -/
theorem upload_two_messages (cardBytes : AgentCard → List UInt8) {conn : Conn} {me : Authed}
    (known : conn.authed = some me) (idle : conn.pending = none) (fresh : Fresh) (rounds : Nat)
    (target : Target) (sha256 : String) (size : Nat) (mediaType : Option String)
    (data : List UInt8) :
    ((receive cfg cardBytes conn fresh rounds
        (.text (.frame (.putBlob target sha256 size mediaType)))).bind fun out =>
      match out.conn.pending with
      | none => .ret out.sent
      | some _ => (receive cfg cardBytes out.conn fresh rounds (.binary data)).bind fun out' =>
          .ret (out.sent ++ out'.sent)) =
    (dispatch cfg cardBytes me (.putBlob target sha256 size mediaType) fresh (some data) rounds).bind
      fun frames => .ret (frames.map .frame) := by
  have refused : ∀ frames : List ServerFrame,
      (match (conn.answers frames).conn.pending with
        | none => (.ret (conn.answers frames).sent : Prog (hubMachine cfg) (List Sent))
        | some _ => (receive cfg cardBytes (conn.answers frames).conn fresh rounds
            (.binary data)).bind fun out' => .ret ((conn.answers frames).sent ++ out'.sent)) =
        .ret (frames.map .frame) := by
    intro frames
    rw [show (conn.answers frames).conn.pending = none from idle]
    rfl
  simp only [receive, known, dispatchPutBlob, dispatch, Prog.bind]
  congr 1
  funext now
  congr 1
  funext allowed
  cases allowed with
  | false => exact refused _
  | true =>
    simp only [if_true]
    cases validateFrameBounds cfg (.putBlob target sha256 size mediaType) with
    | error e => exact refused _
    | ok _ =>
      simp only [handlePutBlob, servePutBlob]
      split
      · exact refused _
      · split
        · exact refused _
        · simp only [Prog.bind]
          congr 1
          funext granted
          cases granted with
          | false => exact refused _
          | true =>
            simp only [if_true]
            rw [Prog.bind_assoc, Prog.bind_assoc, Prog.bind_assoc]
            congr 1
            funext reserved
            cases reserved with
            | error e =>
              simp only [Prog.bind]
              congr 1
              funext _
              exact refused _
            | ok room =>
              rw [idle]
              simp only [Prog.bind, dropPending]
              rw [Prog.bind_assoc]
              refine (Prog.bind_assoc _ _ _).trans ?_
              show (finishBlobUpload cfg me room sha256 size mediaType data).prog.bind _ = _
              congr 1

/-! ## Steps -/

def Incoming.isHello : Incoming → Bool
  | .text (.hello ..) => true
  | _ => false

/-- A hello that `handle_hello` took. -/
def processed (incoming : Incoming) (out : Outcome) : Bool :=
  incoming.isHello && out.sent != [.frame alreadyAuthenticated] && out.sent != [.frame tooManyAttempts]

/-- An upload is pending on an authenticated connection only. -/
def Conn.Tidy (conn : Conn) : Prop := conn.authed = none → conn.pending = none

/-- The message was answered with a fresh challenge. -/
def Challenged (cfg : HubConfig) (calls : List (HubDone cfg)) (out : Outcome) : Prop :=
  ∃ issued uuid, calls = [⟨.nowMs, issued⟩] ∧
    out.conn.nonce = some (issueChallenge cfg.ext cfg.publicUrl issued uuid) ∧
    out.sent = [.challenge (issueChallenge cfg.ext cfg.publicUrl issued uuid) protocolVersion]

/-- What one message does to the handshake state. -/
structure Received (cfg : HubConfig) (conn : Conn) (incoming : Incoming) (calls : List (HubDone cfg))
    (out : Outcome) : Prop where
  stays : ∀ me, conn.authed = some me → out.conn.authed = some me
  tidy : out.conn.Tidy
  silent : conn.authed = none → incoming.isHello = false → calls = []
  nonce : Challenged cfg calls out ∨
    (out.conn.nonce = conn.nonce ∧ ∀ n v, .challenge n v ∉ out.sent)
  grows : conn.helloFrames ≤ out.conn.helloFrames
  counts : processed incoming out = true →
    conn.helloFrames < out.conn.helloFrames ∧ out.conn.helloFrames ≤ 4
  welcomed : conn.authed = none → ∀ me, out.conn.authed = some me →
    ∃ sig secret nonce now, incoming = .text (.hello me.id me.name me.role (some sig) secret) ∧
      conn.nonce = some nonce ∧ ⟨.nowMs, now⟩ ∈ calls ∧
      challengeValid cfg.ext nonce cfg.publicUrl now = true ∧
      cfg.ext.verify me.id (utf8 nonce) sig = true ∧
      ∀ expected, cfg.joinSecret = some expected → secret = some expected

/-- The handshake state is as it was and only plain frames are sent. -/
structure Aside (conn : Conn) (out : Outcome) : Prop where
  authed : out.conn.authed = conn.authed
  nonce : out.conn.nonce = conn.nonce
  helloFrames : conn.helloFrames ≤ out.conn.helloFrames
  sent : ∃ frames : List ServerFrame, out.sent = frames.map .frame

theorem aside_answers (conn : Conn) (frames : List ServerFrame) : Aside conn (conn.answers frames) :=
  ⟨rfl, rfl, le_refl _, frames, rfl⟩

theorem Aside.unchallenged {conn : Conn} {out : Outcome} (aside : Aside conn out) (n v : String) :
    .challenge n v ∉ out.sent := by
  obtain ⟨frames, same⟩ := aside.sent
  rw [same]
  simp

theorem Aside.received {conn : Conn} {incoming : Incoming} {calls : List (HubDone cfg)}
    {out : Outcome} (aside : Aside conn out) (tidy : out.conn.Tidy)
    (silent : conn.authed = none → calls = []) (other : processed incoming out = false) :
    Received cfg conn incoming calls out where
  stays me known := aside.authed.trans known
  tidy := tidy
  silent unknown _ := silent unknown
  nonce := Or.inr ⟨aside.nonce, aside.unchallenged⟩
  grows := aside.helloFrames
  counts taken := by
    rw [other] at taken
    cases taken
  welcomed unknown me known := by
    rw [aside.authed, unknown] at known
    cases known

section Hello

variable {conn : Conn} {uuid id name : String} {role sig secret : Option String}
  {calls : List (HubDone cfg)} {out : Outcome}

/-- The connection that takes one more hello. -/
def Conn.counted (conn : Conn) : Conn := { conn with helloFrames := conn.helloFrames + 1 }

theorem received_refusal (unknown : conn.authed = none) (tidy : conn.Tidy)
    (few : conn.helloFrames + 1 ≤ 4) (calls : List (HubDone cfg)) (frames : List ServerFrame) :
    Received cfg conn (.text (.hello id name role sig secret)) calls (conn.counted.answers frames) where
  stays me known := by
    rw [unknown] at known
    cases known
  tidy := tidy
  silent _ other := nomatch other
  nonce := Or.inr ⟨rfl, (aside_answers conn.counted frames).unchallenged⟩
  grows := Nat.le_succ _
  counts _ := ⟨Nat.lt_succ_self _, few⟩
  welcomed _ me known := by
    rw [show (conn.counted.answers frames).conn.authed = conn.authed from rfl, unknown] at known
    cases known

theorem handleHello_received (unknown : conn.authed = none) (tidy : conn.Tidy)
    (few : conn.helloFrames + 1 ≤ 4)
    (path : (handleHello cfg conn.counted uuid id name role sig secret).Path calls out) :
    Received cfg conn (.text (.hello id name role sig secret)) calls out := by
  have refusal : ∀ (calls : List (HubDone cfg)) frames,
      Received cfg conn (.text (.hello id name role sig secret)) calls (conn.counted.answers frames) :=
    received_refusal unknown tidy few
  unfold handleHello at path
  split at path
  · obtain ⟨rfl, rfl⟩ := Prog.path_ret.mp path
    exact refusal _ _
  · split at path
    · -- An unsigned hello is answered with a challenge.
      obtain ⟨issued, rest, rfl, ended⟩ := Prog.path_call.mp path
      obtain ⟨rfl, rfl⟩ := Prog.path_ret.mp ended
      refine ⟨?_, tidy, (fun _ other => nomatch other), Or.inl ⟨issued, uuid, rfl, rfl, rfl⟩,
        Nat.le_succ _, fun _ => ⟨Nat.lt_succ_self _, few⟩, ?_⟩
      · intro me known
        rw [unknown] at known
        cases known
      · intro _ me known
        have none : conn.authed = some me := known
        rw [unknown] at none
        cases none
    · rename_i signature _
      split at path
      · obtain ⟨rfl, rfl⟩ := Prog.path_ret.mp path
        exact refusal _ _
      · rename_i nonce issued
        obtain ⟨now, rest, rfl, checks⟩ := Prog.path_call.mp path
        split at checks
        · obtain ⟨rfl, rfl⟩ := Prog.path_ret.mp checks
          exact refusal _ _
        · rename_i live
          split at checks
          · obtain ⟨rfl, rfl⟩ := Prog.path_ret.mp checks
            exact refusal _ _
          · rename_i genuine
            split at checks
            · obtain ⟨rfl, rfl⟩ := Prog.path_ret.mp checks
              exact refusal _ _
            · rename_i secrets
              obtain ⟨front, _, back, rfl, -, ended⟩ := checks.of_bind
              obtain ⟨rfl, rfl⟩ := Prog.path_ret.mp ended
              refine ⟨?_, ?_, (fun _ other => nomatch other), Or.inr ⟨rfl, by simp⟩,
                Nat.le_succ _, fun _ => ⟨Nat.lt_succ_self _, few⟩, ?_⟩
              · intro me known
                rw [unknown] at known
                cases known
              · intro impossible
                cases impossible
              · intro _ me known
                cases known
                refine ⟨signature, secret, nonce, now, rfl, issued, List.mem_cons_self, by simpa using live,
                  by simpa using genuine, ?_⟩
                intro expected configured
                rw [configured] at secrets
                exact secretMatches_iff.mp (by simpa using secrets)

end Hello

section Step

variable {cardBytes : AgentCard → List UInt8} {conn : Conn} {fresh : Fresh} {rounds : Nat}
  {incoming : Incoming} {calls : List (HubDone cfg)} {out : Outcome}

theorem dispatchPutBlob_aside {me : Authed} {target : Target} {sha256 : String} {size : Nat}
    {mediaType : Option String}
    (path : (dispatchPutBlob cfg conn me fresh target sha256 size mediaType).Path calls out) :
    Aside conn out := by
  unfold dispatchPutBlob at path
  obtain ⟨now, rest, rfl, charged⟩ := Prog.path_call.mp path
  obtain ⟨allowed, rest, rfl, checked⟩ := Prog.path_call.mp charged
  split at checked
  · split at checked
    · obtain ⟨-, rfl⟩ := Prog.path_ret.mp checked
      exact aside_answers conn _
    · obtain ⟨front, reserved, back, -, -, ended⟩ := checked.of_bind
      cases reserved with
      | error e =>
        obtain ⟨-, rfl⟩ := Prog.path_ret.mp ended
        exact aside_answers conn _
      | ok pending =>
        have after : out = { conn with pending := some pending }.answers [.blobReady sha256] := by
          unfold dropPending at ended
          cases replaced : conn.pending with
          | none =>
            rw [replaced] at ended
            exact (Prog.path_ret.mp ended).2
          | some old =>
            rw [replaced] at ended
            obtain ⟨_, _, -, last⟩ := Prog.path_call.mp ended
            exact (Prog.path_ret.mp last).2
        subst after
        exact ⟨rfl, rfl, le_refl _, _, rfl⟩
  · obtain ⟨-, rfl⟩ := Prog.path_ret.mp checked
    exact aside_answers conn _

/-- The step lemma of a connection. -/
theorem receive_received (tidy : conn.Tidy)
    (path : (receive cfg cardBytes conn fresh rounds incoming).Path calls out) :
    Received cfg conn incoming calls out := by
  cases incoming with
  | oversized length limit =>
    obtain ⟨rfl, rfl⟩ := Prog.path_ret.mp path
    exact Aside.received ⟨rfl, rfl, le_refl _, _, rfl⟩ tidy (fun _ => rfl) rfl
  | control =>
    obtain ⟨rfl, rfl⟩ := Prog.path_ret.mp path
    exact Aside.received ⟨rfl, rfl, le_refl _, [], rfl⟩ tidy (fun _ => rfl) rfl
  | binary data =>
    unfold receive at path
    dsimp only at path
    split at path
    · obtain ⟨rfl, rfl⟩ := Prog.path_ret.mp path
      exact Aside.received ⟨rfl, rfl, le_refl _, _, rfl⟩ tidy (fun _ => rfl) rfl
    · rename_i pending waiting
      obtain ⟨front, r, back, rfl, -, ended⟩ := Prog.Path.of_bind path
      obtain ⟨_, _, rfl, last⟩ := Prog.path_call.mp ended
      obtain ⟨rfl, rfl⟩ := Prog.path_ret.mp last
      refine Aside.received ⟨rfl, rfl, le_refl _, _, rfl⟩ (fun _ => rfl) ?_ rfl
      intro unknown
      rw [tidy unknown] at waiting
      cases waiting
  | text text =>
    cases text with
    | malformed error =>
      obtain ⟨rfl, rfl⟩ := Prog.path_ret.mp path
      exact (aside_answers conn _).received tidy (fun _ => rfl) rfl
    | frame frame =>
      unfold receive at path
      dsimp only at path
      split at path
      · obtain ⟨rfl, rfl⟩ := Prog.path_ret.mp path
        exact (aside_answers conn _).received tidy (fun _ => rfl) rfl
      · rename_i me known
        have aside : Aside conn out := by
          split at path
          · exact dispatchPutBlob_aside path
          · obtain ⟨front, frames, back, -, -, ended⟩ := path.of_bind
            obtain ⟨-, rfl⟩ := Prog.path_ret.mp ended
            exact aside_answers conn _
        refine aside.received ?_ ?_ rfl
        · intro unknown
          rw [aside.authed, known] at unknown
          cases unknown
        · intro unknown
          rw [known] at unknown
          cases unknown
    | hello id name role sig secret =>
      unfold receive dispatchHello at path
      dsimp only at path
      split at path
      · obtain ⟨rfl, rfl⟩ := Prog.path_ret.mp path
        exact (aside_answers conn _).received tidy (fun _ => rfl) rfl
      · rename_i unknown
        split at path
        · split at path
          · obtain ⟨rfl, rfl⟩ := Prog.path_ret.mp path
            exact Aside.received ⟨rfl, rfl, Nat.le_succ _, _, rfl⟩ tidy (fun _ => rfl) rfl
          · exact handleHello_received (Option.not_isSome_iff_eq_none.mp unknown) tidy (by omega) path
        · rename_i full
          rw [if_pos (by omega)] at path
          obtain ⟨rfl, rfl⟩ := Prog.path_ret.mp path
          exact Aside.received ⟨rfl, rfl, le_refl _, _, rfl⟩ tidy (fun _ => rfl) rfl

end Step

/-! ## Runs of a connection -/

/-- A received message: the connection before it, the calls it made with what they returned, and
    its outcome. -/
structure ConnEvent (cfg : HubConfig) where
  received : Incoming
  before : Conn
  calls : List (HubDone cfg)
  outcome : Outcome

def ConnEvent.processed (e : ConnEvent cfg) : Bool := Hub.processed e.received e.outcome

/-- The runs of one connection, newest message first. -/
inductive ConnRun (cfg : HubConfig) (cardBytes : AgentCard → List UInt8) :
    List (ConnEvent cfg) → Conn → Prop
  | new : ConnRun cfg cardBytes [] .new
  | step {log : List (ConnEvent cfg)} {conn : Conn} (incoming : Incoming) (fresh : Fresh)
      (rounds : Nat) {calls : List (HubDone cfg)} {outcome : Outcome} :
      ConnRun cfg cardBytes log conn → (∀ e ∈ log, e.outcome.stays = true) →
      (receive cfg cardBytes conn fresh rounds incoming).Path calls outcome →
        ConnRun cfg cardBytes (⟨incoming, conn, calls, outcome⟩ :: log) outcome.conn

/-- The nonce of the newest challenge that was sent on the connection, and when. -/
def LatestChallenge (log : List (ConnEvent cfg)) (nonce : String) (issued : Int) : Prop :=
  ∃ newer : List (ConnEvent cfg), ∃ e older, log = newer ++ e :: older ∧ ⟨.nowMs, issued⟩ ∈ e.calls ∧
    e.outcome.sent = [.challenge nonce protocolVersion] ∧
    (∃ uuid, nonce = issueChallenge cfg.ext cfg.publicUrl issued uuid) ∧
    ∀ e ∈ newer, ∀ n v, .challenge n v ∉ e.outcome.sent

section Runs

variable {cardBytes : AgentCard → List UInt8} {log : List (ConnEvent cfg)} {conn : Conn}

theorem LatestChallenge.cons {nonce : String} {issued : Int} (latest : LatestChallenge log nonce issued)
    {e : ConnEvent cfg} (plain : ∀ n v, .challenge n v ∉ e.outcome.sent) :
    LatestChallenge (e :: log) nonce issued := by
  obtain ⟨newer, c, older, rfl, asked, sent, shape, quiet⟩ := latest
  refine ⟨e :: newer, c, older, rfl, asked, sent, shape, ?_⟩
  intro e' member
  rcases List.mem_cons.mp member with rfl | member
  · exact plain
  · exact quiet e' member

/-- What holds of the connection after a run. -/
structure ConnInv (log : List (ConnEvent cfg)) (conn : Conn) : Prop where
  tidy : conn.Tidy
  latest : ∀ nonce, conn.nonce = some nonce → ∃ issued, LatestChallenge log nonce issued
  few : log.countP ConnEvent.processed ≤ min conn.helloFrames 4

theorem connInv (run : ConnRun cfg cardBytes log conn) : ConnInv log conn := by
  induction run with
  | new => exact ⟨fun _ => rfl, fun _ known => (nomatch known), le_refl _⟩
  | step incoming fresh rounds before opened path inv =>
    rename_i log conn calls outcome
    have step := receive_received inv.tidy path
    refine ⟨step.tidy, ?_, ?_⟩
    · intro nonce known
      rcases step.nonce with ⟨issued, uuid, asked, nonce', sent⟩ | ⟨same, plain⟩
      · rw [nonce'] at known
        cases known
        exact ⟨issued, [], _, log, rfl, by simp [asked], sent, ⟨uuid, rfl⟩, by simp⟩
      · obtain ⟨issued, latest⟩ := inv.latest nonce (same ▸ known)
        exact ⟨issued, latest.cons plain⟩
    · have few := inv.few
      have grows := step.grows
      rw [List.countP_cons]
      split
      · rename_i taken
        have counts := step.counts taken
        omega
      · omega

/-- A run up to a message is a run. -/
theorem ConnRun.rewind {newer older : List (ConnEvent cfg)} {e : ConnEvent cfg}
    (run : ConnRun cfg cardBytes log conn) (split : log = newer ++ e :: older) :
    ConnRun cfg cardBytes older e.before ∧
      ∃ fresh rounds, (receive cfg cardBytes e.before fresh rounds e.received).Path e.calls e.outcome := by
  induction run generalizing newer with
  | new => simp at split
  | step incoming fresh rounds before opened path ih =>
    rcases List.append_eq_cons_iff.mp split.symm with ⟨rfl, same⟩ | ⟨rest, rfl, same⟩
    · cases same
      exact ⟨before, fresh, rounds, path⟩
    · exact ih same

/-- A connection becomes an agent's only by a hello that is signed by the agent over the latest challenge of
    this connection within its lifetime, and with the join secret if the hub has one;
    it stays that agent's; until then nothing but a hello reaches the store; and at most four
    hellos are taken. -/
theorem connection_authenticated (run : ConnRun cfg cardBytes log conn) :
    (∀ newer e older, log = newer ++ e :: older →
      (∀ me, e.before.authed = some me → e.outcome.conn.authed = some me) ∧
      (∀ me, e.before.authed = none → e.outcome.conn.authed = some me →
        ∃ sig secret nonce issued now,
          e.received = .text (.hello me.id me.name me.role (some sig) secret) ∧
          LatestChallenge older nonce issued ∧ ⟨.nowMs, now⟩ ∈ e.calls ∧
          now ≤ issued + challengeTtlMs ∧ cfg.ext.verify me.id (utf8 nonce) sig = true ∧
          ∀ expected, cfg.joinSecret = some expected → secret = some expected) ∧
      (e.before.authed = none → e.received.isHello = false →
        ∀ d ∈ e.calls, d.1.onStore = false)) ∧
    log.countP ConnEvent.processed ≤ 4 := by
  refine ⟨?_, (connInv run).few.trans (min_le_right _ _)⟩
  intro newer e older split
  obtain ⟨before, fresh, rounds, path⟩ := run.rewind split
  have inv := connInv before
  have step := receive_received inv.tidy path
  refine ⟨step.stays, ?_, ?_⟩
  · intro me unknown known
    obtain ⟨sig, secret, nonce, now, hello, asked, read, live, genuine, secrets⟩ :=
      step.welcomed unknown me known
    obtain ⟨issued, latest⟩ := inv.latest nonce asked
    refine ⟨sig, secret, nonce, issued, now, hello, latest, read, ?_, genuine, secrets⟩
    obtain ⟨_, _, _, -, -, -, ⟨uuid, rfl⟩, -⟩ := latest
    exact challengeValid_issueChallenge live
  · intro unknown other d member
    rw [step.silent unknown other] at member
    cases member

end Runs

/-- A hub that takes a signature which repeats the signer's id, and has a join secret. -/
def openConfig : HubConfig :=
  { demoConfig with
    ext := { demoExternals with verify := fun id _ sig => id == sig }
    joinSecret := some "sesame" }

/-- Alice's two messages. -/
def helloAsked : Incoming := .text (.hello "A" "alice" none none none)

def helloSigned : Incoming := .text (.hello "A" "alice" none (some "A") (some "sesame"))

def askedOutcome : Outcome :=
  ((receive openConfig (fun _ => []) .new (demoFresh 0) 0 helloAsked).run demoHub).1

def signedOutcome : Outcome :=
  ((receive openConfig (fun _ => []) askedOutcome.conn (demoFresh 1) 0 helloSigned).run demoHub).1

theorem connection_authenticated_demo :
    ∃ log conn, ConnRun openConfig (fun _ => []) log conn ∧ conn.authed = some alice ∧
      ∃ nonce issued now, LatestChallenge log.tail nonce issued ∧ now ≤ issued + challengeTtlMs := by
  obtain ⟨asked, first⟩ := Prog.exists_path
    (receive openConfig (fun _ => []) .new (demoFresh 0) 0 helloAsked) demoHub
  obtain ⟨signed, second⟩ := Prog.exists_path
    (receive openConfig (fun _ => []) askedOutcome.conn (demoFresh 1) 0 helloSigned) demoHub
  have stays : askedOutcome.stays = true := by decide +kernel
  have unknown : askedOutcome.conn.authed = none := by decide +kernel
  have known : signedOutcome.conn.authed = some alice := by decide +kernel
  have run : ConnRun openConfig (fun _ => [])
      [⟨helloSigned, askedOutcome.conn, signed, signedOutcome⟩, ⟨helloAsked, .new, asked, askedOutcome⟩]
      signedOutcome.conn := by
    refine .step helloSigned (demoFresh 1) 0 (.step helloAsked (demoFresh 0) 0 .new ?_ first) ?_ second
    · intro e member
      cases member
    · intro e member
      rw [List.mem_singleton.mp member]
      exact stays
  obtain ⟨sig, secret, nonce, issued, now, -, latest, -, live, -⟩ :=
    ((connection_authenticated run).1 [] _ _ rfl).2.1 alice unknown known
  exact ⟨_, _, run, known, nonce, issued, now, latest, live⟩

end Parler.Hub
