import Parler.Hub.Demo
import Parler.Hub.Provenance

/-!
# Authentic messages

Signing, the part codec, the hub and verification put together. A message that verifies was
sent by its author; a message that an honest author sends through an honest hub verifies for
whom it addresses. Both compare parts by their JSON: a part value that breaks the rules
of an extension (a kind that is not reverse-DNS, a field named `kind`) has the JSON of
another part, and the other part is what a receiver gets.
-/

namespace Parler.Connector

open Parler.Lib Parler.Protocol Parler.Hub

/-- Parts after a hop as text: a frame, or a row of the store. -/
def transport (read : Double → Double) (parts : List Part) : Option (List Part) :=
  parts.mapM (Part.wire read)

/-- The parts are well formed and their doubles survive the text. -/
def Clean (read : Double → Double) (parts : List Part) : Prop :=
  ∀ p ∈ parts, p.WellFormed ∧ p.Reread read

section

variable {cfg : HubConfig} (F : FloatFormat) (sign : List UInt8 → String)
  (read : Double → Double) (calls : SendCall → Prop)

/-- Every `Send` frame that reached the hub under the id is that of a call of its holder. -/
def HonestAuthor (id : String) (P : HubPool cfg) : Prop :=
  ∀ t me target parts mentions replyTo clientId fresh upload rounds p,
    P.threads t = some (.frame me (.send target parts mentions replyTo clientId) fresh upload rounds,
      p) → me.id = id →
    ∃ c, calls c ∧ c.author = id ∧ c.target = target ∧ c.replyTo = replyTo ∧
      transport read (c.frameParts F sign) = some parts

end

/-- A message that verifies was sent by its author, to a target that resolves to its room, with its
    reply and with parts of its JSON; and those are its parts if the author's are well formed. A
    message that the hub delivers comes from a call of its author; if the parts of that call are
    clean, the message survives every further hop and verifies for whom it addresses. -/
theorem message_authentic {cfg : HubConfig} {F : FloatFormat}
    {verify : String → List UInt8 → String → Bool} {sign : List UInt8 → String}
    {read : Double → Double} {calls : SendCall → Prop} (only : OnlySends F verify calls)
    {cardBytes : AgentCard → List UInt8} {inflight : Nat} {P : HubPool cfg}
    (reach : Pool.Reachable (serve cfg cardBytes) Pool.anySchedule (.boot inflight) P) {id : String}
    (honest : HonestAuthor F sign read calls id P)
    (genuine : ∀ c, calls c → c.author = id → verify id (c.bytes F) (sign (c.bytes F)) = true) :
    (∀ message recipient, verifyMessageForRoom F verify message recipient = .valid →
      ∃ c, calls c ∧ c.author = message.sender.id ∧
        routedHere c.target message.room recipient = true ∧ c.replyTo = message.replyTo ∧
        (unsigned c.parts).map (fun p => p.toValue.json) =
          (unsigned message.parts).map (fun p => p.toValue.json) ∧
        ((∀ p ∈ c.parts, p.WellFormed) → (∀ p ∈ message.parts, ∃ fs, Part.decode fs = some p) →
          unsigned c.parts = unsigned message.parts)) ∧
    (∀ e ∈ P.log, ∀ x, Delivers x e → x.sender.id = id →
      ∃ c, calls c ∧ c.author = id ∧ c.replyTo = x.replyTo ∧
        transport read (c.frameParts F sign) = some x.parts ∧
        (Clean read c.parts → transport read x.parts = some x.parts ∧
          unsigned x.parts = unsigned c.parts ∧
          ∀ recipient, addressedTo c.target recipient →
            verifyMessageForRoom F verify x recipient = .valid)) := by
  constructor
  · intro message recipient valid
    obtain ⟨c, called, author, routed, replyTo, json⟩ := only.valid_sent valid
    refine ⟨c, called, author, routed, replyTo, json, ?_⟩
    intro formed decoded
    apply parts_eq_of_json _ _ json
    · exact fun p member => formed p (List.mem_of_mem_filter member)
    · intro p member
      obtain ⟨fs, decodes⟩ := decoded p (List.mem_of_mem_filter member)
      exact Part.decode_wellFormed decodes
  · intro e logged x delivers sender
    obtain ⟨t, me, target, mentions, clientId, fresh, upload, rounds, p, at_t, caller, routed⟩ :=
      delivered_origin reach logged delivers
    obtain ⟨c, called, author, rfl, replyTo, carried⟩ :=
      honest t me target x.parts mentions x.replyTo clientId fresh upload rounds p at_t
        (caller.symm.trans sender)
    refine ⟨c, called, author, replyTo, carried, ?_⟩
    intro clean
    have whole : transport read (c.frameParts F sign) = some (c.frameParts F sign) :=
      SendCall.frameParts_wire (fun p member => (clean p member).1)
        (fun p member => (clean p member).2)
    have parts : x.parts = c.frameParts F sign := by
      rw [whole] at carried
      exact (Option.some.inj carried).symm
    refine ⟨by rw [parts, whole], by rw [parts, SendCall.unsigned_frameParts], ?_⟩
    intro recipient addressed
    refine SendCall.frameParts_valid ?_ (sender.trans author.symm) parts replyTo.symm
      (routed recipient addressed)
    rw [author]
    exact genuine c called author

/-! ## A run -/

/-- A call of Alice, signed as "s". -/
def aliceSends (parts : List Part) : SendCall := ⟨"A", .room "r", parts, none, 7, "u", by decide⟩

def demoSign (_ : List UInt8) : String := "s"

/-- Alice's signature verifies under her id and for the bytes of her one call. -/
def demoVerify (c : SendCall) (id : String) (bytes : List UInt8) (sig : String) : Bool :=
  id = "A" && bytes = c.bytes bitsFormat && sig = "s"

theorem demoVerify_eq (c : SendCall) (bytes : List UInt8) :
    demoVerify c "A" bytes "s" = decide (bytes = c.bytes bitsFormat) := by
  simp [demoVerify]

/-- Alice opens a room for Bob and sends the parts there; Bob pulls. -/
def authenticRequests (parts : List Part) : List Request :=
  [demoFrame 1 alice (.invite .channel (some "r") none none false),
    demoFrame 2 bob (.redeem "c1"),
    demoFrame 3 alice (.send (.room "r") parts none none none),
    demoFrame 4 bob (.pull "r" none none none none)]

theorem demoVerify_onlySends (c : SendCall) :
    OnlySends bitsFormat (demoVerify c) (fun c' => c' = c) := by
  intro id target parts replyTo ts uid sig genuine
  simp only [demoVerify, Bool.and_eq_true, decide_eq_true_eq] at genuine
  exact ⟨c, rfl, genuine.1.2.symm⟩

/-- The only `Send` frame of the run is Alice's. -/
theorem authenticRequests_honest {c : SendCall} {parts : List Part} (author : c.author = "A")
    (target : c.target = .room "r") (replyTo : c.replyTo = none)
    (carried : transport id (c.frameParts bitsFormat demoSign) = some parts) :
    HonestAuthor bitsFormat demoSign id (fun c' => c' = c) "A"
      (demoPlay (authenticRequests parts)) := by
  intro t me target' parts' mentions replyTo' clientId fresh upload rounds p at_t _
  have spawned := demoPlay_spawned at_t
  simp only [authenticRequests, demoFrame, List.mem_cons, Request.frame.injEq, reduceCtorEq,
    ClientFrame.send.injEq, false_and, and_false, or_false, false_or, List.not_mem_nil] at spawned
  obtain ⟨-, ⟨rfl, rfl, -, rfl, -⟩, -⟩ := spawned
  exact ⟨c, rfl, author, target, replyTo, carried⟩

/-- The messages a pull read. -/
def pageRead (e : HubEvent demoConfig) : List StoredMessage :=
  match e.op with
  | .readBacklog room _ floor lim => e.before.store.readBacklog room floor lim
  | _ => []

theorem delivers_of_pageRead {x : StoredMessage} {log : List (HubEvent demoConfig)}
    (read : x ∈ log.flatMap pageRead) : ∃ e ∈ log, Delivers x e := by
  obtain ⟨e, logged, member⟩ := List.mem_flatMap.mp read
  refine ⟨e, logged, Or.inl ?_⟩
  obtain ⟨t, op, h⟩ := e
  cases op with
  | readBacklog room agent floor lim => exact decide_eq_true member
  | _ => cases member

/-- The message of Alice's call in the run. -/
def authenticMessage (parts : List Part) : StoredMessage :=
  ⟨1, "m3", "r", ⟨"A", "alice", none⟩, parts, none, none, 0⟩

def politeCall : SendCall := aliceSends [.text "hi"]

theorem message_authentic_demo :
    ∃ x, x ∈ (demoPlay (authenticRequests
        (politeCall.frameParts bitsFormat demoSign))).log.flatMap pageRead ∧
      verifyMessageForRoom bitsFormat (demoVerify politeCall) x "B" = .valid := by
  have clean : Clean id politeCall.parts := by
    intro p member
    rw [List.mem_singleton.mp member]
    exact ⟨trivial, by simp [Part.Reread, Part.fields, Value.str, Json.reread]⟩
  have carried : transport id (politeCall.frameParts bitsFormat demoSign) =
      some (politeCall.frameParts bitsFormat demoSign) :=
    SendCall.frameParts_wire (fun p member => (clean p member).1) (fun p member => (clean p member).2)
  have read : authenticMessage (politeCall.frameParts bitsFormat demoSign) ∈
      (demoPlay (authenticRequests (politeCall.frameParts bitsFormat demoSign))).log.flatMap
        pageRead := by decide +kernel
  obtain ⟨e, logged, delivers⟩ := delivers_of_pageRead read
  obtain ⟨c, rfl, -, -, -, rest⟩ := (message_authentic (demoVerify_onlySends politeCall)
    (demoPlay_reachable _) (authenticRequests_honest rfl rfl rfl carried) (by
      rintro c rfl -
      simp [demoVerify, demoSign])).2 e logged _ delivers rfl
  exact ⟨_, read, (rest clean).2.2 "B" trivial⟩

/-- An extension whose kind is that of a data part, with a field that no data part has. -/
def carelessCall : SendCall :=
  aliceSends [.extension "data" (Map.ofFields [("data", .int 1), ("x", .int 2)])]

/-- What the hub reads of it. -/
def carelessParts : List Part :=
  [.data (.int 1), (carelessCall.signature bitsFormat demoSign).toPart]

/-- An extension with the JSON of a text. -/
def disguisedCall : SendCall := aliceSends [.extension "text" (Map.ofFields [("text", .str "hi")])]

/-- A message of an honest author arrives and does not verify; and a message verifies whose parts its
    author never sent. -/
theorem ill_formed_parts_not_authentic :
    (transport id (carelessCall.frameParts bitsFormat demoSign) = some carelessParts ∧
      authenticMessage carelessParts ∈
        (demoPlay (authenticRequests carelessParts)).log.flatMap pageRead ∧
      verifyMessageForRoom bitsFormat (demoVerify carelessCall) (authenticMessage carelessParts) "B" =
        .invalid) ∧
    OnlySends bitsFormat (demoVerify disguisedCall) (fun c => c = disguisedCall) ∧
      ∃ message, verifyMessageForRoom bitsFormat (demoVerify disguisedCall) message "B" = .valid ∧
        unsigned message.parts ≠ unsigned disguisedCall.parts := by
  refine ⟨⟨by decide +kernel, by decide +kernel, ?_⟩, demoVerify_onlySends _, ?_⟩
  · -- The bytes of the data part are not those of the extension.
    have sig : MessageSig.fromParts carelessParts = some (carelessCall.signature bitsFormat demoSign) := by
      decide +kernel
    have differ : canonicalMessageBytes bitsFormat "A" (.room "r") carelessParts none 7 "u" ≠
        carelessCall.bytes bitsFormat := by
      rw [SendCall.bytes, ne_eq, canonicalMessageBytes_eq_iff]
      intro same
      exact absurd same.2.2.2.2.2 (by decide +kernel)
    refine verifyMessageForRoom_invalid sig ((demoVerify_eq _ _).trans ?_)
    exact decide_eq_false differ
  · -- The bytes of the text part are those of the extension.
    refine ⟨authenticMessage [.text "hi", (disguisedCall.signature bitsFormat demoSign).toPart], ?_,
      by decide +kernel⟩
    rw [verifyMessageForRoom_valid]
    refine ⟨disguisedCall.signature bitsFormat demoSign, by decide +kernel, ?_, rfl⟩
    have same : canonicalMessageBytes bitsFormat "A" (.room "r")
        [.text "hi", (disguisedCall.signature bitsFormat demoSign).toPart] none 7 "u" =
        disguisedCall.bytes bitsFormat := by
      rw [SendCall.bytes, canonicalMessageBytes_eq_iff]
      exact ⟨rfl, rfl, rfl, rfl, rfl, by decide +kernel⟩
    exact (demoVerify_eq _ _).trans (decide_eq_true same)

end Parler.Connector
