import Parler.Protocol.Codec

/-!
# Message signatures

The detached signature that rides in the parts of a message (`MessageSig` in `hub.rs`), what
an author signs and sends (`MeshAgent::send`) and what a receiver checks (`verify_message`,
`verify_message_for_room` in `agent.rs`). Signing and verifying are outside the repository
and stay parameters.
-/

namespace Parler.Protocol

open Parler.Lib

/-! ## Bytes and parts -/

/-- Parts are told apart by their JSON. -/
theorem Part.toValue_injective {p q : Part} (formed : p.WellFormed) (formed' : q.WellFormed)
    (same : p.toValue.json = q.toValue.json) : p = q := by
  have object : ∀ p : Part, p.toValue.json = .obj (Map.ofFields p.fields).entries := by
    intro p
    rw [← Part.loose_toJson, LoosePart.toJson_eq, Map.ofFields_entries]
    cases p with
    | text t => rfl
    | data value => rfl
    | extension kind fields =>
      rw [Part.fields, List.map_cons, fields.values_json]
      rfl
  rw [object p, object q, Json.obj.injEq] at same
  have decoded : decode p.fields = decode q.fields := by
    unfold decode
    rw [Map.ext_entries same]
  rw [decode_fields formed, decode_fields formed'] at decoded
  exact Option.some.inj decoded

/-- The parts an author signs. -/
def unsigned (parts : List Part) : List Part := parts.filter (fun p => !isMessageSigPart p)

theorem signable_loose (parts : List Part) :
    (signable (parts.map Part.loose)).map (LoosePart.toJson .sorted) =
      (unsigned parts).map (fun p => p.toValue.json) := by
  have same : (fun p => !LoosePart.isMessageSig p) ∘ Part.loose = fun p => !isMessageSigPart p := by
    funext p
    cases p <;> rfl
  rw [signable, List.filter_map, List.map_map, same, unsigned]
  apply List.map_congr_left
  intro p _
  exact p.loose_toJson

theorem canonicalizeItems_values (parts : List Part) :
    Json.canonicalizeItems (parts.map (fun p => p.toValue.json)) =
      parts.map (fun p => p.toValue.json) := by
  apply canonicalizeItems_ordered
  induction parts with
  | nil => rfl
  | cons p parts ih => simp [Json.orderedItems, p.toValue.ordered, ih]

/-- The bytes of two messages are the same exactly when the messages are, with the parts compared
    by their JSON and without signature parts. -/
theorem canonicalMessageBytes_eq_iff {F : FloatFormat} {sender sender' : String}
    {target target' : Target} {parts parts' : List Part} {replyTo replyTo' : Option String}
    {ts ts' : Int} {uid uid' : String} :
    canonicalMessageBytes F sender target parts replyTo ts uid =
        canonicalMessageBytes F sender' target' parts' replyTo' ts' uid' ↔
      sender = sender' ∧ target = target' ∧ replyTo = replyTo' ∧ ts = ts' ∧ uid = uid' ∧
        (unsigned parts).map (fun p => p.toValue.json) =
          (unsigned parts').map (fun p => p.toValue.json) := by
  unfold canonicalMessageBytes
  rw [looseMessageBytes_eq_json, signable_loose, signable_loose, canonicalizeItems_values,
    canonicalizeItems_values]

/-- Well-formed parts with the same JSON are the same. -/
theorem parts_eq_of_json {ps qs : List Part} (formed : ∀ p ∈ ps, p.WellFormed)
    (formed' : ∀ q ∈ qs, q.WellFormed)
    (same : ps.map (fun p => p.toValue.json) = qs.map (fun p => p.toValue.json)) : ps = qs := by
  induction ps generalizing qs with
  | nil =>
    cases qs with
    | nil => rfl
    | cons q qs => cases same
  | cons p ps ih =>
    cases qs with
    | nil => cases same
    | cons q qs =>
      rw [List.map_cons, List.map_cons, List.cons.injEq] at same
      have head := Part.toValue_injective (formed p List.mem_cons_self)
        (formed' q List.mem_cons_self) same.1
      have tail := ih (fun p member => formed p (List.mem_cons_of_mem _ member))
        (fun q member => formed' q (List.mem_cons_of_mem _ member)) same.2
      rw [head, tail]

/-! ## The signature part -/

/-- An author's detached signature (`MessageSig`). -/
structure MessageSig where
  sig : String
  ts : Int
  uid : String
  target : Target
  deriving DecidableEq

namespace MessageSig

/-- The fields of the signature part. -/
def fields (ms : MessageSig) : List (String × Value) :=
  [("sig", .str ms.sig), ("alg", .str "ed25519"), ("v", .int messageSigV), ("ts", .int ms.ts),
    ("uid", .str ms.uid), ("target", ms.target.toValue)]

/-- `MessageSig::to_part`. -/
def toPart (ms : MessageSig) : Part := .extension messageSigKind (Map.ofFields ms.fields)

/-- The signature a part carries, if it is a well-formed signature part. -/
def ofPart : Part → Option MessageSig
  | .extension kind fields =>
      if kind = messageSigKind then do
        let sig ← (fields.get "sig").bind asStr
        let ts ← (fields.get "ts").bind asI64
        let uid ← (fields.get "uid").bind asStr
        let target ← (fields.get "target").bind Target.fromJson
        return ⟨sig, ts, uid, target⟩
      else none
  | _ => none

/-- `MessageSig::from_parts`: the first well-formed signature part. -/
def fromParts (parts : List Part) : Option MessageSig := parts.findSome? ofPart

variable (ms : MessageSig)

theorem fields_perm : (Map.ofFields ms.fields).entries.Perm
    (ms.fields.map (fun f => (f.1, f.2.json))) :=
  Map.ofFields_perm (by simp [fields])

theorem get_fields {f : String × Value} (member : f ∈ ms.fields) :
    (Map.ofFields ms.fields).get f.1 = some f.2.json :=
  Map.get_of_mem ((ms.fields_perm).mem_iff.mpr (List.mem_map_of_mem member))

/-- The fields of a target, sorted. -/
theorem target_json (target : Target) : target.toValue.json = .obj (match target with
    | .room name => [("kind", .str "room"), ("room", .str name)]
    | .dm agent => [("agent", .str agent), ("kind", .str "dm")]
    | .service name => [("kind", .str "service"), ("service", .str name)]) := by
  have room : keyLess "room" "kind" = false := by decide
  have agent : keyLess "agent" "kind" = true := by decide
  have service : keyLess "service" "kind" = false := by decide
  cases target <;>
    simp [Target.toValue, Map.insert, Map.empty, Map.toValue, insertField, Value.str, room, agent,
      service]

theorem target_reread (read : Double → Double) (target : Target) :
    target.toValue.json.reread read = target.toValue.json := by
  rw [target_json]
  cases target <;> simp [Json.reread, Json.rereadFields, Json.rereadField]

theorem target_fromJson (target : Target) : Target.fromJson target.toValue.json = some target := by
  rw [target_json]
  cases target <;> simp [Target.fromJson, Target.ofTag, asStr]

/-- The signature part carries the signature, as its time is an `i64`. -/
theorem ofPart_toPart (range : -2 ^ 63 ≤ ms.ts ∧ ms.ts < 2 ^ 63) : ofPart ms.toPart = some ms := by
  have sig := ms.get_fields (f := ("sig", .str ms.sig)) (by simp [fields])
  have ts := ms.get_fields (f := ("ts", .int ms.ts)) (by simp [fields])
  have uid := ms.get_fields (f := ("uid", .str ms.uid)) (by simp [fields])
  have target := ms.get_fields (f := ("target", ms.target.toValue)) (by simp [fields])
  have time : asI64 (.int ms.ts) = some ms.ts := if_pos range
  simp [ofPart, toPart, sig, ts, uid, target, Value.str, Value.int, asStr, time, target_fromJson]

theorem toPart_wellFormed : ms.toPart.WellFormed := by
  refine ⟨by decide, ?_⟩
  rw [(ms.fields_perm.map Prod.fst).mem_iff]
  simp [fields]

/-- The signature part holds no double. -/
theorem toPart_reread (read : Double → Double) : ms.toPart.Reread read := by
  intro f member
  rw [toPart, Part.fields, List.mem_cons] at member
  rcases member with rfl | member
  · simp [Value.str, Json.reread]
  · have listed : (f.1, f.2.json) ∈ (Map.ofFields ms.fields).entries := by
      rw [← Map.values_json]
      exact List.mem_map_of_mem member
    have among := (ms.fields_perm).mem_iff.mp listed
    simp only [fields, List.map_cons, List.map_nil, List.mem_cons, Prod.mk.injEq, List.not_mem_nil,
      or_false] at among
    rcases among with ⟨-, same⟩ | ⟨-, same⟩ | ⟨-, same⟩ | ⟨-, same⟩ | ⟨-, same⟩ | ⟨-, same⟩ <;>
      rw [same]
    all_goals first | exact target_reread read ms.target | simp [Value.str, Value.int, Json.reread]

end MessageSig

/-! ## Verification -/

/-- The outcome of checking a message's signature. -/
inductive SigStatus where
  | valid
  | unsigned
  | invalid
  deriving DecidableEq

-- The printing of doubles and `parler_auth::verify`.
variable (F : FloatFormat) (verify : String → List UInt8 → String → Bool)

/-- `verify_message`. -/
def verifyMessage (senderId : String) (parts : List Part) (replyTo : Option String) : SigStatus :=
  match MessageSig.fromParts parts with
  | none => .unsigned
  | some ms =>
      if verify senderId (canonicalMessageBytes F senderId ms.target parts replyTo ms.ts ms.uid) ms.sig
      then .valid else .invalid

/-- The signed target resolves to the room the message was delivered in. -/
def routedHere (target : Target) (room recipient : String) : Bool :=
  match target with
  | .room r => r = room
  | .service service => room = "svc." ++ token service
  | .dm agent => agent = recipient && "dm.".toList.isPrefixOf room.toList

/-- `verify_message_for_room`. -/
def verifyMessageForRoom (message : StoredMessage) (recipient : String) : SigStatus :=
  let status := verifyMessage F verify message.sender.id message.parts message.replyTo
  if status ≠ .valid then status
  else
    match MessageSig.fromParts message.parts with
    | none => .invalid
    | some ms => if routedHere ms.target message.room recipient then .valid else .invalid

variable {F verify}

theorem verifyMessageForRoom_valid {message : StoredMessage} {recipient : String} :
    verifyMessageForRoom F verify message recipient = .valid ↔
      ∃ ms, MessageSig.fromParts message.parts = some ms ∧
        verify message.sender.id (canonicalMessageBytes F message.sender.id ms.target message.parts
          message.replyTo ms.ts ms.uid) ms.sig = true ∧
        routedHere ms.target message.room recipient = true := by
  unfold verifyMessageForRoom verifyMessage
  cases MessageSig.fromParts message.parts with
  | none => simp
  | some ms =>
    dsimp only
    by_cases genuine : verify message.sender.id (canonicalMessageBytes F message.sender.id ms.target
      message.parts message.replyTo ms.ts ms.uid) ms.sig = true
    · simp [genuine]
    · simp [genuine]

theorem verifyMessageForRoom_invalid {message : StoredMessage} {recipient : String} {ms : MessageSig}
    (sig : MessageSig.fromParts message.parts = some ms)
    (forged : verify message.sender.id (canonicalMessageBytes F message.sender.id ms.target
      message.parts message.replyTo ms.ts ms.uid) ms.sig = false) :
    verifyMessageForRoom F verify message recipient = .invalid := by
  have status : verifyMessage F verify message.sender.id message.parts message.replyTo = .invalid := by
    rw [verifyMessage, sig]
    simp [forged]
  simp [verifyMessageForRoom, status]

/-! ## Sending -/

/-- A call of `MeshAgent::send` by an agent with an identity, with the time and the uid it drew;
    the time is an `i64`. -/
structure SendCall where
  author : String
  target : Target
  parts : List Part
  replyTo : Option String
  ts : Int
  uid : String
  range : -2 ^ 63 ≤ ts ∧ ts < 2 ^ 63

namespace SendCall

variable (F) (sign : List UInt8 → String) (c : SendCall)

/-- The bytes the call signs. -/
def bytes : List UInt8 :=
  canonicalMessageBytes F c.author c.target (unsigned c.parts) c.replyTo c.ts c.uid

/-- The signature of the call. -/
def signature : MessageSig := ⟨sign (c.bytes F), c.ts, c.uid, c.target⟩

/-- The parts of the frame the call sends: signature parts it was given are dropped, its own comes
    last. -/
def frameParts : List Part := unsigned c.parts ++ [(c.signature F sign).toPart]

variable {F sign c}

theorem unsigned_frameParts : unsigned (c.frameParts F sign) = unsigned c.parts := by
  simp [frameParts, unsigned, isMessageSigPart, MessageSig.toPart]

theorem ofPart_unsigned {p : Part} (plain : isMessageSigPart p = false) :
    MessageSig.ofPart p = none := by
  cases p with
  | text t => rfl
  | data value => rfl
  | extension kind fields =>
    have other : kind ≠ messageSigKind := by simpa [isMessageSigPart] using plain
    simp [MessageSig.ofPart, other]

theorem fromParts_frameParts :
    MessageSig.fromParts (c.frameParts F sign) = some (c.signature F sign) := by
  have none : (unsigned c.parts).findSome? MessageSig.ofPart = none := by
    rw [List.findSome?_eq_none_iff]
    intro p member
    have plain := (List.mem_filter.mp member).2
    exact ofPart_unsigned (by simpa using plain)
  rw [MessageSig.fromParts, frameParts, List.findSome?_append, none, Option.none_or,
    List.findSome?_singleton]
  exact MessageSig.ofPart_toPart _ c.range

/-- What an honest author sends verifies wherever its target resolves to. -/
theorem frameParts_valid {message : StoredMessage} {recipient : String}
    (genuine : verify c.author (c.bytes F) (sign (c.bytes F)) = true)
    (sender : message.sender.id = c.author) (parts : message.parts = c.frameParts F sign)
    (replyTo : message.replyTo = c.replyTo)
    (routed : routedHere c.target message.room recipient = true) :
    verifyMessageForRoom F verify message recipient = .valid := by
  rw [verifyMessageForRoom_valid]
  refine ⟨c.signature F sign, by rw [parts, fromParts_frameParts], ?_, routed⟩
  have bytes : canonicalMessageBytes F c.author c.target (c.frameParts F sign) c.replyTo c.ts c.uid =
      c.bytes F := by
    rw [SendCall.bytes, canonicalMessageBytes_eq_iff, unsigned_frameParts]
    simp [unsigned]
  rw [sender, parts, replyTo]
  simpa [signature, bytes] using genuine

/-- The frame of well-formed parts comes out of the wire as it went in. -/
theorem frameParts_wire {read : Double → Double} (formed : ∀ p ∈ c.parts, p.WellFormed)
    (survives : ∀ p ∈ c.parts, p.Reread read) :
    (c.frameParts F sign).mapM (Part.wire read) = some (c.frameParts F sign) := by
  have each : ∀ p ∈ c.frameParts F sign, p.wire read = some p := by
    intro p member
    rcases List.mem_append.mp member with own | last
    · have given := List.mem_of_mem_filter own
      exact Part.wire_eq (formed p given) (survives p given)
    · rw [List.mem_singleton.mp last]
      exact Part.wire_eq (MessageSig.toPart_wellFormed _) (MessageSig.toPart_reread _ read)
  generalize c.frameParts F sign = parts at each
  induction parts with
  | nil => rfl
  | cons p parts ih =>
    rw [List.mapM_cons, each p List.mem_cons_self,
      ih (fun q member => each q (List.mem_cons_of_mem _ member))]
    rfl

end SendCall

/-- Only `MeshAgent::send` signs message bytes: whatever verifies under an author as the bytes of a
    message was signed in a call of that author. -/
def OnlySends (F : FloatFormat) (verify : String → List UInt8 → String → Bool)
    (calls : SendCall → Prop) : Prop :=
  ∀ id target parts replyTo ts uid sig,
    verify id (canonicalMessageBytes F id target parts replyTo ts uid) sig = true →
    ∃ c, calls c ∧ c.bytes F = canonicalMessageBytes F id target parts replyTo ts uid

/-- A message that verifies was sent by its author: to a target that resolves to its room, with
    parts of the same JSON and with its reply. -/
theorem OnlySends.valid_sent {calls : SendCall → Prop} (only : OnlySends F verify calls)
    {message : StoredMessage} {recipient : String}
    (valid : verifyMessageForRoom F verify message recipient = .valid) :
    ∃ c, calls c ∧ c.author = message.sender.id ∧
      routedHere c.target message.room recipient = true ∧ c.replyTo = message.replyTo ∧
      (unsigned c.parts).map (fun p => p.toValue.json) =
        (unsigned message.parts).map (fun p => p.toValue.json) := by
  obtain ⟨ms, -, genuine, routed⟩ := verifyMessageForRoom_valid.mp valid
  obtain ⟨c, called, same⟩ := only _ _ _ _ _ _ _ genuine
  rw [SendCall.bytes, canonicalMessageBytes_eq_iff] at same
  obtain ⟨author, target, replyTo, -, -, parts⟩ := same
  refine ⟨c, called, author, target ▸ routed, replyTo, ?_⟩
  simpa [unsigned] using parts

end Parler.Protocol
