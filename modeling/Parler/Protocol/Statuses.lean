import Parler.Protocol.Signature

/-!
# When a message counts as unsigned

`MessageSig::from_parts` goes on to the next part where a field of a signature part is missing or of
the wrong type, so `verify_message` looks at the first signature part that is whole, wherever it
stands and whatever else the message carries.
-/

namespace Parler.Protocol

open Parler.Lib

namespace MessageSig

/-- The fields of a part hold the signature, each with its type. -/
structure Holds (ms : MessageSig) (fields : Map) : Prop where
  sig : fields.get "sig" = some (.str ms.sig)
  ts : fields.get "ts" = some (.int ms.ts)
  range : -2 ^ 63 ≤ ms.ts ∧ ms.ts < 2 ^ 63
  uid : fields.get "uid" = some (.str ms.uid)
  target : ∃ json, fields.get "target" = some json ∧ Target.fromJson json = some ms.target

/-- A signature part with a whole signature in it. -/
def Whole (p : Part) : Prop :=
  ∃ fields ms, p = .extension messageSigKind fields ∧ Holds ms fields

theorem asStr_eq_some {json : Json} {text : String} : asStr json = some text ↔ json = .str text := by
  cases json <;> simp [asStr]

theorem asI64_eq_some {json : Json} {n : Int} :
    asI64 json = some n ↔ json = .int n ∧ -2 ^ 63 ≤ n ∧ n < 2 ^ 63 := by
  cases json with
  | int m =>
    by_cases range : -2 ^ 63 ≤ m ∧ m < 2 ^ 63
    · rw [asI64, if_pos range]
      constructor
      · rintro ⟨⟩
        exact ⟨rfl, range⟩
      · rintro ⟨⟨⟩, -⟩
        rfl
    · rw [asI64, if_neg range]
      constructor
      · rintro ⟨⟩
      · rintro ⟨⟨⟩, within⟩
        exact absurd within range
  | _ => simp [asI64]

/-- What `from_parts` takes from a part is the signature it holds. -/
theorem ofPart_eq_some {p : Part} {ms : MessageSig} :
    ofPart p = some ms ↔ ∃ fields, p = .extension messageSigKind fields ∧ Holds ms fields := by
  constructor
  · intro taken
    cases p with
    | text t => cases taken
    | data value => cases taken
    | extension kind fields =>
      simp only [ofPart] at taken
      split at taken
      · rename_i same
        subst same
        simp only [Option.bind_eq_bind, Option.bind_eq_some_iff, Option.pure_def,
          Option.some.injEq] at taken
        obtain ⟨sig, ⟨_, sigField, sigText⟩, ts, ⟨_, tsField, time⟩, uid, ⟨_, uidField, uidText⟩,
          target, ⟨json, targetField, read⟩, rfl⟩ := taken
        obtain ⟨rfl, range⟩ := asI64_eq_some.mp time
        rw [asStr_eq_some] at sigText uidText
        subst sigText uidText
        exact ⟨fields, rfl, sigField, tsField, range, uidField, json, targetField, read⟩
      · cases taken
  · rintro ⟨fields, rfl, sig, ts, range, uid, json, target, read⟩
    have time : asI64 (.int ms.ts) = some ms.ts := if_pos range
    simp [ofPart, sig, ts, uid, target, asStr, time, read]

theorem ofPart_isSome {p : Part} : (ofPart p).isSome ↔ Whole p := by
  rw [Option.isSome_iff_exists]
  constructor
  · rintro ⟨ms, taken⟩
    obtain ⟨fields, same, holds⟩ := ofPart_eq_some.mp taken
    exact ⟨fields, ms, same, holds⟩
  · rintro ⟨fields, ms, same, holds⟩
    exact ⟨ms, ofPart_eq_some.mpr ⟨fields, same, holds⟩⟩

theorem Whole.isMessageSigPart {p : Part} (whole : Whole p) : isMessageSigPart p = true := by
  obtain ⟨fields, ms, rfl, -⟩ := whole
  simp [Protocol.isMessageSigPart]

/-- A signature is found wherever a whole signature part is. -/
theorem fromParts_isSome {parts : List Part} :
    (fromParts parts).isSome ↔ ∃ p ∈ parts, Whole p := by
  rw [fromParts, List.findSome?_isSome_iff]
  constructor
  · rintro ⟨p, member, taken⟩
    exact ⟨p, member, ofPart_isSome.mp taken⟩
  · rintro ⟨p, member, whole⟩
    exact ⟨p, member, ofPart_isSome.mpr whole⟩

end MessageSig

section Status

variable {F : FloatFormat} {verify : String → List UInt8 → String → Bool} {senderId : String}
  {parts : List Part} {replyTo : Option String}

/-- A message counts as unsigned when none of its parts is a whole signature part. -/
theorem verifyMessage_unsigned :
    verifyMessage F verify senderId parts replyTo = .unsigned ↔ ¬ ∃ p ∈ parts, MessageSig.Whole p := by
  rw [← MessageSig.fromParts_isSome]
  unfold verifyMessage
  cases MessageSig.fromParts parts with
  | none => simp
  | some ms =>
    dsimp only
    split <;> simp

/-- The signature parts of a message. -/
def signatureParts (parts : List Part) : List Part := parts.filter isMessageSigPart

theorem mem_signatureParts {p : Part} (member : p ∈ parts) (whole : MessageSig.Whole p) :
    p ∈ signatureParts parts :=
  List.mem_filter.mpr ⟨member, whole.isMessageSigPart⟩

/-- What the status says about the signature parts: a message is unsigned if and only if it has none,
    and valid or invalid otherwise; and a signature is read if and only if there is one such part and
    it is whole. -/
structure Trichotomy (F : FloatFormat) (verify : String → List UInt8 → String → Bool)
    (senderId : String) (parts : List Part) (replyTo : Option String) : Prop where
  unsigned : verifyMessage F verify senderId parts replyTo = .unsigned ↔ signatureParts parts = []
  signed : signatureParts parts ≠ [] →
    verifyMessage F verify senderId parts replyTo = .valid ∨
      verifyMessage F verify senderId parts replyTo = .invalid
  read : (MessageSig.fromParts parts).isSome ↔
    ∃ p, signatureParts parts = [p] ∧ MessageSig.Whole p

/-- The status says it exactly when the message has no signature part, or a single one that is
    whole. -/
theorem signature_trichotomy_iff : Trichotomy F verify senderId parts replyTo ↔
    signatureParts parts = [] ∨ ∃ p, signatureParts parts = [p] ∧ MessageSig.Whole p := by
  constructor
  · rintro ⟨unsigned, -, read⟩
    by_cases some : ∃ p ∈ parts, MessageSig.Whole p
    · exact Or.inr (read.mp (MessageSig.fromParts_isSome.mpr some))
    · exact Or.inl (unsigned.mp (verifyMessage_unsigned.mpr some))
  · intro parted
    have some : (∃ p ∈ parts, MessageSig.Whole p) ↔
        ∃ p, signatureParts parts = [p] ∧ MessageSig.Whole p := by
      constructor
      · rintro ⟨p, member, whole⟩
        rcases parted with none | one
        · have listed := mem_signatureParts member whole
          rw [none] at listed
          cases listed
        · exact one
      · rintro ⟨p, one, whole⟩
        refine ⟨p, ?_, whole⟩
        apply List.mem_of_mem_filter (p := isMessageSigPart)
        show p ∈ signatureParts parts
        rw [one]
        exact List.mem_singleton.mpr rfl
    have unsigned : verifyMessage F verify senderId parts replyTo = .unsigned ↔
        signatureParts parts = [] := by
      rw [verifyMessage_unsigned, some]
      constructor
      · intro none
        exact parted.resolve_right none
      · rintro none ⟨p, one, -⟩
        rw [none] at one
        cases one
    refine ⟨unsigned, ?_, MessageSig.fromParts_isSome.trans some⟩
    intro present
    cases status : verifyMessage F verify senderId parts replyTo with
    | unsigned => exact absurd (unsigned.mp status) present
    | valid => exact Or.inl rfl
    | invalid => exact Or.inr rfl

/-- Further signature parts do not make a signed message count as unsigned. -/
theorem verifyMessage_duplicated {more : List Part}
    (signed : verifyMessage F verify senderId parts replyTo ≠ .unsigned)
    (kept : ∀ p ∈ parts, p ∈ more) : verifyMessage F verify senderId more replyTo ≠ .unsigned := by
  rw [Ne, verifyMessage_unsigned, not_not] at signed ⊢
  obtain ⟨p, member, whole⟩ := signed
  exact ⟨p, kept p member, whole⟩

end Status

/-- A signature part whose `sig` is no string. -/
def brokenSig : Part :=
  .extension messageSigKind (Map.ofFields
    [("sig", .int 0), ("ts", .int 0), ("uid", .str "x"), ("target", (Target.room "r").toValue)])

/-- A message with a broken signature part counts as unsigned. -/
theorem broken_signature_unsigned : isMessageSigPart brokenSig = true ∧
    verifyMessage bitsFormat (fun _ _ _ => true) "A" [.text "hi", brokenSig] none = .unsigned ∧
      ¬ Trichotomy bitsFormat (fun _ _ _ => true) "A" [.text "hi", brokenSig] none := by
  have present : signatureParts [.text "hi", brokenSig] = [brokenSig] := by decide +kernel
  have unread : MessageSig.fromParts [.text "hi", brokenSig] = none := by decide +kernel
  have unsigned : verifyMessage bitsFormat (fun _ _ _ => true) "A" [.text "hi", brokenSig] none =
      .unsigned := by
    rw [verifyMessage, unread]
  refine ⟨rfl, unsigned, ?_⟩
  intro trichotomy
  rw [trichotomy.unsigned.mp unsigned] at present
  cases present

end Parler.Protocol
