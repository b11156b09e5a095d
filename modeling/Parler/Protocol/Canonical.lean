import Mathlib.Data.List.Forall2
import Mathlib.Tactic.Tauto
import Parler.Lib.JsonOrder
import Parler.Protocol.Types

/-!
# The signed bytes of a message

`canonical_message_bytes` and the part encoding under it (`hub.rs`, `types.rs`). The source
asks the encoding to hold up with either build of `serde_json`: one whose maps sort their
keys and one whose maps keep the order of insertion. The bytes are therefore given for
both, over parts whose maps have distinct keys in any order; the parts of
`Protocol.Types` are those of the first build.
-/

namespace Parler.Protocol

open Parler.Lib

/-! ## Maps in either build -/

/-- The order in which a `serde_json::Map` keeps its fields. -/
inductive MapOrder where
  | sorted
  | insertion

/-- Insertion that keeps a known key in its place and puts a new one last. -/
def putField (field : String × Json) : List (String × Json) → List (String × Json)
  | [] => [field]
  | f :: fs => if f.1 = field.1 then field :: fs else f :: putField field fs

namespace MapOrder

/-- `Map::insert`. -/
def insert : MapOrder → String × Json → List (String × Json) → List (String × Json)
  | .sorted => insertField
  | .insertion => putField

/-- The map after inserting the fields one by one. -/
def build (order : MapOrder) (fields : List (String × Json)) : List (String × Json) :=
  fields.foldl (fun m f => order.insert f m) []

end MapOrder

theorem putField_perm {field : String × Json} {fs : List (String × Json)}
    (new : field.1 ∉ fs.map Prod.fst) : (putField field fs).Perm (field :: fs) := by
  induction fs with
  | nil => rfl
  | cons f fs ih =>
    rw [List.map_cons, List.mem_cons, not_or] at new
    unfold putField
    rw [if_neg (Ne.symm new.1)]
    exact ((ih new.2).cons f).trans (List.Perm.swap field f fs)

theorem MapOrder.insert_perm (order : MapOrder) {field : String × Json} {fs : List (String × Json)}
    (new : field.1 ∉ fs.map Prod.fst) : (order.insert field fs).Perm (field :: fs) := by
  cases order with
  | sorted => exact insertField_perm new
  | insertion => exact putField_perm new

/-- A map built from distinct keys holds exactly the fields inserted. -/
theorem MapOrder.build_perm (order : MapOrder) {fields : List (String × Json)}
    (distinct : (fields.map Prod.fst).Nodup) : (order.build fields).Perm fields := by
  have general : ∀ (fs table : List (String × Json)), ((fs ++ table).map Prod.fst).Nodup →
      (fs.foldl (fun m f => order.insert f m) table).Perm (fs ++ table) := by
    intro fs
    induction fs with
    | nil => exact fun table _ => List.Perm.refl table
    | cons f fs ih =>
      intro table distinct
      rw [List.cons_append, List.map_cons, List.nodup_cons, List.map_append, List.mem_append,
        not_or] at distinct
      have inserted := order.insert_perm distinct.1.2
      have moved : (fs ++ order.insert f table).Perm (f :: (fs ++ table)) :=
        (inserted.append_left fs).trans List.perm_middle
      refine (ih (order.insert f table) ?_).trans moved
      rw [(moved.map Prod.fst).nodup_iff, List.map_cons, List.nodup_cons, List.map_append]
      exact ⟨by simpa using distinct.1, distinct.2⟩
  simpa [MapOrder.build] using general fields [] (by simpa using distinct)

/-- The canonical form of a map does not depend on how the map was built. -/
theorem MapOrder.canonicalize_build (order : MapOrder) {fields : List (String × Json)}
    (distinct : (fields.map Prod.fst).Nodup) :
    (Json.obj (order.build fields)).canonicalize = (Json.obj fields).canonicalize := by
  have perm := order.build_perm distinct
  rw [Json.canonicalize, Json.canonicalize, Json.obj.injEq,
    canonicalizeFields_eq_iff ((perm.map Prod.fst).nodup_iff.mpr distinct) distinct]
  exact perm.map _

/-! ## Parts -/

/-- A reverse-DNS extension kind: two segments or more, each of letters, digits and hyphens
    (`is_extension_kind`). -/
def isExtensionKind (kind : String) : Bool :=
  let segments := kind.toList.splitOn '.'
  2 ≤ segments.length && segments.all (fun segment =>
    !segment.isEmpty && segment.all (fun c => isAsciiAlphanumeric c || c = '-'))

/-- A part whose maps keep their fields in any order. -/
inductive LoosePart where
  | text (text : String)
  | data (value : Json)
  | extension (kind : String) (fields : List (String × Json))

namespace LoosePart

/-- `serde_json::to_value` of a part. -/
def toJson (order : MapOrder) : LoosePart → Json
  | .text t => .obj (order.build [("kind", .str "text"), ("text", .str t)])
  | .data value => .obj (order.build [("kind", .str "data"), ("data", value)])
  | .extension kind fields => .obj (order.build (("kind", .str kind) :: fields))

/-- `is_message_sig_part`. -/
def isMessageSig : LoosePart → Bool
  | .extension kind _ => kind = messageSigKind
  | _ => false

/-- Maps have distinct keys, an extension's kind is reverse-DNS and is not named again among its
    fields. -/
def WellFormed : LoosePart → Prop
  | .text _ => True
  | .data value => value.distinct
  | .extension kind fields =>
      isExtensionKind kind = true ∧ "kind" ∉ fields.map Prod.fst ∧ (Json.obj fields).distinct

/-- The parts are the same up to the order of keys. -/
def agrees : LoosePart → LoosePart → Prop
  | .text t, .text t' => t = t'
  | .data value, .data value' => value.agrees value'
  | .extension kind fields, .extension kind' fields' =>
      kind = kind' ∧ (Json.obj fields).agrees (.obj fields')
  | _, _ => False

end LoosePart

/-- A part of the sorting build. -/
def Part.loose : Part → LoosePart
  | .text t => .text t
  | .data value => .data value.json
  | .extension kind fields => .extension kind fields.entries

theorem Part.loose_toJson (p : Part) : p.loose.toJson .sorted = p.toValue.json := by
  cases p <;> rfl

/-! ## The signed object -/

namespace Target

/-- The tagged object a target serialises to, in either build. -/
def toJson (order : MapOrder) : Target → Json
  | .room name => .obj (order.build [("kind", .str "room"), ("room", .str name)])
  | .dm agent => .obj (order.build [("kind", .str "dm"), ("agent", .str agent)])
  | .service name => .obj (order.build [("kind", .str "service"), ("service", .str name)])

end Target

/-- `MESSAGE_SIG_V`. -/
def messageSigV : Int := 1

/-- The parts that are signed. -/
def signable (parts : List LoosePart) : List LoosePart := parts.filter (fun p => !p.isMessageSig)

/-- The fields of the signed object, in the order of their insertion. -/
def signedFields (order : MapOrder) (sender : String) (target : Target) (parts : List LoosePart)
    (replyTo : Option String) (ts : Int) (uid : String) : List (String × Json) :=
  [("v", Json.int messageSigV), ("from", .str sender), ("target", target.toJson order),
    ("parts", .arr ((signable parts).map (LoosePart.toJson order)))] ++
  replyTo.toList.map (fun rt => ("replyTo", Json.str rt)) ++
  [("ts", Json.int ts), ("uid", .str uid)]

/-- `serde_json::to_vec`. -/
def toVec (F : FloatFormat) (value : Json) : List UInt8 :=
  (String.ofList (render F value)).toByteArray.data.toList

/-- `canonical_message_bytes`, in either build. -/
def looseMessageBytes (F : FloatFormat) (order : MapOrder) (sender : String) (target : Target)
    (parts : List LoosePart) (replyTo : Option String) (ts : Int) (uid : String) : List UInt8 :=
  toVec F (Json.obj (order.build (signedFields order sender target parts replyTo ts uid))).canonicalize

/-- `canonical_message_bytes`. -/
def canonicalMessageBytes (F : FloatFormat) (sender : String) (target : Target) (parts : List Part)
    (replyTo : Option String) (ts : Int) (uid : String) : List UInt8 :=
  looseMessageBytes F .sorted sender target (parts.map Part.loose) replyTo ts uid

theorem toVec_injective {F : FloatFormat} {a b : Json} (same : toVec F a = toVec F b) : a = b := by
  have data := Array.toList_inj.mp same
  have bytes := ByteArray.ext data
  have text := String.toByteArray_inj.mp bytes
  exact render_injective F (String.ofList_injective text)

/-! ## Injectivity -/

/-- Two maps that both start with a key have the same fields exactly when they have the same value
    there and the same other fields. -/
theorem perm_cons_key {key : String} {a b : Json} {fs gs : List (String × Json)}
    (new : key ∉ gs.map Prod.fst) :
    ((key, a) :: fs).Perm ((key, b) :: gs) ↔ a = b ∧ fs.Perm gs := by
  constructor
  · intro perm
    have listed : (key, a) ∈ (key, b) :: gs := perm.mem_iff.mp List.mem_cons_self
    rcases List.mem_cons.mp listed with same | later
    · cases same
      exact ⟨rfl, perm.cons_inv⟩
    · exact absurd (List.mem_map_of_mem later) new
  · intro same
    obtain ⟨rfl, perm⟩ := same
    exact perm.cons _

/-- Objects built in either way have one canonical form exactly when their canonical fields are the
    same. -/
theorem canonicalize_builds_iff {order order' : MapOrder} {fs gs : List (String × Json)}
    (distinct : (fs.map Prod.fst).Nodup) (distinct' : (gs.map Prod.fst).Nodup) :
    (Json.obj (order.build fs)).canonicalize = (Json.obj (order'.build gs)).canonicalize ↔
      (fs.map Json.canonicalizeField).Perm (gs.map Json.canonicalizeField) := by
  rw [order.canonicalize_build distinct, order'.canonicalize_build distinct', Json.canonicalize,
    Json.canonicalize, Json.obj.injEq, canonicalizeFields_eq_iff distinct distinct']

theorem canonicalFields_keys (fields : List (String × Json)) :
    (fields.map Json.canonicalizeField).map Prod.fst = fields.map Prod.fst := by
  rw [List.map_map]
  exact List.map_congr_left (fun f _ => canonicalizeField_key f)

namespace LoosePart

/-- The wire kind of a part (`Part::kind`). -/
def kind : LoosePart → String
  | .text _ => "text"
  | .data _ => "data"
  | .extension kind _ => kind

/-- The fields of a part beside its kind. -/
def siblings : LoosePart → List (String × Json)
  | .text t => [("text", .str t)]
  | .data value => [("data", value)]
  | .extension _ fields => fields

theorem toJson_eq (order : MapOrder) (p : LoosePart) :
    p.toJson order = .obj (order.build (("kind", .str p.kind) :: p.siblings)) := by
  cases p <;> rfl

theorem WellFormed.siblings_distinct {p : LoosePart} (formed : p.WellFormed) :
    "kind" ∉ p.siblings.map Prod.fst ∧ (p.siblings.map Prod.fst).Nodup ∧
      Json.distinctFields p.siblings := by
  cases p with
  | text t => simp [siblings, Json.distinctFields, Json.distinctField, Json.distinct]
  | data value =>
    simpa [siblings, Json.distinctFields, Json.distinctField, WellFormed] using formed
  | extension kind fields =>
    obtain ⟨-, own, distinct⟩ := formed
    rw [Json.distinct] at distinct
    exact ⟨own, distinct⟩

/-- Parts agree up to key order when their kinds are the same and their other fields agree. -/
theorem agrees_iff {p q : LoosePart} (formed : p.WellFormed) (formed' : q.WellFormed) :
    p.agrees q ↔ p.kind = q.kind ∧ Json.agreesFields p.siblings q.siblings := by
  -- No extension has the kind of a core part.
  have core : ∀ kind, isExtensionKind kind = true → kind ≠ "text" ∧ kind ≠ "data" := by
    intro kind reverse
    constructor
    · intro same
      rw [same] at reverse
      exact absurd reverse (by decide)
    · intro same
      rw [same] at reverse
      exact absurd reverse (by decide)
  cases p with
  | text t =>
    cases q with
    | text t' => simp [agrees, kind, siblings, Json.agreesFields, Json.agreesField, Json.agrees]
    | data value' => simp [agrees, kind]
    | extension kind' fields' => simp [agrees, kind, Ne.symm (core kind' formed'.1).1]
  | data value =>
    cases q with
    | text t' => simp [agrees, kind]
    | data value' => simp [agrees, kind, siblings, Json.agreesFields, Json.agreesField]
    | extension kind' fields' => simp [agrees, kind, Ne.symm (core kind' formed'.1).2]
  | extension kind fields =>
    cases q with
    | text t' => simp [agrees, LoosePart.kind, (core kind formed.1).1]
    | data value' => simp [agrees, LoosePart.kind, (core kind formed.1).2]
    | extension kind' fields' => simp [agrees, LoosePart.kind, siblings, Json.agrees]

/-- Well-formed parts have one canonical form exactly when they agree up to key order. -/
theorem canonicalize_toJson_iff (order order' : MapOrder) {p q : LoosePart} (formed : p.WellFormed)
    (formed' : q.WellFormed) :
    (p.toJson order).canonicalize = (q.toJson order').canonicalize ↔ p.agrees q := by
  obtain ⟨own, distinct, inner⟩ := formed.siblings_distinct
  obtain ⟨own', distinct', inner'⟩ := formed'.siblings_distinct
  have keys : ((("kind", Json.str p.kind) :: p.siblings).map Prod.fst).Nodup :=
    List.nodup_cons.mpr ⟨own, distinct⟩
  have keys' : ((("kind", Json.str q.kind) :: q.siblings).map Prod.fst).Nodup :=
    List.nodup_cons.mpr ⟨own', distinct'⟩
  rw [toJson_eq, toJson_eq, canonicalize_builds_iff keys keys', agrees_iff formed formed',
    ← canonicalFields_perm_iff inner inner']
  simp only [List.map_cons, Json.canonicalizeField, Json.canonicalize]
  rw [perm_cons_key (by rw [canonicalFields_keys]; exact own'), Json.str.injEq]

end LoosePart

theorem canonicalize_target_iff (order order' : MapOrder) (target target' : Target) :
    (target.toJson order).canonicalize = (target'.toJson order').canonicalize ↔ target = target' := by
  cases target <;> cases target' <;> unfold Target.toJson <;>
    rw [canonicalize_builds_iff (by simp) (by simp)] <;>
    simp (disch := simp) [Json.canonicalizeField, Json.canonicalize, perm_cons_key]

/-- Lists of well-formed parts have one canonical form exactly when they agree part by part. -/
theorem canonicalize_parts_iff (order order' : MapOrder) {ps qs : List LoosePart}
    (formed : ∀ p ∈ ps, p.WellFormed) (formed' : ∀ q ∈ qs, q.WellFormed) :
    Json.canonicalizeItems (ps.map (LoosePart.toJson order)) =
        Json.canonicalizeItems (qs.map (LoosePart.toJson order')) ↔
      List.Forall₂ LoosePart.agrees ps qs := by
  induction ps generalizing qs with
  | nil =>
    cases qs with
    | nil => simp [Json.canonicalizeItems]
    | cons q qs => simp [Json.canonicalizeItems, List.forall₂_nil_left_iff]
  | cons p ps ih =>
    cases qs with
    | nil => simp [Json.canonicalizeItems, List.forall₂_nil_right_iff]
    | cons q qs =>
      have head := LoosePart.canonicalize_toJson_iff order order' (formed p List.mem_cons_self)
        (formed' q List.mem_cons_self)
      have tail := ih (fun p member => formed p (List.mem_cons_of_mem _ member))
        (fun q member => formed' q (List.mem_cons_of_mem _ member))
      simp [Json.canonicalizeItems, head, tail]

theorem signedFields_distinct (order : MapOrder) (sender : String) (target : Target)
    (parts : List LoosePart) (replyTo : Option String) (ts : Int) (uid : String) :
    ((signedFields order sender target parts replyTo ts uid).map Prod.fst).Nodup := by
  cases replyTo <;> simp [signedFields]

/-- The bytes are the same exactly when the messages are, with the signed parts compared by their
    canonical form. -/
theorem looseMessageBytes_eq_json {F : FloatFormat} (order order' : MapOrder)
    {sender sender' : String} {target target' : Target} {parts parts' : List LoosePart}
    {replyTo replyTo' : Option String} {ts ts' : Int} {uid uid' : String} :
    looseMessageBytes F order sender target parts replyTo ts uid =
        looseMessageBytes F order' sender' target' parts' replyTo' ts' uid' ↔
      sender = sender' ∧ target = target' ∧ replyTo = replyTo' ∧ ts = ts' ∧ uid = uid' ∧
        Json.canonicalizeItems ((signable parts).map (LoosePart.toJson order)) =
          Json.canonicalizeItems ((signable parts').map (LoosePart.toJson order')) := by
  have bytes : looseMessageBytes F order sender target parts replyTo ts uid =
        looseMessageBytes F order' sender' target' parts' replyTo' ts' uid' ↔
      (Json.obj (order.build (signedFields order sender target parts replyTo ts uid))).canonicalize =
        (Json.obj (order'.build (signedFields order' sender' target' parts' replyTo' ts'
          uid'))).canonicalize :=
    ⟨toVec_injective, congrArg (toVec F)⟩
  rw [bytes, canonicalize_builds_iff (signedFields_distinct ..) (signedFields_distinct ..)]
  cases replyTo with
  | none =>
    cases replyTo' with
    | none =>
      simp (disch := simp) [signedFields, Json.canonicalizeField, Json.canonicalize, perm_cons_key,
        canonicalize_target_iff]
      intro _ _
      constructor
      · rintro ⟨signed, clock, id⟩
        exact ⟨clock, id, signed⟩
      · rintro ⟨clock, id, signed⟩
        exact ⟨signed, clock, id⟩
    | some rt' =>
      simp only [reduceCtorEq, false_and, and_false, iff_false]
      intro perm
      have lengths := perm.length_eq
      simp [signedFields] at lengths
  | some rt =>
    cases replyTo' with
    | none =>
      simp only [reduceCtorEq, false_and, and_false, iff_false]
      intro perm
      have lengths := perm.length_eq
      simp [signedFields] at lengths
    | some rt' =>
      simp (disch := simp) [signedFields, Json.canonicalizeField, Json.canonicalize, perm_cons_key,
        canonicalize_target_iff]
      intro _ _
      constructor
      · rintro ⟨signed, reply, clock, id⟩
        exact ⟨reply, clock, id, signed⟩
      · rintro ⟨reply, clock, id, signed⟩
        exact ⟨signed, reply, clock, id⟩

/-- The bytes are the same exactly when the messages are, up to key order and signature parts. -/
theorem looseMessageBytes_eq_iff {F : FloatFormat} (order order' : MapOrder)
    {sender sender' : String} {target target' : Target} {parts parts' : List LoosePart}
    {replyTo replyTo' : Option String} {ts ts' : Int} {uid uid' : String}
    (formed : ∀ p ∈ parts, p.WellFormed) (formed' : ∀ p ∈ parts', p.WellFormed) :
    looseMessageBytes F order sender target parts replyTo ts uid =
        looseMessageBytes F order' sender' target' parts' replyTo' ts' uid' ↔
      sender = sender' ∧ target = target' ∧ replyTo = replyTo' ∧ ts = ts' ∧ uid = uid' ∧
        List.Forall₂ LoosePart.agrees (signable parts) (signable parts') := by
  have signed : ∀ p ∈ signable parts, p.WellFormed :=
    fun p member => formed p (List.mem_of_mem_filter member)
  have signed' : ∀ p ∈ signable parts', p.WellFormed :=
    fun p member => formed' p (List.mem_of_mem_filter member)
  rw [looseMessageBytes_eq_json, canonicalize_parts_iff order order' signed signed']

/-- The signed bytes are an encoding. In either build, the bytes of two messages are the same
    exactly when the messages have the same author, target, reply, time and uid and the same parts
    up to key order and signature parts; signature parts can be added, removed and moved; and
    canonical forms are stable and do not depend on key order. -/
theorem canonical_bytes_encode (F : FloatFormat) (order order' : MapOrder)
    (sender sender' : String) (target target' : Target) (parts parts' : List LoosePart)
    (replyTo replyTo' : Option String) (ts ts' : Int) (uid uid' : String)
    (formed : ∀ p ∈ parts, p.WellFormed) (formed' : ∀ p ∈ parts', p.WellFormed) :
    (looseMessageBytes F order sender target parts replyTo ts uid =
        looseMessageBytes F order' sender' target' parts' replyTo' ts' uid' ↔
      sender = sender' ∧ target = target' ∧ replyTo = replyTo' ∧ ts = ts' ∧ uid = uid' ∧
        List.Forall₂ LoosePart.agrees (signable parts) (signable parts')) ∧
    (∀ others : List LoosePart, signable others = signable parts →
      looseMessageBytes F order sender target others replyTo ts uid =
        looseMessageBytes F order sender target parts replyTo ts uid) ∧
    (∀ a : Json, a.canonicalize.canonicalize = a.canonicalize) ∧
    (∀ a b : Json, a.distinct → b.distinct → (a.canonicalize = b.canonicalize ↔ a.agrees b)) := by
  refine ⟨looseMessageBytes_eq_iff order order' formed formed', ?_, canonicalize_idempotent, ?_⟩
  · intro others same
    simp only [looseMessageBytes, signedFields, same]
  · intro a b distinct distinct'
    exact canonicalize_eq_iff distinct distinct'

/-- Two extension parts that differ in the order of their keys, with a signature part between. -/
theorem canonical_bytes_encode_demo :
    looseMessageBytes bitsFormat .insertion "A" (.room "team")
        [.extension "com.acme.note" [("b", .int 1), ("a", .int 2)], .extension messageSigKind []]
        none 7 "u" =
      looseMessageBytes bitsFormat .sorted "A" (.room "team")
        [.extension messageSigKind [("sig", .str "s")],
          .extension "com.acme.note" [("a", .int 2), ("b", .int 1)]] none 7 "u" := by
  have note : isExtensionKind "com.acme.note" = true := by decide
  have sig : isExtensionKind messageSigKind = true := by decide
  refine (canonical_bytes_encode bitsFormat .insertion .sorted "A" "A" (.room "team") (.room "team")
    _ _ none none 7 7 "u" "u" ?_ ?_).1.mpr ⟨rfl, rfl, rfl, rfl, rfl, ?_⟩
  · simp [LoosePart.WellFormed, note, sig, Json.distinct, Json.distinctFields, Json.distinctField]
  · simp [LoosePart.WellFormed, note, sig, Json.distinct, Json.distinctFields, Json.distinctField]
  · refine List.Forall₂.cons ⟨rfl, ?_⟩ List.Forall₂.nil
    rw [Json.agrees, Json.agreesFields]
    refine ⟨("b", .int 1), [("a", .int 2)], [], rfl, by simp [Json.agreesField, Json.agrees], ?_⟩
    rw [Json.agreesFields]
    exact ⟨("a", .int 2), [], [], rfl, by simp [Json.agreesField, Json.agrees], by
      simp [Json.agreesFields]⟩

end Parler.Protocol
