import Parler.Protocol.Tasks

/-!
# What the session viewer is shown

`viewer_message` of `crates/parler-hub/src/server.rs`: a stored message as the read-only viewer gets it. Two
messages that differ only in what the viewer has no business with look the same.
-/

namespace Parler.Hub

open Parler.Lib Parler.Protocol

def observationKind : String := "com.parler.observation"

def valueItems (items : List Value) : Value := ⟨.arr (items.map Value.json), Value.ordered_arr items⟩

def valueOrNull : Option Value → Value
  | none => ⟨.null, Value.ordered_null⟩
  | some v => v

/-- `serde_json::to_value` of a typed reference: the fields that `to_part` writes. -/
def refValue : Part → Value
  | .extension _ fields => fields.toValue
  | p => p.toValue

/-- A part that is named by its kind, with one field more. -/
def kindWith (kind key : String) (value : Value) : Value :=
  ((Map.empty.insert "kind" (.str kind)).insert key value).toValue

def kindOnly (kind : String) : Value := (Map.empty.insert "kind" (.str kind)).toValue

/-- The part as the viewer gets it; nothing of a signature. -/
def viewerPart (p : Part) : Option Value :=
  match p with
  | .text t => some (kindWith "text" "text" (.str t))
  | .data _ => some (kindOnly "data")
  | .extension kind fields =>
      if isMessageSigPart p then none
      else
        match BundleRef.fromPart p, FileRef.fromPart p with
        | some b, _ => some (kindWith kind "file" (refValue b.toPart))
        | none, some f => some (kindWith kind "file" (refValue f.toPart))
        | none, none =>
            if kind = observationKind then some (kindWith kind "fields" fields.toValue)
            else some (kindOnly kind)

/-- `viewer_message` -/
def viewerMessage (m : StoredMessage) : Value :=
  let sender := (Map.empty.insert "name" (.str m.sender.name)).insert "role"
    (valueOrNull (m.sender.role.map .str))
  ((((Map.empty.insert "seq" (.int m.seq)).insert "ts" (.int m.ts)).insert "from" sender.toValue).insert
    "parts" (valueItems (m.parts.filterMap viewerPart))).toValue

/-! ## What the viewer cannot tell -/

/-- An extension that the viewer gets by its kind alone. -/
structure Opaque (p : Part) : Prop where
  not_bundle : BundleRef.fromPart p = none
  not_file : FileRef.fromPart p = none

/-- Parts that differ in data payloads, in signatures wherever they are, in the extra fields of references
and in the fields of other extensions. -/
inductive PartsAlike : List Part → List Part → Prop
  | nil : PartsAlike [] []
  | same (p : Part) {ps qs : List Part} : PartsAlike ps qs → PartsAlike (p :: ps) (p :: qs)
  | data (v w : Value) {ps qs : List Part} : PartsAlike ps qs → PartsAlike (.data v :: ps) (.data w :: qs)
  | left {p : Part} {ps qs : List Part} : isMessageSigPart p = true → PartsAlike ps qs →
      PartsAlike (p :: ps) qs
  | right {q : Part} {ps qs : List Part} : isMessageSigPart q = true → PartsAlike ps qs →
      PartsAlike ps (q :: qs)
  | bundle {kind : String} {f g : Map} {b : BundleRef} {ps qs : List Part} :
      BundleRef.fromPart (.extension kind f) = some b → BundleRef.fromPart (.extension kind g) = some b →
      PartsAlike ps qs → PartsAlike (.extension kind f :: ps) (.extension kind g :: qs)
  | file {kind : String} {f g : Map} {r : FileRef} {ps qs : List Part} :
      FileRef.fromPart (.extension kind f) = some r → FileRef.fromPart (.extension kind g) = some r →
      PartsAlike ps qs → PartsAlike (.extension kind f :: ps) (.extension kind g :: qs)
  | unknown {kind : String} {f g : Map} {ps qs : List Part} : kind ≠ observationKind →
      Opaque (.extension kind f) → Opaque (.extension kind g) →
      PartsAlike ps qs → PartsAlike (.extension kind f :: ps) (.extension kind g :: qs)

/-- Messages that may differ in the author's id, the mentions, the reply, and in parts that are alike. -/
structure MessagesAlike (m m' : StoredMessage) : Prop where
  seq : m.seq = m'.seq
  ts : m.ts = m'.ts
  name : m.sender.name = m'.sender.name
  role : m.sender.role = m'.sender.role
  parts : PartsAlike m.parts m'.parts

theorem viewerPart_signature {p : Part} (sig : isMessageSigPart p = true) : viewerPart p = none := by
  cases p with
  | text t => cases sig
  | data v => cases sig
  | extension kind fields => simp [viewerPart, sig]

theorem viewerPart_bundle {kind : String} {fields : Map} {b : BundleRef}
    (ref : BundleRef.fromPart (.extension kind fields) = some b) :
    viewerPart (.extension kind fields) = some (kindWith kind "file" (refValue b.toPart)) := by
  have own : kind = bundleKind := by
    by_contra other
    simp [BundleRef.fromPart, other] at ref
  have other : bundleKind ≠ messageSigKind := by decide
  have plain : isMessageSigPart (.extension kind fields) = false := by simp [isMessageSigPart, own, other]
  simp [viewerPart, plain, ref]

theorem viewerPart_file {kind : String} {fields : Map} {f : FileRef}
    (ref : FileRef.fromPart (.extension kind fields) = some f) :
    viewerPart (.extension kind fields) = some (kindWith kind "file" (refValue f.toPart)) := by
  have own : kind = fileKind := by
    by_contra other
    simp [FileRef.fromPart, other] at ref
  have other : fileKind ≠ messageSigKind := by decide
  have plain : isMessageSigPart (.extension kind fields) = false := by simp [isMessageSigPart, own, other]
  have no_bundle : BundleRef.fromPart (.extension kind fields) = none := by
    rw [own]
    rfl
  simp [viewerPart, plain, no_bundle, ref]

theorem viewerPart_opaque {kind : String} {f g : Map} (other : kind ≠ observationKind)
    (left : Opaque (.extension kind f)) (right : Opaque (.extension kind g)) :
    viewerPart (.extension kind f) = viewerPart (.extension kind g) := by
  simp [viewerPart, left.not_bundle, left.not_file, right.not_bundle, right.not_file, other,
    isMessageSigPart]

theorem PartsAlike.shown {ps qs : List Part} (alike : PartsAlike ps qs) :
    ps.filterMap viewerPart = qs.filterMap viewerPart := by
  induction alike with
  | nil => rfl
  | same p _ ih => rw [List.filterMap_cons, List.filterMap_cons, ih]
  | data v w _ ih => simp [viewerPart, ih]
  | left sig _ ih => rw [List.filterMap_cons_none (viewerPart_signature sig), ih]
  | right sig _ ih => rw [List.filterMap_cons_none (viewerPart_signature sig), ih]
  | bundle ref ref' _ ih =>
    rw [List.filterMap_cons_some (viewerPart_bundle ref), List.filterMap_cons_some (viewerPart_bundle ref'), ih]
  | file ref ref' _ ih =>
    rw [List.filterMap_cons_some (viewerPart_file ref), List.filterMap_cons_some (viewerPart_file ref'), ih]
  | unknown other left right _ ih =>
    rw [List.filterMap_cons, List.filterMap_cons, viewerPart_opaque other left right, ih]

/-! ## References -/

def bundleKeys : List String := ["blob", "vcs", "tip", "base", "summary", "size", "mediaType"]

def fileKeys : List String := ["blob", "name", "size", "mediaType", "summary"]

/-- Of a part that carries a reference the viewer gets the reference, which has no other keys, whatever
    other fields the part has. -/
structure ShowsReference (keys : List String) (ref : Part) (kind : String) (fields : Map) : Prop where
  shown : viewerPart (.extension kind fields) = some (kindWith kind "file" (refValue ref))
  own : ∃ own : Map, refValue ref = own.toValue ∧ ∀ key ∉ keys, own.get key = none
  extra : ∀ key ∉ keys, ∀ value,
    viewerPart (.extension kind (fields.insert key value)) = viewerPart (.extension kind fields)

theorem optStr_insert {m : Map} {key key' : String} (value : Value) (other : key ≠ key') :
    (m.insert key value).optStr key' = m.optStr key' := by
  rw [Map.optStr, Map.optStr, Map.get_insert, if_neg other]

theorem bundle_insert {fields : Map} {key : String} (other : key ∉ bundleKeys) (kind : String)
    (value : Value) :
    BundleRef.fromPart (.extension kind (fields.insert key value)) =
      BundleRef.fromPart (.extension kind fields) := by
  simp only [bundleKeys, List.mem_cons, List.not_mem_nil, or_false, not_or] at other
  obtain ⟨blob, vcs, tip, base, summary, size, mediaType⟩ := other
  simp only [BundleRef.fromPart, Map.get_insert, if_neg blob, if_neg vcs, if_neg size,
    optStr_insert value tip, optStr_insert value base, optStr_insert value summary,
    optStr_insert value mediaType]

theorem file_insert {fields : Map} {key : String} (other : key ∉ fileKeys) (kind : String)
    (value : Value) :
    FileRef.fromPart (.extension kind (fields.insert key value)) =
      FileRef.fromPart (.extension kind fields) := by
  simp only [fileKeys, List.mem_cons, List.not_mem_nil, or_false, not_or] at other
  obtain ⟨blob, name, size, mediaType, summary⟩ := other
  simp only [FileRef.fromPart, Map.get_insert, if_neg blob, if_neg name, if_neg size,
    optStr_insert value mediaType, optStr_insert value summary]

theorem showsReference_bundle {kind : String} {fields : Map} {b : BundleRef}
    (ref : BundleRef.fromPart (.extension kind fields) = some b) :
    ShowsReference bundleKeys b.toPart kind fields where
  shown := viewerPart_bundle ref
  own := by
    refine ⟨_, rfl, fun key other => ?_⟩
    simp only [bundleKeys, List.mem_cons, List.not_mem_nil, or_false, not_or] at other
    obtain ⟨blob, vcs, tip, base, summary, size, mediaType⟩ := other
    simp [Ne.symm blob, Ne.symm vcs, Ne.symm tip, Ne.symm base, Ne.symm summary, Ne.symm size,
      Ne.symm mediaType]
  extra := by
    intro key other value
    rw [viewerPart_bundle ref, viewerPart_bundle ((bundle_insert other kind value).trans ref)]

theorem showsReference_file {kind : String} {fields : Map} {f : FileRef}
    (ref : FileRef.fromPart (.extension kind fields) = some f) :
    ShowsReference fileKeys f.toPart kind fields where
  shown := viewerPart_file ref
  own := by
    refine ⟨_, rfl, fun key other => ?_⟩
    simp only [fileKeys, List.mem_cons, List.not_mem_nil, or_false, not_or] at other
    obtain ⟨blob, name, size, mediaType, summary⟩ := other
    simp [Ne.symm blob, Ne.symm name, Ne.symm size, Ne.symm mediaType, Ne.symm summary]
  extra := by
    intro key other value
    rw [viewerPart_file ref, viewerPart_file ((file_insert other kind value).trans ref)]

/-- The viewer gets the same of messages that differ in the author's id, the mentions, the reply, data
payloads, signatures, the fields of unknown extensions and the extra fields of references. -/
theorem viewerMessage_noninterfering :
    (∀ m m', MessagesAlike m m' → viewerMessage m = viewerMessage m') ∧
    (∀ kind fields b, BundleRef.fromPart (.extension kind fields) = some b →
      ShowsReference bundleKeys b.toPart kind fields) ∧
    ∀ kind fields f, FileRef.fromPart (.extension kind fields) = some f →
      ShowsReference fileKeys f.toPart kind fields := by
  refine ⟨?_, fun _ _ _ => showsReference_bundle, fun _ _ _ => showsReference_file⟩
  intro m m' alike
  simp only [viewerMessage, alike.seq, alike.ts, alike.name, alike.role, alike.parts.shown]

/-- A file with a stray field, behind a signature and a data part. -/
def shownMessage (id secret : String) : StoredMessage :=
  ⟨1, "m", "r", ⟨id, "alice", none⟩,
    [.extension messageSigKind (Map.empty.insert "sig" (.str secret)), .data (.str secret),
      .extension fileKind (Map.empty.insert "note" (.str secret))],
    some [secret], some secret, 5⟩

theorem viewerMessage_noninterfering_file :
    viewerMessage (shownMessage "A" "x") = viewerMessage (shownMessage "B" "y") ∧
    ShowsReference fileKeys (FileRef.mk "b" "n" 1 none none).toPart fileKind
      ((((Map.empty.insert "blob" (.str "b")).insert "name" (.str "n")).insert "size" (.int 1)).insert
        "note" (.str "x")) := by
  refine ⟨viewerMessage_noninterfering.1 _ _ ⟨rfl, rfl, rfl, rfl, ?_⟩,
    viewerMessage_noninterfering.2.2 _ _ _ (by decide)⟩
  exact .left rfl (.right rfl (.data _ _ (.unknown (by decide) ⟨rfl, rfl⟩ ⟨rfl, rfl⟩ .nil)))

end Parler.Hub
