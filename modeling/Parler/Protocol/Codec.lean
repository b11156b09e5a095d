import Mathlib.Data.List.Nodup
import Parler.Protocol.Canonical

/-!
# Parts on the wire

A part is written as a JSON object and read back by the hand-written `Deserialize` of
`types.rs`: the fields are inserted into a map one after the other, and the `kind` found
there decides what the part is. Reading a text is exact but for doubles, whose text is only
parsed to best effort; what a printed double is read back as is a parameter.
-/

namespace Parler.Protocol

open Parler.Lib

/-! ## Maps -/

namespace Value

/-- The value after its doubles are read back from their text. -/
def reread (read : Double → Double) (v : Value) : Value :=
  ⟨v.json.reread read, by rw [ordered_reread]; exact v.ordered⟩

end Value

namespace Map

/-- The entries with their values as values. -/
def values (m : Map) : List (String × Value) :=
  m.entries.attach.map (fun f => (f.1.1, ⟨f.1.2, (orderedFields_iff.mp m.ordered).2 f.1 f.2⟩))

/-- `Map::get`, the value with its maps. -/
def lookup (m : Map) (key : String) : Option Value :=
  (m.values.find? (fun f => f.1 = key)).map Prod.snd

/-- `Map::remove`. -/
def remove (m : Map) (key : String) : Map :=
  ⟨m.entries.filter (fun f => f.1 ≠ key), by
    obtain ⟨sorted, values⟩ := orderedFields_iff.mp m.ordered
    refine orderedFields_iff.mpr ⟨sorted.sublist List.filter_sublist, ?_⟩
    exact fun f member => values f (List.mem_of_mem_filter member)⟩

/-- The map after inserting the fields one by one. -/
def ofFields (fields : List (String × Value)) : Map :=
  fields.foldl (fun m f => m.insert f.1 f.2) empty

/-- The map after its doubles are read back. -/
def reread (read : Double → Double) (m : Map) : Map :=
  ⟨Json.rereadFields read m.entries, by rw [ordered_rereadFields]; exact m.ordered⟩

theorem ext_entries {m m' : Map} (same : m.entries = m'.entries) : m = m' := by
  cases m
  cases m'
  cases same
  rfl

theorem values_json (m : Map) : m.values.map (fun f => (f.1, f.2.json)) = m.entries := by
  rw [values, List.map_map]
  exact List.attach_map_subtype_val m.entries

theorem reread_entries (read : Double → Double) (m : Map) :
    (m.reread read).entries = m.entries.map (fun f => (f.1, f.2.reread read)) :=
  rereadFields_eq_map read m.entries

theorem values_reread (read : Double → Double) (m : Map) :
    (m.reread read).values = m.values.map (fun f => (f.1, f.2.reread read)) := by
  have texts : Function.Injective (fun f : String × Value => (f.1, f.2.json)) := by
    rintro ⟨key, ⟨json, ordered⟩⟩ ⟨key', ⟨json', ordered'⟩⟩ same
    cases same
    rfl
  apply List.map_injective_iff.mpr texts
  show (m.reread read).values.map (fun f => (f.1, f.2.json)) = _
  rw [values_json, reread_entries, ← values_json m, List.map_map, List.map_map]
  rfl

/-- A map holds one value under a key. -/
theorem get_of_mem {m : Map} {key : String} {value : Json} (member : (key, value) ∈ m.entries) :
    m.get key = some value := by
  unfold get
  rw [find?_of_mem m.ordered member]
  rfl

theorem lookup_json (m : Map) (key : String) : (m.lookup key).map Value.json = m.get key := by
  unfold lookup get
  conv_rhs => rw [← values_json m]
  rw [List.find?_map]
  simp [Function.comp_def]

theorem ofFields_entries (fields : List (String × Value)) :
    (ofFields fields).entries = MapOrder.sorted.build (fields.map (fun f => (f.1, f.2.json))) := by
  have general : ∀ (fs : List (String × Value)) (m : Map),
      (fs.foldl (fun m f => m.insert f.1 f.2) m).entries =
        (fs.map (fun f => (f.1, f.2.json))).foldl (fun m f => insertField f m) m.entries := by
    intro fs
    induction fs with
    | nil => exact fun m => rfl
    | cons f fs ih => exact fun m => ih (m.insert f.1 f.2)
  exact general fields empty

/-- A map built from distinct keys holds exactly the fields inserted. -/
theorem ofFields_perm {fields : List (String × Value)} (distinct : (fields.map Prod.fst).Nodup) :
    (ofFields fields).entries.Perm (fields.map (fun f => (f.1, f.2.json))) := by
  rw [ofFields_entries]
  apply MapOrder.build_perm
  simpa [Function.comp_def] using distinct

end Map

/-! ## Parts -/

namespace Part

/-- The fields of a part in writing order (`impl Serialize for Part`). -/
def fields : Part → List (String × Value)
  | .text t => [("kind", .str "text"), ("text", .str t)]
  | .data value => [("kind", .str "data"), ("data", value)]
  | .extension kind fields => ("kind", .str kind) :: fields.values

/-- `impl Deserialize for Part`. -/
def decode (fields : List (String × Value)) : Option Part :=
  let obj := Map.ofFields fields
  match (obj.get "kind").bind asStr with
  | none => none
  | some kind =>
      if kind = "text" then ((obj.get "text").bind asStr).map .text
      else if kind = "data" then (obj.lookup "data").map .data
      else if isExtensionKind kind then some (.extension kind (obj.remove "kind"))
      else none

/-- A part after it was written as text and read again. -/
def wire (read : Double → Double) (p : Part) : Option Part :=
  decode (p.fields.map (fun f => (f.1, f.2.reread read)))

/-- An extension's kind is reverse-DNS and is not named again among its fields. -/
def WellFormed : Part → Prop
  | .extension kind fields => isExtensionKind kind = true ∧ "kind" ∉ fields.entries.map Prod.fst
  | _ => True

/-- Every double of the part survives the text. -/
def Reread (read : Double → Double) (p : Part) : Prop :=
  ∀ f ∈ p.fields, f.2.json.reread read = f.2.json

theorem keys_distinct {p : Part} (formed : p.WellFormed) : (p.fields.map Prod.fst).Nodup := by
  cases p with
  | text t => simp [fields]
  | data value => simp [fields]
  | extension kind fields =>
    have keys : fields.values.map Prod.fst = fields.entries.map Prod.fst := by
      conv_rhs => rw [← fields.values_json, List.map_map]
      rfl
    rw [Part.fields, List.map_cons, keys, List.nodup_cons]
    exact ⟨formed.2, orderedFields_nodup fields.ordered⟩

/-- Decoding the fields of a well-formed part gives the part. -/
theorem decode_fields {p : Part} (formed : p.WellFormed) : decode p.fields = some p := by
  have perm := Map.ofFields_perm (keys_distinct formed)
  have holds : ∀ f ∈ p.fields, (Map.ofFields p.fields).get f.1 = some f.2.json := by
    intro f member
    exact Map.get_of_mem (perm.mem_iff.mpr (List.mem_map_of_mem member))
  cases p with
  | text t =>
    have kind := holds ("kind", .str "text") (by simp [fields])
    have text := holds ("text", .str t) (by simp [fields])
    simp [decode, kind, text, Value.str, asStr]
  | data value =>
    have kind := holds ("kind", .str "data") (by simp [fields])
    have data := holds ("data", value) (by simp [fields])
    rw [← Map.lookup_json, Option.map_eq_some_iff] at data
    obtain ⟨found, lookup, same⟩ := data
    have whole : found = value := by
      cases found
      cases value
      cases same
      rfl
    simp [decode, kind, Value.str, asStr, lookup, whole]
  | extension kind fields =>
    obtain ⟨reverse, own⟩ := formed
    have kinded := holds ("kind", .str kind) (by simp [Part.fields])
    have text : kind ≠ "text" := fun same => absurd reverse (by rw [same]; decide)
    have data : kind ≠ "data" := fun same => absurd reverse (by rw [same]; decide)
    have rest : (Map.ofFields (Part.extension kind fields).fields).remove "kind" = fields := by
      apply Map.ext_entries
      apply orderedFields_ext (Map.remove _ _).ordered fields.ordered
      have others : fields.entries.filter (fun f => f.1 ≠ "kind") = fields.entries := by
        rw [List.filter_eq_self]
        intro f member
        have other : f.1 ≠ "kind" := fun same => own (same ▸ List.mem_map_of_mem member)
        simpa using other
      have filtered := perm.filter (fun f => f.1 ≠ "kind")
      rw [Part.fields, List.map_cons, fields.values_json, List.filter_cons_of_neg (by simp),
        others] at filtered
      exact filtered
    simp [decode, kinded, Value.str, asStr, text, data, reverse, rest]

/-- A well-formed part whose doubles survive comes out of the wire as it went in. -/
theorem wire_eq {read : Double → Double} {p : Part} (formed : p.WellFormed)
    (survives : p.Reread read) : p.wire read = some p := by
  have same : ∀ f ∈ p.fields, (f.1, f.2.reread read) = f := by
    intro f member
    have value : f.2.reread read = f.2 := by
      unfold Value.reread
      simp only [survives f member]
    rw [value]
  rw [wire, List.map_congr_left same, List.map_id'', decode_fields formed]
  exact fun _ => rfl

/-- The part after its doubles are read back. -/
def reread (read : Double → Double) : Part → Part
  | .text t => .text t
  | .data value => .data (value.reread read)
  | .extension kind fields => .extension kind (fields.reread read)

theorem fields_reread (read : Double → Double) (p : Part) :
    (p.reread read).fields = p.fields.map (fun f => (f.1, f.2.reread read)) := by
  cases p with
  | text t => rfl
  | data value => rfl
  | extension kind fields =>
    rw [Part.reread, Part.fields, Map.values_reread]
    rfl

theorem WellFormed.reread {p : Part} (formed : p.WellFormed) (read : Double → Double) :
    (p.reread read).WellFormed := by
  cases p with
  | text t => trivial
  | data value => trivial
  | extension kind fields =>
    refine ⟨formed.1, ?_⟩
    rw [Map.reread_entries, List.map_map]
    exact formed.2

/-- All that the wire does to a well-formed part is to reread its doubles. -/
theorem wire_reread {p : Part} (formed : p.WellFormed) (read : Double → Double) :
    p.wire read = some (p.reread read) := by
  rw [wire, ← fields_reread, decode_fields (formed.reread read)]

theorem reread_eq_iff {read : Double → Double} {p : Part} (formed : p.WellFormed) :
    p.reread read = p ↔ p.Reread read := by
  constructor
  · intro same f member
    have kept : p.fields.map (fun f => (f.1, f.2.reread read)) = p.fields.map id := by
      rw [← fields_reread, same, List.map_id]
    exact congrArg (fun g => g.2.json) (List.map_inj_left.mp kept f member)
  · intro survives
    exact Option.some.inj ((wire_reread formed read).symm.trans (wire_eq formed survives))

/-- An object without a kind that is known or reverse-DNS is no part. -/
theorem decode_rejects {fields : List (String × Value)}
    (unknown : ∀ kind, (Map.ofFields fields).get "kind" = some (.str kind) →
      kind ≠ "text" ∧ kind ≠ "data" ∧ isExtensionKind kind = false) : decode fields = none := by
  unfold decode
  dsimp only
  cases found : (Map.ofFields fields).get "kind" with
  | none => rfl
  | some value =>
    cases value with
    | str kind =>
      obtain ⟨text, data, other⟩ := unknown kind found
      simp [asStr, text, data, other]
    | _ => rfl

/-- What is decoded is well formed. -/
theorem decode_wellFormed {fields : List (String × Value)} {p : Part}
    (decoded : decode fields = some p) : p.WellFormed := by
  unfold decode at decoded
  dsimp only at decoded
  split at decoded
  · cases decoded
  · rename_i kind found
    split at decoded
    · obtain ⟨t, -, rfl⟩ := Option.map_eq_some_iff.mp decoded
      trivial
    · split at decoded
      · obtain ⟨value, -, rfl⟩ := Option.map_eq_some_iff.mp decoded
        trivial
      · split at decoded
        · rename_i reverse
          cases decoded
          refine ⟨reverse, ?_⟩
          intro named
          obtain ⟨f, member, same⟩ := List.mem_map.mp named
          have other := (List.mem_filter.mp member).2
          simp [same] at other
        · cases decoded

end Part

end Parler.Protocol
