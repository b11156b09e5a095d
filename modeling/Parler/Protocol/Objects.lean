import Mathlib.Data.Set.Basic
import Parler.Lib.JsonPaths
import Parler.Protocol.Codec
import Parler.Protocol.Tasks

/-!
# Documents

A JSON document as the code edits it: a value is seen as an object or an array, an entry of an object is looked
up, inserted or removed, and the object is put back.
-/

namespace Parler.Protocol

open Parler.Lib

namespace Value

theorem ext_json {v w : Value} (same : v.json = w.json) : v = w := by
  cases v
  cases w
  cases same
  rfl

/-- `Value::as_object`. -/
def asObject : Value → Option Map
  | ⟨.obj fields, ordered⟩ => some ⟨fields, by simpa [Json.ordered] using ordered⟩
  | _ => none

theorem mem_orderedItems : ∀ {items : List Json}, Json.orderedItems items → ∀ a ∈ items, a.ordered = true
  | [], _, _, member => nomatch member
  | b :: bs, ordered, a, member => by
      simp only [Json.orderedItems, Bool.and_eq_true] at ordered
      rcases List.mem_cons.mp member with rfl | later
      · exact ordered.1
      · exact mem_orderedItems ordered.2 a later

/-- `Value::as_array`. -/
def asArray : Value → Option (List Value)
  | ⟨.arr items, ordered⟩ =>
      some (items.attach.map (fun a => ⟨a.1, mem_orderedItems (by simpa [Json.ordered] using ordered) a.1 a.2⟩))
  | _ => none

def arr (items : List Value) : Value := ⟨.arr (items.map Value.json), ordered_arr items⟩

@[simp] theorem asObject_toValue (m : Map) : m.toValue.asObject = some m := rfl

theorem asObject_eq_some {v : Value} {m : Map} : v.asObject = some m ↔ v = m.toValue := by
  constructor
  · intro object
    unfold asObject at object
    split at object
    · cases object
      rfl
    · cases object
  · rintro rfl
    rfl

@[simp] theorem asArray_arr (items : List Value) : (arr items).asArray = some items := by
  unfold asArray arr
  refine congrArg some ?_
  have texts : Function.Injective Value.json := fun _ _ => ext_json
  apply List.map_injective_iff.mpr texts
  rw [List.map_map]
  exact List.attach_map_subtype_val (items.map Value.json)

theorem asArray_eq_some {v : Value} {items : List Value} : v.asArray = some items ↔ v = arr items := by
  constructor
  · intro array
    unfold asArray at array
    split at array
    · rename_i json ordered
      cases array
      apply ext_json
      unfold arr
      rw [Json.arr.injEq, List.map_map]
      exact (List.attach_map_subtype_val json).symm
    · cases array
  · rintro rfl
    exact asArray_arr items

theorem toValue_injective : Function.Injective Map.toValue := by
  intro m m' same
  exact Option.some.inj (congrArg asObject same)

theorem arr_injective : Function.Injective arr := by
  intro items items' same
  have arrays := congrArg asArray same
  rw [asArray_arr, asArray_arr] at arrays
  exact Option.some.inj arrays

/-- The value at the end of a path. -/
def valueAt (v : Value) (path : JsonPath) : Option Json := v.json.valueAt path

def depth (v : Value) : Nat := v.json.depth

end Value

/-! ## Objects -/

namespace Map

/-- A map is what it holds under each key. -/
theorem ext_get {m m' : Map} (same : ∀ key, m.get key = m'.get key) : m = m' := by
  have mem : ∀ {m : Map} {f : String × Json}, f ∈ m.entries ↔ m.get f.1 = some f.2 := by
    intro m f
    constructor
    · exact fun member => get_of_mem member
    · intro found
      obtain ⟨g, found, value⟩ := Option.map_eq_some_iff.mp found
      have key : g.1 = f.1 := by simpa using List.find?_some found
      rw [show f = g from Prod.ext key.symm value.symm]
      exact List.mem_of_find?_eq_some found
  apply ext_entries
  apply orderedFields_ext m.ordered m'.ordered
  rw [List.perm_ext_iff_of_nodup (List.Nodup.of_map _ (orderedFields_nodup m.ordered))
    (List.Nodup.of_map _ (orderedFields_nodup m'.ordered))]
  intro f
  rw [mem, mem, same]

theorem ext_lookup {m m' : Map} (same : ∀ key, m.lookup key = m'.lookup key) : m = m' := by
  apply ext_get
  intro key
  rw [← lookup_json, same, lookup_json]

@[simp] theorem lookup_insert (m : Map) (key : String) (value : Value) (key' : String) :
    (m.insert key value).lookup key' = if key = key' then some value else m.lookup key' := by
  apply Option.map_injective (f := Value.json) (fun _ _ => Value.ext_json)
  rw [lookup_json, get_insert]
  split
  · rfl
  · exact (lookup_json m key').symm

@[simp] theorem get_remove (m : Map) (key key' : String) :
    (m.remove key).get key' = if key = key' then none else m.get key' := by
  unfold get remove
  dsimp only
  rw [List.find?_filter]
  split
  · rename_i same
    rw [List.find?_eq_none.mpr (by simp [same])]
    rfl
  · rename_i other
    congr 2
    funext f
    by_cases own : f.1 = key'
    · simp [own, Ne.symm other]
    · simp [own]

@[simp] theorem lookup_remove (m : Map) (key key' : String) :
    (m.remove key).lookup key' = if key = key' then none else m.lookup key' := by
  apply Option.map_injective (f := Value.json) (fun _ _ => Value.ext_json)
  rw [lookup_json, get_remove]
  split
  · rfl
  · exact (lookup_json m key').symm

@[simp] theorem lookup_empty (key : String) : empty.lookup key = none := rfl

/-- Inserting what is there changes nothing. -/
theorem insert_eq_self {m : Map} {key : String} {value : Value} (there : m.lookup key = some value) :
    m.insert key value = m := by
  have found : m.get key = some value.json := by rw [← lookup_json, there]; rfl
  apply ext_get
  intro key'
  rw [get_insert]
  split
  · rename_i same
    rw [← same, found]
  · rfl

@[simp] theorem insert_remove (m : Map) (key : String) (value : Value) :
    (m.remove key).insert key value = m.insert key value := by
  apply ext_get
  intro key'
  rw [get_insert, get_insert, get_remove]
  split <;> simp_all

theorem valueAt_toValue (m : Map) (s : JsonStep) (path : JsonPath) : m.toValue.valueAt (s :: path) =
    match s with
    | .key key => (m.lookup key).bind (fun v => v.valueAt path)
    | .index _ => none := by
  cases s with
  | key key =>
    show (m.get key).bind (fun b => b.valueAt path) = _
    rw [← lookup_json, Option.bind_map]
    rfl
  | index i => rfl

/-- No entry is as deep as the object. -/
theorem depth_lookup {m : Map} {key : String} {v : Value} {n : Nat} (found : m.lookup key = some v)
    (bounded : m.toValue.depth ≤ n + 1) : v.depth ≤ n := by
  have got : m.get key = some v.json := by rw [← lookup_json, found]; rfl
  obtain ⟨f, found, value⟩ := Option.map_eq_some_iff.mp got
  rw [Value.depth, ← value]
  exact Json.depth_obj_le.mp bounded f (List.mem_of_find?_eq_some found)

theorem mem_insertField {f g : String × Json} {fields : List (String × Json)}
    (member : g ∈ insertField f fields) : g = f ∨ g ∈ fields := by
  induction fields with
  | nil => exact Or.inl (List.mem_singleton.mp member)
  | cons h fields ih =>
    rw [insertField] at member
    split at member
    · exact (List.mem_cons.mp member)
    · split at member
      · exact (List.mem_cons.mp member).imp_right (List.mem_cons_of_mem h)
      · rcases List.mem_cons.mp member with first | later
        · exact Or.inr (first ▸ List.mem_cons_self)
        · exact (ih later).imp_right (List.mem_cons_of_mem h)

theorem depth_insert {m : Map} {key : String} {v : Value} {n : Nat} (bounded : m.toValue.depth ≤ n + 1)
    (value : v.depth ≤ n) : (m.insert key v).toValue.depth ≤ n + 1 := by
  refine Json.depth_obj_le.mpr ?_
  intro f member
  rcases mem_insertField member with rfl | old
  · exact value
  · exact Json.depth_obj_le.mp bounded f old

theorem depth_remove {m : Map} {key : String} {n : Nat} (bounded : m.toValue.depth ≤ n + 1) :
    (m.remove key).toValue.depth ≤ n + 1 := by
  refine Json.depth_obj_le.mpr ?_
  intro f member
  exact Json.depth_obj_le.mp bounded f (List.mem_of_mem_filter member)

/-- An edit under a key changes what is at the paths that it changes there. -/
theorem valueAt_insert {m : Map} {key : String} {old new : Value} {path : JsonPath}
    (there : (m.lookup key).getD empty.toValue = old)
    (inner : ∀ rest, Diverge path rest → new.valueAt rest = old.valueAt rest) {p : JsonPath}
    (parted : Diverge (.key key :: path) p) : (m.insert key new).toValue.valueAt p = m.toValue.valueAt p := by
  cases p with
  | nil => exact absurd parted (not_diverge_nil_right _)
  | cons s rest =>
    rw [valueAt_toValue, valueAt_toValue]
    cases s with
    | index i => rfl
    | key name =>
      dsimp only
      rw [lookup_insert]
      by_cases same : key = name
      · subst same
        have deeper : Diverge path rest := (diverge_cons.mp parted).resolve_left (fun other => other rfl)
        rw [if_pos rfl, Option.bind_some, inner rest deeper]
        cases found : m.lookup key with
        | some v =>
          rw [found] at there
          rw [← there]
          rfl
        | none =>
          rw [found] at there
          rw [← there]
          cases rest with
          | nil => exact absurd deeper (not_diverge_nil_right _)
          | cons s rest => cases s <;> rfl
      · rw [if_neg same]

theorem valueAt_remove {m : Map} {key : String} {p : JsonPath} (parted : Diverge [.key key] p) :
    (m.remove key).toValue.valueAt p = m.toValue.valueAt p := by
  cases p with
  | nil => exact absurd parted (not_diverge_nil_right _)
  | cons s rest =>
    rw [valueAt_toValue, valueAt_toValue]
    cases s with
    | index i => rfl
    | key name =>
      have other : key ≠ name := by
        rintro rfl
        exact (diverge_cons.mp parted).elim (fun other => other rfl) (not_diverge_nil _)
      dsimp only
      rw [lookup_remove, if_neg other]

end Map

/-! ## Reading back -/

theorem Map.lookup_reread (read : Double → Double) (m : Map) (key : String) :
    (m.reread read).lookup key = (m.lookup key).map (Value.reread read) := by
  unfold Map.lookup
  rw [Map.values_reread, List.find?_map, Option.map_map, Option.map_map]
  rfl

namespace Value

theorem asObject_reread (read : Double → Double) (v : Value) :
    (v.reread read).asObject = v.asObject.map (Map.reread read) := by
  obtain ⟨json, ordered⟩ := v
  cases json <;> rfl

theorem reread_arr (read : Double → Double) (items : List Value) :
    (arr items).reread read = arr (items.map (Value.reread read)) := by
  apply ext_json
  show Json.arr (Json.rereadItems read (items.map Value.json)) =
    .arr ((items.map (Value.reread read)).map Value.json)
  rw [rereadItems_eq_map, List.map_map, List.map_map]
  rfl

theorem asArray_reread (read : Double → Double) (v : Value) :
    (v.reread read).asArray = v.asArray.map (List.map (Value.reread read)) := by
  cases array : v.asArray with
  | some items => rw [asArray_eq_some.mp array, reread_arr, asArray_arr, Option.map_some]
  | none =>
    obtain ⟨json, ordered⟩ := v
    cases json with
    | arr items => cases array
    | _ => rfl

end Value

/-! ## Numbers -/

/-- `serde_json::Number`. -/
inductive Number where
  | int (n : Int)
  | float (d : Double)

def Number.json : Number → Json
  | .int n => .int n
  | .float d => .float d

namespace Value

/-- The numbers in a value. -/
def numbers (v : Value) : Set Number := {n | ∃ path, v.valueAt path = some n.json}

/-- The doubles in a value. -/
def doubles (v : Value) : Set Double := {d | ∃ path, v.valueAt path = some (.float d)}

theorem mem_doubles {v : Value} {d : Double} : d ∈ v.doubles ↔ .float d ∈ v.numbers := Iff.rfl

theorem reread_eq_self {read : Double → Double} {v : Value} (kept : ∀ d ∈ v.doubles, read d = d) :
    v.reread read = v :=
  ext_json (Lib.reread_eq_self v.ordered (fun path d found => kept d ⟨path, found⟩))

theorem valueAt_reread (read : Double → Double) (v : Value) (p : JsonPath) :
    (v.reread read).valueAt p = (v.valueAt p).map (Json.reread read) := Json.valueAt_reread read v.json p

/-- A value is read back as itself only if its doubles are. -/
theorem doubles_of_reread {read : Double → Double} {v : Value} (same : v.reread read = v) {d : Double}
    (member : d ∈ v.doubles) : read d = d := by
  obtain ⟨p, found⟩ := member
  have there := valueAt_reread read v p
  rw [same, found] at there
  exact (Json.float.inj (Option.some.inj there)).symm

/-- The integers stay when the doubles are read back. -/
theorem int_mem_reread {read : Double → Double} {v : Value} {n : Int} :
    .int n ∈ (v.reread read).numbers ↔ .int n ∈ v.numbers := by
  refine exists_congr (fun path => ?_)
  rw [valueAt_reread]
  cases v.valueAt path with
  | none => simp
  | some a => cases a <;> simp [Json.reread, Number.json]

/-- Where a scalar is that is no number, there is none. -/
theorem numbers_eq_empty {v : Value} (scalar : ∀ s, v.json.child s = none) (other : ∀ n : Number, v.json ≠ n.json) :
    v.numbers = ∅ := by
  refine Set.eq_empty_of_forall_notMem ?_
  rintro n ⟨path, found⟩
  cases path with
  | nil => exact other n (Option.some.inj found)
  | cons s path =>
    have step : v.valueAt (s :: path) = (v.json.child s).bind (fun b => b.valueAt path) := rfl
    rw [step, scalar s] at found
    cases found

@[simp] theorem numbers_str (s : String) : (str s).numbers = ∅ := by
  apply numbers_eq_empty
  · intro step
    cases step <;> rfl
  · intro n
    cases n <;> exact Json.noConfusion

/-- The numbers of an object are those of its entries. -/
theorem numbers_toValue {m : Map} {n : Number} : n ∈ m.toValue.numbers ↔
    ∃ key v, m.lookup key = some v ∧ n ∈ v.numbers := by
  constructor
  · rintro ⟨path, found⟩
    cases path with
    | nil => cases n <;> cases found
    | cons s path =>
      rw [Map.valueAt_toValue] at found
      cases s with
      | index i => cases found
      | key key =>
        obtain ⟨v, there, found⟩ := Option.bind_eq_some_iff.mp found
        exact ⟨key, v, there, path, found⟩
  · rintro ⟨key, v, there, path, found⟩
    refine ⟨.key key :: path, ?_⟩
    rw [Map.valueAt_toValue]
    exact Option.bind_eq_some_iff.mpr ⟨v, there, found⟩

theorem valueAt_arr (items : List Value) (s : JsonStep) (path : JsonPath) :
    (arr items).valueAt (s :: path) =
      match s with
      | .index i => items[i]?.bind (fun v => v.valueAt path)
      | .key _ => none := by
  cases s with
  | key key => rfl
  | index i =>
    show ((items.map Value.json)[i]?).bind (fun b => b.valueAt path) = _
    rw [List.getElem?_map, Option.bind_map]
    rfl

theorem numbers_arr {items : List Value} {n : Number} :
    n ∈ (arr items).numbers ↔ ∃ v ∈ items, n ∈ v.numbers := by
  constructor
  · rintro ⟨path, found⟩
    cases path with
    | nil => cases n <;> cases found
    | cons s path =>
      rw [valueAt_arr] at found
      cases s with
      | key key => cases found
      | index i =>
        obtain ⟨v, there, found⟩ := Option.bind_eq_some_iff.mp found
        exact ⟨v, List.mem_of_getElem? there, path, found⟩
  · rintro ⟨v, member, path, found⟩
    obtain ⟨i, there⟩ := List.getElem?_of_mem member
    refine ⟨.index i :: path, ?_⟩
    rw [valueAt_arr]
    exact Option.bind_eq_some_iff.mpr ⟨v, there, found⟩

theorem numbers_insert {m : Map} {key : String} {v : Value} {n : Number}
    (member : n ∈ (m.insert key v).toValue.numbers) : n ∈ v.numbers ∨ n ∈ m.toValue.numbers := by
  obtain ⟨name, w, there, inside⟩ := numbers_toValue.mp member
  rw [Map.lookup_insert] at there
  split at there
  · cases there
    exact Or.inl inside
  · exact Or.inr (numbers_toValue.mpr ⟨name, w, there, inside⟩)

theorem numbers_remove {m : Map} {key : String} {n : Number} (member : n ∈ (m.remove key).toValue.numbers) :
    n ∈ m.toValue.numbers := by
  obtain ⟨name, w, there, inside⟩ := numbers_toValue.mp member
  rw [Map.lookup_remove] at there
  split at there
  · cases there
  · exact numbers_toValue.mpr ⟨name, w, there, inside⟩

theorem numbers_lookup {m : Map} {key : String} {v : Value} (there : m.lookup key = some v) :
    v.numbers ⊆ m.toValue.numbers := fun _ inside => numbers_toValue.mpr ⟨key, v, there, inside⟩

@[simp] theorem numbers_empty : Map.empty.toValue.numbers = ∅ := by
  refine Set.eq_empty_of_forall_notMem ?_
  intro n member
  obtain ⟨key, v, there, -⟩ := numbers_toValue.mp member
  cases there

/-- An object built from fields without numbers has none. -/
theorem numbers_ofFields {fields : List (String × Value)} (none : ∀ f ∈ fields, f.2.numbers = ∅) :
    (Map.ofFields fields).toValue.numbers = ∅ := by
  have general : ∀ (fs : List (String × Value)) (m : Map), (∀ f ∈ fs, f.2.numbers = ∅) →
      m.toValue.numbers = ∅ → (fs.foldl (fun m f => m.insert f.1 f.2) m).toValue.numbers = ∅ := by
    intro fs
    induction fs with
    | nil => exact fun m _ start => start
    | cons f fs ih =>
      intro m none start
      obtain ⟨first, rest⟩ := List.forall_mem_cons.mp none
      refine ih _ rest (Set.eq_empty_of_forall_notMem ?_)
      intro n member
      rcases numbers_insert member with inside | inside
      · exact Set.notMem_empty n (first ▸ inside)
      · exact Set.notMem_empty n (start ▸ inside)
  exact general fields Map.empty none numbers_empty

/-! ## Depth -/

theorem depth_ofFields {fields : List (String × Value)} {n : Nat} (bounded : ∀ f ∈ fields, f.2.depth ≤ n) :
    (Map.ofFields fields).toValue.depth ≤ n + 1 := by
  have general : ∀ (fs : List (String × Value)) (m : Map), (∀ f ∈ fs, f.2.depth ≤ n) →
      m.toValue.depth ≤ n + 1 → (fs.foldl (fun m f => m.insert f.1 f.2) m).toValue.depth ≤ n + 1 := by
    intro fs
    induction fs with
    | nil => exact fun m _ start => start
    | cons f fs ih =>
      intro m bounded start
      obtain ⟨first, rest⟩ := List.forall_mem_cons.mp bounded
      exact ih _ rest (Map.depth_insert start first)
  exact general fields Map.empty bounded (Nat.le_add_left 1 n)

theorem depth_arr {items : List Value} {n : Nat} :
    (arr items).depth ≤ n + 1 ↔ ∀ v ∈ items, v.depth ≤ n := by
  show (Json.arr (items.map Value.json)).depth ≤ n + 1 ↔ _
  rw [Json.depth_arr_le]
  exact List.forall_mem_map

/-- The values that are read as they are printed, but for their doubles: nested no deeper than the reader goes,
    with integers that fit into 64 bits. -/
structure Readable (v : Value) : Prop where
  depth : v.depth ≤ 127
  fits : ∀ n, .int n ∈ v.numbers → -2 ^ 63 ≤ n ∧ n < 2 ^ 64

theorem Readable.of_numbers {v w : Value} (readable : v.Readable) (depth : w.depth ≤ 127)
    (fewer : w.numbers ⊆ v.numbers) : w.Readable := ⟨depth, fun n member => readable.fits n (fewer member)⟩

theorem Readable.reread {v : Value} (readable : v.Readable) (read : Double → Double) : (v.reread read).Readable :=
  ⟨(depth_reread read v.json).trans_le readable.depth,
    fun n member => readable.fits n (int_mem_reread.mp member)⟩

theorem readable_of_no_numbers {v : Value} (depth : v.depth ≤ 127) (none : v.numbers = ∅) : v.Readable := by
  refine ⟨depth, ?_⟩
  intro n member
  rw [none] at member
  exact absurd member (Set.notMem_empty _)

/-- Where a value without numbers is, no path around it ends in one. -/
theorem no_number_near {v x : Value} {path p : JsonPath} (there : v.valueAt path = some x.json)
    (plain : x.numbers = ∅) (near : ¬ Diverge path p) (n : Number) : v.valueAt p ≠ some n.json := by
  intro found
  have inside : ∀ r, x.valueAt r ≠ some n.json := by
    intro r found
    exact Set.notMem_empty n (plain ▸ ⟨r, found⟩)
  rcases not_diverge near with ⟨r, rfl⟩ | ⟨r, rfl⟩
  · have whole := Json.valueAt_append v.json path r
    rw [show v.json.valueAt path = some x.json from there, Option.bind_some] at whole
    exact inside r (whole.symm.trans found)
  · have whole := Json.valueAt_append v.json p r
    rw [show v.json.valueAt p = some n.json from found, Option.bind_some] at whole
    cases r with
    | nil => exact inside [] (there.symm.trans whole)
    | cons s r =>
      have none : n.json.valueAt (s :: r) = none := by cases n <;> cases s <;> rfl
      rw [none] at whole
      cases there.symm.trans whole

/-! ## Taking away -/

/-- The edit takes away something, and leaves what is at the paths that it keeps. -/
structure Trims (kept : JsonPath → Prop) (v v' : Value) : Prop where
  frame : ∀ p, kept p → v'.valueAt p = v.valueAt p
  numbers : v'.numbers ⊆ v.numbers
  depth : ∀ n, v.depth ≤ n + 1 → v'.depth ≤ n + 1

variable {kept kept' : JsonPath → Prop}

theorem Trims.refl (kept : JsonPath → Prop) (v : Value) : Trims kept v v :=
  ⟨fun _ _ => rfl, subset_rfl, fun _ => id⟩

theorem Trims.trans {u v w : Value} (first : Trims kept u v) (second : Trims kept v w) : Trims kept u w where
  frame p keeps := (second.frame p keeps).trans (first.frame p keeps)
  numbers := second.numbers.trans first.numbers
  depth n bounded := second.depth n (first.depth n bounded)

theorem Trims.reread {read : Double → Double} {v v' : Value} (trims : Trims kept v v') (same : v.reread read = v) :
    v'.reread read = v' :=
  reread_eq_self (fun _ member =>
    doubles_of_reread same (mem_doubles.mpr (trims.numbers (mem_doubles.mp member))))

theorem Trims.mono {v v' : Value} (trims : Trims kept v v') (fewer : ∀ p, kept' p → kept p) : Trims kept' v v' :=
  ⟨fun p keeps => trims.frame p (fewer p keeps), trims.numbers, trims.depth⟩

theorem Trims.remove (m : Map) (key : String) : Trims (Diverge [.key key]) m.toValue (m.remove key).toValue where
  frame _ parted := Map.valueAt_remove parted
  numbers _ member := numbers_remove member
  depth _ bounded := Map.depth_remove bounded

/-- A field that holds an empty object goes. -/
theorem Trims.dropEmpty {m : Map} {key : String} (there : m.lookup key = some Map.empty.toValue)
    (path : JsonPath) : Trims (Diverge (.key key :: path)) m.toValue (m.remove key).toValue where
  frame p parted := by
    by_cases apart : Diverge [.key key] p
    · exact Map.valueAt_remove apart
    · cases p with
      | nil => exact absurd parted (not_diverge_nil_right _)
      | cons s rest =>
        have same : s = .key key := by
          by_contra other
          exact apart (diverge_cons.mpr (Or.inl (Ne.symm other)))
        subst same
        have deeper : Diverge path rest := (diverge_cons.mp parted).resolve_left (fun other => other rfl)
        rw [Map.valueAt_toValue, Map.valueAt_toValue]
        dsimp only
        rw [Map.lookup_remove, if_pos rfl, there]
        cases rest with
        | nil => exact absurd deeper (not_diverge_nil_right _)
        | cons s rest => cases s <;> rfl
  numbers _ member := numbers_remove member
  depth _ bounded := Map.depth_remove bounded

/-- A trim under a key. -/
theorem Trims.insert {m : Map} {key : String} {old new : Value} {path : JsonPath} (there : m.lookup key = some old)
    (inner : Trims (Diverge path) old new) (container : ∃ n, old.depth = n + 1) :
    Trims (Diverge (.key key :: path)) m.toValue (m.insert key new).toValue where
  frame _ parted := Map.valueAt_insert (by rw [there]; rfl) inner.frame parted
  numbers n member := by
    rcases numbers_insert member with inside | inside
    · exact numbers_lookup there (inner.numbers inside)
    · exact inside
  depth n bounded := by
    obtain ⟨k, depth⟩ := container
    have shallow := Map.depth_lookup there bounded
    rw [depth] at shallow
    obtain ⟨n, rfl⟩ : ∃ j, n = j + 1 := ⟨n - 1, by omega⟩
    exact Map.depth_insert bounded (inner.depth n (depth.trans_le shallow))

/-- Items taken out of an array. -/
theorem Trims.filter (items : List Value) (keep : Value → Bool) :
    Trims (Diverge []) (arr items) (arr (items.filter keep)) where
  frame _ parted := absurd parted (not_diverge_nil _)
  numbers n member := by
    obtain ⟨v, listed, inside⟩ := numbers_arr.mp member
    exact numbers_arr.mpr ⟨v, List.mem_of_mem_filter listed, inside⟩
  depth n bounded := depth_arr.mpr (fun v listed => depth_arr.mp bounded v (List.mem_of_mem_filter listed))

theorem Trims.readable {v v' : Value} (trims : Trims kept v v') (readable : v.Readable) : v'.Readable :=
  readable.of_numbers (trims.depth 126 readable.depth) trims.numbers

theorem depth_container_obj (m : Map) : ∃ n, m.toValue.depth = n + 1 := ⟨_, rfl⟩

theorem depth_container_arr (items : List Value) : ∃ n, (arr items).depth = n + 1 := ⟨_, rfl⟩

end Value

end Parler.Protocol
