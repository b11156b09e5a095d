import Mathlib.Data.List.Infix
import Mathlib.Data.List.Nodup
import Parler.Lib.JsonOrder

/-!
# Paths into a JSON value

A path leads through the fields of objects and the items of arrays to at most one value. Two paths diverge when
neither leads past the end of the other, so that the values at their ends have no part in common. The last
sections are about how deep a value is nested, and about the doubles at the ends of its paths.
-/

namespace Parler.Lib

inductive JsonStep where
  | key (name : String)
  | index (i : Nat)
  deriving DecidableEq

abbrev JsonPath := List JsonStep

namespace Json

/-- The field or item that a step leads to. -/
def child : Json → JsonStep → Option Json
  | .obj fields, .key name => (fields.find? (fun f => f.1 = name)).map Prod.snd
  | .arr items, .index i => items[i]?
  | _, _ => none

/-- The value at the end of a path. -/
def valueAt (a : Json) : JsonPath → Option Json
  | [] => some a
  | s :: path => (a.child s).bind (fun b => b.valueAt path)

mutual

/-- How many containers are nested in each other. -/
def depth : Json → Nat
  | .arr items => depthItems items + 1
  | .obj fields => depthFields fields + 1
  | _ => 0

def depthItems : List Json → Nat
  | [] => 0
  | a :: as => max (depth a) (depthItems as)

def depthFields : List (String × Json) → Nat
  | [] => 0
  | f :: fs => max (depthField f) (depthFields fs)

def depthField : String × Json → Nat
  | (_, value) => depth value

end

@[simp] theorem valueAt_nil (a : Json) : a.valueAt [] = some a := rfl

@[simp] theorem valueAt_cons (a : Json) (s : JsonStep) (path : JsonPath) :
    a.valueAt (s :: path) = (a.child s).bind (fun b => b.valueAt path) := rfl

theorem valueAt_append (a : Json) (path path' : JsonPath) :
    a.valueAt (path ++ path') = (a.valueAt path).bind (fun b => b.valueAt path') := by
  induction path generalizing a with
  | nil => rfl
  | cons s path ih =>
    rw [List.cons_append, valueAt_cons, valueAt_cons, Option.bind_assoc]
    congr 1
    funext b
    exact ih b

/-- A field of an ordered object is found under its key. -/
theorem child_of_mem {fields : List (String × Json)} (ordered : Json.orderedFields fields) {f : String × Json}
    (member : f ∈ fields) : (Json.obj fields).child (.key f.1) = some f.2 := by
  rw [child, find?_of_mem ordered member]
  rfl

end Json

/-! ## Diverging paths -/

/-- Neither path leads past the end of the other. -/
def Diverge (p q : JsonPath) : Prop := ¬ p <+: q ∧ ¬ q <+: p

instance (p q : JsonPath) : Decidable (Diverge p q) := inferInstanceAs (Decidable (_ ∧ _))

theorem not_diverge_nil (q : JsonPath) : ¬ Diverge [] q := fun parted => parted.1 List.nil_prefix

theorem not_diverge_nil_right (p : JsonPath) : ¬ Diverge p [] := fun parted => parted.2 List.nil_prefix

theorem diverge_cons {s t : JsonStep} {p q : JsonPath} : Diverge (s :: p) (t :: q) ↔ s ≠ t ∨ Diverge p q := by
  unfold Diverge
  rw [List.cons_prefix_cons, List.cons_prefix_cons]
  by_cases same : s = t
  · simp [same]
  · simp [same, Ne.symm same]

theorem not_diverge {p q : JsonPath} (near : ¬ Diverge p q) : p <+: q ∨ q <+: p := by
  by_contra neither
  exact near (not_or.mp neither)

/-- A path that diverges stays so, however far it leads on. -/
theorem Diverge.append {p q : JsonPath} (parted : Diverge p q) (r : JsonPath) : Diverge p (q ++ r) := by
  constructor
  · intro within
    rcases List.prefix_or_prefix_of_prefix within (List.prefix_append q r) with before | before
    · exact parted.1 before
    · exact parted.2 before
  · intro within
    exact parted.2 ((List.prefix_append q r).trans within)

/-! ## Depth -/

namespace Json

theorem depthFields_le {fields : List (String × Json)} {n : Nat} :
    depthFields fields ≤ n ↔ ∀ f ∈ fields, f.2.depth ≤ n := by
  induction fields with
  | nil => simp [depthFields]
  | cons f fs ih =>
    obtain ⟨key, value⟩ := f
    rw [depthFields, depthField, Nat.max_le, ih, List.forall_mem_cons]

theorem depthItems_le {items : List Json} {n : Nat} : depthItems items ≤ n ↔ ∀ a ∈ items, a.depth ≤ n := by
  induction items with
  | nil => simp [depthItems]
  | cons a as ih => rw [depthItems, Nat.max_le, ih, List.forall_mem_cons]

theorem depth_obj_le {fields : List (String × Json)} {n : Nat} :
    (Json.obj fields).depth ≤ n + 1 ↔ ∀ f ∈ fields, f.2.depth ≤ n := by
  rw [depth, Nat.add_le_add_iff_right, depthFields_le]

theorem depth_arr_le {items : List Json} {n : Nat} :
    (Json.arr items).depth ≤ n + 1 ↔ ∀ a ∈ items, a.depth ≤ n := by
  rw [depth, Nat.add_le_add_iff_right, depthItems_le]

end Json

/-! ## Doubles read back -/

section Reread

variable (read : Double → Double)

namespace Json

theorem child_reread (a : Json) (s : JsonStep) : (a.reread read).child s = (a.child s).map (Json.reread read) := by
  cases a with
  | arr items =>
    cases s with
    | key name => rfl
    | index i => simp [Json.reread, child, rereadItems_eq_map]
  | obj fields =>
    cases s with
    | key name =>
      rw [Json.reread, child, child, rereadFields_eq_map, List.find?_map, Option.map_map, Option.map_map]
      rfl
    | index i => rfl
  | _ => cases s <;> rfl

/-- What is at a path is read back as it is. -/
theorem valueAt_reread (a : Json) (path : JsonPath) :
    (a.reread read).valueAt path = (a.valueAt path).map (Json.reread read) := by
  induction path generalizing a with
  | nil => rfl
  | cons s path ih =>
    rw [valueAt_cons, valueAt_cons, child_reread, Option.bind_map, Option.map_bind]
    congr 1
    funext b
    exact ih b

end Json

variable {read}

mutual

theorem depth_reread (read : Double → Double) : ∀ a : Json, (a.reread read).depth = a.depth
  | .null => rfl
  | .bool _ => rfl
  | .int _ => rfl
  | .float _ => rfl
  | .str _ => rfl
  | .arr items => by rw [Json.reread, Json.depth, depth_rereadItems read items, Json.depth]
  | .obj fields => by rw [Json.reread, Json.depth, depth_rereadFields read fields, Json.depth]

theorem depth_rereadItems (read : Double → Double) : ∀ items : List Json,
    Json.depthItems (Json.rereadItems read items) = Json.depthItems items
  | [] => rfl
  | a :: as => by
      rw [Json.rereadItems, Json.depthItems, depth_reread read a, depth_rereadItems read as, Json.depthItems]

theorem depth_rereadFields (read : Double → Double) : ∀ fields : List (String × Json),
    Json.depthFields (Json.rereadFields read fields) = Json.depthFields fields
  | [] => rfl
  | (key, value) :: fs => by
      rw [Json.rereadFields, Json.rereadField, Json.depthFields, Json.depthField, depth_reread read value,
        depth_rereadFields read fs, Json.depthFields, Json.depthField]

end

mutual

/-- A value is read back as itself if every double in it is. -/
theorem reread_eq_self : ∀ {a : Json}, a.ordered →
    (∀ path d, a.valueAt path = some (.float d) → read d = d) → a.reread read = a
  | .null, _, _ => rfl
  | .bool _, _, _ => rfl
  | .int _, _, _ => rfl
  | .str _, _, _ => rfl
  | .float d, _, kept => by rw [Json.reread, kept [] d rfl]
  | .arr items, ordered, kept => by
      rw [Json.ordered] at ordered
      rw [Json.reread, rereadItems_eq_self ordered]
      intro a member path d found
      obtain ⟨i, at_i⟩ := List.getElem?_of_mem member
      refine kept (.index i :: path) d ?_
      rw [Json.valueAt_cons, Json.child, at_i]
      exact found
  | .obj fields, ordered, kept => by
      rw [Json.ordered] at ordered
      rw [Json.reread, rereadFields_eq_self ordered]
      intro f member path d found
      refine kept (.key f.1 :: path) d ?_
      rw [Json.valueAt_cons, Json.child_of_mem ordered member]
      exact found

theorem rereadItems_eq_self : ∀ {items : List Json}, Json.orderedItems items →
    (∀ a ∈ items, ∀ path d, a.valueAt path = some (.float d) → read d = d) →
    Json.rereadItems read items = items
  | [], _, _ => rfl
  | a :: as, ordered, kept => by
      simp only [Json.orderedItems, Bool.and_eq_true] at ordered
      rw [Json.rereadItems, reread_eq_self ordered.1 (kept a List.mem_cons_self),
        rereadItems_eq_self ordered.2 (fun b member => kept b (List.mem_cons_of_mem a member))]

theorem rereadFields_eq_self : ∀ {fields : List (String × Json)}, Json.orderedFields fields →
    (∀ f ∈ fields, ∀ path d, f.2.valueAt path = some (.float d) → read d = d) →
    Json.rereadFields read fields = fields
  | [], _, _ => rfl
  | (key, value) :: fs, ordered, kept => by
      simp only [Json.orderedFields, Json.orderedField, Bool.and_eq_true] at ordered
      rw [Json.rereadFields, Json.rereadField, reread_eq_self ordered.1.1 (kept (key, value) List.mem_cons_self),
        rereadFields_eq_self ordered.2 (fun f member => kept f (List.mem_cons_of_mem _ member))]

end

end Reread

end Parler.Lib
