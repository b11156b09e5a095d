import Mathlib.Data.List.Nodup
import Parler.Lib.Json

/-!
# The order of object keys

Two JSON values agree when they differ at most in the order of the fields of their
objects, at any depth. For values whose objects have distinct keys, which is what a map
holds, agreeing is having one canonical form. The last section is about a text codec that
reads doubles back only to best effort: it keeps the keys.
-/

namespace Parler.Lib

namespace Json

mutual

/-- The values are the same up to the order of the fields of every object. -/
def agrees : Json → Json → Prop
  | .arr as, .arr bs => agreesItems as bs
  | .obj fs, .obj gs => agreesFields fs gs
  | a, b => a = b

def agreesItems : List Json → List Json → Prop
  | [], bs => bs = []
  | a :: as, bs => ∃ b rest, bs = b :: rest ∧ agrees a b ∧ agreesItems as rest

/-- Every field has its own counterpart in the other object, and nothing is left over. -/
def agreesFields : List (String × Json) → List (String × Json) → Prop
  | [], gs => gs = []
  | f :: fs, gs => ∃ g left right, gs = left ++ g :: right ∧ agreesField f g ∧
      agreesFields fs (left ++ right)

def agreesField : String × Json → String × Json → Prop
  | (key, value), g => key = g.1 ∧ agrees value g.2

end

mutual

/-- Every object in the value has distinct keys. -/
def distinct : Json → Prop
  | .arr items => distinctItems items
  | .obj fields => (fields.map Prod.fst).Nodup ∧ distinctFields fields
  | _ => True

def distinctItems : List Json → Prop
  | [] => True
  | a :: as => distinct a ∧ distinctItems as

/-- Every value of the fields has distinct keys. -/
def distinctFields : List (String × Json) → Prop
  | [] => True
  | f :: fs => distinctField f ∧ distinctFields fs

def distinctField : String × Json → Prop
  | (_, value) => distinct value

end

end Json

/-! ## Keys -/

theorem charsLess_irrefl : ∀ a : List Char, charsLess a a = false
  | [] => rfl
  | c :: cs => by simp [charsLess, charsLess_irrefl cs]

theorem charsLess_trans : ∀ {a b c : List Char}, charsLess a b → charsLess b c → charsLess a c
  | [], [], _, first, _ => by simp [charsLess] at first
  | [], _ :: _, [], _, second => by simp [charsLess] at second
  | [], _ :: _, _ :: _, _, _ => rfl
  | _ :: _, [], _, first, _ => by simp [charsLess] at first
  | _ :: _, _ :: _, [], _, second => by simp [charsLess] at second
  | x :: xs, y :: ys, z :: zs, first, second => by
      by_cases xy : x = y
      · subst xy
        by_cases xz : x = z
        · subst xz
          simp only [charsLess, if_true] at first second ⊢
          exact charsLess_trans first second
        · simpa [charsLess, xz] using second
      · by_cases yz : y = z
        · subst yz
          simpa [charsLess, xy] using first
        · simp only [charsLess, xy, yz, if_false, decide_eq_true_eq] at first second
          have xz : x ≠ z := by
            intro same
            subst same
            omega
          simp only [charsLess, xz, if_false, decide_eq_true_eq]
          omega

theorem keyLess_irrefl (a : String) : keyLess a a = false := charsLess_irrefl _

theorem keyLess_trans {a b c : String} (first : keyLess a b) (second : keyLess b c) : keyLess a c :=
  charsLess_trans first second

/-- The keys of an ordered map strictly increase. -/
theorem sorted_of_orderedFields : ∀ {fs : List (String × Json)}, Json.orderedFields fs →
    fs.Pairwise (fun f g => keyLess f.1 g.1)
  | [], _ => List.Pairwise.nil
  | [_], _ => List.pairwise_singleton _ _
  | f :: g :: fs, ordered => by
      simp only [Json.orderedFields, Bool.and_eq_true] at ordered
      obtain ⟨⟨-, first⟩, rest⟩ := ordered
      have sorted : (g :: fs).Pairwise (fun f g => keyLess f.1 g.1) :=
        sorted_of_orderedFields (by simpa [Json.orderedFields] using rest)
      apply List.pairwise_cons.mpr
      refine ⟨?_, sorted⟩
      intro h member
      rcases List.mem_cons.mp member with rfl | member
      · exact first
      · exact keyLess_trans first ((List.pairwise_cons.mp sorted).1 h member)

/-- Ordered maps with the same fields are the same list. -/
theorem orderedFields_ext {fs gs : List (String × Json)} (ordered : Json.orderedFields fs)
    (ordered' : Json.orderedFields gs) (perm : fs.Perm gs) : fs = gs := by
  refine perm.eq_of_pairwise ?_ (sorted_of_orderedFields ordered) (sorted_of_orderedFields ordered')
  intro f g _ _ less greater
  have loop := keyLess_trans less greater
  rw [keyLess_irrefl] at loop
  cases loop

theorem orderedFields_iff {fs : List (String × Json)} :
    Json.orderedFields fs ↔
      fs.Pairwise (fun f g => keyLess f.1 g.1) ∧ ∀ f ∈ fs, f.2.ordered := by
  induction fs with
  | nil => simp [Json.orderedFields]
  | cons f fs ih =>
    obtain ⟨key, value⟩ := f
    constructor
    · intro ordered
      have sorted := sorted_of_orderedFields ordered
      simp only [Json.orderedFields, Json.orderedField, Bool.and_eq_true] at ordered
      refine ⟨sorted, ?_⟩
      intro g member
      rcases List.mem_cons.mp member with rfl | member
      · exact ordered.1.1
      · exact (ih.mp ordered.2).2 g member
    · intro both
      obtain ⟨sorted, values⟩ := both
      obtain ⟨first, rest⟩ := List.pairwise_cons.mp sorted
      have tail := ih.mpr ⟨rest, fun g member => values g (List.mem_cons_of_mem _ member)⟩
      have head : before key fs := by
        cases fs with
        | nil => rfl
        | cons g gs => exact first g List.mem_cons_self
      simp [Json.orderedFields, Json.orderedField, values _ List.mem_cons_self, head, tail]

/-- The keys of an ordered map are distinct. -/
theorem orderedFields_nodup {fs : List (String × Json)} (ordered : Json.orderedFields fs) :
    (fs.map Prod.fst).Nodup := by
  rw [List.Nodup, List.pairwise_map]
  refine (orderedFields_iff.mp ordered).1.imp ?_
  intro f g less same
  rw [same, keyLess_irrefl] at less
  cases less

/-- A field is found by its key. -/
theorem find?_of_mem {fs : List (String × Json)} (ordered : Json.orderedFields fs) {f : String × Json}
    (member : f ∈ fs) : fs.find? (fun g => g.1 = f.1) = some f := by
  have found : ∃ g, fs.find? (fun g => g.1 = f.1) = some g := by
    rw [← Option.isSome_iff_exists, List.find?_isSome]
    exact ⟨f, member, by simp⟩
  obtain ⟨g, found⟩ := found
  have own : g.1 = f.1 := by simpa using List.find?_some found
  have same := List.inj_on_of_nodup_map (orderedFields_nodup ordered) (List.mem_of_find?_eq_some found) member own
  rw [found, same]

/-! ## Canonical forms -/

mutual

/-- A canonical form is ordered. -/
theorem ordered_canonicalize : ∀ a : Json, a.canonicalize.ordered
  | .null => rfl
  | .bool _ => rfl
  | .int _ => rfl
  | .float _ => rfl
  | .str _ => rfl
  | .arr as => by simpa [Json.canonicalize, Json.ordered] using ordered_canonicalizeItems as
  | .obj fs => by simpa [Json.canonicalize, Json.ordered] using ordered_canonicalizeFields fs

theorem ordered_canonicalizeItems : ∀ as : List Json, Json.orderedItems (Json.canonicalizeItems as)
  | [] => rfl
  | a :: as => by
      simp [Json.canonicalizeItems, Json.orderedItems, ordered_canonicalize a,
        ordered_canonicalizeItems as]

theorem ordered_canonicalizeFields : ∀ fs : List (String × Json),
    Json.orderedFields (Json.canonicalizeFields fs)
  | [] => rfl
  | f :: fs => by
      rw [Json.canonicalizeFields]
      exact orderedFields_insertField (ordered_canonicalizeField f) (ordered_canonicalizeFields fs)

theorem ordered_canonicalizeField : ∀ f : String × Json,
    Json.orderedField (Json.canonicalizeField f)
  | (_, value) => by
      simpa [Json.canonicalizeField, Json.orderedField] using ordered_canonicalize value

end

theorem canonicalize_idempotent (a : Json) : a.canonicalize.canonicalize = a.canonicalize :=
  canonicalize_ordered (ordered_canonicalize a)

theorem canonicalizeField_key (f : String × Json) : (Json.canonicalizeField f).1 = f.1 := by
  cases f
  rw [Json.canonicalizeField]

theorem insertField_perm {field : String × Json} {fs : List (String × Json)}
    (new : field.1 ∉ fs.map Prod.fst) : (insertField field fs).Perm (field :: fs) := by
  induction fs with
  | nil => rfl
  | cons f fs ih =>
    rw [List.map_cons, List.mem_cons, not_or] at new
    unfold insertField
    rw [if_neg new.1]
    split
    · rfl
    · exact ((ih new.2).cons f).trans (List.Perm.swap field f fs)

/-- The canonical fields of a map are its fields, each made canonical. -/
theorem canonicalizeFields_perm {fs : List (String × Json)} (distinct : (fs.map Prod.fst).Nodup) :
    (Json.canonicalizeFields fs).Perm (fs.map Json.canonicalizeField) := by
  induction fs with
  | nil => simp [Json.canonicalizeFields]
  | cons f fs ih =>
    rw [List.map_cons, List.nodup_cons] at distinct
    have perm := ih distinct.2
    have keys : ((Json.canonicalizeFields fs).map Prod.fst).Perm (fs.map Prod.fst) := by
      have mapped := perm.map Prod.fst
      rw [List.map_map] at mapped
      simpa [Function.comp_def, canonicalizeField_key] using mapped
    rw [Json.canonicalizeFields, List.map_cons]
    refine (insertField_perm ?_).trans (perm.cons _)
    rw [canonicalizeField_key, keys.mem_iff]
    exact distinct.1

/-- Maps have one canonical form exactly when their canonical fields are the same. -/
theorem canonicalizeFields_eq_iff {fs gs : List (String × Json)} (distinct : (fs.map Prod.fst).Nodup)
    (distinct' : (gs.map Prod.fst).Nodup) :
    Json.canonicalizeFields fs = Json.canonicalizeFields gs ↔
      (fs.map Json.canonicalizeField).Perm (gs.map Json.canonicalizeField) := by
  constructor
  · intro same
    exact (canonicalizeFields_perm distinct).symm.trans (same ▸ canonicalizeFields_perm distinct')
  · intro perm
    apply orderedFields_ext (ordered_canonicalizeFields fs) (ordered_canonicalizeFields gs)
    exact (canonicalizeFields_perm distinct).trans (perm.trans (canonicalizeFields_perm distinct').symm)

theorem distinctFields_append {fs gs : List (String × Json)} :
    Json.distinctFields (fs ++ gs) ↔ Json.distinctFields fs ∧ Json.distinctFields gs := by
  induction fs with
  | nil => simp [Json.distinctFields]
  | cons f fs ih => simp [Json.distinctFields, ih, and_assoc]

mutual

/-- Values with distinct keys agree up to key order exactly when their canonical forms are equal. -/
theorem canonicalize_eq_iff : ∀ {a b : Json}, a.distinct → b.distinct →
    (a.canonicalize = b.canonicalize ↔ a.agrees b)
  | .null, b, _, _ => by cases b <;> simp [Json.canonicalize, Json.agrees]
  | .bool _, b, _, _ => by cases b <;> simp [Json.canonicalize, Json.agrees]
  | .int _, b, _, _ => by cases b <;> simp [Json.canonicalize, Json.agrees]
  | .float _, b, _, _ => by cases b <;> simp [Json.canonicalize, Json.agrees]
  | .str _, b, _, _ => by cases b <;> simp [Json.canonicalize, Json.agrees]
  | .arr as, b, distinct, distinct' => by
      cases b with
      | arr bs =>
        rw [Json.distinct] at distinct distinct'
        rw [Json.canonicalize, Json.canonicalize, Json.agrees, Json.arr.injEq]
        exact canonicalizeItems_eq_iff distinct distinct'
      | _ => simp [Json.canonicalize, Json.agrees]
  | .obj fs, b, distinct, distinct' => by
      cases b with
      | obj gs =>
        rw [Json.distinct] at distinct distinct'
        rw [Json.canonicalize, Json.canonicalize, Json.agrees, Json.obj.injEq,
          canonicalizeFields_eq_iff distinct.1 distinct'.1]
        exact canonicalFields_perm_iff distinct.2 distinct'.2
      | _ => simp [Json.canonicalize, Json.agrees]

theorem canonicalizeItems_eq_iff : ∀ {as bs : List Json}, Json.distinctItems as →
    Json.distinctItems bs →
    (Json.canonicalizeItems as = Json.canonicalizeItems bs ↔ Json.agreesItems as bs)
  | [], bs, _, _ => by cases bs <;> simp [Json.canonicalizeItems, Json.agreesItems]
  | a :: as, [], _, _ => by simp [Json.canonicalizeItems, Json.agreesItems]
  | a :: as, b :: bs, distinct, distinct' => by
      rw [Json.distinctItems] at distinct distinct'
      simp [Json.canonicalizeItems, Json.agreesItems, canonicalize_eq_iff distinct.1 distinct'.1,
        canonicalizeItems_eq_iff distinct.2 distinct'.2]

theorem canonicalFields_perm_iff : ∀ {fs gs : List (String × Json)}, Json.distinctFields fs →
    Json.distinctFields gs →
    ((fs.map Json.canonicalizeField).Perm (gs.map Json.canonicalizeField) ↔ Json.agreesFields fs gs)
  | [], gs, _, _ => by simp [Json.agreesFields]
  | f :: fs, gs, distinct, distinct' => by
      rw [Json.distinctFields] at distinct
      rw [Json.agreesFields]
      constructor
      · intro perm
        have listed : Json.canonicalizeField f ∈ gs.map Json.canonicalizeField :=
          perm.mem_iff.mp List.mem_cons_self
        obtain ⟨g, member, same⟩ := List.mem_map.mp listed
        obtain ⟨left, right, rfl⟩ := List.append_of_mem member
        rw [distinctFields_append, Json.distinctFields] at distinct'
        refine ⟨g, left, right, rfl, ?_, ?_⟩
        · exact (canonicalizeField_eq_iff distinct.1 distinct'.2.1).mp same.symm
        · apply (canonicalFields_perm_iff distinct.2
            (distinctFields_append.mpr ⟨distinct'.1, distinct'.2.2⟩)).mp
          rw [List.map_cons, List.map_append, List.map_cons, ← same] at perm
          rw [List.map_append]
          exact (perm.trans List.perm_middle).cons_inv
      · intro matched
        obtain ⟨g, left, right, rfl, field, rest⟩ := matched
        rw [distinctFields_append, Json.distinctFields] at distinct'
        have same := (canonicalizeField_eq_iff distinct.1 distinct'.2.1).mpr field
        have perm := (canonicalFields_perm_iff distinct.2
          (distinctFields_append.mpr ⟨distinct'.1, distinct'.2.2⟩)).mpr rest
        rw [List.map_cons, List.map_append, List.map_cons, same]
        rw [List.map_append] at perm
        exact (perm.cons _).trans List.perm_middle.symm

theorem canonicalizeField_eq_iff : ∀ {f g : String × Json}, Json.distinctField f →
    Json.distinctField g → (Json.canonicalizeField f = Json.canonicalizeField g ↔ Json.agreesField f g)
  | (key, value), (key', value'), distinct, distinct' => by
      rw [Json.distinctField] at distinct distinct'
      simp [Json.canonicalizeField, Json.agreesField, canonicalize_eq_iff distinct distinct']

end

/-! ## Doubles read back -/

namespace Json

mutual

/-- The value after its doubles are read back. -/
def reread (read : Double → Double) : Json → Json
  | .float value => .float (read value)
  | .arr items => .arr (rereadItems read items)
  | .obj fields => .obj (rereadFields read fields)
  | other => other

def rereadItems (read : Double → Double) : List Json → List Json
  | [] => []
  | a :: as => reread read a :: rereadItems read as

def rereadFields (read : Double → Double) : List (String × Json) → List (String × Json)
  | [] => []
  | f :: fs => rereadField read f :: rereadFields read fs

def rereadField (read : Double → Double) : String × Json → String × Json
  | (key, value) => (key, reread read value)

end

end Json

section Reread

variable (read : Double → Double)

theorem rereadItems_eq_map (items : List Json) :
    Json.rereadItems read items = items.map (Json.reread read) := by
  induction items with
  | nil => rfl
  | cons a as ih => rw [Json.rereadItems, ih, List.map_cons]

theorem rereadFields_eq_map (fields : List (String × Json)) :
    Json.rereadFields read fields = fields.map (fun f => (f.1, f.2.reread read)) := by
  induction fields with
  | nil => rfl
  | cons f fs ih =>
    obtain ⟨key, value⟩ := f
    rw [Json.rereadFields, Json.rereadField, ih, List.map_cons]

end Reread

mutual

theorem ordered_reread (read : Double → Double) : ∀ a : Json, (a.reread read).ordered = a.ordered
  | .null => rfl
  | .bool _ => rfl
  | .int _ => rfl
  | .float _ => by simp [Json.reread, Json.ordered]
  | .str _ => rfl
  | .arr as => by simp [Json.reread, Json.ordered, ordered_rereadItems read as]
  | .obj fs => by simp [Json.reread, Json.ordered, ordered_rereadFields read fs]

theorem ordered_rereadItems (read : Double → Double) : ∀ as : List Json,
    Json.orderedItems (Json.rereadItems read as) = Json.orderedItems as
  | [] => rfl
  | a :: as => by
      simp [Json.rereadItems, Json.orderedItems, ordered_reread read a, ordered_rereadItems read as]

theorem ordered_rereadFields (read : Double → Double) : ∀ fs : List (String × Json),
    Json.orderedFields (Json.rereadFields read fs) = Json.orderedFields fs
  | [] => rfl
  | (_, value) :: [] => by
      simp [Json.rereadFields, Json.rereadField, Json.orderedFields, Json.orderedField, before,
        ordered_reread read value]
  | (_, value) :: (key, value') :: fs => by
      have rest := ordered_rereadFields read ((key, value') :: fs)
      simp only [Json.rereadFields, Json.rereadField] at rest ⊢
      rw [Json.orderedFields, rest]
      simp [Json.orderedFields, Json.orderedField, before, ordered_reread read value]

end

end Parler.Lib
