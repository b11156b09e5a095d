import Parler.Cli.ConfigMerges

/-!
# Lists in configs

What an edit of an array under two keys of a config, such as the rules or the hooks of Claude, leaves of the
document: its items are edited in place, or items are taken out of it and what is then empty goes.
-/

namespace Parler.Cli

open Parler.Lib Parler.Protocol

/-! ## An edit -/

/-- What an object with these items becomes. -/
inductive Edited (outer inner : String) (edit : List Value → List Value) (obj : Map) (items : List Value) :
    Value → Prop
  | put {holder : Map} (there : (obj.lookup outer).getD Map.empty.toValue = holder.toValue)
      (listed : (holder.lookup inner).getD (.arr []) = .arr items) :
      Edited outer inner edit obj items
        (obj.insert outer (holder.insert inner (.arr (edit items))).toValue).toValue

theorem listAt_toValue (obj : Map) (outer inner : String) : listAt obj.toValue outer inner =
    (((obj.lookup outer).bind Value.asObject).bind (fun holder => holder.lookup inner)).bind Value.asArray := rfl

theorem listAt_eq_some {root : Value} {outer inner : String} {items : List Value}
    (found : listAt root outer inner = some items) :
    ∃ obj holder : Map, root = obj.toValue ∧ obj.lookup outer = some holder.toValue ∧
      holder.lookup inner = some (.arr items) := by
  obtain ⟨array, held, items⟩ := Option.bind_eq_some_iff.mp found
  obtain ⟨holder, object, listed⟩ := Option.bind_eq_some_iff.mp held
  obtain ⟨obj, rfl, there⟩ := objectAt_some object
  exact ⟨obj, holder, rfl, there, by rw [listed, Value.asArray_eq_some.mp items]⟩

theorem listAt_of_objectAt {root : Value} {outer inner : String} {holder : Map}
    (object : objectAt root outer = some holder) :
    listAt root outer inner = (holder.lookup inner).bind Value.asArray := by
  unfold listAt
  rw [object, Option.bind_some]

section Edit

variable {path outer inner : String} {edit : List Value → List Value} {root w : Value}

theorem editList_ok (edited : editList path outer inner edit root = .ok w) :
    ∃ obj items, root = obj.toValue ∧ Edited outer inner edit obj items w := by
  unfold editList at edited
  cases object : root.asObject with
  | none =>
    rw [object] at edited
    cases edited
  | some obj =>
    rw [object] at edited
    dsimp only at edited
    cases held : ((obj.lookup outer).getD Map.empty.toValue).asObject with
    | none =>
      rw [held] at edited
      cases edited
    | some holder =>
      rw [held] at edited
      dsimp only at edited
      cases listed : ((holder.lookup inner).getD (.arr [])).asArray with
      | none =>
        rw [listed] at edited
        cases edited
      | some items =>
        rw [listed] at edited
        cases edited
        exact ⟨obj, items, Value.asObject_eq_some.mp object,
          .put (Value.asObject_eq_some.mp held) (Value.asArray_eq_some.mp listed)⟩

end Edit

/-- The document is an object with an object or nothing as `outer`, and an array or nothing as `inner` in it. -/
def Listable (outer inner : String) (v : Value) : Prop :=
  ∃ obj, v.asObject = some obj ∧ ∀ s, obj.lookup outer = some s →
    ∃ holder, s.asObject = some holder ∧ ∀ a, holder.lookup inner = some a → a.asArray.isSome

theorem listable_iff {path outer inner : String} {edit : List Value → List Value} {v : Value} :
    Listable outer inner v ↔ ∃ w, editList path outer inner edit v = .ok w := by
  unfold Listable editList
  cases v.asObject with
  | none =>
    constructor
    · rintro ⟨obj, object, -⟩
      cases object
    · rintro ⟨w, edited⟩
      cases edited
  | some obj =>
    cases found : obj.lookup outer with
    | none => simp [found]
    | some s =>
      cases object : s.asObject with
      | none => simp [found, object]
      | some holder =>
        cases listed : holder.lookup inner with
        | none => simp [found, object, listed]
        | some a => cases array : a.asArray <;> simp [found, object, listed, array]

namespace Edited

variable {outer inner : String} {edit : List Value → List Value} {obj : Map} {items : List Value} {w : Value}

/-- The items that were there. -/
theorem items_before (edited : Edited outer inner edit obj items w) :
    (listAt obj.toValue outer inner).getD [] = items := by
  obtain ⟨there, listed⟩ := edited
  rw [listAt_toValue]
  cases found : obj.lookup outer with
  | none =>
    rw [found, Option.getD_none] at there
    obtain rfl := Value.toValue_injective there
    exact Value.arr_injective listed
  | some v =>
    rw [found, Option.getD_some] at there
    rw [there, Option.bind_some, Value.asObject_toValue, Option.bind_some]
    cases held : Map.lookup _ inner with
    | none =>
      rw [held, Option.getD_none] at listed
      exact Value.arr_injective listed
    | some array =>
      rw [held, Option.getD_some] at listed
      rw [listed, Option.bind_some, Value.asArray_arr]
      rfl

theorem object (edited : Edited outer inner edit obj items w) : ∃ obj' holder : Map, w = obj'.toValue ∧
    obj'.lookup outer = some holder.toValue ∧ holder.lookup inner = some (.arr (edit items)) := by
  obtain @⟨holder, there, listed⟩ := edited
  refine ⟨_, holder.insert inner (.arr (edit items)), rfl, ?_, ?_⟩
  · rw [Map.lookup_insert, if_pos rfl]
  · rw [Map.lookup_insert, if_pos rfl]

theorem items_after (edited : Edited outer inner edit obj items w) :
    listAt w outer inner = some (edit items) := by
  obtain ⟨obj', holder, rfl, held, listed⟩ := edited.object
  rw [listAt_toValue, held, Option.bind_some, Value.asObject_toValue, Option.bind_some, listed, Option.bind_some,
    Value.asArray_arr]

/-- Besides the items, every path ends where it did. -/
theorem frame (edited : Edited outer inner edit obj items w) {p : JsonPath}
    (parted : Diverge [.key outer, .key inner] p) : w.valueAt p = obj.toValue.valueAt p := by
  obtain ⟨there, -⟩ := edited
  refine Map.valueAt_insert there ?_ parted
  intro rest parted
  exact Map.valueAt_insert rfl (fun _ parted => absurd parted (not_diverge_nil _)) parted

/-- The holder of the items is as the object has it. -/
theorem numbers (edited : Edited outer inner edit obj items w)
    (pushed : ∀ v ∈ edit items, v ∈ items ∨ v.numbers = ∅) : w.numbers ⊆ obj.toValue.numbers := by
  obtain @⟨holder, there, listed⟩ := edited
  have outside : holder.toValue.numbers ⊆ obj.toValue.numbers := by
    cases found : obj.lookup outer with
    | none =>
      rw [found, Option.getD_none] at there
      rw [← there, Value.numbers_empty]
      exact Set.empty_subset _
    | some v =>
      rw [found, Option.getD_some] at there
      exact Value.numbers_lookup (there ▸ found)
  have inside : (Value.arr items).numbers ⊆ holder.toValue.numbers := by
    cases found : holder.lookup inner with
    | none =>
      rw [found, Option.getD_none] at listed
      intro n member
      rw [← listed] at member
      obtain ⟨v, empty, -⟩ := Value.numbers_arr.mp member
      cases empty
    | some v =>
      rw [found, Option.getD_some] at listed
      exact Value.numbers_lookup (listed ▸ found)
  intro n member
  rcases Value.numbers_insert member with member | old
  · rcases Value.numbers_insert member with item | old
    · obtain ⟨v, there, within⟩ := Value.numbers_arr.mp item
      rcases pushed v there with before | plain
      · exact outside (inside (Value.numbers_arr.mpr ⟨v, before, within⟩))
      · rw [plain] at within
        exact absurd within (Set.notMem_empty n)
    · exact outside old
  · exact old

theorem depth (edited : Edited outer inner edit obj items w) (bounded : obj.toValue.depth ≤ 127)
    (pushed : ∀ v ∈ edit items, v ∈ items ∨ v.depth ≤ 124) : w.depth ≤ 127 := by
  obtain @⟨holder, there, listed⟩ := edited
  have outside : holder.toValue.depth ≤ 126 := by
    cases found : obj.lookup outer with
    | none =>
      rw [found, Option.getD_none] at there
      rw [← there]
      show 1 ≤ 126
      omega
    | some v =>
      rw [found, Option.getD_some] at there
      exact Map.depth_lookup (there ▸ found) bounded
  have inside : (Value.arr items).depth ≤ 125 := by
    cases found : holder.lookup inner with
    | none =>
      rw [found, Option.getD_none] at listed
      rw [← listed]
      show 1 ≤ 125
      omega
    | some v =>
      rw [found, Option.getD_some] at listed
      exact Map.depth_lookup (listed ▸ found) outside
  refine Map.depth_insert bounded (Map.depth_insert outside (Value.depth_arr.mpr ?_))
  intro v there
  rcases pushed v there with before | shallow
  · exact Value.depth_arr.mp inside v before
  · exact shallow

/-- What is put in is read as it is printed. -/
theorem readable (edited : Edited outer inner edit obj items w) (bounded : obj.toValue.Readable)
    (pushed : ∀ v ∈ edit items, v ∈ items ∨ v.depth ≤ 124 ∧ v.numbers = ∅) : w.Readable :=
  bounded.of_numbers (edited.depth bounded.depth (fun v there => (pushed v there).imp_right And.left))
    (edited.numbers (fun v there => (pushed v there).imp_right And.right))

end Edited

/-! ## A removal -/

/-- Nothing is taken out only where every item is kept. -/
theorem trimList_none_iff {outer inner : String} {keep : Value → Bool} {root : Value} :
    trimList outer inner keep root = none ↔ ∀ item ∈ (listAt root outer inner).getD [], keep item = true := by
  unfold trimList
  cases listAt root outer inner with
  | none => simp
  | some items =>
    dsimp only
    rw [Option.getD_some, ← List.filter_eq_self]
    split
    · rename_i same
      simp [List.filter_sublist.eq_of_length same]
    · rename_i fewer
      simp only [reduceCtorEq, false_iff]
      intro same
      exact fewer (congrArg List.length same)

/-- Items are taken out, and what contained nothing else goes. -/
theorem trimList_trims {outer inner : String} {keep : Value → Bool} {root root' : Value}
    (removed : trimList outer inner keep root = some root') :
    Value.Trims (Diverge [.key outer, .key inner]) root root' ∧ root'.asObject.isSome ∧
      (listAt root' outer inner).getD [] = ((listAt root outer inner).getD []).filter keep := by
  unfold trimList at removed
  cases found : listAt root outer inner with
  | none =>
    rw [found] at removed
    cases removed
  | some items =>
    rw [found] at removed
    dsimp only at removed
    rw [Option.getD_some]
    set kept := items.filter keep
    split at removed
    · cases removed
    · obtain ⟨obj, holder, rfl, there, listed⟩ := listAt_eq_some found
      have object : objectAt obj.toValue outer = some holder := by
        unfold objectAt
        rw [Value.asObject_toValue, Option.bind_some, there]
        rfl
      set root₁ := modifyObject obj.toValue outer (fun m => m.insert inner (.arr kept))
      have object₁ : objectAt root₁ outer = some (holder.insert inner (.arr kept)) := modifyObject_at object
      have items₁ : listAt root₁ outer inner = some kept := by
        rw [listAt_of_objectAt object₁, Map.lookup_insert, if_pos rfl, Option.bind_some, Value.asArray_arr]
      have trims₁ : Value.Trims (Diverge [.key outer, .key inner]) obj.toValue root₁ := by
        apply modifyObject_trims
        intro m held
        obtain rfl : holder = m := Option.some.inj (object.symm.trans held)
        exact Value.Trims.insert listed (Value.Trims.filter items _) (Value.depth_container_arr items)
      have whole₁ : root₁.asObject.isSome := modifyObject_object rfl
      -- The array goes when nothing is left in it, and with it an object that holds nothing else.
      set root₂ := if kept.isEmpty then modifyObject root₁ outer (fun m => m.remove inner) else root₁ with trimmed
      have second : Value.Trims (Diverge [.key outer, .key inner]) root₁ root₂ ∧ root₂.asObject.isSome ∧
          (listAt root₂ outer inner).getD [] = kept := by
        by_cases none_left : kept.isEmpty = true
        · rw [trimmed, if_pos none_left]
          refine ⟨modifyObject_trims (fun m _ => Value.Trims.remove m inner), modifyObject_object whole₁, ?_⟩
          rw [listAt_of_objectAt (modifyObject_at object₁), Map.lookup_remove, if_pos rfl,
            List.isEmpty_iff.mp none_left]
          rfl
        · rw [trimmed, if_neg none_left, items₁]
          exact ⟨.refl _ _, whole₁, rfl⟩
      obtain ⟨trims₂, whole₂, items₂⟩ := second
      rw [← Option.some.inj removed]
      by_cases emptied : objectAt root₂ outer = some Map.empty
      · rw [if_pos emptied]
        refine ⟨(trims₁.trans trims₂).trans (dropKey_trims emptied _), dropKey_object whole₂, ?_⟩
        rw [← items₂, listAt_of_objectAt emptied]
        obtain ⟨obj', whole, -⟩ := objectAt_some emptied
        rw [whole]
        show (((((obj'.remove outer).lookup outer).bind Value.asObject).bind
          (fun m => m.lookup inner)).bind Value.asArray).getD [] = _
        rw [Map.lookup_remove, if_pos rfl]
        rfl
      · rw [if_neg emptied]
        exact ⟨trims₁.trans trims₂, whole₂, items₂⟩

end Parler.Cli
