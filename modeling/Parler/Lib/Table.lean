import Mathlib.Data.List.Basic

/-!
# Keyed tables

A table is the list of its rows in insertion order. The four statements below
are the ones a keyed relational store is written with: an insert that keeps an
existing row of the same key, an insert that updates it, a conditional update
and a conditional delete. Each has one membership law, which is how the
proofs read it.
-/

namespace Parler.Lib

variable {α κ : Type}

/-- `INSERT OR IGNORE`: the row is appended unless one of the same key exists. -/
def insertNew [DecidableEq κ] (key : α → κ) (row : α) (table : List α) : List α :=
  if ∃ r ∈ table, key r = key row then table else table ++ [row]

/-- `INSERT .. ON CONFLICT(key) DO UPDATE`: an existing row of the same key is
    rewritten by `merge`, otherwise the row is appended. -/
def upsert [DecidableEq κ] (key : α → κ) (row : α) (merge : α → α) (table : List α) : List α :=
  if ∃ r ∈ table, key r = key row then
    table.map (fun r => if key r = key row then merge r else r)
  else table ++ [row]

/-- `UPDATE .. SET .. WHERE p`. -/
def updateWhere (p : α → Prop) [DecidablePred p] (f : α → α) (table : List α) : List α :=
  table.map (fun r => if p r then f r else r)

/-- `DELETE .. WHERE p`. -/
def deleteWhere (p : α → Prop) [DecidablePred p] (table : List α) : List α :=
  table.filter (fun r => ¬ p r)

theorem mem_insertNew [DecidableEq κ] {key : α → κ} {row x : α} {table : List α} :
    x ∈ insertNew key row table ↔
      x ∈ table ∨ (x = row ∧ ∀ r ∈ table, key r ≠ key row) := by
  unfold insertNew
  split
  · rename_i present
    constructor
    · exact Or.inl
    · rintro (member | ⟨rfl, absent⟩)
      · exact member
      · obtain ⟨r, member, same⟩ := present
        exact absurd same (absent r member)
  · rename_i absent
    simp only [not_exists, not_and] at absent
    simp only [List.mem_append, List.mem_singleton]
    constructor
    · rintro (member | same)
      · exact Or.inl member
      · exact Or.inr ⟨same, absent⟩
    · rintro (member | ⟨same, -⟩)
      · exact Or.inl member
      · exact Or.inr same

theorem mem_of_mem_insertNew [DecidableEq κ] {key : α → κ} {row x : α} {table : List α}
    (member : x ∈ insertNew key row table) : x ∈ table ∨ x = row := by
  rcases mem_insertNew.mp member with old | ⟨new, -⟩
  · exact Or.inl old
  · exact Or.inr new

theorem mem_insertNew_of_mem [DecidableEq κ] {key : α → κ} {row x : α} {table : List α}
    (member : x ∈ table) : x ∈ insertNew key row table :=
  mem_insertNew.mpr (Or.inl member)

/-- After an insert some row has the inserted key. -/
theorem exists_key_insertNew [DecidableEq κ] (key : α → κ) (row : α) (table : List α) :
    ∃ r ∈ insertNew key row table, key r = key row := by
  by_cases present : ∃ r ∈ table, key r = key row
  · obtain ⟨r, member, same⟩ := present
    exact ⟨r, mem_insertNew_of_mem member, same⟩
  · refine ⟨row, mem_insertNew.mpr (Or.inr ⟨rfl, ?_⟩), rfl⟩
    intro r member same
    exact present ⟨r, member, same⟩

theorem mem_updateWhere {p : α → Prop} [DecidablePred p] {f : α → α} {x : α} {table : List α} :
    x ∈ updateWhere p f table ↔
      (x ∈ table ∧ ¬ p x) ∨ ∃ r ∈ table, p r ∧ f r = x := by
  unfold updateWhere
  rw [List.mem_map]
  constructor
  · rintro ⟨r, member, rfl⟩
    by_cases hp : p r
    · exact Or.inr ⟨r, member, hp, by simp [hp]⟩
    · exact Or.inl (by simpa [hp] using member)
  · rintro (⟨member, hp⟩ | ⟨r, member, hp, rfl⟩)
    · exact ⟨x, member, by simp [hp]⟩
    · exact ⟨r, member, by simp [hp]⟩

@[simp] theorem mem_deleteWhere {p : α → Prop} [DecidablePred p] {x : α} {table : List α} :
    x ∈ deleteWhere p table ↔ x ∈ table ∧ ¬ p x := by
  simp [deleteWhere]

/-- A delete that finds nothing leaves the table as it is. -/
theorem deleteWhere_eq_self {p : α → Prop} [DecidablePred p] {table : List α} :
    deleteWhere p table = table ↔ ∀ r ∈ table, ¬ p r := by
  simp [deleteWhere, List.filter_eq_self]

theorem deleteWhere_comm {p q : α → Prop} [DecidablePred p] [DecidablePred q] (table : List α) :
    deleteWhere p (deleteWhere q table) = deleteWhere q (deleteWhere p table) := by
  unfold deleteWhere
  rw [List.filter_filter, List.filter_filter]
  refine List.filter_congr ?_
  intro r _
  rw [Bool.and_comm]

/-- A delete commutes with an update that does not change what is deleted. -/
theorem deleteWhere_updateWhere {p q : α → Prop} [DecidablePred p] [DecidablePred q] {f : α → α}
    (keeps : ∀ r, q r → (p (f r) ↔ p r)) (table : List α) :
    deleteWhere p (updateWhere q f table) = updateWhere q f (deleteWhere p table) := by
  unfold deleteWhere updateWhere
  rw [List.filter_map]
  congr 1
  refine List.filter_congr ?_
  intro r _
  by_cases updated : q r
  · simp [updated, keeps r updated]
  · simp [updated]

/-- A delete that spares the rows of a search leaves its result. -/
theorem find?_deleteWhere {p : α → Prop} [DecidablePred p] {q : α → Bool} (table : List α)
    (spared : ∀ r, q r = true → ¬ p r) : (deleteWhere p table).find? q = table.find? q := by
  unfold deleteWhere
  rw [List.find?_filter]
  congr 1
  funext r
  by_cases found : q r = true
  · simp [found, spared r found]
  · simp [found]

theorem any_deleteWhere {p : α → Prop} [DecidablePred p] {q : α → Bool} (table : List α)
    (spared : ∀ r, q r = true → ¬ p r) : (deleteWhere p table).any q = table.any q := by
  unfold deleteWhere
  rw [List.any_filter]
  congr 1
  funext r
  by_cases found : q r = true
  · simp [found, spared r found]
  · simp [found]

theorem mem_of_mem_upsert [DecidableEq κ] {key : α → κ} {row x : α} {merge : α → α}
    {table : List α} (member : x ∈ upsert key row merge table) :
    x ∈ table ∨ x = row ∨ ∃ r ∈ table, key r = key row ∧ merge r = x := by
  unfold upsert at member
  split at member
  · obtain ⟨r, old, rfl⟩ := List.mem_map.mp member
    by_cases same : key r = key row
    · exact Or.inr (Or.inr ⟨r, old, same, by simp [same]⟩)
    · exact Or.inl (by simpa [same] using old)
  · rcases List.mem_append.mp member with old | new
    · exact Or.inl old
    · exact Or.inr (Or.inl (List.mem_singleton.mp new))

/-! ## Reading by key -/

section Keyed

variable [DecidableEq κ] {key : α → κ} {row : α} {merge : α → α} {table : List α}

/-- The row of a key. -/
def rowOf (key : α → κ) (k : κ) (table : List α) : Option α := table.find? (fun r => key r = k)

theorem rowOf_mem {k : κ} {r : α} (found : rowOf key k table = some r) :
    r ∈ table ∧ key r = k := by
  refine ⟨List.mem_of_find?_eq_some found, ?_⟩
  simpa using List.find?_some found

theorem rowOf_eq_none {k : κ} : rowOf key k table = none ↔ ∀ r ∈ table, key r ≠ k := by
  simp [rowOf]

/-- An update that keeps keys acts on the row of each key. -/
theorem rowOf_map {f : α → α} {k : κ} (keeps : ∀ r, key (f r) = key r) :
    rowOf key k (table.map f) = (rowOf key k table).map f := by
  have same : (fun r => decide (key r = k)) ∘ f = fun r => decide (key r = k) :=
    funext (fun r => by rw [Function.comp_apply, keeps])
  unfold rowOf
  rw [List.find?_map, same]

theorem rowOf_updateWhere {p : α → Prop} [DecidablePred p] {f : α → α} {k : κ}
    (keeps : ∀ r, key (f r) = key r) :
    rowOf key k (updateWhere p f table) =
      (rowOf key k table).map (fun r => if p r then f r else r) := by
  refine rowOf_map ?_
  intro r
  split
  · exact keeps r
  · rfl

theorem upsert_present (keeps : ∀ r, key r = key row → key (merge r) = key row)
    (present : ∃ r ∈ table, key r = key row) {k : κ} :
    rowOf key k (upsert key row merge table) =
      (rowOf key k table).map (fun r => if key r = key row then merge r else r) := by
  unfold upsert
  rw [if_pos present]
  refine rowOf_map ?_
  intro r
  split
  · rename_i same
    rw [keeps r same, same]
  · rfl

/-- After an upsert the row of the key is the merged old row, or the new one. -/
theorem rowOf_upsert_self {k : κ} (own : key row = k)
    (keeps : ∀ r, key r = key row → key (merge r) = key row) :
    rowOf key k (upsert key row merge table) =
      some ((rowOf key k table).elim row merge) := by
  subst own
  cases found : rowOf key (key row) table with
  | some r =>
    obtain ⟨member, same⟩ := rowOf_mem found
    rw [upsert_present keeps ⟨r, member, same⟩, found]
    simp [same]
  | none =>
    have absent := rowOf_eq_none.mp found
    have none : ¬ ∃ r ∈ table, key r = key row := by
      rintro ⟨r, member, same⟩
      exact absent r member same
    unfold upsert
    rw [if_neg none]
    unfold rowOf at found ⊢
    simp [List.find?_append, found]

theorem rowOf_upsert_other {k : κ} (other : k ≠ key row)
    (keeps : ∀ r, key r = key row → key (merge r) = key row) :
    rowOf key k (upsert key row merge table) = rowOf key k table := by
  by_cases present : ∃ r ∈ table, key r = key row
  · rw [upsert_present keeps present]
    cases found : rowOf key k table with
    | none => rfl
    | some r =>
      have same := (rowOf_mem found).2
      have differ : key r ≠ key row := by rw [same]; exact other
      simp [differ]
  · unfold upsert
    rw [if_neg present]
    unfold rowOf
    simp [List.find?_append, Ne.symm other]

/-- An upsert deletes no row. -/
theorem rowOf_upsert_isSome {k : κ} (keeps : ∀ r, key r = key row → key (merge r) = key row)
    (present : (rowOf key k table).isSome) : (rowOf key k (upsert key row merge table)).isSome := by
  by_cases own : key row = k
  · rw [rowOf_upsert_self own keeps]
    rfl
  · rw [rowOf_upsert_other (Ne.symm own) keeps]
    exact present

theorem rowOf_insertNew {k : κ} : rowOf key k (insertNew key row table) =
    (rowOf key k table).or (if key row = k then some row else none) := by
  unfold insertNew
  split
  · rename_i present
    cases found : rowOf key k table with
    | some r => rfl
    | none =>
      obtain ⟨r, member, same⟩ := present
      have other : key row ≠ k := same ▸ rowOf_eq_none.mp found r member
      simp [other]
  · unfold rowOf
    rw [List.find?_append]
    congr 1
    by_cases same : key row = k <;> simp [same]

/-- A delete by key. -/
theorem rowOf_deleteWhere {p : α → Prop} [DecidablePred p] {q : κ → Prop} [DecidablePred q] {k : κ}
    (byKey : ∀ r, p r ↔ q (key r)) :
    rowOf key k (deleteWhere p table) = if q k then none else rowOf key k table := by
  split
  · rename_i gone
    rw [rowOf_eq_none]
    rintro r member rfl
    exact (mem_deleteWhere.mp member).2 ((byKey r).mpr gone)
  · rename_i kept
    unfold rowOf deleteWhere
    rw [List.find?_filter]
    congr 1
    funext r
    by_cases same : key r = k
    · simp [same, byKey, kept]
    · simp [same]

omit [DecidableEq κ] in
theorem exists_key_deleteWhere {p : α → Prop} [DecidablePred p] {k : κ}
    (spared : ∀ r, key r = k → ¬ p r) :
    (∃ r ∈ deleteWhere p table, key r = k) ↔ ∃ r ∈ table, key r = k := by
  constructor
  · rintro ⟨r, member, same⟩
    exact ⟨r, (mem_deleteWhere.mp member).1, same⟩
  · rintro ⟨r, member, same⟩
    exact ⟨r, mem_deleteWhere.mpr ⟨member, spared r same⟩, same⟩

/-- A delete that spares the key of an insert commutes with it. -/
theorem deleteWhere_insertNew {p : α → Prop} [DecidablePred p]
    (spared : ∀ r, key r = key row → ¬ p r) :
    deleteWhere p (insertNew key row table) = insertNew key row (deleteWhere p table) := by
  unfold insertNew
  rw [if_congr (exists_key_deleteWhere spared) rfl rfl]
  split
  · rfl
  · simp [deleteWhere, spared row rfl]

/-- A delete that spares the key of an upsert commutes with it. -/
theorem deleteWhere_upsert {p : α → Prop} [DecidablePred p]
    (spared : ∀ r, key r = key row → ¬ p r)
    (keeps : ∀ r, key r = key row → key (merge r) = key row) :
    deleteWhere p (upsert key row merge table) = upsert key row merge (deleteWhere p table) := by
  unfold upsert
  rw [if_congr (exists_key_deleteWhere spared) rfl rfl]
  split
  · unfold deleteWhere
    rw [List.filter_map]
    congr 1
    refine List.filter_congr ?_
    intro r _
    by_cases same : key r = key row
    · simp [same, spared r same, spared (merge r) (keeps r same)]
    · simp [same]
  · simp [deleteWhere, spared row rfl]

/-- A delete of the key of an upsert undoes it. -/
theorem deleteWhere_upsert_own {p : α → Prop} [DecidablePred p]
    (own : ∀ r, key r = key row → p r)
    (keeps : ∀ r, key r = key row → key (merge r) = key row) :
    deleteWhere p (upsert key row merge table) = deleteWhere p table := by
  unfold upsert
  split
  · have step : ∀ r, (¬ p (if key r = key row then merge r else r)) ↔ ¬ p r := by
      intro r
      by_cases same : key r = key row
      · simp [same, own r same, own (merge r) (keeps r same)]
      · simp [same]
    unfold deleteWhere
    rw [List.filter_map]
    simp only [Function.comp_def, step]
    refine (List.map_congr_left ?_).trans (List.map_id _)
    intro r member
    have kept : ¬ p r := by simpa using (List.mem_filter.mp member).2
    exact if_neg (fun same => kept (own r same))
  · simp [deleteWhere, own row rfl]

/-- After an upsert that overwrites, the new row is the only one of its key. -/
theorem eq_of_mem_upsert {x : α} (member : x ∈ upsert key row (fun _ => row) table)
    (same : key x = key row) : x = row := by
  unfold upsert at member
  split at member
  · obtain ⟨r, -, rfl⟩ := List.mem_map.mp member
    by_cases own : key r = key row
    · simp [own]
    · rw [if_neg own] at same
      exact absurd same own
  · rename_i absent
    rcases List.mem_append.mp member with old | new
    · exact absurd ⟨x, old, same⟩ absent
    · exact List.mem_singleton.mp new

theorem nodup_upsert (keeps : ∀ r, key r = key row → key (merge r) = key row)
    (nodup : (table.map key).Nodup) : ((upsert key row merge table).map key).Nodup := by
  unfold upsert
  split
  · rw [List.map_map]
    have same : (key ∘ fun r => if key r = key row then merge r else r) = key := by
      funext r
      simp only [Function.comp_apply]
      split
      · rename_i same
        rw [keeps r same, same]
      · rfl
    rw [same]
    exact nodup
  · rename_i absent
    rw [List.map_append, List.nodup_append]
    refine ⟨nodup, by simp, ?_⟩
    intro k old l new equal
    simp only [List.map_cons, List.map_nil, List.mem_singleton] at new
    obtain ⟨r, member, rfl⟩ := List.mem_map.mp old
    exact absent ⟨r, member, equal.trans new⟩

omit [DecidableEq κ] in
theorem nodup_updateWhere {p : α → Prop} [DecidablePred p] {f : α → α}
    (keeps : ∀ r, key (f r) = key r) (nodup : (table.map key).Nodup) :
    ((updateWhere p f table).map key).Nodup := by
  unfold updateWhere
  rw [List.map_map]
  have same : (key ∘ fun r => if p r then f r else r) = key := by
    funext r
    simp only [Function.comp_apply]
    split
    · exact keeps r
    · rfl
  rw [same]
  exact nodup

theorem nodup_insertNew (nodup : (table.map key).Nodup) :
    ((insertNew key row table).map key).Nodup := by
  unfold insertNew
  split
  · exact nodup
  · rename_i absent
    rw [List.map_append, List.nodup_append]
    refine ⟨nodup, by simp, ?_⟩
    intro k old l new equal
    simp only [List.map_cons, List.map_nil, List.mem_singleton] at new
    obtain ⟨r, member, rfl⟩ := List.mem_map.mp old
    exact absent ⟨r, member, equal.trans new⟩

omit [DecidableEq κ] in
theorem nodup_deleteWhere {p : α → Prop} [DecidablePred p] (nodup : (table.map key).Nodup) :
    ((deleteWhere p table).map key).Nodup :=
  nodup.sublist (List.filter_sublist.map key)

/-- In a table with unique keys a row is the row of its key. -/
theorem rowOf_of_mem (nodup : (table.map key).Nodup) {r : α} (member : r ∈ table) :
    rowOf key (key r) table = some r := by
  induction table with
  | nil => simp at member
  | cons x rest ih =>
    simp only [List.map_cons, List.nodup_cons] at nodup
    rcases List.mem_cons.mp member with rfl | old
    · simp [rowOf]
    · have differ : key x ≠ key r := by
        intro same
        exact nodup.1 (same ▸ List.mem_map_of_mem old)
      have found := ih nodup.2 old
      unfold rowOf at found ⊢
      simp [differ, found]

/-- In a table with unique keys a delete keeps the row of a key or leaves none. -/
theorem rowOf_deleteWhere_cases (nodup : (table.map key).Nodup) {p : α → Prop} [DecidablePred p]
    (k : κ) : rowOf key k (deleteWhere p table) = rowOf key k table ∨
      rowOf key k (deleteWhere p table) = none := by
  cases found : rowOf key k (deleteWhere p table) with
  | none => exact Or.inr rfl
  | some r =>
    obtain ⟨member, rfl⟩ := rowOf_mem found
    rw [rowOf_of_mem nodup (mem_deleteWhere.mp member).1]
    exact Or.inl rfl

/-- In a table with unique keys, a selection within one key is its row or nothing. -/
theorem filter_within_key (nodup : (table.map key).Nodup) {p : α → Prop} [DecidablePred p] {k : κ}
    (within : ∀ r, p r → key r = k) :
    table.filter (fun r => p r) = ((rowOf key k table).filter (fun r => p r)).toList := by
  induction table with
  | nil => rfl
  | cons x rest ih =>
    simp only [List.map_cons, List.nodup_cons] at nodup
    by_cases same : key x = k
    · have none : rest.filter (fun r => p r) = [] := by
        rw [List.filter_eq_nil_iff]
        intro r member holds
        have equal : key r = k := within r (by simpa using holds)
        exact nodup.1 (same ▸ equal ▸ List.mem_map_of_mem member)
      have found : rowOf key k (x :: rest) = some x := by simp [rowOf, same]
      rw [found, List.filter_cons, none]
      by_cases holds : p x <;> simp [Option.filter, holds]
    · have fails : ¬ p x := fun holds => same (within x holds)
      have rest := ih nodup.2
      unfold rowOf at rest ⊢
      simp [same, fails, rest]

end Keyed

end Parler.Lib
