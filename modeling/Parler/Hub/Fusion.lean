import Mathlib.Algebra.Order.BigOperators.Group.List
import Mathlib.Algebra.Order.Field.Rat
import Mathlib.Tactic.Linarith
import Mathlib.Tactic.Positivity
import Parler.Hub.Recall
import Parler.Lib.Ranking
import Parler.Lib.Slices

/-!
# The fusion of two rankings

`rrf_fuse` adds up the shares of the facts in a hash map and sorts what `into_values` yields. A hit
carries no id, so the map is keyed by what `hit_key` makes of the hit: the author, the time, the room
and the first 128 bytes of the text.
-/

namespace Parler.Hub

open Parler.Lib Parler.Protocol

/-! ## Keys -/

/-- `hit_key` returns exactly for the texts that can be sliced at byte 128. -/
theorem hitKey_isSome {hit : RecallHit} : (hitKey hit).isSome ↔ SlicesAt 128 hit.text := by
  unfold hitKey
  dsimp only
  rw [Option.isSome_map]
  exact fromUTF8?_take_isSome

/-- The fact of a hit: the hit without its score. -/
def factOf (hit : RecallHit) : RecallHit := { hit with score := 0 }

theorem factOf_rescored (hit : RecallHit) (score : Rat) :
    factOf { hit with score := score } = factOf hit := rfl

/-- The key of a hit is a key of its fact. -/
theorem hitKey_factOf (hit : RecallHit) : hitKey (factOf hit) = hitKey hit := rfl

theorem hitKey_of_factOf {hit hit' : RecallHit} (same : factOf hit = factOf hit') :
    hitKey hit = hitKey hit' := by
  rw [← hitKey_factOf hit, same, hitKey_factOf]

/-! ## The scores -/

/-- The hits of both lists with their ranks, in the order in which they are added up. -/
def entriesOf (fts vec : List RecallHit) : List (RecallHit × Nat) := fts.zipIdx ++ vec.zipIdx

theorem mem_of_entry {fts vec : List RecallHit} {e : RecallHit × Nat}
    (listed : e ∈ entriesOf fts vec) : e.1 ∈ fts ++ vec := by
  rcases List.mem_append.mp listed with first | second
  · exact List.mem_append_left _ (List.fst_mem_of_mem_zipIdx first)
  · exact List.mem_append_right _ (List.fst_mem_of_mem_zipIdx second)

theorem exists_entry {fts vec : List RecallHit} {hit : RecallHit} (listed : hit ∈ fts ++ vec) :
    ∃ e ∈ entriesOf fts vec, e.1 = hit := by
  have among : ∀ l : List RecallHit, hit ∈ l → ∃ e ∈ l.zipIdx, e.1 = hit := by
    intro l member
    obtain ⟨i, short, rfl⟩ := List.mem_iff_getElem.mp member
    exact ⟨(l[i], i), List.mem_zipIdx_iff_getElem?.mpr (by simp [short]), rfl⟩
  rcases List.mem_append.mp listed with first | second
  · obtain ⟨e, member, same⟩ := among fts first
    exact ⟨e, List.mem_append_left _ member, same⟩
  · obtain ⟨e, member, same⟩ := among vec second
    exact ⟨e, List.mem_append_right _ member, same⟩

/-- What a rank is worth. -/
def share (rank : Nat) : Rat := 1 / (rrfK + rank + 1)

theorem share_pos (rank : Nat) : 0 < share rank := by
  unfold share
  positivity

/-- The shares of the entries that `p` selects, added up. -/
def sumOf (p : RecallHit → Bool) (entries : List (RecallHit × Nat)) : Rat :=
  ((entries.filter (fun e => p e.1)).map (fun e => share e.2)).sum

/-- What a key is worth. -/
def keyScore (entries : List (RecallHit × Nat)) (key : String) : Rat :=
  sumOf (fun hit => hitKey hit = some key) entries

/-- The fused score of a fact: what its ranks are worth. -/
def fusedScore (entries : List (RecallHit × Nat)) (fact : RecallHit) : Rat :=
  sumOf (fun hit => factOf hit = fact) entries

theorem sumOf_append (p : RecallHit → Bool) (entries entries' : List (RecallHit × Nat)) :
    sumOf p (entries ++ entries') = sumOf p entries + sumOf p entries' := by
  simp [sumOf]

theorem sumOf_single (p : RecallHit → Bool) (e : RecallHit × Nat) :
    sumOf p [e] = if p e.1 then share e.2 else 0 := by
  unfold sumOf
  cases selected : p e.1 <;> simp [selected]

theorem sumOf_none {p : RecallHit → Bool} {entries : List (RecallHit × Nat)}
    (none : ∀ e ∈ entries, p e.1 = false) : sumOf p entries = 0 := by
  unfold sumOf
  rw [List.filter_eq_nil_iff.mpr]
  · rfl
  · intro e listed
    simp [none e listed]

theorem sumOf_congr {p q : RecallHit → Bool} {entries : List (RecallHit × Nat)}
    (same : ∀ e ∈ entries, p e.1 = q e.1) : sumOf p entries = sumOf q entries := by
  unfold sumOf
  rw [List.filter_congr same]

theorem sumOf_nonneg (p : RecallHit → Bool) (entries : List (RecallHit × Nat)) :
    0 ≤ sumOf p entries := by
  apply List.sum_nonneg
  intro x listed
  obtain ⟨e, -, rfl⟩ := List.mem_map.mp listed
  exact (share_pos e.2).le

theorem sumOf_pos {p : RecallHit → Bool} {entries : List (RecallHit × Nat)} {e : RecallHit × Nat}
    (listed : e ∈ entries) (selected : p e.1 = true) : 0 < sumOf p entries := by
  obtain ⟨before, after, rfl⟩ := List.append_of_mem listed
  rw [← List.singleton_append, sumOf_append, sumOf_append, sumOf_single, if_pos selected]
  have positive := share_pos e.2
  have first := sumOf_nonneg p before
  have last := sumOf_nonneg p after
  linarith

/-- A wider selection is worth what the narrower one is, and the rest of it. -/
theorem sumOf_split {p q : RecallHit → Bool} (wider : ∀ hit, p hit = true → q hit = true)
    (entries : List (RecallHit × Nat)) :
    sumOf q entries = sumOf p entries + sumOf (fun hit => q hit && !p hit) entries := by
  induction entries with
  | nil => simp [sumOf]
  | cons e entries ih =>
    rw [← List.singleton_append, sumOf_append, sumOf_append, sumOf_append, ih, sumOf_single,
      sumOf_single, sumOf_single]
    cases narrow : p e.1 with
    | true =>
      simp [wider e.1 narrow, add_assoc]
    | false =>
      simp [add_left_comm]

/-! ## The score map -/

/-- The score map of `rrf_fuse`; `none` is a panic. -/
def rrfScores (fts vec : List RecallHit) : Option (List (String × RecallHit)) := do
  let first ← rrfAddAll fts []
  rrfAddAll vec first

/-- What the map holds once the entries are added: for each key the first hit of that key, with what
    the key is worth. -/
structure Scored (entries : List (RecallHit × Nat)) (scores : List (String × RecallHit)) : Prop where
  keys : (scores.map Prod.fst).Nodup
  row : ∀ key, rowOf Prod.fst key scores =
    (entries.find? (fun e => hitKey e.1 = some key)).map
      (fun e => (key, { e.1 with score := keyScore entries key }))

theorem Scored.add {entries : List (RecallHit × Nat)} {scores : List (String × RecallHit)}
    (scored : Scored entries scores) {hit : RecallHit} {key : String} (keyed : hitKey hit = some key)
    (rank : Nat) : Scored (entries ++ [(hit, rank)]) (rrfAdd scores key hit rank) := by
  have keeps : ∀ r : String × RecallHit, r.1 = key →
      (r.1, { r.2 with score := r.2.score + share rank }).1 = key := fun _ same => same
  refine ⟨nodup_upsert keeps scored.keys, ?_⟩
  intro other
  have worth : keyScore (entries ++ [(hit, rank)]) other =
      keyScore entries other + if key = other then share rank else 0 := by
    rw [keyScore, sumOf_append, sumOf_single, keyed]
    simp [keyScore]
  rw [worth, List.find?_append]
  by_cases same : other = key
  · subst same
    have row : rowOf Prod.fst other (rrfAdd scores other hit rank) = _ := rowOf_upsert_self rfl keeps
    rw [row, scored.row other]
    cases found : entries.find? (fun e => hitKey e.1 = some other) with
    | none =>
      have nothing : keyScore entries other = 0 := by
        apply sumOf_none
        intro e listed
        simpa using List.find?_eq_none.mp found e listed
      simp [keyed, nothing, share]
    | some e => simp [share]
  · have row : rowOf Prod.fst other (rrfAdd scores key hit rank) = _ := rowOf_upsert_other same keeps
    have apart : ¬ key = other := fun equal => same equal.symm
    rw [row, scored.row other]
    simp [keyed, apart]

/-- The run lemma: the map is built unless some text cannot be sliced. -/
theorem scored_foldlM {done rest : List (RecallHit × Nat)} {scores : List (String × RecallHit)}
    (scored : Scored done scores) :
    (∀ out, rest.foldlM (fun acc (e : RecallHit × Nat) =>
        (hitKey e.1).map (fun key => rrfAdd acc key e.1 e.2)) scores = some out →
      Scored (done ++ rest) out) ∧
    ((rest.foldlM (fun acc (e : RecallHit × Nat) =>
        (hitKey e.1).map (fun key => rrfAdd acc key e.1 e.2)) scores).isSome ↔
      ∀ e ∈ rest, (hitKey e.1).isSome) := by
  induction rest generalizing done scores with
  | nil =>
    rw [List.append_nil]
    refine ⟨?_, by simp⟩
    rintro out ⟨⟩
    exact scored
  | cons e rest ih =>
    rw [List.foldlM_cons]
    cases keyed : hitKey e.1 with
    | none => simp [keyed]
    | some key =>
      obtain ⟨built, total⟩ := ih (scored.add keyed e.2)
      rw [List.append_assoc, List.singleton_append] at built
      refine ⟨built, ?_⟩
      simpa [keyed] using total

theorem rrfScores_eq (fts vec : List RecallHit) :
    rrfScores fts vec = (entriesOf fts vec).foldlM (fun acc (e : RecallHit × Nat) =>
      (hitKey e.1).map (fun key => rrfAdd acc key e.1 e.2)) [] := by
  rw [entriesOf, List.foldlM_append]
  rfl

variable {fts vec : List RecallHit} {limit : Nat} {scores : List (String × RecallHit)}

theorem scored_empty : Scored [] [] := ⟨List.nodup_nil, fun _ => rfl⟩

theorem rrfScores_scored (built : rrfScores fts vec = some scores) :
    Scored (entriesOf fts vec) scores := by
  rw [rrfScores_eq] at built
  exact (scored_foldlM scored_empty).1 scores built

/-- The fusion panics when a text cannot be sliced. -/
theorem rrfScores_isSome :
    (rrfScores fts vec).isSome ↔ ∀ hit ∈ fts ++ vec, SlicesAt 128 hit.text := by
  rw [rrfScores_eq, (scored_foldlM scored_empty).2]
  constructor
  · intro keyed hit listed
    obtain ⟨e, member, rfl⟩ := exists_entry listed
    exact hitKey_isSome.mp (keyed e member)
  · intro slices e listed
    exact hitKey_isSome.mpr (slices e.1 (mem_of_entry listed))

/-- The keys of the hits. -/
def keysOf (fts vec : List RecallHit) : List String := ((fts ++ vec).filterMap hitKey).dedup

theorem mem_keysOf {key : String} :
    key ∈ keysOf fts vec ↔ ∃ hit ∈ fts ++ vec, hitKey hit = some key := by
  rw [keysOf, List.mem_dedup, List.mem_filterMap]

/-- The entry of the map under a key. -/
theorem exists_score (built : rrfScores fts vec = some scores) {key : String}
    (listed : key ∈ keysOf fts vec) : ∃ hit ∈ fts ++ vec, hitKey hit = some key ∧
      (key, { hit with score := keyScore (entriesOf fts vec) key }) ∈ scores := by
  obtain ⟨hit, member, keyed⟩ := mem_keysOf.mp listed
  obtain ⟨e, entry, rfl⟩ := exists_entry member
  have row := (rrfScores_scored built).row key
  cases found : (entriesOf fts vec).find? (fun e => hitKey e.1 = some key) with
  | none =>
    have other := List.find?_eq_none.mp found e entry
    simp [keyed] at other
  | some first =>
    rw [found] at row
    have same := List.find?_some found
    exact ⟨first.1, mem_of_entry (List.mem_of_find?_eq_some found), by simpa using same,
      (rowOf_mem row).1⟩

theorem score_spec (built : rrfScores fts vec = some scores) {s : String × RecallHit}
    (member : s ∈ scores) : s.1 ∈ keysOf fts vec ∧ hitKey s.2 = some s.1 ∧
      s.2.score = keyScore (entriesOf fts vec) s.1 ∧ ∃ hit ∈ fts ++ vec, factOf hit = factOf s.2 := by
  have scored := rrfScores_scored built
  have row := scored.row s.1
  rw [rowOf_of_mem scored.keys member] at row
  obtain ⟨e, found, same⟩ := Option.map_eq_some_iff.mp row.symm
  have keyed : hitKey e.1 = some s.1 := by simpa using List.find?_some found
  have listed := mem_of_entry (List.mem_of_find?_eq_some found)
  rw [← same]
  exact ⟨mem_keysOf.mpr ⟨e.1, listed, keyed⟩, keyed, rfl, e.1, listed, rfl⟩

theorem keys_perm (built : rrfScores fts vec = some scores) :
    (scores.map Prod.fst).Perm (keysOf fts vec) := by
  apply (List.perm_ext_iff_of_nodup (rrfScores_scored built).keys (List.nodup_dedup _)).mpr
  intro key
  rw [List.mem_map]
  constructor
  · rintro ⟨s, member, rfl⟩
    exact (score_spec built member).1
  · intro listed
    obtain ⟨hit, -, -, member⟩ := exists_score built listed
    exact ⟨_, member, rfl⟩

/-- A hit of the map is known by its fact. -/
theorem eq_of_factOf (built : rrfScores fts vec = some scores) {s s' : String × RecallHit}
    (member : s ∈ scores) (member' : s' ∈ scores) (same : hitKey s.2 = hitKey s'.2) : s = s' := by
  have keyed := (score_spec built member).2.1
  have keyed' := (score_spec built member').2.1
  have keys : s.1 = s'.1 := by
    rw [keyed, keyed'] at same
    exact Option.some.inj same
  exact List.inj_on_of_nodup_map (rrfScores_scored built).keys member member' keys

/-- How many keys are worth more. -/
def keysAbove (fts vec : List RecallHit) (key : String) : Nat :=
  above (keyScore (entriesOf fts vec)) (keysOf fts vec) key

theorem above_scores (built : rrfScores fts vec = some scores) {s : String × RecallHit}
    (member : s ∈ scores) :
    above RecallHit.score (scores.map Prod.snd) s.2 = keysAbove fts vec s.1 := by
  rw [keysAbove, ← above_perm (keys_perm built)]
  unfold above
  rw [List.countP_map, List.countP_map]
  apply List.countP_congr
  intro t listed
  simp [(score_spec built member).2.2.1, (score_spec built listed).2.2.1]

/-! ## The results -/

/-- What `rrf_fuse` may return: `into_values` yields the entries of the map in any order. -/
def Fuses (fts vec : List RecallHit) (limit : Nat) (out : List RecallHit) : Prop :=
  ∃ scores order, rrfScores fts vec = some scores ∧ order.Perm (scores.map Prod.snd) ∧
    out = (ranked RecallHit.score order).take limit

/-- The order in which the keys were added is one. -/
theorem fuses_rrfFuse {out : List RecallHit} (fused : rrfFuse fts vec limit = some out) :
    Fuses fts vec limit out := by
  have result : (rrfScores fts vec).map (fun scores =>
      (ranked RecallHit.score (scores.map Prod.snd)).take limit) = some out := by
    rw [← fused, rrfScores, rrfFuse]
    cases rrfAddAll fts [] with
    | none => rfl
    | some first => cases second : rrfAddAll vec first <;> simp [second, ranked]
  obtain ⟨scores, built, rfl⟩ := Option.map_eq_some_iff.mp result
  exact ⟨scores, _, built, List.Perm.refl _, rfl⟩

theorem Fuses.mem {out : List RecallHit} (built : rrfScores fts vec = some scores)
    (fuses : Fuses fts vec limit out) {hit : RecallHit} (listed : hit ∈ out) :
    ∃ s ∈ scores, s.2 = hit ∧ keysAbove fts vec s.1 < limit := by
  obtain ⟨_, order, built', perm, rfl⟩ := fuses
  obtain rfl := Option.some.inj (built.symm.trans built')
  have few := above_lt_of_mem_take listed
  obtain ⟨s, member, rfl⟩ := List.mem_map.mp
    (perm.mem_iff.mp (mem_ranked.mp (List.mem_of_mem_take listed)))
  rw [above_perm perm, above_scores built member] at few
  exact ⟨s, member, rfl, few⟩

/-- The facts of the two lists. -/
def factsOf (fts vec : List RecallHit) : List RecallHit := ((fts ++ vec).map factOf).dedup

theorem mem_factsOf {fact : RecallHit} :
    fact ∈ factsOf fts vec ↔ ∃ hit ∈ fts ++ vec, factOf hit = fact := by
  rw [factsOf, List.mem_dedup, List.mem_map]

/-- There are no more keys than facts. -/
theorem length_keysOf_le : (keysOf fts vec).length ≤ (factsOf fts vec).length := by
  have image : keysOf fts vec ⊆ (factsOf fts vec).filterMap hitKey := by
    intro key listed
    obtain ⟨hit, member, keyed⟩ := mem_keysOf.mp listed
    exact List.mem_filterMap.mpr ⟨factOf hit, mem_factsOf.mpr ⟨hit, member, rfl⟩, keyed⟩
  have short := ((List.nodup_dedup _).subperm image).length_le
  exact short.trans (List.length_filterMap_le _ _)

/-- The law of the fusion: there is a result, it is the same for every order of the map, it holds each
    fact at most once, with the fused score of the fact and in descending order, and with room for
    all facts it holds every one. -/
structure FusesWell (fts vec : List RecallHit) (limit : Nat) : Prop where
  total : ∃ out, Fuses fts vec limit out
  determined : ∀ out out', Fuses fts vec limit out → Fuses fts vec limit out' → out = out'
  once : ∀ out, Fuses fts vec limit out → (out.map factOf).Nodup
  scored : ∀ out, Fuses fts vec limit out → ∀ hit ∈ out,
    hit.score = fusedScore (entriesOf fts vec) (factOf hit)
  sorted : ∀ out, Fuses fts vec limit out → out.Pairwise (fun a b => b.score ≤ a.score)
  complete : ∀ out, Fuses fts vec limit out → (factsOf fts vec).length ≤ limit →
    ∀ hit ∈ fts ++ vec, ∃ found ∈ out, factOf found = factOf hit

/-- Every text can be sliced at byte 128, and a key that less than `limit` keys outrank stands for one
    fact and is worth what no other key is worth. -/
structure Clear (fts vec : List RecallHit) (limit : Nat) : Prop where
  slices : ∀ hit ∈ fts ++ vec, SlicesAt 128 hit.text
  single : ∀ key ∈ keysOf fts vec, keysAbove fts vec key < limit →
    ∀ hit ∈ fts ++ vec, ∀ hit' ∈ fts ++ vec, hitKey hit = some key → hitKey hit' = some key →
      factOf hit = factOf hit'
  apart : ∀ key ∈ keysOf fts vec, keysAbove fts vec key < limit → ∀ key' ∈ keysOf fts vec,
    keyScore (entriesOf fts vec) key' = keyScore (entriesOf fts vec) key → key' = key

theorem nodup_hits (built : rrfScores fts vec = some scores) : (scores.map Prod.snd).Nodup := by
  apply List.Nodup.map_on
  · intro s member s' member' same
    exact eq_of_factOf built member member' (congrArg hitKey same)
  · exact (rrfScores_scored built).keys.of_map _

/-- The ties that matter, among the hits and among the keys. -/
theorem apart_iff (built : rrfScores fts vec = some scores) :
    (∀ x ∈ scores.map Prod.snd, above RecallHit.score (scores.map Prod.snd) x < limit →
      ∀ y ∈ scores.map Prod.snd, y.score = x.score → y = x) ↔
    ∀ key ∈ keysOf fts vec, keysAbove fts vec key < limit → ∀ key' ∈ keysOf fts vec,
      keyScore (entriesOf fts vec) key' = keyScore (entriesOf fts vec) key → key' = key := by
  constructor
  · intro apart key listed few key' listed' same
    obtain ⟨hit, -, -, member⟩ := exists_score built listed
    obtain ⟨hit', -, -, member'⟩ := exists_score built listed'
    rw [← above_scores built member] at few
    have equal := apart _ (List.mem_map_of_mem member) few _ (List.mem_map_of_mem member') same
    have entries := eq_of_factOf built member' member (congrArg hitKey equal)
    exact congrArg Prod.fst entries
  · intro apart x listed few y listed' same
    obtain ⟨s, member, rfl⟩ := List.mem_map.mp listed
    obtain ⟨s', member', rfl⟩ := List.mem_map.mp listed'
    rw [above_scores built member] at few
    obtain ⟨inKeys, keyed, worth, -⟩ := score_spec built member
    obtain ⟨inKeys', keyed', worth', -⟩ := score_spec built member'
    have keys := apart s.1 inKeys few s'.1 inKeys' (by rw [← worth, ← worth', same])
    have entries := eq_of_factOf built member' member (by rw [keyed, keyed', keys])
    rw [entries]

/-- A key with two facts is worth more than either of them. -/
theorem fusedScore_lt {key : String} {hit hit' : RecallHit} (keyed : hitKey hit = some key)
    (listed : hit' ∈ fts ++ vec) (keyed' : hitKey hit' = some key) (differ : factOf hit' ≠ factOf hit) :
    fusedScore (entriesOf fts vec) (factOf hit) < keyScore (entriesOf fts vec) key := by
  obtain ⟨e, member, rfl⟩ := exists_entry listed
  have wider : ∀ h : RecallHit, decide (factOf h = factOf hit) = true →
      decide (hitKey h = some key) = true := by
    intro h same
    rw [decide_eq_true_eq] at same ⊢
    rw [hitKey_of_factOf same, keyed]
  rw [keyScore, sumOf_split wider, fusedScore]
  have more : 0 < sumOf (fun h => decide (hitKey h = some key) && !decide (factOf h = factOf hit))
      (entriesOf fts vec) := sumOf_pos member (by simp [keyed', differ])
  linarith

theorem FusesWell.clear (well : FusesWell fts vec limit) : Clear fts vec limit := by
  obtain ⟨_, scores, _, built, _, _⟩ := well.total
  have fuses : ∀ order : List RecallHit, order.Perm (scores.map Prod.snd) →
      Fuses fts vec limit ((ranked RecallHit.score order).take limit) :=
    fun order perm => ⟨scores, order, built, perm, rfl⟩
  have untied : ∀ x ∈ scores.map Prod.snd, above RecallHit.score (scores.map Prod.snd) x < limit →
      ∀ y ∈ scores.map Prod.snd, y.score = x.score → y = x := by
    apply take_ranked_determined_iff.mp
    intro order order' perm perm'
    exact well.determined _ _ (fuses order perm) (fuses order' perm')
  refine ⟨?_, ?_, (apart_iff built).mp untied⟩
  · apply rrfScores_isSome.mp
    rw [built]
    rfl
  · intro key listed few
    -- The entry of the key is in the result, with its own fused score.
    obtain ⟨first, -, keyed, member⟩ := exists_score built listed
    have place := List.mem_map_of_mem (f := Prod.snd) member
    rw [← above_scores built member] at few
    have kept := mem_take_of_above (nodup_hits built) (untied _ place few) place few
    have own := well.scored _ (fuses _ (List.Perm.refl _)) _ kept
    have worth := (score_spec built member).2.2.1
    have same : ∀ hit ∈ fts ++ vec, hitKey hit = some key → factOf hit = factOf first := by
      intro hit among keyed'
      by_contra differ
      have less : fusedScore (entriesOf fts vec) (factOf first) < keyScore (entriesOf fts vec) key :=
        fusedScore_lt keyed among keyed' differ
      rw [← worth, own, factOf_rescored] at less
      exact lt_irrefl _ less
    intro hit among hit' among' keyed keyed'
    rw [same hit among keyed, same hit' among' keyed']

theorem Clear.fusesWell (clear : Clear fts vec limit) : FusesWell fts vec limit := by
  obtain ⟨scores, built⟩ := Option.isSome_iff_exists.mp (rrfScores_isSome.mpr clear.slices)
  have untied := (apart_iff built).mpr clear.apart
  refine ⟨⟨_, scores, _, built, List.Perm.refl _, rfl⟩, ?_, ?_, ?_, ?_, ?_⟩
  · rintro out out' ⟨_, order, built', perm, rfl⟩ ⟨_, order', built'', perm', rfl⟩
    obtain rfl := Option.some.inj (built.symm.trans built')
    obtain rfl := Option.some.inj (built.symm.trans built'')
    exact take_ranked_determined_iff.mpr untied order order' perm perm'
  · rintro out ⟨_, order, built', perm, rfl⟩
    obtain rfl := Option.some.inj (built.symm.trans built')
    have all : ((scores.map Prod.snd).map factOf).Nodup := by
      apply List.Nodup.map_on _ (nodup_hits built)
      intro x listed y listed' same
      obtain ⟨s, member, rfl⟩ := List.mem_map.mp listed
      obtain ⟨s', member', rfl⟩ := List.mem_map.mp listed'
      rw [eq_of_factOf built member member' (hitKey_of_factOf same)]
    have sorting : (ranked RecallHit.score order).Perm order := ranked_perm order
    have same := (sorting.trans perm).map factOf
    exact (same.nodup_iff.mpr all).sublist ((List.take_sublist _ _).map factOf)
  · intro out fuses hit listed
    obtain ⟨s, member, rfl, few⟩ := fuses.mem built listed
    obtain ⟨inKeys, keyed, worth, origin, among, same⟩ := score_spec built member
    rw [worth]
    apply sumOf_congr
    intro e entry
    rw [decide_eq_decide]
    constructor
    · intro keyed'
      rw [← same]
      have keyedOrigin : hitKey origin = some s.1 := by rw [hitKey_of_factOf same, keyed]
      exact clear.single s.1 inKeys few e.1 (mem_of_entry entry) origin among keyed' keyedOrigin
    · intro facts
      rw [hitKey_of_factOf facts, keyed]
  · rintro out ⟨_, order, -, -, rfl⟩
    exact (ranked_sorted order).sublist (List.take_sublist _ _)
  · intro out fuses room hit among
    obtain ⟨key, keyed⟩ := Option.isSome_iff_exists.mp (hitKey_isSome.mpr (clear.slices hit among))
    have listed := mem_keysOf.mpr ⟨hit, among, keyed⟩
    obtain ⟨first, amongFirst, keyedFirst, member⟩ := exists_score built listed
    have kept : ({ first with score := keyScore (entriesOf fts vec) key } : RecallHit) ∈ out := by
      obtain ⟨_, order, built', perm, rfl⟩ := fuses
      obtain rfl := Option.some.inj (built.symm.trans built')
      have length : (ranked RecallHit.score order).length ≤ limit := by
        rw [(ranked_perm order).length_eq, perm.length_eq, List.length_map,
          ← List.length_map (f := Prod.fst), (keys_perm built).length_eq]
        exact length_keysOf_le.trans room
      rw [List.take_of_length_le length, mem_ranked, perm.mem_iff]
      exact List.mem_map_of_mem (f := Prod.snd) member
    obtain ⟨s, member', equal, few⟩ := fuses.mem built kept
    have keys : s.1 = key := by
      have keyed' := (score_spec built member').2.1
      rw [equal] at keyed'
      exact Option.some.inj (keyed'.symm.trans keyedFirst)
    rw [keys] at few
    exact ⟨_, kept, clear.single key listed few first amongFirst hit among keyedFirst keyed⟩

/-- The law holds of two rankings and a limit exactly when they are clear. -/
theorem fusion_well_iff : FusesWell fts vec limit ↔ Clear fts vec limit :=
  ⟨FusesWell.clear, Clear.fusesWell⟩

/-- A note of Alice that the text path finds. -/
def noteByText : RecallHit := ⟨"plan", none, none, "A", 1, -1⟩

/-- Another one, which the vector path finds. -/
def noteByVector : RecallHit := ⟨"draft", none, none, "A", 2, 1⟩

/-- The same text under another key, written in the same millisecond. -/
def keyedNote : RecallHit := ⟨"plan", some "k", none, "A", 1, 1⟩

/-- A hit with what a first rank is worth. -/
def firstRanked (hit : RecallHit) : RecallHit := { hit with score := 1 / 61 }

/-- Two facts of equal rank come in either order, and of two facts with one key one is lost. -/
theorem ties_and_merges : ¬ FusesWell [noteByText] [noteByVector] 8 ∧
    ¬ FusesWell [noteByText] [keyedNote] 8 := by
  constructor
  · intro well
    have built : rrfScores [noteByText] [noteByVector] = some
        [("A|1||plan", firstRanked noteByText), ("A|2||draft", firstRanked noteByVector)] := by
      decide +kernel
    have one := well.determined [firstRanked noteByText, firstRanked noteByVector]
      [firstRanked noteByVector, firstRanked noteByText]
      ⟨_, _, built, List.Perm.refl _, by decide +kernel⟩
      ⟨_, _, built, List.Perm.swap _ _ _, by decide +kernel⟩
    exact absurd one (by decide +kernel)
  · intro well
    have built : rrfScores [noteByText] [keyedNote] = some
        [("A|1||plan", { noteByText with score := 2 / 61 })] := by decide +kernel
    obtain ⟨found, listed, same⟩ := well.complete [{ noteByText with score := 2 / 61 }]
      ⟨_, _, built, List.Perm.refl _, by decide +kernel⟩ (by decide +kernel) keyedNote (by simp)
    rw [List.mem_singleton.mp listed] at same
    exact absurd same (by decide +kernel)

/-! ## Recalls that fuse -/

namespace Store

variable {s : Store} {ext : Externals} {vecDim : Nat} {agent query : String} {room : Option String}
  {asked : Option Nat} {embedding : List UInt32}

/-- The hits of the text path of a recall. -/
def textHits (s : Store) (ext : Externals) (agent query : String) (room : Option String)
    (asked : Option Nat) : List RecallHit :=
  let matchQ := buildFtsQuery ext query
  if matchQ.isEmpty then [] else s.recallFts ext agent matchQ room (recallLimit asked)

/-- The hits of its vector path. -/
def vectorHits (s : Store) (ext : Externals) (agent : String) (embedding : List UInt32)
    (room : Option String) (asked : Option Nat) : List RecallHit :=
  s.recallVec ext agent embedding room (recallLimit asked)

theorem recall_eq (dim : embedding.length = vecDim) (texts : s.textHits ext agent query room asked ≠ [])
    (vectors : s.vectorHits ext agent embedding room asked ≠ []) :
    s.recall ext vecDim agent query room asked (some embedding) =
      match rrfFuse (s.textHits ext agent query room asked) (s.vectorHits ext agent embedding room asked)
        (recallLimit asked) with
      | some hits => .ok hits
      | none => .error .panicked := by
  have someText : (s.textHits ext agent query room asked).isEmpty = false := by simpa using texts
  have someVector : (s.vectorHits ext agent embedding room asked).isEmpty = false := by
    simpa using vectors
  cases fused : rrfFuse (s.textHits ext agent query room asked) (s.vectorHits ext agent embedding room asked)
      (recallLimit asked) with
  | none =>
    unfold textHits at someText fused
    unfold vectorHits at someVector fused
    simp only [«recall», dim, ne_eq, not_true_eq_false, if_false, someVector, someText, Bool.false_eq_true, fused]
  | some hits =>
    unfold textHits at someText fused
    unfold vectorHits at someVector fused
    simp only [«recall», dim, ne_eq, not_true_eq_false, if_false, someVector, someText, Bool.false_eq_true, fused]

theorem rrfFuse_isSome (fts vec : List RecallHit) (limit : Nat) :
    (rrfFuse fts vec limit).isSome ↔ ∀ hit ∈ fts ++ vec, SlicesAt 128 hit.text := by
  rw [← rrfScores_isSome, rrfFuse, rrfScores]
  cases rrfAddAll fts [] with
  | none => simp
  | some first => cases second : rrfAddAll vec first <;> simp [second]

/-- The fact is among the hits of one of the paths. -/
def Found (s : Store) (ext : Externals) (agent query : String) (embedding : List UInt32)
    (room : Option String) (asked : Option Nat) (f : FactRow) : Prop :=
  ∃ score, toHit f score ∈ s.textHits ext agent query room asked ++
    s.vectorHits ext agent embedding room asked

/-- A recall for which both paths find something returns exactly when every fact they find has a
    text that can be sliced at byte 128. -/
theorem hybrid_recall_returns_iff (dim : embedding.length = vecDim)
    (texts : s.textHits ext agent query room asked ≠ [])
    (vectors : s.vectorHits ext agent embedding room asked ≠ []) :
    (∃ hits, s.recall ext vecDim agent query room asked (some embedding) = .ok hits) ↔
      ∀ f ∈ s.facts, s.Found ext agent query embedding room asked f → SlicesAt 128 f.text := by
  have returns : (∃ hits, s.recall ext vecDim agent query room asked (some embedding) = .ok hits) ↔
      ∀ hit ∈ s.textHits ext agent query room asked ++ s.vectorHits ext agent embedding room asked,
        SlicesAt 128 hit.text := by
    rw [recall_eq dim texts vectors, ← rrfFuse_isSome _ _ (recallLimit asked)]
    cases rrfFuse (s.textHits ext agent query room asked)
      (s.vectorHits ext agent embedding room asked) (recallLimit asked) <;> simp
  rw [returns]
  constructor
  · rintro slices f - ⟨score, listed⟩
    exact slices (toHit f score) listed
  · intro slices hit listed
    have shown : s.Shows agent room hit := by
      rcases List.mem_append.mp listed with text | vector
      · unfold textHits at text
        dsimp only at text
        split at text
        · cases text
        · exact recallFts_shows text
      · exact recallVec_shows vector
    obtain ⟨f, stored, same, -⟩ := shown
    rw [same] at listed ⊢
    exact slices f stored ⟨hit.score, listed⟩

end Store

/-- Full text and vectors over one short word and one number. -/
def noteExternals : Externals :=
  { demoExternals with
    bm25 := fun index query id => (index.find? (fun row => row.1 = id)).bind (fun row =>
      if query.toList.dropLast.isPrefixOf row.2.toList then some (-1) else none)
    knn := fun rows _ k => (rows.map (fun row => (row.1, 0))).take k }

/-- Alice has saved one note with its vector. -/
def noteStore (text : String) : Store :=
  { Store.empty with
    facts := [⟨1, none, none, "A", text, 0, none⟩]
    factSeq := 1
    vecFacts := [⟨1, [0]⟩] }

theorem hybrid_recall_returns_demo :
    ∃ hits, (noteStore "plan").recall noteExternals 1 "A" "plan" none none (some [0]) = .ok hits := by
  refine (Store.hybrid_recall_returns_iff rfl (by decide +kernel) (by decide +kernel)).mpr ?_
  intro f stored _
  rw [List.mem_singleton.mp stored]
  exact Or.inl (by decide +kernel)

/-- A note whose 128th byte is inside a character. -/
def cutNote : String := String.ofList (List.replicate 127 'a' ++ ['é'])

theorem textHits_cutNote : (noteStore cutNote).textHits noteExternals "A" "a" none none ≠ [] := by
  have query : buildFtsQuery noteExternals "a" = "a*" := by decide +kernel
  have scored : ∀ text : String, "a*".toList.dropLast.isPrefixOf text.toList = true →
      noteExternals.bm25 [(1, text)] "a*" 1 = some (-1) := fun text begins => if_pos begins
  have chars : cutNote.toList = List.replicate 127 'a' ++ ['é'] := String.toList_ofList
  have begins : "a*".toList.dropLast.isPrefixOf (List.replicate 127 'a' ++ ['é']) = true := by decide +kernel
  rw [← chars] at begins
  have found : (noteStore cutNote).recallFts noteExternals "A" "a*" none (Store.recallLimit none) =
      [Store.toHit ⟨1, none, none, "A", cutNote, 0, none⟩ (-1)] := by
    simp [Store.recallFts, noteStore, Store.sqlScope, scored cutNote begins, Store.recallLimit]
  rw [Store.textHits, query]
  rw [if_neg (by decide +kernel), found]
  exact List.cons_ne_nil _ _

theorem vectorHits_cutNote : (noteStore cutNote).vectorHits noteExternals "A" [0] none none ≠ [] := by
  decide +kernel

/-- Both paths find it, and the recall panics. -/
theorem cut_note_panics :
    (noteStore cutNote).textHits noteExternals "A" "a" none none ≠ [] ∧
      (noteStore cutNote).vectorHits noteExternals "A" [0] none none ≠ [] ∧
      (noteStore cutNote).recall noteExternals 1 "A" "a" none none (some [0]) = .error .panicked := by
  refine ⟨textHits_cutNote, vectorHits_cutNote, ?_⟩
  have cut : ¬ SlicesAt 128 cutNote :=
    @not_slicesAt_inside 128 (List.replicate 127 'a') [] 'é' (by decide +kernel) (by decide +kernel)
  have listed : ∃ hit ∈ (noteStore cutNote).vectorHits noteExternals "A" [0] none none, hit.text = cutNote :=
    ⟨_, List.mem_cons_self, rfl⟩
  have dims : ([0] : List UInt32).length = 1 := rfl
  rw [Store.recall_eq dims textHits_cutNote vectorHits_cutNote]
  cases fused : rrfFuse ((noteStore cutNote).textHits noteExternals "A" "a" none none)
      ((noteStore cutNote).vectorHits noteExternals "A" [0] none none) (Store.recallLimit none) with
  | none => rfl
  | some hits =>
    have slices := (Store.rrfFuse_isSome _ _ (Store.recallLimit none)).mp (Option.isSome_iff_exists.mpr ⟨hits, fused⟩)
    obtain ⟨hit, found, text⟩ := listed
    exact absurd (text ▸ slices hit (List.mem_append_right _ found)) cut

end Parler.Hub
