import Parler.Hub.Demo
import Parler.Hub.Memory
import Parler.Lib.FullText

/-!
# The full-text query of a recall

What `build_fts_query` of `crates/parler-hub/src/store.rs` makes of a text: one prefix term for each of its runs
of alphanumeric characters, in lower case.
-/

namespace Parler.Hub

open Parler.Lib Parler.Protocol

/-- What `char::is_alphanumeric` and `str::to_lowercase` promise of ASCII characters. -/
structure UnicodeText (ext : Externals) : Prop where
  alphanumeric : ∀ c : Char, c.toNat < 128 → ext.isAlphanumeric c = c.isAlphanum
  nonempty : ∀ s : String, s ≠ "" → ext.toLowercase s ≠ ""
  /-- An ASCII character of the lower case is no capital, and it is a small letter or was there before. -/
  lower : ∀ s : String, ∀ c ∈ (ext.toLowercase s).toList, c.toNat < 128 →
    c.isUpper = false ∧ (c.isLower = true ∨ c ∈ s.toList)

/-- The prefix of a run. -/
def lowerTerm (ext : Externals) (run : List Char) : List Char := (ext.toLowercase (String.ofList run)).toList

/-- The query of a text is empty or the alternatives of its runs, and the engine reads it so. -/
structure ReadsAsRuns (ext : Externals) (q : String) (runs : List (List Char)) : Prop where
  maximal : Runs ext.isAlphanumeric q.toList runs
  query : (buildFtsQuery ext q).toList = anyPrefix (runs.map (lowerTerm ext))
  empty : buildFtsQuery ext q = "" ↔ ∀ c ∈ q.toList, ext.isAlphanumeric c = false
  terms : ∀ run ∈ runs, IsTerm (lowerTerm ext run)
  read : buildFtsQuery ext q ≠ "" →
    readFts (buildFtsQuery ext q).toList = some (runs.map (fun run => [[[(lowerTerm ext run, true)]]]))

/-! ## The runs of a text -/

section Texts

variable {ext : Externals} {inside : Char → Bool}

/-- One character of `alphanumericTerms`. -/
def splitStep (inside : Char → Bool) (acc : List Char × List (List Char)) (c : Char) :
    List Char × List (List Char) :=
  if inside c then (c :: acc.1, acc.2) else if acc.1.isEmpty then acc else ([], acc.1.reverse :: acc.2)

/-- The pieces after the last character. -/
def splitEnd (last : List Char × List (List Char)) : List (List Char) :=
  (if last.1.isEmpty then last.2 else last.1.reverse :: last.2).reverse

theorem alphanumericTerms_eq (cs : List Char) :
    alphanumericTerms inside cs = splitEnd (cs.foldl (splitStep inside) ([], [])) := rfl

/-- A run that was begun goes on with the rest of the text, and the runs before it stay. -/
theorem splitEnd_foldl {begun : List Char} (all : ∀ c ∈ begun, inside c = true) (made : List (List Char))
    (cs : List Char) : ∃ words, splitEnd (cs.foldl (splitStep inside) (begun, made)) = made.reverse ++ words ∧
      Runs inside (begun.reverse ++ cs) words := by
  induction cs generalizing begun made with
  | nil =>
    cases begun with
    | nil => exact ⟨[], by simp [splitEnd], .none (by simp)⟩
    | cons d begun =>
      have whole : ∀ x ∈ (d :: begun).reverse, inside x = true := fun x member => all x (List.mem_reverse.mp member)
      refine ⟨[(d :: begun).reverse], by simp [splitEnd], ?_⟩
      exact .first (by simp) whole (by simp) (.none (by simp))
  | cons c cs ih =>
    rw [List.foldl_cons]
    cases kind : inside c with
    | true =>
      have step : splitStep inside (begun, made) c = (c :: begun, made) := if_pos kind
      obtain ⟨words, split, runs⟩ := ih (List.forall_mem_cons.mpr ⟨kind, all⟩) made
      rw [step]
      refine ⟨words, split, ?_⟩
      rw [List.reverse_cons, List.append_assoc] at runs
      exact runs
    | false =>
      cases begun with
      | nil =>
        have step : splitStep inside ([], made) c = ([], made) := by simp [splitStep, kind]
        obtain ⟨words, split, runs⟩ := ih all made
        rw [step]
        exact ⟨words, split, runs.cons_outside kind⟩
      | cons d begun =>
        have step : splitStep inside (d :: begun, made) c = ([], (d :: begun).reverse :: made) := by
          simp [splitStep, kind]
        have whole : ∀ x ∈ (d :: begun).reverse, inside x = true :=
          fun x member => all x (List.mem_reverse.mp member)
        have fresh : ∀ x ∈ ([] : List Char), inside x = true := by simp
        obtain ⟨words, split, runs⟩ := ih fresh ((d :: begun).reverse :: made)
        rw [step]
        refine ⟨(d :: begun).reverse :: words, by simpa using split, ?_⟩
        have later : Runs inside (c :: cs) words := runs.cons_outside kind
        have ends : ∀ x ∈ (c :: cs).head?, inside x = false := by simpa using kind
        exact .first (by simp) whole ends later

theorem alphanumericTerms_runs (cs : List Char) : Runs inside cs (alphanumericTerms inside cs) := by
  have fresh : ∀ x ∈ ([] : List Char), inside x = true := by simp
  obtain ⟨words, split, runs⟩ := splitEnd_foldl fresh [] cs
  rw [alphanumericTerms_eq, split]
  exact runs

theorem buildFtsQuery_toList (q : String) :
    (buildFtsQuery ext q).toList =
      anyPrefix ((alphanumericTerms ext.isAlphanumeric q.toList).map (lowerTerm ext)) := by
  unfold buildFtsQuery anyPrefix
  rw [String.toList_intercalate, List.map_map, List.map_map]
  congr 1
  apply List.map_congr_left
  intro run _
  simp [lowerTerm]

/-- The lower case of a run is a term. -/
theorem lowerTerm_isTerm (std : UnicodeText ext) {run : List Char} (nonempty : run ≠ [])
    (all : ∀ c ∈ run, ext.isAlphanumeric c = true) : IsTerm (lowerTerm ext run) := by
  refine ⟨?_, ?_, ?_⟩
  · intro empty
    apply std.nonempty (String.ofList run)
    · simpa using nonempty
    · exact String.toList_eq_nil_iff.mp empty
  · intro c member
    by_cases ascii : c.toNat < 128
    · have alphanum : c.isAlphanum = true := by
        rcases (std.lower _ c member ascii).2 with small | before
        · have letter : c.isAlpha = (c.isUpper || c.isLower) := rfl
          simp [Char.isAlphanum, letter, small]
        · rw [← std.alphanumeric c ascii]
          exact all c (by simpa using before)
      simp [isBarewordChar, alphanum]
    · simp [isBarewordChar, Nat.le_of_not_lt ascii]
  · intro keyword
    obtain ⟨c, inside, ascii, capital⟩ : ∃ c ∈ lowerTerm ext run, c.toNat < 128 ∧ c.isUpper = true := by
      have capitals : ftsKeywords.all (fun keyword =>
          keyword.toList.any (fun c => decide (c.toNat < 128) && c.isUpper)) = true := by decide
      have one := List.all_eq_true.mp capitals _ keyword
      simpa using one
    rw [(std.lower _ c inside ascii).1] at capital
    cases capital

end Texts

/-! ## The engine -/

/-- A search engine: the score of a row that matches. -/
abbrev Engine := List (Int × String) → String → Int → Option Rat

/-- Two engines that agree on what can be read. -/
def SameOnRead (engine engine' : Engine) : Prop :=
  ∀ index query id, (readFts query.toList).isSome → engine' index query id = engine index query id

/-- The text becomes a query that the engine can read, and a recall asks no other. -/
structure SafeQuery (ext : Externals) (q : String) : Prop where
  reads : ∃ runs, ReadsAsRuns ext q runs
  recalls : ∀ engine : Engine, SameOnRead ext.bm25 engine →
    ∀ (s : Store) (vecDim : Nat) (agent : String) (room : Option String) (limit : Option Nat)
      (embedding : Option (List UInt32)),
      s.recall { ext with bm25 := engine } vecDim agent q room limit embedding =
        s.recall ext vecDim agent q room limit embedding

section Engines

variable {ext : Externals}

theorem buildFtsQuery_reads (std : UnicodeText ext) (q : String) :
    ReadsAsRuns ext q (alphanumericTerms ext.isAlphanumeric q.toList) := by
  have runs : Runs ext.isAlphanumeric q.toList (alphanumericTerms ext.isAlphanumeric q.toList) :=
    alphanumericTerms_runs q.toList
  have query := @buildFtsQuery_toList ext q
  have terms : ∀ run ∈ alphanumericTerms ext.isAlphanumeric q.toList, IsTerm (lowerTerm ext run) :=
    fun run member => lowerTerm_isTerm std (runs.nonempty run member) (runs.all_inside run member)
  have empty : buildFtsQuery ext q = "" ↔ alphanumericTerms ext.isAlphanumeric q.toList = [] := by
    rw [← String.toList_eq_nil_iff, query, anyPrefix_eq_nil_iff, List.map_eq_nil_iff]
  refine ⟨runs, query, empty.trans runs.eq_nil_iff, terms, fun some => ?_⟩
  rw [query, readFts_anyPrefix]
  · rw [List.map_map]
    rfl
  · simpa using fun none => some (empty.mpr none)
  · intro text member
    obtain ⟨run, inside, rfl⟩ := List.mem_map.mp member
    exact terms run inside

/-- The engine is asked nothing for an empty query, and else one that it can read. -/
theorem recall_engine (std : UnicodeText ext) (q : String) {engine : Engine} (same : SameOnRead ext.bm25 engine)
    (s : Store) (vecDim : Nat) (agent : String) (room : Option String) (limit : Option Nat)
    (embedding : Option (List UInt32)) :
    s.recall { ext with bm25 := engine } vecDim agent q room limit embedding =
      s.recall ext vecDim agent q room limit embedding := by
  have asked : (if (buildFtsQuery ext q).isEmpty then []
      else s.recallFts { ext with bm25 := engine } agent (buildFtsQuery ext q) room (Store.recallLimit limit)) =
      if (buildFtsQuery ext q).isEmpty then []
      else s.recallFts ext agent (buildFtsQuery ext q) room (Store.recallLimit limit) := by
    split
    · rfl
    · rename_i some
      have read := (buildFtsQuery_reads std q).read (by simpa using some)
      have agree : ∀ index id, engine index (buildFtsQuery ext q) id = ext.bm25 index (buildFtsQuery ext q) id :=
        fun index id => same index _ id (Option.isSome_of_eq_some read)
      unfold Store.recallFts
      simp only [agree]
  unfold Store.recall
  have query : buildFtsQuery { ext with bm25 := engine } q = buildFtsQuery ext q := rfl
  simp only [query, asked]
  rfl

end Engines

/-- No text of a query injects the syntax of the search. -/
theorem recall_query_safe (ext : Externals) (std : UnicodeText ext) (q : String) : SafeQuery ext q :=
  ⟨⟨_, buildFtsQuery_reads std q⟩, fun _ same => recall_engine std q same⟩

/-- The stand-ins of the small hub are the real functions on ASCII texts. -/
theorem demo_unicodeText : UnicodeText demoExternals := by
  refine ⟨?_, ?_, ?_⟩
  · intro c ascii
    have all : ∀ n < 128, isAsciiAlphanumeric (.ofNat n) = (Char.ofNat n).isAlphanum := by decide +kernel
    have one := all c.toNat ascii
    rw [Char.ofNat_toNat] at one
    exact one
  · intro s nonempty empty
    apply nonempty
    have chars := congrArg String.toList empty
    simpa [demoExternals, toAsciiLowercase] using chars
  · intro s c member ascii
    have lowered : c ∈ s.toList.map asciiLower := by
      simpa [demoExternals, toAsciiLowercase] using member
    obtain ⟨d, inside, rfl⟩ := List.mem_map.mp lowered
    have all : ∀ n < 128, (asciiLower (.ofNat n)).isUpper = false ∧
        ((asciiLower (.ofNat n)).isLower = true ∨ asciiLower (.ofNat n) = .ofNat n) := by decide +kernel
    have before : d.toNat < 128 := by
      unfold asciiLower at ascii
      split at ascii
      · rename_i capital
        simp only [Bool.and_eq_true, decide_eq_true_eq] at capital
        exact Nat.lt_of_le_of_lt capital.2 (by decide)
      · exact ascii
    have one := all d.toNat before
    rw [Char.ofNat_toNat] at one
    refine ⟨one.1, one.2.imp_right (fun same => ?_)⟩
    rw [same]
    exact inside

theorem recall_query_safe_keywords : SafeQuery demoExternals "Deploy NOT rollback: NEAR*" ∧
    buildFtsQuery demoExternals "Deploy NOT rollback: NEAR*" = "deploy* OR not* OR rollback* OR near*" :=
  ⟨recall_query_safe demoExternals demo_unicodeText "Deploy NOT rollback: NEAR*", by decide +kernel⟩

end Parler.Hub
