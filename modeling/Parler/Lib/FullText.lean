import Mathlib.Data.List.Basic

/-!
# Expressions of a full-text search

The query language of FTS5, without quotes, brackets, columns and `NEAR`: barewords, a star behind a prefix, and
the operators `OR`, `AND` and `NOT`, of which `NOT` binds closest and `OR` least. Terms side by side bind closer
than any operator. A text with anything else in it is not read.
-/

namespace Parler.Lib

/-! ## Runs of a list -/

/-- The words of a list are its maximal runs of elements inside, in their order. -/
inductive Runs {α : Type} (inside : α → Bool) : List α → List (List α) → Prop where
  | none {xs : List α} (outside : ∀ x ∈ xs, inside x = false) : Runs inside xs []
  | run {before word rest : List α} {words : List (List α)} (outside : ∀ x ∈ before, inside x = false)
      (nonempty : word ≠ []) (all : ∀ x ∈ word, inside x = true) (maximal : ∀ x ∈ rest.head?, inside x = false)
      (others : Runs inside rest words) : Runs inside (before ++ (word ++ rest)) (word :: words)

section Runs

variable {α : Type} {inside : α → Bool} {x : α} {xs : List α} {words : List (List α)}

theorem Runs.cons_outside (outside : inside x = false) (runs : Runs inside xs words) :
    Runs inside (x :: xs) words := by
  cases runs with
  | none others => exact .none (List.forall_mem_cons.mpr ⟨outside, others⟩)
  | @run before word rest words others nonempty all maximal more =>
    rw [← List.cons_append]
    exact .run (List.forall_mem_cons.mpr ⟨outside, others⟩) nonempty all maximal more

/-- A run at the front. -/
theorem Runs.first {word rest : List α} (nonempty : word ≠ []) (all : ∀ x ∈ word, inside x = true)
    (maximal : ∀ x ∈ rest.head?, inside x = false) (others : Runs inside rest words) :
    Runs inside (word ++ rest) (word :: words) :=
  @Runs.run α inside [] word rest words (by simp) nonempty all maximal others

theorem Runs.nonempty (runs : Runs inside xs words) : ∀ word ∈ words, word ≠ [] := by
  induction runs with
  | none => simp
  | run _ nonempty _ _ _ ih => exact List.forall_mem_cons.mpr ⟨nonempty, ih⟩

theorem Runs.all_inside (runs : Runs inside xs words) : ∀ word ∈ words, ∀ x ∈ word, inside x = true := by
  induction runs with
  | none => simp
  | run _ _ all _ _ ih => exact List.forall_mem_cons.mpr ⟨all, ih⟩

theorem Runs.eq_nil_iff (runs : Runs inside xs words) : words = [] ↔ ∀ x ∈ xs, inside x = false := by
  cases runs with
  | none outside => exact ⟨fun _ => outside, fun _ => rfl⟩
  | @run before word rest words outside nonempty all maximal more =>
    refine ⟨fun empty => absurd empty (List.cons_ne_nil _ _), fun outside => ?_⟩
    obtain ⟨x, first⟩ := List.exists_mem_of_ne_nil word nonempty
    have out := outside x (by simp [first])
    rw [all x first] at out
    cases out

end Runs

/-! ## Tokens -/

/-- The operators, in capitals. -/
inductive FtsOperator where
  | and
  | or
  | not
  deriving DecidableEq

inductive FtsToken where
  | word (text : List Char)
  | operator (op : FtsOperator)
  | star
  deriving DecidableEq

/-- ASCII letters and digits, the underscore, and whatever is not ASCII. -/
def isBarewordChar (c : Char) : Bool := c.isAlphanum || c = '_' || 128 ≤ c.toNat

/-- The words that are no terms; `NEAR` is none before a bracket. -/
def ftsKeywords : List String := ["AND", "OR", "NOT", "NEAR"]

def ftsWord (text : List Char) : FtsToken :=
  if text = "AND".toList then .operator .and
  else if text = "OR".toList then .operator .or
  else if text = "NOT".toList then .operator .not
  else .word text

/-- The tokens of a text, after a bareword that was begun. -/
def ftsTokens : Option (List Char) → List Char → Option (List FtsToken)
  | begun, [] => some (begun.map ftsWord).toList
  | begun, c :: cs =>
      if isBarewordChar c then ftsTokens (some (begun.getD [] ++ [c])) cs
      else if c = '*' then (ftsTokens none cs).map (fun ts => (begun.map ftsWord).toList ++ .star :: ts)
      else if c = ' ' then (ftsTokens none cs).map (fun ts => (begun.map ftsWord).toList ++ ts)
      else none

/-! ## Expressions -/

/-- A term, and whether it is a prefix. -/
abbrev FtsTerm := List Char × Bool

/-- Alternatives of conjunctions, each part with what it excludes; a part is terms side by side. -/
abbrev FtsExpression := List (List (List (List FtsTerm)))

def readTerms : List FtsToken → Option (List FtsTerm)
  | [] => some []
  | .word text :: .star :: ts => (readTerms ts).map (fun terms => (text, true) :: terms)
  | .word text :: ts => (readTerms ts).map (fun terms => (text, false) :: terms)
  | _ => none

/-- Terms side by side, at least one. -/
def readPart (ts : List FtsToken) : Option (List FtsTerm) := if ts = [] then none else readTerms ts

/-- The expression of a text. -/
def readFts (cs : List Char) : Option FtsExpression :=
  (ftsTokens none cs).bind (fun ts =>
    (ts.splitOn (.operator .or)).mapM (fun ts =>
      (ts.splitOn (.operator .and)).mapM (fun ts => (ts.splitOn (.operator .not)).mapM readPart)))

/-- A text of a bareword that is no operator. -/
structure IsTerm (text : List Char) : Prop where
  nonempty : text ≠ []
  bareword : ∀ c ∈ text, isBarewordChar c = true
  no_keyword : String.ofList text ∉ ftsKeywords

/-- The alternatives of prefixes, as a text. -/
def anyPrefix (texts : List (List Char)) : List Char :=
  " OR ".toList.intercalate (texts.map (fun text => text ++ ['*']))

section Reading

variable {text : List Char} {texts : List (List Char)} {rest : List Char}

theorem ftsWord_of_isTerm (term : IsTerm text) : ftsWord text = .word text := by
  have other : ∀ keyword ∈ ftsKeywords, text ≠ keyword.toList := by
    intro keyword member equal
    apply term.no_keyword
    rw [equal, String.ofList_toList]
    exact member
  simp only [ftsKeywords, List.forall_mem_cons] at other
  unfold ftsWord
  rw [if_neg other.1, if_neg other.2.1, if_neg other.2.2.1]

theorem ftsTokens_bareword (bareword : ∀ c ∈ text, isBarewordChar c = true) (begun : List Char) :
    ftsTokens (some begun) (text ++ rest) = ftsTokens (some (begun ++ text)) rest := by
  induction text generalizing begun with
  | nil => simp
  | cons c cs ih =>
    obtain ⟨first, others⟩ := List.forall_mem_cons.mp bareword
    rw [List.cons_append, ftsTokens, if_pos first, ih others]
    simp

theorem ftsTokens_begin (nonempty : text ≠ []) (bareword : ∀ c ∈ text, isBarewordChar c = true) :
    ftsTokens none (text ++ rest) = ftsTokens (some text) rest := by
  cases text with
  | nil => exact absurd rfl nonempty
  | cons c cs =>
    obtain ⟨first, others⟩ := List.forall_mem_cons.mp bareword
    rw [List.cons_append, ftsTokens, if_pos first, ftsTokens_bareword others]
    rfl

/-- A prefix term is two tokens. -/
theorem ftsTokens_prefix (term : IsTerm text) :
    ftsTokens none (text ++ '*' :: rest) = (ftsTokens none rest).map (fun ts => .word text :: .star :: ts) := by
  have star : ftsTokens (some text) ('*' :: rest) =
      (ftsTokens none rest).map (fun ts => ftsWord text :: .star :: ts) := rfl
  rw [ftsTokens_begin term.nonempty term.bareword, star, ftsWord_of_isTerm term]

theorem ftsTokens_or : ftsTokens none (" OR ".toList ++ rest) =
    (ftsTokens none rest).map (fun ts => .operator .or :: ts) := by
  have bareword : ∀ c ∈ ['O', 'R'], isBarewordChar c = true := by simp [isBarewordChar]
  have before : ftsTokens none (" OR ".toList ++ rest) = (ftsTokens none (['O', 'R'] ++ ' ' :: rest)).map id := rfl
  have behind : ftsTokens (some ['O', 'R']) (' ' :: rest) =
      (ftsTokens none rest).map (fun ts => ftsWord ['O', 'R'] :: ts) := rfl
  have operator : ftsWord ['O', 'R'] = .operator .or := by decide
  rw [before, Option.map_id_fun, ftsTokens_begin (by simp) bareword, behind, operator]
  rfl

theorem anyPrefix_eq_nil_iff : anyPrefix texts = [] ↔ texts = [] := by
  cases texts with
  | nil => simp [anyPrefix]
  | cons text texts => cases texts <;> simp [anyPrefix]

/-- The alternatives of prefixes as tokens. -/
theorem ftsTokens_anyPrefix (terms : ∀ text ∈ texts, IsTerm text) : ftsTokens none (anyPrefix texts) =
    some ([FtsToken.operator .or].intercalate (texts.map (fun text => [.word text, .star]))) := by
  induction texts with
  | nil => rfl
  | cons text texts ih =>
    obtain ⟨first, others⟩ := List.forall_mem_cons.mp terms
    cases texts with
    | nil =>
      have single : anyPrefix [text] = text ++ '*' :: [] := by simp [anyPrefix]
      rw [single, ftsTokens_prefix first]
      simp [ftsTokens]
    | cons next texts =>
      have split :
          anyPrefix (text :: next :: texts) = text ++ '*' :: (" OR ".toList ++ anyPrefix (next :: texts)) := by
        simp [anyPrefix]
      rw [split, ftsTokens_prefix first, ftsTokens_or, ih others]
      simp

/-- The alternatives of prefixes are read as such. -/
theorem readFts_anyPrefix (nonempty : texts ≠ []) (terms : ∀ text ∈ texts, IsTerm text) :
    readFts (anyPrefix texts) = some (texts.map (fun text => [[[(text, true)]]])) := by
  have no_or : ∀ ts ∈ texts.map (fun text => [.word text, .star]), FtsToken.operator .or ∉ ts := by
    simp
  have part : ∀ text : List Char, (([.word text, .star] : List FtsToken).splitOn (.operator .and)).mapM
      (fun ts => (ts.splitOn (.operator .not)).mapM readPart) = some [[[(text, true)]]] := by
    intro text
    rfl
  unfold readFts
  rw [ftsTokens_anyPrefix terms, Option.bind_some, List.splitOn_intercalate _ no_or (by simpa using nonempty)]
  clear nonempty terms no_or
  induction texts with
  | nil => rfl
  | cons text texts ih =>
    rw [List.map_cons, List.mapM_cons, part, ih]
    rfl

end Reading

end Parler.Lib
