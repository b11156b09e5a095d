import Mathlib.Data.List.Infix
import Mathlib.Data.List.TakeWhile
import Parler.Hub.Specs
import Parler.Hub.Demo
import Parler.Lib.Ranking

/-!
# What a directory search finds

`discover` matches by `LIKE` patterns made of the raw terms, over the ASCII-lowercased name and the
space-delimited blobs of a card, and `describes` says what is searched for: the terms as literal
text, whatever its case. A literal match in a blob is always a match of the pattern, unless a NUL cuts
the one or the other off. The two differ where a wildcard, or the space between two words, lets a row
in, where a name has capitals that only `str::to_lowercase` knows, and where a pattern is so long that
SQLite refuses it.
-/

namespace Parler.Hub

open Parler.Lib Parler.Protocol

/-! ## Patterns -/

theorem likeChars_percent (ps cs : List Char) :
    likeChars ('%' :: ps) cs = cs.tails.any (likeChars ps) := by
  rw [likeChars.eq_def]
  exact if_pos rfl

theorem likeChars_char {p : Char} (literal : p ≠ '%') (ps : List Char) (c : Char) (cs : List Char) :
    likeChars (p :: ps) (c :: cs) =
      ((p = '_' || asciiLower p = asciiLower c) && likeChars ps cs) := by
  rw [likeChars, if_neg literal]

theorem likeChars_tail (cs : List Char) : likeChars ['%'] cs = true := by
  rw [likeChars_percent, List.any_eq_true]
  exact ⟨[], (List.mem_tails ..).mpr List.nil_suffix, rfl⟩

/-- A pattern matches its own text, wildcards included. -/
theorem likeChars_of_prefix {p cs : List Char} (literal : p.map asciiLower <+: cs.map asciiLower) :
    likeChars (p ++ ['%']) cs = true := by
  induction p generalizing cs with
  | nil => exact likeChars_tail cs
  | cons c p ih =>
    cases cs with
    | nil => simp at literal
    | cons c' cs =>
      obtain ⟨same, rest⟩ := List.cons_prefix_cons.mp literal
      by_cases wildcard : c = '%'
      · subst wildcard
        rw [List.cons_append, likeChars_percent, List.any_eq_true]
        exact ⟨cs, (List.mem_tails ..).mpr (List.suffix_cons c' cs), ih rest⟩
      · rw [List.cons_append, likeChars_char wildcard, ih rest]
        simp [same]

/-- Without wildcards it matches nothing else. -/
theorem prefix_of_likeChars {p cs : List Char} (plain : '%' ∉ p ∧ '_' ∉ p)
    (matched : likeChars (p ++ ['%']) cs = true) : p.map asciiLower <+: cs.map asciiLower := by
  induction p generalizing cs with
  | nil => exact List.nil_prefix
  | cons c p ih =>
    rw [List.mem_cons, List.mem_cons, not_or, not_or] at plain
    obtain ⟨⟨percent, percents⟩, line, lines⟩ := plain
    cases cs with
    | nil =>
      rw [List.cons_append, likeChars, if_neg (Ne.symm percent)] at matched
      cases matched
    | cons c' cs =>
      rw [List.cons_append, likeChars_char (Ne.symm percent), Bool.and_eq_true] at matched
      obtain ⟨first, rest⟩ := matched
      have same : asciiLower c = asciiLower c' := by simpa [Ne.symm line] using first
      exact List.cons_prefix_cons.mpr ⟨same, ih ⟨percents, lines⟩ rest⟩

/-- The pattern of a term. -/
def wrapTerm (term : String) : String := "%" ++ term ++ "%"

/-- A text that SQLite reads to its end. -/
def NulFree (text : String) : Prop := '\x00' ∉ text.toList

theorem cString_of_nulFree {text : String} (free : NulFree text) : cString text = text.toList := by
  refine List.takeWhile_eq_self_iff.mpr ?_
  intro c member
  refine decide_eq_true ?_
  rintro rfl
  exact free member

theorem sqlLike_wrapTerm {term : String} (free : NulFree term) (text : String) :
    sqlLike (wrapTerm term) text =
      (cString text).tails.any (likeChars (term.toList ++ ['%'])) := by
  have wrapped : (wrapTerm term).toList = '%' :: (term.toList ++ ['%']) := by simp [wrapTerm]
  have whole : NulFree (wrapTerm term) := by
    unfold NulFree at free ⊢
    rw [wrapped]
    simp [free]
  unfold sqlLike
  rw [cString_of_nulFree whole, wrapped, likeChars_percent]

theorem sqlLike_of_within {term text : String} (termFree : NulFree term) (textFree : NulFree text)
    (literal : term.toList.map asciiLower <:+: text.toList.map asciiLower) :
    sqlLike (wrapTerm term) text = true := by
  obtain ⟨tail, starts, ends⟩ := List.infix_iff_prefix_suffix.mp literal
  rw [List.suffix_iff_eq_drop, ← List.map_drop] at ends
  rw [ends] at starts
  rw [sqlLike_wrapTerm termFree, cString_of_nulFree textFree, List.any_eq_true]
  exact ⟨_, (List.mem_tails ..).mpr (List.drop_suffix _ _), likeChars_of_prefix starts⟩

theorem infix_of_sqlLike {term text : String} (free : NulFree term)
    (plain : '%' ∉ term.toList ∧ '_' ∉ term.toList) (matched : sqlLike (wrapTerm term) text = true) :
    term.toList.map asciiLower <:+: text.toList.map asciiLower := by
  rw [sqlLike_wrapTerm free, List.any_eq_true] at matched
  obtain ⟨tail, ends, matched⟩ := matched
  have starts := prefix_of_likeChars plain matched
  have within := ((List.mem_tails ..).mp ends).isInfix.trans (List.takeWhile_prefix _).isInfix
  exact starts.isInfix.trans (within.map asciiLower)

theorem likeRefuses_wrapTerm (term : String) :
    likeRefuses (wrapTerm term) = decide (maxLikePattern < byteLen term + 2) := by
  have length : byteLen (wrapTerm term) = byteLen term + 2 := by
    simp only [byteLen, wrapTerm, String.utf8ByteSize_append]
    show 1 + term.utf8ByteSize + 1 = _
    omega
  unfold likeRefuses
  rw [length]

/-! ## Blobs -/

theorem filterBlob_toList {words : List String} (some : words ≠ []) :
    (filterBlob words).toList = words.flatMap (fun w => ' ' :: w.toList) ++ [' '] := by
  have joined : ∀ ws : List String, (String.join (ws.map (fun w => " " ++ w))).toList =
      ws.flatMap (fun w => ' ' :: w.toList) := by
    intro ws
    induction ws with
    | nil => rfl
    | cons w ws ih => simp [ih]
  rw [filterBlob, if_neg (by simpa using some)]
  simp [joined]

/-- A word of a blob is in it. -/
theorem infix_filterBlob {words : List String} {w : String} (listed : w ∈ words) :
    w.toList <:+: (filterBlob words).toList := by
  rw [filterBlob_toList (List.ne_nil_of_mem listed)]
  obtain ⟨before, after, rfl⟩ := List.append_of_mem listed
  exact ⟨before.flatMap (fun w => ' ' :: w.toList) ++ [' '],
    after.flatMap (fun w => ' ' :: w.toList) ++ [' '], by simp⟩

theorem prefix_of_separated {t a b : List Char} {c : Char} (absent : c ∉ t) (starts : t <+: a ++ c :: b) :
    t <+: a := by
  induction a generalizing t with
  | nil =>
    cases t with
    | nil => exact List.nil_prefix
    | cons x t =>
      obtain ⟨rfl, -⟩ := List.cons_prefix_cons.mp starts
      exact absurd List.mem_cons_self absent
  | cons y a ih =>
    cases t with
    | nil => exact List.nil_prefix
    | cons x t =>
      obtain ⟨rfl, rest⟩ := List.cons_prefix_cons.mp starts
      exact List.cons_prefix_cons.mpr
        ⟨rfl, ih (fun member => absent (List.mem_cons_of_mem _ member)) rest⟩

/-- What has no separator in it is on one side of it. -/
theorem infix_of_separated {t a b : List Char} {c : Char} (absent : c ∉ t) (within : t <:+: a ++ c :: b) :
    t <:+: a ∨ t <:+: b := by
  induction a with
  | nil =>
    rcases List.infix_cons_iff.mp within with starts | later
    · have empty := prefix_of_separated (a := []) absent starts
      rw [List.prefix_nil.mp empty]
      exact Or.inl (List.infix_refl [])
    · exact Or.inr later
  | cons y a ih =>
    rw [List.cons_append] at within
    rcases List.infix_cons_iff.mp within with starts | later
    · exact Or.inl (prefix_of_separated (a := y :: a) absent starts).isInfix
    · rcases ih later with left | right
      · exact Or.inl (left.trans (List.suffix_cons y a).isInfix)
      · exact Or.inr right

/-- A term without spaces that is in a blob is in one of its words. -/
theorem infix_word {t : List Char} {words : List String} (some : t ≠ []) (absent : ' ' ∉ t)
    (within : t <:+: (filterBlob words).toList) : ∃ w ∈ words, t <:+: w.toList := by
  have tail : ∀ (ws : List String) (a : List Char),
      t <:+: a ++ (ws.flatMap (fun w => ' ' :: w.toList) ++ [' ']) →
        t <:+: a ∨ ∃ w ∈ ws, t <:+: w.toList := by
    intro ws
    induction ws with
    | nil =>
      intro a within
      rcases infix_of_separated absent within with left | right
      · exact Or.inl left
      · exact absurd (List.infix_nil.mp right) some
    | cons w ws ih =>
      intro a within
      rw [List.flatMap_cons, List.cons_append, List.cons_append, List.append_assoc] at within
      rcases infix_of_separated absent within with left | right
      · exact Or.inl left
      · rcases ih w.toList right with here | ⟨w', listed, later⟩
        · exact Or.inr ⟨w, List.mem_cons_self, here⟩
        · exact Or.inr ⟨w', List.mem_cons_of_mem _ listed, later⟩
  by_cases none : words = []
  · subst none
    exact absurd (List.infix_nil.mp within) some
  · rw [filterBlob_toList none] at within
    rcases tail words [] within with empty | found
    · exact absurd (List.infix_nil.mp empty) some
    · exact found

/-! ## Searches -/

/-- What a directory search asks for. -/
structure Search where
  scope : DiscoverScope
  query : Option String
  tag : Option String
  skill : Option String
  status : Option String

/-- The text contains the term, whatever the case of either. -/
def mentions (ext : Externals) (text term : String) : Bool :=
  (ext.toLowercase term).toList <:+: (ext.toLowercase text).toList

def tagged (ext : Externals) (card : AgentCard) (term : String) : Bool :=
  (card.tags.getD []).any (fun t => mentions ext t term)

def skilled (ext : Externals) (card : AgentCard) (term : String) : Bool :=
  (card.skills.getD []).any (fun k => mentions ext k.id term || mentions ext k.name term)

namespace Search

variable (ext : Externals) (f : Search)

/-- The search describes an agent by its scope, name, tags and skills. -/
def describes (r : DirectoryRow × AgentRow) : Bool :=
  (f.scope ≠ .pub || r.1.visibility = .pub) &&
    f.query.all (fun q => mentions ext r.2.name q || tagged ext r.1.card q || skilled ext r.1.card q) &&
    f.tag.all (tagged ext r.1.card) && f.skill.all (skilled ext r.1.card)

/-- The row filters that `discover` makes of the search. -/
def filter : DirectoryFilter where
  publicOnly := f.scope = .pub
  query := f.query.map (fun t => wrapTerm (ext.toLowercase t))
  tag := f.tag.map (fun t => wrapTerm (ext.toLowercase t))
  skill := f.skill.map (fun t => wrapTerm (ext.toLowercase t))

def matched (r : DirectoryRow × AgentRow) : Bool :=
  Store.matchesFilter (f.filter ext) r.1 r.2

def hasStatus (s : Store) (now : Int) (r : DirectoryRow × AgentRow) : Bool :=
  f.status.all (fun w =>
    ext.toLowercase (Store.shownStatus now (s.presenceOf r.1.agent)) = ext.toLowercase w)

/-- A pattern matches what its term is not in. -/
def LetsIn (r : DirectoryRow × AgentRow) : Prop := f.matched ext r = true ∧ f.describes ext r = false

/-- The agent is described, and the query pattern matches neither its name, as `LOWER` leaves it,
    nor its blobs, or the pattern of the tag or the skill does not match its blob. -/
def Overlooks (r : DirectoryRow × AgentRow) : Prop :=
  f.describes ext r = true ∧
    ((∃ q ∈ f.query, sqlLike (wrapTerm (ext.toLowercase q)) (toAsciiLowercase r.2.name) = false ∧
        sqlLike (wrapTerm (ext.toLowercase q)) r.1.tags = false ∧
        sqlLike (wrapTerm (ext.toLowercase q)) r.1.skills = false) ∨
      (∃ t ∈ f.tag, sqlLike (wrapTerm (ext.toLowercase t)) r.1.tags = false) ∨
      ∃ k ∈ f.skill, sqlLike (wrapTerm (ext.toLowercase k)) r.1.skills = false)

end Search

namespace Store

variable (s : Store) (ext : Externals) (f : Search) (hub : String) (limit : Option Nat) (now : Int)

/-- The agents with a card, the one seen last first. -/
def listed : List (DirectoryRow × AgentRow) :=
  ranked (fun r => r.2.lastSeen) (s.directory.filterMap (fun d =>
    (s.agents.find? (fun a => a.id = d.agent)).map (fun a => (d, a))))

/-- The first of the agents that the search describes. -/
def searchResult : List DirectoryEntry :=
  ((s.listed.filter (fun r => f.hasStatus ext s now r && f.describes ext r)).map
    (fun r => s.toEntry hub now r.1 r.2)).take (min (limit.getD 200) 1000)

/-- No card brings the search to a pattern that SQLite refuses. Before the limit is reached, its
    patterns let nobody in and overlook nobody; and nothing matches them where the limit is 0. -/
structure SearchesWell : Prop where
  answered : ∀ d ∈ s.directory, s.comesToRefused (f.filter ext) d = false
  none : limit = some 0 → ∀ r ∈ s.listed, f.hasStatus ext s now r = true → f.matched ext r = false
  right : ∀ before r after, s.listed = before ++ r :: after →
    (before.filter (fun r => f.hasStatus ext s now r && f.matched ext r)).length <
      min (limit.getD 200) 1000 →
    f.hasStatus ext s now r = true → ¬ f.LetsIn ext r ∧ ¬ f.Overlooks ext r

/-- Each agent has one card, its own, and the blobs are those of the card. -/
structure Catalogued : Prop where
  keys : (s.directory.map DirectoryRow.agent).Nodup
  derived : ∀ d ∈ s.directory, d.agent = d.card.id ∧ d.tags = cardTags ext d.card ∧
    d.skills = cardSkills ext d.card

variable {s ext f hub limit now}

theorem registerCard_catalogued (catalogued : s.Catalogued ext) (card : AgentCard)
    (sig : Option String) (verified : Bool) (visibility : Visibility) :
    (s.registerCard ext card sig verified visibility now).Catalogued ext where
  keys := nodup_upsert (fun _ same => same) catalogued.keys
  derived := by
    intro d listed
    rcases mem_of_mem_upsert listed with old | rfl | ⟨r, old, same, rfl⟩
    · exact catalogued.derived d old
    · exact ⟨rfl, rfl, rfl⟩
    · exact ⟨same, rfl, rfl⟩

/-- What a blob is made of is found in it. -/
theorem sqlLike_filterBlob {words : List String} {text term : String} (termFree : NulFree (ext.toLowercase term))
    (blobFree : NulFree (filterBlob words)) (listed : ext.toLowercase text ∈ words)
    (literal : mentions ext text term = true) :
    sqlLike (wrapTerm (ext.toLowercase term)) (filterBlob words) = true := by
  apply sqlLike_of_within termFree blobFree
  exact ((of_decide_eq_true literal).trans (infix_filterBlob listed)).map asciiLower

theorem sqlLike_of_tagged {card : AgentCard} {term : String} (termFree : NulFree (ext.toLowercase term))
    (blobFree : NulFree (cardTags ext card)) (has : tagged ext card term = true) :
    sqlLike (wrapTerm (ext.toLowercase term)) (cardTags ext card) = true := by
  obtain ⟨t, listed, literal⟩ := List.any_eq_true.mp has
  exact sqlLike_filterBlob termFree blobFree (List.mem_map_of_mem listed) literal

theorem sqlLike_of_skilled {card : AgentCard} {term : String} (termFree : NulFree (ext.toLowercase term))
    (blobFree : NulFree (cardSkills ext card)) (has : skilled ext card term = true) :
    sqlLike (wrapTerm (ext.toLowercase term)) (cardSkills ext card) = true := by
  obtain ⟨k, listed, literal⟩ := List.any_eq_true.mp has
  rcases Bool.or_eq_true _ _ ▸ literal with id | name
  · refine sqlLike_filterBlob termFree blobFree (List.mem_flatMap.mpr ⟨k, listed, ?_⟩) id
    simp
  · refine sqlLike_filterBlob termFree blobFree (List.mem_flatMap.mpr ⟨k, listed, ?_⟩) name
    simp

theorem mem_listed {r : DirectoryRow × AgentRow} (member : r ∈ s.listed) : r.1 ∈ s.directory := by
  obtain ⟨d, listed, joined⟩ := List.mem_filterMap.mp (mem_ranked.mp member)
  obtain ⟨a, -, rfl⟩ := Option.map_eq_some_iff.mp joined
  exact listed

theorem matched_iff {r : DirectoryRow × AgentRow} : f.matched ext r = true ↔
    (f.scope = .pub → r.1.visibility = .pub) ∧
    (∀ q ∈ f.query, sqlLike (wrapTerm (ext.toLowercase q)) (toAsciiLowercase r.2.name) = true ∨
      sqlLike (wrapTerm (ext.toLowercase q)) r.1.tags = true ∨
      sqlLike (wrapTerm (ext.toLowercase q)) r.1.skills = true) ∧
    (∀ t ∈ f.tag, sqlLike (wrapTerm (ext.toLowercase t)) r.1.tags = true) ∧
    ∀ k ∈ f.skill, sqlLike (wrapTerm (ext.toLowercase k)) r.1.skills = true := by
  obtain ⟨scope, query, tag, skill, status⟩ := f
  cases scope <;> cases query <;> cases tag <;> cases skill <;>
    simp [Search.matched, matchesFilter, Search.filter, or_assoc, and_assoc]

theorem describes_iff {r : DirectoryRow × AgentRow} : f.describes ext r = true ↔
    (f.scope = .pub → r.1.visibility = .pub) ∧
    (∀ q ∈ f.query, mentions ext r.2.name q = true ∨ tagged ext r.1.card q = true ∨
      skilled ext r.1.card q = true) ∧
    (∀ t ∈ f.tag, tagged ext r.1.card t = true) ∧
    ∀ k ∈ f.skill, skilled ext r.1.card k = true := by
  obtain ⟨scope, query, tag, skill, status⟩ := f
  cases scope <;> cases query <;> cases tag <;> cases skill <;>
    simp [Search.describes, or_assoc, and_assoc]

/-- The patterns judge an agent as the search does unless they let it in or overlook it. -/
theorem judged_iff (ext : Externals) (f : Search) (r : DirectoryRow × AgentRow) :
    f.matched ext r = f.describes ext r ↔ ¬ f.LetsIn ext r ∧ ¬ f.Overlooks ext r := by
  constructor
  · intro same
    constructor
    · rintro ⟨found, strange⟩
      rw [same, strange] at found
      cases found
    · rintro ⟨described, missed⟩
      rw [← same] at described
      obtain ⟨-, query, tag, skill⟩ := matched_iff.mp described
      rcases missed with ⟨q, asked, name, inTags, inSkills⟩ | ⟨t, asked, inTags⟩ | ⟨k, asked, inSkills⟩
      · have found := query q asked
        simp [name, inTags, inSkills] at found
      · have found := tag t asked
        simp [inTags] at found
      · have found := skill k asked
        simp [inSkills] at found
  · rintro ⟨notIn, notOver⟩
    cases found : f.matched ext r with
    | true =>
      by_contra strange
      exact notIn ⟨found, by simpa using Ne.symm strange⟩
    | false =>
      by_contra strange
      have described : f.describes ext r = true := by simpa using Ne.symm strange
      have hit : f.matched ext r = true := by
        refine matched_iff.mpr ⟨(describes_iff.mp described).1, ?_, ?_, ?_⟩
        · intro q asked
          by_contra! missed
          exact notOver ⟨described, Or.inl ⟨q, asked, by simpa using missed⟩⟩
        · intro t asked
          by_contra missed
          exact notOver ⟨described, Or.inr (Or.inl ⟨t, asked, by simpa using missed⟩)⟩
        · intro k asked
          by_contra missed
          exact notOver ⟨described, Or.inr (Or.inr ⟨k, asked, by simpa using missed⟩)⟩
      rw [found] at hit
      cases hit

/-- The texts of a row that SQLite reads to their end. -/
structure NulFreeRow (r : DirectoryRow × AgentRow) : Prop where
  name : NulFree r.2.name
  tags : NulFree r.1.tags
  skills : NulFree r.1.skills

/-- Without NULs an agent is overlooked only by its name: a tag or a skill that has a term matches its
    pattern. -/
theorem overlooked_name (catalogued : s.Catalogued ext) {r : DirectoryRow × AgentRow}
    (member : r ∈ s.listed) (row : NulFreeRow r)
    (terms : ∀ term, term ∈ f.query ∨ term ∈ f.tag ∨ term ∈ f.skill → NulFree (ext.toLowercase term))
    (overlooks : f.Overlooks ext r) : ∃ q ∈ f.query, mentions ext r.2.name q = true ∧
      sqlLike (wrapTerm (ext.toLowercase q)) (toAsciiLowercase r.2.name) = false := by
  obtain ⟨-, tags, skills⟩ := catalogued.derived r.1 (mem_listed member)
  obtain ⟨described, missed⟩ := overlooks
  obtain ⟨-, query, tag, skill⟩ := describes_iff.mp described
  have inTags : ∀ t, NulFree (ext.toLowercase t) → tagged ext r.1.card t = true →
      sqlLike (wrapTerm (ext.toLowercase t)) r.1.tags = true := by
    intro t free has
    rw [tags]
    exact sqlLike_of_tagged free (tags ▸ row.tags) has
  have inSkills : ∀ k, NulFree (ext.toLowercase k) → skilled ext r.1.card k = true →
      sqlLike (wrapTerm (ext.toLowercase k)) r.1.skills = true := by
    intro k free has
    rw [skills]
    exact sqlLike_of_skilled free (skills ▸ row.skills) has
  rcases missed with ⟨q, asked, name, noTag, noSkill⟩ | ⟨t, asked, noTag⟩ | ⟨k, asked, noSkill⟩
  · have free := terms q (Or.inl asked)
    rcases query q asked with named | has | has
    · exact ⟨q, asked, named, name⟩
    · rw [inTags q free has] at noTag
      cases noTag
    · rw [inSkills q free has] at noSkill
      cases noSkill
  · rw [inTags t (terms t (Or.inr (Or.inl asked))) (tag t asked)] at noTag
    cases noTag
  · rw [inSkills k (terms k (Or.inr (Or.inr asked))) (skill k asked)] at noSkill
    cases noSkill

/-- The listed cards are cards of the directory, each listed once. -/
theorem listed_subperm (s : Store) : (s.listed.map Prod.fst).Subperm s.directory := by
  have joined : ∀ rows : List DirectoryRow, ((rows.filterMap (fun d =>
      (s.agents.find? (fun a => a.id = d.agent)).map (fun a => (d, a)))).map Prod.fst).Sublist rows := by
    intro rows
    induction rows with
    | nil => exact List.Sublist.refl _
    | cons d rest ih =>
      cases found : s.agents.find? (fun a => a.id = d.agent) with
      | none =>
        rw [List.filterMap_cons_none (by rw [found]; rfl)]
        exact ih.cons _
      | some a =>
        rw [List.filterMap_cons_some (b := (d, a)) (by rw [found]; rfl)]
        exact ih.cons_cons _
  exact ((ranked_perm _).map Prod.fst).subperm.trans (joined s.directory).subperm

/-- Entries of different agents differ. -/
theorem listed_nodup (catalogued : s.Catalogued ext) :
    (s.listed.map (fun r => s.toEntry hub now r.1 r.2)).Nodup := by
  have agents : (s.listed.map (fun r => r.1.agent)).Nodup := by
    obtain ⟨rows, same, part⟩ := listed_subperm s
    have keys : (rows.map DirectoryRow.agent).Nodup := catalogued.keys.sublist (part.map _)
    rw [(same.map DirectoryRow.agent).nodup_iff, List.map_map] at keys
    exact keys
  rw [List.nodup_map_iff_inj_on (List.Nodup.of_map _ agents)]
  intro r member r' member' same
  apply List.inj_on_of_nodup_map agents member member'
  have cards : r.1.card = r'.1.card := congrArg DirectoryEntry.card same
  rw [(catalogued.derived r.1 (mem_listed member)).1, (catalogued.derived r'.1 (mem_listed member')).1,
    cards]

/-- `discover` takes the first of the agents that match, unless it comes to a pattern that SQLite
    refuses. -/
theorem discover_eq (s : Store) (ext : Externals) (f : Search) (hub : String) (limit : Option Nat)
    (now : Int) : s.discover ext f.scope hub f.query f.tag f.skill f.status limit now =
      if s.directory.any (s.comesToRefused (f.filter ext)) then
        .error (.plain "LIKE or GLOB pattern too complex")
      else
        .ok (((s.listed.filter (fun r => f.hasStatus ext s now r && f.matched ext r)).map
          (fun r => s.toEntry hub now r.1 r.2)).take (max 1 (min (limit.getD 200) 1000))) := by
  have rows := ranked_filter (fun r : DirectoryRow × AgentRow => r.2.lastSeen) (f.matched ext)
    (s.directory.filterMap (fun d => (s.agents.find? (fun a => a.id = d.agent)).map (fun a => (d, a))))
  have split : s.listed.filter (fun r => f.hasStatus ext s now r && f.matched ext r) =
      (s.listed.filter (f.matched ext)).filter (f.hasStatus ext s now) := by
    rw [List.filter_filter]
  rw [split]
  unfold listed
  rw [← rows]
  unfold discover
  cases wanted : f.status with
  | none =>
    have every : f.hasStatus ext s now = fun _ => true := by
      funext r
      simp [Search.hasStatus, wanted]
    rw [every, List.filter_true]
    rfl
  | some w =>
    have status : f.hasStatus ext s now = fun r =>
        decide (ext.toLowercase (s.toEntry hub now r.1 r.2).status = ext.toLowercase w) := by
      funext r
      simp only [Search.hasStatus, wanted, Option.all_some]
      rfl
    rw [status]
    dsimp only [Option.map_some]
    rw [List.filter_map]
    rfl

/-- A search is exact exactly where it is answered and its patterns judge well. -/
theorem searchesWell_iff (catalogued : s.Catalogued ext) :
    s.discover ext f.scope hub f.query f.tag f.skill f.status limit now =
      .ok (s.searchResult ext f hub limit now) ↔ s.SearchesWell ext f limit now := by
  rw [discover_eq]
  split
  · rename_i refused
    obtain ⟨d, member, comes⟩ := List.any_eq_true.mp refused
    refine ⟨nofun, ?_⟩
    intro well
    rw [well.answered d member] at comes
    cases comes
  rename_i taken
  have answered : ∀ d ∈ s.directory, s.comesToRefused (f.filter ext) d = false := by
    intro d member
    by_contra comes
    exact taken (List.any_eq_true.mpr ⟨d, member, by simpa using comes⟩)
  rw [Except.ok.injEq]
  have alike : ∀ r ∈ s.listed, ((f.hasStatus ext s now r && f.matched ext r) =
      (f.hasStatus ext s now r && f.describes ext r) ↔
        (f.hasStatus ext s now r = true → ¬ f.LetsIn ext r ∧ ¬ f.Overlooks ext r)) := by
    intro r member
    rw [← judged_iff]
    cases f.hasStatus ext s now r <;> simp
  rw [searchResult]
  by_cases zero : limit = some 0
  · subst zero
    constructor
    · intro equal
      refine ⟨answered, ?_, ?_⟩
      · intro _ r member status
        have empty : s.listed.filter (fun r => f.hasStatus ext s now r && f.matched ext r) = [] := by
          simpa using equal
        have out := List.filter_eq_nil_iff.mp empty r member
        simpa [status] using out
      · intro before r after _ few
        simp at few
    · intro well
      have empty : s.listed.filter (fun r => f.hasStatus ext s now r && f.matched ext r) = [] := by
        apply List.filter_eq_nil_iff.mpr
        intro r member
        cases status : f.hasStatus ext s now r with
        | false => simp
        | true => simp [well.none rfl r member status]
      rw [empty]
      simp
  · have positive : max 1 (min (limit.getD 200) 1000) = min (limit.getD 200) 1000 := by
      cases limit with
      | none => rfl
      | some n =>
        have : n ≠ 0 := fun h => zero (by rw [h])
        simp only [Option.getD_some]
        omega
    rw [positive, take_filter_eq_iff (listed_nodup catalogued)]
    constructor
    · intro all
      refine ⟨answered, fun none => absurd none zero, ?_⟩
      intro before r after split few
      have member : r ∈ s.listed := by
        rw [split]
        simp
      exact (alike r member).mp (all before r after split few)
    · intro well before r after split few
      have member : r ∈ s.listed := by
        rw [split]
        simp
      exact (alike r member).mpr (well.right before r after split few)

/-! ## Plain searches -/

/-- `str::to_lowercase` leaves no ASCII capitals. -/
def Lowers (ext : Externals) : Prop :=
  ∀ text, toAsciiLowercase (ext.toLowercase text) = ext.toLowercase text

/-- A term without wildcards, spaces and NULs that is not too long for a pattern. -/
structure PlainTerm (term : String) : Prop where
  some : term.toList ≠ []
  wildcards : '%' ∉ term.toList ∧ '_' ∉ term.toList
  space : ' ' ∉ term.toList
  free : NulFree term
  fits : byteLen term + 2 ≤ maxLikePattern

def PlainSearch (ext : Externals) (f : Search) : Prop :=
  ∀ term, term ∈ f.query ∨ term ∈ f.tag ∨ term ∈ f.skill → PlainTerm (ext.toLowercase term)

theorem map_asciiLower {text : String} (lower : toAsciiLowercase text = text) :
    text.toList.map asciiLower = text.toList := by
  have chars := congrArg String.toList lower
  simpa [toAsciiLowercase] using chars

theorem map_filterBlob {words : List String} (lower : ∀ w ∈ words, toAsciiLowercase w = w) :
    (filterBlob words).toList.map asciiLower = (filterBlob words).toList := by
  by_cases none : words = []
  · subst none
    rfl
  · rw [filterBlob_toList none, List.map_append, List.map_flatMap]
    congr 1
    apply List.flatMap_congr
    intro w listed
    rw [List.map_cons, map_asciiLower (lower w listed)]
    rfl

/-- A plain term that matches a blob is in one of its words. -/
theorem word_of_sqlLike {words : List String} {term : String} (plain : PlainTerm term)
    (lower : toAsciiLowercase term = term) (lowers : ∀ w ∈ words, toAsciiLowercase w = w)
    (found : sqlLike (wrapTerm term) (filterBlob words) = true) :
    ∃ w ∈ words, term.toList <:+: w.toList := by
  have within := infix_of_sqlLike plain.free plain.wildcards found
  rw [map_asciiLower lower, map_filterBlob lowers] at within
  exact infix_word plain.some plain.space within

theorem tagged_of_sqlLike (lowers : Lowers ext) {card : AgentCard} {term : String}
    (plain : PlainTerm (ext.toLowercase term))
    (found : sqlLike (wrapTerm (ext.toLowercase term)) (cardTags ext card) = true) :
    tagged ext card term = true := by
  have lower : ∀ w ∈ (card.tags.getD []).map ext.toLowercase, toAsciiLowercase w = w := by
    intro w listed
    obtain ⟨t, -, rfl⟩ := List.mem_map.mp listed
    exact lowers t
  obtain ⟨w, listed, within⟩ := word_of_sqlLike plain (lowers term) lower found
  obtain ⟨t, member, rfl⟩ := List.mem_map.mp listed
  exact List.any_eq_true.mpr ⟨t, member, decide_eq_true within⟩

theorem skilled_of_sqlLike (lowers : Lowers ext) {card : AgentCard} {term : String}
    (plain : PlainTerm (ext.toLowercase term))
    (found : sqlLike (wrapTerm (ext.toLowercase term)) (cardSkills ext card) = true) :
    skilled ext card term = true := by
  have words : ∀ w ∈ (card.skills.getD []).flatMap (fun k => [ext.toLowercase k.id, ext.toLowercase k.name]),
      ∃ k ∈ card.skills.getD [], w = ext.toLowercase k.id ∨ w = ext.toLowercase k.name := by
    intro w listed
    obtain ⟨k, listed, either⟩ := List.mem_flatMap.mp listed
    exact ⟨k, listed, by simpa using either⟩
  have lower : ∀ w ∈ (card.skills.getD []).flatMap
      (fun k => [ext.toLowercase k.id, ext.toLowercase k.name]), toAsciiLowercase w = w := by
    intro w listed
    obtain ⟨k, -, rfl | rfl⟩ := words w listed
    · exact lowers k.id
    · exact lowers k.name
  obtain ⟨w, listed, within⟩ := word_of_sqlLike plain (lowers term) lower found
  obtain ⟨k, member, either⟩ := words w listed
  apply List.any_eq_true.mpr
  refine ⟨k, member, ?_⟩
  rcases either with rfl | rfl
  · simp [mentions, within]
  · simp [mentions, within]

/-- The texts of an agent that plain terms judge well: its name has no capitals beyond ASCII, and nothing
    has a NUL. -/
structure PlainRow (ext : Externals) (r : DirectoryRow × AgentRow) : Prop where
  lower : toAsciiLowercase r.2.name = ext.toLowercase r.2.name
  free : NulFreeRow r

theorem nulFree_toAsciiLowercase {text : String} (free : NulFree text) : NulFree (toAsciiLowercase text) := by
  unfold NulFree toAsciiLowercase
  rw [String.toList_ofList]
  intro member
  obtain ⟨c, within, same⟩ := List.mem_map.mp member
  refine free (?_ : '\x00' ∈ text.toList)
  have keeps : c = '\x00' := by
    unfold asciiLower at same
    split at same
    · rename_i capital
      have none : ∀ n < 91, Char.ofNat (n + 32) ≠ '\x00' := by decide
      rw [Bool.and_eq_true, decide_eq_true_eq, decide_eq_true_eq] at capital
      exact absurd same (none _ (Nat.lt_succ_of_le capital.2))
    · exact same
  exact keeps ▸ within

theorem plain_judges (catalogued : s.Catalogued ext) (lowers : Lowers ext) (plain : PlainSearch ext f)
    {r : DirectoryRow × AgentRow} (member : r ∈ s.listed) (row : PlainRow ext r) :
    ¬ f.LetsIn ext r ∧ ¬ f.Overlooks ext r := by
  have name := row.lower
  obtain ⟨-, tags, skills⟩ := catalogued.derived r.1 (mem_listed member)
  have fixed : (ext.toLowercase r.2.name).toList.map asciiLower = (ext.toLowercase r.2.name).toList :=
    map_asciiLower (lowers r.2.name)
  constructor
  · rintro ⟨found, strange⟩
    obtain ⟨scope, query, tag, skill⟩ := matched_iff.mp found
    rw [tags] at query tag
    rw [skills] at query skill
    have described : f.describes ext r = true := by
      refine describes_iff.mpr ⟨scope, ?_, ?_, ?_⟩
      · intro q asked
        have plain := plain q (Or.inl asked)
        rcases query q asked with named | inTags | inSkills
        · rw [name] at named
          have within := infix_of_sqlLike plain.free plain.wildcards named
          rw [fixed, map_asciiLower (lowers q)] at within
          exact Or.inl (decide_eq_true within)
        · exact Or.inr (Or.inl (tagged_of_sqlLike lowers plain inTags))
        · exact Or.inr (Or.inr (skilled_of_sqlLike lowers plain inSkills))
      · intro t asked
        exact tagged_of_sqlLike lowers (plain t (Or.inr (Or.inl asked))) (tag t asked)
      · intro k asked
        exact skilled_of_sqlLike lowers (plain k (Or.inr (Or.inr asked))) (skill k asked)
    rw [described] at strange
    cases strange
  · intro overlooks
    obtain ⟨q, asked, named, missed⟩ := overlooked_name catalogued member row.free
      (fun term asked => (plain term asked).free) overlooks
    have free := nulFree_toAsciiLowercase row.free.name
    rw [name] at missed free
    rw [sqlLike_of_within (plain q (Or.inl asked)).free free
      ((of_decide_eq_true named).map asciiLower)] at missed
    cases missed

/-- Plain terms make patterns that SQLite takes. -/
theorem plain_answered (plain : PlainSearch ext f) (d : DirectoryRow) :
    s.comesToRefused (f.filter ext) d = false := by
  have taken : ∀ term, term ∈ f.query ∨ term ∈ f.tag ∨ term ∈ f.skill →
      likeRefuses (wrapTerm (ext.toLowercase term)) = false := by
    intro term asked
    rw [likeRefuses_wrapTerm]
    exact decide_eq_false (not_lt.mpr (plain term asked).fits)
  have none : ∀ asked : Option String, (∀ term ∈ asked, term ∈ f.query ∨ term ∈ f.tag ∨ term ∈ f.skill) →
      (asked.map (fun t => wrapTerm (ext.toLowercase t))).any likeRefuses = false := by
    intro asked listed
    cases asked with
    | none => rfl
    | some term => exact taken term (listed term rfl)
  unfold comesToRefused Search.filter
  dsimp only
  rw [none f.query (fun _ asked => Or.inl asked), none f.tag (fun _ asked => Or.inr (Or.inl asked)),
    none f.skill (fun _ asked => Or.inr (Or.inr asked))]
  simp

end Store

/-! ## The directory of a hub -/

/-- The store of a hub that was started over an empty database and took some calls. -/
def storeAfter (cfg : HubConfig) (inflight : Nat) (ops : List HubCall) : Store :=
  (ops.foldl (fun h op => (op.exec cfg h).2) (HubState.boot inflight)).store

theorem catalogued_exec {cfg : HubConfig} {h : HubState} (catalogued : h.store.Catalogued cfg.ext)
    (op : HubCall) : (op.exec cfg h).2.store.Catalogued cfg.ext := by
  by_cases written : TableName.directory ∈ op.writes
  · cases op with
    | registerCard card sig verified visibility now =>
      exact Store.registerCard_catalogued catalogued card sig verified visibility
    | _ => simp [HubCall.writes] at written
  · have same : (op.exec cfg h).2.store.directory = h.store.directory :=
      exec_same cfg op h .directory written
    constructor
    · rw [same]
      exact catalogued.keys
    · rw [same]
      exact catalogued.derived

theorem storeAfter_catalogued (cfg : HubConfig) (inflight : Nat) (ops : List HubCall) :
    (storeAfter cfg inflight ops).Catalogued cfg.ext := by
  have run : ∀ h : HubState, h.store.Catalogued cfg.ext →
      (ops.foldl (fun h op => (op.exec cfg h).2) h).store.Catalogued cfg.ext := by
    induction ops with
    | nil => exact fun h catalogued => catalogued
    | cons op ops ih => exact fun h catalogued => ih _ (catalogued_exec catalogued op)
  apply run
  refine ⟨List.nodup_nil, ?_⟩
  intro d listed
  cases listed

/-- Lowercasing of ASCII and of the accented capitals of Latin-1. -/
def latinLower (c : Char) : Char :=
  if 0xC0 ≤ c.toNat && c.toNat ≤ 0xDE && c.toNat != 0xD7 then Char.ofNat (c.toNat + 32)
  else asciiLower c

def latinConfig : HubConfig :=
  { demoConfig with
    ext := { demoExternals with
      toLowercase := fun text => String.ofList (text.toList.map latinLower) } }

def plainCard (id name : String) (tags : List String) : AgentCard :=
  ⟨id, name, .agent, none, none, some tags, none, none, none⟩

/-- Two agents with cards, one named with an accent. -/
def accentedCalls : List HubCall :=
  [.upsertAgent "A" "Éva" none 1, .registerCard (plainCard "A" "Éva" ["docs"]) none false .pub 1,
    .upsertAgent "B" "Bob" none 2, .registerCard (plainCard "B" "Bob" ["log files"]) none false .pub 2]

def named (query : String) : Search := ⟨.pub, some query, none, none, none⟩

/-- The ids of what a search answers. -/
def foundIds (answer : Except Failure (List DirectoryEntry)) : Option (List String) :=
  answer.toOption.map (fun entries => entries.map (·.card.id))

end Parler.Hub
