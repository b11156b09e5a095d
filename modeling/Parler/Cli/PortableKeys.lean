import Mathlib.Data.List.DropRight
import Parler.Cli.Texts
import Parler.Hub.Server

/-!
# Invite descriptors

The code of an invite is passed on with its hub: in the compact form `<code>@<hub>`, or in the link that the
hub prints, `<hub>/join/<code>`. `split_portable_key` of `crates/parler-cli/src/lib.rs` takes both apart before the
client dials; `normalize_code` of `crates/parler-hub/src/server.rs` takes the code out of a link that was sent as
it is.
-/

namespace Parler.Cli

open Parler.Protocol Parler.Hub

/-! ## The two parsers -/

/-- `CODE_ALPHABET`, of which `gen_code` draws. -/
def codeAlphabet : List Char := "ABCDEFGHJKLMNPQRSTUVWXYZ23456789".toList

def linkSchemes : List (List Char) :=
  ["parler".toList, "ws".toList, "wss".toList, "http".toList, "https".toList]

/-- What ends the code of a link. -/
def codeEnds : List Char := ['/', '?', '#']

/-- `<code>@<hub>`, as the code and the hub. -/
def compactKey (key : List Char) : Option (List Char × List Char) :=
  (splitOnceChars ['@'] key).filter
    (fun halves => halves.1 ≠ [] ∧ halves.2 ≠ [] ∧ ':' ∉ halves.1 ∧ '/' ∉ halves.1)

/-- `<scheme>://<hub>/join/<code>`, as the code and the hub. -/
def linkKey (key : List Char) : Option (List Char × List Char) :=
  (splitOnceChars "/join/".toList key).bind fun halves =>
    let scheme := (splitOnceChars "://".toList halves.1).map Prod.fst
    let code := halves.2.takeWhile (fun c => c ∉ codeEnds)
    if (∃ known ∈ linkSchemes, scheme = some known) ∧ code ≠ [] then some (code, halves.1) else none

/-- `split_portable_key` -/
def splitPortableKey (key : String) : String × Option String :=
  let key := trimChars key.toList
  match (compactKey key).or (linkKey key) with
  | some (code, hub) => (String.ofList code, some (String.ofList hub))
  | none => (String.ofList key, none)

/-- The `url` of the hub's `Invited` frame. -/
def inviteUrl (publicUrl code : String) : String := publicUrl ++ "/join/" ++ code

/-! ## The last separator -/

theorem afterLast_none_iff {pat cs : List Char} (some_char : pat ≠ []) :
    afterLast pat cs = none ↔ ¬ pat <:+: cs := by
  induction cs with
  | nil => simp [afterLast, some_char]
  | cons c cs ih =>
    rw [afterLast, List.infix_cons_iff]
    cases later : afterLast pat cs with
    | some rest =>
      have found : pat <:+: cs := by
        by_contra missing
        rw [ih.mpr missing] at later
        cases later
      simp [found]
    | none =>
      have missing := ih.mp later
      by_cases here : pat <+: c :: cs
      · simp [List.isPrefixOf_iff_prefix.mpr here, here]
      · have apart : pat.isPrefixOf (c :: cs) = false :=
          Bool.eq_false_iff.mpr (fun begins => here (List.isPrefixOf_iff_prefix.mp begins))
        simp [apart, here, missing]

/-- What stands behind the last place of a pattern: from there on it has no place any more, not even one
    that begins within the last. -/
structure BehindLast (pat cs rest : List Char) : Prop where
  there : pat ++ rest <:+ cs
  last : ¬ pat <:+: (pat ++ rest).tail

/-- A proper end of a text is an end of its tail. -/
theorem suffix_tail {cs ds : List Char} (ends : cs <:+ ds) (proper : cs ≠ ds) : cs <:+ ds.tail := by
  cases ds with
  | nil => exact absurd (List.suffix_nil.mp ends) proper
  | cons d ds => exact (List.suffix_cons_iff.mp ends).resolve_left proper

theorem BehindLast.unique {pat cs rest rest' : List Char} (here : BehindLast pat cs rest)
    (there : BehindLast pat cs rest') : rest = rest' := by
  by_contra other
  have differ : pat ++ rest ≠ pat ++ rest' := fun same => other (List.append_cancel_left same)
  rcases List.suffix_or_suffix_of_suffix here.there there.there with within | within
  · exact there.last ((List.prefix_append pat rest).isInfix.trans (suffix_tail within differ).isInfix)
  · exact here.last ((List.prefix_append pat rest').isInfix.trans (suffix_tail within differ.symm).isInfix)

theorem behindLast_of_afterLast {pat cs rest : List Char} (some_char : pat ≠ [])
    (found : afterLast pat cs = some rest) : BehindLast pat cs rest := by
  induction cs with
  | nil => cases found
  | cons c cs ih =>
    rw [afterLast] at found
    cases later : afterLast pat cs with
    | some rest' =>
      simp only [later, Option.some.injEq] at found
      subst found
      obtain ⟨there, last⟩ := ih later
      exact ⟨there.trans (List.suffix_cons c cs), last⟩
    | none =>
      simp only [later] at found
      split_ifs at found with here
      cases found
      obtain ⟨rest, split⟩ := List.isPrefixOf_iff_prefix.mp here
      have missing := (afterLast_none_iff some_char).mp later
      rw [← split, List.drop_left]
      exact ⟨split ▸ List.suffix_rfl, by rwa [split]⟩

theorem afterLast_iff {pat cs rest : List Char} (some_char : pat ≠ []) :
    afterLast pat cs = some rest ↔ BehindLast pat cs rest := by
  constructor
  · exact behindLast_of_afterLast some_char
  · intro there
    cases found : afterLast pat cs with
    | none =>
      have place : pat <:+: cs := (List.prefix_append pat rest).isInfix.trans there.there.isInfix
      exact absurd place ((afterLast_none_iff some_char).mp found)
    | some rest' => rw [(behindLast_of_afterLast some_char found).unique there]

/-- What stands before and behind the first place of a separator: no place ends before that one does. -/
structure AroundFirst (sep cs front back : List Char) : Prop where
  split : cs = front ++ (sep ++ back)
  first : ¬ sep <:+: front ++ sep.dropLast

theorem AroundFirst.length_le {sep cs front back front' back' : List Char} (some_char : sep ≠ [])
    (here : AroundFirst sep cs front back) (there : AroundFirst sep cs front' back') :
    front'.length ≤ front.length := by
  by_contra longer
  have positive := List.length_pos_of_ne_nil some_char
  have whole : front ++ sep <+: cs := ⟨back, by rw [here.split, List.append_assoc]⟩
  have most : front' ++ sep.dropLast <+: cs := by
    rw [there.split]
    exact (List.prefix_append_right_inj front').mpr ((List.dropLast_prefix sep).trans (List.prefix_append sep back'))
  have within : front ++ sep <+: front' ++ sep.dropLast := by
    apply List.prefix_of_prefix_length_le whole most
    simp only [List.length_append, List.length_dropLast]
    omega
  exact there.first ((List.suffix_append front sep).isInfix.trans within.isInfix)

theorem AroundFirst.unique {sep cs front back front' back' : List Char} (some_char : sep ≠ [])
    (here : AroundFirst sep cs front back) (there : AroundFirst sep cs front' back') :
    front = front' ∧ back = back' := by
  have length := Nat.le_antisymm (there.length_le some_char here) (here.length_le some_char there)
  obtain ⟨fronts, backs⟩ := List.append_inj (here.split.symm.trans there.split) length
  exact ⟨fronts, List.append_cancel_left backs⟩

theorem aroundFirst_of_splitOnceChars {sep cs front back : List Char} (some_char : sep ≠ [])
    (found : splitOnceChars sep cs = some (front, back)) : AroundFirst sep cs front back := by
  have split := splitOnceChars_some found
  rw [List.append_assoc] at split
  refine ⟨split, fun early => ?_⟩
  cases other : splitOnceChars sep (front ++ sep.dropLast) with
  | none => exact (splitOnceChars_none_iff some_char).mp other early
  | some halves =>
    have again := splitOnceChars_append some_char ([sep.getLast some_char] ++ back) other
    have whole : front ++ sep.dropLast ++ ([sep.getLast some_char] ++ back) = cs := by
      rw [split, List.append_assoc, ← List.append_assoc sep.dropLast, List.dropLast_append_getLast]
    rw [whole, found] at again
    have same : front = halves.1 := congrArg Prod.fst (Option.some.inj again)
    have shorter := congrArg List.length (splitOnceChars_some other)
    have positive := List.length_pos_of_ne_nil some_char
    simp only [List.length_append, List.length_dropLast, ← same] at shorter
    omega

theorem splitOnceChars_iff {sep cs front back : List Char} (some_char : sep ≠ []) :
    splitOnceChars sep cs = some (front, back) ↔ AroundFirst sep cs front back := by
  constructor
  · exact aroundFirst_of_splitOnceChars some_char
  · intro around
    cases found : splitOnceChars sep cs with
    | none =>
      have place : sep <:+: cs := ⟨front, back, by rw [around.split, List.append_assoc]⟩
      exact absurd place ((splitOnceChars_none_iff some_char).mp found)
    | some halves =>
      obtain ⟨fronts, backs⟩ := (aroundFirst_of_splitOnceChars some_char found).unique some_char around
      rw [← fronts, ← backs]

/-! ## Links -/

/-- A link as `split_portable_key` recognises it: the hub, the code, and what trails it. -/
structure IsLink (hub code trailing : List Char) : Prop where
  scheme : ∃ known ∈ linkSchemes, ∃ host, hub = known ++ "://".toList ++ host
  first : ¬ "/join/".toList <:+: hub ++ "/join".toList
  some_char : code ≠ []
  plain : ∀ c ∈ code, c ∉ codeEnds
  ends : ∀ c ∈ trailing.head?, c ∈ codeEnds

theorem split_scheme {known : List Char} (member : known ∈ linkSchemes) (host : List Char) :
    splitOnceChars "://".toList (known ++ "://".toList ++ host) = some (known, host) := by
  rw [splitOnceChars_iff (by simp)]
  refine ⟨List.append_assoc .., ?_⟩
  simp only [linkSchemes, List.mem_cons, List.not_mem_nil, or_false] at member
  rcases member with rfl | rfl | rfl | rfl | rfl <;> decide +kernel

/-- No text that begins with a scheme reads as the compact form: its colon comes before any at sign. -/
theorem compactKey_of_scheme {known : List Char} (member : known ∈ linkSchemes) (rest : List Char) :
    compactKey (known ++ "://".toList ++ rest) = none := by
  rw [compactKey, Option.filter_eq_none_iff]
  rintro ⟨code, hub⟩ found compact
  simp only [ne_eq, decide_eq_true_eq] at compact
  have split := splitOnceChars_some found
  have no_at : '@' ∉ known ++ "://".toList := by
    simp only [linkSchemes, List.mem_cons, List.not_mem_nil, or_false] at member
    rcases member with rfl | rfl | rfl | rfl | rfl <;> decide +kernel
  have at_code : code ++ ['@'] <+: known ++ "://".toList ++ rest := ⟨hub, split.symm⟩
  have colon : ':' ∈ known ++ "://".toList := List.mem_append_right _ (by simp)
  rcases List.prefix_or_prefix_of_prefix at_code (List.prefix_append _ rest) with within | within
  · exact no_at (within.subset (by simp))
  · rcases List.mem_append.mp (within.subset colon) with inside | at_sign
    · exact compact.2.2.1 inside
    · simp at at_sign

theorem IsLink.takeWhile {hub code trailing : List Char} (link : IsLink hub code trailing) :
    (code ++ trailing).takeWhile (fun c => c ∉ codeEnds) = code := by
  rw [List.takeWhile_append_of_pos (fun c member => by simpa using link.plain c member)]
  have stopped : trailing.takeWhile (fun c => c ∉ codeEnds) = [] := by
    cases trailing with
    | nil => rfl
    | cons c trailing => exact List.takeWhile_cons_of_neg (by simpa using link.ends c rfl)
  rw [stopped, List.append_nil]

/-- What the client recognises as a link. -/
theorem linkKey_iff {key code hub : List Char} :
    linkKey key = some (code, hub) ↔
      ∃ trailing, key = hub ++ ("/join/".toList ++ (code ++ trailing)) ∧ IsLink hub code trailing := by
  rw [linkKey]
  constructor
  · intro found
    obtain ⟨⟨front, tail⟩, split, found⟩ := Option.bind_eq_some_iff.mp found
    simp only at found
    split_ifs at found with recognised
    cases found
    obtain ⟨⟨_, member, scheme⟩, some_char⟩ := recognised
    obtain ⟨⟨known, host⟩, host_split, same⟩ := Option.map_eq_some_iff.mp scheme
    cases same
    have around := aroundFirst_of_splitOnceChars (by simp) split
    refine ⟨tail.dropWhile (fun c => c ∉ codeEnds), ?_, ?_⟩
    · rw [List.takeWhile_append_dropWhile]
      exact around.split
    · refine ⟨⟨_, member, host, splitOnceChars_some host_split⟩, around.first, some_char, ?_, ?_⟩
      · intro c taken
        simpa using List.mem_takeWhile_imp taken
      · intro c head
        have stops := List.head?_dropWhile_not (fun c => decide (c ∉ codeEnds)) tail
        rw [Option.mem_def.mp head] at stops
        simpa using stops
  · rintro ⟨trailing, rfl, link⟩
    obtain ⟨known, member, host, scheme⟩ := link.scheme
    have split : splitOnceChars "/join/".toList (hub ++ ("/join/".toList ++ (code ++ trailing))) =
        some (hub, code ++ trailing) :=
      (splitOnceChars_iff (by simp)).mpr ⟨rfl, link.first⟩
    have known_scheme : (splitOnceChars "://".toList hub).map Prod.fst = some known := by
      rw [scheme, split_scheme member]
      rfl
    rw [split, Option.bind_some]
    simp only [known_scheme, link.takeWhile]
    exact if_pos ⟨⟨known, member, rfl⟩, link.some_char⟩

/-- The client takes a link apart. -/
theorem splitPortableKey_link {text : String} {hub code trailing : List Char}
    (link : IsLink hub code trailing)
    (reads : trimChars text.toList = hub ++ ("/join/".toList ++ (code ++ trailing))) :
    splitPortableKey text = (String.ofList code, some (String.ofList hub)) := by
  obtain ⟨known, member, host, scheme⟩ := link.scheme
  have loose : compactKey (hub ++ ("/join/".toList ++ (code ++ trailing))) = none := by
    rw [scheme, List.append_assoc (known ++ _)]
    exact compactKey_of_scheme member _
  simp only [splitPortableKey, reads, loose, Option.none_or, linkKey_iff.mpr ⟨trailing, rfl, link⟩]

theorem linkKey_of_split {text code hub : String} (loose : compactKey (trimChars text.toList) = none)
    (split : splitPortableKey text = (code, some hub)) :
    linkKey (trimChars text.toList) = some (code.toList, hub.toList) := by
  simp only [splitPortableKey, loose, Option.none_or] at split
  cases found : linkKey (trimChars text.toList) with
  | none => simp [found] at split
  | some halves =>
    simp only [found, Prod.mk.injEq, Option.some.injEq] at split
    rw [← split.1, ← split.2, String.toList_ofList, String.toList_ofList]

/-! ## The hub's reading of a link -/

/-- What stands behind the last join path of a link is its code, between white space and slashes. -/
def EndsInCode (code trailing : List Char) : Prop :=
  (∀ c ∈ code.head?, isWhitespace c = false) ∧
    ∃ white slashes, Blank white ∧ (∀ c ∈ slashes, c = '/') ∧
      BehindLast "/join/".toList ("/join/".toList ++ (code ++ trailing)) (white ++ (code ++ slashes))

/-- The slashes behind a code come off, and nothing else does. -/
theorem rdropWhile_slash {cs code : List Char} (plain : ∀ c ∈ code, c ∉ codeEnds) :
    cs.rdropWhile (· = '/') = code ↔ ∃ slashes, (∀ c ∈ slashes, c = '/') ∧ cs = code ++ slashes := by
  constructor
  · rintro rfl
    refine ⟨cs.rtakeWhile (· = '/'), fun c member => ?_, (List.rdropWhile_append_rtakeWhile ..).symm⟩
    simpa using List.mem_rtakeWhile_imp member
  · rintro ⟨slashes, all, rfl⟩
    induction slashes using List.reverseRecOn with
    | nil =>
      rw [List.append_nil, List.rdropWhile_eq_self_iff]
      intro some_char slash
      have last := plain _ (List.getLast_mem some_char)
      rw [of_decide_eq_true slash] at last
      simp [codeEnds] at last
    | append_singleton slashes c ih =>
      have slash : c = '/' := all c (by simp)
      rw [← List.append_assoc, List.rdropWhile_concat_pos _ _ _ (by simp [slash])]
      exact ih (fun d member => all d (List.mem_append_left _ member))

/-- The last join path of a link is not before its first. -/
theorem behindLast_link {hub tail rest : List Char} :
    BehindLast "/join/".toList (hub ++ ("/join/".toList ++ tail)) rest ↔
      BehindLast "/join/".toList ("/join/".toList ++ tail) rest := by
  constructor
  · rintro ⟨there, last⟩
    refine ⟨?_, last⟩
    by_contra outside
    rcases List.suffix_or_suffix_of_suffix there (List.suffix_append hub _) with within | beyond
    · exact outside within
    · apply last
      refine (List.prefix_append "/join/".toList tail).isInfix.trans (suffix_tail beyond ?_).isInfix
      rintro same
      exact outside (same ▸ List.suffix_rfl)
  · rintro ⟨there, last⟩
    exact ⟨there.trans (List.suffix_append hub _), last⟩

/-- The hub takes the client's code out of a link exactly where the link ends in it. -/
theorem normalizeCode_link {text : String} {hub code trailing : List Char}
    (link : IsLink hub code trailing)
    (reads : trimChars text.toList = hub ++ ("/join/".toList ++ (code ++ trailing))) :
    normalizeCode text = String.ofList code ↔ EndsInCode code trailing := by
  have some_last : ∃ rest, afterLast "/join/".toList (trimChars text.toList) = some rest := by
    rw [← Option.ne_none_iff_exists', ne_eq, afterLast_none_iff (by simp), not_not, reads]
    exact ⟨hub, code ++ trailing, by simp⟩
  obtain ⟨rest, found⟩ := some_last
  have behind : BehindLast "/join/".toList ("/join/".toList ++ (code ++ trailing)) rest := by
    rw [← @behindLast_link hub, ← reads]
    exact (afterLast_iff (by simp)).mp found
  have value : normalizeCode text = String.ofList ((trimChars rest).rdropWhile (· = '/')) := by
    simp only [normalizeCode, found]
    rfl
  -- The link was trimmed, so no white space is behind its last join path.
  have last : ∀ c ∈ rest.getLast?, isWhitespace c = false := by
    intro c ends
    have some_rest : rest ≠ [] := by
      rintro rfl
      cases ends
    obtain ⟨front, whole⟩ := ((afterLast_iff (by simp)).mp found).there
    apply (tight_trimChars text.toList).last c
    rw [← whole, List.getLast?_append_of_ne_nil _ (by simp), List.getLast?_append_of_ne_nil _ some_rest]
    exact ends
  rw [value, String.ofList_inj, rdropWhile_slash link.plain]
  constructor
  · rintro ⟨slashes, all, trimmed⟩
    obtain ⟨white, post, before, after, split, tight⟩ := exists_trimChars rest
    have nothing : post = [] := by
      by_contra some_post
      have ends : rest.getLast? = some (post.getLast some_post) := by
        rw [split, List.getLast?_append_of_ne_nil _ some_post, List.getLast?_eq_some_getLast]
      have white_last := after _ (List.getLast_mem some_post)
      rw [last _ ends] at white_last
      cases white_last
    refine ⟨?_, white, slashes, before, all, ?_⟩
    · have first := tight.first
      rwa [trimmed, List.head?_append_of_ne_nil _ link.some_char] at first
    · rw [nothing, List.append_nil, trimmed] at split
      exact split ▸ behind
  · rintro ⟨first, white, slashes, blank, all, there⟩
    refine ⟨slashes, all, ?_⟩
    have some_char : code ++ slashes ≠ [] := List.append_ne_nil_of_left_ne_nil link.some_char slashes
    obtain rfl := behind.unique there
    have tight : Tight (code ++ slashes) := by
      constructor
      · rwa [List.head?_append_of_ne_nil _ link.some_char]
      · rwa [List.getLast?_append_of_ne_nil _ some_char] at last
    simpa using trimChars_eq blank blank_nil tight

/-! ## The forms that the hub hands out -/

/-- A public URL with a supported scheme and no join path inside. -/
structure PublicUrl (url : String) : Prop where
  scheme : ∃ known ∈ linkSchemes, ∃ host, url.toList = known ++ "://".toList ++ host
  no_join : ¬ "/join/".toList <:+: url.toList

/-- A code of the hub. -/
structure IsCode (code : String) : Prop where
  some_char : code.toList ≠ []
  letters : ∀ c ∈ code.toList, c ∈ codeAlphabet

theorem IsCode.of_all {code : String} (some_char : code.toList ≠ [])
    (letters : code.toList.all (fun c => decide (c ∈ codeAlphabet)) = true) : IsCode code :=
  ⟨some_char, fun c member => of_decide_eq_true (List.all_eq_true.mp letters c member)⟩

/-- The alphabet has no white space and no separator. -/
theorem codeAlphabet_plain : ∀ c ∈ codeAlphabet,
    isWhitespace c = false ∧ c ∉ codeEnds ∧ c ≠ '@' ∧ c ≠ ':' := by
  intro c member
  have all : codeAlphabet.all (fun c =>
      decide (isWhitespace c = false ∧ c ∉ codeEnds ∧ c ≠ '@' ∧ c ≠ ':')) = true := by decide +kernel
  exact of_decide_eq_true (List.all_eq_true.mp all c member)

/-- The join path shares only its slash with what comes before it. -/
theorem join_ends_first {url : List Char} (no_join : ¬ "/join/".toList <:+: url) :
    "/join/".toList <:+: url ++ "/join".toList ↔ "/join".toList <:+ url := by
  constructor
  · rintro ⟨front, back, split⟩
    rcases List.append_eq_append_iff.mp split with ⟨between, whole, -⟩ | ⟨shared, whole, path⟩
    · exact absurd ⟨front, between, whole.symm⟩ no_join
    · cases shared with
      | nil => exact absurd ⟨front, [], by simpa using whole⟩ no_join
      | cons slash shared =>
        cases shared with
        | nil =>
          have cut : front ++ "/join".toList ++ ['/'] = url ++ [slash] := by simpa using whole
          exact ⟨front, (List.append_inj' cut rfl).1⟩
        | cons c shared =>
          -- A longer overlap would end in a letter of the path, not in its slash.
          have letters : ∀ d ∈ c :: shared, d ∈ "join".toList := by
            have path' : '/' :: "join".toList = slash :: (c :: shared ++ back) := by simpa using path
            have tail : "join".toList = c :: shared ++ back := (List.cons.inj path').2
            exact fun d member => tail ▸ List.mem_append_left _ member
          have last : (c :: shared).getLast? = some '/' := by
            have ends := congrArg List.getLast? whole
            rw [List.getLast?_append_of_ne_nil _ (by simp), List.getLast?_append_of_ne_nil _ (by simp),
              List.getLast?_cons_cons] at ends
            rw [← ends]
            rfl
          simpa using letters '/' (List.mem_of_mem_getLast? last)
  · rintro ⟨front, rfl⟩
    exact ⟨front, "join".toList, by simp⟩

theorem PublicUrl.first_plain {url : String} (public_url : PublicUrl url) :
    ∃ c rest, url.toList = c :: rest ∧ isWhitespace c = false ∧ c ∉ codeEnds := by
  obtain ⟨known, member, host, scheme⟩ := public_url.scheme
  simp only [linkSchemes, List.mem_cons, List.not_mem_nil, or_false] at member
  rcases member with rfl | rfl | rfl | rfl | rfl <;> exact ⟨_, _, scheme, by decide +kernel, by decide +kernel⟩

/-- The compact form is split at its first at sign, and white space behind the URL is lost. -/
theorem splitPortableKey_compact {code url : String} (is_code : IsCode code) (public_url : PublicUrl url) :
    splitPortableKey (code ++ "@" ++ url) = (code, some (trim url)) := by
  obtain ⟨d, tail, url_is, url_plain, -⟩ := public_url.first_plain
  obtain ⟨c, rest, code_is⟩ := List.exists_cons_of_ne_nil is_code.some_char
  have plain := fun c member => codeAlphabet_plain c (is_code.letters c member)
  have reads : trimChars (code ++ "@" ++ url).toList = code.toList ++ '@' :: trimChars url.toList := by
    have behind := @trimChars_behind _ _ (rest ++ ['@']) tail
      (plain c (code_is ▸ List.mem_cons_self)).1 url_plain
    simpa [code_is, url_is] using behind
  have some_url : trimChars url.toList ≠ [] := by
    obtain ⟨front, post, -, -, trimmed, -⟩ := trimChars_cons tail url_plain
    rw [url_is, trimmed]
    exact List.cons_ne_nil d front
  have split : splitOnceChars ['@'] (code.toList ++ '@' :: trimChars url.toList) =
      some (code.toList, trimChars url.toList) := by
    apply (splitOnceChars_iff (by simp)).mpr
    refine ⟨rfl, fun early => ?_⟩
    have at_sign : '@' ∈ code.toList := by simpa using early.subset List.mem_cons_self
    exact (plain '@' at_sign).2.2.1 rfl
  have compact : compactKey (code.toList ++ '@' :: trimChars url.toList) =
      some (code.toList, trimChars url.toList) := by
    rw [compactKey, split]
    apply Option.filter_some_pos
    have no_colon : ':' ∉ code.toList := fun member => (plain ':' member).2.2.2 rfl
    have no_slash : '/' ∉ code.toList := fun member => (plain '/' member).2.1 (by simp [codeEnds])
    exact decide_eq_true ⟨is_code.some_char, some_url, no_colon, no_slash⟩
  simp only [splitPortableKey, reads, compact, Option.some_or, String.ofList_toList]
  rfl

/-- The hub's link is read back unless the URL ends where a join path begins. -/
theorem splitPortableKey_inviteUrl {code url : String} (is_code : IsCode code) (public_url : PublicUrl url) :
    splitPortableKey (inviteUrl url code) = (code, some url) ↔ ¬ "/join".toList <:+ url.toList := by
  obtain ⟨d, tail, url_is, url_plain, -⟩ := public_url.first_plain
  have plain := fun c member => codeAlphabet_plain c (is_code.letters c member)
  have text : (inviteUrl url code).toList = url.toList ++ ("/join/".toList ++ (code.toList ++ [])) := by
    simp [inviteUrl]
  have reads : trimChars (inviteUrl url code).toList = (inviteUrl url code).toList := by
    apply trimChars_tight
    rw [text]
    refine ⟨by simpa [url_is] using url_plain, fun c last => ?_⟩
    rw [List.append_nil, ← List.append_assoc, List.getLast?_append_of_ne_nil _ is_code.some_char] at last
    exact (plain c (List.mem_of_mem_getLast? last)).1
  rw [← join_ends_first public_url.no_join]
  constructor
  · intro split
    obtain ⟨known, member, host, scheme⟩ := public_url.scheme
    have loose : compactKey (trimChars (inviteUrl url code).toList) = none := by
      rw [reads, text, scheme, List.append_assoc (known ++ _)]
      exact compactKey_of_scheme member _
    obtain ⟨trailing, -, link⟩ := linkKey_iff.mp (linkKey_of_split loose split)
    exact link.first
  · intro first
    have link : IsLink url.toList code.toList [] :=
      ⟨public_url.scheme, first, is_code.some_char, fun c member => (plain c member).2.1, nofun⟩
    rw [splitPortableKey_link link (reads.trans text), String.ofList_toList, String.ofList_toList]

/-- When invites decode alike, whatever text is pasted. The client reads both forms of an invite back if the
    URL has no white space around it and does not end where a join path begins; the hub takes the client's
    code out of a link if the link ends in it. -/
theorem invites_decode_alike (text : String) :
    (∀ code url, IsCode code → PublicUrl url →
      ((splitPortableKey (code ++ "@" ++ url) = (code, some url) ∧
          splitPortableKey (inviteUrl url code) = (code, some url)) ↔
        trim url = url ∧ ¬ "/join".toList <:+ url.toList)) ∧
    (∀ code hub, linkKey (trimChars text.toList) = some (code, hub) →
      ∃ trailing, IsLink hub code trailing ∧
        trimChars text.toList = hub ++ ("/join/".toList ++ (code ++ trailing))) ∧
    ∀ hub code trailing, IsLink hub code trailing →
      trimChars text.toList = hub ++ ("/join/".toList ++ (code ++ trailing)) →
      splitPortableKey text = (String.ofList code, some (String.ofList hub)) ∧
        (normalizeCode text = (splitPortableKey text).1 ↔ EndsInCode code trailing) := by
  refine ⟨?_, ?_, ?_⟩
  · intro code url is_code public_url
    rw [splitPortableKey_compact is_code public_url, splitPortableKey_inviteUrl is_code public_url]
    simp
  · intro code hub recognised
    obtain ⟨trailing, reads, link⟩ := linkKey_iff.mp recognised
    exact ⟨trailing, link, reads⟩
  · intro hub code trailing link reads
    rw [splitPortableKey_link link reads]
    exact ⟨rfl, normalizeCode_link link reads⟩

theorem invites_decode_alike_fly :
    splitPortableKey (inviteUrl "wss://parler-hub.fly.dev" "A3KELDJR") =
        ("A3KELDJR", some "wss://parler-hub.fly.dev") ∧
      normalizeCode "http://hub.example/join/AB12CD34/" =
        (splitPortableKey "http://hub.example/join/AB12CD34/").1 := by
  have is_code : IsCode "A3KELDJR" := .of_all (by simp) (by decide +kernel)
  have public_url : PublicUrl "wss://parler-hub.fly.dev" :=
    ⟨⟨"wss".toList, by simp [linkSchemes], "parler-hub.fly.dev".toList, by simp⟩, by decide +kernel⟩
  have link : IsLink "http://hub.example".toList "AB12CD34".toList ['/'] :=
    ⟨⟨"http".toList, by simp [linkSchemes], "hub.example".toList, by simp⟩, by decide +kernel, by simp,
      by simp [codeEnds], by simp [codeEnds]⟩
  have ends : EndsInCode "AB12CD34".toList ['/'] := by
    have plain : ∀ c ∈ "AB12CD34".toList.head?, isWhitespace c = false := by
      rintro c ⟨⟩
      rfl
    refine ⟨plain, [], ['/'], blank_nil, by simp, List.suffix_rfl, ?_⟩
    decide +kernel
  obtain ⟨forms, -, links⟩ := invites_decode_alike "http://hub.example/join/AB12CD34/"
  constructor
  · exact ((forms _ _ is_code public_url).mpr ⟨by decide +kernel, by decide +kernel⟩).2
  · exact (links _ _ _ link (by decide +kernel)).2.mpr ends

/-- The hub takes a query for a part of the code, and the client a join path of the hub for its own. -/
theorem link_with_query_misread :
    splitPortableKey "parler://127.0.0.1:7099/join/CQXL5SJN/?source=desktop#share" =
        ("CQXL5SJN", some "parler://127.0.0.1:7099") ∧
      normalizeCode "parler://127.0.0.1:7099/join/CQXL5SJN/?source=desktop#share" =
        "CQXL5SJN/?source=desktop#share" ∧
      splitPortableKey (inviteUrl "https://mesh.example/join" "A3KELDJR") =
        ("join", some "https://mesh.example") := by
  decide +kernel

end Parler.Cli
