import Parler.Cli.RegisterTool
import Parler.Hub.DirectorySearch

/-!
# Whom a name means

`resolve_target` of `crates/parler-cli/src/lib.rs` takes a name for an agent when exactly one card has it. The
cards it looks at are one page of the directory: the first matches of a search, or the first of all.
-/

namespace Parler.Cli

open Parler.Lib Parler.Protocol Parler.Hub Parler.Connector

/-! ## The cards of a name -/

/-- A search of the whole hub. -/
def hubSearch (query : Option String) : Search := ⟨.hub, query, none, none, none⟩

/-- The first cards that a search of the hub returns, the one seen last in front. -/
def searchPage (s : Store) (ext : Externals) (query : Option String) (limit : Nat) :
    List (DirectoryRow × AgentRow) :=
  (s.listed.filter ((hubSearch query).matched ext)).take limit

def hasName (name : String) (d : DirectoryRow) : Bool := eqIgnoreAsciiCase d.card.name name

/-- The cards of the directory that have the name. -/
def cardsNamed (s : Store) (name : String) : List DirectoryRow := s.directory.filter (hasName name)

/-- Those that are looked at: the ones on the page of 50 matches, or if it has none, those among the 500 seen
    last. -/
def cardsSeen (s : Store) (ext : Externals) (name : String) : List (DirectoryRow × AgentRow) :=
  let named := fun r : DirectoryRow × AgentRow => hasName name r.1
  if (searchPage s ext (some name) 50).any named then (searchPage s ext (some name) 50).filter named
  else (searchPage s ext none 500).filter named

/-! ## A call -/

variable (cfg : HubConfig) (cardBytes : AgentCard → List UInt8) (fresh : Hub.Fresh) (me : Authed)

def resolveAt (S : McpServer) (target : Target) (h : HubState) : Option Target × HubState :=
  drive (answerRequests (hubReply cfg cardBytes fresh me)) (resolveTarget S target) h

variable {cfg cardBytes fresh me}

/-- The hub takes the query, and SQLite the pattern that is made of it. -/
def Searchable (ext : Externals) (query : String) : Prop :=
  byteLen query ≤ maxQueryBytes ∧ likeRefuses (wrapTerm (ext.toLowercase query)) = false

instance (ext : Externals) (query : String) : Decidable (Searchable ext query) :=
  inferInstanceAs (Decidable (_ ∧ _))

/-- The cards of a page as a call returns them. -/
def shown (hub : String) (s : Store) (now : Int) (page : List (DirectoryRow × AgentRow)) : List DirectoryEntry :=
  page.map (fun r => s.toEntry hub now r.1 r.2)

theorem discover_hub (s : Store) (ext : Externals) (hub : String) (query : Option String) {limit : Nat}
    (some_asked : 1 ≤ limit) (within : limit ≤ 1000) (now : Int) :
    s.discover ext .hub hub query none none none (some limit) now =
      if s.directory.any (s.comesToRefused ((hubSearch query).filter ext)) then
        .error (.plain "LIKE or GLOB pattern too complex")
      else .ok (shown hub s now (searchPage s ext query limit)) := by
  refine (Store.discover_eq s ext (hubSearch query) hub (some limit) now).trans ?_
  have least : max 1 (min limit 1000) = limit := by omega
  unfold shown searchPage
  rw [Option.getD_some, least, List.map_take]
  rfl

theorem passed_bounds {query : Option String} (bounded : ∀ q ∈ query, byteLen q ≤ maxQueryBytes) (limit : Nat) :
    validateFrameBounds cfg (.discover .hub query none none none (some limit)) = .ok () := by
  cases query with
  | none => rfl
  | some q =>
    have fits : ¬ byteLen q > maxQueryBytes := not_lt.mpr (bounded q rfl)
    simp [validateFrameBounds, boundedOption, boundedString, fits, Bind.bind, Except.bind]

/-- The reply to a search whose bounds are kept. -/
theorem hubReply_discover {query : Option String} (limit : Nat) (h : HubState)
    (bounded : ∀ q ∈ query, byteLen q ≤ maxQueryBytes) :
    answerRequests (hubReply cfg cardBytes fresh me) (.request (.discover .hub query none none none (some limit))) h =
      ((h.store.discover cfg.ext .hub cfg.name query none none none (some limit) h.clock).toOption.map
        .directory, h) := by
  show hubReply cfg cardBytes fresh me _ h = _
  have ran : (handleFrame cfg me fresh cardBytes (.discover .hub query none none none (some limit))).prog.run h =
      ((h.store.discover cfg.ext .hub cfg.name query none none none (some limit) h.clock).map .directory, h) := by
    show (Handler.prog (Handler.check (h.store.discover cfg.ext .hub cfg.name query none none none (some limit)
      h.clock) >>= fun agents => pure (ServerFrame.directory agents))).run h = _
    cases h.store.discover cfg.ext .hub cfg.name query none none none (some limit) h.clock <;> rfl
  unfold hubReply
  rw [passed_bounds bounded, ran]
  cases h.store.discover cfg.ext .hub cfg.name query none none none (some limit) h.clock <;> rfl

theorem discover_run {query : Option String} (taken : ∀ q ∈ query, Searchable cfg.ext q) {limit : Nat}
    (some_asked : 1 ≤ limit) (within : limit ≤ 1000) (h : HubState) :
    drive (answerRequests (hubReply cfg cardBytes fresh me)) (discover query limit) h =
      (some (shown cfg.name h.store h.clock (searchPage h.store cfg.ext query limit)), h) := by
  have answered : h.store.directory.any (h.store.comesToRefused ((hubSearch query).filter cfg.ext)) = false := by
    rw [List.any_eq_false]
    intro d _
    cases query with
    | none => simp [Store.comesToRefused, Search.filter, hubSearch]
    | some q => simp [Store.comesToRefused, Search.filter, hubSearch, (taken q rfl).2]
  have reply := @hubReply_discover cfg cardBytes fresh me query limit h (fun q asked => (taken q asked).1)
  rw [discover_hub _ _ _ _ some_asked within, answered, if_neg Bool.false_ne_true] at reply
  exact (drive_call reply _).trans rfl

/-- A query that is too long has no answer, unless its pattern is compared with no card. -/
theorem discover_refused {query : String} (long : ¬ Searchable cfg.ext query) {limit : Nat}
    (some_asked : 1 ≤ limit) (within : limit ≤ 1000) (h : HubState) :
    drive (answerRequests (hubReply cfg cardBytes fresh me)) (discover (some query) limit) h = (none, h) ∨
      h.store.listed = [] ∧
        drive (answerRequests (hubReply cfg cardBytes fresh me)) (discover (some query) limit) h =
          (some [], h) := by
  by_cases bounded : byteLen query ≤ maxQueryBytes
  · have refuses : likeRefuses (wrapTerm (cfg.ext.toLowercase query)) = true := by
      by_contra taken
      exact long ⟨bounded, by simpa using taken⟩
    have bounds : ∀ q ∈ some query, byteLen q ≤ maxQueryBytes := by
      intro q asked
      obtain rfl := Option.mem_some.mp asked
      exact bounded
    have reply := @hubReply_discover cfg cardBytes fresh me (some query) limit h bounds
    rw [discover_hub _ _ _ _ some_asked within] at reply
    split at reply
    · exact Or.inl ((drive_call reply _).trans rfl)
    · rename_i uncompared
      have alone : ∀ d ∈ h.store.directory, h.store.agents.find? (fun a => a.id = d.agent) = none := by
        intro d member
        rw [List.find?_eq_none]
        intro a listed same
        refine uncompared (List.any_eq_true.mpr ⟨d, member, ?_⟩)
        have joined : h.store.agents.any (fun a => a.id = d.agent) = true :=
          List.any_eq_true.mpr ⟨a, listed, same⟩
        simp [Store.comesToRefused, Search.filter, hubSearch, refuses, joined]
      have empty : h.store.listed = [] := by
        refine List.eq_nil_iff_forall_not_mem.mpr ?_
        intro r member
        obtain ⟨d, listed, joined⟩ := List.mem_filterMap.mp (mem_ranked.mp member)
        rw [alone d listed] at joined
        cases joined
      rw [show searchPage h.store cfg.ext (some query) limit = [] by simp [searchPage, empty]] at reply
      exact Or.inr ⟨empty, (drive_call reply _).trans rfl⟩
  · have answered : answerRequests (hubReply cfg cardBytes fresh me)
        (.request (.discover .hub (some query) none none none (some limit))) h = (none, h) := by
      show hubReply cfg cardBytes fresh me _ h = _
      simp [hubReply, validateFrameBounds, boundedOption, boundedString, not_le.mp bounded, Bind.bind,
        Except.bind]
    exact Or.inl ((drive_call answered _).trans rfl)

/-- The one element of a list that has just one. -/
def sole {α : Type} : List α → Option α
  | [x] => some x
  | _ => none

/-- The target of a page: its one entry of the name. -/
theorem sole_named (s : Store) (hub : String) (now : Int) (name : String) (rows : List (DirectoryRow × AgentRow)) :
    (match (some (shown hub s now rows)).map
        (fun found => found.filter (fun e => eqIgnoreAsciiCase e.card.name name)) with
      | some [entry] => (.ret (some (.dm entry.card.id)) : McpClient (Option Target))
      | _ => .ret none) =
      .ret ((sole (rows.filter (fun r => hasName name r.1))).map (fun r => .dm r.1.card.id)) := by
  have same : (shown hub s now rows).filter (fun e => eqIgnoreAsciiCase e.card.name name) =
      (rows.filter (fun r => hasName name r.1)).map (fun r => s.toEntry hub now r.1 r.2) := by
    unfold shown
    rw [List.filter_map]
    rfl
  rw [Option.map_some, same]
  cases rows.filter (fun r => hasName name r.1) with
  | nil => rfl
  | cons r rest =>
    cases rest with
    | nil => rfl
    | cons r' rest => rfl

/-- The name stands for the one card of it that is looked at. -/
theorem resolveAt_eq {S : McpServer} {name : String} (not_id : S.isAgentId name = false) (h : HubState) :
    (resolveAt cfg cardBytes fresh me S (.dm name) h).1 =
      if Searchable cfg.ext name then
        (sole (cardsSeen h.store cfg.ext name)).map (fun r => .dm r.1.card.id)
      else none := by
  unfold resolveAt resolveTarget
  dsimp only
  rw [not_id, if_neg Bool.false_ne_true, drive_bind]
  have unasked : ∀ q ∈ (none : Option String), Searchable cfg.ext q := nofun
  by_cases fits : Searchable cfg.ext name
  · have taken : ∀ q ∈ some name, Searchable cfg.ext q := by
      intro q asked
      obtain rfl := Option.mem_some.mp asked
      exact fits
    have any : (shown cfg.name h.store h.clock (searchPage h.store cfg.ext (some name) 50)).any
          (fun e => eqIgnoreAsciiCase e.card.name name) =
        (searchPage h.store cfg.ext (some name) 50).any (fun r => hasName name r.1) := by
      unfold shown
      rw [List.any_map]
      rfl
    rw [discover_run taken (by decide) (by decide) h, if_pos fits]
    dsimp only
    rw [any]
    unfold cardsSeen
    cases hit : (searchPage h.store cfg.ext (some name) 50).any (fun r => hasName name r.1) with
    | true =>
      rw [if_pos rfl, drive_bind, drive_ret]
      refine (congrArg (fun p => (drive _ p h).1) (sole_named h.store cfg.name h.clock name _)).trans ?_
      simp [hit]
    | false =>
      rw [if_neg Bool.false_ne_true, drive_bind, discover_run unasked (by decide) (by decide) h]
      refine (congrArg (fun p => (drive _ p h).1) (sole_named h.store cfg.name h.clock name _)).trans ?_
      simp [hit]
  · rw [if_neg fits]
    rcases discover_refused fits (show 1 ≤ 50 by decide) (by decide) h with refused | ⟨empty, answered⟩
    · rw [refused]
      rfl
    · have page : searchPage h.store cfg.ext none 500 = [] := by simp [searchPage, empty]
      rw [answered]
      dsimp only
      rw [List.any_nil, if_neg Bool.false_ne_true, drive_bind,
        discover_run unasked (by decide) (by decide) h, page]
      rfl

/-! ## The page and the directory -/

/-- Each card that is looked at is one of the directory. -/
theorem cardsSeen_subperm (s : Store) (ext : Externals) (name : String) :
    ((cardsSeen s ext name).map Prod.fst).Subperm (cardsNamed s name) := by
  have page : ∀ query limit, ((searchPage s ext query limit).filter (fun r => hasName name r.1)).Sublist
      (s.listed.filter (fun r => hasName name r.1)) := by
    intro query limit
    exact ((List.take_sublist _ _).trans List.filter_sublist).filter _
  have seen : (cardsSeen s ext name).Sublist (s.listed.filter (fun r => hasName name r.1)) := by
    unfold cardsSeen
    dsimp only
    split
    · exact page _ _
    · exact page _ _
  have kept : (s.listed.filter (fun r => hasName name r.1)).map Prod.fst =
      (s.listed.map Prod.fst).filter (hasName name) := by
    rw [List.filter_map]
    rfl
  refine (seen.map Prod.fst).subperm.trans ?_
  rw [kept]
  exact (Store.listed_subperm s).filter _

/-! ## What a name resolves to -/

/-- The outcome is the one card that has the name, and an error if there is no such card. -/
def NeverGuesses (s : Store) (name : String) (outcome : Option Target) : Prop :=
  (∀ target, outcome = some target → ∃ d, cardsNamed s name = [d] ∧ target = .dm d.card.id) ∧
    (2 ≤ (cardsNamed s name).length → outcome = none) ∧
    ∀ d, cardsNamed s name = [d] → outcome = some (.dm d.card.id)

/-- Every card of the name is looked at; or two of them are; or none of two or more is. A name that is too long
    for a query, or for the pattern that is made of it, has not just one card. -/
def Resolvable (s : Store) (ext : Externals) (name : String) : Prop :=
  if Searchable ext name then
    (cardsSeen s ext name).length = (cardsNamed s name).length ∨ 2 ≤ (cardsSeen s ext name).length ∨
      ((cardsSeen s ext name).length = 0 ∧ 2 ≤ (cardsNamed s name).length)
  else (cardsNamed s name).length ≠ 1

/-- No outcome is a guess unless the name has exactly one card. -/
theorem neverGuesses_none (s : Store) (name : String) :
    NeverGuesses s name none ↔ (cardsNamed s name).length ≠ 1 := by
  constructor
  · rintro ⟨-, -, found⟩ one
    obtain ⟨d, one⟩ := List.length_eq_one_iff.mp one
    cases found d one
  · intro several
    refine ⟨nofun, fun _ => rfl, ?_⟩
    intro d one
    exact absurd (by rw [one]; rfl) several

theorem neverGuesses_some (s : Store) (name : String) {d : DirectoryRow} (listed : d ∈ cardsNamed s name) :
    NeverGuesses s name (some (.dm d.card.id)) ↔ (cardsNamed s name).length = 1 := by
  constructor
  · rintro ⟨found, -, -⟩
    obtain ⟨d', one, -⟩ := found _ rfl
    rw [one]
    rfl
  · intro one
    obtain ⟨d', only_card⟩ := List.length_eq_one_iff.mp one
    rw [only_card] at listed
    obtain rfl := List.mem_singleton.mp listed
    refine ⟨?_, ?_, ?_⟩
    · rintro target same
      exact ⟨d, only_card, (Option.some.inj same).symm⟩
    · intro several
      omega
    · intro d' same
      rw [only_card] at same
      rw [(List.cons.inj same).1]

section Demo

/-- No name is an id. -/
def aliceTools : McpServer := ⟨bitsFormat, alice, false, fun _ => false⟩

/-- Two agents have published cards with the name bob, and the second one has since come back as robert. -/
def bobCalls : List HubCall :=
  [.upsertAgent "A" "alice" none 1, .upsertAgent "B" "bob" none 2,
    .registerCard (plainCard "B" "bob" []) none false .pub 2, .upsertAgent "C" "bob" none 3,
    .registerCard (plainCard "C" "bob" []) none false .pub 3, .upsertAgent "C" "robert" none 4]

def twoBobs : HubState := { demoHub with store := storeAfter demoConfig 0 bobCalls }

end Demo

end Parler.Cli
