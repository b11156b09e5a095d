import Mathlib.Algebra.Order.BigOperators.Group.List
import Mathlib.Algebra.Order.Group.Nat
import Parler.Protocol.Subjects

/-!
# Filters and allow-lists

`collapse_filter_subjects` and `channel_in_allow` from `crates/parler-protocol/src/subjects.rs`. Both ask
whether a pattern covers another one by matching it against that one as if it were a subject. For a pattern
that ends in `>` the answer is wrong when the other pattern, as long as it, ends in `*`: that matches the `>`
but only the subjects with one more token.
-/

namespace Parler.Protocol

open Parler.Lib (matchTokens matchTokens_unrolled matchTokens_nil TailLast Named Fresh Concrete Swallows unrolled
  unrolled_plain unrolled_named survivors mem_survivors survivors_cover_iff survivors_apart covered_iff
  covers_of_match Covers)

/-- The filter over the set of what was seen. -/
def firstSeen (seen : List String) : List String → List String
  | [] => []
  | s :: rest => if s ∈ seen then firstSeen seen rest else s :: firstSeen (s :: seen) rest

def collapseFilterSubjects (subjects : List String) : List String :=
  let uniq := firstSeen [] subjects
  uniq.filter (fun x => !uniq.any (fun y => y ≠ x && subjectMatches y x))

def channelInAllow (allow : List String) (channel : String) : Bool :=
  allow.any (fun a => subjectMatches a channel)

/-- A subject of tokens, without a wildcard. -/
def ConcreteSubject (s : String) : Prop := assertValidChannel s = .ok s ∧ isConcreteChannel s = true

/-- A filter whose `>` is replaced by `n` tokens `*`. -/
def unrolledFilter (f : String) (n : Nat) : String := joinSegs (unrolled "*" (segs f) n)

/-- `g` ends in `*` where `f`, of the same number of tokens, ends in `>`, and matches it. -/
def SwallowsTail (g f : String) : Prop := Swallows "*" ">" (segs g) (segs f)

/-- Collapsing loses no subject and leaves no filter that another one covers. -/
def CollapseFaithful (subjects : List String) : Prop :=
  (∀ s, ConcreteSubject s →
    ((∃ f ∈ subjects, subjectMatches f s = true) ↔
      ∃ f ∈ collapseFilterSubjects subjects, subjectMatches f s = true)) ∧
  ∀ g ∈ collapseFilterSubjects subjects, ∀ f ∈ collapseFilterSubjects subjects, g ≠ f →
    ¬ ∀ s, ConcreteSubject s → subjectMatches f s = true → subjectMatches g s = true

/-- A pattern that the allow-list accepts matches nothing outside it. -/
def AllowSound (allow : List String) (p : String) : Prop :=
  channelInAllow allow p = true →
    ∀ c, ConcreteSubject c → subjectMatches p c = true → ∃ a ∈ allow, subjectMatches a c = true

/-! ## Strings and their segments -/

theorem mem_firstSeen {seen subjects : List String} {s : String} :
    s ∈ firstSeen seen subjects ↔ s ∈ subjects ∧ s ∉ seen := by
  induction subjects generalizing seen with
  | nil => simp [firstSeen]
  | cons t rest ih =>
    rw [firstSeen]
    split_ifs with known
    · rw [ih, List.mem_cons]
      constructor
      · exact fun ⟨later, unseen⟩ => ⟨Or.inr later, unseen⟩
      · rintro ⟨rfl | later, unseen⟩
        · exact absurd known unseen
        · exact ⟨later, unseen⟩
    · rw [List.mem_cons, ih, List.mem_cons, List.mem_cons]
      by_cases same : s = t
      · simp [same, known]
      · simp [same]

theorem mem_collapse {subjects : List String} {x : String} :
    x ∈ collapseFilterSubjects subjects ↔
      x ∈ subjects ∧ ∀ y ∈ subjects, y ≠ x → subjectMatches y x = false := by
  simp [collapseFilterSubjects, mem_firstSeen]

theorem segs_injective {s t : String} (same : segs s = segs t) : s = t := by
  rw [← joinSegs_segs s, same, joinSegs_segs]

/-- What the collapse keeps are the survivors among the patterns. -/
theorem survivors_segs (subjects : List String) (x : String) :
    segs x ∈ survivors "*" ">" (subjects.map segs) ↔ x ∈ collapseFilterSubjects subjects := by
  rw [mem_survivors, mem_collapse]
  simp only [List.mem_map, forall_exists_index, and_imp, forall_apply_eq_imp_iff₂]
  constructor
  · rintro ⟨⟨y, member, same⟩, alone⟩
    cases segs_injective same
    exact ⟨member, fun z within other => alone z within (fun same => other (segs_injective same))⟩
  · rintro ⟨member, alone⟩
    exact ⟨⟨x, member, rfl⟩, fun z within other => alone z within (fun same => other (same ▸ rfl))⟩

theorem exists_survivor_iff {subjects : List String} (q : List String → Prop) :
    (∃ z ∈ survivors "*" ">" (subjects.map segs), q z) ↔
      ∃ z ∈ collapseFilterSubjects subjects, q (segs z) := by
  constructor
  · rintro ⟨z, kept, holds⟩
    obtain ⟨x, -, rfl⟩ := List.mem_map.mp (mem_survivors.mp kept).1
    exact ⟨x, (survivors_segs subjects x).mp kept, holds⟩
  · rintro ⟨z, kept, holds⟩
    exact ⟨segs z, (survivors_segs subjects z).mpr kept, holds⟩

theorem ChannelSegs.tailLast {parts : List String} (formed : ChannelSegs parts) : TailLast ">" parts := by
  induction formed with
  | nil => simp [TailLast]
  | gt => simp [TailLast]
  | @star rest _ ih =>
    cases rest with
    | nil => simp [TailLast]
    | cons s rest => simpa [TailLast] using ih
  | @token s rest head _ ih =>
    cases rest with
    | nil => simp [TailLast]
    | cons t rest => simpa [TailLast, head.ne_gt.symm] using ih

theorem ChannelSegs.named {parts : List String} (formed : ChannelSegs parts) :
    Named "*" ">" IsToken parts := by
  induction formed with
  | nil => simp [Named]
  | gt => simp [Named]
  | star _ ih => simpa [Named] using ih
  | token head _ ih => exact List.forall_mem_cons.mpr ⟨fun _ _ => head, ih⟩

theorem channelSegs_of_concrete {parts : List String} (concrete : Concrete "*" ">" IsToken parts) :
    ChannelSegs parts := by
  induction parts with
  | nil => exact .nil
  | cons s rest ih =>
    obtain ⟨head, later⟩ := List.forall_mem_cons.mp concrete
    exact .token head.1 (ih later)

theorem concreteSubject_iff (s : String) : ConcreteSubject s ↔ Concrete "*" ">" IsToken (segs s) := by
  constructor
  · rintro ⟨valid, concrete⟩
    have formed := ((assertValidChannel_iff s s).mp valid).1
    have plain : ∀ t ∈ segs s, trim t ≠ "*" ∧ trim t ≠ ">" := by
      simpa [isConcreteChannel] using concrete
    intro t member
    have trimmed : trim t = t := List.map_inj_left.mp (formed.trim.trans (List.map_id' _).symm) t member
    have other := plain t member
    rw [trimmed] at other
    exact ⟨formed.named t member other.1 other.2, other⟩
  · intro concrete
    refine ⟨(assertValidChannel_iff s s).mpr ⟨channelSegs_of_concrete concrete, rfl⟩, ?_⟩
    have plain : ∀ t ∈ segs s, trim t ≠ "*" ∧ trim t ≠ ">" := by
      intro t member
      rw [(concrete t member).1.trim]
      exact (concrete t member).2
    simpa [isConcreteChannel] using plain

theorem segs_unrolledFilter {f : String} (formed : ChannelSegs (segs f)) (n : Nat) :
    segs (unrolledFilter f (n + 1)) = unrolled "*" (segs f) (n + 1) := by
  apply segs_joinSegs
  · simp [unrolled]
  · intro part member
    rcases List.mem_append.mp member with front | back
    · exact formed.no_dots part (List.dropLast_subset _ front)
    · rw [List.eq_of_mem_replicate back]
      decide

/-- There are more tokens than any list names. -/
theorem fresh_isToken : Fresh IsToken := by
  intro avoid
  let bound := (avoid.map (fun t => t.toList.length)).sum
  refine ⟨String.ofList (List.replicate (bound + 1) 'a'), ⟨?_, ?_⟩, ?_⟩
  · simp
  · intro c member
    rw [String.toList_ofList] at member
    rw [List.eq_of_mem_replicate member]
    decide
  · intro member
    have short := List.single_le_sum (fun _ _ => Nat.zero_le _) _
      (List.mem_map_of_mem (f := fun t : String => t.toList.length) member)
    simp only [String.toList_ofList, List.length_replicate] at short
    exact absurd short (by omega)

/-- Subjects stand for the lists of tokens, the empty one apart, which no filter matches. -/
theorem concrete_transfer {p : String} {q : List String → Prop} :
    (∀ s, ConcreteSubject s → subjectMatches p s = true → q (segs s)) ↔
      ∀ ts, Concrete "*" ">" IsToken ts → matchTokens "*" ">" (segs p) ts = true → q ts := by
  constructor
  · intro each ts concrete matched
    have some_part : ts ≠ [] := by
      rintro rfl
      exact segs_ne_nil p ((matchTokens_nil (segs p)).mp matched)
    have split := segs_joinSegs some_part (fun t member => (concrete t member).1.no_dot)
    rw [← split] at concrete matched ⊢
    exact each _ ((concreteSubject_iff _).mpr concrete) matched
  · intro each s concrete matched
    exact each _ ((concreteSubject_iff s).mp concrete) matched

theorem star_ne_gt : ("*" : String) ≠ ">" := by decide

/-! ## Collapsing -/

/-- A list of filters keeps its coverage exactly when, for each filter `f` ending in `>` whose last token
another one ending in `*` takes for a single token, and for any number of `*` in the place of that `>`, some
filter that no other one matches matches the result. -/
theorem collapseFilterSubjects_faithful_iff (subjects : List String)
    (formed : ∀ f ∈ subjects, assertValidChannel f = .ok f) :
    CollapseFaithful subjects ↔
      ∀ f ∈ subjects, (∃ g ∈ subjects, SwallowsTail g f) → ∀ n,
        ∃ z ∈ subjects, (∀ y ∈ subjects, y ≠ z → subjectMatches y z = false) ∧
          subjectMatches z (unrolledFilter f (n + 1)) = true := by
  have channel : ∀ f ∈ subjects, ChannelSegs (segs f) := fun f member =>
    ((assertValidChannel_iff f f).mp (formed f member)).1
  have patterns : ∀ p ∈ subjects.map segs, TailLast ">" p ∧ Named "*" ">" IsToken p := by
    intro p member
    obtain ⟨f, within, rfl⟩ := List.mem_map.mp member
    exact ⟨(channel f within).tailLast, (channel f within).named⟩
  have covered := survivors_cover_iff fresh_isToken star_ne_gt patterns
  constructor
  · rintro ⟨same, -⟩ f member ⟨g, within, swallows⟩ n
    have lists := covered.mp (by
      rintro ts concrete ⟨p, member_p, matched⟩
      obtain ⟨h, within_h, rfl⟩ := List.mem_map.mp member_p
      refine (exists_survivor_iff (fun z => matchTokens "*" ">" z ts = true)).mpr ?_
      refine (concrete_transfer (p := h)
        (q := fun ts => ∃ z ∈ collapseFilterSubjects subjects, matchTokens "*" ">" (segs z) ts = true)).mp
        ?_ ts concrete matched
      exact fun s concrete_s matched_s => (same s concrete_s).mp ⟨h, within_h, matched_s⟩)
      (segs f) (List.mem_map_of_mem member) ⟨segs g, List.mem_map_of_mem within, swallows⟩ n
    obtain ⟨z, kept, matched⟩ := (exists_survivor_iff (fun z => matchTokens "*" ">" z _ = true)).mp lists
    obtain ⟨within_z, alone⟩ := mem_collapse.mp kept
    refine ⟨z, within_z, alone, ?_⟩
    rw [subjectMatches, segs_unrolledFilter (channel f member)]
    exact matched
  · intro swallowed
    have lists := covered.mpr (by
      intro p member_p lost n
      obtain ⟨f, member, rfl⟩ := List.mem_map.mp member_p
      obtain ⟨q, member_q, swallows⟩ := lost
      obtain ⟨g, within, rfl⟩ := List.mem_map.mp member_q
      obtain ⟨z, within_z, alone, matched⟩ := swallowed f member ⟨g, within, swallows⟩ n
      rw [subjectMatches, segs_unrolledFilter (channel f member)] at matched
      exact (exists_survivor_iff (fun z => matchTokens "*" ">" z _ = true)).mpr
        ⟨z, mem_collapse.mpr ⟨within_z, alone⟩, matched⟩)
    constructor
    · intro s concrete
      constructor
      · rintro ⟨f, member, matched⟩
        exact (exists_survivor_iff (fun z => matchTokens "*" ">" z (segs s) = true)).mp
          (lists (segs s) ((concreteSubject_iff s).mp concrete)
            ⟨segs f, List.mem_map_of_mem member, matched⟩)
      · rintro ⟨f, kept, matched⟩
        exact ⟨f, (mem_collapse.mp kept).1, matched⟩
    · intro g kept_g f kept_f other covers
      refine survivors_apart fresh_isToken star_ne_gt patterns ((survivors_segs subjects g).mpr kept_g)
        ((survivors_segs subjects f).mpr kept_f) (fun same => other (segs_injective same)) ?_
      exact (concrete_transfer (p := f) (q := fun ts => matchTokens "*" ">" (segs g) ts = true)).mp covers

/-- `a.*` and `a.>` remove each other, and nothing is left. -/
theorem collapseFilterSubjects_loses :
    collapseFilterSubjects ["a.*", "a.>"] = [] ∧ ¬ CollapseFaithful ["a.*", "a.>"] := by
  have nothing : collapseFilterSubjects ["a.*", "a.>"] = [] := by decide +kernel
  refine ⟨nothing, ?_⟩
  rintro ⟨same, -⟩
  have concrete : ConcreteSubject "a.b" := ⟨by decide +kernel, by decide +kernel⟩
  obtain ⟨f, member, -⟩ := (same "a.b" concrete).mp ⟨"a.*", by decide, by decide +kernel⟩
  rw [nothing] at member
  cases member

/-- What ends in `>` or in a token swallows nothing. -/
theorem not_swallowsTail {g f : String} (ends : (segs g).getLast? ≠ some "*") : ¬ SwallowsTail g f := by
  rintro ⟨qs, ps, split, -, -, -⟩
  apply ends
  rw [split, List.getLast?_concat]

/-- The list of the source's own test. -/
theorem collapseFilterSubjects_faithful_team : CollapseFaithful ["team.>", "team.backend"] :=
  (collapseFilterSubjects_faithful_iff ["team.>", "team.backend"] (by decide +kernel)).mpr
    (by
      rintro f - ⟨g, member, swallows⟩ n
      have ends : ∀ g ∈ ["team.>", "team.backend"], (segs g).getLast? ≠ some "*" := by decide +kernel
      exact absurd swallows (not_swallowsTail (ends g member)))

/-! ## Allow-lists -/

/-- What an allow-list accepts stays within it exactly when, if an entry ending in `*` takes a `>` at the end
of the pattern for a single token, the entries also match it with two or more `*` in its place. -/
theorem channelInAllow_sound_iff (allow : List String) (p : String)
    (formed : assertValidChannel p = .ok p) :
    AllowSound allow p ↔
      ((∃ a ∈ allow, SwallowsTail a p) →
        ∀ n, ∃ a ∈ allow, subjectMatches a (unrolledFilter p (n + 2)) = true) := by
  have channel := ((assertValidChannel_iff p p).mp formed).1
  have last := channel.tailLast
  have plain := unrolled_plain star_ne_gt last
  have named : ∀ n, Named "*" ">" IsToken (unrolled "*" (segs p) n) :=
    fun n => unrolled_named channel.named n
  have accepts : channelInAllow allow p = true ↔ ∃ a ∈ allow, subjectMatches a p = true :=
    List.any_eq_true
  -- Coverage by the allow-list, over lists of tokens.
  have sound_iff := concrete_transfer (p := p)
    (q := fun ts => ∃ z ∈ allow.map segs, matchTokens "*" ">" z ts = true)
  simp only [List.mem_map, exists_exists_and_eq_and] at sound_iff
  constructor
  · rintro sound ⟨a, member, swallows⟩ n
    have accepted := accepts.mpr ⟨a, member, swallows.matches⟩
    obtain ⟨z, member_z, matched⟩ := (covered_iff fresh_isToken (allow.map segs)
      (plain (n + 2)) (named (n + 2))).mp (by
        intro ts concrete matched
        simp only [List.mem_map, exists_exists_and_eq_and]
        refine sound_iff.mp (sound accepted) ts concrete ?_
        rw [swallows.tail, matchTokens_unrolled star_ne_gt last]
        exact ⟨n + 1, matched⟩)
    obtain ⟨b, member_b, rfl⟩ := List.mem_map.mp member_z
    refine ⟨b, member_b, ?_⟩
    rw [subjectMatches, segs_unrolledFilter channel]
    exact matched
  · intro unrolls accepted
    apply sound_iff.mpr
    intro ts concrete matched
    by_cases swallowed : ∃ a ∈ allow, SwallowsTail a p
    · obtain ⟨a, member, swallows⟩ := swallowed
      rw [swallows.tail, matchTokens_unrolled star_ne_gt last] at matched
      obtain ⟨n, matched⟩ := matched
      obtain ⟨z, member_z, covers⟩ := (covered_iff fresh_isToken (allow.map segs)
        (plain (n + 1)) (named (n + 1))).mpr (by
          cases n with
          | zero => exact ⟨segs a, List.mem_map_of_mem member, swallows.unrolled⟩
          | succ n =>
            obtain ⟨b, member_b, longer⟩ := unrolls ⟨a, member, swallows⟩ n
            rw [subjectMatches, segs_unrolledFilter channel] at longer
            exact ⟨segs b, List.mem_map_of_mem member_b, longer⟩) ts concrete matched
      obtain ⟨b, member_b, rfl⟩ := List.mem_map.mp member_z
      exact ⟨b, member_b, covers⟩
    · obtain ⟨a, member, matched_a⟩ := accepts.mp accepted
      have whole : ¬ Swallows "*" ">" (segs a) (segs p) := fun swallows => swallowed ⟨a, member, swallows⟩
      exact ⟨a, member, covers_of_match last matched_a whole ts concrete matched⟩

theorem channelInAllow_sound_team : AllowSound ["team.>"] "team.*.>" :=
  (channelInAllow_sound_iff ["team.>"] "team.*.>" (by decide +kernel)).mpr
    (by
      rintro ⟨a, member, swallows⟩ n
      have ends : ∀ a ∈ ["team.>"], (segs a).getLast? ≠ some "*" := by decide +kernel
      exact absurd swallows (not_swallowsTail (ends a member)))

/-- `team.*` accepts `team.>`, which matches `team.a.b`. -/
theorem channelInAllow_unsound : ¬ AllowSound ["team.*"] "team.>" := by
  intro sound
  have concrete : ConcreteSubject "team.a.b" := ⟨by decide +kernel, by decide +kernel⟩
  obtain ⟨a, member, matched⟩ := sound (by decide +kernel) "team.a.b" concrete (by decide +kernel)
  rw [List.mem_singleton.mp member] at matched
  exact absurd matched (by decide +kernel)

end Parler.Protocol
