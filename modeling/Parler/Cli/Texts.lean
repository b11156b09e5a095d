import Mathlib.Data.List.TakeWhile
import Parler.Cli.Turns

/-!
# Trimming and splitting texts

What the helpers of `Parler.Cli.Turns` and `Parler.Protocol.Types` compute, stated over lists of characters: the
trimmed part of a text, its last line, the first place of a separator.
-/

namespace Parler.Cli

open Parler.Protocol

/-! ## Trimming -/

/-- Nothing but white space. -/
def Blank (cs : List Char) : Prop := ∀ c ∈ cs, isWhitespace c = true

theorem blank_nil : Blank [] := nofun

/-- No white space at either end. -/
structure Tight (cs : List Char) : Prop where
  first : ∀ c ∈ cs.head?, isWhitespace c = false
  last : ∀ c ∈ cs.getLast?, isWhitespace c = false

/-- The characters of a text put together from parts. -/
theorem toList_append_of {s t : String} {cs ds : List Char} (front : s.toList = cs) (back : t.toList = ds) :
    (s ++ t).toList = cs ++ ds := by
  rw [String.toList_append, front, back]

@[simp] theorem toList_trim (s : String) : (trim s).toList = trimChars s.toList := by
  rw [trim, String.toList_ofList]

theorem trim_eq_empty {s : String} : trim s = "" ↔ trimChars s.toList = [] := by
  rw [← String.toList_inj, toList_trim]
  rfl

theorem dropWhile_blank {pre cs : List Char} (blank : Blank pre) :
    (pre ++ cs).dropWhile isWhitespace = cs.dropWhile isWhitespace := by
  induction pre with
  | nil => rfl
  | cons c pre ih =>
    obtain ⟨head, later⟩ := List.forall_mem_cons.mp blank
    rw [List.cons_append, List.dropWhile_cons_of_pos head, ih later]

theorem dropWhile_first {cs : List Char} (first : ∀ c ∈ cs.head?, isWhitespace c = false) :
    cs.dropWhile isWhitespace = cs := by
  cases cs with
  | nil => rfl
  | cons c cs => rw [List.dropWhile_cons_of_neg (by simp [first c rfl])]

theorem exists_dropWhile (cs : List Char) :
    ∃ pre, Blank pre ∧ cs = pre ++ cs.dropWhile isWhitespace ∧
      ∀ c ∈ (cs.dropWhile isWhitespace).head?, isWhitespace c = false := by
  induction cs with
  | nil => exact ⟨[], nofun, rfl, nofun⟩
  | cons c cs ih =>
    by_cases white : isWhitespace c = true
    · obtain ⟨pre, blank, split, first⟩ := ih
      refine ⟨c :: pre, List.forall_mem_cons.mpr ⟨white, blank⟩, ?_, ?_⟩
      · rw [List.dropWhile_cons_of_pos white, List.cons_append, ← split]
      · rwa [List.dropWhile_cons_of_pos white]
    · rw [List.dropWhile_cons_of_neg white]
      exact ⟨[], nofun, rfl, by simpa using white⟩

/-- A text between white space is what trimming leaves. -/
theorem trimChars_eq {pre mid post : List Char} (before : Blank pre) (after : Blank post)
    (tight : Tight mid) : trimChars (pre ++ mid ++ post) = mid := by
  have last : ∀ c ∈ mid.reverse.head?, isWhitespace c = false := by simpa using tight.last
  rw [trimChars, List.append_assoc, dropWhile_blank before]
  cases mid with
  | nil =>
    have gone : (post.dropWhile isWhitespace) = [] := List.dropWhile_eq_nil_iff.mpr after
    simp [gone]
  | cons c mid =>
    have after' : Blank post.reverse := fun d member => after d (List.mem_reverse.mp member)
    have front : (c :: mid ++ post).dropWhile isWhitespace = c :: mid ++ post :=
      dropWhile_first (by simpa using tight.first c rfl)
    rw [front, List.reverse_append, dropWhile_blank after', dropWhile_first last, List.reverse_reverse]

/-- Every text is its trimmed part between white space. -/
theorem exists_trimChars (cs : List Char) :
    ∃ pre post, Blank pre ∧ Blank post ∧ cs = pre ++ trimChars cs ++ post ∧ Tight (trimChars cs) := by
  obtain ⟨pre, before, split, first⟩ := exists_dropWhile cs
  obtain ⟨post, after, split', last⟩ := exists_dropWhile (cs.dropWhile isWhitespace).reverse
  have middle : cs.dropWhile isWhitespace = trimChars cs ++ post.reverse := by
    rw [trimChars, ← List.reverse_append, ← split', List.reverse_reverse]
  refine ⟨pre, post.reverse, before, fun c member => after c (List.mem_reverse.mp member), ?_, ?_, ?_⟩
  · rw [List.append_assoc, ← middle, ← split]
  · cases trimmed : trimChars cs with
    | nil => exact nofun
    | cons c rest => simpa [middle, trimmed] using first
  · simpa [trimChars] using last

theorem trimChars_tight {cs : List Char} (tight : Tight cs) : trimChars cs = cs := by
  simpa using trimChars_eq blank_nil blank_nil tight

/-- The last character stays when it is no white space. -/
theorem trimChars_concat (cs : List Char) {c : Char} (plain : isWhitespace c = false) :
    ∃ front, trimChars (cs ++ [c]) = front ++ [c] := by
  obtain ⟨pre, before, split, first⟩ := exists_dropWhile cs
  refine ⟨cs.dropWhile isWhitespace, ?_⟩
  have tight : Tight (cs.dropWhile isWhitespace ++ [c]) := by
    constructor
    · cases rest : cs.dropWhile isWhitespace with
      | nil => simpa using plain
      | cons d rest => simpa [rest] using first
    · simpa using plain
  have whole := trimChars_eq before blank_nil tight
  rwa [List.append_nil, ← List.append_assoc, ← split] at whole

theorem tight_trimChars (cs : List Char) : Tight (trimChars cs) := by
  obtain ⟨-, -, -, -, -, tight⟩ := exists_trimChars cs
  exact tight

theorem length_trimChars_le (cs : List Char) : (trimChars cs).length ≤ cs.length := by
  obtain ⟨pre, post, -, -, split, -⟩ := exists_trimChars cs
  have length := congrArg List.length split
  rw [List.length_append, List.length_append] at length
  omega

@[simp] theorem trimChars_trimChars (cs : List Char) : trimChars (trimChars cs) = trimChars cs :=
  trimChars_tight (tight_trimChars cs)

/-- The number of characters that are no white space. -/
def solid (cs : List Char) : Nat := cs.countP (fun c => !isWhitespace c)

@[simp] theorem solid_append (cs ds : List Char) : solid (cs ++ ds) = solid cs + solid ds :=
  List.countP_append

theorem solid_cons {c : Char} {cs : List Char} (plain : isWhitespace c = false) :
    solid (c :: cs) = solid cs + 1 :=
  List.countP_cons_of_pos (by simp [plain])

theorem solid_le_length (cs : List Char) : solid cs ≤ cs.length := List.countP_le_length

/-- Trimming takes white space only. -/
theorem solid_trimChars (cs : List Char) : solid (trimChars cs) = solid cs := by
  obtain ⟨pre, post, before, after, split, -⟩ := exists_trimChars cs
  have none_of : ∀ ds, Blank ds → solid ds = 0 := fun ds blank =>
    List.countP_eq_zero.mpr (fun c member => by simp [blank c member])
  have whole := congrArg solid split
  rw [solid_append, solid_append, none_of pre before, none_of post after] at whole
  omega

/-- The white space at the end of a text. -/
theorem exists_trimEnd (cs : List Char) :
    ∃ front post, Blank post ∧ cs = front ++ post ∧ ∀ c ∈ front.getLast?, isWhitespace c = false := by
  obtain ⟨post, after, split, last⟩ := exists_dropWhile cs.reverse
  refine ⟨(cs.reverse.dropWhile isWhitespace).reverse, post.reverse,
    fun c member => after c (List.mem_reverse.mp member), ?_, by simpa using last⟩
  rw [← List.reverse_append, ← split, List.reverse_reverse]

/-- Of a text that begins with no white space, only the end is trimmed. -/
theorem trimChars_cons {d : Char} (tail : List Char) (plain : isWhitespace d = false) :
    ∃ front post, Blank post ∧ d :: tail = d :: front ++ post ∧ trimChars (d :: tail) = d :: front ∧
      ∀ c ∈ (d :: front).getLast?, isWhitespace c = false := by
  obtain ⟨front, post, after, split, last⟩ := exists_trimEnd (d :: tail)
  cases front with
  | nil =>
    rw [List.nil_append] at split
    exact absurd (after d (split ▸ List.mem_cons_self)) (by simp [plain])
  | cons e front =>
    have same : d = e := (List.cons.inj split).1
    subst same
    have tight : Tight (d :: front) := ⟨by simpa using plain, last⟩
    refine ⟨front, post, after, split, ?_, last⟩
    rw [split]
    exact trimChars_eq blank_nil after tight

/-- Behind a text that begins with no white space, only the end is trimmed. -/
theorem trimChars_behind {c d : Char} {pre tail : List Char} (first : isWhitespace c = false)
    (plain : isWhitespace d = false) :
    trimChars (c :: pre ++ d :: tail) = c :: pre ++ trimChars (d :: tail) := by
  obtain ⟨front, post, after, split, trimmed, last⟩ := trimChars_cons tail plain
  have tight : Tight (c :: pre ++ d :: front) :=
    ⟨by simpa using first, by rwa [List.getLast?_append_of_ne_nil _ (List.cons_ne_nil _ _)]⟩
  rw [trimmed, split, ← List.append_assoc]
  exact trimChars_eq blank_nil after tight

/-- A beginning that ends with no white space is not trimmed. -/
theorem prefix_trimChars {d c : Char} {front back : List Char} (plain : isWhitespace d = false)
    (ends : isWhitespace c = false) : d :: front ++ [c] <+: trimChars (d :: front ++ [c] ++ back) := by
  obtain ⟨kept, post, after, split, trimmed, -⟩ := trimChars_cons (front ++ [c] ++ back) plain
  have whole : d :: front ++ [c] ++ back = d :: kept ++ post := split
  rw [whole, ← split, trimmed]
  rcases List.append_eq_append_iff.mp whole with ⟨more, kept_is, -⟩ | ⟨more, front_is, post_is⟩
  · exact ⟨more, kept_is.symm⟩
  · -- What is behind the kept part is white space, and `c` is not.
    rcases more.eq_nil_or_concat' with rfl | ⟨more, e, rfl⟩
    · rw [front_is, List.append_nil]
    · rw [← List.append_assoc] at front_is
      have same : c = e := (List.append_inj' front_is rfl).2 |> List.singleton_inj.mp
      have white := after e (post_is ▸ List.mem_append_left _ (List.mem_append_right _ List.mem_cons_self))
      rw [← same, ends] at white
      cases white

@[simp] theorem trim_trim (s : String) : trim (trim s) = trim s := by
  rw [trim, toList_trim, trimChars_trimChars]
  rfl

/-! ## Splitting -/

theorem afterMarker_iff {marker text payload : String} :
    afterMarker marker text = some payload ↔ text.toList = marker.toList ++ payload.toList := by
  rw [afterMarker]
  constructor
  · intro found
    split_ifs at found with front
    obtain ⟨rest, split⟩ := List.isPrefixOf_iff_prefix.mp front
    cases found
    rw [← split, String.toList_ofList, List.drop_left]
  · intro split
    have front : marker.toList.isPrefixOf text.toList = true :=
      List.isPrefixOf_iff_prefix.mpr ⟨payload.toList, split.symm⟩
    rw [if_pos front, split, List.drop_left, String.ofList_toList]

/-- A list is what stands up to the last place of an element and what stands after it. -/
theorem takeWhile_ne {sep : Char} {front : List Char} (back : List Char) (clear : sep ∉ front) :
    (front ++ sep :: back).takeWhile (fun c => c ≠ sep) = front ∧
      (front ++ sep :: back).dropWhile (fun c => c ≠ sep) = sep :: back := by
  have plain : ∀ c ∈ front, decide (c ≠ sep) = true := by
    intro c member
    have other : c ≠ sep := fun same => clear (same ▸ member)
    simp [other]
  rw [List.takeWhile_append_of_pos plain, List.dropWhile_append_of_pos plain]
  simp

theorem rsplitOnce_iff {sep : Char} {text front back : String} :
    rsplitOnce sep text = some (front, back) ↔
      text.toList = front.toList ++ sep :: back.toList ∧ sep ∉ back.toList := by
  rw [rsplitOnce]
  constructor
  · intro found
    split_ifs at found with member
    obtain ⟨before, after, split, clear⟩ := List.eq_append_cons_of_mem member
    obtain ⟨taken, dropped⟩ := takeWhile_ne after clear
    rw [split, taken, dropped] at found
    cases found
    have whole : text.toList = (before ++ sep :: after).reverse := by rw [← split, List.reverse_reverse]
    simp [whole, clear]
  · rintro ⟨split, clear⟩
    have backwards : text.toList.reverse = back.toList.reverse ++ sep :: front.toList.reverse := by
      simp [split]
    have clear' : sep ∉ back.toList.reverse := fun member => clear (List.mem_reverse.mp member)
    obtain ⟨taken, dropped⟩ := takeWhile_ne front.toList.reverse clear'
    rw [backwards, taken, dropped, if_pos (List.mem_append_right _ List.mem_cons_self)]
    simp

/-- No proper end of the separator is a beginning of it, so its places in a text do not meet. -/
def Unbordered (sep : List Char) : Prop := ∀ k < sep.length, 0 < k → (sep.drop k).isPrefixOf sep = false

instance (sep : List Char) : Decidable (Unbordered sep) :=
  inferInstanceAs (Decidable (∀ k < sep.length, 0 < k → (sep.drop k).isPrefixOf sep = false))

theorem splitOnceChars_some {sep cs front back : List Char}
    (found : splitOnceChars sep cs = some (front, back)) : cs = front ++ sep ++ back := by
  induction cs generalizing front with
  | nil =>
    rw [splitOnceChars] at found
    split_ifs at found with empty
    cases found
    simp [empty]
  | cons c cs ih =>
    rw [splitOnceChars] at found
    split_ifs at found with here
    · cases found
      obtain ⟨rest, split⟩ := List.isPrefixOf_iff_prefix.mp here
      rw [← split, List.drop_left, List.nil_append]
    · obtain ⟨⟨front', back'⟩, found', same⟩ := Option.map_eq_some_iff.mp found
      cases same
      rw [ih found']
      rfl

/-- A separator that does not begin at the head is looked for in the tail. -/
theorem splitOnceChars_cons {sep cs : List Char} {c : Char} (later : ¬ sep <+: c :: cs) :
    splitOnceChars sep (c :: cs) = (splitOnceChars sep cs).map (fun halves => (c :: halves.1, halves.2)) := by
  rw [splitOnceChars, if_neg (fun here => later (List.isPrefixOf_iff_prefix.mp here))]

theorem splitOnceChars_here {sep : List Char} (some_char : sep ≠ []) (back : List Char) :
    splitOnceChars sep (sep ++ back) = some ([], back) := by
  obtain ⟨c, rest, rfl⟩ := List.exists_cons_of_ne_nil some_char
  have here : (c :: rest).isPrefixOf (c :: (rest ++ back)) = true :=
    List.isPrefixOf_iff_prefix.mpr ⟨back, rfl⟩
  rw [List.cons_append, splitOnceChars, if_pos here, ← List.cons_append, List.drop_left]

theorem splitOnceChars_none {sep cs : List Char} (missing : splitOnceChars sep cs = none) {c : Char}
    {rest : List Char} (split : cs = c :: rest) :
    ¬ sep <+: cs ∧ splitOnceChars sep rest = none := by
  subst split
  rw [splitOnceChars] at missing
  split_ifs at missing with here
  exact ⟨fun begins => here (List.isPrefixOf_iff_prefix.mpr begins), Option.map_eq_none_iff.mp missing⟩

/-- The first place of a separator stays the first one in a longer text. -/
theorem splitOnceChars_append {sep cs front back : List Char} (some_char : sep ≠ []) (more : List Char)
    (found : splitOnceChars sep cs = some (front, back)) :
    splitOnceChars sep (cs ++ more) = some (front, back ++ more) := by
  induction cs generalizing front with
  | nil =>
    rw [splitOnceChars, if_neg some_char] at found
    cases found
  | cons c cs ih =>
    by_cases here : sep <+: c :: cs
    · obtain ⟨rest, split⟩ := here
      rw [← split, splitOnceChars_here some_char] at found
      cases found
      rw [← split, List.append_assoc, splitOnceChars_here some_char]
    · rw [splitOnceChars_cons here] at found
      obtain ⟨⟨front', back'⟩, found', same⟩ := Option.map_eq_some_iff.mp found
      cases same
      have length := congrArg List.length (splitOnceChars_some found')
      rw [List.length_append, List.length_append] at length
      have here' : ¬ sep <+: c :: (cs ++ more) := fun begins =>
        here (List.prefix_of_prefix_length_le begins ⟨more, rfl⟩ (by rw [List.length_cons]; omega))
      rw [List.cons_append, splitOnceChars_cons here', ih found']
      rfl

/-- A text without the separator, and a character that is not in it, are passed over. -/
theorem splitOnceChars_skip {sep front : List Char} {c : Char} (some_char : sep ≠ []) (other : c ∉ sep)
    (missing : splitOnceChars sep front = none) (back : List Char) :
    splitOnceChars sep (front ++ c :: back) =
      (splitOnceChars sep back).map (fun halves => (front ++ c :: halves.1, halves.2)) := by
  induction front with
  | nil =>
    have later : ¬ sep <+: c :: back := by
      obtain ⟨d, rest, rfl⟩ := List.exists_cons_of_ne_nil some_char
      intro begins
      rw [(List.cons_prefix_cons.mp begins).1] at other
      exact other List.mem_cons_self
    exact splitOnceChars_cons later
  | cons d front ih =>
    obtain ⟨later, missing'⟩ := splitOnceChars_none missing rfl
    have later' : ¬ sep <+: d :: (front ++ c :: back) := by
      rintro ⟨rest, split⟩
      -- The separator ends before `c`, or contains it.
      by_cases short : sep.length ≤ (d :: front).length
      · exact later (List.prefix_of_prefix_length_le ⟨rest, split⟩ (List.prefix_append (d :: front) (c :: back))
          short)
      · have begins : d :: front ++ [c] <+: d :: (front ++ c :: back) := ⟨back, by simp⟩
        have front_sep : d :: front ++ [c] <+: sep := by
          apply List.prefix_of_prefix_length_le begins ⟨rest, split⟩
          rw [List.length_append, List.length_singleton]
          omega
        exact other (front_sep.subset (List.mem_append_right _ List.mem_cons_self))
    rw [List.cons_append, splitOnceChars_cons later', ih missing', Option.map_map]
    rfl

/-- A separator without a border is found where it stands, after a text without it. -/
theorem splitOnceChars_first {sep front : List Char} (some_char : sep ≠ []) (unbordered : Unbordered sep)
    (missing : splitOnceChars sep front = none) (back : List Char) :
    splitOnceChars sep (front ++ (sep ++ back)) = some (front, back) := by
  induction front with
  | nil => exact splitOnceChars_here some_char back
  | cons d front ih =>
    obtain ⟨later, missing'⟩ := splitOnceChars_none missing rfl
    have later' : ¬ sep <+: d :: (front ++ (sep ++ back)) := by
      intro begins
      by_cases short : sep.length ≤ (d :: front).length
      · exact later (List.prefix_of_prefix_length_le begins (List.prefix_append (d :: front) (sep ++ back)) short)
      · -- An end of the separator would be a beginning of it.
        obtain ⟨rest, split⟩ := List.prefix_of_prefix_length_le (List.prefix_append (d :: front) (sep ++ back))
          begins (by omega)
        have ends : sep.drop (d :: front).length = rest := by rw [← split, List.drop_left]
        obtain ⟨tail, whole⟩ := begins
        have border : rest <+: sep := by
          rw [← split, List.append_assoc, ← List.cons_append] at whole
          have same := List.append_cancel_left whole
          refine List.prefix_of_prefix_length_le ⟨tail, same⟩ ⟨back, by rw [split]⟩ ?_
          rw [← ends, List.length_drop]
          exact Nat.sub_le _ _
        have none_such := unbordered (d :: front).length (by omega) (by simp)
        rw [ends, List.isPrefixOf_iff_prefix.mpr border] at none_such
        cases none_such
    rw [List.cons_append, splitOnceChars_cons later', ih missing']
    rfl

/-- What stands before the first place of a separator without a border does not contain it. -/
theorem splitOnceChars_front {sep cs front back : List Char} (some_char : sep ≠ [])
    (found : splitOnceChars sep cs = some (front, back)) : splitOnceChars sep front = none := by
  cases early : splitOnceChars sep front with
  | none => rfl
  | some halves =>
    have again := splitOnceChars_append some_char (sep ++ back) early
    rw [← List.append_assoc, ← splitOnceChars_some found, found] at again
    have shorter := congrArg List.length (splitOnceChars_some early)
    have same : front = halves.1 := congrArg Prod.fst (Option.some.inj again)
    rw [List.length_append, List.length_append, ← same] at shorter
    exact absurd (List.length_eq_zero_iff.mp (by omega)) some_char

theorem splitOnceChars_none_iff {sep cs : List Char} (some_char : sep ≠ []) :
    splitOnceChars sep cs = none ↔ ¬ sep <:+: cs := by
  constructor
  · rintro missing ⟨front, back, split⟩
    induction front generalizing cs with
    | nil =>
      rw [← split, List.nil_append, splitOnceChars_here some_char] at missing
      cases missing
    | cons d front ih => exact ih (splitOnceChars_none missing split.symm).2 rfl
  · intro missing
    cases found : splitOnceChars sep cs with
    | none => rfl
    | some halves => exact absurd ⟨halves.1, halves.2, (splitOnceChars_some found).symm⟩ missing

/-! ## Clipping -/

theorem length_clip_le {text : String} {maxChars : Nat} (some_char : 1 ≤ maxChars) :
    (clip text maxChars).toList.length ≤ maxChars := by
  rw [clip]
  split_ifs with short
  · exact short
  · rw [String.toList_ofList, List.length_append, List.length_take, List.length_singleton]
    omega

theorem clip_short {text : String} {maxChars : Nat} (short : text.toList.length ≤ maxChars) :
    clip text maxChars = text := if_pos short

/-- A text that is cut ends in an ellipsis. -/
theorem clip_long {text : String} {maxChars : Nat} (long : maxChars < text.toList.length) :
    (clip text maxChars).toList = text.toList.take (maxChars - 1) ++ ['…'] := by
  rw [clip, if_neg (by omega), String.toList_ofList]

/-- Clipping brings no white space to an end. -/
theorem trim_clip {text : String} {maxChars : Nat} (some_chars : 2 ≤ maxChars) (trimmed : trim text = text) :
    trim (clip text maxChars) = clip text maxChars := by
  by_cases short : text.toList.length ≤ maxChars
  · rw [clip_short short, trimmed]
  · have tight : Tight text.toList := by
      have whole : trimChars text.toList = text.toList := by rw [← toList_trim, trimmed]
      exact whole ▸ tight_trimChars text.toList
    rw [trim, clip_long (by omega), trimChars_tight]
    · rw [← clip_long (by omega), String.ofList_toList]
    · constructor
      · cases chars : text.toList with
        | nil => simp [chars] at short
        | cons c rest =>
          obtain ⟨n, rfl⟩ := Nat.exists_eq_add_of_le some_chars
          rw [Nat.add_comm, Nat.add_sub_assoc (by decide), List.take_succ_cons]
          simpa [chars] using tight.first
      · simp only [List.getLast?_concat]
        intro c is_last
        rw [← Option.some.inj is_last]
        decide

end Parler.Cli
