import Mathlib.Algebra.Ring.Nat
import Mathlib.Data.List.Forall2
import Mathlib.Tactic.Common

/-!
# Reading a shell command

How `sh` reads one simple command: its text is split into words at unquoted blanks, the quotes are removed, and the
first words of the form `name=value` are assignments. A text that `sh` does not read as fixed words, since it has
an operator or an expansion in it, or a quote that is not closed, is not read at all. Patterns are characters: files
that match them are looked for only afterwards.
-/

namespace Parler.Lib

/-! ## Pieces -/

/-- A piece of a command: a blank between words, a character of a word, or the place of a quote. -/
inductive Piece where
  | gap
  | mark
  | char (quoted : Bool) (c : Char)
  deriving DecidableEq

/-- Where a character stands outside quotes: at the start of a word, after a dollar sign, or elsewhere in a word. -/
inductive BarePlace where
  | start
  | dollar
  | inside
  deriving DecidableEq

/-- Where a command is read: outside quotes, after a backslash there, inside quotes, inside double quotes with
    whether a dollar sign is before, after a backslash there, or in a comment. -/
inductive Reading where
  | bare (place : BarePlace)
  | escaped (place : BarePlace)
  | single
  | double (dollar : Bool)
  | doubleEscaped (dollar : Bool)
  | comment
  deriving DecidableEq

def isBlank (c : Char) : Bool := c = ' ' || c = '\t'

/-- The characters of operators and of command substitution. -/
def isActive (c : Char) : Bool := c ∈ ['\n', '|', '&', ';', '<', '>', '(', ')', '\x60']

def isQuoting (c : Char) : Bool := c ∈ ['\x27', '"', '\\']

def isNameStart (c : Char) : Bool := c.isAlpha || c = '_'

def isNameChar (c : Char) : Bool := c.isAlphanum || c = '_'

/-- After a dollar sign the character makes an expansion: of a variable, of a special parameter, or one in
    brackets. -/
def startsExpansion (c : Char) : Bool := isNameChar c || c ∈ ['@', '*', '#', '?', '-', '$', '!', '\x7b', '(']

/-- Where the character after a bare one stands. -/
def placeAfter (c : Char) : BarePlace := if c = '$' then .dollar else .inside

/-- The pieces that a character makes, and where the next one is read. -/
def Reading.next : Reading → Char → Option (List Piece × Reading)
  | .bare place, c =>
      if place = .dollar && (startsExpansion c || c = '\x27') then none
      else if isBlank c then some ([.gap], .bare .start)
      else if c = '\x27' then some ([.mark], .single)
      else if c = '"' then some ([.mark], .double false)
      else if c = '\\' then some ([], .escaped place)
      else if place = .start && c = '#' then some ([], .comment)
      else if isActive c then none
      else some ([.char false c], .bare (placeAfter c))
  | .escaped place, c => if c = '\n' then some ([], .bare place) else some ([.char true c], .bare .inside)
  | .single, c => if c = '\x27' then some ([.mark], .bare .inside) else some ([.char true c], .single)
  | .double dollar, c =>
      if dollar && startsExpansion c then none
      else if c = '"' then some ([.mark], .bare .inside)
      else if c = '\\' then some ([], .doubleEscaped dollar)
      else if c = '\x60' then none
      else some ([.char true c], .double (c = '$'))
  | .doubleEscaped dollar, c =>
      if c = '\n' then some ([], .double dollar)
      else if c ∈ ['$', '\x60', '"', '\\'] then some ([.char true c], .double false)
      else some ([.char true '\\', .char true c], .double false)
  | .comment, c => if c = '\n' then none else some ([], .comment)

/-- A command may end outside quotes only. -/
def Reading.closed : Reading → Bool
  | .bare _ | .comment => true
  | _ => false

/-- The pieces of a text. -/
def pieces : Reading → List Char → Option (List Piece)
  | reading, [] => if reading.closed then some [] else none
  | reading, c :: cs =>
      match reading.next c with
      | none => none
      | some (made, next) => (pieces next cs).map (fun ps => made ++ ps)

/-! ## Words -/

/-- A word, each character with whether it was quoted. -/
abbrev ShellWord := List (Bool × Char)

/-- The words of the pieces, after a word that was begun. -/
def groupWords : Option ShellWord → List Piece → List ShellWord
  | none, [] => []
  | some word, [] => [word]
  | none, .gap :: ps => groupWords none ps
  | some word, .gap :: ps => word :: groupWords none ps
  | begun, .mark :: ps => groupWords (some (begun.getD [])) ps
  | begun, .char quoted c :: ps => groupWords (some (begun.getD [] ++ [(quoted, c)])) ps

/-- The text of a word without its quotes. -/
def ShellWord.text (word : ShellWord) : List Char := word.map Prod.snd

/-- `sh` puts a home directory for an unquoted tilde at the start of a word. -/
def ShellWord.startsTilde (word : ShellWord) : Bool := word.head? = some (false, '~')

/-- The words of a text. -/
def shellWords (cs : List Char) : Option (List ShellWord) :=
  match pieces (.bare .start) cs with
  | none => none
  | some ps =>
      if (groupWords none ps).any ShellWord.startsTilde then none else some (groupWords none ps)

/-! ## Commands -/

def isName (cs : List Char) : Bool :=
  match cs with
  | [] => false
  | c :: cs => isNameStart c && cs.all isNameChar

/-- A word that is an assignment: an unquoted name and an unquoted equals sign, and the value after it. -/
def ShellWord.assignment (word : ShellWord) : Option (List Char × ShellWord) :=
  match word.dropWhile (fun p => p ≠ (false, '=')) with
  | [] => none
  | _ :: value =>
      let name := word.takeWhile (fun p => p ≠ (false, '='))
      if name.all (fun p => !p.1) && isName (ShellWord.text name) then some (ShellWord.text name, value) else none

/-- A tilde that an assignment expands, at its start or after a colon. -/
def expandsTilde : ShellWord → Bool
  | [] => false
  | p :: word => p = (false, '~') || go (p :: word)
where
  go : ShellWord → Bool
    | p :: q :: word => (p = (false, ':') && q = (false, '~')) || go (q :: word)
    | _ => false

/-- The reserved words of `sh`. -/
def reservedWords : List String :=
  ["!", "\x7b", "\x7d", "case", "do", "done", "elif", "else", "esac", "fi", "for", "if", "in", "then", "until", "while"]

/-- The word is read as a reserved word where a command begins. -/
def ShellWord.isReserved (word : ShellWord) : Bool :=
  word.all (fun p => !p.1) && decide (String.ofList word.text ∈ reservedWords)

structure ShellCommand where
  assignments : List (List Char × List Char)
  words : List (List Char)
  deriving DecidableEq

/-- Take the assignments off the words of a command. -/
def splitAssignments : List ShellWord → Option ShellCommand
  | [] => some ⟨[], []⟩
  | word :: words =>
      match word.assignment with
      | none => some ⟨[], (word :: words).map ShellWord.text⟩
      | some (name, value) =>
          if expandsTilde value then none
          else (splitAssignments words).map (fun command =>
            ⟨(name, value.text) :: command.assignments, command.words⟩)

/-- The simple command that `sh` reads, where its words are fixed by the text. -/
def readCommand (cs : List Char) : Option ShellCommand :=
  match shellWords cs with
  | none => none
  | some words =>
      if (words.head?.map ShellWord.isReserved).getD false then none else splitAssignments words

/-! ## Writing a command -/

/-- Words with a blank between them. -/
def joinWords : List (List Char) → List Char
  | [] => []
  | word :: words => word ++ words.flatMap (fun word => ' ' :: word)

/-- A text in single quotes; a quote in it is escaped outside them. -/
def singleQuoted (cs : List Char) : List Char :=
  '\x27' :: (cs.flatMap (fun c => if c = '\x27' then ['\x27', '\\', '\x27', '\x27'] else [c]) ++ ['\x27'])

/-- The characters of pieces. -/
def charsOf (ps : List Piece) : ShellWord :=
  ps.filterMap (fun p => match p with
    | .char quoted c => some (quoted, c)
    | _ => none)

/-- Before texts of this kind, and unless a dollar sign is in front, the text is read as this part of a word. -/
def ReadsBefore (follows : List Char → Prop) (text : List Char) (word : ShellWord) : Prop :=
  ∃ ps : List Piece, ps ≠ [] ∧ .gap ∉ ps ∧ charsOf ps = word ∧ ∀ place rest, place ≠ .dollar → follows rest →
    pieces (.bare place) (text ++ rest) = (pieces (.bare .inside) rest).map (fun more => ps ++ more)

/-- Whatever follows, the text is read as this part of a word. -/
abbrev ReadsAs : List Char → ShellWord → Prop := ReadsBefore (fun _ => True)

/-- A word ends here. -/
def WordEnds (rest : List Char) : Prop := ∀ c ∈ rest.head?, isBlank c = true

/-- A character that stands for itself outside quotes, but for what a dollar sign before it makes of it. -/
def isPlain (c : Char) : Bool := !isBlank c && !isQuoting c && !isActive c

section Writing

variable {text text' : List Char} {word word' : ShellWord} {start : Bool} {c : Char} {cs : List Char}

theorem pieces_cons {reading next : Reading} {made : List Piece} (step : reading.next c = some (made, next)) :
    pieces reading (c :: cs) = (pieces next cs).map (fun ps => made ++ ps) := by
  rw [pieces, step]

theorem next_plain {place : BarePlace} (plain : isPlain c = true) (no_comment : place = .start → c ≠ '#')
    (no_expansion : place = .dollar → startsExpansion c = false) :
    (Reading.bare place).next c = some ([.char false c], .bare (placeAfter c)) := by
  simp only [isPlain, Bool.and_eq_true, Bool.not_eq_true', isQuoting, List.mem_cons, List.not_mem_nil, or_false,
    decide_eq_false_iff_not, not_or] at plain
  obtain ⟨⟨no_blank, no_quote, no_double, no_backslash⟩, no_active⟩ := plain
  have no_hash : ¬ (place = .start ∧ c = '#') := fun hash => no_comment hash.1 hash.2
  have literal : ¬ (place = .dollar ∧ startsExpansion c = true) := by
    rintro ⟨dollar, expands⟩
    rw [no_expansion dollar] at expands
    cases expands
  simp [Reading.next, no_blank, no_quote, no_double, no_backslash, no_hash, no_active, literal]

theorem ReadsAs.append (first : ReadsAs text word) (second : ReadsAs text' word') :
    ReadsAs (text ++ text') (word ++ word') := by
  obtain ⟨ps, nonempty, no_gap, rfl, read⟩ := first
  obtain ⟨ps', nonempty', no_gap', rfl, read'⟩ := second
  refine ⟨ps ++ ps', ?_, ?_, ?_, ?_⟩
  · simp [nonempty]
  · simp [no_gap, no_gap']
  · exact List.filterMap_append
  · intro place rest literal _
    rw [List.append_assoc, read place _ literal trivial, read' .inside _ (by decide) trivial, Option.map_map]
    congr 1
    funext more
    exact (List.append_assoc ps ps' more).symm

theorem ReadsAs.before (reads : ReadsAs text word) (follows : List Char → Prop) : ReadsBefore follows text word := by
  obtain ⟨ps, nonempty, no_gap, chars, read⟩ := reads
  exact ⟨ps, nonempty, no_gap, chars, fun place rest literal _ => read place rest literal trivial⟩

/-- A dollar sign has a character after it that makes an expansion of it. -/
def hasExpansion : List Char → Bool
  | [] => false
  | c :: cs => (c = '$' && cs.head?.any startsExpansion) || hasExpansion cs

/-- A blank ends a word after a dollar sign too. -/
theorem pieces_wordEnds {rest : List Char} (ends : WordEnds rest) (c : Char) :
    pieces (.bare (placeAfter c)) rest = pieces (.bare .inside) rest := by
  cases rest with
  | nil => rfl
  | cons d rest =>
    have blank : isBlank d = true := ends d rfl
    have literal : startsExpansion d = false ∧ d ≠ '\x27' := by
      simp only [isBlank, Bool.or_eq_true, decide_eq_true_eq] at blank
      rcases blank with rfl | rfl <;> decide
    have step : ∀ place, (Reading.bare place).next d = some ([.gap], .bare .start) := by
      intro place
      simp [Reading.next, blank, literal]
    rw [pieces_cons (step _), pieces_cons (step _)]

/-- Plain characters without an expansion are read as themselves, but for a hash sign in front, and for what may
    follow a dollar sign at the end. -/
theorem ReadsBefore.plain {follows : List Char → Prop} (nonempty : text ≠ []) (plain : ∀ c ∈ text, isPlain c = true)
    (no_expansion : hasExpansion text = false) (no_comment : text.head? ≠ some '#')
    (ends : ∀ c ∈ text.getLast?, ∀ rest, follows rest →
      pieces (.bare (placeAfter c)) rest = pieces (.bare .inside) rest) :
    ReadsBefore follows text (text.map (fun c => (false, c))) := by
  refine ⟨text.map (.char false), ?_, ?_, ?_, ?_⟩
  · simpa using nonempty
  · simp
  · simp [charsOf, List.filterMap_map]
  · intro place rest literal followed
    have from_here : ∀ (text : List Char) (place : BarePlace), text ≠ [] → (∀ c ∈ text, isPlain c = true) →
        hasExpansion text = false → (place = .start → text.head? ≠ some '#') →
        (place = .dollar → text.head?.any startsExpansion = false) →
        (∀ c ∈ text.getLast?, pieces (.bare (placeAfter c)) rest = pieces (.bare .inside) rest) →
        pieces (.bare place) (text ++ rest) =
          (pieces (.bare .inside) rest).map (fun ps => text.map (.char false) ++ ps) := by
      intro text
      induction text with
      | nil => exact fun _ nonempty => absurd rfl nonempty
      | cons c cs ih =>
        intro place _ plain no_expansion no_comment literal ends
        obtain ⟨first, others⟩ := List.forall_mem_cons.mp plain
        rw [hasExpansion, Bool.or_eq_false_iff] at no_expansion
        have step : (Reading.bare place).next c = some ([.char false c], .bare (placeAfter c)) :=
          next_plain first (fun start hash => no_comment start (congrArg some hash)) (by simpa using literal)
        rw [List.cons_append, pieces_cons step]
        cases cs with
        | nil =>
          rw [List.nil_append, ends c rfl]
          rfl
        | cons d cs =>
          rw [ih (placeAfter c) (List.cons_ne_nil _ _) others no_expansion.2, Option.map_map]
          · rfl
          · intro start
            unfold placeAfter at start
            split at start <;> cases start
          · intro dollar
            have sign : c = '$' := by
              unfold placeAfter at dollar
              split at dollar
              · assumption
              · cases dollar
            simpa [sign] using no_expansion.1
          · intro e last
            exact ends e (by simpa using last)
    exact from_here text place nonempty plain no_expansion (fun _ => no_comment)
      (fun dollar => absurd dollar literal) (fun c last => ends c last rest followed)

/-- A quoted text is read as its characters. -/
theorem ReadsAs.quoted (cs : List Char) : ReadsAs (singleQuoted cs) (cs.map (fun c => (true, c))) := by
  let body (cs : List Char) : List Piece :=
    cs.flatMap (fun c => if c = '\x27' then [.mark, .char true c, .mark] else [.char true c])
  refine ⟨.mark :: (body cs ++ [.mark]), List.cons_ne_nil _ _, ?_, ?_, ?_⟩
  · have no_gap : .gap ∉ body cs := by
      simp only [body, List.mem_flatMap, not_exists, not_and]
      intro c _
      split <;> simp
    simp [no_gap]
  · have chars : charsOf (body cs) = cs.map (fun c => (true, c)) := by
      induction cs with
      | nil => rfl
      | cons c cs ih =>
        have head : charsOf (body (c :: cs)) = (true, c) :: charsOf (body cs) := by
          simp only [body, List.flatMap_cons, charsOf]
          split <;> rfl
        rw [head, ih, List.map_cons]
    have ends : charsOf (.mark :: (body cs ++ [.mark])) = charsOf (body cs) := by simp [charsOf]
    rw [ends, chars]
  · intro place rest literal _
    have inside : ∀ cs : List Char, pieces .single
        (cs.flatMap (fun c => if c = '\x27' then ['\x27', '\\', '\x27', '\x27'] else [c]) ++ '\x27' :: rest) =
          (pieces (.bare .inside) rest).map (fun more => body cs ++ .mark :: more) := by
      intro cs
      induction cs with
      | nil => rfl
      | cons c cs ih =>
        rw [List.flatMap_cons, List.append_assoc]
        by_cases quote : c = '\x27'
        · rw [if_pos quote]
          show pieces .single ('\x27' :: '\\' :: '\x27' :: '\x27' :: (_ ++ '\x27' :: rest)) = _
          rw [pieces_cons rfl, pieces_cons rfl, pieces_cons rfl, pieces_cons rfl, ih]
          simp only [Option.map_map]
          congr 1
          funext more
          simp [body, quote]
        · have step : Reading.single.next c = some ([.char true c], .single) := if_neg quote
          rw [if_neg quote, List.singleton_append, pieces_cons step, ih, Option.map_map]
          congr 1
          funext more
          simp [body, quote]
    have opens : (Reading.bare place).next '\x27' = some ([.mark], .single) := by
      cases place with
      | dollar => exact absurd rfl literal
      | _ => rfl
    unfold singleQuoted
    rw [List.cons_append, List.append_assoc, pieces_cons opens, List.singleton_append, inside, Option.map_map]
    congr 1
    funext more
    simp

/-- The pieces of a word go on with it. -/
theorem groupWords_append {ps : List Piece} (nonempty : ps ≠ []) (no_gap : .gap ∉ ps) (begun : Option ShellWord)
    (rest : List Piece) :
    groupWords begun (ps ++ rest) = groupWords (some (begun.getD [] ++ charsOf ps)) rest := by
  induction ps generalizing begun with
  | nil => exact absurd rfl nonempty
  | cons p ps ih =>
    have step : ∀ word : ShellWord,
        groupWords (some word) (ps ++ rest) = groupWords (some (word ++ charsOf ps)) rest := by
      intro word
      cases ps with
      | nil => simp [charsOf]
      | cons q qs => exact ih (List.cons_ne_nil _ _) (fun member => no_gap (List.mem_cons_of_mem _ member)) (some word)
    cases p with
    | gap => exact absurd List.mem_cons_self no_gap
    | mark =>
      have chars : charsOf (.mark :: ps) = charsOf ps := rfl
      rw [List.cons_append, chars, ← step]
      cases begun <;> rfl
    | char quoted c =>
      have chars : charsOf (.char quoted c :: ps) = (quoted, c) :: charsOf ps := rfl
      have begins : groupWords begun (.char quoted c :: ps ++ rest) =
          groupWords (some (begun.getD [] ++ [(quoted, c)])) (ps ++ rest) := by cases begun <;> rfl
      rw [begins, step, chars, List.append_assoc]
      rfl

/-- Texts that are read as words are read, with blanks between them, as these words. -/
theorem shellWords_joinWords {texts : List (List Char)} {words : List ShellWord}
    (read : List.Forall₂ (ReadsBefore WordEnds) texts words) (no_tilde : ∀ word ∈ words, word.startsTilde = false) :
    shellWords (joinWords texts) = some words := by
  have ends : ∀ texts : List (List Char), WordEnds (texts.flatMap (fun text => ' ' :: text)) := by
    intro texts c first
    cases texts with
    | nil => cases first
    | cons text texts =>
      cases first
      rfl
  have more : ∀ {texts : List (List Char)} {words : List ShellWord},
      List.Forall₂ (ReadsBefore WordEnds) texts words →
      ∃ ps, pieces (.bare .inside) (texts.flatMap (fun text => ' ' :: text)) = some ps ∧
        ∀ word, groupWords (some word) ps = word :: words := by
    intro texts words read
    induction read with
    | nil => exact ⟨[], rfl, fun _ => rfl⟩
    | @cons text word texts words first _ ih =>
      obtain ⟨ps, nonempty, no_gap, rfl, reads⟩ := first
      obtain ⟨qs, rest, grouped⟩ := ih
      refine ⟨.gap :: (ps ++ qs), ?_, ?_⟩
      · rw [List.flatMap_cons, List.cons_append, pieces_cons rfl, reads .start _ (by decide) (ends _), rest]
        rfl
      · intro word
        show word :: groupWords none (ps ++ qs) = _
        rw [groupWords_append nonempty no_gap, grouped]
        rfl
  have whole : ∃ ps, pieces (.bare .start) (joinWords texts) = some ps ∧ groupWords none ps = words := by
    cases read with
    | nil => exact ⟨[], rfl, rfl⟩
    | cons first others =>
      obtain ⟨ps, nonempty, no_gap, rfl, reads⟩ := first
      obtain ⟨qs, rest, grouped⟩ := more others
      refine ⟨ps ++ qs, ?_, ?_⟩
      · rw [joinWords, reads .start _ (by decide) (ends _), rest]
        rfl
      · rw [groupWords_append nonempty no_gap, grouped]
        rfl
  obtain ⟨ps, lexed, grouped⟩ := whole
  unfold shellWords
  rw [lexed]
  dsimp only
  rw [grouped, if_neg]
  rw [List.any_eq_true]
  rintro ⟨word, member, tilde⟩
  rw [no_tilde word member] at tilde
  cases tilde

end Writing

/-! ## Words that need no quotes -/

/-- A word that is read as itself without quotes. -/
structure Bareword (word : List Char) : Prop where
  nonempty : word ≠ []
  plain : ∀ c ∈ word, isPlain c = true
  no_expansion : hasExpansion word = false
  no_comment : word.head? ≠ some '#'
  no_tilde : word.head? ≠ some '~'

instance (word : List Char) : Decidable (Bareword word) :=
  decidable_of_iff (word ≠ [] ∧ word.all isPlain = true ∧ hasExpansion word = false ∧ word.head? ≠ some '#' ∧
      word.head? ≠ some '~')
    ⟨fun ⟨nonempty, plain, no_expansion, no_comment, no_tilde⟩ =>
        ⟨nonempty, List.all_eq_true.mp plain, no_expansion, no_comment, no_tilde⟩,
      fun bare =>
        ⟨bare.nonempty, List.all_eq_true.mpr bare.plain, bare.no_expansion, bare.no_comment, bare.no_tilde⟩⟩

theorem Bareword.reads {word : List Char} (bare : Bareword word) :
    ReadsBefore WordEnds word (word.map (fun c => (false, c))) :=
  ReadsBefore.plain bare.nonempty bare.plain bare.no_expansion bare.no_comment
    (fun c _ _ ends => pieces_wordEnds ends c)

/-- A text of blanks and plain characters, where no word starts with a hash sign and no dollar sign expands. -/
def BareText : BarePlace → List Char → Prop
  | _, [] => True
  | place, c :: cs =>
      (isBlank c = true ∧ BareText .start cs) ∨
        (isPlain c = true ∧ (place = .start → c ≠ '#') ∧ (place = .dollar → startsExpansion c = false) ∧
          BareText (placeAfter c) cs)

/-- How many pieces a state owes to a character before. -/
def Reading.owed : Reading → Nat
  | .doubleEscaped _ => 1
  | _ => 0

section Barewords

variable {place : BarePlace} {reading next : Reading} {c : Char} {cs cs' : List Char} {ps made : List Piece}

theorem pieces_cons_eq_some (lexed : pieces reading (c :: cs) = some ps) :
    ∃ made next qs, reading.next c = some (made, next) ∧ pieces next cs = some qs ∧ ps = made ++ qs := by
  rw [pieces] at lexed
  cases step : reading.next c with
  | none => rw [step] at lexed; cases lexed
  | some result =>
    obtain ⟨made, next⟩ := result
    rw [step] at lexed
    obtain ⟨qs, rest, rfl⟩ := Option.map_eq_some_iff.mp lexed
    exact ⟨made, next, qs, rfl, rest, rfl⟩

theorem made_length (step : reading.next c = some (made, next)) : made.length + next.owed ≤ 1 + reading.owed := by
  cases reading <;> simp only [Reading.next] at step <;> split_ifs at step <;> cases step <;> simp [Reading.owed]

/-- A character makes one piece at most. -/
theorem pieces_length (lexed : pieces reading cs = some ps) : ps.length ≤ cs.length + reading.owed := by
  induction cs generalizing reading ps with
  | nil =>
    unfold pieces at lexed
    split at lexed <;> cases lexed
    exact Nat.zero_le _
  | cons c cs ih =>
    obtain ⟨made, next, qs, step, rest, rfl⟩ := pieces_cons_eq_some lexed
    have one := made_length step
    have others := ih rest
    rw [List.length_append, List.length_cons]
    omega

/-- What a character can do outside quotes. -/
theorem next_bare (step : (Reading.bare place).next c = some (made, next)) :
    (isBlank c = true ∧ made = [.gap] ∧ next = .bare .start) ∨ .mark ∈ made ∨ (made = [] ∧ next.owed = 0) ∨
      (isPlain c = true ∧ (place = .start → c ≠ '#') ∧ (place = .dollar → startsExpansion c = false) ∧
        made = [.char false c] ∧ next = .bare (placeAfter c)) := by
  simp only [Reading.next] at step
  split_ifs at step with expands blank quote double backslash hash active <;> cases step
  · exact .inl ⟨blank, rfl, rfl⟩
  · exact .inr (.inl (by simp))
  · exact .inr (.inl (by simp))
  · exact .inr (.inr (.inl ⟨rfl, rfl⟩))
  · exact .inr (.inr (.inl ⟨rfl, rfl⟩))
  · have plain : isPlain c = true := by simp [isPlain, isQuoting, blank, quote, double, backslash, active]
    have no_hash : place = .start → c ≠ '#' := by
      intro first equal
      simp [first, equal] at hash
    have literal : place = .dollar → startsExpansion c = false := by
      intro dollar
      simp only [dollar, decide_true, Bool.true_and, Bool.or_eq_true, not_or, Bool.not_eq_true] at expands
      exact expands.1
    exact .inr (.inr (.inr ⟨plain, no_hash, literal, rfl, rfl⟩))

/-- A text that loses no character when it is read has no quotes. -/
theorem bareText_of_length (lexed : pieces (.bare place) cs = some ps) (no_mark : .mark ∉ ps)
    (lossless : cs.length ≤ ps.length) :
    BareText place cs ∧ ps = cs.map (fun c => if isBlank c then .gap else .char false c) := by
  induction cs generalizing place ps with
  | nil =>
    cases lexed
    exact ⟨trivial, rfl⟩
  | cons c cs ih =>
    obtain ⟨made, next, qs, step, rest, rfl⟩ := pieces_cons_eq_some lexed
    rw [List.mem_append, not_or] at no_mark
    rw [List.length_append, List.length_cons] at lossless
    obtain ⟨blank, rfl, rfl⟩ | mark | ⟨rfl, owed⟩ | ⟨plain, no_hash, literal, rfl, rfl⟩ := next_bare step
    · obtain ⟨bare, rfl⟩ := ih rest no_mark.2 (by simpa [Nat.add_comm] using lossless)
      refine ⟨.inl ⟨blank, bare⟩, ?_⟩
      rw [List.map_cons, if_pos blank]
      rfl
    · exact absurd mark no_mark.1
    · have bound := pieces_length rest
      rw [owed] at bound
      rw [List.length_nil] at lossless
      omega
    · obtain ⟨bare, rfl⟩ := ih rest no_mark.2 (by simpa [Nat.add_comm] using lossless)
      have no_blank : isBlank c = false := by
        simp only [isPlain, Bool.and_eq_true, Bool.not_eq_true'] at plain
        exact plain.1.1
      refine ⟨.inr ⟨plain, no_hash, literal, bare⟩, ?_⟩
      rw [List.map_cons, no_blank]
      rfl

theorem BareText.append (bare : BareText place (cs ++ cs')) :
    BareText place cs ∧ ∃ place', BareText place' cs' := by
  induction cs generalizing place with
  | nil => exact ⟨trivial, place, bare⟩
  | cons c cs ih =>
    obtain ⟨blank, rest⟩ | ⟨plain, no_hash, literal, rest⟩ := bare
    · exact ⟨.inl ⟨blank, (ih rest).1⟩, (ih rest).2⟩
    · exact ⟨.inr ⟨plain, no_hash, literal, (ih rest).1⟩, (ih rest).2⟩

/-- Every word of a text begins where a word may begin. -/
theorem BareText.words {words : List (List Char)} (bare : BareText .start (joinWords words)) :
    ∀ word ∈ words, BareText .start word := by
  have later : ∀ (words : List (List Char)) (place : BarePlace),
      BareText place (words.flatMap (fun word => ' ' :: word)) → ∀ word ∈ words, BareText .start word := by
    intro words
    induction words with
    | nil => simp
    | cons word words ih =>
      intro place bare
      rw [List.flatMap_cons, List.cons_append] at bare
      obtain ⟨-, after⟩ | ⟨plain, -⟩ := bare
      · obtain ⟨first, place', others⟩ := after.append
        exact List.forall_mem_cons.mpr ⟨first, ih place' others⟩
      · simp [isPlain, isBlank] at plain
  cases words with
  | nil => simp
  | cons word words =>
    obtain ⟨first, place', others⟩ := bare.append
    exact List.forall_mem_cons.mpr ⟨first, later words place' others⟩

theorem BareText.plain (bare : BareText place cs) (no_blank : ∀ c ∈ cs, isBlank c = false) :
    (∀ c ∈ cs, isPlain c = true) ∧ (place = .start → cs.head? ≠ some '#') ∧ hasExpansion cs = false ∧
      (place = .dollar → cs.head?.any startsExpansion = false) := by
  induction cs generalizing place with
  | nil => simp [hasExpansion]
  | cons c cs ih =>
    obtain ⟨first, others⟩ := List.forall_mem_cons.mp no_blank
    obtain ⟨blank, -⟩ | ⟨plain, no_hash, literal, rest⟩ := bare
    · rw [first] at blank
      cases blank
    · obtain ⟨plain', -, no_expansion, after⟩ := ih rest others
      refine ⟨List.forall_mem_cons.mpr ⟨plain, plain'⟩, ?_, ?_, ?_⟩
      · exact fun at_start hash => no_hash at_start (Option.some.inj hash)
      · rw [hasExpansion, no_expansion, Bool.or_false]
        by_cases sign : c = '$'
        · rw [after (if_pos sign), Bool.and_false]
        · rw [decide_eq_false sign, Bool.false_and]
      · simpa using literal

theorem groupWords_flatten (begun : Option ShellWord) (ps : List Piece) :
    (groupWords begun ps).flatten = begun.getD [] ++ charsOf ps := by
  induction ps generalizing begun with
  | nil => cases begun <;> simp [groupWords, charsOf]
  | cons p ps ih =>
    cases p with
    | gap => cases begun <;> simp [groupWords, charsOf, ih]
    | mark => simp [groupWords, charsOf, ih]
    | char quoted c => simp [groupWords, charsOf, ih]

theorem groupWords_length (begun : Option ShellWord) (ps : List Piece) :
    (groupWords begun ps).length ≤ ps.count .gap + 1 := by
  induction ps generalizing begun with
  | nil => cases begun <;> simp [groupWords]
  | cons p ps ih =>
    cases p with
    | gap =>
      have rest := ih none
      rw [List.count_cons_self]
      cases begun with
      | none => exact Nat.le_succ_of_le rest
      | some word => exact Nat.succ_le_succ rest
    | mark => simpa [groupWords] using ih (some (begun.getD []))
    | char quoted c => simpa [groupWords] using ih (some (begun.getD [] ++ [(quoted, c)]))

/-- A word has a character or a quote in it. -/
theorem groupWords_nonempty (no_mark : .mark ∉ ps) (begun : Option ShellWord) (kept : begun ≠ some []) :
    [] ∉ groupWords begun ps := by
  induction ps generalizing begun with
  | nil =>
    cases begun with
    | none => simp [groupWords]
    | some word => simpa [groupWords, eq_comm] using kept
  | cons p ps ih =>
    rw [List.mem_cons, not_or] at no_mark
    cases p with
    | gap =>
      have rest := ih no_mark.2 none (by simp)
      cases begun with
      | none => exact rest
      | some word =>
        rw [groupWords, List.mem_cons, not_or]
        exact ⟨fun equal => kept (congrArg some equal.symm), rest⟩
    | mark => exact absurd rfl no_mark.1
    | char quoted c =>
      rw [groupWords]
      exact ih no_mark.2 (some (begun.getD [] ++ [(quoted, c)])) (by simp)

theorem pieces_count (ps : List Piece) :
    ps.length = ps.count .gap + ps.count .mark + (charsOf ps).length := by
  induction ps with
  | nil => rfl
  | cons p ps ih => cases p <;> simp [charsOf] at ih ⊢ <;> omega

theorem joinWords_length (words : List (List Char)) :
    (joinWords words).length = (words.map List.length).sum + (words.length - 1) := by
  have later : ∀ words : List (List Char), (words.flatMap (fun word => ' ' :: word)).length =
      (words.map List.length).sum + words.length := by
    intro words
    induction words with
    | nil => rfl
    | cons word words ih =>
      simp only [List.flatMap_cons, List.length_append, List.length_cons, List.map_cons, List.sum_cons, ih]
      omega
  cases words with
  | nil => rfl
  | cons word words =>
    rw [joinWords, List.length_append, later, List.map_cons, List.sum_cons, List.length_cons, Nat.add_sub_cancel,
      Nat.add_assoc]

theorem joinWords_blanks (words : List (List Char)) :
    (joinWords words).countP isBlank = (words.map (List.countP isBlank)).sum + (words.length - 1) := by
  have later : ∀ words : List (List Char), (words.flatMap (fun word => ' ' :: word)).countP isBlank =
      (words.map (List.countP isBlank)).sum + words.length := by
    intro words
    induction words with
    | nil => rfl
    | cons word words ih =>
      have blank : isBlank ' ' = true := rfl
      simp only [List.flatMap_cons, List.countP_append, List.countP_cons, blank, if_true, List.map_cons, List.sum_cons,
        List.length_cons, ih]
      omega
  cases words with
  | nil => rfl
  | cons word words =>
    rw [joinWords, List.countP_append, later, List.map_cons, List.sum_cons, List.length_cons, Nat.add_sub_cancel,
      Nat.add_assoc]

/-- Words that are read as their texts without quotes lose no character, and have no blank. -/
theorem bareText_of_read {words : List (List Char)} (lexed : pieces (.bare .start) (joinWords words) = some ps)
    (same : (groupWords none ps).map ShellWord.text = words) :
    BareText .start (joinWords words) ∧ .mark ∉ ps ∧
      ps = (joinWords words).map (fun c => if isBlank c then .gap else .char false c) ∧
      ∀ word ∈ words, ∀ c ∈ word, isBlank c = false := by
  have chars : (charsOf ps).length = (words.map List.length).sum := by
    have flat := congrArg List.length (groupWords_flatten none ps)
    rw [Option.getD_none, List.nil_append, List.length_flatten] at flat
    rw [← flat, ← same, List.map_map]
    congr 1
    exact List.map_congr_left (fun word _ => (List.length_map _).symm)
  have many : words.length ≤ ps.count .gap + 1 := by
    rw [← same, List.length_map]
    exact groupWords_length none ps
  have bound := pieces_length lexed
  have joined := joinWords_length words
  have counted := pieces_count ps
  have no_owed : (Reading.bare .start).owed = 0 := rfl
  have no_mark : .mark ∉ ps := List.count_eq_zero.mp (by omega)
  obtain ⟨bare, equal⟩ := bareText_of_length lexed no_mark (by omega)
  have gaps : ps.count .gap = (joinWords words).countP isBlank := by
    rw [equal, List.count_eq_countP, List.countP_map]
    apply List.countP_congr
    intro c _
    by_cases blank : isBlank c = true <;> simp [blank]
  have blanks := joinWords_blanks words
  have none_left : (words.map (List.countP isBlank)).sum = 0 := by omega
  refine ⟨bare, no_mark, equal, fun word member c inside => ?_⟩
  have zero : word.countP isBlank = 0 := List.sum_eq_zero_iff_forall_eq_nat.mp none_left _ (List.mem_map_of_mem member)
  exact Bool.eq_false_iff.mpr (List.countP_eq_zero.mp zero c inside)

theorem bare_startsTilde (no_tilde : cs.head? ≠ some '~') :
    ShellWord.startsTilde (cs.map (fun c => (false, c))) = false := by
  cases cs with
  | nil => rfl
  | cons c cs => simpa [ShellWord.startsTilde] using no_tilde

/-- Words with blanks between them are read as themselves exactly if none of them needs quotes. -/
theorem shellWords_joinWords_iff (words : List (List Char)) :
    (∃ read, shellWords (joinWords words) = some read ∧ read.map ShellWord.text = words) ↔
      ∀ word ∈ words, Bareword word := by
  constructor
  · rintro ⟨read, taken, same⟩
    unfold shellWords at taken
    cases lexed : pieces (.bare .start) (joinWords words) with
    | none => rw [lexed] at taken; cases taken
    | some ps =>
      rw [lexed] at taken
      dsimp only at taken
      split at taken <;> cases taken
      rename_i no_tilde
      obtain ⟨bare, no_mark, equal, no_blank⟩ := bareText_of_read lexed same
      intro word member
      obtain ⟨plain, no_hash, no_expansion, -⟩ := (bare.words word member).plain (no_blank word member)
      rw [← same] at member
      obtain ⟨taken, taken_in, rfl⟩ := List.mem_map.mp member
      refine ⟨?_, plain, no_expansion, no_hash rfl, ?_⟩
      · intro empty
        have none_empty := groupWords_nonempty no_mark none (by simp)
        rw [List.map_eq_nil_iff.mp empty] at taken_in
        exact none_empty taken_in
      · intro tilde
        refine no_tilde (List.any_eq_true.mpr ⟨taken, taken_in, ?_⟩)
        cases taken with
        | nil => cases tilde
        | cons p taken =>
          have unquoted : p ∈ charsOf ps := by
            rw [← List.nil_append (charsOf ps)]
            exact groupWords_flatten none ps ▸ List.mem_flatten.mpr ⟨_, taken_in, List.mem_cons_self⟩
          have bare_char : p.1 = false := by
            rw [equal] at unquoted
            simp only [charsOf, List.filterMap_map, List.mem_filterMap] at unquoted
            obtain ⟨c, -, made⟩ := unquoted
            by_cases blank : isBlank c = true <;> simp [blank] at made
            rw [← made]
          obtain ⟨quoted, c⟩ := p
          cases bare_char
          cases tilde
          rfl
  · intro bare
    have read : List.Forall₂ (ReadsBefore WordEnds) words
        (words.map (fun word => word.map (fun c => (false, c)))) := by
      rw [List.forall₂_map_right_iff, List.forall₂_same]
      exact fun word member => (bare word member).reads
    refine ⟨_, shellWords_joinWords read ?_, ?_⟩
    · intro word member
      obtain ⟨text, text_in, rfl⟩ := List.mem_map.mp member
      exact bare_startsTilde (bare text text_in).no_tilde
    · simp [ShellWord.text, Function.comp_def]

end Barewords

/-! ## Commands that are written -/

/-- An assignment with its value in quotes. -/
def quotedAssignment (name value : List Char) : List Char := name ++ '=' :: singleQuoted value

/-- The word of an assignment with its value in quotes. -/
def assignmentWord (name value : List Char) : ShellWord :=
  name.map (fun c => (false, c)) ++ (false, '=') :: value.map (fun c => (true, c))

section Commands

variable {name : List Char} {c : Char} {cs : List Char} {words : List ShellWord}

theorem name_chars (named : isName name = true) : ∀ c ∈ name, isNameChar c = true := by
  cases name with
  | nil => simp
  | cons c cs =>
    simp only [isName, Bool.and_eq_true, List.all_eq_true] at named
    have start : isNameChar c = true := by
      have first := named.1
      simp only [isNameStart, isNameChar, Bool.or_eq_true, Char.isAlphanum] at first ⊢
      exact first.imp_left Or.inl
    exact List.forall_mem_cons.mpr ⟨start, named.2⟩

/-- A character of a name is none of the characters that `sh` treats in a way of its own. -/
theorem nameChar_ne (named : isNameChar c = true) {other : Char} (special : isNameChar other = false) :
    c ≠ other := by
  intro equal
  rw [equal, special] at named
  cases named

theorem isPlain_of_name (named : isNameChar c = true) : isPlain c = true := by
  have others : [' ', '\t', '\x27', '"', '\\', '\n', '|', '&', ';', '<', '>', '(', ')', '\x60'].all
      (fun other => !isNameChar other) = true := by decide
  rw [List.all_eq_true] at others
  have distinct := fun other member =>
    nameChar_ne named (Bool.not_eq_eq_eq_not.mp (others other member))
  simp only [List.forall_mem_cons] at distinct
  simp [isPlain, isBlank, isQuoting, isActive, distinct]

theorem name_eq_cons (named : isName name = true) : ∃ c cs, name = c :: cs ∧ isNameChar c = true := by
  have chars := name_chars named
  cases name with
  | nil => cases named
  | cons c cs => exact ⟨c, cs, rfl, chars c List.mem_cons_self⟩

/-- A name makes no expansion of what is after it. -/
theorem hasExpansion_name {name : List Char} (chars : ∀ c ∈ name, isNameChar c = true) (cs : List Char) :
    hasExpansion (name ++ cs) = hasExpansion cs := by
  induction name with
  | nil => rfl
  | cons c name ih =>
    obtain ⟨first, others⟩ := List.forall_mem_cons.mp chars
    have no_sign : c ≠ '$' := nameChar_ne first (by decide)
    rw [List.cons_append, hasExpansion, decide_eq_false no_sign, Bool.false_and, Bool.false_or, ih others]

theorem ReadsAs.assignment (named : isName name = true) (value : List Char) :
    ReadsAs (quotedAssignment name value) (assignmentWord name value) := by
  have chars := name_chars named
  have front : ReadsAs (name ++ ['=']) ((name ++ ['=']).map (fun c => (false, c))) := by
    apply ReadsBefore.plain
    · simp
    · intro c member
      rcases List.mem_append.mp member with inside | equal
      · exact isPlain_of_name (chars c inside)
      · cases List.mem_singleton.mp equal
        decide
    · exact hasExpansion_name chars ['=']
    · obtain ⟨c, cs, rfl, first⟩ := name_eq_cons named
      have no_hash : c ≠ '#' := nameChar_ne first (by decide)
      simpa using no_hash
    · intro c last rest _
      obtain rfl : '=' = c := by simpa using last
      rfl
  have whole := front.append (ReadsAs.quoted value)
  simpa [quotedAssignment, assignmentWord] using whole

/-- A text that stands for itself within a word. -/
structure Literal (cs : List Char) : Prop where
  plain : ∀ c ∈ cs, isPlain c = true
  no_expansion : hasExpansion cs = false

/-- A name and a value need no quotes if the value stands for itself. -/
theorem bareword_assignment (named : isName name = true) (value : List Char) :
    Bareword (name ++ '=' :: value) ↔ Literal value := by
  have expansion : hasExpansion (name ++ '=' :: value) = hasExpansion value := by
    rw [hasExpansion_name (name_chars named), hasExpansion]
    rfl
  constructor
  · intro bare
    refine ⟨?_, expansion ▸ bare.no_expansion⟩
    intro c member
    exact bare.plain c (List.mem_append_right _ (List.mem_cons_of_mem _ member))
  · rintro ⟨plain, no_expansion⟩
    rw [← expansion] at no_expansion
    have chars := name_chars named
    obtain ⟨c, cs, rfl, first⟩ := name_eq_cons named
    have no_hash : c ≠ '#' := nameChar_ne first (by decide)
    have no_tilde : c ≠ '~' := nameChar_ne first (by decide)
    refine ⟨by simp, fun d member => ?_, no_expansion, by simpa using no_hash, by simpa using no_tilde⟩
    rcases List.mem_append.mp member with inside | after
    · exact isPlain_of_name (chars d inside)
    · rcases List.mem_cons.mp after with rfl | inside
      · decide
      · exact plain d inside

theorem assignment_assignmentWord (named : isName name = true) (value : List Char) :
    (assignmentWord name value).assignment = some (name, value.map (fun c => (true, c))) := by
  have others : ∀ p ∈ name.map (fun c => (false, c)), decide (p ≠ (false, '=')) = true := by
    intro p member
    obtain ⟨c, inside, rfl⟩ := List.mem_map.mp member
    have no_equals : c ≠ '=' := nameChar_ne (name_chars named c inside) (by decide)
    simpa using no_equals
  have dropped : (assignmentWord name value).dropWhile (fun p => decide (p ≠ (false, '='))) =
      (false, '=') :: value.map (fun c => (true, c)) := by
    unfold assignmentWord
    rw [List.dropWhile_append_of_pos others]
    rfl
  have taken : (assignmentWord name value).takeWhile (fun p => decide (p ≠ (false, '='))) =
      name.map (fun c => (false, c)) := by
    unfold assignmentWord
    rw [List.takeWhile_append_of_pos others]
    simp
  have text : ShellWord.text (name.map (fun c => (false, c))) = name := by simp [ShellWord.text, Function.comp_def]
  unfold ShellWord.assignment
  rw [dropped]
  dsimp only
  rw [taken, text, named]
  simp

theorem expandsTilde_quoted (value : List Char) : expandsTilde (value.map (fun c => (true, c))) = false := by
  have later : ∀ cs : List Char, expandsTilde.go (cs.map (fun c => (true, c))) = false := by
    intro cs
    induction cs with
    | nil => rfl
    | cons c cs ih =>
      cases cs with
      | nil => rfl
      | cons d cs => simpa [expandsTilde.go] using ih
  cases value with
  | nil => rfl
  | cons c cs => simpa [expandsTilde] using later (c :: cs)

/-- Assignments with their values in quotes come off the words after them. -/
theorem splitAssignments_assigned {env : List (List Char × List Char)} (named : ∀ kv ∈ env, isName kv.1 = true)
    (others : splitAssignments words = some ⟨[], words.map ShellWord.text⟩) :
    splitAssignments (env.map (fun kv => assignmentWord kv.1 kv.2) ++ words) =
      some ⟨env, words.map ShellWord.text⟩ := by
  induction env with
  | nil => exact others
  | cons kv env ih =>
    obtain ⟨first, rest⟩ := List.forall_mem_cons.mp named
    have text : ShellWord.text (kv.2.map (fun c => (true, c))) = kv.2 := by simp [ShellWord.text, Function.comp_def]
    rw [List.map_cons, List.cons_append, splitAssignments, assignment_assignmentWord first]
    dsimp only
    rw [expandsTilde_quoted, ih rest, text]
    rfl

theorem splitAssignments_none (first : ∀ word ∈ words.head?, word.assignment = none) :
    splitAssignments words = some ⟨[], words.map ShellWord.text⟩ := by
  cases words with
  | nil => rfl
  | cons word words => rw [splitAssignments, first word rfl]

theorem text_of_splitAssignments {texts : List (List Char)} (split : splitAssignments words = some ⟨[], texts⟩) :
    words.map ShellWord.text = texts := by
  cases words with
  | nil => cases split; rfl
  | cons word words =>
    rw [splitAssignments] at split
    cases assigned : word.assignment with
    | none => rw [assigned] at split; cases split; rfl
    | some pair =>
      rw [assigned] at split
      dsimp only at split
      split at split
      · cases split
      · obtain ⟨command, -, equal⟩ := Option.map_eq_some_iff.mp split
        cases equal

/-- Without assignments the command is its words. -/
theorem words_of_readCommand {texts : List (List Char)} (read : readCommand cs = some ⟨[], texts⟩) :
    ∃ words, shellWords cs = some words ∧ words.map ShellWord.text = texts := by
  unfold readCommand at read
  cases taken : shellWords cs with
  | none => rw [taken] at read; cases read
  | some words =>
    rw [taken] at read
    dsimp only at read
    split at read
    · cases read
    · exact ⟨words, rfl, text_of_splitAssignments read⟩

theorem readCommand_eq (read : shellWords cs = some words) (first : ∀ word ∈ words.head?, word.isReserved = false) :
    readCommand cs = splitAssignments words := by
  unfold readCommand
  rw [read]
  dsimp only
  rw [if_neg]
  cases words with
  | nil => simp
  | cons word words => simp [first word rfl]

theorem assignmentWord_not_reserved (name value : List Char) : (assignmentWord name value).isReserved = false := by
  have no_equals : ∀ word ∈ reservedWords, '=' ∉ word.toList := by decide
  unfold ShellWord.isReserved
  rw [Bool.and_eq_false_iff, decide_eq_false_iff_not]
  refine .inr (fun reserved => no_equals _ reserved ?_)
  simp [assignmentWord, ShellWord.text]

theorem quoted_assignment (cs : List Char) : ShellWord.assignment (cs.map (fun c => (true, c))) = none := by
  have dropped : (cs.map (fun c => (true, c))).dropWhile (fun p => decide (p ≠ (false, '='))) = [] := by
    rw [← List.append_nil (cs.map _), List.dropWhile_append_of_pos (by simp)]
    rfl
  unfold ShellWord.assignment
  rw [dropped]

theorem quoted_not_reserved (cs : List Char) : ShellWord.isReserved (cs.map (fun c => (true, c))) = false := by
  cases cs with
  | nil => decide
  | cons c cs => rfl

theorem quoted_startsTilde (cs : List Char) : ShellWord.startsTilde (cs.map (fun c => (true, c))) = false := by
  cases cs <;> simp [ShellWord.startsTilde]

theorem assignmentWord_startsTilde (named : isName name = true) (value : List Char) :
    (assignmentWord name value).startsTilde = false := by
  obtain ⟨c, cs, rfl, first⟩ := name_eq_cons named
  have no_tilde : c ≠ '~' := nameChar_ne first (by decide)
  simpa [assignmentWord, ShellWord.startsTilde] using no_tilde

/-- A command of assignments and a first word in quotes is read as it was meant. -/
theorem readCommand_quoted {env : List (List Char × List Char)} (named : ∀ kv ∈ env, isName kv.1 = true)
    (program : List Char) {arguments : List (List Char)} (bare : ∀ word ∈ arguments, Bareword word) :
    readCommand (joinWords (env.map (fun kv => quotedAssignment kv.1 kv.2) ++ singleQuoted program :: arguments)) =
      some ⟨env, program :: arguments⟩ := by
  let tail : List ShellWord :=
    program.map (fun c => (true, c)) :: arguments.map (fun word => word.map (fun c => (false, c)))
  have reads_env : List.Forall₂ (ReadsBefore WordEnds) (env.map (fun kv => quotedAssignment kv.1 kv.2))
      (env.map (fun kv => assignmentWord kv.1 kv.2)) := by
    rw [List.forall₂_map_left_iff, List.forall₂_map_right_iff, List.forall₂_same]
    exact fun kv member => (ReadsAs.assignment (named kv member) kv.2).before WordEnds
  have reads_tail : List.Forall₂ (ReadsBefore WordEnds) (singleQuoted program :: arguments) tail := by
    refine .cons ((ReadsAs.quoted program).before WordEnds) ?_
    rw [List.forall₂_map_right_iff, List.forall₂_same]
    exact fun word member => (bare word member).reads
  have no_tilde : ∀ word ∈ env.map (fun kv => assignmentWord kv.1 kv.2) ++ tail, word.startsTilde = false := by
    intro word member
    rcases List.mem_append.mp member with assigned | member
    · obtain ⟨kv, inside, rfl⟩ := List.mem_map.mp assigned
      exact assignmentWord_startsTilde (named kv inside) kv.2
    · rcases List.mem_cons.mp member with rfl | argument
      · exact quoted_startsTilde program
      · obtain ⟨text, inside, rfl⟩ := List.mem_map.mp argument
        exact bare_startsTilde (bare text inside).no_tilde
  have read := shellWords_joinWords (List.rel_append reads_env reads_tail) no_tilde
  have texts : tail.map ShellWord.text = program :: arguments := by
    simp [tail, ShellWord.text, Function.comp_def]
  rw [readCommand_eq read, ← texts]
  · apply splitAssignments_assigned named
    apply splitAssignments_none
    intro word first
    cases first
    exact quoted_assignment program
  · intro word first
    cases env with
    | nil =>
      cases first
      exact quoted_not_reserved program
    | cons kv env =>
      cases first
      exact assignmentWord_not_reserved kv.1 kv.2

theorem assignment_eq_none {word : ShellWord} (no_equals : '=' ∉ word.text) : word.assignment = none := by
  have others : ∀ p ∈ word, decide (p ≠ (false, '=')) = true := by
    intro p member
    refine decide_eq_true (fun equal => no_equals ?_)
    exact List.mem_map.mpr ⟨p, member, congrArg Prod.snd equal⟩
  have dropped : word.dropWhile (fun p => decide (p ≠ (false, '='))) = [] := by
    rw [← List.append_nil word, List.dropWhile_append_of_pos others]
    rfl
  unfold ShellWord.assignment
  rw [dropped]

/-- A command without quotes is read as its words exactly if none of them needs quotes. -/
theorem readCommand_joinWords_iff {program : List Char} {arguments : List (List Char)} (no_equals : '=' ∉ program)
    (not_reserved : String.ofList program ∉ reservedWords) :
    readCommand (joinWords (program :: arguments)) = some ⟨[], program :: arguments⟩ ↔
      ∀ word ∈ program :: arguments, Bareword word := by
  rw [← shellWords_joinWords_iff]
  constructor
  · exact words_of_readCommand
  · rintro ⟨words, read, texts⟩
    obtain ⟨word, more, rfl, first, -⟩ := List.map_eq_cons_iff.mp texts
    rw [readCommand_eq read, ← texts]
    · apply splitAssignments_none
      intro w head
      cases head
      exact assignment_eq_none (first.symm ▸ no_equals)
    · intro w head
      cases head
      unfold ShellWord.isReserved
      rw [first, decide_eq_false not_reserved, Bool.and_false]

end Commands

end Parler.Lib
