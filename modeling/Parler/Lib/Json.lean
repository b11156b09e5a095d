import Mathlib.Data.List.Basic
import Mathlib.Logic.Function.Basic

/-!
# JSON values and their compact text

A JSON value with the number cases kept apart (an integer, or a double given
by its bits), its whitespace-free text, and objects as key-sorted lists, which is
what an ordered map serialises to. The text of a double is a parameter
(`FloatFormat`): the shortest-representation printer is not modelled, only that
its texts are number tokens, pairwise distinct and distinct from integer texts.

The main result is `render_injective`: the text determines the value. It rests
on a prefix form (`render_prefix`) that says where a value ends in a longer text.
-/

namespace Parler.Lib

/-- A finite double by its bits: the exponent field is not all ones. -/
structure Double where
  bits : UInt64
  finite : (bits >>> 52) &&& 0x7FF ≠ 0x7FF
  deriving DecidableEq

inductive Json where
  | null
  | bool (value : Bool)
  | int (value : Int)
  | float (value : Double)
  | str (value : String)
  | arr (items : List Json)
  | obj (fields : List (String × Json))

namespace Json

mutual

/-- Structural comparison, as `arr` and `obj` nest the type in lists. -/
def same : Json → Json → Bool
  | .null, .null => true
  | .bool a, .bool b => a = b
  | .int a, .int b => a = b
  | .float a, .float b => a = b
  | .str a, .str b => a = b
  | .arr a, .arr b => sameItems a b
  | .obj a, .obj b => sameFields a b
  | _, _ => false

def sameItems : List Json → List Json → Bool
  | [], [] => true
  | a :: as, b :: bs => same a b && sameItems as bs
  | _, _ => false

def sameFields : List (String × Json) → List (String × Json) → Bool
  | [], [] => true
  | a :: as, b :: bs => sameField a b && sameFields as bs
  | _, _ => false

def sameField : String × Json → String × Json → Bool
  | (k, a), (l, b) => k = l && same a b

end

mutual

theorem same_iff : ∀ a b : Json, same a b = true ↔ a = b
  | .null, b => by cases b <;> simp [same]
  | .bool _, b => by cases b <;> simp [same]
  | .int _, b => by cases b <;> simp [same]
  | .float _, b => by cases b <;> simp [same]
  | .str _, b => by cases b <;> simp [same]
  | .arr as, b => by cases b <;> simp [same, sameItems_iff as]
  | .obj as, b => by cases b <;> simp [same, sameFields_iff as]

theorem sameItems_iff : ∀ as bs : List Json, sameItems as bs = true ↔ as = bs
  | [], bs => by cases bs <;> simp [sameItems]
  | a :: as, bs => by cases bs <;> simp [sameItems, same_iff a, sameItems_iff as]

theorem sameFields_iff : ∀ as bs : List (String × Json), sameFields as bs = true ↔ as = bs
  | [], bs => by cases bs <;> simp [sameFields]
  | a :: as, bs => by cases bs <;> simp [sameFields, sameField_iff a, sameFields_iff as]

theorem sameField_iff : ∀ a b : String × Json, sameField a b = true ↔ a = b
  | (k, a), (l, b) => by simp [sameField, same_iff a]

end

instance : DecidableEq Json := fun a b => decidable_of_iff _ (same_iff a b)

end Json

/-! ## Prefix-free codes -/

/-- No code word is a prefix of another symbol's code word. -/
def PrefixFree {α : Type} (code : α → List Char) : Prop :=
  ∀ a b, code a <+: code b → a = b

/-- A text that starts with a code word of a prefix-free code starts with exactly one. -/
theorem PrefixFree.split {α : Type} {code : α → List Char} (free : PrefixFree code)
    {a b : α} {x y : List Char} (equal : code a ++ x = code b ++ y) : a = b ∧ x = y := by
  have ha : code a <+: code b ++ y := ⟨x, equal⟩
  have hb : code b <+: code b ++ y := List.prefix_append _ _
  have symbol : a = b := by
    rcases List.prefix_or_prefix_of_prefix ha hb with h | h
    · exact free a b h
    · exact (free b a h).symm
  subst symbol
  exact ⟨rfl, List.append_cancel_left equal⟩

/-! ## String escapes -/

/-- The escape of a control character after its backslash. -/
def controlEscape (n : Nat) : List Char :=
  if n = 8 then ['b']
  else if n = 9 then ['t']
  else if n = 10 then ['n']
  else if n = 12 then ['f']
  else if n = 13 then ['r']
  else ['u', '0', '0', Nat.digitChar (n / 16), Nat.digitChar (n % 16)]

def escapeChar (c : Char) : List Char :=
  if c = '"' then ['\\', '"']
  else if c = '\\' then ['\\', '\\']
  else if c.toNat < 32 then '\\' :: controlEscape c.toNat
  else [c]

theorem controlEscape_prefixFree :
    ∀ m n : Fin 32, controlEscape m <+: controlEscape n → m = n := by decide

theorem controlEscape_head (n : Fin 32) :
    ∃ c rest, controlEscape n = c :: rest ∧ c ≠ '"' ∧ c ≠ '\\' := by
  have plain : ∀ n : Fin 32, (controlEscape n).head?.any (fun c => c != '"' && c != '\\') := by
    decide
  have := plain n
  cases text : controlEscape n with
  | nil => simp [text] at this
  | cons d rest =>
    simp only [text, List.head?_cons, Option.any_some, Bool.and_eq_true, bne_iff_ne] at this
    exact ⟨d, rest, rfl, this.1, this.2⟩

/-- The four shapes of an escaped character. -/
theorem escapeChar_cases (c : Char) :
    (c = '"' ∧ escapeChar c = ['\\', '"']) ∨ (c = '\\' ∧ escapeChar c = ['\\', '\\']) ∨
    (∃ n : Fin 32, c.toNat = n ∧ escapeChar c = '\\' :: controlEscape n) ∨
    (c ≠ '"' ∧ c ≠ '\\' ∧ escapeChar c = [c]) := by
  unfold escapeChar
  by_cases quote : c = '"'
  · exact Or.inl ⟨quote, by simp [quote]⟩
  by_cases slash : c = '\\'
  · exact Or.inr (Or.inl ⟨slash, by simp [slash]⟩)
  by_cases control : c.toNat < 32
  · exact Or.inr (Or.inr (Or.inl ⟨⟨c.toNat, control⟩, rfl, by simp [quote, slash, control]⟩))
  · exact Or.inr (Or.inr (Or.inr ⟨quote, slash, by simp [quote, slash, control]⟩))

/-- A backslash escape of a control character is no escape of a quote or a backslash. -/
theorem controlEscape_other (n : Fin 32) (c : Char) (special : c = '"' ∨ c = '\\') :
    ¬ controlEscape n <+: [c] ∧ ¬ [c] <+: controlEscape n := by
  obtain ⟨d, rest, text, quote, slash⟩ := controlEscape_head n
  rw [text, List.cons_prefix_cons, List.cons_prefix_cons]
  rcases special with rfl | rfl
  · exact ⟨fun h => quote h.1, fun h => quote h.1.symm⟩
  · exact ⟨fun h => slash h.1, fun h => slash h.1.symm⟩

theorem escapeChar_prefixFree : PrefixFree escapeChar := by
  intro c d pre
  rcases escapeChar_cases c with ⟨hc, ec⟩ | ⟨hc, ec⟩ | ⟨m, hc, ec⟩ | ⟨quote, slash, ec⟩
  · rcases escapeChar_cases d with ⟨hd, ed⟩ | ⟨hd, ed⟩ | ⟨n, hd, ed⟩ | ⟨quote', slash', ed⟩ <;>
      rw [ec, ed, List.cons_prefix_cons] at pre
    · rw [hc, hd]
    · simp at pre
    · exact absurd pre.2 (controlEscape_other n _ (Or.inl rfl)).2
    · exact absurd pre.1.symm slash'
  · rcases escapeChar_cases d with ⟨hd, ed⟩ | ⟨hd, ed⟩ | ⟨n, hd, ed⟩ | ⟨quote', slash', ed⟩ <;>
      rw [ec, ed, List.cons_prefix_cons] at pre
    · simp at pre
    · rw [hc, hd]
    · exact absurd pre.2 (controlEscape_other n _ (Or.inr rfl)).2
    · exact absurd pre.1.symm slash'
  · rcases escapeChar_cases d with ⟨hd, ed⟩ | ⟨hd, ed⟩ | ⟨n, hd, ed⟩ | ⟨quote', slash', ed⟩ <;>
      rw [ec, ed, List.cons_prefix_cons] at pre
    · exact absurd pre.2 (controlEscape_other m _ (Or.inl rfl)).1
    · exact absurd pre.2 (controlEscape_other m _ (Or.inr rfl)).1
    · have equal := controlEscape_prefixFree m n pre.2
      rw [equal, ← hd] at hc
      exact Char.ext (UInt32.toNat_inj.mp hc)
    · exact absurd pre.1.symm slash'
  · rcases escapeChar_cases d with ⟨hd, ed⟩ | ⟨hd, ed⟩ | ⟨n, hd, ed⟩ | ⟨quote', slash', ed⟩ <;>
      rw [ec, ed, List.cons_prefix_cons] at pre
    · exact absurd pre.1 slash
    · exact absurd pre.1 slash
    · exact absurd pre.1 slash
    · exact pre.1

theorem escapeChar_head (c : Char) : ∃ d rest, escapeChar c = d :: rest ∧ d ≠ '"' := by
  rcases escapeChar_cases c with ⟨-, ec⟩ | ⟨-, ec⟩ | ⟨n, -, ec⟩ | ⟨quote, -, ec⟩
  · exact ⟨_, _, ec, by decide⟩
  · exact ⟨_, _, ec, by decide⟩
  · exact ⟨_, _, ec, by decide⟩
  · exact ⟨c, [], ec, quote⟩

/-- The body of a string literal ends at its first unescaped quote. -/
theorem escaped_split : ∀ (cs ds : List Char) (x y : List Char),
    cs.flatMap escapeChar ++ '"' :: x = ds.flatMap escapeChar ++ '"' :: y → cs = ds ∧ x = y
  | [], [], x, y, equal => by simpa using equal
  | [], d :: ds, x, y, equal => by
      obtain ⟨e, rest, text, quote⟩ := escapeChar_head d
      simp only [List.flatMap_nil, List.nil_append, List.flatMap_cons, text, List.cons_append,
        List.cons.injEq] at equal
      exact absurd equal.1.symm quote
  | c :: cs, [], x, y, equal => by
      obtain ⟨e, rest, text, quote⟩ := escapeChar_head c
      simp only [List.flatMap_nil, List.nil_append, List.flatMap_cons, text, List.cons_append,
        List.cons.injEq] at equal
      exact absurd equal.1 quote
  | c :: cs, d :: ds, x, y, equal => by
      simp only [List.flatMap_cons, List.append_assoc] at equal
      obtain ⟨rfl, rest⟩ := escapeChar_prefixFree.split equal
      obtain ⟨rfl, tail⟩ := escaped_split cs ds x y rest
      exact ⟨rfl, tail⟩

/-- A string literal with its quotes. -/
def quoted (s : String) : List Char := '"' :: (s.toList.flatMap escapeChar ++ ['"'])

theorem quoted_split {s t : String} {x y : List Char} (equal : quoted s ++ x = quoted t ++ y) :
    s = t ∧ x = y := by
  simp only [quoted, List.cons_append, List.append_assoc, List.nil_append,
    List.cons.injEq, true_and] at equal
  obtain ⟨same, rest⟩ := escaped_split _ _ _ _ equal
  exact ⟨String.toList_inj.mp same, rest⟩

/-! ## Numbers -/

/-- The characters of a JSON number. -/
def isNumberChar (c : Char) : Bool := c.isDigit || c ∈ ['-', '+', '.', 'e', 'E']

def intText : Int → List Char
  | .ofNat n => Nat.toDigits 10 n
  | .negSucc n => '-' :: Nat.toDigits 10 (n + 1)

/-- The text of a finite double: a number, determined by the double, that does
    not read as an integer. -/
structure FloatFormat where
  print : Double → List Char
  number : ∀ d, ∀ c ∈ print d, isNumberChar c
  nonempty : ∀ d, print d ≠ []
  injective : ∀ d e, print d = print e → d = e
  not_int : ∀ d n, print d ≠ intText n

theorem toDigits_inj {m n : Nat} (equal : Nat.toDigits 10 m = Nat.toDigits 10 n) : m = n := by
  have read := congrArg (fun ds => Nat.ofDigitChars 10 ds 0) equal
  simpa [Nat.ofDigitChars_ten_toDigits] using read

theorem toDigits_isDigit {n : Nat} {c : Char} (member : c ∈ Nat.toDigits 10 n) : c.isDigit :=
  Nat.isDigit_of_mem_toDigits (by decide) (by decide) member

theorem intText_number (n : Int) : ∀ c ∈ intText n, isNumberChar c := by
  intro c member
  cases n with
  | ofNat n => simp [isNumberChar, toDigits_isDigit member]
  | negSucc n =>
    rcases List.mem_cons.mp member with rfl | digit
    · decide
    · simp [isNumberChar, toDigits_isDigit digit]

theorem intText_nonempty (n : Int) : intText n ≠ [] := by
  cases n with
  | ofNat n => exact Nat.toDigits_ne_nil
  | negSucc n => exact List.cons_ne_nil _ _

/-- A natural number's text does not start with a sign. -/
theorem toDigits_ne_minus (m n : Nat) : Nat.toDigits 10 m ≠ '-' :: Nat.toDigits 10 n := by
  intro equal
  have digit : ('-' : Char).isDigit := toDigits_isDigit (n := m) (by rw [equal]; simp)
  exact absurd digit (by decide)

theorem intText_injective {m n : Int} (equal : intText m = intText n) : m = n := by
  cases m with
  | ofNat m =>
    cases n with
    | ofNat n => exact congrArg Int.ofNat (toDigits_inj equal)
    | negSucc n => exact absurd equal (toDigits_ne_minus _ _)
  | negSucc m =>
    cases n with
    | ofNat n => exact absurd equal.symm (toDigits_ne_minus _ _)
    | negSucc n =>
      have rest := toDigits_inj (List.cons.inj equal).2
      exact congrArg Int.negSucc (Nat.succ.inj rest)

/-- A float format: the decimal digits of the bits after a point. -/
def bitsFormat : FloatFormat where
  print d := '0' :: '.' :: Nat.toDigits 10 d.bits.toNat
  number := by
    intro d c member
    simp only [List.mem_cons] at member
    rcases member with rfl | rfl | digit
    · decide
    · decide
    · simp [isNumberChar, toDigits_isDigit digit]
  nonempty := by simp
  injective := by
    intro d e equal
    simp only [List.cons.injEq, true_and] at equal
    have bits := UInt64.toNat_inj.mp (toDigits_inj equal)
    cases d
    cases e
    simp_all
  not_int := by
    intro d n equal
    cases n with
    | ofNat n =>
      have digit : ('.' : Char).isDigit :=
        toDigits_isDigit (n := n) (by rw [show Nat.toDigits 10 n = _ from equal.symm]; simp)
      exact absurd digit (by decide)
    | negSucc n => simp [intText] at equal

/-- What may follow a number: nothing, or a character that cannot continue it. -/
def Delimited (x : List Char) : Prop := ∀ c ∈ x.head?, isNumberChar c = false

theorem delimited_nil : Delimited [] := by simp [Delimited]

theorem delimited_cons {c : Char} (x : List Char) (other : isNumberChar c = false) :
    Delimited (c :: x) := by
  simpa [Delimited] using other

theorem number_split : ∀ {u v x y : List Char}, (∀ c ∈ u, isNumberChar c) →
    (∀ c ∈ v, isNumberChar c) → Delimited x → Delimited y → u ++ x = v ++ y → u = v ∧ x = y
  | [], [], x, y, _, _, _, _, equal => ⟨rfl, equal⟩
  | [], d :: v, x, y, _, hv, hx, _, equal => by
      have number := hv d (by simp)
      have other := hx d (by simp only [List.nil_append] at equal; simp [equal])
      simp [number] at other
  | c :: u, [], x, y, hu, _, _, hy, equal => by
      have number := hu c (by simp)
      have other := hy c (by simp only [List.nil_append] at equal; simp [← equal])
      simp [number] at other
  | c :: u, d :: v, x, y, hu, hv, hx, hy, equal => by
      simp only [List.cons_append, List.cons.injEq] at equal
      obtain ⟨rfl, rest⟩ := equal
      have hu' : ∀ c ∈ u, isNumberChar c := fun c member => hu c (List.mem_cons_of_mem _ member)
      have hv' : ∀ c ∈ v, isNumberChar c := fun c member => hv c (List.mem_cons_of_mem _ member)
      obtain ⟨rfl, tail⟩ := number_split hu' hv' hx hy rest
      exact ⟨rfl, tail⟩

/-! ## The text of a value -/

section Render

variable (F : FloatFormat)

mutual

def render : Json → List Char
  | .null => ['n', 'u', 'l', 'l']
  | .bool true => ['t', 'r', 'u', 'e']
  | .bool false => ['f', 'a', 'l', 's', 'e']
  | .int n => intText n
  | .float d => F.print d
  | .str s => quoted s
  | .arr items => '[' :: renderItems items
  | .obj fields => '\x7b' :: renderFields fields

/-- The items of an array with its closing bracket. -/
def renderItems : List Json → List Char
  | [] => [']']
  | a :: as => render a ++ renderMoreItems as

def renderMoreItems : List Json → List Char
  | [] => [']']
  | a :: as => ',' :: (render a ++ renderMoreItems as)

/-- The fields of an object with its closing brace. -/
def renderFields : List (String × Json) → List Char
  | [] => ['\x7d']
  | f :: fs => renderField f ++ renderMoreFields fs

def renderMoreFields : List (String × Json) → List Char
  | [] => ['\x7d']
  | f :: fs => ',' :: (renderField f ++ renderMoreFields fs)

def renderField : String × Json → List Char
  | (key, value) => quoted key ++ ':' :: render value

end

/-- The kind of value a first character announces. -/
def leadKind (c : Char) : Nat :=
  if isNumberChar c then 0
  else if c = 'n' then 1
  else if c = 't' then 2
  else if c = 'f' then 3
  else if c = '"' then 4
  else if c = '[' then 5
  else if c = '\x7b' then 6
  else 7

def Json.kind : Json → Nat
  | .int _ => 0
  | .float _ => 0
  | .null => 1
  | .bool true => 2
  | .bool false => 3
  | .str _ => 4
  | .arr _ => 5
  | .obj _ => 6

theorem number_lead {text : List Char} (nonempty : text ≠ []) (number : ∀ c ∈ text, isNumberChar c) :
    ∃ c rest, text = c :: rest ∧ leadKind c = 0 := by
  obtain ⟨c, rest, rfl⟩ := List.exists_cons_of_ne_nil nonempty
  exact ⟨c, rest, rfl, by simp [leadKind, number c (by simp)]⟩

theorem render_lead (a : Json) : ∃ c rest, render F a = c :: rest ∧ leadKind c = a.kind := by
  cases a with
  | null => exact ⟨_, _, by rw [render], by decide⟩
  | bool value => cases value <;> exact ⟨_, _, by rw [render], by decide⟩
  | int n =>
    rw [render]
    exact number_lead (intText_nonempty n) (intText_number n)
  | float d =>
    rw [render]
    exact number_lead (F.nonempty d) (F.number d)
  | str s => exact ⟨_, _, by rw [render, quoted], rfl⟩
  | arr items => exact ⟨_, _, by rw [render], rfl⟩
  | obj fields => exact ⟨_, _, by rw [render], rfl⟩

/-- Two texts that start alike start with values of the same kind. -/
theorem kind_eq {a b : Json} {x y : List Char} (equal : render F a ++ x = render F b ++ y) :
    a.kind = b.kind := by
  obtain ⟨c, rest, ha, ka⟩ := render_lead F a
  obtain ⟨d, rest', hb, kb⟩ := render_lead F b
  rw [ha, hb, List.cons_append, List.cons_append, List.cons.injEq] at equal
  rw [← ka, ← kb, equal.1]

/-- A value's text does not start with a closing bracket or a comma. -/
theorem render_ne_cons {a : Json} {c : Char} {x y : List Char} (closing : leadKind c = 7) :
    render F a ++ x ≠ c :: y := by
  intro equal
  obtain ⟨d, rest, ha, ka⟩ := render_lead F a
  rw [ha, List.cons_append, List.cons.injEq] at equal
  rw [equal.1, closing] at ka
  cases a with
  | bool value => cases value <;> simp [Json.kind] at ka
  | _ => simp [Json.kind] at ka

theorem renderMoreItems_delimited (items : List Json) (x : List Char) :
    Delimited (renderMoreItems F items ++ x) := by
  cases items with
  | nil => exact delimited_cons x (by decide)
  | cons a as => exact delimited_cons _ (by decide)

theorem renderMoreFields_delimited (fields : List (String × Json)) (x : List Char) :
    Delimited (renderMoreFields F fields ++ x) := by
  cases fields with
  | nil => exact delimited_cons x (by decide)
  | cons f fs => exact delimited_cons _ (by decide)

/-- Two number texts followed by delimiters are the same number. -/
theorem number_render_split {a b : Json} {x y : List Char} (ka : a.kind = 0) (kb : b.kind = 0)
    (hx : Delimited x) (hy : Delimited y) (equal : render F a ++ x = render F b ++ y) :
    a = b ∧ x = y := by
  have number : ∀ j : Json, j.kind = 0 → ∀ c ∈ render F j, isNumberChar c := by
    intro j kind
    cases j with
    | int n => rw [render]; exact intText_number n
    | float d => rw [render]; exact F.number d
    | bool value => cases value <;> simp [Json.kind] at kind
    | _ => simp [Json.kind] at kind
  obtain ⟨text, rest⟩ := number_split (number a ka) (number b kb) hx hy equal
  refine ⟨?_, rest⟩
  cases a with
  | int m =>
    cases b with
    | int n => rw [render, render] at text; rw [intText_injective text]
    | float e => rw [render, render] at text; exact absurd text.symm (F.not_int e m)
    | bool value => cases value <;> simp [Json.kind] at kb
    | _ => simp [Json.kind] at kb
  | float d =>
    cases b with
    | int n => rw [render, render] at text; exact absurd text (F.not_int d n)
    | float e => rw [render, render] at text; rw [F.injective d e text]
    | bool value => cases value <;> simp [Json.kind] at kb
    | _ => simp [Json.kind] at kb
  | bool value => cases value <;> simp [Json.kind] at ka
  | _ => simp [Json.kind] at ka

mutual

/-- Where a value ends: equal texts that start with a value's text start with
    the same value, as long as what follows cannot continue a number. -/
theorem render_split : ∀ (a b : Json) {x y : List Char}, Delimited x → Delimited y →
    render F a ++ x = render F b ++ y → a = b ∧ x = y
  | .int m, b, x, y, hx, hy, equal =>
      number_render_split F rfl (kind_eq F equal).symm hx hy equal
  | .float d, b, x, y, hx, hy, equal =>
      number_render_split F rfl (kind_eq F equal).symm hx hy equal
  | .null, b, x, y, _, _, equal => by
      have same := kind_eq F equal
      cases b with
      | null => simpa [render] using equal
      | bool value => cases value <;> simp [Json.kind] at same
      | _ => simp [Json.kind] at same
  | .bool true, b, x, y, _, _, equal => by
      have same := kind_eq F equal
      cases b with
      | bool value => cases value <;> simp_all [Json.kind, render]
      | _ => simp [Json.kind] at same
  | .bool false, b, x, y, _, _, equal => by
      have same := kind_eq F equal
      cases b with
      | bool value => cases value <;> simp_all [Json.kind, render]
      | _ => simp [Json.kind] at same
  | .str s, b, x, y, _, _, equal => by
      have same := kind_eq F equal
      cases b with
      | str t =>
        simp only [render] at equal
        obtain ⟨rfl, rest⟩ := quoted_split equal
        exact ⟨rfl, rest⟩
      | bool value => cases value <;> simp [Json.kind] at same
      | _ => simp [Json.kind] at same
  | .arr as, b, x, y, _, _, equal => by
      have same := kind_eq F equal
      cases b with
      | arr bs =>
        simp only [render, List.cons_append, List.cons.injEq, true_and] at equal
        obtain ⟨rfl, rest⟩ := renderItems_split as bs equal
        exact ⟨rfl, rest⟩
      | bool value => cases value <;> simp [Json.kind] at same
      | _ => simp [Json.kind] at same
  | .obj fs, b, x, y, _, _, equal => by
      have same := kind_eq F equal
      cases b with
      | obj gs =>
        simp only [render, List.cons_append, List.cons.injEq, true_and] at equal
        obtain ⟨rfl, rest⟩ := renderFields_split fs gs equal
        exact ⟨rfl, rest⟩
      | bool value => cases value <;> simp [Json.kind] at same
      | _ => simp [Json.kind] at same

theorem renderItems_split : ∀ (as bs : List Json) {x y : List Char},
    renderItems F as ++ x = renderItems F bs ++ y → as = bs ∧ x = y
  | [], [], x, y, equal => by simpa [renderItems] using equal
  | [], b :: bs, x, y, equal => by
      simp only [renderItems, List.append_assoc] at equal
      exact absurd equal.symm (render_ne_cons F (by decide))
  | a :: as, [], x, y, equal => by
      simp only [renderItems, List.append_assoc] at equal
      exact absurd equal (render_ne_cons F (by decide))
  | a :: as, b :: bs, x, y, equal => by
      simp only [renderItems, List.append_assoc] at equal
      obtain ⟨rfl, more⟩ := render_split a b (renderMoreItems_delimited F as x)
        (renderMoreItems_delimited F bs y) equal
      obtain ⟨rfl, rest⟩ := renderMoreItems_split as bs more
      exact ⟨rfl, rest⟩

theorem renderMoreItems_split : ∀ (as bs : List Json) {x y : List Char},
    renderMoreItems F as ++ x = renderMoreItems F bs ++ y → as = bs ∧ x = y
  | [], [], x, y, equal => by simpa [renderMoreItems] using equal
  | [], b :: bs, x, y, equal => by simp [renderMoreItems] at equal
  | a :: as, [], x, y, equal => by simp [renderMoreItems] at equal
  | a :: as, b :: bs, x, y, equal => by
      simp only [renderMoreItems, List.cons_append, List.append_assoc, List.cons.injEq,
        true_and] at equal
      obtain ⟨rfl, more⟩ := render_split a b (renderMoreItems_delimited F as x)
        (renderMoreItems_delimited F bs y) equal
      obtain ⟨rfl, rest⟩ := renderMoreItems_split as bs more
      exact ⟨rfl, rest⟩

theorem renderFields_split : ∀ (fs gs : List (String × Json)) {x y : List Char},
    renderFields F fs ++ x = renderFields F gs ++ y → fs = gs ∧ x = y
  | [], [], x, y, equal => by simpa [renderFields] using equal
  | [], (k, v) :: gs, x, y, equal => by
      simp [renderFields, renderField, quoted] at equal
  | (k, v) :: fs, [], x, y, equal => by
      simp [renderFields, renderField, quoted] at equal
  | f :: fs, g :: gs, x, y, equal => by
      simp only [renderFields, List.append_assoc] at equal
      obtain ⟨rfl, more⟩ := renderField_split f g (renderMoreFields_delimited F fs x)
        (renderMoreFields_delimited F gs y) equal
      obtain ⟨rfl, rest⟩ := renderMoreFields_split fs gs more
      exact ⟨rfl, rest⟩

theorem renderMoreFields_split : ∀ (fs gs : List (String × Json)) {x y : List Char},
    renderMoreFields F fs ++ x = renderMoreFields F gs ++ y → fs = gs ∧ x = y
  | [], [], x, y, equal => by simpa [renderMoreFields] using equal
  | [], g :: gs, x, y, equal => by simp [renderMoreFields] at equal
  | f :: fs, [], x, y, equal => by simp [renderMoreFields] at equal
  | f :: fs, g :: gs, x, y, equal => by
      simp only [renderMoreFields, List.cons_append, List.append_assoc, List.cons.injEq,
        true_and] at equal
      obtain ⟨rfl, more⟩ := renderField_split f g (renderMoreFields_delimited F fs x)
        (renderMoreFields_delimited F gs y) equal
      obtain ⟨rfl, rest⟩ := renderMoreFields_split fs gs more
      exact ⟨rfl, rest⟩

theorem renderField_split : ∀ (f g : String × Json) {x y : List Char}, Delimited x →
    Delimited y → renderField F f ++ x = renderField F g ++ y → f = g ∧ x = y
  | (k, v), (l, w), x, y, hx, hy, equal => by
      simp only [renderField, List.append_assoc, List.cons_append] at equal
      obtain ⟨rfl, value⟩ := quoted_split equal
      obtain ⟨rfl, rest⟩ := render_split v w hx hy (List.cons.inj value).2
      exact ⟨rfl, rest⟩

end

/-- The text of a value determines the value. -/
theorem render_injective {a b : Json} (equal : render F a = render F b) : a = b := by
  refine (render_split F a b delimited_nil delimited_nil ?_).1
  rw [List.append_nil, List.append_nil, equal]

end Render

/-! ## Ordered maps -/

/-- The order of keys: by code point, which is the order of their UTF-8 bytes. -/
def charsLess : List Char → List Char → Bool
  | [], [] => false
  | [], _ :: _ => true
  | _ :: _, [] => false
  | c :: cs, d :: ds => if c = d then charsLess cs ds else c.toNat < d.toNat

def keyLess (a b : String) : Bool := charsLess a.toList b.toList

theorem charsLess_total : ∀ a b : List Char, charsLess a b ∨ a = b ∨ charsLess b a
  | [], [] => Or.inr (Or.inl rfl)
  | [], _ :: _ => Or.inl rfl
  | _ :: _, [] => Or.inr (Or.inr rfl)
  | c :: cs, d :: ds => by
      by_cases same : c = d
      · subst same
        simpa [charsLess] using charsLess_total cs ds
      · have differ : c.toNat ≠ d.toNat := fun h => same (Char.ext (UInt32.toNat_inj.mp h))
        rcases Nat.lt_or_gt_of_ne differ with less | less
        · exact Or.inl (by simp [charsLess, same, less])
        · exact Or.inr (Or.inr (by simp [charsLess, Ne.symm same, less]))

theorem keyLess_total (a b : String) : keyLess a b ∨ a = b ∨ keyLess b a := by
  rcases charsLess_total a.toList b.toList with less | same | less
  · exact Or.inl less
  · exact Or.inr (Or.inl (String.toList_inj.mp same))
  · exact Or.inr (Or.inr less)

/-- Insertion into a key-sorted list; an equal key is replaced. -/
def insertField (field : String × Json) : List (String × Json) → List (String × Json)
  | [] => [field]
  | f :: fs =>
      if keyLess field.1 f.1 then field :: f :: fs
      else if field.1 = f.1 then field :: fs
      else f :: insertField field fs

/-- Insertion of every field of `fs`, in order. -/
def insertFields (fs : List (String × Json)) (table : List (String × Json)) :
    List (String × Json) :=
  fs.foldl (fun m f => insertField f m) table

/-- The key stands before every key of a sorted list. -/
def before (key : String) : List (String × Json) → Bool
  | [] => true
  | f :: _ => keyLess key f.1

namespace Json

mutual

/-- Every object in the value is an ordered map: its keys strictly increase. -/
def ordered : Json → Bool
  | .arr items => orderedItems items
  | .obj fields => orderedFields fields
  | _ => true

def orderedItems : List Json → Bool
  | [] => true
  | a :: as => ordered a && orderedItems as

def orderedFields : List (String × Json) → Bool
  | [] => true
  | f :: fs => orderedField f && before f.1 fs && orderedFields fs

def orderedField : String × Json → Bool
  | (_, value) => ordered value

end

mutual

/-- Rebuild every object by inserting its fields into an ordered map. -/
def canonicalize : Json → Json
  | .arr items => .arr (canonicalizeItems items)
  | .obj fields => .obj (canonicalizeFields fields)
  | other => other

def canonicalizeItems : List Json → List Json
  | [] => []
  | a :: as => canonicalize a :: canonicalizeItems as

def canonicalizeFields : List (String × Json) → List (String × Json)
  | [] => []
  | f :: fs => insertField (canonicalizeField f) (canonicalizeFields fs)

def canonicalizeField : String × Json → String × Json
  | (key, value) => (key, canonicalize value)

end

end Json

theorem insertField_before {field : String × Json} {fs : List (String × Json)}
    (first : before field.1 fs) : insertField field fs = field :: fs := by
  cases fs with
  | nil => rfl
  | cons f fs =>
    have less : keyLess field.1 f.1 := by simpa [before] using first
    simp [insertField, less]

theorem before_insertField {key : String} {field : String × Json} {fs : List (String × Json)}
    (less : keyLess key field.1) (first : before key fs) : before key (insertField field fs) := by
  cases fs with
  | nil => simpa [insertField, before] using less
  | cons f fs =>
    have other : keyLess key f.1 := by simpa [before] using first
    unfold insertField
    split
    · simpa [before] using less
    · split
      · simpa [before] using less
      · simpa [before] using other

theorem orderedFields_insertField {field : String × Json} : ∀ {fs : List (String × Json)},
    Json.orderedField field → Json.orderedFields fs → Json.orderedFields (insertField field fs)
  | [], value, _ => by simp [insertField, Json.orderedFields, value, before]
  | f :: fs, value, sorted => by
      simp only [Json.orderedFields, Bool.and_eq_true] at sorted
      obtain ⟨⟨head, first⟩, rest⟩ := sorted
      unfold insertField
      split
      · rename_i less
        have sorted : before field.1 (f :: fs) := less
        simp [Json.orderedFields, value, sorted, head, first, rest]
      · split
        · rename_i same
          simp [Json.orderedFields, value, rest, same, first]
        · rename_i notLess other
          have greater : keyLess f.1 field.1 := by
            rcases keyLess_total field.1 f.1 with less | same | greater
            · exact absurd less notLess
            · exact absurd same other
            · exact greater
          have sorted' := orderedFields_insertField value rest
          simp [Json.orderedFields, head, sorted', before_insertField greater first]

theorem orderedFields_insertFields {fs table : List (String × Json)}
    (fields : Json.orderedFields fs) (sorted : Json.orderedFields table) :
    Json.orderedFields (insertFields fs table) := by
  induction fs generalizing table with
  | nil => exact sorted
  | cons f fs ih =>
    simp only [Json.orderedFields, Bool.and_eq_true] at fields
    exact ih fields.2 (orderedFields_insertField fields.1.1 sorted)

mutual

/-- An ordered value is its own canonical form. -/
theorem canonicalize_ordered : ∀ {a : Json}, a.ordered → a.canonicalize = a
  | .null, _ => by simp [Json.canonicalize]
  | .bool _, _ => by simp [Json.canonicalize]
  | .int _, _ => by simp [Json.canonicalize]
  | .float _, _ => by simp [Json.canonicalize]
  | .str _, _ => by simp [Json.canonicalize]
  | .arr as, sorted => by
      rw [Json.ordered] at sorted
      rw [Json.canonicalize, canonicalizeItems_ordered sorted]
  | .obj fs, sorted => by
      rw [Json.ordered] at sorted
      rw [Json.canonicalize, canonicalizeFields_ordered sorted]

theorem canonicalizeItems_ordered : ∀ {as : List Json}, Json.orderedItems as →
    Json.canonicalizeItems as = as
  | [], _ => by simp [Json.canonicalizeItems]
  | a :: as, sorted => by
      simp only [Json.orderedItems, Bool.and_eq_true] at sorted
      rw [Json.canonicalizeItems, canonicalize_ordered sorted.1,
        canonicalizeItems_ordered sorted.2]

theorem canonicalizeFields_ordered : ∀ {fs : List (String × Json)}, Json.orderedFields fs →
    Json.canonicalizeFields fs = fs
  | [], _ => by simp [Json.canonicalizeFields]
  | f :: fs, sorted => by
      simp only [Json.orderedFields, Bool.and_eq_true] at sorted
      obtain ⟨⟨head, first⟩, rest⟩ := sorted
      rw [Json.canonicalizeFields, canonicalizeField_ordered head,
        canonicalizeFields_ordered rest, insertField_before first]

theorem canonicalizeField_ordered : ∀ {f : String × Json}, Json.orderedField f →
    Json.canonicalizeField f = f
  | (key, value), sorted => by
      rw [Json.orderedField] at sorted
      rw [Json.canonicalizeField, canonicalize_ordered sorted]

end

end Parler.Lib
