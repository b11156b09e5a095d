import Parler.Lib.Json

/-!
# The indented text of a JSON value

Every item and field stands on a line of its own, indented by two blanks for each container around it. Without
the blanks and line ends outside its strings the text is the compact one, so it determines the value.
-/

namespace Parler.Lib

section Pretty

variable (F : FloatFormat)

/-- A line end and the indentation of the next line. -/
def newLine (depth : Nat) : List Char := '\n' :: List.replicate (2 * depth) ' '

mutual

/-- The text of a value inside so many containers. -/
def pretty (depth : Nat) : Json → List Char
  | .arr items => '[' :: prettyItems depth items
  | .obj fields => '\x7b' :: prettyFields depth fields
  | .null => render F .null
  | .bool b => render F (.bool b)
  | .int n => render F (.int n)
  | .float d => render F (.float d)
  | .str s => render F (.str s)

/-- The items of an array with its closing bracket. -/
def prettyItems (depth : Nat) : List Json → List Char
  | [] => [']']
  | a :: as => newLine (depth + 1) ++ (pretty (depth + 1) a ++ prettyMoreItems depth as)

def prettyMoreItems (depth : Nat) : List Json → List Char
  | [] => newLine depth ++ [']']
  | a :: as => ',' :: (newLine (depth + 1) ++ (pretty (depth + 1) a ++ prettyMoreItems depth as))

/-- The fields of an object with its closing brace. -/
def prettyFields (depth : Nat) : List (String × Json) → List Char
  | [] => ['\x7d']
  | f :: fs => newLine (depth + 1) ++ (prettyField depth f ++ prettyMoreFields depth fs)

def prettyMoreFields (depth : Nat) : List (String × Json) → List Char
  | [] => newLine depth ++ ['\x7d']
  | f :: fs => ',' :: (newLine (depth + 1) ++ (prettyField depth f ++ prettyMoreFields depth fs))

def prettyField (depth : Nat) : String × Json → List Char
  | (key, value) => quoted key ++ ':' :: ' ' :: pretty (depth + 1) value

end

end Pretty

/-! ## The text without its blanks -/

/-- Where a text is read: outside strings, inside one, or after the backslash of an escape. -/
inductive Place where
  | outside
  | inside
  | escaped

/-- What is left without the blanks and line ends outside strings. -/
def squeezed : Place → List Char → List Char
  | _, [] => []
  | .outside, c :: cs =>
      if c = ' ' ∨ c = '\n' then squeezed .outside cs
      else c :: squeezed (if c = '"' then .inside else .outside) cs
  | .inside, c :: cs => c :: squeezed (if c = '\\' then .escaped else if c = '"' then .outside else .inside) cs
  | .escaped, c :: cs => c :: squeezed .inside cs

theorem squeezed_cons {c : Char} (blank : c ≠ ' ' ∧ c ≠ '\n') (quote : c ≠ '"') (x : List Char) :
    squeezed .outside (c :: x) = c :: squeezed .outside x := by
  simp [squeezed, blank, quote]

theorem squeezed_newLine (depth : Nat) (x : List Char) :
    squeezed .outside (newLine depth ++ x) = squeezed .outside x := by
  have blanks : ∀ n, squeezed .outside (List.replicate n ' ' ++ x) = squeezed .outside x := by
    intro n
    induction n with
    | zero => rfl
    | succ n ih =>
      rw [List.replicate_succ, List.cons_append, squeezed]
      simpa using ih
  rw [newLine, List.cons_append, squeezed]
  simpa using blanks (2 * depth)

/-- Within a string, no character ends it early. -/
theorem squeezed_inside {t : List Char} (plain : ∀ c ∈ t, c ≠ '\\' ∧ c ≠ '"') (x : List Char) :
    squeezed .inside (t ++ x) = t ++ squeezed .inside x := by
  induction t with
  | nil => rfl
  | cons c t ih =>
    obtain ⟨first, rest⟩ := List.forall_mem_cons.mp plain
    rw [List.cons_append, squeezed, if_neg first.1, if_neg first.2, ih rest, List.cons_append]

theorem controlEscape_tail (n : Fin 32) : ∀ c ∈ (controlEscape n).tail, c ≠ '\\' ∧ c ≠ '"' := by
  have plain : ∀ n : Fin 32, (controlEscape n).tail.all (fun c => c != '\\' && c != '"') = true := by decide
  intro c member
  simpa using List.all_eq_true.mp (plain n) c member

theorem squeezed_escapeChar (c : Char) (x : List Char) :
    squeezed .inside (escapeChar c ++ x) = escapeChar c ++ squeezed .inside x := by
  rcases escapeChar_cases c with ⟨-, text⟩ | ⟨-, text⟩ | ⟨n, -, text⟩ | ⟨quote, slash, text⟩
  · rw [text]
    simp [squeezed]
  · rw [text]
    simp [squeezed]
  · obtain ⟨d, rest, escape, -⟩ := controlEscape_head n
    have tail := controlEscape_tail n
    rw [escape, List.tail_cons] at tail
    rw [text, escape, List.cons_append, List.cons_append, squeezed, if_pos rfl, squeezed, squeezed_inside tail]
    rfl
  · rw [text]
    exact squeezed_inside (by simpa using ⟨slash, quote⟩) x

theorem squeezed_quoted (s : String) (x : List Char) :
    squeezed .outside (quoted s ++ x) = quoted s ++ squeezed .outside x := by
  have inside : ∀ cs : List Char, squeezed .inside (cs.flatMap escapeChar ++ '"' :: x) =
      cs.flatMap escapeChar ++ '"' :: squeezed .outside x := by
    intro cs
    induction cs with
    | nil => simp [squeezed]
    | cons c cs ih =>
      rw [List.flatMap_cons, List.append_assoc, squeezed_escapeChar, ih, List.append_assoc]
  have text : quoted s ++ x = '"' :: (s.toList.flatMap escapeChar ++ '"' :: x) := by simp [quoted]
  rw [text, squeezed]
  simp [inside, quoted]

/-- Text without blanks and strings. -/
theorem squeezed_plain {t : List Char} (plain : ∀ c ∈ t, c ≠ ' ' ∧ c ≠ '\n' ∧ c ≠ '"') (x : List Char) :
    squeezed .outside (t ++ x) = t ++ squeezed .outside x := by
  induction t with
  | nil => rfl
  | cons c t ih =>
    obtain ⟨⟨blank, line, quote⟩, rest⟩ := List.forall_mem_cons.mp plain
    rw [List.cons_append, squeezed_cons ⟨blank, line⟩ quote, ih rest, List.cons_append]

theorem number_plain {t : List Char} (number : ∀ c ∈ t, isNumberChar c) :
    ∀ c ∈ t, c ≠ ' ' ∧ c ≠ '\n' ∧ c ≠ '"' := by
  intro c member
  have digit := number c member
  refine ⟨?_, ?_, ?_⟩
  · rintro rfl
    exact absurd digit (by decide)
  · rintro rfl
    exact absurd digit (by decide)
  · rintro rfl
    exact absurd digit (by decide)

variable (F : FloatFormat)

mutual

/-- The indented text squeezes to the compact one. -/
theorem squeezed_pretty : ∀ (depth : Nat) (a : Json) (x : List Char),
    squeezed .outside (pretty F depth a ++ x) = render F a ++ squeezed .outside x
  | _, .null, x => squeezed_plain (t := ['n', 'u', 'l', 'l']) (by simp) x
  | _, .bool true, x => squeezed_plain (t := ['t', 'r', 'u', 'e']) (by simp) x
  | _, .bool false, x => squeezed_plain (t := ['f', 'a', 'l', 's', 'e']) (by simp) x
  | _, .int n, x => squeezed_plain (number_plain (intText_number n)) x
  | _, .float d, x => squeezed_plain (number_plain (F.number d)) x
  | _, .str s, x => squeezed_quoted s x
  | depth, .arr items, x => by
      rw [pretty, List.cons_append, squeezed_cons (by decide) (by decide), squeezed_prettyItems depth items x,
        render, List.cons_append]
  | depth, .obj fields, x => by
      rw [pretty, List.cons_append, squeezed_cons (by decide) (by decide), squeezed_prettyFields depth fields x,
        render, List.cons_append]

theorem squeezed_prettyItems : ∀ (depth : Nat) (items : List Json) (x : List Char),
    squeezed .outside (prettyItems F depth items ++ x) = renderItems F items ++ squeezed .outside x
  | _, [], x => squeezed_plain (t := [']']) (by simp) x
  | depth, a :: as, x => by
      rw [prettyItems, List.append_assoc, squeezed_newLine, List.append_assoc, squeezed_pretty (depth + 1) a,
        squeezed_prettyMoreItems depth as, renderItems, List.append_assoc]

theorem squeezed_prettyMoreItems : ∀ (depth : Nat) (items : List Json) (x : List Char),
    squeezed .outside (prettyMoreItems F depth items ++ x) = renderMoreItems F items ++ squeezed .outside x
  | depth, [], x => by
      rw [prettyMoreItems, List.append_assoc, squeezed_newLine, squeezed_plain (t := [']']) (by simp), renderMoreItems]
  | depth, a :: as, x => by
      rw [prettyMoreItems, List.cons_append, squeezed_cons (by decide) (by decide), List.append_assoc,
        squeezed_newLine, List.append_assoc, squeezed_pretty (depth + 1) a, squeezed_prettyMoreItems depth as,
        renderMoreItems, List.cons_append, List.append_assoc]

theorem squeezed_prettyFields : ∀ (depth : Nat) (fields : List (String × Json)) (x : List Char),
    squeezed .outside (prettyFields F depth fields ++ x) = renderFields F fields ++ squeezed .outside x
  | _, [], x => squeezed_plain (t := ['\x7d']) (by simp) x
  | depth, f :: fs, x => by
      rw [prettyFields, List.append_assoc, squeezed_newLine, List.append_assoc, squeezed_prettyField depth f,
        squeezed_prettyMoreFields depth fs, renderFields, List.append_assoc]

theorem squeezed_prettyMoreFields : ∀ (depth : Nat) (fields : List (String × Json)) (x : List Char),
    squeezed .outside (prettyMoreFields F depth fields ++ x) = renderMoreFields F fields ++ squeezed .outside x
  | depth, [], x => by
      rw [prettyMoreFields, List.append_assoc, squeezed_newLine, squeezed_plain (t := ['\x7d']) (by simp), renderMoreFields]
  | depth, f :: fs, x => by
      rw [prettyMoreFields, List.cons_append, squeezed_cons (by decide) (by decide), List.append_assoc,
        squeezed_newLine, List.append_assoc, squeezed_prettyField depth f, squeezed_prettyMoreFields depth fs,
        renderMoreFields, List.cons_append, List.append_assoc]

theorem squeezed_prettyField : ∀ (depth : Nat) (f : String × Json) (x : List Char),
    squeezed .outside (prettyField F depth f ++ x) = renderField F f ++ squeezed .outside x
  | depth, (key, value), x => by
      rw [prettyField, List.append_assoc, squeezed_quoted, List.cons_append, List.cons_append,
        squeezed_cons (by decide) (by decide), squeezed, if_pos (Or.inl rfl), squeezed_pretty (depth + 1) value,
        renderField, List.append_assoc, List.cons_append]

end

/-- The indented text determines the value. -/
theorem pretty_injective {depth depth' : Nat} {a b : Json} (equal : pretty F depth a = pretty F depth' b) :
    a = b := by
  have texts := squeezed_pretty F depth a []
  rw [equal, squeezed_pretty F depth' b []] at texts
  exact render_injective F (by simpa [squeezed] using texts.symm)

end Parler.Lib
