import Mathlib.Data.List.Basic

/-!
# Files that are written and read in pieces

A volume maps names to files. Opening a file for writing cuts it to nothing; who has it open reads and
writes pieces of it at positions of their own, so a reader can meet a file that is half written. A file
that lost its name lives on for those who have it open.
-/

namespace Parler.Lib

/-! ## Writing a piece -/

/-- Write a piece at a position; a gap before it is filled with zeros. -/
def overwrite (bytes : List UInt8) (offset : Nat) (piece : List UInt8) : List UInt8 :=
  if piece = [] then bytes
  else (bytes ++ List.replicate (offset - bytes.length) 0).take offset ++ piece ++
    bytes.drop (offset + piece.length)

theorem getElem?_overwrite_before {bytes piece : List UInt8} {offset i : Nat} (before : i < offset)
    (within : i < bytes.length) : (overwrite bytes offset piece)[i]? = bytes[i]? := by
  unfold overwrite
  split
  · rfl
  · rw [List.append_assoc, List.getElem?_append_left, List.getElem?_take_of_lt before,
      List.getElem?_append_left within]
    simp only [List.length_take, List.length_append, List.length_replicate]
    omega

theorem getElem?_overwrite {bytes piece : List UInt8} {offset i : Nat} (within : offset ≤ bytes.length)
    (after : offset ≤ i) :
    (overwrite bytes offset piece)[i]? =
      if i < offset + piece.length then piece[i - offset]? else bytes[i]? := by
  unfold overwrite
  split
  · rename_i empty
    rw [if_neg]
    simp only [empty, List.length_nil]
    omega
  · have gap : offset - bytes.length = 0 := by omega
    have front : (bytes.take offset).length = offset := List.length_take_of_le within
    rw [gap, List.replicate_zero, List.append_nil, List.append_assoc,
      List.getElem?_append_right (by omega), front]
    split
    · rw [List.getElem?_append_left (by omega)]
    · rw [List.getElem?_append_right (by omega), List.getElem?_drop]
      congr 1
      omega

theorem length_overwrite (bytes : List UInt8) (offset : Nat) (piece : List UInt8) :
    (overwrite bytes offset piece).length =
      if piece = [] then bytes.length else max bytes.length (offset + piece.length) := by
  unfold overwrite
  split
  · rfl
  · simp only [List.length_append, List.length_take, List.length_replicate, List.length_drop]
    omega

/-- The first `k` bytes are those of the content. -/
def AgreesUpTo (bytes content : List UInt8) (k : Nat) : Prop :=
  k ≤ bytes.length ∧ ∀ i < k, bytes[i]? = content[i]?

section Pieces

variable {bytes content piece : List UInt8} {offset k : Nat}

theorem AgreesUpTo.zero : AgreesUpTo bytes content 0 := ⟨Nat.zero_le _, fun _ none => nomatch none⟩

theorem getElem?_piece (part : piece <+: content.drop offset) {i : Nat} (after : offset ≤ i)
    (inside : i < offset + piece.length) : piece[i - offset]? = content[i]? := by
  obtain ⟨rest, whole⟩ := part
  have there : (content.drop offset)[i - offset]? = content[i]? := by
    rw [List.getElem?_drop]
    congr 1
    omega
  rw [← there, ← whole, List.getElem?_append_left (by omega)]

/-- A piece of the content may be written anywhere. -/
theorem AgreesUpTo.overwrite (agrees : AgreesUpTo bytes content k) (part : piece <+: content.drop offset) :
    AgreesUpTo (overwrite bytes offset piece) content k := by
  obtain ⟨long, same⟩ := agrees
  constructor
  · rw [length_overwrite]
    split <;> omega
  · intro i inside
    by_cases before : i < offset
    · rw [getElem?_overwrite_before before (by omega)]
      exact same i inside
    · rw [getElem?_overwrite (by omega) (by omega)]
      split
      · rename_i written
        exact getElem?_piece part (by omega) written
      · exact same i inside

/-- The next piece of the content is written. -/
theorem AgreesUpTo.append (agrees : AgreesUpTo bytes content k) (part : piece <+: content.drop k) :
    AgreesUpTo (Lib.overwrite bytes k piece) content (k + piece.length) := by
  obtain ⟨long, same⟩ := agrees
  constructor
  · rw [length_overwrite]
    split
    · rename_i empty
      rw [empty]
      exact long
    · exact Nat.le_max_right _ _
  · intro i inside
    by_cases before : i < k
    · rw [getElem?_overwrite_before before (by omega)]
      exact same i before
    · rw [getElem?_overwrite long (by omega), if_pos inside]
      exact getElem?_piece part (by omega) inside

/-- Pieces of the content make the file no longer than the content. -/
theorem length_overwrite_le (short : bytes.length ≤ content.length) (part : piece <+: content.drop offset) :
    (overwrite bytes offset piece).length ≤ content.length := by
  rw [length_overwrite]
  split
  · exact short
  · rename_i some_piece
    have pos := List.length_pos_of_ne_nil some_piece
    have fits := part.length_le
    rw [List.length_drop] at fits
    omega

theorem AgreesUpTo.whole (agrees : AgreesUpTo bytes content content.length)
    (short : bytes.length ≤ content.length) : bytes = content := by
  apply List.ext_getElem?
  intro i
  by_cases inside : i < content.length
  · exact agrees.2 i inside
  · rw [List.getElem?_eq_none (by omega), List.getElem?_eq_none (by omega)]

end Pieces

/-! ## Volumes -/

/-- A file: the name it was made under, and its bytes. -/
structure StoredFile where
  madeAs : String
  bytes : List UInt8

/-- The directory, and the files by their numbers. -/
structure Volume where
  names : List (String × Nat)
  files : List StoredFile
  named : ∀ entry ∈ names, ∃ file, files[entry.2]? = some file ∧ file.madeAs = entry.1

namespace Volume

def empty : Volume := ⟨[], [], fun _ none => nomatch none⟩

def lookup (v : Volume) (name : String) : Option Nat :=
  (v.names.find? (fun entry => entry.1 = name)).map Prod.snd

theorem lookup_named {v : Volume} {name : String} {file : Nat} (found : v.lookup name = some file) :
    ∃ stored, v.files[file]? = some stored ∧ stored.madeAs = name := by
  obtain ⟨entry, first, rfl⟩ := Option.map_eq_some_iff.mp found
  obtain ⟨stored, at_file, made⟩ := v.named entry (List.mem_of_find?_eq_some first)
  have same : entry.1 = name := by simpa using List.find?_some first
  exact ⟨stored, at_file, made.trans same⟩

/-- Change the bytes of a file. -/
def change (v : Volume) (file : Nat) (f : List UInt8 → List UInt8) : Volume where
  names := v.names
  files := v.files.modify file (fun stored => { stored with bytes := f stored.bytes })
  named := by
    intro entry member
    obtain ⟨stored, at_entry, made⟩ := v.named entry member
    rw [List.getElem?_modify, at_entry]
    exact ⟨_, rfl, by dsimp only; split <;> exact made⟩

/-- Open a file for writing: make it, or cut it to nothing. -/
def createFile (v : Volume) (name : String) : Nat × Volume :=
  match v.lookup name with
  | some file => (file, v.change file (fun _ => []))
  | none => (v.files.length,
      { names := v.names ++ [(name, v.files.length)]
        files := v.files ++ [⟨name, []⟩]
        named := by
          intro entry member
          rcases List.mem_append.mp member with old | new
          · obtain ⟨stored, at_entry, made⟩ := v.named entry old
            refine ⟨stored, ?_, made⟩
            rw [List.getElem?_append_left (List.getElem?_eq_some_iff.mp at_entry).1]
            exact at_entry
          · rw [List.mem_singleton.mp new]
            exact ⟨_, List.getElem?_concat_length, rfl⟩ })

def writeAt (v : Volume) (file offset : Nat) (piece : List UInt8) : Volume :=
  v.change file (fun bytes => overwrite bytes offset piece)

/-- The bytes of a file. -/
def contents (v : Volume) (file : Nat) : List UInt8 := (v.files[file]?.map StoredFile.bytes).getD []

/-- Read at most `n` bytes at a position. -/
def readAt (v : Volume) (file offset n : Nat) : List UInt8 := ((v.contents file).drop offset).take n

/-- Take a name away. -/
def unlink (v : Volume) (name : String) : Volume where
  names := v.names.filter (fun entry => entry.1 ≠ name)
  files := v.files
  named := fun entry member => v.named entry (List.mem_filter.mp member).1

/-! What the operations leave of a file: the name it was made under, and its bytes. -/

/-- The file was made under the name. -/
def IsFile (v : Volume) (file : Nat) (name : String) : Prop :=
  ∃ stored, v.files[file]? = some stored ∧ stored.madeAs = name

variable {v : Volume} {file other offset : Nat} {name name' : String} {piece : List UInt8}
  {f : List UInt8 → List UInt8}

theorem IsFile.unique (first : v.IsFile file name) (second : v.IsFile file name') : name = name' := by
  obtain ⟨stored, at_file, rfl⟩ := first
  obtain ⟨stored', at_file', rfl⟩ := second
  rw [at_file, Option.some.injEq] at at_file'
  rw [at_file']

theorem IsFile.lt (is : v.IsFile file name) : file < v.files.length := by
  obtain ⟨stored, at_file, -⟩ := is
  exact (List.getElem?_eq_some_iff.mp at_file).1

theorem isFile_change : (v.change other f).IsFile file name ↔ v.IsFile file name := by
  unfold IsFile change
  rw [List.getElem?_modify]
  cases v.files[file]? with
  | none => simp
  | some stored => by_cases own : other = file <;> simp [own]

theorem contents_change_self (is : v.IsFile file name) :
    (v.change file f).contents file = f (v.contents file) := by
  obtain ⟨stored, at_file, -⟩ := is
  simp [contents, change, at_file]

theorem contents_change_other (differs : file ≠ other) :
    (v.change other f).contents file = v.contents file := by
  simp [contents, change, Ne.symm differs]

/-- The file that is opened for writing has its name and is empty. -/
theorem createFile_spec (v : Volume) (name : String) :
    (v.createFile name).2.IsFile (v.createFile name).1 name ∧
      (v.createFile name).2.contents (v.createFile name).1 = [] := by
  unfold createFile
  cases found : v.lookup name with
  | some file =>
    have is := lookup_named found
    exact ⟨isFile_change.mpr is, contents_change_self is⟩
  | none => exact ⟨⟨_, List.getElem?_concat_length, rfl⟩, by simp [contents]⟩

/-- The other files stay as they are. -/
theorem getElem?_createFile_other (differs : file ≠ (v.createFile name').1) :
    ((v.createFile name').2.files)[file]? = v.files[file]? := by
  unfold createFile at differs ⊢
  cases found : v.lookup name' with
  | some file' =>
    rw [found] at differs
    simp [change, Ne.symm differs]
  | none =>
    rw [found] at differs
    change file ≠ v.files.length at differs
    show (v.files ++ [⟨name', []⟩])[file]? = v.files[file]?
    rcases Nat.lt_or_gt_of_ne differs with below | above
    · exact List.getElem?_append_left below
    · rw [List.getElem?_eq_none (by simp; omega), List.getElem?_eq_none (by omega)]

theorem isFile_createFile_other (differs : file ≠ (v.createFile name').1) :
    (v.createFile name').2.IsFile file name ↔ v.IsFile file name := by
  rw [IsFile, getElem?_createFile_other differs, IsFile]

theorem contents_createFile_other (differs : file ≠ (v.createFile name').1) :
    (v.createFile name').2.contents file = v.contents file := by
  rw [contents, getElem?_createFile_other differs, contents]

/-- A file keeps the name it was made under. -/
theorem IsFile.createFile (is : v.IsFile file name) : (v.createFile name').2.IsFile file name := by
  by_cases own : file = (v.createFile name').1
  · unfold Volume.createFile at own ⊢
    cases found : v.lookup name' with
    | some file' => exact isFile_change.mpr is
    | none =>
      rw [found] at own
      exact absurd own (Nat.ne_of_lt is.lt)
  · exact (isFile_createFile_other own).mpr is

theorem isFile_writeAt : (v.writeAt other offset piece).IsFile file name ↔ v.IsFile file name :=
  isFile_change

theorem contents_writeAt_self (is : v.IsFile file name) :
    (v.writeAt file offset piece).contents file = overwrite (v.contents file) offset piece :=
  contents_change_self is

theorem contents_writeAt_other (differs : file ≠ other) :
    (v.writeAt other offset piece).contents file = v.contents file :=
  contents_change_other differs

end Volume

end Parler.Lib
