import Mathlib.Data.Fintype.EquivFin
import Mathlib.Data.List.Infix

/-!
# Unix paths

How a path is resolved, on disks without symbolic links. A path is followed from the working directory
or from the root, one segment at a time, and only where the names on the way are directories. What a
path says by itself is its course: how far up it goes, and the names it goes down from there.
-/

namespace Parler.Lib

/-! ## Names and places -/

/-- Whether a text can be the name of a file. -/
def IsFileName (text : String) : Prop :=
  text ≠ "" ∧ text ≠ "." ∧ text ≠ ".." ∧ '/' ∉ text.toList ∧ '\x00' ∉ text.toList

instance (text : String) : Decidable (IsFileName text) := inferInstanceAs (Decidable (_ ∧ _))

structure FileName where
  text : String
  valid : IsFileName text
  deriving DecidableEq

/-- A place on a disk: the names from the root. -/
abbrev Location := List FileName

/-- The directories of a disk. -/
structure Disk where
  isDir : Location → Bool
  root : isDir [] = true
  parent : ∀ place name, isDir (place ++ [name]) = true → isDir place = true

/-- What one segment of a path asks for. -/
inductive Move where
  | stay
  | up
  | down (name : FileName)
  deriving DecidableEq

def Move.ofSegment (segment : String) : Option Move :=
  if segment = "" ∨ segment = "." then some .stay
  else if segment = ".." then some .up
  else if valid : IsFileName segment then some (.down ⟨segment, valid⟩)
  else none

/-- A path to a file: whether it starts at the root, the segments before the last one, and the name
    that is opened. -/
structure FilePath where
  absolute : Bool
  moves : List Move
  name : FileName

/-- The segments of a path. -/
def segments (path : String) : List String := (path.toList.splitOn '/').map String.ofList

/-- A path that can be opened to write a file. One that ends in a separator or in dots cannot. -/
def FilePath.parse (path : String) : Option FilePath := do
  let moves ← (segments path).dropLast.mapM Move.ofSegment
  let last ← (segments path).getLast?
  if valid : IsFileName last then
    some ⟨path.toList.head? = some '/', moves, ⟨last, valid⟩⟩
  else none

/-! ## Resolution -/

/-- The kernel's walk. -/
def Disk.walk (disk : Disk) : Location → List Move → Option Location
  | place, [] => some place
  | place, .stay :: moves => disk.walk place moves
  | place, .up :: moves => disk.walk place.dropLast moves
  | place, .down name :: moves =>
      if disk.isDir (place ++ [name]) then disk.walk (place ++ [name]) moves else none

/-- The file that a path names, as it is opened to be written: a directory is not. -/
def Disk.openTarget (disk : Disk) (cwd : Location) (path : String) : Option Location := do
  let file ← FilePath.parse path
  let dir ← disk.walk (if file.absolute then [] else cwd) file.moves
  if disk.isDir (dir ++ [file.name]) then none else some (dir ++ [file.name])

/-! ## Courses -/

/-- Where a path has come to: so far above the working directory, or at the root, and then down. -/
structure Course where
  up : Option Nat
  down : List FileName
  deriving DecidableEq

namespace Course

def start (absolute : Bool) : Course := ⟨if absolute then none else some 0, []⟩

def move (c : Course) : Move → Course
  | .stay => c
  | .up => if c.down = [] then ⟨c.up.map (· + 1), []⟩ else ⟨c.up, c.down.dropLast⟩
  | .down name => ⟨c.up, c.down ++ [name]⟩

/-- The courses that a path goes through. -/
def passed (c : Course) : List Move → List Course
  | [] => [c]
  | m :: moves => c :: passed (c.move m) moves

/-- The place of a course, seen from the working directory. -/
def place (cwd : Location) (c : Course) : Location :=
  match c.up with
  | none => c.down
  | some up => cwd.take (cwd.length - up) ++ c.down

/-- One course leads through the file that another names. -/
def Through (c : Course) (target : Course) : Prop := target.up = c.up ∧ target.down <+: c.down

instance (c target : Course) : Decidable (c.Through target) := inferInstanceAs (Decidable (_ ∧ _))

end Course

/-- A path that leads into the working directory itself or to no file at all: it can not be opened, or
    it goes through its own target, or it comes back to where it starts. -/
def StaysInside (path : String) : Prop :=
  ∀ file ∈ FilePath.parse path,
    (file.moves.foldl Course.move (Course.start file.absolute)) = Course.start false ∨
      ∃ c ∈ (Course.start file.absolute).passed file.moves,
        c.Through ((file.moves.foldl Course.move (Course.start file.absolute)).move (.down file.name))

/-! ## Walks and courses -/

theorem Disk.isDir_of_prefix (disk : Disk) {place below : Location} (short : place <+: below)
    (dir : disk.isDir below = true) : disk.isDir place = true := by
  induction below using List.reverseRecOn with
  | nil =>
    rw [List.prefix_nil.mp short]
    exact disk.root
  | append_singleton below name ih =>
    rcases List.prefix_concat_iff.mp short with whole | shorter
    · rw [whole]
      exact dir
    · exact ih shorter (disk.parent below name dir)

namespace Course

variable {cwd : Location} {c target : Course} {moves : List Move}

theorem place_up : (c.move .up).place cwd = (c.place cwd).dropLast := by
  obtain ⟨up, down⟩ := c
  cases up with
  | none =>
    by_cases empty : down = []
    · simp [move, place, empty]
    · simp [move, place, empty]
  | some up =>
    by_cases empty : down = []
    · have shorter : min (cwd.length - (up + 1)) cwd.length =
          min (min (cwd.length - up) cwd.length - 1) (cwd.length - up) := by omega
      simp only [move, place, empty, if_true, Option.map_some, List.append_nil,
        List.dropLast_eq_take, List.take_take, List.length_take]
      rw [← shorter, List.take_eq_take_min]
    · simp [move, place, empty, List.dropLast_append_of_ne_nil empty]

theorem place_down (name : FileName) : (c.move (.down name)).place cwd = c.place cwd ++ [name] := by
  obtain ⟨up, down⟩ := c
  cases up <;> simp [move, place]

theorem place_start (absolute : Bool) :
    (start absolute).place cwd = if absolute then [] else cwd := by
  cases absolute <;> simp [start, place]

theorem mem_passed : c ∈ c.passed moves := by
  cases moves <;> simp [passed]

theorem last_mem_passed : moves.foldl move c ∈ c.passed moves := by
  induction moves generalizing c with
  | nil => exact List.mem_singleton_self c
  | cons m moves ih => exact List.mem_cons_of_mem _ ih

/-- A course that leads through a file is at it or below it, from wherever the path is followed. -/
theorem Through.place_prefix (through : c.Through target) : target.place cwd <+: c.place cwd := by
  obtain ⟨same, short⟩ := through
  unfold place
  rw [same]
  cases c.up with
  | none => exact short
  | some up => exact (List.prefix_append_right_inj _).mpr short

/-- A walk that arrives follows the course and goes through directories only. -/
theorem walk_arrives {disk : Disk} {arrived : Location} (dir : disk.isDir (c.place cwd) = true)
    (walks : disk.walk (c.place cwd) moves = some arrived) :
    arrived = (moves.foldl move c).place cwd ∧
      ∀ on ∈ c.passed moves, disk.isDir (on.place cwd) = true := by
  induction moves generalizing c with
  | nil =>
    cases walks
    refine ⟨rfl, fun on member => ?_⟩
    rw [List.mem_singleton.mp member]
    exact dir
  | cons m moves ih =>
    -- the walk goes on from where the course goes on
    have rest : disk.isDir ((c.move m).place cwd) = true ∧
        disk.walk ((c.move m).place cwd) moves = some arrived := by
      cases m with
      | stay => exact ⟨dir, walks⟩
      | up =>
        rw [place_up]
        exact ⟨disk.isDir_of_prefix (List.dropLast_prefix _) dir, walks⟩
      | down name =>
        rw [place_down]
        rw [Disk.walk] at walks
        split at walks
        · rename_i below
          exact ⟨below, walks⟩
        · cases walks
    obtain ⟨arrives, through⟩ := ih rest.1 rest.2
    refine ⟨arrives, fun on member => ?_⟩
    rcases List.mem_cons.mp member with here | later
    · rw [here]
      exact dir
    · exact through on later

/-- Where every place on the way is a directory, the walk arrives. -/
theorem walk_of_dirs {disk : Disk}
    (dirs : ∀ on ∈ c.passed moves, disk.isDir (on.place cwd) = true) :
    disk.walk (c.place cwd) moves = some ((moves.foldl move c).place cwd) := by
  induction moves generalizing c with
  | nil => rfl
  | cons m moves ih =>
    have rest := ih (c := c.move m) (fun on member => dirs on (List.mem_cons_of_mem _ member))
    cases m with
    | stay => exact rest
    | up =>
      rw [place_up] at rest
      exact rest
    | down name =>
      have below := dirs _ (List.mem_cons_of_mem _ (mem_passed (c := c.move (.down name))))
      rw [place_down] at rest below
      rw [Disk.walk, if_pos below]
      exact rest

end Course

/-! ## Paths that stay inside -/

/-- A path that stays inside opens files directly in the working directory, on every disk. -/
theorem StaysInside.inside {path : String} (stays : StaysInside path) {disk : Disk}
    {cwd target : Location} (dir : disk.isDir cwd = true)
    (opens : disk.openTarget cwd path = some target) : ∃ name, target = cwd ++ [name] := by
  obtain ⟨file, parsed, opens⟩ := Option.bind_eq_some_iff.mp opens
  obtain ⟨arrived, walks, opens⟩ := Option.bind_eq_some_iff.mp opens
  rw [← Course.place_start] at walks
  have from_dir : disk.isDir ((Course.start file.absolute).place cwd) = true := by
    rw [Course.place_start]
    cases file.absolute
    · exact dir
    · exact disk.root
  obtain ⟨arrives, dirs⟩ := Course.walk_arrives from_dir walks
  split at opens
  · cases opens
  · rename_i free
    cases opens
    rcases stays file parsed with home | ⟨c, member, through⟩
    · refine ⟨file.name, ?_⟩
      rw [arrives, home, Course.place_start]
      rfl
    · -- the target lies above a directory of the walk, so it is one
      have above : Course.place cwd _ <+: c.place cwd := through.place_prefix
      rw [Course.place_down, ← arrives] at above
      exact absurd (disk.isDir_of_prefix above (dirs c member)) free

/-- There is a name besides the given ones. -/
theorem exists_fresh (names : List FileName) : ∃ name : FileName, name ∉ names := by
  have many : Infinite FileName := by
    have valid : ∀ n, IsFileName (String.ofList (List.replicate (n + 1) 'x')) := by
      intro n
      refine ⟨?_, ?_, ?_, ?_, ?_⟩
      · simp [← String.toList_inj]
      · cases n <;> simp [← String.toList_inj, List.replicate]
      · cases n <;> simp [← String.toList_inj, List.replicate]
      · simp
      · simp
    apply Infinite.of_injective (fun n : Nat => (⟨_, valid n⟩ : FileName))
    intro n n' same
    have texts := congrArg (fun name : FileName => name.text.toList.length) same
    simpa using texts
  obtain ⟨name, fresh⟩ := Infinite.exists_notMem_finset names.toFinset
  exact ⟨name, fun member => fresh (List.mem_toFinset.mpr member)⟩

/-- Below copies of a name that does not occur, courses of different heights do not meet. -/
theorem replicate_prefix {x : FileName} {a b : Nat} {down below : List FileName}
    (fresh : x ∉ down) (fresh' : x ∉ below) (some_name : down ≠ [])
    (short : List.replicate a x ++ down <+: List.replicate b x ++ below) :
    a = b ∧ down <+: below := by
  induction a generalizing b with
  | zero =>
    cases b with
    | zero => exact ⟨rfl, by simpa using short⟩
    | succ b =>
      cases down with
      | nil => exact absurd rfl some_name
      | cons name down =>
        have first := (List.cons_prefix_cons.mp short).1
        exact absurd (List.mem_cons.mpr (Or.inl first.symm)) fresh
  | succ a ih =>
    cases b with
    | zero =>
      have member : x ∈ List.replicate 0 x ++ below := short.subset (by simp [List.replicate_succ])
      exact absurd (by simpa using member) fresh'
    | succ b =>
      have shorter := (List.cons_prefix_cons.mp short).2
      obtain ⟨same, rest⟩ := ih shorter
      exact ⟨congrArg (· + 1) same, rest⟩

namespace Course

/-- How far below the root a course stands, from a working directory of depth `k`. -/
def height (k : Nat) (c : Course) : Nat :=
  match c.up with
  | none => 0
  | some up => k - up

theorem place_replicate (x : FileName) (k : Nat) (c : Course) :
    c.place (List.replicate k x) = List.replicate (c.height k) x ++ c.down := by
  obtain ⟨up, down⟩ := c
  cases up with
  | none => rfl
  | some up => simp [place, height, List.take_replicate]

/-- What the courses of a path are bounded by: a start of one kind, as many steps up as there are
    segments, and the names of the path. -/
structure Bounded (absolute : Bool) (k : Nat) (names : List FileName) (c : Course) : Prop where
  kind : c.up = none ↔ absolute = true
  climb : ∀ up ∈ c.up, up ≤ k
  named : ∀ name ∈ c.down, name ∈ names

theorem Bounded.move {absolute : Bool} {k : Nat} {names : List FileName} {c : Course}
    (bounded : c.Bounded absolute k names) {m : Move} (named : ∀ name, m = .down name → name ∈ names) :
    (c.move m).Bounded absolute (k + 1) names := by
  obtain ⟨kind, climb, inside⟩ := bounded
  cases m with
  | stay => exact ⟨kind, fun up is => Nat.le_succ_of_le (climb up is), inside⟩
  | up =>
    rw [Course.move]
    split
    · constructor
      · simpa using kind
      · intro up is
        obtain ⟨before, was, rfl⟩ := Option.map_eq_some_iff.mp is
        exact Nat.succ_le_succ (climb before was)
      · simp
    · exact ⟨kind, fun up is => Nat.le_succ_of_le (climb up is),
        fun name member => inside name (List.dropLast_subset _ member)⟩
  | down name =>
    refine ⟨kind, fun up is => Nat.le_succ_of_le (climb up is), fun name' member => ?_⟩
    rcases List.mem_append.mp member with old | new
    · exact inside name' old
    · rw [List.mem_singleton.mp new]
      exact named name rfl

theorem Bounded.passed {absolute : Bool} {k : Nat} {names : List FileName} {c on : Course}
    {moves : List Move} (bounded : c.Bounded absolute k names)
    (named : ∀ name, Move.down name ∈ moves → name ∈ names) (member : on ∈ c.passed moves) :
    on.Bounded absolute (k + moves.length) names := by
  induction moves generalizing c k with
  | nil =>
    rw [List.mem_singleton.mp member]
    exact bounded
  | cons m moves ih =>
    have first := bounded.move (m := m) (fun name is => named name (is ▸ List.mem_cons_self))
    rcases List.mem_cons.mp member with here | later
    · rw [here]
      exact ⟨bounded.kind, fun up is => (bounded.climb up is).trans (Nat.le_add_right _ _),
        bounded.named⟩
    · have rest := ih first (fun name is => named name (List.mem_cons_of_mem _ is)) later
      rw [List.length_cons, Nat.add_comm moves.length, ← Nat.add_assoc]
      exact rest

/-- From a directory deeper than a path climbs, its courses are told apart by their heights. -/
theorem Bounded.up_eq {absolute : Bool} {k : Nat} {names : List FileName} {c c' : Course}
    (bounded : c.Bounded absolute k names) (bounded' : c'.Bounded absolute k names)
    (level : c.height (k + 1) = c'.height (k + 1)) : c.up = c'.up := by
  cases climbed : c.up with
  | none => rw [bounded'.kind.mpr (bounded.kind.mp climbed)]
  | some up =>
    cases climbed' : c'.up with
    | none =>
      rw [bounded.kind.mpr (bounded'.kind.mp climbed')] at climbed
      cases climbed
    | some up' =>
      have small := bounded.climb up climbed
      have small' := bounded'.climb up' climbed'
      simp only [height, climbed, climbed'] at level
      congr 1
      omega

/-- In such a directory of copies of a fresh name, a course arrives where it starts only if it is the
    empty one. -/
theorem Bounded.eq_start {absolute : Bool} {k : Nat} {names : List FileName} {c : Course} {x : FileName}
    (bounded : c.Bounded absolute k names) (fresh : x ∉ names)
    (back : c.place (List.replicate (k + 1) x) = List.replicate (k + 1) x) : c = start false := by
  rw [place_replicate] at back
  have bare : c.down = [] := by
    cases down : c.down with
    | nil => rfl
    | cons name rest =>
      have member : name ∈ List.replicate (k + 1) x :=
        back ▸ List.mem_append_right _ (down ▸ List.mem_cons_self)
      have copy := List.eq_of_mem_replicate member
      exact absurd (bounded.named x (copy ▸ down ▸ List.mem_cons_self)) fresh
  have level : c.height (k + 1) = k + 1 := by
    have lengths := congrArg List.length back
    simpa [bare] using lengths
  obtain ⟨up, down⟩ := c
  cases up with
  | none =>
    simp only [height] at level
    omega
  | some up =>
    have small := bounded.climb up rfl
    simp only [height] at level
    have zero : up = 0 := by omega
    rw [zero, show down = [] from bare]
    rfl

end Course

/-- The smallest disk with the given directories. -/
def Disk.spanned (places : List Location) : Disk where
  isDir place := decide (place = [] ∨ ∃ p ∈ places, place <+: p)
  root := by simp
  parent place name dir := by
    simp only [List.append_eq_nil_iff, List.cons_ne_nil, and_false, false_or, decide_eq_true_eq]
      at dir ⊢
    obtain ⟨p, member, short⟩ := dir
    exact Or.inr ⟨p, member, (List.prefix_append place [name]).trans short⟩

theorem Disk.spanned_isDir {places : List Location} {place : Location} :
    (Disk.spanned places).isDir place = true ↔ place = [] ∨ ∃ p ∈ places, place <+: p := by
  rw [Disk.spanned, decide_eq_true_eq]

/-- The names of a path. -/
def FilePath.names (file : FilePath) : List FileName :=
  file.name :: file.moves.filterMap (fun m =>
    match m with
    | .down name => some name
    | _ => none)

/-- The courses of a path are bounded by it. -/
theorem FilePath.bounded (file : FilePath) {c : Course}
    (member : c ∈ (Course.start file.absolute).passed file.moves) :
    c.Bounded file.absolute file.moves.length file.names := by
  have start : (Course.start file.absolute).Bounded file.absolute 0 file.names := by
    constructor
    · cases file.absolute <;> simp [Course.start]
    · cases file.absolute <;> simp [Course.start]
    · simp [Course.start]
  have bounded := start.passed (fun name is =>
    List.mem_cons_of_mem _ (List.mem_filterMap.mpr ⟨.down name, is, rfl⟩)) member
  rw [Nat.zero_add] at bounded
  exact bounded

/-- A path that does not stay inside opens, on some disk and from some directory of it, a file that is
    not directly in that directory. -/
theorem exists_outside {path : String} (leaves : ¬ StaysInside path) :
    ∃ disk : Disk, ∃ cwd target, disk.isDir cwd = true ∧ disk.openTarget cwd path = some target ∧
      ∀ name, target ≠ cwd ++ [name] := by
  simp only [StaysInside, not_forall, not_or, not_exists, not_and] at leaves
  obtain ⟨file, parsed, away, clear⟩ := leaves
  obtain ⟨x, fresh⟩ := exists_fresh file.names
  -- a directory deeper than the path climbs, and only the directories that the path goes through
  let k := file.moves.length + 1
  let cwd : Location := List.replicate k x
  let first := Course.start file.absolute
  let stop := file.moves.foldl Course.move first
  let disk := Disk.spanned (cwd :: (first.passed file.moves).map (Course.place cwd))
  have bounded : ∀ c ∈ first.passed file.moves, c.Bounded file.absolute file.moves.length file.names :=
    fun c member => file.bounded member
  have stop_bounded := bounded stop Course.last_mem_passed
  have unnamed : ∀ c ∈ first.passed file.moves, x ∉ c.down :=
    fun c member has => fresh ((bounded c member).named x has)
  have target_unnamed : x ∉ stop.down ++ [file.name] := by
    intro has
    rcases List.mem_append.mp has with old | new
    · exact unnamed stop Course.last_mem_passed old
    · exact fresh (List.mem_cons.mpr (Or.inl (List.mem_singleton.mp new)))
  have target_place : stop.place cwd ++ [file.name] =
      List.replicate (stop.height k) x ++ (stop.down ++ [file.name]) := by
    rw [Course.place_replicate, List.append_assoc]
  have walks : disk.walk (if file.absolute then [] else cwd) file.moves = some (stop.place cwd) := by
    rw [← Course.place_start]
    apply Course.walk_of_dirs
    intro on member
    exact Disk.spanned_isDir.mpr (Or.inr
      ⟨_, List.mem_cons_of_mem _ (List.mem_map_of_mem member), List.prefix_refl _⟩)
  have free : ¬ disk.isDir (stop.place cwd ++ [file.name]) = true := by
    intro dir
    rcases Disk.spanned_isDir.mp dir with root | ⟨p, member, short⟩
    · simp at root
    rw [target_place] at short
    rcases List.mem_cons.mp member with whole | passed
    · -- the target is not above the directory, which has no name of the path
      have same : p = List.replicate k x ++ [] := by rw [whole, List.append_nil]
      rw [same] at short
      obtain ⟨-, none_left⟩ := replicate_prefix target_unnamed (by simp) (by simp) short
      simp at none_left
    · -- nor above a place that the path goes through
      obtain ⟨c, on_way, rfl⟩ := List.mem_map.mp passed
      rw [Course.place_replicate] at short
      obtain ⟨level, below⟩ := replicate_prefix target_unnamed (unnamed c on_way) (by simp) short
      exact clear c on_way ⟨stop_bounded.up_eq (bounded c on_way) level, below⟩
  have outside : ∀ name, stop.place cwd ++ [file.name] ≠ cwd ++ [name] := by
    intro name same
    exact away (stop_bounded.eq_start fresh (List.append_inj' same rfl).1)
  have opens : disk.openTarget cwd path = some (stop.place cwd ++ [file.name]) := by
    rw [Disk.openTarget, Option.mem_def.mp parsed, Option.bind_eq_bind, Option.bind_some, walks,
      Option.bind_eq_bind, Option.bind_some, if_neg free]
  exact ⟨disk, cwd, stop.place cwd ++ [file.name],
    Disk.spanned_isDir.mpr (Or.inr ⟨cwd, List.mem_cons_self, List.prefix_refl _⟩), opens, outside⟩

/-! ## Joined paths -/

/-- `PathBuf::push` of a relative path. -/
def joinPath (base part : String) : String :=
  if base = "" ∨ base.toList.getLast? = some '/' then base ++ part else base ++ "/" ++ part

/-- The walk along some segments. -/
def Disk.follow (disk : Disk) (place : Location) (texts : List String) : Option Location :=
  (texts.mapM Move.ofSegment).bind (disk.walk place)

/-- The place a path leads to, all its segments being directories. -/
def Disk.locate (disk : Disk) (cwd : Location) (path : String) : Option Location :=
  disk.follow (if path.toList.head? = some '/' then [] else cwd) (segments path)

theorem Disk.walk_append (disk : Disk) (place : Location) (moves more : List Move) :
    disk.walk place (moves ++ more) = (disk.walk place moves).bind (disk.walk · more) := by
  induction moves generalizing place with
  | nil => rfl
  | cons m moves ih =>
    cases m with
    | stay => exact ih place
    | up => exact ih place.dropLast
    | down name =>
      simp only [List.cons_append, Disk.walk]
      split
      · exact ih _
      · rfl

theorem Disk.follow_append (disk : Disk) (place : Location) (texts more : List String) :
    disk.follow place (texts ++ more) =
      (disk.follow place texts).bind (disk.follow · more) := by
  unfold Disk.follow
  rw [List.mapM_append]
  cases texts.mapM Move.ofSegment with
  | none => rfl
  | some moves =>
    cases more.mapM Move.ofSegment with
    | none =>
      rw [Option.bind_some]
      cases disk.walk place moves <;> rfl
    | some moves' => exact disk.walk_append place moves moves'

theorem ofSegment_name (name : FileName) : Move.ofSegment name.text = some (.down name) := by
  obtain ⟨text, valid⟩ := name
  rw [Move.ofSegment, if_neg (by simp [valid.1, valid.2.1]), if_neg valid.2.2.1, dif_pos valid]

theorem Disk.follow_name (disk : Disk) (place : Location) (name : FileName) :
    disk.follow place [name.text] =
      if disk.isDir (place ++ [name]) then some (place ++ [name]) else none := by
  have one : [name.text].mapM Move.ofSegment = some [.down name] := by
    rw [List.mapM_cons, ofSegment_name]
    rfl
  rw [Disk.follow, one, Option.bind_some, Disk.walk]
  rfl

theorem segments_plain {part : String} (plain : '/' ∉ part.toList) : segments part = [part] := by
  rw [segments, List.splitOn_eq_singleton plain, List.map_singleton, String.ofList_toList]

theorem segments_append (base part : String) :
    segments (base ++ "/" ++ part) = segments base ++ segments part := by
  unfold segments
  have split : (base ++ "/" ++ part).toList = base.toList ++ '/' :: part.toList := by simp
  rw [split, List.splitOn_append_cons_self, List.map_append]

/-- Joining a part without separators adds one segment to where the path leads. -/
theorem segments_joinPath (base : String) {part : String} (plain : '/' ∉ part.toList) :
    ∃ front, segments (joinPath base part) = front ++ [part] ∧
      ∀ (disk : Disk) place, disk.follow place front = disk.follow place (segments base) := by
  rw [joinPath]
  split
  · rename_i open_end
    rcases open_end with empty | slash
    · refine ⟨[], ?_, ?_⟩
      · rw [empty, String.empty_append, segments_plain plain]
        rfl
      · intro disk place
        rw [empty]
        rfl
    · obtain ⟨front, is⟩ := List.getLast?_eq_some_iff.mp slash
      have base_is : base = String.ofList front ++ "/" ++ "" := by
        rw [← String.toList_inj, is]
        simp
      refine ⟨segments (String.ofList front), ?_, ?_⟩
      · have joined : base ++ part = String.ofList front ++ "/" ++ part := by
          rw [base_is, String.append_empty]
        rw [joined, segments_append, segments_plain plain]
      · intro disk place
        rw [base_is, segments_append, Disk.follow_append]
        have last : segments "" = [""] := rfl
        rw [last]
        cases disk.follow place (segments (String.ofList front)) <;> rfl
  · refine ⟨segments base, ?_, fun _ _ => rfl⟩
    rw [segments_append, segments_plain plain]

theorem head_joinPath (base : String) {part : String} (plain : '/' ∉ part.toList) :
    (joinPath base part).toList.head? = some '/' ↔ base.toList.head? = some '/' := by
  have relative : part.toList.head? ≠ some '/' := by
    intro slash
    exact plain (List.mem_of_head? slash)
  by_cases empty : base = ""
  · simp [joinPath, empty, relative]
  · have some_char : base.toList ≠ [] := fun none_left => empty (String.toList_eq_nil_iff.mp none_left)
    rw [joinPath]
    split <;> simp [List.head?_append_of_ne_nil _ some_char]

theorem Disk.locate_joinPath (disk : Disk) (cwd : Location) (base : String) (name : FileName) :
    disk.locate cwd (joinPath base name.text) =
      (disk.locate cwd base).bind (fun dir =>
        if disk.isDir (dir ++ [name]) then some (dir ++ [name]) else none) := by
  obtain ⟨front, split, same⟩ := segments_joinPath base name.valid.2.2.2.1
  rw [locate, split, follow_append, same]
  simp only [head_joinPath base name.valid.2.2.2.1, follow_name]
  rfl

theorem Disk.openTarget_joinPath (disk : Disk) (cwd : Location) (base : String) (name : FileName) :
    disk.openTarget cwd (joinPath base name.text) =
      (disk.locate cwd base).bind (fun dir =>
        if disk.isDir (dir ++ [name]) then none else some (dir ++ [name])) := by
  obtain ⟨front, split, same⟩ := segments_joinPath base name.valid.2.2.2.1
  rw [locate, ← same, follow, openTarget, FilePath.parse, split, List.dropLast_concat,
    List.getLast?_concat]
  cases front.mapM Move.ofSegment with
  | none => rfl
  | some moves =>
    simp [name.valid, head_joinPath base name.valid.2.2.2.1]

/-- A joined part that cannot be a name is not opened. -/
theorem Disk.openTarget_joinPath_invalid (disk : Disk) (cwd : Location) (base : String) {part : String}
    (plain : '/' ∉ part.toList) (invalid : ¬ IsFileName part) :
    disk.openTarget cwd (joinPath base part) = none := by
  obtain ⟨front, split, -⟩ := segments_joinPath base plain
  rw [openTarget, FilePath.parse, split, List.dropLast_concat, List.getLast?_concat]
  cases front.mapM Move.ofSegment with
  | none => rfl
  | some moves => simp [invalid]

/-- A name by itself stays inside. -/
theorem staysInside_name (name : FileName) : StaysInside name.text := by
  intro file parsed
  have relative : name.text.toList.head? ≠ some '/' :=
    fun slash => name.valid.2.2.2.1 (List.mem_of_head? slash)
  have is : FilePath.parse name.text = some ⟨false, [], name⟩ := by
    rw [FilePath.parse, segments_plain name.valid.2.2.2.1]
    simp [name.valid, relative]
  rw [is] at parsed
  cases parsed
  exact Or.inl rfl

/-! ## The last component -/

/-- `Path::file_name` -/
def fileName (path : String) : Option String :=
  match ((segments path).filter (fun s => s ≠ "" ∧ s ≠ ".")).getLast? with
  | none => none
  | some last => if last = ".." then none else some last

/-- No piece of a list that was split at an element has the element. -/
theorem notMem_of_mem_splitOn {sep : Char} {chars piece : List Char}
    (member : piece ∈ chars.splitOn sep) : sep ∉ piece := by
  induction chars generalizing piece with
  | nil =>
    rw [List.splitOn_nil, List.mem_singleton] at member
    simp [member]
  | cons c chars ih =>
    rw [List.splitOn_cons_eq_if_modifyHead] at member
    split at member
    · rcases List.mem_cons.mp member with empty | later
      · simp [empty]
      · exact ih later
    · rename_i other
      cases pieces : chars.splitOn sep with
      | nil => exact absurd pieces (List.splitOn_ne_nil sep chars)
      | cons first rest =>
        rw [pieces, List.modifyHead_cons] at member
        rcases List.mem_cons.mp member with is | later
        · have clear : sep ∉ first := ih (pieces ▸ List.mem_cons_self)
          have differs : sep ≠ c := fun same => other (by simp [same])
          simp [is, clear, differs]
        · exact ih (pieces ▸ List.mem_cons_of_mem _ later)

/-- The last component is a name, unless it contains a zero. -/
theorem fileName_parts {path part : String} (last : fileName path = some part) :
    part ≠ "" ∧ part ≠ "." ∧ part ≠ ".." ∧ '/' ∉ part.toList := by
  rw [fileName] at last
  split at last
  · cases last
  · rename_i piece is_last
    split at last
    · cases last
    · rename_i named
      cases last
      obtain ⟨member, dots⟩ := List.mem_filter.mp (List.mem_of_getLast? is_last)
      have dots : part ≠ "" ∧ part ≠ "." := of_decide_eq_true dots
      refine ⟨dots.1, dots.2, named, ?_⟩
      obtain ⟨chars, split, rfl⟩ := List.mem_map.mp member
      rw [String.toList_ofList]
      exact notMem_of_mem_splitOn split

end Parler.Lib
