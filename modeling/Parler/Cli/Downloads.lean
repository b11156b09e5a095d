import Parler.Lib.Paths
import Parler.Protocol.Tasks

/-!
# Downloads of shared files

Where the bytes of a file that a peer shared are written: `materialize_file` in
`crates/parler-cli/src/conversation.rs`, and the tool `parler_fetch` with `resolve_recent_blob` in
`crates/parler-cli/src/mcp.rs`. The hub's answers are data: the pages of the history that it shows, and
the bytes that it sends for a blob. Paths are those of Unix.
-/

namespace Parler.Cli

open Parler.Lib Parler.Protocol

/-! ## Content ids -/

/-- `looks_like_blob_id` -/
def looksLikeBlobId (s : String) : Bool :=
  byteLen s = 64 && s.toList.all (fun c => ('0' ≤ c && c ≤ '9') || ('a' ≤ c && c ≤ 'f'))

/-- `is_content_id`, the same test. -/
def isContentId (value : String) : Bool := looksLikeBlobId value

/-- As many characters as fit in a number of bytes, if they fill it. -/
def takeBytes : Nat → List Char → Option (List Char)
  | _, [] => some []
  | 0, _ :: _ => some []
  | room, c :: cs =>
      if c.utf8Size ≤ room then (takeBytes (room - c.utf8Size) cs).map (c :: ·) else none

/-- `short`; it panics if the twelfth byte is inside a character. -/
def short (id : String) : Option String := (takeBytes 12 id.toList).map String.ofList

/-! ## Materializing a file -/

/-- The name that a file gets in the inbox. -/
def inboxName (file : FileRef) : String :=
  ((fileName file.name).filter (fun name => name ≠ "" ∧ name ≠ "." ∧ name ≠ "..")).getD "shared-file"

/-- The path of a file in the inbox of a home directory. -/
def inboxPath (home : String) (file : FileRef) : String :=
  joinPath (joinPath (joinPath home "inbox") file.blob) (inboxName file)

inductive Materialized where
  | refused
  /-- The file is there already. -/
  | kept (path : String)
  /-- The bytes are written to a file beside the path, which is then moved there. -/
  | wrote (path : String) (bytes : List UInt8)

/-- `materialize_file`, with the bytes found at the path and those that the hub sends. -/
def materializeFile (contentId : List UInt8 → String) (home : String) (file : FileRef)
    (existing fetched : Option (List UInt8)) : Materialized :=
  if !isContentId file.blob then .refused
  else if existing.any (fun bytes => bytes.length = file.size ∧ contentId bytes = file.blob) then
    .kept (inboxPath home file)
  else match fetched with
    | none => .refused
    | some bytes =>
        if bytes.length ≠ file.size then .refused
        else if contentId bytes ≠ file.blob then .refused
        else .wrote (inboxPath home file) bytes

/-! ## Fetching a file -/

/-- A file or bundle that a message points at: the name it is saved under, and the text that a hint is
    matched with. -/
structure SharedFile where
  seq : Int
  blob : String
  outName : String
  matchText : String
  deriving DecidableEq

/-- What a part points at; a bundle whose id cannot be shortened ends the program. -/
def sharedFile (seq : Int) (part : Part) : Option (Option SharedFile) :=
  match FileRef.fromPart part with
  | some f => some (some ⟨seq, f.blob, f.name, f.name⟩)
  | none =>
      match BundleRef.fromPart part with
      | some b => do
          let id ← short b.blob
          let out := id ++ ".bundle"
          return some ⟨seq, b.blob, out, b.summary.getD out⟩
      | none => some none

/-- Whether a hint, if there is one, occurs in the text. -/
def SharedFile.matchesHint (hint : Option String) (file : SharedFile) : Bool :=
  hint.all (fun h => decide (h.toList <:+: (toAsciiLowercase file.matchText).toList))

/-- The later of the best file so far and the next one. -/
def SharedFile.later (best : Option SharedFile) (file : SharedFile) : Option SharedFile :=
  if best.all (fun b => b.seq ≤ file.seq) then some file else best

/-- The parts of one message. -/
def scanParts (hint : Option String) (seq : Int) :
    Option SharedFile → List Part → Option (Option SharedFile)
  | best, [] => some best
  | best, part :: parts => do
      match ← sharedFile seq part with
      | none => scanParts hint seq best parts
      | some file =>
          scanParts hint seq (if file.matchesHint hint then file.later best else best) parts

/-- The messages of one page. -/
def scanPage (hint : Option String) :
    Option SharedFile → List StoredMessage → Option (Option SharedFile)
  | best, [] => some best
  | best, m :: msgs => do
      let best ← scanParts hint m.seq best m.parts
      scanPage hint best msgs

/-- The pages of the history, up to one that is not full; without it the read fails. -/
def scanPages (hint : Option String) :
    Option SharedFile → List (List StoredMessage) → Option (Option SharedFile)
  | _, [] => none
  | best, page :: pages =>
      if page.isEmpty then some best
      else do
        let best ← scanPage hint best page
        if page.length < 1000 then return best else scanPages hint best pages

/-- The hint of a name or path. -/
def nameHint (name : String) : String := toAsciiLowercase ((fileName name).getD name)

/-- `resolve_recent_blob`, with the pages that the hub shows. -/
def resolveRecentBlob (name : Option String) (pages : List (List StoredMessage)) :
    Option (String × String) := do
  let best ← scanPages (name.map nameHint) none pages
  best.map (fun file => (file.blob, file.outName))

/-- An argument of a tool that is a text. -/
def textArg (args : Map) (key : String) : Option String := (args.get key).bind asStr

/-- The id given to `parler_fetch`, if it is one. -/
def explicitId (args : Map) : Option String := (textArg args "id").filter looksLikeBlobId

/-- The id that `parler_fetch` asks for, and the name that goes with it: the id it is given, or the file
    that the room shared last. -/
def resolveFetch (active : Option String) (args : Map) (pages : List (List StoredMessage)) :
    Option (String × Option String) :=
  match explicitId args with
  | some blob => some (blob, none)
  | none => do
      let _room ← (textArg args "room").or active
      let (blob, name) ← resolveRecentBlob ((textArg args "name").or (textArg args "id")) pages
      return (blob, some name)

/-- `parler_fetch`: the path that is written and the bytes, with the active session, the pages of the
    room's history and the bytes that the hub sends for an id. -/
def parlerFetch (active : Option String) (args : Map) (pages : List (List StoredMessage))
    (fetchBlob : String → Option (List UInt8)) : Option (String × List UInt8) := do
  let (id, suggested) ← resolveFetch active args pages
  let bytes ← fetchBlob id
  let out ← match (textArg args "out").or suggested with
    | some out => some out
    | none => (short id).map (· ++ ".bundle")
  return (out, bytes)

/-! ## The files of a history -/

/-- What the parts of a message point at. -/
def partFiles (seq : Int) : List Part → Option (List SharedFile)
  | [] => some []
  | part :: parts => do
      let found ← sharedFile seq part
      let rest ← partFiles seq parts
      return found.toList ++ rest

/-- What some messages point at. -/
def messageFiles : List StoredMessage → Option (List SharedFile)
  | [] => some []
  | m :: msgs => do
      let files ← partFiles m.seq m.parts
      let rest ← messageFiles msgs
      return files ++ rest

/-- What a history points at, as far as it is read. -/
def historyFiles : List (List StoredMessage) → Option (List SharedFile)
  | [] => none
  | page :: pages =>
      if page.isEmpty then some []
      else do
        let files ← messageFiles page
        if page.length < 1000 then return files
        else do
          let rest ← historyFiles pages
          return files ++ rest

/-- The files among which `parler_fetch` looks for the one to save. -/
def searchedFiles (active : Option String) (args : Map) (pages : List (List StoredMessage)) :
    Option (List SharedFile) :=
  if (explicitId args).isSome then none
  else do
    let _room ← (textArg args "room").or active
    let files ← historyFiles pages
    return files.filter (SharedFile.matchesHint (((textArg args "name").or (textArg args "id")).map nameHint))

/-- The last of the files with the highest number. -/
def IsLatest (files : List SharedFile) (file : SharedFile) : Prop :=
  ∃ before after, files = before ++ file :: after ∧ (∀ other ∈ before, other.seq ≤ file.seq) ∧
    ∀ other ∈ after, other.seq < file.seq

/-- The best of some files, starting from one. -/
def pick (hint : Option String) (best : Option SharedFile) (files : List SharedFile) :
    Option SharedFile :=
  (files.filter (SharedFile.matchesHint hint)).foldl SharedFile.later best

theorem pick_append (hint : Option String) (best : Option SharedFile) (files more : List SharedFile) :
    pick hint best (files ++ more) = pick hint (pick hint best files) more := by
  rw [pick, List.filter_append, List.foldl_append]
  rfl

theorem scanParts_eq (hint : Option String) (seq : Int) (best : Option SharedFile)
    (parts : List Part) :
    scanParts hint seq best parts = (partFiles seq parts).map (pick hint best) := by
  induction parts generalizing best with
  | nil => rfl
  | cons part parts ih =>
    rw [scanParts, partFiles]
    cases sharedFile seq part with
    | none => rfl
    | some found =>
      simp only [Option.bind_eq_bind, Option.bind_some]
      cases found with
      | none =>
        rw [ih]
        cases partFiles seq parts <;> rfl
      | some file =>
        dsimp only
        rw [ih]
        cases partFiles seq parts with
        | none => rfl
        | some rest =>
          have first : pick hint best [file] =
              if file.matchesHint hint then file.later best else best := by
            by_cases fits : file.matchesHint hint = true <;> simp [pick, fits]
          simp only [Option.map_some, Option.toList_some, Option.bind_some]
          exact congrArg some ((first ▸ pick_append hint best [file] rest).symm)

theorem scanPage_eq (hint : Option String) (best : Option SharedFile) (msgs : List StoredMessage) :
    scanPage hint best msgs = (messageFiles msgs).map (pick hint best) := by
  induction msgs generalizing best with
  | nil => rfl
  | cons m msgs ih =>
    rw [scanPage, messageFiles, scanParts_eq]
    cases partFiles m.seq m.parts with
    | none => rfl
    | some files =>
      simp only [Option.bind_eq_bind, Option.map_some, Option.bind_some, ih]
      cases messageFiles msgs with
      | none => rfl
      | some rest => exact congrArg some (pick_append hint best files rest).symm

theorem scanPages_eq (hint : Option String) (best : Option SharedFile)
    (pages : List (List StoredMessage)) :
    scanPages hint best pages = (historyFiles pages).map (pick hint best) := by
  induction pages generalizing best with
  | nil => rfl
  | cons page pages ih =>
    rw [scanPages, historyFiles]
    split
    · rfl
    · rw [scanPage_eq]
      cases messageFiles page with
      | none => rfl
      | some files =>
        simp only [Option.bind_eq_bind, Option.map_some, Option.bind_some]
        split
        · rfl
        · rw [ih]
          cases historyFiles pages with
          | none => rfl
          | some rest => exact congrArg some (pick_append hint best files rest).symm

/-- There is one latest file. -/
theorem IsLatest.unique {files : List SharedFile} {file file' : SharedFile} (latest : IsLatest files file)
    (latest' : IsLatest files file') : file = file' := by
  obtain ⟨before, after, split, lower, higher⟩ := latest
  obtain ⟨before', after', split', lower', higher'⟩ := latest'
  rw [split] at split'
  rcases List.append_eq_append_iff.mp split' with ⟨between, front, back⟩ | ⟨between, front, back⟩
  · cases between with
    | nil => exact (List.cons.inj back).1
    | cons f between =>
      obtain ⟨rfl, rest⟩ := List.cons.inj back
      have ahead := higher file' (by rw [rest]; simp)
      have behind := lower' file (by rw [front]; simp)
      omega
  · cases between with
    | nil => exact (List.cons.inj back).1.symm
    | cons f between =>
      obtain ⟨rfl, rest⟩ := List.cons.inj back
      have ahead := higher' file (by rw [rest]; simp)
      have behind := lower file' (by rw [front]; simp)
      omega

/-- What the scan holds after some files: the latest one, if there is any. -/
def Holds (files : List SharedFile) : Option SharedFile → Prop
  | none => files = []
  | some file => IsLatest files file

theorem Holds.later {files : List SharedFile} {best : Option SharedFile} (holds : Holds files best)
    (next : SharedFile) : Holds (files ++ [next]) (next.later best) := by
  cases best with
  | none =>
    cases holds
    exact ⟨[], [], rfl, by simp, by simp⟩
  | some b =>
    obtain ⟨before, after, split, lower, higher⟩ := holds
    rw [SharedFile.later]
    by_cases ahead : b.seq ≤ next.seq
    · rw [if_pos (by simpa using ahead)]
      refine ⟨files, [], rfl, fun other member => ?_, by simp⟩
      rw [split] at member
      rcases List.mem_append.mp member with front | rest
      · exact (lower other front).trans ahead
      · rcases List.mem_cons.mp rest with same | back
        · rw [same]
          exact ahead
        · exact (Int.le_of_lt (higher other back)).trans ahead
    · rw [if_neg (by simpa using ahead)]
      refine ⟨before, after ++ [next], by rw [split]; simp, lower, fun other member => ?_⟩
      rcases List.mem_append.mp member with old | new
      · exact higher other old
      · rw [List.mem_singleton.mp new]
        omega

theorem Holds.foldl {seen : List SharedFile} {best : Option SharedFile} (holds : Holds seen best)
    (files : List SharedFile) : Holds (seen ++ files) (files.foldl SharedFile.later best) := by
  induction files generalizing seen best with
  | nil =>
    rw [List.append_nil]
    exact holds
  | cons file files ih =>
    have rest := ih (holds.later file)
    rw [List.append_assoc] at rest
    exact rest

/-- The scan finds the latest file. -/
theorem foldl_later_iff (files : List SharedFile) (file : SharedFile) :
    files.foldl SharedFile.later none = some file ↔ IsLatest files file := by
  have holds : Holds files (files.foldl SharedFile.later none) :=
    Holds.foldl (show Holds [] none from rfl) files
  constructor
  · intro found
    rw [found] at holds
    exact holds
  · intro latest
    cases found : files.foldl SharedFile.later none with
    | none =>
      rw [found] at holds
      obtain ⟨before, after, split, -⟩ := latest
      rw [show files = [] from holds] at split
      simp at split
    | some file' =>
      rw [found] at holds
      rw [latest.unique holds]

/-- Without an id, the tool takes the latest of the files it searches. -/
theorem resolveFetch_searched {active : Option String} {args : Map} {pages : List (List StoredMessage)}
    (given : explicitId args = none) :
    resolveFetch active args pages = (searchedFiles active args pages).bind (fun files =>
      (files.foldl SharedFile.later none).map (fun file => (file.blob, some file.outName))) := by
  rw [resolveFetch, searchedFiles, given, if_neg (by simp)]
  cases (textArg args "room").or active with
  | none => rfl
  | some room =>
    simp only [Option.bind_eq_bind, Option.bind_some, resolveRecentBlob, scanPages_eq]
    cases historyFiles pages with
    | none => rfl
    | some files =>
      simp only [Option.map_some, Option.bind_some, pick, Option.pure_def]
      cases (files.filter (SharedFile.matchesHint (((textArg args "name").or
        (textArg args "id")).map nameHint))).foldl SharedFile.later none <;> rfl

/-! ## Where bytes land -/

/-- A content id is a name. -/
theorem isFileName_of_looksLikeBlobId {id : String} (looks : looksLikeBlobId id = true) :
    IsFileName id := by
  simp only [looksLikeBlobId, Bool.and_eq_true, decide_eq_true_eq, List.all_eq_true,
    Bool.or_eq_true] at looks
  obtain ⟨long, hex⟩ := looks
  refine ⟨?_, ?_, ?_, ?_, ?_⟩
  · rintro rfl
    cases long
  · rintro rfl
    cases long
  · rintro rfl
    cases long
  · intro slash
    exact absurd (hex _ slash) (by decide)
  · intro zero
    exact absurd (hex _ zero) (by decide)

/-- What is taken of a text is part of it. -/
theorem takeBytes_subset {room : Nat} {cs taken : List Char} (takes : takeBytes room cs = some taken) :
    taken ⊆ cs := by
  induction cs generalizing room taken with
  | nil =>
    rw [takeBytes] at takes
    cases takes
    exact List.Subset.refl _
  | cons c cs ih =>
    cases room with
    | zero =>
      cases takes
      exact List.nil_subset _
    | succ room =>
      rw [takeBytes] at takes
      split at takes
      · obtain ⟨rest, more, rfl⟩ := Option.map_eq_some_iff.mp takes
        exact List.cons_subset_cons c (ih more)
      · cases takes
      · simp

/-- The default name of an id is a name. -/
theorem isFileName_short {id text : String} (valid : IsFileName id) (shortened : short id = some text) :
    IsFileName (text ++ ".bundle") := by
  obtain ⟨taken, takes, rfl⟩ := Option.map_eq_some_iff.mp shortened
  have part := takeBytes_subset takes
  have long : 7 ≤ (String.ofList taken ++ ".bundle").toList.length := by simp
  refine ⟨?_, ?_, ?_, ?_, ?_⟩
  · intro same
    rw [same] at long
    simp at long
  · intro same
    rw [same] at long
    simp at long
  · intro same
    rw [same] at long
    simp at long
  · intro slash
    rw [String.toList_append, List.mem_append, String.toList_ofList] at slash
    rcases slash with front | back
    · exact valid.2.2.2.1 (part front)
    · exact absurd back (by decide)
  · intro zero
    rw [String.toList_append, List.mem_append, String.toList_ofList] at zero
    rcases zero with front | back
    · exact valid.2.2.2.2 (part front)
    · exact absurd back (by decide)

theorem inboxName_parts (file : FileRef) :
    inboxName file ≠ "" ∧ inboxName file ≠ "." ∧ inboxName file ≠ ".." ∧
      '/' ∉ (inboxName file).toList := by
  rw [inboxName]
  cases last : (fileName file.name).filter (fun name => name ≠ "" ∧ name ≠ "." ∧ name ≠ "..") with
  | none => decide
  | some part => exact fileName_parts (Option.filter_eq_some_iff.mp last).1

/-- A file that is opened by its path in the inbox lies in the directory of its id. -/
theorem inboxPath_inside {home : String} {file : FileRef} (id : IsFileName file.blob) {disk : Disk}
    {cwd target : Location} (opens : disk.openTarget cwd (inboxPath home file) = some target) :
    ∃ dir, disk.locate cwd home = some dir ∧
      target.map FileName.text = dir.map FileName.text ++ ["inbox", file.blob, inboxName file] := by
  obtain ⟨not_empty, not_dot, not_dots, plain⟩ := inboxName_parts file
  have inbox : IsFileName "inbox" := by decide
  by_cases valid : IsFileName (inboxName file)
  · have joined := disk.openTarget_joinPath cwd (joinPath (joinPath home "inbox") file.blob)
      ⟨inboxName file, valid⟩
    rw [inboxPath] at opens
    rw [joined, disk.locate_joinPath cwd (joinPath home "inbox") ⟨file.blob, id⟩,
      disk.locate_joinPath cwd home ⟨"inbox", inbox⟩] at opens
    obtain ⟨blobs, at_blobs, opens⟩ := Option.bind_eq_some_iff.mp opens
    obtain ⟨inboxes, at_inbox, at_blobs⟩ := Option.bind_eq_some_iff.mp at_blobs
    obtain ⟨dir, at_home, at_inbox⟩ := Option.bind_eq_some_iff.mp at_inbox
    refine ⟨dir, at_home, ?_⟩
    split at at_inbox
    · cases at_inbox
      split at at_blobs
      · cases at_blobs
        split at opens
        · cases opens
        · cases opens
          simp
      · cases at_blobs
    · cases at_inbox
  · rw [inboxPath, disk.openTarget_joinPath_invalid cwd _ plain valid] at opens
    cases opens

/-- What is written for a shared file has its size and its id. -/
theorem materializeFile_wrote {contentId : List UInt8 → String} {home path : String} {file : FileRef}
    {existing fetched : Option (List UInt8)} {bytes : List UInt8}
    (wrote : materializeFile contentId home file existing fetched = .wrote path bytes) :
    path = inboxPath home file ∧ IsFileName file.blob ∧ bytes.length = file.size ∧
      contentId bytes = file.blob := by
  unfold materializeFile at wrote
  split at wrote
  · cases wrote
  · rename_i valid
    split at wrote
    · cases wrote
    · split at wrote
      · cases wrote
      · split at wrote
        · cases wrote
        · rename_i size
          split at wrote
          · cases wrote
          · rename_i hash
            cases wrote
            exact ⟨rfl, isFileName_of_looksLikeBlobId (by simpa [isContentId] using valid),
              not_not.mp size, not_not.mp hash⟩

/-- What `parler_fetch` writes without `out`, it writes under the default name of the id, or under the
    name of the latest file. -/
theorem parlerFetch_path {active : Option String} {args : Map} {pages : List (List StoredMessage)}
    {fetchBlob : String → Option (List UInt8)} {path : String} {bytes : List UInt8}
    (unnamed : textArg args "out" = none)
    (fetched : parlerFetch active args pages fetchBlob = some (path, bytes)) :
    IsFileName path ∨ ∃ files ∈ searchedFiles active args pages, ∃ file, IsLatest files file ∧
      path = file.outName := by
  obtain ⟨⟨id, suggested⟩, resolved, fetched⟩ := Option.bind_eq_some_iff.mp fetched
  obtain ⟨sent, _, fetched⟩ := Option.bind_eq_some_iff.mp fetched
  rw [unnamed, Option.none_or] at fetched
  cases given : explicitId args with
  | some blob =>
    rw [resolveFetch, given] at resolved
    cases resolved
    obtain ⟨out, named, same⟩ := Option.bind_eq_some_iff.mp fetched
    obtain ⟨text, shortened, rfl⟩ := Option.map_eq_some_iff.mp named
    cases same
    have looks := (Option.filter_eq_some_iff.mp given).2
    exact Or.inl (isFileName_short (isFileName_of_looksLikeBlobId looks) shortened)
  | none =>
    rw [resolveFetch_searched given] at resolved
    obtain ⟨files, searched, resolved⟩ := Option.bind_eq_some_iff.mp resolved
    obtain ⟨file, latest, same⟩ := Option.map_eq_some_iff.mp resolved
    cases same
    cases fetched
    exact Or.inr ⟨files, searched, file, (foldl_later_iff files file).mp latest, rfl⟩

/-- The latest file is fetched and written under its name. -/
theorem parlerFetch_latest {active : Option String} {args : Map} {pages : List (List StoredMessage)}
    {files : List SharedFile} {file : SharedFile} (fetchBlob : String → Option (List UInt8))
    (unnamed : textArg args "out" = none) (searched : files ∈ searchedFiles active args pages)
    (latest : IsLatest files file) :
    parlerFetch active args pages fetchBlob = (fetchBlob file.blob).map (fun bytes => (file.outName, bytes)) := by
  have given : explicitId args = none := by
    cases given : explicitId args with
    | none => rfl
    | some blob =>
      rw [searchedFiles, given, if_pos Option.isSome_some] at searched
      cases searched
  rw [parlerFetch, resolveFetch_searched given, Option.mem_def.mp searched, Option.bind_some,
    (foldl_later_iff files file).mpr latest]
  simp only [Option.map_some, Option.bind_eq_bind, Option.bind_some, unnamed, Option.none_or]
  cases fetchBlob file.blob <;> rfl

/-- Whatever a peer puts into the name of a file, `materialize_file` writes only the bytes with the
    file's size and id, and only directly in the inbox of that id. The tool `parler_fetch`, called
    without `out`, writes directly in the working directory just when the name of the latest file stays
    inside. -/
theorem downloads_inside_iff (contentId : List UInt8 → String) :
    (∀ home file existing fetched path bytes,
      materializeFile contentId home file existing fetched = .wrote path bytes →
        bytes.length = file.size ∧ contentId bytes = file.blob ∧
        ∀ (disk : Disk) cwd target, disk.openTarget cwd path = some target →
          ∃ dir, disk.locate cwd home = some dir ∧
            target.map FileName.text =
              dir.map FileName.text ++ ["inbox", file.blob, inboxName file]) ∧
    ∀ active args pages, textArg args "out" = none →
      ((∀ fetchBlob path bytes, parlerFetch active args pages fetchBlob = some (path, bytes) →
          ∀ (disk : Disk) cwd target, disk.isDir cwd = true →
            disk.openTarget cwd path = some target → ∃ name, target = cwd ++ [name]) ↔
        ∀ files ∈ searchedFiles active args pages, ∀ file, IsLatest files file →
          StaysInside file.outName) := by
  constructor
  · intro home file existing fetched path bytes wrote
    obtain ⟨rfl, id, size, hash⟩ := materializeFile_wrote wrote
    exact ⟨size, hash, fun disk cwd target opens => inboxPath_inside id opens⟩
  · intro active args pages unnamed
    constructor
    · intro inside files searched file latest
      by_contra leaves
      obtain ⟨disk, cwd, target, dir, opens, outside⟩ := exists_outside leaves
      have fetched := parlerFetch_latest (fun _ => some []) unnamed searched latest
      obtain ⟨name, is⟩ := inside _ _ _ fetched disk cwd target dir opens
      exact outside name is
    · intro stays fetchBlob path bytes fetched disk cwd target dir opens
      rcases parlerFetch_path unnamed fetched with name | ⟨files, searched, file, latest, rfl⟩
      · exact (staysInside_name ⟨path, name⟩).inside dir opens
      · exact (stays files searched file latest).inside dir opens

/-! ## A name with dots -/

/-- The working directory. -/
def demoDirectory : FileName := ⟨"work", by decide⟩

/-- A file that a peer names after a place above the directory. -/
def demoFile : FileRef := ⟨String.ofList (List.replicate 64 'a'), "../notes", 2, none, none⟩

/-- The message that carries it. -/
def demoShare : StoredMessage :=
  ⟨1, "m1", "lab", ⟨"bob", "Bob", none⟩, [demoFile.toPart], none, none, 0⟩

/-- A fetch without `out` in the room of such a file writes beside the working directory. -/
theorem fetch_leaves_directory :
    ¬ ∀ active args pages fetchBlob path bytes, textArg args "out" = none →
      parlerFetch active args pages fetchBlob = some (path, bytes) →
      ∀ (disk : Disk) cwd target, disk.isDir cwd = true →
        disk.openTarget cwd path = some target → ∃ name, target = cwd ++ [name] := by
  intro inside
  obtain ⟨name, is⟩ := inside (some "lab") Map.empty [[demoShare]] (fun _ => some [104, 105]) "../notes"
    [104, 105] rfl (by decide +kernel) (Disk.spanned [[demoDirectory]]) [demoDirectory]
    [⟨"notes", by decide⟩] (by decide +kernel) (by decide +kernel)
  have lengths := congrArg List.length is
  simp at lengths

end Parler.Cli
