import Parler.Hub.BlobSite

/-!
# What a download returns

Who may download a blob is checked when the download begins, and its bytes are read afterwards. An upload
of content that is stored already cuts the file to nothing before it writes it again, so a read can meet a
file that is half written. As long as none does, a download returns what an uploader presented.
-/

namespace Parler.Hub

open Parler.Lib Parler.Protocol

namespace BlobRequest

/-- The bytes that an upload presents. -/
def presents : BlobRequest → Option (List UInt8)
  | .upload _ data _ => some data
  | _ => none

/-- The content that a download asks for. -/
def wants : BlobRequest → Option String
  | .getBlob _ id _ | .sessionBlob _ id _ => some id
  | _ => none

end BlobRequest

/-- The bytes that a reply carries. -/
def BlobReply.body : BlobReply → Option (List UInt8)
  | .incoming _ _ _ bytes | .file _ bytes => some bytes
  | _ => none

/-! ## Threads and files -/

/-- What a thread asked for, and what it did with files: the file that it made and what it wrote to it, the
    file that it opened, what it read there, and whether it found the end. -/
structure Look where
  request : BlobRequest
  created : Option Nat
  written : List UInt8
  opened : Option Nat
  gathered : List UInt8
  ended : Bool

def Look.start (request : BlobRequest) : Look := ⟨request, none, [], none, [], false⟩

/-- An upload presents the bytes. -/
def Offered (looks : Nat → Option Look) (data : List UInt8) : Prop :=
  ∃ t l, looks t = some l ∧ l.request.presents = some data

/-- No two uploads present different bytes of one content id. -/
def Collisionless (contentId : List UInt8 → String) (looks : Nat → Option Look) : Prop :=
  ∀ data data', Offered looks data → Offered looks data' → contentId data = contentId data' → data = data'

/-- A file that an upload cut to nothing last holds at least what that upload wrote since. -/
def Partly (looks : Nat → Option Look) (disk : Volume) (file w : Nat) : Prop :=
  ∃ l data, looks w = some l ∧ l.request.presents = some data ∧ l.created = some file ∧
    (disk.contents file).length ≤ data.length ∧ AgreesUpTo (disk.contents file) data l.written.length

/-- What a download of the id has read is a part of what an upload presented, and all of it at the end. -/
def Taken (contentId : List UInt8 → String) (looks : Nat → Option Look) (l : Look) (id : String) : Prop :=
  (l.gathered = [] ∧ l.ended = false) ∨ ∃ data, Offered looks data ∧ contentId data = id ∧
    l.gathered <+: data ∧ (l.ended = true → l.gathered = data)

/-- The threads, the files, and who cut each file to nothing last. -/
structure FilesKept (contentId : List UInt8 → String) (looks : Nat → Option Look) (disk : Volume)
    (cut : Nat → Option Nat) : Prop where
  made : ∀ t l, looks t = some l → ∀ data, l.request.presents = some data →
    l.written <+: data ∧ ∀ file, l.created = some file → disk.IsFile file (contentId data)
  found : ∀ t l, looks t = some l → ∀ id file, l.request.wants = some id → l.opened = some file →
    disk.IsFile file id
  cutBy : ∀ file name, disk.IsFile file name → ∃ w, cut file = some w
  partly : ∀ file w, cut file = some w → Partly looks disk file w
  taken : ∀ t l, looks t = some l → ∀ id, l.request.wants = some id → Taken contentId looks l id

theorem prefix_append_drop {written piece data : List UInt8} (so_far : written <+: data)
    (next : piece <+: data.drop written.length) : written ++ piece <+: data := by
  obtain ⟨rest, rfl⟩ := so_far
  rw [List.drop_left] at next
  exact (List.prefix_append_right_inj written).mpr next

section Looks

variable {contentId : List UInt8 → String} {looks : Nat → Option Look} {disk disk' : Volume}
  {cut cut' : Nat → Option Nat} {t : Nat} {l l' : Look}

theorem update_cases {u : Nat} {k : Look} (at_u : Function.update looks t (some l') u = some k) :
    (u = t ∧ k = l') ∨ looks u = some k := by
  rw [Function.update_apply] at at_u
  split at at_u
  · rename_i own
    cases at_u
    exact Or.inl ⟨own, rfl⟩
  · exact Or.inr at_u

theorem Offered.update {data : List UInt8} (offered : Offered looks data)
    (same : ∀ k, looks t = some k → l'.request = k.request) :
    Offered (Function.update looks t (some l')) data := by
  obtain ⟨u, k, at_u, presents⟩ := offered
  by_cases own : u = t
  · subst own
    exact ⟨u, l', Function.update_self _ _ _, (same k at_u) ▸ presents⟩
  · exact ⟨u, k, by rw [Function.update_of_ne own]; exact at_u, presents⟩

theorem Collisionless.of_update (same : ∀ k, looks t = some k → l'.request = k.request)
    (distinct : Collisionless contentId (Function.update looks t (some l'))) :
    Collisionless contentId looks :=
  fun data data' offered offered' => distinct data data' (offered.update same) (offered'.update same)

theorem Taken.update {id : String} (taken : Taken contentId looks l id)
    (same : ∀ k, looks t = some k → l'.request = k.request) :
    Taken contentId (Function.update looks t (some l')) l id := by
  rcases taken with none | ⟨data, offered, own⟩
  · exact Or.inl none
  · exact Or.inr ⟨data, offered.update same, own⟩

/-- What a step of one thread has to keep. -/
theorem FilesKept.update (kept : FilesKept contentId looks disk cut)
    (same : ∀ k, looks t = some k → l'.request = k.request)
    (names : ∀ file name, disk.IsFile file name → disk'.IsFile file name)
    (made : ∀ data, l'.request.presents = some data →
      l'.written <+: data ∧ ∀ file, l'.created = some file → disk'.IsFile file (contentId data))
    (found : ∀ id file, l'.request.wants = some id → l'.opened = some file → disk'.IsFile file id)
    (cutBy : ∀ file name, disk'.IsFile file name → ∃ w, cut' file = some w)
    (partly : ∀ file w, cut' file = some w → Partly (Function.update looks t (some l')) disk' file w)
    (taken : ∀ id, l'.request.wants = some id →
      Taken contentId (Function.update looks t (some l')) l' id) :
    FilesKept contentId (Function.update looks t (some l')) disk' cut' where
  made := by
    intro u k at_u data presents
    rcases update_cases at_u with ⟨-, rfl⟩ | before
    · exact made data presents
    · obtain ⟨wrote, files⟩ := kept.made u k before data presents
      exact ⟨wrote, fun file own => names file _ (files file own)⟩
  found := by
    intro u k at_u id file wants opened
    rcases update_cases at_u with ⟨-, rfl⟩ | before
    · exact found id file wants opened
    · exact names file id (kept.found u k before id file wants opened)
  cutBy := cutBy
  partly := partly
  taken := by
    intro u k at_u id wants
    rcases update_cases at_u with ⟨-, rfl⟩ | before
    · exact taken id wants
    · exact (kept.taken u k before id wants).update same

/-- A file stays as it is when the bytes do and its upload writes nothing. -/
theorem Partly.update {file w : Nat} (partly : Partly looks disk file w)
    (same : ∀ k, looks t = some k →
      l'.request = k.request ∧ l'.created = k.created ∧ l'.written = k.written)
    (bytes : disk'.contents file = disk.contents file) :
    Partly (Function.update looks t (some l')) disk' file w := by
  obtain ⟨k, data, at_w, presents, own, short, agrees⟩ := partly
  by_cases mine : w = t
  · subst mine
    obtain ⟨request, created, written⟩ := same k at_w
    refine ⟨l', data, Function.update_self _ _ _, request ▸ presents, created ▸ own, bytes ▸ short, ?_⟩
    rw [written, bytes]
    exact agrees
  · refine ⟨k, data, ?_, presents, own, bytes ▸ short, bytes ▸ agrees⟩
    rw [Function.update_of_ne mine]
    exact at_w

/-! ## What a thread may do -/

theorem FilesKept.empty : FilesKept contentId (fun _ => none) .empty (fun _ => none) where
  made t l at_t := by cases at_t
  found t l at_t := by cases at_t
  cutBy := by
    rintro file name ⟨stored, at_file, -⟩
    cases at_file
  partly file w at_file := by cases at_file
  taken t l at_t := by cases at_t

/-- A request arrives. -/
theorem FilesKept.arrive (kept : FilesKept contentId looks disk cut) (free : looks t = none)
    (request : BlobRequest) :
    FilesKept contentId (Function.update looks t (some (Look.start request))) disk cut := by
  have fresh : ∀ k, looks t = some k → False := by
    intro k at_t
    rw [free] at at_t
    cases at_t
  refine kept.update (fun k at_t => (fresh k at_t).elim) (fun _ _ is => is) ?_ nofun kept.cutBy ?_ ?_
  · exact fun data _ => ⟨List.nil_prefix, nofun⟩
  · exact fun file w at_file => (kept.partly file w at_file).update (fun k at_t => (fresh k at_t).elim) rfl
  · exact fun id _ => Or.inl ⟨rfl, rfl⟩

/-- A name is taken away, or nothing happens to the files. -/
theorem FilesKept.unlink (kept : FilesKept contentId looks disk cut) (name : String) :
    FilesKept contentId looks (disk.unlink name) cut :=
  ⟨kept.made, kept.found, kept.cutBy, kept.partly, kept.taken⟩

theorem same_request (l' : Look) (now : looks t = some l) (same : l'.request = l.request) :
    ∀ k, looks t = some k → l'.request = k.request := by
  intro k at_t
  rw [now] at at_t
  cases at_t
  exact same

/-- An upload opens its file for writing. -/
theorem FilesKept.create (kept : FilesKept contentId looks disk cut) (now : looks t = some l)
    {data : List UInt8} (presents : l.request.presents = some data) (first : l.created = none)
    (nothing : l.written = []) :
    FilesKept contentId
      (Function.update looks t (some { l with created := some (disk.createFile (contentId data)).1 }))
      (disk.createFile (contentId data)).2
      (Function.update cut (disk.createFile (contentId data)).1 (some t)) := by
  have same := same_request { l with created := some (disk.createFile (contentId data)).1 } now rfl
  have spec := Volume.createFile_spec disk (contentId data)
  refine kept.update same (fun file name is => is.createFile) ?_ ?_ ?_ ?_ ?_
  · intro data' presents'
    cases presents.symm.trans presents'
    refine ⟨nothing ▸ List.nil_prefix, ?_⟩
    rintro file ⟨⟩
    exact spec.1
  · intro id file wants opened
    exact (kept.found t l now id file wants opened).createFile
  · intro file name is
    by_cases own : file = (disk.createFile (contentId data)).1
    · exact ⟨t, by rw [own, Function.update_self]⟩
    · rw [Function.update_of_ne own]
      exact kept.cutBy file name ((Volume.isFile_createFile_other own).mp is)
  · intro file w at_file
    by_cases own : file = (disk.createFile (contentId data)).1
    · subst own
      rw [Function.update_self] at at_file
      cases at_file
      refine ⟨_, data, Function.update_self _ _ _, presents, rfl, ?_, ?_⟩
      · rw [spec.2]
        exact Nat.zero_le _
      · rw [nothing]
        exact AgreesUpTo.zero
    · rw [Function.update_of_ne own] at at_file
      obtain ⟨k, data', at_w, presents', mine, short, agrees⟩ := kept.partly file w at_file
      have other : w ≠ t := by
        rintro rfl
        cases now.symm.trans at_w
        rw [first] at mine
        cases mine
      have bytes : (disk.createFile (contentId data)).2.contents file = disk.contents file :=
        Volume.contents_createFile_other own
      refine ⟨k, data', ?_, presents', mine, bytes ▸ short, bytes ▸ agrees⟩
      rw [Function.update_of_ne other]
      exact at_w
  · intro id wants
    exact (kept.taken t l now id wants).update same

/-- An upload writes its next piece. -/
theorem FilesKept.write (kept : FilesKept contentId looks disk cut) (distinct : Collisionless contentId looks)
    (now : looks t = some l) {data : List UInt8} (presents : l.request.presents = some data) {file : Nat}
    (own : l.created = some file) {piece : List UInt8} (part : piece <+: data.drop l.written.length) :
    FilesKept contentId (Function.update looks t (some { l with written := l.written ++ piece }))
      (disk.writeAt file l.written.length piece) cut := by
  have same := same_request { l with written := l.written ++ piece } now rfl
  obtain ⟨wrote, files⟩ := kept.made t l now data presents
  have is := files file own
  refine kept.update same (fun _ _ => Volume.isFile_writeAt.mpr) ?_ ?_ ?_ ?_ ?_
  · intro data' presents'
    cases presents.symm.trans presents'
    exact ⟨prefix_append_drop wrote part, fun file' own' => Volume.isFile_writeAt.mpr (files file' own')⟩
  · intro id file' wants opened
    exact Volume.isFile_writeAt.mpr (kept.found t l now id file' wants opened)
  · intro file' name is'
    exact kept.cutBy file' name (Volume.isFile_writeAt.mp is')
  · intro file' w at_file
    have before := kept.partly file' w at_file
    by_cases there : file' = file
    · -- whoever cut the file last presents the same bytes
      subst there
      obtain ⟨k, data', at_w, presents', mine, short, agrees⟩ := before
      have equal : data' = data := by
        apply distinct data' data ⟨w, k, at_w, presents'⟩ ⟨t, l, now, presents⟩
        exact ((kept.made w k at_w data' presents').2 file' mine).unique is
      subst equal
      have bytes : (disk.writeAt file' l.written.length piece).contents file' =
          overwrite (disk.contents file') l.written.length piece := Volume.contents_writeAt_self is
      by_cases writer : w = t
      · subst writer
        cases now.symm.trans at_w
        refine ⟨_, data', Function.update_self _ _ _, presents, own, ?_, ?_⟩
        · rw [bytes]
          exact length_overwrite_le short part
        · rw [bytes, List.length_append]
          exact agrees.append part
      · refine ⟨k, data', by rw [Function.update_of_ne writer]; exact at_w, presents', mine, ?_, ?_⟩
        · rw [bytes]
          exact length_overwrite_le short part
        · rw [bytes]
          exact agrees.overwrite part
    · obtain ⟨k, data', at_w, presents', mine, short, agrees⟩ := before
      have other : w ≠ t := by
        rintro rfl
        cases now.symm.trans at_w
        rw [own] at mine
        cases mine
        exact there rfl
      have bytes : (disk.writeAt file l.written.length piece).contents file' = disk.contents file' :=
        Volume.contents_writeAt_other there
      refine ⟨k, data', ?_, presents', mine, bytes ▸ short, bytes ▸ agrees⟩
      rw [Function.update_of_ne other]
      exact at_w
  · intro id wants
    exact (kept.taken t l now id wants).update same

/-- A download opens the file of its id. -/
theorem FilesKept.open (kept : FilesKept contentId looks disk cut) (now : looks t = some l) {id : String}
    (wants : l.request.wants = some id) :
    FilesKept contentId (Function.update looks t (some { l with opened := disk.lookup id })) disk cut := by
  have same := same_request { l with opened := disk.lookup id } now rfl
  refine kept.update same (fun _ _ is => is) (kept.made t l now) ?_ kept.cutBy ?_ ?_
  · intro id' file wants' found
    cases wants.symm.trans wants'
    exact Volume.lookup_named found
  · intro file w at_file
    apply (kept.partly file w at_file).update _ rfl
    intro k at_t
    cases now.symm.trans at_t
    exact ⟨rfl, rfl, rfl⟩
  · exact fun id' wants' => (kept.taken t l now id' wants').update same

/-- A download reads, and the upload that cut the file last has written all of it. -/
theorem FilesKept.read (kept : FilesKept contentId looks disk cut) (distinct : Collisionless contentId looks)
    (now : looks t = some l) {id : String} (wants : l.request.wants = some id) {file : Nat}
    (opened : l.opened = some file) {n : Nat} (some_bytes : 0 < n) (going : l.ended = false)
    (whole : ∀ w, cut file = some w → ∃ k, looks w = some k ∧ k.request.presents = some k.written) :
    FilesKept contentId
      (Function.update looks t (some { l with
        gathered := l.gathered ++ disk.readAt file l.gathered.length n
        ended := disk.readAt file l.gathered.length n = [] || l.ended })) disk cut := by
  have is := kept.found t l now id file wants opened
  obtain ⟨w, at_file⟩ := kept.cutBy file id is
  obtain ⟨k, data, at_w, presents, mine, short, agrees⟩ := kept.partly file w at_file
  obtain ⟨k', at_w', all⟩ := whole w at_file
  cases at_w.symm.trans at_w'
  cases presents.symm.trans all
  have bytes : disk.contents file = k.written := agrees.whole short
  have named : contentId k.written = id := ((kept.made w k at_w _ all).2 file mine).unique is
  have same := same_request { l with
    gathered := l.gathered ++ disk.readAt file l.gathered.length n
    ended := disk.readAt file l.gathered.length n = [] || l.ended } now rfl
  refine kept.update same (fun _ _ is => is) (kept.made t l now) (kept.found t l now) kept.cutBy ?_ ?_
  · intro file' w' at_file'
    apply (kept.partly file' w' at_file').update _ rfl
    intro j at_t
    cases now.symm.trans at_t
    exact ⟨rfl, rfl, rfl⟩
  · intro id' wants'
    cases wants.symm.trans wants'
    have so_far : l.gathered <+: k.written := by
      rcases kept.taken t l now id wants with ⟨nothing, -⟩ | ⟨data, offered, equal, part, -⟩
      · rw [nothing]
        exact List.nil_prefix
      · rw [← distinct data k.written offered ⟨w, k, at_w, all⟩ (equal.trans named.symm)]
        exact part
    have chunk : disk.readAt file l.gathered.length n = (k.written.drop l.gathered.length).take n := by
      rw [Volume.readAt, bytes]
    refine Or.inr ⟨k.written, Offered.update ⟨w, k, at_w, all⟩ same, named, ?_, ?_⟩
    · show l.gathered ++ _ <+: _
      rw [chunk]
      exact prefix_append_drop so_far (List.take_prefix _ _)
    · intro finished
      show l.gathered ++ _ = _
      rw [chunk] at finished ⊢
      have nothing : (k.written.drop l.gathered.length).take n = [] := by
        simpa [going] using finished
      obtain ⟨rest, split⟩ := so_far
      rw [← split, List.drop_left] at nothing ⊢
      rcases List.take_eq_nil_iff.mp nothing with none | none
      · omega
      · rw [none, List.take_nil]

end Looks

/-! ## The calls of a thread -/

section Past

variable {cfg : HubConfig}

/-- The file that a thread made. -/
def createdBy : List (BlobDone cfg) → Option Nat
  | [] => none
  | ⟨(_, .createFile _), file⟩ :: _ => some (file : Nat)
  | _ :: past => createdBy past

/-- What a thread wrote. -/
def writtenBy : List (BlobDone cfg) → List UInt8
  | [] => []
  | ⟨(_, .writeAt _ _ piece), _⟩ :: past => writtenBy past ++ piece
  | _ :: past => writtenBy past

/-- The file that a thread opened. -/
def openedBy : List (BlobDone cfg) → Option Nat
  | [] => none
  | ⟨(_, .openFile _), file⟩ :: _ => (file : Option Nat)
  | _ :: past => openedBy past

/-- What a read gave. -/
def chunkOf : BlobDone cfg → Option (List UInt8)
  | ⟨(_, .readAt ..), chunk⟩ => some chunk
  | _ => none

/-- What a thread read. -/
def gatheredBy : List (BlobDone cfg) → List UInt8
  | [] => []
  | d :: past => gatheredBy past ++ (chunkOf d).getD []

/-- A thread read nothing more. -/
def endedBy : List (BlobDone cfg) → Bool
  | [] => false
  | d :: past => chunkOf d = some [] || endedBy past

/-- What a thread did with files. -/
def lookOf (req : BlobRequest) (past : List (BlobDone cfg)) : Look :=
  ⟨req, createdBy past, writtenBy past, openedBy past, gatheredBy past, endedBy past⟩

/-- What a call adds. -/
def Look.after (l : Look) : BlobDone cfg → Look
  | ⟨(_, .createFile _), file⟩ => { l with created := some (file : Nat) }
  | ⟨(_, .writeAt _ _ piece), _⟩ => { l with written := l.written ++ piece }
  | ⟨(_, .openFile _), file⟩ => { l with opened := file }
  | ⟨(_, .readAt ..), chunk⟩ =>
      { l with gathered := l.gathered ++ chunk, ended := chunk = [] || l.ended }
  | _ => l

theorem lookOf_cons (req : BlobRequest) (d : BlobDone cfg) (past : List (BlobDone cfg)) :
    lookOf req (d :: past) = (lookOf req past).after d := by
  obtain ⟨⟨start, call⟩, r⟩ := d
  cases call with
  | readAt => simp [lookOf, Look.after, createdBy, writtenBy, openedBy, gatheredBy, endedBy, chunkOf]
  | _ => simp [lookOf, Look.after, createdBy, writtenBy, openedBy, gatheredBy, endedBy, chunkOf]

/-- An upload makes the file of what it presents once and writes it from the start on; a download opens the
    file of what it asks for and reads it from the start on to the end. -/
def blobSteps (cfg : HubConfig) (req : Nat × BlobRequest) (past : List (BlobDone cfg)) :
    Nat × BlobCall → Prop
  | (_, .createFile id) => createdBy past = none ∧ writtenBy past = [] ∧
      ∃ data, req.2.presents = some data ∧ cfg.ext.contentId data = id
  | (_, .writeAt file offset piece) => createdBy past = some file ∧ offset = (writtenBy past).length ∧
      ∃ data, req.2.presents = some data ∧ piece <+: data.drop offset
  | (_, .insertBlobRoom row) => ∃ p data writes, req.2 = .upload p data writes ∧
      cfg.ext.contentId data = row.blob ∧ p.room = row.room ∧ p.author = row.author
  | (_, .openFile id) => req.2.wants = some id
  | (_, .readAt file offset n) => (∃ id, req.2.wants = some id) ∧ openedBy past = some file ∧
      offset = (gatheredBy past).length ∧ 0 < n ∧ endedBy past = false
  | (_, .hub op) => op.besideBlobs = true ∨ ∃ idle now, op = .gcBlobs idle now
  | _ => True

section Programs

variable {start : Nat} {req : Nat × BlobRequest}

theorem writeAll_follows {file : Nat} {data : List UInt8} (presents : req.2.presents = some data)
    {next : Bool → Prog (blobMachine cfg) BlobReply}
    (after : ∀ written past, (next written).Follows (blobSteps cfg req) past)
    (writes : List (Option Nat)) {rest : List UInt8} {past : List (BlobDone cfg)}
    (made : createdBy past = some file) (split : writtenBy past ++ rest = data) :
    (writeAll cfg start file (writtenBy past).length rest writes next).Follows (blobSteps cfg req) past := by
  induction writes generalizing rest past with
  | nil =>
    unfold writeAll
    split
    · exact after _ _
    · refine ⟨⟨made, rfl, data, presents, ?_⟩, fun _ => after _ _⟩
      rw [← split, List.drop_left]
  | cons write writes ih =>
    cases write with
    | none =>
      unfold writeAll
      split <;> exact after _ _
    | some n =>
      unfold writeAll
      split
      · exact after _ _
      · refine ⟨⟨made, rfl, data, presents, ?_⟩, fun _ => ?_⟩
        · rw [← split, List.drop_left]
          exact List.take_prefix _ _
        · have made' : createdBy ((⟨(start, .writeAt file (writtenBy past).length (rest.take (n + 1))), ()⟩ :
              BlobDone cfg) :: past) = some file := made
          have split' : writtenBy ((⟨(start, .writeAt file (writtenBy past).length (rest.take (n + 1))), ()⟩ :
              BlobDone cfg) :: past) ++ rest.drop (n + 1) = data := by
            show writtenBy past ++ rest.take (n + 1) ++ rest.drop (n + 1) = data
            rw [List.append_assoc, List.take_append_drop, split]
          rw [← List.length_append]
          exact ih made' split'

theorem readToEnd_follows {file : Nat} {id : String} (wants : req.2.wants = some id)
    {next : Option (List UInt8) → Prog (blobMachine cfg) BlobReply}
    (after : ∀ bytes past, (next bytes).Follows (blobSteps cfg req) past) (reads : List Nat)
    {past : List (BlobDone cfg)} (opened : openedBy past = some file) (going : endedBy past = false) :
    (readToEnd cfg start file (gatheredBy past) reads next).Follows (blobSteps cfg req) past := by
  induction reads generalizing past with
  | nil => exact after _ _
  | cons n reads ih =>
    refine ⟨⟨⟨id, wants⟩, opened, rfl, Nat.succ_pos n, going⟩, fun chunk => ?_⟩
    dsimp only
    split
    · exact after _ _
    · rename_i some_bytes
      have opened' : openedBy ((⟨(start, .readAt file (gatheredBy past).length (n + 1)), chunk⟩ :
          BlobDone cfg) :: past) = some file := opened
      have going' : endedBy ((⟨(start, .readAt file (gatheredBy past).length (n + 1)), chunk⟩ :
          BlobDone cfg) :: past) = false := by
        show (decide (chunkOf (⟨(start, .readAt file (gatheredBy past).length (n + 1)), chunk⟩ :
          BlobDone cfg) = some []) || endedBy past) = false
        rw [going, Bool.or_false, decide_eq_false_iff_not]
        exact fun same => some_bytes (Option.some.inj same)
      exact ih opened' going'

theorem readFile_follows {id : String} (wants : req.2.wants = some id)
    {next : Option (List UInt8) → Prog (blobMachine cfg) BlobReply}
    (after : ∀ bytes past, (next bytes).Follows (blobSteps cfg req) past) (reads : List Nat)
    {past : List (BlobDone cfg)} (nothing : gatheredBy past = []) (going : endedBy past = false) :
    (readFile cfg start id reads next).Follows (blobSteps cfg req) past := by
  refine ⟨wants, fun opened => ?_⟩
  cases opened with
  | none => exact after _ _
  | some file =>
    have begun : gatheredBy ((⟨(start, .openFile id), some file⟩ : BlobDone cfg) :: past) = [] := by
      simp [gatheredBy, chunkOf, nothing]
    have opened : openedBy ((⟨(start, .openFile id), some file⟩ : BlobDone cfg) :: past) = some file := rfl
    have going' : endedBy ((⟨(start, .openFile id), some file⟩ : BlobDone cfg) :: past) = false := by
      simpa [endedBy, chunkOf] using going
    have reading : (readToEnd cfg start file _ reads next).Follows (blobSteps cfg req) _ :=
      readToEnd_follows wants after reads opened going'
    rw [begun] at reading
    exact reading

theorem serveBlob_follows (req : Nat × BlobRequest) :
    (serveBlob cfg req).Follows (blobSteps cfg req) [] := by
  obtain ⟨start, request⟩ := req
  cases request with
  | upload p data writes =>
    show (uploadBlob cfg start p data writes).Follows _ _
    unfold uploadBlob
    dsimp only
    split
    · trivial
    · split
      · trivial
      · split
        · trivial
        · refine ⟨⟨rfl, rfl, data, rfl, rfl⟩, fun file => ?_⟩
          have made : createdBy ([⟨(start, .createFile (cfg.ext.contentId data)), file⟩] :
              List (BlobDone cfg)) = some file := rfl
          have split : writtenBy ([⟨(start, .createFile (cfg.ext.contentId data)), file⟩] :
              List (BlobDone cfg)) ++ data = data := rfl
          refine writeAll_follows rfl ?_ writes made split
          intro written past
          cases written with
          | true =>
            refine ⟨Or.inl rfl, fun now => ⟨trivial, fun _ => ?_⟩⟩
            exact ⟨⟨p, data, writes, rfl, rfl, rfl, rfl⟩, fun _ => trivial⟩
          | false => trivial
  | getBlob me id reads =>
    show (getBlob cfg start me id reads).Follows _ _
    refine ⟨Or.inl rfl, fun known => ?_⟩
    cases known with
    | none => trivial
    | some row =>
      refine ⟨Or.inl rfl, fun readable => ?_⟩
      cases readable with
      | false => trivial
      | true =>
        refine ⟨Or.inl rfl, fun now => ⟨Or.inl rfl, fun _ => ?_⟩⟩
        apply readFile_follows rfl _ reads rfl rfl
        intro bytes past
        cases bytes <;> trivial
  | sessionBlob token id reads =>
    refine ⟨Or.inl rfl, fun now => ⟨trivial, fun watched => ?_⟩⟩
    cases watched with
    | none => trivial
    | some room =>
      refine ⟨trivial, fun bound => ?_⟩
      cases bound with
      | false => trivial
      | true =>
        refine ⟨Or.inl rfl, fun known => ?_⟩
        cases known with
        | none => trivial
        | some row =>
          apply readFile_follows rfl _ reads rfl rfl
          intro bytes past
          cases bytes with
          | none => trivial
          | some bytes => exact ⟨Or.inl rfl, fun _ => trivial⟩
  | collect idleMs =>
    refine ⟨Or.inl rfl, fun now => ⟨Or.inr ⟨idleMs, now, rfl⟩, fun ids => ?_⟩⟩
    generalize (_ :: _ : List (BlobDone cfg)) = past
    induction ids generalizing past with
    | nil => trivial
    | cons id ids ih => exact ⟨trivial, fun _ => ih _⟩
  | other op =>
    show Prog.Follows _ (if op.besideBlobs then _ else _) _
    split
    · rename_i beside
      exact ⟨Or.inl beside, fun _ => trivial⟩
    · trivial
  | restart inflight => exact ⟨trivial, fun _ => trivial⟩

/-! How a download ends: with what it read, and after its check. -/

/-- The check of a download was passed. -/
def Admitted : BlobRequest → List (BlobDone cfg) → Prop
  | .getBlob me id _, past => ∃ later start earlier,
      past = later ++ ⟨(start, .hub (.blobReadableBy id me.id)), true⟩ :: earlier
  | .sessionBlob token id _, past => ∃ later start room earlier start' now,
      past = later ++ ⟨(start, .blobInRoom id room), true⟩ :: earlier ∧
        ⟨(start', .validateWatchToken token now), some room⟩ ∈ earlier
  | _, _ => False

theorem Admitted.grow {request : BlobRequest} (d : BlobDone cfg) {past : List (BlobDone cfg)}
    (admitted : Admitted request past) : Admitted request (d :: past) := by
  cases request with
  | getBlob me id reads =>
    obtain ⟨later, start, earlier, rfl⟩ := admitted
    exact ⟨d :: later, start, earlier, rfl⟩
  | sessionBlob token id reads =>
    obtain ⟨later, start, room, earlier, start', now, rfl, validated⟩ := admitted
    exact ⟨d :: later, start, room, earlier, start', now, rfl, validated⟩
  | _ => exact admitted

/-- The bytes of a reply are all that was read, up to the end, and the check was passed before. -/
def DeliversBlob (req : Nat × BlobRequest) (reply : BlobReply) (past : List (BlobDone cfg)) : Prop :=
  ∀ bytes, reply.body = some bytes →
    gatheredBy past = bytes ∧ endedBy past = true ∧ Admitted req.2 past

theorem readToEnd_ends {request : BlobRequest} {file : Nat}
    {next : Option (List UInt8) → Prog (blobMachine cfg) BlobReply}
    {I : BlobReply → List (BlobDone cfg) → Prop}
    (after : ∀ bytes past, Admitted request past →
      (∀ b, bytes = some b → gatheredBy past = b ∧ endedBy past = true) → (next bytes).Ends I past)
    (reads : List Nat) {past : List (BlobDone cfg)} (admitted : Admitted request past) :
    (readToEnd cfg start file (gatheredBy past) reads next).Ends I past := by
  induction reads generalizing past with
  | nil => exact after none past admitted nofun
  | cons n reads ih =>
    intro chunk
    dsimp only
    split
    · rename_i nothing
      apply after _ _ (admitted.grow _)
      rintro b ⟨⟩
      subst nothing
      exact ⟨List.append_nil _, rfl⟩
    · exact ih (admitted.grow ⟨(start, .readAt file (gatheredBy past).length (n + 1)), chunk⟩)

theorem readFile_ends (request : BlobRequest) {id : String}
    {next : Option (List UInt8) → Prog (blobMachine cfg) BlobReply}
    {I : BlobReply → List (BlobDone cfg) → Prop}
    (after : ∀ bytes past, Admitted request past →
      (∀ b, bytes = some b → gatheredBy past = b ∧ endedBy past = true) → (next bytes).Ends I past)
    (reads : List Nat) {past : List (BlobDone cfg)} (admitted : Admitted request past)
    (nothing : gatheredBy past = []) :
    (readFile cfg start id reads next).Ends I past := by
  intro opened
  cases opened with
  | none => exact after none _ (admitted.grow _) nofun
  | some file =>
    have begun : gatheredBy ((⟨(start, .openFile id), some file⟩ : BlobDone cfg) :: past) = [] := by
      simp [gatheredBy, chunkOf, nothing]
    have reading : (readToEnd cfg start file _ reads next).Ends I _ :=
      readToEnd_ends after reads (admitted.grow (⟨(start, .openFile id), some file⟩ : BlobDone cfg))
    rw [begun] at reading
    exact reading

theorem writeAll_ends {I : BlobReply → List (BlobDone cfg) → Prop} {file : Nat}
    {next : Bool → Prog (blobMachine cfg) BlobReply} (after : ∀ written past, (next written).Ends I past)
    (writes : List (Option Nat)) (offset : Nat) (rest : List UInt8) (past : List (BlobDone cfg)) :
    (writeAll cfg start file offset rest writes next).Ends I past := by
  induction writes generalizing offset rest past with
  | nil =>
    unfold writeAll
    split
    · exact after _ _
    · exact fun _ => after _ _
  | cons write writes ih =>
    cases write with
    | none =>
      unfold writeAll
      split <;> exact after _ _
    | some n =>
      unfold writeAll
      split
      · exact after _ _
      · exact fun _ => ih _ _ _

theorem serveBlob_delivers (req : Nat × BlobRequest) :
    (serveBlob cfg req).Ends (DeliversBlob req) [] := by
  obtain ⟨start, request⟩ := req
  cases request with
  | upload p data writes =>
    show (uploadBlob cfg start p data writes).Ends _ _
    unfold uploadBlob
    dsimp only
    split
    · exact nofun
    · split
      · exact nofun
      · split
        · exact nofun
        · intro file
          apply writeAll_ends
          intro written past
          cases written with
          | true => exact fun now _ _ => nofun
          | false => exact nofun
  | getBlob me id reads =>
    intro known
    cases known with
    | none => exact nofun
    | some row =>
      intro readable
      cases readable with
      | false => exact nofun
      | true =>
        intro now _
        refine readFile_ends (.getBlob me id reads) ?_ reads ⟨[_, _], start, _, rfl⟩ rfl
        intro bytes past admitted read
        cases bytes with
        | none => exact nofun
        | some bytes =>
          rintro _ ⟨⟩
          obtain ⟨gathered, ended⟩ := read bytes rfl
          exact ⟨gathered, ended, admitted⟩
  | sessionBlob token id reads =>
    intro now watched
    cases watched with
    | none => exact nofun
    | some room =>
      intro bound
      cases bound with
      | false => exact nofun
      | true =>
        intro known
        cases known with
        | none => exact nofun
        | some row =>
          refine readFile_ends (.sessionBlob token id reads) ?_ reads
            ⟨[_], start, room, _, start, now, rfl, List.mem_cons_self⟩ rfl
          intro bytes past admitted read
          cases bytes with
          | none => exact nofun
          | some bytes =>
            rintro _ _ ⟨⟩
            obtain ⟨gathered, ended⟩ := read bytes rfl
            refine ⟨?_, ended, admitted.grow _⟩
            rw [gatheredBy, gathered]
            exact List.append_nil _
  | collect idleMs =>
    intro now ids
    generalize (_ :: _ : List (BlobDone cfg)) = past
    induction ids generalizing past with
    | nil => exact nofun
    | cons id ids ih => exact fun _ => ih _
  | other op =>
    show Prog.Ends _ (if op.besideBlobs then _ else _) _
    split
    · exact fun _ => nofun
    · exact nofun
  | restart inflight => exact fun _ => nofun

end Programs

/-! ## Runs -/

/-- What the threads did. -/
def looks (P : BlobPool cfg) (t : Nat) : Option Look :=
  (P.threads t).map (fun thread => lookOf thread.1.2 (Pool.ownPast P.log t))

/-- The call cuts the file to nothing. -/
def cutsFile (file : Nat) : Event (blobMachine cfg) → Bool
  | ⟨_, (_, .createFile id), s⟩ => (s.disk.createFile id).1 = file
  | _ => false

/-- The thread that cut the file to nothing last. -/
def truncator (log : List (Event (blobMachine cfg))) (file : Nat) : Option Nat :=
  (log.find? (cutsFile file)).map Event.thread

/-- The upload of a thread has written all of its bytes. -/
def Finished (P : BlobPool cfg) (w : Nat) : Prop :=
  ∃ start p data writes prog, P.threads w = some ((start, .upload p data writes), prog) ∧
    writtenBy (Pool.ownPast P.log w) = data

/-- A file is read only when the upload that cut it to nothing last has written all of its bytes. -/
def readsFinished (P : BlobPool cfg) (_ : Nat) : Nat × BlobCall → Prop
  | (_, .readAt file _ _) => ∀ w, truncator P.log file = some w → Finished P w
  | _ => True

variable {inflight : Nat} {P : BlobPool cfg} {G : BlobPool cfg → Nat → Nat × BlobCall → Prop}

theorem looks_spawn {t : Nat} (silent : Pool.ownPast P.log t = []) (req : Nat × BlobRequest)
    (prog : Prog (blobMachine cfg) BlobReply) :
    looks (P.spawn t req prog) = Function.update (looks P) t (some (Look.start req.2)) := by
  funext u
  rw [looks, Pool.spawn_threads, Function.update_apply]
  split
  · rename_i own
    rw [Pool.spawn_log, own, silent]
    rfl
  · rfl

theorem looks_exec {t : Nat} {req : Nat × BlobRequest} {op : Nat × BlobCall}
    {next : op.2.Res → Prog (blobMachine cfg) BlobReply} :
    looks (P.exec t req op next) = Function.update (looks P) t
      (some ((lookOf req.2 (Pool.ownPast P.log t)).after
        (⟨op, (op.2.exec cfg P.state).1⟩ : BlobDone cfg))) := by
  funext u
  rw [looks, Pool.exec_threads, Pool.exec_log, Pool.ownPast_cons, Function.update_apply]
  by_cases own : u = t
  · subst own
    rw [if_pos rfl, if_pos rfl, if_pos rfl, ← lookOf_cons]
    rfl
  · rw [if_neg own, if_neg own, if_neg (Ne.symm own)]
    rfl

theorem truncator_cons (e : Event (blobMachine cfg)) (log : List (Event (blobMachine cfg))) :
    truncator (e :: log) = fun file => if cutsFile file e = true then some e.thread else truncator log file := by
  funext file
  unfold truncator
  rw [List.find?_cons]
  cases cutsFile file e <;> rfl

/-- The step lemma of the files. -/
theorem filesKept_exec {t : Nat} {req : Nat × BlobRequest} {op : Nat × BlobCall}
    {next : op.2.Res → Prog (blobMachine cfg) BlobReply}
    (kept : FilesKept cfg.ext.contentId (looks P) P.state.disk (truncator P.log))
    (distinct : Collisionless cfg.ext.contentId (looks P))
    (pending : P.threads t = some (req, .call op next))
    (rule : blobSteps cfg req (Pool.ownPast P.log t) op) (whole : readsFinished P t op) :
    FilesKept cfg.ext.contentId (looks (P.exec t req op next)) (P.exec t req op next).state.disk
      (truncator (P.exec t req op next).log) := by
  have now : looks P t = some (lookOf req.2 (Pool.ownPast P.log t)) := by
    rw [looks, pending]
    rfl
  rw [looks_exec, Pool.exec_log, truncator_cons]
  obtain ⟨start, call⟩ := op
  cases call with
  | createFile id =>
    obtain ⟨first, nothing, data, presents, rfl⟩ := rule
    have cuts : (fun file => if cutsFile file (⟨t, (start, .createFile (cfg.ext.contentId data)), P.state⟩ :
        Event (blobMachine cfg)) = true then some t else truncator P.log file) =
          Function.update (truncator P.log) (P.state.disk.createFile (cfg.ext.contentId data)).1 (some t) := by
      funext file
      simp [cutsFile, Function.update_apply, eq_comm]
    rw [cuts]
    exact kept.create now presents first nothing
  | writeAt file offset piece =>
    obtain ⟨own, rfl, data, presents, part⟩ := rule
    exact kept.write distinct now presents own part
  | openFile id => exact kept.open now rule
  | readAt file offset n =>
    obtain ⟨⟨id, wants⟩, opened, rfl, some_bytes, going⟩ := rule
    refine kept.read distinct now wants opened some_bytes going ?_
    intro w cut
    obtain ⟨start', p, data, writes, prog, at_w, all⟩ := whole w cut
    refine ⟨lookOf (.upload p data writes) (Pool.ownPast P.log w), ?_, ?_⟩
    · rw [looks, at_w]
      rfl
    · exact congrArg some all.symm
  | unlink id =>
    have same : Function.update (looks P) t (some (lookOf req.2 (Pool.ownPast P.log t))) = looks P := by
      rw [← now, Function.update_eq_self]
    refine same.symm ▸ kept.unlink id
  | _ =>
    have same : Function.update (looks P) t (some (lookOf req.2 (Pool.ownPast P.log t))) = looks P := by
      rw [← now, Function.update_eq_self]
    exact same.symm ▸ kept

theorem filesKept (reach : Pool.Reachable (serveBlob cfg) readsFinished (.boot inflight) P) :
    Collisionless cfg.ext.contentId (looks P) →
      FilesKept cfg.ext.contentId (looks P) P.state.disk (truncator P.log) := by
  refine Pool.Reachable.induct (I := fun P => Collisionless cfg.ext.contentId (looks P) →
    FilesKept cfg.ext.contentId (looks P) P.state.disk (truncator P.log)) ?_ ?_ reach
  · exact fun _ => FilesKept.empty
  · intro P Q before kept step distinct
    obtain ⟨idle, follows⟩ := before.own (K := fun req p past => p.Follows (blobSteps cfg req) past)
      serveBlob_follows (fun _ _ _ _ r follows => follows.2 r)
    cases step with
    | spawn t req free =>
      have silent := idle t free
      have nobody : looks P t = none := by rw [looks, free]; rfl
      rw [looks_spawn silent] at distinct ⊢
      refine (kept (distinct.of_update ?_)).arrive nobody req.2
      intro k at_t
      rw [nobody] at at_t
      cases at_t
    | exec t req op next pending enabled allowed =>
      have now : looks P t = some (lookOf req.2 (Pool.ownPast P.log t)) := by rw [looks, pending]; rfl
      have before : Collisionless cfg.ext.contentId (looks P) := by
        rw [looks_exec] at distinct
        refine distinct.of_update (same_request _ now ?_)
        rw [← lookOf_cons]
        rfl
      exact filesKept_exec (kept before) before pending (follows t req _ pending).1 allowed

/-! ## Who may download -/

/-- The call deletes the room. -/
def Erases (room : String) (e : Event (blobMachine cfg)) : Prop :=
  ∃ owner, e.op.2 = .hub (.deleteRoom room owner) ∧ e.before.hub.store.roomOwnedBy room owner = true

theorem blobRooms_exec (op : HubCall) (h : HubState)
    (kind : op.besideBlobs = true ∨ ∃ idle now, op = .gcBlobs idle now) {br : BlobRoomRow}
    (member : br ∈ (op.exec cfg h).2.store.blobRooms) :
    br ∈ h.store.blobRooms ∧
      ∀ owner, op = .deleteRoom br.room owner → h.store.roomOwnedBy br.room owner = false := by
  cases op with
  | putBlobMeta => simp [HubCall.besideBlobs] at kind
  | gcBlobs idle now =>
    refine ⟨(mem_deleteWhere.mp member).1, ?_⟩
    intro owner deletes
    cases deletes
  | deleteRoom room owner =>
    replace member : br ∈ (h.tryStore (h.store.deleteRoom room owner)).2.store.blobRooms := member
    cases deleted : h.store.deleteRoom room owner with
    | error e =>
      rw [deleted] at member
      refine ⟨member, ?_⟩
      rintro owner' ⟨⟩
      unfold Store.deleteRoom at deleted
      split at deleted
      · cases deleted
      · rename_i unowned
        exact Bool.eq_false_iff.mpr unowned
    | ok s =>
      rw [deleted] at member
      obtain ⟨owned, rfl⟩ := Store.deleteRoom_ok deleted
      obtain ⟨old, other⟩ := mem_deleteWhere.mp member
      refine ⟨old, ?_⟩
      rintro owner' ⟨⟩
      exact absurd rfl other
  | _ =>
    rw [exec_same cfg _ h .blobRooms (by simp [HubCall.writes])] at member
    refine ⟨member, ?_⟩
    intro owner deletes
    cases deletes

/-- Every binding was recorded by a call, and its room was not deleted since. -/
theorem bound_rows (reach : Pool.Reachable (serveBlob cfg) G (.boot inflight) P) :
    ∀ br ∈ P.state.hub.store.blobRooms, ∃ newer : List (Event (blobMachine cfg)), ∃ b older,
      P.log = newer ++ b :: older ∧ b.op.2 = .insertBlobRoom br ∧ ∀ e ∈ newer, ¬ Erases br.room e := by
  refine Pool.Reachable.induct (I := fun P => ∀ br ∈ P.state.hub.store.blobRooms,
    ∃ newer : List (Event (blobMachine cfg)), ∃ b older, P.log = newer ++ b :: older ∧
      b.op.2 = .insertBlobRoom br ∧ ∀ e ∈ newer, ¬ Erases br.room e) ?_ ?_ reach
  · exact fun br none => nomatch none
  · intro P Q before bound step
    cases step with
    | spawn t req free => exact bound
    | exec t req op next pending enabled allowed =>
      have rule := (before.own (K := fun req p past => p.Follows (blobSteps cfg req) past)
        serveBlob_follows (fun _ _ _ _ r follows => follows.2 r)).2 t req _ pending
      replace rule := rule.1
      intro br member
      -- an older binding whose room this call does not delete
      have older : br ∈ P.state.hub.store.blobRooms →
          ¬ Erases br.room (⟨t, op, P.state⟩ : Event (blobMachine cfg)) →
          ∃ newer b older, (P.exec t req op next).log = newer ++ b :: older ∧
            b.op.2 = .insertBlobRoom br ∧ ∀ e ∈ newer, ¬ Erases br.room e := by
        intro old kept
        obtain ⟨newer, b, older, split, inserts, since⟩ := bound br old
        refine ⟨⟨t, op, P.state⟩ :: newer, b, older, ?_, inserts, ?_⟩
        · rw [Pool.exec_log, split]
          rfl
        · intro e listed
          rcases List.mem_cons.mp listed with rfl | later
          · exact kept
          · exact since e later
      obtain ⟨start, call⟩ := op
      cases call with
      | hub op =>
        obtain ⟨old, stays⟩ := blobRooms_exec op P.state.hub rule member
        apply older old
        rintro ⟨owner, deletes, owned⟩
        have allowed := stays owner (BlobCall.hub.inj deletes)
        rw [allowed] at owned
        cases owned
      | insertBlobRoom row =>
        rcases mem_of_mem_insertNew member with old | rfl
        · exact older old (by rintro ⟨owner, deletes, -⟩; cases deletes)
        · exact ⟨[], _, P.log, rfl, rfl, by simp⟩
      | _ => exact older member (by rintro ⟨owner, deletes, -⟩; cases deletes)

/-- An uploader presented the bytes and posted them to the room, which was not deleted since. -/
def Posted (P : BlobPool cfg) (log : List (Event (blobMachine cfg))) (id room : String)
    (bytes : List UInt8) : Prop :=
  ∃ newer : List (Event (blobMachine cfg)), ∃ b older start p writes prog now, log = newer ++ b :: older ∧
    P.threads b.thread = some ((start, .upload p bytes writes), prog) ∧ p.room = room ∧
    b.op.2 = .insertBlobRoom ⟨id, room, p.author, now⟩ ∧ ∀ e ∈ newer, ¬ Erases room e

/-- The check of a download, on behalf of a member of the room or of a watcher with a valid token for
    it. -/
def MayRead : BlobRequest → List (Event (blobMachine cfg)) → Event (blobMachine cfg) → String → Prop
  | .getBlob me id _, _, e, room =>
      e.op.2 = .hub (.blobReadableBy id me.id) ∧ e.before.hub.store.isMember room me.id = true
  | .sessionBlob token id _, older, e, room =>
      e.op.2 = .blobInRoom id room ∧ ∃ v ∈ older, v.thread = e.thread ∧
        ∃ now, v.op.2 = .validateWatchToken token now ∧
          v.before.hub.store.validateWatchToken token now = some room
  | _, _, _, _ => False

/-- When a download was checked, it was on behalf of one who may read a room to which the bytes were
    posted. -/
def Authorised (P : BlobPool cfg) (t : Nat) (request : BlobRequest) (id : String) (bytes : List UInt8) :
    Prop :=
  ∃ newer e older room, P.log = newer ++ e :: older ∧ e.thread = t ∧ MayRead request older e room ∧
    Posted P older id room bytes

/-- A binding that a check found was posted by an upload. -/
theorem posted_of_bound (reach : Pool.Reachable (serveBlob cfg) G (.boot inflight) P)
    {newer older : List (Event (blobMachine cfg))} {e : Event (blobMachine cfg)}
    (split : P.log = newer ++ e :: older) {br : BlobRoomRow}
    (bound : br ∈ e.before.hub.store.blobRooms) :
    ∃ bytes, cfg.ext.contentId bytes = br.blob ∧ Offered (looks P) bytes ∧
      Posted P older br.blob br.room bytes := by
  obtain ⟨P', req, next, reach', rfl, state, -⟩ := reach.event split
  rw [← state] at bound
  obtain ⟨later, b, earlier, split', inserts, since⟩ := bound_rows reach' br bound
  have whole : P.log = (newer ++ e :: later) ++ b :: earlier := by
    rw [split, split', List.append_assoc]
    rfl
  obtain ⟨⟨start, request⟩, prog, at_b, rule⟩ := reach.followed serveBlob_follows whole
  obtain ⟨thread, ⟨start', call⟩, site⟩ := b
  cases inserts
  obtain ⟨p, data, writes, rfl, named, room, author⟩ := rule
  refine ⟨data, named, ⟨thread, lookOf (.upload p data writes) (Pool.ownPast P.log thread), ?_, rfl⟩,
    later, _, earlier, start, p, writes, prog,
    br.created, split', at_b, room, ?_, since⟩
  · rw [looks, at_b]
    rfl
  · rw [author]

/-- In every run in which no file is read between its truncation and the end of the write that truncated
    it, a download returns bytes of its content id, which an uploader presented and posted to a room that
    the one who downloads may read when the download is checked. -/
theorem downloads_exact_and_authorised
    (reach : Pool.Reachable (serveBlob cfg) readsFinished (.boot inflight) P)
    (distinct : Collisionless cfg.ext.contentId (looks P)) {t start : Nat} {request : BlobRequest}
    {reply : BlobReply} (answered : P.answer t = some ((start, request), reply)) {id : String}
    (wants : request.wants = some id) {bytes : List UInt8} (body : reply.body = some bytes) :
    cfg.ext.contentId bytes = id ∧ Authorised P t request id bytes := by
  have at_t := Pool.answer_eq answered
  obtain ⟨gathered, ended, admitted⟩ := reach.ends serveBlob_delivers at_t bytes body
  have look : looks P t = some (lookOf request (Pool.ownPast P.log t)) := by rw [looks, at_t]; rfl
  have exact : cfg.ext.contentId bytes = id ∧ Offered (looks P) bytes := by
    rcases (filesKept reach distinct).taken t _ look id wants with ⟨-, going⟩ | ⟨data, offered, named, -, all⟩
    · exact absurd (ended.symm.trans going) (by decide)
    · have same : bytes = data := gathered.symm.trans (all ended)
      exact same ▸ ⟨named, offered⟩
  refine ⟨exact.1, ?_⟩
  -- the binding that the check found was posted with the same bytes
  have posted : ∀ newer e older, P.log = newer ++ e :: older → ∀ br ∈ e.before.hub.store.blobRooms,
      br.blob = id → Posted P older id br.room bytes := by
    intro newer e older split br bound blob
    obtain ⟨data, named, offered, posted⟩ := posted_of_bound reach split bound
    rw [← distinct data bytes offered exact.2 (named.trans (blob.trans exact.1.symm)), ← blob]
    exact posted
  cases request with
  | getBlob me id' reads =>
    cases wants
    obtain ⟨later, start', earlier, past⟩ := admitted
    obtain ⟨newer, ⟨u, op, s⟩, older, split, own, same, -, -⟩ := Pool.ownPast_split past
    obtain ⟨rfl, readable⟩ := Sigma.mk.inj same
    replace readable : s.hub.store.blobReadableBy id me.id = true := eq_of_heq readable
    obtain ⟨br, bound, fits⟩ := List.any_eq_true.mp readable
    obtain ⟨blob, member⟩ := of_decide_eq_true fits
    refine ⟨newer, _, older, br.room, split, own, ⟨rfl, ?_⟩, posted _ _ _ split br bound blob⟩
    exact member
  | sessionBlob token id' reads =>
    cases wants
    obtain ⟨later, start', room, earlier, start'', now, past, validated⟩ := admitted
    obtain ⟨newer, ⟨u, op, s⟩, older, split, own, same, -, rfl⟩ := Pool.ownPast_split past
    obtain ⟨rfl, found⟩ := Sigma.mk.inj same
    replace found : s.hub.store.blobInRoom id room = true := eq_of_heq found
    obtain ⟨br, bound, fits⟩ := List.any_eq_true.mp found
    obtain ⟨blob, home⟩ := of_decide_eq_true fits
    obtain ⟨⟨u', op', s'⟩, listed, own', same'⟩ := Pool.ownPast_event validated
    obtain ⟨rfl, valid⟩ := Sigma.mk.inj same'
    refine ⟨newer, _, older, room, split, own, ⟨rfl, _, listed, own'.trans own.symm, now, rfl, ?_⟩, ?_⟩
    · exact eq_of_heq valid
    · exact home ▸ posted _ _ _ split br bound blob
  | _ => cases wants

end Past

/-! ## Two downloads -/

theorem tiny_contentId_injective : Function.Injective tinyConfig.ext.contentId := by
  have codes : ∀ n : Fin 256, (Char.ofNat n).toNat = n := by decide +kernel
  have bytes : Function.Injective (fun b : UInt8 => Char.ofNat b.toNat) := by
    intro b b' same
    have numbers := congrArg Char.toNat same
    dsimp only at numbers
    rw [codes ⟨b.toNat, b.toNat_lt⟩, codes ⟨b'.toNat, b'.toNat_lt⟩] at numbers
    exact UInt8.toNat_inj.mp numbers
  intro data data' same
  exact List.map_injective_iff.mpr bytes (String.ofList_injective same)

theorem tiny_collisionless (P : BlobPool tinyConfig) : Collisionless tinyConfig.ext.contentId (looks P) :=
  fun _ _ _ _ same => tiny_contentId_injective same

/-- An upload of two bytes by Alice to a room. -/
def tinyPost (room : String) : Nat × BlobRequest := (0, .upload ⟨"ab", room, "A", 2, none⟩ [97, 98] [])

/-- A download by Bob. -/
def tinyFetch : Nat × BlobRequest := (0, .getBlob bob "ab" [4, 4])

/-- Bob is in a room, and Alice uploads to it. -/
def tinyPosted : List (Pool.Action (Nat × BlobRequest)) :=
  .spawn 0 (0, .other (.addMember "r" "B" 0)) :: .step 0 ::
    .spawn 1 (tinyPost "r") :: List.replicate 5 (.step 1)

def tinySite (actions : List (Pool.Action (Nat × BlobRequest))) : BlobPool tinyConfig :=
  (Pool.start (.boot 0)).play (serveBlob tinyConfig) (tinyPosted ++ actions)

def finishedCheck (P : BlobPool tinyConfig) (w : Nat) : Bool :=
  match P.threads w with
  | some ((_, .upload _ data _), _) => writtenBy (Pool.ownPast P.log w) = data
  | _ => false

def readsFinishedCheck (P : BlobPool tinyConfig) (_ : Nat) : Nat × BlobCall → Bool
  | (_, .readAt file _ _) => (truncator P.log file).all (finishedCheck P)
  | _ => true

theorem readsFinished_of_check (P : BlobPool tinyConfig) (t : Nat) (op : Nat × BlobCall)
    (passed : readsFinishedCheck P t op = true) : readsFinished P t op := by
  obtain ⟨start, call⟩ := op
  cases call with
  | readAt file offset n =>
    intro w cut
    have finished : finishedCheck P w = true := by
      simpa [readsFinishedCheck, cut] using passed
    unfold finishedCheck at finished
    split at finished
    · rename_i start p data writes prog at_w
      exact ⟨start, p, data, writes, prog, at_w, of_decide_eq_true finished⟩
    · cases finished
  | _ => trivial

/-- Bob downloads after the upload. -/
def tinyFetched : BlobPool tinyConfig := tinySite (.spawn 2 tinyFetch :: List.replicate 7 (.step 2))

theorem downloads_exact_and_authorised_demo :
    tinyConfig.ext.contentId [97, 98] = "ab" ∧ Authorised tinyFetched 2 tinyFetch.2 "ab" [97, 98] := by
  have reach : Pool.Reachable (serveBlob tinyConfig) readsFinished (.boot 0) tinyFetched :=
    Pool.play_reachable_of_checks (serveBlob tinyConfig) readsFinished_of_check .refl (by decide +kernel)
  have answered : tinyFetched.answer 2 = some (tinyFetch, .incoming "ab" 2 none [97, 98]) := by rfl
  exact downloads_exact_and_authorised reach (tiny_collisionless _) answered rfl rfl

/-- Alice uploads the same bytes to another room, and Bob downloads when the file is cut to nothing. -/
def tinyTorn : BlobPool tinyConfig :=
  tinySite (.spawn 2 (tinyPost "s") :: .step 2 :: .spawn 3 tinyFetch :: List.replicate 6 (.step 3))

/-- The download of stored content returns nothing. -/
theorem torn_download :
    Pool.Reachable (serveBlob tinyConfig) Pool.anySchedule (.boot 0) tinyTorn ∧
      Collisionless tinyConfig.ext.contentId (looks tinyTorn) ∧
      tinyTorn.answer 3 = some (tinyFetch, .incoming "ab" 2 none []) ∧
      tinyConfig.ext.contentId [] ≠ "ab" :=
  ⟨Pool.play_reachable _ _ _, tiny_collisionless _, rfl, by decide +kernel⟩

end Parler.Hub
