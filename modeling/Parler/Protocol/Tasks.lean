import Parler.Protocol.Types

/-!
# Handoffs, task states and files

The extension parts that ask for work, report on it and point at what was shared, from
`crates/parler-protocol/src/hub.rs`: `HandoffRef`, `TaskRef`, `FileRef` and `BundleRef`, how they are
written into a message and read from it.
-/

namespace Parler.Protocol

open Parler.Lib

def handoffKind : String := "com.parler.handoff"

def taskKind : String := "com.parler.task"

def fileKind : String := "com.parler.file"

def bundleKind : String := "com.parler.bundle"

/-- A `u64` field. -/
def asU64 : Json → Option Nat
  | .int n => if 0 ≤ n ∧ n < 2 ^ 64 then some n.toNat else none
  | _ => none

namespace Map

/-- An optional string field: absent and `null` are none, and anything but a string is an error. -/
def optStr (m : Map) (key : String) : Option (Option String) :=
  match m.get key with
  | none | some .null => some none
  | some (.str s) => some (some s)
  | some _ => none

/-- An optional `u64` field. -/
def optU64 (m : Map) (key : String) : Option (Option Nat) :=
  match m.get key with
  | none | some .null => some none
  | some (.int n) => if 0 ≤ n ∧ n < 2 ^ 64 then some (some n.toNat) else none
  | some _ => none

/-- A field that is left out when it is absent. -/
def insertOpt (m : Map) (key : String) : Option Value → Map
  | none => m
  | some value => m.insert key value

theorem find_insertField (field : String × Json) (fs : List (String × Json)) (key : String) :
    (insertField field fs).find? (fun f => f.1 = key) =
      if field.1 = key then some field else fs.find? (fun f => f.1 = key) := by
  induction fs with
  | nil =>
    rw [insertField, List.find?_cons]
    by_cases own : field.1 = key <;> simp [own]
  | cons f fs ih =>
    rw [insertField]
    split
    · rw [List.find?_cons]
      by_cases own : field.1 = key <;> simp [own]
    · split
      · rename_i same
        rw [List.find?_cons, List.find?_cons, ← same]
        by_cases own : field.1 = key <;> simp [own]
      · rename_i other
        rw [List.find?_cons, ih, List.find?_cons]
        by_cases own : f.1 = key
        · have foreign : field.1 ≠ key := fun same => other (same.trans own.symm)
          simp [own, foreign]
        · simp [own]

@[simp] theorem get_empty (key : String) : empty.get key = none := rfl

@[simp] theorem get_insert (m : Map) (key : String) (value : Value) (key' : String) :
    (m.insert key value).get key' = if key = key' then some value.json else m.get key' := by
  unfold get insert
  rw [find_insertField]
  split <;> rfl

@[simp] theorem get_insertOpt (m : Map) (key : String) (value : Option Value) (key' : String) :
    (m.insertOpt key value).get key' =
      if key = key' then (value.map Value.json).or (m.get key') else m.get key' := by
  cases value with
  | none =>
    rw [insertOpt, Option.map_none, Option.none_or, ite_self]
  | some value =>
    rw [insertOpt, get_insert, Option.map_some, Option.some_or]

/-- An optional text is read as it was written. -/
theorem optStr_of_get {m : Map} {key : String} (o : Option String) (has : m.get key = o.map Json.str) :
    m.optStr key = some o := by
  cases o with
  | none => simp [optStr, has]
  | some s => simp [optStr, has]

/-- So is an optional number that is a `u64`. -/
theorem optU64_of_get {m : Map} {key : String} (o : Option Nat) (small : ∀ n ∈ o, n < 2 ^ 64)
    (has : m.get key = o.map (fun n => Json.int n)) : m.optU64 key = some o := by
  cases o with
  | none => simp [optU64, has]
  | some n =>
    have bound : n < 2 ^ 64 := small n rfl
    have within : (n : Int) < 18446744073709551616 := by omega
    simp [optU64, has, within]

end Map

/-- A request to continue the work (`hub.rs`, `HandoffRef`). -/
structure HandoffRef where
  next : String
  summary : Option String
  /-- `to` -/
  addressee : Option String
  bundle : Option String
  deriving DecidableEq

namespace HandoffRef

def toPart (h : HandoffRef) : Part :=
  .extension handoffKind
    ((((Map.empty.insert "next" (.str h.next)).insertOpt "summary" (h.summary.map .str)).insertOpt
      "to" (h.addressee.map .str)).insertOpt "bundle" (h.bundle.map .str))

def fromPart : Part → Option HandoffRef
  | .extension kind fields =>
      if kind = handoffKind then do
        let next ← (fields.get "next").bind asStr
        let summary ← fields.optStr "summary"
        let addressee ← fields.optStr "to"
        let bundle ← fields.optStr "bundle"
        return ⟨next, summary, addressee, bundle⟩
      else none
  | _ => none

/-- Whether the handoff is for an agent of the name or the role. -/
def isFor (h : HandoffRef) (name : String) (role : Option String) : Bool :=
  match h.addressee with
  | none => true
  | some address =>
      eqIgnoreAsciiCase (trim address) name ||
        role.any (fun r => eqIgnoreAsciiCase (trim address) r)

end HandoffRef

/-- A status on the wire: its label, or an object with the label and `null`. -/
def TaskStatus.fromJson : Json → Option TaskStatus
  | .str label | .obj [(label, .null)] =>
      [.accepted, .working, .awaiting, .done, .failed, .cancelled].find?
        (fun status => TaskStatus.label status = label)
  | _ => none

/-- A report on a task (`hub.rs`, `TaskRef`). -/
structure TaskRef where
  status : TaskStatus
  task : Option String
  note : Option String
  result : Option String
  tokens : Option Nat
  elapsedMs : Option Nat
  deriving DecidableEq

namespace TaskRef

def toPart (t : TaskRef) : Part :=
  .extension taskKind
    ((((((Map.empty.insert "status" (.str t.status.label)).insertOpt "task"
      (t.task.map .str)).insertOpt "note" (t.note.map .str)).insertOpt "result"
      (t.result.map .str)).insertOpt "tokens" (t.tokens.map (fun n => .int n))).insertOpt
      "elapsedMs" (t.elapsedMs.map (fun n => .int n)))

def fromPart : Part → Option TaskRef
  | .extension kind fields =>
      if kind = taskKind then do
        let status ← (fields.get "status").bind TaskStatus.fromJson
        let task ← fields.optStr "task"
        let note ← fields.optStr "note"
        let result ← fields.optStr "result"
        let tokens ← fields.optU64 "tokens"
        let elapsedMs ← fields.optU64 "elapsedMs"
        return ⟨status, task, note, result, tokens, elapsedMs⟩
      else none
  | _ => none

theorem status_label (status : TaskStatus) :
    TaskStatus.fromJson (.str status.label) = some status := by
  cases status <;> decide

/-- A report is read as it was written, as its numbers are `u64`s. -/
theorem fromPart_toPart (t : TaskRef) (tokens : ∀ n ∈ t.tokens, n < 2 ^ 64)
    (elapsed : ∀ n ∈ t.elapsedMs, n < 2 ^ 64) : fromPart t.toPart = some t := by
  obtain ⟨status, task, note, result, tokenCount, elapsedMs⟩ := t
  unfold toPart fromPart
  dsimp only
  rw [if_pos rfl, Map.optStr_of_get task (by cases task <;> simp [Value.str]),
    Map.optStr_of_get note (by cases note <;> simp [Value.str]),
    Map.optStr_of_get result (by cases result <;> simp [Value.str]),
    Map.optU64_of_get tokenCount tokens (by cases tokenCount <;> simp [Value.int]),
    Map.optU64_of_get elapsedMs elapsed (by cases elapsedMs <;> simp [Value.int])]
  simp [Value.str, status_label]

/-- What a report says, it says of the task it was written for. -/
theorem task_of_fromPart {t t' : TaskRef} (read : fromPart t.toPart = some t') :
    t'.task = t.task := by
  obtain ⟨status, task, note, result, tokenCount, elapsedMs⟩ := t
  unfold toPart fromPart at read
  dsimp only at read
  rw [if_pos rfl] at read
  simp only [Option.bind_eq_bind, Option.bind_eq_some_iff] at read
  obtain ⟨_, _, task', is, _, _, _, _, _, _, _, _, same⟩ := read
  cases same
  cases task <;> simp [Map.optStr, Value.str] at is <;> exact is.symm

end TaskRef

/-- A number that is a `u64` is read as it was written. -/
theorem Map.asU64_of_get {m : Map} {key : String} {n : Nat} (small : n < 2 ^ 64)
    (has : m.get key = some (.int n)) : (m.get key).bind asU64 = some n := by
  have within : 0 ≤ (n : Int) ∧ (n : Int) < 2 ^ 64 := by omega
  rw [has, Option.bind_some, asU64, if_pos within, Int.toNat_natCast]

/-- So is a text. -/
theorem Map.asStr_of_get {m : Map} {key s : String} (has : m.get key = some (.str s)) :
    (m.get key).bind asStr = some s := by
  rw [has]
  rfl

/-- A reference to a shared file (`hub.rs`, `FileRef`). -/
structure FileRef where
  blob : String
  name : String
  size : Nat
  mediaType : Option String
  summary : Option String
  deriving DecidableEq

namespace FileRef

def toPart (f : FileRef) : Part :=
  .extension fileKind
    (((((Map.empty.insert "blob" (.str f.blob)).insert "name" (.str f.name)).insert "size"
      (.int f.size)).insertOpt "mediaType" (f.mediaType.map .str)).insertOpt "summary"
      (f.summary.map .str))

def fromPart : Part → Option FileRef
  | .extension kind fields =>
      if kind = fileKind then do
        let blob ← (fields.get "blob").bind asStr
        let name ← (fields.get "name").bind asStr
        let size ← (fields.get "size").bind asU64
        let mediaType ← fields.optStr "mediaType"
        let summary ← fields.optStr "summary"
        return ⟨blob, name, size, mediaType, summary⟩
      else none
  | _ => none

/-- A reference is read as it was written, whatever its name. -/
theorem fromPart_toPart (f : FileRef) (small : f.size < 2 ^ 64) : fromPart f.toPart = some f := by
  obtain ⟨blob, name, size, mediaType, summary⟩ := f
  unfold toPart fromPart
  dsimp only
  rw [if_pos rfl, Map.optStr_of_get mediaType (by cases mediaType <;> simp [Value.str]),
    Map.optStr_of_get summary (by cases summary <;> simp [Value.str]),
    Map.asU64_of_get small (by simp [Value.int]), Map.asStr_of_get (s := blob) (by simp [Value.str]),
    Map.asStr_of_get (s := name) (by simp [Value.str])]
  rfl

end FileRef

/-- A reference to a code bundle (`hub.rs`, `BundleRef`). -/
structure BundleRef where
  blob : String
  vcs : String
  tip : Option String
  base : Option String
  summary : Option String
  size : Nat
  mediaType : Option String
  deriving DecidableEq

namespace BundleRef

def toPart (b : BundleRef) : Part :=
  .extension bundleKind
    (((((((Map.empty.insert "blob" (.str b.blob)).insert "vcs" (.str b.vcs)).insertOpt "tip"
      (b.tip.map .str)).insertOpt "base" (b.base.map .str)).insertOpt "summary"
      (b.summary.map .str)).insert "size" (.int b.size)).insertOpt "mediaType"
      (b.mediaType.map .str))

def fromPart : Part → Option BundleRef
  | .extension kind fields =>
      if kind = bundleKind then do
        let blob ← (fields.get "blob").bind asStr
        let vcs ← (fields.get "vcs").bind asStr
        let tip ← fields.optStr "tip"
        let base ← fields.optStr "base"
        let summary ← fields.optStr "summary"
        let size ← (fields.get "size").bind asU64
        let mediaType ← fields.optStr "mediaType"
        return ⟨blob, vcs, tip, base, summary, size, mediaType⟩
      else none
  | _ => none

theorem fromPart_toPart (b : BundleRef) (small : b.size < 2 ^ 64) : fromPart b.toPart = some b := by
  obtain ⟨blob, vcs, tip, base, summary, size, mediaType⟩ := b
  unfold toPart fromPart
  dsimp only
  rw [if_pos rfl, Map.optStr_of_get tip (by cases tip <;> simp [Value.str]),
    Map.optStr_of_get base (by cases base <;> simp [Value.str]),
    Map.optStr_of_get summary (by cases summary <;> simp [Value.str]),
    Map.optStr_of_get mediaType (by cases mediaType <;> simp [Value.str]),
    Map.asU64_of_get small (by simp [Value.int]), Map.asStr_of_get (s := blob) (by simp [Value.str]),
    Map.asStr_of_get (s := vcs) (by simp [Value.str])]
  rfl

end BundleRef

/-! ## Parts of other kinds -/

@[simp] theorem TaskRef.fromPart_text (text : String) : fromPart (.text text) = none := rfl

@[simp] theorem HandoffRef.fromPart_text (text : String) : fromPart (.text text) = none := rfl

@[simp] theorem TaskRef.fromPart_handoff (h : HandoffRef) : fromPart h.toPart = none := by
  have other : handoffKind ≠ taskKind := by decide
  simp [fromPart, HandoffRef.toPart, other]

@[simp] theorem HandoffRef.fromPart_task (t : TaskRef) : fromPart t.toPart = none := by
  have other : taskKind ≠ handoffKind := by decide
  simp [fromPart, TaskRef.toPart, other]

end Parler.Protocol
