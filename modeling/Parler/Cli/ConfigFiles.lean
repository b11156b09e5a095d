import Parler.Cli.ConfigLists
import Parler.Hub.StoredParts

/-!
# Config files after an edit

What the edits of `crates/parler-cli/src/connect.rs` leave of a config: the paths besides Parler's own end where
they did, as the file is read afterwards. Reading is that of `serde_json`, which is exact but for doubles.
-/

namespace Parler.Cli

open Parler.Lib Parler.Protocol

/-! ## The rules of Claude -/

def allowPath : JsonPath := [.key "permissions", .key "allow"]

/-- The rules that are not among the entries. -/
def missingRules (allow : List Value) : List Value :=
  (claudeParlerPermissions.filter (fun rule => !allow.any (isRule rule))).map .str

theorem isRule_str (rule text : String) : isRule rule (.str text) = decide (text = rule) := by
  simp [isRule, Value.str, asStr]

theorem pushRules_eq (allow : List Value) : pushRules allow = allow ++ missingRules allow := by
  unfold pushRules missingRules claudeParlerPermissions
  rw [List.foldl_cons, List.foldl_cons, List.foldl_nil]
  cases first : allow.any (isRule "mcp__parler__*") <;> cases second : allow.any (isRule "Bash(parler *)") <;>
    simp [first, second, isRule_str]

theorem isParlerRule_of_missing {allow : List Value} {entry : Value} (missing : entry ∈ missingRules allow) :
    isParlerRule entry = true := by
  obtain ⟨rule, listed, rfl⟩ := List.mem_map.mp missing
  refine List.any_eq_true.mpr ⟨rule, (List.mem_filter.mp listed).1, ?_⟩
  rw [isRule_str, decide_eq_true rfl]

/-- Both rules are among the entries afterwards. -/
theorem missingRules_pushRules (allow : List Value) : missingRules (pushRules allow) = [] := by
  unfold missingRules
  rw [List.map_eq_nil_iff, List.filter_eq_nil_iff]
  intro rule listed
  rw [pushRules_eq]
  by_cases there : allow.any (isRule rule) = true
  · simp [there]
  · have missing : Value.str rule ∈ missingRules allow := by
      refine List.mem_map_of_mem (List.mem_filter.mpr ⟨listed, ?_⟩)
      simpa using there
    have found : (missingRules allow).any (isRule rule) = true :=
      List.any_eq_true.mpr ⟨_, missing, by rw [isRule_str, decide_eq_true rfl]⟩
    simp [found]

theorem pushRules_again (allow : List Value) : pushRules (pushRules allow) = pushRules allow := by
  conv_lhs => rw [pushRules_eq, missingRules_pushRules, List.append_nil]

/-- The document that an object with these entries becomes with the rules. -/
abbrev Trusted (obj : Map) (allow : List Value) (w : Value) : Prop :=
  Edited "permissions" "allow" pushRules obj allow w

theorem withPermissions_ok {path : String} {root w : Value} (merged : withPermissions path root = .ok w) :
    ∃ obj allow, root = obj.toValue ∧ Trusted obj allow w := editList_ok merged

namespace Trusted

variable {obj : Map} {allow : List Value} {w : Value}

/-- A document that has the rules stays as it is. -/
theorem again (trusted : Trusted obj allow w) (path : String) : withPermissions path w = .ok w := by
  obtain ⟨obj', permissions, rfl, permissions_at, allow_at⟩ := trusted.object
  unfold withPermissions editList
  rw [Value.asObject_toValue]
  dsimp only
  rw [permissions_at, Option.getD_some, Value.asObject_toValue]
  dsimp only
  rw [allow_at, Option.getD_some, Value.asArray_arr]
  dsimp only
  rw [pushRules_again, Map.insert_eq_self allow_at, Map.insert_eq_self permissions_at]

/-- A rule that is pushed is a text. -/
theorem pushed {entry : Value} (listed : entry ∈ pushRules allow) :
    entry ∈ allow ∨ entry.depth ≤ 124 ∧ entry.numbers = ∅ := by
  rw [pushRules_eq] at listed
  refine (List.mem_append.mp listed).imp_right ?_
  intro missing
  obtain ⟨rule, -, rfl⟩ := List.mem_map.mp missing
  exact ⟨Nat.zero_le 124, Value.numbers_str rule⟩

end Trusted

/-- The paths that lead neither to the array of rules nor past its entries. -/
def KeptByRules (root : Value) (p : JsonPath) : Prop :=
  Diverge allowPath p ∨ ∃ i rest, p = allowPath ++ .index i :: rest ∧ i < ((allowEntries root).getD []).length

/-- What is in an entry. -/
theorem valueAt_entry {root : Value} {allow : List Value} (entries : allowEntries root = some allow) (i : Nat)
    (rest : JsonPath) :
    root.valueAt (allowPath ++ .index i :: rest) = allow[i]?.bind (fun v => v.valueAt rest) := by
  obtain ⟨obj, permissions, rfl, there, found⟩ := listAt_eq_some entries
  rw [allowPath, List.cons_append, List.cons_append, Map.valueAt_toValue]
  dsimp only
  rw [there, Option.bind_some, Map.valueAt_toValue]
  dsimp only
  rw [found, Option.bind_some]
  exact Value.valueAt_arr allow (.index i) rest

namespace Trusted

variable {obj : Map} {allow : List Value} {w : Value}

/-- The rules are pushed after the entries that were there. -/
theorem keeps (trusted : Trusted obj allow w) {p : JsonPath} (kept : KeptByRules obj.toValue p) :
    w.valueAt p = obj.toValue.valueAt p := by
  rcases kept with parted | ⟨i, rest, rfl, listed⟩
  · exact trusted.frame parted
  · have own := trusted.items_before
    change (allowEntries obj.toValue).getD [] = allow at own
    cases before : allowEntries obj.toValue with
    | none =>
      rw [before] at listed
      cases listed
    | some entries =>
      rw [before, Option.getD_some] at own listed
      subst own
      rw [valueAt_entry trusted.items_after, valueAt_entry before, pushRules_eq, List.getElem?_append_left listed]

/-- Every double of the document before is at the end of a path that is kept. -/
theorem double_kept (trusted : Trusted obj allow w) {p : JsonPath} {d : Double}
    (found : obj.toValue.valueAt p = some (.float d)) : KeptByRules obj.toValue p := by
  have own := trusted.items_before
  change (allowEntries obj.toValue).getD [] = allow at own
  obtain @⟨permissions, there, entries⟩ := trusted
  by_cases parted : Diverge allowPath p
  · exact Or.inl parted
  · have step : ∀ {m : Map} {key : String} {path q : JsonPath}, m.toValue.valueAt q = some (.float d) →
        ¬ Diverge (.key key :: path) q → ∃ v rest, q = .key key :: rest ∧ m.lookup key = some v ∧
          v.valueAt rest = some (.float d) ∧ ¬ Diverge path rest := by
      intro m key path q found near
      cases q with
      | nil => cases found
      | cons s rest =>
        rw [diverge_cons, not_or, not_not] at near
        obtain ⟨rfl, near⟩ := near
        rw [Map.valueAt_toValue] at found
        obtain ⟨v, inside, found⟩ := Option.bind_eq_some_iff.mp found
        exact ⟨v, rest, rfl, inside, found, near⟩
    obtain ⟨v, rest, rfl, inside, found, near⟩ := step found parted
    rw [inside, Option.getD_some] at there
    subst there
    obtain ⟨array, rest, rfl, inside, found, -⟩ := step found near
    rw [inside, Option.getD_some] at entries
    subst entries
    cases rest with
    | nil => cases found
    | cons s rest =>
      rw [Value.valueAt_arr] at found
      cases s with
      | key key => cases found
      | index i =>
        obtain ⟨v, item, -⟩ := Option.bind_eq_some_iff.mp found
        refine Or.inr ⟨i, rest, rfl, ?_⟩
        rw [own]
        exact (List.getElem?_eq_some_iff.mp item).1

end Trusted

/-- A removal takes away the two rules, and what contains nothing else. -/
theorem withoutPermissions_trims {root root' : Value} (removed : withoutPermissions root = some root') :
    Value.Trims (Diverge allowPath) root root' ∧ root'.asObject.isSome ∧
      (allowEntries root').getD [] = ((allowEntries root).getD []).filter (fun entry => !isParlerRule entry) :=
  trimList_trims removed

/-- After a merge there is a rule to remove. -/
theorem Trusted.removable {obj : Map} {allow : List Value} {w : Value} (trusted : Trusted obj allow w) :
    ∃ root', withoutPermissions w = some root' := by
  have rule : Value.str "mcp__parler__*" ∈ pushRules allow := by
    have none_missing := missingRules_pushRules allow
    unfold missingRules at none_missing
    rw [List.map_eq_nil_iff, List.filter_eq_nil_iff] at none_missing
    have there := none_missing "mcp__parler__*" List.mem_cons_self
    simp only [Bool.not_eq_true', Bool.not_eq_false] at there
    obtain ⟨entry, listed, is_rule⟩ := List.any_eq_true.mp there
    obtain ⟨json, ordered⟩ := entry
    have text : asStr json = some "mcp__parler__*" := by simpa [isRule] using is_rule
    cases json <;> cases text
    exact listed
  have fewer : ((pushRules allow).filter (fun entry => !isParlerRule entry)).length ≠ (pushRules allow).length := by
    intro same
    have all := List.filter_eq_self.mp (List.filter_sublist.eq_of_length same) _ rule
    exact absurd all (by decide)
  unfold withoutPermissions trimList
  rw [trusted.items_after]
  dsimp only
  rw [if_neg fewer]
  exact ⟨_, rfl⟩

/-! ## Reading and writing -/

/-- What is relied on of `serde_json`: it reads no text whose containers are nested deeper than its limit, and an
    integer that does not fit into 64 bits as a double; what it prints within these limits it reads again, the
    doubles as `read` has them. -/
structure Reads (F : FloatFormat) (fromStr : String → Option Value) (read : Double → Double) : Prop where
  readable : ∀ {txt v}, fromStr txt = some v → v.Readable
  back : ∀ {v : Value}, v.Readable → fromStr (documentText F v) = some (v.reread read)

section Edits

variable {F : FloatFormat} {fromStr : String → Option Value} {read : Double → Double} {path : String}

theorem readable_empty : Map.empty.toValue.Readable :=
  Value.readable_of_no_numbers (by decide) Value.numbers_empty

theorem readJson_readable (reads : Reads F fromStr read) {file : ConfigFile} {v : Value}
    (done : readJson fromStr path file = .ok v) : v.Readable := by
  unfold readJson at done
  split at done
  · split at done
    · cases done
      exact readable_empty
    · split at done
      · rename_i parsed
        cases done
        exact reads.readable parsed
      · cases done
  · cases done

theorem currentJson_readable (reads : Reads F fromStr read) {file : ConfigFile} {v : Value}
    (done : currentJson fromStr path file = .ok v) : v.Readable := by
  unfold currentJson at done
  split at done
  · exact readJson_readable reads done
  · cases done
    exact readable_empty

/-- The text of an object is not blank. -/
theorem documentText_trim (m : Map) : trim (documentText F m.toValue) ≠ "" := by
  intro blank
  rw [trim_eq_empty] at blank
  obtain ⟨pre, post, before, after, whole, -⟩ := exists_trimChars (documentText F m.toValue).toList
  rw [blank, List.append_nil] at whole
  have brace : '\x7b' ∈ (documentText F m.toValue).toList := by
    simp [documentText, Map.toValue, pretty]
  rw [whole] at brace
  have white : isWhitespace '\x7b' = true := by
    rcases List.mem_append.mp brace with front | back
    · exact before _ front
    · exact after _ back
  exact absurd white (by decide)

/-- A document that was written is read again. -/
theorem readJson_document (reads : Reads F fromStr read) {w : Value} (object : w.asObject.isSome)
    (readable : w.Readable) :
    readJson fromStr path (.text (documentText F w)) = .ok (w.reread read) := by
  obtain ⟨m, whole⟩ := Option.isSome_iff_exists.mp object
  rw [Value.asObject_eq_some.mp whole] at readable ⊢
  unfold readJson
  dsimp only
  rw [if_neg (documentText_trim m), reads.back readable]

theorem currentJson_text (txt : String) :
    currentJson fromStr path (.text txt) = readJson fromStr path (.text txt) := if_pos rfl

/-- A refusal leaves the file. -/
theorem commitEdit_refused {edited : Except String (Option Value)} {file file' : ConfigFile} {e : String}
    (refused : commitEdit F edited file = (.error e, file')) : file' = file := by
  unfold commitEdit at refused
  split at refused
  · exact (congrArg Prod.snd refused).symm
  · cases refused
  · cases refused

/-! ## What an edit does to a file -/

section General

variable (F fromStr path) in
/-- A call and the removal after it: what the file held is left, as `left` and `leftAfter` say of the documents
    read before and afterwards, and a refusal leaves the file. -/
structure EditsOnly (install remove : ConfigFile → Except String Bool × ConfigFile)
    (left leftAfter : Value → Value → Prop) (file : ConfigFile) : Prop where
  refused : ∀ e file', install file = (.error e, file') → file' = file
  again : ∀ done file', install file = (.ok done, file') → install file' = (.ok done, file')
  frame : ∀ v done file', currentJson fromStr path file = .ok v → install file = (.ok done, file') →
    ∃ w, readJson fromStr path file' = .ok w ∧ left v w
  removed : ∀ v done file', currentJson fromStr path file = .ok v → install file = (.ok done, file') →
    ∃ w, readJson fromStr path (remove file').2 = .ok w ∧ leftAfter v w
  kept : ∀ e file', remove file = (.error e, file') → file' = file

/-- What the edits of a document promise. -/
structure Edits (install : Value → Except String Value) (remove : Value → Option Value)
    (left leftAfter : Value → Value → Prop) : Prop where
  object : ∀ {v w}, install v = .ok w → w.asObject.isSome
  readable : ∀ {v w}, install v = .ok w → v.Readable → w.Readable
  again : ∀ {v w}, install v = .ok w → install w = .ok w
  left : ∀ {v w}, install v = .ok w → left v w
  removal : ∀ {v w}, install v = .ok w → ∃ root', remove w = some root' ∧ root'.asObject.isSome ∧
    leftAfter v root' ∧ ∃ kept, Value.Trims kept w root'

variable {install : Value → Except String Value} {remove : Value → Option Value}
  {left leftAfter : Value → Value → Prop} {file file' : ConfigFile} {v w : Value}

theorem installAt_ok (read_as : currentJson fromStr path file = .ok v) (merged : install v = .ok w) :
    installAt F fromStr path install file = (.ok true, .text (documentText F w)) := by
  unfold installAt
  rw [read_as]
  show commitEdit F ((install v).map some) file = _
  rw [merged]
  rfl

/-- What a successful call has read and written. -/
theorem installAt_done {done : Bool} (run : installAt F fromStr path install file = (.ok done, file')) :
    ∃ v w, currentJson fromStr path file = .ok v ∧ install v = .ok w ∧ done = true ∧
      file' = .text (documentText F w) := by
  cases read_as : currentJson fromStr path file with
  | error e =>
    unfold installAt at run
    rw [read_as] at run
    cases run
  | ok v =>
    cases merged : install v with
    | error e =>
      unfold installAt at run
      rw [read_as] at run
      have refused : commitEdit F ((install v).map some) file = (.ok done, file') := run
      rw [merged] at refused
      cases refused
    | ok w =>
      rw [installAt_ok read_as merged] at run
      cases run
      exact ⟨v, w, rfl, merged, rfl, rfl⟩

theorem removeAt_text (txt : String) : removeAt F fromStr path remove (.text txt) =
    commitEdit F ((readJson fromStr path (.text txt)).map remove) (.text txt) := if_pos rfl

/-- The document that a call has written, as it is read again. -/
theorem Edits.read_back (edits : Edits install remove left leftAfter) (reads : Reads F fromStr read)
    (read_as : currentJson fromStr path file = .ok v) (merged : install v = .ok w) :
    readJson fromStr path (.text (documentText F w)) = .ok (w.reread read) :=
  readJson_document reads (edits.object merged) (edits.readable merged (currentJson_readable reads read_as))

/-- The removal after a call, if the document is read as it was written. -/
theorem Edits.removed (edits : Edits install remove left leftAfter) (reads : Reads F fromStr read)
    (read_as : currentJson fromStr path file = .ok v) (merged : install v = .ok w) (same : w.reread read = w) :
    ∃ w', readJson fromStr path (removeAt F fromStr path remove (.text (documentText F w))).2 = .ok w' ∧
      leftAfter v w' := by
  obtain ⟨root', gone, object, after, kept, trims⟩ := edits.removal merged
  have readable := edits.read_back reads read_as merged
  have bounded := trims.readable (edits.readable merged (currentJson_readable reads read_as))
  have readable' : readJson fromStr path (.text (documentText F root')) = .ok (root'.reread read) :=
    readJson_document reads object bounded
  rw [same] at readable
  rw [trims.reread same] at readable'
  have run : removeAt F fromStr path remove (.text (documentText F w)) =
      (.ok true, .text (documentText F root')) := by
    rw [removeAt_text, readable, Except.map, gone]
    rfl
  rw [run]
  exact ⟨root', readable', after⟩

/-- Edits of documents are edits of files exactly where what they write is read as it was written. -/
theorem Edits.onlyAt_iff (edits : Edits install remove left leftAfter) (reads : Reads F fromStr read)
    (settles : ∀ {v w}, install v = .ok w → left v (w.reread read) → w.reread read = w) (file : ConfigFile) :
    EditsOnly fromStr path (installAt F fromStr path install) (removeAt F fromStr path remove) left leftAfter
        file ↔
      ∀ v w, currentJson fromStr path file = .ok v → install v = .ok w → w.reread read = w := by
  constructor
  · intro only v w read_as merged
    obtain ⟨w', again, frame⟩ := only.frame _ _ _ read_as (installAt_ok read_as merged)
    rw [edits.read_back reads read_as merged] at again
    cases again
    exact settles merged frame
  · intro same
    refine ⟨fun e file' => commitEdit_refused, ?_, ?_, ?_, ?_⟩
    · intro done file' run
      obtain ⟨v, w, read_as, merged, rfl, rfl⟩ := installAt_done run
      have readable := edits.read_back reads read_as merged
      rw [same v w read_as merged] at readable
      exact installAt_ok ((currentJson_text _).trans readable) (edits.again merged)
    · intro v done file' read_as run
      obtain ⟨v', w, read_as', merged, rfl, rfl⟩ := installAt_done run
      obtain rfl : v = v' := Except.ok.inj (read_as.symm.trans read_as')
      have readable := edits.read_back reads read_as merged
      rw [same v w read_as merged] at readable
      exact ⟨w, readable, edits.left merged⟩
    · intro v done file' read_as run
      obtain ⟨v', w, read_as', merged, rfl, rfl⟩ := installAt_done run
      obtain rfl : v = v' := Except.ok.inj (read_as.symm.trans read_as')
      exact edits.removed reads read_as merged (same v w read_as merged)
    · intro e file' run
      unfold removeAt at run
      split at run
      · exact commitEdit_refused run
      · cases run

end General

end Edits

/-! ## Servers -/

section Servers

variable {read : Double → Double} {host : JsonHost} {env : List (String × String)} {binpath path : String}
  {v w : Value}

/-- The document is one that `write_json` takes: an object with an object or nothing under the key of the
    servers, and for OpenCode a valid policy. -/
def Servable (host : JsonHost) (v : Value) : Prop :=
  ∃ obj, v.asObject = some obj ∧ (∀ s, obj.lookup host.key = some s → s.asObject.isSome) ∧
    (host.shape = .openCode → (policies (obj.lookup "permission")).isSome)

theorem servable_iff : Servable host v ↔ ∃ w, withServer host env binpath path v = .ok w := by
  unfold Servable withServer
  cases v.asObject with
  | none =>
    constructor
    · rintro ⟨obj, object, -⟩
      cases object
    · rintro ⟨w, merged⟩
      cases merged
  | some obj =>
    have servers : (∀ s, obj.lookup host.key = some s → s.asObject.isSome) ↔
        (((obj.lookup host.key).getD Map.empty.toValue).asObject).isSome := by
      cases obj.lookup host.key with
      | none => simp
      | some s => simp
    cases inner : ((obj.lookup host.key).getD Map.empty.toValue).asObject with
    | none => simp [servers, inner]
    | some m =>
      simp only [Option.some.injEq, exists_eq_left', servers, inner, Option.isSome_some, true_and]
      unfold installJsonTrust
      by_cases is_opencode : host.shape = .openCode
      · rw [if_neg (not_not_intro is_opencode)]
        dsimp only
        rw [Map.lookup_insert, if_neg (key_ne_permission host)]
        cases policies (obj.lookup "permission") with
        | none => simp [is_opencode, Except.map]
        | some permissions => simp [Except.map]
      · rw [if_pos is_opencode]
        simp [is_opencode, Except.map]

/-- Every path that does not lead to an entry of Parler's ends where it did; a single policy of OpenCode is that
    of `*`. -/
def ServersLeft (host : JsonHost) (v w : Value) : Prop :=
  ∀ p, Untouched host p → w.valueAt p = (expandPolicy host.shape v).valueAt p

theorem server_edits (host : JsonHost) (env : List (String × String)) (binpath path : String) :
    Edits (withServer host env binpath path) (withoutServer host) (ServersLeft host) (ServersLeft host) where
  object merged := by
    obtain ⟨obj, -, served⟩ := withServer_ok merged
    obtain ⟨obj', -, rfl, -⟩ := served.object
    rfl
  readable merged bounded := by
    obtain ⟨obj, rfl, served⟩ := withServer_ok merged
    refine bounded.of_numbers (served.depth (serverEntry_depth _ _ _) (expandMap_depth bounded.depth)) ?_
    exact (served.numbers (serverEntry_numbers _ _ _)).trans (expandMap_numbers _ obj).subset
  again merged := by
    obtain ⟨obj, -, served⟩ := withServer_ok merged
    exact served.again path
  left merged := by
    obtain ⟨obj, rfl, served⟩ := withServer_ok merged
    exact fun p untouched => served.frame untouched
  removal merged := by
    obtain ⟨obj, rfl, served⟩ := withServer_ok merged
    obtain ⟨obj', -, rfl, -⟩ := served.object
    obtain ⟨root', removed⟩ := served.removable
    obtain ⟨trims, object⟩ := withoutServer_trims removed
    exact ⟨root', removed, object rfl, fun p untouched => (trims.frame p untouched).trans (served.frame untouched),
      _, trims⟩

/-- A merged document is read as it was written exactly if every double at a path that the merge leaves is. -/
theorem served_reread_iff (merged : withServer host env binpath path v = .ok w) : w.reread read = w ↔
    ∀ p d, Untouched host p → v.valueAt p = some (.float d) → read d = d := by
  obtain ⟨obj, rfl, served⟩ := withServer_ok merged
  have double : ∀ {p d}, Untouched host p →
      (w.valueAt p = some (.float d) ↔ obj.toValue.valueAt p = some (.float d)) := by
    intro p d untouched
    rw [served.frame untouched]
    exact expandMap_number _ obj p (.float d)
  constructor
  · intro same p d untouched found
    exact Value.doubles_of_reread same ⟨p, (double untouched).mpr found⟩
  · intro settled
    apply Value.reread_eq_self
    rintro d ⟨p, found⟩
    have untouched := served.number_untouched (n := .float d) (serverEntry_numbers _ _ _) found
    exact settled p d untouched ((double untouched).mp found)

theorem served_settles (merged : withServer host env binpath path v = .ok w)
    (left : ServersLeft host v (w.reread read)) : w.reread read = w := by
  apply Value.reread_eq_self
  rintro d ⟨p, found⟩
  obtain ⟨obj, rfl, served⟩ := withServer_ok merged
  have untouched := served.number_untouched (n := .float d) (serverEntry_numbers _ _ _) found
  have there := left p untouched
  have frame := (server_edits host env binpath path).left merged p untouched
  rw [Value.valueAt_reread, ← frame, found] at there
  exact Json.float.inj (Option.some.inj there)

end Servers

/-! ## Rules -/

section Rules

variable {read : Double → Double} {path : String} {v w : Value}

/-- The document is one that `install_claude_permissions_at` takes. -/
def Trustable : Value → Prop := Listable "permissions" "allow"

/-- Every path ends where it did that does not lead to the array of rules, or that leads into one of its old
    entries. -/
def RulesLeft (v w : Value) : Prop := ∀ p, KeptByRules v p → w.valueAt p = v.valueAt p

/-- Every path that does not lead to the array of rules ends where it did, and the array has its other
    entries. -/
def OthersLeft (v w : Value) : Prop :=
  (∀ p, Diverge allowPath p → w.valueAt p = v.valueAt p) ∧
    (allowEntries w).getD [] = ((allowEntries v).getD []).filter (fun entry => !isParlerRule entry)

theorem rule_edits (path : String) : Edits (withPermissions path) withoutPermissions RulesLeft OthersLeft where
  object merged := by
    obtain ⟨obj, allow, -, trusted⟩ := withPermissions_ok merged
    obtain ⟨obj', -, rfl, -⟩ := trusted.object
    rfl
  readable merged bounded := by
    obtain ⟨obj, allow, rfl, trusted⟩ := withPermissions_ok merged
    exact trusted.readable bounded (fun _ => Trusted.pushed)
  again merged := by
    obtain ⟨obj, allow, -, trusted⟩ := withPermissions_ok merged
    exact trusted.again path
  left merged := by
    obtain ⟨obj, allow, rfl, trusted⟩ := withPermissions_ok merged
    exact fun p kept => trusted.keeps kept
  removal {v w} merged := by
    obtain ⟨obj, allow, rfl, trusted⟩ := withPermissions_ok merged
    obtain ⟨root', removed⟩ := trusted.removable
    obtain ⟨trims, object, entries⟩ := withoutPermissions_trims removed
    refine ⟨root', removed, object, ⟨fun p parted => (trims.frame p parted).trans (trusted.frame parted), ?_⟩,
      _, trims⟩
    have none_left : (missingRules allow).filter (fun entry => !isParlerRule entry) = [] := by
      rw [List.filter_eq_nil_iff]
      intro entry missing
      simp [isParlerRule_of_missing missing]
    have before : (allowEntries obj.toValue).getD [] = allow := trusted.items_before
    have after : allowEntries w = some (pushRules allow) := trusted.items_after
    rw [entries, after, before, Option.getD_some, pushRules_eq, List.filter_append, none_left, List.append_nil]

theorem trustable_iff : Trustable v ↔ ∃ w, withPermissions path v = .ok w := listable_iff

theorem trusted_reread_iff (merged : withPermissions path v = .ok w) : w.reread read = w ↔
    ∀ d ∈ v.doubles, read d = d := by
  obtain ⟨obj, allow, rfl, trusted⟩ := withPermissions_ok merged
  constructor
  · rintro same d ⟨p, found⟩
    exact Value.doubles_of_reread same ⟨p, (trusted.keeps (trusted.double_kept found)).trans found⟩
  · intro settled
    exact Value.reread_eq_self (fun d member =>
      settled d (Value.mem_doubles.mpr (trusted.numbers (fun _ listed => (Trusted.pushed listed).imp_right And.right)
        (Value.mem_doubles.mp member))))

theorem trusted_settles (merged : withPermissions path v = .ok w) (left : RulesLeft v (w.reread read)) :
    w.reread read = w := by
  rw [trusted_reread_iff merged]
  rintro d ⟨p, found⟩
  obtain ⟨obj, allow, rfl, trusted⟩ := withPermissions_ok merged
  have kept := trusted.double_kept found
  have there := left p kept
  rw [Value.valueAt_reread, trusted.keeps kept, found] at there
  exact Json.float.inj (Option.some.inj there)

end Rules

/-! ## Every call -/

/-- The calls edit a file exactly as they should, that is, Parler's entries alone change, a second call changes
    nothing, a removal leaves the rest and a refusal all, if they refuse the document or every double that they
    leave is read back from its printed text as it is. -/
theorem config_edits_iff {F : FloatFormat} {fromStr : String → Option Value} {read : Double → Double}
    (reads : Reads F fromStr read) (path : String) (file : ConfigFile) :
    (∀ host env binpath, EditsOnly fromStr path (writeJson F fromStr path host env binpath)
        (removeJson F fromStr path host) (ServersLeft host) (ServersLeft host) file ↔
      ∀ v, currentJson fromStr path file = .ok v → Servable host v →
        ∀ p d, Untouched host p → v.valueAt p = some (.float d) → read d = d) ∧
    (EditsOnly fromStr path (installClaudePermissionsAt F fromStr path)
        (removeClaudePermissionsAt F fromStr path) RulesLeft OthersLeft file ↔
      ∀ v, currentJson fromStr path file = .ok v → Trustable v → ∀ d ∈ v.doubles, read d = d) := by
  constructor
  · intro host env binpath
    refine ((server_edits host env binpath path).onlyAt_iff reads served_settles file).trans ?_
    constructor
    · intro same v read_as servable
      obtain ⟨w, merged⟩ : ∃ w, withServer host env binpath path v = .ok w := servable_iff.mp servable
      exact (served_reread_iff merged).mp (same v w read_as merged)
    · intro settled v w read_as merged
      exact (served_reread_iff merged).mpr (settled v read_as (servable_iff.mpr ⟨w, merged⟩))
  · refine ((rule_edits path).onlyAt_iff reads trusted_settles file).trans ?_
    constructor
    · intro same v read_as trustable
      obtain ⟨w, merged⟩ : ∃ w, withPermissions path v = .ok w := trustable_iff.mp trustable
      exact (trusted_reread_iff merged).mp (same v w read_as merged)
    · intro settled v w read_as merged
      exact (trusted_reread_iff merged).mpr (settled v read_as (trustable_iff.mpr ⟨w, merged⟩))

section Demo

open Parler.Hub

theorem point_not_int (n : Int) : '.' ∉ intText n := by
  intro member
  cases n with
  | ofNat n => exact absurd (toDigits_isDigit member) (by decide)
  | negSucc n =>
    rcases List.mem_cons.mp member with sign | digit
    · exact absurd sign (by decide)
    · exact absurd (toDigits_isDigit digit) (by decide)

def shortText : List Char := "0.9452706955539223".toList

def nextText : List Char := "0.9452706955539224".toList

theorem short_number : ∀ c ∈ shortText, isNumberChar c = true :=
  List.all_eq_true.mp (by decide +kernel)

theorem next_number : ∀ c ∈ nextText, isNumberChar c = true :=
  List.all_eq_true.mp (by decide +kernel)

/-- The shortest text of the printed double and of the one that it is read back as; any other double is its bits
    after a sign and a point. -/
def shortFormat : FloatFormat where
  print d :=
    if d = printedDouble then shortText
    else if d = readBackDouble then nextText
    else '-' :: bitsFormat.print d
  number := by
    intro d c member
    split at member
    · exact short_number c member
    · split at member
      · exact next_number c member
      · rcases List.mem_cons.mp member with rfl | member
        · decide
        · exact bitsFormat.number d c member
  nonempty := by
    intro d
    split
    · exact List.cons_ne_nil _ _
    · split
      · exact List.cons_ne_nil _ _
      · exact List.cons_ne_nil _ _
  injective := by
    have texts : shortText ≠ nextText := by decide +kernel
    have short : ∀ d, shortText ≠ '-' :: bitsFormat.print d :=
      fun d equal => absurd (List.cons.inj equal).1 (by decide)
    have next : ∀ d, nextText ≠ '-' :: bitsFormat.print d :=
      fun d equal => absurd (List.cons.inj equal).1 (by decide)
    intro d e equal
    by_cases d_short : d = printedDouble <;> by_cases e_short : e = printedDouble
    · rw [d_short, e_short]
    · rw [if_pos d_short, if_neg e_short] at equal
      split at equal
      · exact absurd equal texts
      · exact absurd equal (short e)
    · rw [if_neg d_short, if_pos e_short] at equal
      split at equal
      · exact absurd equal.symm texts
      · exact absurd equal.symm (short d)
    · rw [if_neg d_short, if_neg e_short] at equal
      by_cases d_next : d = readBackDouble <;> by_cases e_next : e = readBackDouble
      · rw [d_next, e_next]
      · rw [if_pos d_next, if_neg e_next] at equal
        exact absurd equal (next e)
      · rw [if_neg d_next, if_pos e_next] at equal
        exact absurd equal.symm (next d)
      · rw [if_neg d_next, if_neg e_next] at equal
        exact bitsFormat.injective _ _ (List.cons.inj equal).2
  not_int := by
    intro d n equal
    have point : '.' ∈ intText n := by
      rw [← equal]
      split
      · decide +kernel
      · split
        · decide +kernel
        · exact List.mem_cons_of_mem _ (List.mem_cons_of_mem _ List.mem_cons_self)
    exact point_not_int n point

/-- A config that is read as the printed double, but was not printed. -/
def accurateText : String := "\x7b\"x\": 0.94527069555392229\x7d"

def doubleMap (d : Double) : Map := Map.empty.insert "x" ⟨.float d, rfl⟩

theorem documentText_injective {F : FloatFormat} {v w : Value} (equal : documentText F v = documentText F w) :
    v = w := by
  have texts := congrArg String.toList equal
  simp only [documentText, String.toList_append, String.toList_ofList] at texts
  exact Value.ext_json (pretty_injective F (List.append_cancel_right texts))

theorem documentText_ne_accurate (F : FloatFormat) (v : Value) : documentText F v ≠ accurateText := by
  intro equal
  have texts := congrArg (fun s => s.toList.getLast?) equal
  have ends : (documentText F v).toList.getLast? = some '\n' := by
    rw [documentText, String.toList_append, List.getLast?_append]
    rfl
  rw [ends] at texts
  exact absurd texts (by decide +kernel)

open Classical in
/-- A reader of the config, and of every document that was written. -/
noncomputable def demoFromStr (txt : String) : Option Value :=
  if txt = accurateText then some (doubleMap printedDouble).toValue
  else if printed : ∃ v : Value, v.Readable ∧ documentText shortFormat v = txt then
    some (printed.choose.reread demoRead)
  else none

theorem doubleMap_readable (d : Double) : (doubleMap d).toValue.Readable := by
  have shallow : (doubleMap d).toValue.depth ≤ 0 + 1 := Map.depth_insert (Nat.le_refl 1) (Nat.le_refl 0)
  refine ⟨shallow.trans (by decide), ?_⟩
  intro n member
  rcases Value.numbers_insert member with ⟨path, found⟩ | inside
  · cases path with
    | nil => cases found
    | cons s path => cases s <;> cases found
  · simp at inside

theorem demo_reads : Reads shortFormat demoFromStr demoRead where
  readable := by
    intro txt v parsed
    unfold demoFromStr at parsed
    split at parsed
    · cases parsed
      exact doubleMap_readable _
    · split at parsed
      · rename_i printed
        cases parsed
        exact printed.choose_spec.1.reread demoRead
      · cases parsed
  back := by
    intro v readable
    have printed : ∃ w : Value, w.Readable ∧ documentText shortFormat w = documentText shortFormat v :=
      ⟨v, readable, rfl⟩
    unfold demoFromStr
    rw [if_neg (documentText_ne_accurate _ _), dif_pos printed, documentText_injective printed.choose_spec.2]

def themeMap : Map := Map.empty.insert "theme" (.str "dark")

theorem theme_numbers : themeMap.toValue.numbers = ∅ := by
  refine Set.eq_empty_of_forall_notMem ?_
  intro n member
  rcases Value.numbers_insert member with inside | inside <;> simp at inside

theorem theme_read (path : String) :
    currentJson demoFromStr path (.text (documentText shortFormat themeMap.toValue)) = .ok themeMap.toValue := by
  rw [currentJson_text,
    readJson_document demo_reads rfl (Value.readable_of_no_numbers (by decide +kernel) theme_numbers)]
  rfl

/-- A config with a theme, of Cursor and of Claude. -/
theorem config_edits_theme :
    EditsOnly demoFromStr "mcp.json" (writeJson shortFormat demoFromStr "mcp.json" .cursor [] "parler")
        (removeJson shortFormat demoFromStr "mcp.json" .cursor) (ServersLeft .cursor) (ServersLeft .cursor)
        (.text (documentText shortFormat themeMap.toValue)) ∧
      EditsOnly demoFromStr "settings.json" (installClaudePermissionsAt shortFormat demoFromStr "settings.json")
        (removeClaudePermissionsAt shortFormat demoFromStr "settings.json") RulesLeft OthersLeft
        (.text (documentText shortFormat themeMap.toValue)) := by
  have plain : ∀ d, d ∉ themeMap.toValue.doubles := by
    intro d member
    rw [Value.mem_doubles, theme_numbers] at member
    exact Set.notMem_empty _ member
  constructor
  · refine ((config_edits_iff demo_reads "mcp.json" _).1 .cursor [] "parler").mpr ?_
    intro v read_as servable p d untouched found
    rw [theme_read] at read_as
    cases read_as
    exact absurd ⟨p, found⟩ (plain d)
  · refine (config_edits_iff demo_reads "settings.json" _).2.mpr ?_
    intro v read_as trustable d member
    rw [theme_read] at read_as
    cases read_as
    exact absurd member (plain d)

/-- The config with the server, before and after it has been read again. -/
def wiredMap (d : Double) : Map :=
  (doubleMap d).insert "mcpServers" (Map.empty.insert serverName (serverEntry .standard [] "parler")).toValue

theorem wired (d : Double) :
    withServer .cursor [] "parler" "mcp.json" (doubleMap d).toValue = .ok (wiredMap d).toValue := rfl

theorem wired_reread : (wiredMap printedDouble).toValue.reread demoRead = (wiredMap readBackDouble).toValue := by
  decide +kernel

/-- A double beside the servers changes, and a second call writes another text. -/
theorem double_beside_servers_changes :
    Reads shortFormat demoFromStr demoRead ∧
      readJson demoFromStr "mcp.json" (.text accurateText) = .ok (doubleMap printedDouble).toValue ∧
      writeJson shortFormat demoFromStr "mcp.json" .cursor [] "parler" (.text accurateText) =
        (.ok true, .text (documentText shortFormat (wiredMap printedDouble).toValue)) ∧
      readJson demoFromStr "mcp.json" (.text (documentText shortFormat (wiredMap printedDouble).toValue)) =
        .ok (wiredMap readBackDouble).toValue ∧
      (writeJson shortFormat demoFromStr "mcp.json" .cursor [] "parler"
        (.text (documentText shortFormat (wiredMap printedDouble).toValue))).2 ≠
          .text (documentText shortFormat (wiredMap printedDouble).toValue) ∧
      Untouched .cursor [.key "x"] ∧
      (doubleMap printedDouble).toValue.valueAt [.key "x"] = some (.float printedDouble) ∧
      (wiredMap readBackDouble).toValue.valueAt [.key "x"] = some (.float readBackDouble) ∧
      printedDouble ≠ readBackDouble := by
  have accurate : readJson demoFromStr "mcp.json" (.text accurateText) = .ok (doubleMap printedDouble).toValue := by
    have parsed : demoFromStr accurateText = some (doubleMap printedDouble).toValue := if_pos rfl
    unfold readJson
    dsimp only
    rw [if_neg (by decide +kernel), parsed]
  have back : readJson demoFromStr "mcp.json" (.text (documentText shortFormat (wiredMap printedDouble).toValue)) =
      .ok (wiredMap readBackDouble).toValue := by
    have readable : (wiredMap printedDouble).toValue.Readable :=
      (server_edits .cursor [] "parler" "mcp.json").readable (wired printedDouble) (doubleMap_readable printedDouble)
    rw [readJson_document demo_reads rfl readable, wired_reread]
  have first : writeJson shortFormat demoFromStr "mcp.json" .cursor [] "parler" (.text accurateText) =
      (.ok true, .text (documentText shortFormat (wiredMap printedDouble).toValue)) :=
    installAt_ok ((currentJson_text _).trans accurate) (wired printedDouble)
  have second : writeJson shortFormat demoFromStr "mcp.json" .cursor [] "parler"
      (.text (documentText shortFormat (wiredMap printedDouble).toValue)) =
      (.ok true, .text (documentText shortFormat (wiredMap readBackDouble).toValue)) :=
    installAt_ok ((currentJson_text _).trans back) ((server_edits _ _ _ _).again (wired readBackDouble))
  refine ⟨demo_reads, accurate, first, back, ?_, ?_, rfl, by decide +kernel, by decide⟩
  · intro same
    rw [second] at same
    have documents := documentText_injective (ConfigFile.text.inj same)
    exact absurd documents (by decide +kernel)
  · refine ⟨?_, fun is_opencode => absurd is_opencode (by decide)⟩
    rw [entryPath, diverge_cons]
    exact Or.inl (by decide)

end Demo

end Parler.Cli
