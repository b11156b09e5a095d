import Parler.Cli.WakeHooks
import Parler.Hub.Handshake
import Parler.Lib.Writers

/-!
# Rewriting a config

The calls of `crates/parler-cli/src/connect.rs` that rewrite the settings of Claude or the rules of Codex, down to
their system calls: `write_config` cuts the file and writes it, `write_secure` writes beside it and renames, and
which of the two a call takes depends on whether it has a join secret.
-/

namespace Parler.Cli

open Parler.Lib Parler.Protocol Parler.Hub

/-! ## The rules of Codex -/

/-- `CODEX_RULES_MARKER` -/
def codexRulesMarker : String :=
  "# Managed by `parler connect`; remove with `parler connect codex --remove`."

/-- The text that `install_codex_rules_at` writes. -/
def codexRulesText (binpath : String) : String :=
  let commands := if binpath = "parler" then ["parler"] else ["parler", binpath]
  codexRulesMarker ++ ("\n" ++ String.join (commands.map (fun command =>
    "prefix_rule(pattern=[" ++ String.ofList (quoted command) ++
      "], decision=\"allow\", justification=\"Parler-only command trusted by parler connect\")\n")))

def isManaged (current : String) : Bool := codexRulesMarker.toList <+: current.toList

/-- `install_codex_rules_at` up to its write. -/
def withCodexRules (path binpath : String) : ConfigFile → Except String (Option String)
  | .absent => .ok (some (codexRulesText binpath))
  | .unreadable => .error ("reading " ++ path)
  | .text current =>
      if isManaged current then .ok (some (codexRulesText binpath))
      else .error (path ++ " already exists and is not managed by Parler — move it aside and re-run")

/-! ## Calls -/

inductive ConfigCall where
  | installClaudePermissions
  | removeClaudePermissions
  | installStopHook (env : List (String × String)) (binpath : String)
  | removeStopHook
  | installCodexRules (binpath : String)

namespace ConfigCall

/-- Whether the text is written by `write_secure`. -/
def hasSecret : ConfigCall → Bool
  | .installStopHook env _ => env.any (fun kv => kv.1 = "PARLER_JOIN_SECRET")
  | _ => false

section Texts

variable (F : FloatFormat) (fromStr : String → Option Value) (path : String)

/-- The text of the document with something put into it. -/
def textAfter (install : Value → Except String Value) (file : ConfigFile) : Except String (Option String) :=
  ((currentJson fromStr path file).bind install).map (fun root => some (documentText F root))

/-- The text of the document with something taken out of it, if there was something. -/
def textWithout (remove : Value → Option Value) (file : ConfigFile) : Except String (Option String) :=
  if file.found then (readJson fromStr path file).map (fun root => (remove root).map (documentText F))
  else .ok none

/-- The file after its text is written. -/
def commitText (text : Except String (Option String)) (file : ConfigFile) : Except String Bool × ConfigFile :=
  match text with
  | .error e => (.error e, file)
  | .ok none => (.ok false, file)
  | .ok (some text) => (.ok true, .text text)

/-- The text that a call writes, if it writes. -/
def rewritten (file : ConfigFile) : ConfigCall → Except String (Option String)
  | .installClaudePermissions => textAfter F fromStr path (withPermissions path) file
  | .removeClaudePermissions => textWithout F fromStr path withoutPermissions file
  | .installStopHook env binpath => textAfter F fromStr path (withStopHook path env binpath) file
  | .removeStopHook => textWithout F fromStr path withoutStopHook file
  | .installCodexRules binpath => withCodexRules path binpath file

end Texts

end ConfigCall

/-! ## System calls -/

/-- What `read_to_string` makes of the bytes of a file. -/
def configFile : Option (Option (List UInt8)) → ConfigFile
  | some none => .absent
  | some (some bytes) =>
      match String.fromUTF8? ⟨bytes.toArray⟩ with
      | some text => .text text
      | none => .unreadable
  | none => .unreadable

/-- A file in a directory. -/
def fileIn (dir name : String) : String := dir ++ "/" ++ name

/-- The name that `write_private_file` gives to the new file first. -/
def tempFile (dir name : String) (pid stamp : Nat) : String :=
  fileIn dir ("." ++ name ++ ".tmp." ++ toString pid ++ "." ++ toString stamp)

namespace ConfigCall

variable (F : FloatFormat) (fromStr : String → Option Value) (dir name : String)

/-- A call in its system calls; `none` is an error. -/
def program (pid stamp : Nat) (call : ConfigCall) : FileProgram (Option Bool) :=
  .call (FileCall.read (fileIn dir name)) fun (content : Option (Option (List UInt8))) =>
    match call.rewritten F fromStr (fileIn dir name) (configFile content) with
    | .error _ => .ret none
    | .ok none => .ret (some false)
    | .ok (some text) =>
        (if call.hasSecret then writeBeside (tempFile dir name pid stamp) (fileIn dir name) (utf8 text)
          else writeInPlace (fileIn dir name) (utf8 text)).bind fun written =>
            .ret (if written then some true else none)

/-- Whatever call fails and wherever the process dies, the file has its old or its new content. -/
def RewritesWhole (files : String → Option (List UInt8)) (call : ConfigCall) : Prop :=
  ∀ pid stamp fates t, (call.program F fromStr dir name pid stamp).Stops ⟨files, fates⟩ t →
    t.files (fileIn dir name) = files (fileIn dir name) ∨
      ∃ text, call.rewritten F fromStr (fileIn dir name) (configFile (some (files (fileIn dir name)))) =
        .ok (some text) ∧ t.files (fileIn dir name) = some (utf8 text)

/-- The call cuts the file: it is one without a join secret that the content is right for. -/
def CutsFile (path : String) (file : ConfigFile) : ConfigCall → Prop
  | .installClaudePermissions => ∃ v, currentJson fromStr path file = .ok v ∧ Trustable v
  | .removeClaudePermissions =>
      ∃ v, currentJson fromStr path file = .ok v ∧ ∃ entry ∈ (allowEntries v).getD [], isParlerRule entry = true
  | .installStopHook env _ =>
      (∀ kv ∈ env, kv.1 ≠ "PARLER_JOIN_SECRET") ∧
        ∃ v, currentJson fromStr path file = .ok v ∧ Listable "hooks" "Stop" v
  | .removeStopHook =>
      ∃ v, currentJson fromStr path file = .ok v ∧ ∃ group ∈ stopGroups v, isParlerWakeGroup group = true
  | .installCodexRules _ => ∃ text, file = .text text ∧ isManaged text = true

variable {F fromStr dir name} {path : String} {file : ConfigFile} {call : ConfigCall}

/-! ## Texts -/

theorem installAt_eq (install : Value → Except String Value) :
    installAt F fromStr path install file = commitText (textAfter F fromStr path install file) file := by
  unfold installAt textAfter
  cases currentJson fromStr path file with
  | error e => rfl
  | ok root =>
    show commitEdit F ((install root).map some) file =
      commitText ((install root).map (fun root => some (documentText F root))) file
    cases install root <;> rfl

theorem removeAt_eq (remove : Value → Option Value) :
    removeAt F fromStr path remove file = commitText (textWithout F fromStr path remove file) file := by
  unfold removeAt textWithout
  split
  · cases readJson fromStr path file with
    | error e => rfl
    | ok root =>
      show commitEdit F (.ok (remove root)) file = commitText (.ok ((remove root).map (documentText F))) file
      cases remove root <;> rfl
  · rfl

theorem textAfter_some {install : Value → Except String Value} {text : String} :
    textAfter F fromStr path install file = .ok (some text) ↔
      ∃ v w, currentJson fromStr path file = .ok v ∧ install v = .ok w ∧ text = documentText F w := by
  unfold textAfter
  cases currentJson fromStr path file with
  | error e => simp [Except.bind, Except.map]
  | ok root =>
    cases merged : install root with
    | error e => simp [Except.bind, Except.map, merged]
    | ok w => simp [Except.bind, Except.map, merged, eq_comm]

theorem textWithout_some {remove : Value → Option Value} {text : String} (found : file.found = true) :
    textWithout F fromStr path remove file = .ok (some text) ↔
      ∃ v w, currentJson fromStr path file = .ok v ∧ remove v = some w ∧ text = documentText F w := by
  unfold textWithout currentJson
  rw [if_pos found, if_pos found]
  cases readJson fromStr path file with
  | error e => simp [Except.map]
  | ok root =>
    cases removed : remove root with
    | none => simp [Except.map, removed]
    | some w => simp [Except.map, removed, eq_comm]

theorem utf8_append (s t : String) : utf8 (s ++ t) = utf8 s ++ utf8 t := by
  simp [utf8]

/-- A text of two parts has two bytes. -/
theorem two_le_utf8 {s t : String} (first : s ≠ "") (second : t ≠ "") : 2 ≤ (utf8 (s ++ t)).length := by
  have some_byte : ∀ {u : String}, u ≠ "" → 1 ≤ (utf8 u).length := by
    intro u nonempty
    have size : (utf8 u).length = u.utf8ByteSize := rfl
    rw [size]
    exact Nat.one_le_iff_ne_zero.mpr (fun zero => nonempty (String.utf8ByteSize_eq_zero_iff.mp zero))
  have front := some_byte first
  have back := some_byte second
  rw [utf8_append, List.length_append]
  omega

theorem two_le_document {w : Value} (object : w.asObject.isSome) : 2 ≤ (utf8 (documentText F w)).length := by
  obtain ⟨m, whole⟩ := Option.isSome_iff_exists.mp object
  rw [Value.asObject_eq_some.mp whole]
  refine two_le_utf8 ?_ (by decide)
  intro empty
  have chars := congrArg String.toList empty
  rw [String.toList_ofList] at chars
  cases chars

theorem two_le_rules (binpath : String) : 2 ≤ (utf8 (codexRulesText binpath)).length := by
  refine two_le_utf8 (by decide +kernel) ?_
  intro empty
  have chars := congrArg String.toList empty
  rw [String.toList_append] at chars
  cases chars

/-- Every text that a call writes has two bytes. -/
theorem two_le_rewritten {text : String} (found : file.found = true)
    (writes : call.rewritten F fromStr path file = .ok (some text)) : 2 ≤ (utf8 text).length := by
  cases call with
  | installClaudePermissions =>
    obtain ⟨v, w, -, merged, rfl⟩ := textAfter_some.mp writes
    exact two_le_document ((rule_edits path).object merged)
  | removeClaudePermissions =>
    obtain ⟨v, w, -, removed, rfl⟩ := (textWithout_some found).mp writes
    exact two_le_document (withoutPermissions_trims removed).2.1
  | installStopHook env binpath =>
    obtain ⟨v, w, -, installed, rfl⟩ := textAfter_some.mp writes
    obtain ⟨obj, groups, rfl, edited⟩ := editList_ok installed
    obtain ⟨obj', holder, rfl, -⟩ := edited.object
    exact two_le_document rfl
  | removeStopHook =>
    obtain ⟨v, w, -, removed, rfl⟩ := (textWithout_some found).mp writes
    exact two_le_document (trimList_trims removed).2.1
  | installCodexRules binpath =>
    have own : text = codexRulesText binpath := by
      have writes : withCodexRules path binpath file = .ok (some text) := writes
      unfold withCodexRules at writes
      split at writes
      · cases writes
        rfl
      · cases writes
      · split at writes
        · cases writes
          rfl
        · cases writes
    rw [own]
    exact two_le_rules binpath

/-- A call cuts the file exactly if it writes without a join secret. -/
theorem cutsFile_iff (found : file.found = true) : call.CutsFile fromStr path file ↔
    call.hasSecret = false ∧ ∃ text, call.rewritten F fromStr path file = .ok (some text) := by
  have installs : ∀ {install : Value → Except String Value},
      (∃ text, textAfter F fromStr path install file = .ok (some text)) ↔
        ∃ v, currentJson fromStr path file = .ok v ∧ ∃ w, install v = .ok w := by
    intro install
    simp only [textAfter_some]
    constructor
    · rintro ⟨-, v, w, read_as, merged, -⟩
      exact ⟨v, read_as, w, merged⟩
    · rintro ⟨v, read_as, w, merged⟩
      exact ⟨_, v, w, read_as, merged, rfl⟩
  have removals : ∀ {remove : Value → Option Value},
      (∃ text, textWithout F fromStr path remove file = .ok (some text)) ↔
        ∃ v, currentJson fromStr path file = .ok v ∧ remove v ≠ none := by
    intro remove
    simp only [textWithout_some found, Option.ne_none_iff_exists']
    constructor
    · rintro ⟨-, v, w, read_as, removed, -⟩
      exact ⟨v, read_as, w, removed⟩
    · rintro ⟨v, read_as, w, removed⟩
      exact ⟨_, v, w, read_as, removed, rfl⟩
  cases call with
  | installClaudePermissions =>
    show (∃ v, _ ∧ Trustable v) ↔ false = false ∧ ∃ text, textAfter F fromStr path (withPermissions path) file = _
    rw [installs, eq_self, true_and]
    exact exists_congr (fun v => and_congr_right (fun _ => trustable_iff))
  | removeClaudePermissions =>
    show (∃ v, _ ∧ ∃ entry ∈ _, _) ↔
      false = false ∧ ∃ text, textWithout F fromStr path withoutPermissions file = _
    rw [removals, eq_self, true_and]
    refine exists_congr (fun v => and_congr_right (fun _ => ?_))
    have none_iff : withoutPermissions v = none ↔ ∀ entry ∈ (allowEntries v).getD [], (!isParlerRule entry) = true :=
      trimList_none_iff
    rw [Ne, none_iff]
    simp
  | installStopHook env binpath =>
    show (_ ∧ ∃ v, _ ∧ Listable "hooks" "Stop" v) ↔
      env.any (fun kv => kv.1 = "PARLER_JOIN_SECRET") = false ∧
        ∃ text, textAfter F fromStr path (withStopHook path env binpath) file = _
    rw [installs]
    refine and_congr (by simp) (exists_congr (fun v => and_congr_right (fun _ => listable_iff)))
  | removeStopHook =>
    show (∃ v, _ ∧ ∃ group ∈ _, _) ↔ false = false ∧ ∃ text, textWithout F fromStr path withoutStopHook file = _
    rw [removals, eq_self, true_and]
    refine exists_congr (fun v => and_congr_right (fun _ => ?_))
    have none_iff : withoutStopHook v = none ↔ ∀ group ∈ stopGroups v, (!isParlerWakeGroup group) = true :=
      trimList_none_iff
    rw [Ne, none_iff]
    simp
  | installCodexRules binpath =>
    show (∃ text, file = .text text ∧ _) ↔ false = false ∧ ∃ text, withCodexRules path binpath file = .ok (some text)
    cases file with
    | absent => cases found
    | unreadable => simp [withCodexRules]
    | text current =>
      by_cases managed : isManaged current = true <;> simp [withCodexRules, managed]

/-- A file that cannot be read is not written. -/
theorem rewritten_unreadable {text : String} : call.rewritten F fromStr path .unreadable ≠ .ok (some text) := by
  cases call <;> exact nofun

/-! ## Stops -/

theorem fileIn_ne_tempFile (dir name : String) (pid stamp : Nat) : fileIn dir name ≠ tempFile dir name pid stamp := by
  intro same
  have sizes := congrArg String.length same
  simp only [fileIn, tempFile, String.length_append] at sizes
  have dot : ".".length = 1 := rfl
  omega

/-- Where a call may be stopped: before it writes, or within its write. -/
theorem stops_program {pid stamp : Nat} {files : String → Option (List UInt8)} {fates : List Fate} {t : Drive}
    (stops : (call.program F fromStr dir name pid stamp).Stops ⟨files, fates⟩ t) :
    t.files (fileIn dir name) = files (fileIn dir name) ∨
      ∃ text d, call.rewritten F fromStr (fileIn dir name) (configFile (some (files (fileIn dir name)))) =
        .ok (some text) ∧ d.files = files ∧
        (if call.hasSecret then writeBeside (tempFile dir name pid stamp) (fileIn dir name) (utf8 text)
          else writeInPlace (fileIn dir name) (utf8 text)).Stops d t := by
  rcases Prog.stops_call.mp stops with rfl | later
  · exact Or.inl rfl
  have same : ((FileCall.read (fileIn dir name)).exec ⟨files, fates⟩).2.files = files := exec_read _ _
  have stopped : ∀ {value : Option Bool},
      (Prog.ret value : FileProgram (Option Bool)).Stops ((FileCall.read (fileIn dir name)).exec ⟨files, fates⟩).2 t →
      t.files (fileIn dir name) = files (fileIn dir name) := by
    intro value stops
    obtain rfl := Prog.stops_ret.mp stops
    rw [same]
  have content : ((FileCall.read (fileIn dir name)).exec ⟨files, fates⟩).1 = none ∨
      ((FileCall.read (fileIn dir name)).exec ⟨files, fates⟩).1 = some (files (fileIn dir name)) := by
    rcases exec_cases (.read (fileIn dir name)) ⟨files, fates⟩ with ⟨failed, -⟩ | ⟨atMost, done, -⟩
    · exact Or.inl failed
    · exact Or.inr done
  split at later
  · exact Or.inl (stopped later)
  · exact Or.inl (stopped later)
  · rename_i text writes
    have read_whole : ((FileCall.read (fileIn dir name)).exec ⟨files, fates⟩).1 = some (files (fileIn dir name)) := by
      refine content.resolve_left ?_
      intro failed
      rw [failed] at writes
      exact rewritten_unreadable writes
    rw [read_whole] at writes
    rcases Prog.stops_bind.mp later with writing | after
    · exact Or.inr ⟨text, _, writes, same, writing⟩
    · obtain rfl := Prog.stops_ret.mp after
      exact Or.inr ⟨text, _, writes, same, Prog.stops_end _ _⟩

/-- A call that writes with its secret, or that does not write, leaves the file whole. -/
theorem rewritesWhole_of {files : String → Option (List UInt8)}
    (kept : ∀ text, call.rewritten F fromStr (fileIn dir name)
      (configFile (some (files (fileIn dir name)))) = .ok (some text) → call.hasSecret = true) :
    call.RewritesWhole F fromStr dir name files := by
  intro pid stamp fates t stops
  rcases stops_program stops with same | ⟨text, d, writes, before, writing⟩
  · exact Or.inl same
  · rw [if_pos (kept text writes)] at writing
    rcases stops_writeBeside (fileIn_ne_tempFile dir name pid stamp) writing with old | new
    · exact Or.inl (old.trans (congrFun before _))
    · exact Or.inr ⟨text, writes, new⟩

/-- Where the write of a call that cuts the file is stopped, the call is. -/
theorem stops_cutting {pid stamp : Nat} {files : String → Option (List UInt8)} {fates : List Fate} {t : Drive}
    {text : String} (plain : call.hasSecret = false)
    (writes : call.rewritten F fromStr (fileIn dir name) (configFile (some (files (fileIn dir name)))) =
      .ok (some text))
    (stops : (writeInPlace (fileIn dir name) (utf8 text)).Stops ⟨files, fates⟩ t) :
    (call.program F fromStr dir name pid stamp).Stops ⟨files, .whole :: fates⟩ t := by
  refine .next ?_
  show Prog.Stops (match call.rewritten F fromStr (fileIn dir name)
    (configFile (some (files (fileIn dir name)))) with
      | .error _ => .ret none
      | .ok none => .ret (some false)
      | .ok (some text) => _) ⟨files, fates⟩ t
  rw [writes]
  dsimp only
  rw [plain]
  exact Prog.stops_bind.mpr (Or.inl stops)

/-- A call that cuts the file can leave it empty, or with its first byte alone. -/
theorem not_rewritesWhole {files : String → Option (List UInt8)} {text : String} (plain : call.hasSecret = false)
    (writes : call.rewritten F fromStr (fileIn dir name) (configFile (some (files (fileIn dir name)))) =
      .ok (some text)) (long : 2 ≤ (utf8 text).length) : ¬ call.RewritesWhole F fromStr dir name files := by
  intro whole
  have left : ∀ k ≤ (utf8 text).length, some ((utf8 text).take k) = files (fileIn dir name) ∨
      (utf8 text).take k = utf8 text := by
    intro k short
    obtain ⟨fates, t, stops, content⟩ := writeInPlace_stops_at files (fileIn dir name) short
    rcases whole 0 0 _ t (stops_cutting plain writes stops) with old | ⟨text', writes', new⟩
    · exact Or.inl (content.symm.trans old)
    · obtain rfl : text = text' := Option.some.inj (Except.ok.inj (writes.symm.trans writes'))
      exact Or.inr (Option.some.inj (content.symm.trans new))
  have first := left 0 (Nat.zero_le _)
  have second := left 1 (by omega)
  rcases first with old | new
  · rcases second with old' | new
    · have same := congrArg List.length (Option.some.inj (old.trans old'.symm))
      rw [List.length_take, List.length_take] at same
      omega
    · have size := congrArg List.length new
      rw [List.length_take] at size
      omega
  · have size := congrArg List.length new
    rw [List.length_take] at size
    omega

end ConfigCall

open ConfigCall in
/-- A call leaves every existing file with its old or its new content, wherever it is stopped, exactly if it does
    not cut the file. -/
theorem config_rewrites_whole_iff (F : FloatFormat) (fromStr : String → Option Value) (dir name : String)
    (files : String → Option (List UInt8)) (call : ConfigCall) (existing : (files (fileIn dir name)).isSome) :
    call.RewritesWhole F fromStr dir name files ↔
      ¬ call.CutsFile fromStr (fileIn dir name) (configFile (some (files (fileIn dir name)))) := by
  have found : (configFile (some (files (fileIn dir name)))).found = true := by
    obtain ⟨bytes, there⟩ := Option.isSome_iff_exists.mp existing
    rw [there]
    unfold configFile
    dsimp only
    split <;> rfl
  rw [cutsFile_iff (F := F) found]
  constructor
  · rintro whole ⟨plain, text, writes⟩
    exact not_rewritesWhole plain writes (two_le_rewritten found writes) whole
  · intro kept
    apply rewritesWhole_of
    intro text writes
    by_contra plain
    exact kept ⟨by simpa using plain, text, writes⟩

section Demo

/-- A directory with one file. -/
def holding (path text : String) : String → Option (List UInt8) :=
  fun p => if p = path then some (utf8 text) else none

theorem configFile_holding (path text : String) : configFile (some (holding path text path)) = .text text := by
  have decoded : String.fromUTF8? ⟨(utf8 text).toArray⟩ = some text := by
    unfold utf8 String.fromUTF8?
    rw [Array.toArray_toList]
    exact dif_pos text.isValidUTF8
  unfold holding configFile
  rw [if_pos rfl]
  dsimp only
  rw [decoded]

/-- The wake hook with a join secret is put into settings with a theme. -/
theorem secret_hook_whole :
    (ConfigCall.installStopHook [("PARLER_JOIN_SECRET", "s3cr3t")] "parler").RewritesWhole shortFormat demoFromStr
      "/home/u/.claude" "settings.json"
      (holding (fileIn "/home/u/.claude" "settings.json") (documentText shortFormat themeMap.toValue)) := by
  refine (config_rewrites_whole_iff shortFormat demoFromStr "/home/u/.claude" "settings.json" _ _ ?_).mpr ?_
  · unfold holding
    rw [if_pos rfl]
    rfl
  · rintro ⟨plain, -⟩
    exact plain ("PARLER_JOIN_SECRET", "s3cr3t") List.mem_cons_self rfl

theorem isManaged_codexRulesText (binpath : String) : isManaged (codexRulesText binpath) = true := by
  refine decide_eq_true ?_
  unfold codexRulesText
  rw [String.toList_append]
  exact List.prefix_append _ _

theorem rewritten_managed {F : FloatFormat} {fromStr : String → Option Value} {path binpath current : String}
    (managed : isManaged current = true) :
    (ConfigCall.installCodexRules binpath).rewritten F fromStr path (.text current) =
      .ok (some (codexRulesText binpath)) := if_pos managed

/-- The rules of an earlier install. -/
def managedRules : String → Option (List UInt8) :=
  holding (fileIn "/home/u/.codex/rules" "parler.rules") (codexRulesText "parler")

/-- A second install can leave no rules. -/
theorem rules_left_empty :
    (∃ fates t, ((ConfigCall.installCodexRules "parler").program shortFormat demoFromStr "/home/u/.codex/rules"
        "parler.rules" 7 7).Stops ⟨managedRules, fates⟩ t ∧
      t.files (fileIn "/home/u/.codex/rules" "parler.rules") = some []) ∧
    ¬ (ConfigCall.installCodexRules "parler").RewritesWhole shortFormat demoFromStr "/home/u/.codex/rules"
      "parler.rules" managedRules := by
  have writes : (ConfigCall.installCodexRules "parler").rewritten shortFormat demoFromStr
      (fileIn "/home/u/.codex/rules" "parler.rules")
      (configFile (some (managedRules (fileIn "/home/u/.codex/rules" "parler.rules")))) =
        .ok (some (codexRulesText "parler")) := by
    rw [managedRules, configFile_holding]
    exact rewritten_managed (isManaged_codexRulesText "parler")
  constructor
  · obtain ⟨fates, t, stops, content⟩ := writeInPlace_stops_at managedRules
      (fileIn "/home/u/.codex/rules" "parler.rules") (Nat.zero_le (utf8 (codexRulesText "parler")).length)
    exact ⟨_, t, ConfigCall.stops_cutting rfl writes stops, content⟩
  · exact ConfigCall.not_rewritesWhole rfl writes (ConfigCall.two_le_rules "parler")

end Demo

end Parler.Cli
