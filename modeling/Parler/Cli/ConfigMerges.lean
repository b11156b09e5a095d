import Parler.Lib.JsonPretty
import Parler.Protocol.Objects
import Parler.Cli.Texts

/-!
# Host configs

`write_json`, `remove_json`, `install_claude_permissions_at` and `remove_claude_permissions_at` of
`crates/parler-cli/src/connect.rs` edit the JSON configs of other programs: they put Parler's entries into them
or take them out, and write the whole document again.
-/

namespace Parler.Cli

open Parler.Lib Parler.Protocol

/-! ## Files -/

/-- A config file; `unreadable` exists, but has no text. -/
inductive ConfigFile where
  | absent
  | unreadable
  | text (content : String)
  deriving DecidableEq

def ConfigFile.found : ConfigFile → Bool
  | .absent => false
  | _ => true

section Files

variable (F : FloatFormat) (fromStr : String → Option Value) (path : String)

/-- `serde_json::to_string_pretty` with the line end that is written after it. -/
def documentText (root : Value) : String := String.ofList (pretty F 0 root.json) ++ "\n"

/-- `read_json` -/
def readJson : ConfigFile → Except String Value
  | .text txt =>
      if trim txt = "" then .ok Map.empty.toValue
      else
        match fromStr txt with
        | some root => .ok root
        | none => .error (path ++ " isn't valid JSON — fix or move it, then re-run (or use --print)")
  | _ => .error ("reading " ++ path)

/-- The document of a file, and an empty one where there is no file. -/
def currentJson (file : ConfigFile) : Except String Value :=
  if file.found then readJson fromStr path file else .ok Map.empty.toValue

/-- The end of every edit: the document is written, unless there is an error or nothing to write. -/
def commitEdit (edited : Except String (Option Value)) (file : ConfigFile) : Except String Bool × ConfigFile :=
  match edited with
  | .error e => (.error e, file)
  | .ok none => (.ok false, file)
  | .ok (some root) => (.ok true, .text (documentText F root))

end Files

/-! ## Hosts -/

inductive JsonShape where
  | standard
  | gemini
  | cline
  | openCode
  | vsCode
  deriving DecidableEq

/-- The hosts of `registry` with a JSON config. -/
inductive JsonHost where
  | cursor
  | windsurf
  | gemini
  | claudeDesktop
  | opencode
  | vscode
  | cline

/-- The key of the servers in the config of a host. -/
def JsonHost.key : JsonHost → String
  | .opencode => "mcp"
  | .vscode => "servers"
  | _ => "mcpServers"

def JsonHost.shape : JsonHost → JsonShape
  | .gemini => .gemini
  | .opencode => .openCode
  | .vscode => .vsCode
  | .cline => .cline
  | _ => .standard

/-- `SERVER_NAME` -/
def serverName : String := "parler"

/-- `tool_names` -/
def toolNames : List String :=
  ["parler_open_session", "parler_join_session", "parler_close_session", "parler_delete_room",
    "parler_join_requests", "parler_approve_join", "parler_deny_join", "parler_watch_session", "parler_bring",
    "parler_invite", "parler_join", "parler_serve", "parler_send", "parler_recv", "parler_handoff", "parler_task",
    "parler_remember", "parler_recall", "parler_push", "parler_send_file", "parler_fetch", "parler_apply",
    "parler_rooms", "parler_roster", "parler_presence", "parler_attention", "parler_register", "parler_discover",
    "parler_card"]

def trueValue : Value := ⟨.bool true, rfl⟩

/-- `server_entry` -/
def serverEntry (shape : JsonShape) (env : List (String × String)) (binpath : String) : Value :=
  let envVal := (Map.ofFields (env.map (fun kv => (kv.1, .str kv.2)))).toValue
  let args := Value.arr [.str "mcp"]
  (match shape with
    | .standard => Map.ofFields [("command", .str binpath), ("args", args), ("env", envVal)]
    | .gemini => Map.ofFields [("command", .str binpath), ("args", args), ("env", envVal), ("trust", trueValue)]
    | .cline =>
        Map.ofFields [("command", .str binpath), ("args", args), ("env", envVal),
          ("autoApprove", .arr (toolNames.map .str))]
    | .openCode =>
        Map.ofFields [("type", .str "local"), ("command", .arr [.str binpath, .str "mcp"]), ("enabled", trueValue),
          ("environment", envVal)]
    | .vsCode =>
        Map.ofFields [("type", .str "stdio"), ("command", .str binpath), ("args", args), ("env", envVal)]).toValue

/-! ## A server entry -/

/-- The policies that a `permission` value stands for; `none` is an invalid one. -/
def policies : Option Value → Option Map
  | none => some Map.empty
  | some v =>
      match v.asObject with
      | some map => some map
      | none =>
          match asStr v.json with
          | some action =>
              if action ∈ ["allow", "ask", "deny"] then some (Map.empty.insert "*" (.str action)) else none
          | none => none

/-- `install_json_trust` -/
def installJsonTrust (shape : JsonShape) (path : String) (root : Map) : Except String Map :=
  if shape ≠ .openCode then .ok root
  else
    let previous := root.lookup "permission"
    let root := root.remove "permission"
    match policies previous with
    | none => .error (path ++ " has an invalid OpenCode \"permission\" value — fix it and re-run")
    | some permissions =>
        .ok (root.insert "permission" (permissions.insert "parler_*" (.str "allow")).toValue)

/-- The document of `write_json`. -/
def withServer (host : JsonHost) (env : List (String × String)) (binpath path : String) (root : Value) :
    Except String Value :=
  match root.asObject with
  | none => .error (path ++ " is not a JSON object — move it aside and re-run")
  | some obj =>
      match ((obj.lookup host.key).getD Map.empty.toValue).asObject with
      | none => .error (path ++ " has a non-object \"" ++ host.key ++ "\" — fix it and re-run")
      | some servers =>
          let servers := servers.insert serverName (serverEntry host.shape env binpath)
          (installJsonTrust host.shape path (obj.insert host.key servers.toValue)).map Map.toValue

/-- The object under a key of an object. -/
def objectAt (root : Value) (key : String) : Option Map :=
  (root.asObject.bind (fun obj => obj.lookup key)).bind Value.asObject

/-- A change of the object under a key, where there is one. -/
def modifyObject (root : Value) (key : String) (f : Map → Map) : Value :=
  match root.asObject, objectAt root key with
  | some obj, some inner => (obj.insert key (f inner).toValue).toValue
  | _, _ => root

/-- `obj.remove(key)`, where the value is an object. -/
def dropKey (root : Value) (key : String) : Value :=
  match root.asObject with
  | some obj => (obj.remove key).toValue
  | none => root

def holds (object : Option Map) (key : String) : Bool := object.any (fun m => (m.lookup key).isSome)

/-- The document of `remove_json`, if there was an entry to remove. -/
def withoutServer (host : JsonHost) (root : Value) : Option Value :=
  let serverRemoved := holds (objectAt root host.key) serverName
  let root := modifyObject root host.key (fun servers => servers.remove serverName)
  if host.shape = .openCode then
    let trustRemoved := holds (objectAt root "permission") "parler_*"
    let root := modifyObject root "permission" (fun permissions => permissions.remove "parler_*")
    let root := if objectAt root "permission" = some Map.empty then dropKey root "permission" else root
    if serverRemoved || trustRemoved then some root else none
  else if serverRemoved then some root else none

/-! ## Arrays under two keys -/

/-- The items of `outer.inner`. -/
def listAt (root : Value) (outer inner : String) : Option (List Value) :=
  ((objectAt root outer).bind (fun holder => holder.lookup inner)).bind Value.asArray

/-- The array is edited, an empty one where there is none. -/
def editList (path outer inner : String) (edit : List Value → List Value) (root : Value) : Except String Value :=
  match root.asObject with
  | none => .error (path ++ " is not a JSON object — move it aside and re-run")
  | some obj =>
      match ((obj.lookup outer).getD Map.empty.toValue).asObject with
      | none => .error (path ++ " has a non-object \"" ++ outer ++ "\" — fix it and re-run")
      | some holder =>
          match ((holder.lookup inner).getD (.arr [])).asArray with
          | none => .error (path ++ " has a non-array \"" ++ outer ++ "." ++ inner ++ "\" — fix it and re-run")
          | some items => .ok (obj.insert outer (holder.insert inner (.arr (edit items))).toValue).toValue

/-- The document without the other items, if there were any. -/
def trimList (outer inner : String) (keep : Value → Bool) (root : Value) : Option Value :=
  match listAt root outer inner with
  | none => none
  | some items =>
      let kept := items.filter keep
      if kept.length = items.length then none
      else
        let root := modifyObject root outer (fun holder => holder.insert inner (.arr kept))
        let root := if kept.isEmpty then modifyObject root outer (fun holder => holder.remove inner) else root
        some (if objectAt root outer = some Map.empty then dropKey root outer else root)

/-! ## Claude's permissions -/

/-- `CLAUDE_PARLER_PERMISSIONS` -/
def claudeParlerPermissions : List String := ["mcp__parler__*", "Bash(parler *)"]

def isRule (rule : String) (entry : Value) : Bool := asStr entry.json = some rule

/-- The rules that are not among the entries are pushed. -/
def pushRules (allow : List Value) : List Value :=
  claudeParlerPermissions.foldl
    (fun allow rule => if allow.any (isRule rule) then allow else allow ++ [.str rule]) allow

/-- The document of `install_claude_permissions_at`. -/
def withPermissions (path : String) : Value → Except String Value := editList path "permissions" "allow" pushRules

def isParlerRule (entry : Value) : Bool := claudeParlerPermissions.any (fun rule => isRule rule entry)

/-- The entries of `permissions.allow`. -/
def allowEntries (root : Value) : Option (List Value) := listAt root "permissions" "allow"

/-- The document of `remove_claude_permissions_at`, if there was a rule to remove. -/
def withoutPermissions : Value → Option Value :=
  trimList "permissions" "allow" (fun entry => !isParlerRule entry)

/-! ## Calls -/

section Calls

variable (F : FloatFormat) (fromStr : String → Option Value) (path : String)

/-- Read the document, or an empty one where there is no file, put something into it, and write it. -/
def installAt (install : Value → Except String Value) (file : ConfigFile) : Except String Bool × ConfigFile :=
  commitEdit F ((currentJson fromStr path file).bind (fun root => (install root).map some)) file

/-- Read the document of a file, and write it if something was taken out of it. -/
def removeAt (remove : Value → Option Value) (file : ConfigFile) : Except String Bool × ConfigFile :=
  if file.found then commitEdit F ((readJson fromStr path file).map remove) file else (.ok false, file)

/-- `write_json` -/
def writeJson (host : JsonHost) (env : List (String × String)) (binpath : String) :
    ConfigFile → Except String Bool × ConfigFile :=
  installAt F fromStr path (withServer host env binpath path)

/-- `remove_json` -/
def removeJson (host : JsonHost) : ConfigFile → Except String Bool × ConfigFile :=
  removeAt F fromStr path (withoutServer host)

def installClaudePermissionsAt : ConfigFile → Except String Bool × ConfigFile :=
  installAt F fromStr path (withPermissions path)

def removeClaudePermissionsAt : ConfigFile → Except String Bool × ConfigFile :=
  removeAt F fromStr path withoutPermissions

end Calls

/-! ## What an edit leaves -/

def entryPath (host : JsonHost) : JsonPath := [.key host.key, .key serverName]

def rulePath : JsonPath := [.key "permission", .key "parler_*"]

/-- The paths that lead neither to the server's entry nor to the rule beside it. -/
def Untouched (host : JsonHost) (p : JsonPath) : Prop :=
  Diverge (entryPath host) p ∧ (host.shape = .openCode → Diverge rulePath p)

/-- The object with a single policy of OpenCode written as that of `*`. -/
def expandMap (shape : JsonShape) (obj : Map) : Map :=
  if shape = .openCode then
    match (obj.lookup "permission").bind (fun v => asStr v.json) with
    | some action => obj.insert "permission" (Map.empty.insert "*" (.str action)).toValue
    | none => obj
  else obj

def expandPolicy (shape : JsonShape) (root : Value) : Value :=
  match root.asObject with
  | some obj => (expandMap shape obj).toValue
  | none => root

/-- The documents that an object becomes with an entry of the server. -/
inductive Served (host : JsonHost) (entry : Value) (obj : Map) : Value → Prop
  | plain {servers : Map} (other : host.shape ≠ .openCode)
      (there : (obj.lookup host.key).getD Map.empty.toValue = servers.toValue) :
      Served host entry obj (obj.insert host.key (servers.insert serverName entry).toValue).toValue
  | trusted {servers permissions : Map} (is_opencode : host.shape = .openCode)
      (there : (obj.lookup host.key).getD Map.empty.toValue = servers.toValue)
      (policy : (obj.lookup "permission").getD Map.empty.toValue = permissions.toValue) :
      Served host entry obj
        ((obj.insert host.key (servers.insert serverName entry).toValue).insert "permission"
          (permissions.insert "parler_*" (.str "allow")).toValue).toValue

theorem key_ne_permission (host : JsonHost) : host.key ≠ "permission" := by
  cases host <;> decide

theorem expandMap_lookup {shape : JsonShape} {obj : Map} {key : String} (other : key ≠ "permission") :
    (expandMap shape obj).lookup key = obj.lookup key := by
  unfold expandMap
  split
  · split
    · rw [Map.lookup_insert, if_neg (Ne.symm other)]
    · rfl
  · rfl

/-- The policies that are there after the expansion are those that the value stood for. -/
theorem expandMap_policies {obj permissions : Map} (valid : policies (obj.lookup "permission") = some permissions) :
    ((expandMap .openCode obj).lookup "permission").getD Map.empty.toValue = permissions.toValue := by
  unfold expandMap
  rw [if_pos rfl]
  cases found : obj.lookup "permission" with
  | none =>
    rw [found] at valid
    cases valid
    rw [Option.bind_none]
    dsimp only
    rw [found]
    rfl
  | some v =>
    rw [found] at valid
    unfold policies at valid
    dsimp only at valid
    cases object : v.asObject with
    | some map =>
      rw [object] at valid
      cases valid
      rw [Value.asObject_eq_some.mp object, Option.bind_some]
      show (obj.lookup "permission").getD Map.empty.toValue = _
      rw [found, Value.asObject_eq_some.mp object]
      rfl
    | none =>
      rw [object] at valid
      dsimp only at valid
      rw [Option.bind_some]
      cases text : asStr v.json with
      | none =>
        rw [text] at valid
        cases valid
      | some action =>
        rw [text] at valid
        dsimp only at valid ⊢
        split at valid
        · cases valid
          rw [Map.lookup_insert, if_pos rfl]
          rfl
        · cases valid

/-- A merge puts the entry into the document, and into nothing but an object. -/
theorem withServer_ok {host : JsonHost} {env : List (String × String)} {binpath path : String} {root w : Value}
    (merged : withServer host env binpath path root = .ok w) :
    ∃ obj, root = obj.toValue ∧
      Served host (serverEntry host.shape env binpath) (expandMap host.shape obj) w := by
  unfold withServer at merged
  cases object : root.asObject with
  | none =>
    rw [object] at merged
    cases merged
  | some obj =>
    rw [object] at merged
    dsimp only at merged
    refine ⟨obj, Value.asObject_eq_some.mp object, ?_⟩
    cases inner : ((obj.lookup host.key).getD Map.empty.toValue).asObject with
    | none =>
      rw [inner] at merged
      cases merged
    | some servers =>
      rw [inner] at merged
      dsimp only at merged
      have there : ((expandMap host.shape obj).lookup host.key).getD Map.empty.toValue = servers.toValue := by
        rw [expandMap_lookup (key_ne_permission host)]
        exact Value.asObject_eq_some.mp inner
      unfold installJsonTrust at merged
      by_cases shape : host.shape = .openCode
      · rw [if_neg (not_not_intro shape)] at merged
        dsimp only at merged
        rw [Map.lookup_insert, if_neg (key_ne_permission host)] at merged
        cases valid : policies (obj.lookup "permission") with
        | none =>
          rw [valid] at merged
          cases merged
        | some permissions =>
          rw [valid] at merged
          cases merged
          rw [shape] at there ⊢
          have same : ∀ entry trust : Value,
              ((obj.insert host.key entry).remove "permission").insert "permission" trust =
                ((expandMap .openCode obj).insert host.key entry).insert "permission" trust := by
            intro entry trust
            apply Map.ext_lookup
            intro key
            rw [Map.insert_remove, Map.lookup_insert, Map.lookup_insert, Map.lookup_insert, Map.lookup_insert]
            by_cases permission : "permission" = key
            · rw [if_pos permission, if_pos permission]
            · rw [if_neg permission, if_neg permission, expandMap_lookup (Ne.symm permission)]
          rw [same]
          exact .trusted shape there (expandMap_policies valid)
      · rw [if_pos shape] at merged
        have same : expandMap host.shape obj = obj := by
          unfold expandMap
          rw [if_neg shape]
        cases merged
        rw [same] at there ⊢
        exact .plain shape there

/-! ## The entry -/

theorem serverEntry_numbers (shape : JsonShape) (env : List (String × String)) (binpath : String) :
    (serverEntry shape env binpath).numbers = ∅ := by
  have texts : ∀ items : List String, (Value.arr (items.map .str)).numbers = ∅ := by
    intro items
    refine Set.eq_empty_of_forall_notMem ?_
    intro n member
    obtain ⟨v, listed, inside⟩ := Value.numbers_arr.mp member
    obtain ⟨text, -, rfl⟩ := List.mem_map.mp listed
    simp at inside
  have flag : trueValue.numbers = ∅ := by
    apply Value.numbers_eq_empty
    · intro step
      cases step <;> rfl
    · intro n
      cases n <;> exact Json.noConfusion
  have vars : (Map.ofFields (env.map (fun kv => (kv.1, Value.str kv.2)))).toValue.numbers = ∅ := by
    apply Value.numbers_ofFields
    intro f member
    obtain ⟨kv, -, rfl⟩ := List.mem_map.mp member
    simp
  have args := texts ["mcp"]
  have command := texts [binpath, "mcp"]
  have names := texts toolNames
  rw [List.map_cons, List.map_nil] at args
  rw [List.map_cons, List.map_cons, List.map_nil] at command
  unfold serverEntry
  cases shape <;>
    exact Value.numbers_ofFields (by simp [vars, args, command, names, flag])

theorem serverEntry_depth (shape : JsonShape) (env : List (String × String)) (binpath : String) :
    (serverEntry shape env binpath).depth ≤ 2 := by
  have texts : ∀ items : List String, (Value.arr (items.map .str)).depth ≤ 0 + 1 := by
    intro items
    refine Value.depth_arr.mpr ?_
    intro v listed
    obtain ⟨text, -, rfl⟩ := List.mem_map.mp listed
    exact Nat.le_refl 0
  have text : ∀ s : String, (Value.str s).depth ≤ 1 := fun _ => Nat.zero_le 1
  have flag : trueValue.depth ≤ 1 := Nat.zero_le 1
  have vars : (Map.ofFields (env.map (fun kv => (kv.1, Value.str kv.2)))).toValue.depth ≤ 0 + 1 := by
    apply Value.depth_ofFields
    intro f member
    obtain ⟨kv, -, rfl⟩ := List.mem_map.mp member
    exact Nat.le_refl 0
  have args := texts ["mcp"]
  have command := texts [binpath, "mcp"]
  have names := texts toolNames
  rw [List.map_cons, List.map_nil] at args
  rw [List.map_cons, List.map_cons, List.map_nil] at command
  unfold serverEntry
  cases shape <;>
    exact Value.depth_ofFields (n := 1) (by simp [vars, args, command, names, flag, text])

/-! ## What a merge leaves -/

namespace Served

variable {host : JsonHost} {entry w : Value} {obj : Map}

/-- Besides the entry and the rule, every path ends where it did. -/
theorem frame (served : Served host entry obj w) {p : JsonPath} (untouched : Untouched host p) :
    w.valueAt p = obj.toValue.valueAt p := by
  have entered : ∀ {servers : Map}, (obj.lookup host.key).getD Map.empty.toValue = servers.toValue →
      (obj.insert host.key (servers.insert serverName entry).toValue).toValue.valueAt p =
        obj.toValue.valueAt p := by
    intro servers there
    refine Map.valueAt_insert there ?_ untouched.1
    intro rest parted
    exact Map.valueAt_insert rfl (fun _ parted => absurd parted (not_diverge_nil _)) parted
  cases served with
  | plain other there => exact entered there
  | @trusted servers permissions is_opencode there policy =>
    have policy' : ((obj.insert host.key (servers.insert serverName entry).toValue).lookup "permission").getD
        Map.empty.toValue = permissions.toValue := by
      rw [Map.lookup_insert, if_neg (key_ne_permission host)]
      exact policy
    refine (Map.valueAt_insert policy' ?_ (untouched.2 is_opencode)).trans (entered there)
    intro rest parted
    exact Map.valueAt_insert rfl (fun _ parted => absurd parted (not_diverge_nil _)) parted

/-- The object of the document. -/
theorem object (served : Served host entry obj w) : ∃ obj' servers : Map, w = obj'.toValue ∧
    obj'.lookup host.key = some servers.toValue ∧ servers.lookup serverName = some entry ∧
    (host.shape = .openCode → ∃ permissions : Map, obj'.lookup "permission" = some permissions.toValue ∧
      permissions.lookup "parler_*" = some (.str "allow")) := by
  cases served with
  | @plain servers other there =>
    refine ⟨_, servers.insert serverName entry, rfl, ?_, ?_, fun is_opencode => absurd is_opencode other⟩
    · rw [Map.lookup_insert, if_pos rfl]
    · rw [Map.lookup_insert, if_pos rfl]
  | @trusted servers permissions is_opencode there policy =>
    refine ⟨_, servers.insert serverName entry, rfl, ?_, ?_,
      fun _ => ⟨permissions.insert "parler_*" (.str "allow"), ?_, ?_⟩⟩
    · rw [Map.lookup_insert, if_neg (Ne.symm (key_ne_permission host)), Map.lookup_insert, if_pos rfl]
    · rw [Map.lookup_insert, if_pos rfl]
    · rw [Map.lookup_insert, if_pos rfl]
    · rw [Map.lookup_insert, if_pos rfl]

/-- Every number of the document is at the end of a path that the merge leaves. -/
theorem number_untouched (served : Served host entry obj w) (plain : entry.numbers = ∅) {p : JsonPath}
    {n : Number} (found : w.valueAt p = some n.json) : Untouched host p := by
  obtain ⟨obj', servers, rfl, servers_at, entry_at, trust⟩ := served.object
  have at_entry : obj'.toValue.valueAt (entryPath host) = some entry.json := by
    rw [entryPath, Map.valueAt_toValue]
    dsimp only
    rw [servers_at, Option.bind_some, Map.valueAt_toValue]
    dsimp only
    rw [entry_at]
    rfl
  constructor
  · by_contra near
    exact Value.no_number_near at_entry plain near n found
  · intro is_opencode
    obtain ⟨permissions, permissions_at, rule_at⟩ := trust is_opencode
    have at_rule : obj'.toValue.valueAt rulePath = some (Value.str "allow").json := by
      rw [rulePath, Map.valueAt_toValue]
      dsimp only
      rw [permissions_at, Option.bind_some, Map.valueAt_toValue]
      dsimp only
      rw [rule_at]
      rfl
    by_contra near
    exact Value.no_number_near at_rule (Value.numbers_str _) near n found

/-- A merge puts no numbers in. -/
theorem numbers (served : Served host entry obj w) (plain : entry.numbers = ∅) :
    w.numbers ⊆ obj.toValue.numbers := by
  rintro n ⟨p, found⟩
  exact ⟨p, (served.frame (served.number_untouched plain found)).symm.trans found⟩

theorem depth (served : Served host entry obj w) (shallow : entry.depth ≤ 2) (bounded : obj.toValue.depth ≤ 127) :
    w.depth ≤ 127 := by
  have inner : ∀ {key : String} {m : Map}, (obj.lookup key).getD Map.empty.toValue = m.toValue →
      m.toValue.depth ≤ 126 := by
    intro key m there
    cases found : obj.lookup key with
    | some v =>
      rw [found, Option.getD_some] at there
      rw [← there]
      exact Map.depth_lookup found bounded
    | none =>
      rw [found, Option.getD_none] at there
      rw [← there]
      show 1 ≤ 126
      omega
  have entered : ∀ {servers : Map}, (obj.lookup host.key).getD Map.empty.toValue = servers.toValue →
      (obj.insert host.key (servers.insert serverName entry).toValue).toValue.depth ≤ 127 := by
    intro servers there
    exact Map.depth_insert bounded (Map.depth_insert (inner there) (by omega))
  cases served with
  | plain other there => exact entered there
  | trusted is_opencode there policy =>
    exact Map.depth_insert (entered there) (Map.depth_insert (inner policy) (Nat.zero_le _))

/-- A document that has the entry stays as it is. -/
theorem again {env : List (String × String)} {binpath : String}
    (served : Served host (serverEntry host.shape env binpath) obj w) (path : String) :
    withServer host env binpath path w = .ok w := by
  obtain ⟨obj', servers, rfl, servers_at, entry_at, trust⟩ := served.object
  unfold withServer
  rw [Value.asObject_toValue]
  dsimp only
  rw [servers_at, Option.getD_some, Value.asObject_toValue]
  dsimp only
  rw [Map.insert_eq_self entry_at, Map.insert_eq_self servers_at]
  unfold installJsonTrust
  by_cases is_opencode : host.shape = .openCode
  · obtain ⟨permissions, permissions_at, rule_at⟩ := trust is_opencode
    rw [if_neg (not_not_intro is_opencode)]
    dsimp only
    rw [permissions_at]
    show Except.map Map.toValue (.ok ((obj'.remove "permission").insert "permission"
      (permissions.insert "parler_*" (.str "allow")).toValue)) = _
    rw [Map.insert_remove, Map.insert_eq_self rule_at, Map.insert_eq_self permissions_at]
    rfl
  · rw [if_pos is_opencode]
    rfl

end Served

/-- The expansion of a policy has no number, and hides none. -/
theorem expandMap_number (shape : JsonShape) (obj : Map) (p : JsonPath) (n : Number) :
    (expandMap shape obj).toValue.valueAt p = some n.json ↔ obj.toValue.valueAt p = some n.json := by
  unfold expandMap
  split
  · split
    · rename_i action single
      obtain ⟨v, there, text⟩ := Option.bind_eq_some_iff.mp single
      by_cases elsewhere : Diverge [.key "permission"] p
      · rw [Map.valueAt_insert rfl (fun _ parted => absurd parted (not_diverge_nil _)) elsewhere]
      · have at_policy : obj.toValue.valueAt [.key "permission"] = some v.json := by
          rw [Map.valueAt_toValue]
          dsimp only
          rw [there]
          rfl
        have at_expanded : (obj.insert "permission" (Map.empty.insert "*" (.str action)).toValue).toValue.valueAt
            [.key "permission"] = some (Map.empty.insert "*" (.str action)).toValue.json := by
          rw [Map.valueAt_toValue]
          dsimp only
          rw [Map.lookup_insert, if_pos rfl]
          rfl
        have no_numbers : v.numbers = ∅ := by
          obtain ⟨json, ordered⟩ := v
          cases json <;> cases text
          exact Value.numbers_str _
        have none_expanded : (Map.empty.insert "*" (.str action)).toValue.numbers = ∅ := by
          refine Set.eq_empty_of_forall_notMem ?_
          intro n member
          rcases Value.numbers_insert member with inside | inside <;> simp at inside
        constructor
        · exact fun found => absurd found (Value.no_number_near at_expanded none_expanded elsewhere n)
        · exact fun found => absurd found (Value.no_number_near at_policy no_numbers elsewhere n)
    · exact Iff.rfl
  · exact Iff.rfl

theorem expandMap_numbers (shape : JsonShape) (obj : Map) :
    (expandMap shape obj).toValue.numbers = obj.toValue.numbers :=
  Set.ext (fun n => exists_congr (fun p => expandMap_number shape obj p n))

theorem expandMap_depth {shape : JsonShape} {obj : Map} (bounded : obj.toValue.depth ≤ 127) :
    (expandMap shape obj).toValue.depth ≤ 127 := by
  unfold expandMap
  split
  · split
    · refine Map.depth_insert bounded ?_
      show 1 ≤ 126
      omega
    · exact bounded
  · exact bounded

/-! ## What a removal leaves -/

theorem objectAt_some {root : Value} {key : String} {inner : Map} (found : objectAt root key = some inner) :
    ∃ obj : Map, root = obj.toValue ∧ obj.lookup key = some inner.toValue := by
  obtain ⟨v, there, object⟩ := Option.bind_eq_some_iff.mp found
  obtain ⟨obj, whole, there⟩ := Option.bind_eq_some_iff.mp there
  exact ⟨obj, Value.asObject_eq_some.mp whole, by rw [there, Value.asObject_eq_some.mp object]⟩

/-- A change that only takes away from the inner object. -/
theorem modifyObject_trims {key : String} {f : Map → Map} {path : JsonPath} {root : Value}
    (inner : ∀ m, objectAt root key = some m → Value.Trims (Diverge path) m.toValue (f m).toValue) :
    Value.Trims (Diverge (.key key :: path)) root (modifyObject root key f) := by
  unfold modifyObject
  cases found : objectAt root key with
  | none =>
    cases root.asObject with
    | none => exact .refl _ _
    | some obj => exact .refl _ _
  | some m =>
    obtain ⟨obj, rfl, there⟩ := objectAt_some found
    rw [Value.asObject_toValue]
    exact Value.Trims.insert there (inner m found) (Value.depth_container_obj m)

theorem modifyObject_at {root : Value} {key : String} {f : Map → Map} {inner : Map}
    (found : objectAt root key = some inner) : objectAt (modifyObject root key f) key = some (f inner) := by
  obtain ⟨obj, rfl, there⟩ := objectAt_some found
  unfold modifyObject
  rw [Value.asObject_toValue, found]
  show ((obj.insert key (f inner).toValue).lookup key).bind Value.asObject = _
  rw [Map.lookup_insert, if_pos rfl]
  rfl

/-- An emptied container goes. -/
theorem dropKey_trims {root : Value} {key : String} (empty : objectAt root key = some Map.empty)
    (path : JsonPath) : Value.Trims (Diverge (.key key :: path)) root (dropKey root key) := by
  obtain ⟨obj, rfl, there⟩ := objectAt_some empty
  exact Value.Trims.dropEmpty there path

/-- The edits of an object leave an object. -/
theorem modifyObject_object {root : Value} {key : String} {f : Map → Map} (object : root.asObject.isSome) :
    (modifyObject root key f).asObject.isSome := by
  unfold modifyObject
  split
  · rfl
  · exact object

theorem dropKey_object {root : Value} {key : String} (object : root.asObject.isSome) :
    (dropKey root key).asObject.isSome := by
  unfold dropKey
  split
  · rfl
  · exact object

/-- A removal takes away the entry and the rule, and what contains nothing else. -/
theorem withoutServer_trims {host : JsonHost} {root root' : Value} (removed : withoutServer host root = some root') :
    Value.Trims (Untouched host) root root' ∧ (root.asObject.isSome → root'.asObject.isSome) := by
  have entry : Value.Trims (Untouched host) root
      (modifyObject root host.key (fun servers => servers.remove serverName)) :=
    (modifyObject_trims (fun m _ => Value.Trims.remove m serverName)).mono (fun _ untouched => untouched.1)
  unfold withoutServer at removed
  dsimp only at removed
  set root₁ := modifyObject root host.key (fun servers => servers.remove serverName) with edited
  have object : root.asObject.isSome → root₁.asObject.isSome := modifyObject_object
  by_cases is_opencode : host.shape = .openCode
  · rw [if_pos is_opencode] at removed
    have rule : Value.Trims (Untouched host) root₁
        (modifyObject root₁ "permission" (fun permissions => permissions.remove "parler_*")) :=
      (modifyObject_trims (fun m _ => Value.Trims.remove m "parler_*")).mono
        (fun _ untouched => untouched.2 is_opencode)
    set root₂ := modifyObject root₁ "permission" (fun permissions => permissions.remove "parler_*")
    have object₂ : root.asObject.isSome → root₂.asObject.isSome :=
      fun there => modifyObject_object (object there)
    split at removed
    · cases removed
      split
      · rename_i emptied
        refine ⟨(entry.trans rule).trans ((dropKey_trims emptied [.key "parler_*"]).mono
          (fun _ untouched => untouched.2 is_opencode)), ?_⟩
        exact fun there => dropKey_object (object₂ there)
      · exact ⟨entry.trans rule, object₂⟩
    · cases removed
  · rw [if_neg is_opencode] at removed
    split at removed
    · rw [← Option.some.inj removed]
      exact ⟨entry, object⟩
    · cases removed

/-- After a merge there is something to remove. -/
theorem Served.removable {host : JsonHost} {entry w : Value} {obj : Map} (served : Served host entry obj w) :
    ∃ root', withoutServer host w = some root' := by
  obtain ⟨obj', servers, rfl, servers_at, entry_at, -⟩ := served.object
  have there : holds (objectAt obj'.toValue host.key) serverName = true := by
    unfold objectAt holds
    rw [Value.asObject_toValue, Option.bind_some, servers_at, Option.bind_some, Value.asObject_toValue,
      Option.any_some, entry_at]
    rfl
  unfold withoutServer
  dsimp only
  rw [there]
  split
  · exact ⟨_, rfl⟩
  · exact ⟨_, rfl⟩

end Parler.Cli
