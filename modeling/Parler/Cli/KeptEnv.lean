import Parler.Cli.ConfigFiles
import Parler.Cli.WakeHooks

/-!
# The hub and the secret of a host

`wire` of `crates/parler-cli/src/connect.rs` writes the environment of the server into the config of a host, and
`configured_env` reads the hub and the join secret out of it, so that a bare run keeps them. The config is JSON,
TOML, or what `claude mcp get` prints.
-/

namespace Parler.Cli

open Parler.Lib Parler.Protocol

/-! ## The environment -/

/-- `env_for` -/
def envFor (home hub name : String) (secret : Option String) : List (String × String) :=
  [("PARLER_HOME", home), ("PARLER_HUB", hub), ("PARLER_NAME", name)] ++
    secret.toList.map (fun s => ("PARLER_JOIN_SECRET", s))

/-- The environment that a bare run writes for a host, from what is configured or else from its defaults. -/
def rerunEnv (configured : Option (String × Option String)) (default : String × Option String)
    (home name : String) : List (String × String) :=
  let pair := configured.getD default
  envFor home pair.1 name pair.2

/-! ## JSON -/

/-- `env_field` -/
def JsonShape.envField : JsonShape → String
  | .openCode => "environment"
  | _ => "env"

/-- The hub and the secret among the values of an environment. -/
def envPair {α : Type} (get : String → Option α) (text : α → Option String) : Option (String × Option String) :=
  ((get "PARLER_HUB").bind text).map (fun hub => (hub, (get "PARLER_JOIN_SECRET").bind text))

/-- `configured_env` of a document. -/
def configuredJson (host : JsonHost) (root : Value) : Option (String × Option String) :=
  (((field root host.key).bind (fun servers => field servers serverName)).bind
    (fun server => field server host.shape.envField)).bind
      (fun env => envPair (field env) (fun v => asStr v.json))

/-! ## TOML -/

/-- An item of a TOML document. A table in an inline table is not printed. -/
inductive TomlItem where
  | text (s : String)
  | array (items : List TomlItem)
  | inline (entries : List (String × TomlItem))
  | table (entries : List (String × TomlItem))
  | other (printed : String)

abbrev TomlEntries := List (String × TomlItem)

mutual

/-- What is left of an item when it is printed. -/
def TomlItem.printed : TomlItem → TomlItem
  | .table entries => .table (printedEntries entries)
  | .inline entries => .inline (printedValues entries)
  | item => item

def printedEntries : TomlEntries → TomlEntries
  | [] => []
  | (key, item) :: entries => (key, item.printed) :: printedEntries entries

def printedValues : TomlEntries → TomlEntries
  | [] => []
  | (_, .table _) :: entries => printedValues entries
  | (key, item) :: entries => (key, item.printed) :: printedValues entries

end

/-- `Item::get` of a key. -/
def TomlItem.get (item : TomlItem) (key : String) : Option TomlItem :=
  match item with
  | .table entries => entries.lookup key
  | .inline entries => entries.lookup key
  | _ => none

def TomlItem.asText : TomlItem → Option String
  | .text s => some s
  | _ => none

/-- The entry of a key is replaced, or a new one comes last. -/
def setEntry (key : String) (item : TomlItem) (entries : TomlEntries) : TomlEntries :=
  if (entries.lookup key).isSome then entries.map (fun e => if e.1 = key then (key, item) else e)
  else entries ++ [(key, item)]

/-- `parler_toml_item` -/
def parlerTomlItem (env : List (String × String)) (binpath : String) : TomlItem :=
  .table [("command", .text binpath), ("args", .array [.text "mcp"]),
    ("default_tools_approval_mode", .text "approve"),
    ("env", .table (env.foldl (fun entries kv => setEntry kv.1 (.text kv.2) entries) []))]

/-- The document of `write_toml`; anything but a table under the key of the servers ends in a panic. -/
def withTomlServer (env : List (String × String)) (binpath : String) (doc : TomlEntries) : Option TomlEntries :=
  match (doc.lookup "mcp_servers").getD (.table []) with
  | .table servers =>
      some (setEntry "mcp_servers" (.table (setEntry serverName (parlerTomlItem env binpath) servers)) doc)
  | .inline servers =>
      some (setEntry "mcp_servers" (.inline (setEntry serverName (parlerTomlItem env binpath) servers)) doc)
  | _ => none

/-- `configured_env` of a document. -/
def configuredToml (doc : TomlEntries) : Option (String × Option String) :=
  (((doc.lookup "mcp_servers").bind (fun servers => servers.get serverName)).bind
    (fun server => server.get "env")).bind (fun env => envPair env.get TomlItem.asText)

/-! ## What Claude prints -/

/-- The characters that are trimmed before a value. -/
def isLead (c : Char) : Bool := c = ':' || c = '=' || c = ' ' || c = '"'

/-- The characters that a value is read up to. -/
def isCut (c : Char) : Bool := isWhitespace c || c = '"' || c = ','

/-- The value that is read after its key, unless it is empty. -/
def valueAfter (rest : List Char) : Option String :=
  match (rest.dropWhile isLead).takeWhile (fun c => !isCut c) with
  | [] => none
  | value => some (String.ofList value)

/-- What follows the first place of a key. -/
def afterKey (key : String) (cs : List Char) : Option (List Char) := (splitOnceChars key.toList cs).map Prod.snd

/-- `parse_env_from_text` -/
def parseEnvFromText (text : List Char) (key : String) : Option String := (afterKey key text).bind valueAfter

/-- `configured_env` of a text. -/
def configuredText (text : List Char) : Option (String × Option String) :=
  (parseEnvFromText text "PARLER_HUB").map (fun hub => (hub, parseEnvFromText text "PARLER_JOIN_SECRET"))

/-- The text has neither key. -/
def Keyless (line : List Char) : Prop := ∀ key ∈ ["PARLER_HUB", "PARLER_JOIN_SECRET"], afterKey key line = none

/-- How `claude mcp get` prints a server: its own lines, and the path of the command behind a blank in a line of
    its own, before a line for each variable, with an equals sign or a colon. -/
structure ClaudeFormat where
  before : List (List Char)
  lead : List Char
  between : List (List Char)
  indent : Nat
  colon : String → Bool
  after : List (List Char)
  quiet : ∀ line ∈ lead :: (before ++ between ++ after), Keyless line

namespace ClaudeFormat

/-- The line of a variable. -/
def variableLine (format : ClaudeFormat) (kv : String × String) : List Char :=
  List.replicate format.indent ' ' ++ kv.1.toList ++
    ((if format.colon kv.1 then [':', ' '] else ['=']) ++ kv.2.toList)

def lines (format : ClaudeFormat) (binpath : String) (vars : List (String × String)) : List (List Char) :=
  format.before ++ (format.lead ++ ' ' :: binpath.toList) :: (format.between ++
    (vars.map format.variableLine ++ format.after))

def text (format : ClaudeFormat) (binpath : String) (vars : List (String × String)) : List Char :=
  (format.lines binpath vars).flatMap (fun line => line ++ ['\n'])

end ClaudeFormat

/-! ## Keeping the pair -/

/-- A host, with its config before it is wired; a TOML document that is not there is empty. -/
inductive WiredHost where
  | claude
  | codex (doc : TomlEntries)
  | json (host : JsonHost) (file : ConfigFile)

/-- What is read is the pair that was wired, and a bare run writes it again. -/
def Kept (configured : Option (String × Option String)) (hub : String) (secret : Option String) : Prop :=
  configured = some (hub, secret) ∧
    ∀ default home name, rerunEnv configured default home name = envFor home hub name secret

/-- Whatever `wire` leaves in the config of the host, the pair is kept. -/
def KeepsPair (F : FloatFormat) (fromStr : String → Option Value) (path : String)
    (reparse : TomlEntries → Option TomlEntries) (home hub name : String) (secret : Option String)
    (binpath : String) : WiredHost → Prop
  | .claude => ∀ (format : ClaudeFormat) vars, vars.Perm (envFor home hub name secret) →
      Kept (configuredText (format.text binpath vars)) hub secret
  | .codex doc => ∀ doc', withTomlServer (envFor home hub name secret) binpath doc = some doc' →
      Kept ((reparse doc').bind configuredToml) hub secret
  | .json host file => ∀ file',
      writeJson F fromStr path host (envFor home hub name secret) binpath file = (.ok true, file') →
      Kept ((readJson fromStr path file').toOption.bind (configuredJson host)) hub secret

/-- A value that is read as it was written. -/
structure PlainValue (value : String) : Prop where
  nonempty : value ≠ ""
  uncut : ∀ c ∈ value.toList, isCut c = false
  head : ∀ c rest, value.toList = c :: rest → isLead c = false

/-- The first place of the key in what is printed says the value that was wired, if one was, whichever line comes
    first: the path of the command or another value that has the key in it says the same. -/
def SaysWired (key : String) (wired : Option String) (binpath : String) (env : List (String × String)) : Prop :=
  match afterKey key binpath.toList with
  | some rest => valueAfter rest = wired
  | none => (∀ value, wired = some value → PlainValue value) ∧
      ∀ kv ∈ env, kv.1 ≠ key → ∀ rest, afterKey key kv.2.toList = some rest → valueAfter rest = wired

/-- The pair is one that the config of the host is read for. -/
def PairReadable (home hub name : String) (secret : Option String) (binpath : String) : WiredHost → Prop
  | .claude => SaysWired "PARLER_HUB" (some hub) binpath (envFor home hub name secret) ∧
      SaysWired "PARLER_JOIN_SECRET" secret binpath (envFor home hub name secret)
  | .codex doc => ∀ servers, doc.lookup "mcp_servers" ≠ some (.inline servers)
  | .json _ _ => True

/-- What is read is written again. -/
theorem kept_iff {configured : Option (String × Option String)} {hub : String} {secret : Option String} :
    Kept configured hub secret ↔ configured = some (hub, secret) := by
  constructor
  · exact And.left
  · rintro rfl
    exact ⟨rfl, fun _ _ _ => rfl⟩

/-! ## JSON is read back -/

section Json

variable {host : JsonHost} {home hub name binpath path : String} {secret : Option String} {v w : Value}

theorem field_serverEntry (shape : JsonShape) (env : List (String × String)) (binpath : String) :
    field (serverEntry shape env binpath) shape.envField =
      some (Map.ofFields (env.map (fun kv => (kv.1, .str kv.2)))).toValue := by
  cases shape <;> simp [serverEntry, field, JsonShape.envField, Map.ofFields]

theorem envPair_json (home hub name : String) (secret : Option String) :
    envPair (field (Map.ofFields ((envFor home hub name secret).map (fun kv => (kv.1, .str kv.2)))).toValue)
      (fun v => asStr v.json) = some (hub, secret) := by
  cases secret <;> simp [envPair, envFor, field, Map.ofFields, Value.str, asStr]

theorem configuredJson_served (merged : withServer host (envFor home hub name secret) binpath path v = .ok w) :
    configuredJson host w = some (hub, secret) := by
  obtain ⟨obj, -, served⟩ := withServer_ok merged
  obtain ⟨obj', servers, rfl, servers_at, entry_at, -⟩ := served.object
  have outer : field obj'.toValue host.key = some servers.toValue := servers_at
  have inner :
      field servers.toValue serverName = some (serverEntry host.shape (envFor home hub name secret) binpath) :=
    entry_at
  unfold configuredJson
  rw [outer, Option.bind_some, inner, Option.bind_some, field_serverEntry, Option.bind_some, envPair_json]

theorem envPair_reread (read : Double → Double) (v : Value) :
    envPair (field (v.reread read)) (fun w => asStr w.json) = envPair (field v) (fun w => asStr w.json) := by
  have texts : ∀ key, (field (v.reread read) key).bind (fun w => asStr w.json) =
      (field v key).bind (fun w => asStr w.json) := by
    intro key
    rw [field_reread, Option.bind_map]
    congr 1
    funext w
    exact asStr_reread read w
  unfold envPair
  rw [texts, texts]

theorem configuredJson_reread (read : Double → Double) (host : JsonHost) (v : Value) :
    configuredJson host (v.reread read) = configuredJson host v := by
  have step : ∀ (v : Option Value) (key : String),
      (v.map (Value.reread read)).bind (fun w => field w key) =
        (v.bind (fun w => field w key)).map (Value.reread read) := by
    intro v key
    cases v with
    | none => rfl
    | some w => exact field_reread read w key
  unfold configuredJson
  rw [field_reread, step, step, Option.bind_map]
  congr 1
  funext env
  exact envPair_reread read env

end Json

/-! ## TOML is read back -/

section Toml

variable {key : String} {item : TomlItem} {entries doc doc' : TomlEntries}

theorem lookup_setEntry (key : String) (item : TomlItem) (entries : TomlEntries) :
    (setEntry key item entries).lookup key = some item := by
  unfold setEntry
  induction entries with
  | nil => simp
  | cons e entries ih =>
    obtain ⟨name, old⟩ := e
    by_cases own : name = key
    · simp [own]
    · have other : (key == name) = false := by simpa using Ne.symm own
      simp only [List.lookup_cons, other] at ih ⊢
      split
      · rename_i there
        rw [if_pos there] at ih
        simpa [List.lookup_cons, own, other] using ih
      · rename_i missing
        rw [if_neg missing] at ih
        simpa [List.lookup_cons, other] using ih

theorem lookup_printedEntries (key : String) (entries : TomlEntries) :
    (printedEntries entries).lookup key = (entries.lookup key).map TomlItem.printed := by
  induction entries with
  | nil => rfl
  | cons e entries ih =>
    obtain ⟨name, item⟩ := e
    rw [printedEntries, List.lookup_cons, List.lookup_cons, ih]
    cases key == name <;> rfl

/-- A table that is put into an inline table is not printed. -/
theorem lookup_printedValues (key : String) (inside : TomlEntries) (entries : TomlEntries) :
    (printedValues (setEntry key (.table inside) entries)).lookup key = none := by
  have general : ∀ entries : TomlEntries, (∀ e ∈ entries, e.1 = key → ∃ inside, e.2 = .table inside) →
      (printedValues entries).lookup key = none := by
    intro entries tables
    induction entries with
    | nil => rfl
    | cons e entries ih =>
      obtain ⟨name, item⟩ := e
      obtain ⟨first, rest⟩ := List.forall_mem_cons.mp tables
      cases item with
      | table inside => exact ih rest
      | _ =>
        have other : (key == name) = false := by
          refine beq_eq_false_iff_ne.mpr ?_
          rintro rfl
          obtain ⟨inside, same⟩ := first rfl
          cases same
        rw [printedValues, List.lookup_cons, other]
        · exact ih rest
        · exact nofun
  apply general
  intro e member own
  unfold setEntry at member
  split at member
  · obtain ⟨old, listed, rfl⟩ := List.mem_map.mp member
    split at own
    · rename_i same
      exact ⟨inside, by rw [if_pos same]⟩
    · rename_i other
      exact absurd own other
  · rename_i missing
    rcases List.mem_append.mp member with before | last
    · have found : (entries.lookup key).isSome := by
        rw [List.lookup_isSome_iff]
        exact ⟨e, before, by simpa using own.symm⟩
      exact absurd found missing
    · rw [List.mem_singleton.mp last]
      exact ⟨inside, rfl⟩

theorem envPair_toml (home hub name : String) (secret : Option String) :
    envPair (TomlItem.table (printedEntries ((envFor home hub name secret).foldl
      (fun entries kv => setEntry kv.1 (.text kv.2) entries) []))).get TomlItem.asText = some (hub, secret) := by
  unfold envPair TomlItem.get
  simp only [lookup_printedEntries]
  cases secret <;> simp [envFor, setEntry, List.lookup_cons, TomlItem.printed, TomlItem.asText]

/-- The pair is read of the printed document exactly if the servers are no inline table. -/
theorem configuredToml_iff {home hub name binpath : String} {secret : Option String}
    (written : withTomlServer (envFor home hub name secret) binpath doc = some doc') :
    configuredToml (printedEntries doc') = some (hub, secret) ↔
      ∀ servers, doc.lookup "mcp_servers" ≠ some (.inline servers) := by
  have env_at : (parlerTomlItem (envFor home hub name secret) binpath).printed.get "env" =
      some (.table (printedEntries ((envFor home hub name secret).foldl
        (fun entries kv => setEntry kv.1 (.text kv.2) entries) []))) := rfl
  unfold withTomlServer at written
  split at written
  · rename_i servers there
    cases written
    constructor
    · intro _ inline found
      rw [found, Option.getD_some] at there
      cases there
    · intro _
      unfold configuredToml
      rw [lookup_printedEntries, lookup_setEntry, Option.map_some, Option.bind_some, TomlItem.printed, TomlItem.get,
        lookup_printedEntries, lookup_setEntry, Option.map_some, Option.bind_some, env_at, Option.bind_some,
        envPair_toml]
  · rename_i servers there
    cases written
    constructor
    · intro read_back
      unfold configuredToml parlerTomlItem at read_back
      rw [lookup_printedEntries, lookup_setEntry, Option.map_some, Option.bind_some, TomlItem.printed, TomlItem.get,
        lookup_printedValues] at read_back
      cases read_back
    · intro plain
      cases found : doc.lookup "mcp_servers" with
      | none =>
        rw [found, Option.getD_none] at there
        cases there
      | some item =>
        rw [found, Option.getD_some] at there
        exact absurd (found.trans (congrArg some there)) (plain servers)
  · cases written

end Toml

/-! ## A text is read -/

section Text

variable {key : String} {value : List Char}

theorem takeWhile_stop {p : Char → Bool} {d : Char} (stop : p d = false) (cs more : List Char) :
    (cs ++ d :: more).takeWhile p = cs.takeWhile p := by
  induction cs with
  | nil => simp [stop]
  | cons c cs ih =>
    rw [List.cons_append, List.takeWhile_cons, List.takeWhile_cons, ih]

/-- A value is read up to the end of its line. -/
theorem valueAfter_line (rest more : List Char) : valueAfter (rest ++ '\n' :: more) = valueAfter rest := by
  have same : ((rest ++ '\n' :: more).dropWhile isLead).takeWhile (fun c => !isCut c) =
      (rest.dropWhile isLead).takeWhile (fun c => !isCut c) := by
    have stop : (!isCut '\n') = false := by decide
    induction rest with
    | nil =>
      have lead : isLead '\n' = false := by decide
      simp [lead, stop]
    | cons c rest ih =>
      rw [List.cons_append, List.dropWhile_cons, List.dropWhile_cons]
      cases isLead c with
      | true => exact ih
      | false =>
        rw [if_neg Bool.false_ne_true, if_neg Bool.false_ne_true, ← List.cons_append]
        exact takeWhile_stop stop (c :: rest) more
  unfold valueAfter
  rw [same]

theorem valueAfter_lead {lead : List Char} (trimmed : ∀ c ∈ lead, isLead c = true) (rest : List Char) :
    valueAfter (lead ++ rest) = valueAfter rest := by
  unfold valueAfter
  rw [List.dropWhile_append_of_pos trimmed]

/-- A value is read as it was written exactly if it is plain. -/
theorem valueAfter_iff (value : String) : valueAfter value.toList = some value ↔ PlainValue value := by
  unfold valueAfter
  constructor
  · intro read_back
    split at read_back
    · cases read_back
    · rename_i taken cut
      have same := congrArg String.toList (Option.some.inj read_back)
      rw [String.toList_ofList] at same
      have within := (List.takeWhile_prefix (fun c => !isCut c) (l := value.toList.dropWhile isLead)).sublist
      have whole : value.toList.dropWhile isLead = value.toList := by
        refine (List.dropWhile_suffix isLead).sublist.eq_of_length_le ?_
        rw [same] at within
        exact within.length_le
      refine ⟨?_, ?_, ?_⟩
      · rintro rfl
        exact cut same.symm
      · intro c member
        rw [← same] at member
        simpa using List.mem_takeWhile_imp member
      · intro c rest split
        rw [split, List.dropWhile_cons] at whole
        by_contra lead
        rw [if_pos (by simpa using lead)] at whole
        have shorter := (List.dropWhile_suffix isLead (l := rest)).length_le
        rw [whole, List.length_cons] at shorter
        omega
  · rintro ⟨nonempty, uncut, head⟩
    cases chars : value.toList with
    | nil => exact absurd (String.toList_eq_nil_iff.mp chars) nonempty
    | cons c rest =>
      have kept : (c :: rest).dropWhile isLead = c :: rest := by
        rw [List.dropWhile_cons, if_neg (by simp [head c rest chars])]
      have all : (c :: rest).takeWhile (fun c => !isCut c) = c :: rest := by
        rw [List.takeWhile_eq_self_iff]
        intro d member
        simp [uncut d (chars ▸ member)]
      rw [kept, all]
      dsimp only
      rw [← chars, String.ofList_toList]

/-- What a text says about a key: the value after its first place. -/
def saying (key : String) (line : List Char) : Option (Option String) := (afterKey key line).map valueAfter

/-- The first line with the key says its value. -/
theorem parseEnvFromText_lines (some_char : key.toList ≠ []) (one_line : '\n' ∉ key.toList)
    (lines : List (List Char)) :
    parseEnvFromText (lines.flatMap (fun line => line ++ ['\n'])) key =
      (lines.findSome? (saying key)).getD none := by
  induction lines with
  | nil =>
    have missing : splitOnceChars key.toList [] = none := if_neg some_char
    unfold parseEnvFromText afterKey
    rw [List.flatMap_nil, missing]
    rfl
  | cons line lines ih =>
    rw [List.flatMap_cons, List.append_assoc, List.singleton_append, List.findSome?_cons]
    unfold saying parseEnvFromText afterKey at ih ⊢
    cases found : splitOnceChars key.toList line with
    | none =>
      rw [splitOnceChars_skip some_char one_line found, Option.map_map]
      exact ih
    | some halves =>
      rw [splitOnceChars_append some_char _ found]
      exact valueAfter_line halves.2 _

theorem afterKey_skip (some_char : key.toList ≠ []) {front : List Char} {c : Char} (other : c ∉ key.toList)
    (missing : afterKey key front = none) (back : List Char) :
    afterKey key (front ++ c :: back) = afterKey key back := by
  unfold afterKey at missing ⊢
  rw [splitOnceChars_skip some_char other (Option.map_eq_none_iff.mp missing), Option.map_map]
  rfl

theorem afterKey_blanks (some_char : key.toList ≠ []) (no_blank : ' ' ∉ key.toList) (n : Nat) (cs : List Char) :
    afterKey key (List.replicate n ' ' ++ cs) = afterKey key cs := by
  induction n with
  | zero => rfl
  | succ n ih =>
    have missing : afterKey key [] = none := by
      unfold afterKey
      rw [splitOnceChars, if_neg some_char]
      rfl
    rw [List.replicate_succ, List.cons_append, ← ih]
    exact afterKey_skip some_char no_blank missing _

end Text

/-! ## What Claude prints is read -/

section Claude

variable {format : ClaudeFormat} {key : String} {binpath : String}

/-- The two keys that are read. -/
def ReadKey (key : String) : Prop := key = "PARLER_HUB" ∨ key = "PARLER_JOIN_SECRET"

theorem ReadKey.nonempty (read_key : ReadKey key) : key.toList ≠ [] := by
  rcases read_key with rfl | rfl <;> decide

theorem ReadKey.notMem (read_key : ReadKey key) :
    '\n' ∉ key.toList ∧ ' ' ∉ key.toList ∧ ':' ∉ key.toList ∧ '=' ∉ key.toList := by
  rcases read_key with rfl | rfl <;> simp

/-- What a variable says about a key, as the key's own or by a value with the key in it. -/
def varSays (key : String) (kv : String × String) : Option (Option String) :=
  if kv.1 = key then some (valueAfter kv.2.toList) else saying key kv.2.toList

/-- No name of a variable has the name of another in it. -/
theorem afterKey_name (read_key : ReadKey key) {name : String}
    (wired : name ∈ ["PARLER_HOME", "PARLER_HUB", "PARLER_NAME", "PARLER_JOIN_SECRET"]) (other : name ≠ key) :
    afterKey key name.toList = none := by
  simp only [List.mem_cons, List.not_mem_nil, or_false] at wired
  rcases read_key with rfl | rfl <;> rcases wired with rfl | rfl | rfl | rfl <;>
    first | exact absurd rfl other | decide +kernel

theorem saying_variableLine (read_key : ReadKey key) {kv : String × String}
    (wired : kv.1 ∈ ["PARLER_HOME", "PARLER_HUB", "PARLER_NAME", "PARLER_JOIN_SECRET"]) :
    saying key (format.variableLine kv) = varSays key kv := by
  obtain ⟨-, no_blank, no_colon, no_equals⟩ := read_key.notMem
  unfold saying ClaudeFormat.variableLine varSays
  rw [List.append_assoc, afterKey_blanks read_key.nonempty no_blank]
  by_cases own : kv.1 = key
  · rw [if_pos own, own]
    unfold afterKey
    rw [splitOnceChars_here read_key.nonempty, Option.map_some, Option.map_some]
    congr 1
    apply valueAfter_lead
    split <;> simp [isLead]
  · rw [if_neg own]
    have missing := afterKey_name read_key wired own
    split
    · show Option.map valueAfter (afterKey key (kv.1.toList ++ ':' :: ' ' :: kv.2.toList)) = _
      rw [afterKey_skip read_key.nonempty no_colon missing]
      exact congrArg (Option.map valueAfter) (afterKey_blanks read_key.nonempty no_blank 1 kv.2.toList)
    · show Option.map valueAfter (afterKey key (kv.1.toList ++ '=' :: kv.2.toList)) = _
      rw [afterKey_skip read_key.nonempty no_equals missing]
      rfl

/-- What is read of the printed server: what the path of the command says, or else the first variable. -/
theorem parseEnvFromText_text (read_key : ReadKey key) {vars : List (String × String)}
    (wired : ∀ kv ∈ vars, kv.1 ∈ ["PARLER_HOME", "PARLER_HUB", "PARLER_NAME", "PARLER_JOIN_SECRET"]) :
    parseEnvFromText (format.text binpath vars) key =
      ((saying key binpath.toList).or (vars.findSome? (varSays key))).getD none := by
  obtain ⟨one_line, no_blank, -⟩ := read_key.notMem
  have quiet : ∀ line ∈ format.lead :: (format.before ++ format.between ++ format.after), saying key line = none := by
    intro line member
    have silent := format.quiet line member key (by rcases read_key with rfl | rfl <;> simp)
    unfold saying
    rw [silent, Option.map_none]
  obtain ⟨lead_quiet, others⟩ := List.forall_mem_cons.mp quiet
  have silent : ∀ lines : List (List Char), (∀ line ∈ lines, line ∈ format.before ++ format.between ++ format.after) →
      lines.findSome? (saying key) = none := by
    intro lines among
    exact List.findSome?_eq_none_iff.mpr (fun line member => others line (among line member))
  have command : saying key (format.lead ++ ' ' :: binpath.toList) = saying key binpath.toList := by
    unfold saying at lead_quiet ⊢
    rw [afterKey_skip read_key.nonempty no_blank (Option.map_eq_none_iff.mp lead_quiet)]
  have lines : (vars.map format.variableLine).findSome? (saying key) = vars.findSome? (varSays key) := by
    clear quiet others silent command
    induction vars with
    | nil => rfl
    | cons kv vars ih =>
      obtain ⟨first, rest⟩ := List.forall_mem_cons.mp wired
      rw [List.map_cons, List.findSome?_cons, List.findSome?_cons, ih rest, saying_variableLine read_key first]
  unfold ClaudeFormat.text ClaudeFormat.lines
  rw [parseEnvFromText_lines read_key.nonempty one_line, List.findSome?_append,
    silent format.before (by simp +contextual), Option.none_or, List.findSome?_cons, command]
  cases saying key binpath.toList with
  | some value => rfl
  | none =>
    dsimp only
    rw [List.findSome?_append, silent format.between (by simp +contextual), Option.none_or, List.findSome?_append,
      lines, silent format.after (by simp +contextual), Option.or_none, Option.none_or]

/-- The first to say something says this in every order exactly if everyone who says something says it. -/
theorem findSome?_perm_iff {α β : Type} {f : α → Option β} {l : List α} {default said : β} :
    (∀ vs : List α, vs.Perm l → (vs.findSome? f).getD default = said) ↔
      (∀ a ∈ l, ∀ b, f a = some b → b = said) ∧ ((∀ a ∈ l, f a = none) → default = said) := by
  constructor
  · intro always
    constructor
    · intro a member b tells
      obtain ⟨front, back, split⟩ := List.append_of_mem member
      have order : (a :: (front ++ back)).Perm l := by
        rw [split]
        exact List.perm_middle.symm
      have first := always _ order
      rw [List.findSome?_cons, tells] at first
      exact first
    · intro silent
      have own := always l (List.Perm.refl l)
      rw [List.findSome?_eq_none_iff.mpr silent] at own
      exact own
  · rintro ⟨agree, silent⟩ vs order
    cases found : vs.findSome? f with
    | none =>
      apply silent
      intro a member
      exact List.findSome?_eq_none_iff.mp found a (order.mem_iff.mpr member)
    | some b =>
      obtain ⟨a, member, tells⟩ := List.exists_of_findSome?_eq_some found
      exact agree a (order.mem_iff.mp member) b tells

/-- In every order of the variables the value that was wired is read exactly if the first place of its key says
    it. -/
theorem saysWired_iff (read_key : ReadKey key) {wired : Option String} {env : List (String × String)}
    (names : ∀ kv ∈ env, kv.1 ∈ ["PARLER_HOME", "PARLER_HUB", "PARLER_NAME", "PARLER_JOIN_SECRET"])
    (own : ∀ value, (key, value) ∈ env ↔ wired = some value) :
    (∀ vars : List (String × String), vars.Perm env →
      parseEnvFromText (format.text binpath vars) key = wired) ↔ SaysWired key wired binpath env := by
  have read_as : ∀ vars : List (String × String), vars.Perm env → parseEnvFromText (format.text binpath vars) key =
      ((saying key binpath.toList).or (vars.findSome? (varSays key))).getD none := by
    intro vars order
    exact parseEnvFromText_text read_key (fun kv member => names kv (order.mem_iff.mp member))
  unfold SaysWired
  cases found : afterKey key binpath.toList with
  | some rest =>
    have said : saying key binpath.toList = some (valueAfter rest) := by
      unfold saying
      rw [found, Option.map_some]
    dsimp only
    constructor
    · intro always
      have first := always env (List.Perm.refl env)
      rw [read_as env (List.Perm.refl env), said] at first
      exact first
    · intro tells vars order
      rw [read_as vars order, said]
      exact tells
  | none =>
    have silent : saying key binpath.toList = none := by
      unfold saying
      rw [found, Option.map_none]
    dsimp only
    have orders : (∀ vars : List (String × String), vars.Perm env →
        parseEnvFromText (format.text binpath vars) key = wired) ↔
          ∀ vars : List (String × String), vars.Perm env → (vars.findSome? (varSays key)).getD none = wired := by
      refine forall_congr' (fun vars => forall_congr' (fun order => ?_))
      rw [read_as vars order, silent, Option.none_or]
    rw [orders, findSome?_perm_iff]
    constructor
    · rintro ⟨agree, -⟩
      constructor
      · rintro value rfl
        rw [← valueAfter_iff]
        exact agree (key, value) ((own value).mpr rfl) _ (if_pos rfl)
      · intro kv member other rest there
        refine agree kv member _ ?_
        unfold varSays saying
        rw [if_neg other, there, Option.map_some]
    · rintro ⟨plain, others⟩
      constructor
      · rintro ⟨name, value⟩ member said tells
        unfold varSays at tells
        dsimp only at tells
        split at tells
        · rename_i same
          cases same
          have is_wired := (own value).mp member
          rw [← Option.some.inj tells, is_wired]
          exact (valueAfter_iff value).mpr (plain value is_wired)
        · rename_i other
          obtain ⟨rest, there, rfl⟩ := Option.map_eq_some_iff.mp tells
          exact others (name, value) member other rest there
      · intro none_says
        cases wired with
        | none => rfl
        | some value =>
          have speaks := none_says (key, value) ((own value).mpr rfl)
          unfold varSays at speaks
          rw [if_pos rfl] at speaks
          cases speaks

end Claude

/-! ## Every host -/

theorem envFor_names {home hub name : String} {secret : Option String} :
    ∀ kv ∈ envFor home hub name secret,
      kv.1 ∈ ["PARLER_HOME", "PARLER_HUB", "PARLER_NAME", "PARLER_JOIN_SECRET"] := by
  cases secret <;> simp [envFor]

theorem envFor_hub {home hub name value : String} {secret : Option String} :
    ("PARLER_HUB", value) ∈ envFor home hub name secret ↔ some hub = some value := by
  cases secret <;> simp [envFor, eq_comm]

theorem envFor_secret {home hub name value : String} {secret : Option String} :
    ("PARLER_JOIN_SECRET", value) ∈ envFor home hub name secret ↔ secret = some value := by
  cases secret <;> simp [envFor, eq_comm]

theorem configuredText_iff {text : List Char} {hub : String} {secret : Option String} :
    configuredText text = some (hub, secret) ↔
      parseEnvFromText text "PARLER_HUB" = some hub ∧ parseEnvFromText text "PARLER_JOIN_SECRET" = secret := by
  unfold configuredText
  cases parseEnvFromText text "PARLER_HUB" <;> simp

/-- A text with no lines of its own. -/
def bareFormat : ClaudeFormat where
  before := []
  lead := "  Command:".toList
  between := []
  indent := 4
  colon _ := false
  after := []
  quiet := by
    intro line member
    rw [List.append_nil, List.append_nil, List.mem_singleton] at member
    rw [member]
    unfold Keyless
    decide +kernel

/-- The pair that was wired is kept by a bare run exactly if the config of the host is read for it: always in JSON,
    in TOML unless the servers are an inline table, and for Claude if the first place of each key in what is printed
    says a plain value. -/
theorem keeps_pair_iff {F : FloatFormat} {fromStr : String → Option Value} {read : Double → Double}
    (reads : Reads F fromStr read) (path : String) (reparse : TomlEntries → Option TomlEntries)
    (home hub name : String) (secret : Option String) (binpath : String)
    (printed_back : ∀ doc doc', withTomlServer (envFor home hub name secret) binpath doc = some doc' →
      reparse doc' = some (printedEntries doc')) (host : WiredHost) :
    KeepsPair F fromStr path reparse home hub name secret binpath host ↔
      PairReadable home hub name secret binpath host := by
  cases host with
  | claude =>
    have hub_iff : ∀ format : ClaudeFormat, (∀ vars : List (String × String),
        vars.Perm (envFor home hub name secret) →
          parseEnvFromText (format.text binpath vars) "PARLER_HUB" = some hub) ↔ _ :=
      fun _ => saysWired_iff (Or.inl rfl) envFor_names (fun _ => envFor_hub)
    have secret_iff : ∀ format : ClaudeFormat, (∀ vars : List (String × String),
        vars.Perm (envFor home hub name secret) →
          parseEnvFromText (format.text binpath vars) "PARLER_JOIN_SECRET" = secret) ↔ _ :=
      fun _ => saysWired_iff (Or.inr rfl) envFor_names (fun _ => envFor_secret)
    constructor
    · intro kept
      have both := fun vars order => configuredText_iff.mp (kept_iff.mp (kept bareFormat vars order))
      exact ⟨(hub_iff bareFormat).mp (fun vars order => (both vars order).1),
        (secret_iff bareFormat).mp (fun vars order => (both vars order).2)⟩
    · rintro ⟨hub_holds, secret_holds⟩ format vars order
      exact kept_iff.mpr (configuredText_iff.mpr ⟨(hub_iff format).mpr hub_holds vars order,
        (secret_iff format).mpr secret_holds vars order⟩)
  | codex doc =>
    constructor
    · intro kept servers inline
      have written : ∃ doc', withTomlServer (envFor home hub name secret) binpath doc = some doc' := by
        unfold withTomlServer
        rw [inline]
        exact ⟨_, rfl⟩
      obtain ⟨doc', written⟩ := written
      have read_back := kept_iff.mp (kept doc' written)
      rw [printed_back doc doc' written, Option.bind_some] at read_back
      exact (configuredToml_iff written).mp read_back servers inline
    · intro plain doc' written
      rw [kept_iff, printed_back doc doc' written, Option.bind_some]
      exact (configuredToml_iff written).mpr plain
  | json host file =>
    refine iff_of_true ?_ trivial
    intro file' run
    obtain ⟨v, w, read_as, merged, -, rfl⟩ := installAt_done run
    rw [kept_iff, (server_edits host _ binpath path).read_back reads read_as merged]
    show configuredJson host (w.reread read) = _
    rw [configuredJson_reread, configuredJson_served merged]

theorem KeepsPair.text {F : FloatFormat} {fromStr : String → Option Value} {path : String}
    {reparse : TomlEntries → Option TomlEntries} {home hub name binpath : String} {secret : Option String}
    (keeps : KeepsPair F fromStr path reparse home hub name secret binpath .claude) (format : ClaudeFormat) :
    configuredText (format.text binpath (envFor home hub name secret)) = some (hub, secret) :=
  (keeps format _ (List.Perm.refl _)).1

section Demo

theorem saysWired_of {key value binpath : String} {env : List (String × String)}
    (read_back : valueAfter value.toList = some value)
    (path_quiet : afterKey key binpath.toList = none)
    (others : ∀ kv ∈ env, kv.1 ≠ key → afterKey key kv.2.toList = none) :
    SaysWired key (some value) binpath env := by
  unfold SaysWired
  rw [path_quiet]
  dsimp only
  constructor
  · intro value' same
    rw [← Option.some.inj same]
    exact (valueAfter_iff value).mp read_back
  · intro kv member other rest there
    rw [others kv member other] at there
    cases there

/-- A local hub with a secret is kept for Claude, and for Codex and Cursor without a config. -/
theorem keeps_pair_local :
    KeepsPair shortFormat demoFromStr "" (fun doc => some (printedEntries doc)) "/h/.parler" "ws://127.0.0.1:7071"
        "mellow-otter-a3f2" (some "s3cr3t") "/usr/local/bin/parler" .claude ∧
      KeepsPair shortFormat demoFromStr "" (fun doc => some (printedEntries doc)) "/h/.parler" "ws://127.0.0.1:7071"
        "mellow-otter-a3f2" (some "s3cr3t") "/usr/local/bin/parler" (.codex []) ∧
      KeepsPair shortFormat demoFromStr "mcp.json" (fun doc => some (printedEntries doc)) "/h/.parler"
        "ws://127.0.0.1:7071" "mellow-otter-a3f2" (some "s3cr3t") "/usr/local/bin/parler" (.json .cursor .absent) := by
  have readable := fun path => keeps_pair_iff demo_reads path (fun doc => some (printedEntries doc)) "/h/.parler"
    "ws://127.0.0.1:7071" "mellow-otter-a3f2" (some "s3cr3t") "/usr/local/bin/parler" (fun _ _ _ => rfl)
  have hub_plain : SaysWired "PARLER_HUB" (some "ws://127.0.0.1:7071") "/usr/local/bin/parler"
      (envFor "/h/.parler" "ws://127.0.0.1:7071" "mellow-otter-a3f2" (some "s3cr3t")) := by
    apply saysWired_of <;> decide +kernel
  have secret_plain : SaysWired "PARLER_JOIN_SECRET" (some "s3cr3t") "/usr/local/bin/parler"
      (envFor "/h/.parler" "ws://127.0.0.1:7071" "mellow-otter-a3f2" (some "s3cr3t")) := by
    apply saysWired_of <;> decide +kernel
  exact ⟨(readable "" .claude).mpr ⟨hub_plain, secret_plain⟩, (readable "" (.codex [])).mpr nofun,
    (readable "mcp.json" (.json .cursor .absent)).mpr trivial⟩

/-- A secret of two words is read as the first of them, and a bare run wires that. -/
theorem second_word_lost :
    configuredText (bareFormat.text "parler" (envFor "/h" "wss://hub" "otter" (some "two words"))) =
        some ("wss://hub", some "two") ∧
      rerunEnv (configuredText (bareFormat.text "parler" (envFor "/h" "wss://hub" "otter" (some "two words"))))
        ("wss://shared", none) "/h" "otter" = envFor "/h" "wss://hub" "otter" (some "two") ∧
      ¬ KeepsPair shortFormat demoFromStr "" (fun doc => some (printedEntries doc)) "/h" "wss://hub" "otter"
        (some "two words") "parler" .claude := by
  have read_as : configuredText (bareFormat.text "parler" (envFor "/h" "wss://hub" "otter" (some "two words"))) =
      some ("wss://hub", some "two") := by decide +kernel
  refine ⟨read_as, ?_, ?_⟩
  · rw [read_as]
    rfl
  · intro kept
    have pair := read_as.symm.trans (kept.text bareFormat)
    exact absurd pair (by decide)

end Demo

end Parler.Cli
