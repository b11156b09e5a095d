import Parler.Cli.ConfigFiles

/-!
# Wake hooks

`install_stop_hook_at` and `remove_stop_hook_at` of `crates/parler-cli/src/connect.rs`: the hook that Claude Code
runs on `Stop` is put into the settings beside the hooks of the user, or taken out of them.
-/

namespace Parler.Cli

open Parler.Lib Parler.Protocol

/-! ## The command -/

/-- `shell_single_quote` -/
def shellSingleQuote (s : String) : String :=
  "'" ++ String.ofList (s.toList.flatMap (fun c => if c = '\x27' then "'\\''".toList else [c])) ++ "'"

/-- `stop_hook_command` -/
def stopHookCommand (env : List (String × String)) (binpath : String) : String :=
  String.join (env.map (fun kv => kv.1 ++ "=" ++ shellSingleQuote kv.2 ++ " ")) ++
    (shellSingleQuote binpath ++ " hook stop")

/-! ## Groups -/

/-- `Value::get` of a key. -/
def field (v : Value) (key : String) : Option Value := v.asObject.bind (fun m => m.lookup key)

/-- The command of a hook. -/
def hookCommand (hook : Value) : Option String := (field hook "command").bind (fun command => asStr command.json)

/-- The commands of a group, in their order. -/
def commandsOf (group : Value) : List String :=
  (((field group "hooks").bind Value.asArray).getD []).filterMap hookCommand

def runsHookStop (command : String) : Bool := " hook stop".toList <:+: command.toList

/-- `is_parler_wake_group` -/
def isParlerWakeGroup (group : Value) : Bool :=
  ((field group "hooks").bind Value.asArray).any (fun hooks => hooks.any (fun hook =>
    (hookCommand hook).any runsHookStop))

/-- The group that is installed. -/
def wakeGroup (env : List (String × String)) (binpath : String) : Value :=
  (Map.ofFields [("hooks", .arr [(Map.ofFields [("type", .str "command"),
    ("command", .str (stopHookCommand env binpath))]).toValue])]).toValue

/-- Any earlier wake group goes, and a new one is pushed. -/
def pushWakeGroup (env : List (String × String)) (binpath : String) (groups : List Value) : List Value :=
  groups.filter (fun group => !isParlerWakeGroup group) ++ [wakeGroup env binpath]

/-- The document of `install_stop_hook_at`. -/
def withStopHook (path : String) (env : List (String × String)) (binpath : String) : Value → Except String Value :=
  editList path "hooks" "Stop" (pushWakeGroup env binpath)

/-- The document of `remove_stop_hook_at`, if there was a group to remove. -/
def withoutStopHook : Value → Option Value := trimList "hooks" "Stop" (fun group => !isParlerWakeGroup group)

section Calls

variable (F : FloatFormat) (fromStr : String → Option Value) (path : String)

def installStopHookAt (env : List (String × String)) (binpath : String) :
    ConfigFile → Except String Bool × ConfigFile :=
  installAt F fromStr path (withStopHook path env binpath)

def removeStopHookAt : ConfigFile → Except String Bool × ConfigFile := removeAt F fromStr path withoutStopHook

/-- A call on the settings: an install with an environment of these, or a removal. -/
inductive HookCall (envs : Set (List (String × String))) where
  | install (env : envs) (binpath : String)
  | remove

def HookCall.run {envs : Set (List (String × String))} (file : ConfigFile) :
    HookCall envs → Except String Bool × ConfigFile
  | .install env binpath => installStopHookAt F fromStr path env binpath file
  | .remove => removeStopHookAt F fromStr path file

/-- The settings after a run of calls. -/
def afterCalls {envs : Set (List (String × String))} (file : ConfigFile) (calls : List (HookCall envs)) :
    ConfigFile :=
  calls.foldl (fun file call => (call.run F fromStr path file).2) file

end Calls

/-! ## Whose hooks -/

/-- The groups of `hooks.Stop`. -/
def stopGroups (root : Value) : List Value := (listAt root "hooks" "Stop").getD []

/-- The command is one that `stop_hook_command` makes. -/
def Produced (envs : Set (List (String × String))) (command : String) : Prop :=
  ∃ env ∈ envs, ∃ binpath, command = stopHookCommand env binpath

section Owners

variable (envs : Set (List (String × String)))

open Classical in
/-- The commands of a group that `stop_hook_command` did not make. -/
noncomputable def userCommands (group : Value) : List String :=
  (commandsOf group).filter (fun command => ¬ Produced envs command)

/-- A group with commands of the user, under its matcher. -/
noncomputable def userGroup (group : Value) : Option (Option String × List String) :=
  match userCommands envs group with
  | [] => none
  | command :: commands => some ((field group "matcher").bind (fun m => asStr m.json), command :: commands)

/-- The user's own `Stop` hooks, group by group. -/
noncomputable def userHooks (root : Value) : List (Option String × List String) :=
  (stopGroups root).filterMap (userGroup envs)

open Classical in
/-- The wake hooks. -/
noncomputable def wakeHooks (root : Value) : List String :=
  (stopGroups root).flatMap (fun group => (commandsOf group).filter (fun command => Produced envs command))

/-- The user's own hooks are in place after every run of calls, after an install there is exactly one wake hook,
    and a refusal leaves the file. -/
structure HooksSurvive (F : FloatFormat) (fromStr : String → Option Value) (path : String) (file : ConfigFile) :
    Prop where
  kept : ∀ (calls : List (HookCall envs)) v, currentJson fromStr path file = .ok v →
    ∃ w, currentJson fromStr path (afterCalls F fromStr path file calls) = .ok w ∧
      userHooks envs w = userHooks envs v
  single : ∀ (calls : List (HookCall envs)) (env : envs) binpath file',
    installStopHookAt F fromStr path env binpath (afterCalls F fromStr path file calls) = (.ok true, file') →
    ∃ w, currentJson fromStr path file' = .ok w ∧ wakeHooks envs w = [stopHookCommand env binpath]
  refused : ∀ (call : HookCall envs) e file', call.run F fromStr path file = (.error e, file') → file' = file

end Owners

/-! ## The text of a command -/

theorem hook_stop_last (env : List (String × String)) (binpath : String) :
    " hook stop".toList <:+ (stopHookCommand env binpath).toList := by
  unfold stopHookCommand
  rw [String.toList_append, String.toList_append, ← List.append_assoc]
  exact List.suffix_append _ _

theorem runsHookStop_of_produced {envs : Set (List (String × String))} {command : String}
    (produced : Produced envs command) : runsHookStop command = true := by
  obtain ⟨env, -, binpath, rfl⟩ := produced
  exact decide_eq_true (hook_stop_last env binpath).isInfix

theorem quote_mem_stopHookCommand (env : List (String × String)) (binpath : String) :
    '\x27' ∈ (stopHookCommand env binpath).toList := by
  simp [stopHookCommand, shellSingleQuote]

/-! ## A group as it is read again -/

section Groups

variable (read : Double → Double)

theorem field_reread (v : Value) (key : String) :
    field (v.reread read) key = (field v key).map (Value.reread read) := by
  unfold field
  rw [Value.asObject_reread, Option.bind_map, Option.map_bind]
  congr 1
  funext m
  exact Map.lookup_reread read m key

theorem asStr_reread (v : Value) : asStr (v.reread read).json = asStr v.json := by
  obtain ⟨json, ordered⟩ := v
  cases json <;> rfl

theorem hookCommand_reread (hook : Value) : hookCommand (hook.reread read) = hookCommand hook := by
  unfold hookCommand
  rw [field_reread, Option.bind_map]
  congr 1
  funext command
  exact asStr_reread read command

theorem commandsOf_reread (group : Value) : commandsOf (group.reread read) = commandsOf group := by
  unfold commandsOf
  rw [field_reread, Option.bind_map]
  cases field group "hooks" with
  | none => rfl
  | some hooks =>
    rw [Option.bind_some, Option.bind_some, Function.comp_apply, Value.asArray_reread]
    cases hooks.asArray with
    | none => rfl
    | some items =>
      rw [Option.map_some, Option.getD_some, Option.getD_some, List.filterMap_map]
      congr 1
      funext hook
      exact hookCommand_reread read hook

theorem isParlerWakeGroup_eq (group : Value) : isParlerWakeGroup group = (commandsOf group).any runsHookStop := by
  unfold isParlerWakeGroup commandsOf
  cases (field group "hooks").bind Value.asArray with
  | none => rfl
  | some hooks =>
    rw [Option.any_some, Option.getD_some]
    induction hooks with
    | nil => rfl
    | cons hook hooks ih =>
      rw [List.any_cons, ih]
      cases command : hookCommand hook with
      | none => rw [List.filterMap_cons_none command, Option.any_none, Bool.false_or]
      | some c => rw [List.filterMap_cons_some command, Option.any_some, List.any_cons]

theorem isParlerWakeGroup_reread (group : Value) :
    isParlerWakeGroup (group.reread read) = isParlerWakeGroup group := by
  rw [isParlerWakeGroup_eq, isParlerWakeGroup_eq, commandsOf_reread]

theorem listAt_reread (root : Value) (outer inner : String) :
    listAt (root.reread read) outer inner = (listAt root outer inner).map (List.map (Value.reread read)) := by
  unfold listAt objectAt
  rw [Value.asObject_reread]
  cases root.asObject with
  | none => rfl
  | some obj =>
    rw [Option.map_some, Option.bind_some, Option.bind_some, Map.lookup_reread]
    cases obj.lookup outer with
    | none => rfl
    | some v =>
      rw [Option.map_some, Option.bind_some, Option.bind_some, Value.asObject_reread]
      cases v.asObject with
      | none => rfl
      | some holder =>
        rw [Option.map_some, Option.bind_some, Option.bind_some, Map.lookup_reread]
        cases holder.lookup inner with
        | none => rfl
        | some items => exact Value.asArray_reread read items

theorem stopGroups_reread (root : Value) :
    stopGroups (root.reread read) = (stopGroups root).map (Value.reread read) := by
  unfold stopGroups
  rw [listAt_reread]
  cases listAt root "hooks" "Stop" <;> rfl

theorem commandsOf_wakeGroup (env : List (String × String)) (binpath : String) :
    commandsOf (wakeGroup env binpath) = [stopHookCommand env binpath] := by
  simp [commandsOf, wakeGroup, field, hookCommand, Map.ofFields, Value.str, asStr]

end Groups

/-! ## A document -/

/-- Items that are taken out do not show only if they did not show before. -/
theorem filterMap_filter_iff {α β : Type} {f : α → Option β} {keep : α → Bool} {l : List α} :
    (l.filter keep).filterMap f = l.filterMap f ↔ ∀ a ∈ l, keep a = false → f a = none := by
  induction l with
  | nil => simp
  | cons a l ih =>
    rw [List.forall_mem_cons, ← ih]
    cases shown : f a with
    | none =>
      rw [List.filterMap_cons_none shown]
      cases kept : keep a with
      | true => rw [List.filter_cons_of_pos kept, List.filterMap_cons_none shown]; simp
      | false => rw [List.filter_cons_of_neg (by simp [kept])]; simp
    | some b =>
      rw [List.filterMap_cons_some shown]
      cases kept : keep a with
      | true => rw [List.filter_cons_of_pos kept, List.filterMap_cons_some shown]; simp
      | false =>
        rw [List.filter_cons_of_neg (by simp [kept])]
        constructor
        · intro same
          have fewer := ((List.filter_sublist (p := keep) (l := l)).filterMap f).length_le
          rw [same, List.length_cons] at fewer
          omega
        · rintro ⟨hidden, -⟩
          cases hidden rfl

section Documents

variable {envs : Set (List (String × String))} {path : String} {v w : Value}

/-- The groups that are taken for wake groups hold no command of the user. -/
def WakeGroupsOurs (envs : Set (List (String × String))) (root : Value) : Prop :=
  ∀ group ∈ stopGroups root, isParlerWakeGroup group = true → ∀ command ∈ commandsOf group, Produced envs command

theorem userGroup_none_iff {group : Value} :
    userGroup envs group = none ↔ ∀ command ∈ commandsOf group, Produced envs command := by
  have empty : userCommands envs group = [] ↔ ∀ command ∈ commandsOf group, Produced envs command := by
    simp [userCommands, List.filter_eq_nil_iff]
  rw [← empty]
  unfold userGroup
  cases userCommands envs group <;> simp

theorem userHooks_reread (read : Double → Double) (root : Value) :
    userHooks envs (root.reread read) = userHooks envs root := by
  unfold userHooks
  rw [stopGroups_reread, List.filterMap_map]
  congr 1
  funext group
  show userGroup envs (group.reread read) = userGroup envs group
  have matcher : (field (group.reread read) "matcher").bind (fun m => asStr m.json) =
      (field group "matcher").bind (fun m => asStr m.json) := by
    rw [field_reread, Option.bind_map]
    congr 1
    funext m
    exact asStr_reread read m
  unfold userGroup userCommands
  rw [commandsOf_reread, matcher]

theorem wakeHooks_reread (read : Double → Double) (root : Value) :
    wakeHooks envs (root.reread read) = wakeHooks envs root := by
  unfold wakeHooks
  rw [stopGroups_reread, List.flatMap_map]
  congr 1
  funext group
  rw [commandsOf_reread]

theorem WakeGroupsOurs.reread (ours : WakeGroupsOurs envs v) (read : Double → Double) :
    WakeGroupsOurs envs (v.reread read) := by
  intro group member
  rw [stopGroups_reread] at member
  obtain ⟨before, listed, rfl⟩ := List.mem_map.mp member
  rw [isParlerWakeGroup_reread, commandsOf_reread]
  exact ours before listed

theorem stopGroups_installed {env : List (String × String)} {binpath : String}
    (installed : withStopHook path env binpath v = .ok w) :
    stopGroups w = pushWakeGroup env binpath (stopGroups v) := by
  obtain ⟨obj, groups, rfl, edited⟩ := editList_ok installed
  unfold stopGroups
  rw [edited.items_after, edited.items_before, Option.getD_some]

/-- An install puts one wake hook into the settings, whatever they hold. -/
theorem wakeHooks_installed {env : List (String × String)} {binpath : String} (member : env ∈ envs)
    (installed : withStopHook path env binpath v = .ok w) :
    wakeHooks envs w = [stopHookCommand env binpath] := by
  classical
  unfold wakeHooks
  rw [stopGroups_installed installed, pushWakeGroup, List.flatMap_append, List.flatMap_singleton,
    commandsOf_wakeGroup]
  have produced : Produced envs (stopHookCommand env binpath) := ⟨env, member, binpath, rfl⟩
  have others : ((stopGroups v).filter (fun group => !isParlerWakeGroup group)).flatMap
      (fun group => (commandsOf group).filter (fun command => Produced envs command)) = [] := by
    rw [List.flatMap_eq_nil_iff]
    intro group kept
    rw [List.filter_eq_nil_iff]
    intro command listed ours
    have wake : isParlerWakeGroup group = true := by
      rw [isParlerWakeGroup_eq]
      exact List.any_eq_true.mpr ⟨command, listed, runsHookStop_of_produced (of_decide_eq_true ours)⟩
    simp [wake] at kept
  rw [others, List.nil_append]
  simp [produced]

theorem userHooks_installed {env : List (String × String)} {binpath : String} (member : env ∈ envs)
    (ours : WakeGroupsOurs envs v) (installed : withStopHook path env binpath v = .ok w) :
    userHooks envs w = userHooks envs v ∧ WakeGroupsOurs envs w := by
  have own : ∀ command ∈ commandsOf (wakeGroup env binpath), Produced envs command := by
    intro command listed
    rw [commandsOf_wakeGroup, List.mem_singleton] at listed
    exact ⟨env, member, binpath, listed⟩
  constructor
  · unfold userHooks
    rw [stopGroups_installed installed, pushWakeGroup, List.filterMap_append,
      List.filterMap_cons_none (userGroup_none_iff.mpr own), List.filterMap_nil, List.append_nil]
    apply filterMap_filter_iff.mpr
    intro group listed taken
    exact userGroup_none_iff.mpr (ours group listed (by simpa using taken))
  · intro group listed wake
    rw [stopGroups_installed installed, pushWakeGroup] at listed
    rcases List.mem_append.mp listed with kept | pushed
    · simp [wake] at kept
    · rw [List.mem_singleton.mp pushed]
      exact own

theorem stopGroups_removed (removed : withoutStopHook v = some w) :
    stopGroups w = (stopGroups v).filter (fun group => !isParlerWakeGroup group) :=
  (trimList_trims removed).2.2

/-- A removal leaves the user's hooks exactly if it takes no group with one of them. -/
theorem userHooks_removed_iff (removed : withoutStopHook v = some w) :
    userHooks envs w = userHooks envs v ↔ WakeGroupsOurs envs v := by
  unfold userHooks
  rw [stopGroups_removed removed, filterMap_filter_iff]
  refine forall_congr' (fun group => forall_congr' (fun _ => ?_))
  rw [userGroup_none_iff]
  simp

theorem WakeGroupsOurs.removed (removed : withoutStopHook v = some w) : WakeGroupsOurs envs w := by
  intro group listed wake
  rw [stopGroups_removed removed] at listed
  simp [wake] at listed

/-- Nothing is removed only where there is no wake group. -/
theorem wakeGroupsOurs_of_none (nothing : withoutStopHook v = none) : WakeGroupsOurs envs v := by
  intro group listed wake
  have kept := trimList_none_iff.mp nothing group listed
  simp [wake] at kept

theorem wakeGroup_depth (env : List (String × String)) (binpath : String) : (wakeGroup env binpath).depth ≤ 4 := by
  apply Value.depth_ofFields
  intro f member
  rw [List.mem_singleton.mp member]
  apply Value.depth_arr.mpr
  intro hook listed
  rw [List.mem_singleton.mp listed]
  apply Value.depth_ofFields
  intro f member
  have text : ∀ s : String, (Value.str s).depth ≤ 1 := fun _ => Nat.zero_le 1
  rcases List.mem_cons.mp member with rfl | member
  · exact text _
  · rw [List.mem_singleton.mp member]
    exact text _

theorem wakeGroup_numbers (env : List (String × String)) (binpath : String) :
    (wakeGroup env binpath).numbers = ∅ := by
  have hook : (Map.ofFields [("type", Value.str "command"),
      ("command", .str (stopHookCommand env binpath))]).toValue.numbers = ∅ :=
    Value.numbers_ofFields (by simp)
  apply Value.numbers_ofFields
  intro f member
  rw [List.mem_singleton.mp member]
  refine Set.eq_empty_of_forall_notMem ?_
  intro n inside
  obtain ⟨v, listed, inside⟩ := Value.numbers_arr.mp inside
  rw [List.mem_singleton.mp listed, hook] at inside
  exact Set.notMem_empty n inside

theorem installed_shape {env : List (String × String)} {binpath : String} (readable : v.Readable)
    (installed : withStopHook path env binpath v = .ok w) : w.asObject.isSome ∧ w.Readable := by
  obtain ⟨obj, groups, rfl, edited⟩ := editList_ok installed
  constructor
  · obtain ⟨obj', holder, rfl, -⟩ := edited.object
    rfl
  · apply edited.readable readable
    intro group listed
    rcases List.mem_append.mp listed with kept | pushed
    · exact Or.inl (List.mem_of_mem_filter kept)
    · rw [List.mem_singleton.mp pushed]
      exact Or.inr ⟨(wakeGroup_depth env binpath).trans (by omega), wakeGroup_numbers env binpath⟩

end Documents

/-! ## A file -/

section Files

variable {F : FloatFormat} {fromStr : String → Option Value} {read : Double → Double} {path : String}
  {envs : Set (List (String × String))} {file file' : ConfigFile} {v : Value}

/-- What is read after an install that was made. -/
theorem install_read (reads : Reads F fromStr read) {env : List (String × String)} {binpath : String} {done : Bool}
    (run : installStopHookAt F fromStr path env binpath file = (.ok done, file')) :
    ∃ v w, currentJson fromStr path file = .ok v ∧ withStopHook path env binpath v = .ok w ∧
      currentJson fromStr path file' = .ok (w.reread read) := by
  obtain ⟨v, w, read_as, installed, -, rfl⟩ := installAt_done run
  obtain ⟨object, bounded⟩ := installed_shape (currentJson_readable reads read_as) installed
  exact ⟨v, w, read_as, installed, (currentJson_text _).trans (readJson_document reads object bounded)⟩

/-- What a removal does to settings that can be read. -/
theorem remove_read (reads : Reads F fromStr read) (read_as : currentJson fromStr path file = .ok v) :
    (withoutStopHook v = none ∧ (removeStopHookAt F fromStr path file).2 = file) ∨
      ∃ w, withoutStopHook v = some w ∧
        currentJson fromStr path (removeStopHookAt F fromStr path file).2 = .ok (w.reread read) := by
  have bounded := currentJson_readable reads read_as
  unfold removeStopHookAt removeAt
  unfold currentJson at read_as
  cases there : file.found with
  | false =>
    rw [there] at read_as
    cases read_as
    exact Or.inl ⟨rfl, rfl⟩
  | true =>
    rw [there, if_pos rfl] at read_as
    rw [if_pos rfl, read_as, Except.map]
    cases removed : withoutStopHook v with
    | none => exact Or.inl ⟨rfl, rfl⟩
    | some w =>
      obtain ⟨trims, object, -⟩ := trimList_trims removed
      exact Or.inr ⟨w, rfl, (currentJson_text _).trans
        (readJson_document reads object (trims.readable bounded))⟩

/-- One call keeps the user's hooks, if no group with one of them is taken for a wake group. -/
theorem call_keeps (reads : Reads F fromStr read) (call : HookCall envs)
    (read_as : currentJson fromStr path file = .ok v) (ours : WakeGroupsOurs envs v) :
    ∃ w, currentJson fromStr path (call.run F fromStr path file).2 = .ok w ∧ WakeGroupsOurs envs w ∧
      userHooks envs w = userHooks envs v := by
  cases call with
  | install env binpath =>
    cases run : installStopHookAt F fromStr path env binpath file with
    | mk done file' =>
      show ∃ w, currentJson fromStr path (installStopHookAt F fromStr path env binpath file).2 = .ok w ∧ _
      rw [run]
      cases done with
      | error e =>
        rw [commitEdit_refused run]
        exact ⟨v, read_as, ours, rfl⟩
      | ok done =>
        obtain ⟨v', w, read_as', installed, again⟩ := install_read reads run
        obtain rfl : v = v' := Except.ok.inj (read_as.symm.trans read_as')
        obtain ⟨same, ours'⟩ := userHooks_installed env.2 ours installed
        exact ⟨_, again, ours'.reread read, (userHooks_reread read w).trans same⟩
  | remove =>
    rcases remove_read reads read_as with ⟨-, same⟩ | ⟨w, removed, again⟩
    · refine ⟨v, ?_, ours, rfl⟩
      rw [← read_as]
      exact congrArg _ same
    · exact ⟨_, again, (WakeGroupsOurs.removed removed).reread read,
        (userHooks_reread read w).trans ((userHooks_removed_iff removed).mpr ours)⟩

theorem calls_keep (reads : Reads F fromStr read) (calls : List (HookCall envs))
    (read_as : currentJson fromStr path file = .ok v) (ours : WakeGroupsOurs envs v) :
    ∃ w, currentJson fromStr path (afterCalls F fromStr path file calls) = .ok w ∧
      userHooks envs w = userHooks envs v := by
  induction calls generalizing file v with
  | nil => exact ⟨v, read_as, rfl⟩
  | cons call calls ih =>
    obtain ⟨w, next, ours', same⟩ := call_keeps reads call read_as ours
    obtain ⟨w', last, same'⟩ := ih next ours'
    exact ⟨w', last, same'.trans same⟩

/-- The user's own hooks survive exactly if every group that is taken for a wake group holds nothing but commands
    that were made for one. -/
theorem hooks_survive_iff (reads : Reads F fromStr read) (envs : Set (List (String × String))) (path : String)
    (file : ConfigFile) :
    HooksSurvive envs F fromStr path file ↔
      ∀ v, currentJson fromStr path file = .ok v → WakeGroupsOurs envs v := by
  constructor
  · intro survive v read_as
    rcases remove_read reads read_as with ⟨nothing, -⟩ | ⟨w, removed, again⟩
    · exact wakeGroupsOurs_of_none nothing
    · obtain ⟨w', read_as', same⟩ := survive.kept [.remove] v read_as
      obtain rfl : w.reread read = w' := Except.ok.inj (again.symm.trans read_as')
      rw [userHooks_reread] at same
      exact (userHooks_removed_iff removed).mp same
  · intro ours
    refine ⟨fun calls v read_as => calls_keep reads calls read_as (ours v read_as), ?_, ?_⟩
    · intro calls env binpath file' run
      obtain ⟨v, w, -, installed, again⟩ := install_read reads run
      exact ⟨_, again, (wakeHooks_reread read w).trans (wakeHooks_installed env.2 installed)⟩
    · intro call e file' run
      cases call with
      | install env binpath => exact commitEdit_refused run
      | remove =>
        have run : removeAt F fromStr path withoutStopHook file = (.error e, file') := run
        unfold removeAt at run
        split at run
        · exact commitEdit_refused run
        · cases run

/-- Settings of which a removal leaves other hooks of the user. -/
theorem not_survive {w : Value} (read_as : currentJson fromStr path file = .ok v)
    (left : currentJson fromStr path (removeStopHookAt F fromStr path file).2 = .ok w)
    (other : userHooks envs w ≠ userHooks envs v) : ¬ HooksSurvive envs F fromStr path file := by
  intro survive
  obtain ⟨w', left', same⟩ := survive.kept [.remove] v read_as
  obtain rfl : w = w' := Except.ok.inj (left.symm.trans left')
  exact other same

end Files

section Demo

open Parler.Hub

/-- Settings whose only `Stop` hook is this command. -/
def hookSettings (command : String) : Value :=
  (Map.ofFields [("hooks", (Map.ofFields [("Stop", .arr [(Map.ofFields [("hooks",
    .arr [(Map.ofFields [("type", .str "command"), ("command", .str command)]).toValue])]).toValue])]).toValue)]).toValue

theorem stopGroups_hookSettings (command : String) : ∃ group, stopGroups (hookSettings command) = [group] ∧
    commandsOf group = [command] ∧ field group "matcher" = none := by
  refine ⟨_, by simp [stopGroups, hookSettings, listAt, objectAt, Map.ofFields]; rfl, ?_, ?_⟩
  · simp [commandsOf, field, hookCommand, Value.str, asStr]
  · simp [field]

theorem hookSettings_depth (command : String) : (hookSettings command).depth ≤ 127 := by
  have text : ∀ s : String, (Value.str s).depth ≤ 1 := fun _ => Nat.zero_le 1
  have shallow : (hookSettings command).depth ≤ 6 + 1 := by
    apply Value.depth_ofFields
    intro f member
    rw [List.mem_singleton.mp member]
    apply Value.depth_ofFields
    intro f member
    rw [List.mem_singleton.mp member]
    apply Value.depth_arr.mpr
    intro group listed
    rw [List.mem_singleton.mp listed]
    apply Value.depth_ofFields
    intro f member
    rw [List.mem_singleton.mp member]
    apply Value.depth_arr.mpr
    intro hook listed
    rw [List.mem_singleton.mp listed]
    apply Value.depth_ofFields
    intro f member
    rcases List.mem_cons.mp member with rfl | member
    · exact text _
    · rw [List.mem_singleton.mp member]
      exact text _
  omega

theorem hookSettings_readable (command : String) : (hookSettings command).Readable := by
  refine Value.readable_of_no_numbers (hookSettings_depth command) ?_
  have items : ∀ v : Value, v.numbers = ∅ → (Value.arr [v]).numbers = ∅ := by
    intro v none
    refine Set.eq_empty_of_forall_notMem ?_
    intro n inside
    obtain ⟨w, listed, inside⟩ := Value.numbers_arr.mp inside
    rw [List.mem_singleton.mp listed, none] at inside
    exact Set.notMem_empty n inside
  have one : ∀ (key : String) (v : Value), v.numbers = ∅ → (Map.ofFields [(key, v)]).toValue.numbers = ∅ := by
    intro key v none
    apply Value.numbers_ofFields
    intro f member
    rw [List.mem_singleton.mp member]
    exact none
  exact one _ _ (one _ _ (items _ (one _ _ (items _ (Value.numbers_ofFields (by simp))))))

theorem hookSettings_read (path command : String) :
    currentJson demoFromStr path (.text (documentText shortFormat (hookSettings command))) =
      .ok ((hookSettings command).reread demoRead) :=
  (currentJson_text _).trans (readJson_document demo_reads rfl (hookSettings_readable command))

/-- The hook of a user that only prints survives. -/
theorem hooks_survive_echo : HooksSurvive Set.univ shortFormat demoFromStr "settings.json"
    (.text (documentText shortFormat (hookSettings "echo mine"))) := by
  refine (hooks_survive_iff demo_reads Set.univ "settings.json" _).mpr ?_
  intro v read_as
  rw [hookSettings_read] at read_as
  cases read_as
  refine WakeGroupsOurs.reread ?_ demoRead
  intro group listed wake
  obtain ⟨own, groups, commands, -⟩ := stopGroups_hookSettings "echo mine"
  rw [groups, List.mem_singleton] at listed
  rw [isParlerWakeGroup_eq, listed, commands] at wake
  exact absurd wake (by decide +kernel)

/-- The text without an apostrophe is of no command that was made. -/
theorem not_produced_plain {envs : Set (List (String × String))} {command : String}
    (plain : '\x27' ∉ command.toList) : ¬ Produced envs command := by
  rintro ⟨env, -, binpath, rfl⟩
  exact plain (quote_mem_stopHookCommand env binpath)

/-- A user's hook that runs the `hook stop` of another program is removed. -/
theorem foreign_hook_stop_removed :
    Reads shortFormat demoFromStr demoRead ∧
      currentJson demoFromStr "settings.json"
        (.text (documentText shortFormat (hookSettings "mytool hook stop"))) =
          .ok ((hookSettings "mytool hook stop").reread demoRead) ∧
      userHooks Set.univ ((hookSettings "mytool hook stop").reread demoRead) = [(none, ["mytool hook stop"])] ∧
      (∃ w, currentJson demoFromStr "settings.json" (removeStopHookAt shortFormat demoFromStr "settings.json"
        (.text (documentText shortFormat (hookSettings "mytool hook stop")))).2 = .ok w ∧
        userHooks Set.univ w = []) ∧
      ¬ HooksSurvive Set.univ shortFormat demoFromStr "settings.json"
        (.text (documentText shortFormat (hookSettings "mytool hook stop"))) := by
  classical
  obtain ⟨own, groups, commands, matcher⟩ := stopGroups_hookSettings "mytool hook stop"
  have read_as := hookSettings_read "settings.json" "mytool hook stop"
  have users : userCommands Set.univ own = ["mytool hook stop"] := by
    unfold userCommands
    rw [commands]
    simp [@not_produced_plain Set.univ "mytool hook stop" (by decide +kernel)]
  have wake : isParlerWakeGroup own = true := by
    rw [isParlerWakeGroup_eq, commands]
    decide +kernel
  have before : userHooks Set.univ ((hookSettings "mytool hook stop").reread demoRead) =
      [(none, ["mytool hook stop"])] := by
    rw [userHooks_reread, userHooks, groups, List.filterMap_cons, List.filterMap_nil, userGroup, users]
    dsimp only
    rw [matcher, Option.bind_none]
  have after : ∃ w, currentJson demoFromStr "settings.json" (removeStopHookAt shortFormat demoFromStr
      "settings.json" (.text (documentText shortFormat (hookSettings "mytool hook stop")))).2 = .ok w ∧
      userHooks Set.univ w = [] := by
    have taken : stopGroups ((hookSettings "mytool hook stop").reread demoRead) = [own.reread demoRead] := by
      rw [stopGroups_reread, groups, List.map_singleton]
    rcases remove_read demo_reads read_as with ⟨nothing, -⟩ | ⟨w, removed, again⟩
    · have ours : WakeGroupsOurs Set.univ ((hookSettings "mytool hook stop").reread demoRead) :=
        wakeGroupsOurs_of_none nothing
      refine absurd (ours (own.reread demoRead) (taken ▸ List.mem_singleton_self _) ?_ "mytool hook stop" ?_)
        (not_produced_plain (by decide +kernel))
      · rw [isParlerWakeGroup_reread, wake]
      · rw [commandsOf_reread, commands]
        exact List.mem_singleton_self _
    · refine ⟨_, again, ?_⟩
      rw [userHooks_reread, userHooks, stopGroups_removed removed, taken,
        List.filter_cons_of_neg (by simp [isParlerWakeGroup_reread, wake])]
      rfl
  refine ⟨demo_reads, read_as, before, after, ?_⟩
  obtain ⟨w, left, none_left⟩ := after
  refine not_survive read_as left ?_
  rw [none_left, before]
  exact (List.cons_ne_nil _ _).symm

end Demo

end Parler.Cli
