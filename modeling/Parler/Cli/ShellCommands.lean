import Parler.Cli.KeptEnv
import Parler.Lib.JsonPretty
import Parler.Lib.Shell

/-!
# Commands for a shell

`crates/parler-cli/src/connect.rs` writes two commands that a shell reads: the one of the wake hook, and the one that
`connect --print` shows for Claude Code. `wire` passes the arguments of the latter without a shell.
-/

namespace Parler.Cli

open Parler.Lib

/-- The arguments that `wire` passes to `claude`. -/
def addArgs (env : List (String × String)) (binpath : String) : List String :=
  ["mcp", "add", serverName, "--scope", "user"] ++
    (env.flatMap (fun kv => ["--env", kv.1 ++ "=" ++ kv.2]) ++ ["--", binpath, "mcp"])

/-- The command line of `render_shell_add`. -/
def addLine (env : List (String × String)) (binpath : String) : String :=
  let flags := String.join (env.map (fun kv => " --env " ++ kv.1 ++ "=" ++ kv.2))
  "claude mcp add " ++ serverName ++ " --scope user" ++ flags ++ " -- " ++ binpath ++ " mcp"

/-- `render_shell_add` -/
def renderShellAdd (F : FloatFormat) (env : List (String × String)) (binpath : String) : String :=
  addLine env binpath ++ "\n\nAlso merge into ~/.claude/settings.json:\n" ++
    String.ofList (pretty F 0 (.obj [("permissions", .obj [("allow", .arr (claudeParlerPermissions.map .str))])]))

/-- The characters of an environment. -/
def envChars (env : List (String × String)) : List (List Char × List Char) :=
  env.map (fun kv => (kv.1.toList, kv.2.toList))

/-- What a shell reads is what `wire` was given. -/
structure MeansWired (env : List (String × String)) (binpath : String) : Prop where
  hook : readCommand (stopHookCommand env binpath).toList =
    some ⟨envChars env, [binpath, "hook", "stop"].map String.toList⟩
  added : readCommand (addLine env binpath).toList = some ⟨[], ("claude" :: addArgs env binpath).map String.toList⟩

/-! ## The texts as words -/

section Texts

variable (env : List (String × String)) (binpath : String)

theorem shellSingleQuote_toList (s : String) : (shellSingleQuote s).toList = singleQuoted s.toList := by
  simp [shellSingleQuote, singleQuoted]

/-- A blank goes after each word but the last. -/
theorem joinWords_append_cons (words : List (List Char)) (word : List Char) (more : List (List Char)) :
    joinWords (words ++ word :: more) = words.flatMap (fun w => w ++ [' ']) ++ joinWords (word :: more) := by
  induction words with
  | nil => rfl
  | cons first words ih =>
    have split : joinWords (first :: (words ++ word :: more)) = first ++ ' ' :: joinWords (words ++ word :: more) := by
      cases words <;> simp [joinWords]
    rw [List.cons_append, split, ih]
    simp

theorem stopHookCommand_toList : (stopHookCommand env binpath).toList =
    joinWords ((envChars env).map (fun kv => quotedAssignment kv.1 kv.2) ++
      singleQuoted binpath.toList :: ["hook", "stop"].map String.toList) := by
  rw [joinWords_append_cons]
  simp [stopHookCommand, shellSingleQuote_toList, envChars, quotedAssignment, joinWords, List.flatMap_map]

/-- The words of the command before the environment. -/
theorem addLine_front : ("claude mcp add " ++ serverName ++ " --scope user").toList =
    "claude".toList ++
      (["mcp", "add", serverName, "--scope", "user"].map String.toList).flatMap (fun word => ' ' :: word) := by
  decide +kernel

/-- The words of the command after the environment. -/
theorem addLine_back : (["--", binpath, "mcp"].map String.toList).flatMap (fun word => ' ' :: word) =
    " -- ".toList ++ (binpath.toList ++ " mcp".toList) := by
  have before : ' ' :: "--".toList ++ [' '] = " -- ".toList := by decide
  have after : ' ' :: "mcp".toList = " mcp".toList := by decide
  rw [← before, ← after]
  simp

theorem addLine_toList :
    (addLine env binpath).toList = joinWords (("claude" :: addArgs env binpath).map String.toList) := by
  have flags : (String.join (env.map (fun kv => " --env " ++ kv.1 ++ "=" ++ kv.2))).toList =
      ((env.flatMap (fun kv => ["--env", kv.1 ++ "=" ++ kv.2])).map String.toList).flatMap
        (fun word => ' ' :: word) := by
    induction env with
    | nil => rfl
    | cons kv env ih => simp [String.join_cons, ih]
  rw [List.map_cons, joinWords, addArgs, List.map_append, List.map_append, List.flatMap_append, List.flatMap_append,
    ← flags, ← List.append_assoc, ← addLine_front, addLine_back]
  unfold addLine
  simp only [String.toList_append, List.append_assoc]

end Texts

/-! ## What a shell reads -/

section Reads

variable {env : List (String × String)} {binpath : String}

theorem envFor_named (home hub name : String) (secret : Option String) :
    ∀ kv ∈ envFor home hub name secret, isName kv.1.toList = true := by
  have keys : ∀ key ∈ (envFor home hub name secret).map Prod.fst, isName key.toList = true := by
    cases secret with
    | none =>
      show ∀ key ∈ ["PARLER_HOME", "PARLER_HUB", "PARLER_NAME"], isName key.toList = true
      decide +kernel
    | some s =>
      show ∀ key ∈ ["PARLER_HOME", "PARLER_HUB", "PARLER_NAME", "PARLER_JOIN_SECRET"], isName key.toList = true
      decide +kernel
  exact fun kv member => keys kv.1 (List.mem_map_of_mem member)

/-- The quotes of the wake hook keep any environment and any path. -/
theorem stopHookCommand_read (named : ∀ kv ∈ env, isName kv.1.toList = true) :
    readCommand (stopHookCommand env binpath).toList =
      some ⟨envChars env, [binpath, "hook", "stop"].map String.toList⟩ := by
  have bare : ∀ word ∈ ["hook", "stop"].map String.toList, Bareword word := by decide +kernel
  rw [stopHookCommand_toList]
  apply readCommand_quoted _ _ bare
  intro kv member
  obtain ⟨kv, inside, rfl⟩ := List.mem_map.mp member
  exact named kv inside

/-- The command line has no quotes, so it keeps what needs none. -/
theorem addLine_read_iff (named : ∀ kv ∈ env, isName kv.1.toList = true) :
    readCommand (addLine env binpath).toList = some ⟨[], ("claude" :: addArgs env binpath).map String.toList⟩ ↔
      (∀ kv ∈ env, Literal kv.2.toList) ∧ Bareword binpath.toList := by
  have before : ∀ word ∈ ["claude", "mcp", "add", serverName, "--scope", "user"].map String.toList, Bareword word := by
    decide +kernel
  have fixed : Bareword "--env".toList ∧ Bareword "--".toList ∧ Bareword "mcp".toList := by decide +kernel
  rw [addLine_toList, List.map_cons, readCommand_joinWords_iff (by decide) (by decide)]
  have split : "claude".toList :: (addArgs env binpath).map String.toList =
      ["claude", "mcp", "add", serverName, "--scope", "user"].map String.toList ++
        (env.flatMap (fun kv => ["--env".toList, kv.1.toList ++ '=' :: kv.2.toList]) ++
          ["--".toList, binpath.toList, "mcp".toList]) := by
    have flags : (env.flatMap (fun kv => ["--env", kv.1 ++ "=" ++ kv.2])).map String.toList =
        env.flatMap (fun kv => ["--env".toList, kv.1.toList ++ '=' :: kv.2.toList]) := by
      rw [List.map_flatMap]
      congr 1
      funext kv
      simp only [List.map_cons, List.map_nil, String.toList_append, List.append_assoc]
      rfl
    rw [addArgs, List.map_append, List.map_append, flags]
    rfl
  have flag : ∀ kv ∈ env, Bareword (kv.1.toList ++ '=' :: kv.2.toList) ↔ Literal kv.2.toList :=
    fun kv inside => bareword_assignment (named kv inside) kv.2.toList
  rw [split, List.forall_mem_append, List.forall_mem_append]
  simp only [List.forall_mem_flatMap, List.forall_mem_cons, fixed, List.not_mem_nil, false_implies, implies_true,
    true_and, and_true]
  rw [and_iff_right before]
  exact and_congr_left' (forall₂_congr flag)

end Reads

/-- Both commands are read as what was wired exactly if no value and no path needs quotes. -/
theorem means_wired_iff (home hub name : String) (secret : Option String) (binpath : String) :
    MeansWired (envFor home hub name secret) binpath ↔
      (∀ kv ∈ envFor home hub name secret, Literal kv.2.toList) ∧ Bareword binpath.toList := by
  have named := envFor_named home hub name secret
  rw [← addLine_read_iff named]
  exact ⟨fun wired => wired.added, fun added => ⟨stopHookCommand_read named, added⟩⟩

/-- A blank in the path of the home splits the argument. -/
theorem home_with_blank_split :
    ¬ MeansWired (envFor "/home/some user/.parler" "http://127.0.0.1:7070" "claude" none) "/usr/local/bin/parler" := by
  intro wired
  have named := envFor_named "/home/some user/.parler" "http://127.0.0.1:7070" "claude" none
  have plain := (((addLine_read_iff named).mp wired.added).1 _ List.mem_cons_self).plain ' ' (by simp)
  exact absurd plain (by decide)

end Parler.Cli
