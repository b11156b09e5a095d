import Mathlib.Tactic.Set
import Parler.Lib.Stops

/-!
# Rewriting a file

System calls on files. Each of them may fail, a write may take fewer bytes than it is given, and the process may
die between two of them. A file that is cut and then written can be left with any beginning of the new bytes; a
file that is written beside and renamed is as it was or new.
-/

namespace Parler.Lib

/-- What becomes of a call; a short write takes at most so many bytes. -/
inductive Fate where
  | whole
  | short (atMost : Nat)
  | fails

/-- The files, and what becomes of the next calls, which are whole after those. -/
structure Drive where
  files : String → Option (List UInt8)
  fates : List Fate

inductive FileCall where
  | read (path : String)
  | makeDirs
  | cut (path : String)
  | createNew (path : String)
  | write (path : String) (bytes : List UInt8)
  | sync
  | rename (source target : String)
  | remove (path : String)

namespace FileCall

@[reducible] def Res : FileCall → Type
  | read _ => Option (Option (List UInt8))
  | write .. => Option Nat
  | _ => Bool

/-- What a call returns when it fails. -/
def failure : (op : FileCall) → op.Res
  | read _ | write .. => none
  | makeDirs | cut _ | createNew _ | sync | rename .. | remove _ => false

/-- A call that does not fail, with the most bytes that a write takes. -/
def perform (atMost : Option Nat) (files : String → Option (List UInt8)) :
    (op : FileCall) → op.Res × (String → Option (List UInt8))
  | read path => (some (files path), files)
  | makeDirs => (true, files)
  | cut path => (true, Function.update files path (some []))
  | createNew path => if (files path).isSome then (false, files) else (true, Function.update files path (some []))
  | write path bytes =>
      let k := min (atMost.getD bytes.length) bytes.length
      (some k, Function.update files path (some ((files path).getD [] ++ bytes.take k)))
  | sync => (true, files)
  | rename source target =>
      match files source with
      | none => (false, files)
      | some bytes => (true, Function.update (Function.update files target (some bytes)) source none)
  | remove path => (true, Function.update files path none)

def exec (op : FileCall) (d : Drive) : op.Res × Drive :=
  match d.fates with
  | [] => ((op.perform none d.files).1, ⟨(op.perform none d.files).2, []⟩)
  | .whole :: fates => ((op.perform none d.files).1, ⟨(op.perform none d.files).2, fates⟩)
  | .short n :: fates => ((op.perform (some n) d.files).1, ⟨(op.perform (some n) d.files).2, fates⟩)
  | .fails :: fates => (op.failure, ⟨d.files, fates⟩)

end FileCall

@[reducible] def driveMachine : Machine Drive where
  Op := FileCall
  Res := FileCall.Res
  exec := FileCall.exec
  enabled _ _ := True

abbrev FileProgram (α : Type) := Prog driveMachine α

/-! ## The two writers -/

/-- `Write::write_all`; the write that was interrupted is made again, and is not counted. -/
def writeAll (path : String) : List UInt8 → FileProgram Bool
  | [] => .ret true
  | b :: bytes =>
      .call (FileCall.write path (b :: bytes)) fun (written : Option Nat) =>
        match written with
        | none => .ret false
        | some 0 => .ret false
        | some (n + 1) => writeAll path (bytes.drop n)
termination_by bytes => bytes.length
decreasing_by
  simp only [List.length_drop, List.length_cons]
  omega

/-- Cut the file to nothing and write it. -/
def writeInPlace (path : String) (bytes : List UInt8) : FileProgram Bool :=
  .call FileCall.makeDirs fun (made : Bool) =>
    if !made then .ret false
    else
      .call (FileCall.cut path) fun (opened : Bool) =>
        if !opened then .ret false else writeAll path bytes

/-- An error takes the new file away. -/
def giveUp (temp : String) : FileProgram Bool := .call (FileCall.remove temp) fun _ => .ret false

/-- Give the new file the name of the old one. -/
def moveOver (temp path : String) : FileProgram Bool :=
  .call FileCall.sync fun (synced : Bool) =>
    if !synced then giveUp temp
    else
      .call (FileCall.rename temp path) fun (renamed : Bool) =>
        if !renamed then giveUp temp else .ret true

/-- Write a new file beside the old one, and move it over that. -/
def writeBeside (temp path : String) (bytes : List UInt8) : FileProgram Bool :=
  .call FileCall.makeDirs fun (made : Bool) =>
    if !made then .ret false
    else
      .call (FileCall.createNew temp) fun (opened : Bool) =>
        if !opened then giveUp temp
        else (writeAll temp bytes).bind fun written => if !written then giveUp temp else moveOver temp path

/-! ## What a call does -/

section Calls

variable {d t : Drive} {path temp : String} {bytes content : List UInt8}

/-- A call fails and leaves the files, or is made. -/
theorem exec_cases (op : FileCall) (d : Drive) :
    ((op.exec d).1 = op.failure ∧ (op.exec d).2.files = d.files) ∨
      ∃ atMost, (op.exec d).1 = (op.perform atMost d.files).1 ∧
        (op.exec d).2.files = (op.perform atMost d.files).2 := by
  unfold FileCall.exec
  rcases d.fates with - | ⟨fate, fates⟩
  · exact Or.inr ⟨none, rfl, rfl⟩
  · cases fate with
    | whole => exact Or.inr ⟨none, rfl, rfl⟩
    | short n => exact Or.inr ⟨some n, rfl, rfl⟩
    | fails => exact Or.inl ⟨rfl, rfl⟩

theorem exec_makeDirs (d : Drive) : (FileCall.makeDirs.exec d).2.files = d.files := by
  rcases exec_cases .makeDirs d with ⟨-, same⟩ | ⟨atMost, -, same⟩ <;> exact same

theorem exec_sync (d : Drive) : (FileCall.sync.exec d).2.files = d.files := by
  rcases exec_cases .sync d with ⟨-, same⟩ | ⟨atMost, -, same⟩ <;> exact same

theorem exec_read (path : String) (d : Drive) : ((FileCall.read path).exec d).2.files = d.files := by
  rcases exec_cases (.read path) d with ⟨-, same⟩ | ⟨atMost, -, same⟩ <;> exact same

theorem exec_remove (temp : String) (d : Drive) (apart : path ≠ temp) :
    ((FileCall.remove temp).exec d).2.files path = d.files path := by
  rcases exec_cases (.remove temp) d with ⟨-, same⟩ | ⟨atMost, -, same⟩ <;> rw [same]
  exact Function.update_of_ne apart _ _

/-- A write takes a beginning of its bytes, or none. -/
theorem exec_write (there : d.files path = some content) :
    ∃ k ≤ bytes.length,
      (((FileCall.write path bytes).exec d).1 = none ∨ ((FileCall.write path bytes).exec d).1 = some k) ∧
        ((FileCall.write path bytes).exec d).2.files =
          Function.update d.files path (some (content ++ bytes.take k)) := by
  rcases exec_cases (.write path bytes) d with ⟨failed, same⟩ | ⟨atMost, done, same⟩
  · refine ⟨0, Nat.zero_le _, Or.inl failed, ?_⟩
    rw [same, List.take_zero, List.append_nil, ← there, Function.update_eq_self]
  · refine ⟨min (atMost.getD bytes.length) bytes.length, Nat.min_le_right _ _, Or.inr done, ?_⟩
    rw [same]
    show Function.update d.files path (some ((d.files path).getD [] ++ _)) = _
    rw [there, Option.getD_some]

/-! ## Writing all -/

/-- Wherever the writing is stopped, a beginning has been written. -/
theorem stops_writeAll (there : d.files path = some content) (stops : (writeAll path bytes).Stops d t) :
    ∃ k ≤ bytes.length, t.files = Function.update d.files path (some (content ++ bytes.take k)) := by
  induction size : bytes.length using Nat.strongRecOn generalizing bytes d content with
  | _ m ih =>
    have unwritten : d.files = Function.update d.files path (some (content ++ bytes.take 0)) := by
      rw [List.take_zero, List.append_nil, ← there, Function.update_eq_self]
    cases bytes with
    | nil =>
      rw [writeAll] at stops
      obtain rfl := Prog.stops_ret.mp stops
      exact ⟨0, Nat.zero_le _, unwritten⟩
    | cons b rest =>
      rw [writeAll] at stops
      rcases Prog.stops_call.mp stops with rfl | later
      · exact ⟨0, Nat.zero_le _, unwritten⟩
      · obtain ⟨k, short, result, files⟩ := @exec_write _ _ (b :: rest) _ there
        rw [size] at short
        rcases result with failed | took
        · rw [failed] at later
          obtain rfl := Prog.stops_ret.mp later
          exact ⟨k, short, files⟩
        · rw [took] at later
          cases k with
          | zero =>
            obtain rfl := Prog.stops_ret.mp later
            exact ⟨0, short, files⟩
          | succ n =>
            have there' : ((FileCall.write path (b :: rest)).exec d).2.files path =
                some (content ++ (b :: rest).take (n + 1)) := by rw [files, Function.update_self]
            have total : rest.length + 1 = m := by rw [← size, List.length_cons]
            obtain ⟨j, within, last⟩ := ih (rest.drop n).length (by rw [List.length_drop]; omega) there' later rfl
            rw [List.length_drop] at within
            refine ⟨n + 1 + j, by omega, ?_⟩
            have joined : (b :: rest).take (n + 1) ++ (rest.drop n).take j = (b :: rest).take (n + 1 + j) := by
              have split := List.take_add (l := b :: rest) (i := n + 1) (j := j)
              rw [List.drop_succ_cons] at split
              exact split.symm
            rw [last, files, Function.update_idem, List.append_assoc, joined]

/-- A writing that comes to its end without an error has written all. -/
theorem run_writeAll (there : d.files path = some content) (done : ((writeAll path bytes).run d).1 = true) :
    ((writeAll path bytes).run d).2.files = Function.update d.files path (some (content ++ bytes)) := by
  induction size : bytes.length using Nat.strongRecOn generalizing bytes d content with
  | _ m ih =>
    cases bytes with
    | nil => rw [writeAll, Prog.run_ret, List.append_nil, ← there, Function.update_eq_self]
    | cons b rest =>
      rw [writeAll, Prog.run_call] at done ⊢
      obtain ⟨k, short, result, files⟩ := @exec_write _ _ (b :: rest) _ there
      rcases result with failed | took
      · rw [failed] at done
        cases done
      · rw [took] at done ⊢
        cases k with
        | zero => cases done
        | succ n =>
          have there' : ((FileCall.write path (b :: rest)).exec d).2.files path =
              some (content ++ (b :: rest).take (n + 1)) := by rw [files, Function.update_self]
          have total : rest.length + 1 = m := by rw [← size, List.length_cons]
          have last := ih (rest.drop n).length (by rw [List.length_drop]; omega) there' done rfl
          refine last.trans ?_
          rw [files, Function.update_idem, List.append_assoc, ← List.drop_succ_cons (a := b),
            List.take_append_drop]

/-! ## In place -/

/-- Every beginning of the new bytes can be all that is left. -/
theorem writeInPlace_stops_at (files : String → Option (List UInt8)) (path : String) {k : Nat}
    (short : k ≤ bytes.length) :
    ∃ fates t, (writeInPlace path bytes).Stops ⟨files, fates⟩ t ∧ t.files path = some (bytes.take k) := by
  have cut : ((FileCall.cut path).exec (FileCall.makeDirs.exec ⟨files, [.whole, .whole, .short k]⟩).2).2 =
      ⟨Function.update files path (some []), [.short k]⟩ := rfl
  have written : ∀ d, (writeAll path bytes).Stops
      ((FileCall.cut path).exec (FileCall.makeDirs.exec ⟨files, [.whole, .whole, .short k]⟩).2).2 d →
      (writeInPlace path bytes).Stops ⟨files, [.whole, .whole, .short k]⟩ d :=
    fun d stops => .next (.next stops)
  cases bytes with
  | nil =>
    refine ⟨_, _, written _ (.here _ _), ?_⟩
    rw [cut, List.take_nil]
    exact Function.update_self path (some []) files
  | cons b rest =>
    rw [cut, writeAll] at written
    refine ⟨_, _, written _ (.next (.here _ _)), ?_⟩
    have room : min ((some k).getD (b :: rest).length) (b :: rest).length = k := Nat.min_eq_left short
    show Function.update (Function.update files path (some [])) path
      (some (((Function.update files path (some []) path).getD []) ++ (b :: rest).take _)) path = _
    rw [Function.update_self, Function.update_self, Option.getD_some, List.nil_append, room]

/-! ## Beside -/

theorem stops_giveUp (apart : path ≠ temp) (stops : (giveUp temp).Stops d t) : t.files path = d.files path := by
  rcases Prog.stops_call.mp stops with rfl | later
  · rfl
  · obtain rfl := Prog.stops_ret.mp later
    exact exec_remove temp d apart

theorem stops_moveOver (apart : path ≠ temp) (there : d.files temp = some bytes)
    (stops : (moveOver temp path).Stops d t) : t.files path = d.files path ∨ t.files path = some bytes := by
  rcases Prog.stops_call.mp stops with rfl | later
  · exact Or.inl rfl
  have synced := exec_sync d
  set d₁ := (FileCall.sync.exec d).2
  have kept := congrFun synced path
  split at later
  · exact Or.inl ((stops_giveUp apart later).trans kept)
  rcases Prog.stops_call.mp later with rfl | later
  · exact Or.inl kept
  rw [← synced] at there
  rcases exec_cases (.rename temp path) d₁ with ⟨failed, same⟩ | ⟨atMost, result, renamed⟩
  · rw [failed] at later
    exact Or.inl ((stops_giveUp apart later).trans ((congrFun same path).trans kept))
  · rw [FileCall.perform, there] at renamed result
    rw [result] at later
    obtain rfl := Prog.stops_ret.mp later
    dsimp only at renamed
    exact Or.inr (by rw [renamed, Function.update_of_ne apart, Function.update_self])

/-- Wherever a rewriting beside is stopped, the file is as it was or new. -/
theorem stops_writeBeside (apart : path ≠ temp) (stops : (writeBeside temp path bytes).Stops d t) :
    t.files path = d.files path ∨ t.files path = some bytes := by
  unfold writeBeside at stops
  rcases Prog.stops_call.mp stops with rfl | later
  · exact Or.inl rfl
  have made := congrFun (exec_makeDirs d) path
  set d₁ := (FileCall.makeDirs.exec d).2
  split at later
  · obtain rfl := Prog.stops_ret.mp later
    exact Or.inl made
  rcases Prog.stops_call.mp later with rfl | later
  · exact Or.inl made
  rcases exec_cases (.createNew temp) d₁ with ⟨failed, same⟩ | ⟨atMost, result, created⟩
  · rw [failed] at later
    exact Or.inl ((stops_giveUp apart later).trans ((congrFun same path).trans made))
  -- A file that is there under the name of the new one is not written over.
  by_cases there : (d₁.files temp).isSome
  · rw [FileCall.perform, if_pos there] at created result
    rw [result] at later
    exact Or.inl ((stops_giveUp apart later).trans ((congrFun created path).trans made))
  rw [FileCall.perform, if_neg there] at created result
  dsimp only at created
  rw [result] at later
  set d₂ := ((FileCall.createNew temp).exec d₁).2
  have empty : d₂.files temp = some [] := by rw [created, Function.update_self]
  have written : ∀ {t : Drive}, (writeAll temp bytes).Stops d₂ t → t.files path = d.files path := by
    intro t writing
    obtain ⟨k, -, files⟩ := stops_writeAll empty writing
    rw [files, Function.update_of_ne apart, created, Function.update_of_ne apart, made]
  have kept := written (Prog.stops_end (writeAll temp bytes) d₂)
  rcases Prog.stops_bind.mp later with writing | later
  · exact Or.inl (written writing)
  split at later
  · exact Or.inl ((stops_giveUp apart later).trans kept)
  · rename_i done
    have whole : ((writeAll temp bytes).run d₂).2.files temp = some bytes := by
      rw [run_writeAll empty (by simpa using done), Function.update_self, List.nil_append]
    exact (stops_moveOver apart whole later).imp_left (fun same => same.trans kept)

end Calls

end Parler.Lib
