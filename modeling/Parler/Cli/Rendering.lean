import Parler.Cli.Mcp
import Parler.Lib.Slices

/-!
# Showing a message

`short`, `render_parts` and `render_message` of `crates/parler-cli/src/lib.rs`. `short` cuts an id at its twelfth
byte, and the program panics where that byte is inside a character: `none` is a panic.
-/

namespace Parler.Cli

open Parler.Lib Parler.Protocol Parler.Connector

/-! ## Cutting -/

theorem slicesAt_iff {n : Nat} {cs : List Char} :
    SlicesAt n (String.ofList cs) ↔
      String.utf8Len cs ≤ n ∨ ∃ head tail, cs = head ++ tail ∧ String.utf8Len head = n := by
  rw [SlicesAt, String.utf8ByteSize_ofList]
  refine or_congr Iff.rfl ⟨?_, ?_⟩
  · rintro ⟨head, tail, same, size⟩
    refine ⟨head.toList, tail.toList, ?_, ?_⟩
    · rw [← String.toList_append, ← same, String.toList_ofList]
    · rwa [← @String.ofList_toList head, String.utf8ByteSize_ofList] at size
  · rintro ⟨head, tail, rfl, size⟩
    refine ⟨String.ofList head, String.ofList tail, String.ofList_append, ?_⟩
    rw [String.utf8ByteSize_ofList, size]

/-- The first bytes of a text are taken exactly where it can be sliced. -/
theorem takeBytes_isSome {n : Nat} {cs : List Char} :
    (takeBytes n cs).isSome ↔ SlicesAt n (String.ofList cs) := by
  rw [slicesAt_iff]
  induction cs generalizing n with
  | nil => simp [takeBytes]
  | cons c cs ih =>
    have wide := Char.utf8Size_pos c
    cases n with
    | zero => simp [takeBytes]
    | succ n =>
      rw [takeBytes.eq_3 (n + 1) c cs (Nat.succ_ne_zero n), String.utf8Len_cons]
      constructor
      · intro taken
        split_ifs at taken with fits
        · rw [Option.isSome_map, ih] at taken
          rcases taken with all | ⟨head, tail, rfl, size⟩
          · exact Or.inl (by omega)
          · exact Or.inr ⟨c :: head, tail, rfl, by rw [String.utf8Len_cons]; omega⟩
        · cases taken
      · rintro (all | ⟨head, tail, split, size⟩)
        · rw [if_pos (by omega), Option.isSome_map, ih]
          exact Or.inl (by omega)
        · cases head with
          | nil => simp at size
          | cons d head =>
            obtain ⟨rfl, rest⟩ := List.cons.inj split
            rw [String.utf8Len_cons] at size
            rw [if_pos (by omega), Option.isSome_map, ih]
            exact Or.inr ⟨head, tail, rest, by omega⟩

theorem short_isSome {id : String} : (short id).isSome ↔ SlicesAt 12 id := by
  rw [short, Option.isSome_map, takeBytes_isSome, String.ofList_toList]

/-- A run over a list completes exactly where it does for each element. -/
theorem mapM_isSome {α β : Type} {f : α → Option β} {l : List α} :
    (l.mapM f).isSome ↔ ∀ x ∈ l, (f x).isSome := by
  induction l with
  | nil => simp
  | cons x l ih =>
    rw [List.mapM_cons, List.forall_mem_cons, ← ih]
    cases f x with
    | none => simp
    | some y => cases l.mapM f <;> simp

theorem mapM_eq_map {α β : Type} {f : α → Option β} {g : α → β} {l : List α} {ys : List β}
    (same : ∀ x y, f x = some y → y = g x) (all : l.mapM f = some ys) : ys = l.map g := by
  induction l generalizing ys with
  | nil => simpa using all.symm
  | cons x l ih =>
    rw [List.mapM_cons] at all
    obtain ⟨y, first, all⟩ := Option.bind_eq_some_iff.mp all
    obtain ⟨zs, rest, all⟩ := Option.bind_eq_some_iff.mp all
    cases all
    rw [same x y first, ih rest, List.map_cons]

/-! ## Rendering -/

section Render

variable (F : FloatFormat) (verify : String → List UInt8 → String → Bool)

/-- One part in `render_parts`. -/
def tryRenderPart (p : Part) : Option (Option String) :=
  if isMessageSigPart p then some none
  else
    match BundleRef.fromPart p with
    | some b =>
        match b.tip with
        | some tip =>
            (short tip).map fun tip => some ("📦 " ++ b.summary.getD "(bundle)" ++ " @" ++ tip ++ " (" ++
              toString b.size ++ " bytes) — parler apply " ++ b.blob)
        | none => some (renderPart F p)
    | none => some (renderPart F p)

/-- `render_parts` -/
def tryRenderParts (parts : List Part) : Option String :=
  (parts.mapM (tryRenderPart F)).map (fun shown => " ".intercalate (shown.filterMap id))

/-- What `render_message` puts before the body. -/
def messageHead (m : StoredMessage) : String :=
  let who := (m.sender.role.map (fun r => m.sender.name ++ " (" ++ r ++ ")")).getD m.sender.name
  let mark := match verifyMessage F verify m.sender.id m.parts m.replyTo with
    | .valid => ""
    | .unsigned => "⚠ "
    | .invalid => "✗ UNVERIFIED "
  "[" ++ toString m.seq ++ "] " ++ mark ++ who ++ ": "

/-- `render_message` of a message whose rendering does not panic; `tryRenderMessage` has the panics. -/
def renderMessage (m : StoredMessage) : String :=
  let who := (m.sender.role.map (fun r => m.sender.name ++ " (" ++ r ++ ")")).getD m.sender.name
  let mark := match verifyMessage F verify m.sender.id m.parts m.replyTo with
    | .valid => ""
    | .unsigned => "⚠ "
    | .invalid => "✗ UNVERIFIED "
  "[" ++ toString m.seq ++ "] " ++ mark ++ who ++ ": " ++ renderParts F m.parts

/-- `render_message` -/
def tryRenderMessage (m : StoredMessage) : Option String :=
  (tryRenderParts F m.parts).map (fun body => messageHead F verify m ++ body)

/-- If the part is a bundle with a tip, the tip can be shortened. -/
def TipShortens (p : Part) : Prop := ∀ b ∈ BundleRef.fromPart p, ∀ tip ∈ b.tip, SlicesAt 12 tip

def Showable (m : StoredMessage) : Prop := ∀ p ∈ m.parts, TipShortens p

variable {F} {verify}

theorem fromPart_of_sig {p : Part} (sig : isMessageSigPart p = true) : BundleRef.fromPart p = none := by
  cases p with
  | text text => rfl
  | data value => rfl
  | extension kind fields =>
    have kinds : kind = messageSigKind := by simpa [isMessageSigPart] using sig
    have other : messageSigKind ≠ bundleKind := by decide +kernel
    rw [BundleRef.fromPart, kinds, if_neg other]

theorem tryRenderPart_isSome {p : Part} : (tryRenderPart F p).isSome ↔ TipShortens p := by
  rw [tryRenderPart, TipShortens]
  split_ifs with sig
  · simp [fromPart_of_sig sig]
  · cases bundle : BundleRef.fromPart p with
    | none => simp
    | some b =>
      cases tip : b.tip with
      | none => simp [tip]
      | some tip' => simp [tip, short_isSome]

theorem tryRenderPart_eq {p : Part} {shown : Option String} (done : tryRenderPart F p = some shown) :
    shown = renderPart F p := by
  rw [tryRenderPart] at done
  split_ifs at done with sig
  · cases done
    rw [renderPart.eq_def, if_pos sig]
  · cases bundle : BundleRef.fromPart p with
    | none => simpa [bundle] using done.symm
    | some b =>
      cases tip : b.tip with
      | none => simpa [bundle, tip] using done.symm
      | some tip' =>
        simp only [bundle, tip, Option.map_eq_some_iff] at done
        obtain ⟨kept, is_short, rfl⟩ := done
        rw [renderPart.eq_def, if_neg sig]
        simp [bundle, tip, is_short, String.append_assoc]

theorem tryRenderParts_isSome {parts : List Part} :
    (tryRenderParts F parts).isSome ↔ ∀ p ∈ parts, TipShortens p := by
  rw [tryRenderParts, Option.isSome_map, mapM_isSome]
  exact forall₂_congr (fun p _ => tryRenderPart_isSome)

/-- Where it does not panic, the body is the one of `renderParts`. -/
theorem tryRenderParts_eq {parts : List Part} {body : String} (done : tryRenderParts F parts = some body) :
    body = renderParts F parts := by
  obtain ⟨shown, all, rfl⟩ := Option.map_eq_some_iff.mp done
  rw [mapM_eq_map (fun p s => tryRenderPart_eq) all, renderParts, List.filterMap_map]
  rfl

theorem tryRenderMessage_isSome {m : StoredMessage} : (tryRenderMessage F verify m).isSome ↔ Showable m := by
  rw [tryRenderMessage, Option.isSome_map, tryRenderParts_isSome]
  rfl

theorem tryRenderMessage_eq {m : StoredMessage} {line : String}
    (done : tryRenderMessage F verify m = some line) : line = renderMessage F verify m := by
  obtain ⟨body, shown, rfl⟩ := Option.map_eq_some_iff.mp done
  rw [tryRenderParts_eq shown]
  rfl

end Render

end Parler.Cli
