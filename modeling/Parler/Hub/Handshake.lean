import Mathlib.Data.List.TakeWhile
import Parler.Hub.Tables

/-!
# Challenges and secrets

The text of the challenge that a connection signs, its check, and the comparison of
join secrets (`server.rs:2764-2818`). A challenge names the hub and the time at which
it expires; the check reads both back from the text.
-/

namespace Parler.Hub

open Parler.Lib Parler.Protocol

/-- `str::as_bytes` -/
def utf8 (s : String) : List UInt8 := s.toByteArray.data.toList

theorem utf8_injective {s t : String} (same : utf8 s = utf8 t) : s = t :=
  String.toByteArray_inj.mp (ByteArray.ext (Array.toList_inj.mp same))

/-! ## Reading a challenge -/

/-- One step of `split(':')`: the piece before the next colon, and the text after it. -/
def nextPiece (cs : List Char) : List Char × Option (List Char) :=
  (cs.takeWhile (· ≠ ':'), (cs.dropWhile (· ≠ ':')).tail?)

theorem nextPiece_append {piece : List Char} (whole : ':' ∉ piece) (rest : List Char) :
    nextPiece (piece ++ ':' :: rest) = (piece, some rest) := by
  have plain : ∀ c ∈ piece, (decide (c ≠ ':')) = true := by
    intro c member
    refine decide_eq_true ?_
    rintro rfl
    exact whole member
  unfold nextPiece
  rw [List.takeWhile_append_of_pos plain, List.dropWhile_append_of_pos plain]
  simp

theorem colon_notMem_nextPiece (cs : List Char) : ':' ∉ (nextPiece cs).1 := by
  intro member
  have plain := List.mem_takeWhile_imp member
  simp at plain

/-- `str::parse::<i64>` -/
def parseI64 (cs : List Char) : Option Int :=
  let (negative, digits) := match cs with
    | '-' :: digits => (true, digits)
    | '+' :: digits => (false, digits)
    | digits => (false, digits)
  if digits.isEmpty || !digits.all Char.isDigit then none
  else
    let n : Int := Nat.ofDigitChars 10 digits 0
    let value := if negative then -n else n
    if -2 ^ 63 ≤ value ∧ value < 2 ^ 63 then some value else none

/-- What an integer is printed as is read as that integer, if at all. -/
theorem parseI64_intText {n value : Int} (read : parseI64 (intText n) = some value) : value = n := by
  have unsigned : ∀ (m : Nat) (c : Char), c.isDigit = false →
      ∀ rest, Nat.toDigits 10 m ≠ c :: rest := by
    intro m c sign rest equal
    have digit : c.isDigit := toDigits_isDigit (n := m) (by rw [equal]; exact List.mem_cons_self)
    rw [sign] at digit
    cases digit
  cases n with
  | ofNat m =>
    have positive : (match Nat.toDigits 10 m with
        | '-' :: digits => (true, digits)
        | '+' :: digits => (false, digits)
        | digits => (false, digits)) = (false, Nat.toDigits 10 m) := by
      split
      · rename_i equal
        exact absurd equal (unsigned m '-' (by decide) _)
      · rename_i equal
        exact absurd equal (unsigned m '+' (by decide) _)
      · rfl
    simp only [parseI64, intText, positive, Nat.ofDigitChars_ten_toDigits,
      Option.ite_none_left_eq_some, Option.ite_none_right_eq_some, Option.some.injEq] at read
    obtain ⟨-, -, rfl⟩ := read
    rfl
  | negSucc m =>
    simp only [parseI64, intText, Nat.ofDigitChars_ten_toDigits, Option.ite_none_left_eq_some,
      Option.ite_none_right_eq_some, Option.some.injEq] at read
    obtain ⟨-, -, rfl⟩ := read
    rfl

/-! ## Challenges -/

/-- A challenge is valid for a minute. -/
def challengeTtlMs : Int := 60000

/-- The first characters of the content id of the hub's address. -/
def hubToken (ext : Externals) (publicUrl : String) : List Char :=
  (ext.contentId (utf8 publicUrl)).toList.take 12

/-- `parler-auth:v1:<hub>:<exp-ms>:<rand>` -/
def issueChallenge (ext : Externals) (publicUrl : String) (now : Int) (uuid : String) : String :=
  String.ofList ("parler-auth".toList ++ ':' :: ("v1".toList ++ ':' :: (hubToken ext publicUrl ++
    ':' :: (intText (now + challengeTtlMs) ++ ':' :: uuid.toList))))

/-- The hub and the expiry that a challenge names. -/
def readChallenge (nonce : String) : Option (List Char × Int) := do
  let scheme := nextPiece nonce.toList
  let version := nextPiece (← scheme.2)
  let hub := nextPiece (← version.2)
  let exp ← parseI64 (nextPiece (← hub.2)).1
  if scheme.1 = "parler-auth".toList ∧ version.1 = "v1".toList then some (hub.1, exp) else none

/-- The right shape, our hub, not yet expired. -/
def challengeValid (ext : Externals) (nonce publicUrl : String) (now : Int) : Bool :=
  match readChallenge nonce with
  | some (hub, exp) => hub = hubToken ext publicUrl && now ≤ exp
  | none => false

theorem challengeValid_iff {ext : Externals} {nonce publicUrl : String} {now : Int} :
    challengeValid ext nonce publicUrl now = true ↔
      ∃ exp, readChallenge nonce = some (hubToken ext publicUrl, exp) ∧ now ≤ exp := by
  unfold challengeValid
  cases readChallenge nonce with
  | none => simp
  | some parts =>
    obtain ⟨hub, exp⟩ := parts
    simp [and_assoc]

/-- The expiry read from a challenge that names this hub is the expiry it was issued with. -/
theorem readChallenge_issueChallenge {ext : Externals} {publicUrl uuid : String} {issued exp : Int}
    (read : readChallenge (issueChallenge ext publicUrl issued uuid) =
      some (hubToken ext publicUrl, exp)) : exp = issued + challengeTtlMs := by
  have scheme : ∀ rest, nextPiece ("parler-auth".toList ++ ':' :: rest) =
      ("parler-auth".toList, some rest) := nextPiece_append (by decide)
  have version : ∀ rest, nextPiece ("v1".toList ++ ':' :: rest) = ("v1".toList, some rest) :=
    nextPiece_append (by decide)
  unfold readChallenge issueChallenge at read
  simp only [String.toList_ofList, scheme, version, Option.bind_eq_bind, Option.bind_some,
    Option.bind_eq_some_iff, and_self, if_true, Option.some.injEq, Prod.mk.injEq] at read
  obtain ⟨rest, after, value, parsed, hub, rfl⟩ := read
  -- A piece holds no colon, so neither does the hub's name.
  have hex : ':' ∉ hubToken ext publicUrl := hub ▸ colon_notMem_nextPiece _
  have plain : ':' ∉ intText (issued + challengeTtlMs) := by
    intro member
    exact absurd (intText_number _ _ member) (by decide)
  rw [nextPiece_append hex] at after
  cases after
  rw [nextPiece_append plain] at parsed
  exact parseI64_intText parsed

/-- A challenge that this hub issued is valid for its lifetime only. -/
theorem challengeValid_issueChallenge {ext : Externals} {publicUrl uuid : String} {issued now : Int}
    (valid : challengeValid ext (issueChallenge ext publicUrl issued uuid) publicUrl now = true) :
    now ≤ issued + challengeTtlMs := by
  obtain ⟨exp, read, live⟩ := challengeValid_iff.mp valid
  rw [← readChallenge_issueChallenge read]
  exact live

/-! ## Join secrets -/

/-- Compare a presented join secret without stopping at the first difference. -/
def secretMatches (expected : String) : Option String → Bool
  | none => false
  | some got =>
      let a := utf8 expected
      let b := utf8 got
      if a.length ≠ b.length then false
      else (a.zip b).foldl (fun diff xy => diff ||| (xy.1 ^^^ xy.2)) 0 = (0 : UInt8)

theorem foldl_diff_eq_zero (pairs : List (UInt8 × UInt8)) (diff : UInt8) :
    pairs.foldl (fun diff xy => diff ||| (xy.1 ^^^ xy.2)) diff = 0 ↔
      diff = 0 ∧ ∀ xy ∈ pairs, xy.1 = xy.2 := by
  induction pairs generalizing diff with
  | nil => simp
  | cons xy pairs ih =>
    rw [List.foldl_cons, ih]
    have or_zero : diff ||| (xy.1 ^^^ xy.2) = 0 ↔ diff = 0 ∧ xy.1 = xy.2 := by
      rw [← UInt8.xor_eq_zero_iff (a := xy.1)]
      simp only [← UInt8.toBitVec_inj, UInt8.toBitVec_or]
      exact BitVec.or_eq_zero_iff
    rw [or_zero]
    simp [and_assoc]

theorem secretMatches_iff {expected : String} {got : Option String} :
    secretMatches expected got = true ↔ got = some expected := by
  cases got with
  | none => simp [secretMatches]
  | some got =>
    unfold secretMatches
    dsimp only
    constructor
    · intro passed
      split at passed
      · cases passed
      · rename_i sized
        have equal := ((foldl_diff_eq_zero _ _).mp (of_decide_eq_true passed)).2
        refine congrArg some (utf8_injective ?_)
        refine List.ext_getElem (not_not.mp sized).symm ?_
        intro i here there
        have pair := equal ((utf8 expected)[i], (utf8 got)[i]) ?_
        · exact pair.symm
        · rw [← List.getElem_zip (h := by simp only [List.length_zip]; omega)]
          exact List.getElem_mem _
    · intro same
      cases same
      rw [if_neg (by simp)]
      refine decide_eq_true ((foldl_diff_eq_zero _ _).mpr ⟨rfl, ?_⟩)
      intro xy member
      obtain ⟨i, here, rfl⟩ := List.mem_iff_getElem.mp member
      simp

end Parler.Hub
