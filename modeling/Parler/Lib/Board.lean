import Parler.Lib.Dialogue

/-!
# Programs that share a board

Any number of programs, and others, post on a board; a call of a program may show it posts of the
board and may put one there. What else the programs share has a state of its own, on which the answers
of calls may rest. Nothing else is said about what is between the programs and the board: posts may be
shown late, again, in any order or never, and a post may be lost.
-/

namespace Parler.Lib

/-- A post and the program that put it on the board, if one of them did. -/
structure Entry (β : Type) where
  author : Option Nat
  post : β

/-- What goes on around the programs: what a program started with an argument does, what is shared at
    first and when a program starts or stops, what is shared after a call if it may get an answer by a
    chance, which posts an answer shows, which posts a call may put on the board, and which posts are
    new to a board. -/
structure Wall (Op : Type) (Res : Op → Type) (β κ α τ ν : Type) where
  boot : κ → Prog (talk Op Res) α
  shared : τ
  begins : Nat → κ → τ → τ
  ends : Nat → κ → τ → τ
  serve : Nat → κ → (op : Op) → Res op → ν → τ → Option τ
  shows : (op : Op) → Res op → List β
  posts : κ → Op → β → Prop
  fresh : List β → β → Prop

/-- The board, what else is shared, the programs with their arguments, how many were started, and their
    turns, newest first. -/
structure Board (Op : Type) (Res : Op → Type) (β κ α τ : Type) where
  entries : List (Entry β)
  shared : τ
  programs : Nat → Option (κ × Prog (talk Op Res) α)
  arguments : Nat → Option κ
  started : Nat
  log : List (Turn (talk Op Res))

namespace Board

variable {Op β κ α τ ν : Type} {Res : Op → Type} {E : Wall Op Res β κ α τ ν} {w w' : Board Op Res β κ α τ}

variable (E) in
def empty : Board Op Res β κ α τ := ⟨[], E.shared, fun _ => none, fun _ => none, 0, []⟩

/-- What is on the board. -/
def posts (w : Board Op Res β κ α τ) : List β := w.entries.map Entry.post

variable (E) in
/-- The steps: someone else posts, a program is started or stops, and a program makes its next call,
    which may put a post on the board. -/
inductive Step : Board Op Res β κ α τ → Board Op Res β κ α τ → Prop where
  | outside {w : Board Op Res β κ α τ} (post : β) (new : E.fresh w.posts post) :
      Step w { w with entries := ⟨none, post⟩ :: w.entries }
  | start {w : Board Op Res β κ α τ} (argument : κ) :
      Step w { w with
        shared := E.begins w.started argument w.shared
        programs := fun n => if n = w.started then some (argument, E.boot argument) else w.programs n
        arguments := fun n => if n = w.started then some argument else w.arguments n
        started := w.started + 1 }
  | stop {w : Board Op Res β κ α τ} (n : Nat) (argument : κ) :
      w.arguments n = some argument →
        Step w { w with
          shared := E.ends n argument w.shared
          programs := fun m => if m = n then none else w.programs m }
  | turn {w : Board Op Res β κ α τ} (n : Nat) (argument : κ) (op : Op) (next : Res op → Prog (talk Op Res) α)
      (r : Res op) (chance : ν) (shared : τ) (posted : Option β) :
      w.programs n = some (argument, .call op next) →
      E.serve n argument op r chance w.shared = some shared →
      (∀ post ∈ E.shows op r, post ∈ w.posts) →
      (∀ post, posted = some post → E.posts argument op post ∧ E.fresh w.posts post) →
        Step w { w with
          entries := (posted.map (fun post => ⟨some n, post⟩)).toList ++ w.entries
          shared := shared
          programs := fun m => if m = n then some (argument, next r) else w.programs m
          log := ⟨n, ⟨op, r⟩⟩ :: w.log }

variable (E) in
def Reachable (w : Board Op Res β κ α τ) : Prop := Relation.ReflTransGen (Step E) (empty E) w

/-! ## What holds in every run -/

/-- The invariant rule. -/
theorem Reachable.invariant {I : Board Op Res β κ α τ → Prop} (start : I (empty E))
    (step : ∀ w w', I w → Step E w w' → I w') (reach : Reachable E w) : I w := by
  induction reach with
  | refl => exact start
  | tail _ last ih => exact step _ _ ih last

/-- Only a program that was started has an argument, is running or speaks. -/
theorem Reachable.numbered (reach : Reachable E w) :
    (∀ n argument, w.arguments n = some argument → n < w.started) ∧
      (∀ n argument p, w.programs n = some (argument, p) → w.arguments n = some argument) ∧
      ∀ turn ∈ w.log, turn.speaker < w.started := by
  refine Reachable.invariant (I := fun w =>
    (∀ n argument, w.arguments n = some argument → n < w.started) ∧
      (∀ n argument p, w.programs n = some (argument, p) → w.arguments n = some argument) ∧
      ∀ turn ∈ w.log, turn.speaker < w.started) ⟨nofun, nofun, nofun⟩ ?_ reach
  rintro w w' ⟨below, running, spoken⟩ step
  cases step with
  | outside post new => exact ⟨below, running, spoken⟩
  | start argument =>
    refine ⟨?_, ?_, fun turn member => Nat.lt_succ_of_lt (spoken turn member)⟩
    · intro n a has
      dsimp only at has ⊢
      split at has
      · omega
      · exact Nat.lt_succ_of_lt (below n a has)
    · intro n a p runs
      dsimp only at runs ⊢
      split at runs
      · cases runs
        rw [if_pos (by assumption)]
      · rw [if_neg (by assumption)]
        exact running n a p runs
  | stop m argument had =>
    refine ⟨below, ?_, spoken⟩
    intro n a p runs
    dsimp only at runs
    split at runs
    · cases runs
    · exact running n a p runs
  | turn m argument op next r chance shared posted pending =>
    refine ⟨below, ?_, ?_⟩
    · intro n a p runs
      dsimp only at runs
      split at runs
      · rename_i same
        cases runs
        rw [same]
        exact running m argument _ pending
      · exact running n a p runs
    · intro turn member
      rcases List.mem_cons.mp member with rfl | old
      · exact below m argument (running m argument _ pending)
      · exact spoken turn old

/-- A program that was not started has made no turns. -/
theorem Reachable.silent (reach : Reachable E w) {n : Nat} (later : w.started ≤ n) :
    turnsOf w.log n = [] := by
  rw [turnsOf, List.filter_eq_nil_iff.mpr]
  · rfl
  · intro turn member
    have old := reach.numbered.2.2 turn member
    simp only [decide_eq_true_eq]
    omega

/-- Every answer is as all that calls may get are, and shows what is on the board. -/
theorem Reachable.answered {Q : (op : Op) → Res op → Prop}
    (sound : ∀ n argument op r chance s s', E.serve n argument op r chance s = some s' → Q op r)
    (reach : Reachable E w) :
    ∀ turn ∈ w.log, Q turn.done.1 turn.done.2 ∧
      ∀ post ∈ E.shows turn.done.1 turn.done.2, post ∈ w.posts := by
  refine Reachable.invariant (I := fun w => ∀ turn ∈ w.log, Q turn.done.1 turn.done.2 ∧
    ∀ post ∈ E.shows turn.done.1 turn.done.2, post ∈ w.posts) nofun ?_ reach
  intro w w' told step
  cases step with
  | outside post new =>
    intro turn member
    obtain ⟨holds, shown⟩ := told turn member
    exact ⟨holds, fun post shows => List.mem_cons_of_mem _ (shown post shows)⟩
  | start argument => exact told
  | stop m argument had => exact told
  | turn m argument op next r chance shared posted pending served shown =>
    have grows : ∀ post ∈ w.posts, post ∈
        ((posted.map (fun post => (⟨some m, post⟩ : Entry β))).toList ++ w.entries).map Entry.post := by
      intro post old
      rw [List.map_append]
      exact List.mem_append_right _ old
    intro turn member
    rcases List.mem_cons.mp member with rfl | old
    · exact ⟨sound _ _ _ _ _ _ _ served, fun post shows => grows post (shown post shows)⟩
    · exact ⟨(told turn old).1, fun post shows => grows post ((told turn old).2 post shows)⟩

variable {C : κ → List (Done (talk Op Res)) → Op → Prop}

/-- The discipline rule: what every program follows that is started, every turn followed with
    respect to the earlier turns of its program. -/
theorem Reachable.followed (boots : ∀ argument, (E.boot argument).Follows (C argument) [])
    (reach : Reachable E w) {n : Nat} {later earlier : List (Done (talk Op Res))}
    {d : Done (talk Op Res)} (split : turnsOf w.log n = later ++ d :: earlier) :
    ∃ argument, w.arguments n = some argument ∧ C argument earlier d.1 := by
  have related : (∀ n argument p, w.programs n = some (argument, p) →
        p.Follows (C argument) (turnsOf w.log n)) ∧
      ∀ n later d earlier, turnsOf w.log n = later ++ d :: earlier →
        ∃ argument, w.arguments n = some argument ∧ C argument earlier d.1 := by
    refine Reachable.invariant (I := fun w => Reachable E w ∧
      (∀ n argument p, w.programs n = some (argument, p) →
        p.Follows (C argument) (turnsOf w.log n)) ∧
      ∀ n later d earlier, turnsOf w.log n = later ++ d :: earlier →
        ∃ argument, w.arguments n = some argument ∧ C argument earlier d.1)
      ⟨.refl, nofun, fun n later d earlier empty => by simp [Board.empty, turnsOf] at empty⟩ ?_
      reach |>.2
    rintro w w' ⟨before, follows, followed⟩ step
    refine ⟨before.tail step, ?_⟩
    cases step with
    | outside post new => exact ⟨follows, followed⟩
    | start argument =>
      refine ⟨?_, ?_⟩
      · intro n a p runs
        dsimp only at runs ⊢
        split at runs
        · rename_i new
          cases runs
          rw [before.silent (Nat.le_of_eq new.symm)]
          exact boots argument
        · exact follows n a p runs
      · intro n later d earlier split
        obtain ⟨a, has, held⟩ := followed n later d earlier split
        have old : n ≠ w.started := Nat.ne_of_lt (before.numbered.1 n a has)
        exact ⟨a, by simpa [old] using has, held⟩
    | stop m argument had =>
      refine ⟨?_, followed⟩
      intro n a p runs
      dsimp only at runs
      split at runs
      · cases runs
      · exact follows n a p runs
    | turn m argument op next r chance shared posted pending =>
      have own := follows m argument _ pending
      refine ⟨?_, ?_⟩
      · intro n a p runs
        dsimp only at runs ⊢
        rw [turnsOf_cons]
        split at runs
        · rename_i same
          cases runs
          rw [if_pos same.symm, same]
          exact own.2 r
        · rename_i other
          rw [if_neg (Ne.symm other)]
          exact follows n a p runs
      · intro n later d earlier split
        rw [turnsOf_cons] at split
        by_cases same : m = n
        · rw [if_pos same] at split
          cases later with
          | nil =>
            cases split
            rw [← same]
            exact ⟨argument, before.numbered.2.1 m argument _ pending, own.1⟩
          | cons first later =>
            rw [List.cons_append, List.cons.injEq] at split
            exact followed n later d earlier split.2
        · rw [if_neg same] at split
          exact followed n later d earlier split
  exact related.2 n later d earlier split

/-- What a program has on the board, it put there by one of its turns. -/
theorem Reachable.written (reach : Reachable E w) {e : Entry β} (member : e ∈ w.entries) {n : Nat}
    (own : e.author = some n) :
    ∃ argument later d earlier, w.arguments n = some argument ∧
      turnsOf w.log n = later ++ d :: earlier ∧ E.posts argument d.1 e.post := by
  have written : ∀ e ∈ w.entries, ∀ n, e.author = some n → ∃ argument later d earlier,
      w.arguments n = some argument ∧ turnsOf w.log n = later ++ d :: earlier ∧
        E.posts argument d.1 e.post := by
    refine Reachable.invariant (I := fun w => Reachable E w ∧ ∀ e ∈ w.entries, ∀ n,
      e.author = some n → ∃ argument later d earlier, w.arguments n = some argument ∧
        turnsOf w.log n = later ++ d :: earlier ∧ E.posts argument d.1 e.post) ⟨.refl, nofun⟩ ?_
      reach |>.2
    rintro w w' ⟨before, written⟩ step
    refine ⟨before.tail step, ?_⟩
    cases step with
    | outside post new =>
      intro e member n own
      rcases List.mem_cons.mp member with rfl | old
      · cases own
      · exact written e old n own
    | start argument =>
      intro e member n own
      obtain ⟨a, later, d, earlier, has, split, posts⟩ := written e member n own
      have old : n ≠ w.started := Nat.ne_of_lt (before.numbered.1 n a has)
      exact ⟨a, later, d, earlier, by simpa [old] using has, split, posts⟩
    | stop m argument had => exact written
    | turn m argument op next r chance shared posted pending served shown puts =>
      intro e member n own
      dsimp only at member ⊢
      rw [turnsOf_cons]
      rcases List.mem_append.mp member with new | old
      · obtain ⟨post, is, rfl⟩ : ∃ post, posted = some post ∧ ⟨some m, post⟩ = e := by
          simpa using new
        cases own
        rw [if_pos rfl]
        exact ⟨argument, [], ⟨op, r⟩, _, before.numbered.2.1 m argument _ pending, rfl,
          (puts post is).1⟩
      · obtain ⟨a, later, d, earlier, has, split, posts⟩ := written e old n own
        by_cases same : m = n
        · rw [if_pos same, split]
          exact ⟨a, ⟨op, r⟩ :: later, d, earlier, has, rfl, posts⟩
        · rw [if_neg same]
          exact ⟨a, later, d, earlier, has, split, posts⟩
  exact written e member n own

/-- A program has no more posts of a kind on the board than it made calls that may put them
    there. -/
theorem Reachable.count_written {q : β → Bool} {p : Op → Bool}
    (puts : ∀ argument op post, E.posts argument op post → q post = true → p op = true)
    (reach : Reachable E w) (n : Nat) :
    w.entries.countP (fun e => e.author = some n ∧ q e.post) ≤
      (turnsOf w.log n).countP (fun d => p d.1) := by
  refine Reachable.invariant (I := fun w => ∀ n, w.entries.countP (fun e => e.author = some n ∧
    q e.post) ≤ (turnsOf w.log n).countP (fun d => p d.1)) (fun _ => Nat.zero_le _) ?_ reach n
  intro w w' counted step n
  cases step with
  | outside post new => simpa using counted n
  | start argument => exact counted n
  | stop m argument had => exact counted n
  | turn m argument op next r chance shared posted pending served shown posts =>
    have old := counted n
    dsimp only
    rw [turnsOf_cons, List.countP_append]
    by_cases same : m = n
    · subst same
      rw [if_pos rfl, List.countP_cons]
      cases posted with
      | none =>
        rw [Option.map_none, Option.toList_none, List.countP_nil]
        omega
      | some post =>
        rw [Option.map_some, Option.toList_some, List.countP_cons, List.countP_nil]
        by_cases kind : q post = true
        · rw [if_pos (puts argument op post (posts post rfl).1 kind)]
          split <;> omega
        · rw [if_neg (by simp [kind])]
          omega
    · rw [if_neg same]
      cases posted with
      | none => simpa using old
      | some post => simpa [same] using old

/-- Posts that are new to the board differ from what is there. -/
theorem Reachable.distinct {ι : Type} {f : β → ι}
    (new : ∀ posts post, E.fresh posts post → f post ∉ posts.map f) (reach : Reachable E w) :
    (w.posts.map f).Nodup := by
  refine Reachable.invariant (I := fun w => (w.posts.map f).Nodup) List.nodup_nil ?_ reach
  intro w w' nodup step
  cases step with
  | outside post fresh => exact List.nodup_cons.mpr ⟨new _ _ fresh, nodup⟩
  | start argument => exact nodup
  | stop m argument had => exact nodup
  | turn m argument op next r chance shared posted pending served shown posts =>
    cases posted with
    | none => exact nodup
    | some post => exact List.nodup_cons.mpr ⟨new _ _ (posts post rfl).2, nodup⟩

/-! ## Playing -/

section Play

/-- A step to be made. -/
inductive Move (Op : Type) (Res : Op → Type) (β κ ν : Type) where
  | outside (post : β)
  | start (argument : κ)
  | turn (n : Nat) (answers : (op : Op) → Res op) (chance : ν) (posted : Option β)

variable (E) [DecidableEq β] [∀ argument op post, Decidable (E.posts argument op post)]
  [∀ posts post, Decidable (E.fresh posts post)]

/-- Whether a call with an answer fits a board and may put up a post. -/
def fits (posts : List β) (argument : κ) (op : Op) (r : Res op) (posted : Option β) : Bool :=
  (∀ post ∈ E.shows op r, post ∈ posts) ∧
    ∀ post ∈ posted.toList, E.posts argument op post ∧ E.fresh posts post

variable {E} in
theorem fits_iff {posts : List β} {argument : κ} {op : Op} {r : Res op} {posted : Option β} :
    fits E posts argument op r posted = true ↔ (∀ post ∈ E.shows op r, post ∈ posts) ∧
      ∀ post ∈ posted.toList, E.posts argument op post ∧ E.fresh posts post :=
  decide_eq_true_iff

/-- Make a step; one that is not possible does nothing. -/
def act (w : Board Op Res β κ α τ) : Move Op Res β κ ν → Board Op Res β κ α τ
  | .outside post =>
      if E.fresh w.posts post then { w with entries := ⟨none, post⟩ :: w.entries } else w
  | .start argument =>
      { w with
        shared := E.begins w.started argument w.shared
        programs := fun n => if n = w.started then some (argument, E.boot argument) else w.programs n
        arguments := fun n => if n = w.started then some argument else w.arguments n
        started := w.started + 1 }
  | .turn n answers chance posted =>
      match w.programs n with
      | some (argument, .call op next) =>
          match E.serve n argument op (answers op) chance w.shared with
          | some shared =>
              if fits E w.posts argument op (answers op) posted then
                { w with
                  entries := (posted.map (fun post => ⟨some n, post⟩)).toList ++ w.entries
                  shared := shared
                  programs := fun m => if m = n then some (argument, next (answers op)) else w.programs m
                  log := ⟨n, ⟨op, answers op⟩⟩ :: w.log }
              else w
          | none => w
      | _ => w

/-- The board after a number of steps, each chosen at the board it is made at. -/
def play (moves : List (Board Op Res β κ α τ → Move Op Res β κ ν)) : Board Op Res β κ α τ :=
  moves.foldl (fun w move => w.act E (move w)) (empty E)

theorem act_reachable (reach : Reachable E w) (move : Move Op Res β κ ν) : Reachable E (w.act E move) := by
  cases move with
  | outside post =>
    rw [act]
    split
    · rename_i new
      exact reach.tail (.outside post new)
    · exact reach
  | start argument => exact reach.tail (.start argument)
  | turn n answers chance posted =>
    rw [act]
    split
    · rename_i argument op next pending
      split
      · rename_i shared served
        split
        · rename_i able
          obtain ⟨shown, puts⟩ := fits_iff.mp able
          refine reach.tail (.turn n argument op next (answers op) chance shared posted pending served
            shown ?_)
          intro post is
          exact puts post (by simp [is])
        · exact reach
      · exact reach
    · exact reach

theorem play_reachable (moves : List (Board Op Res β κ α τ → Move Op Res β κ ν)) :
    Reachable E (play E moves) := by
  have every : ∀ w, Reachable E w → Reachable E (moves.foldl (fun w move => w.act E (move w)) w) := by
    induction moves with
    | nil => exact fun w reach => reach
    | cons move moves ih => exact fun w reach => ih _ (act_reachable E reach (move w))
  exact every (empty E) .refl

end Play

end Board

/-! ## Counting -/

/-- What is of a kind in a history is at most the allowance, when each was within the allowance of
    what had gone before. -/
theorem countP_le_allowance {γ : Type} {p : γ → Bool} {c : List γ → Nat} {l : List γ}
    (grows : ∀ d l, c l ≤ c (d :: l))
    (within : ∀ later d earlier, l = later ++ d :: earlier → p d = true →
      earlier.countP p < c earlier) : l.countP p ≤ c l := by
  induction l with
  | nil => exact Nat.zero_le _
  | cons d l ih =>
    have before := ih (fun later d' earlier split => within (d :: later) d' earlier (by rw [split]; rfl))
    have more := grows d l
    rw [List.countP_cons]
    by_cases kind : p d = true
    · have room := within [] d l rfl kind
      rw [if_pos kind]
      omega
    · rw [if_neg kind]
      omega

/-- What a list has of a kind is at most `k` for each index, when each such element belongs to an
    index. -/
theorem countP_le_mul {γ ι : Type} {p : γ → Bool} {l : List γ} {indices : List ι}
    {f : ι → γ → Bool} {k : Nat} (covered : ∀ x ∈ l, p x = true → ∃ i ∈ indices, f i x = true)
    (few : ∀ i ∈ indices, l.countP (fun x => p x && f i x) ≤ k) :
    l.countP p ≤ indices.length * k := by
  induction indices generalizing p with
  | nil =>
    have none : l.countP p = 0 := by
      rw [List.countP_eq_zero]
      intro x member holds
      obtain ⟨i, impossible, -⟩ := covered x member holds
      cases impossible
    omega
  | cons i indices ih =>
    have rest := ih (p := fun x => p x && !f i x) (by
      intro x member holds
      obtain ⟨j, among, hit⟩ := covered x member (by simp_all)
      rcases List.mem_cons.mp among with rfl | later
      · simp [hit] at holds
      · exact ⟨j, later, hit⟩) (by
      intro j among
      refine Nat.le_trans (List.countP_mono_left ?_) (few j (List.mem_cons_of_mem i among))
      intro x _ holds
      simp_all)
    have first := few i List.mem_cons_self
    have split : l.countP p = l.countP (fun x => p x && f i x) +
        l.countP (fun x => p x && !f i x) := by
      rw [List.countP_eq_countP_filter_add (p := p) (q := f i)]
      congr 1 <;> rw [List.countP_filter]
    rw [List.length_cons, Nat.add_mul, Nat.one_mul]
    omega

end Parler.Lib
