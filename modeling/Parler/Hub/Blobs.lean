import Parler.Lib.Holders
import Parler.Hub.Demo
import Parler.Hub.Footprint
import Parler.Hub.Specs

/-!
# Blob uploads and the disk budget

An upload is checked against the disk budget when it is reserved, and its bytes count when it
finishes. The module says in which order an upload makes its calls and what each call does to the
blob rows, and adds up what is stored and what is reserved.
-/

namespace Parler.Hub

open Parler.Lib Parler.Protocol

open Handler

variable {cfg : HubConfig}

/-! ## Uploads -/

/-- The declared size of the upload that a request is. -/
def Request.uploadSize : Request → Nat
  | .frame _ (.putBlob _ _ size _) _ _ _ => size
  | _ => 0

/-- The call found room for `size` bytes within the disk budget. -/
def grantsUpload (size : Nat) : HubDone cfg → Bool
  | ⟨.totalBlobBytes, used⟩ => (used : Int).toNat + size ≤ cfg.maxBlobDirBytes
  | _ => false

/-- The call ends a reservation: the bytes count as stored, or the upload is given up. -/
def endsUpload : HubDone cfg → Bool
  | ⟨.putBlobMeta .., _⟩ | ⟨.releaseUpload _, _⟩ => true
  | _ => false

/-- The request has been promised room and has not used it yet. -/
def reserves (req : Request) (past : List (HubDone cfg)) : Bool :=
  past.any (grantsUpload req.uploadSize) && !past.any endsUpload

/-- The request has written the file of the id. -/
def WroteFile (past : List (HubDone cfg)) (id : String) : Prop :=
  ∃ bytes, ⟨.writeBlobFile id bytes, ()⟩ ∈ past

/-- The metadata of an upload is written under a reservation, for its declared size, after the file,
    and a file is named by its content. -/
def blobRule (req : Request) (past : List (HubDone cfg)) : HubCall → Prop
  | .writeBlobFile id bytes => cfg.ext.contentId bytes = id
  | .putBlobMeta id _ _ _ size _ =>
      size = req.uploadSize ∧ reserves req past = true ∧ WroteFile past id
  | _ => True

/-- The calls that the rule says nothing about and that leave a reservation as it is. -/
@[simp]
def HubCall.beside : HubCall → Prop
  | .writeBlobFile .. | .putBlobMeta .. | .releaseUpload _ => False
  | _ => True

theorem blobRule_beside (req : Request) (past : List (HubDone cfg)) (op : HubCall)
    (beside : op.beside) : blobRule req past op := by
  cases op <;> trivial

theorem reserves_cons {req : Request} {past : List (HubDone cfg)}
    (reserved : reserves req past = true) {d : HubDone cfg} (goes : endsUpload d = false) :
    reserves req (d :: past) = true := by
  simp only [reserves, Bool.and_eq_true, Bool.not_eq_true'] at reserved ⊢
  exact ⟨by simp [reserved.1], by simp [goes, reserved.2]⟩

theorem endsUpload_beside {op : HubCall} (beside : op.beside) (r : op.Res) :
    endsUpload (⟨op, r⟩ : HubDone cfg) = false := by
  cases op <;> first | rfl | exact beside.elim

section Walk

variable (cfg) (me : Authed) (fresh : Fresh)

theorem resolveTarget_beside (target : Target) :
    (resolveTarget cfg me fresh target).Calls HubCall.beside := by
  refine (resolveTarget_madeFor cfg me fresh (.send target [] none none none) rfl).mono ?_
  intro op made
  cases op with
  | writeBlobFile | putBlobMeta | releaseUpload => obtain ⟨_, _, _, _, same⟩ := made; cases same
  | _ => trivial

/-- A reservation ends with the promise, or fails. -/
theorem reserveBlob_reserves (target : Target) (size : Nat) (req : Request)
    (own : req.uploadSize = size) {past : List (HubDone cfg)} (clean : past.any endsUpload = false) :
    (reserveBlob cfg me fresh target size).Ends (fun _ past => reserves req past = true) past := by
  unfold reserveBlob
  simp only [ends_call_bind, fail_bind, ends_ite, ends_fail]
  intro now allowed
  refine ⟨fun _ => trivial, fun _ => ?_⟩
  intro used
  refine ⟨fun _ => trivial, fun fits => ?_⟩
  have granted : reserves req (⟨.totalBlobBytes, used⟩ :: ⟨.rateAllows me.id .blob now, allowed⟩ ::
      ⟨.nowMs, now⟩ :: past) = true := by
    have room : (used : Int).toNat + size ≤ cfg.maxBlobDirBytes := by omega
    simp [reserves, grantsUpload, endsUpload, own, room, clean]
  refine ends_bind (ends_of_calls (I := fun past => reserves req past = true) ?_
    (resolveTarget_beside cfg me fresh target) granted) ?_
  · exact fun op r past beside reserved => reserves_cons reserved (endsUpload_beside beside r)
  · intro room past reserved
    simp only [ends_call_bind, ends_ite, ends_fail, ends_pure]
    intro now allowed
    exact ⟨fun _ => trivial, fun _ => reserves_cons (reserves_cons reserved rfl) rfl⟩

/-- Every upload keeps to the rule. -/
theorem servePutBlob_blobRule (target : Target) (sha256 : String) (size : Nat)
    (mediaType : Option String) (upload : Option (List UInt8)) (req : Request)
    (own : req.uploadSize = size) {past : List (HubDone cfg)} (clean : past.any endsUpload = false) :
    (servePutBlob cfg me fresh target sha256 size mediaType upload).Follows (blobRule req) past := by
  have reserved : (reserveBlob cfg me fresh target size).Ends (fun _ past => reserves req past = true)
      (⟨.acquireUpload (max cfg.maxBlobBytes 1), true⟩ :: past) :=
    reserveBlob_reserves cfg me fresh target size req own (by simpa [endsUpload] using clean)
  refine servePutBlob_walk cfg me fresh target sha256 size mediaType upload
    (I := fun _ past => reserves req past = true) trivial (fun _ => trivial) ?_ reserved ?_
  · have rest : ∀ (f : String → Handler cfg String),
        (∀ room, (f room).Calls HubCall.beside) →
        (resolveTarget cfg me fresh target >>= f).Calls HubCall.beside :=
      fun f => calls_bind (resolveTarget_beside cfg me fresh target)
    have calls : (reserveBlob cfg me fresh target size).Calls HubCall.beside := by
      simp [reserveBlob, rest]
    exact calls.follows (blobRule_beside req) _
  · intro room data past reserved
    simp only [finishBlobUpload, fail_bind, follows_ite, follows_fail, follows_call_bind,
      follows_pure]
    refine ⟨fun _ => trivial, fun sized => ⟨fun _ => trivial, fun _ => ⟨fun _ => trivial, ?_⟩⟩⟩
    intro hashed
    refine ⟨rfl, fun _ => ⟨trivial, fun now => ⟨?_, fun _ => trivial⟩⟩⟩
    refine ⟨?_, reserves_cons (reserves_cons reserved rfl) rfl, data, by simp⟩
    rw [own]
    exact_mod_cast not_not.mp sized

end Walk

/-- Every request keeps to the rule. -/
theorem frame_blobRule (cardBytes : AgentCard → List UInt8) (me : Authed) (frame : ClientFrame) (fresh : Fresh)
    (upload : Option (List UInt8)) (rounds : Nat) :
    (serve cfg cardBytes (.frame me frame fresh upload rounds)).Follows
      (blobRule (.frame me frame fresh upload rounds)) [] := by
  by_cases puts : ∃ target sha256 size mediaType, frame = .putBlob target sha256 size mediaType
  · obtain ⟨target, sha256, size, mediaType, rfl⟩ := puts
    refine dispatch_follows cardBytes me (.putBlob target sha256 size mediaType) fresh upload rounds
      trivial (fun _ => trivial) ?_ ?_ ?_
    · rintro _ _ _ _ _ ⟨⟩
    · rintro _ _ _ _ now allowed ⟨⟩
      exact servePutBlob_blobRule cfg me fresh target sha256 size mediaType upload _ rfl rfl
    · exact fun _ _ => trivial
  · refine Prog.Calls.follows (Q := HubCall.madeFor me fresh frame) ?_
      (serve_madeFor cardBytes me frame fresh upload rounds) []
    intro past op made
    cases op with
    | writeBlobFile | putBlobMeta => exact absurd made puts
    | _ => trivial

theorem serve_blobRule (cardBytes : AgentCard → List UInt8) (req : Request) :
    (serve cfg cardBytes req).Follows (blobRule req) [] := by
  refine serve_follows ?_ (frame_blobRule cardBytes) req
  intro req past op own
  cases op <;> trivial

/-- What a call does to the blob rows. -/
inductive BlobChange (op : HubCall) (s s' : Store) : Prop where
  | same (rows : s'.blobs = s.blobs)
  | put (id room author : String) (mediaType : Option String) (size now : Int)
      (puts : op = .putBlobMeta id room author mediaType size now)
      (rows : s'.blobs = insertNew BlobRow.id ⟨id, mediaType, size, now, none⟩ s.blobs)
  | touched (id : String) (now : Int)
      (rows : s'.blobs = updateWhere (fun b => b.id = id)
        (fun b => { b with lastFetched := some now }) s.blobs)
  | collected (ttlMs now : Int) (collects : op = .gcBlobs ttlMs now)
      (rows : s'.blobs = deleteWhere (fun b => Store.staleBlob (now - ttlMs) b) s.blobs)

theorem blobChange_exec (cfg : HubConfig) (op : HubCall) (h : HubState) :
    BlobChange op h.store (op.exec cfg h).2.store := by
  cases op with
  | putBlobMeta id room author mediaType size now =>
    exact .put id room author mediaType size now rfl rfl
  | touchBlobFetched id now => exact .touched id now rfl
  | gcBlobs ttlMs now => exact .collected ttlMs now rfl rfl
  | _ => exact .same (exec_same cfg _ h .blobs (by simp [HubCall.writes]))

/-! ## The disk budget -/

theorem sum_deleteWhere_le {α : Type} {p : α → Prop} [DecidablePred p] {size : α → Int}
    {table : List α} (positive : ∀ r ∈ table, 0 ≤ size r) :
    ((deleteWhere p table).map size).sum ≤ (table.map size).sum := by
  induction table with
  | nil => exact le_refl _
  | cons r table ih =>
    have rest := ih (fun r member => positive r (List.mem_cons_of_mem _ member))
    have first := positive r List.mem_cons_self
    unfold deleteWhere at rest ⊢
    rw [List.filter_cons]
    split
    · simp only [List.map_cons, List.sum_cons]
      omega
    · rw [List.map_cons, List.sum_cons]
      omega

/-- The sizes of the rows are sizes, and the rows weigh no more than before but for a row that the call puts. -/
theorem BlobChange.total {op : HubCall} {s s' : Store} (change : BlobChange op s s')
    (positive : ∀ b ∈ s.blobs, 0 ≤ b.size)
    (puts : ∀ id room author mediaType size now,
      op = .putBlobMeta id room author mediaType size now → 0 ≤ size) :
    (∀ b ∈ s'.blobs, 0 ≤ b.size) ∧
      (s'.totalBlobBytes ≤ s.totalBlobBytes ∨ ∃ id room author mediaType size now,
        op = .putBlobMeta id room author mediaType size now ∧
          s'.totalBlobBytes ≤ s.totalBlobBytes + size) := by
  unfold Store.totalBlobBytes
  cases change with
  | same rows =>
    rw [rows]
    exact ⟨positive, Or.inl (le_refl _)⟩
  | put id room author mediaType size now call rows =>
    rw [rows]
    have fits := puts id room author mediaType size now call
    refine ⟨?_, Or.inr ⟨id, room, author, mediaType, size, now, call, ?_⟩⟩
    · intro b member
      rcases mem_of_mem_insertNew member with old | rfl
      · exact positive b old
      · exact fits
    · unfold insertNew
      split
      · omega
      · simp
  | touched id now rows =>
    have sizes : s'.blobs.map BlobRow.size = s.blobs.map BlobRow.size := by
      rw [rows, updateWhere, List.map_map]
      refine List.map_congr_left ?_
      intro b _
      dsimp only [Function.comp]
      split <;> rfl
    refine ⟨?_, Or.inl (by rw [sizes])⟩
    intro b member
    have listed := List.mem_map_of_mem (f := BlobRow.size) member
    rw [sizes] at listed
    obtain ⟨b', member', same⟩ := List.mem_map.mp listed
    rw [← same]
    exact positive b' member'
  | collected ttlMs now call rows =>
    rw [rows]
    refine ⟨?_, Or.inl (sum_deleteWhere_le positive)⟩
    intro b member
    exact positive b (mem_deleteWhere.mp member).1

/-- The declared sizes of the uploads that were promised room and have not finished. -/
def reservedBytes (P : HubPool cfg) : Nat := P.pledged reserves Request.uploadSize

/-- A reservation is accepted only when what is stored, what is reserved and its own size fit. -/
def budgeted (P : HubPool cfg) (t : Nat) : HubCall → Prop
  | .totalBlobBytes => ∀ req p, P.threads t = some (req, p) →
      P.state.store.totalBlobBytes.toNat + req.uploadSize ≤ cfg.maxBlobDirBytes →
      P.state.store.totalBlobBytes.toNat + reservedBytes P + req.uploadSize ≤ cfg.maxBlobDirBytes
  | _ => True

theorem reserves_nil (req : Request) : reserves req ([] : List (HubDone cfg)) = false := rfl

section Runs

variable {cardBytes : AgentCard → List UInt8} {inflight : Nat} {P : HubPool cfg}

/-- What is stored and what is reserved fit the budget. -/
def WithinBudget (P : HubPool cfg) : Prop :=
  (∀ b ∈ P.state.store.blobs, 0 ≤ b.size) ∧
    P.state.store.totalBlobBytes + reservedBytes P ≤ cfg.maxBlobDirBytes

theorem sum_nonneg_of_rows {s : Store} (positive : ∀ b ∈ s.blobs, 0 ≤ b.size) :
    0 ≤ s.totalBlobBytes := by
  have rest := sum_deleteWhere_le (p := fun _ => True) positive
  simpa [deleteWhere, Store.totalBlobBytes] using rest

/-- The step lemma of the accounting. -/
theorem WithinBudget.exec {G : HubPool cfg → Nat → HubCall → Prop}
    (reach : Pool.Reachable (serve cfg cardBytes) G (.boot inflight) P) (within : WithinBudget P)
    {t : Nat} {req : Request} {op : HubCall} {next : op.Res → Prog (hubMachine cfg) (List ServerFrame)}
    (pending : P.threads t = some (req, .call op next)) (allowed : budgeted P t op) :
    WithinBudget (P.exec t req op next) := by
  obtain ⟨positive, fits⟩ := within
  have follows : Prog.Follows (blobRule req) (.call op next) (Pool.ownPast P.log t) :=
    ((reach.own (K := fun req p past => p.Follows (blobRule req) past)
      (serve_blobRule cardBytes) (fun _ _ _ _ r follows => follows.2 r)).2 t req _ pending)
  have rule := follows.1
  have change := blobChange_exec cfg op P.state
  have account := Pool.pledged_exec Request.uploadSize reserves_nil pending
  have whole := sum_nonneg_of_rows positive
  obtain ⟨positive', total⟩ := change.total positive (by
    rintro id room author mediaType size now rfl
    rw [rule.1]
    exact Int.natCast_nonneg _)
  refine ⟨positive', ?_⟩
  show (op.exec cfg P.state).2.store.totalBlobBytes + _ ≤ _
  unfold reservedBytes at fits ⊢
  rcases total with less | ⟨id, room, author, mediaType, size, now, rfl, more⟩
  · by_cases held : reserves req (Pool.ownPast P.log t) = true
    · -- A reservation that was held stays or ends.
      rw [if_pos held] at account
      split at account <;> omega
    · rw [if_neg held] at account
      split at account
      · -- The reservation begins with this call, so the call has found room for it.
        rename_i holds
        have granted : grantsUpload req.uploadSize
            (⟨op, (op.exec cfg P.state).1⟩ : HubDone cfg) = true := by
          simp only [reserves, List.any_cons, Bool.and_eq_true, Bool.or_eq_true,
            Bool.not_eq_true', Bool.or_eq_false_iff] at holds held
          rcases holds.1 with granted | earlier
          · exact granted
          · exact absurd ⟨earlier, holds.2.2⟩ held
        cases op with
        | totalBlobBytes =>
          have room : P.state.store.totalBlobBytes.toNat + req.uploadSize ≤ cfg.maxBlobDirBytes := by
            exact of_decide_eq_true granted
          have room := allowed req _ pending room
          unfold reservedBytes at room
          omega
        | _ => cases granted
      · omega
  · -- The bytes are stored and the reservation ends.
    obtain ⟨sized, held, -⟩ := rule
    rw [if_pos held] at account
    have ended : ¬ reserves req (⟨.putBlobMeta id room author mediaType size now,
        (HubCall.exec cfg (.putBlobMeta id room author mediaType size now) P.state).1⟩ ::
          Pool.ownPast P.log t) = true := by
      simp [reserves, endsUpload]
    rw [if_neg ended] at account
    omega

/-- If no reservation is accepted beyond what is stored and reserved, the stored blobs stay within
    the disk budget. -/
theorem blobs_within_budget_unless_overbooked
    (reach : Pool.Reachable (serve cfg cardBytes) budgeted (.boot inflight) P) :
    P.state.store.totalBlobBytes ≤ cfg.maxBlobDirBytes := by
  have within : WithinBudget P := by
    refine Pool.Reachable.induct (I := WithinBudget) ?_ ?_ reach
    · refine ⟨?_, ?_⟩
      · intro b member
        cases member
      · simp [reservedBytes, Store.totalBlobBytes, HubState.boot, Store.empty]
    · intro P Q before within step
      cases step with
      | spawn t req free =>
        have silent := (before.own (K := fun _ _ _ => True) (fun _ => trivial)
          (fun _ _ _ _ _ _ => trivial)).1 t free
        refine ⟨within.1, ?_⟩
        rw [Pool.spawn_state, reservedBytes, Pool.pledged_spawn reserves_nil free silent]
        exact within.2
      | exec t req op next pending enabled allowed => exact within.exec before pending allowed
  have fits := within.2
  omega

end Runs

/-- A hub with room for three bytes, which names content by itself. -/
def tinyConfig : HubConfig :=
  { demoConfig with
    ext := { demoExternals with
      contentId := fun bytes => String.ofList (bytes.map (fun b => Char.ofNat b.toNat)) }
    maxBlobBytes := 2
    maxBlobDirBytes := 3 }

abbrev TinyPool := HubPool tinyConfig

def tinyServe : Request → Prog (hubMachine tinyConfig) (List ServerFrame) :=
  serve tinyConfig (fun _ => [])

/-- Alice uploads two bytes to the room `r`. -/
def tinyUpload (n : Nat) (id : String) (data : List UInt8) : Request :=
  .frame alice (.putBlob (.room "r") id 2 none) (demoFresh n) (some data) 0

/-- Alice opens the room and two uploads arrive. -/
def tinyStart : List (Pool.Action Request) :=
  demoActions 0 [demoFrame 0 alice (.invite .channel (some "r") none none false)] ++
    [Pool.Action.spawn 1 (tinyUpload 1 "ab" [97, 98]), Pool.Action.spawn 2 (tinyUpload 2 "cd" [99, 100])]

def tinyPlay (actions : List (Pool.Action Request)) : TinyPool :=
  (Pool.start demoHub).play tinyServe (tinyStart ++ actions)

def budgetedCheck (P : TinyPool) (t : Nat) : HubCall → Bool
  | .totalBlobBytes =>
      match P.threads t with
      | some (req, _) =>
          !decide (P.state.store.totalBlobBytes.toNat + req.uploadSize ≤ tinyConfig.maxBlobDirBytes) ||
            decide (P.state.store.totalBlobBytes.toNat + reservedBytes P + req.uploadSize ≤
              tinyConfig.maxBlobDirBytes)
      | none => true
  | _ => true

theorem budgeted_of_check (P : TinyPool) (t : Nat) (op : HubCall)
    (passed : budgetedCheck P t op = true) : budgeted P t op := by
  cases op with
  | totalBlobBytes =>
    intro req p at_t room
    simp only [budgetedCheck, at_t] at passed
    simpa [room] using passed
  | _ => trivial

/-- One upload finishes before the other is reserved. -/
def oneByOne : TinyPool :=
  tinyPlay (List.replicate demoSteps (Pool.Action.step 1) ++ List.replicate demoSteps (Pool.Action.step 2))

theorem blobs_within_budget_unless_overbooked_demo :
    oneByOne.state.store.totalBlobBytes = 2 ∧ oneByOne.state.store.totalBlobBytes ≤ 3 := by
  have reach : Pool.Reachable tinyServe budgeted demoHub oneByOne :=
    Pool.play_reachable_of_checks tinyServe budgeted_of_check .refl (by decide +kernel)
  exact ⟨by decide +kernel, blobs_within_budget_unless_overbooked reach⟩

/-- Both uploads are reserved before the first of them finishes. -/
def overbooked : TinyPool :=
  tinyPlay (List.replicate 6 (Pool.Action.step 1) ++ List.replicate demoSteps (Pool.Action.step 2) ++
    List.replicate demoSteps (Pool.Action.step 1))

/-- Two reservations that fit alone store more than the budget together. -/
theorem overbooked_exceeds_budget :
    Pool.Reachable tinyServe Pool.anySchedule demoHub overbooked ∧
      overbooked.state.store.totalBlobBytes = 4 ∧ tinyConfig.maxBlobDirBytes = 3 :=
  ⟨Pool.play_reachable _ _ _, by decide +kernel⟩

end Parler.Hub
