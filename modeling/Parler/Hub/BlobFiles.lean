import Parler.Hub.Blobs

/-!
# The file of a blob row

An upload writes its file and then its row; a janitor pass deletes rows and then
unlinks their files. The two keep every row's bytes on disk as long as no file is unlinked after
its content was uploaded again.
-/

namespace Parler.Hub

open Parler.Lib Parler.Protocol

open Handler

variable {cfg : HubConfig}

/-- The file of the id is on disk with the bytes that the id names. -/
def HasBytes (cfg : HubConfig) (h : HubState) (id : String) : Prop :=
  ∃ bytes, rowOf Prod.fst id h.blobFiles = some (id, bytes) ∧ cfg.ext.contentId bytes = id

/-- What a call does to the files. -/
inductive FileChange (op : HubCall) (h h' : HubState) : Prop where
  | same (files : h'.blobFiles = h.blobFiles)
  | wrote (id : String) (bytes : List UInt8) (writes : op = .writeBlobFile id bytes)
      (files : h'.blobFiles = upsert Prod.fst (id, bytes) (fun _ => (id, bytes)) h.blobFiles)
  | removed (id : String) (removes : op = .removeBlobFile id)
      (files : h'.blobFiles = deleteWhere (fun f => f.1 = id) h.blobFiles)

theorem fileChange_exec (cfg : HubConfig) (op : HubCall) (h : HubState) :
    FileChange op h (op.exec cfg h).2 := by
  have kept : op.storeOnly = true → FileChange op h (op.exec cfg h).2 := by
    intro plain
    obtain ⟨s, equal⟩ := exec_storeOnly cfg op h plain
    exact .same (by rw [equal])
  cases op with
  | writeBlobFile id bytes => exact .wrote id bytes rfl rfl
  | removeBlobFile id => exact .removed id rfl rfl
  | acquireUpload n =>
    refine .same ?_
    unfold HubCall.exec
    dsimp only
    split <;> rfl
  | roomRateAllows room kind now => cases kind <;> exact .same rfl
  | tick | rateAllows | lockQuota | unlockQuota | releaseUpload | countMessage | pruneRateWindows =>
    exact .same rfl
  | _ => exact kept rfl

theorem rowOf_written (files : List (String × List UInt8)) (id : String) (bytes : List UInt8) :
    rowOf Prod.fst id (upsert Prod.fst (id, bytes) (fun _ => (id, bytes)) files) =
      some (id, bytes) := by
  rw [rowOf_upsert_self (k := id) rfl (fun _ _ => rfl)]
  cases rowOf Prod.fst id files <;> rfl

/-- Bytes on disk stay there until they are unlinked, if files are named by their content. -/
theorem HasBytes.exec {h : HubState} {id : String} (has : HasBytes cfg h id) {op : HubCall}
    (named : ∀ id bytes, op = .writeBlobFile id bytes → cfg.ext.contentId bytes = id)
    (kept : op ≠ .removeBlobFile id) : HasBytes cfg (op.exec cfg h).2 id := by
  obtain ⟨bytes, found, hash⟩ := has
  cases fileChange_exec cfg op h with
  | same files => exact ⟨bytes, by rw [files]; exact found, hash⟩
  | wrote id' bytes' writes files =>
    by_cases own : id = id'
    · subst own
      exact ⟨bytes', by rw [files, rowOf_written], named id bytes' writes⟩
    · refine ⟨bytes, ?_, hash⟩
      rw [files, rowOf_upsert_other own (fun _ _ => rfl)]
      exact found
  | removed id' removes files =>
    have other : id ≠ id' := by
      rintro rfl
      exact kept removes
    refine ⟨bytes, ?_, hash⟩
    rw [files, rowOf_deleteWhere (q := fun k => k = id') (fun _ => Iff.rfl), if_neg other]
    exact found

theorem hasBytes_write {h : HubState} {id : String} {bytes : List UInt8}
    (named : cfg.ext.contentId bytes = id) :
    HasBytes cfg (HubCall.exec cfg (.writeBlobFile id bytes) h).2 id :=
  ⟨bytes, rowOf_written h.blobFiles id bytes, named⟩

/-! ## Rows and files -/

/-- The upload is between the write of its file and the write of its row. -/
def MidUpload (past : List (HubDone cfg)) (id : String) : Prop :=
  WroteFile past id ∧ ∀ room author mediaType size now,
    ⟨.putBlobMeta id room author mediaType size now, ()⟩ ∉ past

/-- A file is unlinked only while its id has no row and no upload of it is under way. -/
def unlinksDead (P : HubPool cfg) (_ : Nat) : HubCall → Prop
  | .removeBlobFile id =>
      (∀ b ∈ P.state.store.blobs, b.id ≠ id) ∧ ∀ u, ¬ MidUpload (Pool.ownPast P.log u) id
  | _ => True

/-- The bytes of every row and of every upload under way are on disk. -/
def BytesKept (P : HubPool cfg) : Prop :=
  (∀ b ∈ P.state.store.blobs, HasBytes cfg P.state b.id) ∧
    ∀ u id, MidUpload (Pool.ownPast P.log u) id → HasBytes cfg P.state id

theorem not_putBlobMeta_of_reserves {req : Request} {past : List (HubDone cfg)}
    (reserved : reserves req past = true) (id room author : String) (mediaType : Option String)
    (size now : Int) : ⟨.putBlobMeta id room author mediaType size now, ()⟩ ∉ past := by
  intro member
  have open' : past.any endsUpload = false := by
    simp only [reserves, Bool.and_eq_true, Bool.not_eq_true'] at reserved
    exact reserved.2
  have ended := List.any_eq_false.mp open' _ member
  exact ended rfl

/-- The rows after a call are the rows before it, but for the row that the call puts. -/
theorem BlobChange.row {op : HubCall} {s s' : Store} (change : BlobChange op s s') {b : BlobRow}
    (member : b ∈ s'.blobs) :
    (∃ b' ∈ s.blobs, b'.id = b.id) ∨
      ∃ room author mediaType size now, op = .putBlobMeta b.id room author mediaType size now := by
  cases change with
  | same rows => exact Or.inl ⟨b, rows ▸ member, rfl⟩
  | put id room author mediaType size now puts rows =>
    rw [rows] at member
    rcases mem_of_mem_insertNew member with old | rfl
    · exact Or.inl ⟨b, old, rfl⟩
    · exact Or.inr ⟨room, author, mediaType, size, now, puts⟩
  | touched id now rows =>
    rw [rows, mem_updateWhere] at member
    rcases member with ⟨old, -⟩ | ⟨b', old, -, rfl⟩
    · exact Or.inl ⟨b, old, rfl⟩
    · exact Or.inl ⟨b', old, rfl⟩
  | collected ttlMs now collects rows =>
    rw [rows] at member
    exact Or.inl ⟨b, (mem_deleteWhere.mp member).1, rfl⟩

section Runs

variable {cardBytes : AgentCard → List UInt8} {inflight : Nat} {P : HubPool cfg}

/-- The step lemma of the files. -/
theorem BytesKept.exec {G : HubPool cfg → Nat → HubCall → Prop}
    (reach : Pool.Reachable (serve cfg cardBytes) G (.boot inflight) P) (kept : BytesKept P)
    {t : Nat} {req : Request} {op : HubCall} {next : op.Res → Prog (hubMachine cfg) (List ServerFrame)}
    (pending : P.threads t = some (req, .call op next)) (allowed : unlinksDead P t op) :
    BytesKept (P.exec t req op next) := by
  obtain ⟨rows, uploads⟩ := kept
  have follows : Prog.Follows (blobRule req) (.call op next) (Pool.ownPast P.log t) :=
    ((reach.own (K := fun req p past => p.Follows (blobRule req) past)
      (serve_blobRule cardBytes) (fun _ _ _ _ r follows => follows.2 r)).2 t req _ pending)
  have rule := follows.1
  have named : ∀ id bytes, op = .writeBlobFile id bytes → cfg.ext.contentId bytes = id := by
    rintro id bytes rfl
    exact rule
  refine ⟨?_, ?_⟩
  · intro b member
    rcases (blobChange_exec cfg op P.state).row member with ⟨b', old, same⟩ | puts
    · refine HasBytes.exec (same ▸ rows b' old) named ?_
      rintro rfl
      exact allowed.1 b' old same
    · -- The upload has written the file, and nothing unlinked it since.
      obtain ⟨room, author, mediaType, size, now, rfl⟩ := puts
      obtain ⟨-, reserved, wrote⟩ := rule
      have mid : MidUpload (Pool.ownPast P.log t) b.id :=
        ⟨wrote, not_putBlobMeta_of_reserves reserved b.id⟩
      exact HasBytes.exec (uploads t b.id mid) named (fun same => nomatch same)
  · intro u id mid
    rw [Pool.exec_log, Pool.ownPast_cons] at mid
    dsimp only at mid
    have before : MidUpload (Pool.ownPast P.log u) id →
        HasBytes cfg (P.exec t req op next).state id := by
      intro under
      refine HasBytes.exec (uploads u id under) named ?_
      intro removes
      subst removes
      exact allowed.2 u under
    split at mid
    · rename_i own
      obtain ⟨⟨bytes, wrote⟩, unput⟩ := mid
      rcases List.mem_cons.mp wrote with now | earlier
      · cases now
        exact hasBytes_write rule
      · subst own
        refine before ⟨⟨bytes, earlier⟩, ?_⟩
        exact fun room author mediaType size now member =>
          unput room author mediaType size now (List.mem_cons_of_mem _ member)
    · exact before mid

theorem bytesKept (reach : Pool.Reachable (serve cfg cardBytes) unlinksDead (.boot inflight) P) :
    BytesKept P := by
  refine Pool.Reachable.induct (I := BytesKept) ?_ ?_ reach
  · refine ⟨fun b member => ?_, fun u id mid => ?_⟩
    · cases member
    · obtain ⟨⟨bytes, wrote⟩, -⟩ := mid
      cases wrote
  · intro P Q before kept step
    cases step with
    | spawn t req free => exact kept
    | exec t req op next pending enabled allowed => exact kept.exec before pending allowed

end Runs

/-! ## Acknowledged uploads -/

/-- An upload that is answered with its content id has written the row. -/
def acknowledged (me : Authed) (answers : List ServerFrame) (past : List (HubDone cfg)) : Prop :=
  ∀ id n, .blobStored id n ∈ answers → ∃ room mediaType size now,
    ⟨.putBlobMeta id room me.id mediaType size now, ()⟩ ∈ past

theorem finishBlobUpload_acknowledged (cfg : HubConfig) (me : Authed) (room sha256 : String)
    (size : Nat) (mediaType : Option String) (data : List UInt8) (past : List (HubDone cfg)) :
    (finishBlobUpload cfg me room sha256 size mediaType data).Ends
      (fun frame past => acknowledged me [frame] past) past := by
  simp only [finishBlobUpload, fail_bind, ends_ite, ends_fail, ends_call_bind, ends_pure]
  refine ⟨fun _ => trivial, fun _ => ⟨fun _ => trivial, fun _ => ⟨fun _ => trivial, ?_⟩⟩⟩
  intro hashed _ now _ id n answered
  obtain ⟨rfl, -⟩ : id = cfg.ext.contentId data ∧ n = data.length := by simpa using answered
  exact ⟨room, mediaType, data.length, now, by simp⟩

theorem servePutBlob_acknowledged (cfg : HubConfig) (me : Authed) (fresh : Fresh) (target : Target)
    (sha256 : String) (size : Nat) (mediaType : Option String) (upload : Option (List UInt8))
    (past : List (HubDone cfg)) :
    (servePutBlob cfg me fresh target sha256 size mediaType upload).Ends (acknowledged me) past := by
  have errors : ∀ e (past : List (HubDone cfg)), acknowledged me (errorFrame e) past := by
    intro e past id n answered
    cases e <;> simp [errorFrame] at answered
  unfold servePutBlob
  dsimp only
  split
  · exact errors _ _
  · split
    · exact errors _ _
    · intro granted
      cases granted with
      | false => exact errors _ _
      | true =>
        refine Prog.Ends.bind (J := fun _ _ => True) ?_ ?_
        · exact Prog.Ends.of_grows (I := fun _ => True) (fun _ _ _ => trivial) (fun _ _ _ => trivial)
            _ trivial
        · intro room past _
          cases room with
          | error e => exact fun _ => errors _ _
          | ok room =>
            cases upload with
            | none =>
              intro _ id n answered
              simp at answered
            | some data =>
              refine Prog.Ends.bind
                (finishBlobUpload_acknowledged cfg me room sha256 size mediaType data past) ?_
              intro r past known _ id n answered
              cases r with
              | error e =>
                obtain ⟨room, mediaType, size, now, put⟩ :=
                  errors e past id n (by simpa [replies] using answered)
                exact ⟨room, mediaType, size, now, List.mem_cons_of_mem _ put⟩
              | ok frame =>
                obtain ⟨room, mediaType, size, now, put⟩ :=
                  known frame rfl id n (by simpa [replies] using answered)
                exact ⟨room, mediaType, size, now, List.mem_cons_of_mem _ put⟩

/-- What the answers to a request's upload say about its own calls. -/
def Request.acknowledged (req : Request) (answers : List ServerFrame) (past : List (HubDone cfg)) :
    Prop :=
  match req with
  | .frame me (.putBlob ..) _ _ _ => Hub.acknowledged me answers past
  | _ => True

theorem serve_acknowledged (cardBytes : AgentCard → List UInt8) (req : Request) :
    (serve cfg cardBytes req).Ends req.acknowledged [] := by
  have free : ∀ (p : Prog (hubMachine cfg) (List ServerFrame)), p.Ends (fun _ _ => True) [] :=
    fun p => Prog.Ends.of_grows (I := fun _ => True) (fun _ _ _ => trivial) (fun _ _ _ => trivial)
      p trivial
  cases req with
  | frame me frame fresh upload rounds =>
    cases frame with
    | putBlob target sha256 size mediaType =>
      intro now allowed
      cases allowed with
      | false =>
        intro id n answered
        simp [errorFrame] at answered
      | true =>
        simp only [if_true]
        cases validateFrameBounds cfg (.putBlob target sha256 size mediaType) with
        | error e =>
          intro id n answered
          cases e <;> simp [errorFrame] at answered
        | ok _ => exact servePutBlob_acknowledged cfg me fresh target sha256 size mediaType upload _
    | _ => exact free _
  | _ => exact free _

/-- The call is a garbage collection that takes the id. -/
def collects (id : String) : HubDone cfg → Bool
  | ⟨.gcBlobs .., ids⟩ => (ids : List String).contains id
  | _ => false

/-- The id has a row, bound to the room. -/
def Bound (id room : String) (s : Store) : Prop :=
  (∃ b ∈ s.blobs, b.id = id) ∧ ∃ br ∈ s.blobRooms, br.blob = id ∧ br.room = room

theorem bound_put (s : Store) (id room author : String) (mediaType : Option String)
    (size now : Int) : Bound id room (s.putBlobMeta id room author mediaType size now) := by
  refine ⟨exists_key_insertNew BlobRow.id _ _, ?_⟩
  obtain ⟨br, member, same⟩ := exists_key_insertNew Store.blobRoomKey
    (⟨id, room, author, now⟩ : BlobRoomRow) s.blobRooms
  rw [Store.blobRoomKey, Prod.ext_iff] at same
  exact ⟨br, member, same.1, same.2⟩

/-- A bound row stays until a collection takes it or its room is deleted. -/
theorem Bound.exec {h : HubState} {id room : String} (bound : Bound id room h.store) {op : HubCall}
    (kept : collects id (⟨op, (op.exec cfg h).1⟩ : HubDone cfg) = false)
    (stays : deletesRoom room (⟨op, (op.exec cfg h).1⟩ : HubDone cfg) = false) :
    Bound id room (op.exec cfg h).2.store := by
  obtain ⟨⟨b, row, own⟩, br, binding, blob, home⟩ := bound
  have rest : (op.exec cfg h).2.store.blobs = h.store.blobs →
      (op.exec cfg h).2.store.blobRooms = h.store.blobRooms →
      Bound id room (op.exec cfg h).2.store := by
    intro rows bindings
    exact ⟨⟨b, rows ▸ row, own⟩, br, bindings ▸ binding, blob, home⟩
  cases op with
  | putBlobMeta id' room' author mediaType size now =>
    exact ⟨⟨b, mem_insertNew_of_mem row, own⟩, br, mem_insertNew_of_mem binding, blob, home⟩
  | touchBlobFetched id' now =>
    refine ⟨?_, br, binding, blob, home⟩
    by_cases hit : b.id = id'
    · exact ⟨_, mem_updateWhere.mpr (Or.inr ⟨b, row, hit, rfl⟩), own⟩
    · exact ⟨b, mem_updateWhere.mpr (Or.inl ⟨row, hit⟩), own⟩
  | gcBlobs ttlMs now =>
    have left : id ∉ (h.store.gcBlobs ttlMs now).1 := by
      simpa [collects, HubCall.exec] using kept
    have live : ¬ Store.staleBlob (now - ttlMs) b = true := by
      intro stale
      exact left (List.mem_map.mpr ⟨b, List.mem_filter.mpr ⟨row, stale⟩, own⟩)
    refine ⟨⟨b, mem_deleteWhere.mpr ⟨row, live⟩, own⟩, br, mem_deleteWhere.mpr ⟨binding, ?_⟩, blob, home⟩
    rw [blob]
    exact left
  | deleteRoom gone owner =>
    show Bound id room (h.tryStore (h.store.deleteRoom gone owner)).2.store
    cases deleted : h.store.deleteRoom gone owner with
    | error e => exact ⟨⟨b, row, own⟩, br, binding, blob, home⟩
    | ok s =>
      have other : gone ≠ room := by
        simpa [deletesRoom, HubCall.exec, deleted, HubState.tryStore] using stays
      obtain ⟨-, rfl⟩ := Store.deleteRoom_ok deleted
      refine ⟨⟨b, row, own⟩, br, mem_deleteWhere.mpr ⟨binding, ?_⟩, blob, home⟩
      rw [home]
      exact Ne.symm other
  | _ =>
    exact rest (exec_same cfg _ h .blobs (by simp [HubCall.writes]))
      (exec_same cfg _ h .blobRooms (by simp [HubCall.writes]))

/-- A download of a bound row whose bytes are on disk, by a member of the room. -/
theorem fetch_bound {h : HubState} {id room : String} (bound : Bound id room h.store)
    (has : HasBytes cfg h id) {agent : Authed} (member : h.store.isMember room agent.id = true) :
    ∃ b bytes, ((handleGetBlob cfg agent id).prog.run h).1 =
        .ok (.blobIncoming id b.size.toNat b.mediaType bytes) ∧
      h.store.blobMeta id = some b ∧ cfg.ext.contentId bytes = id := by
  obtain ⟨⟨b, row, own⟩, br, binding, blob, home⟩ := bound
  obtain ⟨bytes, found, hash⟩ := has
  have readable : h.store.blobReadableBy id agent.id = true := by
    unfold Store.blobReadableBy
    rw [List.any_eq_true]
    refine ⟨br, binding, ?_⟩
    unfold Store.isMember at member
    simpa [blob, home] using member
  have listed : ∃ b, h.store.blobMeta id = some b := by
    cases none : h.store.blobMeta id with
    | some b => exact ⟨b, rfl⟩
    | none =>
      have absent := List.find?_eq_none.mp none b row
      exact absurd own (by simpa using absent)
  obtain ⟨b, meta'⟩ := listed
  refine ⟨b, bytes, ?_, meta', hash⟩
  have read : (HubCall.exec cfg (.readBlobFile id)
      (HubCall.exec cfg (.touchBlobFetched id (HubCall.exec cfg .nowMs h).1)
        (HubCall.exec cfg .nowMs h).2).2).1 = some bytes := by
    show (rowOf Prod.fst id h.blobFiles).map Prod.snd = some bytes
    rw [found]
    rfl
  unfold handleGetBlob
  rw [run_call_bind]
  simp only [HubCall.exec, meta']
  rw [run_call_bind]
  simp only [HubCall.exec, readable]
  rw [if_neg (by simp), run_call_bind, run_call_bind, run_call_bind]
  rw [read]
  rfl

section Runs

variable {cardBytes : AgentCard → List UInt8} {inflight : Nat} {P : HubPool cfg}

/-- If no file is unlinked after its content was uploaded again, every row has its bytes, and an
    acknowledged upload can be fetched by the members of its room until a collection takes its row
    or the room is deleted. -/
theorem rows_have_bytes_unless_unlinked_late
    (reach : Pool.Reachable (serve cfg cardBytes) unlinksDead (.boot inflight) P) :
    (∀ b ∈ P.state.store.blobs, HasBytes cfg P.state b.id) ∧
      ∀ t me target sha256 size mediaType fresh upload rounds answers,
        P.answer t = some
          (.frame me (.putBlob target sha256 size mediaType) fresh upload rounds, answers) →
        ∀ id n, .blobStored id n ∈ answers →
          ∃ newer e older room, P.log = newer ++ e :: older ∧ e.thread = t ∧
            (∃ mediaType size now, e.op = .putBlobMeta id room me.id mediaType size now) ∧
            ((∀ e ∈ newer, collects id ⟨e.op, e.result⟩ = false ∧
                deletesRoom room ⟨e.op, e.result⟩ = false) →
              ∀ agent, P.state.store.isMember room agent.id = true →
                ∃ b bytes, ((handleGetBlob cfg agent id).prog.run P.state).1 =
                    .ok (.blobIncoming id b.size.toNat b.mediaType bytes) ∧
                  P.state.store.blobMeta id = some b ∧ cfg.ext.contentId bytes = id) := by
  have kept := bytesKept reach
  refine ⟨kept.1, ?_⟩
  intro t me target sha256 size mediaType fresh upload rounds answers answered id n stored
  obtain ⟨room, mediaType, size, now, put⟩ :=
    reach.ends (serve_acknowledged cardBytes) (Pool.answer_eq answered) id n stored
  obtain ⟨⟨u, op, h⟩, logged, own, same⟩ := Pool.ownPast_event put
  obtain ⟨rfl, -⟩ := Sigma.mk.inj same
  obtain ⟨newer, older, split⟩ := List.append_of_mem logged
  refine ⟨newer, _, older, room, split, own, ⟨mediaType, size, now, rfl⟩, ?_⟩
  intro undisturbed agent member
  have bound : Bound id room P.state.store := by
    refine reach.since (J := fun h => Bound id room h.store) split
      (bound_put h.store id room me.id mediaType size now) ?_
    intro e later before
    obtain ⟨uncollected, undeleted⟩ := undisturbed e later
    exact before.exec uncollected undeleted
  obtain ⟨b, row, rfl⟩ := bound.1
  exact fetch_bound bound (kept.1 b row) member

end Runs

/-- A hub that collects blobs as soon as time passes, and names content by itself. -/
def forgetfulConfig : HubConfig :=
  { tinyConfig with retention := ⟨none, 0, none, some 0⟩ }

def forgetfulServe : Request → Prog (hubMachine forgetfulConfig) (List ServerFrame) :=
  serve forgetfulConfig (fun _ => [])

/-- Alice opens the room, uploads two bytes, and time passes. -/
def forgetfulStart : List (Pool.Action Request) :=
  demoActions 0 [demoFrame 0 alice (.invite .channel (some "r") none none false),
    tinyUpload 1 "ab" [97, 98], .tick 1]

def forgetfulPlay (actions : List (Pool.Action Request)) : HubPool forgetfulConfig :=
  (Pool.start demoHub).play forgetfulServe (forgetfulStart ++ actions)

def midUploadCheck (past : List (HubDone cfg)) (id : String) : Bool :=
  past.any (fun | ⟨.writeBlobFile id' _, _⟩ => id' = id | _ => false) &&
    past.all (fun | ⟨.putBlobMeta id' .., _⟩ => id' ≠ id | _ => true)

theorem midUploadCheck_of {past : List (HubDone cfg)} {id : String} (mid : MidUpload past id) :
    midUploadCheck past id = true := by
  obtain ⟨⟨bytes, wrote⟩, unput⟩ := mid
  refine Bool.and_eq_true_iff.mpr ⟨List.any_eq_true.mpr ⟨_, wrote, by simp⟩, ?_⟩
  rw [List.all_eq_true]
  intro d member
  split
  · rename_i id' room author mediaType size now r
    refine decide_eq_true ?_
    intro same
    subst same
    exact unput room author mediaType size now member
  · rfl

/-- No upload of the id is under way. -/
def settledCheck (P : HubPool cfg) (id : String) : Bool :=
  (P.log.map Event.thread).all (fun u => !midUploadCheck (Pool.ownPast P.log u) id)

theorem settled_of_check {P : HubPool cfg} {id : String} (passed : settledCheck P id = true)
    (u : Nat) : ¬ MidUpload (Pool.ownPast P.log u) id := by
  intro mid
  have spoke : Pool.ownPast P.log u ≠ [] := by
    intro silent
    obtain ⟨⟨bytes, wrote⟩, -⟩ := mid
    rw [silent] at wrote
    cases wrote
  have settled := List.all_eq_true.mp passed u (Pool.mem_log_of_ownPast spoke)
  rw [midUploadCheck_of mid] at settled
  cases settled

def unlinksDeadCheck (P : HubPool cfg) (_ : Nat) : HubCall → Bool
  | .removeBlobFile id => P.state.store.blobs.all (fun b => b.id ≠ id) && settledCheck P id
  | _ => true

theorem unlinksDead_of_check (P : HubPool cfg) (t : Nat) (op : HubCall)
    (passed : unlinksDeadCheck P t op = true) : unlinksDead P t op := by
  cases op with
  | removeBlobFile id =>
    obtain ⟨rows, settled⟩ := Bool.and_eq_true_iff.mp passed
    exact ⟨by simpa using rows, settled_of_check settled⟩
  | _ => trivial

/-- The collection finishes, and the content is uploaded again. -/
def collectedFirst : HubPool forgetfulConfig :=
  forgetfulPlay (demoActions 3 [.janitor, tinyUpload 4 "ab" [97, 98]])

theorem rows_have_bytes_unless_unlinked_late_demo :
    collectedFirst.state.store.blobs.map BlobRow.id = ["ab"] ∧
      ∀ b ∈ collectedFirst.state.store.blobs, HasBytes forgetfulConfig collectedFirst.state b.id := by
  have reach : Pool.Reachable forgetfulServe unlinksDead demoHub collectedFirst :=
    Pool.play_reachable_of_checks forgetfulServe unlinksDead_of_check .refl (by decide +kernel)
  exact ⟨by decide +kernel, (rows_have_bytes_unless_unlinked_late reach).1⟩

/-- The content is uploaded again after the collection took its row and before it unlinks the
    file. -/
def unlinkedLate : HubPool forgetfulConfig :=
  forgetfulPlay ([Pool.Action.spawn 3 .janitor] ++ List.replicate 3 (Pool.Action.step 3) ++
    demoActions 4 [tinyUpload 4 "ab" [97, 98]] ++ [Pool.Action.step 3])

/-- The second upload is acknowledged, its row is there, and its bytes are gone. -/
theorem unlinked_late_loses_bytes :
    Pool.Reachable forgetfulServe Pool.anySchedule demoHub unlinkedLate ∧
      (unlinkedLate.answer 4).map Prod.snd = some [.blobReady "ab", .blobStored "ab" 2] ∧
      (∀ u, ¬ MidUpload (Pool.ownPast unlinkedLate.log u) "ab") ∧
      unlinkedLate.state.store.blobs.map BlobRow.id = ["ab"] ∧
      ¬ HasBytes forgetfulConfig unlinkedLate.state "ab" := by
  refine ⟨Pool.play_reachable _ _ _, by decide +kernel, settled_of_check (by decide +kernel),
    by decide +kernel, ?_⟩
  rintro ⟨bytes, found, -⟩
  have gone : rowOf Prod.fst "ab" unlinkedLate.state.blobFiles = none := by decide +kernel
  rw [gone] at found
  cases found

end Parler.Hub
