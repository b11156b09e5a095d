import Parler.Hub.Directory
import Parler.Lib.Runs

/-!
# Blobs and their age

The collection of idle blobs goes by the last fetch of a blob, or by the first post of its bytes where
it was never fetched: posting bytes that are stored leaves their row as it is.
-/

namespace Parler.Hub

open Parler.Lib

/-- A call that concerns the age of blobs, with its time. -/
inductive BlobEvent where
  | post (id room author : String) (mediaType : Option String) (size now : Int)
  | fetch (id : String) (now : Int)
  | collect (ttlMs now : Int)

namespace BlobEvent

def now : BlobEvent → Int
  | post _ _ _ _ _ now => now
  | fetch _ now => now
  | collect _ now => now

def act (s : Store) : BlobEvent → Store
  | post id room author mediaType size now => s.putBlobMeta id room author mediaType size now
  | fetch id now => s.touchBlobFetched id now
  | collect ttlMs now => (s.gcBlobs ttlMs now).2

/-- Events from a time on, in the order of their times, that collect nothing used since. -/
structure Later (t : Int) (run : List BlobEvent) : Prop where
  from_t : ∀ e ∈ run, t ≤ e.now
  ordered : (run.map now).Pairwise (· ≤ ·)
  spares : ∀ ttlMs now, collect ttlMs now ∈ run → now - ttlMs ≤ t

end BlobEvent

namespace Store

variable {s : Store} {id room author : String} {mediaType : Option String} {size t : Int}
  {bound : Option String}

/-- The time the collection goes by. -/
def usedAt (b : BlobRow) : Int := b.lastFetched.getD b.created

/-- Whatever is stored under the id counts as used since. -/
def UsedSince (s : Store) (id : String) (t : Int) : Prop := ∀ b ∈ s.blobs, b.id = id → t ≤ usedAt b

/-- The blob is stored, and bound to the room. -/
def Keeps (s : Store) (id : String) (bound : Option String) : Prop :=
  (∃ b ∈ s.blobs, b.id = id) ∧ ∀ room, bound = some room → s.blobInRoom id room = true

/-- Nothing in the run removes the blob or its binding. -/
def Survives (s : Store) (id : String) (bound : Option String) (run : List BlobEvent) : Prop :=
  Throughout BlobEvent.act (fun s => s.Keeps id bound) s run ∧
    EachStep BlobEvent.act (fun s e => ∀ ttlMs now, e = .collect ttlMs now →
      id ∉ (s.gcBlobs ttlMs now).1) s run

theorem staleBlob_iff {cutoff : Int} {b : BlobRow} : staleBlob cutoff b = true ↔ usedAt b < cutoff := by
  simp [staleBlob, usedAt]

theorem mem_collected {ttlMs now : Int} :
    id ∈ (s.gcBlobs ttlMs now).1 ↔ ∃ b ∈ s.blobs, b.id = id ∧ usedAt b < now - ttlMs := by
  unfold gcBlobs
  rw [List.mem_map]
  constructor
  · rintro ⟨b, member, rfl⟩
    obtain ⟨stored, stale⟩ := List.mem_filter.mp member
    exact ⟨b, stored, rfl, staleBlob_iff.mp stale⟩
  · rintro ⟨b, stored, rfl, stale⟩
    exact ⟨b, List.mem_filter.mpr ⟨stored, staleBlob_iff.mpr stale⟩, rfl⟩

/-- A collection that spares what was used since does not list the blob. -/
theorem UsedSince.spared (used : s.UsedSince id t) {ttlMs now : Int} (spares : now - ttlMs ≤ t) :
    id ∉ (s.gcBlobs ttlMs now).1 := by
  intro listed
  obtain ⟨b, stored, own, stale⟩ := mem_collected.mp listed
  have since := used b stored own
  omega

/-- The step lemma. -/
theorem UsedSince.act (used : s.UsedSince id t) (keeps : s.Keeps id bound) {e : BlobEvent}
    (later : t ≤ e.now) (spares : ∀ ttlMs now, e = .collect ttlMs now → now - ttlMs ≤ t) :
    (e.act s).UsedSince id t ∧ (e.act s).Keeps id bound := by
  obtain ⟨⟨b, stored, own⟩, bindings⟩ := keeps
  cases e with
  | post id' room' author' mediaType' size' now =>
    refine ⟨?_, ⟨b, mem_insertNew_of_mem stored, own⟩, ?_⟩
    · intro b' member same
      rcases mem_of_mem_insertNew member with old | rfl
      · exact used b' old same
      · exact later
    · intro r same
      obtain ⟨row, listed, binds⟩ := List.any_eq_true.mp (bindings r same)
      exact List.any_eq_true.mpr ⟨row, mem_insertNew_of_mem listed, binds⟩
  | fetch id' now =>
    refine ⟨?_, ?_, bindings⟩
    · intro b' member same
      obtain ⟨old, listed, rfl⟩ := List.mem_map.mp member
      split at same
      · rename_i fetched
        rw [if_pos fetched]
        exact later
      · rename_i other
        rw [if_neg other]
        exact used old listed same
    · have row := List.mem_map_of_mem
        (f := fun b : BlobRow => if b.id = id' then { b with lastFetched := some now } else b) stored
      refine ⟨_, row, ?_⟩
      split <;> exact own
  | collect ttlMs now =>
    have spared := used.spared (spares ttlMs now rfl)
    have kept : ∀ b ∈ s.blobs, b.id = id → b ∈ (s.gcBlobs ttlMs now).2.blobs := by
      intro b stored own
      apply mem_deleteWhere.mpr
      refine ⟨stored, ?_⟩
      intro stale
      exact spared (mem_collected.mpr ⟨b, stored, own, staleBlob_iff.mp stale⟩)
    refine ⟨?_, ⟨b, kept b stored own, own⟩, ?_⟩
    · intro b' member same
      exact used b' (mem_deleteWhere.mp member).1 same
    · intro r same
      obtain ⟨row, listed, binds⟩ := List.any_eq_true.mp (bindings r same)
      refine List.any_eq_true.mpr ⟨row, mem_deleteWhere.mpr ⟨listed, ?_⟩, binds⟩
      have blob : row.blob = id := (of_decide_eq_true binds).1
      rw [blob]
      exact spared

/-- The run lemma: what was used since a time outlives every run that spares it. -/
theorem UsedSince.survives {run : List BlobEvent} (used : s.UsedSince id t) (keeps : s.Keeps id bound)
    (later : BlobEvent.Later t run) : s.Survives id bound run := by
  obtain ⟨since, -, spares⟩ := later
  induction run generalizing s with
  | nil => exact ⟨keeps, trivial⟩
  | cons e run ih =>
    have first : ∀ ttlMs now, e = .collect ttlMs now → now - ttlMs ≤ t := by
      rintro ttlMs now rfl
      exact spares ttlMs now List.mem_cons_self
    obtain ⟨used', keeps'⟩ := used.act keeps (since e List.mem_cons_self) first
    obtain ⟨through, each⟩ := ih used' keeps'
      (fun e' listed => since e' (List.mem_cons_of_mem _ listed))
      (fun ttlMs now listed => spares ttlMs now (List.mem_cons_of_mem _ listed))
    refine ⟨⟨keeps, through⟩, ?_, each⟩
    rintro ttlMs now rfl
    exact used.spared (first ttlMs now rfl)

/-- A post outlives every run that spares what was used since exactly when what was stored under its
    id before, if anything, counts as used since; a fetch always does. -/
theorem blobs_survive_iff (s : Store) (id : String) :
    (∀ room author mediaType size t,
      (∀ run, BlobEvent.Later t run →
        ((BlobEvent.post id room author mediaType size t).act s).Survives id (some room) run) ↔
          s.UsedSince id t) ∧
    ∀ t, (∃ b ∈ s.blobs, b.id = id) → ∀ run, BlobEvent.Later t run →
      ((BlobEvent.fetch id t).act s).Survives id none run := by
  constructor
  · intro room author mediaType size t
    constructor
    · intro survives b stored own
      have later : BlobEvent.Later t [.collect 1 (t + 1)] := by
        refine ⟨?_, by simp, ?_⟩
        · intro e listed
          rw [List.mem_singleton.mp listed]
          show t ≤ t + 1
          omega
        · intro ttlMs now listed
          cases List.mem_singleton.mp listed
          omega
      obtain ⟨-, each⟩ := survives _ later
      by_contra! stale
      apply each.1 1 (t + 1) rfl
      apply mem_collected.mpr
      exact ⟨b, mem_insertNew_of_mem stored, own, by omega⟩
    · intro used run later
      have posted : ((BlobEvent.post id room author mediaType size t).act s).UsedSince id t := by
        intro b member same
        rcases mem_of_mem_insertNew member with old | rfl
        · exact used b old same
        · exact le_refl t
      refine posted.survives ⟨?_, ?_⟩ later
      · exact exists_key_insertNew BlobRow.id ⟨id, mediaType, size, t, none⟩ s.blobs
      · rintro _ ⟨⟩
        obtain ⟨row, listed, key⟩ := exists_key_insertNew blobRoomKey ⟨id, room, author, t⟩ s.blobRooms
        exact List.any_eq_true.mpr ⟨row, listed, by simpa [blobRoomKey] using key⟩
  · rintro t ⟨b, stored, own⟩ run later
    have fetched : ((BlobEvent.fetch id t).act s).UsedSince id t := by
      intro b' member same
      obtain ⟨old, listed, rfl⟩ := List.mem_map.mp member
      split at same
      · rename_i fetched
        rw [if_pos fetched]
        exact le_refl t
      · rename_i other
        exact absurd same other
    refine fetched.survives ⟨?_, nofun⟩ later
    have row := List.mem_map_of_mem
      (f := fun b : BlobRow => if b.id = id then { b with lastFetched := some t } else b) stored
    refine ⟨_, row, ?_⟩
    split <;> exact own

end Store

/-- The same bytes again, for another room. -/
def repost : BlobEvent := .post "h" "ops" "B" none 8 1000

/-- Posted at 0 and again at 1000, a blob is collected at 1100 as idle for more than 500. -/
theorem reposted_blob_collected :
    ((repost.act ((BlobEvent.post "h" "dev" "A" none 8 0).act Store.empty)).gcBlobs 500 1100).1 = ["h"] ∧
      ¬ (repost.act ((BlobEvent.post "h" "dev" "A" none 8 0).act Store.empty)).Survives "h" (some "ops")
        [.collect 500 1100] := by
  have collected : ((repost.act ((BlobEvent.post "h" "dev" "A" none 8 0).act Store.empty)).gcBlobs
      500 1100).1 = ["h"] := by decide +kernel
  refine ⟨collected, ?_⟩
  rintro ⟨-, each⟩
  apply each.1 500 1100 rfl
  rw [collected]
  exact List.mem_singleton.mpr rfl

end Parler.Hub
