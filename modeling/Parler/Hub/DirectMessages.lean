import Parler.Hub.Namespaces

/-!
# Who reads a direct message

A target `Dm { agent }` resolves to the two-member `dm` room the caller shares
with the agent, or to a room opened for it. The first lookup counts members and
asks for a row of either agent, so it does not see that both may be the same one;
the second rests on the drawn suffix. This module says when the room found has
exactly the two agents as members.
-/

namespace Parler.Hub

open Parler.Lib Parler.Protocol Handler

variable {cfg : HubConfig}

namespace Store

/-- The room is a direct message between exactly these two agents. -/
def DmBetween (s : Store) (room a b : String) : Prop :=
  s.roomKind room = some .dm ∧ ∀ c, s.isMember room c = true ↔ c = a ∨ c = b

/-- The agent is in a direct message with two members. -/
def InPair (s : Store) (a : String) : Prop :=
  ∃ room, s.roomKind room = some .dm ∧ s.isMember room a = true ∧ s.memberCount room = 2

variable {s : Store}

theorem isMember_mem {room agent : String} :
    s.isMember room agent = true ↔ ∃ r ∈ s.members, r.room = room ∧ r.agent = agent := by
  simp [isMember]

/-- The agents of a room, one for each row. -/
def agentsOf (s : Store) (room : String) : List String :=
  (s.members.filter (fun r => r.room = room)).map MemberRow.agent

theorem mem_agentsOf {room agent : String} :
    agent ∈ s.agentsOf room ↔ s.isMember room agent = true := by
  simp [agentsOf, isMember_mem, and_assoc]

theorem agentsOf_nodup (unique : (s.members.map memberKey).Nodup) (room : String) :
    (s.agentsOf room).Nodup := by
  have keys : ((s.members.filter (fun r => r.room = room)).map memberKey).Nodup :=
    unique.sublist (List.filter_sublist.map memberKey)
  have paired : (s.members.filter (fun r => r.room = room)).map memberKey =
      (s.agentsOf room).map (fun agent => (room, agent)) := by
    unfold agentsOf
    rw [List.map_map]
    apply List.map_congr_left
    intro r member
    have same : r.room = room := by simpa using (List.mem_filter.mp member).2
    simp [memberKey, same]
  rw [paired] at keys
  exact List.Nodup.of_map _ keys

/-- Two distinct members of a room with two rows are its members. -/
theorem pair_members (unique : (s.members.map memberKey).Nodup) {room a b : String}
    (two : s.memberCount room = 2) (first : s.isMember room a = true)
    (second : s.isMember room b = true) (distinct : a ≠ b) (c : String) :
    s.isMember room c = true ↔ c = a ∨ c = b := by
  have length : (s.agentsOf room).length = 2 := by
    unfold agentsOf
    rw [List.length_map]
    exact two
  have nodup := agentsOf_nodup unique room
  rw [← mem_agentsOf] at first second ⊢
  obtain ⟨x, y, both⟩ := List.length_eq_two.mp length
  rw [both] at first second nodup ⊢
  simp only [List.mem_cons, List.not_mem_nil, or_false] at first second ⊢
  rcases first with rfl | rfl <;> rcases second with rfl | rfl
  · exact absurd rfl distinct
  · exact Iff.rfl
  · exact or_comm
  · exact absurd rfl distinct

/-- A room with two rows has another member. -/
theorem pair_other (unique : (s.members.map memberKey).Nodup) {room a : String}
    (two : s.memberCount room = 2) : ∃ c, s.isMember room c = true ∧ c ≠ a := by
  have length : (s.agentsOf room).length = 2 := by
    unfold agentsOf
    rw [List.length_map]
    exact two
  have nodup := agentsOf_nodup unique room
  obtain ⟨x, y, both⟩ := List.length_eq_two.mp length
  rw [both] at nodup
  have distinct : x ≠ y := by simpa using nodup
  by_cases same : x = a
  · refine ⟨y, mem_agentsOf.mp (by simp [both]), ?_⟩
    intro again
    exact distinct (same.trans again.symm)
  · exact ⟨x, mem_agentsOf.mp (by simp [both]), same⟩

/-- With the namespaces apart, a room that exists has the kind of its name. -/
theorem Namespaced.roomKind (apart : s.Namespaced) {room : String} (has : s.hasRoom room) :
    s.roomKind room = some (kindOf room) := by
  unfold Store.roomKind
  cases found : s.rooms.find? (fun r => r.name = room) with
  | none =>
    obtain ⟨r, member, name⟩ := has
    have none := List.find?_eq_none.mp found r member
    simp [name] at none
  | some r =>
    have name : r.name = room := by simpa using List.find?_some found
    rw [Option.map_some, apart.rooms r (List.mem_of_find?_eq_some found), name]

/-- What the lookup of a direct message found. -/
theorem findDmRoom_some (apart : s.Namespaced) {a b room : String}
    (found : s.findDmRoom a b = some room) :
    s.roomKind room = some .dm ∧ s.isMember room a = true ∧ s.isMember room b = true ∧
      s.memberCount room = 2 := by
  obtain ⟨m, first, rfl⟩ := Option.map_eq_some_iff.mp found
  have selected := List.find?_some first
  simp only [decide_eq_true_eq] at selected
  obtain ⟨agent, second, dm, two⟩ := selected
  refine ⟨?_, isMember_mem.mpr ⟨m, List.mem_of_find?_eq_some first, rfl, agent⟩, second, two⟩
  obtain ⟨r, listed, both⟩ := List.any_eq_true.mp dm
  simp only [decide_eq_true_eq] at both
  rw [apart.roomKind ⟨r, listed, both.1⟩, ← both.1, ← apart.rooms r listed, both.2]

/-- The lookup misses no room of two members. -/
theorem findDmRoom_none {a b room : String} (missed : s.findDmRoom a b = none)
    (dm : s.roomKind room = some .dm) (first : s.isMember room a = true)
    (second : s.isMember room b = true) : s.memberCount room ≠ 2 := by
  intro two
  obtain ⟨m, member, rfl, agent⟩ := isMember_mem.mp first
  have nothing := List.find?_eq_none.mp (Option.map_eq_none_iff.mp missed) m member
  obtain ⟨r, found, kind⟩ := Option.map_eq_some_iff.mp dm
  have name : r.name = m.room := by simpa using List.find?_some found
  simp only [agent, second, two] at nothing
  simp at nothing
  exact nothing r (List.mem_of_find?_eq_some found) name kind

end Store

/-! ## Resolving the target -/

/-- The caller may be sent to a room that is not theirs and the agent's alone: a direct message to
    oneself finds any two-member room, and a drawn suffix may name a room in use. -/
def Misdirects (s : Store) (me agent suffix : String) : Prop :=
  (agent = me ∧ s.InPair me) ∨
    (s.findDmRoom me agent = none ∧
      ∃ c, s.isMember ("dm." ++ suffix) c = true ∧ c ≠ me ∧ c ≠ agent)

/-- The store after the room of a direct message was opened. -/
def openDm (s : Store) (me agent suffix : String) (now : Int) : Store :=
  ((s.ensureRoom ("dm." ++ suffix) .dm none now).addMember ("dm." ++ suffix) me now).addMember
    ("dm." ++ suffix) agent now

theorem isMember_openDm {s : Store} {me agent suffix : String} {now : Int} (c : String) :
    (openDm s me agent suffix now).isMember ("dm." ++ suffix) c = true ↔
      s.isMember ("dm." ++ suffix) c = true ∨ c = me ∨ c = agent := by
  have grows : ∀ (s : Store) (a : String), (s.addMember ("dm." ++ suffix) a now).isMember
      ("dm." ++ suffix) c = true ↔ s.isMember ("dm." ++ suffix) c = true ∨ c = a := by
    intro s a
    constructor
    · intro joined
      rcases Store.isMember_addMember joined with old | ⟨-, same⟩
      · exact Or.inl old
      · exact Or.inr same.symm
    · intro either
      rw [Store.isMember_mem]
      rcases either with old | rfl
      · obtain ⟨r, member, same⟩ := Store.isMember_mem.mp old
        exact ⟨r, mem_insertNew_of_mem member, same⟩
      · obtain ⟨r, member, same⟩ := exists_key_insertNew Store.memberKey
          ⟨"dm." ++ suffix, c, now, 0⟩ s.members
        exact ⟨r, member, Prod.mk.inj same⟩
  unfold openDm
  rw [grows, grows, or_assoc]
  rfl

theorem openDm_roomKind {s : Store} (apart : s.Namespaced) (me agent suffix : String) (now : Int) :
    (openDm s me agent suffix now).roomKind ("dm." ++ suffix) = some .dm := by
  have kept : (s.ensureRoom ("dm." ++ suffix) .dm none now).Namespaced := by
    refine ⟨?_, apart.invites⟩
    intro r member
    rcases mem_of_mem_insertNew member with old | rfl
    · exact apart.rooms r old
    · exact (kindOf_dm suffix).symm
  have kind := kept.roomKind (Store.hasRoom_ensureRoom s _ .dm none now)
  rw [kindOf_dm] at kind
  exact kind

/-- What resolving a direct message does: it returns the shared room, or opens one for an agent
    with a directory card. -/
theorem resolveDm_ok {me : Authed} {fresh : Fresh} {agent room : String} {h : HubState}
    (ok : ((resolveTarget cfg me fresh (.dm agent)).prog.run h).1 = .ok room) :
    (h.store.findDmRoom me.id agent = some room ∧
      ((resolveTarget cfg me fresh (.dm agent)).prog.run h).2 = h) ∨
    (h.store.findDmRoom me.id agent = none ∧ room = "dm." ++ fresh.suffix ∧
      ((resolveTarget cfg me fresh (.dm agent)).prog.run h).2.store =
        openDm h.store me.id agent fresh.suffix h.clock) := by
  unfold resolveTarget at ok ⊢
  rw [run_call_bind] at ok ⊢
  simp only [HubCall.exec] at ok ⊢
  cases found : h.store.findDmRoom me.id agent with
  | some room' =>
    rw [found] at ok
    cases ok
    exact Or.inl ⟨rfl, rfl⟩
  | none =>
    simp only [found] at ok ⊢
    rw [run_call_bind] at ok ⊢
    simp only [HubCall.exec] at ok ⊢
    cases visible : h.store.directoryVisibility agent with
    | some visibility =>
      rw [visible] at ok
      cases ok
      exact Or.inr ⟨trivial, rfl, rfl⟩
    | none =>
      rw [visible] at ok
      cases ok

/-- A room of two members that the caller is in, with the agent. -/
theorem DmBetween.found_iff {s : Store} (unique : (s.members.map Store.memberKey).Nodup)
    {room me agent : String} (dm : s.roomKind room = some .dm) (first : s.isMember room me = true)
    (second : s.isMember room agent = true) (two : s.memberCount room = 2) :
    s.DmBetween room me agent ↔ agent ≠ me := by
  constructor
  · intro between same
    obtain ⟨c, member, other⟩ := Store.pair_other unique (a := me) two
    rcases (between.2 c).mp member with rfl | rfl
    · exact other rfl
    · exact other same
  · intro distinct
    exact ⟨dm, Store.pair_members unique two first second (Ne.symm distinct)⟩

/-- In every reachable state, a direct message resolves to a room of exactly the caller and the
    agent, unless it misdirects. -/
theorem dm_between_iff {cardBytes : AgentCard → List UInt8} {inflight : Nat} {P : HubPool cfg}
    (reach : Pool.Reachable (serve cfg cardBytes) Pool.anySchedule (.boot inflight) P) (me : Authed)
    (fresh : Fresh) (agent room : String)
    (ok : ((resolveTarget cfg me fresh (.dm agent)).prog.run P.state).1 = .ok room) :
    ((resolveTarget cfg me fresh (.dm agent)).prog.run P.state).2.store.DmBetween room me.id agent ↔
      ¬ Misdirects P.state.store me.id agent fresh.suffix := by
  have apart := namespaced_run reach
  have unique := members_unique_run reach
  rcases resolveDm_ok ok with ⟨found, same⟩ | ⟨missed, rfl, opened⟩
  · obtain ⟨dm, first, second, two⟩ := Store.findDmRoom_some apart found
    rw [same, DmBetween.found_iff unique dm first second two, not_iff_not]
    constructor
    · intro own
      exact Or.inl ⟨own, room, dm, first, two⟩
    · intro misdirects
      rcases misdirects with ⟨own, -⟩ | ⟨missed, -⟩
      · exact own
      · rw [found] at missed
        cases missed
  · have dm := openDm_roomKind apart me.id agent fresh.suffix P.state.clock
    rw [opened]
    constructor
    · intro between misdirects
      rcases misdirects with ⟨rfl, pair⟩ | ⟨-, c, member, notMe, notAgent⟩
      · obtain ⟨room, dm, first, two⟩ := pair
        exact Store.findDmRoom_none missed dm first first two
      · rcases (between.2 c).mp ((isMember_openDm c).mpr (Or.inl member)) with same | same
        · exact notMe same
        · exact notAgent same
    · intro directed
      refine ⟨dm, ?_⟩
      intro c
      rw [isMember_openDm]
      constructor
      · intro member
        rcases member with old | new
        · by_contra third
          rw [not_or] at third
          exact directed (Or.inr ⟨missed, c, old, third.1, third.2⟩)
        · exact new
      · exact Or.inr

/-- Alice and Bob share a direct message. -/
def pairDemo : DemoPool :=
  demoPlay [demoFrame 1 alice (.invite .dm none none none false), demoFrame 2 bob (.redeem "c1")]

theorem pairDemo_reachable : Pool.Reachable demoServe Pool.anySchedule demoHub pairDemo :=
  demoPlay_reachable _

/-- Alice's direct message to an agent, after these two. -/
def aliceResolves (agent : String) : Except Failure String × HubState :=
  (resolveTarget demoConfig alice (demoFresh 3) (.dm agent)).prog.run pairDemo.state

theorem dm_between_iff_demo :
    (aliceResolves "B").1 = .ok "dm.s1" ∧ (aliceResolves "B").2.store.DmBetween "dm.s1" "A" "B" := by
  have found : (aliceResolves "B").1 = .ok "dm.s1" := by decide +kernel
  refine ⟨found, (dm_between_iff pairDemo_reachable alice (demoFresh 3) "B" "dm.s1" found).mpr ?_⟩
  intro misdirects
  rcases misdirects with ⟨own, -⟩ | ⟨missed, -⟩
  · exact absurd own (by decide)
  · revert missed
    decide +kernel

/-- A direct message to oneself lands in the room shared with somebody else. -/
theorem dm_to_self_read_by_other :
    ∃ P : DemoPool, Pool.Reachable demoServe Pool.anySchedule demoHub P ∧
      ((resolveTarget demoConfig alice (demoFresh 3) (.dm alice.id)).prog.run P.state).1 =
        .ok "dm.s1" ∧
      ((resolveTarget demoConfig alice (demoFresh 3) (.dm alice.id)).prog.run
        P.state).2.store.isMember "dm.s1" bob.id = true ∧
      ¬ ((resolveTarget demoConfig alice (demoFresh 3) (.dm alice.id)).prog.run
        P.state).2.store.DmBetween "dm.s1" alice.id alice.id := by
  have found : (aliceResolves "A").1 = .ok "dm.s1" := by decide +kernel
  have read : (aliceResolves "A").2.store.isMember "dm.s1" "B" = true := by decide +kernel
  refine ⟨pairDemo, pairDemo_reachable, found, read, ?_⟩
  intro between
  rcases (between.2 "B").mp read with same | same <;> exact absurd same (by decide)

end Parler.Hub
