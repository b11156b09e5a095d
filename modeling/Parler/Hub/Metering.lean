import Mathlib.Data.Finset.Card
import Parler.Hub.Demo
import Parler.Hub.Footprint
import Parler.Hub.Specs
import Parler.Lib.Table

/-!
# The operation limit and the bounds of a frame

`dispatch` charges every frame to its agent's operation window and checks the lengths of its strings
before anything reaches the store. A window counts what it lets through, so between two restarts it lets no
more through than its limit. A pull that asks to wait is routed past both checks.
-/

namespace Parler.Hub

open Parler.Lib Parler.Protocol

variable {cfg : HubConfig}

/-- The calls that read or write the store or the blob files. -/
def HubCall.onStore : HubCall → Bool
  | .nowMs | .tick _ | .rateAllows .. | .roomRateAllows .. | .lockQuota | .unlockQuota
  | .acquireUpload _ | .releaseUpload _ | .countMessage _ | .pruneRateWindows _ | .notified _
  | .parked _ | .notifyRoom _ | .push .. => false
  | _ => true

/-- The frame is a pull that asks to wait. -/
def waits : ClientFrame → Bool
  | .pull _ _ _ (some _) _ => true
  | _ => false

/-! ## The window of an agent -/

/-- The windows that the next charge of the key finds. -/
def RateTable.windowsOf (table : RateTable) (key : String) : RateWindows :=
  ((rowOf Prod.fst key table).map Prod.snd).getD .fresh

theorem chargeKey_eq (table : RateTable) (key : String) (kind : RateKind) {limit : Nat}
    (limited : limit ≠ 0) (len now : Int) :
    chargeKey table key kind limit len now =
      (((RateTable.windowsOf table key).charge kind limit len now).1,
        upsert Prod.fst (key, ((RateTable.windowsOf table key).charge kind limit len now).2)
          (fun _ => (key, ((RateTable.windowsOf table key).charge kind limit len now).2)) table) := by
  unfold chargeKey
  rw [if_neg limited]
  rfl

theorem windowsOf_upsert (table : RateTable) (key other : String) (ws : RateWindows) :
    RateTable.windowsOf (upsert Prod.fst (key, ws) (fun _ => (key, ws)) table) other =
      if other = key then ws else RateTable.windowsOf table other := by
  unfold RateTable.windowsOf
  by_cases own : other = key
  · subst own
    rw [if_pos rfl, rowOf_upsert_self (k := other) rfl (fun _ _ => rfl)]
    cases rowOf Prod.fst other table <;> rfl
  · rw [if_neg own, rowOf_upsert_other own (fun _ _ => rfl)]

/-- The operation window that the agent's next frame is charged to. -/
def HubState.operationsOf (h : HubState) (agent : String) : Window :=
  (h.rate.windowsOf agent).operations

/-- The call let a frame of the agent through. -/
def admits (agent : String) : HubDone cfg → Bool
  | ⟨.rateAllows agent' .operation _, allowed⟩ => agent' = agent && (allowed : Bool)
  | _ => false

/-- The call leaves the agent's window in place: it goes on counting from where it is. -/
def KeepsWindow (agent : String) (e : HubEvent cfg) : Prop :=
  (e.after.operationsOf agent).start = (e.before.operationsOf agent).start ∧
    (e.before.operationsOf agent).count ≤ (e.after.operationsOf agent).count

instance (agent : String) (e : HubEvent cfg) : Decidable (KeepsWindow agent e) :=
  inferInstanceAs (Decidable (_ ∧ _))

/-- What a call does to the operation window of an agent. -/
inductive WindowChange (cfg : HubConfig) (agent : String) (d : HubDone cfg) (w w' : Window) : Prop where
  | same (others : admits agent d = false) (same : w' = w)
  | charged (now : Int)
      (charges : d = ⟨.rateAllows agent .operation now,
        (chargeWindow w cfg.limits.maxOpsPerMin 60000 now).1⟩)
      (window : w' = (chargeWindow w cfg.limits.maxOpsPerMin 60000 now).2)
  | pruned (now : Int) (prunes : d = ⟨.pruneRateWindows now, ()⟩)

theorem windowChange_rateAllows (cfg : HubConfig) (agent key : String) (kind : RateKind) (now : Int)
    (h : HubState) :
    WindowChange cfg agent ⟨.rateAllows key kind now, (h.rateAllows cfg key kind now).1⟩
      (h.operationsOf agent) ((h.rateAllows cfg key kind now).2.operationsOf agent) := by
  have kept : ∀ limit len, agent ≠ key ∨ kind ≠ .operation →
      ((chargeKey h.rate key kind limit len now).2.windowsOf agent).operations =
        h.operationsOf agent := by
    intro limit len other
    by_cases unlimited : limit = 0
    · simp only [chargeKey, unlimited, if_true]
      rfl
    · rw [chargeKey_eq h.rate key kind unlimited, windowsOf_upsert]
      by_cases own : agent = key
      · subst own
        rw [if_pos rfl]
        cases kind with
        | operation => exact absurd rfl (other.resolve_left (fun apart => apart rfl))
        | send => rfl
        | blob => rfl
      · rw [if_neg own]
        rfl
  cases kind with
  | operation =>
    by_cases own : agent = key
    · subst own
      by_cases unlimited : cfg.limits.maxOpsPerMin = 0
      · refine .charged now ?_ ?_ <;>
          simp [HubState.rateAllows, HubState.operationsOf, chargeKey, chargeWindow, unlimited]
      · refine .charged now ?_ ?_
        · simp only [HubState.rateAllows, chargeKey_eq h.rate agent .operation unlimited]
          rfl
        · simp only [HubState.rateAllows, HubState.operationsOf,
            chargeKey_eq h.rate agent .operation unlimited, windowsOf_upsert, if_true]
          rfl
    · refine .same ?_ (kept _ _ (Or.inl own))
      simp [admits, Ne.symm own]
  | send => exact .same rfl (kept _ _ (Or.inr (by decide)))
  | blob => exact .same rfl (kept _ _ (Or.inr (by decide)))

/-- Only charges and the janitor touch the windows of agents. -/
theorem rate_exec (cfg : HubConfig) (op : HubCall) (h : HubState)
    (uncharged : ∀ key kind now, op ≠ .rateAllows key kind now)
    (unpruned : ∀ now, op ≠ .pruneRateWindows now) : (op.exec cfg h).2.rate = h.rate := by
  have kept : op.storeOnly = true → (op.exec cfg h).2.rate = h.rate := by
    intro plain
    obtain ⟨s, equal⟩ := exec_storeOnly cfg op h plain
    rw [equal]
  cases op with
  | rateAllows key kind now => exact absurd rfl (uncharged key kind now)
  | pruneRateWindows now => exact absurd rfl (unpruned now)
  | acquireUpload n =>
    unfold HubCall.exec
    dsimp only
    split <;> rfl
  | roomRateAllows room kind now => cases kind <;> rfl
  | tick | lockQuota | unlockQuota | releaseUpload | countMessage | writeBlobFile | removeBlobFile => rfl
  | _ => exact kept rfl

theorem windowChange_exec (cfg : HubConfig) (agent : String) (op : HubCall) (h : HubState) :
    WindowChange cfg agent ⟨op, (op.exec cfg h).1⟩ (h.operationsOf agent)
      ((op.exec cfg h).2.operationsOf agent) := by
  have kept : (op.exec cfg h).2.rate = h.rate →
      (op.exec cfg h).2.operationsOf agent = h.operationsOf agent := by
    intro rate
    unfold HubState.operationsOf
    rw [rate]
  cases op with
  | rateAllows key kind now => exact windowChange_rateAllows cfg agent key kind now h
  | pruneRateWindows now => exact .pruned now rfl
  | _ =>
    exact .same rfl (kept (rate_exec cfg _ h (fun _ _ _ same => nomatch same)
      (fun _ same => nomatch same)))

section Charge

variable {w : Window} {limit : Nat} (limited : limit ≠ 0) {len now : Int}

include limited

theorem chargeWindow_admits (admitted : (chargeWindow w limit len now).1 = true) :
    0 < (chargeWindow w limit len now).2.count := by
  simp only [chargeWindow, limited, if_false] at admitted ⊢
  generalize (if now - w.start ≥ len then (⟨now, 0⟩ : Window) else w) = current at *
  split at admitted
  · cases admitted
  · rename_i room
    rw [if_neg room]
    exact Nat.succ_pos _

theorem chargeWindow_le (within : w.count ≤ limit) :
    (chargeWindow w limit len now).2.count ≤ limit := by
  simp only [chargeWindow, limited, if_false]
  have current : (if now - w.start ≥ len then (⟨now, 0⟩ : Window) else w).count ≤ limit := by
    split
    · exact Nat.zero_le _
    · exact within
  generalize (if now - w.start ≥ len then (⟨now, 0⟩ : Window) else w) = current' at *
  split
  · exact current
  · show current'.count + 1 ≤ limit
    omega

/-- A charge that does not restart the window adds what it lets through to its count. -/
theorem chargeWindow_counts (positive : 0 < len)
    (same : (chargeWindow w limit len now).2.start = w.start) :
    w.count + (if (chargeWindow w limit len now).1 = true then 1 else 0) ≤
      (chargeWindow w limit len now).2.count := by
  simp only [chargeWindow, limited, if_false] at same ⊢
  by_cases rolled : now - w.start ≥ len
  · simp only [rolled, if_true] at same
    have restarted : now = w.start := by
      split at same <;> exact same
    omega
  · simp only [rolled, if_false]
    split <;> simp

end Charge

section Counting

variable {agent : String} {d : HubDone cfg} {w w' : Window}

theorem WindowChange.begins (change : WindowChange cfg agent d w w')
    (limited : cfg.limits.maxOpsPerMin ≠ 0) (admitted : admits agent d = true) : 0 < w'.count := by
  cases change with
  | same others _ =>
    rw [others] at admitted
    cases admitted
  | charged now charges window =>
    subst charges window
    refine chargeWindow_admits limited ?_
    simpa [admits] using admitted
  | pruned now prunes =>
    subst prunes
    cases admitted

/-- A window that goes on counts what it lets through. -/
theorem WindowChange.counts (change : WindowChange cfg agent d w w')
    (limited : cfg.limits.maxOpsPerMin ≠ 0) (start : w'.start = w.start) (grows : w.count ≤ w'.count) :
    w.count + (if admits agent d = true then 1 else 0) ≤ w'.count := by
  cases change with
  | same others _ => simpa [others] using grows
  | charged now charges window =>
    subst charges window
    simpa [admits] using chargeWindow_counts limited (by decide : (0 : Int) < 60000) start
  | pruned now prunes =>
    subst prunes
    simpa [admits] using grows

end Counting

/-- No window has let through more than the limit. -/
def RateTable.Within (bound : Nat) (table : RateTable) : Prop :=
  ∀ e ∈ table, e.2.operations.count ≤ bound

theorem RateTable.Within.windowsOf {bound : Nat} {table : RateTable} (within : table.Within bound)
    (key : String) : (table.windowsOf key).operations.count ≤ bound := by
  unfold RateTable.windowsOf
  cases found : rowOf Prod.fst key table with
  | none => exact Nat.zero_le _
  | some e => exact within e (rowOf_mem found).1

theorem RateTable.Within.charge {bound : Nat} {table : RateTable} (within : table.Within bound)
    (key : String) (kind : RateKind) {limit : Nat} (own : kind = .operation → limit = bound)
    (len now : Int) : (chargeKey table key kind limit len now).2.Within bound := by
  by_cases unlimited : limit = 0
  · rw [chargeKey, if_pos unlimited]
    exact within
  · have charged :
        ((table.windowsOf key).charge kind limit len now).2.operations.count ≤ bound := by
      cases kind with
      | operation =>
        obtain rfl := own rfl
        exact chargeWindow_le unlimited (within.windowsOf key)
      | send => exact within.windowsOf key
      | blob => exact within.windowsOf key
    intro e member
    rw [chargeKey_eq table key kind unlimited] at member
    rcases mem_of_mem_upsert member with old | rfl | ⟨_, _, _, rfl⟩
    · exact within e old
    · exact charged
    · exact charged

theorem within_exec {h : HubState} (within : h.rate.Within cfg.limits.maxOpsPerMin) (op : HubCall) :
    (op.exec cfg h).2.rate.Within cfg.limits.maxOpsPerMin := by
  have kept : (op.exec cfg h).2.rate = h.rate →
      (op.exec cfg h).2.rate.Within cfg.limits.maxOpsPerMin := by
    intro rate
    rw [rate]
    exact within
  cases op with
  | rateAllows key kind now =>
    refine within.charge key kind ?_ _ now
    intro operation
    rw [operation]
  | pruneRateWindows now =>
    intro e member
    exact within e (List.mem_filter.mp member).1
  | _ =>
    exact kept (rate_exec cfg _ h (fun _ _ _ same => nomatch same) (fun _ same => nomatch same))

section Runs

variable {cardBytes : AgentCard → List UInt8} {inflight : Nat} {P : HubPool cfg}
  {G : HubPool cfg → Nat → HubCall → Prop}

theorem within_of_reachable (reach : Pool.Reachable (serve cfg cardBytes) G (.boot inflight) P) :
    P.state.rate.Within cfg.limits.maxOpsPerMin := by
  refine Pool.Reachable.invariant (I := fun P => P.state.rate.Within cfg.limits.maxOpsPerMin) ?_ ?_ reach
  · intro e member
    cases member
  · intro P Q within step
    cases step with
    | spawn t req free => exact within
    | exec t req op next pending enabled allowed => exact within_exec within op

/-- Between two restarts a window lets no more frames through than its limit. -/
theorem admitted_le (limited : cfg.limits.maxOpsPerMin ≠ 0)
    (reach : Pool.Reachable (serve cfg cardBytes) G (.boot inflight) P) {agent : String}
    {newer window older : List (HubEvent cfg)} (split : P.log = newer ++ (window ++ older))
    (steady : ∀ e ∈ window.dropLast, KeepsWindow agent e) :
    window.countP (fun e => admits agent ⟨e.op, e.result⟩) ≤ cfg.limits.maxOpsPerMin := by
  obtain ⟨P', reach', log⟩ := reach.rewind split
  refine Nat.le_trans ?_ ((within_of_reachable reach').windowsOf agent)
  refine reach'.counted (c := fun h => (h.operationsOf agent).count) ?_ ?_ log steady
  · exact fun e => (windowChange_exec cfg agent e.op e.before).begins limited
  · exact fun e keeps => (windowChange_exec cfg agent e.op e.before).counts limited keeps.1 keeps.2

end Runs

/-! ## Frames -/

/-- Nothing reaches the store before the frame was let through with its strings in bounds, unless
    it waits. -/
def meterRule (req : Request) (past : List (HubDone cfg)) (op : HubCall) : Prop :=
  op.onStore = true →
    match req with
    | .frame me frame _ _ _ => waits frame = true ∨
        (past.any (admits me.id) = true ∧ validateFrameBounds cfg frame = .ok ())
    | _ => True

theorem serve_meterRule (cardBytes : AgentCard → List UInt8) (req : Request) :
    (serve cfg cardBytes req).Follows (meterRule req) [] := by
  have free : (∀ (past : List (HubDone cfg)) op, meterRule req past op) →
      (serve cfg cardBytes req).Follows (meterRule req) [] :=
    fun all => Prog.Follows.of_grows (I := fun _ => True) (fun _ _ _ => trivial)
      (fun past op _ => all past op) _ trivial
  cases req with
  | frame me frame fresh upload rounds =>
    by_cases waiting : waits frame = true
    · exact free (fun past op _ => Or.inl waiting)
    · -- The frame is charged and checked first.
      show (dispatch cfg cardBytes me frame fresh upload rounds).Follows _ _
      unfold dispatch
      split
      · exact absurd rfl waiting
      · refine ⟨fun onStore => (nomatch onStore), fun now => ⟨fun onStore => (nomatch onStore), ?_⟩⟩
        intro allowed
        dsimp only
        split
        · rename_i admitted
          split
          · trivial
          · rename_i bounded
            refine Prog.Follows.of_grows (I := fun past => past.any (admits me.id) = true) ?_ ?_ _ ?_
            · intro d past before
              rw [List.any_cons, before, Bool.or_true]
            · exact fun past op before _ => Or.inr ⟨before, bounded⟩
            · simp [admits, admitted]
        · trivial
  | welcome me => exact free (fun past op _ => trivial)
  | janitor => exact free (fun past op _ => trivial)
  | tick ms => exact free (fun past op _ => trivial)

/-- The thread reaches the store. -/
def ReachesStore (log : List (HubEvent cfg)) (t : Nat) : Prop :=
  ∃ e ∈ log, e.thread = t ∧ e.op.onStore = true

/-- The call lets the agent's frame through, or is on the store. -/
def enters (agent : String) (e : HubEvent cfg) : Bool :=
  admits agent ⟨e.op, e.result⟩ || e.op.onStore

/-- The thread is let through, or reaches the store, within the window and not before it. -/
def EntersIn (agent : String) (window older : List (HubEvent cfg)) (t : Nat) : Prop :=
  (∃ e ∈ window, e.thread = t ∧ enters agent e = true) ∧
    ∀ e ∈ older, e.thread = t → enters agent e = false

section Runs

variable {cardBytes : AgentCard → List UInt8} {inflight : Nat} {P : HubPool cfg}
  {G : HubPool cfg → Nat → HubCall → Prop}

/-- A call on the store by a frame that does not wait was preceded by the admission of the frame. -/
theorem admitted_of_onStore (reach : Pool.Reachable (serve cfg cardBytes) G (.boot inflight) P)
    {newer older : List (HubEvent cfg)} {e : HubEvent cfg} (split : P.log = newer ++ e :: older)
    (onStore : e.op.onStore = true) {me : Authed} {frame : ClientFrame}
    (serves : ServesFrame P e.thread me frame) (plain : waits frame = false) :
    (∃ g ∈ older, g.thread = e.thread ∧ admits me.id ⟨g.op, g.result⟩ = true) ∧
      validateFrameBounds cfg frame = .ok () := by
  obtain ⟨req, p, at_t, rule⟩ := reach.followed (serve_meterRule cardBytes) split
  obtain ⟨fresh, upload, rounds, p', at_t'⟩ := serves
  rw [at_t] at at_t'
  cases at_t'
  rcases rule onStore with waiting | ⟨admitted, bounded⟩
  · rw [plain] at waiting
    cases waiting
  · refine ⟨?_, bounded⟩
    obtain ⟨d, recorded, admits⟩ := List.any_eq_true.mp admitted
    obtain ⟨g, logged, own, rfl⟩ := Pool.ownPast_event recorded
    exact ⟨g, logged, own, admits⟩

/-- Unless a frame of the agent waits, at most the limit of its frames reach the store within one
    operation window, and none whose strings are out of bounds. -/
theorem frames_metered_unless_waiting
    (reach : Pool.Reachable (serve cfg cardBytes) G (.boot inflight) P) (agent : String)
    (plain : ∀ t me frame, ServesFrame P t me frame → me.id = agent → waits frame = false) :
    (cfg.limits.maxOpsPerMin ≠ 0 → ∀ newer window older, P.log = newer ++ (window ++ older) →
      (∀ e ∈ window.dropLast, KeepsWindow agent e) → ∀ ts : Finset Nat,
        (∀ t ∈ ts, (∃ me frame, ServesFrame P t me frame ∧ me.id = agent) ∧
          EntersIn agent window older t ∧ ReachesStore P.log t) →
        ts.card ≤ cfg.limits.maxOpsPerMin) ∧
      ∀ t me frame, ServesFrame P t me frame → me.id = agent → ReachesStore P.log t →
        validateFrameBounds cfg frame = .ok () := by
  refine ⟨?_, ?_⟩
  · intro limited newer window older split steady ts entered
    refine Nat.le_trans ?_ (admitted_le limited reach split steady)
    rw [List.countP_eq_length_filter]
    -- Every thread of the set was let through within the window.
    have listed : ts ⊆
        ((window.filter fun e => admits agent ⟨e.op, e.result⟩).map Event.thread).toFinset := by
      intro t member
      obtain ⟨⟨me, frame, serves, rfl⟩, ⟨⟨e, inside, rfl, enters⟩, outside⟩, -⟩ := entered t member
      have admitted : ∃ g ∈ window, g.thread = e.thread ∧ admits me.id ⟨g.op, g.result⟩ = true := by
        rcases Bool.or_eq_true_iff.mp enters with admitted | onStore
        · exact ⟨e, inside, rfl, admitted⟩
        · obtain ⟨first, last, rfl⟩ := List.append_of_mem inside
          have split' : P.log = (newer ++ first) ++ e :: (last ++ older) := by
            rw [split]
            simp
          obtain ⟨⟨g, earlier, own, admitted⟩, -⟩ := admitted_of_onStore reach split' onStore serves
            (plain _ me frame serves rfl)
          rcases List.mem_append.mp earlier with here | before
          · exact ⟨g, List.mem_append_right _ (List.mem_cons_of_mem _ here), own, admitted⟩
          · have unentered := outside g before own
            simp [Hub.enters, admitted] at unentered
      obtain ⟨g, inside, own, admitted⟩ := admitted
      rw [List.mem_toFinset, List.mem_map]
      exact ⟨g, List.mem_filter.mpr ⟨inside, admitted⟩, own⟩
    calc ts.card ≤ _ := Finset.card_le_card listed
      _ ≤ _ := List.toFinset_card_le _
      _ = _ := List.length_map _
  · intro t me frame serves own reaches
    obtain ⟨e, logged, rfl, onStore⟩ := reaches
    obtain ⟨newer, older, split⟩ := List.append_of_mem logged
    exact (admitted_of_onStore reach split onStore serves (plain _ me frame serves own)).2

end Runs

/-- A hub that lets one frame a minute through. -/
def strictConfig : HubConfig := { demoConfig with limits := ⟨1, 240, 120, 1200, 600⟩ }

def strictServe : Request → Prog (hubMachine strictConfig) (List ServerFrame) :=
  serve strictConfig (fun _ => [])

def strictPlay (reqs : List Request) : HubPool strictConfig :=
  (Pool.start demoHub).play strictServe (demoActions 0 reqs)

/-- Alice opens a room and asks for her rooms. -/
def strictDemo : HubPool strictConfig :=
  strictPlay [demoFrame 0 alice (.invite .channel (some "r") none none false),
    demoFrame 1 alice .rooms]

theorem frames_metered_unless_waiting_demo :
    ReachesStore strictDemo.log 0 ∧ ∀ ts : Finset Nat,
      (∀ t ∈ ts, (∃ me frame, ServesFrame strictDemo t me frame ∧ me.id = "A") ∧
        EntersIn "A" strictDemo.log [] t ∧ ReachesStore strictDemo.log t) → ts.card ≤ 1 := by
  have reach : Pool.Reachable strictServe Pool.anySchedule demoHub strictDemo :=
    Pool.play_reachable _ _ _
  have plain : ∀ t me frame, ServesFrame strictDemo t me frame → me.id = "A" →
      waits frame = false := by
    rintro t me frame ⟨fresh, upload, rounds, p, at_t⟩ -
    rcases Pool.play_spawned strictServe _ _ at_t with ⟨p', before⟩ | spawns
    · cases before
    · rcases List.mem_cons.mp (demoActions_spawns spawns) with same | rest
      · cases same
        rfl
      · cases List.mem_singleton.mp rest
        rfl
  refine ⟨?_, (frames_metered_unless_waiting reach "A" plain).1 (by decide) [] strictDemo.log []
    (by simp) (by decide +kernel)⟩
  unfold ReachesStore
  decide +kernel

/-- Alice opens a room and waits for a message in it. -/
def unmetered : HubPool strictConfig :=
  strictPlay [demoFrame 0 alice (.invite .channel (some "r") none none false),
    demoFrame 1 alice (.pull "r" none none (some 0) none)]

/-- A room name longer than a control string may be. -/
def longName : String := String.ofList (List.replicate 4097 'r')

/-- Alice waits in a room of any name. -/
def waitIn (room : String) : HubPool strictConfig :=
  (Pool.start demoHub).play strictServe
    [.spawn 0 (demoFrame 0 alice (.pull room none none (some 0) none)), .step 0]

theorem waitIn_reachable (room : String) :
    Pool.Reachable strictServe Pool.anySchedule demoHub (waitIn room) := Pool.play_reachable _ _ _

theorem waitIn_reaches (room : String) : ReachesStore (waitIn room).log 0 :=
  ⟨⟨0, .isMember room "A", demoHub⟩, List.mem_cons_self, rfl, rfl⟩

theorem bounded_pull {room : String} (bounded : validateFrameBounds strictConfig
    (.pull room none none (some 0) none) = .ok ()) : byteLen room ≤ 4096 := by
  by_contra long
  have beyond : byteLen room > maxControlStringBytes := not_le.mp long
  simp [validateFrameBounds, boundedString, beyond] at bounded

theorem byteLen_replicate (n : Nat) : byteLen (String.ofList (List.replicate n 'r')) = n := by
  induction n with
  | zero => rfl
  | succ n ih =>
    unfold byteLen at ih ⊢
    rw [List.replicate_succ, ← List.singleton_append, String.ofList_append,
      String.utf8ByteSize_append, ih, Nat.add_comm]
    rfl

def agentOf : Request → Option String
  | .frame me .. => some me.id
  | _ => none

/-- Two frames of one window reach the store past a limit of one, and so does a frame whose room
    name is out of bounds. -/
theorem waiting_frames_unmetered :
    (Pool.Reachable strictServe Pool.anySchedule demoHub unmetered ∧
      strictConfig.limits.maxOpsPerMin = 1 ∧
      (∀ e ∈ unmetered.log.dropLast, KeepsWindow "A" e) ∧
      ∀ t ∈ [0, 1], (unmetered.threads t).bind (fun thread => agentOf thread.1) = some "A" ∧
        EntersIn "A" unmetered.log [] t ∧ ReachesStore unmetered.log t) ∧
    Pool.Reachable strictServe Pool.anySchedule demoHub (waitIn longName) ∧
      ReachesStore (waitIn longName).log 0 ∧
      validateFrameBounds strictConfig (.pull longName none none (some 0) none) ≠ .ok () := by
  have size : byteLen longName = 4097 := byteLen_replicate 4097
  have long : ¬ byteLen longName ≤ 4096 := by omega
  refine ⟨⟨Pool.play_reachable _ _ _, rfl, by decide +kernel, ?_⟩, waitIn_reachable longName,
    waitIn_reaches longName, mt bounded_pull long⟩
  unfold EntersIn ReachesStore
  decide +kernel

end Parler.Hub
