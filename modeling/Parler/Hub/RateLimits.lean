import Parler.Lib.Windows
import Parler.Hub.Erasure

/-!
# Flood limits

The four tables of rate windows of the hub (`server.rs:199-225`, `472-551`, `691-714`): of agents, of rooms,
and of the source addresses of HTTP requests and of waitlist signups. The janitor drops what has run out. Two
tables that no later charge tells apart answer alike, so nobody notices the janitor; and the windows of one key
make the flood bound of the library.
-/

namespace Parler.Hub

open Parler.Lib Parler.Protocol

/-! ## The limiters -/

/-- `WAITLIST_MAX_PER_MIN` -/
def waitlistMaxPerMin : Nat := 10

/-- `Window::default()` -/
def Window.fresh : Window := ⟨0, 0⟩

section Tables

variable {K W : Type} [DecidableEq K]

/-- `HashMap::entry(..).or_default()`. -/
def entry (fresh : W) (table : List (K × W)) (key : K) : W :=
  ((table.find? (fun e => e.1 = key)).map Prod.snd).getD fresh

/-- Write an entry. -/
def putEntry (table : List (K × W)) (key : K) (w : W) : List (K × W) :=
  upsert Prod.fst (key, w) (fun _ => (key, w)) table

end Tables

/-- The rate windows of a hub: those of agents and rooms are in its state; source addresses have theirs. -/
structure Limiters (Ip : Type) where
  hub : HubState
  httpRate : List (Ip × Window)
  waitlistRate : List (Ip × Window)

/-- A call that charges a window, or the janitor's. -/
inductive LimitCall (Ip : Type) where
  | agent (id : String) (kind : RateKind)
  | room (name : String) (kind : RateKind)
  | http (ip : Ip)
  | waitlist (ip : Ip)
  | prune
  deriving DecidableEq

section Calls

variable {Ip : Type} [DecidableEq Ip]

/-- `http_rate_allows` -/
def httpRateAllows (maxHttpPerMin : Nat) (table : List (Ip × Window)) (ip : Ip) (now : Int) :
    Bool × List (Ip × Window) :=
  if maxHttpPerMin = 0 then (true, table)
  else
    let w := entry .fresh table ip
    let w := if now - w.start ≥ 60000 then ⟨now, 0⟩ else w
    if w.count ≥ maxHttpPerMin then (false, putEntry table ip w)
    else (true, putEntry table ip { w with count := w.count + 1 })

/-- `waitlist_rate_allows` -/
def waitlistRateAllows (table : List (Ip × Window)) (ip : Ip) (now : Int) : Bool × List (Ip × Window) :=
  let w := entry .fresh table ip
  let w := if now - w.start ≥ 60000 then ⟨now, 0⟩ else w
  if w.count ≥ waitlistMaxPerMin then (false, putEntry table ip w)
  else (true, putEntry table ip { w with count := w.count + 1 })

namespace Limiters

variable (cfg : HubConfig) (maxHttpPerMin : Nat) (L : Limiters Ip)

/-- `prune_rate_windows` -/
def pruneRateWindows (now : Int) : Limiters Ip where
  hub := L.hub.pruneRateWindows now
  httpRate := L.httpRate.filter (fun e => now - e.2.start < 60000)
  waitlistRate := L.waitlistRate.filter (fun e => now - e.2.start < 60000)

/-- A call at a time: whether it allows its event, and the windows after it. -/
def step (call : LimitCall Ip) (now : Int) : Option Bool × Limiters Ip :=
  match call with
  | .agent id kind =>
      let r := L.hub.rateAllows cfg id kind now
      (some r.1, { L with hub := r.2 })
  | .room name kind =>
      let r := L.hub.roomRateAllows cfg name kind now
      (some r.1, { L with hub := r.2 })
  | .http ip =>
      let r := httpRateAllows maxHttpPerMin L.httpRate ip now
      (some r.1, { L with httpRate := r.2 })
  | .waitlist ip =>
      let r := waitlistRateAllows L.waitlistRate ip now
      (some r.1, { L with waitlistRate := r.2 })
  | .prune => (none, L.pruneRateWindows now)

/-- The answers to a sequence of calls. -/
def answers (L : Limiters Ip) : List (LimitCall Ip × Int) → List Bool
  | [] => []
  | (call, now) :: calls =>
      (L.step cfg maxHttpPerMin call now).1.toList ++
        answers (L.step cfg maxHttpPerMin call now).2 calls

/-- The limiters of a hub that has just started. -/
def boot (inflight : Nat) : Limiters Ip := ⟨.boot inflight, [], []⟩

end Limiters

end Calls

/-! ## Entries -/

section Entries

variable {K W : Type} [DecidableEq K] {fresh : W} {table table' : List (K × W)}

theorem entry_putEntry (key other : K) (w : W) :
    entry fresh (putEntry table key w) other = if other = key then w else entry fresh table other := by
  by_cases same : other = key
  · subst same
    have row : rowOf Prod.fst other (putEntry table other w) = _ :=
      rowOf_upsert_self rfl (fun _ _ => rfl)
    rw [if_pos rfl, entry]
    unfold rowOf at row
    rw [row]
    cases table.find? (fun e => e.1 = other) <;> rfl
  · have row : rowOf Prod.fst other (putEntry table key w) = rowOf Prod.fst other table :=
      rowOf_upsert_other same (fun _ _ => rfl)
    rw [if_neg same, entry, entry]
    unfold rowOf at row
    rw [row]

theorem nodup_putEntry (distinct : (table.map Prod.fst).Nodup) (key : K) (w : W) :
    ((putEntry table key w).map Prod.fst).Nodup :=
  nodup_upsert (fun _ _ => rfl) distinct

/-- An entry that is dropped is as good as fresh from then on. -/
theorem entry_filter (fresh : W) (distinct : (table.map Prod.fst).Nodup) (live : W → Bool) (key : K) :
    entry fresh (table.filter (fun e => live e.2)) key = entry fresh table key ∨
      (entry fresh (table.filter (fun e => live e.2)) key = fresh ∧
        live (entry fresh table key) = false) := by
  induction table with
  | nil => exact Or.inl rfl
  | cons e table ih =>
    obtain ⟨new, distinct⟩ := List.nodup_cons.mp distinct
    by_cases own : e.1 = key
    · cases alive : live e.2 with
      | true =>
        left
        simp [entry, alive, own]
      | false =>
        have gone : (table.filter (fun e => live e.2)).find? (fun e => e.1 = key) = none := by
          rw [List.find?_eq_none]
          intro e' member same
          rw [decide_eq_true_eq] at same
          apply new
          rw [own, ← same]
          exact List.mem_map_of_mem (List.mem_filter.mp member).1
        right
        constructor
        · simp [entry, alive, gone]
        · simp [entry, own, alive]
    · cases alive : live e.2 <;> simpa [entry, alive, own] using ih distinct

end Entries

/-! ## The window of a call -/

namespace RateKind

/-- How long a window of the kind lasts. -/
def len : RateKind → Int
  | .operation => 60000
  | .send => 60000
  | .blob => 3600000

end RateKind

namespace RateWindows

/-- The window of a kind. -/
def of (ws : RateWindows) : RateKind → Window
  | .operation => ws.operations
  | .send => ws.sends
  | .blob => ws.blobs

theorem fresh_of (kind : RateKind) : RateWindows.fresh.of kind = .fresh := by cases kind <;> rfl

theorem charge_answer (ws : RateWindows) (kind : RateKind) (limit : Nat) (len now : Int) :
    (ws.charge kind limit len now).1 = (chargeWindow (ws.of kind) limit len now).1 := by
  cases kind <;> rfl

theorem of_charge (ws : RateWindows) (kind other : RateKind) (limit : Nat) (len now : Int) :
    (ws.charge kind limit len now).2.of other =
      if other = kind then (chargeWindow (ws.of kind) limit len now).2 else ws.of other := by
  cases kind <;> cases other <;> rfl

end RateWindows

theorem chargeWindow_unlimited (w : Window) (len now : Int) : chargeWindow w 0 len now = (true, w) :=
  if_pos rfl

theorem chargeKey_answer (table : RateTable) (key : String) (kind : RateKind) (limit : Nat) (len now : Int) :
    (chargeKey table key kind limit len now).1 =
      (chargeWindow ((entry .fresh table key).of kind) limit len now).1 := by
  by_cases unlimited : limit = 0
  · rw [unlimited, chargeWindow_unlimited, chargeKey, if_pos rfl]
  · rw [chargeKey, if_neg unlimited]
    exact RateWindows.charge_answer _ _ _ _ _

theorem entry_chargeKey (table : RateTable) (key other : String) (kind kind' : RateKind) (limit : Nat)
    (len now : Int) :
    (entry .fresh (chargeKey table key kind limit len now).2 other).of kind' =
      if other = key ∧ kind' = kind then
        (chargeWindow ((entry .fresh table key).of kind) limit len now).2
      else (entry .fresh table other).of kind' := by
  by_cases unlimited : limit = 0
  · rw [unlimited, chargeWindow_unlimited, chargeKey, if_pos rfl]
    split
    · rename_i same
      rw [same.1, same.2]
    · rfl
  · rw [chargeKey, if_neg unlimited]
    have written := @entry_putEntry _ _ _ RateWindows.fresh table key other
      ((entry .fresh table key).charge kind limit len now).2
    refine (congrArg (fun ws => RateWindows.of ws kind') written).trans ?_
    by_cases same : other = key
    · subst same
      simp only [if_true, true_and, RateWindows.of_charge]
    · simp [same]

/-- The copy of the counter for HTTP requests counts as the counter does. -/
theorem httpRateAllows_eq {Ip : Type} [DecidableEq Ip] {maxHttpPerMin : Nat} (limited : maxHttpPerMin ≠ 0)
    (table : List (Ip × Window)) (ip : Ip) (now : Int) :
    httpRateAllows maxHttpPerMin table ip now =
      ((chargeWindow (entry .fresh table ip) maxHttpPerMin 60000 now).1,
        putEntry table ip (chargeWindow (entry .fresh table ip) maxHttpPerMin 60000 now).2) := by
  unfold httpRateAllows chargeWindow
  rw [if_neg limited, if_neg limited]
  dsimp only
  generalize (if now - (entry .fresh table ip).start ≥ 60000 then Window.mk now 0
    else entry .fresh table ip) = w
  by_cases full : w.count ≥ maxHttpPerMin <;> simp [full]

theorem waitlistRateAllows_eq {Ip : Type} [DecidableEq Ip] (table : List (Ip × Window)) (ip : Ip)
    (now : Int) : waitlistRateAllows table ip now = httpRateAllows waitlistMaxPerMin table ip now := rfl

theorem httpRateAllows_answer {Ip : Type} [DecidableEq Ip] (maxHttpPerMin : Nat)
    (table : List (Ip × Window)) (ip : Ip) (now : Int) :
    (httpRateAllows maxHttpPerMin table ip now).1 =
      (chargeWindow (entry .fresh table ip) maxHttpPerMin 60000 now).1 := by
  by_cases unlimited : maxHttpPerMin = 0
  · rw [unlimited, chargeWindow_unlimited, httpRateAllows, if_pos rfl]
  · rw [httpRateAllows_eq unlimited]

theorem entry_httpRateAllows {Ip : Type} [DecidableEq Ip] (maxHttpPerMin : Nat)
    (table : List (Ip × Window)) (ip other : Ip) (now : Int) :
    entry .fresh (httpRateAllows maxHttpPerMin table ip now).2 other =
      if other = ip then (chargeWindow (entry .fresh table ip) maxHttpPerMin 60000 now).2
      else entry .fresh table other := by
  by_cases unlimited : maxHttpPerMin = 0
  · rw [unlimited, chargeWindow_unlimited, httpRateAllows, if_pos rfl]
    split
    · rename_i same
      rw [same]
    · rfl
  · rw [httpRateAllows_eq unlimited]
    exact entry_putEntry ip other _

namespace LimitCall

variable {Ip : Type}

/-- What a call's window is limited to; no limit is 0. -/
def limit (cfg : HubConfig) (maxHttpPerMin : Nat) : LimitCall Ip → Nat
  | .agent _ .operation => cfg.limits.maxOpsPerMin
  | .agent _ .send => cfg.limits.maxSendsPerMin
  | .agent _ .blob => cfg.limits.maxBlobsPerHour
  | .room _ .operation => 0
  | .room _ .send => cfg.limits.maxRoomSendsPerMin
  | .room _ .blob => cfg.limits.maxRoomBlobsPerHour
  | .http _ => maxHttpPerMin
  | .waitlist _ => waitlistMaxPerMin
  | .prune => 0

/-- How long a call's window lasts. -/
def len : LimitCall Ip → Int
  | .agent _ kind | .room _ kind => kind.len
  | .http _ | .waitlist _ | .prune => 60000

theorem len_cases (call : LimitCall Ip) : call.len = 60000 ∨ call.len = 3600000 := by
  cases call with
  | agent id kind => cases kind <;> simp [len, RateKind.len]
  | room name kind => cases kind <;> simp [len, RateKind.len]
  | http | waitlist | prune => exact Or.inl rfl

theorem len_pos (call : LimitCall Ip) : 0 < call.len := by
  rcases call.len_cases with length | length <;> omega

theorem len_le (call : LimitCall Ip) : call.len ≤ 3600000 := by
  rcases call.len_cases with length | length <;> omega

end LimitCall

namespace Limiters

variable {Ip : Type} [DecidableEq Ip] {cfg : HubConfig} {maxHttpPerMin : Nat} {L L' : Limiters Ip}

/-- The window that a call charges. -/
def window (L : Limiters Ip) : LimitCall Ip → Window
  | .agent id kind => (entry .fresh L.hub.rate id).of kind
  | .room name kind => (entry .fresh L.hub.roomRate name).of kind
  | .http ip => entry .fresh L.httpRate ip
  | .waitlist ip => entry .fresh L.waitlistRate ip
  | .prune => .fresh

variable (cfg maxHttpPerMin) in
/-- A call charges its window and no other. -/
theorem step_charges {call : LimitCall Ip} (charges : call ≠ .prune) (now : Int) :
    (L.step cfg maxHttpPerMin call now).1 =
        some (chargeWindow (L.window call) (call.limit cfg maxHttpPerMin) call.len now).1 ∧
      ∀ other, (L.step cfg maxHttpPerMin call now).2.window other =
        if other = call then (chargeWindow (L.window call) (call.limit cfg maxHttpPerMin) call.len now).2
        else L.window other := by
  cases call with
  | agent id kind =>
    have answer := fun limit => chargeKey_answer L.hub.rate id kind limit kind.len now
    have after := fun other kind' limit =>
      entry_chargeKey L.hub.rate id other kind kind' limit kind.len now
    constructor
    · cases kind <;> exact congrArg some (answer _)
    · intro other
      cases other with
      | agent other kind' =>
        simp only [LimitCall.agent.injEq]
        cases kind <;> exact after other kind' _
      | _ => simp [step, window, HubState.rateAllows]
  | room name kind =>
    have answer := fun limit => chargeKey_answer L.hub.roomRate name kind limit kind.len now
    have after := fun other kind' limit =>
      entry_chargeKey L.hub.roomRate name other kind kind' limit kind.len now
    cases kind with
    | operation =>
      constructor
      · rfl
      · intro other
        split
        · rename_i same
          rw [same]
          rfl
        · rfl
    | send =>
      constructor
      · exact congrArg some (answer _)
      · intro other
        cases other with
        | room other kind' =>
          simp only [LimitCall.room.injEq]
          exact after other kind' _
        | _ => simp [step, window, HubState.roomRateAllows]
    | blob =>
      constructor
      · exact congrArg some (answer _)
      · intro other
        cases other with
        | room other kind' =>
          simp only [LimitCall.room.injEq]
          exact after other kind' _
        | _ => simp [step, window, HubState.roomRateAllows]
  | http ip =>
    constructor
    · exact congrArg some (httpRateAllows_answer _ _ _ _)
    · intro other
      cases other with
      | http other =>
        simp only [LimitCall.http.injEq]
        exact entry_httpRateAllows _ _ _ _ _
      | _ => simp [step, window]
  | waitlist ip =>
    constructor
    · exact congrArg some (httpRateAllows_answer waitlistMaxPerMin _ _ _)
    · intro other
      cases other with
      | waitlist other =>
        simp only [LimitCall.waitlist.injEq]
        exact entry_httpRateAllows waitlistMaxPerMin _ _ _ _
      | _ => simp [step, window]
  | prune => exact absurd rfl charges

end Limiters

/-! ## The janitor -/

theorem Window.Alike.later {clock clock' len : Int} {w w' : Window} (alike : w.Alike clock len w')
    (later : clock ≤ clock') : w.Alike clock' len w' := by
  rcases alike with same | ⟨spent, spent'⟩
  · exact Or.inl same
  · unfold Window.Spent at spent spent'
    right
    constructor <;> unfold Window.Spent <;> omega

/-- A window that has run out may be forgotten. -/
theorem Window.Alike.forget {clock len : Int} {w w' : Window} (alike : w.Alike clock len w')
    (spent : w.Spent clock len) (late : len ≤ clock) : Window.fresh.Alike clock len w' := by
  right
  constructor
  · show (0 : Int) + len ≤ clock
    omega
  · rcases alike with rfl | ⟨-, spent'⟩
    · exact spent
    · exact spent'

namespace Limiters

variable {Ip : Type} [DecidableEq Ip] {cfg : HubConfig} {maxHttpPerMin : Nat} {L L' : Limiters Ip}
  {clock : Int}

/-- Each key has one entry. -/
structure Distinct (L : Limiters Ip) : Prop where
  rate : (L.hub.rate.map Prod.fst).Nodup
  roomRate : (L.hub.roomRate.map Prod.fst).Nodup
  http : (L.httpRate.map Prod.fst).Nodup
  waitlist : (L.waitlistRate.map Prod.fst).Nodup

omit [DecidableEq Ip] in
theorem boot_distinct (inflight : Nat) : (boot inflight : Limiters Ip).Distinct := by
  constructor <;> exact List.nodup_nil

theorem nodup_chargeKey {table : RateTable} (distinct : (table.map Prod.fst).Nodup) (key : String)
    (kind : RateKind) (limit : Nat) (len now : Int) :
    ((chargeKey table key kind limit len now).2.map Prod.fst).Nodup := by
  unfold chargeKey
  split
  · exact distinct
  · exact nodup_putEntry distinct key _

theorem nodup_httpRateAllows {table : List (Ip × Window)} (distinct : (table.map Prod.fst).Nodup)
    (maxHttpPerMin : Nat) (ip : Ip) (now : Int) :
    ((httpRateAllows maxHttpPerMin table ip now).2.map Prod.fst).Nodup := by
  by_cases unlimited : maxHttpPerMin = 0
  · simpa [httpRateAllows, unlimited] using distinct
  · rw [httpRateAllows_eq unlimited]
    exact nodup_putEntry distinct ip _

variable (cfg maxHttpPerMin) in
theorem Distinct.step (distinct : L.Distinct) (call : LimitCall Ip) (now : Int) :
    (L.step cfg maxHttpPerMin call now).2.Distinct := by
  obtain ⟨rate, roomRate, http, waitlist⟩ := distinct
  cases call with
  | agent id kind => exact ⟨nodup_chargeKey rate _ _ _ _ _, roomRate, http, waitlist⟩
  | room name kind =>
    cases kind with
    | operation => exact ⟨rate, roomRate, http, waitlist⟩
    | send => exact ⟨rate, nodup_chargeKey roomRate _ _ _ _ _, http, waitlist⟩
    | blob => exact ⟨rate, nodup_chargeKey roomRate _ _ _ _ _, http, waitlist⟩
  | http ip => exact ⟨rate, roomRate, nodup_httpRateAllows http _ _ _, waitlist⟩
  | waitlist ip => exact ⟨rate, roomRate, http, nodup_httpRateAllows waitlist waitlistMaxPerMin _ _⟩
  | prune =>
    exact ⟨rate.sublist (List.filter_sublist.map _), roomRate.sublist (List.filter_sublist.map _),
      http.sublist (List.filter_sublist.map _), waitlist.sublist (List.filter_sublist.map _)⟩

/-- The janitor leaves the window of a limited call, or forgets it when it has run out. -/
theorem window_prune (distinct : L.Distinct) (now : Int) {call : LimitCall Ip}
    (limited : call.limit cfg maxHttpPerMin ≠ 0) :
    (L.pruneRateWindows now).window call = L.window call ∨
      ((L.pruneRateWindows now).window call = .fresh ∧ (L.window call).Spent now call.len) := by
  cases call with
  | agent id kind =>
    rcases entry_filter .fresh distinct.rate (fun ws => now - ws.operations.start < 3600000 ||
      now - ws.sends.start < 3600000 || now - ws.blobs.start < 3600000) id with same | ⟨gone, dead⟩
    · exact Or.inl (congrArg (fun ws => RateWindows.of ws kind) same)
    · right
      constructor
      · exact (congrArg (fun ws => RateWindows.of ws kind) gone).trans (RateWindows.fresh_of kind)
      · simp only [Bool.or_eq_false_iff, decide_eq_false_iff_not] at dead
        cases kind <;> simp only [window, RateWindows.of, Window.Spent, LimitCall.len, RateKind.len] <;>
          omega
  | room name kind =>
    rcases entry_filter .fresh distinct.roomRate (fun ws => now - ws.sends.start < 3600000 ||
      now - ws.blobs.start < 3600000) name with same | ⟨gone, dead⟩
    · exact Or.inl (congrArg (fun ws => RateWindows.of ws kind) same)
    · right
      constructor
      · exact (congrArg (fun ws => RateWindows.of ws kind) gone).trans (RateWindows.fresh_of kind)
      · simp only [Bool.or_eq_false_iff, decide_eq_false_iff_not] at dead
        cases kind with
        | operation => exact absurd rfl limited
        | send | blob =>
          simp only [window, RateWindows.of, Window.Spent, LimitCall.len, RateKind.len]
          omega
  | http ip =>
    rcases entry_filter .fresh distinct.http (fun w => now - w.start < 60000) ip with same | ⟨gone, dead⟩
    · exact Or.inl same
    · right
      rw [decide_eq_false_iff_not] at dead
      exact ⟨gone, by simp only [window, Window.Spent, LimitCall.len]; omega⟩
  | waitlist ip =>
    rcases entry_filter .fresh distinct.waitlist (fun w => now - w.start < 60000) ip with same | ⟨gone, dead⟩
    · exact Or.inl same
    · right
      rw [decide_eq_false_iff_not] at dead
      exact ⟨gone, by simp only [window, Window.Spent, LimitCall.len]; omega⟩
  | prune => exact absurd rfl limited

/-- No limited call from now on tells the limiters apart. -/
def Alike (cfg : HubConfig) (maxHttpPerMin : Nat) (clock : Int) (L L' : Limiters Ip) : Prop :=
  ∀ call : LimitCall Ip, call.limit cfg maxHttpPerMin ≠ 0 →
    (L.window call).Alike clock call.len (L'.window call)

theorem Alike.later (alike : Alike cfg maxHttpPerMin clock L L') {clock' : Int} (later : clock ≤ clock') :
    Alike cfg maxHttpPerMin clock' L L' := by
  intro call limited
  exact (alike call limited).later later

/-- A charge answers alike and leaves the limiters alike. -/
theorem Alike.charge (alike : Alike cfg maxHttpPerMin clock L L') {call : LimitCall Ip}
    (charges : call ≠ .prune) :
    (L.step cfg maxHttpPerMin call clock).1 = (L'.step cfg maxHttpPerMin call clock).1 ∧
      Alike cfg maxHttpPerMin clock (L.step cfg maxHttpPerMin call clock).2
        (L'.step cfg maxHttpPerMin call clock).2 := by
  obtain ⟨answer, after⟩ := L.step_charges cfg maxHttpPerMin charges clock
  obtain ⟨answer', after'⟩ := L'.step_charges cfg maxHttpPerMin charges clock
  rw [answer, answer']
  by_cases unlimited : call.limit cfg maxHttpPerMin = 0
  · constructor
    · rw [unlimited, chargeWindow_unlimited, chargeWindow_unlimited]
    · intro other limited
      have differ : other ≠ call := by
        rintro rfl
        exact limited unlimited
      rw [after, after', if_neg differ, if_neg differ]
      exact alike other limited
  · have same := chargeWindow_alike (alike call unlimited) unlimited
    constructor
    · rw [same]
    · intro other limited
      rw [after, after']
      split
      · rw [same]
        exact Or.inl rfl
      · exact alike other limited

theorem Alike.prune (alike : Alike cfg maxHttpPerMin clock L L') (distinct : L.Distinct)
    (late : 3600000 ≤ clock) : Alike cfg maxHttpPerMin clock (L.pruneRateWindows clock) L' := by
  intro call limited
  rcases window_prune distinct clock limited with same | ⟨gone, spent⟩
  · rw [same]
    exact alike call limited
  · rw [gone]
    exact (alike call limited).forget spent (call.len_le.trans late)

/-- Limiters that are alike answer a sequence alike, with the janitor's calls or without. -/
theorem answers_alike {calls : List (LimitCall Ip × Int)} (alike : Alike cfg maxHttpPerMin clock L L')
    (distinct : L.Distinct) (ordered : calls.Pairwise (fun c d => c.2 ≤ d.2))
    (from_now : ∀ c ∈ calls, clock ≤ c.2) (late : ∀ c ∈ calls, 3600000 ≤ c.2) :
    L.answers cfg maxHttpPerMin calls =
      L'.answers cfg maxHttpPerMin (calls.filter (fun c => c.1 ≠ .prune)) := by
  induction calls generalizing L L' clock with
  | nil => rfl
  | cons c calls ih =>
    obtain ⟨call, now⟩ := c
    obtain ⟨next, sorted⟩ := List.pairwise_cons.mp ordered
    have alike := alike.later (from_now _ List.mem_cons_self)
    have late_rest := fun c member => late c (List.mem_cons_of_mem (call, now) member)
    by_cases prunes : call = .prune
    · subst prunes
      have rest := ih (alike.prune distinct (late _ List.mem_cons_self))
        (distinct.step cfg maxHttpPerMin .prune now) sorted next late_rest
      simpa [answers, Limiters.step] using rest
    · obtain ⟨same, after⟩ := alike.charge prunes
      have rest := ih after (distinct.step cfg maxHttpPerMin call now) sorted next late_rest
      rw [List.filter_cons_of_pos (by simpa using prunes), answers, answers, same, rest]

/-- The answers of the limiters are the same with the janitor's calls and without them. -/
theorem pruning_unobservable (cfg : HubConfig) (maxHttpPerMin : Nat) {L : Limiters Ip}
    (distinct : L.Distinct) {calls : List (LimitCall Ip × Int)}
    (ordered : calls.Pairwise (fun c d => c.2 ≤ d.2)) (late : ∀ c ∈ calls, 3600000 ≤ c.2) :
    L.answers cfg maxHttpPerMin calls =
      L.answers cfg maxHttpPerMin (calls.filter (fun c => c.1 ≠ .prune)) :=
  answers_alike (fun _ _ => Or.inl rfl) distinct ordered late late

/-- Alice posts and another address asks, the janitor drops their windows a day later, and Alice posts
    again. -/
def pruneDemo : List (LimitCall String × Int) :=
  [(.agent "A" .send, 3600000), (.http "1.2.3.4", 3600001), (.prune, 90000000), (.agent "A" .send, 90000000)]

theorem pruning_unobservable_demo :
    (boot 0 : Limiters String).answers demoConfig 2 pruneDemo =
      (boot 0 : Limiters String).answers demoConfig 2 (pruneDemo.filter (fun c => c.1 ≠ .prune)) :=
  pruning_unobservable demoConfig 2 (boot_distinct 0) (by decide) (by decide)

end Limiters

/-! ## The flood bound -/

section Flood

variable {limit : Nat} {len : Int}

/-- The events that `charge_window` admits of events at these times, each with the start of its window. -/
def chargeStamps (limit : Nat) (len : Int) : Window → List Int → List Stamp
  | _, [] => []
  | w, now :: times =>
      let r := chargeWindow w limit len now
      (if r.1 then [⟨r.2.start, now⟩] else []) ++ chargeStamps limit len r.2 times

/-- What a charge does: the window is kept or opened anew, then it is full or counts the event. -/
theorem chargeWindow_cases (limited : limit ≠ 0) (len : Int) (w : Window) (now : Int) :
    ∃ v : Window, ((v = w ∧ now < w.start + len) ∨ (v = ⟨now, 0⟩ ∧ w.start + len ≤ now)) ∧
      ((limit ≤ v.count ∧ chargeWindow w limit len now = (false, v)) ∨
        (v.count < limit ∧ chargeWindow w limit len now = (true, ⟨v.start, v.count + 1⟩))) := by
  unfold chargeWindow
  rw [if_neg limited]
  by_cases elapsed : now - w.start ≥ len
  · refine ⟨⟨now, 0⟩, Or.inr ⟨rfl, by omega⟩, ?_⟩
    have room : ¬ limit ≤ 0 := by omega
    right
    constructor
    · exact Nat.pos_of_ne_zero limited
    · simp [elapsed, room]
  · refine ⟨w, Or.inl ⟨rfl, by omega⟩, ?_⟩
    by_cases full : limit ≤ w.count
    · left
      simp [elapsed, full]
    · right
      constructor
      · omega
      · simp [elapsed, full]

/-- What is admitted from a window on: events of that window, as many as there is room for, and of windows
    that opened after it. -/
structure Stamped (limit : Nat) (len : Int) (w : Window) (times : List Int) (stamps : List Stamp) : Prop where
  listed : ∀ p ∈ stamps, p.time ∈ times
  opened : ∀ p ∈ stamps, p.opened = w.start ∨ (w.start + len ≤ p.opened ∧ p.opened ≤ p.time)
  room : stamps.countP (fun p => p.opened = w.start) ≤ limit - w.count
  window : ∀ opened, stamps.countP (fun p => p.opened = opened) ≤ limit
  apart : Apart len stamps

/-- An admitted event before what is admitted after it. -/
theorem Stamped.cons {v : Window} {now : Int} {times : List Int} {stamps : List Stamp}
    (rest : Stamped limit len ⟨v.start, v.count + 1⟩ times stamps) (inside : now < v.start + len)
    (positive : 0 < len) (room : v.count < limit) :
    Stamped limit len v (now :: times) (⟨v.start, now⟩ :: stamps) := by
  have room_rest : stamps.countP (fun p => p.opened = v.start) ≤ limit - (v.count + 1) := rest.room
  constructor
  · intro p member
    rcases List.mem_cons.mp member with rfl | later
    · exact List.mem_cons_self
    · exact List.mem_cons_of_mem _ (rest.listed p later)
  · intro p member
    rcases List.mem_cons.mp member with rfl | later
    · exact Or.inl rfl
    · exact rest.opened p later
  · rw [List.countP_cons_of_pos (by simp)]
    omega
  · intro opened
    by_cases own : v.start = opened
    · subst own
      rw [List.countP_cons_of_pos (by simp)]
      omega
    · rw [List.countP_cons_of_neg (by simpa using own)]
      exact rest.window opened
  · intro p member
    rcases List.mem_cons.mp member with rfl | later
    · constructor
      · exact inside
      · intro q listed before
        rcases List.mem_cons.mp listed with rfl | next
        · exact absurd before (lt_irrefl _)
        · rcases rest.opened q next with same | after
          · exact absurd same (ne_of_gt before)
          · exact after
    · constructor
      · exact (rest.apart p later).1
      · intro q listed before
        rcases List.mem_cons.mp listed with rfl | next
        · rcases rest.opened p later with same | after
          · exact absurd same (ne_of_lt before)
          · exact absurd before (by have := after.1; simp only at *; omega)
        · exact (rest.apart p later).2 q next before

/-- A window that opens anew has nothing to do with the one before it. -/
theorem Stamped.reopen {w : Window} {now : Int} {times : List Int} {stamps : List Stamp}
    (later : Stamped limit len ⟨now, 0⟩ times stamps) (elapsed : w.start + len ≤ now) (positive : 0 < len)
    (ordered : ∀ t ∈ times, now ≤ t) : Stamped limit len w times stamps := by
  have after : ∀ p ∈ stamps, w.start + len ≤ p.opened ∧ p.opened ≤ p.time := by
    intro p member
    rcases later.opened p member with same | ⟨next, closed⟩
    · have time := ordered _ (later.listed p member)
      simp only at same
      omega
    · simp only at next
      omega
  constructor
  · exact later.listed
  · intro p member
    exact Or.inr (after p member)
  · have none : stamps.countP (fun p => p.opened = w.start) = 0 := by
      rw [List.countP_eq_zero]
      intro p member same
      rw [decide_eq_true_eq] at same
      have next := (after p member).1
      omega
    omega
  · exact later.window
  · exact later.apart

theorem chargeStamps_stamped (limited : limit ≠ 0) (positive : 0 < len) (w : Window) {times : List Int}
    (ordered : times.Pairwise (· ≤ ·)) : Stamped limit len w times (chargeStamps limit len w times) := by
  induction times generalizing w with
  | nil =>
    constructor
    · intro p member
      cases member
    · intro p member
      cases member
    · exact Nat.zero_le _
    · intro opened
      exact Nat.zero_le _
    · exact apart_nil
  | cons now times ih =>
    obtain ⟨next, sorted⟩ := List.pairwise_cons.mp ordered
    obtain ⟨v, kept, charged⟩ := chargeWindow_cases limited len w now
    -- From the window the event is counted in on.
    have from_v : now < v.start + len →
        Stamped limit len v (now :: times) (chargeStamps limit len w (now :: times)) := by
      intro inside
      rcases charged with ⟨full, refused⟩ | ⟨room, admitted⟩
      · have rest := ih v sorted
        rw [chargeStamps, refused]
        exact ⟨fun p member => List.mem_cons_of_mem _ (rest.listed p member), rest.opened, rest.room,
          rest.window, rest.apart⟩
      · rw [chargeStamps, admitted]
        exact (ih ⟨v.start, v.count + 1⟩ sorted).cons inside positive room
    rcases kept with ⟨rfl, inside⟩ | ⟨rfl, elapsed⟩
    · exact from_v inside
    · apply (from_v (by simp only; omega)).reopen elapsed positive
      intro t member
      rcases List.mem_cons.mp member with rfl | later
      · exact le_refl _
      · exact next t later

/-- `charge_window` keeps the flood bound. -/
theorem chargeStamps_flood (limited : limit ≠ 0) (positive : 0 < len) (w : Window) {times : List Int}
    (ordered : times.Pairwise (· ≤ ·)) : FloodBound limit len (chargeStamps limit len w times) := by
  have stamped := chargeStamps_stamped limited positive w ordered
  exact stamped.apart.floodBound stamped.window

end Flood

namespace Limiters

variable {Ip : Type} [DecidableEq Ip] (cfg : HubConfig) (maxHttpPerMin : Nat)

/-- The events of one call that a sequence of calls admits, each with the start of its window. -/
def stamps (call : LimitCall Ip) : Limiters Ip → List (LimitCall Ip × Int) → List Stamp
  | _, [] => []
  | L, (c, now) :: calls =>
      let r := L.step cfg maxHttpPerMin c now
      (if c = call ∧ r.1 = some true then [⟨(r.2.window call).start, now⟩] else []) ++ stamps call r.2 calls

variable {cfg maxHttpPerMin}

/-- The events of a key are counted as if they came alone. -/
theorem stamps_eq {L : Limiters Ip} (call : LimitCall Ip) {calls : List (LimitCall Ip × Int)}
    (charges : ∀ c ∈ calls, c.1 ≠ .prune) :
    L.stamps cfg maxHttpPerMin call calls =
      chargeStamps (call.limit cfg maxHttpPerMin) call.len (L.window call)
        ((calls.filter (fun c => c.1 = call)).map Prod.snd) := by
  induction calls generalizing L with
  | nil => rfl
  | cons head calls ih =>
    obtain ⟨c, now⟩ := head
    obtain ⟨answer, after⟩ := L.step_charges cfg maxHttpPerMin
      (charges _ List.mem_cons_self) now
    have rest := ih (L := (L.step cfg maxHttpPerMin c now).2)
      (fun c member => charges c (List.mem_cons_of_mem _ member))
    simp only [stamps]
    rw [rest]
    by_cases own : c = call
    · subst own
      rw [after, if_pos rfl, answer]
      simp [chargeStamps]
    · rw [after, if_neg (Ne.symm own)]
      simp [own]

end Limiters

end Parler.Hub
