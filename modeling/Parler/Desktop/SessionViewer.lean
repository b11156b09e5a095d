import Parler.Hub.Demo
import Parler.Hub.Quotas
import Parler.Hub.Retention
import Parler.Hub.Tokens
import Parler.Lib.Runs
import Parler.Lib.Tail

/-!
# The session viewer

`load`, `reset` and `connect` of `desktop/src/renderer/src/components/session-viewer.tsx` over
`api_session` of the hub. A timer loads every four seconds whether or not the last fetch is back;
a fetch carries the cursor of the moment it starts, and what it brings is appended whatever has
happened since.
-/

namespace Parler.Desktop

open Parler.Lib Parler.Protocol Parler.Hub

/-- `MAX_MESSAGES` -/
def maxMessages : Nat := 1000

/-- What a fetch brings: a page of the room with its cursor, a 401, or another error. -/
inductive Reply where
  | page (room : String) (messages : List StoredMessage) (cursor : Int)
  | unauthorized
  | failed (message : String)

/-- How far a fetch is: sent, let in by the hub as a watch of a room, answered, or done. -/
inductive Phase where
  | asked
  | admitted (room : String)
  | replied (reply : Reply)
  | done

structure Fetch where
  token : String
  since : Int
  phase : Phase

structure Viewer where
  token : String
  /-- the token of the running timer -/
  armed : String
  view : Option String
  messages : List StoredMessage
  error : Option String
  unauthorized : Bool
  cursor : Int
  fetches : List Fetch
  hub : HubState
  /-- the messages brought for the token since it was set -/
  fetched : List StoredMessage

inductive ViewerEvent where
  | connect (draft : String)
  /-- the effect on `initialToken` -/
  | initial (token : String)
  | reset
  /-- the effects of the last render -/
  | effects
  | tick
  | authorize (i : Nat) (now : Int)
  | read (i : Nat)
  | fail (i : Nat) (message : String)
  | arrive (i : Nat)
  | hub (op : HubCall)

/-- A token is drawn at random, so it is minted for one room only. -/
def mintsFor (roomOf : String → String) : HubCall → Bool
  | .mintWatchToken token room .. => roomOf token = room
  | .mintDirectoryToken token scope .. => (Store.watchedRoom scope).all (fun room => roomOf token = room)
  | _ => true

namespace Viewer

/-- A viewer that was just mounted, beside a hub just started. -/
def start (inflight : Nat) : Viewer where
  token := ""
  armed := ""
  view := none
  messages := []
  error := none
  unauthorized := false
  cursor := 0
  fetches := []
  hub := .boot inflight
  fetched := []

def setToken (v : Viewer) (token : String) : Viewer :=
  { v with
    messages := [], cursor := 0, unauthorized := false, error := none, token := token, fetched := [] }

def reset (v : Viewer) : Viewer :=
  { v with
    token := "", view := none, messages := [], error := none, unauthorized := false, cursor := 0,
    fetched := [] }

/-- `load` up to its `await`. -/
def load (v : Viewer) : Viewer :=
  if v.armed = "" then v else { v with fetches := v.fetches ++ [⟨v.armed, v.cursor, .asked⟩] }

def setPhase (v : Viewer) (i : Nat) (phase : Phase) : Viewer :=
  { v with fetches := v.fetches.modify i (fun f => { f with phase := phase }) }

/-- `load` from its `await` on. -/
def receive (v : Viewer) (token : String) : Reply → Viewer
  | .page room messages cursor =>
      let v := { v with view := some room, error := none, unauthorized := false }
      if messages.isEmpty then v
      else
        { v with
          messages := (v.messages ++ messages).rtake maxMessages
          cursor := cursor
          fetched := if token = v.token then v.fetched ++ messages else v.fetched }
  | .unauthorized => { v with unauthorized := true, view := none }
  | .failed message => { v with error := some message }

/-- The page that `api_session` reads. -/
def sessionPage (s : Store) (room : String) (since : Int) : Reply :=
  let messages := s.roomMessages room since 1000
  .page room messages ((messages.getLast?.map StoredMessage.seq).getD since)

def act (cfg : HubConfig) (roomOf : String → String) (v : Viewer) : ViewerEvent → Viewer
  | .connect draft => if trim draft = "" then v else v.setToken (trim draft)
  | .initial token => if token = "" then v else v.setToken token
  | .reset => v.reset
  | .effects => if v.armed = v.token then v else { v with armed := v.token }.load
  | .tick => v.load
  | .authorize i now =>
      match v.fetches[i]? with
      | some ⟨token, _, .asked⟩ =>
          match v.hub.store.validateWatchToken (trim token) now with
          | some room => v.setPhase i (.admitted room)
          | none => v.setPhase i (.replied .unauthorized)
      | _ => v
  | .read i =>
      match v.fetches[i]? with
      | some ⟨_, since, .admitted room⟩ =>
          v.setPhase i (.replied (sessionPage v.hub.store room since))
      | _ => v
  | .fail i message =>
      match v.fetches[i]? with
      | some ⟨_, _, .done⟩ => v
      | some _ => v.setPhase i (.replied (.failed message))
      | none => v
  | .arrive i =>
      match v.fetches[i]? with
      | some ⟨token, _, .replied reply⟩ => (v.setPhase i .done).receive token reply
      | _ => v
  | .hub op => if mintsFor roomOf op then { v with hub := (op.exec cfg v.hub).2 } else v

/-- One faithful transcript: messages of the room of the token in strictly increasing order, the last
    of those brought for it, with the cursor at the last one. -/
structure Faithful (roomOf : String → String) (v : Viewer) : Prop where
  room : ∀ m ∈ v.messages, m.room = roomOf (trim v.token)
  increasing : v.messages.Pairwise (fun a b => a.seq < b.seq)
  tail : v.messages = v.fetched.rtake maxMessages
  cursor : v.cursor = (v.messages.getLast?.map StoredMessage.seq).getD 0

/-- A page that arrives was asked for with the current token and begins past the cursor. If it fills
    the transcript on its own, it may begin anywhere, or be the transcript that is already there. -/
def InTurn (v : Viewer) : ViewerEvent → Prop
  | .arrive i => ∀ token since room messages cursor,
      v.fetches[i]? = some ⟨token, since, .replied (.page room messages cursor)⟩ → messages ≠ [] →
        (token = v.token ∧ (maxMessages ≤ messages.length ∨ ∀ m ∈ messages.head?, v.cursor < m.seq)) ∨
          (maxMessages ≤ messages.length ∧ messages = v.messages)
  | _ => True

end Viewer

/-! ## What the hub answers -/

/-- A page of a room past `since`. -/
structure PageOf (room : String) (since : Int) (messages : List StoredMessage) (cursor : Int) :
    Prop where
  room : ∀ m ∈ messages, m.room = room
  increasing : messages.Pairwise (fun a b => a.seq < b.seq)
  past : ∀ m ∈ messages, since < m.seq
  short : messages.length ≤ maxMessages
  last : cursor = (messages.getLast?.map StoredMessage.seq).getD since

/-- What is known of a fetch: the hub lets in and answers for the room of its token. -/
def Fetch.Sound (roomOf : String → String) (f : Fetch) : Prop :=
  0 ≤ f.since ∧
    match f.phase with
    | .admitted room => room = roomOf (trim f.token)
    | .replied (.page _ messages cursor) => PageOf (roomOf (trim f.token)) f.since messages cursor
    | _ => True

theorem pageOf_roomMessages {s : Store} (order : SeqOrder s) (room : String) (since : Int) :
    PageOf room since (s.roomMessages room since 1000)
      (((s.roomMessages room since 1000).getLast?.map StoredMessage.seq).getD since) where
  room := by
    intro m listed
    obtain ⟨row, -, here, -, rfl⟩ := Store.mem_readBacklog listed
    exact here
  increasing := order.readBacklog_sorted room since _
  past := by
    intro m listed
    obtain ⟨row, -, -, above, rfl⟩ := Store.mem_readBacklog listed
    exact above
  short := by
    rw [Store.roomMessages, Store.readBacklog, List.length_map, List.length_take]
    exact min_le_left _ _
  last := rfl

/-- Every watch token is one of its room. -/
def TokensOf (roomOf : String → String) (s : Store) : Prop :=
  ∀ r ∈ s.directoryTokens, ∀ room, Store.watchedRoom r.scope = some room → roomOf r.token = room

theorem TokensOf.exec {cfg : HubConfig} {roomOf : String → String} {h : HubState} {op : HubCall}
    (tokens : TokensOf roomOf h.store) (mints : mintsFor roomOf op = true) :
    TokensOf roomOf (op.exec cfg h).2.store := by
  have inserted : ∀ row : TokenRow, (∀ room, Store.watchedRoom row.scope = some room →
      roomOf row.token = room) → ∀ s : Store, s.directoryTokens = h.store.directoryTokens ++ [row] →
        TokensOf roomOf s := by
    intro row own s rows r listed
    rw [rows] at listed
    rcases List.mem_append.mp listed with old | new
    · exact tokens r old
    · rw [List.mem_singleton.mp new]
      exact own
  by_cases minting : op.mintsToken = true
  · cases op with
    | mintDirectoryToken token scope expires createdBy made =>
      rcases h.tryStore_cases (h.store.mintDirectoryToken token scope expires createdBy made) with
        ⟨s, ok, equal⟩ | same
      · rw [HubCall.exec, equal, Store.insertToken_ok ok]
        refine inserted ⟨token, scope, expires, createdBy, made⟩ ?_ _ rfl
        intro room watched
        simp only [mintsFor, Option.all_eq_true, decide_eq_true_eq] at mints
        exact mints room watched
      · rw [HubCall.exec, same]
        exact tokens
    | mintWatchToken token room owner expires made =>
      rcases h.tryStore_cases (h.store.mintWatchToken token room owner expires made) with
        ⟨s, ok, equal⟩ | same
      · rw [HubCall.exec, equal, (Store.mintWatchToken_ok ok).2]
        refine inserted ⟨token, watchScope room, expires, owner, made⟩ ?_ _ rfl
        intro room' watched
        rw [Store.watchedRoom_watchScope] at watched
        rw [← Option.some.inj watched]
        exact of_decide_eq_true mints
      · rw [HubCall.exec, same]
        exact tokens
    | _ => cases minting
  · intro r listed
    exact tokens r ((directoryTokens_exec cfg op h (by simpa using minting)).subset listed)

namespace Viewer

variable {cfg : HubConfig} {roomOf : String → String} {v : Viewer} {e : ViewerEvent}

/-- What every state of a run keeps. -/
structure Sound (roomOf : String → String) (v : Viewer) : Prop where
  order : SeqOrder v.hub.store
  tokens : TokensOf roomOf v.hub.store
  fetches : ∀ f ∈ v.fetches, f.Sound roomOf
  cursor : 0 ≤ v.cursor

theorem start_sound (inflight : Nat) : (start inflight).Sound roomOf := by
  refine ⟨⟨List.Pairwise.nil, ?_⟩, ?_, ?_, le_refl _⟩
  · intro r listed
    cases listed
  · intro r listed
    cases listed
  · intro f listed
    cases listed

theorem Sound.load (sound : v.Sound roomOf) : v.load.Sound roomOf := by
  unfold Viewer.load
  split
  · exact sound
  · refine ⟨sound.order, sound.tokens, ?_, sound.cursor⟩
    intro f listed
    rcases List.mem_append.mp listed with old | new
    · exact sound.fetches f old
    · rw [List.mem_singleton.mp new]
      exact ⟨sound.cursor, trivial⟩

theorem Sound.setPhase (sound : v.Sound roomOf) {i : Nat} {phase : Phase}
    (fine : ∀ f, v.fetches[i]? = some f → Fetch.Sound roomOf { f with phase := phase }) :
    (v.setPhase i phase).Sound roomOf := by
  refine ⟨sound.order, sound.tokens, ?_, sound.cursor⟩
  intro f listed
  obtain ⟨j, at_j⟩ := List.mem_iff_getElem?.mp listed
  rw [Viewer.setPhase, List.getElem?_modify] at at_j
  obtain ⟨f', found, rfl⟩ := Option.map_eq_some_iff.mp at_j
  split
  · rename_i same
    subst same
    exact fine f' found
  · exact sound.fetches f' (List.mem_of_getElem? found)

theorem Sound.receive (sound : v.Sound roomOf) {token : String} {since : Int} {reply : Reply}
    (fetch : Fetch.Sound roomOf ⟨token, since, .replied reply⟩) :
    (v.receive token reply).Sound roomOf := by
  cases reply with
  | page room messages cursor =>
    obtain ⟨positive, page⟩ := fetch
    unfold Viewer.receive
    dsimp only
    split
    · exact ⟨sound.order, sound.tokens, sound.fetches, sound.cursor⟩
    · refine ⟨sound.order, sound.tokens, sound.fetches, ?_⟩
      show 0 ≤ cursor
      rw [page.last]
      cases ends : messages.getLast? with
      | none => exact positive
      | some m => exact positive.trans (page.past m (List.mem_of_getLast? ends)).le
  | unauthorized => exact ⟨sound.order, sound.tokens, sound.fetches, sound.cursor⟩
  | failed message => exact ⟨sound.order, sound.tokens, sound.fetches, sound.cursor⟩

theorem Sound.act (sound : v.Sound roomOf) (e : ViewerEvent) : (v.act cfg roomOf e).Sound roomOf := by
  have cleared : ∀ token, (v.setToken token).Sound roomOf :=
    fun token => ⟨sound.order, sound.tokens, sound.fetches, le_refl _⟩
  cases e with
  | connect draft =>
    unfold Viewer.act
    dsimp only
    split
    · exact sound
    · exact cleared _
  | initial token =>
    unfold Viewer.act
    dsimp only
    split
    · exact sound
    · exact cleared _
  | reset => exact ⟨sound.order, sound.tokens, sound.fetches, le_refl _⟩
  | effects =>
    unfold Viewer.act
    dsimp only
    split
    · exact sound
    · apply Sound.load
      exact ⟨sound.order, sound.tokens, sound.fetches, sound.cursor⟩
  | tick => exact sound.load
  | authorize i now =>
    unfold Viewer.act
    dsimp only
    split
    · rename_i token since at_i
      have fetch := sound.fetches _ (List.mem_of_getElem? at_i)
      cases valid : v.hub.store.validateWatchToken (trim token) now with
      | some room =>
        apply sound.setPhase
        intro f same
        rw [at_i] at same
        cases same
        obtain ⟨row, stored, named, -, scope⟩ := validateWatchToken_some valid
        refine ⟨fetch.1, ?_⟩
        show room = roomOf (trim token)
        rw [← named]
        apply Eq.symm
        apply sound.tokens row stored
        rw [scope]
        exact Store.watchedRoom_watchScope room
      | none =>
        apply sound.setPhase
        intro f same
        rw [at_i] at same
        cases same
        exact ⟨fetch.1, trivial⟩
    · exact sound
  | read i =>
    unfold Viewer.act
    dsimp only
    split
    · rename_i token since room at_i
      have fetch := sound.fetches _ (List.mem_of_getElem? at_i)
      apply sound.setPhase
      intro f same
      rw [at_i] at same
      cases same
      obtain ⟨positive, own⟩ := fetch
      dsimp only at own
      subst own
      exact ⟨positive, pageOf_roomMessages sound.order _ since⟩
    · exact sound
  | fail i message =>
    unfold Viewer.act
    dsimp only
    split
    · exact sound
    · rename_i f at_i
      apply sound.setPhase
      intro f' same
      exact ⟨(sound.fetches f' (List.mem_of_getElem? same)).1, trivial⟩
    · exact sound
  | arrive i =>
    unfold Viewer.act
    dsimp only
    split
    · rename_i token since reply at_i
      have own : Fetch.Sound roomOf ⟨token, since, .replied reply⟩ :=
        sound.fetches _ (List.mem_of_getElem? at_i)
      refine Sound.receive ?_ own
      apply sound.setPhase
      intro f same
      exact ⟨(sound.fetches f (List.mem_of_getElem? same)).1, trivial⟩
    · exact sound
  | hub op =>
    unfold Viewer.act
    dsimp only
    split
    · rename_i mints
      exact ⟨sound.order.exec op, sound.tokens.exec mints, sound.fetches, sound.cursor⟩
    · exact sound

/-! ## The transcript -/

/-- An empty transcript is faithful. -/
theorem faithful_of_nil (messages : v.messages = []) (fetched : v.fetched = []) (cursor : v.cursor = 0) :
    v.Faithful roomOf := by
  refine ⟨?_, ?_, ?_, ?_⟩
  · rw [messages]
    intro m listed
    cases listed
  · rw [messages]
    exact List.Pairwise.nil
  · rw [messages, fetched, rtake_of_le (Nat.zero_le _)]
  · rw [messages, cursor]
    rfl

/-- What leaves the token, the messages and the cursor alone keeps the transcript. -/
theorem Faithful.frame {v' : Viewer} (faithful : v.Faithful roomOf) (token : v'.token = v.token)
    (messages : v'.messages = v.messages) (fetched : v'.fetched = v.fetched)
    (cursor : v'.cursor = v.cursor) : v'.Faithful roomOf := by
  obtain ⟨room, increasing, tail, last⟩ := faithful
  refine ⟨?_, ?_, ?_, ?_⟩
  · rw [messages, token]
    exact room
  · rw [messages]
    exact increasing
  · rw [messages, fetched]
    exact tail
  · rw [cursor, messages]
    exact last

theorem Faithful.load (faithful : v.Faithful roomOf) : v.load.Faithful roomOf := by
  unfold Viewer.load
  split
  · exact faithful
  · exact faithful.frame rfl rfl rfl rfl

/-- No message is past the cursor. -/
theorem Faithful.below (faithful : v.Faithful roomOf) {m : StoredMessage} (listed : m ∈ v.messages) :
    m.seq ≤ v.cursor := by
  have increasing := faithful.increasing
  rcases List.eq_nil_or_concat v.messages with none | ⟨l, x, ends⟩
  · rw [none] at listed
    cases listed
  · rw [List.concat_eq_append] at ends
    rw [ends] at listed increasing
    rw [faithful.cursor, ends, List.getLast?_concat]
    rcases List.mem_append.mp listed with before | last
    · exact ((List.pairwise_append.mp increasing).2.2 m before x (List.mem_singleton_self x)).le
    · rw [List.mem_singleton.mp last]
      exact le_refl _

/-- A page that arrives keeps the transcript faithful just when it is in turn. -/
theorem Faithful.receive_iff (faithful : v.Faithful roomOf)
    {token room : String} {since cursor : Int} {messages : List StoredMessage} (positive : 0 ≤ since)
    (page : PageOf (roomOf (trim token)) since messages cursor) (some : messages ≠ []) :
    (v.receive token (.page room messages cursor)).Faithful roomOf ↔
      (token = v.token ∧ (maxMessages ≤ messages.length ∨ ∀ m ∈ messages.head?, v.cursor < m.seq)) ∨
        (maxMessages ≤ messages.length ∧ messages = v.messages) := by
  have received : v.receive token (.page room messages cursor) =
      { v with
        view := .some room, error := none, unauthorized := false
        messages := (v.messages ++ messages).rtake maxMessages
        cursor := cursor
        fetched := if token = v.token then v.fetched ++ messages else v.fetched } := by
    unfold Viewer.receive
    dsimp only
    rw [if_neg (by simpa using some)]
  have one : maxMessages ≠ 0 := by decide
  have last : cursor = (messages.getLast?.map StoredMessage.seq).getD 0 := by
    rw [page.last]
    cases ends : messages.getLast? with
    | none => exact absurd (List.getLast?_eq_none_iff.mp ends) some
    | some m => rfl
  rw [received]
  constructor
  · rintro ⟨-, increasing, tail, -⟩
    dsimp only at increasing tail
    by_cases own : token = v.token
    · refine Or.inl ⟨own, ?_⟩
      by_contra! crossed
      obtain ⟨short, m, head, low⟩ := crossed
      -- The cursor is at a message that is still there, right before the first of the page.
      have first : m ∈ messages := List.mem_of_head? head
      have above := page.past m first
      rw [faithful.cursor] at low
      cases ends : v.messages.getLast? with
      | none =>
        rw [ends] at low
        have zero : m.seq ≤ 0 := low
        omega
      | some x =>
        rw [ends] at low
        have low : m.seq ≤ x.seq := low
        rw [rtake_append (by omega)] at increasing
        have kept : x ∈ v.messages.rtake (maxMessages - messages.length) := by
          apply List.mem_of_getLast?
          rw [getLast?_rtake (by omega), ends]
        have ordered := (List.pairwise_append.mp increasing).2.2 x kept m first
        omega
    · rw [if_neg own, ← faithful.tail] at tail
      right
      have short : v.messages.length ≤ maxMessages := by
        rw [faithful.tail, length_rtake]
        exact min_le_left _ _
      by_cases full : maxMessages ≤ messages.length
      · rw [rtake_append_long full, rtake_of_le page.short] at tail
        exact ⟨full, tail⟩
      · exact absurd tail (rtake_append_ne (fun m => lt_irrefl m.seq) faithful.increasing short some
          (by omega))
  · rintro (⟨own, fine⟩ | ⟨full, same⟩)
    · refine ⟨?_, ?_, ?_, ?_⟩
      · dsimp only
        intro m listed
        rcases List.mem_append.mp ((rtake_sublist _ maxMessages).subset listed) with old | new
        · exact faithful.room m old
        · rw [← own]
          exact page.room m new
      · dsimp only
        rcases fine with full | past
        · rw [rtake_append_long full]
          exact page.increasing.sublist (rtake_sublist _ _)
        · refine List.Pairwise.sublist (rtake_sublist _ _) (List.pairwise_append.mpr
            ⟨faithful.increasing, page.increasing, ?_⟩)
          intro m old m' new
          have below := faithful.below old
          obtain ⟨first, rest, rfl⟩ := List.exists_cons_of_ne_nil some
          have beyond := past first rfl
          rcases List.mem_cons.mp new with rfl | later
          · omega
          · have above := List.rel_of_pairwise_cons page.increasing later
            omega
      · dsimp only
        rw [if_pos own, faithful.tail, rtake_rtake_append]
      · dsimp only
        rw [getLast?_rtake one, List.getLast?_append_of_ne_nil _ some]
        exact last
    · have whole : (v.messages ++ messages).rtake maxMessages = messages := by
        rw [rtake_append_long full, rtake_of_le page.short]
      refine ⟨?_, ?_, ?_, ?_⟩
      · dsimp only
        rw [whole, same]
        exact faithful.room
      · dsimp only
        rw [whole]
        exact page.increasing
      · dsimp only
        rw [whole]
        split
        · rw [rtake_append_long full, rtake_of_le page.short]
        · rw [same]
          exact faithful.tail
      · dsimp only
        rw [whole]
        exact last

theorem Faithful.act_iff (sound : v.Sound roomOf) (faithful : v.Faithful roomOf) (e : ViewerEvent) :
    (v.act cfg roomOf e).Faithful roomOf ↔ v.InTurn e := by
  cases e with
  | arrive i =>
    unfold Viewer.act
    dsimp only
    split
    · rename_i token since reply at_i
      cases reply with
      | page room messages cursor =>
        obtain ⟨positive, page⟩ := sound.fetches _ (List.mem_of_getElem? at_i)
        by_cases none : messages = []
        · subst none
          constructor
          · intro _ token' since' room' messages' cursor' same some
            rw [at_i] at same
            cases same
            exact absurd rfl some
          · intro _
            exact faithful.frame rfl rfl rfl rfl
        · have ended : (v.setPhase i .done).Faithful roomOf := faithful.frame rfl rfl rfl rfl
          rw [ended.receive_iff positive page none]
          constructor
          · intro fine token' since' room' messages' cursor' same _
            rw [at_i] at same
            cases same
            exact fine
          · intro turn
            exact turn token since room messages cursor at_i none
      | unauthorized =>
        constructor
        · intro _ token' since' room' messages' cursor' same
          rw [at_i] at same
          cases same
        · intro _
          exact faithful.frame rfl rfl rfl rfl
      | failed message =>
        constructor
        · intro _ token' since' room' messages' cursor' same
          rw [at_i] at same
          cases same
        · intro _
          exact faithful.frame rfl rfl rfl rfl
    · rename_i other
      constructor
      · intro _ token since room messages cursor same
        exact absurd same (other token since (.page room messages cursor))
      · intro _
        exact faithful
  | connect draft =>
    refine ⟨fun _ => trivial, fun _ => ?_⟩
    unfold Viewer.act
    dsimp only
    split
    · exact faithful
    · exact faithful_of_nil rfl rfl rfl
  | initial token =>
    refine ⟨fun _ => trivial, fun _ => ?_⟩
    unfold Viewer.act
    dsimp only
    split
    · exact faithful
    · exact faithful_of_nil rfl rfl rfl
  | reset => exact ⟨fun _ => trivial, fun _ => faithful_of_nil rfl rfl rfl⟩
  | effects =>
    refine ⟨fun _ => trivial, fun _ => ?_⟩
    unfold Viewer.act
    dsimp only
    split
    · exact faithful
    · apply Faithful.load
      exact faithful.frame rfl rfl rfl rfl
  | tick => exact ⟨fun _ => trivial, fun _ => faithful.load⟩
  | authorize i now =>
    refine ⟨fun _ => trivial, fun _ => ?_⟩
    unfold Viewer.act
    dsimp only
    split
    · split
      · exact faithful.frame rfl rfl rfl rfl
      · exact faithful.frame rfl rfl rfl rfl
    · exact faithful
  | read i =>
    refine ⟨fun _ => trivial, fun _ => ?_⟩
    unfold Viewer.act
    dsimp only
    split
    · exact faithful.frame rfl rfl rfl rfl
    · exact faithful
  | fail i message =>
    refine ⟨fun _ => trivial, fun _ => ?_⟩
    unfold Viewer.act
    dsimp only
    split
    · exact faithful
    · exact faithful.frame rfl rfl rfl rfl
    · exact faithful
  | hub op =>
    refine ⟨fun _ => trivial, fun _ => ?_⟩
    unfold Viewer.act
    dsimp only
    split
    · exact faithful.frame rfl rfl rfl rfl
    · exact faithful

/-- The transcript is faithful throughout a run exactly when every page arrives in turn. -/
theorem transcript_faithful_iff (cfg : HubConfig) (roomOf : String → String) (inflight : Nat)
    (run : List ViewerEvent) :
    Throughout (act cfg roomOf) (Faithful roomOf) (start inflight) run ↔
      EachStep (act cfg roomOf) InTurn (start inflight) run :=
  throughout_iff_eachStep (I := Sound roomOf) (fun _ e sound => sound.act e)
    (fun _ e sound faithful => faithful.act_iff sound e) (start_sound inflight)
    (faithful_of_nil rfl rfl rfl)

/-! ## Two fetches at once -/

def greeting : NewMessage := ⟨"m1", "R", ⟨"A", "alice", none⟩, [.text "hello"], none, none, none, 1⟩

/-- Alice's room with one message, and a watch token of it. -/
def watchedRun : List ViewerEvent :=
  [.hub (.ensureRoom "R" .channel 0), .hub (.addMember "R" "A" 0), .hub (.setRoomOwner "R" "A"),
    .hub (.mintWatchToken "T" "R" "A" 9 0), .hub (.appendMessage greeting)]

def demoRoomOf (token : String) : String := if token = "T" then "R" else "S"

/-- The timer ticks before the first page is back. -/
def hastyRun : List ViewerEvent :=
  watchedRun ++ ([.connect "T", .effects, .tick, .authorize 0 1, .read 0, .authorize 1 1, .read 1,
    .arrive 0, .arrive 1] : List ViewerEvent)

/-- The viewer goes on to another room while a page is under way. -/
def switchingRun : List ViewerEvent :=
  watchedRun ++
    ([.connect "T", .effects, .authorize 0 1, .read 0, .connect "U", .arrive 0] : List ViewerEvent)

/-- The one brings a message twice, the other shows it under the other token. -/
theorem overlapping_pages :
    ((hastyRun.foldl (act demoConfig demoRoomOf) (start 0)).messages.map StoredMessage.seq = [1, 1] ∧
      ¬ (hastyRun.foldl (act demoConfig demoRoomOf) (start 0)).Faithful demoRoomOf) ∧
    (switchingRun.foldl (act demoConfig demoRoomOf) (start 0)).token = "U" ∧
      (switchingRun.foldl (act demoConfig demoRoomOf) (start 0)).messages.map StoredMessage.room =
        ["R"] ∧
      ¬ (switchingRun.foldl (act demoConfig demoRoomOf) (start 0)).Faithful demoRoomOf := by
  have twice : (hastyRun.foldl (act demoConfig demoRoomOf) (start 0)).messages.map StoredMessage.seq =
      [1, 1] := by decide +kernel
  have token : (switchingRun.foldl (act demoConfig demoRoomOf) (start 0)).token = "U" := by
    decide +kernel
  have foreign : (switchingRun.foldl (act demoConfig demoRoomOf) (start 0)).messages.map
      StoredMessage.room = ["R"] := by decide +kernel
  refine ⟨⟨twice, ?_⟩, token, foreign, ?_⟩
  · intro faithful
    have increasing := List.pairwise_map.mpr faithful.increasing
    rw [twice] at increasing
    exact absurd increasing (by decide)
  · intro faithful
    have rooms : ∀ room ∈ (switchingRun.foldl (act demoConfig demoRoomOf) (start 0)).messages.map
        StoredMessage.room, room = demoRoomOf (trim "U") := by
      intro room listed
      obtain ⟨m, member, rfl⟩ := List.mem_map.mp listed
      rw [faithful.room m member, token]
    rw [foreign] at rooms
    exact absurd (rooms "R" List.mem_cons_self) (by decide +kernel)

end Viewer

end Parler.Desktop
