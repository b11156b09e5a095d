import Parler.Hub.Backlog
import Parler.Hub.Demo
import Parler.Hub.Idempotence
import Parler.Protocol.Codec

/-!
# Pushed and stored messages

The fan-out of a send pushes the message that was just stored, built from the fields in memory. The store
keeps its parts as text, so whoever reads the message later gets the parts that the text is read back as.
-/

namespace Parler.Hub

open Parler.Lib Parler.Protocol

/-! ## Rows as text -/

/-- `RawMsg`: a row as it is read, the parts as the objects of their text. -/
structure RawMsg where
  seq : Int
  id : String
  room : String
  author : String
  name : String
  role : Option String
  parts : List (List (String × Value))
  mentions : Option (List String)
  replyTo : Option String
  ts : Int

/-- The row that `append_message` wrote. -/
def MessageRow.raw (row : MessageRow) : RawMsg where
  seq := row.seq
  id := row.id
  room := row.room
  author := row.author
  name := row.authorName
  role := row.authorRole
  parts := row.parts.map Part.fields
  mentions := row.mentions
  replyTo := row.replyTo
  ts := row.ts

/-- `RawMsg::to_stored`; `read` is what a printed double is read back as. -/
def RawMsg.toStored (read : Double → Double) (raw : RawMsg) : Option StoredMessage :=
  (raw.parts.mapM (fun fields => Part.decode (fields.map (fun f => (f.1, f.2.reread read))))).map
    (fun parts => ⟨raw.seq, raw.id, raw.room, ⟨raw.author, raw.name, raw.role⟩, parts, raw.mentions,
      raw.replyTo, raw.ts⟩)

theorem mapM_wire {parts : List Part} (formed : ∀ p ∈ parts, p.WellFormed) (read : Double → Double) :
    (parts.map Part.fields).mapM (fun fields => Part.decode (fields.map (fun f => (f.1, f.2.reread read)))) =
      some (parts.map (Part.reread read)) := by
  induction parts with
  | nil => rfl
  | cons p parts ih =>
    have first : Part.decode (p.fields.map (fun f => (f.1, f.2.reread read))) = some (p.reread read) :=
      Part.wire_reread (formed p (by simp)) read
    rw [List.map_cons, List.mapM_cons, first, ih (fun q member => formed q (by simp [member]))]
    rfl

/-- A row with well-formed parts can be read back, and gives the row just when its doubles survive. -/
theorem toStored_raw {row : MessageRow} (formed : ∀ p ∈ row.parts, p.WellFormed)
    (read : Double → Double) :
    row.raw.toStored read = some row.toStored ↔ ∀ p ∈ row.parts, p.Reread read := by
  have back : row.raw.toStored read =
      some { row.toStored with parts := row.parts.map (Part.reread read) } := by
    rw [RawMsg.toStored, MessageRow.raw]
    rw [mapM_wire formed read]
    rfl
  rw [back, Option.some.injEq]
  constructor
  · intro same p member
    have kept : row.parts.map (Part.reread read) = row.parts.map id := by
      rw [List.map_id]
      exact congrArg StoredMessage.parts same
    exact (Part.reread_eq_iff (formed p member)).mp (List.map_inj_left.mp kept p member)
  · intro survives
    have kept : row.parts.map (Part.reread read) = row.parts := by
      conv_rhs => rw [← List.map_id row.parts]
      apply List.map_inj_left.mpr
      exact fun p member => (Part.reread_eq_iff (formed p member)).mpr (survives p member)
    rw [kept]
    rfl

/-! ## What is pushed -/

section Runs

variable {cfg : HubConfig} {cardBytes : AgentCard → List UInt8} {G : HubPool cfg → Nat → HubCall → Prop}
  {inflight : Nat} {P : HubPool cfg}

/-- A push shows the row that an append of its thread wrote. -/
theorem push_origin (reach : Pool.Reachable (serve cfg cardBytes) G (.boot inflight) P)
    {e : HubEvent cfg} (logged : e ∈ P.log) {room author : String} {message : StoredMessage}
    (pushes : e.op = .push room author message) :
    ∃ m out x, x ∈ P.log ∧ Stores m out x ∧ message = (m.toRow out.seq).toStored := by
  obtain ⟨req, p, at_t, made⟩ := log_makes reach logged
  have sends : req.isSend = true := by
    rw [pushes] at made
    cases req with
    | frame me sent fresh upload rounds =>
      obtain ⟨target, parts, mentions, replyTo, clientId, rfl⟩ := made
      rfl
    | welcome me =>
      rcases made with same | ⟨now, same | same⟩ <;> cases same
    | janitor => exact made.elim
    | tick ms => cases made
  have call := mem_sendCalls logged (by rw [pushes]; rfl)
  generalize calls : sendCalls (Pool.ownPast P.log e.thread) = all at call
  have trace := thread_trace reach at_t sends
  rw [calls] at trace
  cases trace with
  | before => cases call
  | refused m failure =>
    rw [List.mem_singleton] at call
    have same := (Sigma.mk.inj call).1
    rw [pushes] at same
    cases same
  | appended m out told part =>
    rcases List.mem_append.mp call with among | last
    · -- The push is the newest call of the announcement.
      have listed := part.mem among
      unfold announced at listed
      split at listed
      · cases listed
      · rename_i new
        have stored : (⟨.appendMessage m, .ok out⟩ : HubDone cfg) ∈
            sendCalls (Pool.ownPast P.log e.thread) := by
          rw [calls]
          exact List.mem_append_right _ (List.mem_singleton.mpr rfl)
        obtain ⟨x, own, appends⟩ := List.mem_map.mp (List.mem_filter.mp stored).1
        have stores : Stores m out x := stores_of_new appends (by simpa using new)
        refine ⟨m, out, x, (List.mem_filter.mp own).1, stores, ?_⟩
        have id := stores.id
        simp only [announcement, List.mem_cons, List.not_mem_nil, or_false] at listed
        rcases listed with same | same | same
        · have op := (Sigma.mk.inj same).1
          rw [pushes] at op
          cases op
          rw [id]
          rfl
        · have op := (Sigma.mk.inj same).1
          rw [pushes] at op
          cases op
        · have op := (Sigma.mk.inj same).1
          rw [pushes] at op
          cases op
    · rw [List.mem_singleton] at last
      have same := (Sigma.mk.inj last).1
      rw [pushes] at same
      cases same

/-- From its append on, nothing but the message is stored under its `seq`. -/
theorem stored_under_seq (reach : Pool.Reachable (serve cfg cardBytes) G (.boot inflight) P)
    {x : HubEvent cfg} (logged : x ∈ P.log) {m : NewMessage} {out : AppendOutcome} (stores : Stores m out x) :
    ∀ r ∈ P.state.store.messages, r.seq = out.seq → r = m.toRow out.seq := by
  obtain ⟨newer, older, split⟩ := List.append_of_mem logged
  obtain ⟨P', req, next, reach', -, state, -⟩ := reach.event split
  have order : SeqOrder x.after.store := by
    have before := (pages_hold reach').1
    rw [state] at before
    exact before.exec x.op
  refine (reach.since (J := fun h => out.seq ≤ h.store.messageSeq ∧
    ∀ r ∈ h.store.messages, r.seq = out.seq → r = m.toRow out.seq) split ?_ ?_).2
  · exact ⟨order.bounded _ stores.row, fun r stored same => order.unique stored stores.row same⟩
  · rintro g - ⟨bound, only⟩
    have change : MessageChange g.op g.before.store g.after.store := messageChange_exec cfg g.op g.before
    cases change with
    | kept p rows seq =>
      refine ⟨bound.trans seq, ?_⟩
      intro r stored
      rw [rows] at stored
      exact only r (List.mem_filter.mp stored).1
    | appended m' append rows seq =>
      refine ⟨by rw [seq]; omega, ?_⟩
      intro r stored same
      rw [rows] at stored
      rcases List.mem_append.mp stored with old | new
      · exact only r old same
      · -- A new message has a larger `seq`.
        rw [List.mem_singleton.mp new] at same
        have same : g.before.store.messageSeq + 1 = out.seq := same
        omega

/-- The row stored under the `seq` of a pushed message is that message. -/
theorem pushed_stored (reach : Pool.Reachable (serve cfg cardBytes) G (.boot inflight) P)
    {e : HubEvent cfg} (logged : e ∈ P.log) {room author : String} {message : StoredMessage}
    (pushes : e.op = .push room author message) :
    ∀ r ∈ P.state.store.messages, r.seq = message.seq → r.toStored = message := by
  obtain ⟨m, out, x, written, stores, rfl⟩ := push_origin reach logged pushes
  intro r stored same
  rw [stored_under_seq reach written stores r stored same]

end Runs

/-- The part codec. A part that is a text, data, or an extension with a reverse-DNS kind and no field
    `kind` is decoded from its encoding; what decoding accepts is decoded again from its re-encoding; an
    object without a known or reverse-DNS kind is rejected. A message that was pushed, with parts that
    were decoded, is later read from its row as it was pushed just when its doubles are read back as they
    were printed. -/
theorem part_codec {cfg : HubConfig} {cardBytes : AgentCard → List UInt8}
    {G : HubPool cfg → Nat → HubCall → Prop} {inflight : Nat} {P : HubPool cfg} (read : Double → Double)
    (reach : Pool.Reachable (serve cfg cardBytes) G (.boot inflight) P) :
    (∀ p : Part, p.WellFormed → Part.decode p.fields = some p) ∧
    (∀ fields p, Part.decode fields = some p → Part.decode p.fields = some p) ∧
    (∀ fields, (∀ kind, (Map.ofFields fields).get "kind" = some (.str kind) →
      kind ≠ "text" ∧ kind ≠ "data" ∧ isExtensionKind kind = false) → Part.decode fields = none) ∧
    ∀ e ∈ P.log, ∀ room author message, e.op = .push room author message →
      (∀ p ∈ message.parts, ∃ fields, Part.decode fields = some p) →
      ∀ r ∈ P.state.store.messages, r.seq = message.seq →
        (r.raw.toStored read = some message ↔ ∀ p ∈ message.parts, p.Reread read) := by
  refine ⟨fun p formed => Part.decode_fields formed, ?_, fun fields => Part.decode_rejects, ?_⟩
  · intro fields p decoded
    exact Part.decode_fields (Part.decode_wellFormed decoded)
  · intro e logged room author message pushes decoded r stored same
    have row := pushed_stored reach logged pushes r stored same
    have parts : r.parts = message.parts := congrArg StoredMessage.parts row
    have formed : ∀ p ∈ r.parts, p.WellFormed := by
      intro p member
      obtain ⟨fields, from_fields⟩ := decoded p (parts ▸ member)
      exact Part.decode_wellFormed from_fields
    rw [← row]
    exact toStored_raw formed read

/-- The message of a push. -/
def pushedOf : HubCall → Option StoredMessage
  | .push _ _ message => some message
  | _ => none

theorem pushedOf_some {op : HubCall} {message : StoredMessage} (pushed : pushedOf op = some message) :
    ∃ room author, op = .push room author message := by
  unfold pushedOf at pushed
  split at pushed
  · cases pushed
    exact ⟨_, _, rfl⟩
  · cases pushed

/-- The double 0.9452706955539223 and the next one, which its shortest text is read back as. -/
def printedDouble : Double := ⟨0x3FEE3FA85468AE3C, by decide⟩

def readBackDouble : Double := ⟨0x3FEE3FA85468AE3D, by decide⟩

/-- What the doubles of the demonstrations are read back as. -/
def demoRead (d : Double) : Double := if d = printedDouble then readBackDouble else d

/-- Alice posts one part to her room. -/
def postDemo (part : Part) : DemoPool :=
  demoPlay [demoFrame 0 alice (.invite .channel (some "r") none none false),
    demoFrame 1 alice (.send (.room "r") [part] none none none)]

theorem part_codec_demo : ∃ message r, r ∈ (postDemo (.text "hi")).state.store.messages ∧
    r.seq = message.seq ∧ r.raw.toStored demoRead = some message := by
  have pushed : ∃ e ∈ (postDemo (.text "hi")).log, ∃ message, pushedOf e.op = some message ∧
      message = ⟨1, "m1", "r", ⟨"A", "alice", none⟩, [.text "hi"], none, none, 0⟩ := by
    have listed : (postDemo (.text "hi")).log.any (fun e => pushedOf e.op =
        some ⟨1, "m1", "r", ⟨"A", "alice", none⟩, [.text "hi"], none, none, 0⟩) = true := by
      decide +kernel
    obtain ⟨e, logged, same⟩ := List.any_eq_true.mp listed
    exact ⟨e, logged, _, of_decide_eq_true same, rfl⟩
  obtain ⟨e, logged, message, pushes, rfl⟩ := pushed
  obtain ⟨room, author, op⟩ := pushedOf_some pushes
  have stored : ∃ r ∈ (postDemo (.text "hi")).state.store.messages, r.seq = 1 := by decide +kernel
  obtain ⟨r, stored, seq⟩ := stored
  have codec := (part_codec demoRead (demoPlay_reachable [demoFrame 0 alice
    (.invite .channel (some "r") none none false),
    demoFrame 1 alice (.send (.room "r") [.text "hi"] none none none)])).2.2.2
  refine ⟨_, r, stored, seq, (codec e logged room author _ op ?_ r stored seq).mpr ?_⟩
  · intro p member
    rw [List.mem_singleton.mp member]
    exact ⟨_, Part.decode_fields (p := .text "hi") trivial⟩
  · intro p member f field
    rw [List.mem_singleton.mp member] at field
    simp only [Part.fields, List.mem_cons, List.not_mem_nil, or_false] at field
    rcases field with rfl | rfl <;> rfl

/-- A double that is pushed as it was sent is read from the store as the next one. -/
theorem pushed_double_differs :
    ¬ ∀ e ∈ (postDemo (.data ⟨.float printedDouble, rfl⟩)).log, ∀ message,
      pushedOf e.op = some message →
        ∀ r ∈ (postDemo (.data ⟨.float printedDouble, rfl⟩)).state.store.messages,
          r.seq = message.seq → r.raw.toStored demoRead = some message := by
  intro always
  have differs : ∃ e ∈ (postDemo (.data ⟨.float printedDouble, rfl⟩)).log,
      ∃ r ∈ (postDemo (.data ⟨.float printedDouble, rfl⟩)).state.store.messages,
        (pushedOf e.op).any (fun message => r.seq = message.seq ∧
          r.raw.toStored demoRead ≠ some message) = true := by
    decide +kernel
  obtain ⟨e, logged, r, stored, other⟩ := differs
  cases pushed : pushedOf e.op with
  | none => simp [pushed] at other
  | some message =>
    simp only [pushed, Option.any_some, decide_eq_true_eq] at other
    exact other.2 (always e logged message pushed r stored other.1)

end Parler.Hub
