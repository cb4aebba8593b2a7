import Razorback.Queue.Moves
import Razorback.Messages.Handlers

/-! What `Queue_Get_Ex` does with one consumed delivery: the pending settlements, the message it builds from the header
table, and the ack or reject, for every result of the allocator, of `deserialize` and of the broker library. The memory
behind a UTF8 value is taken to hold a NUL. -/

namespace Razorback.Queue.Delivery
open Queue Messages Text List Option
open CommandAndControl (CommandType)

/-! ### The pending settlements -/

/-- What happens while the settlements are worked off: a round of the loop, or another thread. -/
inductive Turn
  | round (sendOk connect : Bool)
  | push (settlement : Settlement)
  | terminate
  deriving DecidableEq, Repr

/-- `Queue_Process_Pending_Settlements`; nothing if the loop has not ended with the turns. -/
def processPendingSettlements : List Turn → State → Option (Bool × State)
  | [], _ => none
  | .push settlement :: turns, s =>
    processPendingSettlements turns { s with pendingSettlements := s.pendingSettlements.pushItem settlement }
  | .terminate :: turns, s => processPendingSettlements turns { s with shuttingDown := true }
  | .round sendOk connect :: turns, s =>
    match flushRound sendOk connect s with
    | (.more, _, s) => processPendingSettlements turns s
    | (.done, _, s) => some (true, s)
    | (.failed, _, s) => some (false, s)

def rounds : List Turn → ℕ
  | [] => 0
  | .round _ _ :: turns => rounds turns + 1
  | _ :: turns => rounds turns

def pushes : List Turn → ℕ
  | [] => 0
  | .push _ :: turns => pushes turns + 1
  | _ :: turns => pushes turns

/-! ### The message -/

/-- The allocations for one table entry: `strndup` of the name and of a value of bytes, those of
`Message_HeaderList_Add` up to its `List_Push`, and that of the `List_Push`. -/
structure Copies where
  name : Bool
  value : Bool
  add : Bool
  push : Bool
  deriving DecidableEq, Repr

def headerOf (delivered : DeliveredEntry) : Option MessageHeader :=
  let name := cString delivered.entry.key
  match delivered.entry.kind with
  | .utf8 => some ⟨name, cString (delivered.entry.value ++ delivered.after)⟩
  | .bytes => some ⟨name, cString delivered.entry.value⟩
  | .other => none

abbrev Table := List (DeliveredEntry × Copies)

def readHeaders (headers : List MessageHeader) : Table → Bool × List MessageHeader
  | [] => (true, headers)
  | (delivered, copies) :: table =>
    if !copies.name then (false, headers)
    else
      match headerOf delivered with
      | none => readHeaders headers table
      | some header =>
        if delivered.entry.kind = .bytes ∧ copies.value = false then (false, headers)
        else if !copies.add then (false, headers)
        -- the result of `List_Push` is not looked at
        else readHeaders (if copies.push then headerListAdd headers header.sName header.sValue else headers) table

/-- `struct Message`, as far as it is built; `handler` once `Message_Setup` has set its functions. -/
structure Message where
  settlement : Option Settlement
  envelope : Envelope
  body : Option Body
  handler : Option MessageHandler

def Message.zero : Message := ⟨none, ⟨0, 0, []⟩, none, none⟩

/-- How often `ret->destroy` or, where there is none, `Message_Destroy` releases the message: `Error_Destroy` frees the
body alone, the others end in `Message_Destroy`. -/
def Message.destroy (message : Message) : ℕ :=
  if message.handler.map MessageHandler.codec = some (.command .error) then 0 else 1

/-- The results of one call: the allocations of the message, its header list, its settlement and its text, what
`deserialize` made of the text, and the call that settles the delivery with the reconnect after it. -/
structure Outcomes where
  message : Bool
  headers : Bool
  settlement : Bool
  serialized : Bool
  decoded : Option Body
  sendOk : Bool
  connect : Bool

structure Exit where
  ret : Option Message
  rejectDelivery : Bool
  requeueDelivery : Bool

variable (handlers : List MessageHandler) (o : Outcomes) (autoAck : Bool) (tag : ℕ) (table : Table)

/-- From the type header to `deserialize`. -/
def decode (message : Message) (headers : List MessageHeader) : Exit :=
  match findHeader headers messageTypeHeaderName with
  | none => ⟨some message, true, false⟩
  | some typeHeader =>
    match findHeader headers messageVersionHeaderName with
    | none => ⟨some message, true, false⟩
    | some versionHeader =>
      let envelope : Envelope := ⟨strtoul typeHeader.sValue, strtoul versionHeader.sValue, headers⟩
      match messageSetup handlers envelope.type with
      | none => ⟨some { message with envelope }, true, false⟩
      | some handler =>
        let message := { message with envelope, handler := some handler, body := o.decoded }
        if o.decoded.isSome then ⟨some message, false, false⟩ else ⟨some message, true, false⟩

def build (s : State) : Exit :=
  if s.shuttingDown then ⟨none, true, true⟩
  else if !o.message then ⟨none, true, true⟩
  else if !o.headers then ⟨some .zero, true, true⟩
  else if !autoAck && !o.settlement then ⟨some .zero, true, true⟩
  else if !o.serialized then ⟨some .zero, true, true⟩
  else
    let message : Message :=
      { Message.zero with settlement := if autoAck then none else some ⟨tag, s.readConnectionSerial, false, false⟩ }
    match readHeaders [] table with
    | (false, headers) => ⟨some { message with envelope := ⟨0, 0, headers⟩ }, true, true⟩
    | (true, headers) => decode handlers o message headers

structure Result where
  ret : Option Message
  /-- The acks and rejects of this delivery. -/
  attempts : List Event
  /-- How many messages were allocated. -/
  built : ℕ
  /-- How often `Message_Destroy` was called. -/
  destroyed : ℕ

/-- The ack of `autoAck`, and `cleanup`. -/
def settle (s : State) (exit : Exit) : Result :=
  let attempts := if exit.rejectDelivery then (rejectDelivery tag exit.requeueDelivery o.sendOk o.connect s).2.1
    else if autoAck then (acknowledgeDelivery tag o.sendOk o.connect s).2.1 else []
  let built := if exit.ret.isSome then 1 else 0
  if exit.rejectDelivery then ⟨none, attempts, built, (exit.ret.map Message.destroy).getD 0⟩
  else ⟨exit.ret, attempts, built, 0⟩

/-- `Queue_Get_Ex` after `amqp_consume_message` has given the delivery. -/
def queueGetEx (turns : List Turn) (s : State) : Option Result :=
  (processPendingSettlements turns s).map fun
    | (false, _) => ⟨none, [], 0, 0⟩
    | (true, s) => settle o autoAck tag s (build handlers o autoAck tag table s)

/-! ### What the settlements leave -/

theorem settleDelivery_pending (verdict : Verdict) (tag : ℕ) (sendOk connect : Bool) (s : State) :
    (settleDelivery verdict tag sendOk connect s).2.2.pendingSettlements = s.pendingSettlements := by
  unfold settleDelivery
  split
  · rfl
  · split
    · rfl
    · rcases reconnect_cases connect s with ⟨_, hr⟩ | ⟨_, hr⟩ | ⟨_, _, hr⟩ <;> rw [hr]
      rfl

theorem takeItem_length {L rest : Lists.Seq Settlement} {settlement : Settlement}
    (h : L.takeItem = (some settlement, rest)) : rest.items.length + 1 = L.items.length := by
  unfold Lists.Seq.takeItem at h
  split at h <;> obtain ⟨hhead, rfl⟩ := Prod.mk.inj h
  · have hne : L.items ≠ [] := by rintro hnil; simp [hnil] at hhead
    simpa [Lists.Seq.withItems] using Nat.sub_add_cancel (length_pos_iff.mpr hne)
  · have hne : L.items ≠ [] := by rintro hnil; simp [hnil] at hhead
    simpa [Lists.Seq.withItems] using Nat.sub_add_cancel (length_pos_iff.mpr hne)

def RoundEnds (s : State) : Round × List Event × State → Prop
  | (.more, _, s') => s'.pendingSettlements.items.length + 1 = s.pendingSettlements.items.length
  | (.done, _, s') => s'.readSocket.isSome
  | (.failed, _, s') => s'.readSocket = none

theorem flushRound_ends (sendOk connect : Bool) (s : State) : RoundEnds s (flushRound sendOk connect s) := by
  cases hsocket : s.readSocket with
  | none => simp [flushRound, hsocket, RoundEnds]
  | some conn =>
    rcases htake : s.pendingSettlements.takeItem with ⟨_ | settlement, pending⟩
    · simp [flushRound, hsocket, htake, RoundEnds]
    by_cases hstale : settlement.connectionSerial = s.readConnectionSerial
    · have hsettle : ∃ verdict, (if settlement.acknowledge then
            acknowledgeDelivery settlement.deliveryTag sendOk connect { s with pendingSettlements := pending }
          else rejectDelivery settlement.deliveryTag settlement.requeue sendOk connect
            { s with pendingSettlements := pending }) =
          settleDelivery verdict settlement.deliveryTag sendOk connect { s with pendingSettlements := pending } := by
        cases settlement.acknowledge
        exacts [⟨_, rfl⟩, ⟨_, rfl⟩]
      obtain ⟨verdict, hsettle⟩ := hsettle
      have hpending := settleDelivery_pending verdict settlement.deliveryTag sendOk connect
        { s with pendingSettlements := pending }
      rw [hsocket] at hsettle hpending
      simp only [flushRound, hsocket, htake, hstale, hsettle]
      generalize settleDelivery verdict settlement.deliveryTag sendOk connect _ = settled at hpending
      obtain ⟨ok, es, s'⟩ := settled
      have hlength : s'.pendingSettlements.items.length + 1 = s.pendingSettlements.items.length := by
        rw [hpending]
        exact takeItem_length htake
      cases ok <;> cases hlost : s'.readSocket <;> simp [RoundEnds, hlost, hlength]
    · simp [flushRound, hsocket, htake, hstale, RoundEnds, takeItem_length htake]

theorem processPendingSettlements_socket
    (h : processPendingSettlements turns s = some (ok, s')) : ok = s'.readSocket.isSome := by
  induction turns generalizing s with
  | nil => simp [processPendingSettlements] at h
  | cons turn turns ih =>
    cases turn with
    | push settlement => exact ih h
    | terminate => exact ih h
    | round sendOk connect =>
      have hround := flushRound_ends sendOk connect s
      rw [processPendingSettlements] at h
      rcases hflush : flushRound sendOk connect s with ⟨_ | _ | _, es, s₁⟩ <;> rw [hflush] at h hround
      · exact ih h
      · obtain ⟨rfl, rfl⟩ := Prod.mk.inj (some.inj h)
        exact (show s₁.readSocket.isSome from hround).symm
      · obtain ⟨rfl, rfl⟩ := Prod.mk.inj (some.inj h)
        simp [show s₁.readSocket = none from hround]

theorem processPendingSettlements_isSome
    (h : s.pendingSettlements.items.length + pushes turns < rounds turns) :
    (processPendingSettlements turns s).isSome := by
  induction turns generalizing s with
  | nil => simp [rounds] at h
  | cons turn turns ih =>
    cases turn with
    | push settlement =>
      refine ih (lt_of_eq_of_lt ?_ h)
      simp only [Lists.Seq.pushItem, pushes]
      split <;> simp <;> omega
    | terminate => exact ih h
    | round sendOk connect =>
      have hround := flushRound_ends sendOk connect s
      rw [processPendingSettlements]
      generalize flushRound sendOk connect s = flushed at hround
      obtain ⟨_ | _ | _, es, s₁⟩ := flushed
      · refine ih ?_
        simp only [RoundEnds, rounds, pushes] at hround h
        omega
      · rfl
      · rfl

/-! ### The headers -/

def headersOf (table : Table) : List MessageHeader := table.filterMap fun entry => headerOf entry.1

def Pushed (name : CString) (table : Table) : Prop :=
  ∀ entry ∈ table, ∀ header, headerOf entry.1 = some header → header.sName = name → entry.2.push = true

variable {handlers o autoAck tag table}

theorem findHeader_readHeaders (hpush : Pushed name table)
    (h : readHeaders headers table = (true, headers')) :
    findHeader headers' name = findHeader (headers ++ headersOf table) name := by
  induction table generalizing headers with
  | nil =>
    obtain ⟨-, rfl⟩ := Prod.mk.inj h
    rw [headersOf, filterMap_nil, append_nil]
  | cons entry table ih =>
    obtain ⟨delivered, copies⟩ := entry
    have hpush' : Pushed name table := fun entry hentry => hpush entry (.tail _ hentry)
    rw [readHeaders] at h
    split at h
    · simp at h
    cases hheader : headerOf delivered with
    | none =>
      rw [hheader] at h
      rw [ih hpush' h]
      simp only [headersOf, filterMap_cons, hheader]
    | some header =>
      rw [hheader] at h
      dsimp only at h
      split at h
      · simp at h
      split at h
      · simp at h
      rw [ih hpush' h]
      simp only [headersOf, filterMap_cons, hheader]
      by_cases hname : header.sName = name
      · rw [if_pos (hpush _ mem_cons_self header hheader hname), headerListAdd, append_assoc]
        rfl
      · cases copies.push <;> simp [findHeader_eq, headerListAdd, hname]

/-! ### The fate of a delivery -/

section Fates

variable (handlers o autoAck tag table)

def Interrupted (s : State) : Prop :=
  s.shuttingDown = true ∨ o.message = false ∨ o.headers = false ∨ (autoAck = false ∧ o.settlement = false) ∨
    o.serialized = false ∨ (readHeaders [] table).1 = false

/-- A header is missing, the type has no handler, or `deserialize` returned false. -/
def Unreadable : Prop :=
  findHeader (headersOf table) messageTypeHeaderName = none ∨
    findHeader (headersOf table) messageVersionHeaderName = none ∨
    (∃ header, findHeader (headersOf table) messageTypeHeaderName = some header ∧
      messageSetup handlers (strtoul header.sValue) = none) ∨
    o.decoded = none

/-- The decoded message is returned, acked once with `autoAck` and with its tag recorded without. -/
def Returned (result : Result) : Prop :=
  ∃ message body, result.ret = some message ∧ o.decoded = some body ∧ message.body = some body ∧
    ((autoAck = true ∧ ∃ conn, result.attempts = [.sent conn tag .ack]) ∨
      (autoAck = false ∧ result.attempts = [] ∧ message.settlement.map Settlement.deliveryTag = some tag))

def Rejected (s : State) (result : Result) : Prop :=
  result.ret = none ∧ ∃ conn requeue, result.attempts = [.sent conn tag (.reject requeue)] ∧
    (requeue = true ↔ Interrupted o autoAck table s) ∧ (requeue = false → Unreadable handlers o table)

def Lost (s : State) (result : Result) : Prop :=
  result.ret = none ∧ result.attempts = [] ∧ s.readSocket = none

/-- The headers that decide about the delivery get into the list. -/
def Listed : Prop := Pushed messageTypeHeaderName table ∧ Pushed messageVersionHeaderName table

/-- Where `deserialize` fails, the message is none that `Error_Destroy` would have to destroy. -/
def Destroyable : Prop :=
  o.decoded = none → ∀ header handler, findHeader (headersOf table) messageTypeHeaderName = some header →
    messageSetup handlers (strtoul header.sValue) = some handler → handler.codec ≠ .command .error

end Fates

inductive Exits (handlers : List MessageHandler) (o : Outcomes) (autoAck : Bool) (tag : ℕ) (table : Table) (s : State) :
    Exit → Prop
  | interrupted (ret : Option Message) (h : Interrupted o autoAck table s)
      (hset : ∀ message ∈ ret, message.handler = none) : Exits handlers o autoAck tag table s ⟨ret, true, true⟩
  | unreadable (message : Message) (h : ¬Interrupted o autoAck table s) (hun : Unreadable handlers o table)
      (hset : Destroyable handlers o table → message.destroy = 1) :
      Exits handlers o autoAck tag table s ⟨some message, true, false⟩
  | decoded (message : Message) (body : Body) (hdecoded : o.decoded = some body) (hbody : message.body = some body)
      (htag : autoAck = false → message.settlement.map Settlement.deliveryTag = some tag) :
      Exits handlers o autoAck tag table s ⟨some message, false, false⟩

theorem decode_exits (hlisted : Listed table)
    (hheaders : readHeaders [] table = (true, headers)) (hin : ¬Interrupted o autoAck table s)
    (hset : message.handler = none)
    (htag : autoAck = false → message.settlement.map Settlement.deliveryTag = some tag) :
    Exits handlers o autoAck tag table s (decode handlers o message headers) := by
  have htype := findHeader_readHeaders hlisted.1 hheaders
  have hversion := findHeader_readHeaders hlisted.2 hheaders
  rw [nil_append] at htype hversion
  have hone : message.destroy = 1 := by rw [Message.destroy, hset]; rfl
  unfold decode
  rw [htype, hversion]
  cases hfind : findHeader (headersOf table) messageTypeHeaderName with
  | none => exact .unreadable _ hin (.inl hfind) fun _ => hone
  | some typeHeader =>
    cases hfind' : findHeader (headersOf table) messageVersionHeaderName with
    | none => exact .unreadable _ hin (.inr (.inl hfind')) fun _ => hone
    | some versionHeader =>
      dsimp only
      cases hsetup : messageSetup handlers (strtoul typeHeader.sValue) with
      | none =>
        refine .unreadable _ hin (.inr (.inr (.inl ⟨_, hfind, hsetup⟩))) fun _ => ?_
        rw [hset]
        rfl
      | some handler =>
        cases hdecoded : o.decoded with
        | none =>
          refine .unreadable _ hin (.inr (.inr (.inr hdecoded))) fun hdestroy => if_neg ?_
          simpa using hdestroy hdecoded _ _ hfind hsetup
        | some body => exact .decoded _ body hdecoded rfl htag

theorem build_exits (hlisted : Listed table) (s : State) :
    Exits handlers o autoAck tag table s (build handlers o autoAck tag table s) := by
  have hzero : ∀ message ∈ some Message.zero, message.handler = none := by simp [Message.zero]
  unfold build
  split
  · next h => exact .interrupted _ (.inl h) (by simp)
  split
  · next h => exact .interrupted _ (.inr (.inl (by simpa using h))) (by simp)
  split
  · next h => exact .interrupted _ (.inr (.inr (.inl (by simpa using h)))) hzero
  split
  · next h => exact .interrupted _ (.inr (.inr (.inr (.inl (by simpa using h))))) hzero
  split
  · next h => exact .interrupted _ (.inr (.inr (.inr (.inr (.inl (by simpa using h)))))) hzero
  rcases hread : readHeaders [] table with ⟨_ | _, headers⟩
  · refine .interrupted _ (.inr (.inr (.inr (.inr (.inr (by rw [hread])))))) fun message h => ?_
    rw [← mem_some_iff.mp h]
    rfl
  · refine decode_exits hlisted hread ?_ rfl ?_
    · simp_all [Interrupted]
    · rintro rfl
      rfl

/-- Of three statements exactly one holds. -/
def ExactlyOne (p q r : Prop) : Prop := (p ∧ ¬q ∧ ¬r) ∨ (¬p ∧ q ∧ ¬r) ∨ (¬p ∧ ¬q ∧ r)

def typed (type : UInt32) (push : Bool) : Table :=
  [(⟨headerToTableEntry ⟨messageTypeHeaderName, decimalText type⟩, [0]⟩, ⟨true, true, true, push⟩),
    (⟨headerToTableEntry ⟨messageVersionHeaderName, decimalText 1⟩, [0]⟩, ⟨true, true, true, true⟩)]

def succeeding (decoded : Option Body) : Outcomes := ⟨true, true, true, true, decoded, true, true⟩

end Razorback.Queue.Delivery
