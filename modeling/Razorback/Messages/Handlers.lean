import Razorback.CommandAndControl.Defs
import Razorback.JsonBuffer.RoundTrip
import Razorback.Messages.Commands
import Razorback.Messages.Headers

/-! The handlers of `Message_Init`, every public constructor with the type it gives its message, and a message from
`Queue_Put_Dest` to the `deserialize` that `Queue_Get_Ex` calls. -/

namespace Razorback.Messages
open Records Text Uuids JsonBuffer Option
open CommandAndControl (CommandType)
open Json (Fields add get)

/-! ### The remaining messages -/

structure MessageJudgmentSubmission where
  iReason : UInt8
  pJudgment : Judgment

structure MessageAlertChild where
  nugget : Nugget
  block : Block
  child : Block
  eventCount : UInt64
  parentCount : UInt64
  sfFlags : UInt32
  entFlags : UInt32
  oldSfFlags : UInt32
  oldEntFlags : UInt32

/-- `blockId` is NULL where `BlockId_Clone` failed: the constructor does not look. -/
structure MessageOutputInspection where
  nugget : Nugget
  seconds : UInt64
  nanosecs : UInt64
  blockId : Option BlockId
  status : UInt8
  final : Bool

def judgmentSubmissionInitialize (reason : UInt8) (judgment : Option Judgment) : Option MessageJudgmentSubmission :=
  judgment.map fun pJudgment => { iReason := reason, pJudgment }

def alertChildInitialize (block child : Option Block) (nugget : Option Nugget) (parentCount eventCount : UInt64)
    (newSfFlags newEntFlags oldSfFlags oldEntFlags : UInt32) : Option MessageAlertChild := do
  let child ← child
  let block ← block
  let nugget ← nugget
  some { nugget, block, child, eventCount, parentCount, sfFlags := newSfFlags, entFlags := newEntFlags, oldSfFlags,
         oldEntFlags }

/-- `clock` is what `clock_gettime` returns. -/
def outputInspectionInitialize (nugget : Option Nugget) (blockId : Option BlockId) (reason : UInt8) (final : Bool)
    (clock : Option (UInt64 × UInt64)) : Option MessageOutputInspection := do
  let blockId ← blockId
  let nugget ← nugget
  let (seconds, nanosecs) ← clock
  some { nugget, seconds, nanosecs, blockId := blockIdClone blockId, status := reason, final }

/-! ### Bodies -/

inductive Body
  | data (message : Message)
  | judgment (message : MessageJudgmentSubmission)
  | alertChild (message : MessageAlertChild)
  | outputInspection (message : MessageOutputInspection)
  | command (command : Command)
  | empty

inductive BodyCodec
  | data (type : MessageType)
  | judgment
  | alertChild
  | outputInspection
  | command (kind : CommandKind)
  | empty
  deriving DecidableEq, Repr

section Codec

variable (lib : Libs) (registry : Registry)

def judgmentFields (submit : MessageJudgmentSubmission) : Option Fields :=
  putJudgment lib registry (putUint8 [] "Reason" submit.iReason) "Judgment" submit.pJudgment

def alertChildFields (alert : MessageAlertChild) : Option Fields := do
  let msg := putNugget lib [] "Nugget" alert.nugget
  let msg ← putBlock lib registry msg "Block" alert.block
  let msg ← putBlock lib registry msg "Child_Block" alert.child
  let msg := putUint32 msg "SF_Flags" alert.sfFlags
  let msg := putUint32 msg "Ent_Flags" alert.entFlags
  let msg := putUint32 msg "Old_SF_Flags" alert.oldSfFlags
  let msg := putUint32 msg "Old_Ent_Flags" alert.oldEntFlags
  let msg := putUint64 msg "Event_Count" alert.eventCount
  some (putUint64 msg "Parent_Count" alert.parentCount)

/-- A block id that is NULL is read without a check. -/
def outputInspectionFields (event : MessageOutputInspection) : Option Fields := do
  let msg := putNugget lib [] "Nugget" event.nugget
  let msg ← putBlockId lib msg "BlockId" (← event.blockId)
  let msg := putUint8 msg "Status" event.status
  let msg := putUint64 msg "Seconds" event.seconds
  let msg := putUint64 msg "NanoSecs" event.nanosecs
  some (putUint8 msg "Final" (if event.final then 1 else 0))

def objectText (msg : Fields) : CString := lib.jsonText .spaced (.object msg)

def serializeBody : Body → Option CString
  | .data message => serialize lib registry message
  | .judgment submit => (judgmentFields lib registry submit).map (objectText lib)
  | .alertChild alert => (alertChildFields lib registry alert).map (objectText lib)
  | .outputInspection event => (outputInspectionFields lib event).map (objectText lib)
  | .command command => serializeCommand lib registry command
  | .empty => some (ascii "\x7b\x7d")

def readJudgment (msg : Fields) : Option MessageJudgmentSubmission := do
  let iReason ← getUint8 msg "Reason"
  let pJudgment ← getJudgment lib registry msg "Judgment"
  some { iReason, pJudgment }

def readAlertChild (msg : Fields) : Option MessageAlertChild := do
  let nugget ← getNugget lib msg "Nugget"
  let block ← getBlock lib registry msg "Block"
  let child ← getBlock lib registry msg "Child_Block"
  let sfFlags ← getUint32 msg "SF_Flags"
  let entFlags ← getUint32 msg "Ent_Flags"
  let oldSfFlags ← getUint32 msg "Old_SF_Flags"
  let oldEntFlags ← getUint32 msg "Old_Ent_Flags"
  let eventCount ← getUint64 msg "Event_Count"
  let parentCount ← getUint64 msg "Parent_Count"
  some { nugget, block, child, eventCount, parentCount, sfFlags, entFlags, oldSfFlags, oldEntFlags }

def readOutputInspection (msg : Fields) : Option MessageOutputInspection := do
  let nugget ← getNugget lib msg "Nugget"
  let blockId ← getBlockId lib msg "BlockId"
  let status ← getUint8 msg "Status"
  let seconds ← getUint64 msg "Seconds"
  let nanosecs ← getUint64 msg "NanoSecs"
  let final ← getUint8 msg "Final"
  some { nugget, seconds, nanosecs, blockId := some blockId, status, final := final != 0 }

/-- `json_tokener_parse` of the text and a reading of the object it holds. -/
def readText {α : Type} (read : Fields → Option α) (text : CString) : Option α :=
  match lib.tokenerParse text with
  | some (.object msg) => read msg
  | _ => none

def deserializeBody (codec : BodyCodec) (text : CString) : Option Body :=
  match codec with
  | .data type => (deserialize lib registry type text).map .data
  | .judgment => (readText lib (readJudgment lib registry) text).map .judgment
  | .alertChild => (readText lib (readAlertChild lib registry) text).map .alertChild
  | .outputInspection => (readText lib (readOutputInspection lib) text).map .outputInspection
  | .command kind => (deserializeCommand lib registry kind text).map .command
  | .empty => some .empty

end Codec

/-! ### Types and handlers -/

def messageGroupCache : UInt32 := 0x20000000
def messageGroupSubmit : UInt32 := 0x40000000
def messageGroupOutput : UInt32 := 0x80000000

def messageTypeReq : UInt32 := messageGroupCache ||| 1
def messageTypeResp : UInt32 := messageGroupCache ||| 2
def messageTypeBlock : UInt32 := messageGroupSubmit ||| 1
def messageTypeJudgment : UInt32 := messageGroupSubmit ||| 2
def messageTypeInspection : UInt32 := messageGroupSubmit ||| 3
def messageTypeAlertPrimary : UInt32 := messageGroupOutput ||| 1
def messageTypeAlertChild : UInt32 := messageGroupOutput ||| 2
def messageTypeOutputEvent : UInt32 := messageGroupOutput ||| 3
def messageTypeOutputInspection : UInt32 := messageGroupOutput ||| 5

structure MessageHandler where
  type : UInt32
  codec : BodyCodec
  deriving DecidableEq, Repr

/-- The handlers `Message_Init` registers, in its order. -/
def messageInit : List MessageHandler :=
  [⟨messageTypeBlock, .data .blockSubmission⟩, ⟨messageTypeReq, .command .cacheReq⟩,
    ⟨messageTypeResp, .command .cacheResp⟩, ⟨messageTypeInspection, .data .inspection⟩,
    ⟨messageTypeJudgment, .judgment⟩, ⟨messageTypeAlertPrimary, .data .alertPrimary⟩,
    ⟨messageTypeAlertChild, .alertChild⟩, ⟨messageTypeOutputEvent, .data .outputEvent⟩,
    ⟨CommandType.bye.code, .empty⟩, ⟨CommandType.clear.code, .empty⟩,
    ⟨CommandType.configAck.code, .command .configurationAck⟩,
    ⟨CommandType.configUpdate.code, .command .configurationUpdate⟩,
    ⟨CommandType.regErr.code, .command .error⟩, ⟨CommandType.configErr.code, .command .error⟩,
    ⟨CommandType.go.code, .empty⟩, ⟨CommandType.hello.code, .command .hello⟩,
    ⟨CommandType.pause.code, .empty⟩, ⟨CommandType.paused.code, .empty⟩,
    ⟨CommandType.regReq.code, .command .registrationRequest⟩, ⟨CommandType.regResp.code, .empty⟩,
    ⟨CommandType.running.code, .empty⟩, ⟨CommandType.term.code, .command .terminate⟩,
    ⟨CommandType.rereg.code, .empty⟩]

def messageSetup (handlers : List MessageHandler) (type : UInt32) : Option MessageHandler :=
  Lists.find (fun handler => handler.type = type) handlers

def handledTypes : List UInt32 := messageInit.map MessageHandler.type

/-! ### The constructors -/

section Constructed

variable (lib : Libs) (registry : Registry)

/-- The commands without a body that go to one nugget. -/
def directedTypes : List CommandType := [.regResp, .pause, .paused, .go, .running, .rereg]

/-- The commands without a body that go to all. -/
def broadcastTypes : List CommandType := [.bye, .clear]

inductive Constructed : Envelope → Body → Prop
  | blockSubmission {pEvent iReason locality message} :
      blockSubmissionInitialize pEvent iReason locality = some message →
      Constructed (messageCreate messageTypeBlock messageVersion1) (.data (.blockSubmission message))
  | inspection {pEvent iReason localityCount localities message} :
      inspectionSubmissionInitialize pEvent iReason localityCount localities = some message →
      Constructed (messageCreate messageTypeInspection messageVersion1) (.data (.inspection message))
  | judgment {reason judgment message} : judgmentSubmissionInitialize reason judgment = some message →
      Constructed (messageCreate messageTypeJudgment messageVersion1) (.judgment message)
  | alertPrimary {event block metadata nugget judgment newSfFlags newEntFlags oldSfFlags oldEntFlags message} :
      alertPrimaryInitialize event block metadata nugget judgment newSfFlags newEntFlags oldSfFlags oldEntFlags =
        some message →
      Constructed (messageCreate messageTypeAlertPrimary messageVersion1) (.data (.alertPrimary message))
  | alertChild {block child nugget parentCount eventCount newSfFlags newEntFlags oldSfFlags oldEntFlags message} :
      alertChildInitialize block child nugget parentCount eventCount newSfFlags newEntFlags oldSfFlags oldEntFlags =
        some message →
      Constructed (messageCreate messageTypeAlertChild messageVersion1) (.alertChild message)
  | outputEvent {event nugget message} : outputEventInitialize event nugget = some message →
      Constructed (messageCreate messageTypeOutputEvent messageVersion1) (.data (.outputEvent message))
  | outputInspection {nugget blockId reason final clock message} :
      outputInspectionInitialize nugget blockId reason final clock = some message →
      Constructed (messageCreate messageTypeOutputInspection messageVersion1) (.outputInspection message)
  | cacheReq {requestor blockId message} : cacheReqInitialize requestor blockId = some message →
      Constructed (messageCreate messageTypeReq messageVersion1) (.command (.cacheReq message))
  | cacheResp {blockId sfFlags entFlags message} : cacheRespInitialize blockId sfFlags entFlags = some message →
      Constructed (messageCreate messageTypeResp messageVersion1) (.command (.cacheResp message))
  | hello {context message} : helloInitialize registry context = some message →
      Constructed (messageCreateBroadcast lib CommandType.hello.code messageVersion1 context.uuidNuggetId)
        (.command (.hello message))
  | registrationRequest (dispatcherId source nuggetType applicationType : Uuid) (dataTypeCount dataTypeList) :
      Constructed (messageCreateDirected lib CommandType.regReq.code messageVersion1 source dispatcherId)
        (.command (.registrationRequest
          (registrationRequestInitialize nuggetType applicationType dataTypeCount dataTypeList)))
  | configurationUpdate (source dest : Uuid) (getList) :
      Constructed (messageCreateDirected lib CommandType.configUpdate.code messageVersion1 source dest)
        (.command (.configurationUpdate (configurationUpdateInitialize getList)))
  | configurationAck (source dest nuggetType applicationType : Uuid) :
      Constructed (messageCreateDirected lib CommandType.configAck.code messageVersion1 source dest)
        (.command (.configurationAck (configurationAckInitialize nuggetType applicationType)))
  | error (code : UInt32) (source dest : Uuid) {sMessage message} : errorInitialize sMessage = some message →
      Constructed (messageCreateDirected lib code messageVersion1 source dest) (.command (.error message))
  | terminate (source dest : Uuid) {reason message} : terminateInitialize reason = some message →
      Constructed (messageCreateDirected lib CommandType.term.code messageVersion1 source dest)
        (.command (.terminate message))
  | directed (source dest : Uuid) {type : CommandType} : type ∈ directedTypes →
      Constructed (messageCreateDirected lib type.code messageVersion1 source dest) .empty
  | broadcast (source : Uuid) {type : CommandType} : type ∈ broadcastTypes →
      Constructed (messageCreateBroadcast lib type.code messageVersion1 source) .empty
  | addHeader (sName sValue : CString) {message body} : Constructed message body →
      Constructed (addHeader message sName sValue) body

/-- Everything but an inspection notice, and of the errors those whose code is the type of a handler. -/
def Receivable (type : UInt32) : Body → Prop
  | .outputInspection _ => False
  | .command (.error _) => type ∈ handledTypes
  | _ => True

theorem Constructed.handled_iff (h : Constructed lib registry message body) :
    message.type ∈ handledTypes ↔ Receivable message.type body := by
  induction h with
  | addHeader sName sValue h ih => exact ih
  | outputInspection h => exact iff_of_false (by decide) not_false
  | error code source dest h => exact .rfl
  | directed source dest htype =>
    have hall : ∀ type ∈ directedTypes, type.code ∈ handledTypes := by decide
    exact iff_of_true (hall _ htype) trivial
  | broadcast source htype =>
    have hall : ∀ type ∈ broadcastTypes, type.code ∈ handledTypes := by decide
    exact iff_of_true (hall _ htype) trivial
  -- the types that the other constructors use are fixed, whatever the headers
  | _ =>
    simp only [messageCreate_type, messageCreateDirected_type, messageCreateBroadcast_type]
    exact iff_of_true (by decide) trivial

end Constructed

/-! ### From the sender to the receiver -/

section Delivery

variable (lib : Libs) (registry : Registry)

/-- What `Queue_Put_Dest` publishes: the header table and the text. -/
def queuePutDest (injected : InjectedHeaders) (message : Envelope) (body : Body) : Option (List TableEntry × CString) :=
  (serializeBody lib registry body).map fun text => (putEntries injected message, text)

inductive Outcome
  | outOfBounds
  | rejected (error : ReceiveError)
  | received (message : Envelope) (body : Body)

/-- The end of `Queue_Get_Ex`, with the `deserialize` of the handler. -/
def decode (handler : MessageHandler) (message : Envelope) (text : CString) : Outcome :=
  match deserializeBody lib registry handler.codec text with
  | some body => .received message body
  | none => .rejected .deserializeFailed

/-- `Queue_Get_Ex` of a delivery on a queue that is not in external mode. -/
def queueGetEx (handlers : List MessageHandler) (ds : List DeliveredEntry) (body : Bytes) : Outcome :=
  match receiveEnvelope ds with
  | none => .outOfBounds
  | some (.error error) => .rejected error
  | some (.ok message) =>
    match messageSetup handlers message.type with
    | none => .rejected .setupFailed
    | some handler => decode lib registry handler message (cString body)

theorem messageSetup_isSome_iff (type : UInt32) : (messageSetup messageInit type).isSome ↔ type ∈ handledTypes := by
  rw [messageSetup, Lists.find_eq, handledTypes]
  simp

theorem receiveEnvelope_sent
    (hunchanged : ds.map DeliveredEntry.entry = putEntries injected message) (hterminated : ∀ d ∈ ds, d.Terminated) :
    receiveEnvelope ds = some (.ok { message with headers := sentHeaders injected message }) := by
  rw [receiveEnvelope, (readEntries_sent_iff hunchanged).mpr hterminated, map_some, readEnvelope_sent]

/-- A message that was built and sent reaches the `deserialize` of its type exactly if it is receivable. -/
theorem delivery_decoded_iff {injected : InjectedHeaders} {message : Envelope} {body : Body} {ds : List DeliveredEntry}
    {entries : List TableEntry} {text : CString} (hbuilt : Constructed lib registry message body)
    (hsent : queuePutDest lib registry injected message body = some (entries, text))
    (hunchanged : ds.map DeliveredEntry.entry = entries) (hterminated : ∀ d ∈ ds, d.Terminated) :
    (∃ handler, messageSetup messageInit message.type = some handler ∧
        queueGetEx lib registry messageInit ds text.bytes =
          decode lib registry handler { message with headers := sentHeaders injected message } text) ↔
      Receivable message.type body := by
  obtain ⟨text', -, hentries⟩ := map_eq_some_iff.mp hsent
  obtain ⟨rfl, rfl⟩ := Prod.mk.inj hentries
  have hreceive := receiveEnvelope_sent hunchanged hterminated
  rw [← hbuilt.handled_iff, ← messageSetup_isSome_iff, isSome_iff_exists]
  refine exists_congr fun handler => and_iff_left_of_imp fun hsetup => ?_
  simp only [queueGetEx, hreceive, hsetup, cString_bytes]

theorem delivery_rejected (hbuilt : Constructed lib registry message body)
    (hunchanged : ds.map DeliveredEntry.entry = putEntries injected message) (hterminated : ∀ d ∈ ds, d.Terminated)
    (hbody : ¬ Receivable message.type body) (bytes : Bytes) :
    queueGetEx lib registry messageInit ds bytes = .rejected .setupFailed := by
  have hsetup : messageSetup messageInit message.type = none := by
    rw [← not_isSome_iff_eq_none, messageSetup_isSome_iff, hbuilt.handled_iff]
    exact hbody
  simp only [queueGetEx, receiveEnvelope_sent hunchanged hterminated, hsetup]

end Delivery

/-- A header table that is delivered with a NUL behind each value. -/
def deliveredEntries (entries : List TableEntry) : List DeliveredEntry := entries.map fun entry => { entry, after := [0] }

theorem deliveredEntries_entry (entries : List TableEntry) :
    (deliveredEntries entries).map DeliveredEntry.entry = entries := by
  simp [deliveredEntries, Function.comp_def]

theorem deliveredEntries_terminated (entries : List TableEntry) : ∀ d ∈ deliveredEntries entries, d.Terminated := by
  simp [deliveredEntries, DeliveredEntry.Terminated]

def byeMessage : Envelope := messageCreateBroadcast textLibs CommandType.bye.code messageVersion1 1

theorem bye_decoded :
    ∃ handler, messageSetup messageInit byeMessage.type = some handler ∧
      queueGetEx textLibs stringRegistry messageInit (deliveredEntries (putEntries noHeaders byeMessage))
          (ascii "\x7b\x7d").bytes =
        decode textLibs stringRegistry handler { byeMessage with headers := sentHeaders noHeaders byeMessage }
          (ascii "\x7b\x7d") :=
  (delivery_decoded_iff textLibs stringRegistry (.broadcast 1 (by decide)) rfl
    (deliveredEntries_entry (putEntries noHeaders byeMessage)) (deliveredEntries_terminated _)).mpr trivial

theorem sent_rejected (hbuilt : Constructed textLibs stringRegistry message body)
    (hsent : (serializeBody textLibs stringRegistry body).isSome) (hbody : ¬ Receivable message.type body) :
    ∃ text, queuePutDest textLibs stringRegistry noHeaders message body = some (putEntries noHeaders message, text) ∧
      queueGetEx textLibs stringRegistry messageInit (deliveredEntries (putEntries noHeaders message)) text.bytes =
        .rejected .setupFailed := by
  obtain ⟨text, htext⟩ := isSome_iff_exists.mp hsent
  refine ⟨text, by rw [queuePutDest, htext, map_some], ?_⟩
  exact delivery_rejected textLibs stringRegistry hbuilt (deliveredEntries_entry _) (deliveredEntries_terminated _) hbody _

def outputInspectionMessage : Envelope := messageCreate messageTypeOutputInspection messageVersion1

def outputInspectionNotice : MessageOutputInspection :=
  { nugget := { uuidNuggetId := 1, uuidApplicationType := 2, uuidNuggetType := 3, sName := none, sLocation := none,
                sContact := none }
    seconds := 2, nanosecs := 3, blockId := blockIdClone sampleBlockId, status := 1, final := true }

def statsErrorMessage : Envelope := messageCreateDirected textLibs 0x1000000A messageVersion1 1 2

/-- An inspection notice is built and sent, and rejected for want of a handler; so is an error whose code no handler
has. -/
theorem no_handler_rejects :
    (Constructed textLibs stringRegistry outputInspectionMessage (.outputInspection outputInspectionNotice) ∧
      ∃ text, queuePutDest textLibs stringRegistry noHeaders outputInspectionMessage
          (.outputInspection outputInspectionNotice) = some (putEntries noHeaders outputInspectionMessage, text) ∧
        queueGetEx textLibs stringRegistry messageInit (deliveredEntries (putEntries noHeaders outputInspectionMessage))
          text.bytes = .rejected .setupFailed) ∧
    Constructed textLibs stringRegistry statsErrorMessage (.command (.error ⟨ascii "no"⟩)) ∧
      ∃ text, queuePutDest textLibs stringRegistry noHeaders statsErrorMessage (.command (.error ⟨ascii "no"⟩)) =
          some (putEntries noHeaders statsErrorMessage, text) ∧
        queueGetEx textLibs stringRegistry messageInit (deliveredEntries (putEntries noHeaders statsErrorMessage))
          text.bytes = .rejected .setupFailed := by
  have hnotice : outputInspectionInitialize (some outputInspectionNotice.nugget) (some sampleBlockId) 1 true
      (some (2, 3)) = some outputInspectionNotice := rfl
  have herror : errorInitialize (some (ascii "no")) = some ⟨ascii "no"⟩ := rfl
  have hcode : (0x1000000A : UInt32) ∉ handledTypes := by decide
  exact ⟨⟨.outputInspection hnotice, sent_rejected (.outputInspection hnotice) (by decide) not_false⟩,
    .error 0x1000000A 1 2 herror, sent_rejected (.error 0x1000000A 1 2 herror) rfl hcode⟩

end Razorback.Messages
