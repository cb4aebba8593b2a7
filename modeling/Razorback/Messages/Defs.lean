import Razorback.JsonBuffer.Objects

/-! Block submission, inspection, alert and output event messages: their constructors and their text. -/

namespace Razorback.Messages
open Records Text Uuids JsonBuffer
open Json (Fields add get)

structure MessageBlockSubmission where
  iReason : UInt32
  pEvent : Event
  storedLocality : UInt8

structure MessageInspectionSubmission where
  iReason : UInt32
  eventId : EventId
  pEventMetadata : List NTLVItem
  pBlock : Block
  localityList : List UInt8

structure MessageAlertPrimary where
  nugget : Nugget
  block : Block
  event : Event
  metadata : List NTLVItem
  gid : UInt32
  sid : UInt32
  priority : UInt8
  message : Option CString
  seconds : UInt64
  nanosecs : UInt64
  sfFlags : UInt32
  entFlags : UInt32
  oldSfFlags : UInt32
  oldEntFlags : UInt32

structure MessageOutputEvent where
  nugget : Nugget
  event : Event

inductive Message
  | blockSubmission (message : MessageBlockSubmission)
  | inspection (message : MessageInspectionSubmission)
  | alertPrimary (message : MessageAlertPrimary)
  | outputEvent (message : MessageOutputEvent)

inductive MessageType
  | blockSubmission | inspection | alertPrimary | outputEvent
  deriving DecidableEq, Repr

def Message.type : Message → MessageType
  | .blockSubmission _ => .blockSubmission
  | .inspection _ => .inspection
  | .alertPrimary _ => .alertPrimary
  | .outputEvent _ => .outputEvent

/-! ### The constructors -/

def blockIdClone (id : BlockId) : Option BlockId := do
  let hash ← id.pHash
  let hash ← hashClone hash
  some { id with pHash := some hash }

/-- `Block_Clone`: the parent block is not copied, a missing metadata list is an error. -/
def blockClone : Block → Option Block
  | .mk pId pParentId _ pMetaDataList => do
    let pId ← blockIdClone pId
    let pParentId ← pParentId.mapM blockIdClone
    let items ← pMetaDataList
    some (.mk pId pParentId none (some items))

def blockSubmissionInitialize (pEvent : Option Event) (iReason : UInt32) (locality : UInt8) :
    Option MessageBlockSubmission :=
  pEvent.map fun event => { iReason, pEvent := event, storedLocality := locality }

/-- The list has `localityCount` bytes of the caller's array. -/
def inspectionSubmissionInitialize (pEvent : Option Event) (iReason localityCount : UInt32)
    (localities : List UInt8) : Option MessageInspectionSubmission := do
  let .mk eventId _ _ _ pBlock pMetaDataList ← pEvent
  let block ← pBlock
  let block ← blockClone block
  let items ← pMetaDataList
  some { iReason, eventId, pEventMetadata := items, pBlock := block,
         localityList := localities.take localityCount.toNat }

def alertPrimaryInitialize (event : Option Event) (block : Option Block) (metadata : Option (List NTLVItem))
    (nugget : Option Nugget) (judgment : Option Judgment) (newSfFlags newEntFlags oldSfFlags oldEntFlags : UInt32) :
    Option MessageAlertPrimary := do
  let event ← event
  let block ← block
  let metadata ← metadata
  let nugget ← nugget
  let judgment ← judgment
  some { nugget, block, event, metadata, gid := judgment.iGID, sid := judgment.iSID, priority := judgment.iPriority,
         message := judgment.sMessage, seconds := judgment.iSeconds, nanosecs := judgment.iNanoSecs,
         sfFlags := newSfFlags, entFlags := newEntFlags, oldSfFlags, oldEntFlags }

def outputEventInitialize (event : Option Event) (nugget : Option Nugget) : Option MessageOutputEvent := do
  let event ← event
  let nugget ← nugget
  some { nugget, event }

inductive Built : Message → Prop
  | blockSubmission {pEvent iReason locality message} :
      blockSubmissionInitialize pEvent iReason locality = some message → Built (.blockSubmission message)
  | inspection {pEvent iReason localityCount localities message} :
      inspectionSubmissionInitialize pEvent iReason localityCount localities = some message →
      Built (.inspection message)
  | alertPrimary {event block metadata nugget judgment newSfFlags newEntFlags oldSfFlags oldEntFlags message} :
      alertPrimaryInitialize event block metadata nugget judgment newSfFlags newEntFlags oldSfFlags oldEntFlags =
        some message → Built (.alertPrimary message)
  | outputEvent {event nugget message} :
      outputEventInitialize event nugget = some message → Built (.outputEvent message)

/-! ### Lists of bytes -/

def uint8ListJson (list : List UInt8) : Json := .array (list.map fun byte => .int byte.toNat)

/-- `json_object_get_int` stays within an `int`, the cast keeps its low byte. -/
def uint8OfJson : Json → Option UInt8
  | .int value => some (UInt8.ofNat ((max (-2 ^ 31) (min value (2 ^ 31 - 1))) % 256).toNat)
  | _ => none

/-- `JsonBuffer_Get_uint8List`, whose count has 32 bits. -/
def getUint8List (parent : Fields) (name : String) : Option (List UInt8) :=
  match get parent name with
  | some (.array entries) => (entries.take (entries.length % 2 ^ 32)).mapM uint8OfJson
  | _ => none

/-! ### Serialize and deserialize -/

section Codec

variable (lib : Libs) (registry : Registry)

def messageFields : Message → Option Fields
  | .blockSubmission submit => do
    let msg := putUint32 [] "Reason" submit.iReason
    let msg ← putEvent lib registry msg "Event" submit.pEvent
    some (putUint8 msg "Stored_Locality" submit.storedLocality)
  | .inspection submit => do
    let msg := putUint32 [] "Reason" submit.iReason
    let msg := putEventId lib msg "Event_ID" submit.eventId
    let msg ← putNTLVList lib registry msg "Event_Metadata" (some submit.pEventMetadata)
    let msg ← putBlock lib registry msg "Block" submit.pBlock
    some (add msg "Avaliable_Localities" (uint8ListJson submit.localityList))
  | .alertPrimary alert => do
    let msg := putNugget lib [] "Nugget" alert.nugget
    let msg ← putBlock lib registry msg "Block" alert.block
    let msg ← putEvent lib registry msg "Event" alert.event
    let msg := putOptionalString msg "Message" alert.message
    let msg := putUint8 msg "Priority" alert.priority
    let msg := putUint64 msg "Seconds" alert.seconds
    let msg := putUint64 msg "Nano_Seconds" alert.nanosecs
    let msg := putUint32 msg "GID" alert.gid
    let msg := putUint32 msg "SID" alert.sid
    let msg := putUint32 msg "SF_Flags" alert.sfFlags
    let msg := putUint32 msg "Ent_Flags" alert.entFlags
    let msg := putUint32 msg "Old_SF_Flags" alert.oldSfFlags
    let msg := putUint32 msg "Old_Ent_Flags" alert.oldEntFlags
    putNTLVList lib registry msg "Metadata" (some alert.metadata)
  | .outputEvent output => do
    let msg := putNugget lib [] "Nugget" output.nugget
    putEvent lib registry msg "Event" output.event

def serialize (message : Message) : Option CString :=
  (messageFields lib registry message).map fun msg => lib.jsonText .spaced (.object msg)

def readMessage (type : MessageType) (msg : Fields) : Option Message :=
  match type with
  | .blockSubmission => do
    let iReason ← getUint32 msg "Reason"
    let pEvent ← getEvent lib registry msg "Event"
    let storedLocality ← getUint8 msg "Stored_Locality"
    some (.blockSubmission { iReason, pEvent, storedLocality })
  | .inspection => do
    let iReason ← getUint32 msg "Reason"
    let eventId ← getEventId lib msg "Event_ID"
    let pEventMetadata ← getNTLVList lib registry msg "Event_Metadata"
    let pBlock ← getBlock lib registry msg "Block"
    let localityList ← getUint8List msg "Avaliable_Localities"
    some (.inspection { iReason, eventId, pEventMetadata, pBlock, localityList })
  | .alertPrimary => do
    let nugget ← getNugget lib msg "Nugget"
    let block ← getBlock lib registry msg "Block"
    let event ← getEvent lib registry msg "Event"
    -- some alerts have no message
    let message := getString msg "Message"
    let priority ← getUint8 msg "Priority"
    let seconds ← getUint64 msg "Seconds"
    let nanosecs ← getUint64 msg "Nano_Seconds"
    let gid ← getUint32 msg "GID"
    let sid ← getUint32 msg "SID"
    let sfFlags ← getUint32 msg "SF_Flags"
    let entFlags ← getUint32 msg "Ent_Flags"
    let oldSfFlags ← getUint32 msg "Old_SF_Flags"
    let oldEntFlags ← getUint32 msg "Old_Ent_Flags"
    let metadata ← getNTLVList lib registry msg "Metadata"
    some (.alertPrimary { nugget, block, event, metadata, gid, sid, priority, message, seconds, nanosecs, sfFlags,
                          entFlags, oldSfFlags, oldEntFlags })
  | .outputEvent => do
    let nugget ← getNugget lib msg "Nugget"
    let event ← getEvent lib registry msg "Event"
    some (.outputEvent { nugget, event })

def deserialize (type : MessageType) (text : CString) : Option Message :=
  match lib.tokenerParse text with
  | some (.object msg) => readMessage lib registry type msg
  | _ => none

end Codec

end Razorback.Messages
