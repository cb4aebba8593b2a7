import Razorback.Decode.Objects
import Razorback.Messages.Handlers

/-! A message from the delivery to its end: the envelope that `Queue_Get_Ex` allocates, the `deserialize` and `destroy` of
each handler, and a consumer that destroys what it received. -/

namespace Razorback.Decode
open Records Text Uuids Heap
open JsonBuffer (Libs)
open Messages (BodyCodec DeliveredEntry FieldKind)
open Json (Fields)

/-! ### The envelope -/

structure HeaderPtr where
  addr : Address
  sName : Address
  sValue : Address

def messageHeaderDelete (header : HeaderPtr) : Prog Unit := do
  free header.sName
  free header.sValue
  free header.addr

/-- `struct Message`; its body is kept apart. -/
structure MessagePtr where
  addr : Address
  headers : ListPtr HeaderPtr
  brokerSettlement : Option Address
  serialized : Address

/-- `Message_Destroy`. A received message has no telemetry context. -/
def messageDestroy (message : MessagePtr) (body : Option Address) : Prog Unit := do
  unlessNull free body
  free message.serialized
  listDestroy messageHeaderDelete message.headers
  unlessNull free message.brokerSettlement
  free message.addr

def messageHeaderListAdd (headers : ListPtr HeaderPtr) : Prog (ListPtr HeaderPtr) := do
  let addr ← alloc
  let sName ← alloc
  let sValue ← alloc
  listPush headers ⟨addr, sName, sValue⟩

/-- One round of the header loop: the copies of the name and of a value of bytes are freed again. -/
def receiveHeader (headers : ListPtr HeaderPtr) (delivered : DeliveredEntry) : Prog (ListPtr HeaderPtr) := do
  let name ← alloc
  match delivered.entry.kind with
  | .utf8 =>
    let headers ← messageHeaderListAdd headers
    free name
    pure headers
  | .bytes =>
    let value ← alloc
    let headers ← messageHeaderListAdd headers
    free value
    free name
    pure headers
  | .other =>
    free name
    pure headers

def receiveHeaders (headers : ListPtr HeaderPtr) : List DeliveredEntry → Prog (ListPtr HeaderPtr)
  | [] => pure headers
  | delivered :: rest => do
    let headers ← receiveHeader headers delivered
    receiveHeaders headers rest

/-- A settlement is kept for the consumer unless the delivery is acknowledged at once. -/
def newSettlement (autoAck : Bool) : Prog (Option Address) :=
  if autoAck then pure none
  else do
    let settlement ← alloc
    pure (some settlement)

def receiveMessage (autoAck : Bool) (entries : List DeliveredEntry) : Prog MessagePtr := do
  let addr ← alloc
  let headers ← listCreate
  let brokerSettlement ← newSettlement autoAck
  let serialized ← alloc
  let headers ← receiveHeaders headers entries
  pure ⟨addr, headers, brokerSettlement, serialized⟩

/-! ### Bodies -/

/-- The functions of a handler and the structure they share. -/
structure BodyHandler where
  Body : Type
  deserialize : CString → Prog (Bool × Option Body)
  destroy : MessagePtr → Option Body → Prog Unit

section Bodies

variable (lib : Libs) (registry : Registry)

/-- What the `deserialize` functions share: the body, the tree that `json_tokener_parse` builds, which is NULL for the
text `null`, and the fields up to the first that fails. -/
def deserializeFields {σ : Type} (fresh : Address → σ) (fields : Json → List (Step Fault σ)) (text : CString) :
    Prog (Bool × Option σ) := do
  let body ← alloc
  match lib.tokenerParse text with
  | none | some .null => pure (false, some (fresh body))
  | some msg =>
    let tree ← alloc
    let (found, body) ← fill (fields msg) (fresh body)
    free tree
    pure (found, some body)

/-- What the `destroy` functions share: the members of the body, then `Message_Destroy`. -/
def destroyMembers {σ : Type} (addr : σ → Address) (destroy : σ → Prog Unit) (message : MessagePtr) (body : Option σ) :
    Prog Unit := do
  unlessNull destroy body
  messageDestroy message (body.map addr)

structure BlockSubmissionPtr where
  addr : Address
  pEvent : Option EventPtr

def blockSubmissionFields (msg : Json) : List (Step Fault BlockSubmissionPtr) :=
  [value (getUint32 msg "Reason"),
    slot (fun submit event => { submit with pEvent := some event }) (getEvent lib registry msg "Event"),
    value (getUint8 msg "Stored_Locality")]

def blockSubmissionDestroy (msg : BlockSubmissionPtr) : Prog Unit := unlessNull eventDestroy msg.pEvent

structure InspectionSubmissionPtr where
  addr : Address
  eventId : Option Address
  pEventMetadata : Option (ListPtr NTLVItemPtr)
  pBlock : Option BlockPtr
  localityList : Option Address

def inspectionSubmissionFields (msg : Json) : List (Step Fault InspectionSubmissionPtr) :=
  [value (getUint32 msg "Reason"),
    slot (fun submit id => { submit with eventId := some id }) (getEventId lib msg "Event_ID"),
    slot (fun submit list => { submit with pEventMetadata := some list }) (getNTLVList lib registry msg "Event_Metadata"),
    slot (fun submit block => { submit with pBlock := some block }) (getBlock lib registry msg "Block"),
    slot (fun submit list => { submit with localityList := list }) (getUint8List msg "Avaliable_Localities")]

def inspectionSubmissionDestroy (msg : InspectionSubmissionPtr) : Prog Unit := do
  unlessNull blockDestroy msg.pBlock
  unlessNull free msg.eventId
  unlessNull (listDestroy ntlvDelete) msg.pEventMetadata
  unlessNull free msg.localityList

structure AlertPrimaryPtr where
  addr : Address
  nugget : Option NuggetPtr
  block : Option BlockPtr
  event : Option EventPtr
  message : Option Address
  metadata : Option (ListPtr NTLVItemPtr)

/-- Some alerts have no message: it is NULL where it cannot be read. -/
def alertMessage (msg : Json) : Prog (Option (Option Address)) := do
  match ← getString msg "Message" with
  | some (text, _) => pure (some (some text))
  | none => pure (some none)

def alertPrimaryFields (msg : Json) : List (Step Fault AlertPrimaryPtr) :=
  [slot (fun alert nugget => { alert with nugget := some nugget }) (getNugget lib msg "Nugget"),
    slot (fun alert block => { alert with block := some block }) (getBlock lib registry msg "Block"),
    slot (fun alert event => { alert with event := some event }) (getEvent lib registry msg "Event"),
    slot (fun alert text => { alert with message := text }) (alertMessage msg),
    value (getUint8 msg "Priority"),
    value (getUint64 msg "Seconds"),
    value (getUint64 msg "Nano_Seconds"),
    value (getUint32 msg "GID"),
    value (getUint32 msg "SID"),
    value (getUint32 msg "SF_Flags"),
    value (getUint32 msg "Ent_Flags"),
    value (getUint32 msg "Old_SF_Flags"),
    value (getUint32 msg "Old_Ent_Flags"),
    slot (fun alert list => { alert with metadata := some list }) (getNTLVList lib registry msg "Metadata")]

def alertPrimaryDestroy (msg : AlertPrimaryPtr) : Prog Unit := do
  unlessNull eventDestroy msg.event
  unlessNull blockDestroy msg.block
  unlessNull (listDestroy ntlvDelete) msg.metadata
  unlessNull free msg.message
  unlessNull nuggetDestroy msg.nugget

structure OutputEventPtr where
  addr : Address
  nugget : Option NuggetPtr
  event : Option EventPtr

def outputEventFields (msg : Json) : List (Step Fault OutputEventPtr) :=
  [slot (fun output nugget => { output with nugget := some nugget }) (getNugget lib msg "Nugget"),
    slot (fun output event => { output with event := some event }) (getEvent lib registry msg "Event")]

def outputEventDestroy (msg : OutputEventPtr) : Prog Unit := do
  unlessNull eventDestroy msg.event
  unlessNull nuggetDestroy msg.nugget

structure JudgmentSubmissionPtr where
  addr : Address
  pJudgment : Option JudgmentPtr

def judgmentSubmissionFields (msg : Json) : List (Step Fault JudgmentSubmissionPtr) :=
  [value (getUint8 msg "Reason"),
    slot (fun submit judgment => { submit with pJudgment := some judgment }) (getJudgment lib registry msg "Judgment")]

def judgmentSubmissionDestroy (msg : JudgmentSubmissionPtr) : Prog Unit := unlessNull judgmentDestroy msg.pJudgment

structure AlertChildPtr where
  addr : Address
  nugget : Option NuggetPtr
  block : Option BlockPtr
  child : Option BlockPtr

def alertChildFields (msg : Json) : List (Step Fault AlertChildPtr) :=
  [slot (fun alert nugget => { alert with nugget := some nugget }) (getNugget lib msg "Nugget"),
    slot (fun alert block => { alert with block := some block }) (getBlock lib registry msg "Block"),
    slot (fun alert block => { alert with child := some block }) (getBlock lib registry msg "Child_Block"),
    value (getUint32 msg "SF_Flags"),
    value (getUint32 msg "Ent_Flags"),
    value (getUint32 msg "Old_SF_Flags"),
    value (getUint32 msg "Old_Ent_Flags"),
    value (getUint64 msg "Event_Count"),
    value (getUint64 msg "Parent_Count")]

def alertChildDestroy (msg : AlertChildPtr) : Prog Unit := do
  unlessNull blockDestroy msg.child
  unlessNull blockDestroy msg.block
  unlessNull nuggetDestroy msg.nugget

structure OutputInspectionPtr where
  addr : Address
  nugget : Option NuggetPtr
  blockId : Option BlockIdPtr

def outputInspectionFields (msg : Json) : List (Step Fault OutputInspectionPtr) :=
  [slot (fun event nugget => { event with nugget := some nugget }) (getNugget lib msg "Nugget"),
    slot (fun event id => { event with blockId := some id }) (getBlockId lib msg "BlockId"),
    value (getUint8 msg "Status"),
    value (getUint64 msg "Seconds"),
    value (getUint64 msg "NanoSecs"),
    value (getUint8 msg "Final")]

def outputInspectionDestroy (msg : OutputInspectionPtr) : Prog Unit := do
  unlessNull blockIdDestroy msg.blockId
  unlessNull nuggetDestroy msg.nugget

/-! ### Commands -/

structure HelloPtr where
  addr : Address
  uuidNuggetType : Uuid
  addressList : Option (ListPtr Address)

def dispatcherFields (msg : Json) : List (Step Fault HelloPtr) :=
  [value (getUint8 msg "Priority"),
    value (getUint8 msg "Protocol"),
    value (getUint16 msg "Port"),
    value (getUint32 msg "Flags"),
    slot (fun hello list => { hello with addressList := some list }) (getStringList msg "Address_List")]

/-- Only a dispatcher has the fields behind the locality. -/
def helloDispatcher (msg : Json) : Step Fault HelloPtr := fun hello =>
  match isNamedUUID registry nuggetTypeDispatcher .nuggetType hello.uuidNuggetType with
  | none => pure (false, hello)
  | some false => pure (true, hello)
  | some true => fill (dispatcherFields msg) hello

def helloFields (msg : Json) : List (Step Fault HelloPtr) :=
  [slot (fun hello type => { hello with uuidNuggetType := type }) (getUUID lib msg "Nugget_Type"),
    value (getUUID lib msg "App_Type"),
    value (getUint8 msg "Locality"),
    helloDispatcher registry msg]

def helloDestroy (message : HelloPtr) : Prog Unit := unlessNull (listDestroy free) message.addressList

structure RegistrationRequestPtr where
  addr : Address
  pDataTypeList : Option Address

/-- An entry that is no UUID frees the list and leaves the pointer in the body. The value is not known to be an array. -/
def registrationDataTypes (msg : Json) : Step Fault RegistrationRequestPtr := fun regReq => do
  match ← objectGet msg "Data_Types" with
  | none => pure (true, regReq)
  | some object =>
    let entries ← arrayEntries object
    let list ← alloc
    if (entries.take (entries.length % 2 ^ 32)).all
        (fun item => ((item.bind (Messages.getStringOf lib)).bind lib.uuidParse).isSome) then
      pure (true, { regReq with pDataTypeList := some list })
    else
      free list
      pure (false, { regReq with pDataTypeList := some list })

def registrationRequestFields (msg : Json) : List (Step Fault RegistrationRequestPtr) :=
  [value (getUUID lib msg "Nugget_Type"),
    value (getUUID lib msg "App_Type"),
    registrationDataTypes lib msg]

def registrationRequestDestroy (message : RegistrationRequestPtr) : Prog Unit := unlessNull free message.pDataTypeList

structure ConfigUpdatePtr where
  addr : Address
  ntlvTypes : Option (ListPtr UUIDListNodePtr)
  ntlvNames : Option (ListPtr UUIDListNodePtr)
  dataTypes : Option (ListPtr UUIDListNodePtr)

def configUpdateFields (msg : Json) : List (Step Fault ConfigUpdatePtr) :=
  [slot (fun update list => { update with ntlvTypes := some list }) (getUUIDList lib msg "NTLV_Types"),
    slot (fun update list => { update with ntlvNames := some list }) (getUUIDList lib msg "NTLV_Names"),
    slot (fun update list => { update with dataTypes := some list }) (getUUIDList lib msg "Data_Types")]

def configUpdateDestroy (message : ConfigUpdatePtr) : Prog Unit := do
  unlessNull (listDestroy uuidDestroy) message.ntlvTypes
  unlessNull (listDestroy uuidDestroy) message.ntlvNames
  unlessNull (listDestroy uuidDestroy) message.dataTypes

def configAckFields (msg : Json) : List (Step Fault Address) :=
  [value (getUUID lib msg "Nugget_Type"),
    value (getUUID lib msg "App_Type")]

structure TextPtr where
  addr : Address
  text : Option Address

def textOf (msg : Json) (name : String) : Step Fault TextPtr :=
  slot (fun body text => { body with text := some text.1 }) (getString msg name)

def errorFields (msg : Json) : List (Step Fault TextPtr) := [textOf msg "Message"]

/-- `Error_Destroy` leaves the envelope. -/
def errorDestroy (_ : MessagePtr) : Option TextPtr → Prog Unit
  | none => pure ()
  | some message => do
    unlessNull free message.text
    free message.addr

def terminateFields (msg : Json) : List (Step Fault TextPtr) := [textOf msg "Reason"]

def terminateDestroy (message : TextPtr) : Prog Unit := unlessNull free message.text

structure CachePtr where
  addr : Address
  pId : Option BlockIdPtr

def cacheReqFields (msg : Json) : List (Step Fault CachePtr) :=
  [value (getUUID lib msg "Requestor"),
    slot (fun submit id => { submit with pId := some id }) (getBlockId lib msg "Block_ID")]

def cacheRespFields (msg : Json) : List (Step Fault CachePtr) :=
  [slot (fun submit id => { submit with pId := some id }) (getBlockId lib msg "Block_ID"),
    value (getUint32 msg "SF_Flags"),
    value (getUint32 msg "Ent_Flags")]

def cacheDestroy (msg : CachePtr) : Prog Unit := unlessNull blockIdDestroy msg.pId

/-! ### Handlers -/

/-- A handler whose `destroy` ends in `Message_Destroy`. -/
def bodyHandler {σ : Type} (fresh : Address → σ) (addr : σ → Address) (fields : Json → List (Step Fault σ))
    (destroy : σ → Prog Unit) : BodyHandler where
  Body := σ
  deserialize := deserializeFields lib fresh fields
  destroy := destroyMembers addr destroy

def dataHandler : Messages.MessageType → BodyHandler
  | .blockSubmission =>
    bodyHandler lib (⟨·, none⟩) BlockSubmissionPtr.addr (blockSubmissionFields lib registry) blockSubmissionDestroy
  | .inspection =>
    bodyHandler lib (⟨·, none, none, none, none⟩) InspectionSubmissionPtr.addr (inspectionSubmissionFields lib registry)
      inspectionSubmissionDestroy
  | .alertPrimary =>
    bodyHandler lib (⟨·, none, none, none, none, none⟩) AlertPrimaryPtr.addr (alertPrimaryFields lib registry)
      alertPrimaryDestroy
  | .outputEvent =>
    bodyHandler lib (⟨·, none, none⟩) OutputEventPtr.addr (outputEventFields lib registry) outputEventDestroy

/-- `Message_Destroy` is the `destroy` of a configuration acknowledgement. -/
def commandHandler : Messages.CommandKind → BodyHandler
  | .hello => bodyHandler lib (⟨·, 0, none⟩) HelloPtr.addr (helloFields lib registry) helloDestroy
  | .registrationRequest =>
    bodyHandler lib (⟨·, none⟩) RegistrationRequestPtr.addr (registrationRequestFields lib) registrationRequestDestroy
  | .configurationUpdate =>
    bodyHandler lib (⟨·, none, none, none⟩) ConfigUpdatePtr.addr (configUpdateFields lib) configUpdateDestroy
  | .configurationAck => bodyHandler lib id id (configAckFields lib) fun _ => pure ()
  | .error => { Body := TextPtr, deserialize := deserializeFields lib (⟨·, none⟩) errorFields, destroy := errorDestroy }
  | .terminate => bodyHandler lib (⟨·, none⟩) TextPtr.addr terminateFields terminateDestroy
  | .cacheReq => bodyHandler lib (⟨·, none⟩) CachePtr.addr (cacheReqFields lib) cacheDestroy
  | .cacheResp => bodyHandler lib (⟨·, none⟩) CachePtr.addr (cacheRespFields lib) cacheDestroy

def handlerOf : BodyCodec → BodyHandler
  | .data type => dataHandler lib registry type
  | .judgment =>
    bodyHandler lib (⟨·, none⟩) JudgmentSubmissionPtr.addr (judgmentSubmissionFields lib registry)
      judgmentSubmissionDestroy
  | .alertChild =>
    bodyHandler lib (⟨·, none, none, none⟩) AlertChildPtr.addr (alertChildFields lib registry) alertChildDestroy
  | .outputInspection =>
    bodyHandler lib (⟨·, none, none⟩) OutputInspectionPtr.addr (outputInspectionFields lib) outputInspectionDestroy
  | .command kind => commandHandler lib registry kind
  | .empty =>
    { Body := Unit, deserialize := fun _ => pure (true, none), destroy := fun message _ => messageDestroy message none }

end Bodies

/-! ### A delivery -/

/-- What becomes of a delivery in `Queue_Get_Ex`; a deferred one is settled by the consumer. -/
inductive Settlement
  | rejected | acknowledged | deferred
  deriving DecidableEq, Repr

def settle (autoAck decoded : Bool) : Settlement :=
  if !decoded then .rejected else if autoAck then .acknowledged else .deferred

section Delivery

variable (handler : BodyHandler) (autoAck : Bool) (entries : List DeliveredEntry) (text : CString)

/-- `Queue_Get_Ex` of a delivery whose type has the handler: the message, unless it was rejected. -/
def queueGetEx : Prog (Settlement × Option (MessagePtr × Option handler.Body)) := do
  let message ← receiveMessage autoAck entries
  let (decoded, body) ← handler.deserialize text
  if decoded then pure (settle autoAck decoded, some (message, body))
  else
    handler.destroy message body
    pure (settle autoAck decoded, none)

def consume : Prog Settlement := do
  let (settlement, received) ← queueGetEx handler autoAck entries text
  match received with
  | none => pure settlement
  | some (message, body) =>
    handler.destroy message body
    pure settlement

end Delivery

/-- A delivery of a type from its arrival to its end; `serialized` is a copy of the body with a NUL behind it. Without a
handler there is no `destroy`, and `Message_Destroy` is called. -/
def delivery (lib : Libs) (registry : Registry) (type : UInt32) (autoAck : Bool) (entries : List DeliveredEntry)
    (body : Bytes) : Prog Settlement :=
  match Messages.messageSetup Messages.messageInit type with
  | some handler => consume (handlerOf lib registry handler.codec) autoAck entries (cString body)
  | none => do
    let message ← receiveMessage autoAck entries
    messageDestroy message none
    pure (settle autoAck false)

end Razorback.Decode
