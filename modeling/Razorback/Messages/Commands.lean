import Razorback.Messages.Defs

/-! Command and cache messages: their constructors and their text. -/

namespace Razorback.Messages
open Records Text Uuids JsonBuffer
open Json (Fields add get)

/-- `addressList` is NULL where it is `none`. -/
structure MessageHello where
  uuidNuggetType : Uuid
  uuidApplicationType : Uuid
  locality : UInt8
  priority : UInt8
  flags : UInt32
  addressList : Option (List CString)
  protocol : UInt8
  port : UInt16
  deriving DecidableEq

/-- `iDataTypeCount` is the length of the list. -/
structure MessageRegistrationRequest where
  uuidNuggetType : Uuid
  uuidApplicationType : Uuid
  dataTypeList : List Uuid
  deriving DecidableEq

structure UUIDEntry where
  uuid : Uuid
  sName : CString
  sDescription : Option CString
  deriving DecidableEq

structure MessageConfigurationUpdate where
  ntlvTypes : List UUIDEntry
  ntlvNames : List UUIDEntry
  dataTypes : List UUIDEntry
  deriving DecidableEq

structure MessageConfigurationAck where
  uuidNuggetType : Uuid
  uuidApplicationType : Uuid
  deriving DecidableEq

structure MessageError where
  sMessage : CString
  deriving DecidableEq

structure MessageTerminate where
  sTerminateReason : CString
  deriving DecidableEq

structure MessageCacheReq where
  uuidRequestor : Uuid
  pId : BlockId
  deriving DecidableEq

structure MessageCacheResp where
  pId : BlockId
  iSfFlags : UInt32
  iEntFlags : UInt32
  deriving DecidableEq

inductive Command
  | hello (message : MessageHello)
  | registrationRequest (message : MessageRegistrationRequest)
  | configurationUpdate (message : MessageConfigurationUpdate)
  | configurationAck (message : MessageConfigurationAck)
  | error (message : MessageError)
  | terminate (message : MessageTerminate)
  | cacheReq (message : MessageCacheReq)
  | cacheResp (message : MessageCacheResp)
  deriving DecidableEq

inductive CommandKind
  | hello | registrationRequest | configurationUpdate | configurationAck | error | terminate | cacheReq | cacheResp
  deriving DecidableEq, Repr

def Command.kind : Command → CommandKind
  | .hello _ => .hello
  | .registrationRequest _ => .registrationRequest
  | .configurationUpdate _ => .configurationUpdate
  | .configurationAck _ => .configurationAck
  | .error _ => .error
  | .terminate _ => .terminate
  | .cacheReq _ => .cacheReq
  | .cacheResp _ => .cacheResp

/-! ### The constructors -/

structure DispatcherContext where
  flags : UInt32
  priority : UInt8
  port : UInt16
  protocol : UInt8
  addressList : Option (List CString)

/-- What a hello message takes from `struct RazorbackContext`. -/
structure HelloContext where
  uuidNuggetId : Uuid
  uuidNuggetType : Uuid
  uuidApplicationType : Uuid
  locality : UInt8
  dispatcher : DispatcherContext

/-- Only a dispatcher fills in the fields behind the locality; `List_Clone` of NULL fails. -/
def helloInitialize (registry : Registry) (context : HelloContext) : Option MessageHello := do
  let message : MessageHello :=
    { uuidNuggetType := context.uuidNuggetType, uuidApplicationType := context.uuidApplicationType,
      locality := context.locality, priority := 0, flags := 0, addressList := none, protocol := 0, port := 0 }
  let isDispatcher ← isNamedUUID registry nuggetTypeDispatcher .nuggetType context.uuidNuggetType
  if isDispatcher then
    let addressList ← context.dispatcher.addressList
    some { message with flags := context.dispatcher.flags, priority := context.dispatcher.priority,
                        port := context.dispatcher.port, protocol := context.dispatcher.protocol,
                        addressList := some addressList }
  else some message

/-- The list has `dataTypeCount` entries of the caller's array. -/
def registrationRequestInitialize (nuggetType applicationType : Uuid) (dataTypeCount : UInt32)
    (dataTypeList : List Uuid) : MessageRegistrationRequest :=
  { uuidNuggetType := nuggetType, uuidApplicationType := applicationType,
    dataTypeList := dataTypeList.take dataTypeCount.toNat }

/-- `getList` is `UUID_Get_List`. -/
def configurationUpdateInitialize (getList : UuidType → List UUIDEntry) : MessageConfigurationUpdate :=
  { ntlvTypes := getList .ntlvType, ntlvNames := getList .ntlvName, dataTypes := getList .dataType }

def configurationAckInitialize (nuggetType applicationType : Uuid) : MessageConfigurationAck :=
  { uuidNuggetType := nuggetType, uuidApplicationType := applicationType }

def errorInitialize (sMessage : Option CString) : Option MessageError := sMessage.map .mk

def terminateInitialize (sTerminateReason : Option CString) : Option MessageTerminate := sTerminateReason.map .mk

def cacheReqInitialize (requestor : Uuid) (blockId : Option BlockId) : Option MessageCacheReq := do
  let blockId ← blockId
  let pId ← blockIdClone blockId
  some { uuidRequestor := requestor, pId }

def cacheRespInitialize (blockId : Option BlockId) (sfFlags entFlags : UInt32) : Option MessageCacheResp := do
  let blockId ← blockId
  let pId ← blockIdClone blockId
  some { pId, iSfFlags := sfFlags, iEntFlags := entFlags }

/-! ### Lists -/

section Lists

variable (lib : Libs)

@[simp] def putUint16 (parent : Fields) (name : String) (value : UInt16) : Fields :=
  putUint64 parent name value.toUInt64

def getUint16 (parent : Fields) (name : String) : Option UInt16 :=
  match get parent name with
  | some (.int value) => (parseUnsignedText (intText value) (2 ^ 16 - 1)).map UInt16.ofNat
  | _ => none

def stringListJson (list : List CString) : Json := .array (list.map stringJson)

def stringOfJson : Json → Option CString
  | .string text => some (cString text)
  | _ => none

def getStringList (parent : Fields) (name : String) : Option (List CString) :=
  match get parent name with
  | some (.array entries) => entries.mapM stringOfJson
  | _ => none

def uuidEntryJson (entry : UUIDEntry) : Option Json :=
  if entry.sName.bytes = [] then none
  else some (.object (putOptionalString (putString (putString [] "id" (lib.uuidUnparse entry.uuid)) "name" entry.sName)
    "description" entry.sDescription))

def uuidListJson (list : List UUIDEntry) : Option Json := (list.mapM (uuidEntryJson lib)).map .array

def putUUIDList (parent : Fields) (name : String) (list : List UUIDEntry) : Option Fields :=
  (uuidListJson lib list).map (add parent name)

def uuidEntryOfJson : Json → Option UUIDEntry
  | .object object => do
    let uuidS ← getString object "id"
    let sName ← getString object "name"
    if sName.bytes = [] then none
    else
      let sDescription ← getOptionalString object "description"
      let uuid ← lib.uuidParse uuidS
      some { uuid, sName, sDescription }
  | _ => none

def getUUIDList (parent : Fields) (name : String) : Option (List UUIDEntry) :=
  match get parent name with
  | some (.array entries) => entries.mapM (uuidEntryOfJson lib)
  | _ => none

def dataTypesJson (list : List Uuid) : Json := .array (list.map fun uuid => stringJson (lib.uuidUnparse uuid))

/-- `json_object_get_string`: the text of a value that is not a string is its JSON text. -/
def getStringOf : Json → Option CString
  | .null => none
  | .string text => some (cString text)
  | value => some (lib.jsonText .spaced value)

/-- The data types of a registration request; their count has 32 bits, without the field there are none. The length
of anything but an array is not defined. -/
def getDataTypes (msg : Fields) : Option (List Uuid) :=
  match get msg "Data_Types" with
  | none => some []
  | some (.array entries) =>
    (entries.take (entries.length % 2 ^ 32)).mapM fun item => (getStringOf lib item).bind lib.uuidParse
  | some _ => none

end Lists

/-! ### Serialize and deserialize -/

section Codec

variable (lib : Libs) (registry : Registry)

/-- The fields only a dispatcher sends. -/
def putDispatcher (msg : Fields) (hello : MessageHello) : Fields :=
  let msg := putUint8 msg "Priority" hello.priority
  let msg := putUint8 msg "Protocol" hello.protocol
  let msg := putUint16 msg "Port" hello.port
  let msg := putUint32 msg "Flags" hello.flags
  add msg "Address_List" (stringListJson (hello.addressList.getD []))

def readDispatcher (msg : Fields) (hello : MessageHello) : Option MessageHello := do
  let priority ← getUint8 msg "Priority"
  let protocol ← getUint8 msg "Protocol"
  let port ← getUint16 msg "Port"
  let flags ← getUint32 msg "Flags"
  let addressList ← getStringList msg "Address_List"
  some { hello with priority, protocol, port, flags, addressList := some addressList }

def commandFields : Command → Option Fields
  | .hello hello => do
    let msg := putUUID lib [] "Nugget_Type" hello.uuidNuggetType
    let msg := putUUID lib msg "App_Type" hello.uuidApplicationType
    let msg := putUint8 msg "Locality" hello.locality
    let isDispatcher ← isNamedUUID registry nuggetTypeDispatcher .nuggetType hello.uuidNuggetType
    some (if isDispatcher then putDispatcher msg hello else msg)
  | .registrationRequest regReq =>
    let msg := putUUID lib [] "Nugget_Type" regReq.uuidNuggetType
    let msg := putUUID lib msg "App_Type" regReq.uuidApplicationType
    some (add msg "Data_Types" (dataTypesJson lib regReq.dataTypeList))
  | .configurationUpdate configUpdate => do
    let msg ← putUUIDList lib [] "NTLV_Types" configUpdate.ntlvTypes
    let msg ← putUUIDList lib msg "NTLV_Names" configUpdate.ntlvNames
    putUUIDList lib msg "Data_Types" configUpdate.dataTypes
  | .configurationAck configAck =>
    let msg := putUUID lib [] "Nugget_Type" configAck.uuidNuggetType
    some (putUUID lib msg "App_Type" configAck.uuidApplicationType)
  | .error error => some (putString [] "Message" error.sMessage)
  | .terminate term => some (putString [] "Reason" term.sTerminateReason)
  | .cacheReq submit => putBlockId lib (putUUID lib [] "Requestor" submit.uuidRequestor) "Block_ID" submit.pId
  | .cacheResp submit => do
    let msg ← putBlockId lib [] "Block_ID" submit.pId
    let msg := putUint32 msg "SF_Flags" submit.iSfFlags
    some (putUint32 msg "Ent_Flags" submit.iEntFlags)

def serializeCommand (command : Command) : Option CString :=
  (commandFields lib registry command).map fun msg => lib.jsonText .spaced (.object msg)

def readCommand (kind : CommandKind) (msg : Fields) : Option Command :=
  match kind with
  | .hello => do
    let uuidNuggetType ← getUUID lib msg "Nugget_Type"
    let uuidApplicationType ← getUUID lib msg "App_Type"
    let locality ← getUint8 msg "Locality"
    let hello : MessageHello :=
      { uuidNuggetType, uuidApplicationType, locality, priority := 0, flags := 0, addressList := none, protocol := 0,
        port := 0 }
    let isDispatcher ← isNamedUUID registry nuggetTypeDispatcher .nuggetType uuidNuggetType
    if isDispatcher then (readDispatcher msg hello).map .hello else some (.hello hello)
  | .registrationRequest => do
    let uuidNuggetType ← getUUID lib msg "Nugget_Type"
    let uuidApplicationType ← getUUID lib msg "App_Type"
    let dataTypeList ← getDataTypes lib msg
    some (.registrationRequest { uuidNuggetType, uuidApplicationType, dataTypeList })
  | .configurationUpdate => do
    let ntlvTypes ← getUUIDList lib msg "NTLV_Types"
    let ntlvNames ← getUUIDList lib msg "NTLV_Names"
    let dataTypes ← getUUIDList lib msg "Data_Types"
    some (.configurationUpdate { ntlvTypes, ntlvNames, dataTypes })
  | .configurationAck => do
    let uuidNuggetType ← getUUID lib msg "Nugget_Type"
    let uuidApplicationType ← getUUID lib msg "App_Type"
    some (.configurationAck { uuidNuggetType, uuidApplicationType })
  | .error => do
    let sMessage ← getString msg "Message"
    some (.error { sMessage })
  | .terminate => do
    let sTerminateReason ← getString msg "Reason"
    some (.terminate { sTerminateReason })
  | .cacheReq => do
    let uuidRequestor ← getUUID lib msg "Requestor"
    let pId ← getBlockId lib msg "Block_ID"
    some (.cacheReq { uuidRequestor, pId })
  | .cacheResp => do
    let pId ← getBlockId lib msg "Block_ID"
    let iSfFlags ← getUint32 msg "SF_Flags"
    let iEntFlags ← getUint32 msg "Ent_Flags"
    some (.cacheResp { pId, iSfFlags, iEntFlags })

def deserializeCommand (kind : CommandKind) (text : CString) : Option Command :=
  match lib.tokenerParse text with
  | some (.object msg) => readCommand lib registry kind msg
  | _ => none

end Codec

/-- The commands the public constructors build; the digest of a block id has the length of its hash type. -/
inductive BuiltCommand (registry : Registry) : Command → Prop
  | hello {context message} : helloInitialize registry context = some message → BuiltCommand registry (.hello message)
  | registrationRequest (nuggetType applicationType dataTypeCount dataTypeList) :
      BuiltCommand registry
        (.registrationRequest (registrationRequestInitialize nuggetType applicationType dataTypeCount dataTypeList))
  | configurationUpdate (getList) :
      BuiltCommand registry (.configurationUpdate (configurationUpdateInitialize getList))
  | configurationAck (nuggetType applicationType) :
      BuiltCommand registry (.configurationAck (configurationAckInitialize nuggetType applicationType))
  | error {sMessage message} : errorInitialize sMessage = some message → BuiltCommand registry (.error message)
  | terminate {reason message} : terminateInitialize reason = some message → BuiltCommand registry (.terminate message)
  | cacheReq {requestor blockId message} : (∀ id ∈ blockId, ∀ hash ∈ id.pHash, Hash.Complete hash) →
      cacheReqInitialize requestor blockId = some message → BuiltCommand registry (.cacheReq message)
  | cacheResp {blockId sfFlags entFlags message} : (∀ id ∈ blockId, ∀ hash ∈ id.pHash, Hash.Complete hash) →
      cacheRespInitialize blockId sfFlags entFlags = some message → BuiltCommand registry (.cacheResp message)

end Razorback.Messages
