import Razorback.JsonBuffer.Metadata
import Razorback.Records.Hashes

/-! The objects of `json_buffer.c`: hashes, block and event ids, blocks, events, judgments and nuggets. -/

namespace Razorback.JsonBuffer
open Records Text Uuids
open Json (Fields add get getObject)

/-! ### Hashes and ids -/

def ascii (text : String) : CString := cString (text.toList.map Char.toUInt8)

/-- The names `JsonBuffer_Put_Hash` writes. -/
def hashTypeName (type : UInt32) : Option CString :=
  if type = hashTypeMD5 then some (ascii "MD5")
  else if type = hashTypeSHA1 then some (ascii "SHA1")
  else if type = hashTypeSHA224 then some (ascii "SHA224")
  else if type = hashTypeSHA256 then some (ascii "SHA256")
  else if type = hashTypeSHA512 then some (ascii "SHA512")
  else none

def hashJson (hash : Hash) : Option Json := do
  let typeName ← hashTypeName hash.iType
  let hashText ← hashToText hash
  some (.object (add (putString [] "Type" typeName) "Value" (.string hashText)))

/-- The comparisons of `JsonBuffer_Get_Hash`. -/
def hashOfTypeName (type data : CString) : Option Hash :=
  if type = ascii "MD5" then hashCreateFromString hashTypeMD5 data
  else if type = ascii "SHA1" then hashCreateFromString hashTypeSHA1 data
  else if type = ascii "SHA224" then hashCreateFromString hashTypeSHA224 data
  else if type = ascii "SHA256" then hashCreateFromString hashTypeSHA256 data
  else if type = ascii "SHA512" then hashCreateFromString hashTypeSHA512 data
  else none

def getHash (parent : Fields) (name : String) : Option Hash := do
  let object ← getObject parent name
  let type ← getString object "Type"
  let data ← getString object "Value"
  hashOfTypeName type data

/-- A block id whose hash is NULL has no encoding: the hash is read without a check. -/
def blockIdJson (lib : Libs) (id : BlockId) : Option Json := do
  let hash ← id.pHash
  let hash ← hashJson hash
  some (.object (putUUID lib (putUint64 (add [] "Hash" hash) "Size" id.iLength) "Data_Type" id.uuidDataType))

def putBlockId (lib : Libs) (parent : Fields) (name : String) (id : BlockId) : Option Fields :=
  (blockIdJson lib id).map (add parent name)

def getBlockId (lib : Libs) (parent : Fields) (name : String) : Option BlockId := do
  let object ← getObject parent name
  let pHash ← getHash object "Hash"
  let iLength ← getUint64 object "Size"
  let uuidDataType ← getUUID lib object "Data_Type"
  some { pHash := some pHash, uuidDataType, iLength }

def eventIdJson (lib : Libs) (id : EventId) : Json :=
  .object (putUint64 (putUint64 (add [] "Nugget" (.object (putUUID lib [] "Id" id.uuidNuggetId)))
    "Seconds" id.iSeconds) "Nano_Seconds" id.iNanoSecs)

@[simp] def putEventId (lib : Libs) (parent : Fields) (name : String) (id : EventId) : Fields :=
  add parent name (eventIdJson lib id)

def getEventId (lib : Libs) (parent : Fields) (name : String) : Option EventId := do
  let object ← getObject parent name
  let nugget ← getObject object "Nugget"
  let uuidNuggetId ← getUUID lib nugget "Id"
  let iSeconds ← getUint64 object "Seconds"
  let iNanoSecs ← getUint64 object "Nano_Seconds"
  some { uuidNuggetId, iSeconds, iNanoSecs }

/-! ### Blocks and events -/

def blockJson (lib : Libs) (registry : Registry) : Block → Option Json
  | .mk pId pParentId pParentBlock pMetaDataList => do
    let id ← blockIdJson lib pId
    let parentId ← pParentId.mapM (blockIdJson lib)
    let parent ← (match pParentBlock with
      | none => some none
      | some parentBlock => (blockJson lib registry parentBlock).map some)
    let metadata ← pMetaDataList.mapM (ntlvListJson lib registry)
    some (.object (addOptional (addOptional (addOptional (add [] "Id" id)
      "Parent_Id" parentId) "Parent" parent) "Metadata" metadata))

def putBlock (lib : Libs) (registry : Registry) (parent : Fields) (name : String) (block : Block) : Option Fields :=
  (blockJson lib registry block).map (add parent name)

/-- The block in an object; without `Metadata` its list stays NULL. -/
def readBlock (lib : Libs) (registry : Registry) (object : Fields) : Option Block := do
  let pId ← getBlockId lib object "Id"
  let pParentId ← getOptional (getBlockId lib) object "Parent_Id"
  let pParentBlock ← (match get object "Parent" with
    | none => some none
    | some _ => match _h : getObject object "Parent" with
      | some parent => (readBlock lib registry parent).map some
      | none => none)
  let pMetaDataList ← getOptional (getNTLVList lib registry) object "Metadata"
  some (.mk pId pParentId pParentBlock pMetaDataList)
termination_by sizeOf object
decreasing_by exact Json.sizeOf_getObject_lt _h

def getBlock (lib : Libs) (registry : Registry) (parent : Fields) (name : String) : Option Block :=
  (getObject parent name).bind (readBlock lib registry)

def eventJson (lib : Libs) (registry : Registry) : Event → Option Json
  | .mk pId pParentId pParent _ pBlock pMetaDataList => do
    let parent ← (match pParent with
      | none => some none
      | some parentEvent => (eventJson lib registry parentEvent).map some)
    let metadata ← pMetaDataList.mapM (ntlvListJson lib registry)
    let block ← pBlock.mapM (blockJson lib registry)
    some (.object (addOptional (addOptional (addOptional (addOptional (putEventId lib [] "Id" pId)
      "Parent_Id" (pParentId.map (eventIdJson lib))) "Parent" parent) "Metadata" metadata) "Block" block))

def putEvent (lib : Libs) (registry : Registry) (parent : Fields) (name : String) (event : Event) : Option Fields :=
  (eventJson lib registry event).map (add parent name)

/-- The event in an object; without `Metadata` it gets an empty list. -/
def readEvent (lib : Libs) (registry : Registry) (object : Fields) : Option Event := do
  let pId ← getEventId lib object "Id"
  let pParentId ← getOptional (getEventId lib) object "Parent_Id"
  let pParent ← (match get object "Parent" with
    | none => some none
    | some _ => match _h : getObject object "Parent" with
      | some parent => (readEvent lib registry parent).map some
      | none => none)
  let pMetaDataList ← getOptional (getNTLVList lib registry) object "Metadata"
  let pBlock ← getOptional (getBlock lib registry) object "Block"
  some (.mk pId pParentId pParent 0 pBlock (some (pMetaDataList.getD [])))
termination_by sizeOf object
decreasing_by exact Json.sizeOf_getObject_lt _h

def getEvent (lib : Libs) (registry : Registry) (parent : Fields) (name : String) : Option Event :=
  (getObject parent name).bind (readEvent lib registry)

/-! ### Judgments and nuggets -/

/-- `JsonBuffer_Put_JudgmentFields`; the ids are read without a check for NULL. -/
def putJudgmentFields (lib : Libs) (registry : Registry) (parent : Fields) (judgment : Judgment) : Option Fields := do
  let parent := putUUID lib parent "Nugget_ID" judgment.uuidNuggetId
  let parent := putUint64 parent "Seconds" judgment.iSeconds
  let parent := putUint64 parent "Nano_Seconds" judgment.iNanoSecs
  let parent := putEventId lib parent "Event_ID" (← judgment.pEventId)
  let parent ← putBlockId lib parent "Block_ID" (← judgment.pBlockId)
  let parent := putUint8 parent "Priority" judgment.iPriority
  let parent ← putNTLVList lib registry parent "Metadata" judgment.pMetaDataList
  let parent := putUint32 parent "GID" judgment.iGID
  let parent := putUint32 parent "SID" judgment.iSID
  let parent := putUint32 parent "Set_SF_Flags" judgment.setSfFlags
  let parent := putUint32 parent "Set_Ent_Flags" judgment.setEntFlags
  let parent := putUint32 parent "Unset_SF_Flags" judgment.unsetSfFlags
  let parent := putUint32 parent "Unset_Ent_Flags" judgment.unsetEntFlags
  some (putOptionalString parent "Message" judgment.sMessage)

def putJudgment (lib : Libs) (registry : Registry) (parent : Fields) (name : String) (judgment : Judgment) :
    Option Fields :=
  (putJudgmentFields lib registry [] judgment).map fun object => add parent name (.object object)

def getJudgment (lib : Libs) (registry : Registry) (parent : Fields) (name : String) : Option Judgment := do
  let object ← getObject parent name
  let uuidNuggetId ← getUUID lib object "Nugget_ID"
  let iSeconds ← getUint64 object "Seconds"
  let iNanoSecs ← getUint64 object "Nano_Seconds"
  let pEventId ← getEventId lib object "Event_ID"
  let pBlockId ← getBlockId lib object "Block_ID"
  let iPriority ← getUint8 object "Priority"
  let pMetaDataList ← getNTLVList lib registry object "Metadata"
  let iGID ← getUint32 object "GID"
  let iSID ← getUint32 object "SID"
  let setSfFlags ← getUint32 object "Set_SF_Flags"
  let setEntFlags ← getUint32 object "Set_Ent_Flags"
  let unsetSfFlags ← getUint32 object "Unset_SF_Flags"
  let unsetEntFlags ← getUint32 object "Unset_Ent_Flags"
  let sMessage ← getOptionalString object "Message"
  some { uuidNuggetId, iSeconds, iNanoSecs, pEventId := some pEventId, pBlockId := some pBlockId, iPriority,
         pMetaDataList := some pMetaDataList, iGID, iSID, setSfFlags, setEntFlags, unsetSfFlags, unsetEntFlags,
         sMessage }

def nuggetJson (lib : Libs) (nugget : Nugget) : Json :=
  let object := putUUID lib [] "Nugget_ID" nugget.uuidNuggetId
  let object := putUUID lib object "App_Type" nugget.uuidApplicationType
  let object := putUUID lib object "Nugget_Type" nugget.uuidNuggetType
  let object := putOptionalString object "Name" nugget.sName
  let object := putOptionalString object "Location" nugget.sLocation
  .object (putOptionalString object "Contact" nugget.sContact)

@[simp] def putNugget (lib : Libs) (parent : Fields) (name : String) (nugget : Nugget) : Fields :=
  add parent name (nuggetJson lib nugget)

def getNugget (lib : Libs) (parent : Fields) (name : String) : Option Nugget := do
  let object ← getObject parent name
  let uuidNuggetId ← getUUID lib object "Nugget_ID"
  let uuidApplicationType ← getUUID lib object "App_Type"
  let uuidNuggetType ← getUUID lib object "Nugget_Type"
  let sName ← getOptionalString object "Name"
  let sLocation ← getOptionalString object "Location"
  let sContact ← getOptionalString object "Contact"
  some { uuidNuggetId, uuidApplicationType, uuidNuggetType, sName, sLocation, sContact }

end Razorback.JsonBuffer
