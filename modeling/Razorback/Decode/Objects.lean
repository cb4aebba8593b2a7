import Razorback.Base.Heap
import Razorback.JsonBuffer.Objects
import Razorback.Messages.Commands

/-! The decoders of `json_buffer.c` with the heap objects they allocate and release, and with what they ask of json-c. A
structure is the pointers it holds; the values of its other fields are those of the readers of `JsonBuffer`. -/

namespace Razorback.Decode
open Records Text Uuids Heap
open JsonBuffer (Libs)
open Json (Fields)

/-- A call whose precondition is not met: of json-c on a value of another type, or of a function of the library with an
ASSERT. -/
inductive Fault
  | objectGet | arrayLength | blockIdDestroy | ntlvListAdd | uuidAddListEntry
  deriving DecidableEq, Repr

abbrev Prog := Heap.Prog Fault

/-! ### json-c -/

/-- What `json_object_object_get` finds fields in; of any other value it returns NULL. -/
def members : Json → Fields
  | .object fields => fields
  | _ => []

def isObject : Json → Bool
  | .object _ => true
  | _ => false

def needsObject (parent : Json) : Prog Unit := if isObject parent then pure () else fault .objectGet

def objectGet (parent : Json) (name : String) : Prog (Option Json) := do
  needsObject parent
  pure (Json.get (members parent) name)

def objectGetEx (parent : Json) (name : String) : Prog Bool := do
  needsObject parent
  pure (Json.has (members parent) name)

/-- `json_object_array_length`, and `json_object_array_get_idx` of the indexes below it. -/
def arrayEntries : Json → Prog (List (Option Json))
  | .array items => pure (items.map Json.nonNull)
  | _ => crash .arrayLength

/-! ### Single values -/

section Values

variable (lib : Libs) (parent : Json) (name : String)

def getNumber {α : Type} (read : Fields → String → Option α) : Prog (Option α) := do
  needsObject parent
  pure (read (members parent) name)

def getUint8 : Prog (Option UInt8) := getNumber parent name JsonBuffer.getUint8
def getUint16 : Prog (Option UInt16) := getNumber parent name Messages.getUint16
def getUint32 : Prog (Option UInt32) := getNumber parent name JsonBuffer.getUint32
def getUint64 : Prog (Option UInt64) := getNumber parent name JsonBuffer.getUint64

def copied : Option CString → Prog (Option (Address × CString))
  | some text => do
    let ret ← alloc
    pure (some (ret, text))
  | none => pure none

def getString : Prog (Option (Address × CString)) := do
  needsObject parent
  copied (JsonBuffer.getString (members parent) name)

def getJsonString : Prog (Option (Address × CString)) := do
  needsObject parent
  copied (JsonBuffer.getJsonString lib (members parent) name)

/-- `JsonBuffer_Get_OptionalString`: NULL without the field. -/
def getOptionalString : Prog (Option (Option Address)) := do
  match ← objectGet parent name with
  | none => pure (some none)
  | some _ =>
    match ← getString parent name with
    | some (text, _) => pure (some (some text))
    | none => pure none

/-- The buffer and the bytes in it; the two BIOs are freed either way. -/
def getByteArray : Prog (Option (Address × Bytes)) := do
  match ← objectGet parent name with
  | some (.string text) =>
    let output ← alloc
    let b64 ← alloc
    let bmem ← alloc
    match lib.base64Decode (cString text) with
    | some data =>
      free b64
      free bmem
      pure (some (output, data))
    | none =>
      free b64
      free bmem
      free output
      pure none
  | _ => pure none

def getObject : Prog (Option Fields) := do
  needsObject parent
  pure (Json.getObject (members parent) name)

def getUUID : Prog (Option Uuid) := do
  match ← getObject parent name with
  | some object =>
    match ← getString (.object object) "id" with
    | some (tmp, text) =>
      free tmp
      pure (lib.uuidParse text)
    | none => pure none
  | none => pure none

end Values

/-! ### Lists -/

/-- A list of mode GENERIC: the structure, its lock and its nodes. -/
structure ListPtr (α : Type) where
  addr : Address
  lock : Address
  nodes : List (Address × α)

section Lists

variable {α : Type}

def listCreate : Prog (ListPtr α) := do
  let addr ← alloc
  let lock ← alloc
  pure ⟨addr, lock, []⟩

def listPush (list : ListPtr α) (item : α) : Prog (ListPtr α) := do
  let node ← alloc
  pure { list with nodes := list.nodes ++ [(node, item)] }

def listClear (destroy : α → Prog Unit) : List (Address × α) → Prog Unit
  | [] => pure ()
  | (node, item) :: nodes => do
    destroy item
    free node
    listClear destroy nodes

def listDestroy (destroy : α → Prog Unit) (list : ListPtr α) : Prog Unit := do
  listClear destroy list.nodes
  free list.lock
  free list.addr

/-- The loops of the list decoders: an entry that is refused destroys the list. -/
def getList (destroy : α → Prog Unit) (round : Option Json → Step Fault (ListPtr α)) (parent : Json) (name : String) :
    Prog (Option (ListPtr α)) := do
  match ← objectGet parent name with
  | some (.array items) =>
    let list ← listCreate
    let entries ← arrayEntries (.array items)
    orDestroy (listDestroy destroy) (fill (entries.map round) list)
  | _ => pure none

end Lists

/-! ### Metadata -/

structure NTLVItemPtr where
  addr : Address
  pData : Address

def ntlvDelete (item : NTLVItemPtr) : Prog Unit := do
  free item.pData
  free item.addr

/-- `NTLVList_Add` asserts that there are bytes, and refuses none. -/
def ntlvListAdd (data : Bytes) : Step Fault (ListPtr NTLVItemPtr) := fun list => do
  if data = [] then
    fault .ntlvListAdd
    pure (false, list)
  else
    let addr ← alloc
    let pData ← alloc
    let list ← listPush list ⟨addr, pData⟩
    pure (true, list)

section Metadata

variable (lib : Libs) (registry : Registry)

def stringValue (type : Uuid) (str : CString) : Option Bytes :=
  if JsonBuffer.isString registry type then some str.terminated
  else if JsonBuffer.ntlvTypeUsesJsonValue registry type then none
  else (JsonBuffer.scalarOf registry type).bind fun scalar => scalar.scan lib str

def jsonValue (type : Uuid) (str : CString) : Option Bytes :=
  if JsonBuffer.ntlvTypeUsesJsonValue registry type then some str.terminated else none

def binValue (type : Uuid) (data : Bytes) : Option Bytes :=
  if JsonBuffer.ntlvTypeUsesStringValue registry type || JsonBuffer.ntlvTypeUsesJsonValue registry type then none
  else some data

/-- The end of `JsonBuffer_Get_NTLVItem`: the buffer is freed whether or not its value is added. -/
def addAndFree {β : Type} (read : Option (Address × β)) (convert : β → Option Bytes) :
    Step Fault (ListPtr NTLVItemPtr) := fun list =>
  match read with
  | none => pure (false, list)
  | some (buffer, raw) => do
    let result ← (match convert raw with
      | some data => ntlvListAdd data list
      | none => pure (false, list))
    free buffer
    pure result

def getNTLVItem (parent : Json) : Step Fault (ListPtr NTLVItemPtr) := fun list => do
  match ← getUUID lib parent "Name" with
  | none => pure (false, list)
  | some _ =>
    match ← getUUID lib parent "Type" with
    | none => pure (false, list)
    | some type =>
      let hasStringValue ← objectGetEx parent "String_Value"
      let hasBinValue ← objectGetEx parent "Bin_Value"
      let hasJsonValue ← objectGetEx parent "Json_Value"
      match hasStringValue, hasBinValue, hasJsonValue with
      | true, false, false => do
        let str ← getString parent "String_Value"
        addAndFree str (stringValue lib registry type) list
      | false, true, false => do
        let byteData ← getByteArray lib parent "Bin_Value"
        addAndFree byteData (binValue registry type) list
      | false, false, true => do
        let str ← getJsonString lib parent "Json_Value"
        addAndFree str (jsonValue registry type) list
      | _, _, _ => pure (false, list)

/-- One round of `JsonBuffer_Get_NTLVList`. -/
def ntlvRound : Option Json → Step Fault (ListPtr NTLVItemPtr)
  | some (.object entry) => getNTLVItem lib registry (.object entry)
  | _ => fun list => pure (false, list)

def getNTLVList (parent : Json) (name : String) : Prog (Option (ListPtr NTLVItemPtr)) :=
  getList ntlvDelete (ntlvRound lib registry) parent name

end Metadata

/-! ### Lists of UUIDs and of strings -/

structure UUIDListNodePtr where
  addr : Address
  sName : Address
  sDescription : Option Address

def uuidDestroy (current : UUIDListNodePtr) : Prog Unit := do
  free current.sName
  unlessNull free current.sDescription
  free current.addr

/-- `UUID_Add_List_Entry` asserts that the name is not empty, and refuses one that is. -/
def uuidAddListEntry (name : CString) (description : Option Address) : Step Fault (ListPtr UUIDListNodePtr) := fun list => do
  if name.bytes = [] then
    fault .uuidAddListEntry
    pure (false, list)
  else
    let addr ← alloc
    let sName ← alloc
    match description with
    | none =>
      let list ← listPush list ⟨addr, sName, none⟩
      pure (true, list)
    | some _ =>
      let sDescription ← alloc
      let list ← listPush list ⟨addr, sName, some sDescription⟩
      pure (true, list)

/-- One round of `JsonBuffer_Get_UUIDList`: its three texts are freed on every way out. -/
def uuidRound (lib : Libs) : Option Json → Step Fault (ListPtr UUIDListNodePtr)
  | some (.object object) => fun list => do
    match ← getString (.object object) "id" with
    | none => pure (false, list)
    | some (uuidS, idText) =>
      match ← getString (.object object) "name" with
      | none =>
        free uuidS
        pure (false, list)
      | some (nameS, nameText) =>
        if nameText.bytes = [] then
          free nameS
          free uuidS
          pure (false, list)
        else
          match ← getOptionalString (.object object) "description" with
          | none =>
            free uuidS
            free nameS
            pure (false, list)
          | some desc =>
            let result ← (match lib.uuidParse idText with
              | none => pure (false, list)
              | some _ => uuidAddListEntry nameText desc list)
            unlessNull free desc
            free nameS
            free uuidS
            pure result
  | _ => fun list => pure (false, list)

def getUUIDList (lib : Libs) (parent : Json) (name : String) : Prog (Option (ListPtr UUIDListNodePtr)) :=
  getList uuidDestroy (uuidRound lib) parent name

/-- One round of `JsonBuffer_Get_StringList`. -/
def stringRound : Option Json → Step Fault (ListPtr Address)
  | some (.string _) => fun list => do
    let string ← alloc
    let list ← listPush list string
    pure (true, list)
  | _ => fun list => pure (false, list)

def getStringList (parent : Json) (name : String) : Prog (Option (ListPtr Address)) :=
  getList free stringRound parent name

/-- The array, which is NULL if there are no entries. -/
def getUint8List (parent : Json) (name : String) : Prog (Option (Option Address)) := do
  match ← objectGet parent name with
  | some (.array entries) =>
    if entries.length % 2 ^ 32 = 0 then pure (some none)
    else
      let items ← alloc
      if ((entries.take (entries.length % 2 ^ 32)).mapM Messages.uint8OfJson).isSome then pure (some (some items))
      else
        free items
        pure none
  | _ => pure none

/-! ### Hashes and ids -/

/-- The context and the digest's method of a hash that is read are NULL. -/
structure HashPtr where
  addr : Address
  pData : Address

def hashDestroy (hash : HashPtr) : Prog Unit := do
  free hash.pData
  free hash.addr

def getHash (parent : Json) (name : String) : Prog (Option HashPtr) := do
  needsObject parent
  match JsonBuffer.getHash (members parent) name with
  | some _ =>
    let addr ← alloc
    let pData ← alloc
    pure (some ⟨addr, pData⟩)
  | none => pure none

structure BlockIdPtr where
  addr : Address
  pHash : Option HashPtr

/-- `BlockId_Destroy` of a pointer that is not NULL. -/
def blockIdDestroy (id : BlockIdPtr) : Prog Unit := do
  unlessNull hashDestroy id.pHash
  free id.addr

section Ids

variable (lib : Libs)

def getBlockId (parent : Json) (name : String) : Prog (Option BlockIdPtr) := do
  match ← getObject parent name with
  | none => pure none
  | some object =>
    construct (fun addr => ⟨addr, none⟩) blockIdDestroy
      [slot (fun id hash => { id with pHash := some hash }) (getHash (.object object) "Hash"),
        value (getUint64 (.object object) "Size"),
        value (getUUID lib (.object object) "Data_Type")]

def getEventId (parent : Json) (name : String) : Prog (Option Address) := do
  match ← getObject parent name with
  | none => pure none
  | some object =>
    match ← getObject (.object object) "Nugget" with
    | none => pure none
    | some nugget =>
      construct id free
        [value (getUUID lib (.object nugget) "Id"),
          value (getUint64 (.object object) "Seconds"),
          value (getUint64 (.object object) "Nano_Seconds")]

end Ids

/-! ### Blocks and events -/

/-- A block that was read has its id. -/
structure BlockPtr where
  addr : Address
  pId : BlockIdPtr
  pParentId : Option BlockIdPtr
  pParentBlock : Option BlockPtr
  pMetaDataList : Option (ListPtr NTLVItemPtr)

/-- `BlockId_Destroy`, which asserts that there is an id. -/
def blockIdDestroyChecked : Option BlockIdPtr → Prog Unit
  | none => fault .blockIdDestroy
  | some id => blockIdDestroy id

/-- `Block_Destroy`: the id is destroyed without a look, the parent block not at all. -/
def blockDestroyParts (addr : Address) (pId pParentId : Option BlockIdPtr)
    (pMetaDataList : Option (ListPtr NTLVItemPtr)) : Prog Unit := do
  blockIdDestroyChecked pId
  unlessNull blockIdDestroy pParentId
  unlessNull (listDestroy ntlvDelete) pMetaDataList
  free addr

def blockDestroy (block : BlockPtr) : Prog Unit :=
  blockDestroyParts block.addr (some block.pId) block.pParentId block.pMetaDataList

structure EventPtr where
  addr : Address
  pId : Option Address
  pParentId : Option Address
  pParent : Option EventPtr
  pMetaDataList : Option (ListPtr NTLVItemPtr)
  pBlock : Option BlockPtr

def eventDestroy : EventPtr → Prog Unit
  | ⟨addr, pId, pParentId, pParent, pMetaDataList, pBlock⟩ => do
    unlessNull free pId
    unlessNull blockDestroy pBlock
    unlessNull (listDestroy ntlvDelete) pMetaDataList
    match pParent with
    | none => pure ()
    | some parent => eventDestroy parent
    unlessNull free pParentId
    free addr

section Nested

variable (lib : Libs) (registry : Registry)

def ifPresent {σ : Type} (object : Fields) (name : String) (step : Step Fault σ) : Step Fault σ :=
  ifSome (objectGet (.object object) name) step skip

def blockParentId (object : Fields) : Step Fault BlockPtr :=
  ifPresent object "Parent_Id"
    (slot (fun block id => { block with pParentId := some id }) (getBlockId lib (.object object) "Parent_Id"))

def blockParent (object : Fields) (read : Prog (Option BlockPtr)) : Step Fault BlockPtr :=
  ifPresent object "Parent" (slot (fun block parent => { block with pParentBlock := some parent }) read)

def blockMetadata (object : Fields) : Step Fault BlockPtr :=
  ifPresent object "Metadata"
    (slot (fun block list => { block with pMetaDataList := some list })
      (getNTLVList lib registry (.object object) "Metadata"))

/-- The block in an object. A block without an id is destroyed as it was allocated. -/
def readBlock (object : Fields) : Prog (Option BlockPtr) := do
  let addr ← alloc
  match ← getBlockId lib (.object object) "Id" with
  | none =>
    blockDestroyParts addr none none none
    pure none
  | some pId =>
    orDestroy blockDestroy (fill
      [blockParentId lib object,
        blockParent object
          (match _h : Json.getObject object "Parent" with
            | some parent => readBlock parent
            | none => pure none),
        blockMetadata lib registry object]
      ⟨addr, pId, none, none, none⟩)
termination_by sizeOf object
decreasing_by exact Json.sizeOf_getObject_lt _h

def getBlock (parent : Json) (name : String) : Prog (Option BlockPtr) := do
  match ← getObject parent name with
  | none => pure none
  | some object => readBlock lib registry object

def eventParentId (object : Fields) : Step Fault EventPtr :=
  ifPresent object "Parent_Id"
    (slot (fun event id => { event with pParentId := some id }) (getEventId lib (.object object) "Parent_Id"))

def eventParent (object : Fields) (read : Prog (Option EventPtr)) : Step Fault EventPtr :=
  ifPresent object "Parent" (slot (fun event parent => { event with pParent := some parent }) read)

/-- Without the field the event gets an empty list. -/
def eventMetadata (object : Fields) : Step Fault EventPtr :=
  ifSome (objectGet (.object object) "Metadata")
    (slot (fun event list => { event with pMetaDataList := some list })
      (getNTLVList lib registry (.object object) "Metadata"))
    (slot (fun event list => { event with pMetaDataList := some list }) (do
      let list ← listCreate
      pure (some list)))

def eventBlock (object : Fields) : Step Fault EventPtr :=
  ifPresent object "Block"
    (slot (fun event block => { event with pBlock := some block }) (getBlock lib registry (.object object) "Block"))

def readEvent (object : Fields) : Prog (Option EventPtr) :=
  construct (fun addr => ⟨addr, none, none, none, none, none⟩) eventDestroy
    [slot (fun event id => { event with pId := some id }) (getEventId lib (.object object) "Id"),
      eventParentId lib object,
      eventParent object
        (match _h : Json.getObject object "Parent" with
          | some parent => readEvent parent
          | none => pure none),
      eventMetadata lib registry object,
      eventBlock lib registry object]
termination_by sizeOf object
decreasing_by exact Json.sizeOf_getObject_lt _h

def getEvent (parent : Json) (name : String) : Prog (Option EventPtr) := do
  match ← getObject parent name with
  | none => pure none
  | some object => readEvent lib registry object

end Nested

/-! ### Judgments and nuggets -/

structure JudgmentPtr where
  addr : Address
  pEventId : Option Address
  pBlockId : Option BlockIdPtr
  pMetaDataList : Option (ListPtr NTLVItemPtr)
  sMessage : Option Address

def judgmentDestroy (judgment : JudgmentPtr) : Prog Unit := do
  unlessNull free judgment.pEventId
  unlessNull blockIdDestroy judgment.pBlockId
  unlessNull (listDestroy ntlvDelete) judgment.pMetaDataList
  unlessNull free judgment.sMessage
  free judgment.addr

/-- The notes of a nugget are not read. -/
structure NuggetPtr where
  addr : Address
  sName : Option Address
  sLocation : Option Address
  sContact : Option Address

def nuggetDestroy (nugget : NuggetPtr) : Prog Unit := do
  unlessNull free nugget.sName
  unlessNull free nugget.sLocation
  unlessNull free nugget.sContact
  free nugget.addr

section Judgments

variable (lib : Libs) (registry : Registry)

def judgmentFields (object : Fields) : List (Step Fault JudgmentPtr) :=
  [value (getUUID lib (.object object) "Nugget_ID"),
    value (getUint64 (.object object) "Seconds"),
    value (getUint64 (.object object) "Nano_Seconds"),
    slot (fun judgment id => { judgment with pEventId := some id }) (getEventId lib (.object object) "Event_ID"),
    slot (fun judgment id => { judgment with pBlockId := some id }) (getBlockId lib (.object object) "Block_ID"),
    value (getUint8 (.object object) "Priority"),
    slot (fun judgment list => { judgment with pMetaDataList := some list })
      (getNTLVList lib registry (.object object) "Metadata"),
    value (getUint32 (.object object) "GID"),
    value (getUint32 (.object object) "SID"),
    value (getUint32 (.object object) "Set_SF_Flags"),
    value (getUint32 (.object object) "Set_Ent_Flags"),
    value (getUint32 (.object object) "Unset_SF_Flags"),
    value (getUint32 (.object object) "Unset_Ent_Flags"),
    slot (fun judgment message => { judgment with sMessage := message })
      (getOptionalString (.object object) "Message")]

def getJudgment (parent : Json) (name : String) : Prog (Option JudgmentPtr) := do
  match ← getObject parent name with
  | none => pure none
  | some object =>
    construct (fun addr => ⟨addr, none, none, none, none⟩) judgmentDestroy (judgmentFields lib registry object)

def getNugget (parent : Json) (name : String) : Prog (Option NuggetPtr) := do
  match ← getObject parent name with
  | none => pure none
  | some object =>
    construct (fun addr => ⟨addr, none, none, none⟩) nuggetDestroy
      [value (getUUID lib (.object object) "Nugget_ID"),
        value (getUUID lib (.object object) "App_Type"),
        value (getUUID lib (.object object) "Nugget_Type"),
        slot (fun nugget text => { nugget with sName := text }) (getOptionalString (.object object) "Name"),
        slot (fun nugget text => { nugget with sLocation := text }) (getOptionalString (.object object) "Location"),
        slot (fun nugget text => { nugget with sContact := text }) (getOptionalString (.object object) "Contact")]

end Judgments

end Razorback.Decode
