import Razorback.Records.Defs
import Razorback.Lists.Items

/-! The process-wide lists of named UUIDs of `uuids.c`. -/

namespace Razorback.Uuids
open Records

structure UUIDListNode where
  uuid : Uuid
  sName : String
  sDescription : Option String
  deriving DecidableEq, Repr

inductive UuidType
  | dataType | intelType | ntlvType | nugget | nuggetType | ntlvName
  deriving DecidableEq, Repr

abbrev Registry := UuidType → List UUIDListNode

inductive UUIDKey
  | name (name : String)
  | uuid (uuid : Uuid)

def uuidKeyCmp (key : UUIDKey) (current : UUIDListNode) : Bool :=
  match key with
  | .uuid uuid => uuid = current.uuid
  | .name name => name = current.sName

def getNodeByName (registry : Registry) (sName : String) (type : UuidType) : Option UUIDListNode :=
  Lists.find (uuidKeyCmp (.name sName)) (registry type)

def getNodeByUUID (registry : Registry) (uuid : Uuid) (type : UuidType) : Option UUIDListNode :=
  Lists.find (uuidKeyCmp (.uuid uuid)) (registry type)

def getUUID (registry : Registry) (sName : String) (type : UuidType) : Option Uuid :=
  (getNodeByName registry sName type).map UUIDListNode.uuid

def getNameByUUID (registry : Registry) (uuid : Uuid) (type : UuidType) : Option String :=
  (getNodeByUUID registry uuid type).map UUIDListNode.sName

/-- `UUID_Is_Named_UUID`: `none` if the name is not in the list. -/
def isNamedUUID (registry : Registry) (sName : String) (type : UuidType) (uuid : Uuid) : Option Bool :=
  (getUUID registry sName type).map fun named => named = uuid

def nuggetTypeDispatcher : String := "DISPATCHER"

end Razorback.Uuids
