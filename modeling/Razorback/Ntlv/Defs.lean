import Razorback.JsonBuffer.Metadata
import Razorback.Messages.Headers

/-! Metadata lists as `ntvl.c` and `metadata.c` handle them: the comparators that the list functions are given, the
lookup by name and type, and the helpers that add and get one kind of value. A function that fails has no result. -/

namespace Razorback.Ntlv
open Records Text Uuids
open JsonBuffer (ntlvListAdd)

/-! ### The comparators -/

/-- `NTLV_KeyCmp` with result zero: the type of the key is held against the name of the item. -/
def ntlvKeyCmp (name type : Uuid) (item : NTLVItem) : Bool := name = item.uuidName || type = item.uuidName

/-- `NTLV_Cmp` of two distinct items with result zero. -/
def ntlvCmp (a b : NTLVItem) : Bool := a.uuidName = b.uuidName || a.uuidType = b.uuidType

/-- `MessageHeader_Cmp` of two distinct headers with result zero: the first name is compared with itself. -/
def messageHeaderCmp (a b : Messages.MessageHeader) : Bool := a.sName = a.sName || a.sValue = b.sValue

/-! ### Lookup and insertion -/

def ntlvListGet (list : List NTLVItem) (name type : Uuid) : Option (ℕ × Bytes) :=
  (Lists.find (ntlvKeyCmp name type) list).map fun item => (item.pData.length, item.pData)

def lookup {β : Type} (registry : Registry) (sName : String) (kind : UuidType) (f : Uuid → Option β) : Option β :=
  (getUUID registry sName kind).bind f

def metadataAdd (list : List NTLVItem) (name type : Uuid) (data : Bytes) : Option (List NTLVItem) :=
  ntlvListAdd list name type data

def metadataGet (list : List NTLVItem) (name type : Uuid) : Option (ℕ × Bytes) := ntlvListGet list name type

/-! ### One kind of value -/

/-- An address that the caller hands over as a pointer to that many bytes. -/
def Address (size : ℕ) : Type := { bytes : Bytes // bytes.length = size }

def portBytes (port : UInt16) : Bytes := [UInt8.ofNat (port.toNat % 256), UInt8.ofNat (port.toNat / 256)]

/-- The `uint16_t` at the head of a buffer; a shorter buffer is read past its end. -/
def readPort : Bytes → Option UInt16
  | low :: high :: _ => some (UInt16.ofNat (low.toNat + 256 * high.toNat))
  | _ => none

/-- The bytes of a string that a `uint32_t` size lets through. -/
def sized (data : Bytes) : Bytes := data.take (data.length % 2 ^ 32)

section Helpers

variable (registry : Registry)

def addOfType (typeName : String) (list : List NTLVItem) (name : Uuid) (data : Bytes) : Option (List NTLVItem) :=
  lookup registry typeName .ntlvType fun type => metadataAdd list name type data

def getOfType (typeName : String) (list : List NTLVItem) (name : Uuid) : Option (ℕ × Bytes) :=
  lookup registry typeName .ntlvType fun type => metadataGet list name type

def metadataAddString (list : List NTLVItem) (name : Uuid) (string : CString) : Option (List NTLVItem) :=
  addOfType registry "STRING" list name (sized string.terminated)

def metadataGetString (list : List NTLVItem) (name : Uuid) : Option (ℕ × Bytes) := getOfType registry "STRING" list name

def metadataAddIPv4 (list : List NTLVItem) (name : Uuid) (addr : Address 4) : Option (List NTLVItem) :=
  addOfType registry "IPv4_ADDR" list name addr.1

def metadataGetIPv4 (list : List NTLVItem) (name : Uuid) : Option Bytes :=
  (getOfType registry "IPv4_ADDR" list name).map Prod.snd

def metadataAddIPv6 (list : List NTLVItem) (name : Uuid) (addr : Address 16) : Option (List NTLVItem) :=
  addOfType registry "IPv6_ADDR" list name addr.1

def metadataGetIPv6 (list : List NTLVItem) (name : Uuid) : Option Bytes :=
  (getOfType registry "IPv6_ADDR" list name).map Prod.snd

def metadataAddPort (list : List NTLVItem) (name : Uuid) (port : UInt16) : Option (List NTLVItem) :=
  addOfType registry "PORT" list name (portBytes port)

/-- The value that `Metadata_Get_Port` hands out; what it does to the buffer is in `Buffers`. -/
def metadataGetPort (list : List NTLVItem) (name : Uuid) : Option UInt16 :=
  (getOfType registry "PORT" list name).bind fun found => readPort found.2

/-! ### Values of a standard name -/

def addText (sName : String) (list : List NTLVItem) (text : CString) : Option (List NTLVItem) :=
  lookup registry sName .ntlvName fun name => metadataAddString registry list name text

def metadataAddFilename := addText registry "FILENAME"
def metadataAddHostname := addText registry "HOSTNAME"
def metadataAddURI := addText registry "URI"
def metadataAddHttpRequest := addText registry "HTTP_REQUEST"
def metadataAddHttpResponse := addText registry "HTTP_RESPONSE"
def metadataAddReport := addText registry "REPORT"
def metadataAddCVE := addText registry "CVE"
def metadataAddBID := addText registry "BID"
def metadataAddOSVDB := addText registry "OSVDB"

def malwareText (vendor name : CString) : CString where
  bytes := vendor.bytes ++ ':'.toUInt8 :: name.bytes
  noNul := by
    intro h
    rcases List.mem_append.mp h with h | h
    · exact vendor.noNul h
    · rcases List.mem_cons.mp h with h | h
      · exact absurd h (by decide)
      · exact name.noNul h

def metadataAddMalwareName (list : List NTLVItem) (vendor name : CString) : Option (List NTLVItem) :=
  addText registry "MALWARENAME" list (malwareText vendor name)

def metadataAddIPv4Source (list : List NTLVItem) (addr : Address 4) : Option (List NTLVItem) :=
  lookup registry "SOURCE" .ntlvName fun name => metadataAddIPv4 registry list name addr

def metadataGetIPv4Source (list : List NTLVItem) : Option Bytes :=
  lookup registry "SOURCE" .ntlvName fun name => metadataGetIPv4 registry list name

def metadataAddIPv4Destination (list : List NTLVItem) (addr : Address 4) : Option (List NTLVItem) :=
  lookup registry "DEST" .ntlvName fun name => metadataAddIPv4 registry list name addr

def metadataGetIPv4Destination (list : List NTLVItem) : Option Bytes :=
  lookup registry "DEST" .ntlvName fun name => metadataGetIPv4 registry list name

def metadataAddIPv6Source (list : List NTLVItem) (addr : Address 16) : Option (List NTLVItem) :=
  lookup registry "SOURCE" .ntlvName fun name => metadataAddIPv6 registry list name addr

def metadataGetIPv6Source (list : List NTLVItem) : Option Bytes :=
  lookup registry "SOURCE" .ntlvName fun name => metadataGetIPv6 registry list name

def metadataAddIPv6Destination (list : List NTLVItem) (addr : Address 16) : Option (List NTLVItem) :=
  lookup registry "DEST" .ntlvName fun name => metadataAddIPv6 registry list name addr

def metadataGetIPv6Destination (list : List NTLVItem) : Option Bytes :=
  lookup registry "DEST" .ntlvName fun name => metadataGetIPv6 registry list name

def metadataAddPortSource (list : List NTLVItem) (addr : UInt16) : Option (List NTLVItem) :=
  lookup registry "SOURCE" .ntlvName fun name => metadataAddPort registry list name addr

def metadataGetPortSource (list : List NTLVItem) : Option UInt16 :=
  lookup registry "SOURCE" .ntlvName fun name => metadataGetPort registry list name

def metadataAddPortDestination (list : List NTLVItem) (addr : UInt16) : Option (List NTLVItem) :=
  lookup registry "DEST" .ntlvName fun name => metadataAddPort registry list name addr

def metadataGetPortDestination (list : List NTLVItem) : Option UInt16 :=
  lookup registry "DEST" .ntlvName fun name => metadataGetPort registry list name

/-- `Block_MetaData_Add_FileName` on the metadata list of the block: the size leaves the terminator out. -/
def blockMetaDataAddFileName (list : List NTLVItem) (fileName : CString) : Option (List NTLVItem) :=
  lookup registry "FILENAME" .ntlvName fun name =>
    lookup registry "STRING" .ntlvType fun type => ntlvListAdd list name type (sized fileName.bytes)

end Helpers

end Razorback.Ntlv
