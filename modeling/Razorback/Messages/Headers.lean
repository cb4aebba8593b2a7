import Razorback.JsonBuffer.Texts
import Razorback.JsonBuffer.Objects

/-! The headers of a message and their way through the broker: `Queue_Put_Dest` makes a table entry of each header,
`Queue_Get_Ex` a header of each entry. -/

namespace Razorback.Messages
open Records Text JsonBuffer Option

structure MessageHeader where
  sName : CString
  sValue : CString
  deriving DecidableEq

structure Envelope where
  type : UInt32
  version : UInt32
  headers : List MessageHeader
  deriving DecidableEq

def msgCncHeaderSource : CString := ascii "Source_Nugget"
def msgCncHeaderDest : CString := ascii "Dest_Nugget"
def messageTypeHeaderName : CString := ascii "rzb-msg-type"
def messageVersionHeaderName : CString := ascii "rzb-msg-ver"

def messageVersion1 : UInt32 := 1

def messageCreate (type version : UInt32) : Envelope := { type, version, headers := [] }

@[simp] theorem messageCreate_type (type version : UInt32) : (messageCreate type version).type = type := rfl

/-- `Message_HeaderList_Add`: the list is generic, so `List_Push` goes to its end. -/
def headerListAdd (headers : List MessageHeader) (sName sValue : CString) : List MessageHeader :=
  headers ++ [⟨sName, sValue⟩]

def addHeader (message : Envelope) (sName sValue : CString) : Envelope :=
  { message with headers := headerListAdd message.headers sName sValue }

section Nuggets

variable (lib : Libs)

def addDirectedHeaders (message : Envelope) (source dest : Uuid) : Envelope :=
  addHeader (addHeader message msgCncHeaderSource (lib.uuidUnparse source)) msgCncHeaderDest (lib.uuidUnparse dest)

def messageCreateDirected (type version : UInt32) (source dest : Uuid) : Envelope :=
  addDirectedHeaders lib (messageCreate type version) source dest

/-- The destination is `uuid_clear`ed. -/
def messageCreateBroadcast (type version : UInt32) (source : Uuid) : Envelope :=
  addDirectedHeaders lib (messageCreate type version) source 0

@[simp] theorem messageCreateDirected_type (type version : UInt32) (source dest : Uuid) :
    (messageCreateDirected lib type version source dest).type = type := rfl

@[simp] theorem messageCreateBroadcast_type (type version : UInt32) (source : Uuid) :
    (messageCreateBroadcast lib type version source).type = type := rfl

def findHeader (headers : List MessageHeader) (name : CString) : Option MessageHeader :=
  Lists.find (fun item => item.sName = name) headers

/-- `Message_Get_Nuggets`: source and destination. -/
def messageGetNuggets (headers : List MessageHeader) : Option (Uuid × Uuid) := do
  let header ← findHeader headers msgCncHeaderDest
  let dest ← lib.uuidParse header.sValue
  let header ← findHeader headers msgCncHeaderSource
  let source ← lib.uuidParse header.sValue
  some (source, dest)

end Nuggets

/-! ### The header table of a publication -/

inductive FieldKind
  | utf8 | bytes | other
  deriving DecidableEq, Repr

structure TableEntry where
  key : Bytes
  kind : FieldKind
  value : Bytes
  deriving DecidableEq

def telemetryNames : List CString := [ascii "traceparent", ascii "tracestate", ascii "baggage"]

/-- What `Telemetry_StartQueueSendSpan` injects. -/
structure InjectedHeaders where
  entries : List MessageHeader
  names : ∀ header ∈ entries, header.sName ∈ telemetryNames

def headerToTableEntry (header : MessageHeader) : TableEntry :=
  { key := header.sName.bytes, kind := .utf8, value := header.sValue.bytes }

def decimalText (n : UInt32) : CString where
  bytes := decimal n.toNat
  noNul := fun h => absurd (isDigit_of_mem_decimal 0 h) (by decide)

/-- The headers of a publication in the order of its table. -/
def sentHeaders (injected : InjectedHeaders) (message : Envelope) : List MessageHeader :=
  ⟨messageTypeHeaderName, decimalText message.type⟩ :: ⟨messageVersionHeaderName, decimalText message.version⟩ ::
    (injected.entries ++ message.headers)

def putEntries (injected : InjectedHeaders) (message : Envelope) : List TableEntry :=
  (sentHeaders injected message).map headerToTableEntry

/-! ### The headers of a delivery -/

/-- A table entry as it was delivered: its value lies in memory that goes on with the bytes `after`. -/
structure DeliveredEntry where
  entry : TableEntry
  after : Bytes
  deriving DecidableEq

/-- `strdup` of a pointer to that memory; without a NUL it reads past the end. -/
def strdup (memory : Bytes) : Option CString := if 0 ∈ memory then some (cString memory) else none

/-- One round of the header loop. The name and a value of bytes are copied with their length, a UTF8 value is not. -/
def readEntry (headers : List MessageHeader) (delivered : DeliveredEntry) : Option (List MessageHeader) :=
  let name := cString delivered.entry.key
  match delivered.entry.kind with
  | .utf8 => (strdup (delivered.entry.value ++ delivered.after)).map (headerListAdd headers name)
  | .bytes => some (headerListAdd headers name (cString delivered.entry.value))
  | .other => some headers

def readEntries (headers : List MessageHeader) : List DeliveredEntry → Option (List MessageHeader)
  | [] => some headers
  | delivered :: rest => do
    let headers ← readEntry headers delivered
    readEntries headers rest

/-- `strtoul` into 32 bits; without a conversion it gives zero. -/
def strtoul (text : CString) : UInt32 := UInt32.ofNat ((sscanfUnsigned 32 text.bytes).getD 0)

/-- Why `Queue_Get_Ex` rejects a delivery it could read. -/
inductive ReceiveError
  | typeHeaderMissing | versionHeaderMissing | setupFailed | deserializeFailed
  deriving DecidableEq, Repr

/-- The type and version of a received message. -/
def readEnvelope (headers : List MessageHeader) : Except ReceiveError Envelope :=
  match findHeader headers messageTypeHeaderName with
  | none => .error .typeHeaderMissing
  | some typeHeader =>
    match findHeader headers messageVersionHeaderName with
    | none => .error .versionHeaderMissing
    | some versionHeader =>
      .ok { type := strtoul typeHeader.sValue, version := strtoul versionHeader.sValue, headers }

/-- `Queue_Get_Ex` up to `Message_Setup`; no result if it reads past the memory of the table. -/
def receiveEnvelope (ds : List DeliveredEntry) : Option (Except ReceiveError Envelope) :=
  (readEntries [] ds).map readEnvelope

/-! ### What is read of what was sent -/

def DeliveredEntry.Terminated (delivered : DeliveredEntry) : Prop := delivered.after.head? = some 0

instance (delivered : DeliveredEntry) : Decidable delivered.Terminated :=
  inferInstanceAs (Decidable (delivered.after.head? = some 0))

section Reads

variable {header : MessageHeader} {headers : List MessageHeader} {ds : List DeliveredEntry}

theorem findHeader_eq (name : CString) : findHeader headers name = headers.find? (fun item => item.sName = name) :=
  Lists.find_eq _ headers

theorem strtoul_decimalText (n : UInt32) : strtoul (decimalText n) = n := by
  have hread : sscanfUnsigned 32 (decimalText n).bytes = some n.toNat := sscanfUnsigned_decimal n.toNat_lt (by decide)
  rw [strtoul, hread, getD_some, UInt32.ofNat_toNat]

theorem strdup_value_iff (value : CString) (after : Bytes) :
    strdup (value.bytes ++ after) = some value ↔ after.head? = some 0 := by
  have hbytes : (cString (value.bytes ++ after)).bytes = value.bytes ++ after.takeWhile (· != 0) :=
    takeWhile_noNul value.noNul after
  constructor
  · intro h
    unfold strdup at h
    split at h
    · next hnul =>
      have hnil : after.takeWhile (· != 0) = [] := by
        rw [some.inj h] at hbytes
        simpa using hbytes
      have hmem : 0 ∈ after := (List.mem_append.mp hnul).resolve_left value.noNul
      cases after with
      | nil => simp at hmem
      | cons b after => simpa using hnil
    · simp at h
  · intro h
    obtain ⟨after, rfl⟩ : ∃ rest, after = 0 :: rest := by
      cases after with
      | nil => simp at h
      | cons b rest => exact ⟨rest, by simpa using h⟩
    rw [strdup, if_pos (by simp)]
    exact congrArg some (CString.ext (by simpa using hbytes))

theorem readEntry_append (d : DeliveredEntry) : readEntry headers d = (readEntry [] d).map (headers ++ ·) := by
  unfold readEntry headerListAdd
  cases d.entry.kind with
  | utf8 => simp [Function.comp_def]
  | bytes => simp
  | other => simp

theorem readEntries_append : readEntries headers ds = (readEntries [] ds).map (headers ++ ·) := by
  induction ds generalizing headers with
  | nil => simp [readEntries]
  | cons d ds ih =>
    simp only [readEntries, @readEntry_append headers, bind_eq_bind]
    cases readEntry [] d with
    | none => rfl
    | some first =>
      simp only [map_some, bind_some]
      rw [ih, @ih first]
      simp [Function.comp_def]

theorem readEntries_sent_iff (h : ds.map DeliveredEntry.entry = headers.map headerToTableEntry) :
    readEntries [] ds = some headers ↔ ∀ d ∈ ds, d.Terminated := by
  induction ds generalizing headers with
  | nil =>
    obtain rfl : headers = [] := by simpa using h
    simp [readEntries]
  | cons d ds ih =>
    obtain ⟨header, headers, rfl, hentry, hrest⟩ := List.map_eq_cons_iff.mp h.symm
    have hname : cString header.sName.bytes = header.sName := cString_bytes header.sName
    have hread : readEntry [] d = (strdup (header.sValue.bytes ++ d.after)).map fun value => [⟨header.sName, value⟩] := by
      simp only [readEntry, ← hentry, headerToTableEntry, hname]
      rfl
    rw [List.forall_mem_cons, DeliveredEntry.Terminated, ← strdup_value_iff header.sValue, ← ih hrest.symm]
    simp only [readEntries, hread, bind_eq_bind]
    cases strdup (header.sValue.bytes ++ d.after) with
    | none => simp
    | some value =>
      rw [map_some, bind_some, readEntries_append, map_eq_some_iff]
      constructor
      · rintro ⟨rest, hreads, hcons⟩
        obtain ⟨hheader, rfl⟩ : (⟨header.sName, value⟩ : MessageHeader) = header ∧ rest = headers := by simpa using hcons
        exact ⟨congrArg (some ·.sValue) hheader, hreads⟩
      · rintro ⟨hvalue, hreads⟩
        obtain rfl : value = header.sValue := some.inj hvalue
        exact ⟨headers, hreads, rfl⟩

end Reads

section Survival

variable (lib : Libs) (injected : InjectedHeaders) (message : Envelope)

theorem readEnvelope_sent :
    readEnvelope (sentHeaders injected message) = .ok { message with headers := sentHeaders injected message } := by
  have hne : messageTypeHeaderName ≠ messageVersionHeaderName := by decide
  simp [readEnvelope, findHeader_eq, sentHeaders, hne, strtoul_decimalText]

theorem findHeader_sent
    (hname : name ∉ messageTypeHeaderName :: messageVersionHeaderName :: telemetryNames) :
    findHeader (sentHeaders injected message) name = findHeader message.headers name := by
  simp only [List.mem_cons, not_or] at hname
  have hinjected : injected.entries.find? (fun item => item.sName = name) = none := by
    rw [List.find?_eq_none]
    intro header hmem heq
    exact hname.2.2 (of_decide_eq_true heq ▸ injected.names header hmem)
  simp [findHeader_eq, sentHeaders, Ne.symm hname.1, Ne.symm hname.2.1, hinjected]

theorem messageGetNuggets_sent :
    messageGetNuggets lib (sentHeaders injected message) = messageGetNuggets lib message.headers := by
  have hdest := @findHeader_sent injected message msgCncHeaderDest (by decide)
  have hsource := @findHeader_sent injected message msgCncHeaderSource (by decide)
  simp only [messageGetNuggets, hdest, hsource]

theorem messageGetNuggets_directed (type version : UInt32) (source dest : Uuid) (more : List MessageHeader) :
    messageGetNuggets lib ((messageCreateDirected lib type version source dest).headers ++ more) = some (source, dest) := by
  have hne : msgCncHeaderSource ≠ msgCncHeaderDest := by decide
  simp [messageGetNuggets, findHeader_eq, messageCreateDirected, addDirectedHeaders, addHeader, headerListAdd,
    messageCreate, hne, lib.uuidParse_unparse]

theorem readEnvelope_headers
    (h : readEnvelope headers = .ok received) : received.headers = headers := by
  unfold readEnvelope at h
  split at h
  · cases h
  · split at h <;> cases h
    rfl

structure Survives (received : Envelope) : Prop where
  headers : received.headers = sentHeaders injected message
  type : received.type = message.type
  version : received.version = message.version
  nuggets : messageGetNuggets lib received.headers = messageGetNuggets lib message.headers
  directed : ∀ source dest more,
    message.headers = (messageCreateDirected lib message.type message.version source dest).headers ++ more →
      messageGetNuggets lib received.headers = some (source, dest)

theorem survives_sent : Survives lib injected message { message with headers := sentHeaders injected message } where
  headers := rfl
  type := rfl
  version := rfl
  nuggets := messageGetNuggets_sent lib injected message
  directed source dest more hheaders := by rw [messageGetNuggets_sent, hheaders, messageGetNuggets_directed]

/-- A message survives the broker exactly if every value of the delivered table is followed by a NUL. -/
theorem headers_survive_iff (ds : List DeliveredEntry)
    (hunchanged : ds.map DeliveredEntry.entry = putEntries injected message) :
    (∃ received, receiveEnvelope ds = some (.ok received) ∧ Survives lib injected message received) ↔
      ∀ d ∈ ds, d.Terminated := by
  rw [← readEntries_sent_iff hunchanged]
  constructor
  · rintro ⟨received, hreceived, hsurvives⟩
    obtain ⟨headers, hheaders, henvelope⟩ := map_eq_some_iff.mp hreceived
    rw [hheaders, ← readEnvelope_headers henvelope, hsurvives.headers]
  · intro h
    refine ⟨_, ?_, survives_sent lib injected message⟩
    rw [receiveEnvelope, h, map_some, readEnvelope_sent]

end Survival

def noHeaders : InjectedHeaders := ⟨[], by simp⟩

def labelledBye : Envelope :=
  addHeader (messageCreateBroadcast textLibs 0x10000010 messageVersion1 7) (ascii "label") (ascii "a")

def labelledByeDelivered (after : Bytes) : List DeliveredEntry :=
  (putEntries noHeaders labelledBye).map fun entry => { entry, after }

theorem labelledBye_survives :
    ∃ received, receiveEnvelope (labelledByeDelivered [0]) = some (.ok received) ∧
      Survives textLibs ⟨[], by simp⟩ labelledBye received :=
  (headers_survive_iff textLibs ⟨[], by simp⟩ labelledBye (labelledByeDelivered [0]) rfl).mpr (by decide)

/-- A value that is followed by another character takes it along. -/
theorem labelledBye_changed :
    (labelledByeDelivered ['z'.toUInt8, 0]).map DeliveredEntry.entry = putEntries ⟨[], by simp⟩ labelledBye ∧
      (readEntries [] (labelledByeDelivered ['z'.toUInt8, 0])).map (·.getLast?) =
        some (some ⟨ascii "label", ascii "az"⟩) := by
  decide

end Razorback.Messages
