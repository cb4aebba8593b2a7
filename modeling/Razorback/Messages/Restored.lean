import Razorback.JsonBuffer.Readable
import Razorback.Messages.Defs

/-! How deep the text of a message is nested, and what the message is read back as. -/

namespace Razorback.Messages
open Records Text Uuids JsonBuffer Option
open Json (Fields Shape FieldsShape add get nonNull)

section Messages

variable (lib : Libs) (registry : Registry)

def messageNesting : Message → Nat
  | .blockSubmission submit => eventNesting lib registry submit.pEvent + 1
  | .inspection submit =>
    max (max 3 (itemsNesting lib registry submit.pEventMetadata)) (blockNesting lib registry submit.pBlock) + 1
  | .alertPrimary alert =>
    max (max (max 2 (blockNesting lib registry alert.block)) (eventNesting lib registry alert.event))
      (itemsNesting lib registry alert.metadata) + 1
  | .outputEvent output => max 2 (eventNesting lib registry output.event) + 1

def restoredMessage : Message → Option Message
  | .blockSubmission submit => do
    let pEvent ← restoredEvent lib registry submit.pEvent
    some (.blockSubmission { submit with pEvent })
  | .inspection submit => do
    let pEventMetadata ← restoredItems lib registry submit.pEventMetadata
    let pBlock ← restoredBlock lib registry submit.pBlock
    let localityList := submit.localityList.take (submit.localityList.length % 2 ^ 32)
    some (.inspection { submit with pEventMetadata, pBlock, localityList })
  | .alertPrimary alert => do
    let block ← restoredBlock lib registry alert.block
    let event ← restoredEvent lib registry alert.event
    let metadata ← restoredItems lib registry alert.metadata
    some (.alertPrimary { alert with block, event, metadata })
  | .outputEvent output => do
    let event ← restoredEvent lib registry output.event
    some (.outputEvent { output with event })

def Readable : Message → Prop
  | .blockSubmission submit => ReadableEvent submit.pEvent
  | .inspection submit => ReadableItems submit.pEventMetadata ∧ ReadableBlock submit.pBlock
  | .alertPrimary alert => ReadableBlock alert.block ∧ ReadableEvent alert.event ∧ ReadableItems alert.metadata
  | .outputEvent output => ReadableEvent output.event

end Messages

/-! ### Nuggets and lists of bytes -/

section Values

variable {lib : Libs} {parent : Fields} {name : String}

theorem putOptionalString_shape (h : FieldsShape fields n) (name : String)
    (hkey : name ∉ Json.keys fields ∧ Json.ValidKey name) (text : Option CString) :
    FieldsShape (putOptionalString fields name text) n := by
  cases text with
  | none => exact h
  | some text => simpa [addOptional] using h.add hkey (stringJson_shape text)

theorem nuggetJson_shape (nugget : Nugget) : Shape (nuggetJson lib nugget) 2 := by
  have h1 : FieldsShape (putUUID lib [] "Nugget_ID" nugget.uuidNuggetId) 1 :=
    FieldsShape.nil.add ⟨by simp, by decide⟩ (uuidJson_shape lib nugget.uuidNuggetId)
  have h2 : FieldsShape (putUUID lib _ "App_Type" nugget.uuidApplicationType) 1 :=
    h1.add ⟨by simp, by decide⟩ (uuidJson_shape lib nugget.uuidApplicationType)
  have h3 : FieldsShape (putUUID lib _ "Nugget_Type" nugget.uuidNuggetType) 1 :=
    h2.add ⟨by simp, by decide⟩ (uuidJson_shape lib nugget.uuidNuggetType)
  have h4 := putOptionalString_shape h3 "Name" ⟨by simp, by decide⟩ nugget.sName
  have h5 := putOptionalString_shape h4 "Location" ⟨by simp, by decide⟩ nugget.sLocation
  have h6 := putOptionalString_shape h5 "Contact" ⟨by simp, by decide⟩ nugget.sContact
  exact h6.object

@[simp] theorem nonNull_nuggetJson (nugget : Nugget) : nonNull (nuggetJson lib nugget) = some (nuggetJson lib nugget) :=
  rfl

theorem getNugget_of_get (h : get parent name = some (nuggetJson lib nugget)) :
    getNugget lib parent name = some nugget := by
  obtain ⟨object, hobject⟩ : ∃ object, nuggetJson lib nugget = .object object := ⟨_, rfl⟩
  have hfields := Json.object.inj hobject.symm
  rw [hobject] at h
  have hid : getUUID lib object "Nugget_ID" = some nugget.uuidNuggetId := by
    apply getUUID_of_get
    simp [hfields]
  have happ : getUUID lib object "App_Type" = some nugget.uuidApplicationType := by
    apply getUUID_of_get
    simp [hfields]
  have htype : getUUID lib object "Nugget_Type" = some nugget.uuidNuggetType := by
    apply getUUID_of_get
    simp [hfields]
  have hname : getOptionalString object "Name" = some nugget.sName := by
    apply getOptionalString_of_get
    cases hn : nugget.sName <;> simp [hfields, hn]
  have hlocation : getOptionalString object "Location" = some nugget.sLocation := by
    apply getOptionalString_of_get
    cases hn : nugget.sLocation <;> simp [hfields, hn]
  have hcontact : getOptionalString object "Contact" = some nugget.sContact := by
    apply getOptionalString_of_get
    cases hn : nugget.sContact <;> simp [hfields, hn]
  simp only [getNugget, Json.getObject_of_get h, hid, happ, htype, hname, hlocation, hcontact, bind_eq_bind,
    bind_some]

theorem uint8OfJson_int (byte : UInt8) : uint8OfJson (.int byte.toNat) = some byte := by
  have hlt := byte.toNat_lt
  have hclamp : (max (-2 ^ 31) (min (byte.toNat : Int) (2 ^ 31 - 1))) % 256 = byte.toNat := by omega
  rw [uint8OfJson, hclamp, Int.toNat_natCast, UInt8.ofNat_toNat]

theorem uint8ListJson_shape (list : List UInt8) : Shape (uint8ListJson list) 1 := by
  have hitems : Json.WellFormedItems (list.map fun byte => .int byte.toNat) ∧
      Json.depthItems (list.map fun byte => .int byte.toNat) = 0 := by
    induction list with
    | nil => exact ⟨trivial, rfl⟩
    | cons byte list ih =>
      have hlt := byte.toNat_lt
      refine ⟨⟨?_, ih.1⟩, ?_⟩
      · simp only [Json.WellFormed]
        omega
      · simp [Json.depthItems, Json.depth, ih.2]
  exact ⟨hitems.1, congrArg (· + 1) hitems.2⟩

@[simp] theorem nonNull_uint8ListJson (list : List UInt8) :
    nonNull (uint8ListJson list) = some (uint8ListJson list) := rfl

theorem getUint8List_of_get (h : get parent name = some (uint8ListJson list)) :
    getUint8List parent name = some (list.take (list.length % 2 ^ 32)) := by
  have hread : ∀ bytes : List UInt8, (bytes.map fun byte => .int byte.toNat).mapM uint8OfJson = some bytes := by
    intro bytes
    induction bytes with
    | nil => rfl
    | cons byte bytes ih => simp [uint8OfJson_int, ih]
  simp only [getUint8List, h, uint8ListJson, List.length_map, ← List.map_take, hread]

end Values

/-! ### The objects of the messages -/

section Written

variable {lib : Libs} {registry : Registry} {msg : Fields}

theorem blockSubmission_cases
    (h : messageFields lib registry (.blockSubmission submit) = some msg) :
    ∃ event, eventJson lib registry submit.pEvent = some event ∧
      msg = putUint8 (add (putUint32 [] "Reason" submit.iReason) "Event" event)
        "Stored_Locality" submit.storedLocality := by
  obtain ⟨fields, hfields, hmsg⟩ := bind_eq_some_iff.mp h
  obtain ⟨event, hevent, rfl⟩ := map_eq_some_iff.mp hfields
  exact ⟨event, hevent, (some.inj hmsg).symm⟩

theorem inspection_cases (h : messageFields lib registry (.inspection submit) = some msg) :
    ∃ metadata block, ntlvListJson lib registry submit.pEventMetadata = some metadata ∧
      blockJson lib registry submit.pBlock = some block ∧
      msg = add (add (add (putEventId lib (putUint32 [] "Reason" submit.iReason) "Event_ID" submit.eventId)
        "Event_Metadata" metadata) "Block" block) "Avaliable_Localities" (uint8ListJson submit.localityList) := by
  obtain ⟨fields, hfields, hrest⟩ := bind_eq_some_iff.mp h
  obtain ⟨metadata, hmetadata, rfl⟩ := map_eq_some_iff.mp hfields
  obtain ⟨fields, hfields, hmsg⟩ := bind_eq_some_iff.mp hrest
  obtain ⟨block, hblock, rfl⟩ := map_eq_some_iff.mp hfields
  exact ⟨metadata, block, hmetadata, hblock, (some.inj hmsg).symm⟩

theorem alertPrimary_cases (h : messageFields lib registry (.alertPrimary alert) = some msg) :
    ∃ block event metadata, blockJson lib registry alert.block = some block ∧
      eventJson lib registry alert.event = some event ∧ ntlvListJson lib registry alert.metadata = some metadata ∧
      msg = add (putUint32 (putUint32 (putUint32 (putUint32 (putUint32 (putUint32 (putUint64 (putUint64 (putUint8
        (putOptionalString (add (add (putNugget lib [] "Nugget" alert.nugget) "Block" block) "Event" event)
          "Message" alert.message) "Priority" alert.priority) "Seconds" alert.seconds) "Nano_Seconds" alert.nanosecs)
        "GID" alert.gid) "SID" alert.sid) "SF_Flags" alert.sfFlags) "Ent_Flags" alert.entFlags)
        "Old_SF_Flags" alert.oldSfFlags) "Old_Ent_Flags" alert.oldEntFlags) "Metadata" metadata := by
  obtain ⟨fields, hfields, hrest⟩ := bind_eq_some_iff.mp h
  obtain ⟨block, hblock, rfl⟩ := map_eq_some_iff.mp hfields
  obtain ⟨fields, hfields, hrest⟩ := bind_eq_some_iff.mp hrest
  obtain ⟨event, hevent, rfl⟩ := map_eq_some_iff.mp hfields
  obtain ⟨metadata, hmetadata, rfl⟩ := map_eq_some_iff.mp hrest
  exact ⟨block, event, metadata, hblock, hevent, hmetadata, rfl⟩

theorem outputEvent_cases (h : messageFields lib registry (.outputEvent output) = some msg) :
    ∃ event, eventJson lib registry output.event = some event ∧
      msg = add (putNugget lib [] "Nugget" output.nugget) "Event" event := by
  obtain ⟨event, hevent, rfl⟩ := map_eq_some_iff.mp h
  exact ⟨event, hevent, rfl⟩

theorem putUint64_shape (h : FieldsShape fields n) (name : String)
    (hkey : name ∉ Json.keys fields ∧ Json.ValidKey name) (value : UInt64) :
    FieldsShape (putUint64 fields name value) n := by
  simpa using h.add hkey (uintJson_shape value)

variable {message : Message}

section
variable (h : messageFields lib registry message = some msg)
include h

theorem messageFields_shape :
    Shape (.object msg) (messageNesting lib registry message) := by
  cases message with
  | blockSubmission submit =>
    obtain ⟨event, hevent, rfl⟩ := blockSubmission_cases h
    have h1 : FieldsShape (putUint32 [] "Reason" submit.iReason) 0 :=
      putUint64_shape .nil "Reason" ⟨by simp, by decide⟩ submit.iReason.toUInt64
    have h2 : FieldsShape (add (putUint32 [] "Reason" submit.iReason) "Event" event)
        (eventNesting lib registry submit.pEvent) := by
      simpa using h1.add ⟨by simp, by decide⟩ (eventJson_shape hevent)
    exact (putUint64_shape h2 "Stored_Locality" ⟨by simp, by decide⟩ submit.storedLocality.toUInt64).object
  | inspection submit =>
    obtain ⟨metadata, block, hmetadata, hblock, rfl⟩ := inspection_cases h
    have h1 : FieldsShape (putUint32 [] "Reason" submit.iReason) 0 :=
      putUint64_shape .nil "Reason" ⟨by simp, by decide⟩ submit.iReason.toUInt64
    have h2 : FieldsShape (putEventId lib _ "Event_ID" submit.eventId) 3 :=
      h1.add ⟨by simp, by decide⟩ (eventIdJson_shape lib submit.eventId)
    have h3 : FieldsShape (add _ "Event_Metadata" metadata) _ :=
      h2.add ⟨by simp, by decide⟩ (ntlvListJson_shape hmetadata)
    have h4 : FieldsShape (add _ "Block" block) _ :=
      h3.add ⟨by simp, by decide⟩ (blockJson_shape hblock)
    have h5 : FieldsShape (add _ "Avaliable_Localities" (uint8ListJson submit.localityList)) _ :=
      h4.add ⟨by simp, by decide⟩ (uint8ListJson_shape submit.localityList)
    -- the list of localities is one deep and never counts
    have hmax : ∀ a b : Nat, max (max (max 3 a) b) 1 + 1 = max (max 3 a) b + 1 := by omega
    rw [messageNesting, ← hmax]
    exact h5.object
  | alertPrimary alert =>
    obtain ⟨block, event, metadata, hblock, hevent, hmetadata, rfl⟩ := alertPrimary_cases h
    have h1 : FieldsShape (putNugget lib [] "Nugget" alert.nugget) 2 :=
      FieldsShape.nil.add ⟨by simp, by decide⟩ (nuggetJson_shape alert.nugget)
    have h2 : FieldsShape (add _ "Block" block) _ := h1.add ⟨by simp, by decide⟩ (blockJson_shape hblock)
    have h3 : FieldsShape (add _ "Event" event) _ := h2.add ⟨by simp, by decide⟩ (eventJson_shape hevent)
    have h4 := putOptionalString_shape h3 "Message" ⟨by simp, by decide⟩ alert.message
    have h5 := putUint64_shape h4 "Priority" ⟨by simp, by decide⟩ alert.priority.toUInt64
    have h6 := putUint64_shape h5 "Seconds" ⟨by simp, by decide⟩ alert.seconds
    have h7 := putUint64_shape h6 "Nano_Seconds" ⟨by simp, by decide⟩ alert.nanosecs
    have h8 := putUint64_shape h7 "GID" ⟨by simp, by decide⟩ alert.gid.toUInt64
    have h9 := putUint64_shape h8 "SID" ⟨by simp, by decide⟩ alert.sid.toUInt64
    have h10 := putUint64_shape h9 "SF_Flags" ⟨by simp, by decide⟩ alert.sfFlags.toUInt64
    have h11 := putUint64_shape h10 "Ent_Flags" ⟨by simp, by decide⟩ alert.entFlags.toUInt64
    have h12 := putUint64_shape h11 "Old_SF_Flags" ⟨by simp, by decide⟩ alert.oldSfFlags.toUInt64
    have h13 := putUint64_shape h12 "Old_Ent_Flags" ⟨by simp, by decide⟩ alert.oldEntFlags.toUInt64
    exact (h13.add ⟨by simp, by decide⟩ (ntlvListJson_shape hmetadata)).object
  | outputEvent output =>
    obtain ⟨event, hevent, rfl⟩ := outputEvent_cases h
    have h1 : FieldsShape (putNugget lib [] "Nugget" output.nugget) 2 :=
      FieldsShape.nil.add ⟨by simp, by decide⟩ (nuggetJson_shape output.nugget)
    exact (h1.add ⟨by simp, by decide⟩ (eventJson_shape hevent)).object

theorem readMessage_written :
    readMessage lib registry message.type msg = restoredMessage lib registry message := by
  cases message with
  | blockSubmission submit =>
    obtain ⟨event, hevent, heq⟩ := blockSubmission_cases h
    have hreason : getUint32 msg "Reason" = some submit.iReason := by
      apply getUint32_of_get
      simp [heq]
    have heventRead : getEvent lib registry msg "Event" = restoredEvent lib registry submit.pEvent := by
      apply getEvent_of_get hevent
      simp [heq, nonNull_eventJson hevent]
    have hlocality : getUint8 msg "Stored_Locality" = some submit.storedLocality := by
      apply getUint8_of_get
      simp [heq]
    simp only [readMessage, Message.type, hreason, heventRead, hlocality, restoredMessage, bind_eq_bind,
      bind_some]
  | inspection submit =>
    obtain ⟨metadata, block, hmetadata, hblock, heq⟩ := inspection_cases h
    have hreason : getUint32 msg "Reason" = some submit.iReason := by
      apply getUint32_of_get
      simp [heq]
    have hid : getEventId lib msg "Event_ID" = some submit.eventId := by
      apply getEventId_of_get
      simp [heq]
    have hmetadataRead : getNTLVList lib registry msg "Event_Metadata" =
        restoredItems lib registry submit.pEventMetadata := by
      apply getNTLVList_of_get hmetadata
      simp [heq, nonNull_ntlvListJson hmetadata]
    have hblockRead : getBlock lib registry msg "Block" = restoredBlock lib registry submit.pBlock := by
      apply getBlock_of_get hblock
      simp [heq, nonNull_blockJson hblock]
    have hlocalities : getUint8List msg "Avaliable_Localities" =
        some (submit.localityList.take (submit.localityList.length % 2 ^ 32)) := by
      apply getUint8List_of_get
      simp [heq]
    simp only [readMessage, Message.type, hreason, hid, hmetadataRead, hblockRead, hlocalities, restoredMessage,
      bind_eq_bind, bind_some]
  | alertPrimary alert =>
    obtain ⟨block, event, metadata, hblock, hevent, hmetadata, heq⟩ := alertPrimary_cases h
    have hnugget : getNugget lib msg "Nugget" = some alert.nugget := by
      apply getNugget_of_get
      simp [heq]
    have hblockRead : getBlock lib registry msg "Block" = restoredBlock lib registry alert.block := by
      apply getBlock_of_get hblock
      simp [heq, nonNull_blockJson hblock]
    have heventRead : getEvent lib registry msg "Event" = restoredEvent lib registry alert.event := by
      apply getEvent_of_get hevent
      simp [heq, nonNull_eventJson hevent]
    have hmessage : getString msg "Message" = alert.message := by
      cases hm : alert.message with
      | none => simp [getString, heq, hm]
      | some text =>
        apply getString_of_get
        simp [heq, hm]
    have hpriority : getUint8 msg "Priority" = some alert.priority := by
      apply getUint8_of_get
      simp [heq]
    have hseconds : getUint64 msg "Seconds" = some alert.seconds := by
      apply getUint64_of_get
      simp [heq]
    have hnanos : getUint64 msg "Nano_Seconds" = some alert.nanosecs := by
      apply getUint64_of_get
      simp [heq]
    have hgid : getUint32 msg "GID" = some alert.gid := by
      apply getUint32_of_get
      simp [heq]
    have hsid : getUint32 msg "SID" = some alert.sid := by
      apply getUint32_of_get
      simp [heq]
    have hsf : getUint32 msg "SF_Flags" = some alert.sfFlags := by
      apply getUint32_of_get
      simp [heq]
    have hent : getUint32 msg "Ent_Flags" = some alert.entFlags := by
      apply getUint32_of_get
      simp [heq]
    have holdSf : getUint32 msg "Old_SF_Flags" = some alert.oldSfFlags := by
      apply getUint32_of_get
      simp [heq]
    have holdEnt : getUint32 msg "Old_Ent_Flags" = some alert.oldEntFlags := by
      apply getUint32_of_get
      simp [heq]
    have hmetadataRead : getNTLVList lib registry msg "Metadata" = restoredItems lib registry alert.metadata := by
      apply getNTLVList_of_get hmetadata
      simp [heq, nonNull_ntlvListJson hmetadata]
    simp only [readMessage, Message.type, hnugget, hblockRead, heventRead, hmessage, hpriority, hseconds, hnanos, hgid,
      hsid, hsf, hent, holdSf, holdEnt, hmetadataRead, restoredMessage, bind_eq_bind, bind_some]
  | outputEvent output =>
    obtain ⟨event, hevent, heq⟩ := outputEvent_cases h
    have hnugget : getNugget lib msg "Nugget" = some output.nugget := by
      apply getNugget_of_get
      simp [heq]
    have heventRead : getEvent lib registry msg "Event" = restoredEvent lib registry output.event := by
      apply getEvent_of_get hevent
      simp [heq, nonNull_eventJson hevent]
    simp only [readMessage, Message.type, hnugget, heventRead, restoredMessage, bind_eq_bind, bind_some]

theorem restoredMessage_isSome_iff :
    (restoredMessage lib registry message).isSome ↔ Readable message := by
  cases message with
  | blockSubmission submit =>
    obtain ⟨event, hevent, -⟩ := blockSubmission_cases h
    simp [restoredMessage, Readable, ← restoredEvent_isSome_iff hevent, isSome_iff_exists,
      bind_eq_some_iff]
  | inspection submit =>
    obtain ⟨metadata, block, hmetadata, hblock, -⟩ := inspection_cases h
    simp [restoredMessage, Readable, ← restoredItems_isSome_iff hmetadata, ← restoredBlock_isSome_iff hblock,
      isSome_iff_exists, bind_eq_some_iff]
  | alertPrimary alert =>
    obtain ⟨block, event, metadata, hblock, hevent, hmetadata, -⟩ := alertPrimary_cases h
    simp [restoredMessage, Readable, ← restoredBlock_isSome_iff hblock, ← restoredEvent_isSome_iff hevent,
      ← restoredItems_isSome_iff hmetadata, isSome_iff_exists, bind_eq_some_iff]
  | outputEvent output =>
    obtain ⟨event, hevent, -⟩ := outputEvent_cases h
    simp [restoredMessage, Readable, ← restoredEvent_isSome_iff hevent, isSome_iff_exists,
      bind_eq_some_iff]

end

theorem deserialize_written (h : serialize lib registry message = some text) :
    deserialize lib registry message.type text =
      if messageNesting lib registry message ≤ tokenerDefaultDepth then restoredMessage lib registry message
      else none := by
  obtain ⟨msg, hmsg, rfl⟩ := map_eq_some_iff.mp h
  have hshape := messageFields_shape hmsg
  rw [deserialize, lib.tokenerParse_text .spaced hshape.wellFormed, hshape.depth_eq]
  split_ifs
  · exact readMessage_written hmsg
  · rfl

end Written

end Razorback.Messages
