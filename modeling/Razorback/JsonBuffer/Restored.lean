import Razorback.JsonBuffer.Nesting

/-! What each record is read back as after it was written. -/

namespace Razorback.JsonBuffer
open Records Text Uuids
open Json (Fields add get getObject nonNull)
open Partial (bind_of_eq_some)

/-- A digest arrives without the bytes behind it, and only under the size of its type. -/
def restoredHash (hash : Hash) : Option Hash :=
  if hash.iSize = hashExpectedDigestLength hash.iType then
    some { hash with pData := hash.digest, iFlags := hashFlagFinal }
  else none

def restoredBlockId (id : BlockId) : Option BlockId := do
  let hash ← id.pHash
  let hash ← restoredHash hash
  some { id with pHash := some hash }

def restoredBlock (lib : Libs) (registry : Registry) : Block → Option Block
  | .mk pId pParentId pParentBlock pMetaDataList => do
    let pId ← restoredBlockId pId
    let pParentId ← pParentId.mapM restoredBlockId
    let pParentBlock ← (match pParentBlock with
      | none => some none
      | some parentBlock => (restoredBlock lib registry parentBlock).map some)
    let pMetaDataList ← pMetaDataList.mapM (restoredItems lib registry)
    some (.mk pId pParentId pParentBlock pMetaDataList)

/-- The application type stays behind, and a list that was NULL arrives empty. -/
def restoredEvent (lib : Libs) (registry : Registry) : Event → Option Event
  | .mk pId pParentId pParent _ pBlock pMetaDataList => do
    let pParent ← (match pParent with
      | none => some none
      | some parentEvent => (restoredEvent lib registry parentEvent).map some)
    let pMetaDataList ← pMetaDataList.mapM (restoredItems lib registry)
    let pBlock ← pBlock.mapM (restoredBlock lib registry)
    some (.mk pId pParentId pParent 0 pBlock (some (pMetaDataList.getD [])))

def restoredJudgment (lib : Libs) (registry : Registry) (judgment : Judgment) : Option Judgment := do
  let blockId ← judgment.pBlockId
  let blockId ← restoredBlockId blockId
  let items ← judgment.pMetaDataList
  let items ← restoredItems lib registry items
  some { judgment with pBlockId := some blockId, pMetaDataList := some items }

section Ids

variable {lib : Libs} {parent : Fields} {name : String}

theorem hashTypeName_supported (h : hashTypeName type = some typeName) :
    hashExpectedDigestLength type ≠ 0 ∧ ∀ data, hashOfTypeName typeName data = hashCreateFromString type data := by
  simp only [hashTypeName] at h
  repeat' split at h
  all_goals first
    | (simp at h; done)
    | (obtain rfl := Option.some.inj h; subst type; exact ⟨by decide, fun _ => rfl⟩)

theorem getHash_of_get {hash : Hash} {value : Json} (hvalue : hashJson hash = some value)
    (h : get parent name = some value) : getHash parent name = restoredHash hash := by
  obtain ⟨typeName, htype, hrest⟩ := Option.bind_eq_some_iff.mp hvalue
  obtain ⟨text, htext, hobject⟩ := Option.bind_eq_some_iff.mp hrest
  obtain rfl := Option.some.inj hobject
  obtain ⟨hsupported, hread⟩ := hashTypeName_supported htype
  have htypeRead : getString (add (putString [] "Type" typeName) "Value" (.string text)) "Type" = some typeName := by
    apply getString_of_get
    simp
  have htextRead : getString (add (putString [] "Type" typeName) "Value" (.string text)) "Value" =
      some (cString text) := by
    simp [getString, nonNull]
  simp only [getHash, Json.getObject_of_get h, htypeRead, htextRead, Option.bind_eq_bind, Option.bind_some, hread,
    hashCreateFromString_toText htext hsupported, restoredHash]

theorem getBlockId_of_get {id : BlockId} {value : Json} (hvalue : blockIdJson lib id = some value)
    (h : get parent name = some value) : getBlockId lib parent name = restoredBlockId id := by
  obtain ⟨hash, hhash, hrest⟩ := Option.bind_eq_some_iff.mp hvalue
  obtain ⟨hashValue, hhashValue, hvalue⟩ := Option.bind_eq_some_iff.mp hrest
  obtain ⟨object, hobject⟩ : ∃ object, putUUID lib (putUint64 (add [] "Hash" hashValue) "Size" id.iLength)
    "Data_Type" id.uuidDataType = object := ⟨_, rfl⟩
  rw [hobject] at hvalue
  obtain rfl := Option.some.inj hvalue
  have hhashRead : getHash object "Hash" = restoredHash hash := by
    apply getHash_of_get hhashValue
    simp [← hobject, nonNull_of_shape (hashJson_shape hhashValue) (by decide)]
  have hsize : getUint64 object "Size" = some id.iLength := by
    apply getUint64_of_get
    simp [← hobject]
  have htype : getUUID lib object "Data_Type" = some id.uuidDataType := by
    apply getUUID_of_get
    simp [← hobject]
  simp only [getBlockId, Json.getObject_of_get h, hhashRead, hsize, htype, Option.bind_eq_bind, Option.bind_some,
    restoredBlockId, hhash]

theorem getEventId_of_get {id : EventId} (h : get parent name = some (eventIdJson lib id)) :
    getEventId lib parent name = some id := by
  obtain ⟨nugget, hnugget⟩ : ∃ nugget, putUUID lib [] "Id" id.uuidNuggetId = nugget := ⟨_, rfl⟩
  obtain ⟨object, hobject⟩ : ∃ object, putUint64 (putUint64 (add [] "Nugget" (.object nugget))
    "Seconds" id.iSeconds) "Nano_Seconds" id.iNanoSecs = object := ⟨_, rfl⟩
  rw [eventIdJson, hnugget, hobject] at h
  have hinner : getObject object "Nugget" = some nugget := by
    apply Json.getObject_of_get
    simp [← hobject, nonNull]
  have hid : getUUID lib nugget "Id" = some id.uuidNuggetId := by
    apply getUUID_of_get
    simp [← hnugget]
  have hseconds : getUint64 object "Seconds" = some id.iSeconds := by
    apply getUint64_of_get
    simp [← hobject]
  have hnanos : getUint64 object "Nano_Seconds" = some id.iNanoSecs := by
    apply getUint64_of_get
    simp [← hobject]
  simp only [getEventId, Json.getObject_of_get h, hinner, hid, hseconds, hnanos, Option.bind_eq_bind, Option.bind_some]

end Ids

section Chains

variable {lib : Libs} {registry : Registry}

theorem readBlock_eq (object : Fields) :
    readBlock lib registry object = (do
      let pId ← getBlockId lib object "Id"
      let pParentId ← getOptional (getBlockId lib) object "Parent_Id"
      let pParentBlock ← getOptional (getBlock lib registry) object "Parent"
      let pMetaDataList ← getOptional (getNTLVList lib registry) object "Metadata"
      some (.mk pId pParentId pParentBlock pMetaDataList)) := by
  rw [readBlock]
  simp only [getOptional, getBlock]
  cases get object "Parent" with
  | none => rfl
  | some _ => cases hobject : getObject object "Parent" <;> rfl

theorem readEvent_eq (object : Fields) :
    readEvent lib registry object = (do
      let pId ← getEventId lib object "Id"
      let pParentId ← getOptional (getEventId lib) object "Parent_Id"
      let pParent ← getOptional (getEvent lib registry) object "Parent"
      let pMetaDataList ← getOptional (getNTLVList lib registry) object "Metadata"
      let pBlock ← getOptional (getBlock lib registry) object "Block"
      some (.mk pId pParentId pParent 0 pBlock (some (pMetaDataList.getD [])))) := by
  rw [readEvent]
  simp only [getOptional, getEvent]
  cases get object "Parent" with
  | none => rfl
  | some _ => cases hobject : getObject object "Parent" <;> rfl

theorem restoredBlock_eq (pId : BlockId) (pParentId : Option BlockId) (pParentBlock : Option Block)
    (pMetaDataList : Option (List NTLVItem)) :
    restoredBlock lib registry (.mk pId pParentId pParentBlock pMetaDataList) = (do
      let pId ← restoredBlockId pId
      let pParentId ← pParentId.mapM restoredBlockId
      let pParentBlock ← pParentBlock.mapM (restoredBlock lib registry)
      let pMetaDataList ← pMetaDataList.mapM (restoredItems lib registry)
      some (.mk pId pParentId pParentBlock pMetaDataList)) := by
  cases pParentBlock <;> rfl

theorem restoredEvent_eq (pId : EventId) (pParentId : Option EventId) (pParent : Option Event)
    (uuidApplicationType : Uuid) (pBlock : Option Block) (pMetaDataList : Option (List NTLVItem)) :
    restoredEvent lib registry (.mk pId pParentId pParent uuidApplicationType pBlock pMetaDataList) = (do
      let pParent ← pParent.mapM (restoredEvent lib registry)
      let pMetaDataList ← pMetaDataList.mapM (restoredItems lib registry)
      let pBlock ← pBlock.mapM (restoredBlock lib registry)
      some (.mk pId pParentId pParent 0 pBlock (some (pMetaDataList.getD [])))) := by
  cases pParent <;> rfl

theorem getBlock_of_get
    (hvalue : blockJson lib registry block = some value) (h : get parent name = some value) :
    getBlock lib registry parent name = restoredBlock lib registry block := by
  induction block generalizing parent name value with
  | mk pId pParentId pParentBlock pMetaDataList ih =>
    obtain ⟨id, parentId, parentBlock, metadata, hid, hparentId, hparent, hmetadata, rfl⟩ := blockJson_cases hvalue
    obtain ⟨object, hobject⟩ : ∃ object, addOptional (addOptional (addOptional (add [] "Id" id)
      "Parent_Id" parentId) "Parent" parentBlock) "Metadata" metadata = object := ⟨_, rfl⟩
    rw [hobject] at h
    have hidRead : getBlockId lib object "Id" = restoredBlockId pId := by
      apply getBlockId_of_get hid
      simp [← hobject, nonNull_blockIdJson lib hid]
    have hparentIdRead : getOptional (getBlockId lib) object "Parent_Id" = pParentId.mapM restoredBlockId := by
      apply getOptional_of_get (fun _ _ _ ha hv => getBlockId_of_get ha hv) hparentId
      simp [← hobject, elim_nonNull (fun _ _ => nonNull_blockIdJson lib) hparentId]
    have hparentRead : getOptional (getBlock lib registry) object "Parent" =
        pParentBlock.mapM (restoredBlock lib registry) := by
      apply getOptional_of_get (fun p hp _ ha hv => ih p hp ha hv) hparent
      simp [← hobject, elim_nonNull (fun _ _ => nonNull_blockJson) hparent]
    have hmetadataRead : getOptional (getNTLVList lib registry) object "Metadata" =
        pMetaDataList.mapM (restoredItems lib registry) := by
      apply getOptional_of_get (fun _ _ _ ha hv => getNTLVList_of_get ha hv) hmetadata
      simp [← hobject, elim_nonNull (fun _ _ => nonNull_ntlvListJson) hmetadata]
    simp only [getBlock, Json.getObject_of_get h, Option.bind_some, readBlock_eq, hidRead, hparentIdRead, hparentRead,
      hmetadataRead, restoredBlock_eq]

theorem getEvent_of_get
    (hvalue : eventJson lib registry event = some value) (h : get parent name = some value) :
    getEvent lib registry parent name = restoredEvent lib registry event := by
  induction event generalizing parent name value with
  | mk pId pParentId pParent uuidApplicationType pBlock pMetaDataList ih =>
    obtain ⟨parentEvent, metadata, block, hparent, hmetadata, hblock, rfl⟩ := eventJson_cases hvalue
    obtain ⟨object, hobject⟩ : ∃ object, addOptional (addOptional (addOptional (addOptional
      (putEventId lib [] "Id" pId) "Parent_Id" (pParentId.map (eventIdJson lib))) "Parent" parentEvent)
      "Metadata" metadata) "Block" block = object := ⟨_, rfl⟩
    rw [hobject] at h
    have hidRead : getEventId lib object "Id" = some pId := by
      apply getEventId_of_get
      simp [← hobject]
    have hparentIdRead : getOptional (getEventId lib) object "Parent_Id" = some pParentId := by
      have hpure := Partial.mapM_pure (eventIdJson lib) pParentId
      have hfield : get object "Parent_Id" = pParentId.map (eventIdJson lib) := by
        simp [← hobject, elim_nonNull (fun _ _ ha => Option.some.inj ha ▸ nonNull_eventIdJson lib _) hpure]
      have hread := getOptional_of_get (fun _ _ _ ha hv => getEventId_of_get (Option.some.inj ha ▸ hv)) hpure hfield
      rw [hread]
      cases pParentId <;> rfl
    have hparentRead : getOptional (getEvent lib registry) object "Parent" =
        pParent.mapM (restoredEvent lib registry) := by
      apply getOptional_of_get (fun p hp _ ha hv => ih p hp ha hv) hparent
      simp [← hobject, elim_nonNull (fun _ _ => nonNull_eventJson) hparent]
    have hmetadataRead : getOptional (getNTLVList lib registry) object "Metadata" =
        pMetaDataList.mapM (restoredItems lib registry) := by
      apply getOptional_of_get (fun _ _ _ ha hv => getNTLVList_of_get ha hv) hmetadata
      simp [← hobject, elim_nonNull (fun _ _ => nonNull_ntlvListJson) hmetadata]
    have hblockRead : getOptional (getBlock lib registry) object "Block" = pBlock.mapM (restoredBlock lib registry) := by
      apply getOptional_of_get (fun _ _ _ ha hv => getBlock_of_get ha hv) hblock
      simp [← hobject, elim_nonNull (fun _ _ => nonNull_blockJson) hblock]
    simp only [getEvent, Json.getObject_of_get h, Option.bind_some, readEvent_eq, hidRead, hparentIdRead, hparentRead,
      hmetadataRead, hblockRead, restoredEvent_eq, Option.bind_eq_bind]

end Chains

section Judgments

variable {lib : Libs} {registry : Registry}

theorem putJudgmentFields_cases (h : putJudgmentFields lib registry [] judgment = some object) :
    ∃ eventId blockId items blockIdValue metadata, judgment.pEventId = some eventId ∧ judgment.pBlockId = some blockId ∧
      judgment.pMetaDataList = some items ∧ blockIdJson lib blockId = some blockIdValue ∧
      ntlvListJson lib registry items = some metadata ∧
      object = putOptionalString (putUint32 (putUint32 (putUint32 (putUint32 (putUint32 (putUint32
        (add (putUint8 (add (putEventId lib (putUint64 (putUint64 (putUUID lib [] "Nugget_ID" judgment.uuidNuggetId)
          "Seconds" judgment.iSeconds) "Nano_Seconds" judgment.iNanoSecs) "Event_ID" eventId)
          "Block_ID" blockIdValue) "Priority" judgment.iPriority) "Metadata" metadata)
        "GID" judgment.iGID) "SID" judgment.iSID) "Set_SF_Flags" judgment.setSfFlags)
        "Set_Ent_Flags" judgment.setEntFlags) "Unset_SF_Flags" judgment.unsetSfFlags)
        "Unset_Ent_Flags" judgment.unsetEntFlags) "Message" judgment.sMessage := by
  obtain ⟨eventId, heventId, hrest⟩ := Option.bind_eq_some_iff.mp h
  obtain ⟨blockId, hblockId, hrest⟩ := Option.bind_eq_some_iff.mp hrest
  obtain ⟨fields, hfields, hrest⟩ := Option.bind_eq_some_iff.mp hrest
  obtain ⟨blockIdValue, hblockIdValue, rfl⟩ := Option.map_eq_some_iff.mp hfields
  obtain ⟨fields, hfields, hobject⟩ := Option.bind_eq_some_iff.mp hrest
  obtain ⟨items, hitems, hlist⟩ := Option.bind_eq_some_iff.mp hfields
  obtain ⟨metadata, hmetadata, rfl⟩ := Option.map_eq_some_iff.mp hlist
  exact ⟨eventId, blockId, items, blockIdValue, metadata, heventId, hblockId, hitems, hblockIdValue, hmetadata,
    (Option.some.inj hobject).symm⟩

theorem getJudgment_written (h : putJudgment lib registry parent name judgment = some fields) :
    getJudgment lib registry fields name = restoredJudgment lib registry judgment := by
  obtain ⟨object, hobject, rfl⟩ := Option.map_eq_some_iff.mp h
  obtain ⟨eventId, blockId, items, blockIdValue, metadata, heventId, hblockId, hitems, hblockIdValue, hmetadata, heq⟩ :=
    putJudgmentFields_cases hobject
  have hnugget : getUUID lib object "Nugget_ID" = some judgment.uuidNuggetId := by
    apply getUUID_of_get
    simp [heq]
  have hseconds : getUint64 object "Seconds" = some judgment.iSeconds := by
    apply getUint64_of_get
    simp [heq]
  have hnanos : getUint64 object "Nano_Seconds" = some judgment.iNanoSecs := by
    apply getUint64_of_get
    simp [heq]
  have heventRead : getEventId lib object "Event_ID" = some eventId := by
    apply getEventId_of_get
    simp [heq]
  have hblockRead : getBlockId lib object "Block_ID" = restoredBlockId blockId := by
    apply getBlockId_of_get hblockIdValue
    simp [heq, nonNull_blockIdJson lib hblockIdValue]
  have hpriority : getUint8 object "Priority" = some judgment.iPriority := by
    apply getUint8_of_get
    simp [heq]
  have hmetadataRead : getNTLVList lib registry object "Metadata" = restoredItems lib registry items := by
    apply getNTLVList_of_get hmetadata
    simp [heq, nonNull_ntlvListJson hmetadata]
  have hgid : getUint32 object "GID" = some judgment.iGID := by
    apply getUint32_of_get
    simp [heq]
  have hsid : getUint32 object "SID" = some judgment.iSID := by
    apply getUint32_of_get
    simp [heq]
  have hsetSf : getUint32 object "Set_SF_Flags" = some judgment.setSfFlags := by
    apply getUint32_of_get
    simp [heq]
  have hsetEnt : getUint32 object "Set_Ent_Flags" = some judgment.setEntFlags := by
    apply getUint32_of_get
    simp [heq]
  have hunsetSf : getUint32 object "Unset_SF_Flags" = some judgment.unsetSfFlags := by
    apply getUint32_of_get
    simp [heq]
  have hunsetEnt : getUint32 object "Unset_Ent_Flags" = some judgment.unsetEntFlags := by
    apply getUint32_of_get
    simp [heq]
  have hmessage : getOptionalString object "Message" = some judgment.sMessage := by
    apply getOptionalString_of_get
    cases hm : judgment.sMessage <;> simp [heq, hm]
  rw [getJudgment, bind_of_eq_some Json.getObject_add_self, bind_of_eq_some hnugget, bind_of_eq_some hseconds,
    bind_of_eq_some hnanos, bind_of_eq_some heventRead, hblockRead, restoredJudgment, bind_of_eq_some hblockId]
  -- only the block id and the metadata can fail to arrive
  apply bind_congr
  intro id
  rw [bind_of_eq_some hpriority, hmetadataRead, bind_of_eq_some hitems]
  apply bind_congr
  intro list
  rw [bind_of_eq_some hgid, bind_of_eq_some hsid, bind_of_eq_some hsetSf, bind_of_eq_some hsetEnt,
    bind_of_eq_some hunsetSf, bind_of_eq_some hunsetEnt, bind_of_eq_some hmessage, heventId]

end Judgments

end Razorback.JsonBuffer
