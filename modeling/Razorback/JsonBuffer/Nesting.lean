import Razorback.JsonBuffer.Objects

/-! How deep the written objects are nested. -/

namespace Razorback.JsonBuffer
open Records Text Uuids Option
open Json (Fields Shape FieldsShape add get nonNull)

def itemNesting (lib : Libs) (registry : Registry) (item : NTLVItem) : Nat :=
  if ntlvTypeUsesJsonValue registry item.uuidType then ((lib.jsonValue (cString item.pData)).elim 0 Json.depth) + 1
  else 2

def itemsNesting (lib : Libs) (registry : Registry) (items : List NTLVItem) : Nat :=
  (items.map (itemNesting lib registry)).foldr max 0 + 1

def blockNesting (lib : Libs) (registry : Registry) : Block → Nat
  | .mk _ _ pParentBlock pMetaDataList =>
    let parent := match pParentBlock with
      | none => 0
      | some parentBlock => blockNesting lib registry parentBlock
    max (max 2 parent) (pMetaDataList.elim 0 (itemsNesting lib registry)) + 1

def eventNesting (lib : Libs) (registry : Registry) : Event → Nat
  | .mk _ _ pParent _ pBlock pMetaDataList =>
    let parent := match pParent with
      | none => 0
      | some parentEvent => eventNesting lib registry parentEvent
    max (max (max 3 parent) (pMetaDataList.elim 0 (itemsNesting lib registry)))
      (pBlock.elim 0 (blockNesting lib registry)) + 1

theorem nonNull_of_shape (h : Shape value n) (hn : 0 < n) : nonNull value = some value := by
  have hdepth := h.depth_eq
  cases value <;> first | rfl | exact absurd hdepth (Nat.ne_of_lt hn)

theorem container_depth {value : Json} (h : value.isContainer) : 1 ≤ value.depth := by
  cases value <;> simp_all [Json.isContainer, Json.depth]

section Ids

variable (lib : Libs)

variable {value : Json}

theorem hashJson_shape {hash : Hash} (h : hashJson hash = some value) : Shape value 1 := by
  obtain ⟨typeName, -, hrest⟩ := bind_eq_some_iff.mp h
  obtain ⟨text, -, hobject⟩ := bind_eq_some_iff.mp hrest
  obtain rfl := some.inj hobject
  have htype : FieldsShape (putString [] "Type" typeName) 0 :=
    FieldsShape.nil.add ⟨by simp, by decide⟩ (stringJson_shape typeName)
  have hvalue : Shape (.string text) 0 := ⟨trivial, rfl⟩
  exact (htype.add ⟨by simp, by decide⟩ hvalue).object

theorem blockIdJson_shape {id : BlockId} (h : blockIdJson lib id = some value) : Shape value 2 := by
  obtain ⟨hash, -, hrest⟩ := bind_eq_some_iff.mp h
  obtain ⟨hashValue, hhash, hobject⟩ := bind_eq_some_iff.mp hrest
  obtain rfl := some.inj hobject
  have h1 : FieldsShape (add [] "Hash" hashValue) 1 :=
    FieldsShape.nil.add ⟨by simp, by decide⟩ (hashJson_shape hhash)
  have h2 : FieldsShape (putUint64 (add [] "Hash" hashValue) "Size" id.iLength) 1 :=
    h1.add ⟨by simp, by decide⟩ (uintJson_shape id.iLength)
  exact (h2.add ⟨by simp, by decide⟩ (uuidJson_shape lib id.uuidDataType)).object

theorem nonNull_blockIdJson {id : BlockId} (h : blockIdJson lib id = some value) :
    nonNull value = some value :=
  nonNull_of_shape (blockIdJson_shape lib h) (by decide)

theorem eventIdJson_shape (id : EventId) : Shape (eventIdJson lib id) 3 := by
  have hid : FieldsShape (putUUID lib [] "Id" id.uuidNuggetId) 1 :=
    FieldsShape.nil.add ⟨by simp, by decide⟩ (uuidJson_shape lib id.uuidNuggetId)
  have h1 : FieldsShape (add [] "Nugget" (.object (putUUID lib [] "Id" id.uuidNuggetId))) 2 :=
    FieldsShape.nil.add ⟨by simp, by decide⟩ hid.object
  have h2 : FieldsShape (putUint64 _ "Seconds" id.iSeconds) 2 :=
    h1.add ⟨by simp, by decide⟩ (uintJson_shape id.iSeconds)
  exact (h2.add ⟨by simp, by decide⟩ (uintJson_shape id.iNanoSecs)).object

@[simp] theorem nonNull_eventIdJson (id : EventId) : nonNull (eventIdJson lib id) = some (eventIdJson lib id) := rfl

end Ids

section Metadata

variable {lib : Libs} {registry : Registry}

theorem itemValue_shape (h : ItemValue lib registry item key value) :
    Shape value value.depth ∧ max 1 value.depth + 1 = itemNesting lib registry item := by
  cases h with
  | binary hstring hjson hscalar hvalue =>
    simp only [byteArrayJson] at hvalue
    split at hvalue
    · simp at hvalue
    · obtain ⟨text, -, rfl⟩ := map_eq_some_iff.mp hvalue
      exact ⟨stringJson_shape text, by simp [itemNesting, hjson, stringJson, Json.depth]⟩
  | json hjson hlast hvalue =>
    obtain ⟨hparsed, -, hcontainer⟩ := jsonStringJson_eq_some hvalue
    have hdepth := container_depth hcontainer
    refine ⟨⟨lib.wellFormed_jsonValue _ _ hparsed, rfl⟩, ?_⟩
    simp [itemNesting, hjson, hparsed, hdepth]
  | string hstring hjson hlast => exact ⟨stringJson_shape _, by simp [itemNesting, hjson, stringJson, Json.depth]⟩
  | scalar hstring hjson hscalar hsize =>
    exact ⟨stringJson_shape _, by simp [itemNesting, hjson, stringJson, Json.depth]⟩

theorem ntlvItemFields_shape (h : ntlvItemFields lib registry item = some object) :
    Shape (.object object) (itemNesting lib registry item) := by
  obtain ⟨key, value, hitem, rfl⟩ := ntlvItemFields_cases h
  obtain ⟨hvalue, hnesting⟩ := itemValue_shape hitem
  have hkey : Json.ValidKey key ∧ key ≠ "Name" ∧ key ≠ "Type" := by
    cases hitem <;> decide
  have hname : FieldsShape (putUUID lib [] "Name" item.uuidName) 1 :=
    FieldsShape.nil.add ⟨by simp, by decide⟩ (uuidJson_shape lib item.uuidName)
  have hheader : FieldsShape (putUUID lib (putUUID lib [] "Name" item.uuidName) "Type" item.uuidType) 1 :=
    hname.add ⟨by simp, by decide⟩ (uuidJson_shape lib item.uuidType)
  rw [← hnesting]
  exact (hheader.add ⟨by simp [hkey.2], hkey.1⟩ hvalue).object

variable {items : List NTLVItem}

theorem putNTLVItems_shape
    (h : putNTLVItems lib registry array items = some array') (harray : Json.WellFormedItems array) :
    Json.WellFormedItems array' ∧
      Json.depthItems array' = max (Json.depthItems array) ((items.map (itemNesting lib registry)).foldr max 0) := by
  induction items generalizing array with
  | nil =>
    obtain rfl : array = array' := some.inj h
    exact ⟨harray, by simp⟩
  | cons item items ih =>
    obtain ⟨extended, hitem, hrest⟩ := bind_eq_some_iff.mp h
    obtain ⟨object, hobject, rfl⟩ := map_eq_some_iff.mp hitem
    have hshape := ntlvItemFields_shape hobject
    have hextended : Json.WellFormedItems (array ++ [.object object]) := by
      rw [Json.wellFormedItems_append]
      exact ⟨harray, hshape.wellFormed, trivial⟩
    obtain ⟨hwell, hdepth⟩ := ih hrest hextended
    refine ⟨hwell, ?_⟩
    rw [hdepth, Json.depthItems_append]
    simp only [Json.depthItems, hshape.depth_eq, List.map_cons, List.foldr_cons]
    omega

theorem ntlvListJson_shape (h : ntlvListJson lib registry items = some value) :
    Shape value (itemsNesting lib registry items) := by
  obtain ⟨array, harray, rfl⟩ := map_eq_some_iff.mp h
  obtain ⟨hwell, hdepth⟩ := putNTLVItems_shape harray trivial
  refine ⟨hwell, ?_⟩
  simp only [Json.depth, hdepth, Json.depthItems, itemsNesting, Nat.zero_max]

theorem nonNull_ntlvListJson (h : ntlvListJson lib registry items = some value) :
    nonNull value = some value :=
  nonNull_of_shape (ntlvListJson_shape h) (Nat.succ_pos _)

end Metadata

section Records

variable {lib : Libs} {registry : Registry}

theorem addField_shape {α : Type} {encode : α → Option Json} {nesting : α → Nat} {field : Option α}
    {value : Option Json} {fields : Fields} {n : Nat} (h : FieldsShape fields n) (name : String)
    (hkey : name ∉ Json.keys fields ∧ Json.ValidKey name)
    (hencode : ∀ a ∈ field, ∀ v, encode a = some v → Shape v (nesting a)) (hvalue : field.mapM encode = some value) :
    FieldsShape (addOptional fields name value) (max n (field.elim 0 nesting)) := by
  rcases Partial.mapM_eq_some hvalue with ⟨rfl, rfl⟩ | ⟨a, v, rfl, hv, rfl⟩
  · simpa [addOptional] using h
  · exact h.add hkey (hencode a rfl v hv)

variable {value : Json}

theorem blockJson_cases
    (h : blockJson lib registry (.mk pId pParentId pParentBlock pMetaDataList) = some value) :
    ∃ id parentId parent metadata, blockIdJson lib pId = some id ∧ pParentId.mapM (blockIdJson lib) = some parentId ∧
      pParentBlock.mapM (blockJson lib registry) = some parent ∧
      pMetaDataList.mapM (ntlvListJson lib registry) = some metadata ∧
      value = .object (addOptional (addOptional (addOptional (add [] "Id" id)
        "Parent_Id" parentId) "Parent" parent) "Metadata" metadata) := by
  rw [blockJson.eq_def] at h
  obtain ⟨id, hid, hrest⟩ := bind_eq_some_iff.mp h
  obtain ⟨parentId, hparentId, hrest⟩ := bind_eq_some_iff.mp hrest
  obtain ⟨parent, hparent, hrest⟩ := bind_eq_some_iff.mp hrest
  obtain ⟨metadata, hmetadata, hobject⟩ := bind_eq_some_iff.mp hrest
  refine ⟨id, parentId, parent, metadata, hid, hparentId, ?_, hmetadata, (some.inj hobject).symm⟩
  cases pParentBlock with
  | none => exact hparent
  | some block => simpa using hparent

theorem eventJson_cases {pId : EventId} {pParentId : Option EventId} {pParent : Option Event}
    {uuidApplicationType : Uuid} {pBlock : Option Block} {pMetaDataList : Option (List NTLVItem)}
    (h : eventJson lib registry (.mk pId pParentId pParent uuidApplicationType pBlock pMetaDataList) = some value) :
    ∃ parent metadata block, pParent.mapM (eventJson lib registry) = some parent ∧
      pMetaDataList.mapM (ntlvListJson lib registry) = some metadata ∧
      pBlock.mapM (blockJson lib registry) = some block ∧
      value = .object (addOptional (addOptional (addOptional (addOptional (putEventId lib [] "Id" pId)
        "Parent_Id" (pParentId.map (eventIdJson lib))) "Parent" parent) "Metadata" metadata) "Block" block) := by
  rw [eventJson.eq_def] at h
  obtain ⟨parent, hparent, hrest⟩ := bind_eq_some_iff.mp h
  obtain ⟨metadata, hmetadata, hrest⟩ := bind_eq_some_iff.mp hrest
  obtain ⟨block, hblock, hobject⟩ := bind_eq_some_iff.mp hrest
  refine ⟨parent, metadata, block, ?_, hmetadata, hblock, (some.inj hobject).symm⟩
  cases pParent with
  | none => exact hparent
  | some event => simpa using hparent

theorem blockNesting_eq (pId : BlockId) (pParentId : Option BlockId) (pParentBlock : Option Block)
    (pMetaDataList : Option (List NTLVItem)) :
    blockNesting lib registry (.mk pId pParentId pParentBlock pMetaDataList) =
      max (max 2 (pParentBlock.elim 0 (blockNesting lib registry)))
        (pMetaDataList.elim 0 (itemsNesting lib registry)) + 1 := by
  cases pParentBlock <;> rfl

theorem eventNesting_eq (pId : EventId) (pParentId : Option EventId) (pParent : Option Event)
    (uuidApplicationType : Uuid) (pBlock : Option Block) (pMetaDataList : Option (List NTLVItem)) :
    eventNesting lib registry (.mk pId pParentId pParent uuidApplicationType pBlock pMetaDataList) =
      max (max (max 3 (pParent.elim 0 (eventNesting lib registry)))
        (pMetaDataList.elim 0 (itemsNesting lib registry))) (pBlock.elim 0 (blockNesting lib registry)) + 1 := by
  cases pParent <;> rfl

theorem blockJson_shape (h : blockJson lib registry block = some value) :
    Shape value (blockNesting lib registry block) := by
  induction block generalizing value with
  | mk pId pParentId pParentBlock pMetaDataList ih =>
    obtain ⟨id, parentId, parent, metadata, hid, hparentId, hparent, hmetadata, rfl⟩ := blockJson_cases h
    have h1 : FieldsShape (add [] "Id" id) 2 := FieldsShape.nil.add ⟨by simp, by decide⟩ (blockIdJson_shape lib hid)
    have h2 : FieldsShape (addOptional (add [] "Id" id) "Parent_Id" parentId) 2 := by
      have h2 := addField_shape h1 "Parent_Id" ⟨by simp, by decide⟩
        (fun id _ v hv => blockIdJson_shape lib hv) hparentId
      cases pParentId <;> exact h2
    have h3 := addField_shape h2 "Parent" ⟨by simp, by decide⟩ (fun p hp v hv => ih p hp hv) hparent
    have h4 := addField_shape h3 "Metadata" ⟨by simp, by decide⟩
      (fun items _ v hv => ntlvListJson_shape hv) hmetadata
    rw [blockNesting_eq]
    exact h4.object

theorem nonNull_blockJson (h : blockJson lib registry block = some value) :
    nonNull value = some value := by
  cases block
  exact nonNull_of_shape (blockJson_shape h) (blockNesting_eq .. ▸ Nat.succ_pos _)

theorem eventJson_shape (h : eventJson lib registry event = some value) :
    Shape value (eventNesting lib registry event) := by
  induction event generalizing value with
  | mk pId pParentId pParent uuidApplicationType pBlock pMetaDataList ih =>
    obtain ⟨parent, metadata, block, hparent, hmetadata, hblock, rfl⟩ := eventJson_cases h
    have h1 : FieldsShape (putEventId lib [] "Id" pId) 3 :=
      FieldsShape.nil.add ⟨by simp, by decide⟩ (eventIdJson_shape lib pId)
    have h2 : FieldsShape (addOptional (putEventId lib [] "Id" pId) "Parent_Id" (pParentId.map (eventIdJson lib))) 3 := by
      have h2 := addField_shape h1 "Parent_Id" ⟨by simp, by decide⟩
        (fun id _ v hv => some.inj hv ▸ eventIdJson_shape lib id) (Partial.mapM_pure (eventIdJson lib) pParentId)
      cases pParentId <;> exact h2
    have h3 := addField_shape h2 "Parent" ⟨by simp, by decide⟩ (fun p hp v hv => ih p hp hv) hparent
    have h4 := addField_shape h3 "Metadata" ⟨by simp, by decide⟩
      (fun items _ v hv => ntlvListJson_shape hv) hmetadata
    have h5 := addField_shape h4 "Block" ⟨by simp, by decide⟩ (fun b _ v hv => blockJson_shape hv) hblock
    rw [eventNesting_eq]
    exact h5.object

theorem nonNull_eventJson (h : eventJson lib registry event = some value) :
    nonNull value = some value := by
  cases event
  exact nonNull_of_shape (eventJson_shape h) (eventNesting_eq .. ▸ Nat.succ_pos _)

end Records

end Razorback.JsonBuffer
