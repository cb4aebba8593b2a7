import Razorback.JsonBuffer.Restored

/-! Which of the records that were written can be read again. -/

namespace Razorback.JsonBuffer
open Records Text Uuids Option
open Json (Fields)

def ReadableId (id : BlockId) : Prop := ∀ hash ∈ id.pHash, hash.iSize = hashExpectedDigestLength hash.iType

def ReadableItems (items : List NTLVItem) : Prop := ∀ item ∈ items, item.pData ≠ []

inductive ReadableBlock : Block → Prop
  | mk {id parentId parent metadata} : ReadableId id → (∀ i ∈ parentId, ReadableId i) →
      (∀ p ∈ parent, ReadableBlock p) → (∀ items ∈ metadata, ReadableItems items) →
      ReadableBlock (.mk id parentId parent metadata)

inductive ReadableEvent : Event → Prop
  | mk {id parentId parent type block metadata} : (∀ p ∈ parent, ReadableEvent p) →
      (∀ items ∈ metadata, ReadableItems items) → (∀ b ∈ block, ReadableBlock b) →
      ReadableEvent (.mk id parentId parent type block metadata)

theorem readableBlock_iff {id : BlockId} {parentId : Option BlockId} {parent : Option Block}
    {metadata : Option (List NTLVItem)} :
    ReadableBlock (.mk id parentId parent metadata) ↔ ReadableId id ∧ (∀ i ∈ parentId, ReadableId i) ∧
      (∀ p ∈ parent, ReadableBlock p) ∧ ∀ items ∈ metadata, ReadableItems items := by
  constructor
  · rintro ⟨hid, hparentId, hparent, hmetadata⟩
    exact ⟨hid, hparentId, hparent, hmetadata⟩
  · rintro ⟨hid, hparentId, hparent, hmetadata⟩
    exact .mk hid hparentId hparent hmetadata

theorem readableEvent_iff {id : EventId} {parentId : Option EventId} {parent : Option Event} {type : Uuid}
    {block : Option Block} {metadata : Option (List NTLVItem)} :
    ReadableEvent (.mk id parentId parent type block metadata) ↔ (∀ p ∈ parent, ReadableEvent p) ∧
      (∀ items ∈ metadata, ReadableItems items) ∧ ∀ b ∈ block, ReadableBlock b := by
  constructor
  · rintro ⟨hparent, hmetadata, hblock⟩
    exact ⟨hparent, hmetadata, hblock⟩
  · rintro ⟨hparent, hmetadata, hblock⟩
    exact .mk hparent hmetadata hblock

section Restored

variable {lib : Libs} {registry : Registry}

variable {value : Json}

theorem restoredBlockId_isSome_iff {id : BlockId} (h : blockIdJson lib id = some value) :
    (restoredBlockId id).isSome ↔ ReadableId id := by
  obtain ⟨hash, hhash, -⟩ := bind_eq_some_iff.mp h
  by_cases hsize : hash.iSize = hashExpectedDigestLength hash.iType <;>
    simp [restoredBlockId, restoredHash, ReadableId, hhash, hsize]

theorem restoredItem_isSome_iff (h : ntlvItemFields lib registry item = some object) :
    (restoredItem lib registry item).isSome ↔ item.pData ≠ [] := by
  obtain ⟨key, value, hvalue, -⟩ := ntlvItemFields_cases h
  have hne : item.pData.getLast? = some 0 → item.pData ≠ [] := by
    rintro hlast hnil
    simp [hnil] at hlast
  cases hvalue with
  | binary hstring hjson hscalar hvalue =>
    by_cases hnil : item.pData = [] <;> simp [restoredItem, hjson, hstring]
  | json hjson hlast hvalue => simp [restoredItem, hjson, (jsonStringJson_eq_some hvalue).1, hne hlast]
  | string hstring hjson hlast => simp [restoredItem, hjson, hstring, hne hlast]
  | scalar hstring hjson hscalar hsize =>
    by_cases hnil : item.pData = [] <;> simp [restoredItem, hjson, hstring]

theorem restoredItems_isSome_iff (h : ntlvListJson lib registry items = some value) :
    (restoredItems lib registry items).isSome ↔ ReadableItems items := by
  obtain ⟨array, harray, -⟩ := map_eq_some_iff.mp h
  have hwritten := ntlvItemFields_of_putNTLVItems harray
  rw [restoredItems, Partial.isSome_list_mapM_iff]
  apply forall₂_congr
  intro item hitem
  obtain ⟨object, hobject⟩ := hwritten item hitem
  exact restoredItem_isSome_iff hobject

theorem isSome_mapM_restored_iff {α β : Type} {encode : α → Option Json} {restored : α → Option β}
    {readable : α → Prop} {field : Option α} {value : Option Json} (hvalue : field.mapM encode = some value)
    (h : ∀ a ∈ field, ∀ v, encode a = some v → ((restored a).isSome ↔ readable a)) :
    (field.mapM restored).isSome ↔ ∀ a ∈ field, readable a := by
  rw [Partial.isSome_mapM_iff]
  apply forall₂_congr
  intro a ha
  obtain ⟨v, hv⟩ := Partial.exists_of_mapM hvalue a ha
  exact h a ha v hv

theorem restoredBlock_isSome_iff (h : blockJson lib registry block = some value) :
    (restoredBlock lib registry block).isSome ↔ ReadableBlock block := by
  induction block generalizing value with
  | mk pId pParentId pParentBlock pMetaDataList ih =>
    obtain ⟨id, parentId, parent, metadata, hid, hparentId, hparent, hmetadata, -⟩ := blockJson_cases h
    have hparentIdRead := isSome_mapM_restored_iff hparentId fun _ _ _ hv => restoredBlockId_isSome_iff hv
    have hparentRead := isSome_mapM_restored_iff hparent fun p hp _ hv => ih p hp hv
    have hmetadataRead := isSome_mapM_restored_iff hmetadata fun _ _ _ hv => restoredItems_isSome_iff hv
    rw [readableBlock_iff, ← restoredBlockId_isSome_iff hid, ← hparentIdRead, ← hparentRead, ← hmetadataRead,
      restoredBlock_eq]
    simp [isSome_iff_exists, bind_eq_some_iff]

theorem restoredEvent_isSome_iff (h : eventJson lib registry event = some value) :
    (restoredEvent lib registry event).isSome ↔ ReadableEvent event := by
  induction event generalizing value with
  | mk pId pParentId pParent uuidApplicationType pBlock pMetaDataList ih =>
    obtain ⟨parent, metadata, block, hparent, hmetadata, hblock, -⟩ := eventJson_cases h
    have hparentRead := isSome_mapM_restored_iff hparent fun p hp _ hv => ih p hp hv
    have hmetadataRead := isSome_mapM_restored_iff hmetadata fun _ _ _ hv => restoredItems_isSome_iff hv
    have hblockRead := isSome_mapM_restored_iff hblock fun _ _ _ hv => restoredBlock_isSome_iff hv
    rw [readableEvent_iff, ← hparentRead, ← hmetadataRead, ← hblockRead, restoredEvent_eq]
    simp [isSome_iff_exists, bind_eq_some_iff]

end Restored

end Razorback.JsonBuffer
