import Razorback.Messages.Restored
import Razorback.JsonBuffer.Texts

/-! What is written of a clone. `Block_Clone` and `JsonBuffer_Put_Block` each have their own list of fields; the parent
block is only in the second. -/

namespace Razorback.Messages
open Records Text Uuids JsonBuffer Option
open Json (Fields add get nonNull)

section Hashes

variable {lib : Libs} {registry : Registry}

theorem hashToText_hashClone (hash : Hash) : (hashClone hash).bind hashToText = hashToText hash := by
  rw [hashClone, hashToText]
  cases hfinal : hash.isFinal with
  | false => rfl
  | true =>
    have hclone : Hash.isFinal { hash with pData := hash.digest, iFlags := hashFlagFinal } :=
      show (hashFlagFinal &&& hashFlagFinal != 0) by decide
    have hshort : hash.digest.length < hash.iSize.toNat ↔ hash.pData.length < hash.iSize.toNat := by
      rw [Hash.digest, List.length_take]
      omega
    have hdigest : Hash.digest { hash with pData := hash.digest, iFlags := hashFlagFinal } = hash.digest := by
      simp only [Hash.digest, List.take_take, min_self]
    rw [if_pos rfl, bind_some, hashToText, hclone, hdigest]
    simp only [hshort]

theorem hashJson_hashClone (hash : Hash) : (hashClone hash).bind hashJson = hashJson hash := by
  have htext := hashToText_hashClone hash
  by_cases hfinal : hash.isFinal
  · rw [hashClone, if_pos hfinal, bind_some] at htext ⊢
    rw [hashJson, htext, hashJson]
  · rw [hashClone, if_neg hfinal] at htext ⊢
    rw [hashJson, ← htext]
    cases hashTypeName hash.iType <;> rfl

theorem blockIdJson_blockIdClone (id : BlockId) : (blockIdClone id).bind (blockIdJson lib) = blockIdJson lib id := by
  rw [blockIdClone, blockIdJson]
  cases id.pHash with
  | none => rfl
  | some hash =>
    have hjson := hashJson_hashClone hash
    cases hclone : hashClone hash with
    | none =>
      simp [hclone, ← hjson]
    | some copy =>
      rw [hclone] at hjson
      simp only [bind_some] at hjson
      simp [hclone, blockIdJson, hjson]

theorem mapM_blockIdClone (id? : Option BlockId) :
    (id?.mapM blockIdClone).bind (fun copy => copy.mapM (blockIdJson lib)) = id?.mapM (blockIdJson lib) := by
  cases id? with
  | none => rfl
  | some id =>
    have hid := @blockIdJson_blockIdClone lib id
    cases hclone : blockIdClone id with
    | none =>
      simp [hclone, ← hid]
    | some copy =>
      rw [hclone, bind_some] at hid
      simp [hclone, hid]

/-! ### Blocks -/

variable {pId : BlockId} {pParentId : Option BlockId} {pParentBlock : Option Block} {items : List NTLVItem}

theorem blockClone_parent :
    blockClone (.mk pId pParentId pParentBlock (some items)) = blockClone (.mk pId pParentId none (some items)) := by
  rw [blockClone, blockClone]

theorem blockJson_blockClone : (blockClone (.mk pId pParentId none (some items))).bind (blockJson lib registry) =
    blockJson lib registry (.mk pId pParentId none (some items)) := by
  have hid := @blockIdJson_blockIdClone lib pId
  have hparent := @mapM_blockIdClone lib pParentId
  cases hcopy : blockIdClone pId with
  | none =>
    simp [blockClone, blockJson, hcopy, ← hid]
  | some copy =>
    rw [hcopy, bind_some] at hid
    cases hparentCopy : pParentId.mapM blockIdClone with
    | none =>
      simp [blockClone, blockJson, hparentCopy, ← hparent]
    | some parentCopy =>
      rw [hparentCopy, bind_some] at hparent
      simp [blockClone, blockJson, hcopy, hparentCopy, hid, hparent]

theorem blockJson_ne_of_parent
    (h : blockJson lib registry (.mk pId pParentId (some parent) (some items)) = some value) :
    blockJson lib registry (.mk pId pParentId none (some items)) ≠ some value := by
  intro hnone
  obtain ⟨id, parentId, parentJson, metadata, -, -, hparent, -, hvalue⟩ := blockJson_cases h
  obtain ⟨id', parentId', parentJson', metadata', -, -, hparent', -, hvalue'⟩ := blockJson_cases hnone
  obtain rfl : none = parentJson' := some.inj hparent'
  have hfields := Json.object.inj (hvalue.symm.trans hvalue')
  have hwritten : parentJson.elim none nonNull = parentJson := elim_nonNull (fun _ _ => nonNull_blockJson) hparent
  have hget : parentJson = none := by simpa [hwritten] using congrArg (get · "Parent") hfields
  have hsome : parentJson.isSome := by
    obtain ⟨v, _, rfl⟩ := map_eq_some_iff.mp hparent
    rfl
  rw [hget] at hsome
  cases hsome

/-- A clone is written as its original if the original has no parent block, and only then; so the `Block` of an
inspection message is the `Block` of its event exactly for a block without a parent block. -/
theorem cloned_block_written_iff :
    (pParentBlock = none → (blockClone (.mk pId pParentId pParentBlock (some items))).bind (blockJson lib registry) =
      blockJson lib registry (.mk pId pParentId pParentBlock (some items))) ∧
    (∀ value, blockJson lib registry (.mk pId pParentId pParentBlock (some items)) = some value →
      ((blockClone (.mk pId pParentId pParentBlock (some items))).bind (blockJson lib registry) = some value ↔
        pParentBlock = none)) ∧
    ∀ eventId pParentEventId pParent uuidApplicationType metadata iReason localityCount localities message fields
      eventFields,
      inspectionSubmissionInitialize (some (.mk eventId pParentEventId pParent uuidApplicationType
        (some (.mk pId pParentId pParentBlock (some items))) metadata)) iReason localityCount localities =
          some message →
      messageFields lib registry (.inspection message) = some fields →
      eventJson lib registry (.mk eventId pParentEventId pParent uuidApplicationType
        (some (.mk pId pParentId pParentBlock (some items))) metadata) = some (.object eventFields) →
      (get fields "Block" = get eventFields "Block" ↔ pParentBlock = none) := by
  have hkeeps : pParentBlock = none →
      (blockClone (.mk pId pParentId pParentBlock (some items))).bind (blockJson lib registry) =
        blockJson lib registry (.mk pId pParentId pParentBlock (some items)) := by
    rintro rfl
    exact blockJson_blockClone
  have hiff : ∀ value, blockJson lib registry (.mk pId pParentId pParentBlock (some items)) = some value →
      ((blockClone (.mk pId pParentId pParentBlock (some items))).bind (blockJson lib registry) = some value ↔
        pParentBlock = none) := by
    refine fun value hvalue => ⟨fun hclone => ?_, fun hnone => (hkeeps hnone).trans hvalue⟩
    rw [blockClone_parent, blockJson_blockClone] at hclone
    cases pParentBlock with
    | none => rfl
    | some parent => exact absurd hclone (blockJson_ne_of_parent hvalue)
  refine ⟨hkeeps, hiff, ?_⟩
  intro eventId pParentEventId pParent uuidApplicationType metadata iReason localityCount localities message fields
    eventFields hmessage hfields hevent
  obtain ⟨_, _, _, _, _, hblock, heventFields⟩ := eventJson_cases hevent
  obtain ⟨value, hvalue, rfl⟩ := map_eq_some_iff.mp hblock
  obtain rfl := Json.object.inj heventFields
  obtain ⟨copy, hcopy, hrest⟩ := bind_eq_some_iff.mp hmessage
  obtain ⟨_, _, hmessage⟩ := bind_eq_some_iff.mp hrest
  obtain ⟨_, _, _, hclone, rfl⟩ := inspection_cases hfields
  rw [← some.inj hmessage] at hclone
  rw [← hiff value hvalue, hcopy, bind_some, hclone]
  simp [nonNull_blockJson hclone, nonNull_blockJson hvalue]

end Hashes

def smallBlockId (byte : UInt8) : BlockId where
  pHash := some ⟨hashTypeMD5, 1, [byte], hashFlagFinal⟩
  uuidDataType := 1
  iLength := 1

/-- A block with a parent id, by itself and in the event that an inspection message is built from. -/
theorem cloned_block_written_alone :
    (blockClone (.mk (smallBlockId 1) (some (smallBlockId 2)) none (some []))).bind (blockJson textLibs fun _ => []) =
      blockJson textLibs (fun _ => []) (.mk (smallBlockId 1) (some (smallBlockId 2)) none (some [])) ∧
    ∃ value, blockJson textLibs (fun _ => []) (.mk (smallBlockId 1) (some (smallBlockId 2)) none (some [])) = some value ∧
      (blockClone (.mk (smallBlockId 1) (some (smallBlockId 2)) none (some []))).bind
        (blockJson textLibs fun _ => []) = some value ∧
      ∃ message fields eventFields, inspectionSubmissionInitialize (some (.mk ⟨1, 2, 3⟩ none none 4
          (some (.mk (smallBlockId 1) (some (smallBlockId 2)) none (some []))) (some []))) 0 0 [] = some message ∧
        messageFields textLibs (fun _ => []) (.inspection message) = some fields ∧
        eventJson textLibs (fun _ => []) (.mk ⟨1, 2, 3⟩ none none 4
          (some (.mk (smallBlockId 1) (some (smallBlockId 2)) none (some []))) (some [])) = some (.object eventFields) ∧
        get fields "Block" = get eventFields "Block" := by
  have hwritten := @cloned_block_written_iff textLibs (fun _ => []) (smallBlockId 1) (some (smallBlockId 2)) none []
  refine ⟨hwritten.1 rfl, _, rfl, (hwritten.2.1 _ rfl).mpr rfl, _, _, _, rfl, rfl, rfl, ?_⟩
  exact (hwritten.2.2 ⟨1, 2, 3⟩ none none 4 (some []) 0 0 [] _ _ _ rfl rfl rfl).mpr rfl

/-- Of a block with a parent block the parent is written, of its clone it is not. -/
theorem cloned_block_without_parent : ∃ fields copyFields,
    blockJson textLibs (fun _ => []) (.mk (smallBlockId 1) none (some (.mk (smallBlockId 2) none none (some [])))
      (some [])) = some (.object fields) ∧
    (blockClone (.mk (smallBlockId 1) none (some (.mk (smallBlockId 2) none none (some []))) (some []))).bind
      (blockJson textLibs fun _ => []) = some (.object copyFields) ∧
    (get fields "Parent").isSome = true ∧ get copyFields "Parent" = none :=
  ⟨_, _, rfl, rfl, rfl, rfl⟩

end Razorback.Messages
