import Razorback.JsonBuffer.Restored
import Razorback.JsonBuffer.Texts

/-! Events and judgments survive their codec. -/

namespace Razorback.Records

/-! ### Equality of the fields the codec carries -/

def Hash.Same (a b : Hash) : Prop := a.iType = b.iType ∧ a.iSize = b.iSize ∧ a.digest = b.digest

def BlockId.Same (a b : BlockId) : Prop :=
  Option.Rel Hash.Same a.pHash b.pHash ∧ a.uuidDataType = b.uuidDataType ∧ a.iLength = b.iLength

inductive Block.Same : Block → Block → Prop
  | root {id id' parentId parentId' metadata} : id.Same id' → Option.Rel BlockId.Same parentId parentId' →
      Block.Same (.mk id parentId none metadata) (.mk id' parentId' none metadata)
  | child {id id' parentId parentId' parent parent' metadata} : id.Same id' →
      Option.Rel BlockId.Same parentId parentId' → Block.Same parent parent' →
      Block.Same (.mk id parentId (some parent) metadata) (.mk id' parentId' (some parent') metadata)

/-- The application type of an event is not among the fields. -/
inductive Event.Same : Event → Event → Prop
  | root {id parentId type type' block block' metadata} : Option.Rel Block.Same block block' →
      Event.Same (.mk id parentId none type block metadata) (.mk id parentId none type' block' metadata)
  | child {id parentId parent parent' type type' block block' metadata} : Event.Same parent parent' →
      Option.Rel Block.Same block block' →
      Event.Same (.mk id parentId (some parent) type block metadata) (.mk id parentId (some parent') type' block' metadata)

def Judgment.Same (a b : Judgment) : Prop :=
  b = { a with pBlockId := b.pBlockId } ∧ Option.Rel BlockId.Same a.pBlockId b.pBlockId

end Razorback.Records

namespace Razorback.JsonBuffer
open Records Text Uuids Option
open Json (Fields add get)

/-! ### The records the codec is meant for -/

def RestoresExactly (lib : Libs) (registry : Registry) (item : NTLVItem) : Prop :=
  ∀ object, ntlvItemFields lib registry item = some object → getNTLVItem lib registry [] object = some [item]

def CompleteId (id : BlockId) : Prop := ∀ hash ∈ id.pHash, hash.Complete

def Restorable (lib : Libs) (registry : Registry) (items : List NTLVItem) : Prop :=
  ∀ item ∈ items, RestoresExactly lib registry item

inductive RestorableBlock (lib : Libs) (registry : Registry) : Block → Prop
  | mk {id parentId parent metadata} : CompleteId id → (∀ i ∈ parentId, CompleteId i) →
      (∀ p ∈ parent, RestorableBlock lib registry p) → (∀ items ∈ metadata, Restorable lib registry items) →
      RestorableBlock lib registry (.mk id parentId parent metadata)

/-- Every event of the chain has a metadata list. -/
inductive RestorableEvent (lib : Libs) (registry : Registry) : Event → Prop
  | mk {id parentId parent type block items} : (∀ p ∈ parent, RestorableEvent lib registry p) →
      (∀ b ∈ block, RestorableBlock lib registry b) → Restorable lib registry items →
      RestorableEvent lib registry (.mk id parentId parent type block (some items))

structure RestorableJudgment (lib : Libs) (registry : Registry) (judgment : Judgment) : Prop where
  eventId : judgment.pEventId.isSome
  blockId : ∃ id, judgment.pBlockId = some id ∧ CompleteId id
  metadata : ∃ items, judgment.pMetaDataList = some items ∧ Restorable lib registry items

/-! ### They are read back as they were written -/

section Same

variable {lib : Libs} {registry : Registry}

variable {value : Json}

theorem restoredBlockId_same {id : BlockId} (hid : CompleteId id)
    (h : blockIdJson lib id = some value) : ∃ id', restoredBlockId id = some id' ∧ id.Same id' := by
  obtain ⟨hash, hhash, -⟩ := bind_eq_some_iff.mp h
  have hcomplete := hid hash hhash
  have hrestored : restoredHash hash = some { hash with pData := hash.digest, iFlags := hashFlagFinal } := by
    rw [restoredHash, if_pos hcomplete.size]
  refine ⟨{ id with pHash := some { hash with pData := hash.digest, iFlags := hashFlagFinal } }, ?_, ?_⟩
  · simp only [restoredBlockId, hhash, hrestored, bind_eq_bind, bind_some]
  · refine ⟨?_, rfl, rfl⟩
    rw [hhash]
    -- the bytes behind the digest are gone, so the digest of what arrived is taken twice
    have hdigest : hash.digest = hash.digest.take hash.iSize.toNat := by
      rw [Hash.digest, List.take_take, Nat.min_self]
    exact .some ⟨rfl, rfl, hdigest⟩

theorem restoresExactly_of_plain (hne : item.pData ≠ [])
    (hjson : ntlvTypeUsesJsonValue registry item.uuidType = false)
    (hstring : isString registry item.uuidType →
      scalarOf registry item.uuidType = none ∧ 0 ∉ item.pData.dropLast) : RestoresExactly lib registry item := by
  intro object h
  have hrestored : restoredItem lib registry item = some item := by
    cases hs : isString registry item.uuidType with
    | false => simp [restoredItem, hjson, hs, hne]
    | true =>
      obtain ⟨hscalar, hnul⟩ := hstring hs
      obtain ⟨_, _, hvalue, -⟩ := ntlvItemFields_cases h
      have hlast : item.pData.getLast? = some 0 := by
        cases hvalue <;> simp_all
      have hdata : (cString item.pData).terminated = item.pData := (terminated_cString hlast).mpr hnul
      simp [restoredItem, hjson, hs, wireText, hscalar, hdata]
  rw [getNTLVItem_written h, hrestored]
  rfl

theorem restoredItem_exact (hitem : RestoresExactly lib registry item)
    (h : ntlvItemFields lib registry item = some object) : restoredItem lib registry item = some item := by
  have hread := hitem object h
  rw [getNTLVItem_written h] at hread
  obtain ⟨restored, hrestored, heq⟩ := map_eq_some_iff.mp hread
  rw [hrestored]
  exact congrArg some (List.singleton_injective heq)

theorem restoredItems_exact (hitems : Restorable lib registry items)
    (h : ntlvListJson lib registry items = some value) : restoredItems lib registry items = some items := by
  obtain ⟨array, harray, -⟩ := map_eq_some_iff.mp h
  apply Partial.list_mapM_self
  intro item hitem
  obtain ⟨object, hobject⟩ := ntlvItemFields_of_putNTLVItems harray item hitem
  exact restoredItem_exact (hitems item hitem) hobject

theorem restoredBlock_same (hblock : RestorableBlock lib registry block)
    (h : blockJson lib registry block = some value) :
    ∃ block', restoredBlock lib registry block = some block' ∧ block.Same block' := by
  induction block generalizing value with
  | mk pId pParentId pParentBlock pMetaDataList ih =>
    cases hblock with
    | mk hid hparentId hparent hmetadata =>
      obtain ⟨id, parentId, parent, metadata, hidJson, hparentIdJson, hparentJson, hmetadataJson, -⟩ := blockJson_cases h
      obtain ⟨id', hid', hidSame⟩ := restoredBlockId_same hid hidJson
      obtain ⟨parentId', hparentId', hparentIdSame⟩ :=
        Partial.mapM_rel (fun i hi v hv => restoredBlockId_same (hparentId i hi) hv) hparentIdJson
      obtain ⟨parent', hparent', hparentSame⟩ :=
        Partial.mapM_rel (fun p hp v hv => ih p hp (hparent p hp) hv) hparentJson
      have hmetadata' := Partial.mapM_self (fun items hitems v hv => restoredItems_exact (hmetadata items hitems) hv)
        hmetadataJson
      refine ⟨.mk id' parentId' parent' pMetaDataList, ?_, ?_⟩
      · simp only [restoredBlock_eq, hid', hparentId', hparent', hmetadata', bind_eq_bind, bind_some]
      · cases hparentSame with
        | none => exact .root hidSame hparentIdSame
        | some hsame => exact .child hidSame hparentIdSame hsame

theorem restoredEvent_same (hevent : RestorableEvent lib registry event)
    (h : eventJson lib registry event = some value) :
    ∃ event', restoredEvent lib registry event = some event' ∧ event.Same event' := by
  induction event generalizing value with
  | mk pId pParentId pParent uuidApplicationType pBlock pMetaDataList ih =>
    cases hevent with
    | @mk _ _ _ _ _ items hparent hblock hitems =>
      obtain ⟨parent, metadata, block, hparentJson, hmetadataJson, hblockJson, -⟩ := eventJson_cases h
      obtain ⟨parent', hparent', hparentSame⟩ :=
        Partial.mapM_rel (fun p hp v hv => ih p hp (hparent p hp) hv) hparentJson
      obtain ⟨block', hblock', hblockSame⟩ :=
        Partial.mapM_rel (fun b hb v hv => restoredBlock_same (hblock b hb) hv) hblockJson
      have hitems' := Partial.mapM_self (fun i hi v hv => restoredItems_exact (some.inj hi ▸ hitems) hv) hmetadataJson
      refine ⟨.mk pId pParentId parent' 0 block' (some items), ?_, ?_⟩
      · simp only [restoredEvent_eq, hparent', hblock', hitems', bind_eq_bind, bind_some, getD_some]
      · cases hparentSame with
        | none => exact .root hblockSame
        | some hsame => exact .child hsame hblockSame

theorem restoredJudgment_same (hjudgment : RestorableJudgment lib registry judgment)
    (h : putJudgmentFields lib registry [] judgment = some object) :
    ∃ judgment', restoredJudgment lib registry judgment = some judgment' ∧ judgment.Same judgment' := by
  obtain ⟨eventId, blockId, items, blockIdValue, metadata, heventId, hblockId, hitems, hblockIdValue, hmetadata, -⟩ :=
    putJudgmentFields_cases h
  obtain ⟨id, hid, hcomplete⟩ := hjudgment.blockId
  obtain ⟨list, hlist, hrestorable⟩ := hjudgment.metadata
  obtain rfl : id = blockId := some.inj (hid.symm.trans hblockId)
  obtain rfl : list = items := some.inj (hlist.symm.trans hitems)
  obtain ⟨id', hid', hsame⟩ := restoredBlockId_same hcomplete hblockIdValue
  have hitems' := restoredItems_exact hrestorable hmetadata
  refine ⟨{ judgment with pBlockId := some id', pMetaDataList := some list }, ?_, ?_, ?_⟩
  · simp only [restoredJudgment, hblockId, hid', hitems, hitems', bind_eq_bind, bind_some]
  · simp only [hitems]
  · rw [hblockId]
    exact .some hsame

end Same

/-- Events with chains of parents of any length, and judgments, are read from the object they were put on with
the fields they had. -/
theorem event_judgment_round_trip (lib : Libs) (registry : Registry) (name : String) :
    (∀ event fields, RestorableEvent lib registry event → putEvent lib registry [] name event = some fields →
      ∃ event', getEvent lib registry fields name = some event' ∧ event.Same event') ∧
    (∀ judgment fields, RestorableJudgment lib registry judgment →
      putJudgment lib registry [] name judgment = some fields →
      ∃ judgment', getJudgment lib registry fields name = some judgment' ∧ judgment.Same judgment') := by
  constructor
  · intro event fields hevent hput
    obtain ⟨value, hvalue, rfl⟩ := map_eq_some_iff.mp hput
    have hget : get (add [] name value) name = some value := by
      simp [nonNull_eventJson hvalue]
    rw [getEvent_of_get hvalue hget]
    exact restoredEvent_same hevent hvalue
  · intro judgment fields hjudgment hput
    obtain ⟨object, hobject, -⟩ := map_eq_some_iff.mp hput
    rw [getJudgment_written hput]
    exact restoredJudgment_same hjudgment hobject

/-! An event with a parent, on a block with a parent, with a STRING and a binary value; a judgment of it. -/

def sampleBlockId : BlockId := ⟨some ⟨hashTypeMD5, 16, List.replicate 16 171, hashFlagFinal⟩, 5, 4096⟩

def sampleItems : List NTLVItem := [⟨7, 1, [65, 66, 0]⟩, ⟨8, 2, [0, 255]⟩]

def sampleBlock : Block :=
  .mk sampleBlockId (some sampleBlockId) (some (.mk sampleBlockId none none none)) (some sampleItems)

def sampleEvent : Event :=
  .mk ⟨3, 10, 20⟩ (some ⟨3, 9, 0⟩) (some (.mk ⟨3, 9, 0⟩ none none 6 none (some []))) 6 (some sampleBlock)
    (some sampleItems)

def sampleJudgment : Judgment where
  uuidNuggetId := 3
  iSeconds := 2 ^ 64 - 1
  iNanoSecs := 20
  pEventId := some ⟨3, 10, 20⟩
  pBlockId := some sampleBlockId
  iPriority := 255
  pMetaDataList := some sampleItems
  iGID := 2 ^ 32 - 1
  iSID := 4
  setSfFlags := 1
  setEntFlags := 2
  unsetSfFlags := 3
  unsetEntFlags := 4
  sMessage := none

theorem completeId_sampleBlockId : CompleteId sampleBlockId := by
  rintro hash ⟨rfl⟩
  exact ⟨by decide, by decide, by decide, by decide⟩

theorem restorable_sampleItems : Restorable textLibs stringRegistry sampleItems := by
  intro item hitem
  have hplain : item.pData ≠ [] ∧ ntlvTypeUsesJsonValue stringRegistry item.uuidType = false ∧
      (isString stringRegistry item.uuidType →
        scalarOf stringRegistry item.uuidType = none ∧ 0 ∉ item.pData.dropLast) := by
    revert item
    decide
  exact restoresExactly_of_plain hplain.1 hplain.2.1 hplain.2.2

theorem restorableEvent_sampleEvent : RestorableEvent textLibs stringRegistry sampleEvent := by
  have hparentBlock : RestorableBlock textLibs stringRegistry (.mk sampleBlockId none none none) :=
    .mk completeId_sampleBlockId (by simp) (by simp) (by simp)
  have hblock : RestorableBlock textLibs stringRegistry sampleBlock := by
    refine .mk completeId_sampleBlockId ?_ ?_ ?_
    · rintro id ⟨rfl⟩
      exact completeId_sampleBlockId
    · rintro parent ⟨rfl⟩
      exact hparentBlock
    · rintro items ⟨rfl⟩
      exact restorable_sampleItems
  have hparent : RestorableEvent textLibs stringRegistry (.mk ⟨3, 9, 0⟩ none none 6 none (some [])) :=
    .mk (by simp) (by simp) (by simp [Restorable])
  refine .mk ?_ ?_ restorable_sampleItems
  · rintro parent ⟨rfl⟩
    exact hparent
  · rintro block ⟨rfl⟩
    exact hblock

theorem event_judgment_round_trip_sample :
    (∃ fields event', putEvent textLibs stringRegistry [] "Event" sampleEvent = some fields ∧
      getEvent textLibs stringRegistry fields "Event" = some event' ∧ sampleEvent.Same event') ∧
    (∃ fields judgment', putJudgment textLibs stringRegistry [] "Judgment" sampleJudgment = some fields ∧
      getJudgment textLibs stringRegistry fields "Judgment" = some judgment' ∧ sampleJudgment.Same judgment') := by
  constructor
  · obtain ⟨fields, hput⟩ := isSome_iff_exists.mp
      (show (putEvent textLibs stringRegistry [] "Event" sampleEvent).isSome = true from by decide)
    obtain ⟨event', hget, hsame⟩ := (event_judgment_round_trip textLibs stringRegistry "Event").1 sampleEvent fields
      restorableEvent_sampleEvent hput
    exact ⟨fields, event', hput, hget, hsame⟩
  · obtain ⟨fields, hput⟩ := isSome_iff_exists.mp
      (show (putJudgment textLibs stringRegistry [] "Judgment" sampleJudgment).isSome = true from by decide)
    have hjudgment : RestorableJudgment textLibs stringRegistry sampleJudgment :=
      ⟨rfl, ⟨sampleBlockId, rfl, completeId_sampleBlockId⟩, ⟨sampleItems, rfl, restorable_sampleItems⟩⟩
    obtain ⟨judgment', hget, hsame⟩ := (event_judgment_round_trip textLibs stringRegistry "Judgment").2
      sampleJudgment fields hjudgment hput
    exact ⟨fields, judgment', hput, hget, hsame⟩

end Razorback.JsonBuffer
