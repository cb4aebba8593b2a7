import Razorback.Records.Defs
import Razorback.Base.Text

/-! Blocks, events, judgments and nuggets with the metadata they carry. -/

namespace Razorback.Records
open Text

structure NTLVItem where
  uuidName : Uuid
  uuidType : Uuid
  pData : Bytes
  deriving DecidableEq, Repr

/-- `struct Block` without its data; a list is absent where the pointer is NULL. -/
inductive Block
  | mk (pId : BlockId) (pParentId : Option BlockId) (pParentBlock : Option Block)
      (pMetaDataList : Option (List NTLVItem))

inductive Event
  | mk (pId : EventId) (pParentId : Option EventId) (pParent : Option Event) (uuidApplicationType : Uuid)
      (pBlock : Option Block) (pMetaDataList : Option (List NTLVItem))

structure Judgment where
  uuidNuggetId : Uuid
  iSeconds : UInt64
  iNanoSecs : UInt64
  pEventId : Option EventId
  pBlockId : Option BlockId
  iPriority : UInt8
  pMetaDataList : Option (List NTLVItem)
  iGID : UInt32
  iSID : UInt32
  setSfFlags : UInt32
  setEntFlags : UInt32
  unsetSfFlags : UInt32
  unsetEntFlags : UInt32
  sMessage : Option CString

structure Nugget where
  uuidNuggetId : Uuid
  uuidApplicationType : Uuid
  uuidNuggetType : Uuid
  sName : Option CString
  sLocation : Option CString
  sContact : Option CString

@[induction_eliminator]
theorem Block.chain {motive : Block → Prop}
    (mk : ∀ pId pParentId pParentBlock pMetaDataList, (∀ parent ∈ pParentBlock, motive parent) →
      motive (.mk pId pParentId pParentBlock pMetaDataList)) : ∀ block, motive block
  | .mk pId pParentId none pMetaDataList => mk pId pParentId none pMetaDataList (by simp)
  | .mk pId pParentId (some parent) pMetaDataList =>
    mk pId pParentId (some parent) pMetaDataList fun _ h => Option.some.inj h ▸ chain mk parent

@[induction_eliminator]
theorem Event.chain {motive : Event → Prop}
    (mk : ∀ pId pParentId pParent uuidApplicationType pBlock pMetaDataList, (∀ parent ∈ pParent, motive parent) →
      motive (.mk pId pParentId pParent uuidApplicationType pBlock pMetaDataList)) : ∀ event, motive event
  | .mk pId pParentId none uuidApplicationType pBlock pMetaDataList =>
    mk pId pParentId none uuidApplicationType pBlock pMetaDataList (by simp)
  | .mk pId pParentId (some parent) uuidApplicationType pBlock pMetaDataList =>
    mk pId pParentId (some parent) uuidApplicationType pBlock pMetaDataList
      fun _ h => Option.some.inj h ▸ chain mk parent

end Razorback.Records
