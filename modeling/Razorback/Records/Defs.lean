import Mathlib.Data.UInt

/-! The identifiers that events, blocks and judgments carry. -/

namespace Razorback.Records

abbrev Bytes := List UInt8

abbrev Uuid := BitVec 128

structure EventId where
  uuidNuggetId : Uuid
  iSeconds : UInt64
  iNanoSecs : UInt64
  deriving DecidableEq, Repr

/-- `struct Hash` without the digest's context. -/
structure Hash where
  iType : UInt32
  iSize : UInt32
  pData : Bytes
  iFlags : UInt32
  deriving DecidableEq, Repr

structure BlockId where
  pHash : Option Hash
  uuidDataType : Uuid
  iLength : UInt64
  deriving DecidableEq, Repr

end Razorback.Records
