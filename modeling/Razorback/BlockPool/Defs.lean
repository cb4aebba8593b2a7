import Razorback.Base.Runs
import Razorback.Records.Hashes
import Razorback.Submission.Defs
import Razorback.Transfer.Defs

/-! The block pool of `block_pool.c`: items, the data attached to them and the process-wide count `sg_size`. The results
of the calls outside the program come with the calls: allocations, `fopen`, `fstat`, the digest and `libmagic`. Events
and telemetry are left out, and so are the flags of a chunk, which tell only how it is freed. -/

namespace Razorback.BlockPool
open Records
open Transfer (Chunk contents)
open Submission (Status)

/-! ### Configuration -/

/-- The keys `Submission.Pool.*` that are configured, each a `conf_int_t`. -/
structure PoolKeys where
  maxItems : Option Int32
  maxSize : Option Int32
  maxItemSize : Option Int32
  deriving DecidableEq

/-- What the functions `Config_getBlockPool*` return. -/
structure Limits where
  maxItems : UInt32
  maxSize : UInt32
  maxItemSize : UInt32
  deriving DecidableEq

/-- The three rows of `global_config` in their order: the row of `MaxItemSize` has the variable of `MaxSize`. -/
def PoolKeys.limits (keys : PoolKeys) : Limits :=
  let blockPoolMaxItems := keys.maxItems.getD 0
  let blockPoolMaxSize := keys.maxSize.getD 0
  let blockPoolMaxSize := keys.maxItemSize.getD blockPoolMaxSize
  { maxItems := blockPoolMaxItems.toUInt32, maxSize := blockPoolMaxSize.toUInt32, maxItemSize := 0 }

/-- A limit of zero is none; the sum is taken in 64 bits. -/
def exceeds (limit : UInt32) (total : UInt64) : Bool := 0 < limit && limit.toUInt64 ≤ total

/-! ### Hashes -/

/-- A `struct Hash` while data is added to it: the bytes its digest context was given. -/
structure HashContext where
  iType : UInt32
  input : Bytes
  final : Bool
  deriving DecidableEq

def hashCreateType (type : UInt32) : Option HashContext :=
  if hashExpectedDigestLength type = 0 then none else some { iType := type, input := [], final := false }

/-- `Hash_Update`, whose result the block pool does not look at. -/
def hashUpdate (hash : HashContext) (data : Bytes) : HashContext :=
  if hash.final then hash else { hash with input := hash.input ++ data }

/-- The loop of `Hash_Update_File` over what is unread of the file. -/
def updateLoop (input unread : Bytes) : Bytes :=
  if unread = [] then input else updateLoop (input ++ unread.take 4096) (unread.drop 4096)
termination_by unread.length
decreasing_by
  rename_i hne
  have hpos := List.length_pos_iff.mpr hne
  rw [List.length_drop]
  omega

def hashUpdateFile (hash : HashContext) (content : Bytes) : HashContext :=
  if hash.final then hash else { hash with input := updateLoop hash.input content }

def hashFinalize (hash : HashContext) : Option HashContext := if hash.final then none else some { hash with final := true }

/-! ### Items -/

/-- `struct BlockPoolItem` with the fields of its block id. -/
structure PoolItem where
  iStatus : UInt32
  data : List Chunk
  iLength : UInt64
  hash : HashContext
  uuidDataType : Uuid
  deriving DecidableEq

structure Buffer where
  bytes : Bytes
  hlen : bytes.length < 2 ^ 32

/-- A file whose size fits `off_t`. -/
structure File where
  content : Bytes
  hsize : content.length < 2 ^ 63

def PoolItem.attach (item : PoolItem) (chunk : Chunk) (hash : HashContext) : PoolItem :=
  { item with data := item.data ++ [chunk], iLength := item.iLength + UInt64.ofNat chunk.bytes.length, hash }

inductive Stop
  /-- `sg_sizeMutex` is locked by the thread that waits for it. -/
  | deadlock
  /-- `Magic_process` copies from the pointer of a file chunk, which is NULL. -/
  | nullPointer
  deriving DecidableEq, Repr

section Calls

variable (limits : Limits)

/-- `BlockPool_AddData` with the item and `sg_size`; the buffer is NULL where it is `none`. -/
def addData (data : Option Buffer) (allocOk : Bool) (item : PoolItem) (sgSize : UInt64) : Bool × PoolItem × UInt64 :=
  match data with
  | none => (false, item, sgSize)
  | some data =>
    if hpos : 0 < data.bytes.length then
      let length := UInt64.ofNat data.bytes.length
      if exceeds limits.maxSize (sgSize + length) then (false, item, sgSize)
      else
        let sgSize := sgSize + length
        if item.iStatus ≠ Status.collecting.code then (false, item, sgSize - length)
        else if exceeds limits.maxItemSize (item.iLength + length) then (false, item, sgSize - length)
        else if !allocOk then (false, item, sgSize - length)
        else
          let chunk := Chunk.memory data.bytes hpos data.hlen
          (true, item.attach chunk (hashUpdate item.hash data.bytes), sgSize)
    else (false, item, sgSize)

/-- `BlockPool_AddData_FromFile`. The block it destroys when it fails has length zero, except that over the pool's
limit it destroys it with `sg_sizeMutex` held, which `BlockPool_DestroyItemDataList` locks again. -/
def addDataFromFile (allocOk : Bool) (file : Option File) (statOk : Bool) (item : PoolItem) (sgSize : UInt64) :
    Except Stop (Bool × PoolItem × UInt64) :=
  if !allocOk then .ok (false, item, sgSize)
  else
    match file with
    | none => .ok (false, item, sgSize)
    | some file =>
      if !statOk then .ok (false, item, sgSize)
      else
        let size := UInt64.ofNat file.content.length
        if exceeds limits.maxSize (sgSize + size) then .error .deadlock
        else
          let sgSize := sgSize + size
          if item.iStatus ≠ Status.collecting.code then .ok (false, item, sgSize - size)
          else if exceeds limits.maxItemSize (item.iLength + size) then .ok (false, item, sgSize - size)
          else .ok (true, item.attach (.file file.content) (hashUpdateFile item.hash file.content), sgSize)

end Calls

def howMany : ℕ := 4096

/-- The loop of `Magic_process` over chunks behind a first one in memory: does it read a NULL pointer? -/
def magicReadsNull (nbytes : ℕ) : List Chunk → Bool
  | [] => false
  | chunk :: rest =>
    if howMany ≤ nbytes then false
    else
      let toCopy := if howMany < nbytes + chunk.iLength then howMany - nbytes else chunk.iLength
      match chunk with
      | .memory .. => magicReadsNull (nbytes + toCopy) rest
      | .file _ => if toCopy = 0 then magicReadsNull nbytes rest else true

/-- `Magic_process`; `mime` is the data type it finds. -/
def magicProcess (magicOk : Bool) (mime : Option Uuid) (item : PoolItem) : Except Stop PoolItem :=
  let found := { item with uuidDataType := mime.getD item.uuidDataType }
  match item.data with
  | .memory .. :: _ =>
    if !magicOk then .ok item
    else if magicReadsNull 0 item.data then .error .nullPointer
    else .ok found
  | _ => .ok (if magicOk then found else item)

/-- `BlockPool_FinalizeItem`; `digestOk` is the result of `EVP_DigestFinal_ex`. -/
def finalizeItem (digestOk magicOk : Bool) (mime : Option Uuid) (item : PoolItem) : Except Stop (Bool × PoolItem) :=
  if item.iStatus ≠ Status.collecting.code then .ok (false, item)
  else
    match if digestOk then hashFinalize item.hash else none with
    | none => .ok (false, item)
    | some hash =>
      let item := { item with hash }
      let finish := fun item : PoolItem => (true, { item with iStatus := Status.finalized.code })
      if item.uuidDataType = 0 ∧ item.data ≠ [] then (magicProcess magicOk mime item).map finish
      else .ok (finish item)

/-- `BlockPool_DestroyItemDataList` on `sg_size`: each chunk is taken off with the length its record has. -/
def destroyItemDataList (data : List Chunk) (sgSize : UInt64) : UInt64 :=
  data.foldl (fun sgSize chunk => sgSize - UInt64.ofNat chunk.iLength) sgSize

/-! ### The pool -/

/-- The items that were created, `none` once destroyed, and `sg_size`. -/
structure State where
  slots : List (Option PoolItem)
  sgSize : UInt64
  deriving DecidableEq

def State.init : State := { slots := [], sgSize := 0 }

def State.itemCount (s : State) : ℕ := s.slots.countP Option.isSome

def State.item (s : State) (i : ℕ) : Option PoolItem := s.slots[i]?.join

def State.setItem (s : State) (i : ℕ) (item : Option PoolItem) (sgSize : UInt64) : State :=
  { slots := s.slots.set i item, sgSize }

/-- There is no item without a hash. -/
def newItem (hashType : UInt32) : Option PoolItem :=
  (hashCreateType hashType).map fun hash =>
    { iStatus := Status.collecting.code, data := [], iLength := 0, hash, uuidDataType := 0 }

inductive Call
  | createItem (allocOk : Bool)
  | addData (i : ℕ) (data : Option Buffer) (allocOk : Bool)
  | addDataFromFile (i : ℕ) (allocOk : Bool) (file : Option File) (statOk : Bool)
  | finalizeItem (i : ℕ) (digestOk magicOk : Bool) (mime : Option Uuid)
  /-- The list of an item is destroyed and its head and tail set to NULL. -/
  | destroyDataList (i : ℕ)
  | destroyItem (i : ℕ)

inductive Result
  | created (item : Option ℕ)
  | added (ok : Bool)
  | finalized (ok : Bool)
  | destroyed
  /-- There is no such item to make the call with. -/
  | noItem
  deriving DecidableEq, Repr

def State.withItem (s : State) (i : ℕ) (f : PoolItem → Except Stop (Result × State)) : Except Stop (Result × State) :=
  match s.item i with
  | none => .ok (.noItem, s)
  | some item => f item

def step (hashType : UInt32) (limits : Limits) (call : Call) (s : State) : Except Stop (Result × State) :=
  match call with
  | .createItem allocOk =>
    if 0 < limits.maxItems ∧ limits.maxItems.toNat ≤ s.itemCount then .ok (.created none, s)
    else
      match if allocOk then newItem hashType else none with
      | none => .ok (.created none, s)
      | some item => .ok (.created (some s.slots.length), { s with slots := s.slots ++ [some item] })
  | .addData i data allocOk => s.withItem i fun item =>
    let (ok, item, sgSize) := BlockPool.addData limits data allocOk item s.sgSize
    .ok (.added ok, s.setItem i item sgSize)
  | .addDataFromFile i allocOk file statOk => s.withItem i fun item => do
    let (ok, item, sgSize) ← BlockPool.addDataFromFile limits allocOk file statOk item s.sgSize
    return (.added ok, s.setItem i item sgSize)
  | .finalizeItem i digestOk magicOk mime => s.withItem i fun item => do
    let (ok, item) ← BlockPool.finalizeItem digestOk magicOk mime item
    return (.finalized ok, s.setItem i item s.sgSize)
  | .destroyDataList i => s.withItem i fun item =>
    .ok (.destroyed, s.setItem i (some { item with data := [] }) (destroyItemDataList item.data s.sgSize))
  | .destroyItem i => s.withItem i fun item =>
    .ok (.destroyed, s.setItem i none (destroyItemDataList item.data s.sgSize))

end Razorback.BlockPool
