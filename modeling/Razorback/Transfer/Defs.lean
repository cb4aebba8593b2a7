import Razorback.Base.Writes

/-! Storing a block through the File and SSH transports: `Transfer_Store` of
`transfer/core.c` with the stores of `transfer/file.c` and `transfer/ssh.c`. The
two stores differ in the integer their `writeWrap` counts with and in the status
of a failure. The results of every call outside the program come with the attempt
(directories, sessions, opens) or stand in a list (writes). Reads of the chunks'
files succeed. Telemetry and the freeing of names are left out. -/

namespace Razorback.Transfer
open Writes (Sink)

abbrev Bytes := List UInt8

inductive TransferStatus
  | ok | failDispatcher | failLocal
  deriving DecidableEq, Repr

/-- What `BlockPool_AddData` and `BlockPool_AddData_FromFile` can add to an item;
a length passed to the former is a positive `uint32_t`. -/
inductive Chunk
  | memory (bytes : Bytes) (hpos : 0 < bytes.length) (hlen : bytes.length < 2 ^ 32)
  | file (content : Bytes)
  deriving DecidableEq, Repr

namespace Chunk

def bytes : Chunk → Bytes
  | .memory bytes _ _ => bytes
  | .file content => content

/-- The field is a `uint32_t`, also for a file. -/
def iLength (c : Chunk) : ℕ := c.bytes.length % 2 ^ 32

end Chunk

/-- A chunk in an item's list, with the offset of its `FILE`. -/
structure BlockPoolData where
  chunk : Chunk
  pos : ℕ
  deriving DecidableEq, Repr

def BlockPoolData.rewind (d : BlockPoolData) : BlockPoolData := { d with pos := 0 }

/-- The list as the block pool leaves it: `Hash_Update_File` rewinds each file. -/
def added (cs : List Chunk) : List BlockPoolData := cs.map fun c => ⟨c, 0⟩

def contents (cs : List Chunk) : Bytes := cs.flatMap Chunk.bytes

/-- `writeWrap`: the loop runs over as many bytes as the length is in a signed
integer of `width` bits, so over none if that is negative. -/
def writeWrap (width : ℕ) (data : Bytes) (fd : Sink UInt8) : Bool × Sink UInt8 :=
  fd.write (data.take (BitVec.ofNat width data.length).toInt.toNat)

/-- `fread` of up to 4096 bytes and `writeWrap` in turn over what is unread of a
file; the count is of the bytes read. -/
def copyLoop (wrap : Bytes → Sink UInt8 → Bool × Sink UInt8) (unread : Bytes) (fd : Sink UInt8) :
    Bool × ℕ × Sink UInt8 :=
  if unread = [] then (true, 0, fd)
  else
    let data := unread.take 4096
    match wrap data fd with
    | (false, fd) => (false, data.length, fd)
    | (true, fd) =>
      let (ok, n, fd) := copyLoop wrap (unread.drop 4096) fd
      (ok, data.length + n, fd)
termination_by unread.length
decreasing_by
  rename_i hne
  have hpos := List.length_pos_iff.mpr hne
  rw [List.length_drop]
  omega

/-- One round of the loop over the data items. -/
def storeChunk (wrap : Bytes → Sink UInt8 → Bool × Sink UInt8) (d : BlockPoolData) (fd : Sink UInt8) :
    Bool × BlockPoolData × Sink UInt8 :=
  match d.chunk with
  | .file content =>
    match copyLoop wrap (content.drop d.pos) fd with
    | (true, _, fd) => (true, d.rewind, fd)
    -- a failed write returns without the `rewind`
    | (false, n, fd) => (false, { d with pos := d.pos + n }, fd)
  | .memory bytes _ _ =>
    let (ok, fd) := wrap bytes fd
    (ok, d, fd)

def storeChunks (wrap : Bytes → Sink UInt8 → Bool × Sink UInt8) :
    List BlockPoolData → Sink UInt8 → Bool × List BlockPoolData × Sink UInt8
  | [], fd => (true, [], fd)
  | d :: ds, fd =>
    match storeChunk wrap d fd with
    | (false, d, fd) => (false, d :: ds, fd)
    | (true, d, fd) =>
      let (ok, ds, fd) := storeChunks wrap ds fd
      (ok, d :: ds, fd)

/-- The file at the block's path, the item's list and the results of the writes to come. -/
structure Store where
  path : Option Bytes
  chunks : List BlockPoolData
  writes : List (Option ℕ)
  deriving DecidableEq, Repr

/-- How the calls before the first write go in one attempt. -/
structure Attempt where
  contextOk : Bool
  sessionOk : Bool
  checkOk : Bool
  nameOk : Bool
  dirOk : Bool
  pathOk : Bool
  /-- `open` with `O_RDONLY` succeeds if there is a file. -/
  readOk : Bool
  createOk : Bool
  deriving DecidableEq, Repr

/-- From the check for an existing file on. -/
def openAndWrite (wrap : Bytes → Sink UInt8 → Bool × Sink UInt8) (failed : TransferStatus) (a : Attempt)
    (s : Store) : TransferStatus × Store :=
  if s.path.isSome ∧ a.readOk then (.ok, s)
  else if a.createOk then
    let (ok, chunks, fd) := storeChunks wrap s.chunks ⟨[], s.writes⟩
    (if ok then .ok else failed, ⟨some fd.content, chunks, fd.results⟩)
  else (failed, s)

/-- `Transfer_File_Store`; `SizeDword` and `totalbytes` are `int`. -/
def fileStore (a : Attempt) (s : Store) : TransferStatus × Store :=
  if !a.nameOk then (.failLocal, s)
  else if !a.dirOk then (.failLocal, s)
  else if !a.pathOk then (.failLocal, s)
  else openAndWrite (writeWrap 32) .failLocal a s

/-- `Transfer_SSH_Store`; `size` and `totalbytes` are `ssize_t`. -/
def sshStore (a : Attempt) (s : Store) : TransferStatus × Store :=
  if !a.contextOk then (.failLocal, s)
  else if !a.sessionOk then (.failDispatcher, s)
  else if !a.checkOk then (.failDispatcher, s)
  else if !a.nameOk then (.failLocal, s)
  else if !a.dirOk then (.failDispatcher, s)
  else if !a.pathOk then (.failLocal, s)
  else openAndWrite (writeWrap 64) .failDispatcher a s

inductive Transport
  | file | ssh
  deriving DecidableEq, Repr

def Transport.store : Transport → Attempt → Store → TransferStatus × Store
  | .file => fileStore
  | .ssh => sshStore

def retries : ℕ := 5

/-- The loop over the attempts, from attempt `i` with `fuel` of them left. -/
def storeLoop (trans : Transport) (attempts : ℕ → Attempt) :
    ℕ → ℕ → TransferStatus → Store → TransferStatus × Store
  | 0, _, status, s => (status, s)
  | fuel + 1, i, _, s =>
    let (status, s) := trans.store (attempts i) s
    if status = .ok then (status, s) else storeLoop trans attempts fuel (i + 1) status s

/-- `Transfer_Store`; there is no transport if the dispatcher or its descriptor is
missing. -/
def transferStore (trans : Option Transport) (attempts : ℕ → Attempt) (s : Store) :
    TransferStatus × Store :=
  match trans with
  | none => (.failLocal, s)
  | some trans => storeLoop trans attempts retries 0 .failLocal s

end Razorback.Transfer
