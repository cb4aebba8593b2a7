import Razorback.Transfer.Defs
import Razorback.Base.Pull

/-! The sending side of `transfer/http.c`: `read_callback`, which libcurl calls
with buffers of its own choice until it answers 0, and the parts of
`HTTP_Try_Store` that set the reader up and put it back. The size of an item is 1
in every call, and a buffer is an object in memory, so no sum of sizes wraps. The
request itself, its headers and the response are left out. -/

namespace Razorback.Transfer
open Pull

inductive HttpFault
  | nullPointer
  deriving DecidableEq, Repr

/-- `dataItem` is the first of `ahead`; `before` are the items it has passed. -/
structure StoreContext where
  before : List BlockPoolData
  ahead : List BlockPoolData
  bytesRead : ℕ
  deriving DecidableEq, Repr

/-- `memcpy` from `data.pointer`, which a file's data item does not have. -/
def BlockPoolData.memcpy (d : BlockPoolData) (offset n : ℕ) : Except HttpFault Bytes :=
  match d.chunk with
  | .memory bytes _ _ => .ok ((bytes.drop offset).take n)
  | .file _ => if n = 0 then .ok [] else .error .nullPointer

/-- The loop of `read_callback` over the data items, once the first is not a file. -/
def memoryLoop (want : ℕ) : List BlockPoolData → List BlockPoolData → ℕ → Bytes →
    Except HttpFault (Bytes × StoreContext)
  | before, [], bytesRead, out => .ok (out, ⟨before, [], bytesRead⟩)
  | before, d :: ds, bytesRead, out =>
    if out.length < want then do
      let avail := d.chunk.iLength - bytesRead
      let remain := want - out.length
      let toRead := min remain (min avail want)
      let bytes ← d.memcpy bytesRead toRead
      if bytesRead + toRead = d.chunk.iLength then memoryLoop want (before ++ [d]) ds 0 (out ++ bytes)
      -- the item is not used up, so the buffer is full
      else return (out ++ bytes, ⟨before, d :: ds, bytesRead + toRead⟩)
    else return (out, ⟨before, d :: ds, bytesRead⟩)

def readCallback (nitems : ℕ) (context : StoreContext) : Except HttpFault (Bytes × StoreContext) :=
  match context.ahead with
  | [] => .ok ([], context)
  | d :: ds =>
    match d.chunk with
    | .file content =>
      let nitems := if context.bytesRead + nitems > d.chunk.iLength then
        d.chunk.iLength - context.bytesRead else nitems
      let bytes := (content.drop d.pos).take nitems
      .ok (bytes, { context with
        ahead := { d with pos := d.pos + bytes.length } :: ds
        bytesRead := context.bytesRead + bytes.length })
    | .memory _ _ _ => memoryLoop nitems context.before (d :: ds) context.bytesRead []

def BlockPoolData.rewindFile (d : BlockPoolData) : BlockPoolData :=
  match d.chunk with
  | .file _ => d.rewind
  | .memory _ _ _ => d

/-- `HTTP_Try_Store` with a request that makes at most `calls` calls of the
callback: the bytes sent, whether the callback has answered 0, and the item's list. -/
def httpTryStore (sizes : ℕ → ℕ) (calls : ℕ) (chunks : List BlockPoolData) :
    Except HttpFault (Bytes × Bool × List BlockPoolData) :=
  match chunks with
  -- `status->dataItem->iFlags` without a data item
  | [] => .error .nullPointer
  | d :: ds => do
    let (out, done, context) ← pull readCallback sizes calls 0 ⟨[], d.rewindFile :: ds, 0⟩
    match context.ahead with
    | [] => return (out, done, context.before)
    | d :: ds => return (out, done, context.before ++ d.rewindFile :: ds)

end Razorback.Transfer
