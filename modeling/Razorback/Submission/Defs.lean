import Mathlib.Data.Fintype.Basic
import Razorback.Lists.Refine
import Razorback.LocalCache.Defs
import Razorback.Transfer.Defs

/-! The submission pipeline of `submission.c`: callers of `Submission_Submit` and
the request, response and submit workers pass block pool items to each other
through two queues, a status word and scans of the block pool. A step is one
item-locked section, one locked section of a list, or the receipt of a message,
by one thread. Results of the broker, of the transports and of allocations come
with the step. The events of a step are the effects that the pipeline promises
something about. Telemetry and the cache lookup timings are left out. -/

namespace Razorback.Submission
open Razorback.Lists (Seq)
open LocalCache (Bytes CacheType Caches LookupResult)
open Transfer (TransferStatus)

inductive Status
  | collecting | finalized | checkGlobalCache | checkingGlobalCache | submitData | error | noType
  deriving DecidableEq, Repr

def Status.code : Status → UInt32
  | .collecting => 0x01
  | .finalized => 0x02
  | .checkGlobalCache => 0x04
  | .checkingGlobalCache => 0x08
  | .submitData => 0x10
  | .error => 0x20
  | .noType => 0x21

def statusMask : UInt32 := 0x000000FF
def flagMask : UInt32 := 0xFF000000
def flagMayReuse : UInt32 := 0x01000000
def flagUpdate : UInt32 := 0x02000000
def flagEventOnly : UInt32 := 0x04000000

def sfFlagBad : UInt32 := 0x00000002
def sfFlagCanHaz : UInt32 := 0x00000020
def sfFlagAll : UInt32 := 0xFFFFFFFF

structure BlockId where
  hash : Bytes
  /-- The null UUID is 0. -/
  uuidDataType : ℕ
  iLength : ℕ
  deriving DecidableEq, Repr

structure Item where
  iStatus : UInt32
  /-- `pDataHead` is not `NULL`. -/
  hasData : Bool
  /-- `submittedCallback` is not `NULL`. -/
  submittedCallback : Bool
  context : ℕ
  pId : BlockId
  pParentId : Option BlockId
  deriving DecidableEq, Repr

def Item.getStatus (item : Item) : UInt32 := item.iStatus &&& statusMask

def Item.setStatus (item : Item) (st : Status) : Item :=
  { item with iStatus := (st.code &&& statusMask) ||| (item.iStatus &&& flagMask) }

def Item.setFlags (item : Item) (flags : UInt32) : Item :=
  { item with iStatus := (flags &&& flagMask) ||| (item.iStatus &&& statusMask) }

def Item.needsStore (item : Item) : Bool := item.iStatus &&& (flagEventOnly ||| flagUpdate) == 0

def Item.mayReuse (item : Item) : Bool := item.iStatus &&& flagMayReuse == flagMayReuse

def Item.dropData (item : Item) : Item := { item with hasData := false }

inductive Reason
  | event | requested
  deriving DecidableEq, Repr

structure Dispatcher where
  uuidNuggetId : ℕ
  locality : UInt8
  deriving DecidableEq, Repr

structure CacheResult where
  pId : BlockId
  iSfFlags : UInt32
  iEntFlags : UInt32
  context : ℕ
  deriving DecidableEq, Repr

def CacheResult.canHaz (res : CacheResult) : Bool := res.iSfFlags &&& sfFlagCanHaz == sfFlagCanHaz

/-- `RZB_SUBMISSION_*`, with the flags handed back to the caller. -/
inductive SubmitResult
  | ok (sfFlags entFlags : UInt32) | error | noType
  deriving DecidableEq, Repr

inductive Event
  /-- The item is locked or read. -/
  | touched (item : ℕ)
  | status (item : ℕ) (st : Status)
  /-- The item is pushed on `submitQueue`, with its data to be stored or without. -/
  | pushed (item : ℕ) (store : Bool)
  | callback (item : ℕ)
  /-- `Queue_Put` took a block submission message for the item. -/
  | published (item : ℕ) (reason : Reason) (storedLocality : UInt8)
  | destroyed (item : ℕ)
  /-- `Submission_Submit` found the item in the local cache. -/
  | hit (item : ℕ)
  | returned (item : ℕ) (result : SubmitResult)
  | received (res : CacheResult)
  /-- The cache response put the item on its way. -/
  | matched (item : ℕ) (res : CacheResult)
  /-- A call of `Transfer_Store` for the item returned. -/
  | stored (item : ℕ) (result : TransferStatus)
  /-- The tries are used up or no dispatcher is left. -/
  | gaveUp (item : ℕ)
  deriving DecidableEq, Repr

inductive Fault
  | useAfterFree
  | cache (fault : LocalCache.Fault)
  deriving DecidableEq, Repr

inductive Pc
  | idle
  /-- A request worker has popped the item. -/
  | request (item : ℕ)
  /-- A submit worker has popped the item. -/
  | submit (item : ℕ)
  /-- A response worker walks the pool under its read lock, `rest` ahead of it. -/
  | respond (res : CacheResult) (rest : List ℕ)
  /-- `BlockPool_DestroyItem` is about to be called. -/
  | destroy (item : ℕ)
  /-- The reading pass of `List_Remove` on the pool; `del` once the node is marked. -/
  | remove (item : ℕ) (rest : List ℕ) (del : Bool)
  /-- The writing pass of `List_Remove` is due. -/
  | prune
  deriving DecidableEq, Repr

def Pc.reading : Pc → Bool
  | .respond _ _ | .remove _ _ _ => true
  | _ => false

structure PoolNode where
  item : ℕ
  del : Bool
  deriving DecidableEq, Repr

structure State (n : ℕ) where
  items : ℕ → Item
  freed : List ℕ
  /-- The items that were passed to `Submission_Submit`. -/
  submitted : List ℕ
  pool : List PoolNode
  requestQueue : Seq ℕ
  submitQueue : Seq ℕ
  caches : Caches
  threads : Fin n → Pc
  /-- The local variable `storedLocality` of each submit worker. -/
  storedLocality : Fin n → UInt8

/-- The try results of one item: the dispatcher found and what `Transfer_Store` returned. -/
abbrev Attempts := ℕ → Option (Dispatcher × TransferStatus)

/-- The loop over `transferTries`, with `fuel` tries left: the last status, the
dispatcher of a success, and what each `Transfer_Store` returned. -/
def storeTries (attempt : Attempts) : ℕ → ℕ → TransferStatus →
    TransferStatus × Option Dispatcher × List TransferStatus
  | 0, _, transfered => (transfered, none, [])
  | fuel + 1, tries, _ =>
    match attempt tries with
    | none => (.failLocal, none, [])
    | some (dispatcher, .ok) => (.ok, some dispatcher, [.ok])
    | some (_, result) =>
      let (transfered, dispatcher, results) := storeTries attempt fuel (tries + 1) result
      (transfered, dispatcher, result :: results)

def transferTries : ℕ := 20

def popTimeout : ℕ := 100

section
variable {n : ℕ}

namespace State

def setItem (s : State n) (i : ℕ) (item : Item) : State n :=
  { s with items := Function.update s.items i item }

def setThread (s : State n) (t : Fin n) (pc : Pc) : State n :=
  { s with threads := Function.update s.threads t pc }

def poolItems (s : State n) : List ℕ := s.pool.map PoolNode.item

def marked (s : State n) : List ℕ := (s.pool.filter PoolNode.del).map PoolNode.item

def mark (s : State n) (i : ℕ) : State n :=
  { s with pool := s.pool.map fun node => if node.item = i then { node with del := true } else node }

def pushRequest (s : State n) (allocOk : Bool) (i : ℕ) : State n :=
  if allocOk then { s with requestQueue := s.requestQueue.pushItem i } else s

/-- `List_Push(submitQueue, item)`; an allocation failure loses the item. -/
def pushSubmit (s : State n) (allocOk : Bool) (i : ℕ) : List Event × State n :=
  if allocOk then
    ([.pushed i (s.items i).needsStore], { s with submitQueue := s.submitQueue.pushItem i })
  else ([], s)

def touch (s : State n) (i : ℕ) : Except Fault Unit :=
  if i ∈ s.freed then .error .useAfterFree else .ok ()

end State

def fromCache {α : Type} (x : Except LocalCache.Fault α) : Except Fault α := x.mapError .cache

def callbackEvents (i : ℕ) (item : Item) : List Event :=
  if item.submittedCallback then [.callback i] else []

/-- `BlockPool_SetStatus`, `submittedCallback`, unlock, and off to `BlockPool_DestroyItem`. -/
def finish (t : Fin n) (i : ℕ) (st : Status) (s : State n) : List Event × State n :=
  (.status i st :: callbackEvents i (s.items i),
    (s.setItem i ((s.items i).setStatus st)).setThread t (.destroy i))

/-- The two lookups of `Submission_Submit`: the flags of a hit. -/
def lookup (beyond : CacheType → ℕ → ℕ → UInt8) (hash : Bytes) (cs : Caches) :
    Except LocalCache.Fault (Option (UInt32 × UInt32) × Caches) := do
  let ((r, flags), cs) ← LocalCache.checkLocalEntry (beyond .badHash) (some hash) (some 0) (some 0)
    .badHash cs
  if r = .found then
    return (flags, cs)
  else
    let ((r, flags), cs) ← LocalCache.checkLocalEntry (beyond .goodHash) (some hash) (some 0) (some 0)
      .goodHash cs
    return (if r = .found then flags else none, cs)

def refuse (t : Fin n) (i : ℕ) (st : Status) (result : SubmitResult) (s : State n) :
    List Event × State n :=
  let (es, s) := finish t i st s
  (es ++ [.returned i result], s)

/-- The locked section of `Submission_Submit`. -/
def submissionSubmit (t : Fin n) (i : ℕ) (flags : UInt32) (outNull allocOk : Bool)
    (beyond : CacheType → ℕ → ℕ → UInt8) (s : State n) : Except Fault (List Event × State n) :=
  let item := s.items i
  if item.pParentId = some item.pId then .ok (refuse t i .error .error s)
  else if outNull then .ok (refuse t i .error .error s)
  else if item.pId.uuidDataType = 0 then .ok (refuse t i .noType .noType s)
  else do
    let (found, caches) ← fromCache (lookup beyond item.pId.hash s.caches)
    let s := { s with caches := caches }
    match found with
    | some (sf, ent) =>
      let item := (item.dropData.setStatus .submitData).setFlags (flags ||| flagEventOnly)
      let (pushed, s) := (s.setItem i item).pushSubmit allocOk i
      return (.hit i :: .status i .submitData :: pushed ++ [.returned i (.ok sf ent)], s)
    | none =>
      let item := (item.setStatus .checkGlobalCache).setFlags flags
      let s := (s.setItem i item).pushRequest allocOk i
      return ([.status i .checkGlobalCache, .returned i (.ok 0 0)], s)

/-- The locked section of `Submission_GlobalCache_RequestThread`; `sendOk` if the
request message could be made and put. -/
def requestSection (t : Fin n) (i : ℕ) (sendOk : Bool) (s : State n) : List Event × State n :=
  let item := s.items i
  if item.getStatus ≠ Status.checkGlobalCache.code then ([], s.setThread t .idle)
  else
    let s := s.setItem i (item.setStatus .checkingGlobalCache)
    if sendOk then ([.status i .checkingGlobalCache], s.setThread t .idle)
    else
      let (es, s) := finish t i .error s
      (.status i .checkingGlobalCache :: es, s)

/-- `Submission_GlobalCache_ResponseHandler`. -/
def responseHandler (allocOk mallocOk : Bool) (res : CacheResult) (i : ℕ) (s : State n) :
    Except Fault (List Event × State n) :=
  let item := s.items i
  if item.getStatus = Status.checkingGlobalCache.code ∧ item.context = res.context ∧
      item.pId = res.pId then do
    let type := if res.iSfFlags &&& sfFlagBad ≠ 0 then .badHash else .goodHash
    let (_, caches) ← fromCache (LocalCache.addLocalEntry mallocOk item.pId.hash
      (res.iSfFlags &&& (sfFlagCanHaz ^^^ sfFlagAll)) res.iEntFlags type s.caches)
    let item := item.setStatus .submitData
    let item := if res.canHaz then item else item.setFlags (item.iStatus ||| flagEventOnly)
    let (pushed, s) := ({ s with caches := caches }.setItem i item).pushSubmit allocOk i
    return (.matched i res :: .status i .submitData :: pushed, s)
  else
    return ([], s)

/-- The end of the locked section of `Submission_SubmitThread`, from the making
of the message on. -/
def publish (t : Fin n) (i : ℕ) (reason : Reason) (initOk putOk : Bool) (s : State n) :
    List Event × State n :=
  if initOk then
    let st := if putOk then .finalized else .error
    let item := (s.items i).setStatus st
    let sent := if putOk then [.published i reason (s.storedLocality t)] else []
    let es := sent ++ .status i st :: callbackEvents i item
    if item.mayReuse then (es, (s.setItem i (item.setFlags 0).dropData).setThread t .idle)
    else (es, (s.setItem i item).setThread t (.destroy i))
  else finish t i .error s

/-- The locked section of `Submission_SubmitThread`. -/
def submitSection (t : Fin n) (i : ℕ) (attempt : Attempts) (initOk putOk : Bool) (s : State n) :
    List Event × State n :=
  let item := s.items i
  if item.getStatus ≠ Status.submitData.code then ([], s.setThread t .idle)
  else if item.needsStore then
    let (transfered, dispatcher, results) := storeTries attempt transferTries 0 .failLocal
    match transfered, dispatcher with
    | .ok, some dispatcher =>
      let s := { s with storedLocality := Function.update s.storedLocality t dispatcher.locality }
      let (es, s) := publish t i .requested initOk putOk s
      (results.map (.stored i) ++ es, s)
    | _, _ =>
      let (es, s) := finish t i .error s
      (results.map (.stored i) ++ .gaveUp i :: es, s)
  else publish t i .event initOk putOk s

/-- The destroy callback on each marked node of a prune. -/
def freeAll : List ℕ → List ℕ → Except Fault (List ℕ)
  | [], freed => .ok freed
  | i :: rest, freed => if i ∈ freed then .error .useAfterFree else freeAll rest (i :: freed)

inductive Label (n : ℕ)
  | submit (t : Fin n) (item : ℕ) (flags : UInt32) (outNull allocOk : Bool)
      (beyond : CacheType → ℕ → ℕ → UInt8)
  | popRequest (t : Fin n)
  | request (t : Fin n) (sendOk : Bool)
  | receive (t : Fin n) (res : CacheResult)
  | respond (t : Fin n) (allocOk mallocOk : Bool)
  | popSubmit (t : Fin n)
  | transfer (t : Fin n) (attempt : Attempts) (initOk putOk : Bool)
  | destroy (t : Fin n)
  | remove (t : Fin n)
  | prune (t : Fin n)

/-- One step of one thread; a thread that is not at the step's place, or waits
for the write lock, does nothing. An item is submitted once. -/
def step (l : Label n) (s : State n) : Except Fault (List Event × State n) :=
  match l with
  | .submit t i flags outNull allocOk beyond =>
    if s.threads t = .idle ∧ i ∈ s.poolItems ∧ i ∉ s.submitted then do
      s.touch i
      let (es, s) ← submissionSubmit t i flags outNull allocOk beyond
        { s with submitted := i :: s.submitted }
      return (.touched i :: es, s)
    else .ok ([], s)
  | .popRequest t =>
    match s.threads t with
    | .idle =>
      let (r, queue) := s.requestQueue.pop popTimeout
      let s := { s with requestQueue := queue }
      match r with
      | .past (some i) => do
        s.touch i
        return ([.touched i], s.setThread t (.request i))
      | _ => .ok ([], s)
    | _ => .ok ([], s)
  | .request t sendOk =>
    match s.threads t with
    | .request i => do
      s.touch i
      let (es, s) := requestSection t i sendOk s
      return (.touched i :: es, s)
    | _ => .ok ([], s)
  | .receive t res =>
    match s.threads t with
    | .idle => .ok ([.received res], s.setThread t (.respond res s.poolItems))
    | _ => .ok ([], s)
  | .respond t allocOk mallocOk =>
    match s.threads t with
    | .respond _ [] => .ok ([], s.setThread t .idle)
    | .respond res (i :: rest) => do
      s.touch i
      let (es, s) ← responseHandler allocOk mallocOk res i s
      return (.touched i :: es, s.setThread t (.respond res rest))
    | _ => .ok ([], s)
  | .popSubmit t =>
    match s.threads t with
    | .idle =>
      let (r, queue) := s.submitQueue.pop popTimeout
      let s := { s with submitQueue := queue }
      match r with
      | .past (some i) => do
        s.touch i
        return ([.touched i], s.setThread t (.submit i))
      | _ => .ok ([], s)
    | _ => .ok ([], s)
  | .transfer t attempt initOk putOk =>
    match s.threads t with
    | .submit i => do
      s.touch i
      let (es, s) := submitSection t i attempt initOk putOk s
      return (.touched i :: es, s)
    | _ => .ok ([], s)
  | .destroy t =>
    match s.threads t with
    | .destroy i => .ok ([], s.setThread t (.remove i s.poolItems false))
    | _ => .ok ([], s)
  | .remove t =>
    match s.threads t with
    | .remove _ [] del => .ok ([], s.setThread t (if del then .prune else .idle))
    | .remove i (j :: rest) del => do
      s.touch j
      if j = i then
        return ([.touched j], (s.mark i).setThread t (.remove i rest true))
      else
        return ([.touched j], s.setThread t (.remove i rest del))
    | _ => .ok ([], s)
  | .prune t =>
    if s.threads t = .prune ∧ ∀ u, (s.threads u).reading = false then do
      let freed ← freeAll s.marked s.freed
      let kept := s.pool.filter fun node => !node.del
      return (s.marked.map .destroyed, { s with freed := freed, pool := kept }.setThread t .idle)
    else .ok ([], s)

def newQueue : Seq ℕ := ⟨[], 0, .queue, none, some 0⟩

/-- The block pool with the items `ids`, before anything was submitted. -/
def State.init (items : ℕ → Item) (ids : List ℕ) (caches : Caches) : State n :=
  ⟨items, [], [], ids.map fun i => ⟨i, false⟩, newQueue, newQueue, caches, fun _ => .idle, fun _ => 0⟩

end

end Razorback.Submission
