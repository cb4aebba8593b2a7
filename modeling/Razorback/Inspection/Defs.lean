import Razorback.Records.Defs
import Razorback.Transfer.Defs
import Razorback.Lists.Refine

/-! The inspection service of `inspection.c` after a successful launch: the
receiver thread, `n` workers and the thread that runs `Inspection_Shutdown`, with
the list of messages that wait for a worker and the list of those that wait for
their ack. A step is one access of a thread to what the threads share; a thread
that has to wait takes a step that changes nothing. The lists are the sequences
that `list.c` refines. Messages are numbered in the order in which `Queue_Get_Ex`
returns them. Telemetry, the sleeps and the launch are left out, and so is which
thread runs the shutdown. -/

namespace Razorback.Inspection
open Records
open Transfer (TransferStatus)
open Razorback.Lists (Seq)

def messageTypeInspection : UInt32 := 0x40000003

def judgmentReasonDone : UInt8 := 0

def judgmentReasonError : UInt8 := 2

def judgmentReasonDeferred : UInt8 := 3

structure Block where
  pId : Option BlockId
  deriving DecidableEq, Repr

structure Submission where
  eventId : Option EventId
  pBlock : Option Block
  deriving DecidableEq, Repr

structure Message where
  type : UInt32
  message : Option Submission
  deriving DecidableEq, Repr

structure Judgment where
  iReason : UInt8
  eventId : EventId
  blockId : BlockId
  deriving DecidableEq, Repr

structure ProcessError where
  processError : String
  errorPhase : String
  errorClass : String
  deriving DecidableEq, Repr

/-- What the calls of one `Inspection_Process_Message` return. -/
structure Results where
  /-- In each round of the loop, `none` if there is no dispatcher. -/
  fetch : ℕ → Option TransferStatus
  /-- The fetched block has both its data and a file name. -/
  hasData : Bool
  cloneEventId : Bool
  cloneBlock : Bool
  processBlock : UInt8
  createJudgment : Bool
  initMessage : Bool
  put : Bool

/-- The rounds that are left of the loop around `Transfer_Fetch`. -/
def fetchLoop (fetch : ℕ → Option TransferStatus) : ℕ → ℕ → TransferStatus → TransferStatus
  | 0, _, transfered => transfered
  | left + 1, transferTries, transfered =>
    match fetch transferTries with
    | none => transfered
    | some .ok => .ok
    | some status => fetchLoop fetch left (transferTries + 1) status

/-- `Inspection_Process_Message` from the call of `Transfer_Fetch` on. -/
def inspectBlock (eventId : Option EventId) (blockId : BlockId) (r : Results) :
    Except ProcessError Judgment :=
  if fetchLoop r.fetch 20 0 .failLocal ≠ .ok then
    .error ⟨"failed to fetch block from dispatcher", "transfer", "transfer_failed"⟩
  else if !r.hasData then
    .error ⟨"inspection block has no local data", "transfer", "missing_block_data"⟩
  else
    match eventId, r.cloneEventId with
    | some eventId, true =>
      if !r.cloneBlock then
        .error ⟨"failed to clone inspection block", "inspection", "clone_failed"⟩
      else if r.processBlock ≠ judgmentReasonDone ∧ r.processBlock ≠ judgmentReasonError ∧
          r.processBlock ≠ judgmentReasonDeferred then
        .error ⟨"inspector returned invalid judgment", "inspection", "invalid_judgment"⟩
      else if !r.createJudgment then
        .error ⟨"failed to create judgment", "submission", "judgment_create_failed"⟩
      else if !r.initMessage then
        .error ⟨"failed to create judgment submission", "submission", "message_create_failed"⟩
      else if !r.put then
        .error ⟨"failed to send judgment submission", "submission", "send_failed"⟩
      else .ok ⟨r.processBlock, eventId, blockId⟩
    | _, _ => .error ⟨"failed to clone event id", "inspection", "clone_failed"⟩

/-- `Inspection_Process_Message`: the judgment it publishes, or why there is none. -/
def processMessage (message : Message) (r : Results) : Except ProcessError Judgment :=
  if message.type ≠ messageTypeInspection then
    .error ⟨"unexpected inspection message type", "validation", "invalid_message"⟩
  else
    match message.message with
    | none => .error ⟨"inspection message missing payload", "validation", "invalid_message"⟩
    | some submission =>
      match submission.pBlock with
      | none => .error ⟨"inspection message missing block", "validation", "invalid_message"⟩
      | some ⟨some ⟨some pHash, uuidDataType, iLength⟩⟩ =>
        inspectBlock submission.eventId ⟨some pHash, uuidDataType, iLength⟩ r
      | some _ => .error ⟨"inspection message missing block hash", "validation", "invalid_message"⟩

inductive Event
  | received (m : ℕ)
  /-- A worker takes the message. -/
  | started (m w : ℕ)
  | published (judgment : Judgment)
  /-- `Inspection_Process_Message` has returned. -/
  | finished (m : ℕ)
  | acked (m : ℕ)
  /-- Rejected with requeue. -/
  | rejected (m : ℕ)
  | destroyed (m : ℕ)
  deriving DecidableEq, Repr

inductive Fault
  | useAfterFree
  deriving DecidableEq, Repr

/-- The receiver thread; `last` in the drain after its loop. -/
inductive Receiver
  | top
  | drain (last : Bool)
  | ack (last : Bool) (m : ℕ)
  | acked (last : Bool) (m : ℕ)
  | get
  | got (m : ℕ)
  | checked (m : ℕ)
  | push (m : ℕ)
  | reject (m : ℕ)
  | rejected (m : ℕ)
  | exited
  deriving DecidableEq, Repr

inductive Worker
  | top
  | pop
  | empty
  | processing (m : ℕ)
  | complete (m : ℕ)
  /-- The completed message could not be queued. -/
  | lost (m : ℕ)
  | leave
  /-- Removed from the thread pool's list. -/
  | exited
  deriving DecidableEq, Repr

inductive Shutdown
  | idle
  | waitWorkers
  | waitCompleted
  | stopReceiver
  | joinReceiver
  | destroyPool
  | destroyPending
  | destroyCompleted
  | terminateQueue
  | done
  deriving DecidableEq, Repr

structure State (n : ℕ) where
  shutdownStarted : Bool
  paused : Bool
  emergencyShutdownRequested : Bool
  pendingMessages : Option (Seq ℕ)
  completedMessages : Option (Seq ℕ)
  /-- The context still holds the queue. -/
  inspectionQueue : Bool
  /-- How many messages `Queue_Get_Ex` has returned. -/
  received : ℕ
  receiver : Receiver
  receiverStopped : Bool
  workers : Fin n → Worker
  workersStopped : Bool
  shutdown : Shutdown

inductive Label (n : ℕ)
  /-- `got` if `Queue_Get_Ex` returns a message, `allocOk` if a list node can be allocated. -/
  | receiver (got allocOk : Bool)
  | worker (w : Fin n) (results : Results) (allocOk : Bool)
  | pause (paused : Bool)
  | shutdown

section
variable {n : ℕ}

def State.setReceiver (s : State n) (receiver : Receiver) : State n := { s with receiver := receiver }

def State.setWorker (s : State n) (w : Fin n) (worker : Worker) : State n :=
  { s with workers := Function.update s.workers w worker }

def State.setShutdown (s : State n) (shutdown : Shutdown) : State n := { s with shutdown := shutdown }

/-- `List_Push` onto a list that has no limit. -/
def push (allocOk : Bool) (list : Option (Seq ℕ)) (m : ℕ) : Except Fault (Option (Seq ℕ)) :=
  match list with
  | none => .error .useAfterFree
  | some L => .ok (if allocOk then some (L.pushItem m) else none)

/-- One step of `Inspection_Receiver_Thread` with `Inspection_Drain_Completed`. -/
def receiverStep (got allocOk : Bool) (s : State n) : Except Fault (List Event × State n) :=
  match s.receiver with
  | .top => .ok ([], s.setReceiver (.drain s.receiverStopped))
  | .drain last =>
    match s.completedMessages with
    | none => .error .useAfterFree
    | some L =>
      match L.takeItem with
      | (some m, L) => .ok ([], { s with completedMessages := some L, receiver := .ack last m })
      | (none, _) => .ok ([], s.setReceiver (if last then .exited else .get))
  | .ack last m =>
    if !s.inspectionQueue then .error .useAfterFree
    else .ok (if allocOk then [.acked m] else [], s.setReceiver (.acked last m))
  | .acked last m => .ok ([.destroyed m], s.setReceiver (.drain last))
  | .get =>
    if !s.inspectionQueue then .error .useAfterFree
    else if got then
      .ok ([.received s.received], { s with received := s.received + 1, receiver := .got s.received })
    else .ok ([], s.setReceiver .top)
  | .got m => .ok ([], s.setReceiver (if s.shutdownStarted then .reject m else .checked m))
  | .checked m =>
    .ok ([], s.setReceiver (if s.receiverStopped || s.shutdownStarted then .reject m else .push m))
  | .push m => do
    match ← push allocOk s.pendingMessages m with
    | some L => .ok ([], { s with pendingMessages := some L, receiver := .top })
    | none => .ok ([], s.setReceiver (.reject m))
  | .reject m =>
    if !s.inspectionQueue then .error .useAfterFree
    else .ok (if allocOk then [.rejected m] else [], s.setReceiver (.rejected m))
  -- a stopped receiver leaves its loop at the top
  | .rejected m => .ok ([.destroyed m], s.setReceiver .top)
  | .exited => .ok ([], s)

/-- One step of `Inspection_Process_Thread` with `Inspection_Complete_Message`. -/
def workerStep (messages : ℕ → Message) (w : Fin n) (results : Results) (allocOk : Bool) (s : State n) :
    Except Fault (List Event × State n) :=
  match s.workers w with
  | .top =>
    .ok ([], s.setWorker w
      (if s.workersStopped then .leave else if s.paused && !s.shutdownStarted then .top else .pop))
  | .pop =>
    match s.pendingMessages with
    | none => .error .useAfterFree
    | some L =>
      match L.pop 1000 with
      | (.past (some m), L) =>
        .ok ([.started m w], { s.setWorker w (.processing m) with pendingMessages := some L })
      | (_, L) => .ok ([], { s.setWorker w .empty with pendingMessages := some L })
  | .empty =>
    match s.pendingMessages with
    | none => .error .useAfterFree
    | some L =>
      .ok ([], s.setWorker w
        (if s.workersStopped || s.shutdownStarted && L.items.isEmpty then .leave else .top))
  | .processing m =>
    match processMessage (messages m) results with
    | .ok judgment => .ok ([.published judgment, .finished m], s.setWorker w (.complete m))
    | .error _ => .ok ([.finished m], s.setWorker w (.complete m))
  | .complete m => do
    match ← push allocOk s.completedMessages m with
    | some L => .ok ([], { s.setWorker w .top with completedMessages := some L })
    | none => .ok ([], s.setWorker w (.lost m))
  -- with `Inspection_Request_Emergency_Shutdown`
  | .lost m =>
    .ok ([.destroyed m], { s.setWorker w .leave with
      shutdownStarted := true, emergencyShutdownRequested := true })
  | .leave => .ok ([], s.setWorker w .exited)
  | .exited => .ok ([], s)

/-- One step of `Inspection_Shutdown`. -/
def shutdownStep (s : State n) : Except Fault (List Event × State n) :=
  let alive : Bool := ∃ w, s.workers w ≠ .exited
  match s.shutdown with
  | .idle => .ok ([], { s with shutdownStarted := true, shutdown := .waitWorkers })
  | .waitWorkers => .ok ([], if alive then s else s.setShutdown .waitCompleted)
  | .waitCompleted =>
    match s.completedMessages with
    | none => .error .useAfterFree
    | some L => .ok ([], if L.items.isEmpty then s.setShutdown .stopReceiver else s)
  | .stopReceiver => .ok ([], { s with receiverStopped := true, shutdown := .joinReceiver })
  | .joinReceiver => .ok ([], if s.receiver = .exited then s.setShutdown .destroyPool else s)
  | .destroyPool =>
    .ok ([], if alive then { s with workersStopped := true } else s.setShutdown .destroyPending)
  | .destroyPending =>
    match s.pendingMessages with
    | none => .error .useAfterFree
    | some L =>
      .ok (L.drained.map .destroyed, { s with pendingMessages := none, shutdown := .destroyCompleted })
  | .destroyCompleted =>
    match s.completedMessages with
    | none => .error .useAfterFree
    | some L =>
      .ok (L.drained.map .destroyed, { s with completedMessages := none, shutdown := .terminateQueue })
  | .terminateQueue => .ok ([], { s with inspectionQueue := false, shutdown := .done })
  | .done => .ok ([], s)

def step (messages : ℕ → Message) (l : Label n) (s : State n) : Except Fault (List Event × State n) :=
  match l with
  | .receiver got allocOk => receiverStep got allocOk s
  | .worker w results allocOk => workerStep messages w results allocOk s
  | .pause paused => .ok ([], { s with paused := paused })
  | .shutdown => shutdownStep s

def State.init (n : ℕ) : State n :=
  { shutdownStarted := false
    paused := false
    emergencyShutdownRequested := false
    pendingMessages := some ⟨[], 0, .queue, none, some 0⟩
    completedMessages := some ⟨[], 0, .generic, none, none⟩
    inspectionQueue := true
    received := 0
    receiver := .top
    receiverStopped := false
    workers := fun _ => .top
    workersStopped := false
    shutdown := .idle }

end

end Razorback.Inspection
