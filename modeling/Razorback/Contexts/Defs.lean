import Razorback.Lists.Items
import Razorback.Records.Defs

/-! The contexts of `api.c` and the list that holds them. For each context there
is the thread of the application that initialises it, and that may shut it down
once it was returned; the command thread, which shares its lock with the hello
timer, looks contexts up and passes over the list; re-registration threads run
beside them. What a registration and the other calls return is an input. A step is
one access to what the threads share; a thread that has to wait takes a step that
changes nothing. `List_Remove` marks nodes under the read lock and unlinks the
marked ones under the write lock. -/

namespace Razorback.Contexts
open Records

inductive Kind
  | collection | inspection | output
  deriving DecidableEq, Repr

/-- Why a context is taken off the list: its initialisation failed, it failed
after `Razorback_Init_Context`, where the context is not destroyed, or it is shut
down. -/
inductive Removal
  | failed | abandoned | shutdown
  deriving DecidableEq, Repr

/-- Where the thread is that initialises and shuts down a context. -/
inductive Owner
  | absent
  | allocate             -- the data type list of an inspection context
  | semaphore (kind : Kind)
  | push (kind : Kind)
  | start (kind : Kind)  -- `CommandAndControl_Start`
  | submission           -- `Submission_Init` of a collection context
  | launch               -- queue, threads and submission of an inspection context
  | returned
  | bye
  | lock
  | mark (removal : Removal)
  | prune (removal : Removal)
  | unlock
  | teardown
  | destroy
  | finished
  deriving DecidableEq, Repr

/-- A command as far as it matters here. -/
structure Message where
  source : Uuid
  dest : Uuid
  rereg : Bool
  deriving DecidableEq, Repr

/-- Where the holder of the dispatch lock is, the command thread or the timer. -/
inductive Dispatch
  | idle
  | looking (message : Message)
  | handling (c : ℕ) (rereg : Bool)
  | visiting (remaining : List ℕ) (rereg : Bool)
  deriving DecidableEq, Repr

inductive Rereg
  | register (c : ℕ)
  | destroy (c : ℕ)
  | finished
  deriving DecidableEq, Repr

inductive Event
  /-- `Razorback_LookupContext` or `Razorback_ForEach_Context` comes to a context. -/
  | yielded (c : ℕ)
  /-- `Razorback_Destroy_Context`, and whether the context is on the list. -/
  | destroyed (c : ℕ) (listed : Bool)
  deriving DecidableEq, Repr

inductive Holder
  | dispatch
  | owner (c : ℕ)
  deriving DecidableEq, Repr

structure State where
  ids : ℕ → Uuid
  contextList : List ℕ
  marked : ℕ → Bool
  owners : ℕ → Owner
  processLock : Option Holder
  dispatch : Dispatch
  started : ℕ
  reregs : ℕ → Rereg

inductive Label
  | init (c : ℕ) (kind : Kind) (nuggetId : Uuid)
  /-- A step of the owner of `c`, with the result of what it calls. -/
  | owner (c : ℕ) (ok : Bool)
  | shutdown (c : ℕ)
  | command (message : Message)
  | helloTimer
  /-- A step of the dispatch, and whether a pass goes on after the context. -/
  | dispatch (goesOn : Bool)
  /-- A step of a re-registration thread, with the result of the registration. -/
  | rereg (k : ℕ) (ok : Bool)
  | lookup (nuggetId : Uuid)
  deriving DecidableEq, Repr

namespace State

def setOwner (s : State) (c : ℕ) (pc : Owner) : State := { s with owners := Function.update s.owners c pc }

/-- A pass holds the read lock of the list. -/
def reading (s : State) : Bool :=
  match s.dispatch with
  | .visiting _ _ => true
  | _ => false

/-- `Context_Cmp` and identity, as `List_FindRemove` tests them. -/
def hit (s : State) (c x : ℕ) : Bool := x = c || s.ids x = s.ids c

def lookupContext (s : State) (nuggetId : Uuid) : Option ℕ :=
  Lists.find (fun c => s.ids c = nuggetId) s.contextList

def launch (s : State) (c : ℕ) (rereg : Bool) : State :=
  if rereg then { s with reregs := Function.update s.reregs s.started (.register c), started := s.started + 1 }
  else s

def release (s : State) : State := { s with dispatch := .idle, processLock := none }

end State

/-- What `Razorback_Init_Context` and its callers do after a successful start. -/
def afterStart : Kind → Owner
  | .collection => .submission
  | .inspection => .launch
  | .output => .returned

def afterPrune : Removal → Owner
  | .failed => .destroy
  | .abandoned => .finished
  | .shutdown => .unlock

def ownerStep (c : ℕ) (ok : Bool) (s : State) : List Event × State :=
  match s.owners c with
  | .absent | .returned | .finished => ([], s)
  | .allocate => ([], s.setOwner c (if ok then .semaphore .inspection else .destroy))
  | .semaphore kind => ([], s.setOwner c (if ok then .push kind else .destroy))
  | .push kind =>
    -- a push that cannot allocate its node is not noticed
    if s.reading then ([], s)
    else if ok then
      ([], { s.setOwner c (.start kind) with
        contextList := s.contextList ++ [c], marked := Function.update s.marked c false })
    else ([], s.setOwner c (.start kind))
  | .start kind => ([], s.setOwner c (if ok then afterStart kind else .mark .failed))
  | .submission => ([], s.setOwner c (if ok then .returned else .mark .failed))
  | .launch => ([], s.setOwner c (if ok then .returned else .mark .abandoned))
  | .bye => ([], s.setOwner c .lock)
  | .lock =>
    if s.processLock = none then ([], { s.setOwner c (.mark .shutdown) with processLock := some (.owner c) })
    else ([], s)
  | .mark removal =>
    ([], { s.setOwner c (.prune removal) with
      marked := fun x => s.marked x || (s.contextList.contains x && s.hit c x) })
  | .prune removal =>
    if s.reading then ([], s)
    else ([], { s.setOwner c (afterPrune removal) with
      contextList := s.contextList.filter fun x => !s.marked x })
  | .unlock => ([], { s.setOwner c .teardown with processLock := none })
  | .teardown => ([], s.setOwner c .destroy)
  | .destroy => ([.destroyed c (s.contextList.contains c)], s.setOwner c .finished)

def dispatchStep (goesOn : Bool) (s : State) : List Event × State :=
  match s.dispatch with
  | .idle => ([], s)
  | .looking message =>
    if message.dest = 0 then
      match s.lookupContext message.source with
      | some c => ([.yielded c], s.release)
      | none => ([], { s with dispatch := .visiting s.contextList message.rereg })
    else
      match s.lookupContext message.dest with
      | some c => ([.yielded c], { s with dispatch := .handling c message.rereg })
      | none => ([], s.release)
  | .handling c rereg => ([], (s.launch c rereg).release)
  | .visiting [] _ => ([], s.release)
  | .visiting (c :: rest) rereg =>
    let s := s.launch c rereg
    ([.yielded c], if goesOn then { s with dispatch := .visiting rest rereg } else s.release)

def reregStep (k : ℕ) (ok : Bool) (s : State) : List Event × State :=
  match s.reregs k with
  | .register c => ([], { s with reregs := Function.update s.reregs k (if ok then .finished else .destroy c) })
  | .destroy c =>
    ([.destroyed c (s.contextList.contains c)], { s with reregs := Function.update s.reregs k .finished })
  | .finished => ([], s)

def step (l : Label) (s : State) : List Event × State :=
  match l with
  | .init c kind nuggetId =>
    if s.owners c = .absent then
      ([], { s.setOwner c (if kind = .inspection then .allocate else .semaphore kind) with
        ids := Function.update s.ids c nuggetId })
    else ([], s)
  | .owner c ok => ownerStep c ok s
  | .shutdown c => if s.owners c = .returned then ([], s.setOwner c .bye) else ([], s)
  | .command message =>
    if s.dispatch = .idle ∧ s.processLock = none then
      ([], { s with dispatch := .looking message, processLock := some .dispatch })
    else ([], s)
  | .helloTimer =>
    if s.dispatch = .idle ∧ s.processLock = none then
      ([], { s with dispatch := .visiting s.contextList false, processLock := some .dispatch })
    else ([], s)
  | .dispatch goesOn => dispatchStep goesOn s
  | .rereg k ok => reregStep k ok s
  | .lookup nuggetId => ((s.lookupContext nuggetId).toList.map .yielded, s)

def State.init : State :=
  { ids := fun _ => 0
    contextList := []
    marked := fun _ => false
    owners := fun _ => .absent
    processLock := none
    dispatch := .idle
    started := 0
    reregs := fun _ => .finished }

end Razorback.Contexts
