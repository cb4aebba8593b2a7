import Razorback.Base.Histories
import Razorback.Base.Holders
import Razorback.Base.References
import Razorback.Lists.Items

/-! The health checks of `health.c`. Registering, unregistering and taking a
snapshot are sections under the mutex; an evaluation runs the callbacks of its
snapshot without it, and who has taken a check off the list waits for its
`activeSnapshots` to become 0 before freeing it. A step is one such section, one
atomic operation, or the start or return of a call or a callback. Checks are
numbered in the order in which they draw their ids. A call that a callback makes
is a call of a thread of its own, whose steps come between those of the caller. -/

namespace Razorback.Health
open Runs Histories Holders References

inductive Kind
  | live | ready | startup
  /-- No value of the enumeration. -/
  | other (value : ℕ)
  deriving DecidableEq, Repr

structure Check where
  id : ℕ
  kind : Kind
  activeSnapshots : ℕ

/-- Who has taken a check off the list. -/
inductive Remover
  | unregister (id : ℕ)
  | shutdown
  deriving DecidableEq, Repr

inductive Pc
  | idle
  /-- In `RegisterCheck` before the mutex. -/
  | registering (kind : Kind)
  /-- In `UnregisterCheck` before the mutex. -/
  | removing (id : ℕ)
  /-- In `Health_EvaluateBuiltIn`. -/
  | builtIn (kind : Kind)
  /-- In `Health_EvaluateCustomChecks` before the mutex. -/
  | snapshotting (kind : Kind)
  /-- Between the callbacks of a snapshot. -/
  | running (snapshot rest : List ℕ)
  | inCallback (snapshot rest : List ℕ) (check : ℕ)
  /-- In the `List_Destroy` of a snapshot. -/
  | releasing (snapshot : List ℕ)
  /-- In `Health_Shutdown_Global` before the mutex. -/
  | popping
  | waiting (remover : Remover) (check : ℕ)
  /-- `activeSnapshots` was 0. -/
  | freeing (remover : Remover) (check : ℕ)
  /-- Before `Mutex_Destroy`. -/
  | destroying

structure State (n : ℕ) where
  checks : ℕ → Check
  fresh : ℕ
  /-- `sg_health.checks`, which `Health_Shutdown_Global` sets to NULL. -/
  list : Option (List ℕ)
  nextCheckId : ℕ
  mutex : Bool
  pcs : Fin n → Pc

inductive Event
  | registered (check id : ℕ)
  /-- An evaluation has taken the check into its snapshot. -/
  | retained (check : ℕ)
  | released (check : ℕ)
  /-- The callback is called. -/
  | called (check : ℕ)
  | returned (check : ℕ)
  | freed (check : ℕ)
  /-- What `UnregisterCheck` has returned. -/
  | unregistered (id : ℕ) (removed : Bool)
  deriving DecidableEq, Repr

inductive Label (n : ℕ)
  | registerCheck (t : Fin n) (kind : Kind)
  | push (t : Fin n) (allocOk : Bool)
  | unregisterCheck (t : Fin n) (id : ℕ)
  | remove (t : Fin n)
  | evaluate (t : Fin n) (kind : Kind)
  /-- What `startupComplete` and the contexts say. -/
  | evaluateBuiltIn (t : Fin n) (healthy : Bool)
  /-- The allocations of the snapshot's nodes fail after so many. -/
  | snapshot (t : Fin n) (room : ℕ)
  | callback (t : Fin n)
  | callbackReturns (t : Fin n) (healthy : Bool)
  | release (t : Fin n)
  | shutdownGlobal (t : Fin n)
  | pop (t : Fin n)
  | load (t : Fin n)
  | free (t : Fin n)
  | destroyMutex (t : Fin n)

def Check.setActiveSnapshots (c : Check) (k : ℕ) : Check := { c with activeSnapshots := k }

def checkRetain (c : Check) : Check := c.setActiveSnapshots (retain (2 ^ 64) c.activeSnapshots)

def checkSnapshotRelease (c : Check) : Check := c.setActiveSnapshots (References.release (2 ^ 64) c.activeSnapshots)

theorem setActiveSnapshots_id (c : Check) (k : ℕ) : (c.setActiveSnapshots k).id = c.id := rfl

theorem setActiveSnapshots_self (c : Check) (k : ℕ) : (c.setActiveSnapshots k).activeSnapshots = k := rfl

theorem checkRetain_id (c : Check) : (checkRetain c).id = c.id := setActiveSnapshots_id c _

theorem checkSnapshotRelease_id (c : Check) : (checkSnapshotRelease c).id = c.id := setActiveSnapshots_id c _

structure SnapshotState where
  checks : ℕ → Check
  snapshot : List ℕ
  ok : Bool
  room : ℕ

def SnapshotState.set (st : SnapshotState) (c : ℕ) (f : Check → Check) : SnapshotState :=
  { st with checks := Function.update st.checks c (f (st.checks c)) }

def snapshotCheck (kind : Kind) (c : ℕ) (st : SnapshotState) : Lists.EachCode × SnapshotState :=
  if (st.checks c).kind ≠ kind then (.ok, st)
  else
    match st.room with
    | 0 => (.error, { (st.set c checkRetain).set c checkSnapshotRelease with ok := false })
    | room + 1 => (.ok, { st.set c checkRetain with snapshot := st.snapshot ++ [c], room := room })

section
variable {n : ℕ}

def State.goto (s : State n) (t : Fin n) (pc : Pc) : State n := { s with pcs := Function.update s.pcs t pc }

def State.set (s : State n) (c : ℕ) (f : Check → Check) : State n :=
  { s with checks := Function.update s.checks c (f (s.checks c)) }

/-- `RegisterCheck` under the mutex. An id is drawn also where `List_Push` fails. -/
def push (t : Fin n) (kind : Kind) (allocOk : Bool) (s : State n) : List Event × State n :=
  let s' := { s with
    checks := Function.update s.checks s.fresh ⟨s.nextCheckId, kind, 0⟩
    fresh := s.fresh + 1
    nextCheckId := (s.nextCheckId + 1) % 2 ^ 64 }
  match s.list, allocOk with
  | some list, true => ([.registered s.fresh s.nextCheckId], { s' with list := some (list ++ [s.fresh]) }.goto t .idle)
  | _, _ => ([], s'.goto t .idle)

def remove (t : Fin n) (id : ℕ) (s : State n) : List Event × State n :=
  match s.list with
  | some list =>
    let v := Lists.Seq.visit (fun c found => if (s.checks c).id == id then (.remove, some c) else (.ok, found)) list
      (none : Option ℕ)
    match v.2.1 with
    | some c => ([], { s with list := some v.2.2.1 }.goto t (.waiting (.unregister id) c))
    | none => ([.unregistered id false], { s with list := some v.2.2.1 }.goto t .idle)
  | none => ([.unregistered id false], s.goto t .idle)

/-- `Health_EvaluateBuiltIn`, with what the other parts of the program say. -/
def evaluateBuiltIn (kind : Kind) (healthy : Bool) : Bool :=
  match kind with
  | .live => true
  | .startup | .ready => healthy
  | .other _ => false

def snapshot (t : Fin n) (kind : Kind) (room : ℕ) (s : State n) : List Event × State n :=
  match s.list with
  | some list =>
    let v := Lists.Seq.visit (snapshotCheck kind) list ⟨s.checks, [], true, room⟩
    (v.2.1.snapshot.map .retained,
      { s with checks := v.2.1.checks }.goto t
        (if v.1 && v.2.1.ok then .running v.2.1.snapshot v.2.1.snapshot else .releasing v.2.1.snapshot))
  | none => ([], s.goto t (.releasing []))

/-- One round of the loop of `Health_Shutdown_Global` under the mutex. -/
def pop (t : Fin n) (s : State n) : State n :=
  match s.list with
  | some (c :: list) => { s with list := some list }.goto t (.waiting .shutdown c)
  | some [] => { s with list := none }.goto t .destroying
  | none => s.goto t .destroying

/-- One step of one thread; a thread that is not at the step's place does nothing,
and one that comes to the mutex after it was destroyed stays there. -/
def step (l : Label n) (s : State n) : List Event × State n :=
  match l with
  | .registerCheck t kind =>
    match s.pcs t with
    | .idle => ([], if s.mutex then s.goto t (.registering kind) else s)
    | _ => ([], s)
  | .push t allocOk =>
    match s.pcs t with
    | .registering kind => if s.mutex then push t kind allocOk s else ([], s)
    | _ => ([], s)
  | .unregisterCheck t id =>
    match s.pcs t with
    | .idle => if s.mutex ∧ id ≠ 0 then ([], s.goto t (.removing id)) else ([.unregistered id false], s)
    | _ => ([], s)
  | .remove t =>
    match s.pcs t with
    | .removing id => if s.mutex then remove t id s else ([], s)
    | _ => ([], s)
  | .evaluate t kind =>
    match s.pcs t with
    | .idle => ([], if s.mutex then s.goto t (.builtIn kind) else s)
    | _ => ([], s)
  | .evaluateBuiltIn t healthy =>
    match s.pcs t with
    | .builtIn kind => ([], s.goto t (if evaluateBuiltIn kind healthy then .snapshotting kind else .idle))
    | _ => ([], s)
  | .snapshot t room =>
    match s.pcs t with
    | .snapshotting kind => if s.mutex then snapshot t kind room s else ([], s)
    | _ => ([], s)
  | .callback t =>
    match s.pcs t with
    | .running snapshot (c :: rest) => ([.called c], s.goto t (.inCallback snapshot rest c))
    | .running snapshot [] => ([], s.goto t (.releasing snapshot))
    | _ => ([], s)
  | .callbackReturns t healthy =>
    match s.pcs t with
    | .inCallback snapshot rest c =>
      ([.returned c], s.goto t (if healthy then .running snapshot rest else .releasing snapshot))
    | _ => ([], s)
  | .release t =>
    match s.pcs t with
    | .releasing (c :: rest) => ([.released c], (s.set c checkSnapshotRelease).goto t (.releasing rest))
    | .releasing [] => ([], s.goto t .idle)
    | _ => ([], s)
  | .shutdownGlobal t =>
    match s.pcs t with
    | .idle => ([], if s.mutex then s.goto t .popping else s)
    | _ => ([], s)
  | .pop t =>
    match s.pcs t with
    | .popping => ([], if s.mutex then pop t s else s)
    | _ => ([], s)
  | .load t =>
    match s.pcs t with
    | .waiting r c => ([], if (s.checks c).activeSnapshots = 0 then s.goto t (.freeing r c) else s)
    | _ => ([], s)
  | .free t =>
    match s.pcs t with
    | .freeing (.unregister id) c => ([.freed c, .unregistered id true], s.goto t .idle)
    | .freeing .shutdown c => ([.freed c], s.goto t .popping)
    | _ => ([], s)
  | .destroyMutex t =>
    match s.pcs t with
    | .destroying => ([], { s with mutex := false }.goto t .idle)
    | _ => ([], s)

def call (l : Label n) (s : State n) : Except Empty (List Event × State n) := .ok (step l s)

end

def State.init (n : ℕ) : State n := ⟨fun _ => ⟨0, .live, 0⟩, 0, some [], 1, true, fun _ => .idle⟩

/-- What may happen after what has happened. -/
def Sound (before : List Event) : Event → Prop
  | .registered c id => ∀ c' id', .registered c' id' ∈ before → id' ≠ id ∧ c' ≠ c
  | .retained c => .freed c ∉ before
  | .called c => ∃ id, .registered c id ∈ before ∧ .unregistered id true ∉ before ∧ .freed c ∉ before
  | .freed c => (∃ id, .registered c id ∈ before) ∧ .freed c ∉ before ∧
    before.count (.retained c) = before.count (.released c)
  | .unregistered id true => .unregistered id true ∉ before ∧
    ∀ c, .registered c id ∈ before → before.count (.called c) = before.count (.returned c)
  | _ => True

end Razorback.Health
