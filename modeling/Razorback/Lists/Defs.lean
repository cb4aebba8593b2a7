import Mathlib.Data.UInt

/-! The lists of `list.c`: doubly linked nodes in one heap, lists that point to
their first and last node, and for the stack and queue modes a semaphore that is
kept beside the length. Items are pointers of type `α`. The `destroy`, `clone`
and node lock callbacks have no effect on a list; what `destroy` is called on is
returned by the functions that call it. A null dereference, a loop that never
ends and a self-deadlock are faults. -/

namespace Razorback.Lists

inductive Mode
  | generic | stack | queue
  deriving DecidableEq, Repr

inductive EachCode
  | ok | error | remove | end
  deriving DecidableEq, Repr

inductive Fault
  | nullPointer
  | stuck
  | deadlock
  deriving DecidableEq, Repr

structure Node (α : Type) where
  next : Option ℕ
  prev : Option ℕ
  item : α
  del : Bool

structure LinkedList (α : Type) where
  head : Option ℕ
  tail : Option ℕ
  length : ℕ
  limit : ℕ
  mode : Mode
  cmp : Option (α → α → Bool)
  sem : Option ℕ

structure World (α : Type) where
  nodes : ℕ → Node α
  fresh : ℕ
  lists : ℕ → LinkedList α

def semValueMax : ℕ := 2147483647

/-- `sem_post` fails at the largest value, and `List_Push` does not look. -/
def semPost (n : ℕ) : ℕ := if n < semValueMax then n + 1 else n

def create {α : Type} (mode : Mode) (cmp : Option (α → α → Bool)) : LinkedList α :=
  ⟨none, none, 0, 0, mode, cmp, if mode = .generic then none else some 0⟩

section
variable {α : Type}

namespace World

def modify (w : World α) (n : ℕ) (f : Node α → Node α) : World α :=
  { w with nodes := Function.update w.nodes n (f (w.nodes n)) }

def setNext (w : World α) (n : ℕ) (v : Option ℕ) : World α := w.modify n fun d => { d with next := v }

def setPrev (w : World α) (n : ℕ) (v : Option ℕ) : World α := w.modify n fun d => { d with prev := v }

def mark (w : World α) (n : ℕ) : World α := w.modify n fun d => { d with del := true }

def setList (w : World α) (l : ℕ) (f : LinkedList α → LinkedList α) : World α :=
  { w with lists := Function.update w.lists l (f (w.lists l)) }

def setHead (w : World α) (l : ℕ) (v : Option ℕ) : World α := w.setList l fun L => { L with head := v }

def setTail (w : World α) (l : ℕ) (v : Option ℕ) : World α := w.setList l fun L => { L with tail := v }

def setLength (w : World α) (l n : ℕ) : World α := w.setList l fun L => { L with length := n }

def setSem (w : World α) (l : ℕ) (v : Option ℕ) : World α := w.setList l fun L => { L with sem := v }

end World

def queuePush (l n : ℕ) (w : World α) : World α :=
  match (w.lists l).tail with
  | none => (w.setHead l (some n)).setTail l (some n)
  | some t => ((w.setPrev n (some t)).setNext t (some n)).setTail l (some n)

def stackPush (l n : ℕ) (w : World α) : World α :=
  match (w.lists l).head with
  | none => (w.setHead l (some n)).setTail l (some n)
  | some h => ((w.setNext n (some h)).setPrev h (some n)).setHead l (some n)

def pushNode (l n : ℕ) (w : World α) : World α :=
  match (w.lists l).mode with
  | .generic | .queue => queuePush l n w
  | .stack => stackPush l n w

/-- `calloc` of a node and its item. -/
def newNode (item : α) (w : World α) : World α :=
  { w with nodes := Function.update w.nodes w.fresh ⟨none, none, item, false⟩, fresh := w.fresh + 1 }

/-- `List_Push`; `allocOk` is the fate of the allocation of the node. -/
def push (allocOk : Bool) (l : ℕ) (item : α) (w : World α) : Bool × World α :=
  if !allocOk then (false, w)
  else
    let n := w.fresh
    let w := newNode item w
    if 0 < (w.lists l).limit ∧ (w.lists l).limit ≤ (w.lists l).length then (false, w)
    else
      let w := pushNode l n w
      let w := w.setLength l ((w.lists l).length + 1)
      (true, w.setSem l ((w.lists l).sem.map semPost))

def removeNode (l n : ℕ) (w : World α) : Except Fault (World α) :=
  let L := w.lists l
  if L.head = none then .ok w
  else do
    let w ←
      if L.head = some n ∧ L.tail = some n then .ok ((w.setHead l none).setTail l none)
      else if L.head = some n then
        match (w.nodes n).next with
        | some m => .ok ((w.setHead l (some m)).setPrev m none)
        | none => .error .nullPointer
      else if L.tail = some n then
        match (w.nodes n).prev with
        | some p => .ok ((w.setTail l (some p)).setNext p none)
        | none => .error .nullPointer
      else match (w.nodes n).prev, (w.nodes n).next with
        | some p, some m => .ok ((w.setNext p (some m)).setPrev m (some p))
        | _, _ => .error .nullPointer
    return w.setLength l ((w.lists l).length - 1)

/-- `List_Queue_Pop` takes from the tail and `List_Stack_Pop` from the head. -/
def popEnd (L : LinkedList α) : Option ℕ :=
  match L.mode with
  | .generic | .queue => L.tail
  | .stack => L.head

def doPop (l : ℕ) (w : World α) : Except Fault (Option ℕ × World α) :=
  match popEnd (w.lists l) with
  | none => .ok (none, w)
  | some n => do return (some n, ← removeNode l n w)

/-- A call of `List_Pop_Ex` waits for ever, gives up, or gets past the semaphore. -/
inductive PopResult (α : Type)
  | blocked
  | timedOut
  | past (item : Option α)
  deriving DecidableEq, Repr

def popEx (l timeout : ℕ) (w : World α) : Except Fault (PopResult α × World α) :=
  let take (w : World α) : Except Fault (PopResult α × World α) := do
    let (n, w) ← doPop l w
    return (.past (n.map fun n => (w.nodes n).item), w)
  match (w.lists l).sem with
  | none => take w
  | some 0 => .ok (if timeout = 0 then .blocked else .timedOut, w)
  | some (k + 1) => take (w.setSem l (some k))

/-- The reading pass of `List_ForEach` from the node `cur` on: the return value,
whether a node was marked, and the user data after it. -/
def visit {σ : Type} (op : α → σ → EachCode × σ) :
    ℕ → Option ℕ → σ → World α → Except Fault ((Bool × Bool × σ) × World α)
  | _, none, s, w => .ok ((true, false, s), w)
  | 0, some _, _, _ => .error .stuck
  | fuel + 1, some n, s, w =>
    let (code, s) := op (w.nodes n).item s
    match code with
    | .error => .ok ((false, false, s), w)
    | .end => .ok ((true, false, s), w)
    | .remove => do
      let w := w.mark n
      let ((ret, _, s), w) ← visit op fuel (w.nodes n).next s w
      return ((ret, true, s), w)
    | .ok => visit op fuel (w.nodes n).next s w

/-- The writing pass: unlink the marked nodes; returns what was destroyed. -/
def prune (l : ℕ) : ℕ → Option ℕ → World α → Except Fault (List α × World α)
  | _, none, w => .ok ([], w)
  | 0, some _, _ => .error .stuck
  | fuel + 1, some n, w =>
    let next := (w.nodes n).next
    if (w.nodes n).del then do
      let item := (w.nodes n).item
      let w ← removeNode l n w
      let (destroyed, w) ← prune l fuel next w
      return (item :: destroyed, w)
    else prune l fuel next w

/-- `List_ForEach` with its user data; every chain of nodes is shorter than `fresh`. -/
def forEach {σ : Type} (l : ℕ) (op : α → σ → EachCode × σ) (s : σ) (w : World α) :
    Except Fault ((Bool × σ × List α) × World α) := do
  if (w.lists l).head = none then
    return ((true, s, []), w)
  else
    let ((ret, del, s), w) ← visit op w.fresh (w.lists l).head s w
    if del then
      let (destroyed, w) ← prune l w.fresh (w.lists l).head w
      return ((ret, s, destroyed), w)
    else
      return ((ret, s, []), w)

/-- `List_Remove`: every node that is the item or compares equal to it. -/
def remove [DecidableEq α] (l : ℕ) (item : α) (w : World α) : Except Fault ((Bool × List α) × World α) := do
  let hit (x : α) : Bool := x = item || ((w.lists l).cmp.map fun cmp => cmp x item).getD false
  let ((_, found, destroyed), w) ← forEach l
    (fun x found => if hit x then (.remove, some x) else (.ok, found)) (none : Option α) w
  return ((found.isSome, destroyed), w)

def clearFrom (l : ℕ) : ℕ → World α → Except Fault (List α × World α)
  | 0, _ => .error .stuck
  | fuel + 1, w => do
    let (n, w) ← doPop l w
    match n with
    | none => return ([], w)
    | some n =>
      let item := (w.nodes n).item
      let (destroyed, w) ← clearFrom l fuel w
      return (item :: destroyed, w)

def clear (l : ℕ) (w : World α) : Except Fault (List α × World α) := clearFrom l (w.fresh + 1) w

/-- Handing the nodes of `source` over to the emptied list `dest`. -/
def moveNodes (dest source : ℕ) (w : World α) : World α :=
  let S := w.lists source
  let w := ((w.setHead dest S.head).setTail dest S.tail).setLength dest S.length
  ((w.setHead source none).setTail source none).setLength source 0

def transfer (dest source : ℕ) (w : World α) : Except Fault (List α × World α) :=
  if dest = source then .error .deadlock
  else do
    let (destroyed, w) ← clear dest w
    return (destroyed, moveNodes dest source w)

def setLimit (l limit : ℕ) (w : World α) : World α := w.setList l fun L => { L with limit := limit }

end

end Razorback.Lists
