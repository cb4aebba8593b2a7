import Mathlib.Data.Rat.Cast.Order
import Mathlib.Data.UInt

/-! The local hash cache of `local_cache.c`: an adaptive replacement cache whose
four lists are threaded through one array of slots. Pointers into `entrylist`
are slot numbers. The `unsigned` counters are natural numbers that wrap at
`2 ^ 32`; `target` is a `double` that only ever meets integers below `2 ^ 53`,
where its arithmetic is exact, so it is kept as a rational. Undefined behaviour
and the branches that the source reports as impossible end in a `Fault`. -/

namespace Razorback.LocalCache

abbrev Bytes := List UInt8

inductive ListType
  | t1 | t2 | b1 | b2 | none
  deriving DecidableEq, Repr

inductive CacheType
  | goodHash | badHash | url | all
  deriving DecidableEq, Repr

inductive ClearMethod
  | full
  deriving DecidableEq, Repr

inductive LookupResult
  | success | error | found | notFound
  deriving DecidableEq, Repr

/-- The state of an entry's `key` pointer. -/
inductive KeyPtr
  | null
  | live (bytes : Bytes)
  | freed
  deriving DecidableEq, Repr

inductive Fault
  /-- `PurgeLRU` could not find an LRU. -/
  | purgeEmpty
  /-- `getNewEntry` returned `NULL`, which its caller dereferences. -/
  | nullEntry
  | zeroDivisor
  | nullKey
  | useAfterFree
  | doubleFree
  /-- `LRU` or `MRU` indexed with `LT_NONE`. -/
  | badListType
  deriving DecidableEq, Repr

structure Entry where
  next : Option ℕ
  prev : Option ℕ
  listtype : ListType
  size : ℕ
  key : KeyPtr
  sfflags : UInt32
  entflags : UInt32
  deriving DecidableEq

structure Cache where
  size : ℕ
  entries : ℕ
  listSize : ListType → ℕ
  target : ℚ
  lru : ListType → Option ℕ
  mru : ListType → Option ℕ
  entrylist : ℕ → Entry

abbrev Caches := CacheType → Cache

def inc (n : ℕ) : ℕ := (n + 1) % 2 ^ 32
def dec (n : ℕ) : ℕ := (n + (2 ^ 32 - 1)) % 2 ^ 32

def maxD (a : ℚ) (b : ℕ) : ℚ := if (b : ℚ) < a then a else b
def minD (a : ℚ) (b : ℕ) : ℚ := if (b : ℚ) < a then b else a

namespace Cache

def modify (c : Cache) (i : ℕ) (f : Entry → Entry) : Cache :=
  { c with entrylist := Function.update c.entrylist i (f (c.entrylist i)) }

def setNext (c : Cache) (i : ℕ) (v : Option ℕ) : Cache := c.modify i fun e => { e with next := v }

def setPrev (c : Cache) (i : ℕ) (v : Option ℕ) : Cache := c.modify i fun e => { e with prev := v }

def setType (c : Cache) (i : ℕ) (l : ListType) : Cache := c.modify i fun e => { e with listtype := l }

def setSize (c : Cache) (l : ListType) (n : ℕ) : Cache :=
  { c with listSize := Function.update c.listSize l n }

def setLRU (c : Cache) (l : ListType) (v : Option ℕ) : Cache :=
  { c with lru := Function.update c.lru l v }

def setMRU (c : Cache) (l : ListType) (v : Option ℕ) : Cache :=
  { c with mru := Function.update c.mru l v }

end Cache

/-- An entry after `memset(newentry, 0, ..)` and `listtype = LT_NONE`. -/
def blankEntry : Entry := ⟨none, none, .none, 0, .null, 0, 0⟩

def getNewEntry (c : Cache) : Except Fault (ℕ × Cache) :=
  if c.entries < (c.size * 2) % 2 ^ 32 then
    .ok (c.entries, { c.modify c.entries (fun _ => blankEntry) with entries := inc c.entries })
  else
    .error .nullEntry

/-- `!memcmp(stored, key, size)`. Nothing bounds the read of the stored buffer,
so positions past its end see whatever `beyond` holds there. -/
def memcmpEq (beyond : ℕ → UInt8) (stored : KeyPtr) (key : Bytes) : Except Fault Bool :=
  match key, stored with
  | [], _ => .ok true
  | _ :: _, .null => .error .nullKey
  | _ :: _, .freed => .error .useAfterFree
  | _ :: _, .live bytes =>
    .ok ((List.range key.length).all fun j => bytes.getD j (beyond j) == key.getD j 0)

def findEntryFrom (beyond : ℕ → ℕ → UInt8) (key : Bytes) (c : Cache) :
    ℕ → ℕ → Except Fault (Option ℕ)
  | 0, _ => .ok none
  | n + 1, i => do
    if ← memcmpEq (beyond i) (c.entrylist i).key key then
      return some i
    else
      findEntryFrom beyond key c n (i + 1)

/-- `beyond i` is the heap behind the key buffer of slot `i`. -/
def findEntry (beyond : ℕ → ℕ → UInt8) (key : Bytes) (c : Cache) : Except Fault (Option ℕ) :=
  findEntryFrom beyond key c c.entries 0

/-- The loops of `FindMRU` and `FindLRU`: the last slot that passes the test. -/
def scan (test : Entry → Bool) (c : Cache) : Option ℕ :=
  (List.range c.entries).foldl (fun r i => if test (c.entrylist i) then some i else r) none

def findMRU (l : ListType) (c : Cache) : Option ℕ × Cache :=
  match c.mru l with
  | some x => (some x, c)
  | none =>
    let r := scan (fun e => e.next.isNone && e.listtype == l) c
    (r, c.setMRU l r)

def findLRU (l : ListType) (c : Cache) : Option ℕ × Cache :=
  match c.lru l with
  | some x => (some x, c)
  | none =>
    let r := scan (fun e => e.prev.isNone && e.listtype == l) c
    (r, c.setLRU l r)

def detach (x : ℕ) (c : Cache) : Cache := ((c.setPrev x none).setNext x none).setType x .none

def purgeLRU (l : ListType) (c : Cache) : Except Fault (ℕ × Cache) :=
  match findLRU l c with
  | (none, _) => .error .purgeEmpty
  | (some x, c) =>
    match (c.entrylist x).next with
    | some y => .ok (x, detach x ((c.setPrev y none).setLRU l (some y)))
    | none => .ok (x, detach x ((c.setLRU l none).setMRU l none))

def addMRU (x : ℕ) (l : ListType) (c : Cache) : Cache :=
  match findMRU l c with
  | (some m, c) =>
    ((((c.setNext m (some x)).setPrev x (some m)).setNext x none).setMRU l (some x)).setType x l
  | (none, c) =>
    ((((c.setLRU l (some x)).setPrev x none).setNext x none).setMRU l (some x)).setType x l

def removeEntry (x : ℕ) (c : Cache) : Except Fault Cache :=
  let l := (c.entrylist x).listtype
  match (c.entrylist x).next, (c.entrylist x).prev with
  | some n, some p => .ok (detach x ((c.setPrev n (some p)).setNext p (some n)))
  | some _, none =>
    if l = .none then .error .badListType
    else (purgeLRU l c).map fun r => detach x r.2
  | none, some p =>
    if l = .none then .error .badListType
    else .ok (detach x ((c.setNext p none).setMRU l (some p)))
  | none, none =>
    if l = .none then .error .badListType
    else .ok (detach x ((c.setMRU l none).setLRU l none))

/-- Move the LRU of `src` to the MRU end of `dst` and adjust both counters. -/
def demote (src dst : ListType) (c : Cache) : Except Fault (ℕ × Cache) := do
  let (x, c) ← purgeLRU src c
  let c := addMRU x dst c
  let c := c.setSize src (dec (c.listSize src))
  return (x, c.setSize dst (inc (c.listSize dst)))

def replace (c : Cache) : Except Fault (ℕ × Cache) :=
  if maxD c.target 1 ≤ c.listSize .t1 then demote .t1 .b1 c else demote .t2 .b2 c

/-- `free(entry->key)`; the pointer itself is left as it is. -/
def freeKey (k : KeyPtr) : Except Fault KeyPtr :=
  match k with
  | .null => .ok .null
  | .live _ => .ok .freed
  | .freed => .error .doubleFree

def destroyEntry (x : ℕ) (c : Cache) : Except Fault Cache := do
  let k ← freeKey (c.entrylist x).key
  return c.modify x fun e => { e with key := k }

/-- A ghost hit in the list `g` moves the target, with `other` the opposite ghost list. -/
def adaptTarget (g other : ListType) (move : ℚ → ℚ → ℚ) (c : Cache) : Except Fault Cache :=
  if c.listSize g = 0 then .error .zeroDivisor
  else
    let amount := maxD ((c.listSize other / c.listSize g : ℕ) : ℚ) 1
    .ok (({ c with target := move c.target amount }).setSize g (dec (c.listSize g)))

/-- The common end of both ghost cases. -/
def reviveGhost (x : ℕ) (c : Cache) : Except Fault Cache := do
  let (_, c) ← replace (← removeEntry x c)
  return addMRU x .t2 (c.setSize .t2 (inc (c.listSize .t2)))

/-- The part of `checkLocalEntry` that runs on a hit, one branch for each list. -/
def hitEntry (x : ℕ) (c : Cache) : Except Fault Cache :=
  match (c.entrylist x).listtype with
  | .t1 => do
    let c := c.setSize .t1 (dec (c.listSize .t1))
    let c := c.setSize .t2 (inc (c.listSize .t2))
    return addMRU x .t2 (← removeEntry x c)
  | .t2 => do
    return addMRU x .t2 (← removeEntry x c)
  | .b1 => do
    reviveGhost x (← adaptTarget .b1 .b2 (fun target amount => minD (target + amount) c.size) c)
  | .b2 => do
    reviveGhost x (← adaptTarget .b2 .b1 (fun target amount => maxD (target - amount) 0) c)
  | .none => return c

/-- What `checkLocalEntry` hands back: the result and, on a hit, the values
written through `sfflags` and `entflags`. -/
abbrev CheckResult := LookupResult × Option (UInt32 × UInt32)

/-- `checkLocalEntry` on the selected cache, between the lock and the return. -/
def checkIn (beyond : ℕ → ℕ → UInt8) (key : Bytes) (c : Cache) :
    Except Fault (CheckResult × Cache) := do
  match ← findEntry beyond key c with
  | none => return ((.notFound, none), c)
  | some x =>
    if (c.entrylist x).listtype = .none then
      return ((.error, none), c)
    else
      let c ← hitEntry x c
      let e := c.entrylist x
      return ((.found, some (e.sfflags, e.entflags)), c)

/-- The slot an insertion will use: a purged one or a new one. -/
def obtainEntry (c : Cache) : Except Fault (ℕ × Cache) :=
  if (c.listSize .t1 + c.listSize .b1) % 2 ^ 32 = c.size then
    if c.listSize .t1 < c.size then do
      let (x, c) ← purgeLRU .b1 c
      let (_, c) ← replace (c.setSize .b1 (dec (c.listSize .b1)))
      return (x, c)
    else do
      let (x, c) ← purgeLRU .t1 c
      return (x, c.setSize .t1 (dec (c.listSize .t1)))
  else if c.size ≤ c.entries then
    if (2 * c.size) % 2 ^ 32 ≤ c.entries then do
      let (x, c) ← purgeLRU .b2 c
      let (_, c) ← replace (c.setSize .b2 (dec (c.listSize .b2)))
      return (x, c)
    else do
      let (x, c) ← getNewEntry c
      let (_, c) ← replace c
      return (x, c)
  else
    getNewEntry c

/-- `addLocalEntry` on the selected cache; `mallocOk` is the fate of the
allocation of the key buffer. -/
def addIn (mallocOk : Bool) (key : Bytes) (sfflags entflags : UInt32) (c : Cache) :
    Except Fault (LookupResult × Cache) := do
  let (x, c) ← obtainEntry c
  let c := addMRU x .t1 c
  let c := c.setSize .t1 (inc (c.listSize .t1))
  let c := c.modify x fun e =>
    { e with size := key.length, sfflags := sfflags, entflags := entflags }
  let _ ← freeKey (c.entrylist x).key
  if mallocOk then
    return (.success, c.modify x fun e => { e with key := .live key })
  else
    return (.error, c.modify x fun e => { e with key := .null })

def updateIn (beyond : ℕ → ℕ → UInt8) (key : Bytes) (sfflags entflags : UInt32) (c : Cache) :
    Except Fault (LookupResult × Cache) := do
  match ← findEntry beyond key c with
  | none => return (.notFound, c)
  | some x =>
    return (.success, c.modify x fun e => { e with sfflags := sfflags, entflags := entflags })

def removeIn (beyond : ℕ → ℕ → UInt8) (key : Bytes) (c : Cache) :
    Except Fault (LookupResult × Cache) := do
  match ← findEntry beyond key c with
  | none => return (.notFound, c)
  | some x =>
    let c ← removeEntry x c
    let c ← destroyEntry x c
    return (.success, c.modify x fun e => { e with size := 0 })

/-- One cache as `initcache` sets it up. The slots are fresh from `malloc`, so
they start with whatever `junk` was in memory. -/
def initCache (junk : ℕ → Entry) (size : ℕ) : Cache :=
  ⟨size, 0, fun _ => 0, size, fun _ => none, fun _ => none, junk⟩

/-- `Cache[0]` is the `GOODHASH` cache, so it is the one that gets the bad limit. -/
def initcache (junk : CacheType → ℕ → Entry) (badLimit goodLimit : UInt32) : Caches
  | .goodHash => initCache (junk .goodHash) badLimit.toNat
  | .badHash => initCache (junk .badHash) goodLimit.toNat
  | t => initCache (junk t) 256

def checkLocalEntry (beyond : ℕ → ℕ → UInt8) (key : Option Bytes)
    (sfflags entflags : Option UInt32) (type : CacheType) (cs : Caches) :
    Except Fault (CheckResult × Caches) :=
  if type = .all then .ok ((.error, none), cs)
  else match key, sfflags, entflags with
    | some key, some _, some _ => do
      let (r, c) ← checkIn beyond key (cs type)
      return (r, Function.update cs type c)
    | _, _, _ => .ok ((.error, none), cs)

def addLocalEntry (mallocOk : Bool) (key : Bytes) (sfflags entflags : UInt32) (type : CacheType)
    (cs : Caches) : Except Fault (LookupResult × Caches) :=
  if type = .all then .ok (.error, cs)
  else do
    let (r, c) ← addIn mallocOk key sfflags entflags (cs type)
    return (r, Function.update cs type c)

def updateLocalEntry (beyond : ℕ → ℕ → UInt8) (key : Option Bytes) (sfflags entflags : UInt32)
    (type : CacheType) (cs : Caches) : Except Fault (LookupResult × Caches) :=
  if type = .all then .ok (.error, cs)
  else match key with
    | some key => do
      let (r, c) ← updateIn beyond key sfflags entflags (cs type)
      return (r, Function.update cs type c)
    | none => .ok (.error, cs)

def removeLocalEntry (beyond : ℕ → ℕ → UInt8) (key : Option Bytes) (type : CacheType)
    (cs : Caches) : Except Fault (LookupResult × Caches) :=
  if type = .all then .ok (.error, cs)
  else match key with
    | some key => do
      let (r, c) ← removeIn beyond key (cs type)
      return (r, Function.update cs type c)
    | none => .ok (.error, cs)

/-- The last loop of a clear, on the cache it is run on. -/
def resetLists (c : Cache) : Cache :=
  { c with listSize := fun _ => 0, lru := fun _ => none, mru := fun _ => none }

def destroyEntries (c : Cache) : Except Fault Cache :=
  (List.range c.entries).foldlM (fun c i => destroyEntry i c) c

/-- The `FULL` branch for the cache selected by `type`. The last loop goes
through the array name `Cache`, that is through `Cache[0]`. -/
def clearFull (type : CacheType) (cs : Caches) : Except Fault Caches := do
  let c ← destroyEntries (cs type)
  let cs := Function.update cs type { c with entries := 0, target := c.size }
  return Function.update cs .goodHash (resetLists (cs .goodHash))

def clearLocalEntry (type : CacheType) (method : ClearMethod) (cs : Caches) :
    Except Fault (LookupResult × Caches) :=
  match type, method with
  | .all, .full => do
    let cs ← clearFull .goodHash cs
    let cs ← clearFull .badHash cs
    let cs ← clearFull .url cs
    return (.success, cs)
  | type, .full => do
    let cs ← clearFull type cs
    return (.success, cs)

end Razorback.LocalCache
