import Razorback.Uuids.Defs

/-! The list of connected entities of `connected_entity.c`. Telemetry, the hooks
of the prune timer and the locks are left out; allocations succeed. -/

namespace Razorback.Entities
open Records Uuids
open Razorback.Lists (Seq)

structure DispatcherEntity where
  priority : UInt8
  flags : UInt32
  addressList : List String
  protocol : UInt8
  port : UInt16
  usable : Bool
  deriving DecidableEq, Repr

structure ConnectedEntity where
  uuidNuggetId : Uuid
  uuidNuggetType : Uuid
  uuidApplicationType : Uuid
  tTimeOfLastHello : ℤ
  locality : UInt8
  dispatcher : Option DispatcherEntity
  deriving DecidableEq, Repr

/-- `struct MessageHello` with the source of the message. -/
structure Hello where
  source : Uuid
  uuidNuggetType : Uuid
  uuidApplicationType : Uuid
  locality : UInt8
  priority : UInt8
  flags : UInt32
  addressList : List String
  protocol : UInt8
  port : UInt16

inductive Fault
  | nullPointer
  deriving DecidableEq, Repr

def searchKeyNuggetId : UInt32 := 1
def searchKeyAppType : UInt32 := 2
def searchKeyNuggetType : UInt32 := 4
def searchKeyDD : UInt32 := 8
def searchKeyLocality : UInt32 := 16
def searchKeyUsable : UInt32 := 32

def dispHelloFlagDD : UInt32 := 4

structure ConnectedEntityKey where
  searchKeys : UInt32
  nuggetId : Option Uuid
  appType : Option Uuid
  nuggetType : Option Uuid
  locality : UInt32
  deriving DecidableEq, Repr

def ConnectedEntityKey.wants (key : ConnectedEntityKey) (searchKey : UInt32) : Bool :=
  key.searchKeys &&& searchKey ≠ 0

/-- One criterion of `ConnectedEntity_KeyCmp`: `test` is `none` if the entity has
no dispatcher to look at. -/
def criterion (wanted : Bool) (test : Option Bool) (ret : ℤ) : ℤ :=
  if wanted then
    match test with
    | none => ret
    | some true => 0
    | some false => if ret = 0 then -1 else ret
  else ret

def keyCmp (entity : ConnectedEntity) (key : ConnectedEntityKey) : ℤ :=
  if key.wants searchKeyNuggetId && key.nuggetId.isNone then -1
  else
    let ret := criterion (key.wants searchKeyNuggetId) (some (key.nuggetId = some entity.uuidNuggetId)) (-1)
    if key.wants searchKeyAppType && key.appType.isNone then -1
    else
      let ret := criterion (key.wants searchKeyAppType) (some (key.appType = some entity.uuidApplicationType)) ret
      if key.wants searchKeyNuggetType && key.nuggetType.isNone then -1
      else
        let ret := criterion (key.wants searchKeyNuggetType) (some (key.nuggetType = some entity.uuidNuggetType)) ret
        let ret := criterion (key.wants searchKeyDD)
          (entity.dispatcher.map fun d => d.flags &&& dispHelloFlagDD ≠ 0) ret
        let ret := criterion (key.wants searchKeyLocality) (some (entity.locality.toNat = key.locality.toNat)) ret
        criterion (key.wants searchKeyUsable) (entity.dispatcher.map DispatcherEntity.usable) ret

def findEntity (entities : List ConnectedEntity) (key : ConnectedEntityKey) : Option ConnectedEntity :=
  Lists.find (fun e => keyCmp e key = 0) entities

def isDispatcherType (registry : Registry) (nuggetType : Uuid) : Bool :=
  (isNamedUUID registry nuggetTypeDispatcher .nuggetType nuggetType).getD false

/-- `ConnectedEntity_Clone` reads through `dispatcher` without a check. -/
def clone (orig : ConnectedEntity) : Except Fault ConnectedEntity :=
  match orig.dispatcher with
  | none => .error .nullPointer
  | some _ => .ok orig

/-- The pass of `ConnectedEntityList_CollectDispatchers`. -/
def collectDispatchers (registry : Registry) (entities : List ConnectedEntity) : List ConnectedEntity :=
  (Seq.visit (fun e list => (.ok, if isDispatcherType registry e.uuidNuggetType then list ++ [e] else list))
    entities []).2.1

def noKey : ConnectedEntityKey := ⟨0, none, none, none, 0⟩

def localityKey (locality : UInt32) : ConnectedEntityKey :=
  { noKey with searchKeys := searchKeyLocality ||| searchKeyUsable, locality := locality }

/-- `ConnectedEntityList_GetDispatcher` for the configured locality and backup
order; the integers of the configuration are stored in 32 bits. -/
def getDispatcher (registry : Registry) (entities : List ConnectedEntity) (locality : UInt8)
    (localities : List ℤ) : Except Fault (Option ConnectedEntity) := do
  let dispatchers := collectDispatchers registry entities
  if dispatchers.length = 0 then return none
  let entity :=
    match findEntity dispatchers (localityKey locality.toUInt32) with
    | some entity => some entity
    | none =>
      match localities.findSome? fun l => findEntity dispatchers (localityKey (UInt32.ofInt l)) with
      | some entity => some entity
      | none => findEntity dispatchers { noKey with searchKeys := searchKeyUsable }
  match entity with
  | none => return none
  | some entity =>
    let ret ← clone entity
    return some ret

def touch (registry : Registry) (now : ℤ) (hello : Hello) (entity : ConnectedEntity) :
    Except Fault ConnectedEntity :=
  if isDispatcherType registry entity.uuidNuggetType then
    match entity.dispatcher with
    | none => .error .nullPointer
    | some d =>
      .ok { entity with
        tTimeOfLastHello := now, dispatcher := some { d with flags := hello.flags, priority := hello.priority } }
  else .ok { entity with tTimeOfLastHello := now }

def newEntity (registry : Registry) (supported : UInt8 → Bool) (hello : Hello) : ConnectedEntity :=
  { uuidNuggetId := hello.source
    uuidNuggetType := hello.uuidNuggetType
    uuidApplicationType := hello.uuidApplicationType
    tTimeOfLastHello := 0
    locality := hello.locality
    dispatcher :=
      if isDispatcherType registry hello.uuidNuggetType then
        some ⟨hello.priority, hello.flags, hello.addressList, hello.protocol, hello.port,
          supported hello.protocol⟩
      else none }

def updateFirst (nuggetId : Uuid) (change : ConnectedEntity → Except Fault ConnectedEntity)
    (last : Except Fault (List ConnectedEntity)) : List ConnectedEntity → Except Fault (List ConnectedEntity)
  | [] => last
  | e :: rest =>
    if keyCmp e { noKey with searchKeys := searchKeyNuggetId, nuggetId := some nuggetId } = 0 then do
      let e ← change e
      return e :: rest
    else do
      let rest ← updateFirst nuggetId change last rest
      return e :: rest

def update (registry : Registry) (supported : UInt8 → Bool) (now : ℤ) (hello : Hello)
    (entities : List ConnectedEntity) : Except Fault (List ConnectedEntity) :=
  updateFirst hello.source (touch registry now hello)
    ((touch registry now hello (newEntity registry supported hello)).map fun e => [e]) entities

def prune (now deadTime : ℤ) (entities : List ConnectedEntity) : List ConnectedEntity :=
  (Seq.visit (fun e (_ : Unit) =>
    (if e.tTimeOfLastHello > 0 ∧ now - e.tTimeOfLastHello > deadTime then .remove else .ok, ()))
    entities ()).2.2.1

def markDispatcherUnusable (nuggetId : Uuid) (entities : List ConnectedEntity) :
    Except Fault (List ConnectedEntity) :=
  updateFirst nuggetId
    (fun e => match e.dispatcher with
      | none => .error .nullPointer
      | some d => .ok { e with dispatcher := some { d with usable := false } })
    (.ok []) entities

end Razorback.Entities
