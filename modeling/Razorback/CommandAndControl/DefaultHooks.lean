import Razorback.CommandAndControl.Defs

/-! The default hooks of `command_and_control.c`. `Default_processTermMessage`
ends the process and is left out. A context's `paused`, `regOk` and `regSem` are
shared with the threads that register it, so what a hook does to them is a list of
single accesses. -/

namespace Razorback.CommandAndControl
open Records Uuids
open Razorback.Lists (semPost transferItems)

structure Registration where
  paused : Bool
  regOk : Bool
  regSem : ℕ
  deriving DecidableEq, Repr

inductive Access
  | setPaused (paused : Bool)
  | setRegOk (regOk : Bool)
  | post
  deriving DecidableEq, Repr

def Access.apply (r : Registration) : Access → Registration
  | .setPaused paused => { r with paused := paused }
  | .setRegOk regOk => { r with regOk := regOk }
  | .post => { r with regSem := semPost r.regSem }

def accesses : CommandType → List Access
  | .regErr => [.setRegOk false, .post]
  | .pause => [.setPaused true]
  | .go => [.setPaused false, .setRegOk true, .post]
  | _ => []

inductive Outgoing
  | hello (context : Context)
  | configurationAck (source dest nuggetType applicationType : Uuid)
  | running (source dest : Uuid)
  deriving DecidableEq, Repr

/-- `sends k` tells whether the `k`-th message that is to go out can be created
and put on the write queue. -/
structure Shared where
  registrations : ℕ → Registration
  sends : ℕ → Bool
  attempts : ℕ
  outbox : List Outgoing
  helloTimers : ℕ
  /-- The messages that `ConnectedEntityList_Update` was called with. -/
  heard : List Message
  /-- The contexts for which a `ReregistrationThread` was launched. -/
  reregistrations : List Context

def send (out : Outgoing) (world : World Shared) : Bool × World Shared :=
  let user := world.user
  let ok := user.sends user.attempts
  (ok, { world with user := { user with
    attempts := user.attempts + 1, outbox := if ok then user.outbox ++ [out] else user.outbox } })

def access (type : CommandType) (context : Context) (world : World Shared) : World Shared :=
  let user := world.user
  let registration := (accesses type).foldl Access.apply (user.registrations context.address)
  { world with user := { user with
    registrations := Function.update user.registrations context.address registration } }

def processLogged : Hook Shared := fun _ message world => (true, message.configuration, world)

def processHelloMessage : Hook Shared := fun _ message world =>
  match isNamedUUID world.registry nuggetTypeDispatcher .nuggetType message.nuggetType with
  | none => (false, message.configuration, world)
  | some false => (true, message.configuration, world)
  | some true =>
    (true, message.configuration,
      { world with user := { world.user with heard := world.user.heard ++ [message] } })

def processRegRespMessage : Hook Shared := fun context message world =>
  if context.standAlone then
    let world := (send (.hello context) world).2
    (true, message.configuration,
      { world with user := { world.user with helloTimers := world.user.helloTimers + 1 } })
  else (true, message.configuration, world)

def processRegErrMessage : Hook Shared := fun context message world =>
  (true, message.configuration, access .regErr context world)

/-- `CnC_UpdateUUIDList`: what the message keeps, and the lists after it. -/
def updateUUIDList (type : UuidType) (msgList : List UUIDListNode) (registry : Registry) :
    List UUIDListNode × Registry :=
  let (list, msgList) := transferItems (registry type) msgList
  (msgList, Function.update registry type list)

def processConfUpdateMessage : Hook Shared := fun context message world =>
  let (ntlvTypes, registry) := updateUUIDList .ntlvType message.configuration.ntlvTypes world.registry
  let (ntlvNames, registry) := updateUUIDList .ntlvName message.configuration.ntlvNames registry
  let (dataTypes, registry) := updateUUIDList .dataType message.configuration.dataTypes registry
  let (ok, world) := send (.configurationAck context.uuidNuggetId (message.source.getD 0)
    context.uuidNuggetType context.uuidApplicationType) { world with registry := registry }
  (ok, ⟨ntlvTypes, ntlvNames, dataTypes⟩, world)

def processPauseMessage : Hook Shared := fun context message world =>
  (true, message.configuration, access .pause context world)

def processGoMessage : Hook Shared := fun context message world =>
  let (ok, world) := send (.running (message.dest.getD 0) (message.source.getD 0)) (access .go context world)
  (ok, message.configuration, world)

def processReRegMessage : Hook Shared := fun context message world =>
  (true, message.configuration,
    { world with user := { world.user with reregistrations := world.user.reregistrations ++ [context] } })

def defaultHooks : CommandType → Option (Hook Shared)
  | .regReq | .configAck | .configErr | .paused | .running | .bye => some processLogged
  | .regResp => some processRegRespMessage
  | .regErr => some processRegErrMessage
  | .configUpdate => some processConfUpdateMessage
  | .pause => some processPauseMessage
  | .go => some processGoMessage
  | .hello => some processHelloMessage
  | .rereg => some processReRegMessage
  | .term | .clear => none

end Razorback.CommandAndControl
