import Razorback.Uuids.Defs

/-! Command dispatch of `command_and_control.c`: what the command thread does
with one message from the command queue. A hook is given the context of the
command thread, which the callers of the dispatcher set; it may change the body of
the message and anything of the process but the list of contexts, whose lock the
pass over the contexts holds. Logging and telemetry are left out. -/

namespace Razorback.CommandAndControl
open Records Uuids
open Razorback.Lists (Seq EachCode)

inductive CommandType
  | hello | regReq | regResp | regErr | configUpdate | configAck | configErr | pause | paused | go
  | running | term | bye | clear | rereg
  deriving DecidableEq, Repr

def messageGroupCAndC : UInt32 := 0x10000000

def CommandType.code : CommandType → UInt32
  | .hello => messageGroupCAndC ||| 1
  | .regReq => messageGroupCAndC ||| 2
  | .regResp => messageGroupCAndC ||| 3
  | .regErr => messageGroupCAndC ||| 4
  | .configUpdate => messageGroupCAndC ||| 5
  | .configAck => messageGroupCAndC ||| 6
  | .configErr => messageGroupCAndC ||| 7
  | .pause => messageGroupCAndC ||| 11
  | .paused => messageGroupCAndC ||| 12
  | .go => messageGroupCAndC ||| 13
  | .running => messageGroupCAndC ||| 14
  | .term => messageGroupCAndC ||| 15
  | .bye => messageGroupCAndC ||| 16
  | .clear => messageGroupCAndC ||| 17
  | .rereg => messageGroupCAndC ||| 18

/-- The cases of the dispatcher's `switch`, in its order. -/
def commandTypes : List CommandType :=
  [.hello, .regReq, .regResp, .regErr, .configUpdate, .configAck, .configErr, .pause, .paused, .go,
    .running, .term, .bye, .clear, .rereg]

def commandType (type : UInt32) : Option CommandType := commandTypes.find? fun t => t.code = type

/-- The lists of `struct MessageConfigurationUpdate`. -/
structure ConfigurationUpdate where
  ntlvTypes : List UUIDListNode
  ntlvNames : List UUIDListNode
  dataTypes : List UUIDListNode
  deriving DecidableEq, Repr

/-- A command; `source` and `dest` are its headers, `none` if one is missing or
does not parse. Of the bodies only the configuration is read. -/
structure Message where
  type : UInt32
  source : Option Uuid
  dest : Option Uuid
  nuggetType : Uuid
  configuration : ConfigurationUpdate
  deriving DecidableEq, Repr

def getNuggets (message : Message) : Option (Uuid × Uuid) := do
  let dest ← message.dest
  let source ← message.source
  return (source, dest)

/-- What command processing reads of `struct RazorbackContext`. -/
structure Context where
  address : ℕ
  uuidNuggetId : Uuid
  uuidNuggetType : Uuid
  uuidApplicationType : Uuid
  iFlags : UInt32
  deriving DecidableEq, Repr

def contextFlagStandAlone : UInt32 := 1

def Context.standAlone (c : Context) : Bool := c.iFlags &&& contextFlagStandAlone = contextFlagStandAlone

section
variable {σ : Type}

/-- What is process-wide; `user` is the state of the hooks. -/
structure World (σ : Type) where
  registry : Registry
  /-- How often `clearLocalEntry(ALL, FULL)` was called. -/
  cacheClears : ℕ
  user : σ

/-- The command thread with the message in hand and the handlers it has called. -/
structure Process (σ : Type) where
  thread : Context
  message : Message
  world : World σ
  called : List (Context × CommandType)

/-- A hook of `struct RazorbackCommandAndControlHooks`: the result, the body of
the message and the process after it. -/
abbrev Hook (σ : Type) := Context → Message → World σ → Bool × ConfigurationUpdate × World σ

/-- `pCommandHooks` of each context, and in it the hook for each type. -/
abbrev Hooks (σ : Type) := Context → Option (CommandType → Option (Hook σ))

def processCacheClearMessage (context : Context) (world : World σ) : Bool × World σ :=
  match isNamedUUID world.registry nuggetTypeDispatcher .nuggetType context.uuidNuggetType with
  | none => (false, world)
  | some isDispatcher =>
    (true, if !isDispatcher && context.standAlone then { world with cacheClears := world.cacheClears + 1 }
      else world)

/-- A handler returned; it is entered in the record of calls. -/
def Process.after (p : Process σ) (c : Context) (type : CommandType) (configuration : ConfigurationUpdate)
    (world : World σ) : Process σ :=
  { p with
    message := { p.message with configuration := configuration }
    world := world
    called := p.called ++ [(c, type)] }

def listEachOk : ℕ := 0

def listEachError : ℕ := 1

/-- What `List_ForEach` makes of the value its operation returns. -/
def eachCode : ℕ → EachCode
  | 1 => .error
  | 2 => .remove
  | 3 => .end
  | _ => .ok

/-- `CommandAndControl_DispatchCommand`. The result of the cache clear is its
`bool`, used as a list code. -/
def dispatchCommand (hooks : Hooks σ) (context : Context) (p : Process σ) : ℕ × Process σ :=
  match hooks context with
  | none => (listEachError, p)
  | some commandHooks =>
    match commandType p.message.type with
    | none => (listEachError, p)
    | some type =>
      if type = .clear then
        let (ok, world) := processCacheClearMessage context p.world
        (ok.toNat, p.after context type p.message.configuration world)
      else
        match commandHooks type with
        | none => (listEachOk, p)
        | some hook =>
          let (ok, configuration, world) := hook p.thread p.message p.world
          (if ok then listEachOk else listEachError, p.after context type configuration world)

/-- `ForEach_Context_Wrapper` on a thread of the library. -/
def forEachContextWrapper (function : Context → Process σ → ℕ × Process σ) (context : Context)
    (p : Process σ) : EachCode × Process σ :=
  let (ret, q) := function context { p with thread := context }
  (eachCode ret, { q with thread := p.thread })

def forEachContext (contexts : List Context) (function : Context → Process σ → ℕ × Process σ)
    (p : Process σ) : Bool × Process σ :=
  let (ret, p, _) := Seq.visit (forEachContextWrapper function) contexts p
  (ret, p)

def lookupContext (contexts : List Context) (nuggetId : Uuid) : Option Context :=
  Lists.find (fun c => c.uuidNuggetId = nuggetId) contexts

/-- The body of the loop of `CommandAndControl_Thread` for the message in hand. -/
def handleMessage (hooks : Hooks σ) (contexts : List Context) (p : Process σ) : Process σ :=
  match getNuggets p.message with
  | none => p
  | some (source, dest) =>
    if dest = 0 then
      match lookupContext contexts source with
      | none => (forEachContext contexts (dispatchCommand hooks) p).2
      | some _ => p
    else
      match lookupContext contexts dest with
      | none => p
      | some context =>
        { (dispatchCommand hooks context { p with thread := context }).2 with thread := p.thread }

end

end Razorback.CommandAndControl
