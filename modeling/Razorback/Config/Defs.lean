import Razorback.Base.Text

/-! The API configuration of `runtime_config.c` and the reader of `config_file.c` it goes through. What libconfig makes
of the file is taken as its settings, those at the paths of the keys; key types and array types that `global_config` has no row
of are left out. A read that fails returns no variables, since the process exits then. -/

namespace Razorback.Config
open Text

/-! ### The static variables -/

/-- The variables of type `conf_int_t`, and those of the log, which are written as such. -/
inductive IntVar
  | threadLimit | hashType | maxBlockSize | helloTime | deadTime
  | mqPort | mqPrefetch
  | cacheGoodLimit | cacheBadLimit
  | logDest | logLevel | logFacility
  | localityId
  | subGcReqThreadsInit | subGcReqThreadsMax | subGcRespThreadsInit | subGcRespThreadsMax
  | subTransferThreadsInit | subTransferThreadsMax
  | blockPoolMaxItems | blockPoolMaxSize | blockPoolMaxItemSize
  | inspThreadsInit | inspThreadsMax
  deriving DecidableEq, Repr

inductive StringVar
  | transferPassword | transferMode | mqHost | mqUser | mqPassword | mqVhost | logFile | localityBlockStore
  deriving DecidableEq, Repr

inductive BoolVar
  | mqSSL | blockStoreRemote
  deriving DecidableEq, Repr

structure Vars where
  int : IntVar → Int32
  string : StringVar → Option CString
  bool : BoolVar → Bool
  backupLocalities : Option (List Int32)
  backupLocalityCount : Int32

def Vars.setInt (vars : Vars) (v : IntVar) (value : Int32) : Vars :=
  { vars with int := Function.update vars.int v value }

def Vars.setString (vars : Vars) (v : StringVar) (value : CString) : Vars :=
  { vars with string := Function.update vars.string v (some value) }

def Vars.setBool (vars : Vars) (v : BoolVar) (value : Bool) : Vars :=
  { vars with bool := Function.update vars.bool v value }

def logDestFile : Int32 := 0
def logDestSyslog : Int32 := 1
def logDestErr : Int32 := 2

def initialVars : Vars where
  int
    | .mqPrefetch => 10
    | .logDest => logDestErr
    | .logLevel => 6
    | .subGcReqThreadsInit | .subGcRespThreadsInit | .subTransferThreadsInit | .inspThreadsInit => 1
    | .subGcReqThreadsMax | .subGcRespThreadsMax | .subTransferThreadsMax | .inspThreadsMax => 5
    | _ => 0
  string _ := none
  bool _ := false
  backupLocalities := none
  backupLocalityCount := 0

/-! ### The table of keys -/

inductive Key
  | maxThreads | maxBlockSize | hashType | helloTime | deadTime | transferPassword | transferMode
  | cacheGoodLimit | cacheBadLimit
  | mqHost | mqPort | mqUser | mqPassword | mqVhost | mqSSL | mqPrefetch
  | logDestination | logLevel | logSyslogFacility | logFile
  | localityId | localityBlockStore | localityBlockStoreRemote | localityBackupOrder
  | inspectionThreadsInitial | inspectionThreadsMax
  | requestThreadsInitial | requestThreadsMax | responseThreadsInitial | responseThreadsMax
  | transferThreadsInitial | transferThreadsMax
  | poolMaxItems | poolMaxSize | poolMaxItemSize
  deriving DecidableEq, Repr

def Key.path : Key → String
  | .maxThreads => "Global.MaxThreads"
  | .maxBlockSize => "Global.MaxBlockSize"
  | .hashType => "Global.HashType"
  | .helloTime => "Global.HelloTime"
  | .deadTime => "Global.DeadTime"
  | .transferPassword => "Global.TransferPassword"
  | .transferMode => "Global.TransferMode"
  | .cacheGoodLimit => "Cache.GoodLimit"
  | .cacheBadLimit => "Cache.BadLimit"
  | .mqHost => "MessageQueue.Host"
  | .mqPort => "MessageQueue.Port"
  | .mqUser => "MessageQueue.User"
  | .mqPassword => "MessageQueue.Password"
  | .mqVhost => "MessageQueue.Vhost"
  | .mqSSL => "MessageQueue.SSL"
  | .mqPrefetch => "MessageQueue.Prefetch"
  | .logDestination => "Log.Destination"
  | .logLevel => "Log.Level"
  | .logSyslogFacility => "Log.Syslog_Facility"
  | .logFile => "Log.File"
  | .localityId => "Locality.Id"
  | .localityBlockStore => "Locality.BlockStore"
  | .localityBlockStoreRemote => "Locality.BlockStoreRemote"
  | .localityBackupOrder => "Locality.BackupOrder"
  | .inspectionThreadsInitial => "Inspection.Threads.Initial"
  | .inspectionThreadsMax => "Inspection.Threads.Max"
  | .requestThreadsInitial => "Submission.GlobalCache.Request.Threads.Initial"
  | .requestThreadsMax => "Submission.GlobalCache.Request.Threads.Max"
  | .responseThreadsInitial => "Submission.GlobalCache.Response.Threads.Initial"
  | .responseThreadsMax => "Submission.GlobalCache.Response.Threads.Max"
  | .transferThreadsInitial => "Submission.Transfer.Threads.Initial"
  | .transferThreadsMax => "Submission.Transfer.Threads.Max"
  | .poolMaxItems => "Submission.Pool.MaxItems"
  | .poolMaxSize => "Submission.Pool.MaxSize"
  | .poolMaxItemSize => "Submission.Pool.MaxItemSize"

/-- What a row of the table says about its value: the type, the variable and the callback. -/
inductive Dest
  | int (v : IntVar)
  | string (v : StringVar)
  | parsed (v : IntVar) (parseString : CString → Option Int32)
  | bool (v : BoolVar)
  /-- `backupLocalitiesArray`, an array of integers. -/
  | backupLocalities

structure Row where
  key : Key
  dest : Dest

/-- The first of the names with which the text starts, in any case. -/
def parseName (names : List (String × Int32)) (text : CString) : Option Int32 :=
  (names.find? fun p => text.startsWith p.1).map Prod.snd

def parseHashType : CString → Option Int32 :=
  parseName [("MD5", 1), ("SHA1", 2), ("SHA224", 3), ("SHA256", 4), ("SHA512", 5)]

def parseLogDest : CString → Option Int32 :=
  parseName [("syslog", logDestSyslog), ("stderr", logDestErr), ("file", logDestFile)]

def parseLogLevel : CString → Option Int32 :=
  parseName [("emergency", 0), ("alert", 1), ("critical", 2), ("error", 3), ("warning", 4), ("notice", 5),
    ("info", 6), ("debug", 7)]

def parseLogFacility : CString → Option Int32 :=
  parseName [("daemon", 24), ("user", 8), ("local0", 128), ("local1", 136), ("local2", 144), ("local3", 152),
    ("local4", 160), ("local5", 168), ("local6", 176), ("local7", 184)]

/-- The row of `Submission.Pool.MaxItemSize` has the variable of the row before it. -/
def globalConfig : List Row := [
  ⟨.maxThreads, .int .threadLimit⟩,
  ⟨.maxBlockSize, .int .maxBlockSize⟩,
  ⟨.hashType, .parsed .hashType parseHashType⟩,
  ⟨.helloTime, .int .helloTime⟩,
  ⟨.deadTime, .int .deadTime⟩,
  ⟨.transferPassword, .string .transferPassword⟩,
  ⟨.transferMode, .string .transferMode⟩,
  ⟨.cacheGoodLimit, .int .cacheGoodLimit⟩,
  ⟨.cacheBadLimit, .int .cacheBadLimit⟩,
  ⟨.mqHost, .string .mqHost⟩,
  ⟨.mqPort, .int .mqPort⟩,
  ⟨.mqUser, .string .mqUser⟩,
  ⟨.mqPassword, .string .mqPassword⟩,
  ⟨.mqVhost, .string .mqVhost⟩,
  ⟨.mqSSL, .bool .mqSSL⟩,
  ⟨.mqPrefetch, .int .mqPrefetch⟩,
  ⟨.logDestination, .parsed .logDest parseLogDest⟩,
  ⟨.logLevel, .parsed .logLevel parseLogLevel⟩,
  ⟨.logSyslogFacility, .parsed .logFacility parseLogFacility⟩,
  ⟨.logFile, .string .logFile⟩,
  ⟨.localityId, .int .localityId⟩,
  ⟨.localityBlockStore, .string .localityBlockStore⟩,
  ⟨.localityBlockStoreRemote, .bool .blockStoreRemote⟩,
  ⟨.localityBackupOrder, .backupLocalities⟩,
  ⟨.inspectionThreadsInitial, .int .inspThreadsInit⟩,
  ⟨.inspectionThreadsMax, .int .inspThreadsMax⟩,
  ⟨.requestThreadsInitial, .int .subGcReqThreadsInit⟩,
  ⟨.requestThreadsMax, .int .subGcReqThreadsMax⟩,
  ⟨.responseThreadsInitial, .int .subGcRespThreadsInit⟩,
  ⟨.responseThreadsMax, .int .subGcRespThreadsMax⟩,
  ⟨.transferThreadsInitial, .int .subTransferThreadsInit⟩,
  ⟨.transferThreadsMax, .int .subTransferThreadsMax⟩,
  ⟨.poolMaxItems, .int .blockPoolMaxItems⟩,
  ⟨.poolMaxSize, .int .blockPoolMaxSize⟩,
  ⟨.poolMaxItemSize, .int .blockPoolMaxSize⟩]

/-! ### The reader -/

/-- A simple value of the file. Integers of either size are one. -/
inductive Scalar
  | int (value : Int)
  | float
  | bool (value : Bool)
  | string (value : CString)
  deriving DecidableEq

inductive Setting
  | scalar (value : Scalar)
  | array (elements : List Scalar)
  | list
  | group
  deriving DecidableEq

inductive ConfigFile
  | missing
  /-- `config_read_file` fails. -/
  | malformed
  | settings (lookup : Key → Option Setting)

abbrev Environment := String → Option CString

def toConfInt (value : Int) : Option Int32 :=
  if -2 ^ 31 ≤ value ∧ value < 2 ^ 31 then some (Int32.ofInt value) else none

/-- `config_lookup_int` at a path that was found. -/
def lookupInt : Setting → Option Int32
  | .scalar (.int value) => toConfInt value
  | _ => none

def lookupString : Setting → Option CString
  | .scalar (.string value) => some value
  | _ => none

/-- `config_setting_get_int_elem`, which is zero for anything but an `int`. -/
def intElem : Scalar → Int32
  | .int value => (toConfInt value).getD 0
  | _ => 0

inductive Assignment
  | int (v : IntVar) (value : Int32)
  | string (v : StringVar) (value : CString)
  | bool (v : BoolVar) (value : Bool)
  | backupLocalities (localities : List Int32)

/-- An empty array sets the count alone. -/
def Assignment.apply : Assignment → Vars → Vars
  | .int v value, vars => vars.setInt v value
  | .string v value, vars => vars.setString v value
  | .bool v value, vars => vars.setBool v value
  | .backupLocalities [], vars => { vars with backupLocalityCount := 0 }
  | .backupLocalities (l :: ls), vars =>
    { vars with backupLocalities := some (l :: ls), backupLocalityCount := Int32.ofNat (l :: ls).length }

def configKeyToEnvName (path : String) : String :=
  String.ofList ("RZB_".toList ++ path.toList.flatMap fun c => if c = '.' then ['_', '_'] else [c])

def getEnvOverride (env : Environment) (key : Key) : Option CString := env (configKeyToEnvName key.path)

def parseEnvInt (value : CString) : Option Int32 :=
  match strtol value.bytes with
  | none => none
  | some (n, rest) => if rest.dropWhile isSpace = [] then toConfInt n else none

def parseEnvValue (value : CString) : Dest → Option Assignment
  | .int v => (parseEnvInt value).map (.int v)
  | .string v => some (.string v value)
  | .parsed v parseString => (parseString value).map (.int v)
  | .bool v =>
    if value.sameLetters "true" then some (.bool v true)
    else if value.sameLetters "false" then some (.bool v false)
    else none
  | .backupLocalities => none

/-- The part of `parseBlock` for a key that was found in the file. -/
def parseSetting (setting : Setting) : Dest → Option Assignment
  | .int v => (lookupInt setting).map (.int v)
  | .string v => (lookupString setting).map (.string v)
  | .parsed v parseString => do
    let value ← parseString (← lookupString setting)
    return .int v value
  | .bool v => do
    let value ← lookupString setting
    if value.startsWith "true" then some (.bool v true)
    else if value.startsWith "false" then some (.bool v false)
    else none
  | .backupLocalities =>
    match setting with
    | .array elements => some (.backupLocalities (elements.map intElem))
    | _ => none

def parseBlock (env : Environment) (lookup : Key → Option Setting) : List Row → Vars → Option Vars
  | [], vars => some vars
  | row :: rows, vars =>
    match getEnvOverride env row.key with
    | some value => do
      let assignment ← parseEnvValue value row.dest
      parseBlock env lookup rows (assignment.apply vars)
    | none =>
      match lookup row.key with
      | none => parseBlock env lookup rows vars
      | some setting => do
        let assignment ← parseSetting setting row.dest
        parseBlock env lookup rows (assignment.apply vars)

def hasEnvOverride (env : Environment) (rows : List Row) : Bool := rows.any fun row => (getEnvOverride env row.key).isSome

def readMyConfig (env : Environment) (file : ConfigFile) (rows : List Row) (vars : Vars) : Option Vars :=
  match file with
  | .missing => if hasEnvOverride env rows then parseBlock env (fun _ => none) rows vars else none
  | .malformed => none
  | .settings lookup => parseBlock env lookup rows vars

/-! ### The checks -/

def validateHelloTime (value : Int32) : Bool := 1 < value.toInt

def validateDeadTime (helloValue deadValue : Int32) : Bool := helloValue.toInt * 3 < deadValue.toInt

def validateThreadPoolInitialCount (value : Int32) : Bool := 0 < value.toInt

def validateThreadPoolMaxCount (initialValue maxValue : Int32) : Bool := initialValue.toInt ≤ maxValue.toInt

/-- The sums are taken in 64 bits. -/
def minimumRequired (vars : Vars) : Int :=
  let baseRequired := 4
  let requestRequired := (vars.int .subGcReqThreadsInit).toInt * 2
  let responseRequired := (vars.int .subGcRespThreadsInit).toInt
  let transferRequired := (vars.int .subTransferThreadsInit).toInt * 2
  let inspectionRequired := 3 + (vars.int .inspThreadsInit).toInt
  baseRequired + requestRequired + responseRequired + transferRequired + inspectionRequired

def validateGlobalThreadLimit (vars : Vars) : Bool := minimumRequired vars ≤ (vars.int .threadLimit).toInt

def validate (vars : Vars) : Bool :=
  validateHelloTime (vars.int .helloTime) &&
  validateDeadTime (vars.int .helloTime) (vars.int .deadTime) &&
  validateThreadPoolInitialCount (vars.int .inspThreadsInit) &&
  validateThreadPoolInitialCount (vars.int .subGcReqThreadsInit) &&
  validateThreadPoolInitialCount (vars.int .subGcRespThreadsInit) &&
  validateThreadPoolInitialCount (vars.int .subTransferThreadsInit) &&
  validateThreadPoolMaxCount (vars.int .inspThreadsInit) (vars.int .inspThreadsMax) &&
  validateThreadPoolMaxCount (vars.int .subGcReqThreadsInit) (vars.int .subGcReqThreadsMax) &&
  validateThreadPoolMaxCount (vars.int .subGcRespThreadsInit) (vars.int .subGcRespThreadsMax) &&
  validateThreadPoolMaxCount (vars.int .subTransferThreadsInit) (vars.int .subTransferThreadsMax) &&
  validateGlobalThreadLimit vars

structure Input where
  file : ConfigFile
  env : Environment

/-- The product that converts the block size wraps, as it does in practice. -/
def convertBlockSize (vars : Vars) : Vars := vars.setInt .maxBlockSize (vars.int .maxBlockSize * 1024 * 1024)

def overridePassword (env : Environment) (vars : Vars) : Vars :=
  match env "RZB_MQ_PASSWORD" with
  | some password => vars.setString .mqPassword password
  | none => vars

def mqComplete (vars : Vars) : Bool :=
  (vars.string .mqHost).isSome && (vars.string .mqUser).isSome && (vars.string .mqPassword).isSome

def readApiConfig (input : Input) (vars : Vars) : Option Vars := do
  let vars ← readMyConfig input.env input.file globalConfig vars
  let vars := overridePassword input.env (convertBlockSize vars)
  if mqComplete vars && validate vars then some vars else none

/-! ### The functions that return the values -/

inductive Getter
  | getHashType | getMaxBlockSize | getThreadLimit | getHelloTime | getDeadTime
  | getTransferPassword | getTransferMode
  | getMqHost | getMqPort | getMqUser | getMqPassword | getMqVhost | getMqSSL | getMqPrefetch
  | getCacheGoodLimit | getCacheBadLimit
  | getLogDest | getLogLevel | getLogFacility | getLogFile
  | getLocalityId | getLocalityBlockStore | isBlockStoreRemote | getLocalityBackupOrder | getLocalityBackupCount
  | getSubGcReqThreadsInit | getSubGcReqThreadsMax | getSubGcRespThreadsInit | getSubGcRespThreadsMax
  | getSubTransferThreadsInit | getSubTransferThreadsMax
  | getBlockPoolMaxItems | getBlockPoolMaxSize | getBlockPoolMaxItemSize
  | getInspThreadsInit | getInspThreadsMax
  deriving DecidableEq, Repr

inductive Value
  | uint32 (value : UInt32)
  | int (value : Int32)
  | string (value : Option CString)
  | bool (value : Bool)
  | ints (value : Option (List Int32))
  deriving DecidableEq

def Vars.uint32 (vars : Vars) (v : IntVar) : UInt32 := (vars.int v).toUInt32

def Getter.value (vars : Vars) : Getter → Value
  | .getHashType => .uint32 (vars.uint32 .hashType)
  | .getMaxBlockSize => .uint32 (vars.uint32 .maxBlockSize)
  | .getThreadLimit => .uint32 (vars.uint32 .threadLimit)
  | .getHelloTime => .uint32 (vars.uint32 .helloTime)
  | .getDeadTime => .uint32 (vars.uint32 .deadTime)
  | .getTransferPassword => .string (vars.string .transferPassword)
  | .getTransferMode => .string (vars.string .transferMode)
  | .getMqHost => .string (vars.string .mqHost)
  | .getMqPort => .uint32 (vars.uint32 .mqPort)
  | .getMqUser => .string (vars.string .mqUser)
  | .getMqPassword => .string (vars.string .mqPassword)
  | .getMqVhost => .string (vars.string .mqVhost)
  | .getMqSSL => .bool (vars.bool .mqSSL)
  | .getMqPrefetch => .uint32 (vars.uint32 .mqPrefetch)
  | .getCacheGoodLimit => .uint32 (vars.uint32 .cacheGoodLimit)
  | .getCacheBadLimit => .uint32 (vars.uint32 .cacheBadLimit)
  | .getLogDest => .int (vars.int .logDest)
  | .getLogLevel => .int (vars.int .logLevel)
  | .getLogFacility => .int (vars.int .logFacility)
  | .getLogFile => .string (vars.string .logFile)
  | .getLocalityId => .uint32 (vars.uint32 .localityId)
  | .getLocalityBlockStore => .string (vars.string .localityBlockStore)
  | .isBlockStoreRemote => .bool (vars.bool .blockStoreRemote)
  | .getLocalityBackupOrder => .ints vars.backupLocalities
  | .getLocalityBackupCount => .int vars.backupLocalityCount
  | .getSubGcReqThreadsInit => .uint32 (vars.uint32 .subGcReqThreadsInit)
  | .getSubGcReqThreadsMax => .uint32 (vars.uint32 .subGcReqThreadsMax)
  | .getSubGcRespThreadsInit => .uint32 (vars.uint32 .subGcRespThreadsInit)
  | .getSubGcRespThreadsMax => .uint32 (vars.uint32 .subGcRespThreadsMax)
  | .getSubTransferThreadsInit => .uint32 (vars.uint32 .subTransferThreadsInit)
  | .getSubTransferThreadsMax => .uint32 (vars.uint32 .subTransferThreadsMax)
  | .getBlockPoolMaxItems => .uint32 (vars.uint32 .blockPoolMaxItems)
  | .getBlockPoolMaxSize => .uint32 (vars.uint32 .blockPoolMaxSize)
  | .getBlockPoolMaxItemSize => .uint32 (vars.uint32 .blockPoolMaxItemSize)
  | .getInspThreadsInit => .uint32 (vars.uint32 .inspThreadsInit)
  | .getInspThreadsMax => .uint32 (vars.uint32 .inspThreadsMax)

end Razorback.Config
