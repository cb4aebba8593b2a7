import Razorback.Config.Defs

/-! Which variables a key can change. Each row writes one variable, and what it writes depends on the value of its own
key alone; two reads that differ in one key therefore agree on all variables but those of its rows. -/

namespace Razorback.Config
open Text Function Option

inductive Var
  | int (v : IntVar)
  | string (v : StringVar)
  | bool (v : BoolVar)
  | backupLocalities
  deriving DecidableEq

def Dest.var : Dest → Var
  | .int v => .int v
  | .string v => .string v
  | .parsed v _ => .int v
  | .bool v => .bool v
  | .backupLocalities => .backupLocalities

def Assignment.var : Assignment → Var
  | .int v _ => .int v
  | .string v _ => .string v
  | .bool v _ => .bool v
  | .backupLocalities _ => .backupLocalities

structure AgreeOff (w : Var → Prop) (a b : Vars) : Prop where
  int : ∀ v, ¬w (.int v) → a.int v = b.int v
  string : ∀ v, ¬w (.string v) → a.string v = b.string v
  bool : ∀ v, ¬w (.bool v) → a.bool v = b.bool v
  backup : ¬w .backupLocalities →
    a.backupLocalities = b.backupLocalities ∧ a.backupLocalityCount = b.backupLocalityCount

section
variable {w : Var → Prop} {a b : Vars}

theorem AgreeOff.refl (w : Var → Prop) (a : Vars) : AgreeOff w a a :=
  ⟨fun _ _ => rfl, fun _ _ => rfl, fun _ _ => rfl, fun _ => ⟨rfl, rfl⟩⟩

theorem AgreeOff.symm (h : AgreeOff w a b) : AgreeOff w b a :=
  ⟨fun v hv => (h.int v hv).symm, fun v hv => (h.string v hv).symm, fun v hv => (h.bool v hv).symm,
    fun hv => ⟨(h.backup hv).1.symm, (h.backup hv).2.symm⟩⟩

theorem update_agree {κ β : Type*} [DecidableEq κ] {f g : κ → β} {p : κ → Prop} (h : ∀ v, p v → f v = g v)
    {k : κ} {x y : β} (hxy : p k → x = y) (v : κ) (hv : p v) :
    Function.update f k x v = Function.update g k y v := by
  by_cases hvk : v = k
  · subst hvk
    rw [update_self, update_self, hxy hv]
  · rw [update_of_ne hvk, update_of_ne hvk, h v hv]

theorem update_agree_left {κ β : Type*} [DecidableEq κ] {f g : κ → β} {p : κ → Prop} (h : ∀ v, p v → f v = g v)
    {k : κ} (hk : ¬p k) (x : β) (v : κ) (hv : p v) : Function.update f k x v = g v := by
  have hvk : v ≠ k := fun e => hk (e ▸ hv)
  rw [update_of_ne hvk, h v hv]

theorem AgreeOff.setInt (h : AgreeOff w a b) (v : IntVar) (hxy : ¬w (.int v) → x = y) :
    AgreeOff w (a.setInt v x) (b.setInt v y) :=
  ⟨update_agree h.int hxy, h.string, h.bool, h.backup⟩

theorem AgreeOff.apply (h : AgreeOff w a b) (x : Assignment) : AgreeOff w (x.apply a) (x.apply b) := by
  cases x with
  | int v value => exact h.setInt v fun _ => rfl
  | string v value => exact ⟨h.int, update_agree h.string fun _ => rfl, h.bool, h.backup⟩
  | bool v value => exact ⟨h.int, h.string, update_agree h.bool fun _ => rfl, h.backup⟩
  | backupLocalities ls =>
    cases ls with
    | nil => exact ⟨h.int, h.string, h.bool, fun hv => ⟨(h.backup hv).1, rfl⟩⟩
    | cons l ls => exact ⟨h.int, h.string, h.bool, fun _ => ⟨rfl, rfl⟩⟩

theorem AgreeOff.apply_left (h : AgreeOff w a b) {x : Assignment} (hx : w x.var) : AgreeOff w (x.apply a) b := by
  cases x with
  | int v value => exact ⟨update_agree_left h.int (fun hv => hv hx) value, h.string, h.bool, h.backup⟩
  | string v value => exact ⟨h.int, update_agree_left h.string (fun hv => hv hx) _, h.bool, h.backup⟩
  | bool v value => exact ⟨h.int, h.string, update_agree_left h.bool (fun hv => hv hx) value, h.backup⟩
  | backupLocalities ls =>
    have hall : AgreeOff w { a with backupLocalities := b.backupLocalities } b :=
      ⟨h.int, h.string, h.bool, fun hv => absurd hx hv⟩
    cases ls <;> exact ⟨hall.int, hall.string, hall.bool, fun hv => absurd hx hv⟩

end

/-! ### One row -/

def rowAssignment (env : Environment) (lookup : Key → Option Setting) (row : Row) : Option (Option Assignment) :=
  match getEnvOverride env row.key with
  | some value => (parseEnvValue value row.dest).map some
  | none =>
    match lookup row.key with
    | none => some none
    | some setting => (parseSetting setting row.dest).map some

theorem parseBlock_cons (env : Environment) (lookup : Key → Option Setting) (row : Row) (rows : List Row)
    (vars : Vars) : parseBlock env lookup (row :: rows) vars =
      (rowAssignment env lookup row).bind fun x => parseBlock env lookup rows ((x.map (·.apply vars)).getD vars) := by
  rw [parseBlock, rowAssignment]
  cases getEnvOverride env row.key with
  | some value =>
    dsimp only
    cases parseEnvValue value row.dest <;> rfl
  | none =>
    cases lookup row.key with
    | none => rfl
    | some setting =>
      dsimp only
      cases parseSetting setting row.dest <;> rfl

theorem parseEnvValue_var (h : parseEnvValue value dest = some x) : x.var = dest.var := by
  cases dest with
  | int v =>
    obtain ⟨n, _, rfl⟩ := map_eq_some_iff.mp h
    rfl
  | string v => exact some.inj h ▸ rfl
  | parsed v parse =>
    obtain ⟨n, _, rfl⟩ := map_eq_some_iff.mp h
    rfl
  | bool v =>
    simp only [parseEnvValue] at h
    split_ifs at h <;> exact some.inj h ▸ rfl
  | backupLocalities => cases h

theorem parseSetting_var (h : parseSetting setting dest = some x) : x.var = dest.var := by
  cases dest with
  | int v =>
    obtain ⟨n, _, rfl⟩ := map_eq_some_iff.mp h
    rfl
  | string v =>
    obtain ⟨s, _, rfl⟩ := map_eq_some_iff.mp h
    rfl
  | parsed v parse =>
    simp only [parseSetting, bind_eq_bind, bind_eq_some_iff] at h
    obtain ⟨s, _, n, _, hx⟩ := h
    exact some.inj hx ▸ rfl
  | bool v =>
    simp only [parseSetting, bind_eq_bind, bind_eq_some_iff] at h
    obtain ⟨s, _, hx⟩ := h
    split_ifs at hx <;> exact some.inj hx ▸ rfl
  | backupLocalities =>
    cases setting with
    | array elements => exact some.inj h ▸ rfl
    | scalar | list | group => cases h

theorem rowAssignment_var
    (h : rowAssignment env lookup row = some (some x)) : x.var = row.dest.var := by
  unfold rowAssignment at h
  cases he : getEnvOverride env row.key with
  | some value =>
    simp only [he, map_eq_some_iff] at h
    obtain ⟨y, hy, hxy⟩ := h
    exact some.inj hxy ▸ parseEnvValue_var hy
  | none =>
    cases hl : lookup row.key with
    | none => simp [he, hl] at h
    | some setting =>
      simp only [he, hl, map_eq_some_iff] at h
      obtain ⟨y, hy, hxy⟩ := h
      exact some.inj hxy ▸ parseSetting_var hy

/-! ### Two reads -/

section
variable {env env' : Environment} {lookup lookup' : Key → Option Setting} {w : Var → Prop}

theorem AgreeOff.row {a b : Vars} (h : AgreeOff w a b) {row : Row} {x y : Option Assignment}
    (hx : rowAssignment env lookup row = some x) (hy : rowAssignment env' lookup' row = some y)
    (hrow : w row.dest.var ∨ rowAssignment env lookup row = rowAssignment env' lookup' row) :
    AgreeOff w ((x.map (·.apply a)).getD a) ((y.map (·.apply b)).getD b) := by
  rcases hrow with hw | heq
  · have hleft : AgreeOff w ((x.map (·.apply a)).getD a) b := by
      cases x with
      | none => exact h
      | some x => exact h.apply_left (rowAssignment_var hx ▸ hw)
    cases y with
    | none => exact hleft
    | some y => exact (hleft.symm.apply_left (rowAssignment_var hy ▸ hw)).symm
  · obtain rfl : x = y := some.inj (hx.symm.trans (heq.trans hy))
    cases x with
    | none => exact h
    | some x => exact h.apply x

theorem parseBlock_agree (h : AgreeOff w a b)
    (hrows : ∀ row ∈ rows, w row.dest.var ∨ rowAssignment env lookup row = rowAssignment env' lookup' row)
    (ha : parseBlock env lookup rows a = some a') (hb : parseBlock env' lookup' rows b = some b') :
    AgreeOff w a' b' := by
  induction rows generalizing a b with
  | nil =>
    obtain rfl := some.inj ha
    obtain rfl := some.inj hb
    exact h
  | cons row rows ih =>
    rw [parseBlock_cons, bind_eq_some_iff] at ha hb
    obtain ⟨x, hx, ha⟩ := ha
    obtain ⟨y, hy, hb⟩ := hb
    exact ih (h.row hx hy (hrows row List.mem_cons_self)) (fun r hr => hrows r (List.mem_cons_of_mem row hr)) ha hb

end

def ConfigFile.lookup : ConfigFile → Key → Option Setting
  | .settings lookup => lookup
  | _ => fun _ => none

theorem readMyConfig_parse
    (h : readMyConfig env file rows vars = some vars') : parseBlock env file.lookup rows vars = some vars' := by
  cases file with
  | missing =>
    simp only [readMyConfig] at h
    split_ifs at h
    exact h
  | malformed => cases h
  | settings lookup => exact h

/-- Two inputs that give the same value for every key but `k`. The password of the message queue has an environment
variable more than the others. -/
structure DifferOnlyIn (k : Key) (i j : Input) : Prop where
  file : ∀ key, key ≠ k → i.file.lookup key = j.file.lookup key
  env : ∀ key, key ≠ k → getEnvOverride i.env key = getEnvOverride j.env key
  password : k ≠ .mqPassword → i.env "RZB_MQ_PASSWORD" = j.env "RZB_MQ_PASSWORD"

def WrittenBy (k : Key) (v : Var) : Prop := ∃ row ∈ globalConfig, row.key = k ∧ row.dest.var = v

theorem AgreeOff.overridePassword (h : AgreeOff w a b)
    (henv : w (.string .mqPassword) ∨ env "RZB_MQ_PASSWORD" = env' "RZB_MQ_PASSWORD") :
    AgreeOff w (overridePassword env a) (overridePassword env' b) := by
  rcases henv with hw | heq
  · have hleft : AgreeOff w (Config.overridePassword env a) b := by
      unfold Config.overridePassword
      cases env "RZB_MQ_PASSWORD" with
      | none => exact h
      | some p => exact h.apply_left (x := .string .mqPassword p) hw
    unfold Config.overridePassword at hleft ⊢
    cases env' "RZB_MQ_PASSWORD" with
    | none => exact hleft
    | some p => exact (hleft.symm.apply_left (x := .string .mqPassword p) hw).symm
  · unfold Config.overridePassword
    rw [heq]
    cases env' "RZB_MQ_PASSWORD" with
    | none => exact h
    | some p => exact h.apply (.string .mqPassword p)

theorem readApiConfig_agree (h : DifferOnlyIn k i j)
    (ha : readApiConfig i vars = some a) (hb : readApiConfig j vars = some b) :
    AgreeOff (WrittenBy k) a b := by
  simp only [readApiConfig, bind_eq_bind, bind_eq_some_iff] at ha hb
  obtain ⟨a₁, ha₁, ha⟩ := ha
  obtain ⟨b₁, hb₁, hb⟩ := hb
  split_ifs at ha hb
  obtain rfl := some.inj ha
  obtain rfl := some.inj hb
  have hparse : AgreeOff (WrittenBy k) a₁ b₁ := by
    refine parseBlock_agree (.refl _ vars) (fun row hrow => ?_) (readMyConfig_parse ha₁) (readMyConfig_parse hb₁)
    by_cases hkey : row.key = k
    · exact .inl ⟨row, hrow, hkey, rfl⟩
    · right
      rw [rowAssignment, rowAssignment, h.env _ hkey, h.file _ hkey]
  refine (hparse.setInt .maxBlockSize fun hv => ?_).overridePassword ?_
  · rw [hparse.int _ hv]
  · by_cases hp : k = .mqPassword
    · exact .inl (hp ▸ ⟨⟨.mqPassword, .string .mqPassword⟩, by simp [globalConfig], rfl, rfl⟩)
    · exact .inr (h.password hp)

/-! ### The functions that return the values -/

def Getter.var : Getter → Var
  | .getHashType => .int .hashType
  | .getMaxBlockSize => .int .maxBlockSize
  | .getThreadLimit => .int .threadLimit
  | .getHelloTime => .int .helloTime
  | .getDeadTime => .int .deadTime
  | .getTransferPassword => .string .transferPassword
  | .getTransferMode => .string .transferMode
  | .getMqHost => .string .mqHost
  | .getMqPort => .int .mqPort
  | .getMqUser => .string .mqUser
  | .getMqPassword => .string .mqPassword
  | .getMqVhost => .string .mqVhost
  | .getMqSSL => .bool .mqSSL
  | .getMqPrefetch => .int .mqPrefetch
  | .getCacheGoodLimit => .int .cacheGoodLimit
  | .getCacheBadLimit => .int .cacheBadLimit
  | .getLogDest => .int .logDest
  | .getLogLevel => .int .logLevel
  | .getLogFacility => .int .logFacility
  | .getLogFile => .string .logFile
  | .getLocalityId => .int .localityId
  | .getLocalityBlockStore => .string .localityBlockStore
  | .isBlockStoreRemote => .bool .blockStoreRemote
  | .getLocalityBackupOrder | .getLocalityBackupCount => .backupLocalities
  | .getSubGcReqThreadsInit => .int .subGcReqThreadsInit
  | .getSubGcReqThreadsMax => .int .subGcReqThreadsMax
  | .getSubGcRespThreadsInit => .int .subGcRespThreadsInit
  | .getSubGcRespThreadsMax => .int .subGcRespThreadsMax
  | .getSubTransferThreadsInit => .int .subTransferThreadsInit
  | .getSubTransferThreadsMax => .int .subTransferThreadsMax
  | .getBlockPoolMaxItems => .int .blockPoolMaxItems
  | .getBlockPoolMaxSize => .int .blockPoolMaxSize
  | .getBlockPoolMaxItemSize => .int .blockPoolMaxItemSize
  | .getInspThreadsInit => .int .inspThreadsInit
  | .getInspThreadsMax => .int .inspThreadsMax

/-- The key a function is named after; the backup order has two, one for its length. -/
def Getter.key : Getter → Key
  | .getHashType => .hashType
  | .getMaxBlockSize => .maxBlockSize
  | .getThreadLimit => .maxThreads
  | .getHelloTime => .helloTime
  | .getDeadTime => .deadTime
  | .getTransferPassword => .transferPassword
  | .getTransferMode => .transferMode
  | .getMqHost => .mqHost
  | .getMqPort => .mqPort
  | .getMqUser => .mqUser
  | .getMqPassword => .mqPassword
  | .getMqVhost => .mqVhost
  | .getMqSSL => .mqSSL
  | .getMqPrefetch => .mqPrefetch
  | .getCacheGoodLimit => .cacheGoodLimit
  | .getCacheBadLimit => .cacheBadLimit
  | .getLogDest => .logDestination
  | .getLogLevel => .logLevel
  | .getLogFacility => .logSyslogFacility
  | .getLogFile => .logFile
  | .getLocalityId => .localityId
  | .getLocalityBlockStore => .localityBlockStore
  | .isBlockStoreRemote => .localityBlockStoreRemote
  | .getLocalityBackupOrder | .getLocalityBackupCount => .localityBackupOrder
  | .getSubGcReqThreadsInit => .requestThreadsInitial
  | .getSubGcReqThreadsMax => .requestThreadsMax
  | .getSubGcRespThreadsInit => .responseThreadsInitial
  | .getSubGcRespThreadsMax => .responseThreadsMax
  | .getSubTransferThreadsInit => .transferThreadsInitial
  | .getSubTransferThreadsMax => .transferThreadsMax
  | .getBlockPoolMaxItems => .poolMaxItems
  | .getBlockPoolMaxSize => .poolMaxSize
  | .getBlockPoolMaxItemSize => .poolMaxItemSize
  | .getInspThreadsInit => .inspectionThreadsInitial
  | .getInspThreadsMax => .inspectionThreadsMax

theorem Getter.value_eq (h : AgreeOff w a b) (g : Getter) (hg : ¬w g.var) :
    g.value a = g.value b := by
  cases g with
  | getTransferPassword | getTransferMode | getMqHost | getMqUser | getMqPassword | getMqVhost | getLogFile |
    getLocalityBlockStore => exact congrArg Value.string (h.string _ hg)
  | getMqSSL | isBlockStoreRemote => exact congrArg Value.bool (h.bool _ hg)
  | getLogDest | getLogLevel | getLogFacility => exact congrArg Value.int (h.int _ hg)
  | getLocalityBackupOrder => exact congrArg Value.ints (h.backup hg).1
  | getLocalityBackupCount => exact congrArg Value.int (h.backup hg).2
  | _ => exact congrArg (fun x : Int32 => Value.uint32 x.toUInt32) (h.int _ hg)

theorem written_by_own_key (g : Getter) : ∀ row ∈ globalConfig, row.dest.var = g.var →
    row.key = g.key ∨ row.key = .poolMaxItemSize ∧ g = .getBlockPoolMaxSize := by
  cases g <;> decide

/-- A change of one key is seen through the functions of that key alone, but for the size of a pool item. -/
theorem getter_unchanged {k : Key} {i j : Input} (h : DifferOnlyIn k i j) {vars a b : Vars}
    (ha : readApiConfig i vars = some a) (hb : readApiConfig j vars = some b) (g : Getter) (hg : g.key ≠ k)
    (hpool : k = .poolMaxItemSize → g ≠ .getBlockPoolMaxSize) : g.value a = g.value b := by
  refine g.value_eq (readApiConfig_agree h ha hb) ?_
  rintro ⟨row, hrow, hkey, hvar⟩
  rcases written_by_own_key g row hrow hvar with hown | ⟨hitem, hsize⟩
  · exact hg (hown.symm.trans hkey)
  · exact hpool (hkey.symm.trans hitem) hsize

def sampleFile (k : Key) (value : Int) : ConfigFile :=
  .settings (Function.update (fun
    | .maxThreads => some (.scalar (.int 13))
    | .helloTime => some (.scalar (.int 10))
    | .deadTime => some (.scalar (.int 31))
    | .mqHost | .mqUser | .mqPassword => some (.scalar (.string (cString [])))
    | .poolMaxSize => some (.scalar (.int 4096))
    | _ => none) k (some (.scalar (.int value))))

theorem sampleFile_differ (k : Key) (m n : Int) (env : Environment) :
    DifferOnlyIn k ⟨sampleFile k m, env⟩ ⟨sampleFile k n, env⟩ := by
  refine ⟨fun key hne => ?_, fun _ _ => rfl, fun _ => rfl⟩
  simp only [sampleFile, ConfigFile.lookup, update_of_ne hne]

theorem getter_unchanged_port : ∃ a b,
    readApiConfig ⟨sampleFile .mqPort 5671, fun _ => none⟩ initialVars = some a ∧
    readApiConfig ⟨sampleFile .mqPort 5672, fun _ => none⟩ initialVars = some b ∧
    Getter.value a .getBlockPoolMaxSize = Getter.value b .getBlockPoolMaxSize := by
  obtain ⟨a, ha⟩ : ∃ a, readApiConfig ⟨sampleFile .mqPort 5671, fun _ => none⟩ initialVars = some a := ⟨_, rfl⟩
  obtain ⟨b, hb⟩ : ∃ b, readApiConfig ⟨sampleFile .mqPort 5672, fun _ => none⟩ initialVars = some b := ⟨_, rfl⟩
  exact ⟨a, b, ha, hb, getter_unchanged (sampleFile_differ .mqPort 5671 5672 _) ha hb .getBlockPoolMaxSize
    (by decide) (by decide)⟩

/-- The limit of an item is read as the limit of the pool. -/
theorem pool_size_changed : DifferOnlyIn .poolMaxItemSize ⟨sampleFile .poolMaxItemSize 100, fun _ => none⟩
      ⟨sampleFile .poolMaxItemSize 200, fun _ => none⟩ ∧ ∃ a b,
    readApiConfig ⟨sampleFile .poolMaxItemSize 100, fun _ => none⟩ initialVars = some a ∧
    readApiConfig ⟨sampleFile .poolMaxItemSize 200, fun _ => none⟩ initialVars = some b ∧
    Getter.value a .getBlockPoolMaxSize = .uint32 100 ∧ Getter.value b .getBlockPoolMaxSize = .uint32 200 ∧
    Getter.value a .getBlockPoolMaxItemSize = .uint32 0 ∧ Getter.value b .getBlockPoolMaxItemSize = .uint32 0 :=
  ⟨sampleFile_differ .poolMaxItemSize 100 200 _, _, _, rfl, rfl, rfl, rfl, rfl, rfl⟩

end Razorback.Config
