import Razorback.Config.Frames
import Razorback.Lists.Refine

/-! The threads that are on the thread list once a master collection context and
an inspection child context have started, and the limit `Global.MaxThreads` that
the configuration puts on the list. Workers and timers come up in any order, so
the launches count, not their order. -/

namespace Razorback.Startup
open Config Runs List Lists

inductive Context
  | master | child
  deriving DecidableEq

/-- `CONTEXT_FLAG_STAND_ALONE`, and in this start-up also the collection nugget type. -/
def Context.standAlone (c : Context) : Bool := c = .master

inductive Role
  | commandTimer | pruneTimer | commandAndControl | helloTimer
  | requestWorker (id : ℕ) | requestTimer (id : ℕ)
  | transferWorker (id : ℕ) | transferTimer (id : ℕ)
  | responseWorker (context : Context) (id : ℕ)
  | judgmentTimer | emergency | inspectionWorker (id : ℕ) | receiver
  deriving DecidableEq

structure Process where
  queueInitialized : Bool
  subInitDone : Bool
  responseThreadPool : Context → Bool

def timerCreate (interval : UInt32) (thread : Role) : List Role := if interval = 0 then [] else [thread]

/-- A queue that is opened for sending has a heartbeat every two seconds. -/
def queueCreate (send : Bool) (heartbeat : Role) : List Role := if send then timerCreate 2 heartbeat else []

/-- `worker id` is the worker itself and what it launches when it starts. -/
def threadPoolCreate (initialThreads : Int32) (worker : ℕ → List Role) : List Role :=
  (List.range initialThreads.toInt.toNat).flatMap worker

section
variable (vars : Vars)

def connectedEntityListStart : List Role := timerCreate (vars.uint32 .helloTime / 2) .pruneTimer

/-- The answer to the registration of a stand-alone context arms the hello timer. -/
def commandAndControlRegister (c : Context) : List Role :=
  if c.standAlone then timerCreate (vars.uint32 .helloTime) .helloTimer else []

def commandAndControlStart (c : Context) (p : Process) : Option (List Role × Process) :=
  if c.standAlone then
    if p.queueInitialized then some (commandAndControlRegister vars c, p)
    else
      -- the read queue of the commands has no heartbeat
      some (queueCreate false .commandTimer ++ queueCreate true .commandTimer ++ connectedEntityListStart vars ++
        [.commandAndControl] ++ commandAndControlRegister vars c, { p with queueInitialized := true })
  else if p.queueInitialized then some (commandAndControlRegister vars c, p)
  else none

def submissionInitializeOnce : List Role :=
  threadPoolCreate (vars.int .subGcReqThreadsInit) (fun id => .requestWorker id :: queueCreate true (.requestTimer id)) ++
  threadPoolCreate (vars.int .subTransferThreadsInit) fun id =>
    .transferWorker id :: queueCreate true (.transferTimer id)

/-- The request and transfer workers are shared, the response workers belong to
the context. -/
def submissionInit (c : Context) (p : Process) : List Role × Process :=
  if p.responseThreadPool c then ([], p)
  else
    ((if p.subInitDone then [] else submissionInitializeOnce vars) ++
      threadPoolCreate (vars.int .subGcRespThreadsInit) (fun id => [.responseWorker c id]),
    { p with subInitDone := true, responseThreadPool := Function.update p.responseThreadPool c true })

def razorbackInitContext (c : Context) (p : Process) : Option (List Role × Process) := do
  let p := { p with responseThreadPool := Function.update p.responseThreadPool c false }
  let (command, p) ← commandAndControlStart vars c p
  if c.standAlone then
    let (submission, p) := submissionInit vars c p
    return (command ++ submission, p)
  else
    return (command, p)

def inspectionLaunch : Option (List Role) :=
  if (vars.int .inspThreadsInit) = 0 then none
  else some ([.emergency] ++ threadPoolCreate (vars.int .inspThreadsInit) (fun id => [.inspectionWorker id]) ++
    [.receiver])

def initInspectionContext (p : Process) : Option (List Role × Process) := do
  let (command, p) ← razorbackInitContext vars .child p
  let inspection ← inspectionLaunch vars
  let (submission, p) := submissionInit vars .child p
  return (command ++ queueCreate true .judgmentTimer ++ inspection ++ submission, p)

/-- A master collection context followed by an inspection child context. -/
def startup : Option (List Role) := do
  let (master, p) ← razorbackInitContext vars .master ⟨false, false, fun _ => false⟩
  let (child, _) ← initInspectionContext vars p
  return master ++ child

end

def threadList (vars : Vars) (junk : ℕ → Lists.Node Role) (cmp : Option (Role → Role → Bool)) : Lists.World Role :=
  Lists.initWorld junk (fun _ => .generic) (fun _ => cmp) fun _ => (vars.uint32 .threadLimit).toNat

def NeverFull (w : Lists.World Role) (order : List Role) : Prop :=
  ∃ rs w', run Lists.call (order.map (.push true 0)) w = .ok (rs, w') ∧ ∀ r ∈ rs, r = .pushed true

section
variable {vars : Vars}

theorem length_threadPoolCreate (initial : Int32) (worker : ℕ → List Role) (k : ℕ)
    (hk : ∀ id, (worker id).length = k) :
    (threadPoolCreate initial worker).length = initial.toInt.toNat * k := by
  simp [threadPoolCreate, hk]

theorem validate_of_accepted (h : readApiConfig input initialVars = some vars) : validate vars := by
  obtain ⟨vars₁, _, h⟩ := Option.bind_eq_some_iff.mp h
  dsimp only at h
  split_ifs at h with hv
  obtain rfl := Option.some.inj h
  exact (Bool.and_eq_true_iff.mp hv).2

theorem uint32_toNat (h : 0 < (vars.int v).toInt) : ((vars.uint32 v).toNat : Int) = (vars.int v).toInt := by
  have h₁ : (vars.int v).toInt = (vars.int v).toBitVec.toInt := rfl
  rw [h₁, BitVec.toInt_eq_toNat_cond] at h ⊢
  split_ifs at h ⊢
  · rfl
  · omega

theorem length_timerCreate (h : interval ≠ 0) (thread : Role) :
    (timerCreate interval thread).length = 1 := by
  rw [timerCreate, if_neg h]
  rfl

structure Counts (vars : Vars) : Prop where
  hello : 1 < (vars.int .helloTime).toInt
  request : 0 < (vars.int .subGcReqThreadsInit).toInt
  response : 0 < (vars.int .subGcRespThreadsInit).toInt
  transfer : 0 < (vars.int .subTransferThreadsInit).toInt
  inspection : 0 < (vars.int .inspThreadsInit).toInt
  limit : minimumRequired vars ≤ (vars.int .threadLimit).toInt

theorem counts_of_accepted (h : readApiConfig input initialVars = some vars) : Counts vars := by
  have hv := validate_of_accepted h
  simp only [validate, validateHelloTime, validateThreadPoolInitialCount, validateGlobalThreadLimit,
    Bool.and_eq_true, decide_eq_true_eq] at hv
  obtain ⟨⟨⟨⟨⟨⟨⟨⟨⟨⟨h1, _⟩, h2⟩, h3⟩, h4⟩, h5⟩, _⟩, _⟩, _⟩, _⟩, h6⟩ := hv
  exact ⟨h1, h3, h4, h5, h2, h6⟩

theorem Counts.timers (h : Counts vars) : vars.uint32 .helloTime ≠ 0 ∧ vars.uint32 .helloTime / 2 ≠ 0 := by
  have h1 := h.hello
  have h2 : ((vars.uint32 .helloTime).toNat : Int) = (vars.int .helloTime).toInt := uint32_toNat (by omega)
  constructor
  · intro h0
    rw [h0] at h2
    have : (0 : UInt32).toNat = 0 := rfl
    omega
  · intro h0
    have h3 := congrArg UInt32.toNat h0
    have h4 : (vars.uint32 .helloTime).toNat / 2 = 0 := by simpa using h3
    omega

theorem startup_eq (hinsp : vars.int .inspThreadsInit ≠ 0) : startup vars = some
    ((queueCreate true .commandTimer ++ connectedEntityListStart vars ++ [.commandAndControl] ++
      commandAndControlRegister vars .master ++ (submissionInitializeOnce vars ++
      threadPoolCreate (vars.int .subGcRespThreadsInit) fun id => [.responseWorker .master id])) ++
    (queueCreate true .judgmentTimer ++ ([.emergency] ++
      threadPoolCreate (vars.int .inspThreadsInit) (fun id => [.inspectionWorker id]) ++ [.receiver]) ++
      threadPoolCreate (vars.int .subGcRespThreadsInit) fun id => [.responseWorker .child id])) := by
  have hlaunch : inspectionLaunch vars = some ([.emergency] ++
      threadPoolCreate (vars.int .inspThreadsInit) (fun id => [.inspectionWorker id]) ++ [.receiver]) := if_neg hinsp
  simp only [startup, initInspectionContext, hlaunch]
  rfl

theorem startup_length (h : Counts vars) : ∃ launches, startup vars = some launches ∧
    (launches.length : Int) = minimumRequired vars + (vars.int .subGcRespThreadsInit).toInt := by
  have hinsp : vars.int .inspThreadsInit ≠ 0 := by
    intro h0
    have := h.inspection
    rw [h0] at this
    exact absurd this (by decide)
  refine ⟨_, startup_eq hinsp, ?_⟩
  have hqueue : ∀ t, (queueCreate true t).length = 1 := fun _ => rfl
  have hprune : (connectedEntityListStart vars).length = 1 := length_timerCreate h.timers.2 _
  have hhello : (commandAndControlRegister vars .master).length = 1 := length_timerCreate h.timers.1 _
  have hone : ∀ initial (role : ℕ → Role),
      (threadPoolCreate initial fun id => [role id]).length = initial.toInt.toNat * 1 :=
    fun initial role => length_threadPoolCreate initial (fun id => [role id]) 1 fun _ => rfl
  have hshared : (submissionInitializeOnce vars).length =
      (vars.int .subGcReqThreadsInit).toInt.toNat * 2 + (vars.int .subTransferThreadsInit).toInt.toNat * 2 := by
    rw [submissionInitializeOnce, length_append, length_threadPoolCreate _ _ 2 fun _ => rfl,
      length_threadPoolCreate _ _ 2 fun _ => rfl]
  simp only [length_append, length_singleton, hqueue, hone, minimumRequired]
  have := h.request
  have := h.response
  have := h.transfer
  have := h.inspection
  omega

end

section
variable {a : ℕ → Lists.Seq Role} {limit : ℕ}

theorem pushes_ok_iff (order : List Role) (hlimit : (a 0).limit = limit) (hpos : 0 < limit)
    (hle : (a 0).items.length ≤ limit) :
    ∃ rs a', run Lists.callSeq (order.map (.push true 0)) a = .ok (rs, a') ∧
      ((∀ r ∈ rs, r = .pushed true) ↔ (a 0).items.length + order.length ≤ limit) := by
  induction order generalizing a with
  | nil => exact ⟨[], a, rfl, by simpa using hle⟩
  | cons t order ih =>
    by_cases hfull : (a 0).full
    · have hc : callSeq (.push true 0 t) a = .ok (.pushed false, a) := by
        simp [callSeq, hfull]
      obtain ⟨rs, a', hr, _⟩ := ih hlimit hle
      refine ⟨.pushed false :: rs, a', by rw [map_cons, run_cons_ok hc, hr]; rfl, ?_⟩
      have hlen : limit ≤ (a 0).items.length := by
        simp only [Lists.Seq.full, Bool.and_eq_true, decide_eq_true_eq, hlimit] at hfull
        exact hfull.2
      rw [length_cons]
      constructor
      · intro h
        cases h _ mem_cons_self
      · omega
    · have hc : callSeq (.push true 0 t) a =
          .ok (.pushed true, Function.update a 0 ((a 0).pushItem t)) := by
        simp [callSeq, hfull]
      have hlen : (a 0).items.length < limit := by
        simp only [Lists.Seq.full, Bool.and_eq_true, decide_eq_true_eq, hlimit, not_and, not_le] at hfull
        exact hfull hpos
      have hgrown : ((a 0).pushItem t).items.length = (a 0).items.length + 1 := by
        rw [((a 0).pushItem_perm t).length_eq, length_cons]
      obtain ⟨rs, a', hr, hiff⟩ := ih (a := Function.update a 0 ((a 0).pushItem t))
        (by simpa [Lists.Seq.pushItem] using hlimit) (by rw [Function.update_self, hgrown]; exact hlen)
      refine ⟨.pushed true :: rs, a', by rw [map_cons, run_cons_ok hc, hr]; rfl, ?_⟩
      rw [Function.update_self, hgrown] at hiff
      rw [forall_mem_cons, hiff, Nat.add_right_comm]
      exact and_iff_right rfl

theorem neverFull_iff (vars : Vars) (junk : ℕ → Lists.Node Role) (cmp : Option (Role → Role → Bool))
    (order : List Role) (hpos : 0 < (vars.uint32 .threadLimit).toNat) :
    NeverFull (threadList vars junk cmp) order ↔ order.length ≤ (vars.uint32 .threadLimit).toNat := by
  set limit := (vars.uint32 .threadLimit).toNat with hlimit
  obtain ⟨rs, a', hr, hiff⟩ := pushes_ok_iff (a := initSeqs (fun _ => .generic) (fun _ => cmp) fun _ => limit)
    order rfl hpos (Nat.zero_le _)
  have hrel := run_refines (order.map (.push true 0))
    ⟨_, initWorld_refines junk (fun _ => .generic) (fun _ => cmp) fun _ => limit⟩
  rw [hr] at hrel
  have hitems : order.length ≤ limit ↔ ∀ r ∈ rs, r = .pushed true := by
    rw [hiff]
    exact .of_eq (congrArg (· ≤ limit) (Nat.zero_add _).symm)
  rw [hitems, NeverFull, threadList]
  cases hw : run call (order.map (.push true 0)) (initWorld junk (fun _ => .generic) (fun _ => cmp)
      fun _ => limit) with
  | error e =>
    rw [hw] at hrel
    exact hrel.elim
  | ok p =>
    obtain ⟨rs', w'⟩ := p
    rw [hw] at hrel
    obtain rfl : rs' = rs := hrel.1
    constructor
    · rintro ⟨_, _, he, hall⟩
      obtain ⟨rfl, -⟩ := ok_inj he
      exact hall
    · exact fun hall => ⟨rs', w', rfl, hall⟩

end

/-- For an accepted configuration no launch of the start-up meets the limit, in
any order, exactly when the limit leaves room for the response workers of both contexts. -/
theorem startup_fits_iff (input : Input) (vars : Vars) (h : readApiConfig input initialVars = some vars)
    (junk : ℕ → Lists.Node Role) (cmp : Option (Role → Role → Bool)) :
    ∃ launches, startup vars = some launches ∧
      ((∀ order, order.Perm launches → NeverFull (threadList vars junk cmp) order) ↔
        minimumRequired vars + (vars.int .subGcRespThreadsInit).toInt ≤ (vars.int .threadLimit).toInt) := by
  have hc := counts_of_accepted h
  obtain ⟨launches, hs, hlen⟩ := startup_length hc
  have hmin : 0 < minimumRequired vars := by
    have := hc.request
    have := hc.response
    have := hc.transfer
    have := hc.inspection
    simp only [minimumRequired]
    omega
  have hlimit : ((vars.uint32 .threadLimit).toNat : Int) = (vars.int .threadLimit).toInt :=
    uint32_toNat (Int.lt_of_lt_of_le hmin hc.limit)
  have hpos : 0 < (vars.uint32 .threadLimit).toNat := by
    have := hc.limit
    omega
  refine ⟨launches, hs, ?_⟩
  constructor
  · intro hall
    have hfit := (neverFull_iff vars junk cmp launches hpos).mp (hall launches (List.Perm.refl _))
    omega
  · intro hle order hperm
    rw [neverFull_iff vars junk cmp order hpos, hperm.length_eq]
    omega

theorem startup_fits_fourteen : ∃ vars launches,
    readApiConfig ⟨sampleFile .maxThreads 14, fun _ => none⟩ initialVars = some vars ∧
    startup vars = some launches ∧ NeverFull (threadList vars (fun _ => ⟨none, none, .receiver, false⟩) none) launches := by
  obtain ⟨vars, hv⟩ : ∃ vars, readApiConfig ⟨sampleFile .maxThreads 14, fun _ => none⟩ initialVars = some vars := ⟨_, rfl⟩
  obtain ⟨launches, hs, hiff⟩ := startup_fits_iff _ vars hv (fun _ => ⟨none, none, .receiver, false⟩) none
  refine ⟨vars, launches, hv, hs, hiff.mpr ?_ launches (List.Perm.refl _)⟩
  obtain rfl := Option.some.inj hv
  decide

/-- With one worker of each kind and the smallest limit that is accepted, the
last response worker of the child context is refused. -/
theorem startup_exceeds_limit : ∃ vars launches,
    readApiConfig ⟨sampleFile .maxThreads 13, fun _ => none⟩ initialVars = some vars ∧
    startup vars = some launches ∧ launches.length = 14 ∧ launches.getLast? = some (.responseWorker .child 0) ∧
    (run Lists.call (launches.map (.push true 0))
      (threadList vars (fun _ => ⟨none, none, .receiver, false⟩) none)).map Prod.fst =
      .ok (List.replicate 13 (.pushed true) ++ [.pushed false]) := by
  refine ⟨_, _, rfl, rfl, ?_, ?_, ?_⟩
  · decide
  · decide
  · rfl

end Razorback.Startup
