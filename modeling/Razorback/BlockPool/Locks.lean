import Razorback.Base.Holders
import Razorback.BlockPool.Accounting

/-! The locks of the block pool: the mutexes that the calls of one thread take, none of them recursive, and the sections
of the pool's list that calls of several threads are made of. -/

namespace Razorback.BlockPool
open Runs Holders Records
open Submission (PoolNode)

/-! ### Mutexes -/

inductive Mutex
  /-- `sg_sizeMutex`. -/
  | size
  | item (i : ℕ)
  deriving DecidableEq

inductive LockOp
  | lock (m : Mutex)
  | unlock (m : Mutex)

/-- The mutexes a thread holds after the operations, or `none` if it waits for itself or unlocks what it does not hold. -/
def replay : List LockOp → List Mutex → Option (List Mutex)
  | [], held => some held
  | .lock m :: ops, held => if m ∈ held then none else replay ops (m :: held)
  | .unlock m :: ops, held => if m ∈ held then replay ops (held.erase m) else none

def Released (ops : List LockOp) : Prop := replay ops [] = some []

def sections (ms : List Mutex) : List LockOp := ms.flatMap fun m => [.lock m, .unlock m]

def destroyLocks (n : ℕ) : List LockOp := sections (List.replicate n .size)

section Locks

variable (limits : Limits)

def addDataLocks (i : ℕ) (data : Option Buffer) (allocOk : Bool) (item : PoolItem) (sgSize : UInt64) : List LockOp :=
  match data with
  | none => []
  | some data =>
    if 0 < data.bytes.length then
      let length := UInt64.ofNat data.bytes.length
      if exceeds limits.maxSize (sgSize + length) then sections [.size]
      else if item.iStatus ≠ Submission.Status.collecting.code then sections [.size, .item i, .size]
      else if exceeds limits.maxItemSize (item.iLength + length) then sections [.size, .item i, .size]
      else if !allocOk then sections [.size, .item i, .size]
      else sections [.size, .item i]
    else []

def addDataFromFileLocks (i : ℕ) (allocOk : Bool) (file : Option File) (statOk : Bool) (item : PoolItem)
    (sgSize : UInt64) : List LockOp :=
  if !allocOk then []
  else
    match file with
    | none => destroyLocks 1
    | some file =>
      if !statOk then destroyLocks 1
      else
        let size := UInt64.ofNat file.content.length
        if exceeds limits.maxSize (sgSize + size) then .lock .size :: destroyLocks 1 ++ [.unlock .size]
        else if item.iStatus ≠ Submission.Status.collecting.code then
          sections [.size, .item i, .size] ++ destroyLocks 1
        else if exceeds limits.maxItemSize (item.iLength + size) then sections [.size, .item i, .size] ++ destroyLocks 1
        else sections [.size, .item i]

def State.live (s : State) : List ℕ := (List.range s.slots.length).filter fun i => (s.item i).isSome

/-- What the call locks and unlocks. `List_ForEach`, under `BlockPool_DestroyItem`, locks every item of the list. -/
def Call.locks (call : Call) (s : State) : List LockOp :=
  match call with
  | .createItem _ | .finalizeItem _ _ _ _ => []
  | .addData i data allocOk => (s.item i).elim [] fun item => addDataLocks limits i data allocOk item s.sgSize
  | .addDataFromFile i allocOk file statOk =>
    (s.item i).elim [] fun item => addDataFromFileLocks limits i allocOk file statOk item s.sgSize
  | .destroyDataList i => (s.item i).elim [] fun item => destroyLocks item.data.length
  | .destroyItem i => (s.item i).elim [] fun item => sections (s.live.map .item) ++ destroyLocks item.data.length

/-- A file that is added and could be read fits into the pool. -/
def Call.Fits (call : Call) (s : State) : Prop :=
  match call with
  | .addDataFromFile i true (some file) true =>
    (s.item i).isSome → exceeds limits.maxSize (s.sgSize + UInt64.ofNat file.content.length) = false
  | _ => True

end Locks

theorem released_sections (ms : List Mutex) : Released (sections ms) := by
  unfold Released
  induction ms with
  | nil => rfl
  | cons m ms ih => simpa [sections, replay] using ih

theorem released_sections_append (ms ms' : List Mutex) : Released (sections ms ++ sections ms') := by
  rw [sections, sections, ← List.flatMap_append]
  exact released_sections (ms ++ ms')

theorem released_addData : Released (addDataLocks limits i data allocOk item sgSize) := by
  unfold addDataLocks
  cases data with
  | none => exact rfl
  | some data =>
    dsimp only
    split_ifs <;> first | exact rfl | exact released_sections _

theorem released_addDataFromFile_iff : Released (addDataFromFileLocks limits i allocOk file statOk item sgSize) ↔
      ∀ f ∈ file, allocOk → statOk →
        exceeds limits.maxSize (sgSize + UInt64.ofNat f.content.length) = false := by
  unfold addDataFromFileLocks
  cases allocOk with
  | false => exact iff_of_true rfl nofun
  | true =>
    cases file with
    | none => exact iff_of_true (released_sections _) nofun
    | some file =>
      cases statOk with
      | false => exact iff_of_true (released_sections _) nofun
      | true =>
        cases hroom : exceeds limits.maxSize (sgSize + .ofNat file.content.length) with
        | true => simp [hroom, Released, destroyLocks, sections, replay]
        | false =>
          refine iff_of_true ?_ (by simp [hroom])
          simp only [Bool.not_true, Bool.false_eq_true, if_false, hroom]
          split_ifs
          · exact released_sections_append _ _
          · exact released_sections_append _ _
          · exact released_sections _

theorem Call.released_iff (limits : Limits) (call : Call) (s : State) : Released (call.locks limits s) ↔ call.Fits limits s := by
  have hitem : ∀ {i : ℕ} {f : PoolItem → List LockOp}, (∀ item, Released (f item)) → Released ((s.item i).elim [] f) := by
    intro i f hf
    cases s.item i with
    | none => exact rfl
    | some item => exact hf item
  cases call with
  | createItem | finalizeItem => exact iff_of_true rfl trivial
  | addData => exact iff_of_true (hitem fun item => released_addData) trivial
  | addDataFromFile i allocOk file statOk =>
    cases hi : s.item i with
    | none => cases allocOk <;> cases file <;> cases statOk <;> simp [locks, Fits, hi, Released, replay]
    | some item => cases allocOk <;> cases file <;> cases statOk <;> simp [locks, Fits, hi, released_addDataFromFile_iff]
  | destroyDataList => exact iff_of_true (hitem fun item => released_sections _) trivial
  | destroyItem => exact iff_of_true (hitem fun item => released_sections_append _ _) trivial

/-- In a sequence of calls of one thread no call waits for a mutex that the thread holds, and every call gives back what it
locked, exactly as long as every file that is added fits into the pool. -/
theorem no_self_deadlock_iff (hashType : UInt32) (keys : PoolKeys) (calls : List Call) :
    Along (fun call s => Released (call.locks keys.limits s)) (step hashType keys.limits) calls .init ↔
      Along (Call.Fits keys.limits) (step hashType keys.limits) calls .init :=
  ⟨Along.mono fun call s => (call.released_iff keys.limits s).mp, Along.mono fun call s => (call.released_iff keys.limits s).mpr⟩

/-- Over the pool's limit the thread waits for `sg_sizeMutex`, which it holds. -/
theorem over_limit_waits_for_itself :
    ∃ results s, run (step hashTypeMD5 (PoolKeys.limits ⟨none, some 10, none⟩)) [.createItem true] .init = .ok (results, s) ∧
      replay ((Call.addDataFromFile 0 true (some (zeroFile 10 (by decide))) true).locks
        (PoolKeys.limits ⟨none, some 10, none⟩) s) [] = none := by
  refine ⟨_, _, rfl, ?_⟩
  rfl

/-! ### The item limit -/

/-- What a thread is in the middle of: `BlockPool_CreateItem` behind its test of the limit, or `BlockPool_DestroyItem`
before the section that takes the marked nodes out. -/
inductive Pc
  | idle | passed | prune
  deriving DecidableEq

def Pc.creates : Pc → Bool
  | .passed => true
  | _ => false

/-- `sg_bpList`, whose marked nodes count until they are taken out, and the threads that use it. -/
structure Shared (n : ℕ) where
  pool : List PoolNode
  next : ℕ
  threads : Fin n → Pc

inductive Section (n : ℕ)
  /-- The test at the start of `BlockPool_CreateItem`. -/
  | test (t : Fin n)
  /-- The rest of it; one of the allocations before `List_Push`, or its own, can fail. -/
  | push (t : Fin n) (allocOk : Bool)
  /-- The reading pass of `List_Remove`. -/
  | mark (t : Fin n) (i : ℕ)
  | prune (t : Fin n)

inductive Created
  /-- `BlockPool_CreateItem` returned NULL for the limit. -/
  | refused
  | other
  deriving DecidableEq

/-- A section of one thread; a thread that is elsewhere does nothing. -/
def sectionStep {n : ℕ} (maxItems : UInt32) (l : Section n) (s : Shared n) : Except Stop (Created × Shared n) :=
  match l with
  | .test t =>
    if s.threads t ≠ .idle then .ok (.other, s)
    else if 0 < maxItems ∧ maxItems.toNat ≤ s.pool.length then .ok (.refused, s)
    else .ok (.other, { s with threads := Function.update s.threads t .passed })
  | .push t allocOk =>
    if s.threads t ≠ .passed then .ok (.other, s)
    else
      let s := { s with threads := Function.update s.threads t .idle }
      if allocOk then .ok (.other, { s with pool := s.pool ++ [⟨s.next, false⟩], next := s.next + 1 }) else .ok (.other, s)
  | .mark t i =>
    if s.threads t ≠ .idle then .ok (.other, s)
    else if i ∈ s.pool.map PoolNode.item then
      .ok (.other, { s with
        pool := s.pool.map fun node => if node.item = i then { node with del := true } else node
        threads := Function.update s.threads t .prune })
    else .ok (.other, s)
  | .prune t =>
    if s.threads t ≠ .prune then .ok (.other, s)
    else .ok (.other, { s with
      pool := s.pool.filter fun node => !node.del, threads := Function.update s.threads t .idle })

def Shared.init (n : ℕ) : Shared n := ⟨[], 0, fun _ => .idle⟩

def OneCreates {n : ℕ} (l : Section n) (s : Shared n) : Prop :=
  match l with
  | .test _ => ∀ u, s.threads u ≠ .passed
  | _ => True

def Room {n : ℕ} (m : ℕ) (s : Shared n) : Prop := s.pool.length + holders Pc.creates s.threads ≤ m

section
variable {n m : ℕ} {s s' : Shared n} {l : Section n} {r : Created} {maxItems : UInt32}

theorem full_of_refused (h : sectionStep maxItems l s = .ok (.refused, s')) : maxItems.toNat ≤ s.pool.length := by
  cases l with
  | test t =>
    simp only [sectionStep] at h
    split_ifs at h with hidle hlimit
    · cases h
    · exact hlimit.2
    · cases h
  | push | mark | prune =>
    simp only [sectionStep] at h
    split_ifs at h <;> cases h

theorem Room.step (hpos : 0 < maxItems) (h : Room maxItems.toNat s) (hone : OneCreates l s)
    (hstep : sectionStep maxItems l s = .ok (r, s')) : Room maxItems.toNat s' := by
  unfold Room at h ⊢
  cases l with
  | test t =>
    have hzero : holders Pc.creates s.threads = 0 := holders_eq_zero fun u => by
      cases hu : s.threads u with
      | passed => exact absurd hu (hone u)
      | idle | prune => rfl
    have hmove := holders_update Pc.creates s.threads t .passed
    simp only [sectionStep] at hstep
    split_ifs at hstep with hidle hlimit <;> cases hstep
    · exact h
    · exact h
    · have hroom : s.pool.length < maxItems.toNat := not_le.mp fun hle => hlimit ⟨hpos, hle⟩
      simp only [Pc.creates, Bool.toNat_true] at hmove ⊢
      omega
  | push t allocOk =>
    have hmove := holders_update Pc.creates s.threads t .idle
    simp only [sectionStep] at hstep
    split_ifs at hstep with hpc hok <;> cases hstep
    · exact h
    all_goals
      simp only [not_not.mp hpc, Pc.creates, Bool.toNat_false, Bool.toNat_true, List.length_append,
        List.length_singleton] at hmove ⊢
      omega
  | mark t i =>
    have hmove := holders_update Pc.creates s.threads t .prune
    simp only [sectionStep] at hstep
    split_ifs at hstep with hpc hin <;> cases hstep
    · exact h
    · simp only [not_not.mp hpc, Pc.creates, List.length_map] at hmove ⊢
      omega
    · exact h
  | prune t =>
    have hmove := holders_update Pc.creates s.threads t .idle
    have hfilter := List.length_filter_le (fun node : PoolNode => !node.del) s.pool
    simp only [sectionStep] at hstep
    split_ifs at hstep with hpc <;> cases hstep
    · exact h
    · simp only [not_not.mp hpc, Pc.creates] at hmove ⊢
      omega

end

/-- Whatever the threads do, a call fails for the limit only where the pool is full, and the pool never holds more items
than the limit if no two calls of `BlockPool_CreateItem` are behind their test at once. -/
theorem item_limit_holds {n : ℕ} {maxItems : UInt32} (hpos : 0 < maxItems) (ls : List (Section n)) :
    Along (fun l s => ∀ s', sectionStep maxItems l s = .ok (.refused, s') → maxItems.toNat ≤ s.pool.length)
      (sectionStep maxItems) ls (.init n) ∧
    (Along OneCreates (sectionStep maxItems) ls (.init n) → ∀ rs s,
      run (sectionStep maxItems) ls (.init n) = .ok (rs, s) → s.pool.length ≤ maxItems.toNat) := by
  refine ⟨(along_of_forall (p := fun _ => True) fun _ _ => trivial).mono fun _ _ _ _ => full_of_refused,
    fun hone rs s hrun => ?_⟩
  have hinit : Room maxItems.toNat (Shared.init n) := by
    rw [Room, holders_eq_zero fun _ => rfl]
    exact Nat.zero_le _
  exact (Nat.le_add_right _ _).trans
    (run_along (I := fun _ s => Room maxItems.toNat s) (fun _ l s r s' h hl hs => h.step hpos hl hs) (h := []) hinit hone hrun)

theorem item_limit_holds_one : ∃ rs s,
    run (sectionStep 1) [.test 0, .push 0 true, .test 1] (Shared.init 2) = .ok (rs, s) ∧ s.pool.length ≤ 1 :=
  exists_of_isOk rfl <| (item_limit_holds (by decide) [.test 0, .push 0 true, .test 1]).2
    (along_cons (fun u => nofun) rfl <| along_cons trivial rfl <| along_cons (by unfold OneCreates; decide) rfl trivial)

/-- Both calls test the empty pool of limit one before either adds its item. -/
theorem item_limit_passed : ∃ rs s,
    run (sectionStep 1) [.test 0, .test 1, .push 0 true, .push 1 true] (Shared.init 2) = .ok (rs, s) ∧ s.pool.length = 2 :=
  ⟨_, _, rfl, rfl⟩

end Razorback.BlockPool
