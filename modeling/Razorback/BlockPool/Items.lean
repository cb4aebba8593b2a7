import Razorback.BlockPool.Defs

/-! What a call of the block pool can do to the pool. -/

namespace Razorback.BlockPool
open Records
open Transfer (Chunk)
open Submission (Status)
open Runs (ok_inj bind_eq_ok)

/-! ### Hashes -/

theorem updateLoop_eq (input unread : Bytes) : updateLoop input unread = input ++ unread := by
  induction input, unread using updateLoop.induct with
  | case1 input => rw [updateLoop, if_pos rfl, List.append_nil]
  | case2 input unread hne ih => rw [updateLoop, if_neg hne, ih, List.append_assoc, List.take_append_drop]

theorem hashUpdate_of_open {hash : HashContext} (h : hash.final = false) (data : Bytes) :
    hashUpdate hash data = { hash with input := hash.input ++ data } := by
  rw [hashUpdate, h]
  rfl

theorem hashFinalize_eq_some {hash hash' : HashContext} (h : hashFinalize hash = some hash') :
    hash.final = false ∧ hash' = { hash with final := true } := by
  unfold hashFinalize at h
  split_ifs at h with hfinal
  exact ⟨Bool.eq_false_iff.mpr hfinal, (Option.some.inj h).symm⟩

/-! ### Adding data to an item -/

def Buffer.chunk (data : Buffer) : Option Chunk :=
  if hpos : 0 < data.bytes.length then some (.memory data.bytes hpos data.hlen) else none

def Adds (limits : Limits) (offered : Option Chunk) (item : PoolItem) (sgSize : UInt64) :
    Bool × PoolItem × UInt64 → Prop
  | (false, item', sgSize') => item' = item ∧ sgSize' = sgSize
  | (true, item', sgSize') =>
    item.iStatus = Status.collecting.code ∧
      ∃ chunk ∈ offered, item' = item.attach chunk (hashUpdate item.hash chunk.bytes) ∧
        sgSize' = sgSize + UInt64.ofNat chunk.bytes.length ∧ exceeds limits.maxSize sgSize' = false

theorem addData_adds (limits : Limits) (data : Option Buffer) (allocOk : Bool) (item : PoolItem) (sgSize : UInt64) :
    Adds limits (data.bind Buffer.chunk) item sgSize (addData limits data allocOk item sgSize) := by
  have hback (length : UInt64) : sgSize + length - length = sgSize := by simp
  cases data with
  | none => exact ⟨rfl, rfl⟩
  | some data =>
    unfold addData
    dsimp only
    split_ifs with hpos hmax hstatus hitem halloc
    · exact ⟨rfl, rfl⟩
    · exact ⟨rfl, hback _⟩
    · exact ⟨rfl, hback _⟩
    · exact ⟨rfl, hback _⟩
    · have hchunk : (some data).bind Buffer.chunk = some (.memory data.bytes hpos data.hlen) := by
        rw [Option.bind_some, Buffer.chunk, dif_pos hpos]
      exact ⟨not_not.mp hstatus, _, hchunk, rfl, rfl, by simpa using hmax⟩
    · exact ⟨rfl, rfl⟩

theorem addDataFromFile_adds
    (h : addDataFromFile limits allocOk file statOk item sgSize = .ok result) :
    Adds limits (file.map fun file => .file file.content) item sgSize result := by
  have hback (size : UInt64) : sgSize + size - size = sgSize := by simp
  unfold addDataFromFile at h
  cases file with
  | none =>
    obtain rfl := Except.ok.inj ((ite_self _).symm.trans h)
    exact ⟨rfl, rfl⟩
  | some file =>
    dsimp only at h
    split_ifs at h with halloc hstat hmax hstatus hitem
    all_goals cases h
    · exact ⟨rfl, rfl⟩
    · exact ⟨rfl, rfl⟩
    · exact ⟨rfl, hback _⟩
    · exact ⟨rfl, hback _⟩
    · exact ⟨not_not.mp hstatus, _, rfl, by rw [hashUpdateFile, updateLoop_eq]; rfl, rfl, by simpa using hmax⟩

/-! ### Finalizing an item -/

structure Finalizes (item item' : PoolItem) : Prop where
  collecting : item.iStatus = Status.collecting.code
  status : item'.iStatus = Status.finalized.code
  hash : hashFinalize item.hash = some item'.hash
  data : item'.data = item.data
  length : item'.iLength = item.iLength

theorem magicProcess_eq_ok
    (h : magicProcess magicOk mime item = .ok item') : ∃ type, item' = { item with uuidDataType := type } := by
  unfold magicProcess at h
  split at h
  · split_ifs at h
    · exact ⟨_, (Except.ok.inj h).symm⟩
    · exact ⟨_, (Except.ok.inj h).symm⟩
  · split_ifs at h
    · exact ⟨_, (Except.ok.inj h).symm⟩
    · exact ⟨_, (Except.ok.inj h).symm⟩

theorem finalizeItem_eq_ok (h : finalizeItem digestOk magicOk mime item = .ok (ok, item')) :
    (ok = false ∧ item' = item) ∨ (ok ∧ Finalizes item item') := by
  unfold finalizeItem at h
  by_cases hstatus : item.iStatus ≠ Status.collecting.code
  · rw [if_pos hstatus] at h
    cases h
    exact .inl ⟨rfl, rfl⟩
  rw [if_neg hstatus] at h
  split at h
  · cases h
    exact .inl ⟨rfl, rfl⟩
  next hash hhash =>
  have hfinal : hashFinalize item.hash = some hash := by
    split_ifs at hhash
    exact hhash
  have hcollecting := not_not.mp hstatus
  dsimp only at h
  split_ifs at h with hmagic
  · cases hm : magicProcess magicOk mime { item with hash } with
    | error e => rw [hm] at h; exact nomatch h
    | ok found =>
      rw [hm] at h
      obtain ⟨type, rfl⟩ := magicProcess_eq_ok hm
      cases h
      exact .inr ⟨rfl, hcollecting, rfl, hfinal, rfl, rfl⟩
  · cases h
    exact .inr ⟨rfl, hcollecting, rfl, hfinal, rfl, rfl⟩

/-! ### Steps -/

def Call.offers : Call → Option (ℕ × Chunk)
  | .addData i data _ => (data.bind Buffer.chunk).map (i, ·)
  | .addDataFromFile i _ file _ => file.map fun file => (i, .file file.content)
  | _ => none

inductive Steps (hashType : UInt32) (limits : Limits) (call : Call) (s : State) : Result → State → Prop
  | unchanged (r : Result) (hr : r ∉ [.added true, .finalized true]) : Steps hashType limits call s r s
  | created (item : PoolItem) (hitem : newItem hashType = some item) (i : Option ℕ) :
    Steps hashType limits call s (.created i) { s with slots := s.slots ++ [some item] }
  | added (i : ℕ) (item : PoolItem) (chunk : Chunk) (hoffers : call.offers = some (i, chunk))
    (hitem : s.item i = some item) (hstatus : item.iStatus = Status.collecting.code)
    (hmax : exceeds limits.maxSize (s.sgSize + UInt64.ofNat chunk.bytes.length) = false) :
    Steps hashType limits call s (.added true)
      (s.setItem i (some (item.attach chunk (hashUpdate item.hash chunk.bytes)))
        (s.sgSize + UInt64.ofNat chunk.bytes.length))
  | finalized (i : ℕ) (item item' : PoolItem)
    (hcall : ∃ digestOk magicOk mime, call = .finalizeItem i digestOk magicOk mime)
    (hitem : s.item i = some item) (hfin : Finalizes item item') :
    Steps hashType limits call s (.finalized true) (s.setItem i (some item') s.sgSize)
  | cleared (i : ℕ) (item : PoolItem) (hcall : call = .destroyDataList i) (hitem : s.item i = some item) :
    Steps hashType limits call s .destroyed
      (s.setItem i (some { item with data := [] }) (destroyItemDataList item.data s.sgSize))
  | destroyed (i : ℕ) (item : PoolItem) (hitem : s.item i = some item) :
    Steps hashType limits call s .destroyed (s.setItem i none (destroyItemDataList item.data s.sgSize))

theorem State.item_eq_some {s : State} {i : ℕ} {item : PoolItem} :
    s.item i = some item ↔ s.slots[i]? = some (some item) := Option.join_eq_some_iff

theorem State.setItem_same {s : State} {i : ℕ} {item : PoolItem} (h : s.item i = some item) :
    s.setItem i (some item) s.sgSize = s := by
  obtain ⟨hi, hget⟩ := List.getElem?_eq_some_iff.mp (State.item_eq_some.mp h)
  rw [State.setItem, ← hget, List.set_getElem_self]

section Inversion

variable {hashType : UInt32} {limits : Limits} {call : Call} {s s' : State} {r : Result}

theorem steps_of_adds (hitem : s.item i = some item) (hoffers : call.offers = offered.map (i, ·))
    (hadds : Adds limits offered item s.sgSize (ok, item', sgSize)) :
    Steps hashType limits call s (.added ok) (s.setItem i (some item') sgSize) := by
  cases ok with
  | false =>
    obtain ⟨rfl, rfl⟩ := hadds
    rw [State.setItem_same hitem]
    exact .unchanged _ (by simp)
  | true =>
    obtain ⟨hstatus, chunk, hchunk, rfl, rfl, hmax⟩ := hadds
    refine .added i item chunk ?_ hitem hstatus hmax
    rw [hoffers, Option.mem_def.mp hchunk]
    rfl

theorem steps_withItem
    (hf : ∀ item, s.item i = some item → f item = .ok (r, s') → Steps hashType limits call s r s')
    (h : s.withItem i f = .ok (r, s')) : Steps hashType limits call s r s' := by
  cases hitem : s.item i with
  | none =>
    simp only [State.withItem, hitem] at h
    cases h
    exact .unchanged _ (by simp)
  | some item =>
    simp only [State.withItem, hitem] at h
    exact hf item hitem h

theorem step_steps (h : step hashType limits call s = .ok (r, s')) : Steps hashType limits call s r s' := by
  cases call with
  | createItem allocOk =>
    unfold step at h
    dsimp only at h
    split at h
    · cases h
      exact .unchanged _ (by simp)
    split at h
    · cases h
      exact .unchanged _ (by simp)
    next item hnew =>
    cases h
    refine .created item ?_ _
    split_ifs at hnew
    exact hnew
  | addData i data allocOk =>
    refine steps_withItem (fun item hitem h => ?_) h
    cases h
    exact steps_of_adds hitem rfl (addData_adds limits data allocOk item s.sgSize)
  | addDataFromFile i allocOk file statOk =>
    refine steps_withItem (fun item hitem h => ?_) h
    obtain ⟨⟨ok, item', sgSize⟩, hadd, h⟩ := bind_eq_ok.mp h
    cases h
    refine steps_of_adds hitem ?_ (addDataFromFile_adds hadd)
    rw [Option.map_map]
    rfl
  | finalizeItem i digestOk magicOk mime =>
    refine steps_withItem (fun item hitem h => ?_) h
    obtain ⟨⟨ok, item'⟩, hfin, h⟩ := bind_eq_ok.mp h
    cases h
    obtain ⟨rfl, rfl⟩ | ⟨rfl, hdone⟩ := finalizeItem_eq_ok hfin
    · rw [State.setItem_same hitem]
      exact .unchanged _ (by simp)
    · exact .finalized i item item' ⟨digestOk, magicOk, mime, rfl⟩ hitem hdone
  | destroyDataList i =>
    refine steps_withItem (fun item hitem h => ?_) h
    cases h
    exact .cleared i item rfl hitem
  | destroyItem i =>
    refine steps_withItem (fun item hitem h => ?_) h
    cases h
    exact .destroyed i item hitem

end Inversion

end Razorback.BlockPool
