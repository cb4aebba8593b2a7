import Razorback.BlockPool.Items

/-! `sg_size` against the data attached to the items. -/

namespace Razorback.BlockPool
open Records UInt64
open Transfer (Chunk)
open Submission (Status)
open Runs (run Along along_cons run_conforming run_length)

/-! ### The size of the data attached -/

def PoolItem.held (item : PoolItem) : ℕ := (item.data.map fun chunk => chunk.bytes.length).sum

def heldIn (slot : Option PoolItem) : ℕ := slot.elim 0 PoolItem.held

def State.attached (s : State) : ℕ := (s.slots.map heldIn).sum

@[simp] theorem heldIn_some (item : PoolItem) : heldIn (some item) = item.held := rfl

@[simp] theorem heldIn_none : heldIn none = 0 := rfl

@[simp] theorem PoolItem.held_attach (item : PoolItem) (chunk : Chunk) (hash : HashContext) :
    (item.attach chunk hash).held = item.held + chunk.bytes.length := by
  simp [PoolItem.held, PoolItem.attach]

variable {item : PoolItem}

theorem State.slots_of_item {s : State} {i : ℕ} (h : s.item i = some item) :
    ∃ before after, s.slots = before ++ some item :: after ∧ before.length = i := by
  obtain ⟨hi, hget⟩ := List.getElem?_eq_some_iff.mp (State.item_eq_some.mp h)
  refine ⟨s.slots.take i, s.slots.drop (i + 1), ?_, List.length_take_of_le hi.le⟩
  rw [← hget, List.getElem_cons_drop, List.take_append_drop]

theorem State.attached_setItem {s : State} {i : ℕ} (h : s.item i = some item)
    (slot : Option PoolItem) (sgSize : UInt64) :
    (s.setItem i slot sgSize).attached + item.held = s.attached + heldIn slot := by
  obtain ⟨before, after, hslots, rfl⟩ := State.slots_of_item h
  have hset : (before ++ some item :: after).set before.length slot = before ++ slot :: after := by
    rw [List.set_append_right _ _ le_rfl, Nat.sub_self, List.set_cons_zero]
  simp only [State.attached, State.setItem, hslots, hset, List.map_append, List.map_cons, List.sum_append,
    List.sum_cons, heldIn_some]
  omega

theorem destroyItemDataList_eq (hsmall : ∀ chunk ∈ data, chunk.bytes.length < 2 ^ 32) (n : ℕ) :
    destroyItemDataList data (UInt64.ofNat (n + (data.map fun chunk => chunk.bytes.length).sum)) = UInt64.ofNat n := by
  induction data with
  | nil => rfl
  | cons chunk data ih =>
    have hlength : chunk.iLength = chunk.bytes.length := Nat.mod_eq_of_lt (hsmall chunk List.mem_cons_self)
    have htake (a b : ℕ) : ofNat (n + (a + b)) - ofNat a = ofNat (n + b) := by
      rw [show n + (a + b) = (n + b) + a by omega]
      simp
    rw [destroyItemDataList, List.foldl_cons, List.map_cons, List.sum_cons, hlength, htake]
    exact ih fun c hc => hsmall c (List.mem_cons_of_mem _ hc)

/-! ### The invariant -/

structure Accounted (s : State) : Prop where
  size : s.sgSize = UInt64.ofNat s.attached
  small : ∀ item, some item ∈ s.slots → ∀ chunk ∈ item.data, chunk.bytes.length < 2 ^ 32

def Call.SmallFile (call : Call) : Prop := ∀ p ∈ call.offers, p.2.bytes.length < 2 ^ 32

section Step

variable {hashType : UInt32} {limits : Limits} {call : Call} {s s' : State} {r : Result}

theorem Accounted.of_item (hs : Accounted s) (hitem : s.item i = some item) :
    ∀ chunk ∈ item.data, chunk.bytes.length < 2 ^ 32 := by
  obtain ⟨before, after, hslots, -⟩ := State.slots_of_item hitem
  exact hs.small item (by simp [hslots])

theorem Accounted.setItem (hs : Accounted s) (hitem : s.item i = some item)
    (hsmall : ∀ item' ∈ slot, ∀ chunk ∈ item'.data, chunk.bytes.length < 2 ^ 32)
    (hsize : ∀ n, s.attached + heldIn slot = n + item.held → sgSize = UInt64.ofNat n) :
    Accounted (s.setItem i slot sgSize) := by
  refine ⟨hsize _ (State.attached_setItem hitem slot sgSize).symm, fun item' hmem => ?_⟩
  rcases List.mem_or_eq_of_mem_set hmem with hold | rfl
  · exact hs.small item' hold
  · exact hsmall item' rfl

theorem Accounted.step (hs : Accounted s) (hfile : call.SmallFile) (h : Steps hashType limits call s r s') :
    Accounted s' := by
  cases h with
  | unchanged r hr => exact hs
  | created item hitem i =>
    have hdata : item.data = [] := by
      obtain ⟨hash, -, rfl⟩ := Option.map_eq_some_iff.mp hitem
      rfl
    refine ⟨?_, fun item' hmem => ?_⟩
    · simpa [State.attached, PoolItem.held, hdata] using hs.size
    · rcases List.mem_append.mp hmem with hold | hnew
      · exact hs.small item' hold
      · obtain rfl : item' = item := by simpa using hnew
        simp [hdata]
  | added i item chunk hoffers hitem hstatus hmax =>
    refine hs.setItem hitem ?_ fun n hn => ?_
    · rintro item' ⟨rfl⟩ c hc
      rcases List.mem_append.mp hc with hold | hnew
      · exact hs.of_item hitem c hold
      · obtain rfl := List.mem_singleton.mp hnew
        exact hfile _ hoffers
    · rw [heldIn_some, PoolItem.held_attach] at hn
      rw [hs.size, ← ofNat_add]
      congr 1
      omega
  | finalized i item item' hcall hitem hfin =>
    have hheld : item'.held = item.held := by rw [PoolItem.held, hfin.data, PoolItem.held]
    refine hs.setItem hitem ?_ fun n hn => ?_
    · rintro item'' ⟨rfl⟩
      rw [hfin.data]
      exact hs.of_item hitem
    · rw [heldIn_some, hheld] at hn
      rw [hs.size, Nat.add_right_cancel hn]
  | cleared i item hcall hitem =>
    refine hs.setItem hitem (by rintro item' ⟨rfl⟩; nofun) fun n hn => ?_
    have hheld : s.attached = n + item.held := hn
    rw [hs.size, hheld]
    exact destroyItemDataList_eq (hs.of_item hitem) n
  | destroyed i item hitem =>
    refine hs.setItem hitem nofun fun n hn => ?_
    have hheld : s.attached = n + item.held := hn
    rw [hs.size, hheld]
    exact destroyItemDataList_eq (hs.of_item hitem) n

end Step

/-! ### Calls that return -/

/-- `Magic_process` would copy from the pointer of a file that follows data in memory. -/
def PoolItem.NullCopied (item : PoolItem) : Prop :=
  (∃ bytes hpos hlen rest, item.data = .memory bytes hpos hlen :: rest) ∧ magicReadsNull 0 item.data = true

/-- The pool has room for a file that is added, and an item that is finalized has no file after memory within its
first 4096 bytes. -/
def Call.Returns (limits : Limits) (call : Call) (s : State) : Prop :=
  match call with
  | .addDataFromFile _ _ (some file) _ => exceeds limits.maxSize (s.sgSize + UInt64.ofNat file.content.length) = false
  | .finalizeItem i _ _ _ => ∀ item, s.item i = some item → ¬ item.NullCopied
  | _ => True

theorem addDataFromFile_returns
    (h : ∀ f ∈ file, exceeds limits.maxSize (sgSize + UInt64.ofNat f.content.length) = false)
    (allocOk statOk : Bool) (item : PoolItem) :
    ∃ result, addDataFromFile limits allocOk file statOk item sgSize = .ok result := by
  unfold addDataFromFile
  cases file with
  | none => exact ⟨_, ite_self _⟩
  | some file =>
    have hmax := h file rfl
    dsimp only
    rw [hmax]
    simp only [Bool.false_eq_true, if_false]
    split_ifs
    all_goals exact ⟨_, rfl⟩

theorem magicProcess_returns (h : ¬ item.NullCopied) (magicOk : Bool) (mime : Option Uuid) :
    ∃ item', magicProcess magicOk mime item = .ok item' := by
  unfold magicProcess
  split
  next bytes hpos hlen rest hdata =>
    have hnull : ¬ magicReadsNull 0 item.data := fun hn => h ⟨⟨bytes, hpos, hlen, rest, hdata⟩, hn⟩
    split_ifs
    all_goals exact ⟨_, rfl⟩
  · exact ⟨_, rfl⟩

theorem finalizeItem_returns (h : ¬ item.NullCopied) (digestOk magicOk : Bool) (mime : Option Uuid) :
    ∃ result, finalizeItem digestOk magicOk mime item = .ok result := by
  unfold finalizeItem
  by_cases hstatus : item.iStatus ≠ Status.collecting.code
  · exact ⟨_, if_pos hstatus⟩
  rw [if_neg hstatus]
  split
  · exact ⟨_, rfl⟩
  next hash hhash =>
  dsimp only
  split_ifs
  · have hkeep : ¬ PoolItem.NullCopied { item with hash } := h
    obtain ⟨found, hfound⟩ := magicProcess_returns hkeep magicOk mime
    exact ⟨_, by rw [hfound]; rfl⟩
  · exact ⟨_, rfl⟩

section Returns

variable {hashType : UInt32} {limits : Limits} {call : Call} {s : State}

theorem withItem_returns
    (hf : ∀ item, s.item i = some item → ∃ r s', f item = .ok (r, s')) : ∃ r s', s.withItem i f = .ok (r, s') := by
  unfold State.withItem
  cases hitem : s.item i with
  | none => exact ⟨_, _, rfl⟩
  | some item => exact hf item hitem

theorem step_returns (h : call.Returns limits s) : ∃ r s', step hashType limits call s = .ok (r, s') := by
  cases call with
  | createItem allocOk =>
    unfold step
    dsimp only
    split
    · exact ⟨_, _, rfl⟩
    split
    · exact ⟨_, _, rfl⟩
    · exact ⟨_, _, rfl⟩
  | addData i data allocOk => exact withItem_returns fun item _ => ⟨_, _, rfl⟩
  | addDataFromFile i allocOk file statOk =>
    refine withItem_returns fun item _ => ?_
    have hroom : ∀ f ∈ file, exceeds limits.maxSize (s.sgSize + ofNat f.content.length) = false := by
      rintro f ⟨rfl⟩
      exact h
    obtain ⟨⟨ok, item', sgSize⟩, hadd⟩ := addDataFromFile_returns hroom allocOk statOk item
    exact ⟨_, _, by rw [hadd]; rfl⟩
  | finalizeItem i digestOk magicOk mime =>
    refine withItem_returns fun item hitem => ?_
    obtain ⟨⟨ok, item'⟩, hfin⟩ := finalizeItem_returns (h item hitem) digestOk magicOk mime
    exact ⟨_, _, by rw [hfin]; rfl⟩
  | destroyDataList i => exact withItem_returns fun item _ => ⟨_, _, rfl⟩
  | destroyItem i => exact withItem_returns fun item _ => ⟨_, _, rfl⟩

end Returns

/-! ### Runs -/

theorem lt_of_not_exceeds (hpos : 0 < limit) (h : exceeds limit total = false) :
    total.toNat < limit.toNat := by
  have hlt : ¬ limit.toUInt64 ≤ total := by simpa [exceeds, hpos] using h
  have hnat := UInt64.lt_iff_toNat_lt.mp (UInt64.not_le.mp hlt)
  rwa [UInt32.toNat_toUInt64] at hnat

theorem toNat_toUInt32_of_pos {m : Int32} (h : 0 < m) : (m.toUInt32.toNat : ℤ) = m.toInt := by
  have hpos : 0 < m.toInt := Int32.lt_iff_toInt_lt.mp h
  have hcond : m.toInt = if 2 * m.toUInt32.toNat < 2 ^ 32 then (m.toUInt32.toNat : ℤ) else m.toUInt32.toNat - 2 ^ 32 :=
    BitVec.toInt_eq_toNat_cond m.toBitVec
  have hlt := m.toUInt32.toNat_lt
  split_ifs at hcond <;> omega

theorem below_of_not_exceeds {keys : PoolKeys} {m : Int32} {total : UInt64} (hsize : keys.maxSize = some m)
    (hitem : keys.maxItemSize = none) (hpos : 0 < m) (h : exceeds keys.limits.maxSize total = false) :
    (total.toNat : ℤ) < m.toInt := by
  have hlimit : keys.limits.maxSize = m.toUInt32 := by simp [PoolKeys.limits, hsize, hitem]
  have hnat := toNat_toUInt32_of_pos hpos
  have hpos' : 0 < m.toInt := Int32.lt_iff_toInt_lt.mp hpos
  have hlt := lt_of_not_exceeds (UInt32.lt_iff_toNat_lt.mpr (by rw [hlimit]; simp; omega)) h
  rw [hlimit] at hlt
  omega

structure Kept (limits : Limits) (h : List (Call × Result)) (s : State) : Prop where
  accounted : Accounted s
  below : ∀ call, h.getLast? = some (call, .added true) → exceeds limits.maxSize s.sgSize = false

theorem Kept.step {hashType : UInt32} {limits : Limits} {h : List (Call × Result)} {call : Call} {s s' : State}
    {r : Result} (hkept : Kept limits h s) (hfile : call.SmallFile)
    (hstep : BlockPool.step hashType limits call s = .ok (r, s')) : Kept limits (h ++ [(call, r)]) s' := by
  have hsteps := step_steps hstep
  refine ⟨hkept.accounted.step hfile hsteps, fun call' hlast => ?_⟩
  obtain ⟨-, rfl⟩ : call = call' ∧ r = .added true := by simpa using hlast
  cases hsteps with
  | unchanged r hr => simp at hr
  | added i item chunk hoffers hitem hstatus hmax => exact hmax

def zeroFile (n : ℕ) (hn : n < 2 ^ 63) : File := ⟨List.replicate n 0, by rwa [List.length_replicate]⟩

def noKeys : PoolKeys := ⟨none, none, none⟩

def threeBytes : Buffer := ⟨[1, 2, 3], by decide⟩

theorem add_and_destroy_file (file : File) :
    run (step hashTypeMD5 noKeys.limits) [.createItem true, .addDataFromFile 0 true (some file) true, .destroyItem 0]
        .init =
      .ok ([.created (some 0), .added true, .destroyed],
        ⟨[none], 0 + UInt64.ofNat file.content.length - UInt64.ofNat (file.content.length % 2 ^ 32)⟩) := rfl

theorem exists_file (hn : n < 2 ^ 63) : ∃ file : File, file.content.length = n :=
  ⟨zeroFile n hn, List.length_replicate⟩

end Razorback.BlockPool
