import Razorback.BlockPool.Accounting

/-! The block id of a finalized item, and the name its block is stored under. The digest functions are a parameter. -/

namespace Razorback.BlockPool
open Records Text Option
open Transfer (Chunk contents)
open Submission (Status)
open Runs (run Along run_along along_of_forall run_length run_append_ok)

/-! ### Block ids and names -/

/-- The digests of the library `hash.c` calls, each as long as its type says. -/
structure Digests where
  digest : UInt32 → Bytes → Bytes
  length_digest : ∀ type input, (digest type input).length = (hashExpectedDigestLength type).toNat

def evpMaxMdSize : ℕ := 64

/-- A finalized `struct Hash`: the digest in a buffer of `EVP_MAX_MD_SIZE` bytes. -/
def Digests.hash (digests : Digests) (type : UInt32) (input : Bytes) : Hash :=
  let digest := digests.digest type input
  { iType := type
    iSize := UInt32.ofNat digest.length
    pData := digest ++ List.replicate (evpMaxMdSize - digest.length) 0
    iFlags := hashFlagFinal }

/-- The `struct Hash` of a context. -/
def HashContext.hash (digests : Digests) (context : HashContext) : Hash :=
  if context.final then digests.hash context.iType context.input
  else { iType := context.iType, iSize := 0, pData := List.replicate evpMaxMdSize 0, iFlags := 0 }

def PoolItem.pId (digests : Digests) (item : PoolItem) : BlockId :=
  { pHash := some (item.hash.hash digests), uuidDataType := item.uuidDataType, iLength := item.iLength }

def generateFilename (id : BlockId) : Option Bytes :=
  (id.pHash.bind hashToText).map fun hash => hash ++ '.'.toUInt8 :: decimal id.iLength.toNat

section Names

variable {digests : Digests} {type : UInt32} {input input' : Bytes}

theorem expectedDigestLength_le (type : UInt32) : (hashExpectedDigestLength type).toNat ≤ evpMaxMdSize := by
  unfold hashExpectedDigestLength
  split_ifs <;> decide

theorem toNat_iSize (digests : Digests) (type : UInt32) (input : Bytes) :
    (digests.hash type input).iSize.toNat = (digests.digest type input).length := by
  have hle := expectedDigestLength_le type
  rw [← digests.length_digest type input] at hle
  refine UInt32.toNat_ofNat_of_lt' ?_
  exact lt_of_le_of_lt hle (by decide)

theorem hashToText_hash (digests : Digests) (type : UInt32) (input : Bytes) :
    hashToText (digests.hash type input) = some (hex (digests.digest type input)) := by
  have hsize := toNat_iSize digests type input
  have hle := expectedDigestLength_le type
  rw [← digests.length_digest type input, evpMaxMdSize] at hle
  have hdigest : (digests.hash type input).digest = digests.digest type input := by
    rw [Hash.digest, hsize]
    exact List.take_left' rfl
  have hdata : (digests.digest type input).length ≤ (digests.hash type input).pData.length := by
    simp [Digests.hash]
  have hfinal : (digests.hash type input).isFinal := show (hashFlagFinal &&& hashFlagFinal != 0) by decide
  rw [hashToText, if_neg (not_not.mpr hfinal), if_neg (by rw [hsize]; omega), hdigest]

theorem name_inj
    (h : hex data ++ '.'.toUInt8 :: decimal n = hex data' ++ '.'.toUInt8 :: decimal n') : data = data' ∧ n = n' := by
  have hdot : '.'.toUInt8 ∉ decimal n := fun hmem => absurd (isDigit_of_mem_decimal _ hmem) (by decide)
  obtain ⟨hhex, -, hdec⟩ := (List.append_cons_inj_of_notMem (notMem_hex (by decide) data) hdot).mp h
  constructor
  · exact some.inj (by rw [← readHex_hex data, hhex, readHex_hex])
  · rw [← readDigits_decimal n, hdec, readDigits_decimal]

end Names

/-! ### Items along a run -/

def addedTo (i : ℕ) (h : List (Call × Result)) : List Chunk :=
  h.filterMap fun p => if p.2 = .added true then (p.1.offers.filter fun o => o.1 = i).map Prod.snd else none

theorem addedTo_append (i : ℕ) (h h' : List (Call × Result)) : addedTo i (h ++ h') = addedTo i h ++ addedTo i h' :=
  List.filterMap_append

theorem addedTo_other (hr : r ≠ .added true) : addedTo i [(call, r)] = [] := by
  simp [addedTo, hr]

theorem addedTo_offered (h : call.offers = some (j, chunk)) :
    addedTo i [(call, .added true)] = if j = i then [chunk] else [] := by
  by_cases hij : j = i
  · simp [addedTo, h, hij]
  · simp [addedTo, h, hij]

structure Describes (hashType : UInt32) (chunks : List Chunk) (item : PoolItem) : Prop where
  data : item.data = chunks
  length : item.iLength = UInt64.ofNat (contents chunks).length
  type : item.hash.iType = hashType
  input : item.hash.input = contents chunks
  /-- The digest takes data as long as the item does. -/
  collects : item.iStatus = Status.collecting.code → item.hash.final = false

theorem contents_snoc (chunks : List Chunk) (chunk : Chunk) :
    contents (chunks ++ [chunk]) = contents chunks ++ chunk.bytes := by simp [contents]

variable {hashType : UInt32}

theorem describes_newItem (h : newItem hashType = some item) : Describes hashType [] item := by
  unfold newItem hashCreateType at h
  split_ifs at h
  · exact nomatch h
  · obtain rfl := some.inj h
    exact ⟨rfl, rfl, rfl, rfl, fun _ => rfl⟩

theorem Describes.attach
    (h : Describes hashType chunks item) (hstatus : item.iStatus = Status.collecting.code) (chunk : Chunk) :
    Describes hashType (chunks ++ [chunk]) (item.attach chunk (hashUpdate item.hash chunk.bytes)) := by
  rw [hashUpdate_of_open (h.collects hstatus)]
  refine ⟨?_, ?_, h.type, ?_, h.collects⟩
  · rw [← h.data]
    rfl
  · rw [contents_snoc, List.length_append, UInt64.ofNat_add, ← h.length]
    rfl
  · rw [contents_snoc, ← h.input]
    rfl

theorem Describes.finalize (h : Describes hashType chunks item) (hfin : Finalizes item item') :
    Describes hashType chunks item' ∧ item'.hash.final := by
  obtain ⟨-, hhash⟩ := hashFinalize_eq_some hfin.hash
  refine ⟨⟨?_, ?_, ?_, ?_, fun hcoll => ?_⟩, ?_⟩
  · rw [hfin.data, h.data]
  · rw [hfin.length, h.length]
  · rw [hhash]
    exact h.type
  · rw [hhash]
    exact h.input
  · rw [hfin.status] at hcoll
    exact absurd hcoll (by decide)
  · rw [hhash]

theorem State.item_setItem {s : State} {i : ℕ} {item : PoolItem} (hitem : s.item i = some item)
    (slot : Option PoolItem) (sgSize : UInt64) (j : ℕ) :
    (s.setItem i slot sgSize).item j = if i = j then slot else s.item j := by
  obtain ⟨hi, -⟩ := List.getElem?_eq_some_iff.mp (State.item_eq_some.mp hitem)
  unfold State.item State.setItem
  rw [List.getElem?_set]
  by_cases hij : i = j
  · rw [if_pos hij, if_pos (hij ▸ hi), if_pos hij]
    rfl
  · rw [if_neg hij, if_neg hij]

structure Tracked (hashType : UInt32) (h : List (Call × Result)) (s : State) : Prop where
  items : ∀ i item, s.item i = some item → .destroyDataList i ∉ h.map Prod.fst → Describes hashType (addedTo i h) item
  fresh : ∀ i, s.slots.length ≤ i → addedTo i h = []

section Step

variable {hashType : UInt32} {limits : Limits} {h : List (Call × Result)} {call : Call} {s s' : State} {r : Result}

theorem Tracked.of_setItem (ht : Tracked hashType h s) (hitem : s.item i = some item)
    (hother : ∀ j, i ≠ j → addedTo j [(call, r)] = [])
    (hslot : ∀ item' ∈ slot, .destroyDataList i ∉ (h ++ [(call, r)]).map Prod.fst →
      Describes hashType (addedTo i (h ++ [(call, r)])) item') :
    Tracked hashType (h ++ [(call, r)]) (s.setItem i slot sgSize) := by
  have hi : i < s.slots.length := (List.getElem?_eq_some_iff.mp (State.item_eq_some.mp hitem)).1
  constructor
  · intro j item' hj hkept
    rw [State.item_setItem hitem] at hj
    by_cases hij : i = j
    · subst hij
      rw [if_pos rfl] at hj
      exact hslot item' hj hkept
    · rw [if_neg hij] at hj
      rw [addedTo_append, hother j hij, List.append_nil]
      exact ht.items j item' hj fun hmem => hkept (by simp [hmem])
  · intro j hj
    have hlength : s.slots.length ≤ j := by simpa [State.setItem] using hj
    rw [addedTo_append, ht.fresh j hlength, hother j (by omega)]
    rfl

theorem Tracked.of_unchanged (ht : Tracked hashType h s) (hnone : ∀ j, addedTo j [(call, r)] = []) :
    Tracked hashType (h ++ [(call, r)]) s := by
  constructor
  · intro j item hj hkept
    rw [addedTo_append, hnone j, List.append_nil]
    exact ht.items j item hj fun hmem => hkept (by simp [hmem])
  · intro j hj
    rw [addedTo_append, ht.fresh j hj, hnone j]
    rfl

theorem Tracked.step (ht : Tracked hashType h s) (hstep : Steps hashType limits call s r s') :
    Tracked hashType (h ++ [(call, r)]) s' := by
  cases hstep with
  | unchanged r hr =>
    exact ht.of_unchanged fun j => addedTo_other fun hr' => hr (by simp [hr'])
  | created item hitem i =>
    have hnone (j : ℕ) : addedTo j [(call, .created i)] = [] := addedTo_other nofun
    constructor
    · intro j item' hj hkept
      rw [addedTo_append, hnone j, List.append_nil]
      rw [State.item_eq_some, List.getElem?_append] at hj
      split_ifs at hj with hlt
      · exact ht.items j item' (State.item_eq_some.mpr hj) fun hmem => hkept (by simp [hmem])
      · rw [ht.fresh j (Nat.le_of_not_lt hlt)]
        obtain ⟨hone, hget⟩ := List.getElem?_eq_some_iff.mp hj
        obtain rfl : item = item' := by simpa using hget
        exact describes_newItem hitem
    · intro j hj
      rw [List.length_append] at hj
      rw [addedTo_append, ht.fresh j (by omega)]
      rfl
  | added i item chunk hoffers hitem hstatus hmax =>
    refine ht.of_setItem hitem (fun j hij => ?_) ?_
    · rw [addedTo_offered hoffers, if_neg hij]
    · rintro item' ⟨rfl⟩ hkept
      rw [addedTo_append, addedTo_offered hoffers, if_pos rfl]
      exact (ht.items i item hitem fun hmem => hkept (by simp [hmem])).attach hstatus chunk
  | finalized i item item' hcall hitem hfin =>
    have hnone (j : ℕ) : addedTo j [(call, .finalized true)] = [] := addedTo_other nofun
    refine ht.of_setItem hitem (fun j _ => hnone j) ?_
    rintro item'' ⟨rfl⟩ hkept
    rw [addedTo_append, hnone i, List.append_nil]
    exact ((ht.items i item hitem fun hmem => hkept (by simp [hmem])).finalize hfin).1
  | cleared i item hcall hitem =>
    refine ht.of_setItem hitem (fun j _ => addedTo_other nofun) fun item' _ hkept => ?_
    exact absurd (by simp [hcall]) hkept
  | destroyed i item hitem =>
    exact ht.of_setItem hitem (fun j _ => addedTo_other nofun) nofun

end Step

theorem tracked_run
    (hrun : run (step hashType limits) calls .init = .ok (results, s)) : Tracked hashType (calls.zip results) s := by
  have hinit : Tracked hashType [] .init := ⟨nofun, fun _ _ => rfl⟩
  have hcalls : Along (fun _ _ => True) (step hashType limits) calls .init := along_of_forall fun _ _ => trivial
  simpa using run_along (fun h call s r s' ht _ hstep => ht.step (step_steps hstep)) hinit hcalls hrun

/-! ### Finalized items -/

/-- After the calls, `BlockPool_FinalizeItem` succeeds on an item, whose list no call destroyed; `chunks` were added
to it. -/
def FinalizedAs (hashType : UInt32) (limits : Limits) (calls : List Call) (i : ℕ) (chunks : List Chunk)
    (item : PoolItem) : Prop :=
  .destroyDataList i ∉ calls ∧ ∃ results s digestOk magicOk mime s',
    run (step hashType limits) calls .init = .ok (results, s) ∧ chunks = addedTo i (calls.zip results) ∧
      step hashType limits (.finalizeItem i digestOk magicOk mime) s = .ok (.finalized true, s') ∧ s'.item i = some item

section Finalized

variable {hashType : UInt32} {limits : Limits} {calls : List Call} {i : ℕ} {chunks : List Chunk} {item : PoolItem}

section
variable (h : FinalizedAs hashType limits calls i chunks item)
include h

theorem FinalizedAs.describes :
    Describes hashType chunks item ∧ item.hash.final := by
  obtain ⟨hkept, results, s, digestOk, magicOk, mime, s', hrun, rfl, hstep, hitem⟩ := h
  have hlength := run_length hrun
  cases step_steps hstep with
  | unchanged r hr => simp at hr
  | finalized j before after hcall hbefore hfin =>
    obtain ⟨_, _, _, hcall⟩ := hcall
    obtain rfl : i = j := by injection hcall
    rw [State.item_setItem hbefore, if_pos rfl] at hitem
    obtain rfl := some.inj hitem
    refine ((tracked_run hrun).items i before hbefore ?_).finalize hfin
    rwa [List.map_fst_zip hlength.ge]

theorem FinalizedAs.pHash (digests : Digests) :
    (item.pId digests).pHash = some (digests.hash hashType (contents chunks)) := by
  obtain ⟨hdesc, hfinal⟩ := h.describes
  rw [PoolItem.pId, HashContext.hash, if_pos hfinal, hdesc.type, hdesc.input]

theorem FinalizedAs.filename (digests : Digests) :
    generateFilename (item.pId digests) =
      some (hex (digests.digest hashType (contents chunks)) ++ '.'.toUInt8 :: decimal item.iLength.toNat) := by
  rw [generateFilename, h.pHash digests, bind_some, hashToText_hash]
  rfl

end

end Finalized

def zeroDigests : Digests where
  digest type _ := List.replicate (hashExpectedDigestLength type).toNat 0
  length_digest _ _ := List.length_replicate

def threeBytesAdded : List Call := [.createItem true, .addData 0 (some threeBytes) true]

end Razorback.BlockPool
