import Razorback.Config.Frames
import Razorback.LocalCache.Keys
import Razorback.LocalCache.Unused

/-! The caches with the sizes that an accepted configuration gives them. Nothing
validates the two limits, and `initcache` does not look at the result of
`malloc`. A cache works within its slots exactly when its size is neither zero
nor, as a signed number, negative, and its slots were allocated. The keys of
the entries do not matter for this, not even those that could not be allocated. -/

namespace Razorback.LocalCache
open Runs Config Function

section
variable {c c' : Cache} {x n : ℕ}

structure Shaped (n : ℕ) (c : Cache) : Prop where
  fits : ∃ d, Shows c d ∧ Fits n d
  keys : ∀ i < c.entries, (c.entrylist i).key ≠ .freed

theorem Shaped.init (junk : ℕ → Entry) (hn : 1 ≤ n) (hn' : n < 2 ^ 31) : Shaped n (initCache junk n) :=
  ⟨⟨_, Rep.shows (.init junk n), (Arc.init junk hn).fits hn'⟩, fun i hi => absurd hi (Nat.not_lt_zero i)⟩

theorem Shaped.hit (h : Shaped n c) (hx : x < c.entries) : ∃ c', hitEntry x c = .ok c' ∧ Shaped n c' := by
  obtain ⟨d, hs, hf⟩ := h.fits
  obtain ⟨c', d', hh, hs', hf'⟩ := hf.hitEntry hs hx
  have hk := hitEntry_keeps hh
  refine ⟨c', hh, ⟨d', hs', hf'⟩, fun i hi => ?_⟩
  rw [key_eq_of_payload (hk.payload i)]
  exact h.keys i (hk.entries ▸ hi)

theorem findEntryFrom_error
    (hkeys : ∀ j < i + m, (c.entrylist j).key ≠ .freed) (he : findEntryFrom beyond key c m i = .error e) :
    e = .nullKey := by
  induction m generalizing i with
  | zero => cases he
  | succ m ih =>
    have hrest := ih (i := i + 1) fun j hj => hkeys j (by omega)
    have hi := hkeys i (by omega)
    rw [findEntryFrom] at he
    cases hk : (c.entrylist i).key with
    | freed => exact absurd hk hi
    | null =>
      rw [hk] at he
      cases key with
      | nil => cases he
      | cons b key => exact (Except.error.inj he).symm
    | live bytes =>
      rw [hk, memcmpEq_live, ok_bind] at he
      split_ifs at he
      · cases he
      · exact hrest he

theorem Shaped.check (h : Shaped n c) (beyond : ℕ → ℕ → UInt8) (key : Bytes) :
    (∃ r c', checkIn beyond key c = .ok (r, c') ∧ Shaped n c') ∨
      findEntry beyond key c = .error .nullKey ∧ checkIn beyond key c = .error .nullKey := by
  unfold checkIn
  cases hf : findEntry beyond key c with
  | error e =>
    obtain rfl := findEntryFrom_error (fun j hj => h.keys j (by omega)) hf
    exact .inr ⟨rfl, rfl⟩
  | ok r =>
    cases r with
    | none => exact .inl ⟨_, c, rfl, h⟩
    | some x =>
      obtain ⟨c', hh, hs⟩ := h.hit (findEntry_lt hf)
      rw [ok_bind]
      dsimp only
      split_ifs
      · exact .inl ⟨_, c, rfl, h⟩
      · rw [hh]
        exact .inl ⟨_, c', rfl, hs⟩

theorem Shaped.update (h : Shaped n c) (beyond : ℕ → ℕ → UInt8) (key : Bytes) (sf ent : UInt32) :
    (∃ r c', updateIn beyond key sf ent c = .ok (r, c') ∧ Shaped n c') ∨
      findEntry beyond key c = .error .nullKey ∧ updateIn beyond key sf ent c = .error .nullKey := by
  unfold updateIn
  cases hf : findEntry beyond key c with
  | error e =>
    obtain rfl := findEntryFrom_error (fun j hj => h.keys j (by omega)) hf
    exact .inr ⟨rfl, rfl⟩
  | ok r =>
    cases r with
    | none => exact .inl ⟨_, c, rfl, h⟩
    | some x =>
      obtain ⟨d, hs, hfits⟩ := h.fits
      refine .inl ⟨_, _, rfl, ⟨d, hs.modify x fun _ => ⟨rfl, rfl, rfl⟩, hfits⟩, fun i hi => ?_⟩
      rw [modify_field Entry.key rfl]
      exact h.keys i hi

theorem Shaped.add (h : Shaped n c) (hn : 1 ≤ n) (hn' : n < 2 ^ 31) (mallocOk : Bool) (key : Bytes)
    (sf ent : UInt32) : ∃ r c', addIn mallocOk key sf ent c = .ok (r, c') ∧ Shaped n c' := by
  obtain ⟨d, hs, hf⟩ := h.fits
  obtain ⟨c', d', ha, hs', hf', hkeys⟩ := hf.addIn hs hn hn' h.keys mallocOk key sf ent
  exact ⟨_, c', ha, ⟨d', hs', hf'⟩, hkeys⟩

end

/-- A call, with the fate of the allocation of the key buffer if it is an insertion. -/
def callMalloc (p : CacheType × Bool × Op) (cs : Caches) : Except Fault (CheckResult × Caches) :=
  match p with
  | (t, mallocOk, .add key sf ent) => do
    let (r, cs) ← addLocalEntry mallocOk key sf ent t cs
    return ((r, none), cs)
  | (t, _, op) => call t op cs

/-- The slots behind `entrylist`: those of `malloc(size * 2 * sizeof(ENTRY))`,
whose first product wraps, or none at all. -/
def slotsOf (mallocOk : Bool) (size : ℕ) : ℕ := if mallocOk then size * 2 % 2 ^ 32 else 0

structure InBounds (slots : ℕ) (c : Cache) : Prop where
  entries : c.entries ≤ slots
  lru : ∀ l i, c.lru l = some i → i < c.entries
  mru : ∀ l i, c.mru l = some i → i < c.entries
  next : ∀ i < c.entries, ∀ j, (c.entrylist i).next = some j → j < c.entries
  prev : ∀ i < c.entries, ∀ j, (c.entrylist i).prev = some j → j < c.entries

/-- The run purges no empty list, gets no null entry, divides by no zero and
stays within the slots; it may only stop at a key that could not be allocated. -/
structure Safe (mallocOk : CacheType → Bool) (cs : Caches) (ops : List (CacheType × Bool × Op)) : Prop where
  bounds : ∀ rs cs', run callMalloc ops cs = .ok (rs, cs') →
    ∀ t, t ≠ .all → InBounds (slotsOf (mallocOk t) (cs t).size) (cs' t)
  faults : ∀ e, run callMalloc ops cs = .error e → e = .nullKey

section
variable {n : ℕ} {c : Cache} {ls : ListType → List ℕ} {cs : Caches} {t : CacheType} {mallocOk : CacheType → Bool}

theorem Rep.mem_lt (h : Rep c ls) {l : ListType} {i : ℕ} (hi : i ∈ ls l) : i < c.entries := by
  by_cases hl : l = .none
  · rw [hl, h.unlisted] at hi
    exact absurd hi List.not_mem_nil
  · exact ((h.mem l hl i).mp hi).1

theorem Rep.inBounds (h : Rep c ls) (hlist : Listed c) (hs : c.entries ≤ slots) : InBounds slots c := by
  have hplace : ∀ i < c.entries, i ∈ ls (c.entrylist i).listtype := fun i hi =>
    (h.mem _ (hlist i hi) i).mpr ⟨hi, rfl⟩
  refine ⟨hs, fun l i hi => ?_, fun l i hi => ?_, fun i hi j hj => ?_, fun i hi j hj => ?_⟩
  · rw [h.threads.first_eq l] at hi
    exact h.mem_lt (List.mem_of_mem_head? hi)
  · rw [h.threads.last_eq l] at hi
    exact h.mem_lt (List.mem_of_getLast? hi)
  · exact h.mem_lt ((h.threads.chain _).mem_of_next (hplace i hi) hj)
  · exact h.mem_lt ((h.threads.chain _).mem_of_prev (hplace i hi) hj)

theorem Shaped.inBounds (h : Shaped n c) (hn' : n < 2 ^ 31) : InBounds (slotsOf true n) c := by
  obtain ⟨d, hs, hf⟩ := h.fits
  have hcap := hf.capacity.cap
  rw [← hs.entries] at hcap
  refine hs.rep.inBounds (fun i hi => (hs.has_iff hi).mp (hf.listed i (hs.entries ▸ hi))) ?_
  rw [slotsOf, Nat.mod_eq_of_lt (by omega)]
  exact hcap.trans_eq (Nat.mul_comm 2 n)

theorem callMalloc_eq (ht : t ≠ .all) (m : Bool) (op : Op) (cs : Caches) :
    callMalloc (t, m, op) cs =
      (callMallocIn m op (cs t)).map fun p => (p.1, Function.update cs t p.2) := by
  cases op with
  | add key sf ent =>
    simp only [callMalloc, callMallocIn, addLocalEntry, if_neg ht]
    cases addIn m key sf ent (cs t) <;> rfl
  | check beyond key sf ent => exact call_eq ht (.check beyond key sf ent) cs
  | update beyond key sf ent => exact call_eq ht (.update beyond key sf ent) cs

theorem callMallocIn_shaped (hn : 1 ≤ n) (hn' : n < 2 ^ 31) (m : Bool) (op : Op) (h : Shaped n c) :
    (∃ r c', callMallocIn m op c = .ok (r, c') ∧ Shaped n c') ∨
      (∃ p, op.lookup = some p ∧ findEntry p.1 p.2 c = .error .nullKey) ∧ callMallocIn m op c = .error .nullKey := by
  cases op with
  | add key sf ent =>
    obtain ⟨r, c', ha, hs⟩ := h.add hn hn' m key sf ent
    exact .inl ⟨_, c', by rw [callMallocIn, ha]; rfl, hs⟩
  | check beyond key sf ent =>
    cases key <;> cases sf <;> cases ent
    case some.some.some key _ _ =>
      rcases h.check beyond key with hok | ⟨hf, herror⟩
      · exact .inl hok
      · exact .inr ⟨⟨_, rfl, hf⟩, herror⟩
    all_goals exact .inl ⟨_, c, rfl, h⟩
  | update beyond key sf ent =>
    cases key with
    | none => exact .inl ⟨_, c, rfl, h⟩
    | some key =>
      simp only [callMallocIn, callIn]
      rcases h.update beyond key sf ent with ⟨r, c', hu, hs⟩ | ⟨hf, hu⟩
      · exact .inl ⟨_, c', by rw [hu]; rfl, hs⟩
      · exact .inr ⟨⟨_, rfl, hf⟩, by rw [hu]; rfl⟩

def AllShaped (size : CacheType → ℕ) (cs : Caches) : Prop := ∀ t, t ≠ .all → Shaped (size t) (cs t)

theorem callMalloc_shaped {size : CacheType → ℕ} (hsize : ∀ t, t ≠ .all → 1 ≤ size t ∧ size t < 2 ^ 31)
    (p : CacheType × Bool × Op) (h : AllShaped size cs) :
    (∃ r cs', callMalloc p cs = .ok (r, cs') ∧ AllShaped size cs') ∨ callMalloc p cs = .error .nullKey := by
  obtain ⟨t, m, op⟩ := p
  by_cases ht : t = .all
  · subst ht
    exact .inl ⟨(.error, none), cs, by cases op <;> rfl, h⟩
  · rw [callMalloc_eq ht]
    rcases callMallocIn_shaped (hsize t ht).1 (hsize t ht).2 m op (h t ht) with ⟨r, c', hc, hs⟩ | ⟨_, hc⟩
    · refine .inl ⟨r, update cs t c', by rw [hc]; rfl, fun u hu => ?_⟩
      by_cases hut : u = t
      · subst hut
        rwa [update_self]
      · rw [update_of_ne hut]
        exact h u hu
    · exact .inr (by rw [hc]; rfl)

theorem safe_of_sizes (hinit : AllShaped (fun t => (cs t).size) cs)
    (hsize : ∀ t, t ≠ .all → 1 ≤ (cs t).size ∧ (cs t).size < 2 ^ 31) (hm : ∀ t, t ≠ .all → mallocOk t)
    (ops : List (CacheType × Bool × Op)) : Safe mallocOk cs ops := by
  have hkeep : ∀ p ds r ds', AllShaped (fun t => (cs t).size) ds → callMalloc p ds = .ok (r, ds') →
      AllShaped (fun t => (cs t).size) ds' := by
    intro p ds r ds' h hc
    rcases callMalloc_shaped hsize p h with ⟨r', ds'', hc', hs⟩ | hc'
    · obtain ⟨-, rfl⟩ := ok_inj (hc.symm.trans hc')
      exact hs
    · cases hc.symm.trans hc'
  refine ⟨fun rs cs' hr t ht => ?_, fun e hr => ?_⟩
  · have hs := run_keeps hkeep hinit hr t ht
    rw [hm t ht]
    exact hs.inBounds (hsize t ht).2
  · by_contra hne
    refine run_ne_error (fun rs p ds r ds' h hc => hkeep p ds r ds' h hc) (fun rs p ds h he => ?_) ops [] hinit hr
    rcases callMalloc_shaped hsize p h with ⟨r', ds'', hc', _⟩ | hc'
    · cases he.symm.trans hc'
    · exact hne (Except.error.inj (he.symm.trans hc'))

theorem run_callMalloc (ht : t ≠ .all) (ops : List Op) (cs : Caches) :
    run callMalloc (ops.map fun op => (t, true, op)) cs =
      (run callIn ops (cs t)).map fun p => (p.1, Function.update cs t p.2) := by
  rw [run_map, ← run_call_eq ht]
  congr 1
  funext op cs
  cases op <;> rfl

theorem size_of_safe (ht : t ≠ .all) (hcs : cs t = initCache junk n) (hn : n < 2 ^ 32)
    (h : ∀ ops, Safe mallocOk cs ops) : 1 ≤ n ∧ n < 2 ^ 31 ∧ mallocOk t := by
  have hfault : ∀ ops e, run callIn ops (initCache junk n) = .error e → e = .nullKey := by
    intro ops e he
    refine (h (ops.map fun op => (t, true, op))).faults e ?_
    rw [run_callMalloc ht, hcs, he]
    rfl
  have hpos : 1 ≤ n := by
    by_contra h0
    obtain rfl : n = 0 := by omega
    exact nomatch hfault [.add [] 0 0] .purgeEmpty rfl
  have hlt : n < 2 ^ 31 := by
    by_contra hge
    obtain ⟨ops, hops⟩ := run_stuck hn (not_lt.mp hge) junk
    exact nomatch hfault ops _ hops
  refine ⟨hpos, hlt, ?_⟩
  -- the first insertion uses the first slot
  obtain ⟨rs, c, hr, hf⟩ := run_filling hpos (by omega)
    (show Filling n 0 (initCache junk n) from ⟨rfl, rfl, rfl, rfl⟩)
  by_contra hm
  have hb := (h ((List.replicate 1 (.add [] 0 0)).map fun op => (t, true, op))).bounds rs
    (update cs t c) (by rw [run_callMalloc ht, hcs, hr]; rfl) t ht
  rw [update_self, slotsOf, if_neg hm] at hb
  have := hb.entries
  rw [hf.2.1] at this
  omega

theorem toUInt32_toNat_pos (x : Int32) :
    1 ≤ x.toUInt32.toNat ∧ x.toUInt32.toNat < 2 ^ 31 ↔ 0 < x := by
  rw [Int32.lt_iff_toInt_lt, Int32.toInt_zero]
  have h : x.toInt = x.toBitVec.toInt := rfl
  have h' : x.toUInt32.toNat = x.toBitVec.toNat := rfl
  rw [h, BitVec.toInt_eq_toNat_cond]
  split_ifs <;> omega

end

/-- The caches of an accepted configuration are safe in every run exactly when
both limits are positive and all slots could be allocated. -/
theorem configured_safe_iff (junk : CacheType → ℕ → Entry) (mallocOk : CacheType → Bool) (input : Input)
    (vars : Vars) (_accepted : readApiConfig input initialVars = some vars) :
    (∀ ops, Safe mallocOk (initcache junk (vars.uint32 .cacheBadLimit) (vars.uint32 .cacheGoodLimit)) ops) ↔
      0 < vars.int .cacheGoodLimit ∧ 0 < vars.int .cacheBadLimit ∧ ∀ t, t ≠ .all → mallocOk t = true := by
  constructor
  · intro h
    have hgood := size_of_safe (t := .badHash) (by decide) rfl (vars.uint32 .cacheGoodLimit).toNat_lt h
    have hbad := size_of_safe (t := .goodHash) (by decide) rfl (vars.uint32 .cacheBadLimit).toNat_lt h
    refine ⟨(toUInt32_toNat_pos _).mp ⟨hgood.1, hgood.2.1⟩, (toUInt32_toNat_pos _).mp ⟨hbad.1, hbad.2.1⟩,
      fun t ht => ?_⟩
    exact (size_of_safe ht (initcache_eq junk _ _ t) (initcache_size_lt junk _ _ t) h).2.2
  · rintro ⟨hgood, hbad, hm⟩ ops
    have hsize : ∀ t, t ≠ .all →
        1 ≤ (initcache junk (vars.uint32 .cacheBadLimit) (vars.uint32 .cacheGoodLimit) t).size ∧
        (initcache junk (vars.uint32 .cacheBadLimit) (vars.uint32 .cacheGoodLimit) t).size < 2 ^ 31 := by
      intro t ht
      cases t with
      | goodHash => exact (toUInt32_toNat_pos _).mpr hbad
      | badHash => exact (toUInt32_toNat_pos _).mpr hgood
      | url => exact ⟨(by decide : 1 ≤ 256), (by decide : 256 < 2 ^ 31)⟩
      | all => exact absurd rfl ht
    refine safe_of_sizes (fun t ht => ?_) hsize hm ops
    rw [initcache_eq junk _ _ t]
    exact Shaped.init (junk t) (hsize t ht).1 (hsize t ht).2

def limitsFile (good bad : Int) : ConfigFile :=
  .settings fun
    | .cacheGoodLimit => some (.scalar (.int good))
    | .cacheBadLimit => some (.scalar (.int bad))
    | k => (sampleFile .mqPort 5671).lookup k

theorem configured_safe_two : ∃ vars, readApiConfig ⟨limitsFile 2 2, fun _ => none⟩ initialVars = some vars ∧
    Safe (fun _ => true) (initcache (fun _ _ => blankEntry) (vars.uint32 .cacheBadLimit)
      (vars.uint32 .cacheGoodLimit)) [(.goodHash, true, .add [1] 0 0), (.goodHash, false, .add [2] 0 0)] := by
  obtain ⟨vars, hv⟩ : ∃ vars, readApiConfig ⟨limitsFile 2 2, fun _ => none⟩ initialVars = some vars := ⟨_, rfl⟩
  have hgood : vars.int .cacheGoodLimit = 2 := by
    obtain rfl := Option.some.inj hv
    rfl
  have hbad : vars.int .cacheBadLimit = 2 := by
    obtain rfl := Option.some.inj hv
    rfl
  refine ⟨vars, hv, (configured_safe_iff _ _ _ vars hv).mpr ⟨?_, ?_, fun _ _ => rfl⟩ _⟩
  · rw [hgood]
    decide
  · rw [hbad]
    decide

/-- Without limits in the file the first insertion purges an empty list; a
negative limit whose double wraps to zero gives it a null entry. -/
theorem accepted_limits_fault :
    (∃ vars, readApiConfig ⟨sampleFile .mqPort 5671, fun _ => none⟩ initialVars = some vars ∧
      run callMalloc [(.goodHash, true, .add [1] 0 0)] (initcache (fun _ _ => blankEntry)
        (vars.uint32 .cacheBadLimit) (vars.uint32 .cacheGoodLimit)) = .error .purgeEmpty) ∧
    ∃ vars, readApiConfig ⟨limitsFile 2 (-2147483648), fun _ => none⟩ initialVars = some vars ∧
      run callMalloc [(.goodHash, true, .add [1] 0 0)] (initcache (fun _ _ => blankEntry)
        (vars.uint32 .cacheBadLimit) (vars.uint32 .cacheGoodLimit)) = .error .nullEntry :=
  ⟨⟨_, rfl, rfl⟩, _, rfl, rfl⟩

end Razorback.LocalCache
