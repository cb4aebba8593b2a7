import Razorback.LocalCache.Calls

/-! Runs of the public cache calls. For every cache whose doubled size fits in
an `unsigned`, no run of insertions, lookups and updates meets a fault, and the
lists, counters and target keep their bounds; for larger caches some run of
insertions ends at the null entry. -/

namespace Razorback.LocalCache
open Runs Linked Function List

/-- A call on one cache. The pointers `sfflags` and `entflags` of a lookup may be null. -/
inductive Op
  | add (key : Bytes) (sfflags entflags : UInt32)
  | check (beyond : ℕ → ℕ → UInt8) (key : Option Bytes) (sfflags entflags : Option UInt32)
  | update (beyond : ℕ → ℕ → UInt8) (key : Option Bytes) (sfflags entflags : UInt32)

def call (t : CacheType) (op : Op) (cs : Caches) : Except Fault (CheckResult × Caches) :=
  match op with
  | .add key sf ent => do
    let (r, cs) ← addLocalEntry true key sf ent t cs
    return ((r, none), cs)
  | .check beyond key sf ent => checkLocalEntry beyond key sf ent t cs
  | .update beyond key sf ent => do
    let (r, cs) ← updateLocalEntry beyond key sf ent t cs
    return ((r, none), cs)

def callIn (op : Op) (c : Cache) : Except Fault (CheckResult × Cache) :=
  match op with
  | .add key sf ent => (addIn true key sf ent c).map fun p => ((p.1, none), p.2)
  | .check beyond (some key) (some _) (some _) => checkIn beyond key c
  | .update beyond (some key) sf ent => (updateIn beyond key sf ent c).map fun p => ((p.1, none), p.2)
  | _ => .ok ((.error, none), c)

def walk (c : Cache) (l : ListType) : List ℕ := follow (links c) c.entries (c.lru l)

structure ListInvariant (c : Cache) (l : ListType) : Prop where
  count : c.listSize l = ((List.range c.entries).filter fun i => (c.entrylist i).listtype = l).length
  visits : ∀ i, i ∈ walk c l ↔ i < c.entries ∧ (c.entrylist i).listtype = l
  once : (walk c l).Nodup
  ends : (walk c l).getLast? = c.mru l
  last : ∀ i, c.mru l = some i → (c.entrylist i).next = none
  first : ∀ i, c.lru l = some i → (c.entrylist i).prev = none
  inverse : ∀ i ∈ walk c l, ∀ j ∈ walk c l,
    (c.entrylist i).next = some j ↔ (c.entrylist j).prev = some i

structure CacheInvariant (n : ℕ) (c : Cache) : Prop where
  lists : ∀ l, l ≠ .none → ListInvariant c l
  oneList : ∀ i < c.entries, ∃! l, l ≠ .none ∧ i ∈ walk c l
  t1b1 : c.listSize .t1 + c.listSize .b1 ≤ n
  t1t2 : c.listSize .t1 + c.listSize .t2 ≤ n
  entries : c.entries ≤ 2 * n
  full : n ≤ c.entries → c.listSize .t1 + c.listSize .t2 = n
  target : ∃ k : ℕ, c.target = k ∧ k ≤ n

section
variable {c : Cache} {ls : ListType → List ℕ} {l : ListType} {n : ℕ} {t : CacheType} {cs : Caches}

theorem Rep.length_le (h : Rep c ls) (hl : l ≠ .none) : (ls l).length ≤ c.entries := by
  have hsub : ls l ⊆ range c.entries :=
    fun i hi => mem_range.mpr ((h.mem l hl i).mp hi).1
  simpa using ((h.threads.nodup l).subperm hsub).length_le

theorem Rep.walk_eq (h : Rep c ls) (hl : l ≠ .none) : walk c l = ls l := by
  rw [walk, h.threads.first_eq l]
  exact (h.threads.chain l).follow_eq (h.length_le hl)

theorem Rep.length_eq_filter (h : Rep c ls) (hl : l ≠ .none) :
    (ls l).length = ((List.range c.entries).filter fun i => (c.entrylist i).listtype = l).length := by
  refine (List.Perm.length_eq ?_)
  rw [perm_ext_iff_of_nodup (h.threads.nodup l) (nodup_range.filter _)]
  intro i
  simp [h.mem l hl i]

theorem Rep.listInvariant (h : Rep c ls) (hs : Sizes c ls) (hl : l ≠ .none) : ListInvariant c l := by
  have hw := h.walk_eq hl
  refine ⟨(hs l hl).trans (h.length_eq_filter hl), ?_, ?_, ?_, ?_, ?_, ?_⟩
  · rw [hw]
    exact h.mem l hl
  · rw [hw]
    exact h.threads.nodup l
  · rw [hw, h.threads.last_eq l]
  · intro i hi
    obtain ⟨xs, hxs⟩ := getLast?_eq_some_iff.mp ((h.threads.last_eq l).symm.trans hi)
    have hc := h.threads.chain l
    rw [hxs] at hc
    simpa [links] using hc.neighbours.2
  · intro i hi
    obtain ⟨xs, hxs⟩ := head?_eq_some_iff.mp ((h.threads.first_eq l).symm.trans hi)
    have hc := h.threads.chain l
    rw [hxs] at hc
    exact hc.1
  · rw [hw]
    intro i hi j hj
    exact (h.threads.chain l).next_iff_prev (h.threads.nodup l) hi hj

theorem Arc.cacheInvariant (h : Arc n c ls) : CacheInvariant n c := by
  have hcap := h.capacity
  have s1 := h.sizes .t1 (by decide)
  have s2 := h.sizes .t2 (by decide)
  have s3 := h.sizes .b1 (by decide)
  refine ⟨fun l hl => h.rep.listInvariant h.sizes hl, fun i hi => ?_, ?_, ?_, hcap.cap, ?_, h.target⟩
  · refine ⟨(c.entrylist i).listtype, ⟨h.listed i hi, ?_⟩, ?_⟩
    · rw [h.rep.walk_eq (h.listed i hi)]
      exact (h.rep.mem _ (h.listed i hi) i).mpr ⟨hi, rfl⟩
    · rintro l ⟨hl, hmem⟩
      rw [h.rep.walk_eq hl] at hmem
      exact ((h.rep.mem l hl i).mp hmem).2.symm
  · rw [s1, s3]
    exact hcap.t1b1
  · rw [s1, s2]
    exact hcap.t1t2
  · rw [s1, s2]
    exact hcap.full

theorem Rep.init (junk : ℕ → Entry) (n : ℕ) : Rep (initCache junk n) fun _ => [] := by
  refine ⟨⟨fun _ => trivial, fun _ => nodup_nil, fun _ _ _ _ _ => not_mem_nil, fun _ => rfl, fun _ => rfl⟩,
    rfl, fun l hl i => ?_⟩
  simp [initCache]

theorem Arc.init (junk : ℕ → Entry) (hn : 1 ≤ n) : Arc n (initCache junk n) fun _ => [] := by
  refine ⟨.init junk n, fun _ _ => rfl, ?_, ?_, rfl, ⟨rfl, Nat.zero_le _, Nat.zero_le _, Nat.zero_le _, ?_, fun _ => ⟨rfl, rfl⟩⟩,
    ⟨n, rfl, le_rfl⟩⟩
  · intro i hi
    exact absurd hi (Nat.not_lt_zero i)
  · intro i hi
    exact absurd hi (Nat.not_lt_zero i)
  · intro he
    have : n ≤ 0 := he
    omega

theorem call_eq (ht : t ≠ .all) (op : Op) (cs : Caches) :
    call t op cs = (callIn op (cs t)).map fun p => (p.1, Function.update cs t p.2) := by
  have hsame : update cs t (cs t) = cs := update_eq_self t cs
  cases op with
  | add key sf ent =>
    simp only [call, callIn, addLocalEntry, if_neg ht]
    cases addIn true key sf ent (cs t) <;> rfl
  | check beyond key sf ent =>
    simp only [call, checkLocalEntry, if_neg ht]
    cases key <;> cases sf <;> cases ent <;> simp only [callIn, Except.map, hsame]
    cases checkIn beyond _ (cs t) <;> rfl
  | update beyond key sf ent =>
    simp only [call, updateLocalEntry, if_neg ht]
    cases key with
    | none => simp only [callIn, Except.map, hsame]; rfl
    | some key =>
      simp only [callIn]
      cases updateIn beyond key sf ent (cs t) <;> rfl

theorem run_call_eq (ht : t ≠ .all) (ops : List Op) (cs : Caches) :
    run (call t) ops cs =
      (run callIn ops (cs t)).map fun p => (p.1, Function.update cs t p.2) :=
  run_focus (fun op cs => call_eq ht op cs) (fun _ _ => update_self ..)
    (fun _ _ _ => update_idem ..) (fun _ => update_eq_self ..) ops cs

/-- What a call that returns has done to the cache. -/
inductive Called (c : Cache) : Op → CheckResult → Cache → Prop
  | add {key sf ent r c'} (ha : addIn true key sf ent c = .ok (r, c')) : Called c (.add key sf ent) (r, none) c'
  | hit {beyond key sf ent x c'} (hf : findEntry beyond key c = .ok (some x))
      (hl : (c.entrylist x).listtype ≠ .none) (hh : hitEntry x c = .ok c') :
      Called c (.check beyond (some key) (some sf) (some ent))
        (.found, some ((c'.entrylist x).sfflags, (c'.entrylist x).entflags)) c'
  | updated {beyond key sf ent x} (hf : findEntry beyond key c = .ok (some x)) :
      Called c (.update beyond (some key) sf ent) (.success, none)
        (c.modify x fun e => { e with sfflags := sf, entflags := ent })
  | unchecked {beyond key sf ent r} (hr : r ≠ .found) : Called c (.check beyond key sf ent) (r, none) c
  | unmatched {beyond key sf ent r} (hr : r ≠ .success) : Called c (.update beyond key sf ent) (r, none) c

theorem callIn_called (hc : callIn op c = .ok (r, c')) : Called c op r c' := by
  cases op with
  | add key sf ent =>
    obtain ⟨p, ha, hp⟩ := map_eq_ok.mp hc
    cases hp
    exact .add ha
  | check beyond key sf ent =>
    cases key <;> cases sf <;> cases ent
    case some.some.some key sf ent =>
      simp only [callIn, checkIn, bind_eq_ok] at hc
      obtain ⟨found, hf, hc⟩ := hc
      cases found with
      | none =>
        cases hc
        exact .unchecked (by decide)
      | some x =>
        dsimp only at hc
        split_ifs at hc with hl
        · cases hc
          exact .unchecked (by decide)
        · simp only [bind_eq_ok] at hc
          obtain ⟨c₁, hh, hc⟩ := hc
          cases hc
          exact .hit hf hl hh
    all_goals
      cases hc
      exact .unchecked (by decide)
  | update beyond key sf ent =>
    cases key with
    | none =>
      cases hc
      exact .unmatched (by decide)
    | some key =>
      obtain ⟨p, hu, hp⟩ := map_eq_ok.mp hc
      simp only [updateIn, bind_eq_ok] at hu
      obtain ⟨found, hf, hu⟩ := hu
      cases found with
      | none =>
        cases hu
        cases hp
        exact .unmatched LookupResult.noConfusion
      | some x =>
        cases hu
        cases hp
        exact .updated hf

theorem callIn_arc (hn : 1 ≤ n) (hn' : n < 2 ^ 31) (op : Op) (c : Cache) (h : ∃ ls, Arc n c ls) :
    ∃ r c', callIn op c = .ok (r, c') ∧ ∃ ls, Arc n c' ls := by
  obtain ⟨ls, h⟩ := h
  cases op with
  | add key sf ent =>
    obtain ⟨c', ls', ha, harc⟩ := h.add key hn hn' sf ent
    exact ⟨_, c', by rw [callIn, ha]; rfl, ls', harc⟩
  | check beyond key sf ent =>
    cases key <;> cases sf <;> cases ent
    case some.some.some key _ _ =>
      rcases h.check beyond key hn' with ⟨hc, _⟩ | ⟨x, _, _, _, c', ls', hc, _, _, harc⟩
      · exact ⟨_, c, hc, ls, h⟩
      · exact ⟨_, c', hc, ls', harc⟩
    all_goals exact ⟨_, c, rfl, ls, h⟩
  | update beyond key sf ent =>
    cases key with
    | none => exact ⟨_, c, rfl, ls, h⟩
    | some key =>
      rcases h.update beyond key sf ent with ⟨hu, _⟩ | ⟨x, _, _, _, hu, harc⟩
      · exact ⟨_, c, by rw [callIn, hu]; rfl, ls, h⟩
      · exact ⟨_, _, by rw [callIn, hu]; rfl, ls, harc⟩

def Filling (n k : ℕ) (c : Cache) : Prop :=
  c.size = n ∧ c.entries = k ∧ c.listSize .t1 = k ∧ c.listSize .b1 = 0

theorem Filling.obtain (h : Filling n k c) (hkn : k < n) (hk : k < 2 ^ 32) :
    obtainEntry c = getNewEntry c := by
  obtain ⟨hs, he, ht, hb⟩ := h
  have hA : ¬(c.listSize .t1 + c.listSize .b1) % 2 ^ 32 = c.size := by
    rw [ht, hb, hs, Nat.add_zero, Nat.mod_eq_of_lt hk]
    exact hkn.ne
  have hB : ¬c.size ≤ c.entries := by
    rw [hs, he]
    exact hkn.not_ge
  unfold obtainEntry
  rw [if_neg hA, if_neg hB]

theorem getNewEntry_ok (h : c.entries < c.size * 2 % 2 ^ 32) :
    ∃ c', getNewEntry c = .ok (c.entries, c') ∧ c'.size = c.size ∧ c'.entries = inc c.entries ∧
      c'.listSize = c.listSize ∧ c'.entrylist c.entries = blankEntry := by
  unfold getNewEntry
  rw [if_pos h]
  exact ⟨_, rfl, rfl, rfl, rfl, by simp [Cache.modify]⟩

theorem Filling.add (h : Filling n k c) (hkn : k < n) (hk : k < n * 2 % 2 ^ 32) (key : Bytes)
    (sf ent : UInt32) : ∃ r c', callIn (.add key sf ent) c = .ok (r, c') ∧ Filling n (k + 1) c' := by
  have hinc : inc k = k + 1 := inc_eq (by omega)
  have ho := h.obtain hkn (by omega)
  obtain ⟨hs, he, ht, hb⟩ := h
  obtain ⟨c₁, hg, hs₁, he₁, hl₁, hnew⟩ := getNewEntry_ok (by rw [he, hs]; exact hk)
  rw [he] at hg he₁ hnew
  have hm := addMRU_moves k .t1 c₁
  have hkey : ((addMRU k .t1 c₁).entrylist k).key = .null := by
    rw [key_eq_of_payload (hm.payload k), hnew]
    rfl
  refine ⟨(.success, none), ((addMRU k .t1 c₁).setSize .t1 (inc k)).modify k
    fun e => { e with size := key.length, sfflags := sf, entflags := ent, key := .live key },
    ?_, hm.size.trans (hs₁.trans hs), hm.entries.trans (he₁.trans hinc), ?_, ?_⟩
  · have ht₁ : (addMRU k .t1 c₁).listSize .t1 = k := by rw [hm.listSize, hl₁, ht]
    simp only [callIn, addIn, ho, hg, ok_bind, ht₁]
    simp [Cache.modify, Cache.setSize, hkey, freeKey, Except.map, pure, Except.pure]
  · simp [Cache.modify, Cache.setSize, hinc]
  · simpa [Cache.modify, Cache.setSize, hm.listSize, hl₁] using hb

theorem run_filling (hkn : k ≤ n) (hk : k ≤ n * 2 % 2 ^ 32) (hc : Filling n 0 c) :
    ∃ rs c', run callIn (List.replicate k (.add [] 0 0)) c = .ok (rs, c') ∧ Filling n k c' := by
  induction k with
  | zero => exact ⟨[], c, rfl, hc⟩
  | succ k ih =>
    obtain ⟨rs, c', hr, hf⟩ := ih (by omega) (by omega)
    obtain ⟨r, c'', ha, hf'⟩ := hf.add (by omega) (by omega) [] 0 0
    refine ⟨rs ++ [r], c'', ?_, hf'⟩
    rw [replicate_succ', run_append_ok hr, run_cons_ok ha]
    rfl

theorem Filling.stuck (h : Filling n k c) (hkn : k < n) (hk : n * 2 % 2 ^ 32 = k) (key : Bytes)
    (sf ent : UInt32) : callIn (.add key sf ent) c = .error .nullEntry := by
  have ho := h.obtain hkn (hk ▸ Nat.mod_lt _ (by decide))
  obtain ⟨hs, he, ht, hb⟩ := h
  have hG : ¬c.entries < c.size * 2 % 2 ^ 32 := by rw [he, hs, hk]; exact lt_irrefl k
  unfold callIn addIn
  rw [ho, getNewEntry, if_neg hG]
  rfl

theorem run_stuck (hn : n < 2 ^ 32) (hn' : 2 ^ 31 ≤ n) (junk : ℕ → Entry) :
    ∃ ops, run callIn ops (initCache junk n) = .error .nullEntry := by
  have hwrap : n * 2 % 2 ^ 32 < n := by omega
  obtain ⟨rs, c, hr, hf⟩ := run_filling hwrap.le le_rfl
    (show Filling n 0 (initCache junk n) from ⟨rfl, rfl, rfl, rfl⟩)
  refine ⟨replicate (n * 2 % 2 ^ 32) (.add [] 0 0) ++ [.add [] 0 0], ?_⟩
  rw [run_append_ok hr, run_cons_error (hf.stuck hwrap rfl [] 0 0)]
  rfl

variable (junk : CacheType → ℕ → Entry) (badLimit goodLimit : UInt32) (t : CacheType)

theorem initcache_eq :
    initcache junk badLimit goodLimit t =
      initCache (junk t) (initcache junk badLimit goodLimit t).size := by
  cases t <;> rfl

theorem initcache_size_lt : (initcache junk badLimit goodLimit t).size < 2 ^ 32 := by
  cases t with
  | goodHash => exact badLimit.toNat_lt
  | badHash => exact goodLimit.toNat_lt
  | url => exact (by decide : 256 < 2 ^ 32)
  | all => exact (by decide : 256 < 2 ^ 32)

end

/-- The invariant holds along every run, without any fault, exactly for the
sizes whose double is an `unsigned`. -/
theorem cacheInvariant_of_runs_iff (junk : CacheType → ℕ → Entry) (badLimit goodLimit : UInt32)
    (t : CacheType) (ht : t ≠ .all) (hn : 1 ≤ (initcache junk badLimit goodLimit t).size) :
    (∀ ops : List Op, ∃ rs cs, run (call t) ops (initcache junk badLimit goodLimit) = .ok (rs, cs) ∧
      CacheInvariant (initcache junk badLimit goodLimit t).size (cs t)) ↔
    (initcache junk badLimit goodLimit t).size < 2 ^ 31 := by
  have hlt := initcache_size_lt junk badLimit goodLimit t
  have hinit := initcache_eq junk badLimit goodLimit t
  set n := (initcache junk badLimit goodLimit t).size with hnd
  constructor
  · intro h
    by_contra hge
    obtain ⟨ops, hops⟩ := run_stuck hlt (not_lt.mp hge) (junk t)
    obtain ⟨rs, cs, hr, _⟩ := h ops
    rw [run_call_eq ht, hinit, hops] at hr
    cases hr
  · intro hn' ops
    obtain ⟨rs, c, hr, ls, harc⟩ := run_total (callIn_arc hn hn') ⟨_, Arc.init (junk t) hn⟩ ops
    refine ⟨rs, update (initcache junk badLimit goodLimit) t c, ?_, ?_⟩
    · rw [run_call_eq ht, hinit, hr]
      rfl
    · rw [update_self]
      exact harc.cacheInvariant

theorem cacheInvariant_of_runs_two :
    1 ≤ (initcache (fun _ _ => blankEntry) 2 2 .goodHash).size ∧ ∃ rs cs,
      run (call .goodHash) [.add [1] 0 0, .add [2] 0 0, .add [3] 0 0]
        (initcache (fun _ _ => blankEntry) 2 2) = .ok (rs, cs) ∧ CacheInvariant 2 (cs .goodHash) :=
  ⟨by decide, (cacheInvariant_of_runs_iff (fun _ _ => blankEntry) 2 2 .goodHash (by decide)
    (by decide)).mpr (by decide) _⟩

/-- The first insertion into a cache of `2 ^ 31` slots already meets the null entry. -/
theorem run_add_wrapped_size :
    1 ≤ (initcache (fun _ _ => blankEntry) 2147483648 2 .goodHash).size ∧
    run (call .goodHash) [.add [1] 0 0] (initcache (fun _ _ => blankEntry) 2147483648 2) =
      .error .nullEntry := by
  refine ⟨by decide, ?_⟩
  rfl

end Razorback.LocalCache
