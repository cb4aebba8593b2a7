import Razorback.LocalCache.Keys
import Razorback.LocalCache.Unused

/-! The configured limits of the two hash caches. A cache of `n` slots never has
more than `n` entries resident, and while there were at most `n` insertions none
of them was evicted; but `initcache` gives each hash cache the limit of the other. -/

namespace Razorback.LocalCache
open Runs Function List

def addedKey : Op → Option Bytes
  | .add key _ _ => some key
  | _ => none

def addedKeys (t : CacheType) (ops : List (CacheType × Op)) : List Bytes :=
  ops.filterMap fun p => if p.1 = t then addedKey p.2 else none

def InT (c : Cache) (i : ℕ) : Prop := (c.entrylist i).listtype = .t1 ∨ (c.entrylist i).listtype = .t2

instance (c : Cache) : DecidablePred (InT c) := fun _ => inferInstanceAs (Decidable (_ ∨ _))

def residents (c : Cache) : List ℕ := (List.range c.entries).filter (InT c ·)

/-- What a limit of `n` entries promises for the cache `t`. -/
structure KeepsLimit (n : ℕ) (t : CacheType) (ops : List (CacheType × Op)) (cs : Caches) : Prop where
  atMost : (residents (cs t)).length ≤ n
  resident : (addedKeys t ops).length ≤ n → ∀ key ∈ addedKeys t ops, ∃ i ∈ residents (cs t), Holds (cs t) i key
  found : (addedKeys t ops).length ≤ n → ∀ key ∈ addedKeys t ops, ∀ beyond sf ent,
    ∃ fl cs', checkLocalEntry beyond (some key) (some sf) (some ent) t cs = .ok ((.found, some fl), cs')

section
variable {c c' : Cache} {ls : ListType → List ℕ} {n i : ℕ} {keys : List Bytes} {key : Bytes}

theorem Arc.residents_length (h : Arc n c ls) :
    (residents c).length = c.listSize .t1 + c.listSize .t2 := by
  rw [h.sizes .t1 (by decide), h.sizes .t2 (by decide), ← length_append]
  refine List.Perm.length_eq ?_
  have hnd : (ls .t1 ++ ls .t2).Nodup := nodup_append.mpr ⟨h.rep.threads.nodup .t1,
    h.rep.threads.nodup .t2, fun i hi j hj e => h.rep.threads.disjoint .t1 .t2 (by decide) i hi (e ▸ hj)⟩
  rw [residents, perm_ext_iff_of_nodup (nodup_range.filter _) hnd]
  intro i
  rw [mem_filter, mem_range, decide_eq_true_eq, mem_append, h.rep.mem .t1 (by decide) i,
    h.rep.mem .t2 (by decide) i, InT, and_or_left]

theorem Capacity.no_ghosts (h : Capacity n e t1 t2 b1 b2) (he : e ≤ n) : b1 = 0 ∧ b2 = 0 := by
  rcases he.lt_or_eq with hlt | rfl
  · exact h.ghosts hlt
  · have := h.full le_rfl
    have := h.total
    omega

theorem Arc.inT (h : Arc n c ls) (he : c.entries ≤ n) (hi : i < c.entries) : InT c i := by
  obtain ⟨h1, h2⟩ := h.capacity.no_ghosts he
  have hmem : ∀ l, l ≠ .none → (c.entrylist i).listtype = l → (ls l).length ≠ 0 := by
    intro l hl ht h0
    have := (h.rep.mem l hl i).mpr ⟨hi, ht⟩
    rw [length_eq_zero_iff.mp h0] at this
    exact not_mem_nil this
  cases ht : (c.entrylist i).listtype with
  | t1 => exact .inl ht
  | t2 => exact .inr ht
  | b1 => exact absurd h1 (hmem .b1 (by decide) ht)
  | b2 => exact absurd h2 (hmem .b2 (by decide) ht)
  | none => exact absurd ht (h.listed i hi)

theorem Arc.obtain_fresh (h : Arc n c ls) (hn' : n < 2 ^ 31) (hlt : c.entries < n) :
    obtainEntry c = getNewEntry c := by
  have ht := h.capacity.total
  have hA : ¬(c.listSize .t1 + c.listSize .b1) % 2 ^ 32 = c.size := by
    rw [h.sizes .t1 (by decide), h.sizes .b1 (by decide), h.size]
    omega
  have hB : ¬c.size ≤ c.entries := by
    rw [h.size]
    exact hlt.not_ge
  rw [obtainEntry, if_neg hA, if_neg hB]

theorem slotMatches_of_holds (beyond : ℕ → ℕ → UInt8) (h : Holds c i key) : SlotMatches beyond key c i := by
  rw [SlotMatches, h, memcmpEq_live]
  congr 1
  rw [all_eq_true]
  intro j hj
  have hj' : j < key.length := mem_range.mp hj
  simp [getElem?_eq_getElem hj']

theorem addIn_entries (h : addIn true key sf ent c = .ok (r, c')) :
    ∃ x c₁, obtainEntry c = .ok (x, c₁) ∧ c'.entries = c₁.entries := by
  simp only [addIn, bind_eq_ok] at h
  obtain ⟨⟨x, c₁⟩, ho, k, _, he⟩ := h
  obtain ⟨-, rfl⟩ := ok_inj he
  exact ⟨x, c₁, ho, (addMRU_keeps x .t1 c₁).entries⟩

structure Room (n : ℕ) (keys : List Bytes) (c : Cache) : Prop where
  arc : ∃ ls, Arc n c ls
  entries : keys.length ≤ n → c.entries = keys.length
  held : keys.length ≤ n → ∀ key ∈ keys, ∃ i < c.entries, Holds c i key

theorem Room.keeps (h : Room n keys c) (harc : ∃ ls, Arc n c' ls) (he : c'.entries = c.entries)
    (hkey : ∀ i, (c'.entrylist i).key = (c.entrylist i).key) : Room n keys c' := by
  refine ⟨harc, fun hn => he.trans (h.entries hn), fun hn key hk => ?_⟩
  obtain ⟨i, hi, hh⟩ := h.held hn key hk
  exact ⟨i, he.symm ▸ hi, (hkey i).trans hh⟩

theorem Room.add (h : Room n keys c) (hn : 1 ≤ n) (hn' : n < 2 ^ 31) (key : Bytes) (sf ent : UInt32) :
    ∃ c', addIn true key sf ent c = .ok (.success, c') ∧ Room n (keys ++ [key]) c' := by
  obtain ⟨ls, harc⟩ := h.arc
  obtain ⟨c', _, ha, harc'⟩ := harc.add key hn hn' sf ent
  have hfresh : (keys ++ [key]).length ≤ n → c.entries = keys.length ∧ c'.entries = c.entries + 1 ∧
      Holds c' c.entries key ∧ ∀ i < c.entries, ∀ k, Holds c i k → Holds c' i k := by
    intro hle
    rw [length_append, length_singleton] at hle
    have hent := h.entries (by omega)
    have hnew := harc.obtain_fresh hn' (by omega)
    obtain ⟨x, c₁, ho, hx, hother, _⟩ := addIn_inv ha
    obtain ⟨x', c₁', ho', he⟩ := addIn_entries ha
    obtain ⟨rfl, rfl⟩ := ok_inj (ho.symm.trans ho')
    rw [hnew] at ho
    obtain ⟨rfl, he₁, _⟩ := getNewEntry_inv ho
    have hkey : (c'.entrylist c.entries).key = .live key := congrArg (fun p => p.2.1) hx
    refine ⟨hent, he.trans he₁, hkey, fun i hi k hk => ?_⟩
    exact (holds_iff_of_payload (hother i hi.ne)).mpr hk
  refine ⟨c', ha, ⟨_, harc'⟩, fun hle => ?_, fun hle k hk => ?_⟩
  · obtain ⟨hent, he, _⟩ := hfresh hle
    rw [he, hent, length_append, length_singleton]
  · obtain ⟨hent, he, hnew, hold⟩ := hfresh hle
    rcases mem_append.mp hk with hk | hk
    · obtain ⟨i, hi, hh⟩ := h.held (by simp at hle; omega) k hk
      exact ⟨i, by omega, hold i hi k hh⟩
    · obtain rfl := mem_singleton.mp hk
      exact ⟨c.entries, by omega, hnew⟩

theorem Room.call (h : Room n keys c) (hn : 1 ≤ n) (hn' : n < 2 ^ 31) (op : Op) :
    ∃ r c', callIn op c = .ok (r, c') ∧ Room n (keys ++ (addedKey op).toList) c' := by
  have hsame : Room n (keys ++ (none : Option Bytes).toList) c := by simpa using h
  obtain ⟨r, c', hc, harc⟩ := callIn_arc hn hn' op c h.arc
  refine ⟨r, c', hc, ?_⟩
  cases callIn_called hc with
  | @add key sf ent _ _ ha =>
    obtain ⟨c', ha', hr⟩ := h.add hn hn' key sf ent
    cases ha.symm.trans ha'
    exact hr
  | hit _ _ hh =>
    have hk := hitEntry_keeps hh
    exact hsame.keeps harc hk.entries fun i => key_eq_of_payload (hk.payload i)
  | updated => exact hsame.keeps harc rfl (modify_field Entry.key rfl)
  | unchecked | unmatched => exact hsame

theorem Room.keepsLimit {t : CacheType} {ops : List (CacheType × Op)} {cs : Caches}
    (h : Room n (addedKeys t ops) (cs t)) (hn' : n < 2 ^ 31) (ht : t ≠ .all) : KeepsLimit n t ops cs := by
  obtain ⟨ls, harc⟩ := h.arc
  refine ⟨?_, fun hle key hk => ?_, fun hle key hk beyond sf ent => ?_⟩
  · rw [harc.residents_length, harc.sizes .t1 (by decide), harc.sizes .t2 (by decide)]
    exact harc.capacity.t1t2
  · obtain ⟨i, hi, hh⟩ := h.held hle key hk
    refine ⟨i, mem_filter.mpr ⟨mem_range.mpr hi, ?_⟩, hh⟩
    simpa using harc.inT (h.entries hle ▸ hle) hi
  · obtain ⟨i, hi, hh⟩ := h.held hle key hk
    rcases harc.check beyond key hn' with ⟨_, hnone⟩ | ⟨x, _, _, _, c', _, hc, _⟩
    · exact absurd (slotMatches_of_holds beyond hh) (hnone i hi)
    · refine ⟨(((cs t).entrylist x).sfflags, ((cs t).entrylist x).entflags), update cs t c', ?_⟩
      simp only [checkLocalEntry, if_neg ht, hc]
      rfl

end

theorem addedKeys_snoc (t : CacheType) (ops : List (CacheType × Op)) (p : CacheType × Op) :
    addedKeys t (ops ++ [p]) = addedKeys t ops ++ (if p.1 = t then addedKey p.2 else none).toList := by
  cases hk : if p.1 = t then addedKey p.2 else none <;> simp [hk, addedKeys]

section
variable (size : CacheType → ℕ)

def Roomy (ops : List (CacheType × Op)) (cs : Caches) : Prop :=
  ∀ t, t ≠ .all → Room (size t) (addedKeys t ops) (cs t)

variable {size}

theorem Roomy.call {ops : List (CacheType × Op)} {cs : Caches} (h : Roomy size ops cs)
    (hsize : ∀ t, t ≠ .all → 1 ≤ size t ∧ size t < 2 ^ 31) (p : CacheType × Op) :
    ∃ r cs', callAny p cs = .ok (r, cs') ∧ Roomy size (ops ++ [p]) cs' := by
  by_cases hp : p.1 = .all
  · refine ⟨_, cs, by rw [callAny, hp, call_all], fun t ht => ?_⟩
    rw [addedKeys_snoc, if_neg fun e => ht (e.symm.trans hp)]
    simpa using h t ht
  · obtain ⟨r, c', hc, hr⟩ := (h p.1 hp).call (hsize p.1 hp).1 (hsize p.1 hp).2 p.2
    refine ⟨r, update cs p.1 c', by rw [callAny, call_eq hp, hc]; rfl, fun t ht => ?_⟩
    rw [addedKeys_snoc]
    by_cases htp : p.1 = t
    · subst htp
      rwa [if_pos rfl, update_self]
    · rw [if_neg htp, update_of_ne (.symm htp)]
      simpa using h t ht

theorem run_roomy (hsize : ∀ t, t ≠ .all → 1 ≤ size t ∧ size t < 2 ^ 31) (junk : CacheType → ℕ → Entry)
    (ops : List (CacheType × Op)) :
    ∃ rs cs, run callAny ops (fun t => initCache (junk t) (size t)) = .ok (rs, cs) ∧ Roomy size ops cs := by
  have hstart : Roomy size (([] : List ((CacheType × Op) × CheckResult)).map .fst)
      fun t => initCache (junk t) (size t) :=
    fun t ht => ⟨⟨_, .init (junk t) (hsize t ht).1⟩, fun _ => rfl, fun _ _ hk => absurd hk not_mem_nil⟩
  have hany : Along (fun _ _ => True) callAny ops fun t => initCache (junk t) (size t) :=
    along_of_forall fun _ _ => trivial
  obtain ⟨rs, cs, hr, hroom⟩ := run_conforming
    (I := fun (h : List ((CacheType × Op) × CheckResult)) cs => Roomy size (h.map .fst) cs)
    (fun h p cs hi _ => by simpa using hi.call hsize p) hstart hany
  rw [nil_append, map_fst_zip (Nat.le_of_eq (run_length hr).symm)] at hroom
  exact ⟨rs, cs, hr, hroom⟩

end

theorem initcache_eq_size (junk : CacheType → ℕ → Entry) (badLimit goodLimit : UInt32) :
    initcache junk badLimit goodLimit =
      fun t => initCache (junk t) (initcache junk badLimit goodLimit t).size :=
  funext (initcache_eq junk badLimit goodLimit)

theorem exceeds_limit {t : CacheType} (ht : t ≠ .all) {cs₀ : Caches} {junk : ℕ → Entry} {n k : ℕ}
    (hcs : cs₀ t = initCache junk n) (hk : k < n) (hn' : n < 2 ^ 31) :
    ∃ ops rs cs, run callAny ops cs₀ = .ok (rs, cs) ∧ ¬KeepsLimit k t ops cs := by
  obtain ⟨rs, c, hr, hf⟩ := run_filling (c := initCache junk n) hk (by omega)
    ⟨rfl, rfl, rfl, rfl⟩
  obtain ⟨rs', c', hr', ls, harc⟩ := run_total (callIn_arc (by omega) hn') ⟨_, .init junk (by omega)⟩
    (replicate (k + 1) (.add [] 0 0))
  obtain ⟨rfl, rfl⟩ := ok_inj (hr.symm.trans hr')
  refine ⟨(replicate (k + 1) (.add [] 0 0)).map (.mk t), rs, update cs₀ t c, ?_, fun h => ?_⟩
  · rw [run_map]
    have hrun := run_call_eq ht (replicate (k + 1) (.add [] 0 0)) cs₀
    rw [hcs, hr] at hrun
    exact hrun
  · have hle := h.atMost
    rw [update_self, harc.residents_length, hf.2.2.1] at hle
    omega

/-- The limits hold for both hash caches exactly if they are equal. -/
theorem keepsLimit_iff (junk : CacheType → ℕ → Entry) (goodLimit badLimit : UInt32)
    (hg : 1 ≤ goodLimit.toNat) (hg' : goodLimit.toNat < 2 ^ 31) (hb : 1 ≤ badLimit.toNat)
    (hb' : badLimit.toNat < 2 ^ 31) :
    (∀ ops, ∃ rs cs, run callAny ops (initcache junk badLimit goodLimit) = .ok (rs, cs) ∧
      KeepsLimit goodLimit.toNat .goodHash ops cs ∧ KeepsLimit badLimit.toNat .badHash ops cs) ↔
    goodLimit = badLimit := by
  have hexceed : ∀ {t k}, t ≠ .all → k < (initcache junk badLimit goodLimit t).size →
      (initcache junk badLimit goodLimit t).size < 2 ^ 31 →
      ∃ ops, ∀ rs cs, run callAny ops (initcache junk badLimit goodLimit) = .ok (rs, cs) →
        ¬KeepsLimit k t ops cs := by
    intro t k ht hk hn
    obtain ⟨ops, rs, cs, hr, hno⟩ := exceeds_limit ht (initcache_eq junk badLimit goodLimit t) hk hn
    refine ⟨ops, fun rs' cs' hr' => ?_⟩
    obtain ⟨_, rfl⟩ := ok_inj (hr.symm.trans hr')
    exact hno
  constructor
  · intro h
    rcases lt_trichotomy goodLimit.toNat badLimit.toNat with hlt | heq | hlt
    · obtain ⟨ops, hno⟩ := hexceed (t := .goodHash) (by decide) hlt hb'
      obtain ⟨rs, cs, hr, hk, _⟩ := h ops
      exact absurd hk (hno rs cs hr)
    · exact UInt32.toNat_inj.mp heq
    · obtain ⟨ops, hno⟩ := hexceed (t := .badHash) (by decide) hlt hg'
      obtain ⟨rs, cs, hr, _, hk⟩ := h ops
      exact absurd hk (hno rs cs hr)
  · rintro rfl ops
    have hsize : ∀ t, t ≠ .all → 1 ≤ (initcache junk goodLimit goodLimit t).size ∧
        (initcache junk goodLimit goodLimit t).size < 2 ^ 31 := by
      intro t ht
      cases t with
      | goodHash | badHash => exact ⟨hg, hg'⟩
      | url => exact ⟨(by decide : 1 ≤ 256), (by decide : 256 < 2 ^ 31)⟩
      | all => exact absurd rfl ht
    obtain ⟨rs, cs, hr, hroom⟩ := run_roomy hsize junk ops
    rw [← initcache_eq_size] at hr
    exact ⟨rs, cs, hr, (hroom .goodHash (by decide)).keepsLimit hg' (by decide),
      (hroom .badHash (by decide)).keepsLimit hg' (by decide)⟩

theorem keepsLimit_two : ∃ rs cs,
    run callAny [(.goodHash, .add [1] 0 0), (.badHash, .add [2] 0 0), (.goodHash, .add [3] 0 0)]
      (initcache (fun _ _ => blankEntry) 2 2) = .ok (rs, cs) ∧
    KeepsLimit 2 .goodHash [(.goodHash, .add [1] 0 0), (.badHash, .add [2] 0 0), (.goodHash, .add [3] 0 0)] cs ∧
    KeepsLimit 2 .badHash [(.goodHash, .add [1] 0 0), (.badHash, .add [2] 0 0), (.goodHash, .add [3] 0 0)] cs :=
  (keepsLimit_iff (fun _ _ => blankEntry) 2 2 (by decide) (by decide) (by decide) (by decide)).mpr rfl _

/-- With the limits 1 for good and 2 for bad hashes, two good ones are resident;
with the limits 2 and 1, the first of two good ones is gone. -/
theorem limits_exchanged :
    (∃ rs cs, run callAny [(.goodHash, .add [1] 0 0), (.goodHash, .add [2] 0 0)]
        (initcache (fun _ _ => blankEntry) 2 1) = .ok (rs, cs) ∧ residents (cs .goodHash) = [0, 1]) ∧
    ∃ cs, run callAny [(.goodHash, .add [1] 0 0), (.goodHash, .add [2] 0 0),
        (.goodHash, .check (fun _ _ => 0) (some [1]) (some 0) (some 0))]
        (initcache (fun _ _ => blankEntry) 1 2) =
      .ok ([(.success, none), (.success, none), (.notFound, none)], cs) :=
  ⟨⟨_, _, rfl, by decide⟩, ⟨_, rfl⟩⟩

end Razorback.LocalCache
