import Razorback.LocalCache.Safety

/-! The cache as a map from byte strings to flags. `FindEntry` compares only as
many bytes as the lookup key has and an insertion never looks for an older entry
of its key, so the map is exact only along runs in which neither shows. -/

namespace Razorback.LocalCache
open Runs

section
variable {c : Cache} {x : ℕ}

theorem findEntryFrom_some
    (h : findEntryFrom beyond key c m i = .ok (some x)) : i ≤ x ∧ x < i + m := by
  induction m generalizing i with
  | zero => cases h
  | succ m ih =>
    simp only [findEntryFrom, bind_eq_ok] at h
    obtain ⟨b, _, hb⟩ := h
    cases b with
    | true =>
      obtain rfl := Option.some.inj (Except.ok.inj hb)
      omega
    | false =>
      have := ih hb
      omega

theorem findEntry_lt (h : findEntry beyond key c = .ok (some x)) : x < c.entries := by
  have := (findEntryFrom_some h).2
  omega

end

def Holds (c : Cache) (i : ℕ) (key : Bytes) : Prop := (c.entrylist i).key = .live key

def UniqueKeys (c : Cache) : Prop :=
  ∀ key i j, i < c.entries → j < c.entries → Holds c i key → Holds c j key → i = j

abbrev History := List (Op × CheckResult)

/-- The flags last given for a byte string, by an insertion or a successful update. -/
def record (m : Bytes → Option (UInt32 × UInt32)) (p : Op × CheckResult) :
    Bytes → Option (UInt32 × UInt32) :=
  match p with
  | (.add key sf ent, _) => Function.update m key (some (sf, ent))
  | (.update _ (some key) sf ent, (.success, _)) => Function.update m key (some (sf, ent))
  | _ => m

def lastFlags (h : History) : Bytes → Option (UInt32 × UInt32) := h.foldl record fun _ => none

def Added (h : History) (key : Bytes) : Prop := ∃ sf ent r, (Op.add key sf ent, r) ∈ h

/-- Every lookup of the history that found something found an inserted key and
returned the flags last given for it. -/
def LookupsExact (h : History) : Prop :=
  ∀ before after beyond key sf ent r, h = before ++ (.check beyond key sf ent, r) :: after →
    r.1 = .found → ∃ k fl, key = some k ∧ r.2 = some fl ∧ Added before k ∧ lastFlags before k = some fl

/-- Insertions only of keys that no other slot holds, and lookups only where the
slot that `FindEntry` returns holds exactly the key. -/
def Exact (op : Op) (c : Cache) : Prop :=
  match op with
  | .add key _ _ => ∀ x c', obtainEntry c = .ok (x, c') → ∀ i < c.entries, i ≠ x → ¬Holds c i key
  | .check beyond (some key) _ _ | .update beyond (some key) _ _ =>
    ∀ x, findEntry beyond key c = .ok (some x) → Holds c x key
  | _ => True

structure Table (h : History) (c : Cache) : Prop where
  unique : UniqueKeys c
  flags : ∀ i < c.entries, ∀ key, Holds c i key → Added h key ∧
    lastFlags h key = some ((c.entrylist i).sfflags, (c.entrylist i).entflags)

section
variable {c c' : Cache} {h : History} {key : Bytes} {x i : ℕ}

theorem lastFlags_snoc (h : History) (p : Op × CheckResult) :
    lastFlags (h ++ [p]) = record (lastFlags h) p := by
  rw [lastFlags, List.foldl_append]
  rfl

theorem Added.snoc (ha : Added h key) (p : Op × CheckResult) : Added (h ++ [p]) key := by
  obtain ⟨sf, ent, r, hr⟩ := ha
  exact ⟨sf, ent, r, List.mem_append_left _ hr⟩

variable {r : CheckResult}

theorem LookupsExact.snoc (hl : LookupsExact h)
    (hop : ∀ beyond key sf ent, op = .check beyond key sf ent → r.1 = .found →
      ∃ k fl, key = some k ∧ r.2 = some fl ∧ Added h k ∧ lastFlags h k = some fl) :
    LookupsExact (h ++ [(op, r)]) := by
  intro before after beyond key sf ent r' heq hr
  rcases snoc_eq_append_cons heq with ⟨_, rfl, hlast⟩ | ⟨after', _, hh⟩
  · obtain ⟨rfl, rfl⟩ := Prod.mk.inj hlast
    exact hop beyond key sf ent rfl hr
  · exact hl before after' beyond key sf ent r' hh hr

theorem holds_iff_of_payload (hp : payload (c'.entrylist i) = payload (c.entrylist i)) :
    Holds c' i key ↔ Holds c i key := by
  rw [Holds, Holds, key_eq_of_payload hp]

theorem flags_of_payload (hp : payload (c'.entrylist i) = payload (c.entrylist i)) :
    (c'.entrylist i).sfflags = (c.entrylist i).sfflags ∧
      (c'.entrylist i).entflags = (c.entrylist i).entflags :=
  ⟨congrArg (fun p => p.2.2.1) hp, congrArg (fun p => p.2.2.2) hp⟩

theorem Table.keeps (ht : Table h c) (hk : Keeps c c')
    (hp : record (lastFlags h) p = lastFlags h) : Table (h ++ [p]) c' := by
  refine ⟨fun key i j hi hj hki hkj => ?_, fun i hi key hki => ?_⟩
  · rw [hk.entries] at hi hj
    exact ht.unique key i j hi hj ((holds_iff_of_payload (hk.payload i)).mp hki)
      ((holds_iff_of_payload (hk.payload j)).mp hkj)
  · rw [hk.entries] at hi
    obtain ⟨ha, hf⟩ := ht.flags i hi key ((holds_iff_of_payload (hk.payload i)).mp hki)
    obtain ⟨h1, h2⟩ := flags_of_payload (hk.payload i)
    rw [lastFlags_snoc, hp, h1, h2]
    exact ⟨ha.snoc p, hf⟩

variable {sf ent : UInt32}

theorem Table.write (ht : Table h c)
    (hp : record (lastFlags h) p = Function.update (lastFlags h) key (some (sf, ent)))
    (hadded : Added (h ++ [p]) key)
    (hx : payload (c'.entrylist x) = (n, .live key, sf, ent))
    (hother : ∀ i, i ≠ x → payload (c'.entrylist i) = payload (c.entrylist i))
    (hent : ∀ i, i < c'.entries → i ≠ x → i < c.entries)
    (honly : ∀ i < c.entries, i ≠ x → ¬Holds c i key) : Table (h ++ [p]) c' := by
  have hxkey : (c'.entrylist x).key = .live key := congrArg (fun p => p.2.1) hx
  have hold : ∀ {i k}, i < c'.entries → i ≠ x → Holds c' i k → i < c.entries ∧ Holds c i k ∧ k ≠ key := by
    intro i k hi hix hk
    have hk' := (holds_iff_of_payload (hother i hix)).mp hk
    exact ⟨hent i hi hix, hk', fun e => honly i (hent i hi hix) hix (e ▸ hk')⟩
  have hnew : ∀ {k}, Holds c' x k → k = key := fun hk => KeyPtr.live.inj (hk.symm.trans hxkey)
  refine ⟨fun k i j hi hj hki hkj => ?_, fun i hi k hk => ?_⟩
  · by_cases hix : i = x
    · by_cases hjx : j = x
      · rw [hix, hjx]
      · exact absurd (hnew (hix ▸ hki)) (hold hj hjx hkj).2.2
    · by_cases hjx : j = x
      · exact absurd (hnew (hjx ▸ hkj)) (hold hi hix hki).2.2
      · exact ht.unique k i j (hold hi hix hki).1 (hold hj hjx hkj).1 (hold hi hix hki).2.1
          (hold hj hjx hkj).2.1
  · rw [lastFlags_snoc, hp]
    by_cases hix : i = x
    · subst hix
      obtain rfl := hnew hk
      rw [Function.update_self]
      refine ⟨hadded, ?_⟩
      have h1 : (c'.entrylist i).sfflags = sf := congrArg (fun p => p.2.2.1) hx
      have h2 : (c'.entrylist i).entflags = ent := congrArg (fun p => p.2.2.2) hx
      rw [h1, h2]
    · obtain ⟨hi', hk', hne⟩ := hold hi hix hk
      obtain ⟨ha, hf⟩ := ht.flags i hi' k hk'
      obtain ⟨h1, h2⟩ := flags_of_payload (hother i hix)
      rw [Function.update_of_ne hne, h1, h2]
      exact ⟨ha.snoc p, hf⟩

theorem callIn_exact (h : History) (op : Op) (c : Cache) (r : CheckResult) (c' : Cache)
    (hi : Table h c ∧ LookupsExact h) (hex : Exact op c) (hc : callIn op c = .ok (r, c')) :
    Table (h ++ [(op, r)]) c' ∧ LookupsExact (h ++ [(op, r)]) := by
  obtain ⟨ht, hl⟩ := hi
  have hsame : Keeps c c := ⟨rfl, fun _ => rfl⟩
  cases callIn_called hc with
  | @add key sf ent r _ ha =>
    refine ⟨?_, hl.snoc fun _ _ _ _ e => by cases e⟩
    obtain ⟨x, c₁, ho, hx, hother, hent⟩ := addIn_inv ha
    refine ht.write rfl ⟨sf, ent, _, List.mem_append_right _ (List.mem_singleton.mpr rfl)⟩ hx hother
      (fun i hi hix => ?_) (hex x c₁ ho)
    rcases hent with he | ⟨he, rfl⟩ <;> omega
  | @hit beyond key sf ent x _ hf _ hh =>
    have hk := hitEntry_keeps hh
    refine ⟨ht.keeps hk rfl, hl.snoc fun _ _ _ _ he _ => ?_⟩
    cases he
    obtain ⟨h1, h2⟩ := flags_of_payload (hk.payload x)
    refine ⟨key, _, rfl, rfl, ?_⟩
    rw [h1, h2]
    exact ht.flags x (findEntry_lt hf) key (hex x hf)
  | @updated beyond key sf ent x hf =>
    refine ⟨?_, hl.snoc fun _ _ _ _ e => by cases e⟩
    have hx := findEntry_lt hf
    have hkey := hex x hf
    refine ht.write (n := (c.entrylist x).size) rfl ((ht.flags x hx key hkey).1.snoc _) ?_
      (fun i hi => by rw [modify_of_ne _ hi]) (fun i hi _ => hi) ?_
    · rw [modify_self]
      simpa [payload, Holds] using hkey
    · exact fun i hi hix hk => hix (ht.unique key i x hi hx hk hkey)
  | unchecked hr => exact ⟨ht.keeps hsame rfl, hl.snoc fun _ _ _ _ _ hfound => absurd hfound hr⟩
  | @unmatched _ key _ _ r hr =>
    refine ⟨ht.keeps hsame ?_, hl.snoc fun _ _ _ _ e => by cases e⟩
    cases key <;> cases r <;> first | rfl | exact absurd rfl hr

end

/-- Along every exact run the cache is a map with exact keys. -/
theorem lookups_exact_of_along (junk : CacheType → ℕ → Entry) (badLimit goodLimit : UInt32)
    (t : CacheType) (ht : t ≠ .all) (ops : List Op) (rs : List CheckResult) (cs : Caches)
    (hrun : run (call t) ops (initcache junk badLimit goodLimit) = .ok (rs, cs))
    (hexact : Along (fun op cs => Exact op (cs t)) (call t) ops (initcache junk badLimit goodLimit)) :
    LookupsExact (ops.zip rs) ∧ UniqueKeys (cs t) := by
  have hstart : Table [] (initcache junk badLimit goodLimit t) := by
    rw [initcache_eq]
    exact ⟨fun _ i _ hi => absurd hi (Nat.not_lt_zero i), fun i hi => absurd hi (Nat.not_lt_zero i)⟩
  have hnone : LookupsExact [] := by
    intro before after beyond key sf ent r heq
    exact absurd heq (by simp)
  have hstep : ∀ (h : History) op (cs : Caches) r cs', (Table h (cs t) ∧ LookupsExact h) →
      Exact op (cs t) → call t op cs = .ok (r, cs') →
      Table (h ++ [(op, r)]) (cs' t) ∧ LookupsExact (h ++ [(op, r)]) := by
    intro h op cs r cs' hi hex hc
    rw [call_eq ht] at hc
    obtain ⟨p, hin, hp⟩ := map_eq_ok.mp hc
    cases hp
    rw [Function.update_self]
    exact callIn_exact h op (cs t) p.1 p.2 hi hex hin
  obtain ⟨hT, hL⟩ := run_along (I := fun h cs => Table h (cs t) ∧ LookupsExact h) hstep
    ⟨hstart, hnone⟩ hexact hrun
  exact ⟨hL, hT.unique⟩

theorem lookups_exact_add_check :
    LookupsExact ([.add [1] 5 6, .check (fun _ _ => 0) (some [1]) (some 0) (some 0)].zip
      [(.success, none), (.found, some (5, 6))]) := by
  refine (lookups_exact_of_along (fun _ _ => blankEntry) 2 2 .goodHash (by decide)
    [.add [1] 5 6, .check (fun _ _ => 0) (some [1]) (some 0) (some 0)]
    [(.success, none), (.found, some (5, 6))] _ rfl ⟨?_, fun r cs hc => ⟨?_, fun _ _ _ => trivial⟩⟩).1
  · exact fun x c' _ i hi => absurd hi (Nat.not_lt_zero i)
  · cases hc
    intro x hx
    have hlt : x < 1 := findEntry_lt hx
    obtain rfl : x = 0 := by omega
    rfl

/-- A lookup finds a longer key that starts like it, and a second insertion of a
key leaves the flags of the first one in front. -/
theorem lookups_inexact :
    (∃ cs, run (call .goodHash) [.add [1, 2] 7 8, .check (fun _ _ => 0) (some [1]) (some 0) (some 0)]
        (initcache (fun _ _ => blankEntry) 4 4) =
        .ok ([(.success, none), (.found, some (7, 8))], cs)) ∧
    (∃ cs, run (call .goodHash)
        [.add [1] 1 1, .add [1] 2 2, .check (fun _ _ => 0) (some [1]) (some 0) (some 0)]
        (initcache (fun _ _ => blankEntry) 4 4) =
        .ok ([(.success, none), (.success, none), (.found, some (1, 1))], cs) ∧
      ¬UniqueKeys (cs .goodHash)) ∧
    ¬LookupsExact ([.add [1, 2] 7 8, .check (fun _ _ => 0) (some [1]) (some 0) (some 0)].zip
      [(.success, none), (.found, some (7, 8))]) ∧
    ¬LookupsExact ([.add [1] 1 1, .add [1] 2 2, .check (fun _ _ => 0) (some [1]) (some 0) (some 0)].zip
      [(.success, none), (.success, none), (.found, some (1, 1))]) := by
  refine ⟨⟨_, rfl⟩, ⟨_, rfl, fun h => ?_⟩, fun h => ?_, fun h => ?_⟩
  · have := h [1] 0 1 (by decide) (by decide) rfl rfl
    omega
  · obtain ⟨k, fl, hk, _, ⟨sf, ent, r, hmem⟩, _⟩ :=
      h [(.add [1, 2] 7 8, (.success, none))] [] _ _ _ _ _ rfl rfl
    obtain rfl := Option.some.inj hk
    simp at hmem
  · obtain ⟨k, fl, hk, hfl, _, hlast⟩ :=
      h [(.add [1] 1 1, (.success, none)), (.add [1] 2 2, (.success, none))] [] _ _ _ _ _ rfl rfl
    obtain rfl := Option.some.inj hk
    obtain rfl := Option.some.inj hfl
    simp [lastFlags, record] at hlast

end Razorback.LocalCache
