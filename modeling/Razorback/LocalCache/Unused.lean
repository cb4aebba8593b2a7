import Razorback.LocalCache.Keys

/-! Caches that answer every run alike. The slots of `entrylist` at and above `entries` come from `malloc` or from before
a clear, and no call reads one before `getNewEntry` has blanked it; nor do the lists depend on the keys. Two caches with
the same directory therefore answer alike as long as their scans compare alike. -/

namespace Razorback.LocalCache
open Runs

/-- The scan of `FindEntry` comes to slot `j`. -/
def Reaches (beyond : ℕ → ℕ → UInt8) (key : Bytes) (c : Cache) (j : ℕ) : Prop :=
  j < c.entries ∧ ∀ i < j, memcmpEq (beyond i) (c.entrylist i).key key = .ok false

def callMallocIn (mallocOk : Bool) (op : Op) (c : Cache) : Except Fault (CheckResult × Cache) :=
  match op with
  | .add key sf ent => (addIn mallocOk key sf ent c).map fun p => ((p.1, none), p.2)
  | op => callIn op c

def Op.lookup : Op → Option ((ℕ → ℕ → UInt8) × Bytes)
  | .check beyond (some key) (some _) (some _) | .update beyond (some key) _ _ => some (beyond, key)
  | _ => none

structure KeyRel (K : KeyPtr → KeyPtr → Prop) : Prop where
  refl : ∀ k, K k k
  free : ∀ k k', K k k' → Related (fun _ _ => True) (freeKey k) (freeKey k')

structure Alike (K : KeyPtr → KeyPtr → Prop) (c d : Cache) : Prop where
  shows : ∃ D, Shows c D ∧ Shows d D
  flags : ∀ i < c.entries, (c.entrylist i).sfflags = (d.entrylist i).sfflags ∧
    (c.entrylist i).entflags = (d.entrylist i).entflags
  keys : ∀ i < c.entries, K (c.entrylist i).key (d.entrylist i).key

section
variable {K : KeyPtr → KeyPtr → Prop} {c d c' d' : Cache} {x : ℕ} {key : Bytes} {beyond : ℕ → ℕ → UInt8}

section
variable (h : Alike K c d)
include h

theorem Alike.entries : c.entries = d.entries := by
  obtain ⟨D, hc, hd⟩ := h.shows
  exact hc.entries.trans hd.entries.symm

theorem Alike.listed_iff (hx : x < c.entries) :
    (c.entrylist x).listtype = .none ↔ (d.entrylist x).listtype = .none := by
  obtain ⟨D, hc, hd⟩ := h.shows
  rw [← not_iff_not, ← ne_eq, ← hc.has_iff hx, hd.has_iff (h.entries ▸ hx)]

theorem Alike.keeps (hc : Keeps c c') (hd : Keeps d d') (hs : ∃ D, Shows c' D ∧ Shows d' D) :
    Alike K c' d' := by
  refine ⟨hs, fun i hi => ?_, fun i hi => ?_⟩
  · rw [(flags_of_payload (hc.payload i)).1, (flags_of_payload (hc.payload i)).2, (flags_of_payload (hd.payload i)).1,
      (flags_of_payload (hd.payload i)).2]
    exact h.flags i (hc.entries ▸ hi)
  · rw [key_eq_of_payload (hc.payload i), key_eq_of_payload (hd.payload i)]
    exact h.keys i (hc.entries ▸ hi)

theorem Alike.hit (hx : x < c.entries) (hl : (c.entrylist x).listtype ≠ .none) :
    Related (Alike K) (hitEntry x c) (hitEntry x d) := by
  obtain ⟨D, hc, hd⟩ := h.shows
  have hin := (hc.rep.mem _ hl x).mpr ⟨hx, rfl⟩
  exact ((hit_related hc hl hin).join (hit_related hd hl hin)).of_ok fun c' d' hD hc' hd' =>
    h.keeps (hitEntry_keeps hc') (hitEntry_keeps hd') hD

theorem Alike.obtain (hK : KeyRel K) : Related (fun p q => p.1 = q.1 ∧ Alike K p.2 q.2 ∧
      ∃ D, Shows p.2 D ∧ Shows q.2 D ∧ D.Free p.1) (obtainEntry c) (obtainEntry d) := by
  obtain ⟨D, hc, hd⟩ := h.shows
  refine ((obtain_related hc).join (obtain_related hd)).of_ok fun p q hD hp hq => ?_
  obtain ⟨x, c'⟩ := p
  obtain ⟨y, d'⟩ := q
  obtain ⟨⟨z, E⟩, ⟨hx, hc', hfree⟩, hy, hd', _⟩ := hD
  dsimp only at hx hy hc' hd' hfree
  subst hx hy
  refine ⟨rfl, ?_, E, hc', hd', hfree⟩
  have hent := h.entries
  have hent' := hc'.entries.trans hd'.entries.symm
  -- both take an old slot or both take a new one, as their numbers of entries agree
  rcases obtainEntry_cases hp with hk | ⟨_, hgrown, hnew, hother⟩
  · rcases obtainEntry_cases hq with hk' | ⟨_, hgrown', _, _⟩
    · exact h.keeps hk hk' ⟨E, hc', hd'⟩
    · have := hk.entries
      omega
  · rcases obtainEntry_cases hq with hk' | ⟨_, _, hnew', hother'⟩
    · have := hk'.entries
      omega
    · have hold : ∀ i < c'.entries, i ≠ y → i < c.entries := by omega
      refine ⟨⟨E, hc', hd'⟩, fun i hi => ?_, fun i hi => ?_⟩
      · by_cases hix : i = y
        · subst hix
          exact ⟨(flags_of_payload (hnew.trans hnew'.symm)).1, (flags_of_payload (hnew.trans hnew'.symm)).2⟩
        · rw [(flags_of_payload (hother i hix)).1, (flags_of_payload (hother i hix)).2,
            (flags_of_payload (hother' i hix)).1, (flags_of_payload (hother' i hix)).2]
          exact h.flags i (hold i hi hix)
      · by_cases hix : i = y
        · subst hix
          rw [key_eq_of_payload (hnew.trans hnew'.symm)]
          exact hK.refl _
        · rw [key_eq_of_payload (hother i hix), key_eq_of_payload (hother' i hix)]
          exact h.keys i (hold i hi hix)

theorem Alike.modify (x : ℕ) (hf : KeepsPlace f)
    (hflags : ∀ e e', e.sfflags = e'.sfflags ∧ e.entflags = e'.entflags →
      (f e).sfflags = (f e').sfflags ∧ (f e).entflags = (f e').entflags)
    (hkeys : ∀ e e', K e.key e'.key → K (f e).key (f e').key) : Alike K (c.modify x f) (d.modify x f) := by
  obtain ⟨D, hc, hd⟩ := h.shows
  exact ⟨⟨D, hc.modify x hf, hd.modify x hf⟩, fun i hi => modify_related hflags (h.flags i hi),
    fun i hi => modify_related hkeys (h.keys i hi)⟩

theorem Alike.add (hK : KeyRel K) (mallocOk : Bool) (key : Bytes) (sf ent : UInt32) :
    Related (fun p q => p.1 = q.1 ∧ Alike K p.2 q.2) (addIn mallocOk key sf ent c) (addIn mallocOk key sf ent d) := by
  rw [addIn_eq, addIn_eq]
  refine (h.obtain hK).bind fun p q hpq => ?_
  obtain ⟨x, c₁⟩ := p
  obtain ⟨y, d₁⟩ := q
  obtain ⟨rfl, h₁, D, hc, hd, hfree⟩ := hpq
  have hlt := (hc.unlisted hfree).1
  have hlisted : Alike K ((addMRU x .t1 c₁).setSize .t1 (inc ((addMRU x .t1 c₁).listSize .t1)))
      ((addMRU x .t1 d₁).setSize .t1 (inc ((addMRU x .t1 d₁).listSize .t1))) := by
    refine h₁.keeps ((addMRU_keeps x .t1 c₁).setSize _ _) ((addMRU_keeps x .t1 d₁).setSize _ _) ⟨D.put x .t1, ?_, ?_⟩
    · rw [(addMRU_moves x .t1 c₁).listSize, addMRU_setSize]
      exact put_shows hc (by decide) hfree
    · rw [(addMRU_moves x .t1 d₁).listSize, addMRU_setSize]
      exact put_shows hd (by decide) hfree
  have hfilled : Alike K (filled x key sf ent c₁) (filled x key sf ent d₁) :=
    hlisted.modify x (fun _ => ⟨rfl, rfl, rfl⟩) (fun _ _ _ => ⟨rfl, rfl⟩) fun _ _ hk => hk
  refine (hK.free _ _ (hfilled.keys x ((addMRU_keeps x .t1 c₁).entries.symm ▸ hlt))).bind fun _ _ _ => ?_
  exact ⟨rfl, hfilled.modify (f := fun e => { e with key := if mallocOk then .live key else .null }) x
    (fun _ => ⟨rfl, rfl, rfl⟩) (fun _ _ hfl => hfl) fun _ _ _ => hK.refl _⟩

end

theorem findEntryFrom_congr (hm : i + m = c.entries)
    (hbefore : ∀ j < i, memcmpEq (beyond j) (c.entrylist j).key key = .ok false)
    (hcmp : ∀ j, Reaches beyond key c j →
      memcmpEq (beyond j) (c.entrylist j).key key = memcmpEq (beyond j) (d.entrylist j).key key) :
    findEntryFrom beyond key c m i = findEntryFrom beyond key d m i := by
  induction m generalizing i with
  | zero => rfl
  | succ m ih =>
    rw [findEntryFrom, findEntryFrom, ← hcmp i ⟨by omega, hbefore⟩]
    cases hv : memcmpEq (beyond i) (c.entrylist i).key key with
    | error e => rfl
    | ok b =>
      cases b with
      | true => rfl
      | false =>
        refine ih (by omega) fun j hj => ?_
        rcases Nat.lt_succ_iff_lt_or_eq.mp hj with hj | rfl
        · exact hbefore j hj
        · exact hv

theorem Alike.find_eq (h : Alike K c d) (hcmp : ∀ j, Reaches beyond key c j →
      memcmpEq (beyond j) (c.entrylist j).key key = memcmpEq (beyond j) (d.entrylist j).key key) :
    findEntry beyond key c = findEntry beyond key d := by
  rw [findEntry, findEntry, ← h.entries]
  exact findEntryFrom_congr (Nat.zero_add _) (fun j hj => absurd hj (Nat.not_lt_zero j)) hcmp

theorem Alike.check (h : Alike K c d) (hfind : findEntry beyond key c = findEntry beyond key d) :
    Related (fun p q => p.1 = q.1 ∧ Alike K p.2 q.2) (checkIn beyond key c) (checkIn beyond key d) := by
  rw [checkIn, checkIn, ← hfind]
  cases hf : findEntry beyond key c with
  | error e => exact rfl
  | ok r =>
    cases r with
    | none => exact ⟨rfl, h⟩
    | some x =>
      have hx := findEntry_lt hf
      rw [ok_bind, ok_bind]
      dsimp only
      by_cases hl : (c.entrylist x).listtype = .none
      · rw [if_pos hl, if_pos ((h.listed_iff hx).mp hl)]
        exact ⟨rfl, h⟩
      · rw [if_neg hl, if_neg fun hd => hl ((h.listed_iff hx).mpr hd)]
        have hrel : Related (fun c' d' => Alike K c' d' ∧ c'.entries = c.entries) (hitEntry x c) (hitEntry x d) :=
          (h.hit hx hl).of_ok fun c' d' h' hc' _ => ⟨h', (hitEntry_keeps hc').entries⟩
        refine hrel.bind fun c' d' h' => ⟨?_, h'.1⟩
        obtain ⟨hsf, hent⟩ := h'.1.flags x (h'.2.symm ▸ hx)
        rw [hsf, hent]

theorem Alike.update (h : Alike K c d) (hfind : findEntry beyond key c = findEntry beyond key d) (sf ent : UInt32) :
    Related (fun p q => p.1 = q.1 ∧ Alike K p.2 q.2) (updateIn beyond key sf ent c) (updateIn beyond key sf ent d) := by
  rw [updateIn, updateIn, ← hfind]
  cases findEntry beyond key c with
  | error e => exact rfl
  | ok r =>
    cases r with
    | none => exact ⟨rfl, h⟩
    | some x =>
      exact ⟨rfl, h.modify (f := fun e => { e with sfflags := sf, entflags := ent }) x (fun _ => ⟨rfl, rfl, rfl⟩)
        (fun _ _ _ => ⟨rfl, rfl⟩) fun _ _ hk => hk⟩

theorem Alike.call (h : Alike K c d) (hK : KeyRel K) (mallocOk : Bool) (op : Op)
    (hfind : ∀ p, op.lookup = some p → findEntry p.1 p.2 c = findEntry p.1 p.2 d) :
    Related (fun p q => p.1 = q.1 ∧ Alike K p.2 q.2) (callMallocIn mallocOk op c) (callMallocIn mallocOk op d) := by
  cases op with
  | add key sf ent => exact (h.add hK mallocOk key sf ent).map fun p q hpq => ⟨by rw [hpq.1], hpq.2⟩
  | check beyond key sf ent =>
    cases key <;> cases sf <;> cases ent
    case some.some.some key _ _ => exact h.check (hfind (beyond, key) rfl)
    all_goals exact ⟨rfl, h⟩
  | update beyond key sf ent =>
    cases key with
    | none => exact ⟨rfl, h⟩
    | some key => exact (h.update (hfind (beyond, key) rfl) sf ent).map fun p q hpq => ⟨by rw [hpq.1], hpq.2⟩

end

abbrev Same : Cache → Cache → Prop := Alike Eq

theorem keyRel_eq : KeyRel Eq := by
  refine ⟨fun _ => rfl, ?_⟩
  rintro k _ rfl
  cases k <;> trivial

theorem Shows.init (junk : ℕ → Entry) (n : ℕ) : Shows (initCache junk n) ⟨n, 0, fun _ => 0, n, fun _ => []⟩ :=
  ⟨.init junk n, rfl, rfl, rfl, rfl⟩

theorem Same.init (junk junk' : ℕ → Entry) (n : ℕ) : Same (initCache junk n) (initCache junk' n) :=
  ⟨⟨_, .init junk n, .init junk' n⟩, fun i hi => absurd hi (Nat.not_lt_zero i),
    fun i hi => absurd hi (Nat.not_lt_zero i)⟩

theorem callMallocIn_true (op : Op) (c : Cache) : callMallocIn true op c = callIn op c := by
  cases op <;> rfl

theorem callIn_same (op : Op) (h : Same c d) :
    Related (fun p q => p.1 = q.1 ∧ Same p.2 q.2) (callIn op c) (callIn op d) := by
  rw [← callMallocIn_true, ← callMallocIn_true]
  refine h.call keyRel_eq true op fun p _ => h.find_eq fun j hj => ?_
  rw [h.keys j hj.1]

def callAny (p : CacheType × Op) (cs : Caches) : Except Fault (CheckResult × Caches) :=
  call p.1 p.2 cs

def AllSame (cs ds : Caches) : Prop := ∀ t, t ≠ .all → cs t = ds t ∨ Same (cs t) (ds t)

theorem callIn_alike (op : Op) (h : c = d ∨ Same c d) :
    Related (fun p q => p.1 = q.1 ∧ (p.2 = q.2 ∨ Same p.2 q.2)) (callIn op c) (callIn op d) := by
  rcases h with rfl | h
  · cases callIn op c with
    | error e => rfl
    | ok p => exact ⟨rfl, .inl rfl⟩
  · exact (callIn_same op h).mono fun p q hpq => ⟨hpq.1, .inr hpq.2⟩

theorem call_all (op : Op) (cs : Caches) : call .all op cs = .ok ((.error, none), cs) := by
  cases op <;> rfl

theorem callAny_same (p : CacheType × Op) (cs ds : Caches) (h : AllSame cs ds) :
    Related (fun p q => p.1 = q.1 ∧ AllSame p.2 q.2) (callAny p cs) (callAny p ds) := by
  obtain ⟨t, op⟩ := p
  unfold callAny
  by_cases ht : t = .all
  · rw [ht, call_all, call_all]
    exact ⟨rfl, h⟩
  · rw [call_eq ht, call_eq ht]
    refine (callIn_alike op (h t ht)).map fun a b hab => ⟨hab.1, fun u hu => ?_⟩
    by_cases hut : u = t
    · subst hut
      simpa using hab.2
    · simpa [hut] using h u hu

end Razorback.LocalCache
