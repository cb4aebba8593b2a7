import Razorback.LocalCache.Leaking

/-! Removals. `removeLocalEntry` takes an entry out of its list and frees its key. The counter of the list still counts
the entry, and its slot, which no insertion takes again, stays in the way of every later scan with the freed key. -/

namespace Razorback.LocalCache
open Runs Function

inductive Request
  | call (op : Op)
  | remove (beyond : ℕ → ℕ → UInt8) (key : Option Bytes)

def requestLocal (t : CacheType) (q : Request) (cs : Caches) : Except Fault (CheckResult × Caches) :=
  match q with
  | .call op => call t op cs
  | .remove beyond key => (removeLocalEntry beyond key t cs).map fun p => ((p.1, none), p.2)

def request (q : Request) (c : Cache) : Except Fault (CheckResult × Cache) :=
  match q with
  | .call op => callIn op c
  | .remove beyond (some key) => (removeIn beyond key c).map fun p => ((p.1, none), p.2)
  | .remove _ none => .ok ((.error, none), c)

/-- The call meets no trace of a removal. -/
def Undisturbed (q : Request) (c : Cache) : Prop :=
  match q with
  | .call (.add _ _ _) => Insertable c
  | .call (.check beyond (some key) (some _) (some _)) =>
    NoFreedKey beyond key c ∧ ∀ x, findEntry beyond key c = .ok (some x) → Hittable x c
  | .call (.update beyond (some key) _ _) | .remove beyond (some key) => NoFreedKey beyond key c
  | _ => True

section
variable {c c' : Cache} {d : Dir} {lost : ListType → ℕ} {x : ℕ} {beyond : ℕ → ℕ → UInt8} {key : Bytes}
  {t : CacheType}

theorem request_inv (hq : request q c = .ok (r, c')) :
    c' = c ∨ (∃ x, x < c.entries ∧ (c.entrylist x).listtype ≠ .none ∧ hitEntry x c = .ok c') ∨
    (∃ x sf ent, c' = c.modify x fun e => { e with sfflags := sf, entflags := ent }) ∨
    (∃ key sf ent r, addIn true key sf ent c = .ok (r, c')) ∨
    ∃ beyond key x r, findEntry beyond key c = .ok (some x) ∧ removeIn beyond key c = .ok (r, c') := by
  cases q with
  | call op =>
    cases callIn_called hq with
    | add ha => exact .inr (.inr (.inr (.inl ⟨_, _, _, _, ha⟩)))
    | @hit _ _ _ _ x _ hf hl hh => exact .inr (.inl ⟨x, findEntry_lt hf, hl, hh⟩)
    | @updated _ _ sf ent x hf => exact .inr (.inr (.inl ⟨x, sf, ent, rfl⟩))
    | unchecked | unmatched => exact .inl rfl
  | remove beyond key =>
    cases key with
    | none => exact .inl (ok_inj hq).2.symm
    | some key =>
      obtain ⟨p, hr, hp⟩ := map_eq_ok.mp hq
      cases hp
      obtain ⟨found, hf, hfound⟩ := bind_eq_ok.mp hr
      cases found with
      | none => exact .inl (ok_inj hfound).2.symm
      | some x => exact .inr (.inr (.inr (.inr ⟨beyond, key, x, p.1, hf, hr⟩)))

theorem Leaking.request (h : Leaking lost c d) (hq : request q c = .ok (r, c')) :
    ∃ lost' d', Leaking lost' c' d' ∧ ∀ l, lost l ≤ lost' l := by
  rcases request_inv hq with rfl | ⟨x, hx, hl, hhit⟩ | ⟨x, sf, ent, rfl⟩ | ⟨key, sf, ent, r, ha⟩ | ⟨beyond, key, x, r, hf, hr⟩
  · exact ⟨lost, d, h, fun _ => le_rfl⟩
  · by_cases hh : Hittable x c
    · obtain ⟨c₁, d₁, hhit', hleak⟩ := (h.hit hx hl).1 hh
      obtain rfl := Except.ok.inj (hhit.symm.trans hhit')
      exact ⟨lost, d₁, hleak, fun _ => le_rfl⟩
    · cases hhit.symm.trans ((h.hit hx hl).2 hh)
  · refine ⟨lost, d, h.of_keys (h.shows.modify x fun _ => ⟨rfl, rfl, rfl⟩) h.counted fun i hi => ?_, fun _ => le_rfl⟩
    exact .inl ⟨hi, modify_field Entry.key rfl i, .rfl⟩
  · by_cases hins : Insertable c
    · obtain ⟨c₁, d₁, ha', hleak⟩ := (h.add key sf ent).1 hins
      obtain ⟨-, rfl⟩ := ok_inj (ha.symm.trans ha')
      exact ⟨lost, d₁, hleak, fun _ => le_rfl⟩
    · obtain ⟨e, he⟩ := (h.add key sf ent).2 hins
      cases ha.symm.trans he
  · by_cases hl : (c.entrylist x).listtype = .none
    · obtain ⟨e, he⟩ := removeIn_freed hf (h.freed x (findEntry_lt hf) hl)
      cases hr.symm.trans he
    · obtain ⟨c₁, d₁, hr', _, hleak⟩ := h.remove (findEntry_lt hf) hl hf
      obtain ⟨-, rfl⟩ := ok_inj (hr.symm.trans hr')
      refine ⟨_, d₁, hleak, fun m => ?_⟩
      by_cases hm : m = (c.entrylist x).listtype
      · rw [hm, update_self]
        exact Nat.le_succ _
      · rw [update_of_ne hm]

theorem addIn_freed (ha : addIn true key sf ent c = .ok (r, c'))
    (hi : i < c.entries) (hk : (c.entrylist i).key = .freed) :
    i < c'.entries ∧ (c'.entrylist i).key = .freed := by
  obtain ⟨x, c₂, ho, _, hother, hent⟩ := addIn_inv ha
  -- before it takes a slot the insertion frees its key, which would be the second time
  have hix : i ≠ x := by
    rintro rfl
    rw [addIn_eq, ho, ok_bind] at ha
    simp only [bind_eq_ok] at ha
    obtain ⟨k, hfree, _⟩ := ha
    rw [filled_key] at hfree
    rcases obtainEntry_cases ho with hkeep | ⟨hx, _⟩
    · rw [key_eq_of_payload (hkeep.payload i), hk] at hfree
      cases hfree
    · omega
  refine ⟨by rcases hent with he | ⟨he, _⟩ <;> omega, ?_⟩
  rw [key_eq_of_payload (hother i hix)]
  exact hk

theorem Leaking.request_freed (h : Leaking lost c d) (hq : LocalCache.request q c = .ok (r, c')) (hi : i < c.entries) (hk : (c.entrylist i).key = .freed) : i < c'.entries ∧ (c'.entrylist i).key = .freed := by
  rcases request_inv hq with rfl | ⟨x, _, _, hhit⟩ | ⟨x, sf, ent, rfl⟩ | ⟨key, sf, ent, r, ha⟩ | ⟨beyond, key, x, r, hf, hr⟩
  · exact ⟨hi, hk⟩
  · have hkeep := hitEntry_keeps hhit
    exact ⟨hkeep.entries.symm ▸ hi, (key_eq_of_payload (hkeep.payload i)).trans hk⟩
  · exact ⟨hi, (modify_field Entry.key rfl i).trans hk⟩
  · exact addIn_freed ha hi hk
  · by_cases hl : (c.entrylist x).listtype = .none
    · obtain ⟨e, he⟩ := removeIn_freed hf (h.freed x (findEntry_lt hf) hl)
      cases hr.symm.trans he
    · obtain ⟨c₁, _, hr', hremoved, _⟩ := h.remove (findEntry_lt hf) hl hf
      obtain ⟨-, rfl⟩ := ok_inj (hr.symm.trans hr')
      refine ⟨hremoved.entries.symm ▸ hi, ?_⟩
      by_cases hix : i = x
      · rw [hix]
        exact hremoved.freed
      · exact (key_eq_of_payload (hremoved.others i hix)).trans hk

/-! ### What is stored -/

abbrev Contents := ℕ → Option (Bytes × UInt32 × UInt32)

def content : ℕ × KeyPtr × UInt32 × UInt32 → Option (Bytes × UInt32 × UInt32)
  | (_, .live bytes, sf, ent) => some (bytes, sf, ent)
  | _ => none

def contents (c : Cache) : Contents := fun i => if i < c.entries then content (payload (c.entrylist i)) else none

def Agrees (beyond : ℕ → ℕ → UInt8) (key : Bytes) (m : Contents) (i : ℕ) : Prop :=
  ∃ bytes fl, m i = some (bytes, fl) ∧ memcmpEq (beyond i) (.live bytes) key = .ok true

def Looks (beyond : ℕ → ℕ → UInt8) (key : Bytes) (m : Contents) : Option ℕ → Prop
  | none => ∀ i, ¬Agrees beyond key m i
  | some i => Agrees beyond key m i ∧ ∀ j < i, ¬Agrees beyond key m j

/-- What the calls are on a cache as such, which is what it stores. An insertion may drop an older entry. -/
def Plain (q : Request) (r : CheckResult) (m m' : Contents) : Prop :=
  match q with
  | .call (.add key sf ent) => r = (.success, none) ∧ ∃ i, m' = Function.update m i (some (key, sf, ent))
  | .call (.check beyond (some key) (some _) (some _)) => m' = m ∧
    (Looks beyond key m none ∧ r = (.notFound, none) ∨
      ∃ i bytes fl, Looks beyond key m (some i) ∧ m i = some (bytes, fl) ∧ r = (.found, some fl))
  | .call (.update beyond (some key) sf ent) =>
    Looks beyond key m none ∧ r = (.notFound, none) ∧ m' = m ∨
      ∃ i bytes fl, Looks beyond key m (some i) ∧ m i = some (bytes, fl) ∧ r = (.success, none) ∧
        m' = Function.update m i (some (bytes, sf, ent))
  | .remove beyond (some key) =>
    Looks beyond key m none ∧ r = (.notFound, none) ∧ m' = m ∨
      ∃ i, Looks beyond key m (some i) ∧ r = (.success, none) ∧ m' = Function.update m i none
  | _ => r = (.error, none) ∧ m' = m

theorem contents_live (hx : x < c.entries) (hb : (c.entrylist x).key = .live bytes) :
    contents c x = some (bytes, (c.entrylist x).sfflags, (c.entrylist x).entflags) := by
  rw [contents, if_pos hx, payload, hb]
  rfl

theorem contents_keeps (h : Keeps c c') : contents c' = contents c := by
  funext i
  rw [contents, contents, h.entries, h.payload i]

theorem contents_update (hx : x < c'.entries) (hp : payload (c'.entrylist x) = p)
    (hother : ∀ i, i ≠ x → payload (c'.entrylist i) = payload (c.entrylist i))
    (hent : ∀ i, i ≠ x → (i < c'.entries ↔ i < c.entries)) :
    contents c' = Function.update (contents c) x (content p) := by
  funext i
  by_cases hix : i = x
  · subst hix
    rw [update_self, contents, if_pos hx, hp]
  · rw [update_of_ne hix, contents, contents, hother i hix]
    by_cases hi : i < c.entries
    · rw [if_pos hi, if_pos ((hent i hix).mpr hi)]
    · rw [if_neg hi, if_neg fun hi' => hi ((hent i hix).mp hi')]

theorem Removed.contents (h : Removed x c c') (hx : x < c.entries) :
    LocalCache.contents c' = Function.update (LocalCache.contents c) x none := by
  have hnone : content (payload (c'.entrylist x)) = none := by
    rw [payload, h.freed]
    rfl
  rw [← hnone]
  exact contents_update (h.entries.symm ▸ hx) rfl h.others fun _ _ => by rw [h.entries]

theorem agrees_iff : Agrees beyond key (contents c) i ↔
    i < c.entries ∧ SlotMatches beyond key c i ∧ ∃ bytes, (c.entrylist i).key = .live bytes := by
  constructor
  · rintro ⟨bytes, fl, hc, hm⟩
    by_cases hi : i < c.entries
    · rw [contents, if_pos hi, payload] at hc
      cases hk : (c.entrylist i).key with
      | live bytes' =>
        rw [hk] at hc
        obtain ⟨rfl, -⟩ := Prod.mk.inj (Option.some.inj hc)
        exact ⟨hi, by rw [SlotMatches, hk]; exact hm, bytes', rfl⟩
      | null | freed =>
        rw [hk] at hc
        cases hc
    · rw [contents, if_neg hi] at hc
      cases hc
  · rintro ⟨hi, hm, bytes, hb⟩
    refine ⟨bytes, _, contents_live hi hb, ?_⟩
    rw [SlotMatches, hb] at hm
    exact hm

theorem looks_none (h : ∀ j < c.entries, memcmpEq (beyond j) (c.entrylist j).key key = .ok false) :
    Looks beyond key (contents c) none := by
  intro i hi
  obtain ⟨hlt, hm, _⟩ := agrees_iff.mp hi
  cases hm.symm.trans (h i hlt)

theorem looks_some (hreach : Reaches beyond key c x) (hm : SlotMatches beyond key c x)
    (hb : (c.entrylist x).key = .live bytes) : Looks beyond key (contents c) (some x) := by
  refine ⟨agrees_iff.mpr ⟨hreach.1, hm, bytes, hb⟩, fun j hj ha => ?_⟩
  obtain ⟨-, hmj, -⟩ := agrees_iff.mp ha
  cases hmj.symm.trans (hreach.2 j hj)

/-! ### Calls that meet no trace of a removal -/

section
variable (h : Leaking lost c d)
include h

theorem Leaking.check_plain
    (hq : Undisturbed (.call (.check beyond (some key) (some sf) (some ent))) c) :
    ∃ r c', checkIn beyond key c = .ok (r, c') ∧
      Plain (.call (.check beyond (some key) (some sf) (some ent))) r (contents c) (contents c') := by
  obtain ⟨hkeys, hhits⟩ := hq
  rcases h.find hkeys with ⟨hf, hall⟩ | ⟨x, hreach, hm, hf, hl, bytes, hb⟩
  · exact ⟨(.notFound, none), c, by rw [checkIn, hf]; rfl, rfl, .inl ⟨looks_none hall, rfl⟩⟩
  · obtain ⟨c', d', hhit, _⟩ := (h.hit hreach.1 hl).1 (hhits x hf)
    have hkeep := hitEntry_keeps hhit
    obtain ⟨hsf, hent⟩ := flags_of_payload (hkeep.payload x)
    refine ⟨(.found, some ((c.entrylist x).sfflags, (c.entrylist x).entflags)), c', ?_, contents_keeps hkeep, .inr
      ⟨x, bytes, _, looks_some hreach hm hb, contents_live hreach.1 hb, rfl⟩⟩
    rw [checkIn, hf, ok_bind]
    dsimp only
    rw [if_neg hl, hhit, ← hsf, ← hent]
    rfl

theorem Leaking.update_plain (sf ent : UInt32) (hkeys : NoFreedKey beyond key c) :
    ∃ r c', updateIn beyond key sf ent c = .ok (r, c') ∧
      Plain (.call (.update beyond (some key) sf ent)) (r, none) (contents c) (contents c') := by
  rcases h.find hkeys with ⟨hf, hall⟩ | ⟨x, hreach, hm, hf, hl, bytes, hb⟩
  · exact ⟨.notFound, c, by rw [updateIn, hf]; rfl, .inl ⟨looks_none hall, rfl, rfl⟩⟩
  · refine ⟨.success, _, by rw [updateIn, hf]; rfl, .inr ⟨x, bytes, _, looks_some hreach hm hb, contents_live hreach.1 hb, rfl, ?_⟩⟩
    refine contents_update (p := ((c.entrylist x).size, .live bytes, sf, ent)) hreach.1 ?_
      (fun i hi => by rw [modify_of_ne _ hi]) fun _ _ => .rfl
    rw [modify_self, payload, hb]

theorem Leaking.remove_plain (hkeys : NoFreedKey beyond key c) :
    ∃ r c', removeIn beyond key c = .ok (r, c') ∧
      Plain (.remove beyond (some key)) (r, none) (contents c) (contents c') := by
  rcases h.find hkeys with ⟨hf, hall⟩ | ⟨x, hreach, hm, hf, hl, bytes, hb⟩
  · exact ⟨.notFound, c, by rw [removeIn, hf]; rfl, .inl ⟨looks_none hall, rfl, rfl⟩⟩
  · obtain ⟨c', d', hr, hremoved, _⟩ := h.remove hreach.1 hl hf
    exact ⟨.success, c', hr, .inr ⟨x, looks_some hreach hm hb, rfl, hremoved.contents hreach.1⟩⟩

theorem Leaking.add_plain (key : Bytes) (sf ent : UInt32) (hins : Insertable c) :
    ∃ c', addIn true key sf ent c = .ok (.success, c') ∧
      ∃ x, contents c' = Function.update (contents c) x (some (key, sf, ent)) := by
  obtain ⟨y, c₁, d₁, ho, _, hs, hfree, hkey⟩ := h.obtain.1 hins
  have ha := addIn_filled ho hkey true key sf ent
  obtain ⟨x, c₂, ho', hx, hother, hent⟩ := addIn_inv ha
  obtain ⟨rfl, rfl⟩ := ok_inj (ho.symm.trans ho')
  refine ⟨_, ha, y, contents_update ?_ hx hother fun i hi => ?_⟩
  · have hkeep := (addMRU_keeps y .t1 c₁).entries
    exact hkeep.symm ▸ (hs.unlisted hfree).1
  · rcases hent with he | ⟨he, rfl⟩ <;> omega

theorem Leaking.undisturbed (q : Request) (hq : Undisturbed q c) :
    ∃ r c', LocalCache.request q c = .ok (r, c') ∧ Plain q r (contents c) (contents c') := by
  cases q with
  | call op =>
    cases op with
    | add key sf ent =>
      obtain ⟨c', ha, hplain⟩ := h.add_plain key sf ent hq
      exact ⟨_, c', by rw [LocalCache.request, callIn, ha]; rfl, rfl, hplain⟩
    | check beyond key sf ent =>
      cases key <;> cases sf <;> cases ent
      case some.some.some key sf ent => exact h.check_plain hq
      all_goals exact ⟨_, c, rfl, rfl, rfl⟩
    | update beyond key sf ent =>
      cases key with
      | none => exact ⟨_, c, rfl, rfl, rfl⟩
      | some key =>
        obtain ⟨r, c', hu, hplain⟩ := h.update_plain sf ent hq
        exact ⟨_, c', by rw [LocalCache.request, callIn, hu]; rfl, hplain⟩
  | remove beyond key =>
    cases key with
    | none => exact ⟨_, c, rfl, rfl, rfl⟩
    | some key =>
      obtain ⟨r, c', hr, hplain⟩ := h.remove_plain hq
      exact ⟨_, c', by rw [LocalCache.request, hr]; rfl, hplain⟩

end

def NamesKey : Request → Prop
  | .call (.check _ (some key) _ _) | .call (.update _ (some key) _ _) | .remove _ (some key) => key ≠ []
  | _ => True

theorem Leaking.disturbed (h : Leaking lost c d) (q : Request) (hne : NamesKey q) (hq : ¬Undisturbed q c) :
    ∃ e, LocalCache.request q c = .error e := by
  cases q with
  | call op =>
    cases op with
    | add key sf ent =>
      obtain ⟨e, he⟩ := (h.add key sf ent).2 hq
      exact ⟨e, by rw [LocalCache.request, callIn, he]; rfl⟩
    | check beyond key sf ent =>
      cases key <;> cases sf <;> cases ent
      case some.some.some key sf ent =>
        change ∃ e, checkIn beyond key c = .error e
        by_cases hkeys : NoFreedKey beyond key c
        · obtain ⟨x, hx⟩ := not_forall.mp fun hhits => hq ⟨hkeys, hhits⟩
          obtain ⟨hf, hhit⟩ := Classical.not_imp.mp hx
          rcases h.find hkeys with ⟨hf', _⟩ | ⟨y, hreach, _, hf', hl, _⟩
          · cases hf.symm.trans hf'
          · obtain rfl := Option.some.inj (Except.ok.inj (hf.symm.trans hf'))
            refine ⟨.purgeEmpty, ?_⟩
            rw [checkIn, hf, ok_bind]
            dsimp only
            rw [if_neg hl, (h.hit hreach.1 hl).2 hhit]
            rfl
        · exact ⟨_, by rw [checkIn, findEntry_disturbed hne hkeys]; rfl⟩
      all_goals exact absurd trivial hq
    | update beyond key sf ent =>
      cases key with
      | none => exact absurd trivial hq
      | some key => exact ⟨_, by rw [LocalCache.request, callIn, updateIn, findEntry_disturbed hne hq]; rfl⟩
  | remove beyond key =>
    cases key with
    | none => exact absurd trivial hq
    | some key => exact ⟨_, by rw [LocalCache.request, removeIn, findEntry_disturbed hne hq]; rfl⟩

/-! ### Runs -/

theorem Leaking.init (junk : ℕ → Entry) (n : ℕ) :
    Leaking (fun _ => 0) (initCache junk n) (dirOf (initCache junk n) fun _ => []) :=
  ⟨(Rep.init junk n).shows, ⟨fun _ _ => rfl, rfl, Nat.zero_le _⟩, fun i hi => absurd hi (Nat.not_lt_zero i),
    fun i hi => absurd hi (Nat.not_lt_zero i)⟩

variable {qs : List Request} {rs : List CheckResult}

theorem run_leaking (h : ∃ d, Leaking lost c d)
    (hr : run request qs c = .ok (rs, c')) : ∃ lost' d', Leaking lost' c' d' ∧ ∀ l, lost l ≤ lost' l := by
  obtain ⟨d, hls⟩ := h
  refine run_keeps (I := fun s => ∃ lost' d', Leaking lost' s d' ∧ ∀ l, lost l ≤ lost' l) (fun q s r s' hs hq => ?_)
    ⟨lost, d, hls, fun _ => le_rfl⟩ hr
  obtain ⟨lost₁, d₁, hleak, hle⟩ := hs
  obtain ⟨lost₂, d₂, hleak', hle'⟩ := hleak.request hq
  exact ⟨lost₂, d₂, hleak', fun l => (hle l).trans (hle' l)⟩

theorem run_freed (h : Leaking lost c d) (hi : i < c.entries)
    (hk : (c.entrylist i).key = .freed) (hr : run request qs c = .ok (rs, c')) :
    i < c'.entries ∧ (c'.entrylist i).key = .freed := by
  refine (run_keeps (I := fun s => (∃ lost d, Leaking lost s d) ∧ i < s.entries ∧ (s.entrylist i).key = .freed)
    (fun q s r s' hs hq => ?_) ⟨⟨lost, d, h⟩, hi, hk⟩ hr).2
  obtain ⟨⟨lost, d, hleak⟩, hi, hk⟩ := hs
  obtain ⟨lost', d', hleak', _⟩ := hleak.request hq
  exact ⟨⟨lost', d', hleak'⟩, hleak.request_freed hq hi hk⟩

theorem run_undisturbed (h : Leaking lost c d) (hqs : Along Undisturbed request qs c) :
    ∃ rs c', run request qs c = .ok (rs, c') ∧ Follows Plain qs rs (contents c) (contents c') := by
  refine run_follows (I := fun s => ∃ lost d, Leaking lost s d) (fun q s hs hq => ?_) ⟨lost, d, h⟩ hqs
  obtain ⟨lost, d, hleak⟩ := hs
  obtain ⟨r, s', hr, hplain⟩ := hleak.undisturbed q hq
  obtain ⟨lost', d', hleak', _⟩ := hleak.request hr
  exact ⟨r, s', hr, ⟨lost', d', hleak'⟩, hplain⟩

theorem along_undisturbed (h : Leaking lost c d)
    (hr : run request qs c = .ok (rs, c')) : Along (fun q s => NamesKey q → Undisturbed q s) request qs c := by
  refine along_of_run (I := fun s => ∃ lost d, Leaking lost s d) (fun q s r s' hs hq => ?_) (fun q s hs hnot => ?_)
    ⟨lost, d, h⟩ hr
  · obtain ⟨lost, d, hleak⟩ := hs
    obtain ⟨lost', d', hleak', _⟩ := hleak.request hq
    exact ⟨lost', d', hleak'⟩
  · obtain ⟨lost, d, hleak⟩ := hs
    obtain ⟨hne, hq⟩ := Classical.not_imp.mp hnot
    exact hleak.disturbed q hne hq

/-! ### After a removal -/

theorem Removed.key_eq (h : Removed x c c') (hi : i ≠ x) : (c'.entrylist i).key = (c.entrylist i).key :=
  key_eq_of_payload (h.others i hi)

theorem Removed.reaches (h : Removed x c c') (hyx : y ≤ x) (hreach : Reaches beyond key c y) :
    Reaches beyond key c' y := by
  refine ⟨h.entries.symm ▸ hreach.1, fun i hi => ?_⟩
  rw [h.key_eq (Nat.ne_of_lt (Nat.lt_of_lt_of_le hi hyx))]
  exact hreach.2 i hi

theorem Removed.find (h : Removed x c c') (hyx : y < x) (hf : findEntry beyond key c = .ok (some y)) :
    findEntry beyond key c' = .ok (some y) := by
  rcases findEntry_cases beyond key c with ⟨hf', _⟩ | ⟨z, hreach, ⟨hm, hf'⟩ | ⟨e, _, hf'⟩⟩
  · cases hf.symm.trans hf'
  · obtain rfl := Option.some.inj (Except.ok.inj (hf.symm.trans hf'))
    refine findEntry_some_of_reaches (h.reaches hyx.le hreach) ?_
    rw [SlotMatches, h.key_eq hyx.ne]
    exact hm
  · cases hf.symm.trans hf'

end

/-- The removal of a present entry takes it out of its list and leaves all other data and all counters alone. From then on
the counter of the list is ahead of it, the slot is never used again, and whatever scan comes to it reads the freed key.
The runs that meet neither the slot nor the wrong counters are those of a cache without the entry. -/
theorem removal_keeps_others {junk : ℕ → Entry} {n : ℕ} {before : List Request} {rs : List CheckResult} {c : Cache}
    (hreach : run request before (initCache junk n) = .ok (rs, c)) {beyond : ℕ → ℕ → UInt8} {key : Bytes} {x : ℕ}
    (hfind : findEntry beyond key c = .ok (some x)) (hpresent : (c.entrylist x).listtype ≠ .none) :
    ∃ c', removeIn beyond key c = .ok (.success, c') ∧ Removed x c c' ∧
      (∀ beyond' key' y, findEntry beyond' key' c = .ok (some y) → y < x → findEntry beyond' key' c' = .ok (some y)) ∧
      (∀ beyond' key', key' ≠ [] → Reaches beyond' key' c x → findEntry beyond' key' c' = .error .useAfterFree) ∧
      ∀ qs,
        (Along Undisturbed request qs c' → ∃ rs' c₂, run request qs c' = .ok (rs', c₂) ∧
          Follows Plain qs rs' (Function.update (contents c) x none) (contents c₂)) ∧
        ∀ rs' c₂, run request qs c' = .ok (rs', c₂) →
          Along (fun q s => NamesKey q → Undisturbed q s) request qs c' ∧
          (c₂.entrylist x).key = .freed ∧ (∀ l, l ≠ .none → x ∉ walk c₂ l) ∧
          (walk c₂ (c.entrylist x).listtype).length < c₂.listSize (c.entrylist x).listtype := by
  obtain ⟨lost, d, hleak, _⟩ := run_leaking ⟨_, Leaking.init junk n⟩ hreach
  have hx := findEntry_lt hfind
  obtain ⟨c', d', hr, hremoved, hleak'⟩ := hleak.remove hx hpresent hfind
  have hx' : x < c'.entries := hremoved.entries.symm ▸ hx
  refine ⟨c', hr, hremoved, fun beyond' key' y hf hyx => hremoved.find hyx hf, fun beyond' key' hne hxr => ?_,
    fun qs => ⟨fun hqs => ?_, fun rs' c₂ hrun => ?_⟩⟩
  · exact findEntry_freed hne (hremoved.reaches le_rfl hxr) hremoved.freed
  · obtain ⟨rs', c₂, hrun, hfollows⟩ := run_undisturbed hleak' hqs
    rw [hremoved.contents hx] at hfollows
    exact ⟨rs', c₂, hrun, hfollows⟩
  · obtain ⟨hlt, hfreed⟩ := run_freed hleak' hx' hremoved.freed hrun
    obtain ⟨lost₂, d₂, hleak₂, hle⟩ := run_leaking ⟨_, hleak'⟩ hrun
    refine ⟨along_undisturbed hleak' hrun, hfreed, fun l hl hin => ?_, ?_⟩
    · rw [hleak₂.walk_eq hl] at hin
      have hmem := (hleak₂.shows.rep.mem l hl x).mp hin
      obtain ⟨bytes, hb⟩ := hleak₂.live x hmem.1 (by rw [hmem.2]; exact hl)
      cases hb.symm.trans hfreed
    · have hcount := hle (c.entrylist x).listtype
      rw [update_self] at hcount
      rw [hleak₂.walk_eq hpresent, hleak₂.shows.listSize, hleak₂.counted.counts _ hpresent]
      omega

/-- A lookup of the key in the slot before the removed one. -/
theorem removal_keeps_others_first : ∃ rs c c' rs' c₂,
    run request [.call (.add [5] 7 8), .call (.add [1] 0 0)] (initCache (fun _ => blankEntry) 2) = .ok (rs, c) ∧
    removeIn (fun _ _ => 0) [1] c = .ok (.success, c') ∧
    run request [.call (.check (fun _ _ => 0) (some [5]) (some 0) (some 0))] c' = .ok (rs', c₂) ∧
    Follows Plain [.call (.check (fun _ _ => 0) (some [5]) (some 0) (some 0))] rs'
      (Function.update (contents c) 1 none) (contents c₂) := by
  obtain ⟨c', hr, _, _, _, hqs⟩ := @removal_keeps_others (fun _ => blankEntry) 2
    [.call (.add [5] 7 8), .call (.add [1] 0 0)] _ _ rfl (fun _ _ => 0) [1] 1 rfl (by decide)
  obtain ⟨-, rfl⟩ := ok_inj hr
  obtain ⟨rs', c₂, hrun, hfollows⟩ := (hqs [.call (.check (fun _ _ => 0) (some [5]) (some 0) (some 0))]).1 (by
    refine ⟨⟨fun j hj => ?_, fun x hx => ?_⟩, fun _ _ _ => trivial⟩
    · rcases Nat.eq_zero_or_pos j with rfl | hpos
      · exact fun hfreed => nomatch hfreed
      · have hmatch : (Except.ok true : Except Fault Bool) = .ok false := hj.2 0 hpos
        exact absurd (Except.ok.inj hmatch) (by decide)
    · obtain rfl : 0 = x := Option.some.inj (Except.ok.inj hx)
      trivial)
  exact ⟨_, _, _, rs', c₂, rfl, hr, hrun, hfollows⟩

/-- After the removal of the first of two entries a lookup of either reads the freed key and the counter still counts
both, and in a cache of one slot the next insertion finds nothing to purge. -/
theorem removal_traces :
    (∃ cs, run (requestLocal .goodHash) [.call (.add [1] 5 6), .call (.add [2] 7 8), .remove (fun _ _ => 0) (some [1])]
        (initcache (fun _ _ => blankEntry) 2 2) = .ok ([(.success, none), (.success, none), (.success, none)], cs) ∧
      requestLocal .goodHash (.call (.check (fun _ _ => 0) (some [1]) (some 0) (some 0))) cs = .error .useAfterFree ∧
      requestLocal .goodHash (.call (.check (fun _ _ => 0) (some [2]) (some 0) (some 0))) cs = .error .useAfterFree ∧
      (cs .goodHash).listSize .t1 = 2 ∧ walk (cs .goodHash) .t1 = [1]) ∧
    run (requestLocal .goodHash) [.call (.add [1] 5 6), .remove (fun _ _ => 0) (some [1]), .call (.add [2] 7 8)]
      (initcache (fun _ _ => blankEntry) 1 1) = .error .purgeEmpty :=
  ⟨⟨_, rfl, rfl, rfl, rfl, rfl⟩, rfl⟩

end Razorback.LocalCache
