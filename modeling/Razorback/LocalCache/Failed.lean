import Razorback.LocalCache.Configured

/-! An insertion whose key buffer cannot be allocated. The entry is in its list by then, with a null key. As long as no
lookup comes to that key, the cache behaves as if the insertion had stored some other key. -/

namespace Razorback.LocalCache
open Runs

/-- A call, with the fate of the allocation of the key buffer if it is an insertion. -/
def callFate (p : Bool × Op) (c : Cache) : Except Fault (CheckResult × Cache) := callMallocIn p.1 p.2 c

def NoNullKey (p : Bool × Op) (c : Cache) : Prop :=
  match p.2 with
  | .check beyond (some key) (some _) (some _) | .update beyond (some key) _ _ =>
    key = [] ∨ ∀ j, Reaches beyond key c j → (c.entrylist j).key ≠ .null
  | _ => True

def StandsIn (k k' : KeyPtr) : Prop := k = k' ∨ k = .null ∧ ∃ bytes, k' = .live bytes

abbrev Supplied : Cache → Cache → Prop := Alike StandsIn

theorem keyRel_standsIn : KeyRel StandsIn := by
  refine ⟨fun _ => .inl rfl, ?_⟩
  rintro k k' (rfl | ⟨rfl, bytes, rfl⟩)
  · cases k <;> trivial
  · trivial

section
variable {c d c' d' : Cache} {x : ℕ} {key : Bytes} {beyond : ℕ → ℕ → UInt8}

theorem NoNullKey.lookup (h : NoNullKey (mallocOk, op) c)
    (hp : op.lookup = some p) : p.2 = [] ∨ ∀ j, Reaches p.1 p.2 c j → (c.entrylist j).key ≠ .null := by
  cases op with
  | add key sf ent => cases hp
  | check beyond key sf ent =>
    cases key <;> cases sf <;> cases ent
    case some.some.some => exact Option.some.inj hp ▸ h
    all_goals cases hp
  | update beyond key sf ent =>
    cases key with
    | none => cases hp
    | some key => exact Option.some.inj hp ▸ h

theorem callFate_supplied (p : Bool × Op) (c d : Cache) (h : Supplied c d) (hkeys : NoNullKey p c) :
    Related (fun p q => p.1 = q.1 ∧ Supplied p.2 q.2) (callFate p c) (callFate p d) := by
  refine h.call keyRel_standsIn p.1 p.2 fun q hq => h.find_eq fun j hj => ?_
  rcases h.keys j hj.1 with heq | ⟨hnull, _⟩
  · rw [heq]
  · rcases hkeys.lookup hq with hnil | hne
    · rw [hnil]
      rfl
    · exact absurd hnull (hne j hj)

theorem callFate_shows (h : ∃ D, Shows c D) (hc : callFate p c = .ok (r, c')) :
    ∃ D, Shows c' D := by
  obtain ⟨D, hD⟩ := h
  have hself : Same c c := ⟨⟨D, hD, hD⟩, fun _ _ => ⟨rfl, rfl⟩, fun _ _ => rfl⟩
  have hrel := hself.call keyRel_eq p.1 p.2 fun _ _ => rfl
  rw [show callMallocIn p.1 p.2 c = _ from hc] at hrel
  obtain ⟨E, hE, _⟩ := hrel.2.shows
  exact ⟨E, hE⟩

/-! ### What the scan of `FindEntry` can end in -/

theorem findEntryFrom_skip (hij : i ≤ j) (hjm : j ≤ i + m)
    (hbefore : ∀ k < j, memcmpEq (beyond k) (c.entrylist k).key key = .ok false) :
    findEntryFrom beyond key c m i = findEntryFrom beyond key c (i + m - j) j := by
  induction m generalizing i with
  | zero =>
    obtain rfl : i = j := by omega
    rw [Nat.add_sub_cancel_left]
  | succ m ih =>
    rcases Nat.eq_or_lt_of_le hij with rfl | hlt
    · rw [Nat.add_sub_cancel_left]
    · rw [findEntryFrom, hbefore i hlt, ok_bind, if_neg (by decide), ih hlt (by omega)]
      congr 1
      omega

theorem findEntry_of_reaches (h : Reaches beyond key c j) : findEntry beyond key c = (do
      if ← memcmpEq (beyond j) (c.entrylist j).key key then
        return some j
      else
        findEntryFrom beyond key c (c.entries - (j + 1)) (j + 1)) := by
  have hlt := h.1
  rw [findEntry, findEntryFrom_skip (Nat.zero_le j) (by omega) h.2]
  rw [show 0 + c.entries - j = c.entries - (j + 1) + 1 by omega]
  rfl

theorem findEntry_some_of_reaches (h : Reaches beyond key c j) (hm : SlotMatches beyond key c j) :
    findEntry beyond key c = .ok (some j) := by
  rw [findEntry_of_reaches h, show memcmpEq _ _ _ = _ from hm]
  rfl

theorem findEntry_error_of_reaches (h : Reaches beyond key c j)
    (he : memcmpEq (beyond j) (c.entrylist j).key key = .error e) : findEntry beyond key c = .error e := by
  rw [findEntry_of_reaches h, he]
  rfl

theorem findEntry_cases (beyond : ℕ → ℕ → UInt8) (key : Bytes) (c : Cache) :
    (findEntry beyond key c = .ok none ∧
      ∀ j < c.entries, memcmpEq (beyond j) (c.entrylist j).key key = .ok false) ∨
    ∃ j, Reaches beyond key c j ∧ (SlotMatches beyond key c j ∧ findEntry beyond key c = .ok (some j) ∨
      ∃ e, memcmpEq (beyond j) (c.entrylist j).key key = .error e ∧ findEntry beyond key c = .error e) := by
  by_cases hall : ∀ j < c.entries, memcmpEq (beyond j) (c.entrylist j).key key = .ok false
  · refine .inl ⟨?_, hall⟩
    rw [findEntry, findEntryFrom_skip (Nat.zero_le c.entries) (Nat.zero_add _).ge hall]
    rw [Nat.zero_add, Nat.sub_self]
    rfl
  · have hex : ∃ j, j < c.entries ∧ memcmpEq (beyond j) (c.entrylist j).key key ≠ .ok false := by
      simpa only [not_forall, exists_prop] using hall
    obtain ⟨hlt, hne⟩ := Nat.find_spec hex
    have hreach : Reaches beyond key c (.find hex) := by
      refine ⟨hlt, fun i hi => ?_⟩
      by_contra hnot
      exact Nat.find_min hex hi ⟨hi.trans hlt, hnot⟩
    refine .inr ⟨.find hex, hreach, ?_⟩
    cases hv : memcmpEq (beyond (.find hex)) (c.entrylist (.find hex)).key key with
    | error e => exact .inr ⟨e, rfl, findEntry_error_of_reaches hreach hv⟩
    | ok b =>
      cases b with
      | false => exact absurd hv hne
      | true => exact .inl ⟨hv, findEntry_some_of_reaches hreach hv⟩

theorem memcmpEq_null (b : ℕ → UInt8) (hne : key ≠ []) : memcmpEq b .null key = .error .nullKey := by
  obtain ⟨_, _, rfl⟩ := List.exists_cons_of_ne_nil hne
  rfl

theorem callFate_null (p : Bool × Op) (c : Cache) (h : ¬NoNullKey p c) : callFate p c = .error .nullKey := by
  have hfind : ∀ beyond key, ¬(key = [] ∨ ∀ j, Reaches beyond key c j → (c.entrylist j).key ≠ .null) →
      findEntry beyond key c = .error .nullKey := by
    intro beyond key hnot
    obtain ⟨hne, hex⟩ := not_or.mp hnot
    obtain ⟨j, hj⟩ := not_forall.mp hex
    obtain ⟨hreach, hnull⟩ := Classical.not_imp.mp hj
    exact findEntry_error_of_reaches hreach (by rw [not_not.mp hnull, memcmpEq_null _ hne])
  obtain ⟨mallocOk, op⟩ := p
  cases op with
  | add key sf ent => exact absurd trivial h
  | check beyond key sf ent =>
    cases key <;> cases sf <;> cases ent
    case some.some.some key _ _ =>
      change checkIn beyond key c = .error .nullKey
      rw [checkIn, hfind beyond key h]
      rfl
    all_goals exact absurd trivial h
  | update beyond key sf ent =>
    cases key with
    | none => exact absurd trivial h
    | some key =>
      change (updateIn beyond key sf ent c).map _ = .error .nullKey
      rw [updateIn, hfind beyond key h]
      rfl

/-! ### Caches in order but for null keys -/

variable {n : ℕ}

theorem Shaped.callFate (h : Shaped n c) (hn : 1 ≤ n) (hn' : n < 2 ^ 31) (p : Bool × Op) (hkeys : NoNullKey p c) :
    ∃ r c', callFate p c = .ok (r, c') ∧ Shaped n c' := by
  rcases callMallocIn_shaped hn hn' p.1 p.2 h with hok | ⟨⟨q, hq, hf⟩, _⟩
  · exact hok
  · rcases findEntry_cases q.1 q.2 c with ⟨hf', _⟩ | ⟨j, hreach, ⟨_, hf'⟩ | ⟨e, hcmp, _⟩⟩
    · cases hf.symm.trans hf'
    · cases hf.symm.trans hf'
    · rcases hkeys.lookup hq with hnil | hne
      · rw [hnil] at hcmp
        cases hcmp
      · cases hk : (c.entrylist j).key with
        | null => exact absurd hk (hne j hreach)
        | freed => exact absurd hk (h.keys j hreach.1)
        | live bytes =>
          rw [hk, memcmpEq_live] at hcmp
          cases hcmp

theorem run_callFate_shaped (hn : 1 ≤ n) (hn' : n < 2 ^ 31)
    (h : Shaped n c) (hr : run callFate ops c = .ok (rs, c')) : Shaped n c' := by
  refine run_keeps (fun p s r s' hs hc => ?_) h hr
  rcases callMallocIn_shaped hn hn' p.1 p.2 hs with ⟨r', s'', hc', hs'⟩ | ⟨_, hc'⟩
  · obtain ⟨-, rfl⟩ := ok_inj (hc.symm.trans hc')
    exact hs'
  · cases hc.symm.trans hc'

theorem run_callFate_iff (hn : 1 ≤ n) (hn' : n < 2 ^ 31) (h : Shaped n c) (ops : List (Bool × Op)) :
    (∃ rs c', run callFate ops c = .ok (rs, c')) ↔ Along NoNullKey callFate ops c := by
  constructor
  · rintro ⟨rs, c', hr⟩
    exact along_of_run (fun _ _ _ _ _ _ => trivial) (fun p s _ hnot => ⟨_, callFate_null p s hnot⟩)
      trivial hr
  · intro hops
    obtain ⟨rs, c', hr, _⟩ := run_conforming (I := fun _ s => Shaped n s) (h := [])
      (fun _ p s hs hp => hs.callFate hn hn' p hp) h hops
    exact ⟨rs, c', hr⟩

def withKeyAt (x : ℕ) (p : Bytes) (c : Cache) : Cache := c.modify x fun e => { e with key := .live p }

theorem supplied_withKeyAt (h : ∃ D, Shows c D) (hnull : (c.entrylist x).key = .null) (p : Bytes) :
    Supplied c (withKeyAt x p c) := by
  obtain ⟨D, hD⟩ := h
  refine ⟨⟨D, hD, hD.modify x fun _ => ⟨rfl, rfl, rfl⟩⟩, fun i _ => ?_, fun i _ => ?_⟩
  · exact ⟨(modify_field Entry.sfflags rfl i).symm, (modify_field Entry.entflags rfl i).symm⟩
  · by_cases hix : i = x
    · subst hix
      rw [withKeyAt, modify_self]
      exact .inr ⟨hnull, p, rfl⟩
    · rw [withKeyAt, modify_of_ne _ hix]
      exact .inl rfl

theorem addIn_false (h : addIn false key sf ent c = .ok (r, c')) :
    r = .error ∧ ∃ x c₁, obtainEntry c = .ok (x, c₁) ∧ (c'.entrylist x).key = .null ∧
      (∀ i, i ≠ x → payload (c'.entrylist i) = payload (c.entrylist i)) ∧
      ∀ p, p.length = key.length → addIn true p sf ent c = .ok (.success, withKeyAt x p c') := by
  rw [addIn_eq] at h
  simp only [bind_eq_ok] at h
  obtain ⟨⟨x, c₁⟩, ho, k, hfree, he⟩ := h
  cases he
  refine ⟨rfl, x, c₁, ho, ?_, fun i hi => ?_, fun p hp => ?_⟩
  · rw [modify_self]
    rfl
  · rw [modify_of_ne _ hi, filled, modify_of_ne _ hi]
    exact ((addMRU_keeps x .t1 c₁).payload i).trans ((obtainEntry_inv ho).1 i hi)
  · have hfilled : filled x p sf ent c₁ = filled x key sf ent c₁ := by rw [filled, filled, hp]
    rw [addIn_eq, ho, ok_bind]
    dsimp only
    rw [hfilled, hfree]
    have htwice : ((filled x key sf ent c₁).modify x fun e => { e with key := .null }).modify x
        (fun e => { e with key := .live p }) = (filled x key sf ent c₁).modify x fun e => { e with key := .live p } := by
      simp [Cache.modify]
    exact congrArg (fun d => Except.ok (LookupResult.success, d)) htwice.symm

end

/-- An insertion that fails for want of a key buffer, in any reachable state, uses the slot that a successful one uses and
leaves the data of all others alone. The calls after it answer as if it had stored another key `p` in place of its own, as
long as no lookup comes to the null key; those runs, and no others, return. -/
theorem failed_insertion_harmless {junk : ℕ → Entry} {n : ℕ} (hn : 1 ≤ n) {before : List (Bool × Op)}
    {rs : List CheckResult} {c c' : Cache} (hreach : run callFate before (initCache junk n) = .ok (rs, c)) {key : Bytes}
    {sf ent : UInt32} {r : LookupResult} (hfail : addIn false key sf ent c = .ok (r, c')) :
    r = .error ∧ ∃ x c₁, obtainEntry c = .ok (x, c₁) ∧
      (∀ i, i ≠ x → payload (c'.entrylist i) = payload (c.entrylist i)) ∧
      (∀ p, p.length = key.length → addIn true p sf ent c = .ok (.success, withKeyAt x p c')) ∧
      (∀ p, p ≠ key → ∀ i, Holds (withKeyAt x p c') i key → Holds c i key ∧ i ≠ x) ∧
      ∀ ops, (Along NoNullKey callFate ops c' → ∀ p,
          (run callFate ops c').map Prod.fst = (run callFate ops (withKeyAt x p c')).map Prod.fst) ∧
        (n < 2 ^ 31 → ((∃ rs' c₂, run callFate ops c' = .ok (rs', c₂)) ↔ Along NoNullKey callFate ops c')) := by
  obtain ⟨hr, x, c₁, ho, hnull, hother, hstored⟩ := addIn_false hfail
  refine ⟨hr, x, c₁, ho, hother, hstored, fun p hp i hi => ?_, fun ops => ⟨fun hops p => ?_, fun hn' => ?_⟩⟩
  · by_cases hix : i = x
    · subst hix
      rw [Holds, withKeyAt, modify_self] at hi
      exact absurd (KeyPtr.live.inj hi) hp
    · rw [Holds, withKeyAt, modify_of_ne _ hix] at hi
      exact ⟨(holds_iff_of_payload (hother i hix)).mp hi, hix⟩
  · have hshows := run_keeps (I := fun c => ∃ D, Shows c D) (fun _ _ _ _ h hc => callFate_shows h hc)
      ⟨_, Shows.init junk n⟩ hreach
    have hfate : callFate (false, .add key sf ent) c = .ok ((r, none), c') := by
      rw [callFate, callMallocIn, hfail]
      rfl
    exact (run_related_along callFate_supplied (supplied_withKeyAt (callFate_shows hshows hfate) hnull p) hops).results_eq
  · have hshaped := run_callFate_shaped hn hn' (Shaped.init junk hn hn') hreach
    obtain ⟨r', c'', ha, hshaped'⟩ := hshaped.add hn hn' false key sf ent
    obtain ⟨-, rfl⟩ := ok_inj (hfail.symm.trans ha)
    exact run_callFate_iff hn hn' hshaped' ops

/-- A lookup that finds its key in the slot before the one with the null key. -/
theorem failed_insertion_harmless_first : ∃ rs c c',
    run callFate [(true, .add [5] 7 8)] (initCache (fun _ => blankEntry) 2) = .ok (rs, c) ∧
    addIn false [1] 0 0 c = .ok (.error, c') ∧
    ∃ rs' c₂, run callFate [(true, .check (fun _ _ => 0) (some [5]) (some 0) (some 0))] c' = .ok (rs', c₂) := by
  refine ⟨_, _, _, rfl, rfl, ?_⟩
  obtain ⟨_, _, _, _, _, _, _, hops⟩ := @failed_insertion_harmless (fun _ => blankEntry) 2 (by decide)
    [(true, .add [5] 7 8)] _ _ _ rfl [1] 0 0 _ rfl
  refine ((hops _).2 (by decide)).mpr ⟨.inr fun j hj => ?_, fun _ _ _ => trivial⟩
  rcases Nat.eq_zero_or_pos j with rfl | hpos
  · exact fun hnull => nomatch hnull
  · have hfirst : (Except.ok true : Except Fault Bool) = .ok false := hj.2 0 hpos
    exact absurd (Except.ok.inj hfirst) (by decide)

/-- The next lookup of the key, or of any other, reads the null key. -/
theorem null_key_left :
    run callMalloc [(.goodHash, false, .add [1] 0 0), (.goodHash, true, .check (fun _ _ => 0) (some [1]) (some 0) (some 0))]
      (initcache (fun _ _ => blankEntry) 1 1) = .error .nullKey ∧
    run callMalloc [(.goodHash, false, .add [1] 0 0), (.goodHash, true, .add [2] 7 8),
      (.goodHash, true, .check (fun _ _ => 0) (some [2]) (some 0) (some 0))]
      (initcache (fun _ _ => blankEntry) 2 2) = .error .nullKey :=
  ⟨rfl, rfl⟩

end Razorback.LocalCache
