import Razorback.LocalCache.Arc

/-! The three calls on a cache that satisfies the capacity invariant: none of
them faults, each keeps the invariant, and the entries change only as stated. -/

namespace Razorback.LocalCache
open Runs

def SlotMatches (beyond : ℕ → ℕ → UInt8) (key : Bytes) (c : Cache) (i : ℕ) : Prop :=
  memcmpEq (beyond i) (c.entrylist i).key key = .ok true

section
variable {c : Cache} {d : Dir} {ls : ListType → List ℕ} {n : ℕ} (beyond : ℕ → ℕ → UInt8) (key : Bytes)

theorem memcmpEq_live (b : ℕ → UInt8) (bytes key : Bytes) :
    memcmpEq b (.live bytes) key =
      .ok ((List.range key.length).all fun j => bytes.getD j (b j) == key.getD j 0) := by
  cases key <;> simp [memcmpEq]

theorem findEntryFrom_spec (m i : ℕ)
    (hlive : ∀ j, i ≤ j → j < i + m → ∃ bytes, (c.entrylist j).key = .live bytes) :
    (findEntryFrom beyond key c m i = .ok none ∧
      ∀ j, i ≤ j → j < i + m → ¬SlotMatches beyond key c j) ∨
    (∃ x, findEntryFrom beyond key c m i = .ok (some x) ∧ i ≤ x ∧ x < i + m ∧
      SlotMatches beyond key c x ∧ ∀ j, i ≤ j → j < x → ¬SlotMatches beyond key c j) := by
  induction m generalizing i with
  | zero => exact .inl ⟨rfl, fun j h1 h2 => by omega⟩
  | succ m ih =>
    obtain ⟨bytes, hb⟩ := hlive i le_rfl (by omega)
    have hcmp := memcmpEq_live (beyond i) bytes key
    rw [← hb] at hcmp
    rcases hv : (List.range key.length).all
        fun j => bytes.getD j (beyond i j) == key.getD j 0 with _ | _
    · rw [hv] at hcmp
      have hno : ¬SlotMatches beyond key c i := by simp [SlotMatches, hcmp]
      have hstep : findEntryFrom beyond key c (m + 1) i = findEntryFrom beyond key c m (i + 1) := by
        simp [findEntryFrom, hcmp]
      rw [hstep]
      rcases ih (i + 1) (fun j h1 h2 => hlive j (by omega) (by omega)) with ⟨hn, hall⟩ | ⟨x, hs, h1, h2, hm, hall⟩
      · refine .inl ⟨hn, fun j h1 h2 => ?_⟩
        rcases Nat.eq_or_lt_of_le h1 with rfl | h1
        · exact hno
        · exact hall j h1 (by omega)
      · refine .inr ⟨x, hs, by omega, by omega, hm, fun j h1 h2 => ?_⟩
        rcases Nat.eq_or_lt_of_le h1 with rfl | h1
        · exact hno
        · exact hall j h1 h2
    · rw [hv] at hcmp
      refine .inr ⟨i, ?_, le_rfl, by omega, hcmp, fun j h1 h2 => by omega⟩
      simp [findEntryFrom, hcmp, pure, Except.pure]

theorem findEntry_spec (hlive : KeysLive c) :
    (findEntry beyond key c = .ok none ∧ ∀ j < c.entries, ¬SlotMatches beyond key c j) ∨
    (∃ x < c.entries, findEntry beyond key c = .ok (some x) ∧ SlotMatches beyond key c x ∧
      ∀ j < x, ¬SlotMatches beyond key c j) := by
  rcases findEntryFrom_spec beyond key c.entries 0
    (fun j _ h => hlive j (by omega)) with ⟨hn, hall⟩ | ⟨x, hs, _, h2, hm, hall⟩
  · exact .inl ⟨hn, fun j hj => hall j (Nat.zero_le _) (by omega)⟩
  · exact .inr ⟨x, by omega, hs, hm, fun j hj => hall j (Nat.zero_le _) hj⟩

theorem Arc.check (h : Arc n c ls) (hn' : n < 2 ^ 31) :
    (checkIn beyond key c = .ok ((.notFound, none), c) ∧
      ∀ j < c.entries, ¬SlotMatches beyond key c j) ∨
    (∃ x < c.entries, SlotMatches beyond key c x ∧ (∀ j < x, ¬SlotMatches beyond key c j) ∧
      ∃ c' ls', checkIn beyond key c = .ok ((.found,
          some ((c.entrylist x).sfflags, (c.entrylist x).entflags)), c') ∧
        c'.entries = c.entries ∧ (∀ i, payload (c'.entrylist i) = payload (c.entrylist i)) ∧
        Arc n c' ls') := by
  rcases findEntry_spec beyond key h.live with ⟨hf, hall⟩ | ⟨x, hx, hf, hm, hall⟩
  · exact .inl ⟨by simp [checkIn, hf, pure, Except.pure], hall⟩
  · obtain ⟨c', d', hh, hs, hfits⟩ := (h.fits hn').hitEntry h.rep.shows hx
    obtain ⟨he, hp⟩ := hitEntry_keeps hh
    have hlive : KeysLive c' := by
      intro i hi
      rw [key_eq_of_payload (hp i)]
      exact h.live i (he ▸ hi)
    refine .inr ⟨x, hx, hm, hall, c', _, ?_, he, hp, hs.arc hfits hlive⟩
    have hsf := congrArg (fun p => p.2.2.1) (hp x)
    have hent := congrArg (fun p => p.2.2.2) (hp x)
    simp only [payload] at hsf hent
    simp [checkIn, hf, h.listed x hx, hh, hsf, hent, pure, Except.pure]

theorem Listed.modify (h : Listed c) (x : ℕ) (hf : KeepsPlace f) : Listed (c.modify x f) := by
  intro i hi
  rw [(hf.modify c x i).2.2]
  exact h i hi

theorem KeysLive.modify (x : ℕ) (f : Entry → Entry)
    (hother : ∀ i < c.entries, i ≠ x → ∃ bytes, (c.entrylist i).key = .live bytes)
    (hkey : x < c.entries → ∃ bytes, (f (c.entrylist x)).key = .live bytes) :
    KeysLive (c.modify x f) := by
  intro i hi
  by_cases hix : i = x
  · subst hix
    simpa [Cache.modify] using hkey hi
  · simpa [Cache.modify, hix] using hother i hi hix

theorem Arc.update (h : Arc n c ls) (sf ent : UInt32) :
    (updateIn beyond key sf ent c = .ok (.notFound, c) ∧
      ∀ j < c.entries, ¬SlotMatches beyond key c j) ∨
    (∃ x < c.entries, SlotMatches beyond key c x ∧ (∀ j < x, ¬SlotMatches beyond key c j) ∧
      updateIn beyond key sf ent c = .ok (.success,
        c.modify x fun e => { e with sfflags := sf, entflags := ent }) ∧
      Arc n (c.modify x fun e => { e with sfflags := sf, entflags := ent }) ls) := by
  rcases findEntry_spec beyond key h.live with ⟨hf, hall⟩ | ⟨x, hx, hf, hm, hall⟩
  · exact .inl ⟨by simp [updateIn, hf, pure, Except.pure], hall⟩
  · refine .inr ⟨x, hx, hm, hall, by simp [updateIn, hf, pure, Except.pure], ?_⟩
    have hkeep : KeepsPlace fun e => { e with sfflags := sf, entflags := ent } :=
      fun _ => ⟨rfl, rfl, rfl⟩
    exact ⟨h.rep.modify x hkeep, h.sizes, h.listed.modify x hkeep,
      .modify x _ (fun i hi _ => h.live i hi) (h.live x), h.size, h.capacity, h.target⟩

theorem Fits.addIn (h : Fits n d) (hs : Shows c d) (hn : 1 ≤ n) (hn' : n < 2 ^ 31)
    (hkeys : ∀ i < c.entries, (c.entrylist i).key ≠ .freed) (mallocOk : Bool) (key : Bytes) (sf ent : UInt32) :
    ∃ c' d', LocalCache.addIn mallocOk key sf ent c = .ok (if mallocOk then .success else .error, c') ∧ Shows c' d' ∧
      Fits n d' ∧ ∀ i < c'.entries, (c'.entrylist i).key ≠ .freed := by
  obtain ⟨_, d₁, hd, hf⟩ := h.obtain hn hn'
  obtain ⟨⟨x, c₁⟩, ho, rfl, hs₁, hfree⟩ := (obtain_related hs).ok_right hd
  have hlt : x < c₁.entries := (hs₁.unlisted hfree).1
  obtain ⟨hx, hother⟩ : (c₁.entrylist x).key ≠ .freed ∧ ∀ i < c₁.entries, i ≠ x → (c₁.entrylist i).key ≠ .freed := by
    rcases obtainEntry_cases ho with hk | ⟨rfl, hent, hnull, hpay⟩
    · have hall : ∀ i < c₁.entries, (c₁.entrylist i).key ≠ .freed := by
        intro i hi
        rw [key_eq_of_payload (hk.payload i)]
        exact hkeys i (hk.entries ▸ hi)
      exact ⟨hall x hlt, fun i hi _ => hall i hi⟩
    · refine ⟨by rw [key_eq_of_payload hnull]; nofun, fun i hi hne => ?_⟩
      rw [key_eq_of_payload (hpay i hne)]
      exact hkeys i (by omega)
  refine ⟨_, _, addIn_filled ho hx mallocOk key sf ent, (filled_shows hs₁ hfree key sf ent).modify x fun _ => ⟨rfl, rfl, rfl⟩,
    hf, fun i hi => ?_⟩
  by_cases hix : i = x
  · subst hix
    rw [modify_self]
    cases mallocOk <;> simp
  · rw [modify_of_ne _ hix, filled_key]
    exact hother i ((addMRU_keeps x .t1 c₁).entries ▸ hi) hix

theorem Arc.add (h : Arc n c ls) (hn : 1 ≤ n) (hn' : n < 2 ^ 31) (sf ent : UInt32) :
    ∃ c' ls', LocalCache.addIn true key sf ent c = .ok (.success, c') ∧ Arc n c' ls' := by
  have hkeys : ∀ i < c.entries, (c.entrylist i).key ≠ .freed := by
    intro i hi
    obtain ⟨bytes, hb⟩ := h.live i hi
    simp [hb]
  obtain ⟨c', d', ha, hs, hf, _⟩ := (h.fits hn').addIn h.rep.shows hn hn' hkeys true key sf ent
  obtain ⟨x, c₁, _, hx, hother, hent⟩ := addIn_inv ha
  refine ⟨c', _, ha, hs.arc hf fun i hi => ?_⟩
  by_cases hix : i = x
  · exact ⟨key, congrArg (fun p => p.2.1) (hix ▸ hx)⟩
  · rw [key_eq_of_payload (hother i hix)]
    exact h.live i (by rcases hent with he | ⟨he, rfl⟩ <;> omega)

end

end Razorback.LocalCache
