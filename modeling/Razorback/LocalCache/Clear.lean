import Razorback.LocalCache.Unused

/-! What `clearLocalEntry` leaves behind. Its last loop goes through the array
name, so it resets the lists of the `GOODHASH` cache whichever cache is being
cleared; the condition under which a clear is nevertheless exact is stated on
the caches before it. -/

namespace Razorback.LocalCache
open Runs List Function

def Covers (t u : CacheType) : Prop := t = .all ∨ u = t

instance (t u : CacheType) : Decidable (Covers t u) := inferInstanceAs (Decidable (_ ∨ _))

def ListsReset (c : Cache) : Prop :=
  ∀ l, c.listSize l = 0 ∧ c.lru l = none ∧ c.mru l = none

structure Fresh (n : ℕ) (c : Cache) : Prop where
  size : c.size = n
  entries : c.entries = 0
  lists : ListsReset c
  target : c.target = n

def NoneFreed (c : Cache) : Prop := ∀ i < c.entries, (c.entrylist i).key ≠ .freed

def afterClear (junk : CacheType → ℕ → Entry) (t : CacheType) (cs : Caches) : Caches :=
  fun u => if Covers t u then initCache (junk u) (cs u).size else cs u

def emptied (slots : ℕ → Entry) (c : Cache) : Cache :=
  { c with entries := 0, target := c.size, entrylist := slots }

def clearedTo (slots : CacheType → ℕ → Entry) (t : CacheType) (cs : Caches) (u : CacheType) : Cache :=
  let c := if Covers t u then emptied (slots u) (cs u) else cs u
  if u = .goodHash then resetLists c else c

section
variable {c : Cache} {cs : Caches} {t : CacheType}

theorem destroyEntry_ok (h : (c.entrylist i).key ≠ .freed) :
    ∃ slots, destroyEntry i c = .ok { c with entrylist := slots } ∧
      ∀ j, j ≠ i → slots j = c.entrylist j := by
  obtain ⟨k, hk⟩ : ∃ k, freeKey (c.entrylist i).key = .ok k := by
    cases hk : (c.entrylist i).key with
    | freed => exact absurd hk h
    | null => exact ⟨_, rfl⟩
    | live bytes => exact ⟨_, rfl⟩
  refine ⟨(c.modify i fun e => { e with key := k }).entrylist, ?_, fun j hj => modify_of_ne _ hj⟩
  simp only [destroyEntry, hk]
  rfl

theorem destroy_fold_ok {is : List ℕ} (hnd : is.Nodup)
    (h : ∀ i ∈ is, (c.entrylist i).key ≠ .freed) :
    ∃ slots, is.foldlM (fun c i => destroyEntry i c) c = .ok { c with entrylist := slots } := by
  induction is generalizing c with
  | nil => exact ⟨c.entrylist, rfl⟩
  | cons i is ih =>
    obtain ⟨hi, hnd⟩ := nodup_cons.mp hnd
    obtain ⟨slots, hd, hother⟩ := destroyEntry_ok (h i mem_cons_self)
    obtain ⟨slots', hf⟩ := ih (c := { c with entrylist := slots }) hnd fun j hj => by
      have hji : j ≠ i := fun e => hi (e ▸ hj)
      simpa only [hother j hji] using h j (mem_cons_of_mem _ hj)
    exact ⟨slots', by rw [foldlM_cons, hd, ok_bind, hf]⟩

theorem destroy_fold_error {is : List ℕ} {i : ℕ} (hi : i ∈ is) (h : (c.entrylist i).key = .freed) :
    ∃ e, is.foldlM (fun c i => destroyEntry i c) c = .error e := by
  induction is generalizing c with
  | nil => exact absurd hi not_mem_nil
  | cons j is ih =>
    rw [foldlM_cons]
    by_cases hj : (c.entrylist j).key = .freed
    · exact ⟨_, by rw [destroyEntry, hj]; rfl⟩
    · obtain ⟨slots, hd, hother⟩ := destroyEntry_ok hj
      have hij : i ≠ j := fun e => hj (e ▸ h)
      have hmem : i ∈ is := (mem_cons.mp hi).resolve_left hij
      rw [hd]
      exact ih hmem (by simpa only [hother i hij] using h)

theorem clearFull_ok (ht : t ≠ .all) (h : NoneFreed (cs t)) :
    ∃ cs' slots, clearFull t cs = .ok cs' ∧ ∀ u, cs' u = clearedTo slots t cs u := by
  obtain ⟨slots, hs⟩ := destroy_fold_ok nodup_range
    fun i hi => h i (mem_range.mp hi)
  have hd : destroyEntries (cs t) = .ok { cs t with entrylist := slots } := hs
  refine ⟨update (update cs t (emptied slots (cs t))) .goodHash
    (resetLists (update cs t (emptied slots (cs t)) .goodHash)), fun _ => slots, ?_, ?_⟩
  · simp only [clearFull, hd]
    rfl
  · intro u
    by_cases hu : u = t
    · subst hu
      by_cases hg : u = .goodHash
      · subst hg
        simp [clearedTo, Covers]
      · simp [clearedTo, Covers, hg]
    · by_cases hg : u = .goodHash
      · subst hg
        simp [clearedTo, Covers, ht, hu]
      · simp [clearedTo, Covers, ht, hu, hg]

theorem clearFull_inv (ht : t ≠ .all) (h : clearFull t cs = .ok cs') :
    NoneFreed (cs t) ∧ ∃ slots, ∀ u, cs' u = clearedTo slots t cs u := by
  have hf : NoneFreed (cs t) := by
    intro i hi hk
    obtain ⟨e, he⟩ := destroy_fold_error (mem_range.mpr hi) hk
    have hd : destroyEntries (cs t) = .error e := he
    simp only [clearFull, hd] at h
    cases h
  obtain ⟨cs'', slots, hc, heq⟩ := clearFull_ok ht hf
  rw [hc] at h
  exact ⟨hf, slots, Except.ok.inj h ▸ heq⟩

theorem clearLocalEntry_ok (h : ∀ u, u ≠ .all → Covers t u → NoneFreed (cs u)) :
    ∃ cs' slots, clearLocalEntry t .full cs = .ok (.success, cs') ∧
      ∀ u, u ≠ .all → cs' u = clearedTo slots t cs u := by
  have hone : ∀ t, t ≠ .all → NoneFreed (cs t) → ∃ cs' slots,
      (clearFull t cs >>= fun cs => pure (LookupResult.success, cs)) = .ok (.success, cs') ∧
      ∀ u, u ≠ .all → cs' u = clearedTo slots t cs u := by
    intro t ht hf
    obtain ⟨cs', slots, hc, heq⟩ := clearFull_ok ht hf
    exact ⟨cs', slots, by rw [hc]; rfl, fun u _ => heq u⟩
  cases t with
  | all =>
    obtain ⟨cs₁, s₁, h₁, e₁⟩ := clearFull_ok (by decide) (h .goodHash (by decide) (.inl rfl))
    have hb : cs₁ .badHash = cs .badHash := by simp [e₁, clearedTo, Covers]
    obtain ⟨cs₂, s₂, h₂, e₂⟩ := clearFull_ok (by decide)
      (hb ▸ h .badHash (by decide) (.inl rfl))
    have hu : cs₂ .url = cs .url := by simp [e₂, e₁, clearedTo, Covers]
    obtain ⟨cs₃, s₃, h₃, e₃⟩ := clearFull_ok (by decide)
      (hu ▸ h .url (by decide) (.inl rfl))
    refine ⟨cs₃, update (update s₃ .badHash (s₂ .badHash)) .goodHash (s₁ .goodHash), ?_, ?_⟩
    · simp only [clearLocalEntry, h₁, h₂, h₃, ok_bind]
      rfl
    · intro u hu'
      cases u with
      | all => exact absurd rfl hu'
      | goodHash => simp [e₃, e₂, e₁, clearedTo, Covers, resetLists]
      | badHash => simp [e₃, e₂, e₁, clearedTo, Covers]
      | url => simp [e₃, e₂, e₁, clearedTo, Covers]
  | goodHash => exact hone .goodHash (by decide) (h .goodHash (by decide) (.inr rfl))
  | badHash => exact hone .badHash (by decide) (h .badHash (by decide) (.inr rfl))
  | url => exact hone .url (by decide) (h .url (by decide) (.inr rfl))

theorem noneFreed_of_clear (h : clearLocalEntry t .full cs = .ok (r, cs')) :
    ∀ u, u ≠ .all → Covers t u → NoneFreed (cs u) := by
  intro u hu hc
  cases t with
  | all =>
    simp only [clearLocalEntry, bind_eq_ok] at h
    obtain ⟨cs₁, h₁, cs₂, h₂, cs₃, h₃, _⟩ := h
    obtain ⟨hg, s₁, e₁⟩ := clearFull_inv (by decide) h₁
    obtain ⟨hb, s₂, e₂⟩ := clearFull_inv (by decide) h₂
    obtain ⟨hu', _, _⟩ := clearFull_inv (by decide) h₃
    cases u with
    | all => exact absurd rfl hu
    | goodHash => exact hg
    | badHash => simpa [e₁, clearedTo, Covers] using hb
    | url => simpa [e₂, e₁, clearedTo, Covers] using hu'
  | goodHash | badHash | url =>
    simp only [clearLocalEntry, bind_eq_ok] at h
    obtain ⟨cs₁, h₁, _⟩ := h
    obtain rfl := hc.resolve_left (by decide)
    exact (clearFull_inv hu h₁).1

theorem fresh_emptied_iff (slots : ℕ → Entry) (c : Cache) :
    Fresh c.size (emptied slots c) ↔ ListsReset c :=
  ⟨fun h => h.lists, fun h => ⟨rfl, rfl, h, rfl⟩⟩

theorem ListsReset.fields (h : ListsReset c) :
    c.listSize = (fun _ => 0) ∧ c.lru = (fun _ => none) ∧ c.mru = fun _ => none :=
  ⟨funext fun l => (h l).1, funext fun l => (h l).2.1, funext fun l => (h l).2.2⟩

theorem resetLists_eq_iff (c : Cache) : resetLists c = c ↔ ListsReset c := by
  constructor
  · intro h l
    rw [← h]
    exact ⟨rfl, rfl, rfl⟩
  · intro h
    obtain ⟨h1, h2, h3⟩ := h.fields
    cases c
    simp_all only [resetLists]

theorem Fresh.eq_initCache (h : Fresh n c) : c = initCache c.entrylist n := by
  obtain ⟨hs, he, hl, ht⟩ := h
  obtain ⟨h1, h2, h3⟩ := hl.fields
  cases c
  simp_all only [initCache]

end

/-- What a cache must look like for a clear of `t` to be exact: the lists that
the last loop misses are reset already, and so are those it should not touch. -/
structure Clearable (t : CacheType) (cs : Caches) : Prop where
  keys : ∀ u, u ≠ .all → Covers t u → NoneFreed (cs u)
  missed : ∀ u, u ≠ .all → u ≠ .goodHash → Covers t u → ListsReset (cs u)
  touched : ¬Covers t .goodHash → ListsReset (cs .goodHash)

/-- A clear empties what it covers and nothing else, and every later run answers
as on freshly initialised caches there. -/
def ClearsExactly (t : CacheType) (cs : Caches) : Prop :=
  ∃ cs', clearLocalEntry t .full cs = .ok (.success, cs') ∧
    (∀ u, u ≠ .all → Covers t u → Fresh (cs u).size (cs' u)) ∧
    (∀ u, u ≠ .all → ¬Covers t u → cs' u = cs u) ∧
    ∀ junk ops, (run callAny ops cs').map Prod.fst =
      (run callAny ops (afterClear junk t cs)).map Prod.fst

theorem clearsExactly_iff (t : CacheType) (cs : Caches) : ClearsExactly t cs ↔ Clearable t cs := by
  constructor
  · rintro ⟨cs', hc, hfresh, hother, _⟩
    have hkeys := noneFreed_of_clear hc
    obtain ⟨cs'', slots, hc', heq⟩ := clearLocalEntry_ok hkeys
    obtain rfl : cs' = cs'' := by
      rw [hc] at hc'
      exact (ok_inj hc').2
    refine ⟨hkeys, fun u hu hg hcov => ?_, fun hcov => ?_⟩
    · have hf := hfresh u hu hcov
      rw [heq u hu] at hf
      simp only [clearedTo, if_pos hcov, if_neg hg] at hf
      exact (fresh_emptied_iff _ _).mp hf
    · have ho := hother .goodHash (by decide) hcov
      rw [heq .goodHash (by decide)] at ho
      simp only [clearedTo, if_neg hcov] at ho
      exact (resetLists_eq_iff _).mp ho
  · rintro ⟨hkeys, hmissed, htouched⟩
    obtain ⟨cs', slots, hc, heq⟩ := clearLocalEntry_ok hkeys
    have hfresh : ∀ u, u ≠ .all → Covers t u → Fresh (cs u).size (cs' u) := by
      intro u hu hcov
      rw [heq u hu]
      by_cases hg : u = .goodHash
      · simp only [clearedTo, if_pos hcov, if_pos hg]
        exact ⟨rfl, rfl, fun _ => ⟨rfl, rfl, rfl⟩, rfl⟩
      · simp only [clearedTo, if_pos hcov, if_neg hg]
        exact (fresh_emptied_iff _ _).mpr (hmissed u hu hg hcov)
    have hother : ∀ u, u ≠ .all → ¬Covers t u → cs' u = cs u := by
      intro u hu hcov
      rw [heq u hu]
      by_cases hg : u = .goodHash
      · subst hg
        simp only [clearedTo, if_neg hcov]
        exact (resetLists_eq_iff _).mpr (htouched hcov)
      · simp only [clearedTo, if_neg hcov, if_neg hg]
    refine ⟨cs', hc, hfresh, hother, fun junk ops => (run_related callAny_same ops fun u hu => ?_).results_eq⟩
    by_cases hcov : Covers t u
    · rw [afterClear, if_pos hcov, (hfresh u hu hcov).eq_initCache]
      exact .inr (Same.init _ _ _)
    · rw [afterClear, if_neg hcov]
      exact .inl (hother u hu hcov)

/-- One insertion into `BADHASH`, a clear of `BADHASH`, and the next insertion
frees the first key a second time. -/
theorem clear_badHash_double_free : ∃ rs cs cs',
    run callAny [(.badHash, .add [1] 0 0)] (initcache (fun _ _ => blankEntry) 1 1) = .ok (rs, cs) ∧
    clearLocalEntry .badHash .full cs = .ok (.success, cs') ∧
    (cs' .badHash).listSize .t1 = 1 ∧
    callAny (.badHash, .add [2] 0 0) cs' = .error .doubleFree := by
  refine ⟨_, _, _, rfl, rfl, rfl, rfl⟩

end Razorback.LocalCache
