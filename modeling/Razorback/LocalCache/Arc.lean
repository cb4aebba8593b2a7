import Mathlib.Tactic.Linarith
import Mathlib.Tactic.NormNum
import Razorback.LocalCache.Directory

/-! The capacity invariant of the adaptive replacement cache. While the total
number of slots stays below the wrap of `unsigned`, it makes every purge hit a
non-empty list and keeps the directory within its bounds. -/

namespace Razorback.LocalCache
open Runs Function List Dir

def Sizes (c : Cache) (ls : ListType → List ℕ) : Prop :=
  ∀ l, l ≠ .none → c.listSize l = (ls l).length

def KeysLive (c : Cache) : Prop := ∀ i < c.entries, ∃ bytes, (c.entrylist i).key = .live bytes

def Listed (c : Cache) : Prop := ∀ i < c.entries, (c.entrylist i).listtype ≠ .none

structure Capacity (n entries t1 t2 b1 b2 : ℕ) : Prop where
  total : entries = t1 + t2 + b1 + b2
  t1b1 : t1 + b1 ≤ n
  t1t2 : t1 + t2 ≤ n
  cap : entries ≤ 2 * n
  full : n ≤ entries → t1 + t2 = n
  ghosts : entries < n → b1 = 0 ∧ b2 = 0

def CapacityOf (n : ℕ) (c : Cache) (ls : ListType → List ℕ) : Prop :=
  Capacity n c.entries (ls .t1).length (ls .t2).length (ls .b1).length (ls .b2).length

structure Arc (n : ℕ) (c : Cache) (ls : ListType → List ℕ) : Prop where
  rep : Rep c ls
  sizes : Sizes c ls
  listed : Listed c
  live : KeysLive c
  size : c.size = n
  capacity : CapacityOf n c ls
  target : ∃ k : ℕ, c.target = k ∧ k ≤ n

structure Counted (lost : ListType → ℕ) (k : ℕ) (d : Dir) : Prop where
  counts : ∀ l, l ≠ .none → d.listSize l = (d.lists l).length + lost l
  total : d.listSize .t1 + d.listSize .t2 + d.listSize .b1 + d.listSize .b2 + k = d.entries
  bound : d.entries ≤ d.size * 2 % 2 ^ 32

structure Within (n : ℕ) (d : Dir) : Prop where
  size : d.size = n
  capacity : Capacity n d.entries (d.lists .t1).length (d.lists .t2).length (d.lists .b1).length (d.lists .b2).length
  target : ∃ k : ℕ, d.target = k ∧ k ≤ n

/-- The directory of a cache of `n` slots in order. -/
structure Fits (n : ℕ) (d : Dir) : Prop extends Counted (fun _ => 0) 0 d, Within n d where
  listed : ∀ i < d.entries, d.Has i

theorem Capacity.full_of_ghost (h : Capacity n e t1 t2 b1 b2) (hb : 0 < b1 + b2) : t1 + t2 = n := by
  apply h.full
  by_contra hlt
  have := h.ghosts (by omega)
  omega

theorem maxD_eq (a : ℚ) (b : ℕ) : maxD a b = max a b := by
  unfold maxD
  split_ifs with h
  · exact (max_eq_left h.le).symm
  · exact (max_eq_right (not_lt.mp h)).symm

theorem minD_eq (a : ℚ) (b : ℕ) : minD a b = min a b := by
  unfold minD
  split_ifs with h
  · exact (min_eq_right h.le).symm
  · exact (min_eq_left (not_lt.mp h)).symm

theorem target_up (n k q : ℕ) (_hk : k ≤ n) :
    ∃ k' : ℕ, minD ((k : ℚ) + max (q : ℚ) 1) n = k' ∧ k' ≤ n := by
  refine ⟨min (k + max q 1) n, ?_, min_le_right _ _⟩
  rw [minD_eq]
  push_cast
  rfl

theorem target_down (n k q : ℕ) (hk : k ≤ n) :
    ∃ k' : ℕ, maxD ((k : ℚ) - max (q : ℚ) 1) 0 = k' ∧ k' ≤ n := by
  refine ⟨k - max q 1, ?_, (Nat.sub_le _ _).trans hk⟩
  rw [maxD_eq]
  rcases le_total (max q 1) k with hle | hle
  · rw [Nat.cast_sub hle]
    have : ((max q 1 : ℕ) : ℚ) ≤ k := by exact_mod_cast hle
    simpa using this
  · rw [Nat.sub_eq_zero_of_le hle]
    have : (k : ℚ) ≤ ((max q 1 : ℕ) : ℚ) := by exact_mod_cast hle
    simpa using this

section
variable {lost : ListType → ℕ} {d d' : Dir} {l : ListType} {k x n : ℕ} {xs : List ℕ}

theorem Counted.lt_wrap (h : Counted lost k d) (hl : l ≠ .none) : d.listSize l + k < 2 ^ 32 := by
  have ht := h.total
  have hb := h.bound
  cases l with
  | none => exact absurd rfl hl
  | t1 | t2 | b1 | b2 => omega

theorem Counted.take (h : Counted lost k d) (hl : l ≠ .none) (hlen : (d.lists l).length = xs.length + 1) :
    Counted lost (k + 1) (d.take l xs) := by
  have hc := h.counts l hl
  have hlt := h.lt_wrap hl
  have hd : dec (d.listSize l) + 1 = d.listSize l := by
    rw [hc, hlen, Nat.add_right_comm, dec_succ (by omega)]
  have ht := h.total
  refine ⟨fun m hm => ?_, ?_, h.bound⟩
  · by_cases hml : m = l
    · subst hml
      simp only [Dir.take, update_self]
      omega
    · simpa [Dir.take, hml] using h.counts m hm
  · cases l with
    | none => exact absurd rfl hl
    | t1 | t2 | b1 | b2 =>
      simp only [Dir.take, update_self, ne_eq, reduceCtorEq, not_false_eq_true, update_of_ne]
      omega

theorem Counted.put (h : Counted lost (k + 1) d) (hl : l ≠ .none) (x : ℕ) : Counted lost k (d.put x l) := by
  have hc := h.counts l hl
  have hi : inc (d.listSize l) = d.listSize l + 1 := inc_eq (by have := h.lt_wrap hl; omega)
  have ht := h.total
  refine ⟨fun m hm => ?_, ?_, h.bound⟩
  · by_cases hml : m = l
    · subst hml
      simp only [Dir.put, update_self, length_append, length_singleton]
      omega
    · simpa [Dir.put, hml] using h.counts m hm
  · cases l with
    | none => exact absurd rfl hl
    | t1 | t2 | b1 | b2 =>
      simp only [Dir.put, update_self, ne_eq, reduceCtorEq, not_false_eq_true, update_of_ne]
      omega

theorem Counted.replace (h : Counted lost (k + 1) d) (hr : d.replace = .ok (y, d')) : Counted lost (k + 1) d' := by
  obtain ⟨ys, hys, rfl⟩ := replace_ok hr
  have hsrc := d.source_resident
  exact (h.take hsrc.ne_none (by rw [hys]; rfl)).put hsrc.ghost_ne_none y

theorem length_erase {as : List ℕ} (hx : x ∈ as) : as.length = (as.erase x).length + 1 := by
  have := length_pos_of_mem hx
  rw [length_erase_of_mem hx]
  omega

theorem Counted.revive_eq (h : Counted lost 0 d) {g : ListType} (other : ListType) (hg : g ≠ .none) (move : ℚ → ℚ → ℚ)
    (hx : x ∈ d.lists g) : d.revive x g other move = (do
      let (_, d) ← Dir.replace (Dir.take g ((d.lists g).erase x)
        { d with target := move d.target (maxD ((d.listSize other / d.listSize g : ℕ) : ℚ) 1) })
      return d.put x .t2) ∧
    ∀ target, Counted lost 1 (Dir.take g ((d.lists g).erase x) { d with target := target }) := by
  have hlen := length_erase hx
  have hne : d.listSize g ≠ 0 := by
    rw [h.counts g hg]
    omega
  refine ⟨by rw [Dir.revive, if_neg hne], fun target => ?_⟩
  have ht : Counted lost 0 { d with target := target } := ⟨h.counts, h.total, h.bound⟩
  exact ht.take hg hlen

theorem Counted.hit (h : Counted lost 0 d) (hl : l ≠ .none) (hx : x ∈ d.lists l) (hd : d.hit x l = .ok d') :
    Counted lost 0 d' := by
  have hlen := length_erase hx
  have hghost : ∀ {g other move}, g ≠ .none → x ∈ d.lists g → d.revive x g other move = .ok d' → Counted lost 0 d' := by
    intro g other move hg hx hr
    obtain ⟨he, hc⟩ := h.revive_eq other hg move hx
    simp only [he, bind_eq_ok] at hr
    obtain ⟨⟨y, d₁⟩, hrep, he⟩ := hr
    cases he
    exact ((hc _).replace hrep).put (by decide) x
  cases l with
  | none => exact absurd rfl hl
  | t1 =>
    cases hd
    exact (h.take hl hlen).put (by decide) x
  | t2 =>
    cases hd
    refine ⟨fun m hm => ?_, h.total, h.bound⟩
    rw [h.counts m hm]
    by_cases hm2 : m = .t2
    · subst hm2
      simp [Dir.put, Dir.take, hlen]
    · simp [Dir.put, Dir.take, hm2]
  | b1 | b2 =>
    simp only [hit] at hd
    exact hghost hl hx hd

theorem has_hit (hl : l ≠ .none) (hx : x ∈ d.lists l) (hd : d.hit x l = .ok d') (i : ℕ) :
    d'.entries = d.entries ∧ (d'.Has i ↔ d.Has i) := by
  have herase : ∀ m, ∀ j, j ≠ x → (j ∈ (d.lists m).erase x ↔ j ∈ d.lists m) := fun m j hj => mem_erase_of_ne hj
  have hsame : ∀ {p : Prop}, (i ≠ x → (p ↔ d.Has i)) → (p ∨ i = x ↔ d.Has i) := by
    intro p hp
    by_cases hi : i = x
    · subst hi
      exact iff_of_true (.inr rfl) ⟨l, hl, hx⟩
    · rw [← hp hi]
      simp [hi]
  have hghost : ∀ {g other move}, d.revive x g other move = .ok d' → d'.entries = d.entries ∧ (d'.Has i ↔ d.Has i) := by
    intro g other move hr
    unfold Dir.revive at hr
    split_ifs at hr
    simp only [bind_eq_ok] at hr
    obtain ⟨⟨y, d₁⟩, hrep, he⟩ := hr
    cases he
    obtain ⟨hent, hhas⟩ := has_replace hrep i
    refine ⟨hent, ?_⟩
    rw [has_put (by decide), hhas]
    exact hsame fun hi => has_take (herase g) hi
  cases l with
  | none => exact absurd rfl hl
  | t1 =>
    cases hd
    refine ⟨rfl, ?_⟩
    rw [has_put (by decide)]
    exact hsame fun hi => has_take (herase .t1) hi
  | t2 =>
    cases hd
    refine ⟨rfl, .trans (has_put (d := d.take .t2 ((d.lists .t2).erase x)) (by decide)) ?_⟩
    exact hsame fun hi => has_take (herase .t2) hi
  | b1 | b2 =>
    simp only [hit] at hd
    exact hghost hd

theorem Counted.obtain (h : Counted lost 0 d) (ho : d.obtain = .ok (x, d')) : Counted lost 1 d' := by
  have hpurge : ∀ {l d' x}, l ≠ .none → d.purge l = .ok (x, d') → Counted lost 1 d' := by
    intro l d' x hl hp
    obtain ⟨xs, hxs, rfl⟩ := purge_ok hp
    exact h.take hl (by rw [hxs]; rfl)
  have hnew : ∀ {d' x}, d.getNew = .ok (x, d') → Counted lost 1 d' := by
    intro d' x hg
    unfold getNew at hg
    split_ifs at hg with hlt
    obtain ⟨-, rfl⟩ := ok_inj hg
    exact ⟨h.counts, congrArg (· + 1) h.total, hlt⟩
  have hshift : ∀ {r : Except Fault (ℕ × Dir)}, (∀ {d' x}, r = .ok (x, d') → Counted lost 1 d') →
      shift r = .ok (x, d') → Counted lost 1 d' := by
    intro r hr hs
    simp only [shift, bind_eq_ok] at hs
    obtain ⟨⟨x', d₁⟩, h₁, ⟨y, d₂⟩, h₂, he⟩ := hs
    cases he
    exact (hr h₁).replace h₂
  unfold Dir.obtain at ho
  split_ifs at ho
  · exact hshift (hpurge (by decide)) ho
  · exact hpurge (by decide) ho
  · exact hshift (hpurge (by decide)) ho
  · exact hshift hnew ho
  · exact hnew ho

def Demoted (ls ls' : ListType → List ℕ) : Prop :=
  ((ls .t1).length = (ls' .t1).length + 1 ∧ (ls' .b1).length = (ls .b1).length + 1 ∧
    (ls' .t2).length = (ls .t2).length ∧ (ls' .b2).length = (ls .b2).length) ∨
  ((ls .t2).length = (ls' .t2).length + 1 ∧ (ls' .b2).length = (ls .b2).length + 1 ∧
    (ls' .t1).length = (ls .t1).length ∧ (ls' .b1).length = (ls .b1).length)

theorem Dir.replace_full (d : Dir) (hn : 1 ≤ n) (htarget : ∃ k : ℕ, d.target = k ∧ k ≤ n)
    (ht1 : d.listSize .t1 = (d.lists .t1).length) (hfull : (d.lists .t1).length + (d.lists .t2).length = n) :
    ∃ y d', d.replace = .ok (y, d') ∧ d'.size = d.size ∧ d'.entries = d.entries ∧ d'.target = d.target ∧
      Demoted d.lists d'.lists := by
  obtain ⟨k, hk, hkn⟩ := htarget
  unfold replace source purge
  split_ifs with hcmp
  · have hpos : 0 < (d.lists .t1).length := by
      rw [maxD_eq, ht1] at hcmp
      have h1 : (1 : ℚ) ≤ ((d.lists .t1).length : ℚ) := by
        simpa using (le_max_right d.target ((1 : ℕ) : ℚ)).trans hcmp
      exact_mod_cast h1
    obtain ⟨y, ys, hy⟩ := exists_cons_of_length_pos hpos
    rw [hy]
    exact ⟨y, _, rfl, rfl, rfl, rfl, .inl (by simp [Dir.put, Dir.take, ghost, hy])⟩
  · have hpos : 0 < (d.lists .t2).length := by
      rw [maxD_eq, hk, ht1, not_le, lt_max_iff] at hcmp
      have hlt : (d.lists .t1).length < n := by
        rcases hcmp with hcmp | hcmp
        · have : (d.lists .t1).length < k := by exact_mod_cast hcmp
          omega
        · have : (d.lists .t1).length < 1 := by exact_mod_cast hcmp
          omega
      omega
    obtain ⟨y, ys, hy⟩ := exists_cons_of_length_pos hpos
    rw [hy]
    exact ⟨y, _, rfl, rfl, rfl, rfl, .inr (by simp [Dir.put, Dir.take, ghost, hy])⟩

theorem Fits.revive (h : Fits n d) {g : ListType} (other : ListType) (hg : g = .b1 ∨ g = .b2) (move : ℚ → ℚ → ℚ)
    (hmove : ∀ k q : ℕ, k ≤ n → ∃ k' : ℕ, move k (max (q : ℚ) 1) = k' ∧ k' ≤ n) (hx : x ∈ d.lists g) :
    ∃ d', d.revive x g other move = .ok d' ∧ Within n d' := by
  have hgn : g ≠ .none := by rcases hg with rfl | rfl <;> decide
  have hlen := length_erase hx
  have hfull := h.capacity.full_of_ghost (by rcases hg with rfl | rfl <;> omega)
  obtain ⟨ht, h1, h2, h3, h4, h5⟩ := h.capacity
  obtain ⟨k, hk, hkn⟩ := h.target
  have htarget := hmove k (d.listSize other / d.listSize g) hkn
  obtain ⟨he, hc⟩ := h.revive_eq other hgn move hx
  have hc1 := (hc (move d.target (maxD ((d.listSize other / d.listSize g : ℕ) : ℚ) 1))).counts .t1 (by decide)
  rw [hk, maxD_eq] at he hc1
  rw [he]
  obtain ⟨y, d₁, hrep, hsize, hent, htgt, hdem⟩ := replace_full _ (by rcases hg with rfl | rfl <;> omega)
    htarget hc1 (by rcases hg with rfl | rfl <;> simpa [Dir.take] using hfull)
  rw [hrep]
  refine ⟨_, rfl, hsize.trans h.size, ?_, htgt ▸ htarget⟩
  change Capacity n d₁.entries _ _ _ _
  rw [hent]
  rcases hg with rfl | rfl <;> rcases hdem with hd | hd <;> simp [Dir.take] at hd <;>
    simp [Dir.put, Dir.take] <;> constructor <;> omega

theorem Fits.hit (h : Fits n d) (hl : l ≠ .none) (hx : x ∈ d.lists l) : ∃ d', d.hit x l = .ok d' ∧ Fits n d' := by
  have hwithin : ∃ d', d.hit x l = .ok d' ∧ Within n d' := by
    have hlen := length_erase hx
    obtain ⟨ht, h1, h2, h3, h4, h5⟩ := h.capacity
    cases l with
    | none => exact absurd rfl hl
    | t1 | t2 =>
      refine ⟨_, rfl, h.size, ?_, h.target⟩
      simp only [Dir.put, Dir.take, update_self, ne_eq, reduceCtorEq, not_false_eq_true, update_of_ne,
        length_append, length_singleton]
      constructor <;> omega
    | b1 =>
      simp only [hit, h.size]
      exact h.revive .b2 (.inl rfl) _ (target_up n) hx
    | b2 =>
      simp only [hit]
      exact h.revive .b1 (.inr rfl) _ (target_down n) hx
  obtain ⟨d', hd, hw⟩ := hwithin
  have hhas := has_hit hl hx hd
  exact ⟨d', hd, h.toCounted.hit hl hx hd, hw, fun i hi => (hhas i).2.mpr (h.listed i ((hhas i).1 ▸ hi))⟩

theorem Fits.obtain (h : Fits n d) (hn : 1 ≤ n) (hn' : n < 2 ^ 31) :
    ∃ x d', d.obtain = .ok (x, d') ∧ Fits n (d'.put x .t1) := by
  obtain ⟨ht, h1, h2, h3, h4, h5⟩ := h.capacity
  have hghost : ∀ g, g = .b1 ∨ g = .b2 → 0 < (d.lists g).length → (d.lists .t1).length + (d.lists .t2).length = n →
      ∃ x xs d', shift (d.purge g) = .ok (x, d') ∧ (d.lists g).length = xs.length + 1 ∧ d'.size = n ∧
        d'.entries = d.entries ∧ d'.target = d.target ∧ Demoted (update d.lists g xs) d'.lists := by
    intro g hg hpos hfull
    obtain ⟨x, xs, hxs⟩ := exists_cons_of_length_pos hpos
    have hgn : g ≠ .none := by rcases hg with rfl | rfl <;> decide
    have hp : d.purge g = .ok (x, d.take g xs) := by rw [purge, hxs]
    obtain ⟨y, d', hr, hsize, hent, htarget, hdem⟩ := replace_full (d.take g xs) hn h.target
      ((h.toCounted.take hgn (by rw [hxs]; rfl)).counts .t1 (by decide))
      (by rcases hg with rfl | rfl <;> simpa [Dir.take] using hfull)
    refine ⟨x, xs, d', ?_, by rw [hxs]; rfl, hsize.trans h.size, hent, htarget, hdem⟩
    rw [shift, hp, ok_bind]
    dsimp only
    rw [hr]
    rfl
  have hwithin : ∃ x d', d.obtain = .ok (x, d') ∧ Within n (d'.put x .t1) := by
    have s1 := h.counts .t1 (by decide)
    have s2 := h.counts .b1 (by decide)
    unfold Dir.obtain
    rw [s1, h.size]
    split_ifs with hA hA1 hB hB1
    · obtain ⟨x, xs, d', hs, hlen, hsize, hent, htarget, hdem⟩ := hghost .b1 (.inl rfl) (by omega) (by omega)
      refine ⟨x, d', hs, hsize, ?_, htarget ▸ h.target⟩
      rcases hdem with hd | hd <;> simp at hd <;> simp [Dir.put] <;> constructor <;> omega
    · obtain ⟨x, xs, hxs⟩ := exists_cons_of_length_pos (show 0 < (d.lists .t1).length by omega)
      have hlen : (d.lists .t1).length = xs.length + 1 := by rw [hxs]; rfl
      refine ⟨x, d.take .t1 xs, by rw [purge, hxs], h.size, ?_, h.target⟩
      simp [Dir.put, Dir.take]
      constructor <;> omega
    · obtain ⟨x, xs, d', hs, hlen, hsize, hent, htarget, hdem⟩ := hghost .b2 (.inr rfl) (by omega) (by omega)
      refine ⟨x, d', hs, hsize, ?_, htarget ▸ h.target⟩
      rcases hdem with hd | hd <;> simp at hd <;> simp [Dir.put] <;> constructor <;> omega
    · obtain ⟨y, d', hr, hsize, hent, htarget, hdem⟩ := replace_full
        { d with entries := d.entries + 1 } hn h.target s1 (by dsimp only; omega)
      refine ⟨d.entries, d', ?_, hsize.trans h.size, ?_, htarget ▸ h.target⟩
      · rw [shift, getNew, if_pos (by rw [h.size]; omega), ok_bind]
        dsimp only
        rw [hr]
        rfl
      · rcases hdem with hd | hd <;> simp at hd <;> simp [Dir.put, hent] <;> constructor <;> omega
    · -- the directory is still filling up
      refine ⟨d.entries, { d with entries := d.entries + 1 }, by rw [getNew, if_pos (by rw [h.size]; omega)],
        h.size, ?_, h.target⟩
      simp [Dir.put]
      constructor <;> omega
  obtain ⟨x, d', ho, hw⟩ := hwithin
  obtain ⟨hslot, hothers⟩ := obtained ho
  refine ⟨x, d', ho, (h.toCounted.obtain ho).put (by decide) x, hw, fun i hi => ?_⟩
  rw [has_put (by decide)]
  by_cases hix : i = x
  · exact .inr hix
  · have hi' : i < d'.entries := hi
    exact .inl ((hothers i hix).mpr (h.listed i (by rcases hslot with ⟨he, _⟩ | ⟨he, hx⟩ <;> omega)))

end

section
variable {c c' : Cache} {d : Dir} {ls : ListType → List ℕ} {x n : ℕ}

theorem Arc.fits (h : Arc n c ls) (hn' : n < 2 ^ 31) : Fits n (dirOf c ls) := by
  have hcap := h.capacity.cap
  refine ⟨⟨h.sizes, ?_, ?_⟩, ⟨h.size, h.capacity, h.target⟩, fun i hi => ?_⟩
  · have ht := h.capacity.total
    simp only [dirOf, h.sizes .t1 (by decide), h.sizes .t2 (by decide), h.sizes .b1 (by decide), h.sizes .b2 (by decide)]
    omega
  · simp only [dirOf, h.size]
    omega
  · exact (h.rep.shows.has_iff hi).mpr (h.listed i hi)

theorem Shows.arc (h : Shows c d) (hf : Fits n d) (hlive : KeysLive c) : Arc n c d.lists := by
  refine ⟨h.rep, fun l hl => ?_, fun i hi => (h.has_iff hi).mp (hf.listed i (h.entries ▸ hi)), hlive,
    h.size.trans hf.size, ?_, h.target ▸ hf.target⟩
  · rw [h.listSize]
    exact hf.counts l hl
  · rw [CapacityOf, h.entries]
    exact hf.capacity

theorem Fits.hitEntry (h : Fits n d) (hs : Shows c d) (hx : x < c.entries) :
    ∃ c' d', LocalCache.hitEntry x c = .ok c' ∧ Shows c' d' ∧ Fits n d' := by
  obtain ⟨l, hl, hin⟩ := h.listed x (hs.entries ▸ hx)
  obtain ⟨d', hd, hf⟩ := h.hit hl hin
  obtain ⟨c', hc, hs'⟩ := (hit_related hs hl hin).ok_right hd
  exact ⟨c', d', hc, hs', hf⟩

end

end Razorback.LocalCache
