import Mathlib.Data.UInt

/-! Reference counts in a machine word. The word holds the number of references
modulo `m`; a reference is only added while the word is not zero, so that there
are never more than `m` of them and the word is one exactly when one is left. -/

namespace Razorback.References

def retain (m r : ℕ) : ℕ := (r + 1) % m

def release (m r : ℕ) : ℕ := (r + (m - 1)) % m

theorem retain_mod (m k : ℕ) : retain m (k % m) = (k + 1) % m := by
  rw [retain, Nat.mod_add_mod]

theorem release_mod {m k : ℕ} (hm : 0 < m) (hk : 0 < k) : release m (k % m) = (k - 1) % m := by
  have hsum : k + (m - 1) = k - 1 + m := by omega
  rw [release, Nat.mod_add_mod, hsum, Nat.add_mod_right]

structure Counts (m r total : ℕ) : Prop where
  value : r = total % m
  le : total ≤ m

section
variable {m r total : ℕ}

section
variable (h : Counts m r total)
include h

theorem Counts.lt_of_ne_zero (hr : r ≠ 0) : total < m := by
  refine Nat.lt_of_le_of_ne h.le fun htotal => hr ?_
  rw [h.value, htotal, Nat.mod_self]

theorem Counts.pos_of_ne_zero (hr : r ≠ 0) : 0 < total := by
  refine Nat.pos_of_ne_zero fun htotal => hr ?_
  rw [h.value, htotal, Nat.zero_mod]

theorem Counts.retain (hr : r ≠ 0) : Counts m (retain m r) (total + 1) := by
  refine ⟨?_, h.lt_of_ne_zero hr⟩
  rw [h.value, retain_mod]

theorem Counts.release (hpos : 0 < total) : Counts m (release m r) (total - 1) := by
  refine ⟨?_, Nat.le_trans (Nat.sub_le _ _) h.le⟩
  rw [h.value, release_mod (Nat.lt_of_lt_of_le hpos h.le) hpos]

theorem Counts.eq_one_iff (hm : 1 < m) : r = 1 ↔ total = 1 := by
  rw [h.value]
  rcases Nat.lt_or_eq_of_le h.le with hlt | rfl
  · rw [Nat.mod_eq_of_lt hlt]
  · rw [Nat.mod_self]
    omega

end

end

end Razorback.References
