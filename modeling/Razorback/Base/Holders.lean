import Mathlib.Algebra.BigOperators.Group.Finset.Basic
import Mathlib.Algebra.BigOperators.Pi
import Mathlib.Algebra.Order.BigOperators.Group.Finset
import Mathlib.Data.Fintype.Basic
import Mathlib.Data.UInt

/-! How many members of a finite family satisfy a test, and how the number moves
when one member is replaced. -/

namespace Razorback.Holders
open Finset Function

variable {ι α : Type} [Fintype ι] {p : α → Bool} {f : ι → α} {t : ι} {x : α}

def holders (p : α → Bool) (f : ι → α) : ℕ := ∑ t, (p (f t)).toNat

theorem holders_eq_zero (h : ∀ t, p (f t) = false) : holders p f = 0 :=
  sum_eq_zero fun t _ => by rw [h t]; rfl

theorem holders_mono {q : α → Bool} (h : ∀ x, p x → q x) (f : ι → α) : holders p f ≤ holders q f :=
  sum_le_sum fun t _ => Bool.toNat_le_toNat (h (f t))

theorem holders_le_card (p : α → Bool) (f : ι → α) : holders p f ≤ Fintype.card ι := by
  have hle : holders p f ≤ ∑ _t : ι, 1 := sum_le_sum fun t _ => Bool.toNat_le _
  simpa using hle

theorem exists_of_holders_pos (h : 0 < holders p f) : ∃ t, p (f t) := by
  by_contra hnone
  have hzero : holders p f = 0 := holders_eq_zero fun t => Bool.eq_false_iff.mpr fun ht => hnone ⟨t, ht⟩
  exact absurd h (hzero ▸ Nat.lt_irrefl 0)

variable [DecidableEq ι]

theorem holders_eq_add (p : α → Bool) (f : ι → α) (t : ι) :
    holders p f = (p (f t)).toNat + ∑ u ∈ Finset.univ.erase t, (p (f u)).toNat :=
  (add_sum_erase _ _ (mem_univ t)).symm

theorem holders_update (p : α → Bool) (f : ι → α) (t : ι) (x : α) :
    holders p (update f t x) + (p (f t)).toNat = holders p f + (p x).toNat := by
  have hrest : ∑ u ∈ univ.erase t, (p (update f t x u)).toNat =
      ∑ u ∈ univ.erase t, (p (f u)).toNat :=
    sum_congr rfl fun u hu => by rw [update_of_ne (ne_of_mem_erase hu)]
  rw [holders_eq_add p (update f t x) t, holders_eq_add p f t, hrest, update_self]
  omega

theorem holders_pos (h : p (f t)) : 0 < holders p f := by
  rw [holders_eq_add p f t, h]
  exact Nat.add_pos_left Nat.one_pos _

theorem holders_eq_zero_iff : holders p f = 0 ↔ ∀ t, p (f t) = false := by
  refine ⟨fun h t => Bool.eq_false_iff.mpr fun ht => ?_, holders_eq_zero⟩
  exact Nat.ne_of_gt (holders_pos ht) h

theorem holders_same (h : p x = p (f t)) : holders p (update f t x) = holders p f := by
  have hup := holders_update p f t x
  rw [h] at hup
  exact Nat.add_right_cancel hup

end Razorback.Holders
