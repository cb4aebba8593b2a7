import Mathlib.Data.UInt

/-! Choice by a list of tests in the order of preference: the first item that
passes the earliest test that any item passes. -/

namespace Razorback.Preferences
open List

variable {α : Type}

def choose (tests : List (α → Bool)) (items : List α) : Option α := tests.findSome? fun test => items.find? test

def rank (tests : List (α → Bool)) (x : α) : ℕ := tests.findIdx fun test => test x

theorem choose_nil (tests : List (α → Bool)) : choose tests [] = none :=
  findSome?_eq_none_iff.mpr fun _ _ => rfl

theorem choose_cons_iff (tests : List (α → Bool)) (x : α) (xs : List α) :
    choose tests (x :: xs) = some x ↔
      (∃ test ∈ tests, test x) ∧ ∀ y ∈ xs, rank tests x ≤ rank tests y := by
  induction tests with
  | nil => simp [choose]
  | cons test tests ih =>
    cases hx : test x with
    | true => simp [choose, rank, findIdx_cons, hx]
    | false =>
      by_cases hxs : ∃ y ∈ xs, test y
      · obtain ⟨y, hy, hty⟩ := hxs
        obtain ⟨z, hz⟩ : ∃ z, xs.find? test = some z := Option.isSome_iff_exists.mp (by
          rw [find?_isSome]
          exact ⟨y, hy, hty⟩)
        have hne : z ≠ x := by
          rintro rfl
          rw [find?_some hz] at hx
          cases hx
        refine iff_of_false (fun hchoose => hne ?_) fun h => ?_
        · simpa [choose, hx, hz] using hchoose
        · have hrank := h.2 y hy
          simp [rank, findIdx_cons, hx, hty] at hrank
      · have hnone : (x :: xs).find? test = none := by
          simpa [hx] using hxs
        have hrank : ∀ y ∈ x :: xs, rank (test :: tests) y = rank tests y + 1 := by
          intro y hy
          have hty := find?_eq_none.mp hnone y hy
          simp [rank, findIdx_cons, hty]
        have hchoose : choose (test :: tests) (x :: xs) = choose tests (x :: xs) := by
          simp [choose, hnone]
        rw [hchoose, ih, hrank x mem_cons_self]
        refine and_congr (by simp [hx]) (forall₂_congr fun y hy => ?_)
        rw [hrank y (mem_cons_of_mem x hy)]
        exact Nat.succ_le_succ_iff.symm

end Razorback.Preferences
