import Mathlib.Data.UInt

/-! Lists kept in the order of past events. A history has its newest step first,
and steps are numbered from the oldest one; a list is in order when its members
were entered one after the other. -/

namespace Razorback.Recency
open List

variable {ι σ : Type*}

def lastTime (test : σ → Bool) : List σ → Option ℕ
  | [] => none
  | s :: older => if test s then some older.length else lastTime test older

def Before (a b : Option ℕ) : Prop := ∃ m n, a = some m ∧ b = some n ∧ m < n

structure InOrder (time : ι → Option ℕ) (xs : List ι) : Prop where
  known : ∀ x ∈ xs, ∃ n, time x = some n
  sorted : xs.Pairwise fun x y => Before (time x) (time y)

structure Oldest (time : ι → Option ℕ) (xs : List ι) (x : ι) : Prop where
  mem : x ∈ xs
  first : ∀ y ∈ xs, y ≠ x → Before (time x) (time y)

section
variable {test : σ → Bool} {h : List σ} {s : σ}

theorem lastTime_of_true (hs : test s) : lastTime test (s :: h) = some h.length := if_pos hs

theorem lastTime_of_false (hs : test s = false) : lastTime test (s :: h) = lastTime test h := by
  rw [lastTime, hs]
  rfl

theorem lastTime_lt {n : ℕ} (hn : lastTime test h = some n) : n < h.length := by
  induction h with
  | nil => cases hn
  | cons s h ih =>
    cases hs : test s with
    | true =>
      rw [lastTime_of_true hs] at hn
      exact Option.some.inj hn ▸ Nat.lt_succ_self _
    | false =>
      rw [lastTime_of_false hs] at hn
      exact Nat.lt_succ_of_lt (ih hn)

end

variable {time time' : ι → Option ℕ} {xs ys : List ι} {x : ι}

theorem inOrder_nil : InOrder time [] := ⟨fun _ hx => absurd hx not_mem_nil, .nil⟩

theorem InOrder.sublist (h : InOrder time xs) (hs : ys.Sublist xs) : InOrder time ys :=
  ⟨fun x hx => h.known x (hs.subset hx), h.sorted.sublist hs⟩

theorem InOrder.congr (h : InOrder time xs) (he : ∀ x ∈ xs, time' x = time x) : InOrder time' xs := by
  refine ⟨fun x hx => he x hx ▸ h.known x hx, h.sorted.imp_of_mem fun hx hy hb => ?_⟩
  rw [he _ hx, he _ hy]
  exact hb

theorem InOrder.oldest (h : InOrder time (x :: xs)) : Oldest time (x :: xs) x := by
  refine ⟨mem_cons_self, fun y hy hne => ?_⟩
  rcases mem_cons.mp hy with rfl | hy
  · exact absurd rfl hne
  · exact rel_of_pairwise_cons h.sorted hy

theorem InOrder.enter {test : ι → σ → Bool} {h : List σ} {s : σ} {kept : List ι} {e : Option ι}
    (ho : InOrder (fun i => lastTime (test i) h) xs) (hk : kept.Sublist xs)
    (he : ∀ i, test i s ↔ e = some i) (hnd : ∀ i ∈ kept, e ≠ some i) :
    InOrder (fun i => lastTime (test i) (s :: h)) (kept ++ e.toList) := by
  have hkept : InOrder (fun i => lastTime (test i) (s :: h)) kept := by
    refine (ho.sublist hk).congr fun i hi => lastTime_of_false ?_
    exact Bool.eq_false_iff.mpr fun ht => hnd i hi ((he i).mp ht)
  cases e with
  | none => simpa using hkept
  | some x =>
    have hx : lastTime (test x) (s :: h) = some h.length := lastTime_of_true ((he x).mpr rfl)
    refine ⟨fun i hi => ?_, ?_⟩
    · rcases mem_append.mp hi with hi | hi
      · exact hkept.known i hi
      · obtain rfl : i = x := by simpa using hi
        exact ⟨_, hx⟩
    · refine pairwise_append.mpr ⟨hkept.sorted, pairwise_singleton _ _, fun i hi j hj => ?_⟩
      obtain rfl : j = x := by simpa using hj
      -- what was kept was entered by an older step
      obtain ⟨n, hn⟩ := (ho.sublist hk).known i hi
      have hold : lastTime (test i) (s :: h) = some n := by
        rw [lastTime_of_false (Bool.eq_false_iff.mpr fun ht => hnd i hi ((he i).mp ht))]
        exact hn
      exact ⟨n, h.length, hold, hx, lastTime_lt hn⟩

end Razorback.Recency
