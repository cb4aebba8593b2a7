import Mathlib.Data.UInt

/-! Monitors: machines that read a trace of events one by one and refuse it at the
first event that is out of turn. What a monitor lets through can be read off its
transition function. -/

namespace Razorback.Monitor
open List

variable {σ α : Type} {next : σ → α → Option σ} {s s' : σ}

def run (next : σ → α → Option σ) (s : σ) (as : List α) : Option σ := as.foldlM next s

@[simp] theorem run_nil : run next s [] = some s := rfl

@[simp] theorem run_cons (a : α) (as : List α) :
    run next s (a :: as) = (next s a).bind fun m => run next m as := rfl

theorem run_append (as bs : List α) :
    run next s (as ++ bs) = (run next s as).bind fun m => run next m bs := by
  rw [run, foldlM_append]
  rfl

theorem run_split {as bs : List α} {a : α} (h : run next s (as ++ a :: bs) = some s') :
    ∃ m m', run next s as = some m ∧ next m a = some m' ∧ run next m' bs = some s' := by
  rw [run_append, Option.bind_eq_some_iff] at h
  obtain ⟨m, hm, h⟩ := h
  rw [run_cons, Option.bind_eq_some_iff] at h
  obtain ⟨m', hm', h⟩ := h
  exact ⟨m, m', hm, hm', h⟩

theorem run_refusing {as : List α} (hs : ∀ a, next s a = none) (h : run next s as = some s') :
    as = [] := by
  cases as with
  | nil => rfl
  | cons a as => simp [hs a] at h

theorem count_add_flag [DecidableEq α] (flag : σ → Bool) (a : α) {as : List α}
    (hset : ∀ s s', next s a = some s' → flag s = false ∧ flag s')
    (hkeep : ∀ s b s', b ≠ a → next s b = some s' → flag s' = flag s)
    (h : run next s as = some s') : as.count a + (flag s).toNat = (flag s').toNat := by
  induction as generalizing s with
  | nil =>
    obtain rfl := Option.some.inj h
    simp
  | cons b as ih =>
    rw [run_cons, Option.bind_eq_some_iff] at h
    obtain ⟨m, hm, h⟩ := h
    have hrest := ih h
    by_cases hb : b = a
    · subst hb
      obtain ⟨hs, hm⟩ := hset s m hm
      rw [hm] at hrest
      rw [hs, ← hrest]
      simp
    · rw [count_cons_of_ne hb, ← hkeep s b m hb hm]
      exact hrest

theorem pairwise_of_climbs {β : Type} (sel : α → Option β) (rank : β → ℕ) (height : σ → ℕ)
    {as : List α}
    (hsel : ∀ s a b s', sel a = some b → next s a = some s' → height s < rank b ∧ height s' = rank b)
    (hkeep : ∀ s a s', sel a = none → next s a = some s' → height s' = height s)
    (h : run next s as = some s') :
    (∀ b ∈ as.filterMap sel, height s < rank b) ∧
      (as.filterMap sel).Pairwise fun b c => rank b < rank c := by
  induction as generalizing s with
  | nil => simp
  | cons a as ih =>
    rw [run_cons, Option.bind_eq_some_iff] at h
    obtain ⟨m, hm, h⟩ := h
    obtain ⟨hlow, hpair⟩ := ih h
    cases hs : sel a with
    | none =>
      rw [filterMap_cons_none hs, ← hkeep s a m hs hm]
      exact ⟨hlow, hpair⟩
    | some b =>
      obtain ⟨hlt, heq⟩ := hsel s a b m hs hm
      rw [heq] at hlow
      rw [filterMap_cons_some hs]
      refine ⟨?_, pairwise_cons.mpr ⟨hlow, hpair⟩⟩
      intro c hc
      rcases mem_cons.mp hc with rfl | hc
      · exact hlt
      · exact Nat.lt_trans hlt (hlow c hc)

end Razorback.Monitor
