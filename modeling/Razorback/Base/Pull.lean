import Razorback.Base.Runs

/-! Pulling a resumable reader dry. The reader is asked for some number of
elements, again and again, until it first answers with none. -/

namespace Razorback.Pull
open Runs

universe u
variable {ε α σ : Type u}

/-- Ask for `sizes i` elements, then for `sizes (i + 1)`, at most `calls` times.
The answers, whether the last of them was empty, and the reader's state. -/
def pull (read : ℕ → σ → Except ε (List α × σ)) (sizes : ℕ → ℕ) :
    ℕ → ℕ → σ → Except ε (List α × Bool × σ)
  | 0, _, s => .ok ([], false, s)
  | calls + 1, i, s => do
    let (out, s) ← read (sizes i) s
    if out.isEmpty then return ([], true, s)
    else
      let (rest, dry, s) ← pull read sizes calls (i + 1) s
      return (out ++ rest, dry, s)

variable {read : ℕ → σ → Except ε (List α × σ)} {sizes : ℕ → ℕ} {i : ℕ} {s s' : σ}

theorem pull_succ_nil {calls : ℕ} (h : read (sizes i) s = .ok ([], s')) :
    pull read sizes (calls + 1) i s = .ok ([], true, s') := by
  simp only [pull, h]
  rfl

theorem pull_succ_cons {calls : ℕ} {out : List α} (h : read (sizes i) s = .ok (out, s'))
    (hout : out ≠ []) :
    pull read sizes (calls + 1) i s =
      (pull read sizes calls (i + 1) s').map fun r => (out ++ r.1, r.2) := by
  have hne : out.isEmpty = false := List.isEmpty_eq_false_iff.mpr hout
  simp only [pull, h, ok_bind, hne]
  cases pull read sizes calls (i + 1) s' <;> rfl

/-- A reader that gives away a part of what is left with every answer, and more
than nothing while something is left, gives all of it. -/
theorem pull_all {L : σ → List α → Prop}
    (hread : ∀ i s left, L s left → ∃ out left' s', read (sizes i) s = .ok (out, s') ∧
      left = out ++ left' ∧ (out = [] → left = []) ∧ L s' left')
    {left : List α} (hs : L s left) (i : ℕ) :
    ∃ calls s', pull read sizes calls i s = .ok (left, true, s') := by
  induction hn : left.length using Nat.strongRecOn generalizing s left i with
  | ind n ih =>
    obtain ⟨out, left', s', hr, rfl, hnil, hl⟩ := hread i s left hs
    rcases eq_or_ne out [] with rfl | hout
    · obtain rfl := hnil rfl
      exact ⟨1, s', pull_succ_nil hr⟩
    · have hpos := List.length_pos_iff.mpr hout
      rw [List.length_append] at hn
      obtain ⟨calls, s'', hrest⟩ := ih left'.length (by omega) hl (i + 1) rfl
      refine ⟨calls + 1, s'', ?_⟩
      rw [pull_succ_cons hr hout, hrest]
      rfl

theorem pull_ne_dry {e : ε} {calls : ℕ} {out : List α} (h : read (sizes i) s = .error e) :
    pull read sizes calls i s ≠ .ok (out, true, s') := by
  cases calls with
  | zero => exact fun hp => nomatch hp
  | succ calls =>
    simp only [pull, h]
    exact fun hp => nomatch hp

theorem pull_dry_unique {calls calls' : ℕ} {out out' : List α} {t t' : σ}
    (h : pull read sizes calls i s = .ok (out, true, t))
    (h' : pull read sizes calls' i s = .ok (out', true, t')) : out = out' := by
  induction calls generalizing calls' i s out out' with
  | zero => cases h
  | succ calls ih =>
    cases calls' with
    | zero => cases h'
    | succ calls' =>
      simp only [pull, bind_eq_ok] at h h'
      obtain ⟨⟨first, s₁⟩, hr, h⟩ := h
      obtain ⟨⟨first', s₁'⟩, hr', h'⟩ := h'
      obtain ⟨rfl, rfl⟩ := Prod.mk.inj (Except.ok.inj (hr.symm.trans hr'))
      cases hempty : first.isEmpty with
      | true =>
        simp only [hempty, if_true] at h h'
        cases h
        cases h'
        rfl
      | false =>
        simp only [hempty, Bool.false_eq_true, if_false, bind_eq_ok] at h h'
        obtain ⟨⟨rest, dry, t₁⟩, hp, h⟩ := h
        obtain ⟨⟨rest', dry', t₁'⟩, hp', h'⟩ := h'
        cases h
        cases h'
        rw [ih hp hp']

theorem pull_invariant {I : σ → Prop} (hread : ∀ k s out s', I s → read k s = .ok (out, s') → I s')
    {calls : ℕ} {out : List α} {dry : Bool} (hs : I s)
    (h : pull read sizes calls i s = .ok (out, dry, s')) : I s' := by
  induction calls generalizing i s out with
  | zero =>
    cases h
    exact hs
  | succ calls ih =>
    simp only [pull, bind_eq_ok] at h
    obtain ⟨⟨first, s₁⟩, hr, h⟩ := h
    have hs₁ := hread _ _ _ _ hs hr
    cases hempty : first.isEmpty with
    | true =>
      simp only [hempty] at h
      cases h
      exact hs₁
    | false =>
      simp only [hempty, Bool.false_eq_true, if_false, bind_eq_ok] at h
      obtain ⟨⟨rest, dry', t₁⟩, hp, h⟩ := h
      cases h
      exact ih hs₁ hp

end Razorback.Pull
