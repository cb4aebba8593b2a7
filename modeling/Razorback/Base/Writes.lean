import Mathlib.Data.UInt

/-! Writing to a sink that may take less than it is offered. A write takes the
first elements offered to it, or fails; the loop around it offers what is left
until nothing is, or until a write fails. -/

namespace Razorback.Writes
open List

universe u
variable {α : Type u}

/-- What a sink holds and how its next writes go: `some k` takes at most `k`
elements, `none` fails. Once the list is used up a write takes everything. -/
structure Sink (α : Type u) where
  content : List α
  results : List (Option ℕ)

def drain : List α → List (Option ℕ) → Bool × List α × List (Option ℕ)
  | [], rs => (true, [], rs)
  | data, [] => (true, data, [])
  | _, none :: rs => (false, [], rs)
  | data, some k :: rs =>
    let (ok, out, rs) := drain (data.drop k) rs
    (ok, data.take k ++ out, rs)

def Sink.write (data : List α) (s : Sink α) : Bool × Sink α :=
  let (ok, out, rs) := drain data s.results
  (ok, ⟨s.content ++ out, rs⟩)

inductive Offered (data : List α) (s : Sink α) : Bool × Sink α → Prop
  | all (rs : List (Option ℕ)) : Offered data s (true, ⟨s.content ++ data, rs⟩)
  | part (out left : List α) (rs : List (Option ℕ)) (hleft : left ≠ []) (hdata : data = out ++ left) :
      Offered data s (false, ⟨s.content ++ out, rs⟩)

theorem drain_spec (data : List α) (rs : List (Option ℕ)) :
    ((drain data rs).1 ∧ (drain data rs).2.1 = data) ∨
      ((drain data rs).1 = false ∧ ∃ left, left ≠ [] ∧ data = (drain data rs).2.1 ++ left) := by
  induction rs generalizing data with
  | nil => cases data <;> exact .inl ⟨rfl, rfl⟩
  | cons r rs ih =>
    rcases data with _ | ⟨a, data⟩
    · exact .inl ⟨rfl, rfl⟩
    · cases r with
      | none => exact .inr ⟨rfl, a :: data, cons_ne_nil a data, rfl⟩
      | some k =>
        rcases ih ((a :: data).drop k) with ⟨hok, hout⟩ | ⟨hok, left, hleft, hdata⟩
        · refine .inl ⟨hok, ?_⟩
          change (a :: data).take k ++ (drain ((a :: data).drop k) rs).2.1 = a :: data
          rw [hout, take_append_drop]
        · refine .inr ⟨hok, left, hleft, ?_⟩
          change a :: data = (a :: data).take k ++ (drain ((a :: data).drop k) rs).2.1 ++ left
          rw [append_assoc, ← hdata, take_append_drop]

theorem offered_write (data : List α) (s : Sink α) : Offered data s (s.write data) := by
  rcases h : drain data s.results with ⟨ok, out, rs⟩
  have hspec := drain_spec data s.results
  rw [Sink.write, h]
  rw [h] at hspec
  rcases hspec with ⟨rfl, rfl⟩ | ⟨rfl, left, hleft, hdata⟩
  · exact .all rs
  · exact .part out left rs hleft hdata

variable {s t : Sink α} {data more : List α} {r : Bool × Sink α}

theorem offered_nil (s : Sink α) : Offered [] s (true, s) := by
  have h : Offered [] s (true, ⟨s.content ++ [], s.results⟩) := .all s.results
  rwa [append_nil] at h

theorem Offered.append (h : Offered data s (true, t)) (h' : Offered more t r) :
    Offered (data ++ more) s r := by
  cases h with
  | all rs =>
    cases h' with
    | all rs' =>
      rw [append_assoc]
      exact .all rs'
    | part out left rs' hleft hmore =>
      rw [append_assoc]
      exact .part (data ++ out) left rs' hleft (by rw [hmore, append_assoc])

theorem Offered.append_failed (h : Offered data s (false, t)) (more : List α) :
    Offered (data ++ more) s (false, t) := by
  cases h with
  | part out left rs hleft hdata =>
    refine .part out (left ++ more) rs (fun h => hleft (append_eq_nil_iff.mp h).1) ?_
    rw [hdata, append_assoc]

theorem drain_unfailing {rs : List (Option ℕ)} (h : none ∉ rs) (data : List α) :
    (drain data rs).1 ∧ none ∉ (drain data rs).2.2 := by
  induction rs generalizing data with
  | nil => cases data <;> exact ⟨rfl, h⟩
  | cons r rs ih =>
    obtain ⟨hr, hrs⟩ := ne_and_not_mem_of_not_mem_cons h
    rcases data with _ | ⟨a, data⟩
    · exact ⟨rfl, h⟩
    · cases r with
      | none => exact absurd rfl hr
      | some k => exact ih hrs ((a :: data).drop k)

theorem write_unfailing (h : none ∉ s.results) (data : List α) :
    (s.write data).1 ∧ none ∉ (s.write data).2.results :=
  drain_unfailing h data

end Razorback.Writes
