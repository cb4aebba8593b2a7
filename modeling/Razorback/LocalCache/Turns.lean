import Razorback.LocalCache.Keys

/-! What a call that returns has done to the four lists: some entries have left
them, at most one was demoted to the MRU end of its ghost list, and the entry of
the call is at the MRU end of T1 or T2. None of it depends on the counters. -/

namespace Razorback.LocalCache
open Runs Function Dir

abbrev Slots := ListType → List ℕ

structure Demotion (ls : Slots) (src : ListType) (y : ℕ) (ls' : Slots) : Prop where
  resident : Resident src
  moved : ∃ ys, ls src = y :: ys ∧
    ls' = Function.update (Function.update ls src ys) (ghost src) (ls (ghost src) ++ [y])

inductive Shift (ls : Slots) : Option (ListType × ℕ) → Slots → Prop
  | leave {ls' : Slots} (hs : ∀ l, (ls' l).Sublist (ls l)) : Shift ls none ls'
  | demote {ls₀ ls' : Slots} {src : ListType} {y : ℕ} (hs : ∀ l, (ls₀ l).Sublist (ls l))
      (hsame : ∀ l, Resident l → ls₀ l = ls l) (hd : Demotion ls₀ src y ls') : Shift ls (some (src, y)) ls'

def entering (d : Option (ListType × ℕ)) (l : ListType) : Option ℕ :=
  d.bind fun p => if l = ghost p.1 then some p.2 else none

section
variable {c c' : Cache} {ls ls' : Slots} {l src : ListType} {x y : ℕ} {d : Option (ListType × ℕ)}

theorem sublist_update (ls : Slots) (hx : xs.Sublist (ls l)) (m : ListType) :
    (update ls l xs m).Sublist (ls m) := by
  by_cases hm : m = l
  · subst hm
    rwa [update_self]
  · rw [update_of_ne hm]

theorem entering_resident (h : Shift ls d ls') (hl : Resident l) : entering d l = none := by
  cases h with
  | leave => rfl
  | demote _ _ hd => simp [entering, hl.ghost_ne hd.resident]

theorem Shift.gains (h : Shift ls d ls') (l : ListType) :
    ∃ kept, kept.Sublist (ls l) ∧ ls' l = kept ++ (entering d l).toList := by
  cases h with
  | leave hs => exact ⟨ls' l, hs l, by simp [entering]⟩
  | @demote ls₀ _ src y hs _ hd =>
    obtain ⟨ys, hy, rfl⟩ := hd.moved
    by_cases hl : l = ghost src
    · subst hl
      exact ⟨ls₀ (ghost src), hs _, by simp [entering]⟩
    · refine ⟨update ls₀ src ys l, ?_, by simp [entering, hl]⟩
      exact (sublist_update ls₀ (hy ▸ List.sublist_cons_self y ys) l).trans (hs l)

theorem Dir.replace_demotion {D D' : Dir} (h : D.replace = .ok (y, D')) : Demotion D.lists D.source y D'.lists := by
  obtain ⟨ys, hys, rfl⟩ := replace_ok h
  have hsrc := D.source_resident
  refine ⟨hsrc, ys, hys, ?_⟩
  simp only [put, take, update_of_ne (hsrc.ghost_ne hsrc).symm]

def Reused (ls : Slots) (x : ℕ) : Prop :=
  ∃ l, (l = .t1 ∨ l = .b1 ∨ l = .b2) ∧ (ls l).head? = some x

theorem Dir.obtain_shift {D D' : Dir} (h : D.obtain = .ok (x, D')) :
    ∃ d, Shift D.lists d D'.lists ∧ (x < D.entries → Reused D.lists x) := by
  have hnew : ∀ {D' : Dir}, D.getNew = .ok (x, D') → D'.lists = D.lists ∧ ¬x < D.entries := by
    intro D' hg
    unfold getNew at hg
    split_ifs at hg
    cases hg
    exact ⟨rfl, lt_irrefl _⟩
  have hghost : ∀ {g}, g = .b1 ∨ g = .b2 → shift (D.purge g) = .ok (x, D') →
      ∃ d, Shift D.lists d D'.lists ∧ (x < D.entries → Reused D.lists x) := by
    intro g hg hs
    simp only [shift, bind_eq_ok] at hs
    obtain ⟨⟨z, D₁⟩, hp, ⟨y, D₂⟩, hr, he⟩ := hs
    cases he
    obtain ⟨xs, hxs, rfl⟩ := purge_ok hp
    refine ⟨_, .demote (sublist_update D.lists (hxs ▸ List.sublist_cons_self _ _)) (fun l hl => ?_)
      (replace_demotion hr), fun _ => ⟨g, .inr hg, by simp [hxs]⟩⟩
    refine update_of_ne ?_ _ _
    rcases hl with rfl | rfl <;> rcases hg with rfl | rfl <;> decide
  unfold obtain at h
  split_ifs at h
  · exact hghost (.inl rfl) h
  · obtain ⟨xs, hxs, rfl⟩ := purge_ok h
    exact ⟨none, .leave (sublist_update D.lists (hxs ▸ List.sublist_cons_self _ _)), fun _ => ⟨.t1, .inl rfl, by simp [hxs]⟩⟩
  · exact hghost (.inr rfl) h
  · simp only [shift, bind_eq_ok] at h
    obtain ⟨⟨z, D₁⟩, hg, ⟨y, D₂⟩, hr, he⟩ := h
    cases he
    obtain ⟨hlists, hlt⟩ := hnew hg
    exact ⟨_, .demote (fun l => by rw [hlists]) (fun l _ => by rw [hlists]) (replace_demotion hr),
      fun h' => absurd h' hlt⟩
  · obtain ⟨hlists, hlt⟩ := hnew h
    exact ⟨none, .leave fun l => by rw [hlists], fun h' => absurd h' hlt⟩

theorem obtainEntry_lists (h : Rep c ls) (ho : obtainEntry c = .ok (x, c')) :
    ∃ d ls', Shift ls d ls' ∧ Rep c' ls' ∧ x < c'.entries ∧ (c'.entrylist x).listtype = .none ∧
      (x < c.entries → Reused ls x) := by
  obtain ⟨⟨y, D⟩, hD, rfl, hs, hfree⟩ := (obtain_related h.shows).ok_left ho
  obtain ⟨d, hshift, hreused⟩ := obtain_shift hD
  obtain ⟨hlt, ht⟩ := hs.unlisted hfree
  exact ⟨d, D.lists, hshift, hs.rep, hlt, ht, hreused⟩

theorem addIn_lists (h : Rep c ls) (ha : addIn true key sf ent c = .ok (r, c')) :
    ∃ x c₁ d ls₁, obtainEntry c = .ok (x, c₁) ∧ Shift ls d ls₁ ∧
      Rep c' (update ls₁ .t1 (ls₁ .t1 ++ [x])) ∧ (x < c.entries → Reused ls x) := by
  simp only [addIn, bind_eq_ok] at ha
  obtain ⟨⟨x, c₁⟩, ho, k, _, he⟩ := ha
  obtain ⟨-, rfl⟩ := ok_inj he
  obtain ⟨d, ls₁, hs, hr, hlt, ht, hreused⟩ := obtainEntry_lists h ho
  refine ⟨x, c₁, d, ls₁, ho, hs, ?_, hreused⟩
  have hr₁ := ((addMRU_spec (l := .t1) hr (by decide) hlt ht).1).setSize .t1
    (inc ((addMRU x .t1 c₁).listSize .t1))
  refine .modify ?_ x fun _ => ⟨rfl, rfl, rfl⟩
  refine .modify ?_ x fun _ => ⟨rfl, rfl, rfl⟩
  exact hr₁

theorem Dir.hit_shift {D D' : Dir} (hl : l ≠ .none) (h : D.hit x l = .ok D') :
    ∃ d ls₁, Shift D.lists d ls₁ ∧ D'.lists = update ls₁ .t2 (ls₁ .t2 ++ [x]) := by
  have hleave : ∀ m, Shift D.lists none (update D.lists m ((D.lists m).erase x)) :=
    fun m => .leave (sublist_update D.lists List.erase_sublist)
  have hghost : ∀ {g other move}, g = .b1 ∨ g = .b2 → D.revive x g other move = .ok D' →
      ∃ d ls₁, Shift D.lists d ls₁ ∧ D'.lists = update ls₁ .t2 (ls₁ .t2 ++ [x]) := by
    intro g other move hg hr
    unfold revive at hr
    split_ifs at hr
    simp only [bind_eq_ok] at hr
    obtain ⟨⟨y, D₁⟩, hrep, he⟩ := hr
    cases he
    refine ⟨_, D₁.lists, .demote (sublist_update D.lists List.erase_sublist) (fun l hl => ?_)
      (replace_demotion hrep), rfl⟩
    refine update_of_ne ?_ _ _
    rcases hl with rfl | rfl <;> rcases hg with rfl | rfl <;> decide
  cases l with
  | none => exact absurd rfl hl
  | t1 =>
    cases h
    exact ⟨none, _, hleave .t1, rfl⟩
  | t2 =>
    cases h
    exact ⟨none, _, hleave .t2, rfl⟩
  | b1 =>
    simp only [hit] at h
    exact hghost (.inl rfl) h
  | b2 =>
    simp only [hit] at h
    exact hghost (.inr rfl) h

theorem hitEntry_lists (h : Rep c ls) (hx : x < c.entries) (hl : (c.entrylist x).listtype ≠ .none)
    (hh : hitEntry x c = .ok c') :
    ∃ d ls₁, Shift ls d ls₁ ∧ Rep c' (update ls₁ .t2 (ls₁ .t2 ++ [x])) := by
  obtain ⟨D, hD, hs⟩ := (hit_related h.shows hl ((h.mem _ hl x).mpr ⟨hx, rfl⟩)).ok_left hh
  obtain ⟨d, ls₁, hshift, hlists⟩ := hit_shift hl hD
  exact ⟨d, ls₁, hshift, hlists ▸ hs.rep⟩

end

end Razorback.LocalCache
