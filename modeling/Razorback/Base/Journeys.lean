import Mathlib.Algebra.BigOperators.Group.Finset.Basic
import Mathlib.Data.Multiset.UnionInter
import Razorback.Base.Monitor

/-! Things on their way through the stages of a monitor. Each event of a trace is
about one thing; `live` holds the things that are under way, each once and with
its stage. Every other thing has not set out or has arrived. -/

namespace Razorback.Journeys
open Multiset

variable {ι σ α : Type} [DecidableEq ι] {next : σ → α → Option σ} {start last : σ}

def acts (i : ι) (es : List (ι × α)) : List α := es.filterMap fun e => if e.1 = i then some e.2 else none

theorem acts_append (i : ι) (es es' : List (ι × α)) : acts i (es ++ es') = acts i es ++ acts i es' :=
  List.filterMap_append

theorem acts_self (i : ι) (as : List α) : acts i (as.map fun a => (i, a)) = as := by
  simp [acts]

theorem acts_eq_nil {i : ι} {es : List (ι × α)} (h : ∀ e ∈ es, e.1 ≠ i) : acts i es = [] := by
  rw [acts, List.filterMap_eq_nil_iff]
  intro e he
  rw [if_neg (h e he)]

theorem acts_other {i j : ι} (h : j ≠ i) (as : List α) : acts i (as.map fun a => (j, a)) = [] := by
  refine acts_eq_nil fun e he => ?_
  obtain ⟨a, _, rfl⟩ := List.mem_map.mp he
  exact h

structure Tracks (next : σ → α → Option σ) (start last : σ) (es : List (ι × α))
    (live : Multiset (ι × σ)) : Prop where
  nodup : (live.map Prod.fst).Nodup
  under : ∀ i st, (i, st) ∈ live → Monitor.run next start (acts i es) = some st
  rest : ∀ i, i ∉ live.map Prod.fst → acts i es = [] ∨ Monitor.run next start (acts i es) = some last

section
variable {es : List (ι × α)} {live : Multiset (ι × σ)} {i : ι} {st st' : σ} {as : List α}

theorem tracks_nil : Tracks next start last ([] : List (ι × α)) 0 :=
  ⟨nodup_zero, fun _ _ h => absurd h (notMem_zero _), fun _ _ => .inl rfl⟩

section
variable (h : Tracks next start last es ({(i, st)} + live))
include h

theorem Tracks.not_mem :
    i ∉ live.map Prod.fst := by
  have hnodup := h.nodup
  rw [singleton_add, map_cons, nodup_cons] at hnodup
  exact hnodup.1

theorem Tracks.move (hrun : Monitor.run next st as = some st') :
    Tracks next start last (es ++ as.map fun a => (i, a)) ({(i, st')} + live) := by
  have hout := h.not_mem
  simp only [singleton_add] at h ⊢
  refine ⟨?_, fun j sj hj => ?_, fun j hj => ?_⟩
  · have hnodup := h.nodup
    rw [map_cons] at hnodup ⊢
    exact hnodup
  · rcases mem_cons.mp hj with heq | hj
    · obtain ⟨rfl, rfl⟩ := Prod.mk.inj heq
      rw [acts_append, acts_self, Monitor.run_append, h.under j st (mem_cons_self _ _)]
      exact hrun
    · have hne : i ≠ j := by
        rintro rfl
        exact hout (mem_map.mpr ⟨_, hj, rfl⟩)
      rw [acts_append, acts_other hne, List.append_nil]
      exact h.under j sj (mem_cons_of_mem hj)
  · rw [map_cons] at hj
    have hne : i ≠ j := fun e => hj (e ▸ mem_cons_self _ _)
    rw [acts_append, acts_other hne, List.append_nil]
    exact h.rest j (by rwa [map_cons])

theorem Tracks.leave (hrun : Monitor.run next st as = some last) :
    Tracks next start last (es ++ as.map fun a => (i, a)) live := by
  have hmoved := h.move hrun
  simp only [singleton_add] at h hmoved
  have hnodup := h.nodup
  rw [map_cons, nodup_cons] at hnodup
  refine ⟨hnodup.2, fun j sj hj => hmoved.under j sj (mem_cons_of_mem hj), fun j hj => ?_⟩
  by_cases hji : j = i
  · subst hji
    exact .inr (hmoved.under j last (mem_cons_self _ _))
  · refine hmoved.rest j fun hmem => ?_
    rw [map_cons] at hmem
    exact (mem_cons.mp hmem).elim hji hj

end

theorem Tracks.enter (h : Tracks next start last es live) (hi : i ∉ live.map Prod.fst)
    (hnew : acts i es = []) (hrun : Monitor.run next start as = some st) :
    Tracks next start last (es ++ as.map fun a => (i, a)) ({(i, st)} + live) := by
  have hset : Tracks next start last es ({(i, start)} + live) := by
    rw [singleton_add]
    refine ⟨?_, fun j sj hj => ?_, fun j hj => h.rest j fun hmem => hj ?_⟩
    · rw [map_cons, nodup_cons]
      exact ⟨hi, h.nodup⟩
    · rcases mem_cons.mp hj with heq | hj
      · obtain ⟨rfl, rfl⟩ := Prod.mk.inj heq
        rw [hnew]
        rfl
      · exact h.under j sj hj
    · rw [map_cons]
      exact mem_cons_of_mem hmem
  exact hset.move hrun

theorem Tracks.leave_all {is : List ι} {a : α}
    (h : Tracks next start last es ((is.map fun i => (i, st) : List (ι × σ)) + live))
    (hnext : next st a = some last) : Tracks next start last (es ++ is.map fun i => (i, a)) live := by
  induction is generalizing es with
  | nil => simpa using h
  | cons i is ih =>
    have hfirst : Tracks next start last es ({(i, st)} + ((is.map fun i => (i, st) : List (ι × σ)) + live)) := by
      rwa [singleton_add, ← cons_add, cons_coe]
    have hleft := ih (hfirst.leave (by simp [hnext] : Monitor.run next st [a] = some last))
    simpa using hleft

end

theorem sum_update {κ β : Type} [Fintype κ] [DecidableEq κ] (f : κ → Multiset β) (k : κ) :
    ∃ others, ∑ j, f j = f k + others ∧ ∀ x, ∑ j, Function.update f k x j = x + others := by
  refine ⟨∑ j ∈ Finset.univ.erase k, f j, (Finset.add_sum_erase _ f (Finset.mem_univ k)).symm,
    fun x => ?_⟩
  rw [← Finset.add_sum_erase _ _ (Finset.mem_univ k), Function.update_self]
  congr 1
  exact Finset.sum_congr rfl fun j hj => Function.update_of_ne (Finset.ne_of_mem_erase hj) _ _

end Razorback.Journeys
