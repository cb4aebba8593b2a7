import Razorback.Base.Linked

/-! Families of doubly linked lists in one store of nodes. Each list has a
pointer to its first and to its last node, and no node is on two lists; the
lemmas say what the usual pointer surgery does to the whole family. -/

namespace Razorback.Linked
open Function List Function

variable {ι κ : Type*}

structure Threads (L : Links ι) (first last : κ → Option ι) (ls : κ → List ι) : Prop where
  chain : ∀ k, Chain L none (ls k) none
  nodup : ∀ k, (ls k).Nodup
  disjoint : ∀ k m, m ≠ k → ∀ x ∈ ls k, x ∉ ls m
  first_eq : ∀ k, first k = (ls k).head?
  last_eq : ∀ k, last k = (ls k).getLast?

section
variable {L M : Links ι} {first last first' last' : κ → Option ι} {ls : κ → List ι}
variable {k : κ} {x : ι} {as bs : List ι}

theorem Threads.congr (h : Threads L first last ls)
    (hM : ∀ k, ∀ y ∈ ls k, M.next y = L.next y ∧ M.prev y = L.prev y) : Threads M first last ls :=
  ⟨fun k => (h.chain k).congr (hM k), h.nodup, h.disjoint, h.first_eq, h.last_eq⟩

section
variable (h : Threads L first last ls) (hx : ls k = as ++ x :: bs)
include h hx

theorem Threads.neighbours : L.prev x = as.getLast? ∧ L.next x = bs.head? := by
  have hc := h.chain k
  rw [hx] at hc
  simpa using hc.neighbours

theorem Threads.not_mem_rest : x ∉ as ++ bs := by
  have hnd := h.nodup k
  rw [hx] at hnd
  exact (nodup_cons.mp ((perm_middle.nodup_iff).mp hnd)).1

theorem Threads.first_of_ne_nil (has : as ≠ []) : first k = (as ++ bs).head? := by
  rw [h.first_eq k, hx, head?_append_of_ne_nil _ has, head?_append_of_ne_nil _ has]

theorem Threads.last_of_ne_nil (hbs : bs ≠ []) : last k = (as ++ bs).getLast? := by
  rw [h.last_eq k, hx, getLast?_append_of_ne_nil _ hbs,
    getLast?_append_of_ne_nil _ (cons_ne_nil x bs), getLast?_cons_of_ne_nil hbs]

theorem Threads.first_ne (has : as ≠ []) : first k ≠ some x := by
  rw [h.first_of_ne_nil hx has]
  exact fun e => h.not_mem_rest hx (mem_of_mem_head? e)

theorem Threads.last_ne (hbs : bs ≠ []) : last k ≠ some x := by
  rw [h.last_of_ne_nil hx hbs]
  exact fun e => h.not_mem_rest hx (mem_of_getLast? e)

end

variable [DecidableEq κ]

theorem update_field {β γ : Type*} {a : κ → β} {x : β} (f : β → γ) (h : f x = f (a k)) (m : κ) :
    f (update a k x m) = f (a m) := by
  rw [apply_update fun _ => f, h]
  exact congrFun (update_eq_self k fun m => f (a m)) m

section
variable (h : Threads L first last ls)
include h

/-- Replacing one list of the family, given that its new chain is in order and
that the other chains are left alone. -/
theorem Threads.update {xs : List ι} (hc : Chain M none xs none)
    (hnd : xs.Nodup) (hxs : ∀ m, m ≠ k → ∀ y ∈ xs, y ∉ ls m)
    (hM : ∀ m, m ≠ k → ∀ y ∈ ls m, M.next y = L.next y ∧ M.prev y = L.prev y)
    (hf : first' = update first k xs.head?)
    (hl : last' = update last k xs.getLast?) :
    Threads M first' last' (update ls k xs) := by
  subst hf hl
  refine ⟨?_, ?_, fun m n hne => ?_, fun m => ?_, fun m => ?_⟩
  · exact (forall_update_iff ls fun _ xs => Chain M none xs none).mpr ⟨hc, fun m hm => (h.chain m).congr (hM m hm)⟩
  · exact (forall_update_iff ls fun _ => Nodup).mpr ⟨hnd, fun m _ => h.nodup m⟩
  · by_cases hm : m = k
    · subst hm
      rw [update_self, update_of_ne hne]
      exact hxs n hne
    · rw [update_of_ne hm]
      by_cases hn : n = k
      · subst hn
        rw [update_self]
        exact fun y hy hyx => hxs m hm y hyx hy
      · rw [update_of_ne hn]
        exact h.disjoint m n hne
  · rw [funext h.first_eq, apply_update fun _ => head?]
  · rw [funext h.last_eq, apply_update fun _ => getLast?]

theorem Threads.unlink (hx : ls k = as ++ x :: bs)
    (hlast : ∀ a, as.getLast? = some a → M.next a = bs.head?)
    (hhead : ∀ b, bs.head? = some b → M.prev b = as.getLast?)
    (hnext : ∀ y, y ≠ x → as.getLast? ≠ some y → M.next y = L.next y)
    (hprev : ∀ y, y ≠ x → bs.head? ≠ some y → M.prev y = L.prev y)
    (hf : first' = Function.update first k (as ++ bs).head?)
    (hl : last' = Function.update last k (as ++ bs).getLast?) :
    Threads M first' last' (Function.update ls k (as ++ bs)) := by
  have hnd : (as ++ x :: bs).Nodup := hx ▸ h.nodup k
  obtain ⟨hxn, hnd'⟩ := nodup_cons.mp ((perm_middle.nodup_iff).mp hnd)
  have hin : ∀ y ∈ as ++ bs, y ∈ ls k := by
    intro y hy
    rw [hx, mem_append]
    rw [mem_append] at hy
    tauto
  have hxin : x ∈ ls k := by simp [hx]
  refine h.update ?_ hnd' (fun m hm y hy => h.disjoint k m hm y (hin y hy)) (fun m hm y hy => ?_) hf hl
  · have hc := h.chain k
    rw [hx] at hc
    refine hc.unlink hnd (by simpa using hlast) (by simpa using hhead) ?_ ?_
    · exact fun y hy => hnext y fun e => hxn (e ▸ hy)
    · exact fun y hy => hprev y fun e => hxn (e ▸ hy)
  · have hyk : y ∉ ls k := h.disjoint m k (.symm hm) y hy
    have hyx : y ≠ x := fun e => hyk (e ▸ hxin)
    refine ⟨hnext y hyx fun e => ?_, hprev y hyx fun e => ?_⟩
    · exact hyk (hin y (mem_append_left _ (mem_of_getLast? e)))
    · exact hyk (hin y (mem_append_right _ (mem_of_mem_head? e)))

theorem Threads.snoc (k : κ) (hx : ∀ m, x ∉ ls m)
    (hxp : M.prev x = (ls k).getLast?) (hxn : M.next x = none)
    (hlast : ∀ a, (ls k).getLast? = some a → M.next a = some x)
    (hnext : ∀ y, y ≠ x → (ls k).getLast? ≠ some y → M.next y = L.next y)
    (hprev : ∀ y, y ≠ x → M.prev y = L.prev y)
    (hf : first' = Function.update first k (ls k ++ [x]).head?)
    (hl : last' = Function.update last k (some x)) :
    Threads M first' last' (Function.update ls k (ls k ++ [x])) := by
  have hne : ∀ m, ∀ y ∈ ls m, y ≠ x := fun m y hy e => hx m (e ▸ hy)
  refine h.update ?_ ?_ (fun m hm y hy => ?_) (fun m hm y hy => ?_) hf (by rw [hl]; simp)
  · refine (h.chain k).snoc (h.nodup k) (by simpa using hxp) hxn hlast ?_ ?_
    · exact fun y hy => hnext y (hne k y hy)
    · exact fun y hy => hprev y (hne k y hy)
  · rw [nodup_append]
    refine ⟨h.nodup k, nodup_singleton x, fun y hy z hz => ?_⟩
    rw [mem_singleton.mp hz]
    exact hne k y hy
  · rcases mem_append.mp hy with hy | hy
    · exact h.disjoint k m hm y hy
    · rw [mem_singleton.mp hy]
      exact hx m
  · refine ⟨hnext y (hne m y hy) fun e => ?_, hprev y (hne m y hy)⟩
    exact h.disjoint m k (.symm hm) y hy (mem_of_getLast? e)

theorem Threads.push (k : κ) (hx : ∀ m, x ∉ ls m)
    (hxp : M.prev x = none) (hxn : M.next x = (ls k).head?)
    (hhead : ∀ a, (ls k).head? = some a → M.prev a = some x)
    (hprev : ∀ y, y ≠ x → (ls k).head? ≠ some y → M.prev y = L.prev y)
    (hnext : ∀ y, y ≠ x → M.next y = L.next y)
    (hf : first' = Function.update first k (some x))
    (hl : last' = Function.update last k (x :: ls k).getLast?) :
    Threads M first' last' (Function.update ls k (x :: ls k)) := by
  have hne : ∀ m, ∀ y ∈ ls m, y ≠ x := fun m y hy e => hx m (e ▸ hy)
  refine h.update ?_ (nodup_cons.mpr ⟨hx k, h.nodup k⟩) (fun m hm y hy => ?_)
    (fun m hm y hy => ?_) (by rw [hf]; simp) hl
  · refine (h.chain k).push (h.nodup k) hxp (by simpa using hxn) hhead ?_ ?_
    · exact fun y hy => hprev y (hne k y hy)
    · exact fun y hy => hnext y (hne k y hy)
  · rcases mem_cons.mp hy with rfl | hy
    · exact hx m
    · exact h.disjoint k m hm y hy
  · refine ⟨hnext y (hne m y hy), hprev y (hne m y hy) fun e => ?_⟩
    exact h.disjoint m k (.symm hm) y hy (mem_of_mem_head? e)

end

end

end Razorback.Linked
