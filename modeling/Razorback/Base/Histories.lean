import Razorback.Base.Runs

/-! Histories in which each event is justified by those before it. -/

namespace Razorback.Histories
open List

variable {α : Type} {J : List α → α → Prop} {es es' : List α}

def Justified (J : List α → α → Prop) (es : List α) : Prop :=
  ∀ before e after, es = before ++ e :: after → J before e

theorem justified_nil : Justified J [] := fun before e after h => by simp at h

theorem Justified.snoc {e : α} (h : Justified J es) (he : J es e) : Justified J (es ++ [e]) := by
  intro before e' after heq
  rcases Runs.snoc_eq_append_cons heq with ⟨_, rfl, rfl⟩ | ⟨after', _, hes⟩
  · exact he
  · exact h before e' after' hes

variable {before after : List α}

theorem ne_append_cons {e : α} (h : e ∉ es) : es ≠ before ++ e :: after := by
  rintro rfl
  exact h (mem_append_right _ mem_cons_self)

theorem singleton_eq_append_cons {x e : α} (h : [x] = before ++ e :: after) :
    x = e ∧ after = [] := by
  cases before with
  | nil => exact ⟨(cons.inj h).1, (cons.inj h).2.symm⟩
  | cons b before => simp at h

theorem append_eq_append_cons {e : α} (h : es ++ es' = before ++ e :: after) :
    (∃ after', es = before ++ e :: after' ∧ after = after' ++ es') ∨
      ∃ before', es' = before' ++ e :: after ∧ before = es ++ before' := by
  rcases append_eq_append_iff.mp h with ⟨as, rfl, has⟩ | ⟨bs, rfl, hbs⟩
  · exact Or.inr ⟨as, has, rfl⟩
  · cases bs with
    | nil => exact Or.inr ⟨[], hbs.symm, by simp⟩
    | cons b bs =>
      obtain ⟨rfl, rfl⟩ := cons.inj hbs
      exact Or.inl ⟨bs, rfl, rfl⟩

theorem Justified.append (h : Justified J es) (h' : Justified (fun before e => J (es ++ before) e) es') :
    Justified J (es ++ es') := by
  intro before e after heq
  rcases append_eq_append_cons heq with ⟨after', hes, _⟩ | ⟨before', hes', rfl⟩
  · exact h before e after' hes
  · exact h' before' e after hes'

theorem justified_singleton {e : α} (h : J [] e) : Justified J [e] := justified_nil.snoc h

theorem Justified.of_mem {e : α} (h : Justified J es) (he : e ∈ es) : ∃ before, before ⊆ es ∧ J before e := by
  obtain ⟨before, after, rfl⟩ := append_of_mem he
  exact ⟨before, subset_append_left _ _, h before e after rfl⟩

end Razorback.Histories
