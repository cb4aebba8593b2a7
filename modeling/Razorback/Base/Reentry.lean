import Mathlib.Data.UInt

/-! A collection whose members come and go, with an event for each. What held of a
member when it was looked at holds of it as long as it stays, so where it does
not hold any more the member has left and entered again. -/

namespace Razorback.Reentry

variable {α ι ε : Type} {key : α → ι} {removed added : ι → ε}

structure Changes (key : α → ι) (removed added : ι → ε) (S : α → α → Prop) (xs xs' : List α) (es : List ε) : Prop where
  kept : ∀ x ∈ xs, (∃ y ∈ xs', key y = key x ∧ S x y) ∨ removed (key x) ∈ es
  gone : ∀ i, removed i ∈ es → ∀ y ∈ xs', key y ≠ i
  entered : ∀ y ∈ xs', (∃ x ∈ xs, key x = key y) ∨ added (key y) ∈ es

def Traced (key : α → ι) (removed added : ι → ε) (U : α → Prop) (i : ι) (since : List ε) (xs : List α) : Prop :=
  (∃ x ∈ xs, key x = i ∧ U x) ∨ (removed i ∈ since ∧ ∀ x ∈ xs, key x ≠ i) ∨ [removed i, added i].Sublist since

theorem Changes.traced {S : α → α → Prop} {U : α → Prop} {xs xs' : List α} {es since : List ε} {i : ι}
    (h : Changes key removed added S xs xs' es) (hU : ∀ x y, S x y → U x → U y)
    (ht : Traced key removed added U i since xs) : Traced key removed added U i (since ++ es) xs' := by
  rcases ht with ⟨x, hx, rfl, hux⟩ | ⟨hr, hout⟩ | hsub
  · rcases h.kept x hx with ⟨y, hy, hkey, hs⟩ | hr
    · exact .inl ⟨y, hy, hkey, hU x y hs hux⟩
    · exact .inr (.inl ⟨List.mem_append_right _ hr, h.gone _ hr⟩)
  · by_cases hin : ∃ y ∈ xs', key y = i
    · obtain ⟨y, hy, rfl⟩ := hin
      rcases h.entered y hy with ⟨x, hx, hkey⟩ | ha
      · exact absurd hkey (hout x hx)
      · exact .inr (.inr ((List.singleton_sublist.mpr hr).append (List.singleton_sublist.mpr ha)))
    · exact .inr (.inl ⟨List.mem_append_left _ hr, fun y hy hkey => hin ⟨y, hy, hkey⟩⟩)
  · exact .inr (.inr (hsub.trans (List.sublist_append_left _ _)))

theorem Traced.reentered {U : α → Prop} {xs : List α} {since : List ε} {x : α}
    (ht : Traced key removed added U (key x) since xs) (hx : x ∈ xs) (hkeys : (xs.map key).Nodup) (hu : ¬U x) :
    [removed (key x), added (key x)].Sublist since := by
  rcases ht with ⟨y, hy, hkey, huy⟩ | ⟨_, hout⟩ | hsub
  · obtain rfl := List.inj_on_of_nodup_map hkeys hy hx hkey
    exact absurd huy hu
  · exact absurd rfl (hout x hx)
  · exact hsub

theorem Traced.mono {U U' : α → Prop} {xs : List α} {since : List ε} {i : ι} (hU : ∀ x ∈ xs, key x = i → U x → U' x)
    (ht : Traced key removed added U i since xs) : Traced key removed added U' i since xs := by
  rcases ht with ⟨x, hx, hkey, hu⟩ | ht
  · exact .inl ⟨x, hx, hkey, hU x hx hkey hu⟩
  · exact .inr ht

end Razorback.Reentry
