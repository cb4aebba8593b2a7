import Mathlib.Data.UInt

/-! Partial functions along lists and optional values. -/

namespace Razorback.Partial
open List

variable {α β γ : Type}

theorem bind_of_eq_some {x : Option α} {a : α} (h : x = some a) (f : α → Option β) : (x >>= f) = f a := by
  rw [h]
  rfl

variable {f : α → Option β}

theorem isSome_bind {x : Option α} {found : Bool} (h : ∀ a, (f a).isSome = found) :
    (x >>= f).isSome = (x.isSome && found) := by
  cases x with
  | none => rfl
  | some a => exact h a

variable {field : Option α}

theorem mapM_eq_some {value : Option β} (h : field.mapM f = some value) :
    (field = none ∧ value = none) ∨ ∃ a b, field = some a ∧ f a = some b ∧ value = some b := by
  cases field with
  | none => exact .inl ⟨rfl, by simpa using h.symm⟩
  | some a =>
    obtain ⟨b, hb, hvalue⟩ : ∃ b, f a = some b ∧ some b = value := by
      simpa using h
    exact .inr ⟨a, b, rfl, hb, hvalue.symm⟩

theorem mapM_pure (f : α → β) (field : Option α) : (field.mapM fun a => some (f a)) = some (field.map f) := by
  cases field <;> rfl

theorem mapM_rel {f : α → Option γ} {g : α → Option β} {R : α → β → Prop} {value : Option γ}
    (hg : ∀ a ∈ field, ∀ v, f a = some v → ∃ b, g a = some b ∧ R a b) (h : field.mapM f = some value) :
    ∃ field', field.mapM g = some field' ∧ Option.Rel R field field' := by
  rcases mapM_eq_some h with ⟨rfl, -⟩ | ⟨a, v, rfl, hv, -⟩
  · exact ⟨none, rfl, .none⟩
  · obtain ⟨b, hb, hab⟩ := hg a rfl v hv
    exact ⟨some b, by simp [hb], .some hab⟩

theorem mapM_self {f : α → Option γ} {g : α → Option α} {value : Option γ}
    (hg : ∀ a ∈ field, ∀ v, f a = some v → g a = some a) (h : field.mapM f = some value) :
    field.mapM g = some field := by
  rcases mapM_eq_some h with ⟨rfl, -⟩ | ⟨a, v, rfl, hv, -⟩
  · rfl
  · simp [hg a rfl v hv]

theorem exists_of_mapM {value : Option β} (h : field.mapM f = some value) :
    ∀ a ∈ field, ∃ b, f a = some b := by
  intro a ha
  rcases mapM_eq_some h with ⟨rfl, -⟩ | ⟨_, b, rfl, hb, -⟩
  · simp at ha
  · exact ⟨b, Option.some.inj ha ▸ hb⟩

theorem isSome_mapM_iff :
    (field.mapM f).isSome ↔ ∀ a ∈ field, (f a).isSome := by
  cases field <;> simp

variable {as : List α}

theorem exists_forall₂_mapM_iff {R : α → β → Prop} :
    (∃ bs, as.mapM f = some bs ∧ List.Forall₂ R as bs) ↔ ∀ a ∈ as, ∃ b, f a = some b ∧ R a b := by
  induction as with
  | nil => simp
  | cons a as ih =>
    simp only [mem_cons, forall_eq_or_imp, ← ih]
    constructor
    · rintro ⟨bs, hbs, hrel⟩
      cases hrel with
      | @cons _ b _ bs hb hrest =>
        simp only [mapM_cons, Option.bind_eq_bind, Option.bind_eq_some_iff, Option.pure_def,
          Option.some.injEq, cons.injEq] at hbs
        obtain ⟨b', hb', bs', hbs', rfl, rfl⟩ := hbs
        exact ⟨⟨b', hb', hb⟩, bs', hbs', hrest⟩
    · rintro ⟨⟨b, hb, hab⟩, bs, hbs, hrest⟩
      exact ⟨b :: bs, by simp [mapM_cons, hb, hbs], .cons hab hrest⟩

theorem list_mapM_eq_some_iff {bs : List β} :
    as.mapM f = some bs ↔ List.Forall₂ (fun a b => f a = some b) as bs := by
  induction as generalizing bs with
  | nil => simp [eq_comm]
  | cons a as ih =>
    simp only [mapM_cons, forall₂_cons_left_iff, ← ih, Option.bind_eq_bind, Option.bind_eq_some_iff,
      Option.pure_def, Option.some.injEq]
    exact ⟨fun ⟨b, hb, bs', hbs', h⟩ => ⟨b, bs', hb, hbs', h.symm⟩, fun ⟨b, bs', hb, hbs', h⟩ => ⟨b, hb, bs', hbs', h.symm⟩⟩

theorem mem_of_list_mapM {bs : List β} (h : as.mapM f = some bs) :
    ∀ b ∈ bs, ∃ a ∈ as, f a = some b := by
  induction list_mapM_eq_some_iff.mp h with
  | nil => simp
  | @cons a b as bs hab hrest ih =>
    intro c hc
    rcases mem_cons.mp hc with rfl | hc
    · exact ⟨a, mem_cons_self, hab⟩
    · obtain ⟨x, hx, hxc⟩ := ih (list_mapM_eq_some_iff.mpr hrest) c hc
      exact ⟨x, mem_cons_of_mem a hx, hxc⟩

theorem list_mapM_self {f : α → Option α} (h : ∀ a ∈ as, f a = some a) : as.mapM f = some as :=
  list_mapM_eq_some_iff.mpr (forall₂_same.mpr h)

theorem isSome_list_mapM_iff :
    (as.mapM f).isSome ↔ ∀ a ∈ as, (f a).isSome := by
  induction as with
  | nil => simp
  | cons a as ih =>
    rw [forall_mem_cons, ← ih, mapM_cons]
    cases f a <;> cases as.mapM f <;> simp

end Razorback.Partial
