import Mathlib.Data.UInt

/-! Runs of calls that may fail. A call takes the state to a result and a new
state, or fails; a run makes a list of calls one after the other, collects their
results and stops at the first failure. -/

namespace Razorback.Runs
open List

universe u v w
variable {ε : Type v} {α β ρ σ : Type u} {ω : Type w}

@[simp] theorem ok_bind (a : α) (f : α → Except ε β) : (Except.ok a >>= f) = f a := rfl

@[simp] theorem error_bind (e : ε) (f : α → Except ε β) :
    ((Except.error e : Except ε α) >>= f) = .error e := rfl

theorem ok_inj {a a' : α} {b b' : β} (h : (.ok (a, b) : Except ε (α × β)) = .ok (a', b')) :
    a = a' ∧ b = b' := Prod.mk.inj (Except.ok.inj h)

theorem exists_of_isOk {x : Except ε (α × β)} {P : α → β → Prop} (hok : x.isOk)
    (h : ∀ a b, x = .ok (a, b) → P a b) : ∃ a b, x = .ok (a, b) ∧ P a b := by
  cases x with
  | error e => cases hok
  | ok p => exact ⟨p.1, p.2, rfl, h _ _ rfl⟩

variable {x : Except ε α}

theorem bind_eq_ok {f : α → Except ε β} {b : β} :
    x >>= f = .ok b ↔ ∃ a, x = .ok a ∧ f a = .ok b := by
  cases x with
  | error e => simp
  | ok a => simp

theorem map_eq_ok {f : α → β} {b : β} : x.map f = .ok b ↔ ∃ a, x = .ok a ∧ f a = b := by
  cases x <;> simp [Except.map]

def run (call : ω → σ → Except ε (ρ × σ)) : List ω → σ → Except ε (List ρ × σ)
  | [], s => .ok ([], s)
  | op :: ops, s => do
    let (r, s) ← call op s
    let (rs, s) ← run call ops s
    return (r :: rs, s)

variable {call : ω → σ → Except ε (ρ × σ)} {s : σ}

@[simp] theorem run_nil : run call [] s = .ok ([], s) := rfl

variable {op : ω} {ops : List ω} {s' : σ}

theorem run_cons_ok {r : ρ} (h : call op s = .ok (r, s')) :
    run call (op :: ops) s = (run call ops s').map fun p => (r :: p.1, p.2) := by
  simp only [run, h, ok_bind]
  cases run call ops s' <;> rfl

theorem run_cons_error {e : ε} (h : call op s = .error e) :
    run call (op :: ops) s = .error e := by
  simp only [run, h, error_bind]

variable {rs : List ρ}

theorem run_cons_eq_ok : run call (op :: ops) s = .ok (rs, s') ↔
    ∃ r s₁ rs', call op s = .ok (r, s₁) ∧ run call ops s₁ = .ok (rs', s') ∧ rs = r :: rs' := by
  constructor
  · intro h
    simp only [run, bind_eq_ok] at h
    obtain ⟨⟨r, s₁⟩, hc, ⟨rs', s₂⟩, hr, he⟩ := h
    cases he
    exact ⟨r, s₁, rs', hc, hr, rfl⟩
  · rintro ⟨r, s₁, rs', hc, hr, rfl⟩
    rw [run_cons_ok hc, hr]
    rfl

theorem run_append_ok {as bs : List ω} (h : run call as s = .ok (rs, s')) :
    run call (as ++ bs) s = (run call bs s').map fun p => (rs ++ p.1, p.2) := by
  induction as generalizing s rs with
  | nil =>
    obtain ⟨rfl, rfl⟩ := ok_inj h
    rw [nil_append]
    cases run call bs s <;> rfl
  | cons op as ih =>
    obtain ⟨r, s₁, rs', hc, hr, rfl⟩ := run_cons_eq_ok.mp h
    rw [cons_append, run_cons_ok hc, ih hr]
    cases run call bs s' <;> rfl

theorem run_length (h : run call ops s = .ok (rs, s')) :
    rs.length = ops.length := by
  induction ops generalizing s rs with
  | nil =>
    cases h
    rfl
  | cons op ops ih =>
    obtain ⟨r, s₁, rs', -, hr, rfl⟩ := run_cons_eq_ok.mp h
    exact congrArg Nat.succ (ih hr)

theorem run_map {ω' : Type*} (f : ω' → ω) (ops : List ω') (s : σ) :
    run call (ops.map f) s = run (fun op => call (f op)) ops s := by
  induction ops generalizing s with
  | nil => rfl
  | cons op ops ih => simp only [map_cons, run, ih]

variable {I : σ → Prop}

theorem snoc_eq_append_cons {h before after : List α} {p q : α}
    (heq : h ++ [p] = before ++ q :: after) :
    (after = [] ∧ h = before ∧ p = q) ∨ ∃ after', after = after' ++ [p] ∧ h = before ++ q :: after' := by
  rcases eq_nil_or_concat after with rfl | ⟨after', r, rfl⟩
  · obtain ⟨hh, hlast⟩ := append_inj' heq rfl
    exact .inl ⟨rfl, hh, (cons.inj hlast).1⟩
  · rw [concat_eq_append, ← cons_append, ← append_assoc] at heq
    obtain ⟨hh, hlast⟩ := append_inj' heq rfl
    rw [concat_eq_append, (cons.inj hlast).1]
    exact .inr ⟨after', rfl, hh⟩

/-- Every call of the run meets `cond` in the state it is made in. -/
def Along (cond : ω → σ → Prop) (call : ω → σ → Except ε (ρ × σ)) : List ω → σ → Prop
  | [], _ => True
  | op :: ops, s => cond op s ∧ ∀ r s', call op s = .ok (r, s') → Along cond call ops s'

variable {cond : ω → σ → Prop}

theorem along_cons {r : ρ} (hcond : cond op s)
    (hop : call op s = .ok (r, s')) (h : Along cond call ops s') : Along cond call (op :: ops) s := by
  refine ⟨hcond, fun r' s'' he => ?_⟩
  obtain ⟨_, rfl⟩ := ok_inj (hop.symm.trans he)
  exact h

theorem along_of_forall {p : ω → Prop} (h : ∀ op ∈ ops, p op) :
    Along (fun op _ => p op) call ops s := by
  induction ops generalizing s with
  | nil => trivial
  | cons op ops ih =>
    exact ⟨h op mem_cons_self, fun _ _ _ => ih fun op' hop' => h op' (mem_cons_of_mem op hop')⟩

theorem along_true : Along (fun _ _ => True) call ops s := along_of_forall fun _ _ => trivial

theorem run_along {I : List (ω × ρ) → σ → Prop}
    (hcall : ∀ h op s r s', I h s → cond op s → call op s = .ok (r, s') → I (h ++ [(op, r)]) s')
    {h : List (ω × ρ)} (hs : I h s)
    (hc : Along cond call ops s) (hr : run call ops s = .ok (rs, s')) : I (h ++ ops.zip rs) s' := by
  induction ops generalizing h s rs with
  | nil =>
    cases hr
    simpa using hs
  | cons op ops ih =>
    obtain ⟨r, s₁, rs', hop, hrest, rfl⟩ := run_cons_eq_ok.mp hr
    have hi := ih (hcall h op s r s₁ hs hc.1 hop) (hc.2 r s₁ hop) hrest
    simpa using hi

theorem run_conforming {I : List (ω × ρ) → σ → Prop}
    (hcall : ∀ h op s, I h s → cond op s → ∃ r s', call op s = .ok (r, s') ∧ I (h ++ [(op, r)]) s')
    {h : List (ω × ρ)} (hs : I h s) (hc : Along cond call ops s) :
    ∃ rs s', run call ops s = .ok (rs, s') ∧ I (h ++ ops.zip rs) s' := by
  induction ops generalizing h s with
  | nil => exact ⟨[], s, rfl, by simpa using hs⟩
  | cons op ops ih =>
    obtain ⟨r, s', hop, hi⟩ := hcall h op s hs hc.1
    obtain ⟨rs, s'', hr, hi'⟩ := ih hi (hc.2 r s' hop)
    exact ⟨r :: rs, s'', by simp [run_cons_ok hop, hr, Except.map], by simpa using hi'⟩

/-- A run of steps that are relations between states, with a result each. -/
def Follows {τ : Type*} (step : ω → ρ → τ → τ → Prop) : List ω → List ρ → τ → τ → Prop
  | [], [], t, t' => t' = t
  | op :: ops, r :: rs, t, t'' => ∃ t', step op r t t' ∧ Follows step ops rs t' t''
  | _, _, _, _ => False

theorem run_follows {τ : Type*} {step : ω → ρ → τ → τ → Prop} {view : σ → τ}
    (hcall : ∀ op s, I s → cond op s → ∃ r s', call op s = .ok (r, s') ∧ I s' ∧ step op r (view s) (view s'))
    (hs : I s) (hc : Along cond call ops s) :
    ∃ rs s', run call ops s = .ok (rs, s') ∧ Follows step ops rs (view s) (view s') := by
  induction ops generalizing s with
  | nil => exact ⟨[], s, rfl, rfl⟩
  | cons op ops ih =>
    obtain ⟨r, s', hop, hi, hstep⟩ := hcall op s hs hc.1
    obtain ⟨rs, s'', hr, hfollows⟩ := ih hi (hc.2 r s' hop)
    exact ⟨r :: rs, s'', by rw [run_cons_ok hop, hr]; rfl, view s', hstep, hfollows⟩

theorem along_ne_error {e : ε}
    (hcall : ∀ op s r s', I s → cond op s → call op s = .ok (r, s') → I s')
    (hsafe : ∀ op s, I s → cond op s → call op s ≠ .error e) (ops : List ω) (hs : I s)
    (hc : Along cond call ops s) : run call ops s ≠ .error e := by
  induction ops generalizing s with
  | nil => exact fun h => nomatch h
  | cons op ops ih =>
    cases hop : call op s with
    | error e' =>
      rw [run_cons_error hop]
      intro he
      exact hsafe op s hs hc.1 (hop.trans (congrArg _ (Except.error.inj he)))
    | ok p =>
      obtain ⟨r, s'⟩ := p
      rw [run_cons_ok hop]
      have hrest := ih (hcall op s r s' hs hc.1 hop) (hc.2 r s' hop)
      cases hr : run call ops s' with
      | error e' =>
        intro he
        exact hrest (hr.trans (congrArg _ (Except.error.inj he)))
      | ok q => exact fun h => nomatch h

theorem run_total (hcall : ∀ op s, I s → ∃ r s', call op s = .ok (r, s') ∧ I s') (hs : I s) (ops : List ω) :
    ∃ rs s', run call ops s = .ok (rs, s') ∧ I s' :=
  run_conforming (I := fun _ s => I s) (fun _ op s h _ => hcall op s h) (h := []) hs along_true

theorem run_invariant {I : List ρ → σ → Prop}
    (hcall : ∀ rs op s r s', I rs s → call op s = .ok (r, s') → I (rs ++ [r]) s')
    {rs rs' : List ρ} (hs : I rs s) (hr : run call ops s = .ok (rs', s')) : I (rs ++ rs') s' := by
  have hinv := run_along (I := fun h s => I (rs ++ h.map Prod.snd) s) (fun h op s r s' hi _ hc => by
    simpa using hcall _ op s r s' hi hc) (h := []) (by simpa using hs) along_true hr
  rwa [nil_append, map_snd_zip (Nat.le_of_eq (run_length hr))] at hinv

theorem run_keeps (hcall : ∀ op s r s', I s → call op s = .ok (r, s') → I s')
    (hs : I s) (hr : run call ops s = .ok (rs, s')) : I s' :=
  run_along (I := fun _ s => I s) (fun _ op s r s' h _ => hcall op s r s' h) (h := []) hs along_true hr

theorem run_ne_error {I : List ρ → σ → Prop} {e : ε}
    (hcall : ∀ rs op s r s', I rs s → call op s = .ok (r, s') → I (rs ++ [r]) s')
    (hsafe : ∀ rs op s, I rs s → call op s ≠ .error e) (ops : List ω) (rs : List ρ) (hs : I rs s) :
    run call ops s ≠ .error e :=
  along_ne_error (I := fun s => ∃ rs, I rs s) (fun op s r s' ⟨rs, h⟩ _ hc => ⟨_, hcall rs op s r s' h hc⟩)
    (fun op s ⟨rs, h⟩ _ => hsafe rs op s h) ops ⟨rs, hs⟩ along_true

theorem Along.mono {cond cond' : ω → σ → Prop} (hcond : ∀ op s, cond op s → cond' op s)
    (h : Along cond call ops s) : Along cond' call ops s := by
  induction ops generalizing s with
  | nil => trivial
  | cons op ops ih => exact ⟨hcond op s h.1, fun r s' hr => ih (h.2 r s' hr)⟩

theorem along_of_run (hcall : ∀ op s r s', I s → call op s = .ok (r, s') → I s')
    (hcond : ∀ op s, I s → ¬cond op s → ∃ e, call op s = .error e) (hs : I s)
    (h : run call ops s = .ok (rs, s')) : Along cond call ops s := by
  induction ops generalizing s rs with
  | nil => trivial
  | cons op ops ih =>
    obtain ⟨r, s₁, rs', hop, hrest, rfl⟩ := run_cons_eq_ok.mp h
    refine along_cons (by_contra fun hnot => ?_) hop (ih (hcall op s r s₁ hs hop) hrest)
    obtain ⟨e, herror⟩ := hcond op s hs hnot
    cases hop.symm.trans herror

theorem Along.and {cond cond' : ω → σ → Prop} (h : Along cond call ops s) (h' : Along cond' call ops s) :
    Along (fun op s => cond op s ∧ cond' op s) call ops s := by
  induction ops generalizing s with
  | nil => trivial
  | cons op ops ih => exact ⟨⟨h.1, h'.1⟩, fun r s' hr => ih (h.2 r s' hr) (h'.2 r s' hr)⟩

section
variable {call : ω → σ → Except ε (List α × σ)} {I : List α → σ → Prop}

theorem run_events (hcall : ∀ es op s es' s', I es s → cond op s → call op s = .ok (es', s') → I (es ++ es') s')
    {rs : List (List α)} {s s' : σ} (hs : I [] s) (hc : Along cond call ops s)
    (hr : run call ops s = .ok (rs, s')) : I rs.flatten s' := by
  have hinv := run_along (I := fun h s => I (h.map Prod.snd).flatten s) (fun h op s es s' hi hop hs => by
    rw [map_append, flatten_append, map_singleton, flatten_singleton]
    exact hcall _ op s es s' hi hop hs) (h := []) hs hc hr
  rwa [nil_append, map_snd_zip (Nat.le_of_eq (run_length hr))] at hinv

theorem run_events_total (hcall : ∀ es op s, I es s → ∃ es' s', call op s = .ok (es', s') ∧ I (es ++ es') s')
    {es : List α} {s : σ} (hs : I es s) (ops : List ω) :
    ∃ rs s', run call ops s = .ok (rs, s') ∧ I (es ++ rs.flatten) s' := by
  induction ops generalizing es s with
  | nil => exact ⟨[], s, rfl, by simpa using hs⟩
  | cons op ops ih =>
    obtain ⟨es', s', hop, hi⟩ := hcall es op s hs
    obtain ⟨rs, s'', hr, hi'⟩ := ih hi
    exact ⟨es' :: rs, s'', by rw [run_cons_ok hop, hr]; rfl, by simpa using hi'⟩

def Emits (call : ω → σ → Except ε (List α × σ)) (ops : List ω) (s : σ) (es : List α) (s' : σ) : Prop :=
  ∃ rs, run call ops s = .ok (rs, s') ∧ rs.flatten = es

theorem emits_nil (s : σ) : Emits call [] s [] s := ⟨[], rfl, rfl⟩

theorem Emits.cons {s s₁ s₂ : σ} {es es' : List α}
    (hop : call op s = .ok (es, s₁)) (h : Emits call ops s₁ es' s₂) : Emits call (op :: ops) s (es ++ es') s₂ := by
  obtain ⟨rs, hr, rfl⟩ := h
  exact ⟨es :: rs, by rw [run_cons_ok hop, hr]; rfl, rfl⟩

theorem Emits.append {as bs : List ω} {s s₁ s₂ : σ} {es es' : List α}
    (h : Emits call as s es s₁) (h' : Emits call bs s₁ es' s₂) : Emits call (as ++ bs) s (es ++ es') s₂ := by
  obtain ⟨rs, hr, rfl⟩ := h
  obtain ⟨rs', hr', rfl⟩ := h'
  exact ⟨rs ++ rs', by rw [run_append_ok hr, hr']; rfl, flatten_append⟩

theorem Emits.unique {s s₁ s₂ : σ} {es es' : List α}
    (h : Emits call ops s es s₁) (h' : Emits call ops s es' s₂) : es = es' ∧ s₁ = s₂ := by
  obtain ⟨rs, hr, rfl⟩ := h
  obtain ⟨rs', hr', rfl⟩ := h'
  obtain ⟨rfl, rfl⟩ := ok_inj (hr.symm.trans hr')
  exact ⟨rfl, rfl⟩

/-- When a call from the invariant returns exactly if it meets `cond`, a run returns
exactly if its calls do, and keeps the invariant as far as it comes. -/
theorem emits_iff_along (hok : ∀ es op s, I es s → cond op s → ∃ es' s', call op s = .ok (es', s') ∧ I (es ++ es') s')
    (hcond : ∀ es op s es' s', I es s → call op s = .ok (es', s') → cond op s) {es : List α} {s : σ} (hs : I es s)
    (ops : List ω) :
    ((∃ es' s', Emits call ops s es' s') ↔ Along cond call ops s) ∧
      ∀ es' s', Emits call ops s es' s' → I (es ++ es') s' := by
  induction ops generalizing es s with
  | nil =>
    refine ⟨iff_of_true ⟨[], s, emits_nil s⟩ trivial, fun es' s' h => ?_⟩
    obtain ⟨rfl, rfl⟩ := (emits_nil s).unique h
    rwa [append_nil]
  | cons op ops ih =>
    by_cases hc : cond op s
    · obtain ⟨es₁, s₁, hop, hs₁⟩ := hok es op s hs hc
      obtain ⟨hiff, hkeep⟩ := ih hs₁
      have hsplit : ∀ es' s', Emits call (op :: ops) s es' s' → ∃ es₂, es' = es₁ ++ es₂ ∧ Emits call ops s₁ es₂ s' := by
        rintro es' s' ⟨rs, hr, rfl⟩
        obtain ⟨r, s₂, rs', hop', hrest, rfl⟩ := run_cons_eq_ok.mp hr
        obtain ⟨rfl, rfl⟩ := ok_inj (hop.symm.trans hop')
        exact ⟨rs'.flatten, rfl, rs', hrest, rfl⟩
      refine ⟨⟨fun ⟨es', s', h⟩ => ?_, fun h => ?_⟩, fun es' s' h => ?_⟩
      · obtain ⟨es₂, _, h₂⟩ := hsplit es' s' h
        exact along_cons hc hop (hiff.mp ⟨es₂, s', h₂⟩)
      · obtain ⟨es₂, s', h₂⟩ := hiff.mpr (h.2 es₁ s₁ hop)
        exact ⟨es₁ ++ es₂, s', .cons hop h₂⟩
      · obtain ⟨es₂, rfl, h₂⟩ := hsplit es' s' h
        rw [← append_assoc]
        exact hkeep es₂ s' h₂
    · have hnone : ∀ es' s', ¬Emits call (op :: ops) s es' s' := by
        rintro es' s' ⟨rs, hr, _⟩
        obtain ⟨r, s₁, -, hop, -⟩ := run_cons_eq_ok.mp hr
        exact hc (hcond es op s r s₁ hs hop)
      refine ⟨iff_of_false (fun ⟨es', s', h⟩ => hnone es' s' h) fun h => hc h.1, fun es' s' h => ?_⟩
      exact absurd h (hnone es' s')

end

def Throughout (I : σ → Prop) (call : ω → σ → Except ε (ρ × σ)) (ops : List ω) (s : σ) : Prop :=
  ∀ as bs rs s', ops = as ++ bs → run call as s = .ok (rs, s') → I s'

theorem throughout_cons :
    Throughout I call (op :: ops) s ↔
      I s ∧ ∀ r s', call op s = .ok (r, s') → Throughout I call ops s' := by
  constructor
  · intro h
    refine ⟨h [] _ [] s rfl rfl, fun r s' hc as bs rs s'' he hr => ?_⟩
    refine h (op :: as) bs (r :: rs) s'' (by rw [he, cons_append]) ?_
    rw [run_cons_ok hc, hr]
    rfl
  · rintro ⟨hs, h⟩ as bs rs s' he hr
    cases as with
    | nil =>
      cases hr
      exact hs
    | cons op' as =>
      obtain ⟨rfl, htl⟩ := cons.inj he
      obtain ⟨r, s₁, rs', hc, hr, -⟩ := run_cons_eq_ok.mp hr
      exact h r s₁ hc as bs rs' s' htl hr

theorem throughout_nil : Throughout I call [] s ↔ I s := by
  constructor
  · exact fun h => h [] [] [] s rfl rfl
  · intro hs as bs rs s' he hr
    obtain ⟨rfl, _⟩ := append_eq_nil_iff.mp he.symm
    cases hr
    exact hs

theorem throughout_cons_ok {r : ρ} (h : call op s = .ok (r, s')) :
    Throughout I call (op :: ops) s ↔ I s ∧ Throughout I call ops s' := by
  rw [throughout_cons]
  refine and_congr_right fun _ => ⟨fun hrest => hrest r s' h, fun hrest r' s'' h' => ?_⟩
  obtain ⟨-, rfl⟩ := ok_inj (h.symm.trans h')
  exact hrest

theorem throughout_cons_error {e : ε} (h : call op s = .error e) :
    Throughout I call (op :: ops) s ↔ I s := by
  rw [throughout_cons]
  exact and_iff_left fun r s' h' => nomatch h.symm.trans h'

instance decidableThroughout {I : σ → Prop} [DecidablePred I] (call : ω → σ → Except ε (ρ × σ)) :
    (ops : List ω) → (s : σ) → Decidable (Throughout I call ops s)
  | [], _ => decidable_of_iff _ throughout_nil.symm
  | op :: ops, s =>
    match h : call op s with
    | .ok (_, s') =>
      have : Decidable (Throughout I call ops s') := decidableThroughout call ops s'
      decidable_of_iff _ (throughout_cons_ok h).symm
    | .error _ => decidable_of_iff _ (throughout_cons_error h).symm

def Sometime (P : σ → Prop) (call : ω → σ → Except ε (ρ × σ)) (ops : List ω) (s : σ) : Prop :=
  ∃ as bs rs s', ops = as ++ bs ∧ run call as s = .ok (rs, s') ∧ P s'

theorem Sometime.append {P : σ → Prop} (h : Sometime P call ops s) (ops' : List ω) :
    Sometime P call (ops ++ ops') s := by
  obtain ⟨as, bs, rs, s', rfl, hr, hp⟩ := h
  exact ⟨as, bs ++ ops', rs, s', append_assoc as bs ops', hr, hp⟩

theorem sometime_of_run {P : σ → Prop} (hr : run call ops s = .ok (rs, s'))
    (hp : P s') : Sometime P call ops s :=
  ⟨ops, [], rs, s', (append_nil ops).symm, hr, hp⟩

theorem not_sometime_of_throughout {P : σ → Prop} (h : Throughout (fun s => ¬P s) call ops s) :
    ¬Sometime P call ops s := by
  rintro ⟨as, bs, rs, s', he, hr, hp⟩
  exact h as bs rs s' he hr hp

/-- When a call keeps `I` exactly if it meets `cond`, a run stays in `I` exactly
if each of its calls meets `cond`. -/
theorem throughout_iff_along (hcall : ∀ op s r s', I s → call op s = .ok (r, s') → (I s' ↔ cond op s))
    (hfail : ∀ op s e, I s → call op s = .error e → cond op s) (hs : I s) (ops : List ω) :
    Throughout I call ops s ↔ Along cond call ops s := by
  induction ops generalizing s with
  | nil => exact iff_of_true (throughout_nil.mpr hs) trivial
  | cons op ops ih =>
    rw [throughout_cons, Along, and_iff_right hs]
    cases hc : call op s with
    | error e => exact iff_of_true (fun _ _ h => nomatch h) ⟨hfail op s e hs hc, fun _ _ h => nomatch h⟩
    | ok p =>
      obtain ⟨r, s₁⟩ := p
      have hkeep := hcall op s r s₁ hs hc
      constructor
      · intro h
        have hi : I s₁ := h r s₁ rfl [] ops [] s₁ rfl rfl
        refine ⟨hkeep.mp hi, fun r' s' he => ?_⟩
        cases he
        exact (ih hi).mp (h r s₁ rfl)
      · rintro ⟨hcond, h⟩ r' s' he
        cases he
        exact (ih (hkeep.mpr hcond)).mpr (h r s₁ rfl)

variable {τ : Type u}

theorem run_focus {part : ω → τ → Except ε (ρ × τ)} {get : σ → τ} {put : σ → τ → σ}
    (hcall : ∀ op s, call op s = (part op (get s)).map fun p => (p.1, put s p.2))
    (hget : ∀ s a, get (put s a) = a) (hput : ∀ s a b, put (put s a) b = put s b)
    (hsame : ∀ s, put s (get s) = s) (ops : List ω) (s : σ) :
    run call ops s = (run part ops (get s)).map fun p => (p.1, put s p.2) := by
  induction ops generalizing s with
  | nil => simp [Except.map, hsame]
  | cons op ops ih =>
    cases hp : part op (get s) with
    | error e =>
      have hc : call op s = .error e := by rw [hcall, hp]; rfl
      rw [run_cons_error hc, run_cons_error hp]
      rfl
    | ok p =>
      obtain ⟨r, a⟩ := p
      have hc : call op s = .ok (r, put s a) := by rw [hcall, hp]; rfl
      rw [run_cons_ok hc, run_cons_ok hp, ih, hget]
      cases run part ops a with
      | error e => rfl
      | ok q => simp [Except.map, hput]

def Related (R : α → β → Prop) : Except ε α → Except ε β → Prop
  | .ok a, .ok b => R a b
  | .error e, .error f => e = f
  | _, _ => False

variable {R : α → β → Prop} {y : Except ε β}

theorem Related.bind {γ δ : Type u} {S : γ → δ → Prop}
    {f : α → Except ε γ} {g : β → Except ε δ} (h : Related R x y)
    (hfg : ∀ a b, R a b → Related S (f a) (g b)) : Related S (x >>= f) (y >>= g) := by
  cases x with
  | error e =>
    cases y with
    | error e' => exact h
    | ok b => exact h.elim
  | ok a =>
    cases y with
    | error e' => exact h.elim
    | ok b => exact hfg a b h

theorem Related.of_ok {R S : α → β → Prop} (h : Related R x y)
    (hRS : ∀ a b, R a b → x = .ok a → y = .ok b → S a b) : Related S x y := by
  cases x <;> cases y <;> first | exact hRS _ _ h rfl rfl | exact h

theorem Related.ok_right (h : Related R x y) {b : β}
    (hy : y = .ok b) : ∃ a, x = .ok a ∧ R a b := by
  subst hy
  cases x with
  | error e => exact h.elim
  | ok a => exact ⟨a, rfl, h⟩

theorem Related.ok_left (h : Related R x y) {a : α}
    (hx : x = .ok a) : ∃ b, y = .ok b ∧ R a b := by
  subst hx
  cases y with
  | error e => exact h.elim
  | ok b => exact ⟨b, rfl, h⟩

theorem Related.error_right (h : Related R x y) {e : ε}
    (hy : y = .error e) : x = .error e := by
  subst hy
  cases x with
  | error e' => exact congrArg Except.error h
  | ok a => exact h.elim

theorem Related.mono {R S : α → β → Prop} (h : Related R x y)
    (hRS : ∀ a b, R a b → S a b) : Related S x y := h.of_ok fun a b hab _ _ => hRS a b hab

theorem Related.join {γ : Type u} {R : α → γ → Prop} {S : β → γ → Prop} {z : Except ε γ}
    (h : Related R x z) (h' : Related S y z) : Related (fun a b => ∃ e, R a e ∧ S b e) x y := by
  cases x <;> cases y <;> cases z <;> first | exact h.elim | exact h'.elim | exact h.trans h'.symm | exact ⟨_, h, h'⟩

theorem Related.map {γ δ : Type u} {S : γ → δ → Prop}
    {f : α → γ} {g : β → δ} (h : Related R x y)
    (hfg : ∀ a b, R a b → S (f a) (g b)) : Related S (x.map f) (y.map g) := by
  cases x <;> cases y <;> first | exact hfg _ _ h | exact h

variable {call' : ω → τ → Except ε (ρ × τ)} {R : σ → τ → Prop}

/-- Calls that answer alike from related states, where they meet `cond`, answer alike in every run along it. -/
theorem run_related_along (hcall : ∀ op s t, R s t → cond op s →
      Related (fun p q => p.1 = q.1 ∧ R p.2 q.2) (call op s) (call' op t))
    {t : τ} (hst : R s t) (hc : Along cond call ops s) :
    Related (fun p q => p.1 = q.1 ∧ R p.2 q.2) (run call ops s) (run call' ops t) := by
  induction ops generalizing s t with
  | nil => exact ⟨rfl, hst⟩
  | cons op ops ih =>
    refine Related.bind ((hcall op s t hst hc.1).of_ok fun p q h hp _ => And.intro h hp) fun p q ⟨h, hp⟩ => ?_
    exact (ih h.2 (hc.2 p.1 p.2 hp)).bind fun p' q' hpq => ⟨by rw [h.1, hpq.1], hpq.2⟩

theorem run_related (hcall : ∀ op s t, R s t →
      Related (fun p q => p.1 = q.1 ∧ R p.2 q.2) (call op s) (call' op t))
    (ops : List ω) {t : τ} (hst : R s t) :
    Related (fun p q => p.1 = q.1 ∧ R p.2 q.2) (run call ops s) (run call' ops t) :=
  run_related_along (fun op s t h _ => hcall op s t h) hst along_true

theorem throughout_related (hcall : ∀ op s t, R s t →
      Related (fun p q => p.1 = q.1 ∧ R p.2 q.2) (call op s) (call' op t))
    {J : τ → Prop} (hIJ : ∀ s t, R s t → (I s ↔ J t))
    (ops : List ω) {t : τ} (hst : R s t) : Throughout I call ops s ↔ Throughout J call' ops t := by
  have hruns : ∀ as, Related (fun p q => p.1 = q.1 ∧ R p.2 q.2) (run call as s) (run call' as t) :=
    fun as => run_related hcall as hst
  constructor
  · intro h as bs rs t' he hr
    obtain ⟨p, hs, hrel⟩ := (hruns as).ok_right hr
    exact (hIJ _ _ hrel.2).mp (h as bs p.1 p.2 he hs)
  · intro h as bs rs s' he hr
    obtain ⟨q, ht, hrel⟩ := (hruns as).ok_left hr
    exact (hIJ _ _ hrel.2).mpr (h as bs q.1 q.2 he ht)

theorem Related.results_eq {x : Except ε (α × σ)}
    {y : Except ε (α × τ)} (h : Related (fun p q => p.1 = q.1 ∧ R p.2 q.2) x y) :
    x.map Prod.fst = y.map Prod.fst := by
  cases x <;> cases y <;> first | exact congrArg _ h.1 | exact congrArg _ h | exact h.elim

end Razorback.Runs
