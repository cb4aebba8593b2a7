import Mathlib.Algebra.Order.Group.Multiset
import Mathlib.Data.UInt

/-! Computations that allocate and release heap objects. An object gets its number when it is allocated and the number
is not used again, so the books of a computation are two lists: what it allocated and what it released. -/

namespace Razorback.Heap
open List

abbrev Address := ℕ

/-- What a computation leaves behind: its answer unless it stopped on the way, how many objects it allocated, which it
released, and its faults. -/
structure Outcome (ε α : Type) where
  answer : Option α
  allocated : ℕ
  released : List Address
  faults : List ε

def Prog (ε α : Type) := Address → Outcome ε α

section Programs

variable {ε α β σ : Type}

def Outcome.andThen (o : Outcome ε α) (next : α → Outcome ε β) : Outcome ε β :=
  match o.answer with
  | none => ⟨none, o.allocated, o.released, o.faults⟩
  | some a =>
    ⟨(next a).answer, o.allocated + (next a).allocated, o.released ++ (next a).released, o.faults ++ (next a).faults⟩

instance : Monad (Prog ε) where
  pure a := fun _ => ⟨some a, 0, [], []⟩
  bind m f := fun n => (m n).andThen fun a => f a (n + (m n).allocated)

theorem Prog.bind_assoc {γ : Type} (m : Prog ε α) (f : α → Prog ε β) (g : β → Prog ε γ) :
    (m >>= f) >>= g = m >>= fun a => f a >>= g := by
  funext n
  simp only [Bind.bind]
  rcases m n with ⟨_ | a, i, rs, es⟩
  · rfl
  · simp only [Outcome.andThen]
    rcases f a (n + i) with ⟨_ | b, j, rs', es'⟩
    · rfl
    · simp [Nat.add_assoc]

def alloc : Prog ε Address := fun n => ⟨some n, 1, [], []⟩

def free (p : Address) : Prog ε Unit := fun _ => ⟨some (), 0, [p], []⟩

def fault (e : ε) : Prog ε Unit := fun _ => ⟨some (), 0, [], [e]⟩

def crash (e : ε) : Prog ε α := fun _ => ⟨none, 0, [], [e]⟩

def unlessNull (destroy : α → Prog ε Unit) : Option α → Prog ε Unit
  | none => pure ()
  | some a => destroy a

/-! ### Structures that are filled field by field -/

abbrev Step (ε σ : Type) := σ → Prog ε (Bool × σ)

def fill : List (Step ε σ) → Step ε σ
  | [], s => pure (true, s)
  | step :: steps, s => do
    let (found, s) ← step s
    if found then fill steps s else pure (false, s)

def skip : Step ε σ := fun s => pure (true, s)

def value (read : Prog ε (Option α)) : Step ε σ := fun s => do
  let a ← read
  pure (a.isSome, s)

def slot (set : σ → α → σ) (read : Prog ε (Option α)) : Step ε σ := fun s => do
  match ← read with
  | some a => pure (true, set s a)
  | none => pure (false, s)

def ifSome (test : Prog ε (Option β)) (present absent : Step ε σ) : Step ε σ := fun s => do
  match ← test with
  | some _ => present s
  | none => absent s

def orDestroy (destroy : σ → Prog ε Unit) (filled : Prog ε (Bool × σ)) : Prog ε (Option σ) := do
  let (found, s) ← filled
  if found then pure (some s)
  else do
    destroy s
    pure none

def construct (fresh : Address → σ) (destroy : σ → Prog ε Unit) (steps : List (Step ε σ)) : Prog ε (Option σ) := do
  let p ← alloc
  orDestroy destroy (fill steps (fresh p))

end Programs

/-! ### Accounts -/

section Accounts

variable {ε α β σ : Type} {exact quiet : Prop} {P R : Multiset Address} {Q : α → Multiset Address} {φ : α → Prop}
  {m : Prog ε α}

/-- A computation that holds the objects `before` answers with `φ`. If its account is exact, what it released and what it
keeps is what it held and what it allocated; if it is quiet, it makes no fault. -/
def Meets (exact quiet : Prop) (before : Multiset Address) (m : Prog ε α) (kept : α → Multiset Address)
    (φ : α → Prop) : Prop :=
  ∀ n, ∃ a, (m n).answer = some a ∧ φ a ∧
    (exact → ((m n).released : Multiset Address) + kept a =
      before + (List.range' n (m n).allocated : Multiset Address)) ∧
    (quiet → (m n).faults = [])

def Frees (exact quiet : Prop) (before : Multiset Address) (m : Prog ε Unit) : Prop :=
  Meets exact quiet before m (fun _ => 0) fun _ => True

def Gives (exact quiet : Prop) (m : Prog ε α) (a : α) : Prop := Meets exact quiet 0 m (fun _ => 0) (· = a)

def Reads (exact quiet : Prop) (m : Prog ε (Option α)) (own : α → Multiset Address) (found : Bool) : Prop :=
  Meets exact quiet 0 m (fun r => r.elim 0 own) fun r => r.isSome = found

namespace Meets

theorem pure {a : α} (h : φ a) : Meets exact quiet (Q a) (Pure.pure a : Prog ε α) Q φ :=
  fun _ => ⟨a, rfl, h, fun _ => by simp [Pure.pure], fun _ => rfl⟩

theorem answer {a : α} (hQ : P = Q a) (h : φ a) : Meets exact quiet P (Pure.pure a : Prog ε α) Q φ := hQ ▸ pure h

theorem bind {f : α → Prog ε β} {S : β → Multiset Address} {ψ : β → Prop} (hm : Meets exact quiet P m Q φ)
    (hf : ∀ a, φ a → Meets exact quiet (Q a) (f a) S ψ) : Meets exact quiet P (m >>= f) S ψ := by
  intro n
  obtain ⟨a, ha, hφ, hbooks, hfaults⟩ := hm n
  obtain ⟨b, hb, hψ, hbooks', hfaults'⟩ := hf a hφ (n + (m n).allocated)
  have hrun : (m >>= f) n = (m n).andThen fun a => f a (n + (m n).allocated) := rfl
  rw [hrun, Outcome.andThen, ha]
  dsimp only
  generalize f a (n + (m n).allocated) = next at *
  refine ⟨b, hb, hψ, fun hexact => ?_, fun hquiet => by simp [hfaults hquiet, hfaults' hquiet]⟩
  -- the numbers the second part gives out follow those of the first
  simp only [← range'_append_1]
  calc ((m n).released : Multiset Address) + next.released + S b
      = (m n).released + (Q a + range' (n + (m n).allocated) next.allocated) := by
        rw [add_assoc, hbooks' hexact]
    _ = P + (range' n (m n).allocated + range' (n + (m n).allocated) next.allocated) := by
        rw [← add_assoc, hbooks hexact, add_assoc]

theorem frame (hm : Meets exact quiet P m Q φ) (R : Multiset Address) :
    Meets exact quiet (P + R) m (fun a => Q a + R) φ := by
  intro n
  obtain ⟨a, ha, hφ, hbooks, hfaults⟩ := hm n
  refine ⟨a, ha, hφ, fun hexact => ?_, hfaults⟩
  rw [← add_assoc, hbooks hexact, add_right_comm]

theorem mono {P' : Multiset Address} {Q' : α → Multiset Address} {φ' : α → Prop} (hm : Meets exact quiet P m Q φ)
    (hP : exact → P = P') (hQ : exact → ∀ a, φ a → Q a = Q' a) (hφ : ∀ a, φ a → φ' a) :
    Meets exact quiet P' m Q' φ' := by
  intro n
  obtain ⟨a, ha, hφa, hbooks, hfaults⟩ := hm n
  exact ⟨a, ha, hφ a hφa, fun hexact => hQ hexact a hφa ▸ hP hexact ▸ hbooks hexact, hfaults⟩

theorem holding {P' : Multiset Address} (hm : Meets exact quiet P m Q φ) (h : P = P') : Meets exact quiet P' m Q φ :=
  h ▸ hm

theorem beside (hm : Meets exact quiet 0 m Q φ) (R : Multiset Address) : Meets exact quiet R m (fun a => Q a + R) φ :=
  (hm.frame R).mono (fun _ => zero_add R) (fun _ _ _ => rfl) fun _ h => h

theorem bind_beside {f : α → Prog ε β} {S : β → Multiset Address} {ψ : β → Prop} (hm : Meets exact quiet 0 m Q φ)
    (hf : ∀ a, φ a → Meets exact quiet (Q a + R) (f a) S ψ) : Meets exact quiet R (m >>= f) S ψ :=
  (hm.beside R).bind hf

theorem released_perm (hm : Meets True quiet 0 m (fun _ => 0) φ) :
    (m 0).released.Perm (List.range (m 0).allocated) := by
  obtain ⟨a, -, -, hbooks, -⟩ := hm 0
  have hsame := hbooks trivial
  rwa [add_zero, zero_add, ← range_eq_range', Multiset.coe_eq_coe] at hsame

end Meets

theorem alloc_meets : Meets exact quiet 0 (alloc : Prog ε Address) (fun p => {p}) fun _ => True :=
  fun n => ⟨n, rfl, trivial, fun _ => rfl, fun _ => rfl⟩

theorem free_frees (p : Address) : Frees exact quiet {p} (free p : Prog ε Unit) :=
  fun _ => ⟨(), rfl, trivial, fun _ => rfl, fun _ => rfl⟩

theorem fault_frees {e : ε} (h : ¬ quiet) : Frees exact quiet 0 (fault e) :=
  fun _ => ⟨(), rfl, trivial, fun _ => rfl, fun hquiet => absurd hquiet h⟩

namespace Frees

theorem nothing : Frees exact quiet 0 (Pure.pure () : Prog ε Unit) := .answer rfl trivial

variable {S : β → Multiset Address}

theorem andThen {m : Prog ε Unit} {k : Prog ε β} {ψ : β → Prop}
    (hm : Frees exact quiet P m) (hk : Meets exact quiet R k S ψ) : Meets exact quiet (P + R) (m >>= fun _ => k) S ψ := by
  have hfirst : Meets exact quiet (P + R) m (fun _ => R) fun _ => True :=
    (hm.frame R).mono (fun _ => rfl) (fun _ _ _ => zero_add R) fun _ _ => trivial
  exact hfirst.bind fun _ _ => hk

theorem lastly {m : Prog ε Unit} {k : Prog ε β} {ψ : β → Prop}
    (hm : Frees exact quiet P m) (hk : Meets exact quiet 0 k S ψ) : Meets exact quiet P (m >>= fun _ => k) S ψ :=
  add_zero P ▸ hm.andThen hk

theorem first {m : Prog ε Unit} {k : Prog ε β} {ψ : β → Prop}
    (hm : Frees exact quiet 0 m) (hk : Meets exact quiet R k S ψ) : Meets exact quiet R (m >>= fun _ => k) S ψ :=
  zero_add R ▸ hm.andThen hk

theorem unlessNull {own : α → Multiset Address} {destroy : α → Prog ε Unit}
    (h : ∀ a, Frees exact quiet (own a) (destroy a)) (pointer : Option α) :
    Frees exact quiet (pointer.elim 0 own) (Heap.unlessNull destroy pointer) := by
  cases pointer with
  | none => exact nothing
  | some a => exact h a

end Frees

theorem Gives.bind {m : Prog ε α} {a : α} {f : α → Prog ε β} {S : β → Multiset Address} {ψ : β → Prop}
    (hm : Gives exact quiet m a) (hf : Meets exact quiet R (f a) S ψ) : Meets exact quiet R (m >>= f) S ψ := by
  have hfirst : Meets exact quiet R m (fun _ => R) (· = a) :=
    (hm.beside R).mono (fun _ => rfl) (fun _ _ _ => zero_add R) fun _ h => h
  exact hfirst.bind fun _ h => h ▸ hf

theorem Gives.pure (a : α) : Gives exact quiet (Pure.pure a : Prog ε α) a := .answer rfl rfl

theorem Reads.as {m : Prog ε (Option α)} {own : α → Multiset Address} {found found' : Bool}
    (h : Reads exact quiet m own found) (hfound : found' = found) : Reads exact quiet m own found' := hfound ▸ h

end Accounts

/-! ### Filling a structure -/

section Filling

variable {ε α β σ : Type} {exact quiet : Prop} {own : σ → Multiset Address} {s : σ} {steps : List (Step ε σ)}
  {step : Step ε σ} {found : Bool}

def Takes (exact quiet : Prop) (own : σ → Multiset Address) (step : Step ε σ) (s : σ) (found : Bool) : Prop :=
  Meets exact quiet (own s) (step s) (fun r => own r.2) (·.1 = found)

def Fills (exact quiet : Prop) (own : σ → Multiset Address) (steps : List (Step ε σ)) (s : σ) (found : Bool) : Prop :=
  Takes exact quiet own (fill steps) s found

namespace Fills

theorem as {found' : Bool} (h : Fills exact quiet own steps s found) (hfound : found' = found) :
    Fills exact quiet own steps s found' := hfound ▸ h

theorem nil : Fills exact quiet own ([] : List (Step ε σ)) s true := .pure rfl

theorem cons {S : Bool × σ → Prop} (hstep : Meets exact quiet (own s) (step s) (fun r => own r.2) S)
    (hfail : ∀ s', S (false, s') → found = false)
    (hrest : ∀ s', S (true, s') → Fills exact quiet own steps s' found) :
    Fills exact quiet own (step :: steps) s found := by
  refine .bind hstep fun r hr => ?_
  obtain ⟨b, s'⟩ := r
  cases b with
  | true => exact hrest s' hr
  | false =>
    obtain rfl := hfail s' hr
    exact .pure rfl

theorem skip (hrest : Fills exact quiet own steps s found) : Fills exact quiet own (Heap.skip :: steps) s found :=
  cons (S := (· = (true, s))) (.pure rfl) (by simp) fun _ h => (Prod.mk.inj h).2 ▸ hrest

variable {read : Prog ε (Option α)}

theorem known {a : Option α} (hread : Gives exact quiet read a)
    (hnone : a = none → found = false) (hrest : ∀ x, a = some x → Fills exact quiet own steps s found) :
    Fills exact quiet own (Heap.value read :: steps) s found := by
  have hstep : Meets exact quiet (own s) (Heap.value read s) (fun r => own r.2) (· = (a.isSome, s)) :=
    hread.bind (.pure rfl)
  refine cons hstep (fun s' h => hnone ?_) fun s' h => ?_
  · simpa using (Prod.mk.inj h).1.symm
  · obtain ⟨hsome, rfl⟩ := Prod.mk.inj h
    obtain ⟨x, hx⟩ := Option.isSome_iff_exists.mp hsome.symm
    exact hrest x hx

theorem value {a : Option α} (hread : Gives exact quiet read a)
    (hrest : Fills exact quiet own steps s found) :
    Fills exact quiet own (Heap.value read :: steps) s (a.isSome && found) :=
  known hread (fun hnone => by simp [hnone]) fun x hx => hrest.as (by simp [hx])

theorem slot {set : σ → α → σ} {ownField : α → Multiset Address} {b : Bool}
    (hread : Reads exact quiet read ownField b) (hset : exact → b → ∀ a, own (set s a) = own s + ownField a)
    (hrest : ∀ a, Fills exact quiet own steps (set s a) found) :
    Fills exact quiet own (Heap.slot set read :: steps) s (b && found) := by
  have hstep : Meets exact quiet (own s) (Heap.slot set read s) (fun r => own r.2)
      fun r => r.1 = b ∧ (r.1 → ∃ a, r.2 = set s a) := by
    refine .bind_beside hread fun r hr => ?_
    cases r with
    | none => exact .answer (zero_add _) ⟨hr, nofun⟩
    | some a =>
      have hkept : exact → own (set s a) = ownField a + own s := fun hexact => by rw [hset hexact hr.symm, add_comm]
      exact (Meets.pure ⟨hr, fun _ => ⟨a, rfl⟩⟩).mono hkept (fun _ _ _ => rfl) fun _ h => h
  refine cons hstep (fun s' h => ?_) fun s' h => ?_
  · simp [← h.1]
  · obtain ⟨a, rfl⟩ := h.2 rfl
    simpa [← h.1] using hrest a

theorem always {set : σ → α → σ} {ownField : α → Multiset Address}
    (hread : Reads exact quiet read ownField true) (hset : exact → ∀ a, own (set s a) = own s + ownField a)
    (hrest : ∀ a, Fills exact quiet own steps (set s a) found) :
    Fills exact quiet own (Heap.slot set read :: steps) s found :=
  (slot hread (fun hexact _ => hset hexact) hrest).as (Bool.true_and _).symm

theorem given {set : σ → α → σ} {a : Option α} (hread : Gives exact quiet read a)
    (hset : ∀ x, own (set s x) = own s) (hnone : a = none → found = false)
    (hrest : ∀ x, a = some x → Fills exact quiet own steps (set s x) found) :
    Fills exact quiet own (Heap.slot set read :: steps) s found := by
  have hstep : Meets exact quiet (own s) (Heap.slot set read s) (fun r => own r.2)
      fun r => r.1 = a.isSome ∧ ∀ x, a = some x → r.2 = set s x := by
    refine hread.bind ?_
    cases a with
    | none => exact .pure ⟨rfl, by simp⟩
    | some x => exact .answer (hset x).symm ⟨rfl, fun x h => by rw [Option.some.inj h]⟩
  refine cons hstep (fun s' h => hnone ?_) fun s' h => ?_
  · simpa using h.1.symm
  · obtain ⟨x, hx⟩ := Option.isSome_iff_exists.mp h.1.symm
    obtain rfl : s' = set s x := h.2 x hx
    exact hrest x hx

theorem ifSome {test : Prog ε (Option β)} {t : Option β} {present absent : Step ε σ} (htest : Gives exact quiet test t)
    (hpresent : t.isSome → Fills exact quiet own (present :: steps) s found)
    (habsent : t = none → Fills exact quiet own (absent :: steps) s found) :
    Fills exact quiet own (Heap.ifSome test present absent :: steps) s found := by
  have hassoc : fill (Heap.ifSome test present absent :: steps) s = test >>= fun t =>
      match t with
      | some _ => fill (present :: steps) s
      | none => fill (absent :: steps) s := by
    simp only [fill, Heap.ifSome, Prog.bind_assoc]
    congr 1
    funext t
    cases t <;> rfl
  rw [Fills, Takes, hassoc]
  cases t with
  | none => exact htest.bind (habsent rfl)
  | some t => exact htest.bind (hpresent rfl)

theorem last (hstep : Takes exact quiet own step s found) : Fills exact quiet own [step] s found := by
  refine cons hstep (fun s' h => .symm h) fun s' h => ?_
  obtain rfl : true = found := h
  exact nil

theorem each {entries : List β} {round : β → Step ε σ} {accept : β → Bool}
    (h : ∀ e ∈ entries, ∀ s, Takes exact quiet own (round e) s (accept e)) (s : σ) :
    Fills exact quiet own (entries.map round) s (entries.all accept) := by
  induction entries generalizing s with
  | nil => exact nil
  | cons e entries ih =>
    refine cons (h e mem_cons_self s) (fun s' hs' => ?_) fun s' hs' => ?_
    · simp [← show false = accept e from hs']
    · have hrest := ih (fun e he => h e (mem_cons_of_mem _ he)) s'
      simpa [← show true = accept e from hs'] using hrest

theorem orDestroy {destroy : σ → Prog ε Unit} (h : Fills exact quiet own steps s found)
    (hdestroy : ∀ s, Frees exact quiet (own s) (destroy s)) :
    Meets exact quiet (own s) (Heap.orDestroy destroy (fill steps s)) (fun r => r.elim 0 own) fun r => r.isSome = found := by
  refine .bind h fun r hr => ?_
  obtain ⟨b, s'⟩ := r
  obtain rfl : b = found := hr
  cases b with
  | true => exact .answer rfl rfl
  | false => exact (hdestroy s').lastly (.answer rfl rfl)

end Fills

theorem Reads.construct {destroy : σ → Prog ε Unit} {fresh : Address → σ} (hfresh : ∀ p, own (fresh p) = {p})
    (hfill : ∀ p, Fills exact quiet own steps (fresh p) found) (hdestroy : ∀ s, Frees exact quiet (own s) (destroy s)) :
    Reads exact quiet (Heap.construct fresh destroy steps) own found :=
  .bind alloc_meets fun p _ => hfresh p ▸ (hfill p).orDestroy hdestroy

end Filling

end Razorback.Heap
