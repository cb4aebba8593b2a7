import Razorback.Base.Histories
import Razorback.Lists.Items

/-! The thread list of `thread.c`. Its entries are compared by system thread id: a
structure is listed with the id 0 before `pthread_create` stores the real one,
and the system gives an id out again once its thread was joined. A step is one
locked section, one section of `List_Remove`, or what the system does in
`pthread_create` and `pthread_join`. Structures are numbered in the order of
their launch. Whoever calls `Thread_Destroy` or `Thread_Join` has a reference:
the one that `Thread_Launch` returned, or one that `Thread_GetCurrent` took. -/

namespace Razorback.Threads
open Runs Histories List

inductive Life
  | launching
  /-- `pthread_create` has failed. -/
  | failed
  /-- In its main function. -/
  | running
  /-- In `Thread_MainWrapper` behind the main function. -/
  | returned
  | exited
  | joined
  deriving DecidableEq, Repr

/-- The structure: in use, in one of the two sections of its `List_Remove`, or freed. -/
inductive Phase
  | used | removing | pruning | freed
  deriving DecidableEq, Repr

structure Thread where
  iThread : ℕ
  refs : ℕ
  /-- The id that the system has given the thread, 0 before. -/
  id : ℕ
  /-- The references that callers have to give back. -/
  held : ℕ
  /-- The calls of `Thread_GetCurrent` that have found it and not yet locked it. -/
  found : ℕ
  life : Life
  phase : Phase
  deriving DecidableEq

structure State where
  threads : ℕ → Thread
  fresh : ℕ
  list : List ℕ
  /-- The `del` mark of the entry. -/
  marked : ℕ → Bool

inductive Event
  /-- The `List_Remove` of a structure takes an entry off the list, to whose
  structure there are so many references. -/
  | removed (thread entry references : ℕ)
  /-- What `Thread_GetCurrent` returned in the thread of a structure. -/
  | current (thread : ℕ) (result : Option ℕ)
  deriving DecidableEq, Repr

inductive Label
  | launch
  | create (a id : ℕ)
  | createFails (a : ℕ)
  | store (a : ℕ)
  | mainReturns (a : ℕ)
  /-- `Thread_Destroy` at the end of `Thread_MainWrapper`. -/
  | exit (a : ℕ)
  | join (a : ℕ)
  | destroy (a : ℕ)
  | markRemoved (a : ℕ)
  | prune (a : ℕ)
  | getCurrent (a : ℕ)
  /-- `Thread_GetCurrent` in a thread that `Thread_Launch` did not start. -/
  | getCurrentForeign (id : ℕ)
  /-- The locked section of a `Thread_GetCurrent` that has found the structure. -/
  | retain (a : ℕ)

def State.set (s : State) (a : ℕ) (f : Thread → Thread) : State :=
  { s with threads := Function.update s.threads a (f (s.threads a)) }

def threadKeyCmp (s : State) (id a : ℕ) : Bool := id == (s.threads a).iThread

def threadCmp (s : State) (a b : ℕ) : Bool := a == b || (s.threads a).iThread == (s.threads b).iThread

def Life.alive : Life → Bool
  | .running | .returned | .exited => true
  | _ => false

def State.unused (s : State) (id : ℕ) : Bool :=
  id != 0 && (List.range s.fresh).all fun a => !((s.threads a).life.alive && (s.threads a).id == id)

/-- `Thread_Destroy` up to `List_Remove`. -/
def dropReference (t : Thread) : Thread :=
  if 1 < t.refs then { t with refs := t.refs - 1 } else { t with phase := .removing }

/-- `Thread_GetCurrent` up to the lock of what `List_Find` returned. -/
def getCurrent (s : State) (id : ℕ) : Option ℕ × State :=
  match Lists.find (threadKeyCmp s id) s.list with
  | some b => (some b, s.set b fun t => { t with found := t.found + 1 })
  | none => (none, s)

def Life.pending : Life → ℕ
  | .launching | .running | .returned => 1
  | _ => 0

def Thread.references (t : Thread) : ℕ := t.held + t.life.pending

def markRemoved (a : ℕ) (s : State) : List Event × State :=
  let gone := (Lists.Seq.visit (fun x found => if threadCmp s x a then (.remove, some x) else (.ok, found)) s.list
    (none : Option ℕ)).2.2.2
  if gone = [] then ([], s.set a fun t => { t with phase := .freed })
  else
    (gone.map fun b => .removed a b (s.threads b).references,
      { s with marked := fun x => s.marked x || gone.contains x }.set a fun t => { t with phase := .pruning })

/-- One step; one that is not possible in the state does nothing. -/
def step (l : Label) (s : State) : List Event × State :=
  match l with
  | .launch =>
    ([], { s with
      threads := Function.update s.threads s.fresh ⟨0, 2, 0, 1, 0, .launching, .used⟩
      fresh := s.fresh + 1
      list := s.list ++ [s.fresh] })
  | .create a id =>
    if a < s.fresh ∧ (s.threads a).life = .launching ∧ s.unused id then
      ([], s.set a fun t => { t with id := id, life := .running })
    else ([], s)
  | .createFails a =>
    if a < s.fresh ∧ (s.threads a).life = .launching then
      ([], s.set a fun t => { t with held := 0, life := .failed, phase := .removing })
    else ([], s)
  | .store a =>
    if a < s.fresh ∧ (s.threads a).life.alive ∧ (s.threads a).iThread = 0 then
      ([], s.set a fun t => { t with iThread := t.id })
    else ([], s)
  | .mainReturns a =>
    if a < s.fresh ∧ (s.threads a).life = .running then ([], s.set a fun t => { t with life := .returned })
    else ([], s)
  | .exit a =>
    if a < s.fresh ∧ (s.threads a).life = .returned ∧ (s.threads a).phase = .used then
      ([], s.set a fun t => if 1 < t.refs then { dropReference t with life := .exited } else dropReference t)
    else ([], s)
  | .join a =>
    if a < s.fresh ∧ (s.threads a).life = .exited ∧ (s.threads a).iThread ≠ 0 ∧ 0 < (s.threads a).held ∧
        (s.threads a).phase = .used then
      ([], s.set a fun t => { t with life := .joined })
    else ([], s)
  | .destroy a =>
    if a < s.fresh ∧ (s.threads a).iThread ≠ 0 ∧ 0 < (s.threads a).held ∧ (s.threads a).phase = .used then
      ([], s.set a fun t => dropReference { t with held := t.held - 1 })
    else ([], s)
  | .markRemoved a =>
    if a < s.fresh ∧ (s.threads a).phase = .removing then markRemoved a s else ([], s)
  | .prune a =>
    if a < s.fresh ∧ (s.threads a).phase = .pruning then
      ([], { s with list := s.list.filter fun x => !s.marked x }.set a fun t => { t with phase := .freed })
    else ([], s)
  | .getCurrent a =>
    if a < s.fresh ∧ (s.threads a).life = .running then
      ([.current a (getCurrent s (s.threads a).id).1], (getCurrent s (s.threads a).id).2)
    else ([], s)
  | .getCurrentForeign id => if s.unused id then ([], (getCurrent s id).2) else ([], s)
  | .retain a =>
    -- The lock of a structure that is being destroyed is not given back before it is freed.
    if a < s.fresh ∧ 0 < (s.threads a).found ∧ (s.threads a).phase = .used then
      ([], s.set a fun t => { t with found := t.found - 1, refs := t.refs + 1, held := t.held + 1 })
    else ([], s)

def call (l : Label) (s : State) : Except Empty (List Event × State) := .ok (step l s)

def State.init : State := ⟨fun _ => ⟨0, 0, 0, 0, 0, .launching, .freed⟩, 0, [], fun _ => false⟩

/-- A removal takes no entry of another structure that is still referenced, and
a thread finds its own structure. -/
def Own : Event → Prop
  | .removed a b references => b ≠ a → references = 0
  | .current a result => result = some a

/-- A launch fails only while no other structure waits for its id; the system
gives out no id that is still on the list; and a thread looks itself up only
after its id was stored. -/
def Distinct (l : Label) (s : State) : Prop :=
  match l with
  | .markRemoved a => (s.threads a).life = .failed → ∀ b ∈ s.list, b ≠ a → (s.threads b).iThread ≠ 0
  | .create _ id => ∀ b ∈ s.list, (s.threads b).iThread ≠ id
  | .getCurrent a => (s.threads a).iThread ≠ 0
  | _ => True

instance (l : Label) (s : State) : Decidable (Distinct l s) :=
  match l with
  | .markRemoved a =>
    inferInstanceAs (Decidable ((s.threads a).life = .failed → ∀ b ∈ s.list, b ≠ a → (s.threads b).iThread ≠ 0))
  | .create _ id => inferInstanceAs (Decidable (∀ b ∈ s.list, (s.threads b).iThread ≠ id))
  | .getCurrent a => inferInstanceAs (Decidable ((s.threads a).iThread ≠ 0))
  | .launch | .createFails _ | .store _ | .mainReturns _ | .exit _ | .join _ | .destroy _ | .prune _
  | .getCurrentForeign _ | .retain _ => isTrue trivial

structure Local (t : Thread) : Prop where
  field : t.iThread = 0 ∨ t.iThread = t.id
  unborn : t.life = .launching ∨ t.life = .failed → t.id = 0
  born : t.life ≠ .launching → t.life ≠ .failed → t.id ≠ 0
  refs : t.phase = .used → t.refs = t.references
  launcher : t.phase = .used → t.iThread = 0 → 0 < t.held
  failed : t.life = .failed → t.phase ≠ .used
  removing : t.phase ≠ .used → t.life = .failed ∨ t.iThread ≠ 0 ∧ (t.life = .returned ∨ t.life.pending = 0)
  joined : t.life = .joined → t.iThread ≠ 0

structure Inv (s : State) : Prop where
  each : ∀ a < s.fresh, Local (s.threads a)
  known : ∀ a ∈ s.list, a < s.fresh
  listed : ∀ a < s.fresh, (s.threads a).phase = .used ∨ (s.threads a).phase = .removing →
    a ∈ s.list ∧ s.marked a = false
  marks : ∀ a, s.marked a = true → a < s.fresh
  ids : ∀ a ∈ s.list, ∀ b ∈ s.list, (s.threads a).id = (s.threads b).id → (s.threads a).id ≠ 0 → a = b

section
variable {s : State} {a b : ℕ} {f : Thread → Thread}

theorem set_self (s : State) (a : ℕ) (f : Thread → Thread) : (s.set a f).threads a = f (s.threads a) :=
  Function.update_self ..

theorem set_of_ne (s : State) (f : Thread → Thread) (h : b ≠ a) : (s.set a f).threads b = s.threads b :=
  Function.update_of_ne h ..

/-- A step that changes one structure. Its id stays or is one that no entry has,
and a structure that was taken off the list stays off. -/
theorem Inv.set (h : Inv s) (hl : a < s.fresh → Local (f (s.threads a)))
    (hid : ∀ b ∈ s.list, (s.threads b).id = (f (s.threads a)).id → (f (s.threads a)).id = (s.threads a).id)
    (hphase : (f (s.threads a)).phase = .used ∨ (f (s.threads a)).phase = .removing →
      (s.threads a).phase = .used ∨ (s.threads a).phase = .removing) : Inv (s.set a f) := by
  refine ⟨fun b hb => ?_, h.known, fun b hb hp => ?_, h.marks, fun b hb c hc he hne => ?_⟩
  · by_cases hba : b = a
    · subst hba
      rw [set_self]
      exact hl hb
    · rw [set_of_ne s f hba]
      exact h.each b hb
  · refine h.listed b hb ?_
    by_cases hba : b = a
    · subst hba
      rw [set_self] at hp
      exact hphase hp
    · rwa [set_of_ne s f hba] at hp
  · by_cases hba : b = a <;> by_cases hca : c = a
    · rw [hba, hca]
    · subst hba
      rw [set_self, set_of_ne s f hca] at he
      rw [set_self] at hne
      have hsame := hid c hc he.symm
      exact h.ids b hb c hc (hsame.symm.trans he) (hsame ▸ hne)
    · subst hca
      rw [set_self, set_of_ne s f hba] at he
      rw [set_of_ne s f hba] at hne
      exact h.ids b hb c hc (he.trans (hid b hb he)) hne
    · rw [set_of_ne s f hba, set_of_ne s f hca] at he
      rw [set_of_ne s f hba] at hne
      exact h.ids b hb c hc he hne

theorem Inv.eq_of_iThread (h : Inv s) (ha : a ∈ s.list) (hb : b ∈ s.list) (hne : (s.threads a).iThread ≠ 0)
    (he : (s.threads b).iThread = (s.threads a).iThread) : b = a := by
  have hia : (s.threads a).iThread = (s.threads a).id := (h.each a (h.known a ha)).field.resolve_left hne
  have hib : (s.threads b).iThread = (s.threads b).id := (h.each b (h.known b hb)).field.resolve_left (he ▸ hne)
  refine h.ids b hb a ha ?_ ?_
  · rw [← hib, he, hia]
  · rw [← hib, he]
    exact hne

variable {t : Thread}

theorem Local.iThread_of_failed (h : Local t) (hf : t.life = .failed) : t.iThread = 0 := by
  rcases h.field with h0 | hid
  · exact h0
  · rw [hid, h.unborn (.inr hf)]

theorem Inv.launch (h : Inv s) : Inv (step .launch s).2 := by
  have hne : ∀ {b}, b < s.fresh → b ≠ s.fresh := Nat.ne_of_lt
  have hold : ∀ b < s.fresh, ((step .launch s).2.threads b) = s.threads b := fun b hb =>
    Function.update_of_ne (hne hb) ..
  have hnew : (step .launch s).2.threads s.fresh = ⟨0, 2, 0, 1, 0, .launching, .used⟩ := Function.update_self ..
  have hmem : ∀ b ∈ (step .launch s).2.list, b ∈ s.list ∨ b = s.fresh := fun b hb => by
    simpa [step] using hb
  refine ⟨fun b hb => ?_, fun b hb => ?_, fun b hb hp => ?_, fun b hb => ?_, fun b hb c hc he hne => ?_⟩
  · rcases Nat.lt_succ_iff_lt_or_eq.mp hb with hb | rfl
    · rw [hold b hb]
      exact h.each b hb
    · rw [hnew]
      constructor <;> simp [Thread.references, Life.pending]
  · rcases hmem b hb with hb | rfl
    · exact Nat.lt_succ_of_lt (h.known b hb)
    · exact Nat.lt_succ_self _
  · rcases Nat.lt_succ_iff_lt_or_eq.mp hb with hb | rfl
    · rw [hold b hb] at hp
      obtain ⟨hl, hm⟩ := h.listed b hb hp
      exact ⟨mem_append_left _ hl, hm⟩
    · refine ⟨mem_append_right _ (mem_singleton_self _), Bool.eq_false_iff.mpr fun hm => ?_⟩
      exact hne (h.marks _ hm) rfl
  · exact Nat.lt_succ_of_lt (h.marks b hb)
  · rcases hmem b hb with hb | rfl
    · rcases hmem c hc with hc | rfl
      · rw [hold b (h.known b hb), hold c (h.known c hc)] at he
        rw [hold b (h.known b hb)] at hne
        exact h.ids b hb c hc he hne
      · rw [hnew] at he
        exact absurd he hne
    · rw [hnew] at hne
      exact absurd rfl hne

theorem Inv.alive_of_unstored (h : Inv s) (hb : b ∈ s.list) (h0 : (s.threads b).iThread = 0)
    (hid : (s.threads b).id ≠ 0) : (s.threads b).life.alive := by
  have hl := h.each b (h.known b hb)
  cases hlife : (s.threads b).life with
  | launching => exact absurd (hl.unborn (.inl hlife)) hid
  | failed => exact absurd (hl.unborn (.inr hlife)) hid
  | joined => exact absurd h0 (hl.joined hlife)
  | running | returned | exited => rfl

theorem State.ne_of_unused {id : ℕ} (hu : s.unused id) :
    id ≠ 0 ∧ ∀ b < s.fresh, (s.threads b).life.alive → (s.threads b).id ≠ id := by
  obtain ⟨h0, hall⟩ := Bool.and_eq_true_iff.mp hu
  refine ⟨bne_iff_ne.mp h0, fun b hb halive he => ?_⟩
  have hb := all_eq_true.mp hall b (mem_range.mpr hb)
  simp [halive, he] at hb

theorem Local.used_of_launching (h : Local t) (hl : t.life = .launching) : t.phase = .used := by
  by_contra hp
  rcases h.removing hp with hf | ⟨hi, _⟩
  · rw [hl] at hf
    cases hf
  · rcases h.field with h0 | hid
    · exact hi h0
    · exact hi (hid.trans (h.unborn (.inl hl)))

theorem Inv.create {id : ℕ} (h : Inv s) (ha : a < s.fresh) (hl : (s.threads a).life = .launching)
    (hu : s.unused id) (hd : ∀ b ∈ s.list, (s.threads b).iThread ≠ id) :
    Inv (s.set a fun t => { t with id := id, life := .running }) := by
  obtain ⟨hid0, hu⟩ := State.ne_of_unused hu
  have hother : ∀ b ∈ s.list, (s.threads b).id ≠ id := by
    intro b hb he
    rcases (h.each b (h.known b hb)).field with h0 | hf
    · exact hu b (h.known b hb) (h.alive_of_unstored hb h0 (he ▸ hid0)) he
    · exact hd b hb (hf.trans he)
  have hla := h.each a ha
  have hused := hla.used_of_launching hl
  have hi : (s.threads a).iThread = 0 := by
    rcases hla.field with h0 | hf
    · exact h0
    · exact hf.trans (hla.unborn (.inl hl))
  have hrefs := hla.refs hused
  refine h.set (fun _ => ?_) (fun b hb he => absurd he (hother b hb)) (fun _ => .inl hused)
  constructor <;> simp_all [Thread.references, Life.pending, hla.launcher hused hi]

theorem Inv.setUsed (h : Inv s) (hused : (s.threads a).phase = .used) (hl : a < s.fresh → Local (f (s.threads a)))
    (hid : (f (s.threads a)).id = (s.threads a).id) : Inv (s.set a f) :=
  h.set hl (fun _ _ _ => hid) fun _ => .inl hused

theorem Local.found (h : Local t) (n : ℕ) : Local { t with found := n } :=
  ⟨h.field, h.unborn, h.born, h.refs, h.launcher, h.failed, h.removing, h.joined⟩

theorem Inv.found (h : Inv s) (id : ℕ) : Inv (getCurrent s id).2 := by
  unfold getCurrent
  cases hf : Lists.find (threadKeyCmp s id) s.list with
  | none => exact h
  | some b =>
    show Inv (s.set b fun t => { t with found := t.found + 1 })
    exact h.set (fun hb => (h.each b hb).found _) (fun _ _ _ => rfl) fun hp => hp

theorem Inv.eq_of_threadCmp (h : Inv s) (ha : a < s.fresh) (hp : (s.threads a).phase = .removing)
    (hd : Distinct (.markRemoved a) s) (hb : b ∈ s.list) (hcmp : threadCmp s b a) : b = a := by
  by_contra hne
  have he : (s.threads b).iThread = (s.threads a).iThread := by simpa [threadCmp, hne] using hcmp
  have hla := h.each a ha
  by_cases hf : (s.threads a).life = .failed
  · exact hd hf b hb hne (he.trans (hla.iThread_of_failed hf))
  · obtain ⟨hi, _⟩ := (hla.removing (by simp [hp])).resolve_left hf
    exact hne (h.eq_of_iThread (h.listed a ha (.inr hp)).1 hb hi he)

theorem Local.phase (h : Local t) (ht : t.phase ≠ .used) (hp : p ≠ .used) :
    Local { t with phase := p } :=
  ⟨h.field, h.unborn, h.born, fun hu => absurd hu hp, fun hu => absurd hu hp, fun _ => hp, fun _ => h.removing ht,
    h.joined⟩

theorem Inv.setPhase (h : Inv s) (ha : (s.threads a).phase ≠ .used) (hu : p ≠ .used) (hr : p ≠ .removing) :
    Inv (s.set a fun t => { t with phase := p }) :=
  h.set (fun hlt => (h.each a hlt).phase ha hu) (fun _ _ _ => rfl) fun hp => absurd hp (by simp [hu, hr])

theorem Inv.markRemoved (h : Inv s) (ha : a < s.fresh) (hp : (s.threads a).phase = .removing)
    (hd : Distinct (.markRemoved a) s) :
    Inv (markRemoved a s).2 ∧ ∀ e ∈ (markRemoved a s).1, Own e := by
  have hself := fun b (hb : b ∈ s.list) => h.eq_of_threadCmp ha hp hd hb
  have hset : Inv (s.set a fun t => { t with phase := .pruning }) := h.setPhase (by simp [hp]) (by simp) (by simp)
  have hgone := (Lists.visit_findRemove (fun x => threadCmp s x a) s.list none).2.2
  have hne : s.list.filter (fun x => threadCmp s x a) ≠ [] :=
    ne_nil_of_mem (mem_filter.mpr ⟨(h.listed a ha (.inr hp)).1, by simp [threadCmp]⟩)
  unfold Threads.markRemoved
  rw [hgone, if_neg hne]
  refine ⟨⟨hset.each, hset.known, fun b hb hpb => ?_, fun b hb => ?_, hset.ids⟩, fun e he => ?_⟩
  · obtain ⟨hl, hm⟩ := hset.listed b hb hpb
    have hba : b ≠ a := by
      rintro rfl
      rw [set_self] at hpb
      simp at hpb
    have hcmp : threadCmp s b a = false := Bool.eq_false_iff.mpr fun hcmp => hba (hself b hl hcmp)
    have hm : s.marked b = false := hm
    exact ⟨hl, by simp [State.set, hm, hcmp]⟩
  · rcases Bool.or_eq_true_iff.mp hb with hb | hb
    · exact h.marks b hb
    · exact h.known b (mem_filter.mp (contains_iff_mem.mp hb)).1
  · obtain ⟨b, hb, rfl⟩ := mem_map.mp he
    obtain ⟨hl, hcmp⟩ := mem_filter.mp hb
    exact fun hne => absurd (hself b hl hcmp) hne

theorem Inv.prune (h : Inv s) : Inv { s with list := s.list.filter fun x => !s.marked x } := by
  have hsub : ∀ b ∈ s.list.filter fun x => !s.marked x, b ∈ s.list := fun b hb => (mem_filter.mp hb).1
  refine ⟨h.each, fun b hb => h.known b (hsub b hb), fun b hb hp => ?_, h.marks, fun b hb c hc => ?_⟩
  · obtain ⟨hl, hm⟩ := h.listed b hb hp
    exact ⟨mem_filter.mpr ⟨hl, by simp [hm]⟩, hm⟩
  · exact h.ids b (hsub b hb) c (hsub c hc)

theorem Inv.found_own (h : Inv s) (ha : a < s.fresh) (hl : (s.threads a).life = .running)
    (hi : (s.threads a).iThread ≠ 0) : (getCurrent s (s.threads a).id).1 = some a := by
  have hla := h.each a ha
  have hused : (s.threads a).phase = .used := by
    by_contra hp
    rcases hla.removing hp with hf | ⟨_, hr | hr⟩
    all_goals simp [hl, Life.pending] at *
  have hmem := (h.listed a ha (.inl hused)).1
  have hid := hla.field.resolve_left hi
  have hkey : ∀ b, threadKeyCmp s (s.threads a).id b ↔ (s.threads b).iThread = (s.threads a).iThread := by
    intro b
    rw [threadKeyCmp, beq_iff_eq, ← hid, eq_comm]
  have hfind : Lists.find (threadKeyCmp s (s.threads a).id) s.list = some a := by
    rw [Lists.find_eq]
    cases hf : s.list.find? (threadKeyCmp s (s.threads a).id) with
    | none => exact absurd ((hkey a).mpr rfl) (find?_eq_none.mp hf a hmem)
    | some b =>
      have he := (hkey b).mp (find?_some hf)
      rw [h.eq_of_iThread hmem (mem_of_find?_eq_some hf) hi he]
  rw [getCurrent, hfind]

section
variable (h : Local t)
include h

theorem Local.drops (hused : t.phase = .used) (hheld : 0 < t.held)
    (hi : t.iThread ≠ 0) : Local (dropReference { t with held := t.held - 1 }) := by
  have hrefs := h.refs hused
  have hf : t.life ≠ .failed := fun hf => h.failed hf hused
  unfold dropReference
  split
  · refine ⟨h.field, h.unborn, h.born, fun _ => ?_, fun _ h0 => absurd h0 hi, h.failed, h.removing, h.joined⟩
    simp only [Thread.references] at hrefs ⊢
    omega
  · rename_i hlast
    have hpending : t.life.pending = 0 := by
      simp only [Thread.references] at hrefs
      simp only at hlast
      omega
    exact ⟨h.field, h.unborn, h.born, nofun, nofun, fun hf' => absurd hf' hf,
      fun _ => .inr ⟨hi, .inr hpending⟩, h.joined⟩

theorem Local.exit (hused : t.phase = .used) (hl : t.life = .returned) :
    Local (if 1 < t.refs then { dropReference t with life := .exited } else dropReference t) := by
  have hrefs := h.refs hused
  have hid := h.born (by simp [hl]) (by simp [hl])
  simp only [Thread.references, hl, Life.pending] at hrefs
  unfold dropReference
  split
  · refine ⟨h.field, nofun, fun _ _ => hid, fun _ => ?_, h.launcher, nofun, ?_, nofun⟩
    · simp only [Thread.references, Life.pending]
      omega
    · exact fun hne => absurd hused hne
  · have hi : t.iThread ≠ 0 := fun h0 => by
      have := h.launcher hused h0
      omega
    exact ⟨h.field, h.unborn, h.born, nofun, nofun, fun hf => by simp [hl] at hf,
      fun _ => .inr ⟨hi, .inl hl⟩, h.joined⟩

theorem Local.store (hl : t.life.alive) : Local { t with iThread := t.id } := by
  have hid : t.id ≠ 0 := by
    refine h.born ?_ ?_ <;> rintro he <;> simp [he, Life.alive] at hl
  refine ⟨.inr rfl, h.unborn, h.born, h.refs, fun _ h0 => absurd h0 hid, h.failed, fun hp => ?_, fun _ => hid⟩
  exact (h.removing hp).imp_right fun hr => ⟨hid, hr.2⟩

theorem Local.mainReturns (hl : t.life = .running) : Local { t with life := .returned } := by
  have hid : t.id ≠ 0 := h.born (by simp [hl]) (by simp [hl])
  have hrefs := h.refs
  have hrem := h.removing
  simp only [Thread.references, hl, Life.pending] at hrefs hrem
  refine ⟨h.field, nofun, fun _ _ => hid, hrefs, h.launcher, nofun, fun hp => ?_, nofun⟩
  simpa using hrem hp

theorem Local.join (hl : t.life = .exited) (hi : t.iThread ≠ 0) :
    Local { t with life := .joined } := by
  have hid : t.id ≠ 0 := h.born (by simp [hl]) (by simp [hl])
  have hrefs := h.refs
  simp only [Thread.references, hl] at hrefs
  exact ⟨h.field, nofun, fun _ _ => hid, hrefs, h.launcher, nofun, fun _ => .inr ⟨hi, .inr rfl⟩, fun _ => hi⟩

theorem Local.createFails (hl : t.life = .launching) :
    Local { t with held := 0, life := .failed, phase := .removing } :=
  ⟨h.field, fun _ => h.unborn (.inl hl), fun _ hf => absurd rfl hf, nofun, nofun, nofun, fun _ => .inl rfl, nofun⟩

theorem Local.retain (hused : t.phase = .used) :
    Local { t with found := t.found - 1, refs := t.refs + 1, held := t.held + 1 } := by
  have hrefs := h.refs hused
  refine ⟨h.field, h.unborn, h.born, fun _ => ?_, fun _ _ => Nat.succ_pos _, h.failed, h.removing, h.joined⟩
  simp only [Thread.references] at hrefs ⊢
  omega

end

theorem dropReference_id (t : Thread) : (dropReference t).id = t.id := by
  unfold dropReference
  split <;> rfl

theorem Inv.silent [Decidable c] (h : Inv s) (hf : c → Inv (s.set a f)) :
    Inv (if c then (([] : List Event), s.set a f) else ([], s)).2 ∧
      ∀ e ∈ (if c then (([] : List Event), s.set a f) else ([], s)).1, Own e := by
  split
  · rename_i hc
    exact ⟨hf hc, nofun⟩
  · exact ⟨h, nofun⟩

theorem Inv.steps (h : Inv s) (l : Label) (hd : Distinct l s) :
    Inv (step l s).2 ∧ ∀ e ∈ (step l s).1, Own e := by
  cases l with
  | launch => exact ⟨h.launch, nofun⟩
  | create a id => exact h.silent fun ⟨ha, hl, hu⟩ => h.create ha hl hu hd
  | createFails a =>
    refine h.silent fun ⟨ha, hl⟩ => ?_
    have hla := h.each a ha
    exact h.setUsed (hla.used_of_launching hl) (fun _ => hla.createFails hl) rfl
  | store a =>
    exact h.silent fun ⟨ha, hl, _⟩ => h.set (fun hlt => (h.each a hlt).store hl) (fun _ _ _ => rfl) id
  | mainReturns a =>
    exact h.silent fun ⟨ha, hl⟩ => h.set (fun hlt => (h.each a hlt).mainReturns hl) (fun _ _ _ => rfl) id
  | exit a =>
    refine h.silent fun ⟨ha, hl, hu⟩ => h.setUsed hu (fun hlt => (h.each a hlt).exit hu hl) ?_
    split <;> exact dropReference_id _
  | join a =>
    exact h.silent fun ⟨ha, hl, hi, _, hu⟩ => h.setUsed hu (fun hlt => (h.each a hlt).join hl hi) rfl
  | destroy a =>
    exact h.silent fun ⟨ha, hi, hheld, hu⟩ =>
      h.setUsed hu (fun hlt => (h.each a hlt).drops hu hheld hi) (dropReference_id _)
  | markRemoved a =>
    simp only [step]
    split
    · rename_i hc
      exact h.markRemoved hc.1 hc.2 hd
    · exact ⟨h, nofun⟩
  | prune a =>
    simp only [step]
    split
    · rename_i hc
      exact ⟨h.prune.setPhase (by simp [hc.2]) nofun nofun, nofun⟩
    · exact ⟨h, nofun⟩
  | getCurrent a =>
    simp only [step]
    split
    · rename_i hc
      refine ⟨h.found _, fun e he => ?_⟩
      rw [mem_singleton.mp he]
      exact h.found_own hc.1 hc.2 hd
    · exact ⟨h, nofun⟩
  | getCurrentForeign id =>
    simp only [step]
    split
    · exact ⟨h.found _, nofun⟩
    · exact ⟨h, nofun⟩
  | retain a => exact h.silent fun ⟨ha, _, hu⟩ => h.setUsed hu (fun hlt => (h.each a hlt).retain hu) rfl

theorem Inv.init : Inv State.init :=
  ⟨fun _ h => absurd h (Nat.not_lt_zero _), nofun, fun _ h => absurd h (Nat.not_lt_zero _), nofun, nofun⟩

end

/-- While ids on the list are distinct, a structure's removal takes no entry of
another that is referenced, and a thread finds itself. -/
theorem registry_own (ls : List Label) {rs : List (List Event)} {s : State} (hd : Along Distinct call ls State.init)
    (hr : run call ls State.init = .ok (rs, s)) : ∀ e ∈ rs.flatten, Own e := by
  have hall := run_events (I := fun es s => (∀ e ∈ es, Own e) ∧ Inv s) (fun es l s es' s' ⟨hes, hi⟩ hd hc => by
    obtain ⟨rfl, rfl⟩ := Prod.mk.inj (Except.ok.inj hc)
    obtain ⟨hi', hes'⟩ := hi.steps l hd
    exact ⟨fun e he => (mem_append.mp he).elim (hes e) (hes' e), hi'⟩) ⟨nofun, Inv.init⟩ hd hr
  exact hall.1

def twoThreads : List Label :=
  [.launch, .create 0 7, .store 0, .launch, .create 1 8, .store 1, .getCurrent 1, .retain 1, .mainReturns 0, .exit 0,
    .destroy 0, .markRemoved 0, .prune 0]

theorem registry_own_two : ∃ rs s, run call twoThreads State.init = .ok (rs, s) ∧
    rs.flatten = [.current 1 (some 1), .removed 0 0 0] ∧ ∀ e ∈ rs.flatten, Own e := by
  refine ⟨_, _, rfl, rfl, registry_own twoThreads ?_ rfl⟩
  iterate 13 refine along_cons (by decide) rfl ?_
  exact trivial

def failedLaunch : List Label := [.launch, .launch, .createFails 0, .markRemoved 0]

def reusedId : List Label :=
  [.launch, .create 0 7, .store 0, .mainReturns 0, .exit 0, .join 0, .launch, .create 1 7, .store 1, .getCurrent 1,
    .retain 0, .destroy 0, .destroy 0, .markRemoved 0]

def earlyLookup : List Label := [.launch, .create 0 7, .getCurrent 0]

theorem registry_not_own :
    (∃ rs s, run call failedLaunch State.init = .ok (rs, s) ∧ rs.flatten = [.removed 0 0 0, .removed 0 1 2]) ∧
      (∃ rs s, run call reusedId State.init = .ok (rs, s) ∧
        rs.flatten = [.current 1 (some 0), .removed 0 0 0, .removed 0 1 2]) ∧
      ∃ rs s, run call earlyLookup State.init = .ok (rs, s) ∧ rs.flatten = [.current 0 none] := by
  refine ⟨⟨_, _, rfl, ?_⟩, ⟨_, _, rfl, ?_⟩, ⟨_, _, rfl, ?_⟩⟩
  · rfl
  · rfl
  · rfl

end Razorback.Threads
