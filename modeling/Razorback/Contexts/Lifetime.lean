import Razorback.Contexts.Defs
import Razorback.Base.Histories

/-! No context is destroyed while it is on the list of contexts, as long as no
re-registration fails: a context that a failed re-registration destroys stays on
the list. -/

namespace Razorback.Contexts
open Runs Histories Function List

/-- A context is off the list when it is destroyed, and was not destroyed when it
is found on the list. -/
def Fits (before : List Event) : Event → Prop
  | .destroyed _ listed => listed = false
  | .yielded c => ∀ listed, .destroyed c listed ∉ before

/-- No re-registration fails. -/
def Reregisters (l : Label) (s : State) : Prop :=
  ∀ k c ok, l = .rereg k ok → s.reregs k = .register c → ok = true

def Owner.listing : Owner → Bool
  | .start _ | .submission | .launch | .returned | .bye | .lock | .mark _ | .prune _ => true
  | .absent | .allocate | .semaphore _ | .push _ | .unlock | .teardown | .destroy | .finished => false

def Dispatch.remaining : Dispatch → List ℕ
  | .visiting remaining _ => remaining
  | _ => []

structure Inv (es : List Event) (s : State) : Prop where
  listing : ∀ c ∈ s.contextList, (s.owners c).listing = true
  pruning : ∀ c ∈ s.contextList, ∀ removal, s.owners c = .prune removal → s.marked c = true
  gone : ∀ c listed, .destroyed c listed ∈ es → s.owners c = .finished
  visiting : ∀ c ∈ s.dispatch.remaining, c ∈ s.contextList
  spared : ∀ k c, s.reregs k ≠ .destroy c
  kept : Justified Fits es

section
variable {es : List Event} {s s' : State} {c : ℕ}

theorem setOwner_self (s : State) (c : ℕ) (pc : Owner) : (s.setOwner c pc).owners c = pc :=
  update_self _ _ _

theorem setOwner_of_ne (s : State) (pc : Owner) (h : x ≠ c) : (s.setOwner c pc).owners x = s.owners x :=
  update_of_ne h _ _

theorem Inv.alive (h : Inv es s) (hc : c ∈ s.contextList) : Fits es (.yielded c) := by
  intro listed hmem
  have hlisting := h.listing c hc
  rw [h.gone c listed hmem] at hlisting
  cases hlisting

theorem Inv.owner (h : Inv es s) (hpc : s.owners c ≠ .finished) (howners : s'.owners = (s.setOwner c pc).owners)
    (hlist : ∀ x ∈ s'.contextList, x ∈ s.contextList) (hlisting : c ∈ s'.contextList → pc.listing)
    (hprune : c ∈ s'.contextList → ∀ removal, pc = .prune removal → s'.marked c)
    (hmarked : ∀ x ∈ s'.contextList, s.marked x → s'.marked x)
    (hvisiting : ∀ x ∈ s'.dispatch.remaining, x ∈ s'.contextList) (hreregs : s'.reregs = s.reregs) :
    Inv es s' := by
  refine ⟨fun x hx => ?_, fun x hx removal hr => ?_, fun x listed hmem => ?_, hvisiting, fun k x => ?_, h.kept⟩
  · rw [howners]
    by_cases hxc : x = c
    · subst hxc
      rw [setOwner_self]
      exact hlisting hx
    · rw [setOwner_of_ne s pc hxc]
      exact h.listing x (hlist x hx)
  · rw [howners] at hr
    by_cases hxc : x = c
    · subst hxc
      rw [setOwner_self] at hr
      exact hprune hx removal hr
    · rw [setOwner_of_ne s pc hxc] at hr
      exact hmarked x hx (h.pruning x (hlist x hx) removal hr)
  · rw [howners]
    have hover := h.gone x listed hmem
    have hxc : x ≠ c := fun he => hpc (he ▸ hover)
    rwa [setOwner_of_ne s pc hxc]
  · rw [hreregs]
    exact h.spared k x

theorem Inv.setOwner (h : Inv es s) (hpc : s.owners c ≠ .finished)
    (hlisting : (s.owners c).listing → pc.listing) (hprune : ∀ removal, pc ≠ .prune removal) :
    Inv es (s.setOwner c pc) :=
  h.owner hpc rfl (fun _ hx => hx) (fun hc => hlisting (h.listing c hc)) (fun _ removal he => absurd he (hprune removal))
    (fun _ _ hm => hm) h.visiting rfl

theorem Inv.yield (h : Inv es s) (hc : c ∈ s.contextList) : Inv (es ++ [.yielded c]) s := by
  refine ⟨h.listing, h.pruning, fun x listed hmem => h.gone x listed ?_, h.visiting, h.spared,
    h.kept.snoc (h.alive hc)⟩
  simpa using hmem

theorem Inv.destroyed (h : Inv es s) (hover : s.owners c = .finished) (hout : c ∉ s.contextList) :
    Inv (es ++ [.destroyed c (s.contextList.contains c)]) s := by
  have hlisted : s.contextList.contains c = false := by simpa using hout
  rw [hlisted]
  refine ⟨h.listing, h.pruning, fun x listed hmem => ?_, h.visiting, h.spared, h.kept.snoc rfl⟩
  rcases mem_append.mp hmem with hmem | hmem
  · exact h.gone x listed hmem
  · obtain ⟨rfl, _⟩ : x = c ∧ listed = false := by simpa using hmem
    exact hover

theorem remaining_of_not_reading (h : s.reading = false) : s.dispatch.remaining = [] := by
  unfold State.reading at h
  cases hd : s.dispatch with
  | visiting =>
    rw [hd] at h
    cases h
  | _ => rfl

theorem Inv.push (h : Inv es s) (hpc : s.owners c = .push kind) (hreading : s.reading = false) :
    Inv es { s.setOwner c (.start kind) with
      contextList := s.contextList ++ [c], marked := update s.marked c false } := by
  have hin : ∀ x ∈ s.contextList ++ [c], x ≠ c → x ∈ s.contextList := fun x hx hxc => by
    simpa [hxc] using hx
  refine ⟨fun x hx => ?_, fun x hx removal hr => ?_, fun x listed hmem => ?_, fun x hx => ?_, h.spared, h.kept⟩
  · by_cases hxc : x = c
    · subst hxc
      exact congrArg Owner.listing (setOwner_self s x _)
    · have hsame := setOwner_of_ne s (.start kind) hxc
      exact (congrArg Owner.listing hsame).trans (h.listing x (hin x hx hxc))
  · by_cases hxc : x = c
    · subst hxc
      exact nomatch (setOwner_self s x (.start kind)).symm.trans hr
    · have hsame := setOwner_of_ne s (.start kind) hxc
      exact (update_of_ne hxc _ _).trans (h.pruning x (hin x hx hxc) removal (hsame.symm.trans hr))
  · have hover := h.gone x listed hmem
    have hxc : x ≠ c := by
      rintro rfl
      rw [hpc] at hover
      cases hover
    exact (setOwner_of_ne s _ hxc).trans hover
  · change x ∈ s.dispatch.remaining at hx
    rw [remaining_of_not_reading hreading] at hx
    cases hx

theorem Inv.owned (h : Inv es s) (c : ℕ) (ok : Bool) : Inv (es ++ (ownerStep c ok s).1) (ownerStep c ok s).2 := by
  cases hpc : s.owners c with
  | absent | returned | finished =>
    simp only [ownerStep, hpc, append_nil]
    exact h
  | allocate =>
    simp only [ownerStep, hpc, append_nil]
    exact h.setOwner (by rw [hpc]; simp) (by rw [hpc]; simp [Owner.listing]) (by cases ok <;> simp)
  | semaphore kind =>
    simp only [ownerStep, hpc, append_nil]
    exact h.setOwner (by rw [hpc]; simp) (by rw [hpc]; simp [Owner.listing]) (by cases ok <;> simp)
  | push kind =>
    simp only [ownerStep, hpc]
    cases hreading : s.reading with
    | true => simpa using h
    | false =>
      cases ok with
      | true =>
        simp only [Bool.false_eq_true, if_false, if_true, append_nil]
        exact h.push hpc hreading
      | false =>
        simp only [Bool.false_eq_true, if_false, append_nil]
        exact h.setOwner (by rw [hpc]; simp) (fun _ => rfl) (by simp)
  | start kind =>
    simp only [ownerStep, hpc, append_nil]
    exact h.setOwner (by rw [hpc]; simp) (by cases ok <;> cases kind <;> simp [Owner.listing, afterStart])
      (by cases ok <;> cases kind <;> simp [afterStart])
  | submission =>
    simp only [ownerStep, hpc, append_nil]
    exact h.setOwner (by rw [hpc]; simp) (by cases ok <;> simp [Owner.listing]) (by cases ok <;> simp)
  | launch =>
    simp only [ownerStep, hpc, append_nil]
    exact h.setOwner (by rw [hpc]; simp) (by cases ok <;> simp [Owner.listing]) (by cases ok <;> simp)
  | bye =>
    simp only [ownerStep, hpc, append_nil]
    exact h.setOwner (by rw [hpc]; simp) (fun _ => rfl) (by simp)
  | lock =>
    simp only [ownerStep, hpc]
    split
    · rw [append_nil]
      exact h.owner (by rw [hpc]; simp) rfl (fun _ hx => hx) (fun _ => rfl) (fun _ _ he => nomatch he)
        (fun _ _ hm => hm) h.visiting rfl
    · simpa using h
  | mark removal =>
    simp only [ownerStep, hpc, append_nil]
    refine h.owner (by rw [hpc]; simp) rfl (fun _ hx => hx) (fun _ => rfl) (fun hc _ _ => ?_)
      (fun x _ hm => ?_) h.visiting rfl
    · have hhit : s.hit c c := by simp [State.hit]
      simpa [hhit] using .inr (show c ∈ s.contextList from hc)
    · exact (congrArg (· || _) hm).trans (Bool.true_or _)
  | prune removal =>
    simp only [ownerStep, hpc]
    split
    · simpa using h
    · next hreading =>
      rw [append_nil]
      have hout : c ∉ s.contextList.filter fun x => !s.marked x := by
        intro hc
        obtain ⟨hin, hunmarked⟩ := mem_filter.mp hc
        rw [h.pruning c hin removal hpc] at hunmarked
        cases hunmarked
      refine h.owner (by rw [hpc]; simp) rfl (fun x hx => (mem_filter.mp hx).1) (fun hc => absurd hc hout)
        (fun hc => absurd hc hout) (fun _ _ hm => hm) (fun x hx => ?_) rfl
      change x ∈ s.dispatch.remaining at hx
      rw [remaining_of_not_reading (Bool.eq_false_iff.mpr hreading)] at hx
      cases hx
  | unlock =>
    simp only [ownerStep, hpc, append_nil]
    refine h.owner (by rw [hpc]; simp) rfl (fun _ hx => hx) (fun hc => ?_) (fun _ _ he => nomatch he)
      (fun _ _ hm => hm) h.visiting rfl
    have hlisting := h.listing c hc
    rw [hpc] at hlisting
    cases hlisting
  | teardown =>
    simp only [ownerStep, hpc, append_nil]
    exact h.setOwner (by rw [hpc]; simp) (by rw [hpc]; simp [Owner.listing]) (by simp)
  | destroy =>
    have hout : c ∉ s.contextList := by
      intro hc
      have hlisting := h.listing c hc
      rw [hpc] at hlisting
      cases hlisting
    have hset : Inv es (s.setOwner c .finished) :=
      h.setOwner (by rw [hpc]; simp) (by rw [hpc]; simp [Owner.listing]) (by simp)
    simp only [ownerStep, hpc]
    exact hset.destroyed (setOwner_self s c _) hout

theorem Inv.dispatched (h : Inv es s) (hlist : s'.contextList = s.contextList) (howners : s'.owners = s.owners)
    (hmarked : s'.marked = s.marked) (hvisiting : ∀ x ∈ s'.dispatch.remaining, x ∈ s.contextList)
    (hspared : ∀ k x, s'.reregs k ≠ .destroy x) : Inv es s' :=
  ⟨by rw [hlist, howners]; exact h.listing, by rw [hlist, howners, hmarked]; exact h.pruning,
    by rw [howners]; exact h.gone, by rw [hlist]; exact hvisiting, hspared, h.kept⟩

theorem Inv.launch (h : Inv es s) (c : ℕ) (rereg : Bool) : Inv es (s.launch c rereg) := by
  cases rereg with
  | false => exact h
  | true =>
    refine h.dispatched rfl rfl rfl h.visiting fun k x => ?_
    change update s.reregs s.started (.register c) k ≠ .destroy x
    by_cases hk : k = s.started
    · rw [hk, update_self]
      exact Rereg.noConfusion
    · rw [update_of_ne hk]
      exact h.spared k x

theorem Inv.release (h : Inv es s) : Inv es s.release :=
  h.dispatched rfl rfl rfl (fun _ hx => nomatch hx) h.spared

theorem lookupContext_mem (h : s.lookupContext nuggetId = some c) : c ∈ s.contextList := by
  rw [State.lookupContext, Lists.find_eq] at h
  exact mem_of_find?_eq_some h

theorem Inv.dispatch (h : Inv es s) (goesOn : Bool) :
    Inv (es ++ (dispatchStep goesOn s).1) (dispatchStep goesOn s).2 := by
  cases hd : s.dispatch with
  | idle =>
    simp only [dispatchStep, hd, append_nil]
    exact h
  | looking message =>
    simp only [dispatchStep, hd]
    split
    · split
      · next c hc => exact (h.yield (lookupContext_mem hc)).release
      · rw [append_nil]
        exact h.dispatched rfl rfl rfl (fun _ hx => hx) h.spared
    · split
      · next c hc => exact (h.yield (lookupContext_mem hc)).dispatched rfl rfl rfl (fun _ hx => nomatch hx) h.spared
      · rw [append_nil]
        exact h.release
  | handling c rereg =>
    simp only [dispatchStep, hd, append_nil]
    exact (h.launch c rereg).release
  | visiting remaining rereg =>
    have hvisiting := h.visiting
    rw [hd] at hvisiting
    cases remaining with
    | nil =>
      simp only [dispatchStep, hd, append_nil]
      exact h.release
    | cons c rest =>
      have hyield := (h.yield (hvisiting c mem_cons_self)).launch c rereg
      have hlist : (s.launch c rereg).contextList = s.contextList := by cases rereg <;> rfl
      simp only [dispatchStep, hd]
      split
      · refine hyield.dispatched rfl rfl rfl (fun x hx => ?_) hyield.spared
        rw [hlist]
        exact hvisiting x (mem_cons_of_mem c hx)
      · exact hyield.release

theorem Inv.rereg (h : Inv es s) {k : ℕ} {ok : Bool} (hok : ∀ c, s.reregs k = .register c → ok) :
    Inv (es ++ (reregStep k ok s).1) (reregStep k ok s).2 := by
  cases hk : s.reregs k with
  | register c =>
    obtain rfl := hok c hk
    simp only [reregStep, hk, append_nil]
    refine h.dispatched rfl rfl rfl h.visiting fun j x => ?_
    by_cases hj : j = k
    · rw [hj]
      exact fun he => nomatch (update_self k _ s.reregs).symm.trans he
    · exact fun he => h.spared j x ((update_of_ne hj _ _).symm.trans he)
  | destroy c => exact absurd hk (h.spared k c)
  | finished =>
    simp only [reregStep, hk, append_nil]
    exact h

theorem inv_step (h : Inv es s) (hcond : Reregisters l s) : Inv (es ++ (step l s).1) (step l s).2 := by
  cases l with
  | init c kind nuggetId =>
    simp only [step]
    split
    · next habsent =>
      rw [append_nil]
      have hout : c ∉ s.contextList := by
        intro hc
        have hlisting := h.listing c hc
        rw [habsent] at hlisting
        cases hlisting
      refine h.owner (by rw [habsent]; simp) rfl (fun _ hx => hx) (fun hc => absurd hc hout) (fun hc => absurd hc hout)
        (fun _ _ hm => hm) h.visiting rfl
    · rwa [append_nil]
  | owner c ok => exact h.owned c ok
  | shutdown c =>
    simp only [step]
    split
    · next hreturned =>
      rw [append_nil]
      exact h.setOwner (by rw [hreturned]; simp) (fun _ => rfl) (by simp)
    · rwa [append_nil]
  | command message =>
    simp only [step]
    split
    · rw [append_nil]
      exact h.dispatched rfl rfl rfl (fun _ hx => nomatch hx) h.spared
    · rwa [append_nil]
  | helloTimer =>
    simp only [step]
    split
    · rw [append_nil]
      exact h.dispatched rfl rfl rfl (fun _ hx => hx) h.spared
    · rwa [append_nil]
  | dispatch goesOn => exact h.dispatch goesOn
  | rereg k ok => exact h.rereg fun c => hcond k c ok rfl
  | lookup nuggetId =>
    cases hc : s.lookupContext nuggetId with
    | none =>
      simp only [step, hc, Option.toList_none, map_nil, append_nil]
      exact h
    | some c =>
      simp only [step, hc]
      exact h.yield (lookupContext_mem hc)

theorem inv_init : Inv [] State.init :=
  ⟨(fun _ hc => nomatch hc), (fun _ hc => nomatch hc), (fun _ _ hc => nomatch hc), (fun _ hc => nomatch hc),
    (fun _ _ hk => nomatch hk), justified_nil⟩

end

def call (l : Label) (s : State) : Except Empty (List Event × State) := .ok (step l s)

/-- In every run in which no re-registration fails, no context is destroyed while
it is on the list, and none that a lookup or a pass yields was destroyed. -/
theorem destroyed_off_list (ls : List Label) (hcond : Along Reregisters call ls State.init)
    {rs : List (List Event)} {s : State} (hr : run call ls State.init = .ok (rs, s)) :
    Justified Fits rs.flatten := by
  refine (run_events (I := Inv) (fun _ l _ _ _ h hl hs => ?_) inv_init hcond hr).kept
  obtain ⟨rfl, rfl⟩ := ok_inj hs
  exact inv_step h hl

def reregisterAndShutdown (ok : Bool) : List Label :=
  .init 0 .collection 1 :: List.replicate 4 (.owner 0 true) ++
    [.command ⟨9, 1, true⟩, .dispatch true, .dispatch true, .rereg 0 ok, .rereg 0 ok, .shutdown 0] ++
    List.replicate 7 (.owner 0 true)

theorem destroyed_off_list_one :
    ∃ rs s, run call (reregisterAndShutdown true) State.init = .ok (rs, s) ∧
      rs.flatten = [.yielded 0, .destroyed 0 false] ∧ Justified Fits rs.flatten := by
  obtain ⟨rs, s, hr, hes⟩ : ∃ rs s, run call (reregisterAndShutdown true) State.init = .ok (rs, s) ∧
      rs.flatten = [.yielded 0, .destroyed 0 false] := ⟨_, _, rfl, by decide⟩
  refine ⟨rs, s, hr, hes, destroyed_off_list _ ?_ hr⟩
  refine (along_of_forall fun l hl => hl).mono fun l s hl k c ok he _ => ?_
  subst he
  simp [reregisterAndShutdown] at hl
  exact hl.2

/-- A failed re-registration destroys a context that is on the list. -/
theorem failed_reregistration_destroys_listed :
    ∃ rs s, run call (reregisterAndShutdown false) State.init = .ok (rs, s) ∧ ¬Justified Fits rs.flatten := by
  refine ⟨_, _, rfl, fun h => ?_⟩
  exact absurd (h [.yielded 0] (.destroyed 0 true) [.destroyed 0 false] rfl) (by simp [Fits])

end Razorback.Contexts
