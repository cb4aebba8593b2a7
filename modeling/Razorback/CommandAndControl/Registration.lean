import Razorback.CommandAndControl.DefaultHooks
import Razorback.Base.Histories

/-! The registration of one context: the command thread with the default hooks,
the call of `CommandAndControl_Register` at startup and those of re-registration
threads. The answer comes through a counting semaphore and the flag `regOk`, which
every Go and every Registration Error touch, whether a call waits or not. A step
is one access to the context; a call that has to wait takes a step that changes
nothing. -/

namespace Razorback.Handshake
open CommandAndControl Runs Histories List
open Razorback.Lists (semPost)

inductive Caller
  | launched   -- `ReregistrationThread` before `regOk = false`
  | register   -- before the request is sent
  | waiting    -- in `Semaphore_Wait`
  | woken      -- before `regOk` is read
  | destroy    -- the registration failed
  | finished
  deriving DecidableEq, Repr

inductive Event
  | sent (r : ℕ)
  /-- A Go or a Registration Error was processed. -/
  | answer (go : Bool)
  | returned (r : ℕ) (ok : Bool)
  deriving DecidableEq, Repr

inductive Fault
  | useAfterFree
  deriving DecidableEq, Repr

/-- `handler` is what the command thread has still to do to the context for the
message in hand; the callers are numbered in the order of their calls. -/
structure State where
  registration : Registration
  destroyed : Bool
  handler : List Access
  started : ℕ
  callers : ℕ → Caller

inductive Label
  | command (type : CommandType)
  | handler
  | startup
  /-- A step of the caller `r`: whether a request can be created and sent, and
  whether a signal interrupts the wait. -/
  | caller (r : ℕ) (sends interrupted : Bool)
  deriving DecidableEq, Repr

def State.setCaller (s : State) (r : ℕ) (pc : Caller) : State :=
  { s with callers := Function.update s.callers r pc }

def State.setRegistration (s : State) (registration : Registration) : State :=
  { s with registration := registration }

def State.launch (s : State) (pc : Caller) : State :=
  { s.setCaller s.started pc with started := s.started + 1 }

def accessEvents : Access → List Event
  | .setRegOk regOk => [.answer regOk]
  | .setPaused _ | .post => []

/-- After `CommandAndControl_Register` both of its users destroy a context that
could not be registered. -/
def leave (ok : Bool) : Caller := if ok then .finished else .destroy

def callerStep (r : ℕ) (sends interrupted : Bool) (s : State) : List Event × State :=
  match s.callers r with
  | .launched => ([], (s.setRegistration { s.registration with regOk := false }).setCaller r .register)
  | .register =>
    if sends then ([.sent r], s.setCaller r .waiting)
    else ([.returned r false], s.setCaller r (leave false))
  | .waiting =>
    if interrupted then ([], s.setCaller r .woken)
    else match s.registration.regSem with
      | 0 => ([], s)
      | k + 1 => ([], (s.setRegistration { s.registration with regSem := k }).setCaller r .woken)
  | .woken => ([.returned r s.registration.regOk], s.setCaller r (leave s.registration.regOk))
  | .destroy => ([], { s.setCaller r .finished with destroyed := true })
  | .finished => ([], s)

def step (l : Label) (s : State) : Except Fault (List Event × State) :=
  match l with
  | .command type =>
    if s.handler ≠ [] then .ok ([], s)
    else if s.destroyed then .error .useAfterFree
    else
      let s := { s with handler := accesses type }
      .ok ([], if type = .rereg then s.launch .launched else s)
  | .handler =>
    match s.handler with
    | [] => .ok ([], s)
    | access :: rest =>
      if s.destroyed then .error .useAfterFree
      else .ok (accessEvents access, { s with registration := access.apply s.registration, handler := rest })
  | .startup => .ok ([], s.launch .register)
  | .caller r sends interrupted =>
    if s.callers r = .finished then .ok ([], s)
    else if s.destroyed then .error .useAfterFree
    else .ok (callerStep r sends interrupted s)

/-- A context as `calloc` and `Semaphore_Create` leave it. -/
def State.init : State := ⟨⟨false, false, 0⟩, false, [], 0, fun _ => .finished⟩

def answers (es : List Event) : List Bool :=
  es.filterMap fun
    | .answer go => some go
    | _ => none

/-- A call returns after a Go or a Registration Error was processed since its own
request was sent, and it returns what the last of these says. -/
def Fits (before : List Event) : Event → Prop
  | .returned r ok => ∃ earlier since, before = earlier ++ .sent r :: since ∧ (answers since).getLast? = some ok
  | _ => True

def Over (pc : Caller) : Prop := pc = .finished ∨ pc = .destroy

def Unclaimed (s : State) : Prop := ∀ r, Over (s.callers r)

/-- Calls for the context do not overlap, each request is sent, and a Go or a
Registration Error is taken up only while a call waits for its answer. -/
def Serial (l : Label) (s : State) : Prop :=
  match l with
  | .command type => s.handler = [] →
      (type = .go ∨ type = .regErr → s.registration.regSem = 0 ∧ ∃ r, s.callers r = .waiting) ∧
        (type = .rereg → Unclaimed s)
  | .handler => True
  | .startup => Unclaimed s
  | .caller _ sends interrupted => sends = true ∧ interrupted = false

def Since (r : ℕ) (es : List Event) (given : List Bool) : Prop :=
  ∃ earlier since, es = earlier ++ .sent r :: since ∧ answers since = given

section
variable {r : ℕ} {es : List Event} {given : List Bool} {s s' : State}

theorem Since.answered (h : Since r es given) (go : Bool) : Since r (es ++ [.answer go]) (given ++ [go]) := by
  obtain ⟨earlier, since, rfl, rfl⟩ := h
  exact ⟨earlier, since ++ [.answer go], by simp, by simp [answers]⟩

theorem Since.fits (h : Since r es [ok]) : Fits es (.returned r ok) := by
  obtain ⟨earlier, since, he, hgiven⟩ := h
  exact ⟨earlier, since, he, by rw [hgiven]; rfl⟩

def Calm (handler : List Access) : Prop := ∀ a ∈ handler, ∃ paused, a = .setPaused paused

inductive Phase (es : List Event) (s : State) (r : ℕ) : Prop
  | quiet (hpc : s.callers r ≠ .waiting ∧ s.callers r ≠ .woken) (hsem : s.registration.regSem = 0)
      (hcalm : Calm s.handler)
  | asked (hpc : s.callers r = .waiting) (hsem : s.registration.regSem = 0) (hcalm : Calm s.handler)
      (hsince : Since r es [])
  | taken (hpc : s.callers r = .waiting) (hsem : s.registration.regSem = 0) (calm : List Access)
      (go : Bool) (hcalm : Calm calm) (hhandler : s.handler = calm ++ [.setRegOk go, .post])
      (hsince : Since r es [])
  | told (hpc : s.callers r = .waiting) (hsem : s.registration.regSem = 0) (hhandler : s.handler = [.post])
      (hsince : Since r es [s.registration.regOk])
  | answered (hpc : s.callers r = .waiting) (hsem : s.registration.regSem = 1) (hcalm : Calm s.handler)
      (hsince : Since r es [s.registration.regOk])
  | woken (hpc : s.callers r = .woken) (hsem : s.registration.regSem = 0) (hcalm : Calm s.handler)
      (hsince : Since r es [s.registration.regOk])

structure Inv (es : List Event) (s : State) : Prop where
  phase : ∃ r, (∀ i, i ≠ r → Over (s.callers i)) ∧ Phase es s r
  kept : Justified Fits es

theorem calm_nil : Calm [] := fun _ h => nomatch h

theorem calm_accesses {type : CommandType} (hgo : type ≠ .go) (herr : type ≠ .regErr) : Calm (accesses type) := by
  intro a ha
  cases type with
  | go => exact absurd rfl hgo
  | regErr => exact absurd rfl herr
  | pause =>
    obtain rfl := mem_singleton.mp ha
    exact ⟨true, rfl⟩
  | _ => cases ha

theorem Phase.setHandler (h : Phase es s r) (hidle : s.handler = []) (hcalm : Calm handler) :
    Phase es { s with handler := handler } r := by
  cases h with
  | quiet hpc hsem => exact .quiet hpc hsem hcalm
  | asked hpc hsem _ hsince => exact .asked hpc hsem hcalm hsince
  | taken _ _ calm _ _ hhandler =>
    rw [hidle] at hhandler
    simp at hhandler
  | told _ _ hhandler =>
    rw [hidle] at hhandler
    cases hhandler
  | answered hpc hsem _ hsince => exact .answered hpc hsem hcalm hsince
  | woken hpc hsem _ hsince => exact .woken hpc hsem hcalm hsince

theorem Phase.take (h : Phase es s r) (hidle : s.handler = []) (hsem : s.registration.regSem = 0)
    (hpc : s.callers r = .waiting) (hcalm : Calm calm) (go : Bool) :
    Phase es { s with handler := calm ++ [.setRegOk go, .post] } r := by
  cases h with
  | quiet hne => exact absurd hpc hne.1
  | asked _ _ _ hsince => exact .taken hpc hsem calm go hcalm rfl hsince
  | taken _ _ calm _ _ hhandler =>
    rw [hidle] at hhandler
    simp at hhandler
  | told _ _ hhandler =>
    rw [hidle] at hhandler
    cases hhandler
  | answered _ hone =>
    rw [hsem] at hone
    cases hone
  | woken hwoken =>
    rw [hpc] at hwoken
    cases hwoken

theorem Phase.of_over (h : Phase es s r) (hover : Over (s.callers r)) :
    s.registration.regSem = 0 ∧ Calm s.handler := by
  cases h with
  | quiet _ hsem hcalm => exact ⟨hsem, hcalm⟩
  | asked hpc | taken hpc | told hpc | answered hpc | woken hpc =>
    rw [hpc] at hover
    rcases hover with he | he <;> cases he

theorem Inv.launch (h : Inv es s) (hfree : Unclaimed s) (hpc : pc ≠ .waiting ∧ pc ≠ .woken) :
    Inv es (s.launch pc) := by
  obtain ⟨r, hothers, hphase⟩ := h.phase
  obtain ⟨hsem, hcalm⟩ := hphase.of_over (hfree r)
  refine ⟨⟨s.started, fun i hi => ?_, .quiet ?_ hsem hcalm⟩, h.kept⟩
  · have hsame : (s.launch pc).callers i = s.callers i := Function.update_of_ne hi _ _
    rw [hsame]
    exact hfree i
  · have hnew : (s.launch pc).callers s.started = pc := Function.update_self _ _ _
    rwa [hnew]

theorem Phase.handle (h : Phase es s r) (hhandler : s.handler = a :: rest) :
    Phase (es ++ accessEvents a) { s with registration := a.apply s.registration, handler := rest } r := by
  have hcalm : Calm s.handler → (∃ paused, a = .setPaused paused) ∧ Calm rest := fun hcalm =>
    ⟨hcalm a (by rw [hhandler]; exact mem_cons_self),
      fun b hb => hcalm b (by rw [hhandler]; exact mem_cons_of_mem a hb)⟩
  cases h with
  | quiet hpc hsem hc =>
    obtain ⟨⟨paused, rfl⟩, hrest⟩ := hcalm hc
    exact .quiet hpc hsem hrest
  | asked hpc hsem hc hsince =>
    obtain ⟨⟨paused, rfl⟩, hrest⟩ := hcalm hc
    exact .asked hpc hsem hrest (by rwa [accessEvents, append_nil])
  | taken hpc hsem calm go hc htaken hsince =>
    rw [hhandler] at htaken
    cases calm with
    | nil =>
      obtain ⟨rfl, rfl⟩ := cons.inj htaken
      exact .told hpc hsem rfl (hsince.answered go)
    | cons b calm =>
      obtain ⟨rfl, rfl⟩ := cons.inj htaken
      obtain ⟨paused, rfl⟩ := hc a mem_cons_self
      refine .taken hpc hsem calm go (fun b hb => hc b (mem_cons_of_mem _ hb)) rfl ?_
      rwa [accessEvents, append_nil]
  | told hpc hsem htold hsince =>
    rw [hhandler] at htold
    obtain ⟨rfl, rfl⟩ := cons.inj htold
    refine .answered hpc ?_ calm_nil (by rwa [accessEvents, append_nil])
    change semPost s.registration.regSem = 1
    rw [hsem]
    rfl
  | answered hpc hsem hc hsince =>
    obtain ⟨⟨paused, rfl⟩, hrest⟩ := hcalm hc
    exact .answered hpc hsem hrest (by rwa [accessEvents, append_nil])
  | woken hpc hsem hc hsince =>
    obtain ⟨⟨paused, rfl⟩, hrest⟩ := hcalm hc
    exact .woken hpc hsem hrest (by rwa [accessEvents, append_nil])

theorem Phase.frame (h : Phase es s r) (hpc : s'.callers r = s.callers r)
    (hregistration : s'.registration = s.registration) (hhandler : s'.handler = s.handler) :
    Phase es s' r := by
  cases h with
  | quiet hne hsem hcalm =>
    exact .quiet (by rwa [hpc]) (by rwa [hregistration]) (by rwa [hhandler])
  | asked hw hsem hcalm hsince =>
    exact .asked (hpc.trans hw) (by rwa [hregistration]) (by rwa [hhandler]) hsince
  | taken hw hsem calm go hcalm htaken hsince =>
    exact .taken (hpc.trans hw) (by rwa [hregistration]) calm go hcalm (hhandler.trans htaken) hsince
  | told hw hsem htold hsince =>
    exact .told (hpc.trans hw) (by rwa [hregistration]) (hhandler.trans htold) (by rwa [hregistration])
  | answered hw hsem hcalm hsince =>
    exact .answered (hpc.trans hw) (by rwa [hregistration]) (by rwa [hhandler]) (by rwa [hregistration])
  | woken hw hsem hcalm hsince =>
    exact .woken (hpc.trans hw) (by rwa [hregistration]) (by rwa [hhandler]) (by rwa [hregistration])

@[simp] theorem setCaller_self (s : State) (r : ℕ) (pc : Caller) : (s.setCaller r pc).callers r = pc :=
  Function.update_self _ _ _

theorem setCaller_of_ne (s : State) (pc : Caller) (h : i ≠ r) :
    (s.setCaller r pc).callers i = s.callers i :=
  Function.update_of_ne h _ _

theorem Phase.asked_of_register (h : Phase es s r) (hpc : s.callers r = .register) :
    Phase (es ++ [.sent r]) (s.setCaller r .waiting) r := by
  cases h with
  | quiet _ hsem hcalm => exact .asked (setCaller_self s r _) hsem hcalm ⟨es, [], rfl, rfl⟩
  | asked hw | taken hw | told hw | answered hw | woken hw =>
    rw [hpc] at hw
    cases hw

theorem Phase.woken_of_waiting (h : Phase es s r) (hk : s.registration.regSem = k + 1) :
    Phase es ((s.setRegistration { s.registration with regSem := k }).setCaller r .woken) r := by
  cases h with
  | answered hpc hsem hcalm hsince =>
    obtain rfl : k = 0 := Nat.succ.inj (hk.symm.trans hsem)
    exact .woken (setCaller_self _ r _) rfl hcalm hsince
  | quiet _ hsem | asked _ hsem | taken _ hsem | told _ hsem | woken _ hsem =>
    rw [hk] at hsem
    cases hsem

theorem Phase.returns (h : Phase es s r) (hpc : s.callers r = .woken) :
    Since r es [s.registration.regOk] ∧ s.registration.regSem = 0 ∧ Calm s.handler := by
  cases h with
  | woken _ hsem hcalm hsince => exact ⟨hsince, hsem, hcalm⟩
  | quiet hne => exact absurd hpc hne.2
  | asked hw | taken hw | told hw | answered hw =>
    rw [hpc] at hw
    cases hw

theorem Inv.caller (h : Inv es s) (hi : s.callers i ≠ .finished) :
    Inv (es ++ (callerStep i true false s).1) (callerStep i true false s).2 := by
  obtain ⟨r, hothers, hphase⟩ := h.phase
  by_cases hir : i = r
  · subst hir
    have hset : ∀ (s' : State) pc, s'.callers = s.callers → ∀ j, j ≠ i → Over ((s'.setCaller i pc).callers j) :=
      fun s' pc he j hj => by
        rw [setCaller_of_ne s' pc hj, he]
        exact hothers j hj
    cases hpc : s.callers i with
    | launched =>
      obtain ⟨hsem, hcalm⟩ : s.registration.regSem = 0 ∧ Calm s.handler := by
        cases hphase with
        | quiet _ hsem hcalm => exact ⟨hsem, hcalm⟩
        | asked hw | taken hw | told hw | answered hw | woken hw =>
          rw [hpc] at hw
          cases hw
      simp only [callerStep, hpc, append_nil]
      exact ⟨⟨i, hset _ _ rfl, .quiet (by rw [setCaller_self]; decide) hsem hcalm⟩, h.kept⟩
    | register =>
      simp only [callerStep, hpc]
      exact ⟨⟨i, hset _ _ rfl, hphase.asked_of_register hpc⟩, h.kept.snoc trivial⟩
    | waiting =>
      cases hsem : s.registration.regSem with
      | zero =>
        simp only [callerStep, hpc, hsem, Bool.false_eq_true, if_false, append_nil]
        exact h
      | succ k =>
        simp only [callerStep, hpc, hsem, Bool.false_eq_true, if_false, append_nil]
        exact ⟨⟨i, hset _ _ rfl, hphase.woken_of_waiting hsem⟩, h.kept⟩
    | woken =>
      obtain ⟨hsince, hsem, hcalm⟩ := hphase.returns hpc
      simp only [callerStep, hpc]
      refine ⟨⟨i, hset _ _ rfl, .quiet ?_ hsem hcalm⟩, h.kept.snoc hsince.fits⟩
      rw [setCaller_self]
      cases s.registration.regOk <;> decide
    | destroy =>
      obtain ⟨hsem, hcalm⟩ := hphase.of_over (.inr hpc)
      simp only [callerStep, hpc, append_nil]
      exact ⟨⟨i, hset _ _ rfl, .quiet (by rw [setCaller_self]; decide) hsem hcalm⟩, h.kept⟩
    | finished => exact absurd hpc hi
  · rcases hothers i hir with hover | hdestroy
    · exact absurd hover hi
    · simp only [callerStep, hdestroy, append_nil]
      refine ⟨⟨r, fun j hj => ?_, hphase.frame (setCaller_of_ne s _ (.symm hir)) rfl rfl⟩, h.kept⟩
      by_cases hji : j = i
      · subst hji
        exact .inl (setCaller_self s j _)
      · exact (setCaller_of_ne s .finished hji).symm ▸ hothers j hj

theorem Inv.command (h : Inv es s) {type : CommandType} (hidle : s.handler = [])
    (hcond : Serial (.command type) s) :
    Inv es (if type = .rereg then { s with handler := accesses type }.launch .launched
      else { s with handler := accesses type }) := by
  obtain ⟨r, hothers, hphase⟩ := h.phase
  obtain ⟨hanswer, hrereg⟩ := hcond hidle
  -- the answer can only be for the call that waits
  have htake : type = .go ∨ type = .regErr → s.registration.regSem = 0 ∧ s.callers r = .waiting := by
    intro htype
    obtain ⟨hsem, i, hi⟩ := hanswer htype
    by_cases hir : i = r
    · exact ⟨hsem, hir ▸ hi⟩
    · have hover := hothers i hir
      rw [hi] at hover
      rcases hover with he | he <;> cases he
  by_cases hgo : type = .go
  · subst hgo
    obtain ⟨hsem, hpc⟩ := htake (.inl rfl)
    have hcalm : Calm [.setPaused false] := fun a ha => ⟨false, mem_singleton.mp ha⟩
    exact ⟨⟨r, hothers, hphase.take hidle hsem hpc hcalm true⟩, h.kept⟩
  by_cases herr : type = .regErr
  · subst herr
    obtain ⟨hsem, hpc⟩ := htake (.inr rfl)
    exact ⟨⟨r, hothers, hphase.take hidle hsem hpc calm_nil false⟩, h.kept⟩
  have hset : Inv es { s with handler := accesses type } :=
    ⟨⟨r, hothers, hphase.setHandler hidle (calm_accesses hgo herr)⟩, h.kept⟩
  split
  · next htype => exact hset.launch (hrereg htype) (by decide)
  · exact hset

theorem inv_step (h : Inv es s) (hcond : Serial l s)
    (hs : step l s = .ok (es', s')) : Inv (es ++ es') s' := by
  cases l with
  | command type =>
    simp only [step] at hs
    split at hs
    · cases hs
      rwa [append_nil]
    · next hidle =>
      split at hs
      · cases hs
      · cases hs
        rw [append_nil]
        exact h.command (not_not.mp hidle) hcond
  | handler =>
    simp only [step] at hs
    split at hs
    · cases hs
      rwa [append_nil]
    · next a rest hhandler =>
      split at hs
      · cases hs
      · cases hs
        obtain ⟨r, hothers, hphase⟩ := h.phase
        refine ⟨⟨r, hothers, hphase.handle hhandler⟩, ?_⟩
        cases a with
        | setRegOk go => exact h.kept.snoc trivial
        | setPaused | post => exact (append_nil es).symm ▸ h.kept
  | startup =>
    cases hs
    rw [append_nil]
    exact h.launch hcond (by decide)
  | caller i sends interrupted =>
    obtain ⟨rfl, rfl⟩ := hcond
    simp only [step] at hs
    split at hs
    · cases hs
      rwa [append_nil]
    · next hi =>
      split at hs
      · cases hs
      · obtain ⟨rfl, rfl⟩ := ok_inj hs
        exact h.caller hi

theorem inv_init : Inv [] State.init :=
  ⟨⟨0, fun _ _ => .inl rfl, .quiet (by decide) rfl calm_nil⟩, justified_nil⟩

end

/-- In every run in which calls do not overlap and each Go or Registration Error
answers the call that waits, a call returns after such an answer to its own request,
and returns what the last one says. -/
theorem register_answered (ls : List Label) (hcond : Along Serial step ls State.init) {rs : List (List Event)}
    {s : State} (hr : run step ls State.init = .ok (rs, s)) : Justified Fits rs.flatten :=
  (run_events (fun _ _ _ _ _ h hl hs => inv_step h hl hs) inv_init hcond hr).kept

def startupAnswered : List Label :=
  [.startup, .caller 0 true false, .command .go, .handler, .handler, .handler, .caller 0 true false,
    .caller 0 true false]

theorem register_answered_startup :
    ∃ rs s, run step startupAnswered State.init = .ok (rs, s) ∧ .returned 0 true ∈ rs.flatten ∧
      Justified Fits rs.flatten := by
  obtain ⟨rs, s, hr, hret⟩ : ∃ rs s, run step startupAnswered State.init = .ok (rs, s) ∧
      .returned 0 true ∈ rs.flatten := ⟨_, _, rfl, by decide⟩
  refine ⟨rs, s, hr, hret, register_answered startupAnswered ?_ hr⟩
  refine along_cons (fun _ => .inl rfl) rfl (along_cons ⟨rfl, rfl⟩ rfl ?_)
  refine along_cons (fun _ => ⟨fun _ => ⟨rfl, 0, rfl⟩, fun h => nomatch h⟩) rfl ?_
  refine along_cons trivial rfl (along_cons trivial rfl (along_cons trivial rfl ?_))
  exact along_cons ⟨rfl, rfl⟩ rfl (along_cons ⟨rfl, rfl⟩ rfl trivial)

def goAndReregister : List Label :=
  startupAnswered ++ [.command .pause, .handler, .command .go, .handler, .handler, .handler,
    .command .rereg, .caller 1 true false, .caller 1 true false, .caller 1 true false, .caller 1 true false]

theorem reregister_takes_stale_go :
    ∃ rs s, run step goAndReregister State.init = .ok (rs, s) ∧ ¬Justified Fits rs.flatten := by
  refine ⟨_, _, rfl, fun h => ?_⟩
  obtain ⟨earlier, since, hbefore, hlast⟩ :=
    h ([.sent 0, .answer true, .returned 0 true, .answer true] ++ [.sent 1]) (.returned 1 false) [] rfl
  rcases snoc_eq_append_cons hbefore with ⟨rfl, _, _⟩ | ⟨since', _, hearlier⟩
  · cases hlast
  · -- there is no other request of this call
    have hsent : .sent 1 ∈ [Event.sent 0, .answer true, .returned 0 true, .answer true] := by
      rw [hearlier]
      exact mem_append_right _ mem_cons_self
    exact absurd hsent (by decide)

end Razorback.Handshake
