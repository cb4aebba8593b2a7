import Razorback.Messages.Defs
import Razorback.Submission.Defs

/-! The messages one submit worker builds. `Submission_SubmitThread` keeps `storedLocality` from one item to the
next: a stored item sets it, an event-only item sends what is there. -/

namespace Razorback.Submission
open Messages (MessageBlockSubmission blockSubmissionInitialize)
open Transfer (TransferStatus)

def Reason.code : Reason → UInt32
  | .event => 0
  | .requested => 1

structure Work where
  iStatus : UInt32
  pEvent : Option Records.Event
  attempt : Attempts
  /-- The message can be allocated. -/
  initOk : Bool

namespace Work

def due (work : Work) : Bool := work.iStatus &&& statusMask == Status.submitData.code

def needsStore (work : Work) : Bool := work.iStatus &&& (flagEventOnly ||| flagUpdate) == 0

def store (work : Work) : Option Dispatcher :=
  match storeTries work.attempt transferTries 0 .failLocal with
  | (.ok, dispatcher, _) => dispatcher
  | _ => none

def message (work : Work) (reason : Reason) (storedLocality : UInt8) : Option MessageBlockSubmission :=
  if work.initOk then blockSubmissionInitialize work.pEvent reason.code storedLocality else none

def round (work : Work) (storedLocality : UInt8) : Option MessageBlockSubmission × UInt8 :=
  if !work.due then (none, storedLocality)
  else if work.needsStore then
    match work.store with
    | some dispatcher => (work.message .requested dispatcher.locality, dispatcher.locality)
    | none => (none, storedLocality)
  else (work.message .event storedLocality, storedLocality)

end Work

def localityAfter (before : List Work) : UInt8 := before.foldl (fun locality work => (work.round locality).2) 0

/-- The message a worker builds for an item after the items `before`. -/
def built (before : List Work) (work : Work) : Option MessageBlockSubmission := (work.round (localityAfter before)).1

/-- The same event and status flags, and where the data is stored the same results. -/
structure Work.Same (work work' : Work) : Prop where
  iStatus : work.iStatus = work'.iStatus
  pEvent : work.pEvent = work'.pEvent
  store : work.needsStore → work.store = work'.store

/-! ### The worker of the pipeline -/

section Pipeline

variable {n : ℕ} {s : State n} {t : Fin n} {i : ℕ} {attempt : Attempts} {initOk putOk : Bool}

theorem finish_locality (st : Status) : (finish t i st s).2.storedLocality = s.storedLocality := rfl

theorem publish_locality (reason : Reason) :
    (publish t i reason initOk putOk s).2.storedLocality = s.storedLocality := by
  unfold publish
  dsimp only
  split_ifs <;> rfl

theorem publish_sent (h : .published i reason' locality ∈ (publish t i reason initOk putOk s).1) :
    initOk ∧ reason' = reason ∧ locality = s.storedLocality t := by
  unfold publish finish callbackEvents at h
  cases initOk <;> cases putOk <;> simp only [Bool.false_eq_true] at h <;>
    split_ifs at h <;> simp_all

theorem finish_sends_nothing : .published i reason locality ∉ (finish t i st s).1 := by
  unfold finish callbackEvents
  split_ifs <;> simp

end Pipeline

/-! ### Two runs -/

section Runs

variable {before before' : List Work} {work work' : Work} {m m' : MessageBlockSubmission}

theorem message_eq_some (h : work.message reason locality = some m) :
    ∃ pEvent, work.pEvent = some pEvent ∧ m = ⟨reason.code, pEvent, locality⟩ := by
  unfold Work.message blockSubmissionInitialize at h
  split_ifs at h
  obtain ⟨pEvent, hevent, rfl⟩ := Option.map_eq_some_iff.mp h
  exact ⟨pEvent, hevent, rfl⟩

theorem built_cases (h : built before work = some m) :
    ∃ pEvent, work.pEvent = some pEvent ∧
      ((work.needsStore ∧ ∃ dispatcher, work.store = some dispatcher ∧
          m = ⟨Reason.requested.code, pEvent, dispatcher.locality⟩) ∨
        (work.needsStore = false ∧ m = ⟨Reason.event.code, pEvent, localityAfter before⟩)) := by
  unfold built Work.round at h
  split_ifs at h with hdue hneeds
  · cases hstore : work.store with
    | none => simp [hstore] at h
    | some dispatcher =>
      rw [hstore] at h
      obtain ⟨pEvent, hevent, rfl⟩ := message_eq_some h
      exact ⟨pEvent, hevent, .inl ⟨hneeds, dispatcher, rfl, rfl⟩⟩
  · obtain ⟨pEvent, hevent, rfl⟩ := message_eq_some h
    exact ⟨pEvent, hevent, .inr ⟨by simpa using hneeds, rfl⟩⟩

/-- The messages two workers build for the same item are the same exactly if its data was stored for them, or the
items before it left the same locality behind. -/
theorem built_same_iff (hsame : work.Same work') (hm : built before work = some m) (hm' : built before' work' = some m') :
    m = m' ↔ work.needsStore = true ∨ localityAfter before = localityAfter before' := by
  have hneeds : work.needsStore = work'.needsStore := by
    rw [Work.needsStore, Work.needsStore, hsame.iStatus]
  obtain ⟨pEvent, hevent, hcase⟩ := built_cases hm
  obtain ⟨pEvent', hevent', hcase'⟩ := built_cases hm'
  obtain rfl : pEvent = pEvent' := Option.some.inj (hevent.symm.trans (hsame.pEvent.trans hevent'))
  rcases hcase with ⟨hn, dispatcher, hstore, rfl⟩ | ⟨hn, rfl⟩
  · rcases hcase' with ⟨-, dispatcher', hstore', rfl⟩ | ⟨hn', -⟩
    · obtain rfl : dispatcher = dispatcher' :=
        Option.some.inj (hstore.symm.trans ((hsame.store hn).trans hstore'))
      simp [hn]
    · simp [hn, hn'] at hneeds
  · rcases hcase' with ⟨hn', -⟩ | ⟨-, rfl⟩
    · simp [hn, hn'] at hneeds
    · simp [hn]

end Runs

def plainEvent : Records.Event :=
  .mk ⟨3, 0, 0⟩ none none 6 none (some [])

def eventOnly : Work := ⟨Status.submitData.code ||| flagEventOnly, some plainEvent, fun _ => none, true⟩

def storedAt (locality : UInt8) : Work :=
  ⟨Status.submitData.code, some plainEvent, fun _ => some (⟨0, locality⟩, .ok), true⟩

/-- A stored item's message does not depend on the item before it. -/
theorem stored_message_same :
    ∃ m m', built [] (storedAt 3) = some m ∧ built [storedAt 7] (storedAt 3) = some m' ∧ m = m' := by
  obtain ⟨m, hm⟩ := Option.isSome_iff_exists.mp (show (built [] (storedAt 3)).isSome by decide)
  obtain ⟨m', hm'⟩ := Option.isSome_iff_exists.mp (show (built [storedAt 7] (storedAt 3)).isSome by decide)
  have hsame : (storedAt 3).Same (storedAt 3) := ⟨rfl, rfl, fun _ => rfl⟩
  exact ⟨m, m', hm, hm', (built_same_iff hsame hm hm').mpr (.inl (by decide))⟩

/-- The event-only submission says it is stored where the item before it was. -/
theorem stale_locality_sent :
    (built [] eventOnly).map (·.storedLocality) = some 0 ∧
      (built [storedAt 7] eventOnly).map (·.storedLocality) = some 7 := by decide

end Razorback.Submission
