import Razorback.Inspection.Moves

/-! Whether an inspection request is answered before it is acked. A judgment is
published by one of the many ways through `Inspection_Process_Message` only, but
the message goes to the completed list, and is acked, after all of them. -/

namespace Razorback.Inspection
open Records Runs List Nat
open Transfer (TransferStatus)
open Razorback.Lists (Seq)

def WellFormed (message : Message) (eventId : EventId) (blockId : BlockId) : Prop :=
  message.type = messageTypeInspection ∧ message.message = some ⟨some eventId, some ⟨some blockId⟩⟩ ∧
    blockId.pHash.isSome

/-- Every ack of a well formed message comes after a judgment for its event and block. -/
def AckedAnswered (messages : ℕ → Message) (es : List Event) : Prop :=
  ∀ before m after, es = before ++ .acked m :: after → ∀ eventId blockId,
    WellFormed (messages m) eventId blockId → ∃ iReason, .published ⟨iReason, eventId, blockId⟩ ∈ before

structure Answers (r : Results) : Prop where
  fetched : ∃ k < 20, (∀ i < k, ∃ status, r.fetch i = some status ∧ status ≠ .ok) ∧ r.fetch k = some .ok
  hasData : r.hasData = true
  cloneEventId : r.cloneEventId = true
  cloneBlock : r.cloneBlock = true
  processBlock : r.processBlock = judgmentReasonDone ∨ r.processBlock = judgmentReasonError ∨
    r.processBlock = judgmentReasonDeferred
  createJudgment : r.createJudgment = true
  initMessage : r.initMessage = true
  put : r.put = true

/-- The condition on a step: the calls made for a well formed message go well. -/
def Answering {n : ℕ} (messages : ℕ → Message) (l : Label n) (s : State n) : Prop :=
  ∀ w results allocOk m eventId blockId, l = .worker w results allocOk → s.workers w = .processing m →
    WellFormed (messages m) eventId blockId → Answers results

theorem fetchLoop_eq_ok (fetch : ℕ → Option TransferStatus) (left tries : ℕ)
    (hstatus : status ≠ .ok) : fetchLoop fetch left tries status = .ok ↔
      ∃ k < left, (∀ i < k, ∃ st, fetch (tries + i) = some st ∧ st ≠ .ok) ∧ fetch (tries + k) = some .ok := by
  induction left generalizing tries status with
  | zero => simp [fetchLoop, hstatus]
  | succ left ih =>
    -- the round after a failed one is the first of the shorter loop
    have hfail : ∀ st, fetch tries = some st → st ≠ .ok →
        (fetchLoop fetch left (tries + 1) st = .ok ↔ ∃ k < left + 1,
          (∀ i < k, ∃ st, fetch (tries + i) = some st ∧ st ≠ .ok) ∧ fetch (tries + k) = some .ok) := by
      intro st hst hne
      rw [ih _ hne]
      constructor
      · rintro ⟨k, hk, hbefore, hok⟩
        refine ⟨k + 1, succ_lt_succ hk, fun i hi => ?_, ?_⟩
        · cases i with
          | zero => exact ⟨st, hst, hne⟩
          | succ i =>
            rw [← add_assoc, add_right_comm]
            exact hbefore i (lt_of_succ_lt_succ hi)
        · rw [← add_assoc, add_right_comm]
          exact hok
      · rintro ⟨k, hk, hbefore, hok⟩
        cases k with
        | zero => exact absurd (Option.some.inj (hst.symm.trans hok)) hne
        | succ k =>
          refine ⟨k, lt_of_succ_lt_succ hk, fun i hi => ?_, ?_⟩
          · rw [add_right_comm]
            exact hbefore (i + 1) (succ_lt_succ hi)
          · rw [add_right_comm]
            exact hok
    unfold fetchLoop
    split
    · rename_i hnone
      refine iff_of_false hstatus ?_
      rintro ⟨k, _, hbefore, hok⟩
      cases k with
      | zero => exact nomatch hnone.symm.trans hok
      | succ k =>
        obtain ⟨st, hst, _⟩ := hbefore 0 (succ_pos k)
        exact nomatch hnone.symm.trans hst
    · rename_i hok
      exact iff_of_true rfl ⟨0, succ_pos left, fun i hi => absurd hi (not_lt_zero i), hok⟩
    · rename_i st hne hst
      exact hfail st hst fun he => hne (he ▸ rfl)

theorem inspectBlock_ok_iff : inspectBlock (some eventId) blockId r = .ok judgment ↔
      Answers r ∧ judgment = ⟨r.processBlock, eventId, blockId⟩ := by
  have hfetch : fetchLoop r.fetch 20 0 .failLocal = .ok ↔ ∃ k < 20,
      (∀ i < k, ∃ status, r.fetch i = some status ∧ status ≠ .ok) ∧ r.fetch k = some .ok := by
    have hloop := fetchLoop_eq_ok r.fetch 20 0 (by decide : TransferStatus.failLocal ≠ .ok)
    simpa only [zero_add] using hloop
  constructor
  · intro h
    cases hclone : r.cloneEventId with
    | false => simp [inspectBlock, hclone, ← apply_ite Except.error] at h
    | true =>
      simp only [inspectBlock, hclone] at h
      split_ifs at h with hok hdata hblock hresult hjudgment hinit hput
      cases h
      refine ⟨⟨hfetch.mp (not_not.mp hok), by simpa using hdata, hclone, by simpa using hblock, ?_,
        by simpa using hjudgment, by simpa using hinit, by simpa using hput⟩, rfl⟩
      tauto
  · rintro ⟨h, rfl⟩
    have hresult : ¬(r.processBlock ≠ judgmentReasonDone ∧ r.processBlock ≠ judgmentReasonError ∧
        r.processBlock ≠ judgmentReasonDeferred) := by
      have := h.processBlock
      tauto
    simp only [inspectBlock, hfetch.mpr h.fetched, h.hasData, h.cloneEventId, h.cloneBlock, hresult,
      h.createJudgment, h.initMessage, h.put, ne_eq, not_true_eq_false, if_false, Bool.not_true,
      Bool.false_eq_true]

theorem processMessage_eq (r : Results) (h : WellFormed message eventId blockId) :
    processMessage message r = inspectBlock (some eventId) blockId r := by
  obtain ⟨type, payload⟩ := message
  obtain ⟨rfl, rfl, hhash⟩ := h
  obtain ⟨_ | hash, uuidDataType, iLength⟩ := blockId
  · cases hhash
  · rfl

section
variable {n : ℕ} {messages : ℕ → Message} {s s' : State n} {es es' : List Event} {m : ℕ}

def Answered (messages : ℕ → Message) (es : List Event) (m : ℕ) : Prop :=
  ∀ eventId blockId, WellFormed (messages m) eventId blockId →
    ∃ iReason, .published ⟨iReason, eventId, blockId⟩ ∈ es

theorem Answered.append (h : Answered messages es m) (es' : List Event) :
    Answered messages (es ++ es') m := by
  intro eventId blockId hwf
  obtain ⟨iReason, hmem⟩ := h eventId blockId hwf
  exact ⟨iReason, mem_append_left _ hmem⟩

structure AnsweredBehind (messages : ℕ → Message) (es : List Event) (s : State n) : Prop where
  worker : ∀ w m, s.workers w = .complete m → Answered messages es m
  completed : ∀ L, s.completedMessages = some L → ∀ m ∈ L.items, Answered messages es m
  receiver : ∀ last m, s.receiver = .ack last m → Answered messages es m
  acked : AckedAnswered messages es

theorem AckedAnswered.quiet (h : AckedAnswered messages es) (hes : ∀ m, .acked m ∉ es') :
    AckedAnswered messages (es ++ es') := by
  intro before m after heq eventId blockId hwf
  rcases append_eq_append_iff.mp heq with ⟨between, _, hafter⟩ | ⟨between, hbefore, hrest⟩
  · exact absurd (hafter ▸ mem_append_right _ mem_cons_self) (hes m)
  · cases between with
    | nil =>
      rw [nil_append] at hrest
      exact absurd (hrest ▸ mem_cons_self) (hes m)
    | cons e between =>
      obtain ⟨rfl, _⟩ := cons.inj hrest
      exact h before m between hbefore eventId blockId hwf

theorem AckedAnswered.ack (h : AckedAnswered messages es) (hm : Answered messages es m) :
    AckedAnswered messages (es ++ [.acked m]) := by
  intro before m' after heq eventId blockId hwf
  rcases snoc_eq_append_cons heq with ⟨_, rfl, hack⟩ | ⟨after', _, hes⟩
  · cases hack
    exact hm eventId blockId hwf
  · exact h before m' after' hes eventId blockId hwf

theorem AnsweredBehind.frame (h : AnsweredBehind messages es s) (hes : ∀ m, .acked m ∉ es')
    (hworker : ∀ w m, s'.workers w = .complete m → s.workers w = .complete m)
    (hcompleted : s'.completedMessages = none ∨ s'.completedMessages = s.completedMessages)
    (hreceiver : ∀ last m, s'.receiver = .ack last m → s.receiver = .ack last m) :
    AnsweredBehind messages (es ++ es') s' := by
  refine ⟨fun w m hw => (h.worker w m (hworker w m hw)).append es', fun L hL m hm => ?_,
    fun last m hr => (h.receiver last m (hreceiver last m hr)).append es', h.acked.quiet hes⟩
  rcases hcompleted with hnone | hsame
  · exact nomatch hnone.symm.trans hL
  · exact (h.completed L (hsame ▸ hL) m hm).append es'

theorem AnsweredBehind.setReceiver (h : AnsweredBehind messages es s) (hes : ∀ m, .acked m ∉ es') (hpc : ∀ last m, pc ≠ .ack last m) :
    AnsweredBehind messages (es ++ es') (s.setReceiver pc) :=
  h.frame hes (fun _ _ hw => hw) (.inr rfl) fun last m hr => absurd hr (hpc last m)

theorem complete_of_update (hpc : ∀ m, pc ≠ .complete m)
    (h : (s.setWorker w pc).workers v = .complete m) : s.workers v = .complete m := by
  by_cases hv : v = w
  · subst hv
    exact absurd ((setWorker_self s v pc).symm.trans h) (hpc m)
  · exact (setWorker_of_ne s pc hv).symm.trans h

theorem AnsweredBehind.finish (h : AnsweredBehind messages es s) (hes : ∀ m, .acked m ∉ es')
    (w : Fin n) (hm : Answered messages (es ++ es') m) :
    AnsweredBehind messages (es ++ es') (s.setWorker w (.complete m)) := by
  refine ⟨fun v m' hv => ?_, fun L hL m hm => (h.completed L hL m hm).append es',
    fun last m hr => (h.receiver last m hr).append es', h.acked.quiet hes⟩
  by_cases hvw : v = w
  · subst hvw
    obtain rfl := Worker.complete.inj ((setWorker_self s v _).symm.trans hv)
    exact hm
  · exact (h.worker v m' ((setWorker_of_ne s _ hvw).symm.trans hv)).append es'

theorem answeredBehind_step (h : AnsweredBehind messages es s)
    (hcond : Answering messages l s) (hstep : step messages l s = .ok (es', s')) :
    AnsweredBehind messages (es ++ es') s' := by
  have hnone : ∀ m, .acked m ∉ ([] : List Event) := fun m => not_mem_nil
  cases move_of_step hstep with
  | take last m L hpc hL hm =>
    have hitems := Seq.takeItem_perm hm
    rw [append_nil]
    refine ⟨h.worker, fun L' hL' m' hm' => ?_, fun last' m' hr => ?_, h.acked⟩
    · obtain rfl := Option.some.inj hL'
      exact h.completed L hL m' (hitems.mem_iff.mpr (mem_cons_of_mem m hm'))
    · obtain ⟨rfl, rfl⟩ := Receiver.ack.inj hr
      exact h.completed L hL m (hitems.mem_iff.mpr mem_cons_self)
  | ack last got allocOk m hpc =>
    cases allocOk with
    | false => exact h.setReceiver hnone (by simp)
    | true =>
      have hm := h.receiver last m hpc
      refine ⟨fun w m hw => (h.worker w m hw).append _, fun L hL m hm => (h.completed L hL m hm).append _,
        fun last' m' hr => (nomatch hr), h.acked.ack hm⟩
  | publish w m results allocOk judgment hpc hp =>
    refine h.finish (by simp) w fun eventId blockId hwf => ?_
    obtain ⟨_, rfl⟩ := inspectBlock_ok_iff.mp ((processMessage_eq results hwf).symm.trans hp)
    exact ⟨_, mem_append_right _ mem_cons_self⟩
  | fail w m results allocOk error hpc hp =>
    refine h.finish (by simp) w fun eventId blockId hwf => ?_
    have hanswers := hcond w results allocOk m eventId blockId rfl hpc hwf
    have hok : processMessage (messages m) results = .ok _ :=
      (processMessage_eq results hwf).trans (inspectBlock_ok_iff.mpr ⟨hanswers, rfl⟩)
    exact nomatch hok.symm.trans hp
  | complete w m L hpc hL =>
    rw [append_nil]
    refine ⟨fun v m' hv => h.worker v m' (complete_of_update (by simp) hv), fun L' hL' m' hm' => ?_,
      h.receiver, h.acked⟩
    obtain rfl := Option.some.inj hL'
    rcases mem_cons.mp ((L.pushItem_perm m).mem_iff.mp hm') with rfl | hm'
    · exact h.worker w m' hpc
    · exact h.completed L hL m' hm'
  | stay => exact h.frame hnone (fun _ _ hw => hw) (.inr rfl) fun _ _ hr => hr
  | hold m pc hheld hpc =>
    refine h.setReceiver hnone fun last m' he => ?_
    rw [he] at hpc
    cases hpc
  | idle w pc L hw hm hpc hL _ =>
    refine h.frame hnone (fun v m hv => complete_of_update (fun m he => ?_) hv) (.inr rfl) fun _ _ hr => hr
    rw [he] at hpc
    cases hpc
  | top | nothing | acked | rejected => exact h.setReceiver (by simp) (by simp)
  | drained last =>
    refine h.setReceiver hnone ?_
    cases last <;> simp
  | reject got allocOk =>
    refine h.setReceiver ?_ (by simp)
    cases allocOk <;> simp
  | receive | push => exact h.frame (by simp) (fun _ _ hw => hw) (.inr rfl) fun _ _ hr => nomatch hr
  | start | lose | lost =>
    exact h.frame (by simp) (fun _ _ hv => complete_of_update (by simp) hv) (.inr rfl) fun _ _ hr => hr
  | destroyPending => exact h.frame (by simp) (fun _ _ hw => hw) (.inr rfl) fun _ _ hr => hr
  | destroyCompleted => exact h.frame (by simp) (fun _ _ hw => hw) (.inl rfl) fun _ _ hr => hr
  | pause | begin | workersGone | completedEmpty | stopReceiver | joined | kill | poolDestroyed
  | terminate => exact h.frame hnone (fun _ _ hw => hw) (.inr rfl) fun _ _ hr => hr

theorem answeredBehind_init : AnsweredBehind messages [] (State.init n) := by
  refine ⟨fun w m hw => (nomatch hw), fun L hL m hm => ?_, fun last m hr => (nomatch hr), ?_⟩
  · obtain rfl := Option.some.inj hL
    exact absurd hm not_mem_nil
  · intro before m after heq
    simp at heq

end

/-- In every run in which the fetch, the hook, the judgment and the queue serve
each well formed message that a worker processes, no such message is acked before
a judgment for its event and block is out. -/
theorem acked_answered {n : ℕ} (messages : ℕ → Message) (ls : List (Label n))
    (hcond : Along (Answering messages) (step messages) ls (State.init n)) {rs : List (List Event)}
    {s : State n} (hr : run (step messages) ls (State.init n) = .ok (rs, s)) :
    AckedAnswered messages rs.flatten := by
  have hinv := run_events (I := AnsweredBehind messages)
    (fun _ _ _ _ _ hinv hl hs => answeredBehind_step hinv hl hs) answeredBehind_init hcond hr
  exact hinv.acked

def request : Message :=
  ⟨messageTypeInspection, some ⟨some ⟨0, 0, 0⟩, some ⟨some ⟨some ⟨1, 0, [], 0⟩, 0, 0⟩⟩⟩⟩

def onePass (results : Results) : List (Label 1) :=
  List.replicate 6 (.receiver true true) ++ List.replicate 4 (.worker ⟨0, Nat.one_pos⟩ results true) ++
    List.replicate 3 (.receiver true true)

def goodResults : Results := ⟨fun _ => some .ok, true, true, true, judgmentReasonDone, true, true, true⟩

theorem onePass_answers (hl : l ∈ onePass goodResults) (he : l = .worker w results allocOk) : Answers results := by
  subst he
  obtain ⟨rfl, rfl, rfl⟩ : w = 0 ∧ results = goodResults ∧ allocOk := by
    simpa [onePass] using hl
  exact ⟨⟨0, by decide, fun i hi => absurd hi (not_lt_zero i), rfl⟩, rfl, rfl, rfl, .inl rfl, rfl,
    rfl, rfl⟩

theorem acked_answered_one :
    ∃ rs s, run (step fun _ => request) (onePass goodResults) (State.init 1) = .ok (rs, s) ∧
      .acked 0 ∈ rs.flatten ∧ AckedAnswered (fun _ => request) rs.flatten := by
  obtain ⟨rs, s, hr, hack⟩ : ∃ rs s, run (step fun _ => request) (onePass goodResults) (State.init 1) =
      .ok (rs, s) ∧ .acked 0 ∈ rs.flatten := ⟨_, _, rfl, by decide⟩
  refine ⟨rs, s, hr, hack, acked_answered _ _ ?_ hr⟩
  exact (along_of_forall fun l hl => hl).mono fun l s hl w results allocOk m eventId blockId he _ _ =>
    onePass_answers hl he

/-- There is no dispatcher to fetch the block from; the request is acked nevertheless. -/
theorem unfetched_block_acked :
    ∃ rs s, run (step fun _ => request) (onePass { goodResults with fetch := fun _ => none })
      (State.init 1) = .ok (rs, s) ∧ ¬AckedAnswered (fun _ => request) rs.flatten := by
  refine ⟨_, _, rfl, fun h => ?_⟩
  obtain ⟨iReason, hmem⟩ := h [.received 0, .started 0 0, .finished 0] 0 [] rfl _ _ ⟨rfl, rfl, rfl⟩
  simp at hmem

end Razorback.Inspection
