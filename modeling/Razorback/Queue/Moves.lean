import Razorback.Queue.Defs

/-! What one step of the receiving side can do, with the branches of the calls it
makes worked out, and what the steps keep of the read socket. -/

namespace Razorback.Queue
open Runs Razorback.Lists

section
variable {es' : List Event} {s s' : State} {sendOk connect : Bool}

def Pc.envelope : Pc → Option ℕ
  | .flush _ envelope | .flushed _ envelope => envelope
  | .settling envelope _ => some envelope
  | .idle | .poll _ | .teardown | .destroyed => none

def connected (s : State) : State :=
  { s with
    readSocket := some (s.made + 1)
    made := s.made + 1
    lastTag := 0
    readConnectionSerial := nextSerial s.readConnectionSerial }

theorem reconnect_cases (connect : Bool) (s : State) :
    (s.shuttingDown ∧ reconnect connect s = (false, s)) ∨
      (connect = false ∧ reconnect connect s = (false, { s with readSocket := none })) ∨
      (s.shuttingDown = false ∧ connect ∧ reconnect connect s = (true, connected s)) := by
  cases hdown : s.shuttingDown with
  | true => exact .inl ⟨rfl, by simp [reconnect, hdown]⟩
  | false =>
    cases connect with
    | false => exact .inr (.inl ⟨rfl, by simp [reconnect, connectReadSocket, hdown]⟩)
    | true => exact .inr (.inr ⟨rfl, rfl, by simp [reconnect, connectReadSocket, hdown, connected]⟩)

def Settlement.verdict (settlement : Settlement) : Verdict :=
  if settlement.acknowledge then .ack else .reject settlement.requeue

theorem flushRound_cases (sendOk connect : Bool) (s : State) :
    (flushRound sendOk connect s).2 = ([], s) ∨
      ∃ settlement, s.pendingSettlements.takeItem.1 = some settlement ∧
        ((settlement.connectionSerial ≠ s.readConnectionSerial ∧ (flushRound sendOk connect s).2 =
            ([], { s with pendingSettlements := s.pendingSettlements.takeItem.2 })) ∨
          (settlement.connectionSerial = s.readConnectionSerial ∧ (flushRound sendOk connect s).2 =
            (settleDelivery settlement.verdict settlement.deliveryTag sendOk connect
              { s with pendingSettlements := s.pendingSettlements.takeItem.2 }).2)) := by
  cases hnone : s.readSocket.isNone with
  | true => exact .inl (by simp [flushRound, hnone])
  | false =>
    rcases htake : s.pendingSettlements.takeItem with ⟨_ | settlement, pending⟩
    · exact .inl (by simp [flushRound, hnone, htake])
    · refine .inr ⟨settlement, rfl, ?_⟩
      by_cases hstale : settlement.connectionSerial ≠ s.readConnectionSerial
      · exact .inl ⟨hstale, by simp [flushRound, hnone, htake, hstale]⟩
      · refine .inr ⟨not_not.mp hstale, ?_⟩
        cases hack : settlement.acknowledge <;>
          simp [flushRound, hnone, htake, hstale, hack, Settlement.verdict, acknowledgeDelivery,
            rejectDelivery]

def received (tag : ℕ) (s : State) : State :=
  { s with messages := s.messages ++ [some ⟨tag, s.readConnectionSerial, false, false⟩] }

theorem handle_cases (autoAck : Bool) (tag : ℕ) (fate : Fate) (s : State) :
    handle autoAck tag fate s = setPc .idle (received tag s) ∨
      ∃ verdict, handle autoAck tag fate s = setPc (.settling tag verdict) s := by
  cases hdown : s.shuttingDown with
  | true => exact .inr ⟨.reject true, by simp [handle, hdown]⟩
  | false =>
    cases fate with
    | reject requeue => exact .inr ⟨.reject requeue, by simp [handle, hdown]⟩
    | accept =>
      cases autoAck with
      | true => exact .inr ⟨.ack, by simp [handle, hdown]⟩
      | false => exact .inl (by simp [handle, hdown, received])

theorem finish_eq (tag : ℕ) (verdict : Verdict) (sendOk connect : Bool) (s : State) :
    finish tag verdict sendOk connect s = settleDelivery verdict tag sendOk connect s := by
  cases verdict <;> rfl

theorem enqueue_frame (m : ℕ) (acknowledge requeue pushOk : Bool) (s : State) :
    ∃ pending messages, enqueueSettlement m acknowledge requeue pushOk s =
      { s with pendingSettlements := pending, messages := messages } := by
  unfold enqueueSettlement
  split
  · split_ifs <;> exact ⟨_, _, rfl⟩
  · exact ⟨_, _, rfl⟩

inductive Move (s : State) : Label → List Event → State → Prop
  | stay {l : Label} : Move s l [] s
  | settle (m : ℕ) (acknowledge requeue pushOk : Bool) : Move s (.settle m acknowledge requeue pushOk) []
      (enqueueSettlement m acknowledge requeue pushOk s)
  | discard {m : ℕ} : Move s (.discard m) [] { s with messages := s.messages.set m none }
  | terminate : Move s .terminate [] { s with shuttingDown := true }
  | goto {l : Label} (pc : Pc) (hpc : pc.envelope = none ∨ pc.envelope = s.pc.envelope)
      (hpoll : ∀ autoAck, pc = .poll autoAck → s.readSocket.isSome ∨ s.pc = .flushed autoAck none)
      (hflushed : ∀ autoAck, pc ≠ .flushed autoAck none) : Move s l [] (setPc pc s)
  | reconnect {l : Label} (connect : Bool) (pc : Pc) (hnone : s.pc.envelope = none) (hpc : pc.envelope = none)
      (hpoll : ∀ autoAck, pc = .poll autoAck → (reconnect connect s).2.readSocket.isSome)
      (hflushed : ∀ autoAck, pc ≠ .flushed autoAck none) :
      Move s l [] (setPc pc (reconnect connect s).2)
  | deliver (autoAck : Bool) (conn : ℕ) (hpc : s.pc = .poll autoAck) (hsocket : s.readSocket = some conn) :
      Move s (.consume .message) [.delivered conn (s.lastTag + 1)]
        (setPc (.flush autoAck (some (s.lastTag + 1))) { s with lastTag := s.lastTag + 1 })
  | flush (sendOk connect : Bool) (pc : Pc) (hpc : pc.envelope = none ∨ pc.envelope = s.pc.envelope)
      (hat : ∀ tag, s.pc.envelope = some tag → ∃ autoAck, s.pc = .flush autoAck (some tag))
      (hpoll : ∀ autoAck, pc ≠ .poll autoAck)
      (hflushed : ∀ autoAck, pc = .flushed autoAck none →
        (flushRound sendOk connect s).2.2.readSocket.isSome) :
      Move s (.flush sendOk connect) (flushRound sendOk connect s).2.1
        (setPc pc (flushRound sendOk connect s).2.2)
  | destroy (sendOk connect : Bool) (hpc : s.pc = .teardown) :
      Move s (.flush sendOk connect) (flushRound sendOk connect s).2.1
        (setPc .destroyed { (flushRound sendOk connect s).2.2 with readSocket := none })
  | receive {fate : Fate} (tag : ℕ) (hpc : s.pc.envelope = some tag) :
      Move s (.handle fate) [] (setPc .idle (received tag s))
  | finish (sendOk connect : Bool) (tag : ℕ) (verdict : Verdict) (hpc : s.pc = .settling tag verdict) :
      Move s (.finish sendOk connect) (settleDelivery verdict tag sendOk connect s).2.1
        (setPc .idle (settleDelivery verdict tag sendOk connect s).2.2)

theorem setPc_self (h : s.pc = pc) : setPc pc s = s := by
  subst h
  rfl

theorem reconnect_pc (connect : Bool) (s : State) : (reconnect connect s).2.pc = s.pc := by
  rcases reconnect_cases connect s with ⟨_, hr⟩ | ⟨_, hr⟩ | ⟨_, _, hr⟩ <;> rw [hr]
  rfl

theorem move_get (h : step (.get autoAck connect) s = .ok (es', s')) :
    Move s (.get autoAck connect) es' s' := by
  cases hpc : s.pc with
  | idle =>
    simp only [step, hpc] at h
    split_ifs at h with hdown hsome hready
    · cases h
      exact .stay
    · cases h
      exact .goto _ (.inl rfl) (fun _ _ => .inl hsome) (fun _ he => nomatch he)
    · cases h
      simp only [Bool.and_eq_true] at hready
      exact .reconnect connect _ (by rw [hpc]; rfl) rfl (fun _ _ => hready.2) (fun _ he => nomatch he)
    · cases h
      rw [← setPc_self ((reconnect_pc connect s).trans hpc)]
      exact .reconnect connect _ (by rw [hpc]; rfl) rfl (fun _ he => nomatch he) (fun _ he => nomatch he)
  | _ =>
    simp only [step, hpc] at h
    cases h
    exact .stay

theorem move_consume (h : step (.consume result) s = .ok (es', s')) :
    Move s (.consume result) es' s' := by
  cases hpc : s.pc with
  | poll autoAck =>
    have hnone : s.pc.envelope = none := by rw [hpc]; rfl
    cases hsocket : s.readSocket with
    | none => simp [step, hpc, hsocket] at h
    | some conn =>
      cases result with
      | message =>
        simp only [step, hpc, hsocket] at h
        cases h
        simpa only [hpc, hsocket] using Move.deliver autoAck conn hpc hsocket
      | timeout serviceOk connect again =>
        cases serviceOk with
        | true =>
          simp only [step, hpc, hsocket] at h
          cases h
          exact .goto _ (.inl rfl) (fun _ he => nomatch he) (fun _ he => nomatch he)
        | false =>
          simp only [step, hpc, hsocket] at h
          split_ifs at h with hagain
          · cases h
            simp only [Bool.and_eq_true] at hagain
            rw [← setPc_self ((reconnect_pc connect s).trans hpc)]
            exact .reconnect connect _ hnone rfl (fun _ _ => hagain.1.2) (fun _ he => nomatch he)
          · cases h
            exact .reconnect connect _ hnone rfl (fun _ he => nomatch he) (fun _ he => nomatch he)
      | error connect =>
        simp only [step, hpc, hsocket] at h
        cases h
        exact .reconnect connect _ hnone rfl (fun _ he => nomatch he) (fun _ he => nomatch he)
  | _ =>
    simp only [step, hpc] at h
    cases h
    exact .stay

theorem flushRound_pc (sendOk connect : Bool) (s : State) :
    (flushRound sendOk connect s).2.2.pc = s.pc := by
  rcases flushRound_cases sendOk connect s with hr | ⟨settlement, _, ⟨_, hr⟩ | ⟨_, hr⟩⟩
  · rw [hr]
  · rw [hr]
  · rw [hr]
    unfold settleDelivery
    split
    · rfl
    · split_ifs
      · rfl
      · exact reconnect_pc connect _

theorem flushRound_done (h : (flushRound sendOk connect s).1 = .done) :
    (flushRound sendOk connect s).2.2.readSocket.isSome := by
  unfold flushRound at h ⊢
  split_ifs at h ⊢ with hnone
  split at h
  · simpa [Option.isSome_iff_ne_none] using hnone
  · -- a round that takes a settlement goes on or fails
    simp only at h
    split_ifs at h

theorem move_flush (h : step (.flush sendOk connect) s = .ok (es', s')) :
    Move s (.flush sendOk connect) es' s' := by
  cases hpc : s.pc with
  | flush autoAck envelope =>
    have hat : ∀ tag, s.pc.envelope = some tag → ∃ autoAck, s.pc = .flush autoAck (some tag) := by
      rintro tag he
      rw [hpc] at he
      cases he
      exact ⟨autoAck, hpc⟩
    simp only [step, hpc] at h
    cases hround : (flushRound sendOk connect s).1 with
    | more =>
      simp only [hround] at h
      cases h
      have hmove : Move s (.flush sendOk connect) _ _ := .flush _ _ s.pc (.inr rfl) hat
        (fun _ he => nomatch hpc.symm.trans he) (fun _ he => nomatch hpc.symm.trans he)
      rwa [setPc_self (flushRound_pc sendOk connect s)] at hmove
    | done =>
      simp only [hround] at h
      cases h
      exact .flush _ _ _ (.inr (by rw [hpc]; rfl)) hat (fun _ he => nomatch he)
        (fun _ _ => flushRound_done hround)
    | failed =>
      simp only [hround] at h
      cases h
      exact .flush _ _ _ (.inl rfl) hat (fun _ he => nomatch he) (fun _ he => nomatch he)
  | teardown =>
    simp only [step, hpc] at h
    cases hround : (flushRound sendOk connect s).1 with
    | more =>
      simp only [hround] at h
      cases h
      have hmove : Move s (.flush sendOk connect) _ _ := .flush _ _ s.pc (.inr rfl)
        (fun _ he => by rw [hpc] at he; cases he)
        (fun _ he => nomatch hpc.symm.trans he) (fun _ he => nomatch hpc.symm.trans he)
      rwa [setPc_self (flushRound_pc sendOk connect s)] at hmove
    | _ =>
      simp only [hround] at h
      cases h
      exact .destroy sendOk connect hpc
  | _ =>
    simp only [step, hpc] at h
    cases h
    exact .stay

theorem move_of_step (h : step l s = .ok (es', s')) : Move s l es' s' := by
  cases l with
  | settle m acknowledge requeue pushOk =>
    cases h
    split_ifs
    · exact .stay
    · exact .settle m acknowledge requeue pushOk
  | discard m =>
    cases h
    exact .discard
  | terminate =>
    cases h
    exact .terminate
  | get autoAck connect => exact move_get h
  | consume result => exact move_consume h
  | flush sendOk connect => exact move_flush h
  | handle fate =>
    simp only [step] at h
    split at h
    · rename_i autoAck tag hpc
      have henvelope : s.pc.envelope = some tag := by rw [hpc]; rfl
      cases h
      rcases handle_cases autoAck tag fate s with hr | ⟨verdict, hr⟩
      · rw [hr]
        exact .receive tag henvelope
      · rw [hr]
        exact .goto _ (.inr henvelope.symm) (fun _ he => nomatch he) (fun _ he => nomatch he)
    · cases h
      exact .stay
  | finish sendOk connect =>
    simp only [step, finish_eq] at h
    split at h
    · rename_i hpc
      cases h
      exact .finish _ _ _ _ hpc
    · cases h
      exact .stay
  | next again =>
    simp only [step] at h
    split at h
    · rename_i autoAck hpc
      cases h
      split_ifs
      · refine .goto _ (.inl rfl) (fun autoAck' he => ?_) (fun _ he => nomatch he)
        cases he
        exact .inr hpc
      · exact .goto _ (.inl rfl) (fun _ he => nomatch he) (fun _ he => nomatch he)
    · cases h
      exact .stay
  | release =>
    simp only [step] at h
    split_ifs at h
    all_goals cases h
    · exact .goto _ (.inl rfl) (fun _ he => nomatch he) (fun _ he => nomatch he)
    · exact .goto _ (.inl rfl) (fun _ he => nomatch he) (fun _ he => nomatch he)
    · exact .stay

structure Ready (s : State) : Prop where
  poll : ∀ autoAck, s.pc = .poll autoAck → s.readSocket.isSome
  flushed : ∀ autoAck, s.pc = .flushed autoAck none → s.readSocket.isSome

theorem ready_step (h : Ready s) (hstep : step l s = .ok (es', s')) : Ready s' := by
  cases move_of_step hstep with
  | stay => exact h
  | settle m acknowledge requeue pushOk =>
    obtain ⟨pending, messages, hframe⟩ := enqueue_frame m acknowledge requeue pushOk s
    rw [hframe]
    exact ⟨h.poll, h.flushed⟩
  | discard => exact ⟨h.poll, h.flushed⟩
  | terminate => exact ⟨h.poll, h.flushed⟩
  | goto pc _ hpoll hflushed =>
    refine ⟨fun autoAck he => ?_, fun autoAck he => absurd he (hflushed autoAck)⟩
    exact (hpoll autoAck he).elim id (h.flushed autoAck)
  | reconnect connect pc _ _ hpoll hflushed =>
    exact ⟨hpoll, fun autoAck he => absurd he (hflushed autoAck)⟩
  | deliver => exact ⟨fun _ he => (nomatch he), fun _ he => nomatch he⟩
  | flush _ _ pc _ _ hpoll hflushed => exact ⟨fun autoAck he => absurd he (hpoll autoAck), hflushed⟩
  | destroy => exact ⟨fun _ he => (nomatch he), fun _ he => nomatch he⟩
  | receive => exact ⟨fun _ he => (nomatch he), fun _ he => nomatch he⟩
  | finish => exact ⟨fun _ he => (nomatch he), fun _ he => nomatch he⟩

theorem Ready.step_ne_error (h : Ready s) : step l s ≠ .error .nullSocket := by
  intro hstep
  cases l with
  | consume result =>
    simp only [step] at hstep
    split at hstep
    · rename_i hpc hsocket
      have hsome := h.poll _ hpc
      rw [hsocket] at hsome
      cases hsome
    · split at hstep <;> cases hstep
    · cases hstep
  | _ =>
    simp only [step] at hstep
    repeat' split at hstep
    all_goals cases hstep

end

end Razorback.Queue
