import Razorback.Inspection.Answers

/-! A paused inspection service: which worker can still start a message. -/

namespace Razorback.Inspection
open Runs

section
variable {n : ℕ} {messages : ℕ → Message} {s s' : State n} {l : Label n} {es : List Event} {w : Fin n}

def Quiet (w : Fin n) (s : State n) : Prop := s.paused = true ∧ s.workers w ≠ .pop

theorem setWorker_quiet (h : Quiet w s) (hpc : pc ≠ .pop) : Quiet w (s.setWorker v pc) := by
  refine ⟨h.1, ?_⟩
  by_cases hv : w = v
  · subst hv
    rwa [setWorker_self]
  · rw [setWorker_of_ne s pc hv]
    exact h.2

theorem Move.shutdownStarted (h : Move messages s l es s') (hs : s.shutdownStarted) : s'.shutdownStarted := by
  cases h <;> first | exact hs | rfl

theorem Move.quiet (h : Move messages s l es s') (hl : l ≠ .pause false) (hs : s.shutdownStarted = false) (hw : Quiet w s) :
    Quiet w s' ∧ ∀ m, .started m w ∉ es := by
  cases h with
  | pause paused =>
    cases paused with
    | false => exact absurd rfl hl
    | true => exact ⟨⟨rfl, hw.2⟩, nofun⟩
  | idle v pc L hv hm hpc hL htest =>
    refine ⟨setWorker_quiet hw fun hpop => ?_, nofun⟩
    exact absurd (htest hpop hw.1) (by simp [hs])
  | start v m L hv hL hm =>
    refine ⟨setWorker_quiet hw nofun, fun m' hin => ?_⟩
    obtain ⟨_, hvw⟩ := Event.started.inj (List.mem_singleton.mp hin)
    exact hw.2 (Fin.ext hvw ▸ hv)
  | publish v m results allocOk judgment hv hp => exact ⟨setWorker_quiet hw nofun, by simp⟩
  | fail v m results allocOk error hv hp => exact ⟨setWorker_quiet hw nofun, by simp⟩
  | complete v m L hv hL => exact ⟨setWorker_quiet hw nofun, nofun⟩
  | lose v m results hv => exact ⟨setWorker_quiet hw nofun, nofun⟩
  | lost v m hv => exact ⟨setWorker_quiet hw nofun, by simp⟩
  | ack last got allocOk m hr => exact ⟨hw, by cases allocOk <;> simp⟩
  | reject got allocOk m hr => exact ⟨hw, by cases allocOk <;> simp⟩
  | stay | top | take | drained | acked | receive | nothing | hold | push | rejected | begin | workersGone | completedEmpty
  | stopReceiver | joined | kill | poolDestroyed | destroyPending | destroyCompleted | terminate => exact ⟨hw, by simp⟩

def Held (w : Fin n) (es : List Event) (s : State n) : Prop :=
  s.shutdownStarted = false → Quiet w s ∧ ∀ m, .started m w ∉ es

theorem Held.step (h : Held w es s) (hl : l ≠ .pause false) (hs : step messages l s = .ok (es', s')) :
    Held w (es ++ es') s' := by
  intro hstarted
  have hmove := move_of_step hs
  have hbefore : s.shutdownStarted = false := by
    by_contra hne
    have htrue := hmove.shutdownStarted (by simpa using hne)
    simp [htrue] at hstarted
  obtain ⟨hquiet, hnone⟩ := h hbefore
  obtain ⟨hquiet', hnone'⟩ := hmove.quiet hl hbefore hquiet
  exact ⟨hquiet', fun m hin => (List.mem_append.mp hin).elim (hnone m) (hnone' m)⟩

end

/-- After a Pause and before the next Go a worker of a context that does not shut down starts no message, unless it had tested
the flag before the Pause and had not yet gone to the list. -/
theorem paused_starts_nothing {n : ℕ} (messages : ℕ → Message) (after : List (Label n)) {rs : List (List Event)} {s s' : State n}
    (hafter : run (step messages) (.pause true :: after) s = .ok (rs, s')) (hgo : ∀ l ∈ after, l ≠ .pause false)
    (hshutdown : s'.shutdownStarted = false) (w : Fin n) (hw : s.workers w ≠ .pop) (m : ℕ) : .started m w ∉ rs.flatten := by
  have hpause : step messages (.pause true) s = .ok ([], { s with paused := true }) := rfl
  rw [run_cons_ok hpause] at hafter
  cases hrest : run (step messages) after { s with paused := true } with
  | error e => simp [hrest, Except.map] at hafter
  | ok p =>
    obtain ⟨es, s₁⟩ := p
    rw [hrest] at hafter
    cases hafter
    have hstep : ∀ es l (s : State n) es' s', Held w es s → l ≠ .pause false → step messages l s = .ok (es', s') →
        Held w (es ++ es') s' := fun _ _ _ _ _ h hl hs => h.step hl hs
    have hpaused : Held w [] { s with paused := true } := fun _ => ⟨⟨rfl, hw⟩, nofun⟩
    have hheld : Held w es.flatten s₁ := run_events hstep hpaused (along_of_forall hgo) hrest
    simpa using (hheld hshutdown).2 m

/-- The receiver has queued a message when the Pause comes. -/
theorem paused_starts_nothing_one :
    ∃ rs s rs' s', run (step fun _ => request) (List.replicate 6 (.receiver true true)) (State.init 1) = .ok (rs, s) ∧
      run (step fun _ => request) [.pause true, .worker 0 goodResults true, .worker 0 goodResults true] s = .ok (rs', s') ∧
      ∀ m, .started m 0 ∉ rs'.flatten := by
  obtain ⟨rs, s, hbefore, hw, rs', s', hafter, hshutdown⟩ : ∃ rs s,
      run (step fun _ => request) (List.replicate 6 (.receiver true true)) (State.init 1) = .ok (rs, s) ∧
      s.workers 0 ≠ .pop ∧ ∃ rs' s',
        run (step fun _ => request) [.pause true, .worker 0 goodResults true, .worker 0 goodResults true] s = .ok (rs', s') ∧
        s'.shutdownStarted = false := ⟨_, _, rfl, nofun, _, _, rfl, rfl⟩
  exact ⟨rs, s, rs', s', hbefore, hafter,
    fun m => paused_starts_nothing _ _ hafter (by simp) hshutdown 0 hw m⟩

/-- The Pause falls between the worker's test of the flag and its pop; the worker starts the message all the same. -/
theorem paused_worker_starts :
    ∃ rs s rs' s', run (step fun _ => request) (List.replicate 6 (.receiver true true) ++ [.worker (0 : Fin 1) goodResults true])
        (State.init 1) = .ok (rs, s) ∧
      run (step fun _ => request) [.pause true, .worker 0 goodResults true] s = .ok (rs', s') ∧
      s'.paused = true ∧ s'.shutdownStarted = false ∧ .started 0 0 ∈ rs'.flatten :=
  ⟨_, _, _, _, rfl, rfl, rfl, rfl, by decide⟩

end Razorback.Inspection
