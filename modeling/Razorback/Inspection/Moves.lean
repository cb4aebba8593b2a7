import Razorback.Inspection.Defs
import Razorback.Base.Runs

/-! What one step of the inspection service can do. Steps that only take a thread
from one place of its code to another, with or without the message it holds, are
one kind of move. -/

namespace Razorback.Inspection
open Runs
open Razorback.Lists (Seq PopResult)

def Receiver.held : Receiver → Option ℕ
  | .got m | .checked m | .push m | .reject m => some m
  | _ => none

def Receiver.last : Receiver → Bool
  | .drain last | .ack last _ | .acked last _ => last
  | .exited => true
  | _ => false

def Worker.message : Worker → Option ℕ
  | .processing m | .complete m | .lost m => some m
  | _ => none

section
variable {n : ℕ} {messages : ℕ → Message} {s s' : State n} {es : List Event}

def State.gone (s : State n) : Prop := ∀ w, s.workers w = .exited

@[simp] theorem setWorker_self (s : State n) (w : Fin n) (pc : Worker) :
    (s.setWorker w pc).workers w = pc := by simp [State.setWorker]

theorem setWorker_of_ne (s : State n) (pc : Worker) (h : v ≠ w) :
    (s.setWorker w pc).workers v = s.workers v := by simp [State.setWorker, h]

inductive Move (messages : ℕ → Message) (s : State n) : Label n → List Event → State n → Prop
  | stay {l : Label n} : Move messages s l [] s
  | pause (paused : Bool) : Move messages s (.pause paused) [] { s with paused := paused }
  | top {l : Label n} (h : s.receiver = .top) :
      Move messages s l [] (s.setReceiver (.drain s.receiverStopped))
  | take {l : Label n} (last : Bool) (m : ℕ) (L : Seq ℕ) (h : s.receiver = .drain last)
      (hL : s.completedMessages = some L) (hm : L.takeItem.1 = some m) :
      Move messages s l [] { s with completedMessages := some L.takeItem.2, receiver := .ack last m }
  | drained {l : Label n} (last : Bool) (L : Seq ℕ) (h : s.receiver = .drain last)
      (hL : s.completedMessages = some L) (hm : L.takeItem.1 = none) :
      Move messages s l [] (s.setReceiver (if last then .exited else .get))
  | ack (last got allocOk : Bool) (m : ℕ) (h : s.receiver = .ack last m) :
      Move messages s (.receiver got allocOk) (if allocOk then [.acked m] else [])
        (s.setReceiver (.acked last m))
  | acked {l : Label n} (last : Bool) (m : ℕ) (h : s.receiver = .acked last m) :
      Move messages s l [.destroyed m] (s.setReceiver (.drain last))
  | receive {l : Label n} (h : s.receiver = .get) :
      Move messages s l [.received s.received]
        { s with received := s.received + 1, receiver := .got s.received }
  | nothing {l : Label n} (h : s.receiver = .get) : Move messages s l [] (s.setReceiver .top)
  | hold {l : Label n} (m : ℕ) (pc : Receiver) (h : s.receiver.held = some m) (hpc : pc.held = some m) :
      Move messages s l [] (s.setReceiver pc)
  | push {l : Label n} (m : ℕ) (L : Seq ℕ) (h : s.receiver = .push m) (hL : s.pendingMessages = some L) :
      Move messages s l [] { s with pendingMessages := some (L.pushItem m), receiver := .top }
  | reject (got allocOk : Bool) (m : ℕ) (h : s.receiver = .reject m) :
      Move messages s (.receiver got allocOk) (if allocOk then [.rejected m] else [])
        (s.setReceiver (.rejected m))
  | rejected {l : Label n} (m : ℕ) (h : s.receiver = .rejected m) :
      Move messages s l [.destroyed m] (s.setReceiver .top)
  | idle {l : Label n} (w : Fin n) (pc : Worker) (L : Option (Seq ℕ)) (hw : s.workers w ≠ .exited)
      (h : (s.workers w).message = none) (hpc : pc.message = none)
      (hL : L.map Seq.items = s.pendingMessages.map Seq.items)
      (htest : pc = .pop → s.paused = true → s.shutdownStarted = true) :
      Move messages s l [] { s.setWorker w pc with pendingMessages := L }
  | start {l : Label n} (w : Fin n) (m : ℕ) (L : Seq ℕ) (h : s.workers w = .pop)
      (hL : s.pendingMessages = some L) (hm : (L.pop 1000).1 = .past (some m)) :
      Move messages s l [.started m w]
        { s.setWorker w (.processing m) with pendingMessages := some (L.pop 1000).2 }
  | publish (w : Fin n) (m : ℕ) (results : Results) (allocOk : Bool) (judgment : Judgment)
      (h : s.workers w = .processing m) (hp : processMessage (messages m) results = .ok judgment) :
      Move messages s (.worker w results allocOk) [.published judgment, .finished m]
        (s.setWorker w (.complete m))
  | fail (w : Fin n) (m : ℕ) (results : Results) (allocOk : Bool) (error : ProcessError)
      (h : s.workers w = .processing m) (hp : processMessage (messages m) results = .error error) :
      Move messages s (.worker w results allocOk) [.finished m] (s.setWorker w (.complete m))
  | complete {l : Label n} (w : Fin n) (m : ℕ) (L : Seq ℕ) (h : s.workers w = .complete m)
      (hL : s.completedMessages = some L) :
      Move messages s l [] { s.setWorker w .top with completedMessages := some (L.pushItem m) }
  | lose (w : Fin n) (m : ℕ) (results : Results) (h : s.workers w = .complete m) :
      Move messages s (.worker w results false) [] (s.setWorker w (.lost m))
  | lost {l : Label n} (w : Fin n) (m : ℕ) (h : s.workers w = .lost m) :
      Move messages s l [.destroyed m] { s.setWorker w .leave with
        shutdownStarted := true, emergencyShutdownRequested := true }
  | begin (h : s.shutdown = .idle) :
      Move messages s .shutdown [] { s with shutdownStarted := true, shutdown := .waitWorkers }
  | workersGone (h : s.shutdown = .waitWorkers) (hgone : s.gone) :
      Move messages s .shutdown [] (s.setShutdown .waitCompleted)
  | completedEmpty (h : s.shutdown = .waitCompleted) :
      Move messages s .shutdown [] (s.setShutdown .stopReceiver)
  | stopReceiver (h : s.shutdown = .stopReceiver) :
      Move messages s .shutdown [] { s with receiverStopped := true, shutdown := .joinReceiver }
  | joined (h : s.shutdown = .joinReceiver) (hexit : s.receiver = .exited) :
      Move messages s .shutdown [] (s.setShutdown .destroyPool)
  | kill (h : s.shutdown = .destroyPool) :
      Move messages s .shutdown [] { s with workersStopped := true }
  | poolDestroyed (h : s.shutdown = .destroyPool) :
      Move messages s .shutdown [] (s.setShutdown .destroyPending)
  | destroyPending (L : Seq ℕ) (h : s.shutdown = .destroyPending) (hL : s.pendingMessages = some L) :
      Move messages s .shutdown (L.drained.map .destroyed)
        { s with pendingMessages := none, shutdown := .destroyCompleted }
  | destroyCompleted (L : Seq ℕ) (h : s.shutdown = .destroyCompleted)
      (hL : s.completedMessages = some L) :
      Move messages s .shutdown (L.drained.map .destroyed)
        { s with completedMessages := none, shutdown := .terminateQueue }
  | terminate (h : s.shutdown = .terminateQueue) :
      Move messages s .shutdown [] { s with inspectionQueue := false, shutdown := .done }

theorem push_ok (h : push allocOk list m = .ok pushed) : ∃ L, list = some L ∧
      ((allocOk ∧ pushed = some (L.pushItem m)) ∨ allocOk = false ∧ pushed = none) := by
  cases list with
  | none => cases h
  | some L =>
    cases h
    cases allocOk with
    | true => exact ⟨L, rfl, .inl ⟨rfl, rfl⟩⟩
    | false => exact ⟨L, rfl, .inr ⟨rfl, rfl⟩⟩

theorem move_receiver (h : receiverStep got allocOk s = .ok (es, s')) :
    Move messages s (.receiver got allocOk) es s' := by
  cases hpc : s.receiver with
  | top =>
    simp only [receiverStep, hpc] at h
    cases h
    exact .top hpc
  | drain last =>
    cases hL : s.completedMessages with
    | none => simp [receiverStep, hpc, hL] at h
    | some L =>
      rcases htake : L.takeItem with ⟨_ | m, L'⟩
      · simp only [receiverStep, hpc, hL, htake] at h
        cases h
        exact .drained last L hpc hL (by rw [htake])
      · simp only [receiverStep, hpc, hL, htake] at h
        cases h
        have hmove : Move messages s (.receiver got allocOk) _ _ :=
          .take last m L hpc hL (by rw [htake])
        rwa [htake] at hmove
  | ack last m =>
    simp only [receiverStep, hpc] at h
    split at h
    · cases h
    · cases h
      exact .ack last got allocOk m hpc
  | acked last m =>
    simp only [receiverStep, hpc] at h
    cases h
    exact .acked last m hpc
  | get =>
    simp only [receiverStep, hpc] at h
    split_ifs at h
    · cases h
      exact .receive hpc
    · cases h
      exact .nothing hpc
  | got m =>
    simp only [receiverStep, hpc] at h
    cases h
    refine .hold m _ (by rw [hpc]; rfl) ?_
    split_ifs <;> rfl
  | checked m =>
    simp only [receiverStep, hpc] at h
    cases h
    refine .hold m _ (by rw [hpc]; rfl) ?_
    split_ifs <;> rfl
  | push m =>
    simp only [receiverStep, hpc, bind_eq_ok] at h
    obtain ⟨pushed, hpush, h⟩ := h
    obtain ⟨L, hL, ⟨_, rfl⟩ | ⟨_, rfl⟩⟩ := push_ok hpush
    · cases h
      exact .push m L hpc hL
    · cases h
      exact .hold m _ (by rw [hpc]; rfl) rfl
  | reject m =>
    simp only [receiverStep, hpc] at h
    split at h
    · cases h
    · cases h
      exact .reject got allocOk m hpc
  | rejected m =>
    simp only [receiverStep, hpc] at h
    cases h
    exact .rejected m hpc
  | exited =>
    simp only [receiverStep, hpc] at h
    cases h
    exact .stay

theorem move_worker (h : workerStep messages w results allocOk s = .ok (es, s')) :
    Move messages s (.worker w results allocOk) es s' := by
  cases hpc : s.workers w with
  | top =>
    simp only [workerStep, hpc] at h
    cases h
    refine .idle w _ s.pendingMessages (by rw [hpc]; simp) (by rw [hpc]; rfl) ?_ rfl ?_
    · split_ifs <;> rfl
    · split_ifs with _ hpaused
      · nofun
      · nofun
      · simpa using hpaused
  | pop =>
    cases hL : s.pendingMessages with
    | none => simp [workerStep, hpc, hL] at h
    | some L =>
      have hidle : (∀ m, (L.pop 1000).1 ≠ .past (some m)) → Move messages s (.worker w results allocOk)
          [] { s.setWorker w .empty with pendingMessages := some (L.pop 1000).2 } := fun hnone =>
        .idle w .empty _ (by rw [hpc]; simp) (by rw [hpc]; rfl) rfl (by rw [hL]; exact congrArg some (Seq.pop_nothing hnone)) nofun
      rcases hpop : L.pop 1000 with ⟨r, L'⟩
      rw [hpop] at hidle
      rcases r with _ | _ | _ | m
      · simp only [workerStep, hpc, hL, hpop] at h
        cases h
        exact hidle (by simp)
      · simp only [workerStep, hpc, hL, hpop] at h
        cases h
        exact hidle (by simp)
      · simp only [workerStep, hpc, hL, hpop] at h
        cases h
        exact hidle (by simp)
      · simp only [workerStep, hpc, hL, hpop] at h
        cases h
        have hmove : Move messages s (.worker w results allocOk) _ _ :=
          .start w m L hpc hL (by rw [hpop])
        rwa [hpop] at hmove
  | empty =>
    cases hL : s.pendingMessages with
    | none => simp [workerStep, hpc, hL] at h
    | some L =>
      simp only [workerStep, hpc, hL] at h
      cases h
      refine .idle w _ s.pendingMessages (by rw [hpc]; simp) (by rw [hpc]; rfl) ?_ rfl ?_
      · split_ifs <;> rfl
      · split_ifs <;> nofun
  | processing m =>
    cases hp : processMessage (messages m) results with
    | ok judgment =>
      simp only [workerStep, hpc, hp] at h
      cases h
      exact .publish w m results allocOk judgment hpc hp
    | error error =>
      simp only [workerStep, hpc, hp] at h
      cases h
      exact .fail w m results allocOk error hpc hp
  | complete m =>
    simp only [workerStep, hpc, bind_eq_ok] at h
    obtain ⟨pushed, hpush, h⟩ := h
    obtain ⟨L, hL, ⟨_, rfl⟩ | ⟨rfl, rfl⟩⟩ := push_ok hpush
    · cases h
      exact .complete w m L hpc hL
    · cases h
      exact .lose w m results hpc
  | lost m =>
    simp only [workerStep, hpc] at h
    cases h
    exact .lost w m hpc
  | leave =>
    simp only [workerStep, hpc] at h
    cases h
    exact .idle w .exited s.pendingMessages (by rw [hpc]; simp) (by rw [hpc]; rfl) rfl rfl nofun
  | exited =>
    simp only [workerStep, hpc] at h
    cases h
    exact .stay

theorem move_shutdown (h : shutdownStep s = .ok (es, s')) : Move messages s .shutdown es s' := by
  cases hpc : s.shutdown with
  | idle =>
    simp only [shutdownStep, hpc] at h
    cases h
    exact .begin hpc
  | waitWorkers =>
    simp only [shutdownStep, hpc] at h
    cases h
    split_ifs with halive
    · exact .stay
    · exact .workersGone hpc (by simpa [State.gone] using halive)
  | waitCompleted =>
    simp only [shutdownStep, hpc] at h
    split at h
    · cases h
    · cases h
      split_ifs
      · exact .completedEmpty hpc
      · exact .stay
  | stopReceiver =>
    simp only [shutdownStep, hpc] at h
    cases h
    exact .stopReceiver hpc
  | joinReceiver =>
    simp only [shutdownStep, hpc] at h
    cases h
    split_ifs with hexit
    · exact .joined hpc hexit
    · exact .stay
  | destroyPool =>
    simp only [shutdownStep, hpc] at h
    cases h
    split_ifs
    · rw [← hpc]
      exact .kill hpc
    · exact .poolDestroyed hpc
  | destroyPending =>
    cases hL : s.pendingMessages with
    | none => simp [shutdownStep, hpc, hL] at h
    | some L =>
      simp only [shutdownStep, hpc, hL] at h
      cases h
      exact .destroyPending L hpc hL
  | destroyCompleted =>
    cases hL : s.completedMessages with
    | none => simp [shutdownStep, hpc, hL] at h
    | some L =>
      simp only [shutdownStep, hpc, hL] at h
      cases h
      exact .destroyCompleted L hpc hL
  | terminateQueue =>
    simp only [shutdownStep, hpc] at h
    cases h
    exact .terminate hpc
  | done =>
    simp only [shutdownStep, hpc] at h
    cases h
    exact .stay

theorem move_of_step (h : step messages l s = .ok (es, s')) : Move messages s l es s' := by
  cases l with
  | receiver got allocOk => exact move_receiver h
  | worker w results allocOk => exact move_worker h
  | pause paused =>
    cases h
    exact .pause paused
  | shutdown => exact move_shutdown h

end

end Razorback.Inspection
