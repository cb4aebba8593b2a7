import Mathlib.Data.Fintype.Basic
import Mathlib.Tactic.Abel
import Razorback.Base.Journeys
import Razorback.Inspection.Answers

/-! The life of an inspection message. Every message that `Queue_Get_Ex` returned
is in one hand only: the receiver's, a worker's, or one of the two lists; what has
happened to it so far is the way to the stage it is held in. The shutdown waits
for the workers and then for the receiver before it frees the lists. -/

namespace Razorback.Inspection
open Runs Journeys List Option Nat
open Razorback.Lists (Seq)

inductive Act
  | received
  | started (w : ℕ)
  | finished
  | acked
  | rejected
  | destroyed
  deriving DecidableEq, Repr

def Event.act : Event → Option (ℕ × Act)
  | .received m => some (m, .received)
  | .started m w => some (m, .started w)
  | .published _ => none
  | .finished m => some (m, .finished)
  | .acked m => some (m, .acked)
  | .rejected m => some (m, .rejected)
  | .destroyed m => some (m, .destroyed)

def actsOf (m : ℕ) (es : List Event) : List Act := acts m (es.filterMap Event.act)

/-- The three lives: acked after one worker has processed it, rejected with
requeue, or destroyed and left to the broker. -/
def Complete (as : List Act) : Prop :=
  (∃ w, as = [.received, .started w, .finished, .acked, .destroyed]) ∨
    as = [.received, .rejected, .destroyed] ∨ as = [.received, .destroyed]

def Orderly (as : List Act) : Prop := ∃ whole, Complete whole ∧ as <+: whole

inductive Stage
  | absent | held | refused | processing | processed | settled | gone
  deriving DecidableEq, Repr

def next : Stage → Act → Option Stage
  | .absent, .received => some .held
  | .held, .started _ => some .processing
  | .held, .rejected => some .refused
  | .held, .destroyed => some .gone
  | .refused, .destroyed => some .gone
  | .processing, .finished => some .processed
  | .processed, .acked => some .settled
  | .settled, .destroyed => some .gone
  | _, _ => none

def Way (as : List Act) : Stage → Prop
  | .absent => as = []
  | .held => as = [.received]
  | .refused => as = [.received, .rejected]
  | .processing => ∃ w, as = [.received, .started w]
  | .processed => ∃ w, as = [.received, .started w, .finished]
  | .settled => ∃ w, as = [.received, .started w, .finished, .acked]
  | .gone => Complete as

theorem way_step (h : Way as st) (hn : next st a = some st') : Way (as ++ [a]) st' := by
  cases st with
  | absent =>
    obtain rfl : as = [] := h
    cases a <;> cases hn
    rfl
  | held =>
    obtain rfl : as = [.received] := h
    cases a with
    | started w =>
      cases hn
      exact ⟨w, rfl⟩
    | rejected =>
      cases hn
      rfl
    | destroyed =>
      cases hn
      exact .inr (.inr rfl)
    | _ => cases hn
  | refused =>
    obtain rfl : as = [.received, .rejected] := h
    cases a <;> cases hn
    exact .inr (.inl rfl)
  | processing =>
    obtain ⟨w, rfl⟩ := h
    cases a <;> cases hn
    exact ⟨w, rfl⟩
  | processed =>
    obtain ⟨w, rfl⟩ := h
    cases a <;> cases hn
    exact ⟨w, rfl⟩
  | settled =>
    obtain ⟨w, rfl⟩ := h
    cases a <;> cases hn
    exact .inl ⟨w, rfl⟩
  | gone => cases a <;> cases hn

theorem way_of_run (h : Monitor.run next .absent as = some st) : Way as st := by
  induction as using reverseRecOn generalizing st with
  | nil =>
    obtain rfl := some.inj h
    rfl
  | append_singleton as a ih =>
    obtain ⟨st', _, hrun, hnext, hlast⟩ := Monitor.run_split h
    obtain rfl := some.inj hlast
    exact way_step (ih hrun) hnext

theorem orderly_of_way (h : Way as st) : Orderly as := by
  cases st with
  | absent => exact ⟨_, .inr (.inr rfl), h ▸ nil_prefix⟩
  | held => exact ⟨_, .inr (.inr rfl), [.destroyed], by rw [h]; rfl⟩
  | refused => exact ⟨_, .inr (.inl rfl), [.destroyed], by rw [h]; rfl⟩
  | processing =>
    obtain ⟨w, rfl⟩ := h
    exact ⟨_, .inl ⟨w, rfl⟩, [.finished, .acked, .destroyed], rfl⟩
  | processed =>
    obtain ⟨w, rfl⟩ := h
    exact ⟨_, .inl ⟨w, rfl⟩, [.acked, .destroyed], rfl⟩
  | settled =>
    obtain ⟨w, rfl⟩ := h
    exact ⟨_, .inl ⟨w, rfl⟩, [.destroyed], rfl⟩
  | gone => exact ⟨as, h, prefix_refl as⟩

def Receiver.live : Receiver → Multiset (ℕ × Stage)
  | .got m | .checked m | .push m | .reject m => {(m, .held)}
  | .ack _ m => {(m, .processed)}
  | .acked _ m => {(m, .settled)}
  | .rejected m => {(m, .refused)}
  | .top | .drain _ | .get | .exited => 0

def Worker.live : Worker → Multiset (ℕ × Stage)
  | .processing m => {(m, .processing)}
  | .complete m | .lost m => {(m, .processed)}
  | .top | .pop | .empty | .leave | .exited => 0

def listed (st : Stage) (list : Option (Seq ℕ)) : Multiset (ℕ × Stage) :=
  (((list.map Seq.items).getD []).map fun m => (m, st) : List (ℕ × Stage))

section
variable {n : ℕ} {messages : ℕ → Message} {s s' : State n} {es es' : List Event} {m : ℕ} {w : Fin n}

def live (s : State n) : Multiset (ℕ × Stage) :=
  s.receiver.live + (listed .held s.pendingMessages +
    (listed .processed s.completedMessages + ∑ w, (s.workers w).live))

theorem workers_live (s : State n) (w : Fin n) : ∃ others, ∑ v, (s.workers v).live =
    (s.workers w).live + others ∧ ∀ pc, ∑ v, ((s.setWorker w pc).workers v).live = pc.live + others := by
  obtain ⟨others, hsum, hup⟩ := sum_update (fun v => (s.workers v).live) w
  refine ⟨others, hsum, fun pc => ?_⟩
  rw [← hup pc.live]
  refine Finset.sum_congr rfl fun v _ => ?_
  by_cases hv : v = w
  · subst hv
    rw [setWorker_self, Function.update_self]
  · rw [setWorker_of_ne s pc hv, Function.update_of_ne hv]

theorem listed_perm (h : L.items.Perm (m :: L'.items)) :
    listed st (some L) = {(m, st)} + listed st (some L') := by
  exact Multiset.coe_eq_coe.mpr (h.map fun m => (m, st))

def Shutdown.rank : Shutdown → ℕ
  | .idle => 0
  | .waitWorkers => 1
  | .waitCompleted => 2
  | .stopReceiver => 3
  | .joinReceiver => 4
  | .destroyPool => 5
  | .destroyPending => 6
  | .destroyCompleted => 7
  | .terminateQueue => 8
  | .done => 9

/-- What the shutdown has waited for, and what it has freed. -/
structure Ordered (s : State n) : Prop where
  workers : 2 ≤ s.shutdown.rank → s.gone
  stopped : s.receiverStopped = true → 4 ≤ s.shutdown.rank
  last : s.receiver.last = true → s.receiverStopped = true
  exited : 5 ≤ s.shutdown.rank → s.receiver = .exited
  pending : s.pendingMessages = none → 7 ≤ s.shutdown.rank
  freed : 7 ≤ s.shutdown.rank → s.pendingMessages = none
  completed : s.completedMessages = none → 8 ≤ s.shutdown.rank
  queue : s.inspectionQueue = false → 9 ≤ s.shutdown.rank
  empty : s.receiver = .exited → ∀ L, s.completedMessages = some L → L.items = []
  kept : ∀ w m, s.workers w ≠ .lost m

theorem Ordered.init : Ordered (State.init n) where
  workers h := absurd (show 2 ≤ 0 from h) (by decide)
  stopped h := nomatch h
  last h := nomatch h
  exited h := absurd (show 5 ≤ 0 from h) (by decide)
  pending h := nomatch h
  freed h := absurd (show 7 ≤ 0 from h) (by decide)
  completed h := nomatch h
  queue h := nomatch h
  empty h := nomatch h
  kept _ _ h := nomatch h

theorem Ordered.receiver (h : Ordered s) (hne : s.receiver ≠ .exited) (hshutdown : s'.shutdown = s.shutdown)
    (hworkers : s'.workers = s.workers) (hstopped : s'.receiverStopped = s.receiverStopped)
    (hqueue : s'.inspectionQueue = s.inspectionQueue)
    (hpending : s'.pendingMessages = none → s.pendingMessages = none)
    (hcompleted : s'.completedMessages = none → s.completedMessages = none)
    (hlast : s'.receiver.last → s.receiverStopped)
    (hempty : s'.receiver = .exited → ∀ L, s'.completedMessages = some L → L.items = []) : Ordered s' where
  workers hr w := by rw [hworkers]; exact h.workers (hshutdown ▸ hr) w
  stopped hs := by rw [hshutdown]; exact h.stopped (hstopped ▸ hs)
  last hl := by rw [hstopped]; exact hlast hl
  exited hr := absurd (h.exited (hshutdown ▸ hr)) hne
  pending hp := by rw [hshutdown]; exact h.pending (hpending hp)
  freed hr := absurd (h.exited (le_trans (by decide) (hshutdown ▸ hr))) hne
  completed hc := by rw [hshutdown]; exact h.completed (hcompleted hc)
  queue hq := by rw [hshutdown]; exact h.queue (hqueue ▸ hq)
  empty := hempty
  kept w m := by rw [hworkers]; exact h.kept w m

variable {pc : Receiver}

theorem Ordered.setReceiver (h : Ordered s) (hne : s.receiver ≠ .exited)
    (hlast : pc.last → s.receiverStopped)
    (hempty : pc = .exited → ∀ L, s.completedMessages = some L → L.items = []) :
    Ordered (s.setReceiver pc) :=
  h.receiver hne rfl rfl rfl rfl id id hlast hempty

theorem Ordered.worker (h : Ordered s) {pc : Worker} (hne : s.workers w ≠ .exited) (hpc : ∀ m, pc ≠ .lost m)
    (hshutdown : s'.shutdown = s.shutdown) (hworkers : s'.workers = (s.setWorker w pc).workers)
    (hstopped : s'.receiverStopped = s.receiverStopped) (hreceiver : s'.receiver = s.receiver)
    (hqueue : s'.inspectionQueue = s.inspectionQueue)
    (hpending : s'.pendingMessages = none → s.pendingMessages = none)
    (hcompleted : s'.completedMessages = none → s.completedMessages = none) : Ordered s' := by
  have hrank : ¬2 ≤ s.shutdown.rank := fun hr => hne (h.workers hr w)
  refine ⟨fun hr => absurd (hshutdown ▸ hr) hrank, fun hs => ?_, fun hl => ?_, fun hr => ?_, fun hp => ?_,
    fun hr => absurd (le_trans (by decide) (hshutdown ▸ hr)) hrank, fun hc => ?_, fun hq => ?_, fun he => ?_,
    fun v m => ?_⟩
  · rw [hshutdown]; exact h.stopped (hstopped ▸ hs)
  · rw [hstopped]; exact h.last (hreceiver ▸ hl)
  · rw [hreceiver]; exact h.exited (hshutdown ▸ hr)
  · rw [hshutdown]; exact h.pending (hpending hp)
  · rw [hshutdown]; exact h.completed (hcompleted hc)
  · rw [hshutdown]; exact h.queue (hqueue ▸ hq)
  · have hstop := h.stopped (h.last (by rw [← hreceiver, he]; rfl))
    exact absurd (le_trans (by decide) hstop) hrank
  · rw [hworkers]
    by_cases hv : v = w
    · subst hv
      rw [setWorker_self]
      exact hpc m
    · rw [setWorker_of_ne s pc hv]
      exact h.kept v m

theorem Ordered.shutdown (h : Ordered s) (hrank : s'.shutdown.rank = s.shutdown.rank + 1)
    (hworkers : s'.workers = s.workers) (hreceiver : s'.receiver = s.receiver)
    (hgone : s'.shutdown.rank = 2 → s.gone) (hexit : s'.shutdown.rank = 5 → s.receiver = .exited)
    (hfree : s'.shutdown.rank = 7 → s'.pendingMessages = none)
    (hfreed : s.pendingMessages = none → s'.pendingMessages = none)
    (hstill : s.receiverStopped → s'.receiverStopped)
    (hstopped : s'.receiverStopped → s.receiverStopped ∨ 4 ≤ s'.shutdown.rank)
    (hpending : s'.pendingMessages = none → s.pendingMessages = none ∨ 7 ≤ s'.shutdown.rank)
    (hcompleted : s'.completedMessages = none → s.completedMessages = none ∨ 8 ≤ s'.shutdown.rank)
    (hqueue : s'.inspectionQueue = false → s.inspectionQueue = false ∨ 9 ≤ s'.shutdown.rank)
    (hitems : ∀ L, s'.completedMessages = some L → s.completedMessages = some L) : Ordered s' := by
  have hgrow : ∀ k, k ≤ s.shutdown.rank → k ≤ s'.shutdown.rank := fun k hk =>
    hrank ▸ le_succ_of_le hk
  have hreach : ∀ k, k ≤ s'.shutdown.rank → s'.shutdown.rank = k ∨ k ≤ s.shutdown.rank := fun k hk => by
    rw [hrank] at hk ⊢
    exact (lt_or_ge s.shutdown.rank k).imp (fun hlt => le_antisymm hlt hk) id
  refine ⟨fun hr w => ?_, fun hs => ?_, fun hl => ?_, fun hr => ?_, fun hp => ?_, fun hr => ?_,
    fun hc => ?_, fun hq => ?_, fun he L hL => ?_, fun w m => ?_⟩
  · rw [hworkers]
    exact (hreach 2 hr).elim (fun heq => hgone heq w) fun hle => h.workers hle w
  · exact (hstopped hs).elim (fun hs => hgrow 4 (h.stopped hs)) id
  · exact hstill (h.last (hreceiver ▸ hl))
  · rw [hreceiver]
    exact (hreach 5 hr).elim hexit h.exited
  · exact (hpending hp).elim (fun hp => hgrow 7 (h.pending hp)) id
  · exact (hreach 7 hr).elim hfree fun hle => hfreed (h.freed hle)
  · exact (hcompleted hc).elim (fun hc => hgrow 8 (h.completed hc)) id
  · exact (hqueue hq).elim (fun hq => hgrow 9 (h.queue hq)) id
  · exact h.empty (hreceiver ▸ he) L (hitems L hL)
  · rw [hworkers]
    exact h.kept w m

theorem held_not_last (h : pc.held = some m) : pc.last = false := by
  cases pc with
  | got | checked | push | reject => rfl
  | _ => cases h

def Label.allocOk : Label n → Bool
  | .receiver _ allocOk | .worker _ _ allocOk => allocOk
  | .pause _ | .shutdown => true

section
variable (h : Ordered s)
include h

theorem ordered_step (halloc : l.allocOk) (hmove : Move messages s l es' s') : Ordered s' := by
  cases hmove with
  | stay => exact h
  | pause => exact ⟨h.workers, h.stopped, h.last, h.exited, h.pending, h.freed,
      h.completed, h.queue, h.empty, h.kept⟩
  | top hpc => exact h.setReceiver (by rw [hpc]; simp) id (by simp)
  | take last m L hpc hL hm =>
    refine h.receiver (by rw [hpc]; simp) rfl rfl rfl rfl id (fun hn => nomatch hn) (fun hl => ?_)
      (fun he => nomatch he)
    exact h.last (by rw [hpc]; exact hl)
  | drained last L hpc hL hm =>
    refine h.setReceiver (by rw [hpc]; simp) (fun hl => h.last ?_) (fun he L' hL' => ?_)
    · rw [hpc]
      cases last with
      | true => rfl
      | false => cases hl
    · obtain rfl := some.inj (hL.symm.trans hL')
      by_contra hne
      obtain ⟨x, rest, hx, _⟩ := Seq.takeItem_some hne
      rw [hx] at hm
      cases hm
  | ack last got allocOk m hpc =>
    exact h.setReceiver (by rw [hpc]; simp) (fun hl => h.last (by rw [hpc]; exact hl)) (by simp)
  | acked last m hpc =>
    exact h.setReceiver (by rw [hpc]; simp) (fun hl => h.last (by rw [hpc]; exact hl)) (by simp)
  | receive hpc =>
    exact h.receiver (by rw [hpc]; simp) rfl rfl rfl rfl id id (fun hl => nomatch hl) (fun he => nomatch he)
  | nothing hpc => exact h.setReceiver (by rw [hpc]; simp) (fun hl => nomatch hl) (by simp)
  | hold m pc hheld hpc =>
    refine h.setReceiver (fun he => ?_) (fun hl => ?_) (fun he => ?_)
    · rw [he] at hheld
      cases hheld
    · rw [held_not_last hpc] at hl
      cases hl
    · rw [he] at hpc
      cases hpc
  | push m L hpc hL =>
    exact h.receiver (by rw [hpc]; simp) rfl rfl rfl rfl (fun hn => nomatch hn) id (fun hl => nomatch hl)
      (fun he => nomatch he)
  | reject got allocOk m hpc =>
    exact h.setReceiver (by rw [hpc]; simp) (fun hl => nomatch hl) (by simp)
  | rejected m hpc => exact h.setReceiver (by rw [hpc]; simp) (fun hl => nomatch hl) (by simp)
  | idle w pc L hw hm hpc hL _ =>
    refine h.worker hw (fun m he => ?_) rfl rfl rfl rfl rfl (fun hn => ?_) id
    · rw [he] at hpc
      cases hpc
    · change L = none at hn
      rw [hn] at hL
      simpa using hL.symm
  | start w m L hpc hL hm =>
    exact h.worker (by rw [hpc]; simp) (by simp) rfl rfl rfl rfl rfl (fun hn => nomatch hn) id
  | publish w m results allocOk judgment hpc hp =>
    exact h.worker (by rw [hpc]; simp) (by simp) rfl rfl rfl rfl rfl id id
  | fail w m results allocOk error hpc hp =>
    exact h.worker (by rw [hpc]; simp) (by simp) rfl rfl rfl rfl rfl id id
  | complete w m L hpc hL =>
    exact h.worker (by rw [hpc]; simp) (by simp) rfl rfl rfl rfl rfl id (fun hn => nomatch hn)
  | lose w m results hpc => cases halloc
  | lost w m hpc => exact absurd hpc (h.kept w m)
  | begin hpc =>
    exact h.shutdown (by rw [hpc]; rfl) rfl rfl (fun hr => nomatch hr) (fun hr => nomatch hr)
      (fun hr => nomatch hr) id id .inl .inl .inl .inl fun _ hL => hL
  | workersGone hpc hgone =>
    exact h.shutdown (by rw [hpc]; rfl) rfl rfl (fun _ => hgone) (fun hr => nomatch hr)
      (fun hr => nomatch hr) id id .inl .inl .inl .inl fun _ hL => hL
  | completedEmpty hpc =>
    exact h.shutdown (by rw [hpc]; rfl) rfl rfl (fun hr => nomatch hr) (fun hr => nomatch hr)
      (fun hr => nomatch hr) id id .inl .inl .inl .inl fun _ hL => hL
  | stopReceiver hpc =>
    exact h.shutdown (by rw [hpc]; rfl) rfl rfl (fun hr => nomatch hr) (fun hr => nomatch hr)
      (fun hr => nomatch hr) id (fun _ => rfl) (fun _ => .inr (le_refl 4)) .inl .inl .inl
      fun _ hL => hL
  | joined hpc hexit =>
    exact h.shutdown (by rw [hpc]; rfl) rfl rfl (fun hr => nomatch hr) (fun _ => hexit)
      (fun hr => nomatch hr) id id .inl .inl .inl .inl fun _ hL => hL
  | kill hpc => exact ⟨h.workers, h.stopped, h.last, h.exited, h.pending, h.freed,
      h.completed, h.queue, h.empty, h.kept⟩
  | poolDestroyed hpc =>
    exact h.shutdown (by rw [hpc]; rfl) rfl rfl (fun hr => nomatch hr) (fun hr => nomatch hr)
      (fun hr => nomatch hr) id id .inl .inl .inl .inl fun _ hL => hL
  | destroyPending L hpc hL =>
    exact h.shutdown (by rw [hpc]; rfl) rfl rfl (fun hr => nomatch hr) (fun hr => nomatch hr)
      (fun _ => rfl) (fun _ => rfl) id .inl (fun _ => .inr (le_refl 7)) .inl .inl fun _ hL => hL
  | destroyCompleted L hpc hL =>
    exact h.shutdown (by rw [hpc]; rfl) rfl rfl (fun hr => nomatch hr) (fun hr => nomatch hr)
      (fun hr => nomatch hr) id id .inl .inl (fun _ => .inr (le_refl 8)) .inl
      fun _ hL => nomatch hL
  | terminate hpc =>
    exact h.shutdown (by rw [hpc]; rfl) rfl rfl (fun hr => nomatch hr) (fun hr => nomatch hr)
      (fun hr => nomatch hr) id id .inl .inl .inl (fun _ => .inr (le_refl 9)) fun _ hL => hL

theorem Ordered.rank_of_receiver (hne : s.receiver ≠ .exited) : s.shutdown.rank ≤ 4 :=
  Nat.le_of_lt_succ (Nat.lt_of_not_le fun hr => hne (h.exited hr))

theorem Ordered.rank_of_worker (hne : s.workers w ≠ .exited) : s.shutdown.rank ≤ 1 :=
  Nat.le_of_lt_succ (Nat.lt_of_not_le fun hr => hne (h.workers hr w))

theorem Ordered.pending_some (hrank : s.shutdown.rank ≤ 6) :
    ∃ L, s.pendingMessages = some L := by
  refine ne_none_iff_exists'.mp fun hL => ?_
  have hfreed := h.pending hL
  omega

theorem Ordered.completed_some (hrank : s.shutdown.rank ≤ 7) :
    ∃ L, s.completedMessages = some L := by
  refine ne_none_iff_exists'.mp fun hL => ?_
  have hfreed := h.completed hL
  omega

theorem Ordered.queue_there (hrank : s.shutdown.rank ≤ 8) : s.inspectionQueue := by
  rw [← Bool.not_eq_false]
  intro hq
  have hfreed := h.queue hq
  omega

theorem receiverStep_ok (got allocOk : Bool) :
    receiverStep got allocOk s ≠ .error .useAfterFree := by
  by_cases hne : s.receiver = .exited
  · simp [receiverStep, hne]
  · have hrank := h.rank_of_receiver hne
    obtain ⟨P, hP⟩ := h.pending_some (by omega)
    obtain ⟨C, hC⟩ := h.completed_some (by omega)
    have hqueue := h.queue_there (by omega)
    cases hpc : s.receiver with
    | drain last =>
      rcases htake : C.takeItem with ⟨_ | m, L⟩ <;> simp [receiverStep, hpc, hC, htake]
    | push m => cases allocOk <;> simp [receiverStep, hpc, hP, push]
    | get => cases got <;> simp [receiverStep, hpc, hqueue]
    | _ => simp [receiverStep, hpc, hqueue]

theorem workerStep_ok (w : Fin n) (results : Results) (allocOk : Bool) :
    workerStep messages w results allocOk s ≠ .error .useAfterFree := by
  by_cases hne : s.workers w = .exited
  · simp [workerStep, hne]
  · have hrank := h.rank_of_worker hne
    obtain ⟨P, hP⟩ := h.pending_some (by omega)
    obtain ⟨C, hC⟩ := h.completed_some (by omega)
    cases hpc : s.workers w with
    | pop => rcases hpop : P.pop 1000 with ⟨_ | _ | _ | m, L⟩ <;> simp [workerStep, hpc, hP, hpop]
    | processing m => cases hp : processMessage (messages m) results <;> simp [workerStep, hpc, hp]
    | complete m => cases allocOk <;> simp [workerStep, hpc, hC, push]
    | _ => simp [workerStep, hpc, hP]

theorem shutdownStep_ok : shutdownStep s ≠ .error .useAfterFree := by
  cases hpc : s.shutdown with
  | waitCompleted =>
    obtain ⟨C, hC⟩ := h.completed_some (by rw [hpc]; decide)
    simp [shutdownStep, hpc, hC]
  | destroyPending =>
    obtain ⟨P, hP⟩ := h.pending_some (by rw [hpc]; decide)
    simp [shutdownStep, hpc, hP]
  | destroyCompleted =>
    obtain ⟨C, hC⟩ := h.completed_some (by rw [hpc]; decide)
    simp [shutdownStep, hpc, hC]
  | _ => simp [shutdownStep, hpc]

theorem step_ok (l : Label n) : step messages l s ≠ .error .useAfterFree := by
  cases l with
  | receiver got allocOk => exact receiverStep_ok h got allocOk
  | worker w results allocOk => exact workerStep_ok h w results allocOk
  | pause paused => exact fun he => nomatch he
  | shutdown => exact shutdownStep_ok h

end

structure Inv (es : List Event) (s : State n) : Prop where
  ordered : Ordered s
  tracks : Tracks next .absent .gone (es.filterMap Event.act) (live s)
  fresh : ∀ m, s.received ≤ m → actsOf m es = []
  seen : ∀ m, m < s.received → actsOf m es ≠ []

theorem actsOf_append (m : ℕ) (es es' : List Event) :
    actsOf m (es ++ es') = actsOf m es ++ actsOf m es' := by
  rw [actsOf, filterMap_append, acts_append]
  rfl

theorem listed_ne_absent (hst : st ≠ .absent) (h : (m, st') ∈ listed st list) : st' ≠ .absent := by
  obtain ⟨_, _, heq⟩ := mem_map.mp (Multiset.mem_coe.mp h)
  exact (Prod.mk.inj heq).2 ▸ hst

theorem live_ne_absent (h : (m, st) ∈ live s) : st ≠ .absent := by
  simp only [live, Multiset.mem_add, Multiset.mem_sum] at h
  rcases h with h | h | h | ⟨w, _, h⟩
  · cases hpc : s.receiver <;> simp_all [Receiver.live]
  · exact listed_ne_absent (by decide) h
  · exact listed_ne_absent (by decide) h
  · cases hpc : s.workers w <;> simp_all [Worker.live]

theorem Inv.known (h : Inv es s) (hmem : (m, st) ∈ live s) : m < s.received := by
  refine Nat.lt_of_not_le fun hle => live_ne_absent hmem ?_
  have hrun := h.tracks.under m st hmem
  have hnone : acts m (es.filterMap Event.act) = [] := h.fresh m hle
  rw [hnone] at hrun
  exact (some.inj hrun).symm

theorem Inv.act (h : Inv es s) (hord : Ordered s') (hrec : s'.received = s.received)
    (hes : ∀ e ∈ es'.filterMap Event.act, e.1 < s.received)
    (htracks : Tracks next .absent .gone ((es ++ es').filterMap Event.act) (live s')) :
    Inv (es ++ es') s' := by
  refine ⟨hord, htracks, fun m' hm' => ?_, fun m' hm' => ?_⟩
  · rw [hrec] at hm'
    have hnone : actsOf m' es' = [] := acts_eq_nil fun e he => Nat.ne_of_lt (Nat.lt_of_lt_of_le (hes e he) hm')
    rw [actsOf_append, h.fresh m' hm', hnone]
    rfl
  · rw [actsOf_append]
    exact append_ne_nil_of_left_ne_nil (h.seen m' (hrec ▸ hm')) _

theorem Inv.known_map (h : Inv es s) {st : Stage} {as : List Act} (hmem : (m, st) ∈ live s)
    (hes : es'.filterMap Event.act = as.map fun a => (m, a)) :
    ∀ e ∈ es'.filterMap Event.act, e.1 < s.received := by
  intro e he
  rw [hes] at he
  obtain ⟨a, _, rfl⟩ := mem_map.mp he
  exact h.known hmem

section
variable {rest : Multiset (ℕ × Stage)} {st st' : Stage} (as : List Act)

section
variable (h : Inv es s) (hord : Ordered s') (hrec : s'.received = s.received)
include h hord hrec

theorem Inv.move (hlive : live s = {(m, st)} + rest) (hlive' : live s' = {(m, st')} + rest)
    (hes : es'.filterMap Event.act = as.map fun a => (m, a)) (hrun : Monitor.run next st as = some st') :
    Inv (es ++ es') s' := by
  have hmem : (m, st) ∈ live s := by
    rw [hlive]
    exact Multiset.mem_add.mpr (.inl (Multiset.mem_singleton_self _))
  refine h.act hord hrec (h.known_map hmem hes) ?_
  rw [filterMap_append, hes, hlive']
  exact .move (hlive ▸ h.tracks) hrun

theorem Inv.leave (hlive : live s = {(m, st)} + live s')
    (hes : es'.filterMap Event.act = as.map fun a => (m, a)) (hrun : Monitor.run next st as = some .gone) :
    Inv (es ++ es') s' := by
  have hmem : (m, st) ∈ live s := by
    rw [hlive]
    exact Multiset.mem_add.mpr (.inl (Multiset.mem_singleton_self _))
  refine h.act hord hrec (h.known_map hmem hes) ?_
  rw [filterMap_append, hes]
  exact .leave (hlive ▸ h.tracks) hrun

theorem Inv.quiet (hlive : live s' = live s) : Inv (es ++ []) s' := by
  rw [append_nil]
  exact ⟨hord, hlive ▸ h.tracks, hrec ▸ h.fresh, hrec ▸ h.seen⟩

end

end

theorem Inv.receive (h : Inv es s) (hord : Ordered s') (hrec : s'.received = s.received + 1)
    (hlive : live s' = {(s.received, .held)} + live s) : Inv (es ++ [.received s.received]) s' := by
  have hnew : actsOf s.received es = [] := h.fresh s.received (le_refl _)
  have hout : s.received ∉ (live s).map Prod.fst := by
    intro hmem
    obtain ⟨⟨m, st⟩, hmem, hm⟩ := Multiset.mem_map.mp hmem
    exact absurd (h.known hmem) (not_lt.mpr (le_of_eq hm.symm))
  refine ⟨hord, ?_, fun m hm => ?_, fun m hm => ?_⟩
  · rw [filterMap_append, hlive]
    exact h.tracks.enter hout hnew (by rfl : Monitor.run next .absent [.received] = some .held)
  · have hne : s.received ≠ m := by omega
    rw [actsOf_append, h.fresh m (by omega)]
    exact acts_other hne [Act.received]
  · rw [actsOf_append]
    by_cases hne : m = s.received
    · subst hne
      rw [hnew]
      exact fun he => absurd ((acts_self s.received [Act.received]).symm.trans he) (by simp)
    · exact append_ne_nil_of_left_ne_nil (h.seen m (by omega)) _

def shelved (s : State n) : Multiset (ℕ × Stage) :=
  listed .held s.pendingMessages + (listed .processed s.completedMessages + ∑ w, (s.workers w).live)

theorem live_receiver (h : s.receiver = pc) : live s = pc.live + shelved s := h ▸ rfl

theorem live_idle (h : s.receiver.live = 0) : live s = shelved s := by rw [live_receiver rfl, h, zero_add]

theorem live_worker (s : State n) (w : Fin n) : ∃ others,
    live s = (s.workers w).live +
      (others + (listed .held s.pendingMessages + listed .processed s.completedMessages)) ∧
    ∀ pc P C, live { s.setWorker w pc with pendingMessages := P, completedMessages := C } =
      pc.live + (others + (listed .held P + listed .processed C)) := by
  obtain ⟨others, hsum, hup⟩ := workers_live s w
  refine ⟨s.receiver.live + others, ?_, fun pc P C => ?_⟩
  · rw [live, hsum]
    abel
  · simp only [live]
    rw [hup pc]
    simp only [State.setWorker]
    abel

theorem Inv.destroyPending (h : Inv es s) (hord : Ordered s') (hrec : s'.received = s.received)
    (hlive : live s = listed .held (some L) + live s') :
    Inv (es ++ L.drained.map .destroyed) s' := by
  have hlisted : listed .held (some L) = ((L.drained.map fun m => (m, Stage.held) : List _) : Multiset _) :=
    Multiset.coe_eq_coe.mpr (L.drained_perm.symm.map _)
  have hes : (L.drained.map .destroyed).filterMap Event.act = L.drained.map fun m => (m, .destroyed) := by
    rw [filterMap_map, ← filterMap_eq_map]
    rfl
  refine h.act hord hrec (fun e he => ?_) ?_
  · rw [hes] at he
    obtain ⟨m, hm, rfl⟩ := mem_map.mp he
    have hmem : (m, .held) ∈ live s := by
      rw [hlive, hlisted]
      exact Multiset.mem_add.mpr (.inl (Multiset.mem_coe.mpr (mem_map.mpr ⟨m, hm, rfl⟩)))
    exact h.known hmem
  · rw [filterMap_append, hes]
    exact .leave_all (hlisted ▸ hlive ▸ h.tracks) rfl

theorem live_of_held (h : pc.held = some m) : pc.live = {(m, .held)} := by
  cases pc with
  | got | checked | push | reject =>
    obtain rfl := some.inj h
    rfl
  | _ => cases h

theorem live_of_message {pc : Worker} (h : pc.message = none) : pc.live = 0 := by
  cases pc with
  | processing | complete | lost => cases h
  | _ => rfl

theorem inv_step (h : Inv es s) (halloc : l.allocOk)
    (hs : step messages l s = .ok (es', s')) : Inv (es ++ es') s' := by
  have hmove := move_of_step hs
  have hord := ordered_step h.ordered halloc hmove
  cases hmove with
  | stay => exact h.quiet hord rfl rfl
  | pause => exact h.quiet hord rfl rfl
  | top hpc => exact h.quiet hord rfl (live_receiver hpc).symm
  | take last m L hpc hL hm =>
    refine h.quiet hord rfl ?_
    rw [live_receiver hpc, shelved, hL, listed_perm (Seq.takeItem_perm hm)]
    simp only [live, Receiver.live]
    abel
  | drained last L hpc hL hm =>
    refine h.quiet hord rfl ?_
    rw [live_receiver hpc]
    cases last <;> rfl
  | ack last got allocOk m hpc =>
    obtain rfl : allocOk := halloc
    exact h.move [.acked] hord rfl (live_receiver hpc) rfl rfl rfl
  | acked last m hpc =>
    have hlive : live s = {(m, .settled)} + live (s.setReceiver (.drain last)) := by
      rw [live_receiver hpc, live_idle rfl]
      rfl
    exact h.leave [.destroyed] hord rfl hlive rfl rfl
  | receive hpc =>
    refine h.receive hord rfl ?_
    rw [live_idle (s := s) (by rw [hpc]; rfl)]
    rfl
  | nothing hpc => exact h.quiet hord rfl (live_receiver hpc).symm
  | hold m pc hheld hpc =>
    refine h.quiet hord rfl ?_
    rw [live_receiver rfl, live_receiver rfl, live_of_held hheld]
    exact congrArg (· + shelved s) (live_of_held hpc)
  | push m L hpc hL =>
    refine h.quiet hord rfl ?_
    rw [live_receiver hpc, shelved, hL]
    simp only [live, Receiver.live, listed_perm (L.pushItem_perm m)]
    abel
  | reject got allocOk m hpc =>
    obtain rfl : allocOk := halloc
    exact h.move [.rejected] hord rfl (live_receiver hpc) rfl rfl rfl
  | rejected m hpc =>
    have hlive : live s = {(m, .refused)} + live (s.setReceiver .top) := by
      rw [live_receiver hpc, live_idle rfl]
      rfl
    exact h.leave [.destroyed] hord rfl hlive rfl rfl
  | idle w pc L hw hm hpc hL _ =>
    obtain ⟨others, hbefore, hafter⟩ := live_worker s w
    refine h.quiet hord rfl ((hafter pc L s.completedMessages).trans ?_)
    rw [hbefore, live_of_message hm, live_of_message hpc]
    simp only [listed, hL]
  | start w m L hpc hL hm =>
    obtain ⟨others, hbefore, hafter⟩ := live_worker s w
    rw [hpc, hL, listed_perm (Seq.pop_past hm)] at hbefore
    have hlive : live s = {(m, .held)} +
        (others + (listed .held (some (L.pop 1000).2) + listed .processed s.completedMessages)) := by
      rw [hbefore, Worker.live]
      abel
    exact h.move [.started w] hord rfl hlive (hafter (.processing m) _ _) rfl rfl
  | publish w m results allocOk judgment hpc hp =>
    obtain ⟨others, hbefore, hafter⟩ := live_worker s w
    rw [hpc] at hbefore
    exact h.move [.finished] hord rfl hbefore (hafter (.complete m) _ _) rfl rfl
  | fail w m results allocOk error hpc hp =>
    obtain ⟨others, hbefore, hafter⟩ := live_worker s w
    rw [hpc] at hbefore
    exact h.move [.finished] hord rfl hbefore (hafter (.complete m) _ _) rfl rfl
  | complete w m L hpc hL =>
    obtain ⟨others, hbefore, hafter⟩ := live_worker s w
    refine h.quiet hord rfl ((hafter .top s.pendingMessages _).trans ?_)
    rw [hbefore, hpc, hL, listed_perm (L.pushItem_perm m), Worker.live, Worker.live]
    abel
  | lose w m results hpc => cases halloc
  | lost w m hpc => exact absurd hpc (h.ordered.kept w m)
  | destroyPending L hpc hL =>
    refine h.destroyPending hord rfl ?_
    rw [live, hL]
    simp only [live]
    abel
  | destroyCompleted L hpc hL =>
    -- the receiver drained the list before it left
    have hexit := h.ordered.exited (by rw [hpc]; decide)
    have hitems := h.ordered.empty hexit L hL
    have hdrained : L.drained = [] := perm_nil.mp (hitems ▸ L.drained_perm)
    rw [hdrained]
    refine h.quiet hord rfl ?_
    simp only [live, hL, listed, map_some, hitems, map_none, getD_none, getD_some]
  | begin | workersGone | completedEmpty | stopReceiver | joined | kill | poolDestroyed | terminate =>
    exact h.quiet hord rfl rfl

theorem inv_init : Inv [] (State.init n) := by
  refine ⟨.init, ?_, fun _ _ => rfl, fun m hm => absurd hm (not_lt_zero m)⟩
  have hlive : live (.init n) = 0 := by
    simp [live, State.init, Receiver.live, Worker.live, listed]
  rw [hlive]
  exact tracks_nil

theorem Inv.nothing_live (h : Inv es s) (hdone : s.shutdown = .done) : live s = 0 := by
  have hreceiver := h.ordered.exited (by rw [hdone]; decide)
  have hworkers := h.ordered.workers (by rw [hdone]; decide)
  have hpending := h.ordered.freed (by rw [hdone]; decide)
  have hcompleted : listed .processed s.completedMessages = 0 := by
    cases hL : s.completedMessages with
    | none => rfl
    | some L => simp [listed, h.ordered.empty hreceiver L hL]
  rw [live, hreceiver, hpending, hcompleted]
  simp [Receiver.live, listed, hworkers _, Worker.live]

theorem Inv.orderly (h : Inv es s) (m : ℕ) : Orderly (actsOf m es) := by
  by_cases hmem : m ∈ (live s).map Prod.fst
  · obtain ⟨⟨m, st⟩, hin, rfl⟩ := Multiset.mem_map.mp hmem
    exact orderly_of_way (way_of_run (h.tracks.under m st hin))
  · rcases h.tracks.rest m hmem with hnone | hrun
    · exact orderly_of_way (show Way _ .absent from hnone)
    · exact orderly_of_way (way_of_run hrun)

theorem Inv.complete (h : Inv es s) (hdone : s.shutdown = .done) (hm : m < s.received) :
    Complete (actsOf m es) := by
  have hmem : m ∉ (live s).map Prod.fst := by
    rw [h.nothing_live hdone]
    exact Multiset.notMem_zero m
  rcases h.tracks.rest m hmem with hnone | hrun
  · exact absurd hnone (h.seen m hm)
  · exact way_of_run hrun

end

/-- In every interleaving of the receiver, the workers and one shutdown, no freed
list or queue is used; what happens to a message is one of the three lives or the
beginning of one, and it is a whole life when the shutdown is done. -/
theorem inspection_lifecycle {n : ℕ} (messages : ℕ → Message) (ls : List (Label n))
    (halloc : ∀ l ∈ ls, l.allocOk = true) :
    run (step messages) ls (State.init n) ≠ .error .useAfterFree ∧
      ∀ rs s, run (step messages) ls (State.init n) = .ok (rs, s) →
        (∀ m, Orderly (actsOf m rs.flatten)) ∧
          (s.shutdown = .done → ∀ m < s.received, Complete (actsOf m rs.flatten)) := by
  have hcond : Along (fun l _ => l.allocOk = true) (step messages) ls (State.init n) := along_of_forall halloc
  constructor
  · exact along_ne_error (I := Ordered) (fun l s es s' h hl hs => ordered_step h hl (move_of_step hs))
      (fun l s h _ => step_ok h l) ls Ordered.init hcond
  · intro rs s hr
    have hinv := run_events (I := Inv) (fun _ _ _ _ _ h hl hs => inv_step h hl hs) inv_init hcond hr
    exact ⟨hinv.orderly, fun hdone m hm => hinv.complete hdone hm⟩

def onePassAndShutdown : List (Label 1) :=
  onePass goodResults ++ [.shutdown] ++ List.replicate 5 (.worker ⟨0, Nat.one_pos⟩ goodResults true) ++
    List.replicate 3 .shutdown ++ List.replicate 6 (.receiver false true) ++ List.replicate 6 .shutdown

theorem onePassAndShutdown_allocOk : ∀ l ∈ onePassAndShutdown, l.allocOk := by
  intro l hl
  simp only [onePassAndShutdown, onePass, mem_append, mem_replicate, mem_singleton] at hl
  rcases hl with ((((((⟨_, rfl⟩ | ⟨_, rfl⟩) | ⟨_, rfl⟩) | rfl) | ⟨_, rfl⟩) | ⟨_, rfl⟩) | ⟨_, rfl⟩) | ⟨_, rfl⟩
  all_goals rfl

theorem inspection_lifecycle_one :
    ∃ rs s, run (step fun _ => request) onePassAndShutdown (State.init 1) = .ok (rs, s) ∧
      s.shutdown = .done ∧ s.received = 1 ∧ Complete (actsOf 0 rs.flatten) := by
  obtain ⟨rs, s, hr, hdone, hone⟩ : ∃ rs s, run (step fun _ => request) onePassAndShutdown (State.init 1) =
      .ok (rs, s) ∧ s.shutdown = .done ∧ s.received = 1 := ⟨_, _, rfl, rfl, rfl⟩
  have hlives := (inspection_lifecycle (fun _ => request) _ onePassAndShutdown_allocOk).2 rs s hr
  exact ⟨rs, s, hr, hdone, hone, hlives.2 hdone 0 (by rw [hone]; decide)⟩

end Razorback.Inspection
