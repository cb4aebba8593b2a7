import Razorback.Submission.Defs
import Razorback.Base.Monitor

/-! The life of one block pool item, apart from threads and queues. A monitor
reads what happens to the item and refuses anything out of turn. A ledger counts
who may still act on the item: places on the two queues, workers that hold it,
threads about to destroy it, marks and frees in the pool. There is never more
than one such claim, and the status says which kind it can be; the moves of the
ledger keep the monitor running. -/

namespace Razorback.Submission
open Nat Bool

def Status.rank : Status → ℕ
  | .collecting => 0
  | .checkGlobalCache => 1
  | .checkingGlobalCache => 2
  | .submitData => 3
  | .finalized | .error | .noType => 4

inductive Act
  | touched | status (st : Status) | pushed | callback | published | destroyed
  deriving DecidableEq, Repr

def Act.toStatus : Act → Option Status
  | .status st => some st
  | _ => none

/-- What the pipeline promises about the things that happen to one item, in their
order; `notify` if the item has a callback. -/
structure ExactlyOnce (notify : Bool) (acts : List Act) : Prop where
  forward : (acts.filterMap Act.toStatus).Pairwise fun st st' => st.rank < st'.rank
  listed : ∀ st ∈ acts.filterMap Act.toStatus, 0 < st.rank
  pushed : acts.count .pushed ≤ 1
  published : acts.count .published ≤ 1
  callback : acts.count .callback ≤ 1
  destroyed : ∀ before after, acts = before ++ .destroyed :: after →
    before.count .callback = notify.toNat ∧ after = []

structure Life where
  status : Option Status
  pushed : Bool
  published : Bool
  called : Bool
  destroyed : Bool

namespace Life

def fresh : Life := ⟨none, false, false, false, false⟩

def height (l : Life) : ℕ := (l.status.map Status.rank).getD 0

def allowed (notify : Bool) (l : Life) : Act → Bool
  | .touched => true
  | .status st => l.height < st.rank
  | .pushed => !l.pushed
  | .published => !l.published
  | .callback => !l.called
  | .destroyed => l.called == notify

def apply (l : Life) : Act → Life
  | .touched => l
  | .status st => { l with status := some st }
  | .pushed => { l with pushed := true }
  | .published => { l with published := true }
  | .callback => { l with called := true }
  | .destroyed => { l with destroyed := true }

def next (notify : Bool) (l : Life) (a : Act) : Option Life :=
  if !l.destroyed && l.allowed notify a then some (l.apply a) else none

variable {notify : Bool} {l l' : Life} {acts : List Act}

theorem next_eq_some : next notify l a = some l' ↔
    l.destroyed = false ∧ l.allowed notify a ∧ l.apply a = l' := by
  cases hd : l.destroyed <;> cases ha : l.allowed notify a <;> simp [next, hd, ha]

theorem count_flag (flag : Life → Bool) (a : Act) (hfresh : flag fresh = false)
    (hforbid : ∀ l, allowed notify l a = !flag l) (hraise : ∀ l, flag (apply l a))
    (hkeep : ∀ l b, b ≠ a → flag (apply l b) = flag l)
    (h : Monitor.run (next notify) fresh acts = some l) : acts.count a = (flag l).toNat := by
  have hset : ∀ l l', next notify l a = some l' → flag l = false ∧ flag l' := by
    intro l l' hn
    obtain ⟨_, ha, rfl⟩ := next_eq_some.mp hn
    exact ⟨by simpa [hforbid l] using ha, hraise l⟩
  have hrest : ∀ l b l', b ≠ a → next notify l b = some l' → flag l' = flag l := by
    intro l b l' hb hn
    obtain ⟨_, _, rfl⟩ := next_eq_some.mp hn
    exact hkeep l b hb
  simpa [hfresh] using Monitor.count_add_flag flag a hset hrest h

section
variable (h : Monitor.run (next notify) fresh acts = some l)
include h

theorem count_callback :
    acts.count .callback = l.called.toNat := by
  refine count_flag Life.called .callback rfl (fun _ => rfl) (fun _ => rfl) (fun l b hb => ?_) h
  cases b <;> first | rfl | exact absurd rfl hb

theorem climbs :
    (∀ st ∈ acts.filterMap Act.toStatus, 0 < st.rank) ∧
      (acts.filterMap Act.toStatus).Pairwise fun st st' => st.rank < st'.rank := by
  refine Monitor.pairwise_of_climbs Act.toStatus Status.rank height (fun l a st l' hs hn => ?_)
    (fun l a l' hs hn => ?_) h
  · obtain ⟨_, ha, rfl⟩ := next_eq_some.mp hn
    cases a with
    | status st' =>
      obtain rfl := Option.some.inj hs
      exact ⟨by simpa [allowed] using ha, rfl⟩
    | touched | pushed | published | callback | destroyed => cases hs
  · obtain ⟨_, _, rfl⟩ := next_eq_some.mp hn
    cases a <;> first | rfl | cases hs

theorem status_eq_getLast :
    l.status = (acts.filterMap Act.toStatus).getLast? := by
  induction acts using List.reverseRecOn generalizing l with
  | nil =>
    obtain rfl := Option.some.inj h
    rfl
  | append_singleton acts a ih =>
    obtain ⟨m, m', hm, hn, hend⟩ := Monitor.run_split h
    obtain ⟨_, _, rfl⟩ := next_eq_some.mp hn
    obtain rfl := Option.some.inj hend
    cases a with
    | status st => simp [Act.toStatus, apply]
    | touched | pushed | published | callback | destroyed => simpa [Act.toStatus, apply] using ih hm

theorem exactlyOnce_of_run :
    ExactlyOnce notify acts := by
  have hpushed : acts.count .pushed = l.pushed.toNat := by
    refine count_flag Life.pushed .pushed rfl (fun _ => rfl) (fun _ => rfl) (fun l b hb => ?_) h
    cases b <;> first | rfl | exact absurd rfl hb
  have hpublished : acts.count .published = l.published.toNat := by
    refine count_flag Life.published .published rfl (fun _ => rfl) (fun _ => rfl) (fun l b hb => ?_) h
    cases b <;> first | rfl | exact absurd rfl hb
  have hclimb := climbs h
  refine ⟨hclimb.2, hclimb.1, ?_, ?_, ?_, fun before after he => ?_⟩
  · exact hpushed ▸ toNat_le _
  · exact hpublished ▸ toNat_le _
  · exact count_callback h ▸ toNat_le _
  · obtain ⟨m, m', hm, hd, hrest⟩ := Monitor.run_split (he ▸ h)
    obtain ⟨_, hcalled, rfl⟩ := next_eq_some.mp hd
    refine ⟨?_, Monitor.run_refusing (fun a => if_neg (by simp [apply])) hrest⟩
    rw [count_callback hm]
    exact congrArg toNat (by simpa [allowed] using hcalled)

end

end Life

/-- The claims on one item: places on `requestQueue` and `submitQueue`, workers
that hold it, threads on their way to destroy it, and what the pool did to it. -/
@[ext]
structure Ledger where
  status : Option Status
  asking : ℕ
  requesting : ℕ
  queued : ℕ
  sending : ℕ
  closing : ℕ
  marked : ℕ
  freed : ℕ

namespace Ledger

def height (L : Ledger) : ℕ := (L.status.map Status.rank).getD 0

def notice (notify : Bool) : List Act := if notify then [.callback] else []

/-- What can happen to the claims on an item; `k` tells a successful push from a
failed one. -/
inductive Move (notify : Bool) (L : Ledger) : List Act → Ledger → Prop
  | look : L.freed = 0 → Move notify L [.touched] L
  | refuse (st : Status) : L.status = none → L.freed = 0 → st.rank = 4 →
      Move notify L (.touched :: .status st :: notice notify)
        { L with status := some st, closing := L.closing + 1 }
  | hit (k : Bool) : L.status = none → L.freed = 0 →
      Move notify L (.touched :: .status .submitData :: List.replicate k.toNat .pushed)
        { L with status := some .submitData, queued := L.queued + k.toNat }
  | miss (k : Bool) : L.status = none → L.freed = 0 →
      Move notify L [.touched, .status .checkGlobalCache]
        { L with status := some .checkGlobalCache, asking := L.asking + k.toNat }
  | popRequest : 0 < L.asking → Move notify L [.touched]
      { L with asking := L.asking - 1, requesting := L.requesting + 1 }
  | dropRequest : 0 < L.requesting → Move notify L [.touched]
      { L with requesting := L.requesting - 1 }
  | request : 0 < L.requesting →
      Move notify L [.touched, .status .checkingGlobalCache]
        { L with status := some .checkingGlobalCache, requesting := L.requesting - 1 }
  | requestFail : 0 < L.requesting →
      Move notify L (.touched :: .status .checkingGlobalCache :: .status .error :: notice notify)
        { L with status := some .error, requesting := L.requesting - 1, closing := L.closing + 1 }
  | respond (k : Bool) : L.status = some .checkingGlobalCache →
      Move notify L (.touched :: .status .submitData :: List.replicate k.toNat .pushed)
        { L with status := some .submitData, queued := L.queued + k.toNat }
  | popSubmit : 0 < L.queued → Move notify L [.touched]
      { L with queued := L.queued - 1, sending := L.sending + 1 }
  | dropSubmit : 0 < L.sending → Move notify L [.touched] { L with sending := L.sending - 1 }
  | submit (st : Status) (sent kept : Bool) : 0 < L.sending → st.rank = 4 →
      Move notify L
        (.touched :: List.replicate sent.toNat .published ++ .status st :: notice notify)
        { L with status := some st, sending := L.sending - 1, closing := L.closing + (!kept).toNat }
  | mark : 0 < L.closing → Move notify L [.touched] { L with closing := L.closing - 1, marked := 1 }
  | giveUp : 0 < L.closing → Move notify L [] { L with closing := L.closing - 1 }
  | prune : Move notify L (List.replicate L.marked .destroyed)
      { L with marked := 0, freed := L.freed + L.marked }

/-- One claim at most, of the kind the status allows, and a monitor in step. -/
structure Good (notify : Bool) (L : Ledger) (l : Life) : Prop where
  claims : L.asking + L.requesting + L.queued + L.sending + L.closing + L.marked + L.freed ≤ 1
  asked : 0 < L.asking + L.requesting → L.status = some .checkGlobalCache
  sent : 0 < L.queued + L.sending → L.status = some .submitData
  closed : 0 < L.closing + L.marked + L.freed → L.height = 4
  status : l.status = L.status
  destroyed : l.destroyed = decide (0 < L.freed)
  pushed : L.height < 3 → l.pushed = false
  published : L.height < 4 → l.published = false
  called : L.height < 4 → l.called = false
  notified : L.height = 4 → l.called = notify

section
variable {notify : Bool} {L L' : Ledger} {l : Life} {acts : List Act}

theorem Good.alive (h : Good notify L l) (hf : L.freed = 0) : l.destroyed = false := by
  rw [h.destroyed, hf]
  rfl

section
variable (hd : l.destroyed = false)
include hd

theorem run_touched (rest : List Act) :
    Monitor.run (Life.next notify) l (.touched :: rest) = Monitor.run (Life.next notify) l rest := by
  simp [Life.next, Life.allowed, Life.apply, hd]

variable {st : Status}

theorem run_status (hst : l.height < st.rank) (rest : List Act) :
    Monitor.run (Life.next notify) l (.status st :: rest) =
      Monitor.run (Life.next notify) { l with status := some st } rest := by
  simp [Life.next, Life.allowed, Life.apply, hd, hst]

theorem run_notice (hc : l.called = false) :
    Monitor.run (Life.next notify) l (notice notify) = some { l with called := notify } := by
  obtain ⟨status, pushed, published, called, destroyed⟩ := l
  obtain ⟨rfl, rfl⟩ := And.intro hd hc
  cases notify <;> rfl

theorem run_pushed (hp : l.pushed = false) (k : Bool) :
    Monitor.run (Life.next notify) l (List.replicate k.toNat .pushed) =
      some { l with pushed := k } := by
  obtain ⟨status, pushed, published, called, destroyed⟩ := l
  obtain ⟨rfl, rfl⟩ := And.intro hd hp
  cases k <;> rfl

theorem run_published (hp : l.published = false) (k : Bool) (rest : List Act) :
    Monitor.run (Life.next notify) l (List.replicate k.toNat .published ++ rest) =
      Monitor.run (Life.next notify) { l with published := k } rest := by
  obtain ⟨status, pushed, published, called, destroyed⟩ := l
  obtain ⟨rfl, rfl⟩ := And.intro hd hp
  cases k <;> rfl

end

theorem height_of_status (h : L.status = some st) : L.height = st.rank := by
  rw [height, h]
  rfl

theorem Good.height_eq (h : Good notify L l) : l.height = L.height := by
  rw [Life.height, h.status, height]

theorem Good.pass (h : Good notify L l) (hst : L'.status = L.status)
    (hasked : L'.asking + L'.requesting ≤ L.asking + L.requesting)
    (hsent : L'.queued + L'.sending ≤ L.queued + L.sending)
    (hclosed : L'.closing + L'.marked ≤ L.closing + L.marked) (hfreed : L'.freed = L.freed) :
    Good notify L' l := by
  have hh : L'.height = L.height := by rw [height, hst, height]
  have hclaims := h.claims
  refine ⟨by omega, fun hp => hst ▸ h.asked (by omega), fun hp => hst ▸ h.sent (by omega),
    fun hp => hh ▸ h.closed (by omega), hst ▸ h.status, hfreed ▸ h.destroyed, ?_, ?_, ?_, ?_⟩
  · exact hh ▸ h.pushed
  · exact hh ▸ h.published
  · exact hh ▸ h.called
  · exact hh ▸ h.notified

theorem Good.unclaimed (h : Good notify L l)
    (hs : L.status = none ∨ L.status = some .checkingGlobalCache) :
    L.asking + L.requesting + L.queued + L.sending + L.closing + L.marked + L.freed = 0 ∧
      L.height < 3 := by
  have hasked : ¬0 < L.asking + L.requesting := fun hp => by
    rcases hs with hs | hs <;> exact absurd (h.asked hp) (by simp [hs])
  have hsent : ¬0 < L.queued + L.sending := fun hp => by
    rcases hs with hs | hs <;> exact absurd (h.sent hp) (by simp [hs])
  have hheight : L.height < 3 := by
    rcases hs with hs | hs <;> simp [height, hs, Status.rank]
  have hclosed : ¬0 < L.closing + L.marked + L.freed := fun hp => by
    rw [h.closed hp] at hheight
    omega
  exact ⟨by omega, hheight⟩

theorem Good.of_status (hL : L.status = some st) (hl : l.status = some st)
    (hd : l.destroyed = false) (hf : L.freed = 0)
    (hclaims : L.asking + L.requesting + L.queued + L.sending + L.closing + L.marked ≤ 1)
    (hasked : st = .checkGlobalCache ∨ L.asking + L.requesting = 0)
    (hsent : st = .submitData ∨ L.queued + L.sending = 0)
    (hclosed : st.rank = 4 ∨ L.closing + L.marked = 0)
    (hpushed : st.rank < 3 → l.pushed = false)
    (hcalled : st.rank < 4 → l.published = false ∧ l.called = false)
    (hnotified : st.rank = 4 → l.called = notify) : Good notify L l := by
  have hh := height_of_status hL
  refine ⟨by omega, fun hp => ?_, fun hp => ?_, fun hp => ?_, hl.trans hL.symm, ?_, ?_, ?_, ?_, ?_⟩
  · rcases hasked with rfl | h0
    · exact hL
    · omega
  · rcases hsent with rfl | h0
    · exact hL
    · omega
  · rcases hclosed with h4 | h0
    · rw [hh, h4]
    · omega
  · rw [hd, hf]
    rfl
  · rw [hh]
    exact hpushed
  · rw [hh]
    exact fun h => (hcalled h).1
  · rw [hh]
    exact fun h => (hcalled h).2
  · rw [hh]
    exact hnotified

section
variable (h : Good notify L l) (hs : L.status = none ∨ L.status = some .checkingGlobalCache)
include h hs

theorem Good.queue (k : Bool) :
    ∃ l', Monitor.run (Life.next notify) l
        (.touched :: .status .submitData :: List.replicate k.toNat .pushed) = some l' ∧
      Good notify { L with status := some .submitData, queued := L.queued + k.toNat } l' := by
  obtain ⟨hzero, hlow⟩ := h.unclaimed hs
  have hd := h.alive (by omega)
  have hk := toNat_le k
  refine ⟨{ l with status := some .submitData, pushed := k }, ?_, ?_⟩
  · rw [run_touched hd, run_status hd (by rw [h.height_eq]; exact hlow)]
    exact run_pushed (l := { l with status := some .submitData }) hd (h.pushed hlow) k
  · refine .of_status rfl rfl hd ?_ ?_ (.inr ?_) (.inl rfl) (.inr ?_) (by simp [Status.rank])
      (fun _ => ⟨h.published (by omega), h.called (by omega)⟩) (by simp [Status.rank])
    all_goals dsimp only; omega

theorem Good.close (hr : st.rank = 4) :
    ∃ l', Monitor.run (Life.next notify) l (.touched :: .status st :: notice notify) = some l' ∧
      Good notify { L with status := some st, closing := L.closing + 1 } l' ∧ l'.published = false := by
  obtain ⟨hzero, hlow⟩ := h.unclaimed hs
  have hd := h.alive (by omega)
  refine ⟨{ l with status := some st, called := notify }, ?_, ?_, h.published (by omega)⟩
  · rw [run_touched hd, run_status hd (by rw [h.height_eq]; omega)]
    exact run_notice hd (h.called (by omega))
  · refine .of_status rfl rfl hd ?_ ?_ (.inr ?_) (.inr ?_) (.inl hr) (by omega) (by omega)
      fun _ => rfl
    all_goals dsimp only; omega

end

theorem Good.check (h : Good notify L l) (hp : 0 < L.requesting) (rest : List Act) :
    l.destroyed = false ∧ l.published = false ∧ l.called = false ∧ l.pushed = false ∧
      Monitor.run (Life.next notify) l (.touched :: .status .checkingGlobalCache :: rest) =
        Monitor.run (Life.next notify) { l with status := some .checkingGlobalCache } rest := by
  have hclaims := h.claims
  have hs := h.asked (by omega)
  have hd := h.alive (by omega)
  have hlow : L.height = 1 := height_of_status hs
  refine ⟨hd, h.published (by omega), h.called (by omega), h.pushed (by omega), ?_⟩
  rw [run_touched hd, run_status hd]
  rw [h.height_eq, hlow]
  decide

theorem Move.good (hm : Move notify L acts L') (h : Good notify L l) :
    ∃ l', Monitor.run (Life.next notify) l acts = some l' ∧ Good notify L' l' := by
  have hclaims := h.claims
  cases hm with
  | look hf => exact ⟨l, run_touched (h.alive hf) [], h⟩
  | refuse st hs hf hr =>
    obtain ⟨l', hrun, hg, _⟩ := h.close (.inl hs) hr
    exact ⟨l', hrun, hg⟩
  | hit k hs hf => exact h.queue (.inl hs) k
  | miss k hs hf =>
    obtain ⟨hzero, hlow⟩ := h.unclaimed (.inl hs)
    have hd := h.alive hf
    have hk := toNat_le k
    refine ⟨{ l with status := some .checkGlobalCache }, ?_, ?_⟩
    · rw [run_touched hd, run_status hd (by rw [h.height_eq, height, hs]; decide)]
      rfl
    · refine .of_status rfl rfl hd hf ?_ (.inl rfl) (.inr ?_) (.inr ?_) (fun _ => h.pushed hlow)
        (fun _ => ⟨h.published (by omega), h.called (by omega)⟩) (by simp [Status.rank])
      all_goals dsimp only; omega
  | popRequest hp =>
    refine ⟨l, run_touched (h.alive (by omega)) [], h.pass rfl ?_ (le_refl _) (le_refl _) rfl⟩
    dsimp only
    omega
  | dropRequest hp =>
    refine ⟨l, run_touched (h.alive (by omega)) [], h.pass rfl ?_ (le_refl _) (le_refl _) rfl⟩
    dsimp only
    omega
  | request hp =>
    obtain ⟨hd, hpub, hcall, hpush, hrun⟩ := h.check hp []
    refine ⟨_, hrun, .of_status rfl rfl hd ?_ ?_ (.inr ?_) (.inr ?_) (.inr ?_) (fun _ => hpush)
      (fun _ => ⟨hpub, hcall⟩) (by simp [Status.rank])⟩
    all_goals dsimp only; omega
  | requestFail hp =>
    obtain ⟨hd, hpub, hcall, hpush, hrun⟩ := h.check hp (.status .error :: notice notify)
    refine ⟨{ l with status := some .error, called := notify }, ?_, ?_⟩
    · rw [hrun]
      refine (run_status (l := { l with status := some .checkingGlobalCache }) hd
        (by simp [Life.height, Status.rank]) _).trans ?_
      exact run_notice hd hcall
    · refine .of_status rfl rfl hd ?_ ?_ (.inr ?_) (.inr ?_) (.inl rfl) (by simp [Status.rank])
        (by simp [Status.rank]) fun _ => rfl
      all_goals dsimp only; omega
  | respond k hs => exact h.queue (.inr hs) k
  | popSubmit hp =>
    refine ⟨l, run_touched (h.alive (by omega)) [], h.pass rfl (le_refl _) ?_ (le_refl _) rfl⟩
    dsimp only
    omega
  | dropSubmit hp =>
    refine ⟨l, run_touched (h.alive (by omega)) [], h.pass rfl (le_refl _) ?_ (le_refl _) rfl⟩
    dsimp only
    omega
  | submit st sent kept hp hr =>
    have hs := h.sent (by omega)
    have hd := h.alive (by omega)
    have hlow : L.height = 3 := height_of_status hs
    have hkept := toNat_le (!kept)
    refine ⟨{ l with status := some st, published := sent, called := notify }, ?_, ?_⟩
    · rw [List.cons_append, run_touched hd, run_published hd (h.published (by omega))]
      refine (run_status (l := { l with published := sent }) hd ?_ _).trans ?_
      · change l.height < st.rank
        rw [h.height_eq]
        omega
      · exact run_notice hd (h.called (by omega))
    · refine .of_status rfl rfl hd ?_ ?_ (.inr ?_) (.inr ?_) (.inl hr) (by omega) (by omega)
        fun _ => rfl
      all_goals dsimp only; omega
  | mark hp =>
    refine ⟨l, run_touched (h.alive (by omega)) [], h.pass rfl (le_refl _) (le_refl _) ?_ rfl⟩
    dsimp only
    omega
  | giveUp hp =>
    refine ⟨l, rfl, h.pass rfl (le_refl _) (le_refl _) ?_ rfl⟩
    dsimp only
    omega
  | prune =>
    cases hk : L.marked with
    | zero =>
      refine ⟨l, rfl, h.pass rfl (le_refl _) (le_refl _) ?_ rfl⟩
      dsimp only
      omega
    | succ k =>
      obtain rfl : k = 0 := by omega
      have hd := h.alive (by omega)
      have hheight := h.closed (by omega)
      refine ⟨{ l with destroyed := true }, ?_, ?_⟩
      · simp [Life.next, Life.allowed, Life.apply, hd, h.notified hheight]
      · refine ⟨?_, fun hp => ?_, fun hp => ?_, fun _ => hheight, h.status, ?_, h.pushed, h.published,
          h.called, h.notified⟩
        · dsimp only
          omega
        · dsimp only at hp
          omega
        · dsimp only at hp
          omega
        · simp

end

end Ledger

end Razorback.Submission
