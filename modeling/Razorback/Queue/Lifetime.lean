import Razorback.Base.Histories
import Razorback.Base.Holders
import Razorback.Base.References

/-! The lifetime of a queue. Every operation takes a reference first and drops it
at its end, `Queue_Terminate` drops the one that the queue was created with, and
whoever drops the last one runs `Queue_Final_Destroy`. A step is one atomic
operation on `refs` or `bShuttingDown`, or the start of a call; what an operation
does between its `Queue_Retain` and its `Queue_Release` touches neither but for
loads of the flag. The two words keep their values when the queue is destroyed. -/

namespace Razorback.Queue.Lifetime
open Runs Histories Holders References Function List

inductive Operation
  | getEx | putDest | ackMessage | rejectMessage | settleMessage
  deriving DecidableEq, Repr

inductive Pc
  | idle
  /-- In `Queue_Retain` before the load. -/
  | retain (op : Operation)
  /-- In the loop of `Queue_Retain`, with the value of `refs` seen last. -/
  | compare (op : Operation) (seen : ℕ)
  /-- Between `Queue_Retain` and `Queue_Release`. -/
  | working (op : Operation)
  /-- In `Queue_Terminate` before the exchange. -/
  | exchange
  /-- In `Queue_Terminate` before its `Queue_Release`. -/
  | closing
  /-- In `Queue_Release` before `Queue_Final_Destroy`. -/
  | destroying
  deriving DecidableEq, Repr

structure State (n : ℕ) where
  refs : ℕ
  shuttingDown : Bool
  pcs : Fin n → Pc

inductive Event (n : ℕ)
  | retained (t : Fin n)
  /-- `Queue_Retain` returned false. -/
  | refused (t : Fin n)
  | released (t : Fin n)
  | terminating (t : Fin n)
  /-- `Queue_Terminate` has dropped its reference. -/
  | closed (t : Fin n)
  | destroyed (t : Fin n)
  deriving DecidableEq

inductive Label (n : ℕ)
  | start (t : Fin n) (op : Operation)
  | load (t : Fin n)
  /-- The weak exchange may fail on its own. -/
  | compareExchange (t : Fin n) (spurious : Bool)
  | release (t : Fin n)
  | terminate (t : Fin n)
  | exchange (t : Fin n)
  | close (t : Fin n)
  | finalDestroy (t : Fin n)

section
variable {n : ℕ}

def State.goto (s : State n) (t : Fin n) (pc : Pc) : State n := { s with pcs := Function.update s.pcs t pc }

/-- `Queue_Release`, which ends the call unless it was the last reference. -/
def queueRelease (t : Fin n) (s : State n) : State n :=
  { s with refs := release (2 ^ 32) s.refs }.goto t (if s.refs = 1 then .destroying else .idle)

def queueRetain (t : Fin n) (op : Operation) (seen : ℕ) (spurious : Bool) (s : State n) : List (Event n) × State n :=
  if seen = 0 then ([.refused t], s.goto t .idle)
  else if s.refs = seen ∧ spurious = false then
    ([.retained t], { s with refs := retain (2 ^ 32) seen }.goto t (.working op))
  else ([], s.goto t (.compare op s.refs))

/-- One step of one thread; a thread that is not at the step's place does nothing. -/
def step (l : Label n) (s : State n) : List (Event n) × State n :=
  match l with
  | .start t op =>
    match s.pcs t with
    | .idle => ([], s.goto t (.retain op))
    | _ => ([], s)
  | .load t =>
    match s.pcs t with
    | .retain op => ([], s.goto t (.compare op s.refs))
    | _ => ([], s)
  | .compareExchange t spurious =>
    match s.pcs t with
    | .compare op seen => queueRetain t op seen spurious s
    | _ => ([], s)
  | .release t =>
    match s.pcs t with
    | .working _ => ([.released t], queueRelease t s)
    | _ => ([], s)
  | .terminate t =>
    match s.pcs t with
    | .idle => ([.terminating t], s.goto t .exchange)
    | _ => ([], s)
  | .exchange t =>
    match s.pcs t with
    | .exchange =>
      ([], { s with shuttingDown := true }.goto t (if s.shuttingDown then .idle else .closing))
    | _ => ([], s)
  | .close t =>
    match s.pcs t with
    | .closing => ([.closed t], queueRelease t s)
    | _ => ([], s)
  | .finalDestroy t =>
    match s.pcs t with
    | .destroying => ([.destroyed t], s.goto t .idle)
    | _ => ([], s)

def call (l : Label n) (s : State n) : Except Empty (List (Event n) × State n) := .ok (step l s)

end

def State.init (n : ℕ) : State n := ⟨1, false, fun _ => .idle⟩

def Event.isRetained {n : ℕ} : Event n → Bool
  | .retained _ => true
  | _ => false

def Event.isReleased {n : ℕ} : Event n → Bool
  | .released _ => true
  | _ => false

def Event.isClosed {n : ℕ} : Event n → Bool
  | .closed _ => true
  | _ => false

def Event.isDestroyed {n : ℕ} : Event n → Bool
  | .destroyed _ => true
  | _ => false

def references {n : ℕ} (es : List (Event n)) : ℤ :=
  1 + es.countP Event.isRetained - es.countP Event.isReleased - es.countP Event.isClosed

/-- When a reference may be taken and the queue be destroyed. -/
def Fits {n : ℕ} (before : List (Event n)) : Event n → Prop
  | .retained _ => ∀ es, es <+: before → references es ≠ 0
  | .destroyed _ => (∃ t, .terminating t ∈ before) ∧ (∀ t, before.count (.retained t) = before.count (.released t)) ∧
    references before = 0 ∧ ∀ t, .destroyed t ∉ before
  | _ => True

/-- What holds of the events of a run and the state it has reached. -/
structure Lives {n : ℕ} (es : List (Event n)) (s : State n) : Prop where
  refs : (s.refs : ℤ) = references es % 2 ^ 32
  fits : Justified Fits es
  destroyed : (∀ t, s.pcs t = .idle) → (∃ t, .terminating t ∈ es) → es.countP Event.isDestroyed = 1

def Pc.isWorking : Pc → Bool
  | .working _ => true
  | _ => false

def Pc.isExchanging : Pc → Bool
  | .exchange => true
  | _ => false

def Pc.isClosing : Pc → Bool
  | .closing => true
  | _ => false

def Pc.isDestroying : Pc → Bool
  | .destroying => true
  | _ => false

structure Inv {n : ℕ} (total : ℕ) (es : List (Event n)) (s : State n) : Prop where
  refs : Counts (2 ^ 32) s.refs total
  count : (total : ℤ) = references es
  held : total + es.countP Event.isClosed = 1 + holders Pc.isWorking s.pcs
  own : ∀ t, es.count (.retained t) = es.count (.released t) + (s.pcs t).isWorking.toNat
  closing : holders Pc.isClosing s.pcs + es.countP Event.isClosed = s.shuttingDown.toNat
  destroying : holders Pc.isDestroying s.pcs + es.countP Event.isDestroyed = (decide (total = 0)).toNat
  called : (s.shuttingDown = true ∨ 0 < holders Pc.isExchanging s.pcs) ↔ ∃ t, .terminating t ∈ es
  ended : ∀ p, p <+: es → references p = 0 → total = 0
  fits : Justified Fits es

section
variable {n total : ℕ} {es : List (Event n)} {s : State n} {t : Fin n} {pc : Pc} {op : Operation}

attribute [simp] Pc.isWorking Pc.isExchanging Pc.isClosing Pc.isDestroying Event.isRetained Event.isReleased
  Event.isClosed Event.isDestroyed State.goto

theorem inv_init (n : ℕ) : Inv 1 [] (State.init n) := by
  refine ⟨⟨rfl, by decide⟩, rfl, ?_, ?_, ?_, ?_, ?_, fun p hp h0 => ?_, justified_nil⟩
  case refine_6 =>
    rw [prefix_nil.mp hp] at h0
    cases h0
  all_goals simp [State.init, holders]

theorem references_append (es es' : List (Event n)) : references (es ++ es') = references es +
    es'.countP Event.isRetained - es'.countP Event.isReleased - es'.countP Event.isClosed := by
  simp only [references, countP_append]
  omega

structure Moves (t : Fin n) (total total' : ℕ) (e : Option (Event n)) (s s' : State n) : Prop where
  refs : Counts (2 ^ 32) s'.refs total'
  others : ∀ u, u ≠ t → s'.pcs u = s.pcs u
  count : total' + e.toList.countP Event.isReleased + e.toList.countP Event.isClosed =
    total + e.toList.countP Event.isRetained
  held : total' + e.toList.countP Event.isClosed + (s.pcs t).isWorking.toNat = total + (s'.pcs t).isWorking.toNat
  own : e.toList.count (.retained t) + (s.pcs t).isWorking.toNat =
    e.toList.count (.released t) + (s'.pcs t).isWorking.toNat
  foreign : ∀ u, u ≠ t → e.toList.count (.retained u) = 0 ∧ e.toList.count (.released u) = 0
  closing : (s'.pcs t).isClosing.toNat + e.toList.countP Event.isClosed + s.shuttingDown.toNat =
    (s.pcs t).isClosing.toNat + s'.shuttingDown.toNat
  destroying : (s'.pcs t).isDestroying.toNat + e.toList.countP Event.isDestroyed + (decide (total = 0)).toNat =
    (s.pcs t).isDestroying.toNat + (decide (total' = 0)).toNat
  ended : total = 0 → total' = 0

variable {e : Option (Event n)}

theorem Moves.pcs_eq (hm : Moves t total total' e s s') :
    s'.pcs = Function.update s.pcs t (s'.pcs t) := by
  funext u
  by_cases hut : u = t
  · rw [hut, update_self]
  · rw [update_of_ne hut, hm.others u hut]

theorem Inv.move (h : Inv total es s) (hm : Moves t total total' e s s')
    (hcalled : (s'.shuttingDown ∨ 0 < holders Pc.isExchanging s'.pcs) ↔ ∃ t, .terminating t ∈ es ++ e.toList)
    (hfits : ∀ x ∈ e, Fits es x) : Inv total' (es ++ e.toList) s' := by
  have hpcs := hm.pcs_eq
  have hnum : ∀ p : Pc → Bool,
      holders p s'.pcs + (p (s.pcs t)).toNat = holders p s.pcs + (p (s'.pcs t)).toNat := by
    intro p
    rw [hpcs, update_self]
    exact holders_update p s.pcs t _
  have hcount : (total' : ℤ) = references (es ++ e.toList) := by
    have := hm.count
    rw [references_append, ← h.count]
    omega
  refine ⟨hm.refs, hcount, ?_, ?_, ?_, ?_, hcalled, fun p hp h0 => ?_, ?_⟩
  · have := hnum Pc.isWorking
    have := hm.held
    have := h.held
    rw [countP_append]
    omega
  · intro u
    have hu := h.own u
    rw [hpcs, count_append, count_append]
    by_cases hut : u = t
    · subst hut
      have := hm.own
      rw [update_self]
      omega
    · rw [update_of_ne hut, (hm.foreign u hut).1, (hm.foreign u hut).2]
      exact hu
  · have := hnum Pc.isClosing
    have := hm.closing
    have := h.closing
    rw [countP_append]
    omega
  · have := hnum Pc.isDestroying
    have := hm.destroying
    have := h.destroying
    rw [countP_append]
    omega
  · cases e with
    | none => exact hm.ended (h.ended p (by simpa using hp) h0)
    | some x =>
      rcases prefix_concat_iff.mp hp with rfl | hp
      · exact_mod_cast hcount.trans h0
      · exact hm.ended (h.ended p hp h0)
  · cases e with
    | none => simpa using h.fits
    | some x => exact h.fits.snoc (hfits x rfl)

theorem Inv.move_called (h : Inv total es s)
    (hm : Moves t total total' e s s') (hdown : s'.shuttingDown = s.shuttingDown)
    (hold : (s.pcs t).isExchanging = false) (hnew : (s'.pcs t).isExchanging = false) (he : ∀ u, e ≠ some (.terminating u))
    (hfits : ∀ x ∈ e, Fits es x) : Inv total' (es ++ e.toList) s' := by
  refine h.move hm ?_ hfits
  have hex : holders Pc.isExchanging s'.pcs = holders Pc.isExchanging s.pcs := by
    rw [hm.pcs_eq]
    exact holders_same (hnew.trans hold.symm)
  rw [hex, hdown, h.called]
  refine exists_congr fun u => ?_
  rw [mem_append, Option.mem_toList]
  exact ⟨.inl, fun h => h.resolve_right fun hu => he u hu⟩

@[simp] theorem goto_self (s : State n) (t : Fin n) (pc : Pc) : (s.goto t pc).pcs t = pc := update_self ..

theorem Inv.goto (h : Inv total es s) (hw : pc.isWorking = (s.pcs t).isWorking)
    (hc : pc.isClosing = (s.pcs t).isClosing) (hd : pc.isDestroying = (s.pcs t).isDestroying)
    (hold : (s.pcs t).isExchanging = false) (hnew : pc.isExchanging = false) : Inv total es (s.goto t pc) := by
  have hm : Moves t total total none s (s.goto t pc) :=
    ⟨h.refs, fun _ hu => update_of_ne hu _ _, rfl, by rw [goto_self, hw]; rfl, by rw [goto_self, hw]; rfl, fun _ _ => ⟨rfl, rfl⟩,
      by rw [goto_self, hc]; rfl, by rw [goto_self, hd]; rfl, id⟩
  have := h.move_called hm rfl hold (by rwa [goto_self]) (fun _ he => nomatch he) fun _ hx => nomatch hx
  rwa [Option.toList_none, append_nil] at this

theorem Inv.refuses (h : Inv total es s) (hpc : s.pcs t = .compare op 0) :
    Inv total (es ++ [.refused t]) (s.goto t .idle) := by
  have hm : Moves t total total (some (.refused t)) s (s.goto t .idle) := by
    refine ⟨h.refs, ?_, ?_, ?_, ?_, ?_, ?_, ?_, id⟩
    all_goals simp +contextual [hpc]
  exact h.move_called hm rfl (by simp [hpc]) (by simp) nofun (by simp [Fits])

theorem Inv.retains (h : Inv total es s) (hpc : s.pcs t = .compare op s.refs) (hne : s.refs ≠ 0) :
    Inv (total + 1) (es ++ [.retained t]) ({ s with refs := retain (2 ^ 32) s.refs }.goto t (.working op)) := by
  have hpos := (h.refs.pos_of_ne_zero hne).ne'
  have hm : Moves t total (total + 1) (some (.retained t)) s
      ({ s with refs := retain (2 ^ 32) s.refs }.goto t (.working op)) := by
    refine ⟨h.refs.retain hne, ?_, ?_, ?_, ?_, fun u hu => ?_, ?_, ?_, fun h0 => absurd h0 hpos⟩
    all_goals simp +contextual [hpc, hpos]
    exact count_eq_zero_of_not_mem (by simpa using hu)
  refine h.move_called hm rfl (by simp [hpc]) (by simp) nofun ?_
  rintro _ ⟨⟩
  exact fun p hp h0 => hpos (h.ended p hp h0)

theorem setRefs_shuttingDown (s : State n) (r : ℕ) (t : Fin n) (pc : Pc) :
    ({ s with refs := r }.goto t pc).shuttingDown = s.shuttingDown := rfl

theorem queueRelease_shuttingDown (t : Fin n) (s : State n) : (queueRelease t s).shuttingDown = s.shuttingDown := by
  rw [queueRelease, setRefs_shuttingDown]

theorem Inv.drops {e : Event n} (h : Inv total es s)
    (hpc : (∃ op, s.pcs t = .working op ∧ e = .released t) ∨ s.pcs t = .closing ∧ e = .closed t) :
    Inv (total - 1) (es ++ [e]) (queueRelease t s) := by
  have hheld := h.held
  have hclosing := h.closing
  have hpos : 0 < total := by
    have := s.shuttingDown.toNat_le
    rcases hpc with ⟨op, hpc, _⟩ | ⟨hpc, _⟩
    · have := holders_pos (p := Pc.isWorking) (f := s.pcs) (t := t) (by simp [hpc])
      omega
    · have := holders_pos (p := Pc.isClosing) (f := s.pcs) (t := t) (by simp [hpc])
      omega
  have hone := h.refs.eq_one_iff (by decide)
  have hm : Moves t total (total - 1) (some e) s (queueRelease t s) := by
    obtain ⟨k, rfl⟩ := Nat.exists_eq_succ_of_ne_zero hpos.ne'
    rcases hpc with ⟨op, hpc, rfl⟩ | ⟨hpc, rfl⟩
    all_goals
      refine ⟨h.refs.release hpos, ?_, ?_, ?_, ?_, fun u hu => ?_, ?_, ?_, fun h0 => absurd h0 hpos.ne'⟩
      all_goals by_cases h1 : k = 0
      all_goals simp +contextual [queueRelease, hpc, hone, h1]
    all_goals exact count_eq_zero_of_not_mem (by simpa using hu)
  refine h.move_called hm (queueRelease_shuttingDown t s) ?_ ?_ ?_ ?_
  · rcases hpc with ⟨op, hpc, _⟩ | ⟨hpc, _⟩ <;> simp [hpc]
  · by_cases h1 : total = 1 <;> simp [queueRelease, hone, h1]
  · rcases hpc with ⟨_, _, rfl⟩ | ⟨_, rfl⟩ <;> exact nofun
  · rcases hpc with ⟨_, _, rfl⟩ | ⟨_, rfl⟩ <;> simp [Fits]

theorem Inv.terminates (h : Inv total es s) (hpc : s.pcs t = .idle) :
    Inv total (es ++ [.terminating t]) (s.goto t .exchange) := by
  have hm : Moves t total total (some (.terminating t)) s (s.goto t .exchange) := by
    refine ⟨h.refs, ?_, ?_, ?_, ?_, ?_, ?_, ?_, id⟩
    all_goals simp +contextual [hpc]
  refine h.move hm (iff_of_true (.inr (holders_pos (t := t) (by simp))) ⟨t, by simp⟩) (by simp [Fits])

theorem Inv.exchanges (h : Inv total es s) (hpc : s.pcs t = .exchange) :
    Inv total es ({ s with shuttingDown := true }.goto t (if s.shuttingDown then .idle else .closing)) := by
  have hcalled : ∃ t, .terminating t ∈ es := h.called.mp (.inr (holders_pos (t := t) (by simp [hpc])))
  have hm : Moves t total total none s
      ({ s with shuttingDown := true }.goto t (if s.shuttingDown then .idle else .closing)) := by
    refine ⟨h.refs, ?_, rfl, ?_, ?_, ?_, ?_, ?_, id⟩
    all_goals cases hd : s.shuttingDown <;> simp +contextual [hpc]
  simpa using h.move hm (iff_of_true (.inl rfl) (by simpa using hcalled)) nofun

theorem Inv.destroys (h : Inv total es s) (hpc : s.pcs t = .destroying) :
    Inv total (es ++ [.destroyed t]) (s.goto t .idle) := by
  have hat := holders_pos (p := Pc.isDestroying) (f := s.pcs) (t := t) (by simp [hpc])
  have hdest := h.destroying
  obtain rfl : total = 0 := by
    by_contra hne
    rw [decide_eq_false hne, Bool.toNat_false] at hdest
    omega
  have hm : Moves t 0 0 (some (.destroyed t)) s (s.goto t .idle) := by
    refine ⟨h.refs, ?_, ?_, ?_, ?_, ?_, ?_, ?_, id⟩
    all_goals simp +contextual [hpc]
  refine h.move_called hm rfl (by simp [hpc]) (by simp) nofun ?_
  rintro _ ⟨⟩
  have hheld := h.held
  have hclosing := h.closing
  have hdown := s.shuttingDown.toNat_le
  rw [decide_eq_true rfl, Bool.toNat_true] at hdest
  refine ⟨h.called.mp (.inl ?_), fun u => ?_, h.count.symm, fun u hu => ?_⟩
  · cases hsd : s.shuttingDown with
    | true => rfl
    | false =>
      rw [hsd, Bool.toNat_false] at hclosing
      omega
  · have hnone : holders Pc.isWorking s.pcs = 0 := by omega
    rw [h.own u, holders_eq_zero_iff.mp hnone u]
    rfl
  · have : 0 < es.countP Event.isDestroyed := countP_pos_iff.mpr ⟨_, hu, rfl⟩
    omega

theorem inv_step (l : Label n) (h : Inv total es s) : ∃ total', Inv total' (es ++ (step l s).1) (step l s).2 := by
  have hsame : ∃ total', Inv total' (es ++ []) s := ⟨total, by rwa [append_nil]⟩
  have hstart : ∀ {t pc}, (∃ op, pc = .retain op ∨ ∃ seen, pc = .compare op seen) →
      (s.pcs t = .idle ∨ ∃ op, s.pcs t = .retain op ∨ ∃ seen, s.pcs t = .compare op seen) →
      ∃ total', Inv total' (es ++ []) (s.goto t pc) := by
    intro t pc hpc hold
    rw [append_nil]
    refine ⟨total, h.goto ?_ ?_ ?_ ?_ ?_⟩
    all_goals
      rcases hpc with ⟨op, rfl | ⟨seen, rfl⟩⟩ <;> rcases hold with hold | ⟨op', hold | ⟨seen', hold⟩⟩ <;> simp [hold]
  cases l with
  | start t op =>
    simp only [step]
    split
    · next hpc => exact hstart ⟨op, .inl rfl⟩ (.inl hpc)
    · exact hsame
  | load t =>
    simp only [step]
    split
    · next op hpc => exact hstart ⟨op, .inr ⟨_, rfl⟩⟩ (.inr ⟨op, .inl hpc⟩)
    · exact hsame
  | compareExchange t spurious =>
    simp only [step, queueRetain]
    split
    · next op seen hpc =>
      split_ifs with h0 heq
      · exact ⟨total, h.refuses (h0 ▸ hpc)⟩
      · obtain ⟨rfl, _⟩ := heq
        exact ⟨total + 1, h.retains hpc h0⟩
      · exact hstart ⟨op, .inr ⟨_, rfl⟩⟩ (.inr ⟨op, .inr ⟨seen, hpc⟩⟩)
    · exact hsame
  | release t =>
    simp only [step]
    split
    · next op hpc => exact ⟨total - 1, h.drops (.inl ⟨op, hpc, rfl⟩)⟩
    · exact hsame
  | terminate t =>
    simp only [step]
    split
    · next hpc => exact ⟨total, h.terminates hpc⟩
    · exact hsame
  | exchange t =>
    simp only [step]
    split
    · next hpc => exact ⟨total, by simpa using h.exchanges hpc⟩
    · exact hsame
  | close t =>
    simp only [step]
    split
    · next hpc => exact ⟨total - 1, h.drops (.inr ⟨hpc, rfl⟩)⟩
    · exact hsame
  | finalDestroy t =>
    simp only [step]
    split
    · next hpc => exact ⟨total, h.destroys hpc⟩
    · exact hsame

theorem Inv.lives (h : Inv total es s) : Lives es s := by
  refine ⟨?_, h.fits, fun hidle hterm => ?_⟩
  · rw [h.refs.value, ← h.count]
    norm_cast
  · have hnone : ∀ p : Pc → Bool, p .idle = false → holders p s.pcs = 0 :=
      fun p hp => holders_eq_zero fun t => by rw [hidle t, hp]
    have hdown : s.shuttingDown := by
      refine (h.called.mpr hterm).resolve_right ?_
      rw [hnone _ rfl]
      exact Nat.lt_irrefl 0
    have hheld := h.held
    have hclosing := h.closing
    have hdest := h.destroying
    rw [hnone _ rfl] at hheld hclosing hdest
    rw [hdown] at hclosing
    have htrue : (true).toNat = 1 := rfl
    have hzero : total = 0 := by omega
    rw [decide_eq_true hzero] at hdest
    omega

end

/-- For any number of threads and every interleaving of their calls, the queue is
destroyed at most once, when no operation holds it, and no reference is taken
once none was left; when all calls are over and one of them was
`Queue_Terminate`, it was destroyed. -/
theorem queue_lifetime (n : ℕ) (ls : List (Label n)) :
    ∃ rs s, run call ls (State.init n) = .ok (rs, s) ∧ Lives rs.flatten s := by
  obtain ⟨rs, s, hr, total, hinv⟩ := run_events_total (I := fun es s => ∃ total, Inv total es s)
    (fun es l s h => by
      obtain ⟨total, h⟩ := h
      exact ⟨_, _, rfl, inv_step l h⟩) ⟨1, inv_init n⟩ ls
  exact ⟨rs, s, hr, hinv.lives⟩

example : (run call [.start 0 .getEx, .load 0, .compareExchange 0 false, .terminate 1, .exchange 1, .close 1,
    .release 0, .finalDestroy 0] (State.init 2)).map (fun p => p.1.flatten) =
    .ok [.retained 0, .terminating 1, .closed 1, .released 0, .destroyed 0] := rfl

end Razorback.Queue.Lifetime
