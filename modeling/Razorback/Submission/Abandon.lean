import Razorback.Submission.ExactlyOnce

/-! `Submission_AbandonStuckContextCacheLookups` beside the pipeline: a thread that
shuts a context down looks through the block pool for an item that waits for a
cache response, keeps the pointer, and comes back to it in a second locked section
to give it up. Between the two sections the other threads go on. -/

namespace Razorback.Submission
open Runs Razorback.Lists Holders Function List Option

inductive Place
  | out
  /-- At the head of the loop; `BlockPool_DestroyItem` of the last item may still run. -/
  | round (context : ℕ)
  /-- `BlockPool_ForEachItem` holds the read lock, `rest` ahead of it. -/
  | search (context : ℕ) (rest : List ℕ)
  /-- `data.item` is set and the read lock given back. -/
  | found (context item : ℕ)
  /-- The status is set and the item unlocked; the callback is due. -/
  | abandoned (context item : ℕ)
  deriving DecidableEq, Repr

def Place.searching : Place → Bool
  | .search _ _ => true
  | _ => false

def Place.owes (i : ℕ) : Place → Bool
  | .abandoned _ j => j == i
  | _ => false

structure Shutdown (n : ℕ) where
  pipeline : State n
  places : Fin n → Place
  /-- The items that were given up. -/
  abandoned : List ℕ

inductive Deed (n : ℕ)
  | worker (l : Label n)
  /-- The call of `Submission_AbandonStuckContextCacheLookups`. -/
  | abandon (t : Fin n) (context : ℕ)
  | forEach (t : Fin n)
  | find (t : Fin n)
  | lock (t : Fin n)
  | callback (t : Fin n)

section
variable {n : ℕ}

def Label.thread : Label n → Fin n
  | .submit t _ _ _ _ _ | .popRequest t | .request t _ | .receive t _ | .respond t _ _ | .popSubmit t
  | .transfer t _ _ _ | .destroy t | .remove t | .prune t => t

def Label.writes : Label n → Bool
  | .prune _ => true
  | _ => false

namespace Shutdown

def setPlace (s : Shutdown n) (t : Fin n) (place : Place) : Shutdown n :=
  { s with places := Function.update s.places t place }

def free (s : Shutdown n) (t : Fin n) : Bool :=
  match s.places t with
  | .out => true
  | .round _ => s.pipeline.threads t != .idle
  | _ => false

def stuck (s : Shutdown n) (context i : ℕ) : Bool :=
  (s.pipeline.items i).context == context &&
    (s.pipeline.items i).getStatus == Status.checkingGlobalCache.code

def giveUp (s : Shutdown n) (t : Fin n) (context i : ℕ) : Shutdown n where
  pipeline := (s.pipeline.setItem i ((s.pipeline.items i).setStatus .error)).setThread t (.destroy i)
  places := Function.update s.places t (.abandoned context i)
  abandoned := i :: s.abandoned

end Shutdown

def Deed.call (d : Deed n) (s : Shutdown n) : Except Fault (List Event × Shutdown n) :=
  match d with
  | .worker l =>
    if s.free l.thread ∧ (l.writes → ∀ u, (s.places u).searching = false) then do
      let (es, p) ← step l s.pipeline
      return (es, { s with pipeline := p })
    else .ok ([], s)
  | .abandon t context =>
    if s.places t = .out ∧ s.pipeline.threads t = .idle then .ok ([], s.setPlace t (.round context))
    else .ok ([], s)
  | .forEach t =>
    match s.places t with
    | .round context =>
      if s.pipeline.threads t = .idle then
        .ok ([], s.setPlace t (.search context s.pipeline.poolItems))
      else .ok ([], s)
    | _ => .ok ([], s)
  | .find t =>
    match s.places t with
    | .search _ [] => .ok ([], s.setPlace t .out)
    | .search context (i :: rest) => do
      s.pipeline.touch i
      if s.stuck context i then return ([.touched i], s.setPlace t (.found context i))
      else return ([.touched i], s.setPlace t (.search context rest))
    | _ => .ok ([], s)
  | .lock t =>
    match s.places t with
    | .found context i => do
      s.pipeline.touch i
      if s.stuck context i then return ([.touched i, .status i .error], s.giveUp t context i)
      else return ([.touched i], s.setPlace t (.round context))
    | _ => .ok ([], s)
  | .callback t =>
    match s.places t with
    | .abandoned context i => do
      s.pipeline.touch i
      return (.touched i :: callbackEvents i (s.pipeline.items i), s.setPlace t (.round context))
    | _ => .ok ([], s)

def Shutdown.init (items : ℕ → Item) (ids : List ℕ) (caches : LocalCache.Caches) : Shutdown n :=
  ⟨State.init items ids caches, fun _ => .out, []⟩

/-- No item is taken from the pool while a thread that found it has yet to lock it. -/
def Deed.Waits (d : Deed n) (s : Shutdown n) : Prop :=
  ∀ t, d = .worker (.prune t) → ∀ u context i, s.places u = .found context i → i ∉ s.pipeline.marked

variable {s s' : State n} {es : List Event} {t : Fin n} {i : ℕ}

structure Frame (t : Fin n) (s s' : State n) : Prop where
  threads : ∀ u, u ≠ t → s'.threads u = s.threads u
  poolItems : s'.poolItems = s.poolItems

theorem Frame.rfl : Frame t s s := ⟨fun _ _ => .refl _, .refl _⟩

theorem Frame.setThread (h : Frame t s s') (pc : Pc) : Frame t s (s'.setThread t pc) := by
  refine ⟨fun u hu => ?_, h.poolItems⟩
  exact (update_of_ne hu ..).trans (h.threads u hu)

theorem Frame.mark (h : Frame t s s') (k : ℕ) : Frame t s (s'.mark k) :=
  ⟨h.threads, (poolItems_mark s' k).trans h.poolItems⟩

theorem Frame.set (h : Frame t s s') (items : ℕ → Item) (submitted : List ℕ) (requestQueue submitQueue : Seq ℕ)
    (caches : LocalCache.Caches) (storedLocality : Fin n → UInt8) :
    Frame t s { s' with
      items := items, submitted := submitted, requestQueue := requestQueue, submitQueue := submitQueue,
      caches := caches, storedLocality := storedLocality } := ⟨h.threads, h.poolItems⟩

theorem finish_frame (st : Status) (h : Frame t s s') : Frame t s (finish t i st s').2 :=
  (h.set _ _ _ _ _ _).setThread (.destroy i)

theorem submissionSubmit_frame {flags : UInt32} {outNull allocOk : Bool}
    {beyond : LocalCache.CacheType → ℕ → ℕ → UInt8} {s₁ : State n} (hframe : Frame t s s₁)
    (h : submissionSubmit t i flags outNull allocOk beyond s₁ = .ok (es, s')) : Frame t s s' := by
  unfold submissionSubmit at h
  dsimp only at h
  split_ifs at h
  · cases h
    exact finish_frame _ hframe
  · cases h
    exact finish_frame _ hframe
  · cases h
    exact finish_frame _ hframe
  · obtain ⟨⟨found, caches⟩, _, h⟩ := bind_eq_ok.mp h
    cases found with
    | some flags' =>
      simp only [pushSubmit_eq] at h
      cases h
      exact hframe.set _ _ _ _ _ _
    | none =>
      simp only [pushRequest_eq] at h
      cases h
      exact hframe.set _ _ _ _ _ _

theorem requestSection_frame (sendOk : Bool) : Frame t s (requestSection t i sendOk s).2 := by
  unfold requestSection
  dsimp only
  split_ifs
  · exact Frame.rfl.setThread _
  · exact (Frame.rfl.set _ _ _ _ _ _).setThread _
  · exact finish_frame .error (Frame.rfl.set _ _ _ _ _ _)

theorem responseHandler_frame
    (h : responseHandler allocOk mallocOk res i s = .ok (es, s')) : Frame t s s' := by
  by_cases hmatch : (s.items i).getStatus = Status.checkingGlobalCache.code ∧
      (s.items i).context = res.context ∧ (s.items i).pId = res.pId
  · rw [responseHandler, if_pos hmatch] at h
    obtain ⟨⟨_, caches⟩, _, h⟩ := bind_eq_ok.mp h
    simp only [pushSubmit_eq] at h
    cases h
    exact Frame.rfl.set _ _ _ _ _ _
  · rw [responseHandler, if_neg hmatch] at h
    cases h
    exact .rfl

theorem publish_frame (h : Frame t s s') : Frame t s (publish t i reason initOk putOk s').2 := by
  obtain ⟨st, pc, ⟨_, sent, item, hp, _⟩, _⟩ := publish_closes s' t i reason initOk putOk
  rw [hp]
  exact (h.set _ _ _ _ _ _).setThread pc

theorem submitSection_frame (attempt : Attempts) (initOk putOk : Bool) :
    Frame t s (submitSection t i attempt initOk putOk s).2 := by
  unfold submitSection
  dsimp only
  split_ifs
  · exact Frame.rfl.setThread _
  · split
    · exact publish_frame (Frame.rfl.set _ _ _ _ _ _)
    · exact finish_frame .error .rfl
  · exact publish_frame .rfl

theorem step_frame (hl : l.writes = false) (h : step l s = .ok (es, s')) : Frame l.thread s s' := by
  cases l with
  | submit t i flags outNull allocOk beyond =>
    unfold step at h
    dsimp only at h
    split_ifs at h
    · obtain ⟨_, _, h⟩ := bind_eq_ok.mp h
      obtain ⟨⟨es', s''⟩, hsub, h⟩ := bind_eq_ok.mp h
      cases h
      exact submissionSubmit_frame (Frame.rfl.set _ _ _ _ _ _) hsub
    · cases h
      exact .rfl
  | popRequest t | popSubmit t =>
    unfold step at h
    dsimp only at h
    split at h
    · split at h
      · obtain ⟨_, _, h⟩ := bind_eq_ok.mp h
        cases h
        exact (Frame.rfl.set _ _ _ _ _ _).setThread _
      · cases h
        exact Frame.rfl.set _ _ _ _ _ _
    · cases h
      exact .rfl
  | request t sendOk =>
    unfold step at h
    dsimp only at h
    split at h
    · obtain ⟨_, _, h⟩ := bind_eq_ok.mp h
      cases h
      exact requestSection_frame sendOk
    · cases h
      exact .rfl
  | receive t res | destroy t =>
    unfold step at h
    dsimp only at h
    split at h
    · cases h
      exact Frame.rfl.setThread _
    · cases h
      exact .rfl
  | respond t allocOk mallocOk =>
    unfold step at h
    dsimp only at h
    split at h
    · cases h
      exact Frame.rfl.setThread _
    · obtain ⟨_, _, h⟩ := bind_eq_ok.mp h
      obtain ⟨⟨es', s''⟩, hres, h⟩ := bind_eq_ok.mp h
      cases h
      exact (responseHandler_frame hres).setThread _
    · cases h
      exact .rfl
  | transfer t attempt initOk putOk =>
    unfold step at h
    dsimp only at h
    split at h
    · obtain ⟨_, _, h⟩ := bind_eq_ok.mp h
      cases h
      exact submitSection_frame attempt initOk putOk
    · cases h
      exact .rfl
  | remove t =>
    unfold step at h
    dsimp only at h
    split at h
    · cases h
      exact Frame.rfl.setThread _
    · obtain ⟨_, _, h⟩ := bind_eq_ok.mp h
      split_ifs at h
      · cases h
        exact (Frame.rfl.mark _).setThread _
      · cases h
        exact Frame.rfl.setThread _
    · cases h
      exact .rfl
  | prune t => cases hl

theorem prune_keeps (h : step (.prune t) s = .ok (es, s')) :
    (∀ u, u ≠ t → s'.threads u = s.threads u) ∧ ∀ i ∈ s.poolItems, i ∉ s.marked → i ∈ s'.poolItems := by
  by_cases hguard : s.threads t = .prune ∧ ∀ u, (s.threads u).reading = false
  · rw [step, if_pos hguard] at h
    obtain ⟨freed, _, h⟩ := bind_eq_ok.mp h
    cases h
    refine ⟨fun u hu => update_of_ne hu .., fun i hi hm => ?_⟩
    obtain ⟨node, hnode, rfl⟩ := mem_map.mp hi
    have hdel : node.del = false := by
      by_contra hdel
      exact hm (mem_map_of_mem (mem_filter.mpr ⟨hnode, by simpa using hdel⟩))
    exact mem_map_of_mem (mem_filter.mpr ⟨hnode, by rw [hdel]; rfl⟩)
  · rw [step, if_neg hguard] at h
    cases h
    exact ⟨fun _ _ => rfl, fun i hi _ => hi⟩

end

namespace Ledger
variable {notify : Bool} {L L' : Ledger} {l : Life} {acts : List Act}

theorem Move.settled (hm : Move notify L acts L') (h : Good notify L l) (hh : L.height = 4) :
    L'.height = 4 ∧ (acts = [] ∨ acts = [.touched] ∨ L.marked = 1 ∧ acts = [.destroyed]) := by
  have hstatus : ∀ st : Status, st.rank ≠ 4 → L.status ≠ some st := fun st hst hs =>
    hst ((height_of_status hs).symm.trans hh)
  have hasked : ¬0 < L.asking + L.requesting := fun hp => hstatus _ (by decide) (h.asked hp)
  have hsent : ¬0 < L.queued + L.sending := fun hp => hstatus _ (by decide) (h.sent hp)
  have hnew : L.status ≠ none := by
    intro hs
    rw [height, hs] at hh
    cases hh
  have hclaims := h.claims
  cases hm with
  | look => exact ⟨hh, .inr (.inl rfl)⟩
  | refuse st hs | hit k hs | miss k hs => exact absurd hs hnew
  | popRequest hp | dropRequest hp | request hp | requestFail hp => exact absurd hp (by omega)
  | respond k hs => exact absurd hs (hstatus _ (by decide))
  | popSubmit hp | dropSubmit hp | submit st sent kept hp => exact absurd hp (by omega)
  | mark => exact ⟨hh, .inr (.inl rfl)⟩
  | giveUp => exact ⟨hh, .inl rfl⟩
  | prune =>
    refine ⟨hh, ?_⟩
    have hone : L.marked = 0 ∨ L.marked = 1 := by omega
    rcases hone with hzero | hone
    · rw [hzero]
      exact .inl rfl
    · rw [hone]
      exact .inr (.inr ⟨rfl, rfl⟩)

theorem run_touched_notice {called : Bool}
    (h : Monitor.run (Life.next notify) Life.fresh (acts ++ notice called) = some l) (hd : l.destroyed = false) :
    Monitor.run (Life.next notify) Life.fresh (acts ++ .touched :: notice called) = some l := by
  rw [Monitor.run_append, bind_eq_some_iff] at h
  obtain ⟨m, hm, hnotice⟩ := h
  have halive : m.destroyed = false := by
    cases called with
    | false =>
      obtain rfl := some.inj hnotice
      exact hd
    | true =>
      obtain ⟨m', hm', _⟩ := bind_eq_some_iff.mp hnotice
      exact (Life.next_eq_some.mp hm').1
  rw [Monitor.run_append, hm, bind_some, run_touched halive]
  exact hnotice

end Ledger

section
variable {n : ℕ} {notify : ℕ → Bool} {es : List Event} {s : Shutdown n} {t : Fin n} {i : ℕ}

/-- What a thread in the abandonment has in its hands. -/
def Place.Fits (s : State n) (pc : Pc) : Place → Prop
  | .out | .round _ => True
  | .search _ rest => pc = .idle ∧ rest <:+ s.poolItems
  | .found _ i => pc = .idle ∧ i ∈ s.poolItems
  | .abandoned _ i => pc = .destroy i

def Shutdown.due (s : Shutdown n) (notify : Bool) (i : ℕ) : List Act :=
  Ledger.notice (notify && decide (0 < holders (Place.owes i) s.places))

/-- The life of an item, with the callback that is due counted in. -/
def Lives (notify : Bool) (es : List Event) (s : Shutdown n) (i : ℕ) : Prop :=
  ∃ l, Monitor.run (Life.next notify) Life.fresh (acts i es ++ s.due notify i) = some l ∧
    Ledger.Good notify (ledger s.pipeline i) l ∧
      (i ∈ s.abandoned → (ledger s.pipeline i).height = 4 ∧ l.published = false)

structure Abandons (notify : ℕ → Bool) (es : List Event) (s : Shutdown n) : Prop where
  scans : Scans s.pipeline
  notified : ∀ i, (s.pipeline.items i).submittedCallback = notify i
  fits : ∀ t, (s.places t).Fits s.pipeline (s.pipeline.threads t)
  lives : ∀ i, Lives (notify i) es s i

theorem due_eq_nil (h : holders (Place.owes i) s.places = 0) (notify : Bool) : s.due notify i = [] := by
  rw [Shutdown.due, h]
  simp [Ledger.notice]

theorem due_eq_notice (h : 0 < holders (Place.owes i) s.places) (notify : Bool) :
    s.due notify i = Ledger.notice notify := by
  rw [Shutdown.due, decide_eq_true h, Bool.and_true]

namespace Abandons

section
variable (h : Abandons notify es s)
include h

theorem ledgers : Ledgers s.pipeline := by
  intro i
  obtain ⟨l, _, hg, _⟩ := h.lives i
  exact ⟨l, h.notified i ▸ hg⟩

theorem owes_le_closing (i : ℕ) :
    holders (Place.owes i) s.places ≤ (ledger s.pipeline i).closing := by
  have howes : ∀ t, (s.places t).owes i → (s.pipeline.threads t).closes i := by
    intro t ht
    have hfit := h.fits t
    cases hp : s.places t with
    | abandoned context j =>
      rw [hp] at ht hfit
      have hpc : s.pipeline.threads t = .destroy j := hfit
      rw [hpc]
      exact ht
    | out | round _ | search _ _ | found _ _ => rw [hp] at ht; cases ht
  exact holders_mono howes id

theorem setPlace (hfit : place.Fits s.pipeline (s.pipeline.threads t))
    (howes : ∀ i, place.owes i = (s.places t).owes i) : Abandons notify es (s.setPlace t place) := by
  refine ⟨h.scans, h.notified, fun u => ?_, fun i => ?_⟩
  · by_cases hu : u = t
    · subst hu
      have hself : (s.setPlace u place).places u = place := update_self ..
      rw [hself]
      exact hfit
    · have hother : (s.setPlace t place).places u = s.places u := update_of_ne hu ..
      rw [hother]
      exact h.fits u
  · have hsame : holders (Place.owes i) (s.setPlace t place).places = holders (Place.owes i) s.places :=
      holders_same (howes i)
    obtain ⟨l, hrun, hg, hab⟩ := h.lives i
    refine ⟨l, ?_, hg, hab⟩
    rw [Shutdown.due, hsame]
    exact hrun

theorem touched (hfree : i ∉ s.pipeline.freed) :
    Abandons notify (es ++ [.touched i]) s := by
  refine ⟨h.scans, h.notified, h.fits, fun j => ?_⟩
  obtain ⟨l, hrun, hg, hab⟩ := h.lives j
  refine ⟨l, ?_, hg, hab⟩
  rw [acts_append]
  by_cases hj : j = i
  · subst hj
    rw [acts_touched, append_assoc]
    exact Ledger.run_touched_notice hrun (hg.alive (freed_eq_zero hfree))
  · rw [acts_touched_of_ne hj]
    exact (append_nil (acts j es)).symm ▸ hrun

theorem inside (hi : i ∈ s.pipeline.poolItems) : i ∉ s.pipeline.freed :=
  fun hf => h.scans.gone i hf hi

variable {es' : List Event}

theorem lives_moved
    (hmoved : Moved s.pipeline es' p i) : Lives (notify i) (es ++ es') { s with pipeline := p } i := by
  obtain ⟨l, hrun, hg, hab⟩ := h.lives i
  rcases hmoved with ⟨hacts, hsame⟩ | hmove
  · refine ⟨l, ?_, hsame ▸ hg, fun hi => hsame ▸ hab hi⟩
    rw [acts_append, hacts, append_nil]
    exact hrun
  · rw [h.notified i] at hmove
    obtain ⟨l', hrun', hg'⟩ := hmove.good hg
    by_cases hdue : 0 < holders (Place.owes i) s.places
    · have hclosing := h.owes_le_closing i
      have hclaims := hg.claims
      obtain ⟨hheight, hacts⟩ := hmove.settled hg (hg.closed (by omega))
      rcases hacts with hacts | hacts | ⟨hmarked, _⟩
      · rw [hacts] at hrun'
        obtain rfl := some.inj hrun'
        refine ⟨l, ?_, hg', fun hi => ⟨hheight, (hab hi).2⟩⟩
        rw [acts_append, hacts, append_nil]
        exact hrun
      · rw [hacts, Ledger.run_touched (hg.alive (by omega))] at hrun'
        obtain rfl := some.inj hrun'
        refine ⟨l, ?_, hg', fun hi => ⟨hheight, (hab hi).2⟩⟩
        rw [acts_append, hacts, append_assoc]
        exact Ledger.run_touched_notice hrun (hg.alive (by omega))
      · omega
    · have hnil : s.due (notify i) i = [] := due_eq_nil (Nat.eq_zero_of_not_pos hdue) _
      have hnil' : { s with pipeline := p }.due (notify i) i = [] := hnil
      rw [hnil, append_nil] at hrun
      refine ⟨l', ?_, hg', fun hi => ?_⟩
      · rw [hnil', append_nil, acts_append, Monitor.run_append, hrun]
        exact hrun'
      · obtain ⟨hheight, hpublished⟩ := hab hi
        obtain ⟨hheight', hacts⟩ := hmove.settled hg hheight
        refine ⟨hheight', ?_⟩
        rcases hacts with hacts | hacts | ⟨_, hacts⟩
        · rw [hacts] at hrun'
          exact some.inj hrun' ▸ hpublished
        · rw [hacts] at hrun'
          obtain ⟨m, hnext, hend⟩ := bind_eq_some_iff.mp hrun'
          obtain ⟨_, _, rfl⟩ := Life.next_eq_some.mp hnext
          exact some.inj hend ▸ hpublished
        · rw [hacts] at hrun'
          obtain ⟨m, hnext, hend⟩ := bind_eq_some_iff.mp hrun'
          obtain ⟨_, _, rfl⟩ := Life.next_eq_some.mp hnext
          exact some.inj hend ▸ hpublished

theorem fits_worker
    (hfree : s.free l.thread) (hwrites : l.writes → ∀ u, (s.places u).searching = false)
    (hwaits : (Deed.worker l).Waits s) (hstep : step l s.pipeline = .ok (es', p)) (u : Fin n) :
    (s.places u).Fits p (p.threads u) := by
  have hfit := h.fits u
  by_cases hu : u = l.thread
  · subst hu
    unfold Shutdown.free at hfree
    split at hfree
    · rename_i hp
      rw [hp]
      trivial
    · rename_i hp
      rw [hp]
      trivial
    · cases hfree
  · cases hl : l.writes with
    | false =>
      obtain ⟨hthreads, hpool⟩ := step_frame hl hstep
      rw [hthreads u hu]
      cases hp : s.places u with
      | out | round context => trivial
      | search context rest =>
        rw [hp] at hfit
        exact ⟨hfit.1, hpool ▸ hfit.2⟩
      | found context i =>
        rw [hp] at hfit
        exact ⟨hfit.1, hpool ▸ hfit.2⟩
      | abandoned context i =>
        rw [hp] at hfit
        exact hfit
    | true =>
      cases l with
      | prune t =>
        obtain ⟨hthreads, hpool⟩ := prune_keeps hstep
        rw [hthreads u hu]
        cases hp : s.places u with
        | out | round context => trivial
        | search context rest =>
          have hnone := hwrites rfl u
          rw [hp] at hnone
          cases hnone
        | found context i =>
          rw [hp] at hfit
          exact ⟨hfit.1, hpool i hfit.2 (hwaits t rfl u context i hp)⟩
        | abandoned context i =>
          rw [hp] at hfit
          exact hfit
      | submit | popRequest | request | receive | respond | popSubmit | transfer | destroy | remove => cases hl

theorem worker (hfree : s.free l.thread) (hwrites : l.writes → ∀ u, (s.places u).searching = false)
    (hwaits : (Deed.worker l).Waits s) (hstep : step l s.pipeline = .ok (es', p)) :
    Abandons notify (es ++ es') { s with pipeline := p } := by
  have htrans := step_trans hstep
  refine ⟨htrans.scans h.scans h.ledgers, fun i => ?_, h.fits_worker hfree hwrites hwaits hstep, fun i => ?_⟩
  · exact (congrArg Prod.fst (htrans.identity i)).trans (h.notified i)
  · exact h.lives_moved (htrans.moved h.scans h.ledgers i)

variable {context : ℕ}

theorem submitted_of_stuck (hi : i ∈ s.pipeline.poolItems)
    (hstuck : s.stuck context i) :
    i ∈ s.pipeline.submitted ∧ (s.pipeline.items i).getStatus = Status.checkingGlobalCache.code := by
  have hst : (s.pipeline.items i).getStatus = Status.checkingGlobalCache.code := by
    have hboth := Bool.and_eq_true_iff.mp hstuck
    exact beq_iff_eq.mp hboth.2
  refine ⟨?_, hst⟩
  by_contra hout
  exact h.scans.waiting i hi hout hst

end

theorem ledger_giveUp (hidle : s.pipeline.threads t = .idle) (hsub : i ∈ s.pipeline.submitted) (context : ℕ) :
    ledger (s.giveUp t context i).pipeline i = { ledger s.pipeline i with
      status := some .error, closing := (ledger s.pipeline i).closing + 1 } := by
  rw [Shutdown.giveUp, ledger_setThread, ledger_setItem_self hsub, setItem_threads, hidle]
  ext1 <;> first | rfl | simp [Pc.closes]

theorem ledger_giveUp_of_ne (hji : j ≠ i) (hidle : s.pipeline.threads t = .idle) (context : ℕ) :
    ledger (s.giveUp t context i).pipeline j = ledger s.pipeline j := by
  rw [Shutdown.giveUp, ledger_setThread_same, ledger_setItem_of_ne hji]
  simp [hidle, Pc.requests, Pc.sends, Pc.closes, Ne.symm hji]

section
variable (h : Abandons notify es s)
include h

theorem giveUp (hplace : s.places t = .found context i)
    (hstuck : s.stuck context i) :
    Abandons notify (es ++ [.touched i, .status i .error]) (s.giveUp t context i) := by
  have hfit := h.fits t
  rw [hplace] at hfit
  obtain ⟨hidle, hin⟩ := hfit
  obtain ⟨hsub, hst⟩ := h.submitted_of_stuck hin hstuck
  have hscans : Scans (s.giveUp t context i).pipeline :=
    (h.scans.setItem_old hsub s.pipeline.submitQueue s.pipeline.caches s.pipeline.storedLocality _).setThread_out
      rfl
  refine ⟨hscans, fun j => ?_, fun u => ?_, fun j => ?_⟩
  · have hsame : ((s.pipeline.items i).setStatus .error).identity = (s.pipeline.items i).identity := rfl
    exact (congrArg Prod.fst (update_identity hsame j)).trans (h.notified j)
  · by_cases hu : u = t
    · subst hu
      simp [Shutdown.giveUp, State.setThread, Place.Fits]
    · have hother : (s.giveUp t context i).places u = s.places u := update_of_ne hu ..
      have hthread : (s.giveUp t context i).pipeline.threads u = s.pipeline.threads u := update_of_ne hu ..
      rw [hother, hthread]
      exact h.fits u
  · obtain ⟨l, hrun, hg, hab⟩ := h.lives j
    have howes : holders (Place.owes j) (s.giveUp t context i).places =
        holders (Place.owes j) s.places + (i == j).toNat := by
      have hup := holders_update (Place.owes j) s.places t (.abandoned context i)
      rw [hplace] at hup
      exact hup
    by_cases hj : j = i
    · subst hj
      have hstatus : (ledger s.pipeline j).status = some .checkingGlobalCache := by
        simp [ledger, statusOf, hsub, hst]
      have hclosing := h.owes_le_closing j
      have hclaims := (hg.unclaimed (.inr hstatus)).1
      obtain ⟨l', hrun', hg', hpublished⟩ := hg.close (.inr hstatus) (show Status.error.rank = 4 from rfl)
      rw [due_eq_nil (by omega), append_nil] at hrun
      refine ⟨l', ?_, ?_, fun _ => ⟨?_, hpublished⟩⟩
      · rw [due_eq_notice (by rw [howes]; simp), acts_append, acts_touched, acts_status, append_assoc,
          Monitor.run_append, hrun]
        exact hrun'
      · rw [ledger_giveUp hidle hsub]
        exact hg'
      · rw [ledger_giveUp hidle hsub]
        rfl
    · have hne : (i == j) = false := beq_eq_false_iff_ne.mpr (.symm hj)
      rw [hne] at howes
      refine ⟨l, ?_, ?_, fun hi => ?_⟩
      · rw [Shutdown.due, howes, acts_append, acts_touched_of_ne hj, acts_status_of_ne hj]
        simpa [acts, Shutdown.due] using hrun
      · rw [ledger_giveUp_of_ne hj hidle]
        exact hg
      · rw [ledger_giveUp_of_ne hj hidle]
        exact hab ((mem_cons.mp hi).resolve_left hj)

theorem owes_one (hplace : s.places t = .abandoned context i) :
    holders (Place.owes i) s.places = 1 ∧ i ∉ s.pipeline.freed := by
  have hpos : 0 < holders (Place.owes i) s.places := holders_pos (t := t) (by simp [hplace, Place.owes])
  obtain ⟨l, _, hg, _⟩ := h.lives i
  have hclosing := h.owes_le_closing i
  have hclaims := hg.claims
  refine ⟨by omega, count_eq_zero.mp ?_⟩
  show (ledger s.pipeline i).freed = 0
  omega

theorem callback (hplace : s.places t = .abandoned context i) :
    Abandons notify (es ++ .touched i :: callbackEvents i (s.pipeline.items i)) (s.setPlace t (.round context)) := by
  obtain ⟨hone, hfree⟩ := h.owes_one hplace
  refine ⟨h.scans, h.notified, fun u => ?_, fun j => ?_⟩
  · by_cases hu : u = t
    · subst hu
      simp [Shutdown.setPlace, Place.Fits]
    · have hother : (s.setPlace t (.round context)).places u = s.places u := update_of_ne hu ..
      rw [hother]
      exact h.fits u
  · obtain ⟨l, hrun, hg, hab⟩ := h.lives j
    refine ⟨l, ?_, hg, hab⟩
    have howes := holders_update (Place.owes j) s.places t (.round context)
    rw [hplace] at howes
    by_cases hj : j = i
    · subst hj
      have hzero : holders (Place.owes j) (s.setPlace t (.round context)).places = 0 := by
        rw [hone] at howes
        simpa [Place.owes, Shutdown.setPlace] using howes
      rw [due_eq_notice (by rw [hone]; exact Nat.one_pos)] at hrun
      rw [due_eq_nil hzero, append_nil, acts_append, acts_touched, acts_callback, h.notified j]
      exact Ledger.run_touched_notice hrun (hg.alive (freed_eq_zero hfree))
    · have hne : (Place.abandoned context i).owes j = false := beq_eq_false_iff_ne.mpr (.symm hj)
      rw [hne] at howes
      have hsame : holders (Place.owes j) (s.setPlace t (.round context)).places =
          holders (Place.owes j) s.places := howes
      rw [Shutdown.due, hsame, acts_append, acts_touched_of_ne hj, acts_callback_of_ne hj, append_nil]
      exact hrun

theorem call_safe (d : Deed n) : Safe (d.call s) := by
  cases d with
  | worker l =>
    unfold Deed.call
    dsimp only
    split_ifs
    · exact (step_safe h.scans h.ledgers l).bind fun _ => .ok _
    · exact .ok _
  | abandon t context =>
    unfold Deed.call
    dsimp only
    split_ifs <;> exact .ok _
  | forEach t =>
    unfold Deed.call
    dsimp only
    split
    · split_ifs <;> exact .ok _
    · exact .ok _
  | find t =>
    unfold Deed.call
    dsimp only
    split
    · exact .ok _
    · rename_i context i rest hplace
      have hfit := h.fits t
      rw [hplace] at hfit
      have hin : i ∈ s.pipeline.poolItems := hfit.2.subset mem_cons_self
      refine (Safe.touch (h.inside hin)).bind fun _ => ?_
      split_ifs <;> exact .ok _
    · exact .ok _
  | lock t =>
    unfold Deed.call
    dsimp only
    split
    · rename_i context i hplace
      have hfit := h.fits t
      rw [hplace] at hfit
      refine (Safe.touch (h.inside hfit.2)).bind fun _ => ?_
      split_ifs <;> exact .ok _
    · exact .ok _
  | callback t =>
    unfold Deed.call
    dsimp only
    split
    · rename_i context i hplace
      exact (Safe.touch (h.owes_one hplace).2).bind fun _ => .ok _
    · exact .ok _

theorem call {s' : Shutdown n} {d : Deed n} (hwaits : d.Waits s)
    (hcall : d.call s = .ok (es', s')) : Abandons notify (es ++ es') s' := by
  have hstay : Abandons notify (es ++ []) s := (append_nil es).symm ▸ h
  cases d with
  | worker l =>
    unfold Deed.call at hcall
    dsimp only at hcall
    split_ifs at hcall with hguard
    · obtain ⟨⟨es₁, p⟩, hstep, hcall⟩ := bind_eq_ok.mp hcall
      cases hcall
      exact h.worker hguard.1 hguard.2 hwaits hstep
    · cases hcall
      exact hstay
  | abandon t context =>
    unfold Deed.call at hcall
    dsimp only at hcall
    split_ifs at hcall with hguard
    · cases hcall
      refine hstay.setPlace trivial fun i => ?_
      rw [hguard.1]
      rfl
    · cases hcall
      exact hstay
  | forEach t =>
    unfold Deed.call at hcall
    dsimp only at hcall
    split at hcall
    · rename_i context hplace
      split_ifs at hcall with hidle
      · cases hcall
        refine hstay.setPlace ⟨hidle, suffix_refl _⟩ fun i => ?_
        rw [hplace]
        rfl
      · cases hcall
        exact hstay
    · cases hcall
      exact hstay
  | find t =>
    unfold Deed.call at hcall
    dsimp only at hcall
    have hfit := h.fits t
    split at hcall
    · rename_i context hplace
      cases hcall
      refine hstay.setPlace trivial fun i => ?_
      rw [hplace]
      rfl
    · rename_i context i rest hplace
      rw [hplace] at hfit
      have hin : i ∈ s.pipeline.poolItems := hfit.2.subset mem_cons_self
      have htouched := h.touched (h.inside hin)
      obtain ⟨_, _, hcall⟩ := bind_eq_ok.mp hcall
      split_ifs at hcall
      · cases hcall
        refine htouched.setPlace ⟨hfit.1, hin⟩ fun i => ?_
        rw [hplace]
        rfl
      · cases hcall
        refine htouched.setPlace ⟨hfit.1, (suffix_cons i rest).trans hfit.2⟩ fun i => ?_
        rw [hplace]
        rfl
    · cases hcall
      exact hstay
  | lock t =>
    unfold Deed.call at hcall
    dsimp only at hcall
    have hfit := h.fits t
    split at hcall
    · rename_i context i hplace
      obtain ⟨_, _, hcall⟩ := bind_eq_ok.mp hcall
      split_ifs at hcall with hstuck
      · cases hcall
        exact h.giveUp hplace hstuck
      · cases hcall
        rw [hplace] at hfit
        refine (h.touched (h.inside hfit.2)).setPlace trivial fun i => ?_
        rw [hplace]
        rfl
    · cases hcall
      exact hstay
  | callback t =>
    unfold Deed.call at hcall
    dsimp only at hcall
    split at hcall
    · rename_i context i hplace
      obtain ⟨_, _, hcall⟩ := bind_eq_ok.mp hcall
      cases hcall
      exact h.callback hplace
    · cases hcall
      exact hstay

end

theorem init (hids : ids.Nodup) (hst : ∀ i ∈ ids, (items i).getStatus = Status.collecting.code ∨
      (items i).getStatus = Status.finalized.code) (caches : LocalCache.Caches) :
    Abandons (fun i => (items i).submittedCallback) [] (Shutdown.init items ids caches : Shutdown n) := by
  obtain ⟨hscans, hnotified, hlives⟩ := Inv.init hids hst caches
  refine ⟨hscans, hnotified, fun _ => trivial, fun i => ?_⟩
  obtain ⟨l, hrun, hg⟩ := hlives i
  refine ⟨l, ?_, hg, (fun hi => nomatch hi)⟩
  have hnone : holders (Place.owes i) (.init items ids caches : Shutdown n).places = 0 :=
    holders_eq_zero fun _ => rfl
  rw [due_eq_nil hnone]
  exact hrun

theorem exactlyOnce (h : Abandons notify es s) (i : ℕ) : ExactlyOnce (notify i) (acts i es) := by
  obtain ⟨l, hrun, _⟩ := h.lives i
  rw [Monitor.run_append, bind_eq_some_iff] at hrun
  obtain ⟨m, hm, _⟩ := hrun
  exact Life.exactlyOnce_of_run hm

theorem unpublished (h : Abandons notify es s) (hi : i ∈ s.abandoned) : .published ∉ acts i es := by
  obtain ⟨l, hrun, _, hab⟩ := h.lives i
  have hcount : (acts i es ++ s.due (notify i) i).count .published = l.published.toNat := by
    refine Life.count_flag Life.published .published rfl (fun _ => rfl) (fun _ => rfl) (fun l b hb => ?_) hrun
    cases b <;> first | rfl | exact absurd rfl hb
  rw [(hab hi).2, count_append] at hcount
  exact count_eq_zero.mp (Nat.eq_zero_of_add_eq_zero_right hcount)

end Abandons

end

/-- In every run of the pipeline beside any number of threads that abandon the
lookups of any contexts, in which no item is taken from the pool between a thread's
finding and locking it, no destroyed item is locked, read, called back or destroyed
again; every item's callback runs once at most and before the item is destroyed;
and no item that was given up was published. -/
theorem abandonment_safe {n : ℕ} (items : ℕ → Item) (ids : List ℕ) (caches : LocalCache.Caches)
    (hids : ids.Nodup) (hst : ∀ i ∈ ids, (items i).getStatus = Status.collecting.code ∨
      (items i).getStatus = Status.finalized.code) (ds : List (Deed n))
    (hwaits : Along Deed.Waits Deed.call ds (Shutdown.init items ids caches)) :
    run Deed.call ds (Shutdown.init items ids caches) ≠ .error .useAfterFree ∧
      ∀ rs s, run Deed.call ds (Shutdown.init items ids caches) = .ok (rs, s) → ∀ i,
        ExactlyOnce (items i).submittedCallback (acts i rs.flatten) ∧
          (i ∈ s.abandoned → .published ∉ acts i rs.flatten) := by
  have hinit : Abandons (fun i => (items i).submittedCallback) [] (Shutdown.init items ids caches : Shutdown n) :=
    .init hids hst caches
  refine ⟨?_, fun rs s hr i => ?_⟩
  · refine along_ne_error (I := fun s => ∃ es, Abandons (fun i => (items i).submittedCallback) es s)
      ?_ ?_ ds ⟨[], hinit⟩ hwaits
    · rintro d s es s' ⟨es₀, hs⟩ hd hcall
      exact ⟨es₀ ++ es, hs.call hd hcall⟩
    · rintro d s ⟨es₀, hs⟩ _
      exact hs.call_safe d
  · have hend := run_events (I := Abandons fun i => (items i).submittedCallback)
      (fun es d s es' s' hs hd hcall => hs.call hd hcall) hinit hwaits hr
    exact ⟨hend.exactlyOnce i, hend.unpublished⟩

/-- A lookup that is given up, up to the callback. -/
theorem abandonment_safe_one :
    run Deed.call [.worker (.submit 0 0 0 false true fun _ _ _ => 0), .worker (.popRequest 0),
        .worker (.request 0 true), .abandon 1 0, .forEach 1, .find 1, .lock 1, .callback 1]
        (Shutdown.init (fun _ => ⟨0x02, true, true, 0, ⟨[1], 1, 1⟩, none⟩) [0]
          (LocalCache.initcache (fun _ _ => LocalCache.blankEntry) 1 1) : Shutdown 2) ≠
        .error .useAfterFree ∧
      ∀ rs s, run Deed.call [.worker (.submit 0 0 0 false true fun _ _ _ => 0), .worker (.popRequest 0),
          .worker (.request 0 true), .abandon 1 0, .forEach 1, .find 1, .lock 1, .callback 1]
          (Shutdown.init (fun _ => ⟨0x02, true, true, 0, ⟨[1], 1, 1⟩, none⟩) [0]
            (LocalCache.initcache (fun _ _ => LocalCache.blankEntry) 1 1) : Shutdown 2) = .ok (rs, s) → ∀ i,
        ExactlyOnce true (acts i rs.flatten) ∧ (i ∈ s.abandoned → .published ∉ acts i rs.flatten) := by
  refine abandonment_safe (fun _ => ⟨0x02, true, true, 0, ⟨[1], 1, 1⟩, none⟩) [0]
    (LocalCache.initcache (fun _ _ => LocalCache.blankEntry) 1 1) (by decide) (fun _ _ => .inr (by decide)) _ ?_
  refine (along_of_forall (p := fun d => ∀ t, d ≠ .worker (.prune t)) ?_).mono fun d s hd t ht => absurd ht (hd t)
  simp

/-- A late response lets the submit worker publish and destroy the item that the
shutting down thread has found, before that thread locks it. -/
theorem found_item_freed :
    run Deed.call [.worker (.submit 0 0 0 false true fun _ _ _ => 0), .worker (.popRequest 0),
      .worker (.request 0 true), .abandon 1 0, .forEach 1, .find 1,
      .worker (.receive 0 ⟨⟨[1], 1, 1⟩, 0, 0, 0⟩), .worker (.respond 0 true true),
      .worker (.respond 0 true true), .worker (.popSubmit 0),
      .worker (.transfer 0 (fun _ => none) true true), .worker (.destroy 0), .worker (.remove 0),
      .worker (.remove 0), .worker (.prune 0), .lock 1]
      (Shutdown.init (fun _ => ⟨0x02, true, true, 0, ⟨[1], 1, 1⟩, none⟩) [0]
        (LocalCache.initcache (fun _ _ => LocalCache.blankEntry) 1 1) : Shutdown 2) =
      .error .useAfterFree := by
  rfl

end Razorback.Submission
