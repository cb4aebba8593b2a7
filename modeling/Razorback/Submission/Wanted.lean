import Razorback.Submission.ExactlyOnce

/-! Which blocks reach a dispatcher that asked for their data. What happens to the
data of one item is a short history: it is queued, with a store to come or without
one, then `Transfer_Store` is tried until a success or until the pipeline gives up.
The history says at every moment whether the data is still on its way. -/

namespace Razorback.Submission
open Runs Razorback.Lists Holders Function List
open Transfer (TransferStatus)

inductive Fate
  | queued (store : Bool) | tried (result : TransferStatus) | gaveUp
  deriving DecidableEq, Repr

def Event.fate (i : ℕ) : Event → Option Fate
  | .pushed j store => if j = i then some (.queued store) else none
  | .stored j result => if j = i then some (.tried result) else none
  | .gaveUp j => if j = i then some .gaveUp else none
  | .touched _ | .status _ _ | .callback _ | .published _ _ _ | .destroyed _ | .hit _
  | .returned _ _ | .received _ | .matched _ _ => none

def fates (i : ℕ) (es : List Event) : List Fate := es.filterMap (Event.fate i)

theorem fates_append (i : ℕ) (es es' : List Event) : fates i (es ++ es') = fates i es ++ fates i es' :=
  filterMap_append

def Fate.event (i : ℕ) : Fate → Event
  | .queued store => .pushed i store
  | .tried result => .stored i result
  | .gaveUp => .gaveUp i

theorem Event.fate_eq_some {i : ℕ} {e : Event} {f : Fate} : e.fate i = some f ↔ e = f.event i := by
  cases e <;> cases f <;> simp [Event.fate, Fate.event]

theorem mem_fates : f ∈ fates i es ↔ f.event i ∈ es := by
  simp only [fates, mem_filterMap, Event.fate_eq_some, exists_eq_right]

theorem fates_callback (i k : ℕ) (item : Item) : fates i (callbackEvents k item) = [] := by
  unfold callbackEvents
  split_ifs <;> rfl

theorem fates_destroyed (i : ℕ) (ks : List ℕ) : fates i (ks.map .destroyed) = [] := by
  rw [fates, filterMap_eq_nil_iff]
  intro e he
  obtain ⟨k, _, rfl⟩ := mem_map.mp he
  rfl

theorem and_or_absorb (a b : UInt32) : (a &&& b) ||| b = b :=
  UInt32.eq_of_toBitVec_eq (by ext j; simp)

theorem Item.needsStore_eventOnly (item : Item) (flags : UInt32) :
    (item.setFlags (flags ||| flagEventOnly)).needsStore = false := by
  have hbit : (item.setFlags (flags ||| flagEventOnly)).iStatus &&& (flagEventOnly ||| flagUpdate) &&&
      flagEventOnly = flagEventOnly := by
    have hboth : (flagEventOnly ||| flagUpdate) &&& flagEventOnly = flagEventOnly := by decide
    have hflag : flagMask &&& flagEventOnly = flagEventOnly := by decide
    have hstatus : statusMask &&& flagEventOnly = 0 := by decide
    rw [UInt32.and_assoc, hboth]
    simp only [setFlags, or_and_distrib, UInt32.and_assoc, hflag, hstatus, UInt32.and_zero,
      UInt32.or_zero, UInt32.and_self, and_or_absorb]
  refine beq_eq_false_iff_ne.mpr fun h => ?_
  rw [h] at hbit
  exact absurd hbit (by decide)

theorem Status.code_of_ofCode (h : ofCode c = some st) : st.code = c :=
  beq_iff_eq.mp (find?_some (p := fun st : Status => st.code == c) h)

section
variable {n : ℕ} {s s' : State n} {es : List Event} {t : Fin n} {i k : ℕ}

def waiting (s : State n) (i : ℕ) : ℕ := s.submitQueue.items.count i + holders (Pc.sends i) s.threads

def height (s : State n) (i : ℕ) : ℕ := (ledger s i).height

inductive Handled (s : State n) (es : List Event) (s' : State n) (i : ℕ) : Prop
  | same (hfates : fates i es = []) (hitem : s'.items i = s.items i)
      (hheight : height s' i = height s i) (hwait : waiting s' i = waiting s i)
  | early (hfates : fates i es = []) (hdata : (s'.items i).hasData = (s.items i).hasData)
      (hheight : height s i < 3) (hheight' : height s' i ≠ 3)
  | push (allocOk : Bool)
      (hfates : fates i es = if allocOk then [.queued (s'.items i).needsStore] else [])
      (hdata : (s'.items i).needsStore = true → (s'.items i).hasData = (s.items i).hasData)
      (hheight : height s i < 3) (hheight' : height s' i = 3)
      (hwait : waiting s' i = waiting s i + allocOk.toNat)
  | settle (results : List TransferStatus) (gave : List Fate)
      (hfates : fates i es = results.map .tried ++ gave) (hwait : 0 < waiting s i)
      (hheight : height s' i = 4)
      (hstored : (s.items i).needsStore = false ∧ results = [] ∧ gave = [] ∨
        (s.items i).needsStore = true ∧ (.ok ∈ results ∧ gave = [] ∨ .ok ∉ results ∧ gave = [.gaveUp]))

theorem Handled.frame (hfates : fates i es = []) (hitem : s'.items i = s.items i)
    (hsub : i ∈ s'.submitted ↔ i ∈ s.submitted)
    (hqueue : s'.submitQueue.items.count i = s.submitQueue.items.count i)
    (hthreads : holders (Pc.sends i) s'.threads = holders (Pc.sends i) s.threads) :
    Handled s es s' i := by
  have hst : statusOf s' i = statusOf s i := by simp only [statusOf, hitem, hsub]
  exact .same hfates hitem (congrArg (fun st => (Option.map Status.rank st).getD 0) hst)
    (congrArg₂ (· + ·) hqueue hthreads)

theorem Handled.look (hfates : fates i es = []) (hpc : pc.sends i = (s.threads t).sends i) :
    Handled s es (s.setThread t pc) i :=
  .frame hfates rfl .rfl rfl (holders_same hpc)

theorem Handled.setThread (h : Handled s es s' i) (hpc : pc.sends i = (s'.threads t).sends i) :
    Handled s es (s'.setThread t pc) i := by
  have hw : waiting (s'.setThread t pc) i = waiting s' i := congrArg _ (holders_same hpc)
  cases h with
  | same hfates hitem hheight hwait => exact .same hfates hitem hheight (hw.trans hwait)
  | early hfates hdata hheight hheight' => exact .early hfates hdata hheight hheight'
  | push allocOk hfates hdata hheight hheight' hwait =>
    exact .push allocOk hfates hdata hheight hheight' (hw.trans hwait)
  | settle results gave hfates hwait hheight hstored =>
    exact .settle results gave hfates hwait hheight hstored

theorem height_new (h : i ∉ s.submitted) : height s i = 0 := by
  rw [height, Ledger.height, statusOf_new h]
  rfl

theorem height_of_code {st : Status} (hsub : i ∈ s.submitted) (hst : (s.items i).getStatus = st.code) :
    height s i = st.rank := by
  refine Ledger.height_of_status ?_
  change statusOf s i = some st
  rw [statusOf, if_pos hsub, hst, Status.ofCode_code]

variable {item : Item}

theorem height_setItem {st : Status} (hsub : k ∈ s.submitted)
    (hst : item.getStatus = st.code) : height (s.setItem k item) k = st.rank :=
  height_of_code hsub (by simpa [State.setItem] using hst)

theorem Ledgers.sending_status (h : Ledgers s) (hpc : s.threads t = .submit i) :
    (s.items i).getStatus = Status.submitData.code := by
  obtain ⟨l, hg⟩ := h i
  have hst : statusOf s i = some .submitData := hg.sent (Nat.add_pos_right _ (sending_pos hpc))
  rw [statusOf, if_pos (h.sending hpc)] at hst
  exact (Status.code_of_ofCode hst).symm

theorem handled_early (st : Status) (hfates : fates i es = [])
    (hsub : submitted = s.submitted ∧ k ∈ s.submitted ∨ submitted = k :: s.submitted)
    (hitem : item.getStatus = st.code ∧ item.hasData = (s.items k).hasData) (hst : st.rank ≠ 3)
    (hheight : height s k < 3) :
    Handled s es ({ s with
      submitted := submitted, caches := caches, requestQueue := requestQueue }.setItem k item) i := by
  by_cases hik : i = k
  · subst hik
    have hmem : i ∈ submitted := by rcases hsub with ⟨rfl, h⟩ | rfl <;> simp_all
    refine .early hfates ?_ hheight ?_
    · simpa [State.setItem] using hitem.2
    · rw [height_setItem (by exact hmem) hitem.1]
      exact hst
  · refine .frame hfates (update_of_ne hik ..) ?_ rfl rfl
    rcases hsub with ⟨rfl, h⟩ | rfl
    · exact .rfl
    · simp [State.setItem, hik]

theorem fates_push {before after : List Event} (hbefore : fates i before = [])
    (hafter : fates i after = []) (k : ℕ) (store allocOk : Bool) :
    fates i (before ++ (if allocOk then [.pushed k store] else []) ++ after) =
      if allocOk ∧ k = i then [.queued store] else [] := by
  rw [fates_append, fates_append, hbefore, hafter]
  cases allocOk <;> simp [fates, filterMap_cons, Event.fate]
  split_ifs <;> rfl

theorem handled_push (allocOk : Bool) (caches : LocalCache.Caches)
    (before after : List Event) (hbefore : fates i before = []) (hafter : fates i after = [])
    (hsub : submitted = s.submitted ∧ k ∈ s.submitted ∨ submitted = k :: s.submitted)
    (hst : item.getStatus = Status.submitData.code)
    (hdata : item.needsStore → item.hasData = (s.items k).hasData) (hheight : height s k < 3) :
    Handled s (before ++ (if allocOk then [.pushed k item.needsStore] else []) ++ after)
      ({ s with
        submitted := submitted
        caches := caches
        submitQueue := if allocOk then s.submitQueue.pushItem k else s.submitQueue }.setItem k item) i := by
  have hfates := fates_push hbefore hafter k item.needsStore allocOk
  by_cases hik : i = k
  · subst hik
    have hmem : i ∈ submitted := by rcases hsub with ⟨rfl, h⟩ | rfl <;> simp_all
    have hself : ∀ s : State n, (s.setItem i item).items i = item := fun s => update_self ..
    refine .push allocOk ?_ ?_ hheight (height_setItem (by exact hmem) hst) ?_
    · rw [hfates, hself]
      simp
    · rw [hself]
      exact hdata
    · rw [waiting, waiting, Nat.add_right_comm, ← count_push_self]
      rfl
  · refine .frame ?_ (update_of_ne hik ..) ?_ (count_push_of_ne hik allocOk _) rfl
    · rw [hfates, if_neg fun h => hik h.2.symm]
    · rcases hsub with ⟨rfl, h⟩ | rfl
      · exact .rfl
      · simp [State.setItem, hik]

theorem handled_settle {results : List TransferStatus} {gave sent : List Event} {st : Status}
    {pc : Pc} {storedLocality : Fin n → UInt8} (hpc : s.threads t = .submit k)
    (hsub : k ∈ s.submitted)
    (hstored : (s.items k).needsStore = false ∧ results = [] ∧ gave = [] ∨
      (s.items k).needsStore ∧ (.ok ∈ results ∧ gave = [] ∨ .ok ∉ results ∧ gave = [.gaveUp k]))
    (hsent : sent = [] ∨ ∃ reason locality, sent = [.published k reason locality])
    (hst : item.getStatus = st.code ∧ st.rank = 4) (hpc' : pc.sends i = false) :
    Handled s (.touched k :: (results.map (.stored k) ++
        (gave ++ (sent ++ .status k st :: callbackEvents k (s.items k)))))
      (({ s with storedLocality := storedLocality }.setItem k item).setThread t pc) i := by
  have hrest : fates i (sent ++ .status k st :: callbackEvents k (s.items k)) = [] := by
    have hcall : fates i (.status k st :: callbackEvents k (s.items k)) = [] := fates_callback i k _
    rw [fates_append, hcall]
    rcases hsent with rfl | ⟨reason, locality, rfl⟩ <;> rfl
  have hfates : fates i (.touched k :: (results.map (.stored k) ++
      (gave ++ (sent ++ .status k st :: callbackEvents k (s.items k))))) =
      fates i (results.map (.stored k)) ++ fates i gave := by
    rw [← append_nil (fates i gave), ← hrest, ← fates_append, ← fates_append]
    rfl
  by_cases hik : i = k
  · subst hik
    have hresults : fates i (results.map (.stored i)) = results.map .tried := by
      rw [fates, filterMap_map, ← filterMap_eq_map]
      exact filterMap_congr fun r _ => if_pos rfl
    refine .settle results (fates i gave) (hfates.trans (by rw [hresults])) ?_ ?_ ?_
    · exact Nat.add_pos_right _ (sending_pos hpc)
    · exact (height_setItem (by exact hsub) hst.1).trans hst.2
    · rcases hstored with ⟨hn, hr, rfl⟩ | ⟨hn, ⟨hok, rfl⟩ | ⟨hok, rfl⟩⟩
      · exact .inl ⟨hn, hr, rfl⟩
      · exact .inr ⟨hn, .inl ⟨hok, rfl⟩⟩
      · exact .inr ⟨hn, .inr ⟨hok, by simp [fates, Event.fate]⟩⟩
  · have hresults : fates i (results.map (.stored k)) = [] := by
      rw [fates, filterMap_map, filterMap_eq_nil_iff]
      exact fun r _ => if_neg (Ne.symm hik)
    have hgave : fates i gave = [] := by
      rcases hstored with ⟨_, _, rfl⟩ | ⟨_, ⟨_, rfl⟩ | ⟨_, rfl⟩⟩
      · rfl
      · rfl
      · simp [fates, Event.fate, Ne.symm hik]
    have hsends : (s.threads t).sends i = false := by simp [hpc, Pc.sends, Ne.symm hik]
    refine .frame (by rw [hfates, hresults, hgave]; rfl) (update_of_ne hik ..) .rfl rfl ?_
    exact holders_same (hpc'.trans hsends.symm)

theorem Trans.handled (h : Trans l s es s') (hs : Scans s) (hl : Ledgers s) (i : ℕ) :
    Handled s es s' i := by
  cases h with
  | stay => exact .frame rfl rfl .rfl rfl rfl
  | refuse t k st result hidle hpool hnew hst hfree =>
    have hf : fates i (callbackEvents k (s.items k) ++ [.returned k result]) = [] := by
      rw [fates_append, fates_callback]
      rfl
    have hrank : st.rank ≠ 3 := by rw [hst.rank]; decide
    refine (handled_early st (by exact hf) (.inr rfl) ⟨Item.getStatus_setStatus .., rfl⟩ hrank
      (by rw [height_new hnew]; decide)).setThread ?_
    simp [hidle, Pc.sends]
  | hit k flags sf ent allocOk caches item hpool hnew hitem hfree =>
    refine handled_push allocOk caches [_, _, _] [_] rfl rfl (.inr rfl) ?_ (fun hneeds => ?_)
      (by rw [height_new hnew]; decide)
    · rw [hitem]
      simp
    · rw [hitem, Item.needsStore_eventOnly] at hneeds
      cases hneeds
  | miss k flags allocOk caches hpool hnew hfree =>
    exact handled_early .checkGlobalCache rfl (.inr rfl) ⟨by simp, rfl⟩ (by decide)
      (by rw [height_new hnew]; decide)
  | popNothing requestQueue submitQueue hrequest hsubmit =>
    exact .frame rfl rfl .rfl (congrArg (count i) hsubmit) rfl
  | popRequest t k queue hidle hqueue hfree =>
    have hq : Handled s [.touched k] { s with requestQueue := queue } i := .frame rfl rfl .rfl rfl rfl
    exact hq.setThread (by simp [hidle, Pc.sends])
  | dropRequest t k hpc hst hfree => exact .look rfl (by simp [hpc, Pc.sends])
  | request t k hpc hst hfree =>
    have hsub := hl.requested hpc
    refine (handled_early .checkingGlobalCache rfl (.inl ⟨rfl, hsub⟩)
      ⟨Item.getStatus_setStatus .., rfl⟩ (by decide) ?_).setThread ?_
    · rw [height_of_code hsub hst]
      decide
    · simp [hpc, Pc.sends]
  | requestFail t k hpc hst hfree =>
    have hsub := hl.requested hpc
    have hitem := Item.getStatus_setStatus ((s.items k).setStatus .checkingGlobalCache) .error
    refine (handled_early .error (by exact fates_callback i k _) (.inl ⟨rfl, hsub⟩)
      ⟨hitem, rfl⟩ (by decide) ?_).setThread ?_
    · rw [height_of_code hsub hst]
      decide
    · simp [hpc, Pc.sends]
  | receive t res hidle => exact .look rfl (by simp [hidle, Pc.sends])
  | respondEnd t res hpc => exact .look rfl (by simp [hpc, Pc.sends])
  | respondSkip t res k rest hpc hfree => exact .look rfl (by simp [hpc, Pc.sends])
  | respond t res k rest allocOk caches item hpc hst hcontext hid hitem hfree =>
    have hsub : k ∈ s.submitted := by
      by_contra hout
      exact hs.waiting k (hs.ahead (by rw [hpc]; rfl)) hout hst
    have hitem' : item.getStatus = Status.submitData.code ∧ item.hasData = (s.items k).hasData := by
      rw [hitem]
      split_ifs
      · exact ⟨by simp, rfl⟩
      · exact ⟨by simp, rfl⟩
    have hpush := handled_push (i := i) allocOk caches
      [.touched k, .matched k res, .status k .submitData] [] rfl rfl (.inl ⟨rfl, hsub⟩) hitem'.1 (fun _ => hitem'.2)
      (by rw [height_of_code hsub hst]; decide)
    rw [append_nil] at hpush
    exact hpush.setThread (by simp [hpc, Pc.sends])
  | popSubmit t k queue hidle hqueue hfree =>
    refine .same rfl rfl rfl ?_
    have hcount := hqueue.count_eq i
    rw [count_cons] at hcount
    have hgain := holders_update (Pc.sends i) s.threads t (.submit k)
    simp only [hidle, Pc.sends, Bool.toNat_false, Nat.add_zero] at hgain
    change queue.items.count i + holders (Pc.sends i) (update s.threads t (.submit k)) = _
    rw [waiting, hcount, hgain]
    cases k == i
    · simp
    · simp
      omega
  | dropSubmit t k hpc hst hfree => exact absurd (hl.sending_status hpc) hst
  | submit t k results gave sent st item pc storedLocality hpc hst hstored hsent hfinal hitem =>
    refine handled_settle hpc (hl.sending hpc) hstored hsent ⟨?_, hfinal.rank⟩ ?_
    · rcases hitem with ⟨rfl, _⟩ | ⟨rfl, _⟩ <;> simp
    · rcases hitem with ⟨_, rfl⟩ | ⟨_, rfl⟩ <;> rfl
  | destroy t k hpc => exact .look rfl (by simp [hpc, Pc.sends])
  | removeEnd t k del hpc => exact .look rfl (by cases del <;> simp [hpc, Pc.sends])
  | removeSkip t k j rest del hpc hne hfree => exact .look rfl (by simp [hpc, Pc.sends])
  | removeMark t k rest del hpc hfree =>
    have hm : Handled s [.touched k] (s.mark k) i := .frame rfl rfl .rfl rfl rfl
    exact hm.setThread (by simp [State.mark, hpc, Pc.sends])
  | prune t freed hpc hread hfree =>
    have hp : Handled s (s.marked.map .destroyed)
        { s with freed := freed, pool := s.pool.filter fun node => !node.del } i :=
      .frame (fates_destroyed i _) rfl .rfl rfl rfl
    exact hp.setThread (by simp [hpc, Pc.sends])

/-- The history of an item's data so far, as the state shows it; `had` if the item
came with data. -/
inductive History (had : Bool) (s : State n) (i : ℕ) : List Fate → Prop
  | before (hheight : height s i < 3) (hdata : (s.items i).hasData = had) : History had s i []
  | lost (hheight : height s i = 3) (hwait : waiting s i = 0) : History had s i []
  | queued (hheight : height s i = 3) (hwait : 0 < waiting s i)
      (hdata : (s.items i).needsStore = true → (s.items i).hasData = had) :
      History had s i [.queued (s.items i).needsStore]
  | closed (hheight : height s i = 4) : History had s i []
  | told (hheight : height s i = 4) : History had s i [.queued false]
  | tried (results : List TransferStatus) (gave : List Fate) (hheight : height s i = 4)
      (hstored : .ok ∈ results ∧ gave = [] ∨ .ok ∉ results ∧ gave = [.gaveUp]) :
      History had s i (.queued true :: (results.map .tried ++ gave))

theorem Ledgers.waiting_height (h : Ledgers s) (hw : 0 < waiting s i) : height s i = 3 := by
  obtain ⟨l, hg⟩ := h i
  exact Ledger.height_of_status (hg.sent hw)

theorem height_le (s : State n) (i : ℕ) : height s i ≤ 4 := by
  rw [height, Ledger.height]
  cases (ledger s i).status with
  | none => exact Nat.zero_le 4
  | some st => cases st <;> decide

variable {fs : List Fate}

theorem History.same (h : History had s i fs)
    (hitem : s'.items i = s.items i) (hheight : height s' i = height s i)
    (hwait : waiting s' i = waiting s i) : History had s' i fs := by
  cases h with
  | before hh hd => exact .before (hheight ▸ hh) (hitem ▸ hd)
  | lost hh hw => exact .lost (hheight.trans hh) (hwait.trans hw)
  | queued hh hw hd =>
    rw [← hitem] at hd ⊢
    exact .queued (hheight.trans hh) (hwait ▸ hw) hd
  | closed hh => exact .closed (hheight.trans hh)
  | told hh => exact .told (hheight.trans hh)
  | tried results gave hh hstored => exact .tried results gave (hheight.trans hh) hstored

theorem History.of_low (h : History had s i fs) (hlow : height s i < 3) :
    fs = [] ∧ (s.items i).hasData = had := by
  cases h with
  | before _ hd => exact ⟨rfl, hd⟩
  | lost hh | queued hh | closed hh | told hh | tried _ _ hh => exact absurd hh (by omega)

theorem History.step (h : History had s i fs) (hl : Ledgers s)
    (hstep : Handled s es s' i) : History had s' i (fs ++ fates i es) := by
  cases hstep with
  | same hfates hitem hheight hwait =>
    rw [hfates, append_nil]
    exact h.same hitem hheight hwait
  | early hfates hdata hheight hheight' =>
    obtain ⟨rfl, hd⟩ := h.of_low hheight
    rw [hfates]
    have hle := height_le s' i
    by_cases hlow : height s' i < 3
    · exact .before hlow (hdata.trans hd)
    · exact .closed (by omega)
  | push allocOk hfates hdata hheight hheight' hwait =>
    obtain ⟨rfl, hd⟩ := h.of_low hheight
    have hnone : waiting s i = 0 := by
      by_contra hw
      exact absurd (hl.waiting_height (Nat.pos_of_ne_zero hw)) (by omega)
    rw [hfates]
    cases allocOk with
    | false => exact .lost hheight' (by rw [hwait, hnone]; rfl)
    | true =>
      exact .queued hheight' (by rw [hwait]; exact Nat.succ_pos _) fun hneeds => (hdata hneeds).trans hd
  | settle results gave hfates hwait hheight hstored =>
    have hthree := hl.waiting_height hwait
    cases h with
    | queued hh hw hd =>
      rw [hfates]
      rcases hstored with ⟨hneeds, rfl, rfl⟩ | ⟨hneeds, hstored⟩
      · rw [hneeds]
        exact .told hheight
      · rw [hneeds]
        exact .tried results gave hheight hstored
    | lost hh hw => exact absurd hw (Nat.pos_iff_ne_zero.mp hwait)
    | before hh | closed hh | told hh | tried _ _ hh => exact absurd hh (by omega)

theorem History.safe_iff (h : History had s i fs) (hl : Ledgers s) :
    (.tried .ok ∈ fs ∨ 0 < waiting s i ∧ (s.items i).needsStore ∧ (s.items i).hasData = had) ↔
      .queued true ∈ fs ∧ .gaveUp ∉ fs := by
  have hthree : 0 < waiting s i → height s i = 3 := hl.waiting_height
  cases h with
  | before hh | closed hh | told hh =>
    have hwait : ¬0 < waiting s i := fun hw => by have := hthree hw; omega
    simp [hwait]
  | lost hh hw => simp [hw]
  | queued hh hw hd =>
    constructor
    · rintro (hmem | ⟨_, hneeds, _⟩)
      · simp at hmem
      · simp [hneeds]
    · rintro ⟨hmem, _⟩
      have hneeds : (s.items i).needsStore := by simpa using hmem
      exact .inr ⟨hw, hneeds, hd hneeds⟩
  | tried results gave hh hstored =>
    have hwait : ¬0 < waiting s i := fun hw => by have := hthree hw; omega
    rcases hstored with ⟨hok, rfl⟩ | ⟨hok, rfl⟩
    · simp [hok]
    · simp [hok, hwait]

theorem waiting_pos : 0 < waiting s i ↔ i ∈ s.submitQueue.items ∨ ∃ t, s.threads t = .submit i := by
  have hqueue : 0 < s.submitQueue.items.count i ↔ i ∈ s.submitQueue.items := count_pos_iff
  constructor
  · intro h
    rcases Nat.eq_zero_or_pos (s.submitQueue.items.count i) with hzero | hpos
    · rw [waiting, hzero, Nat.zero_add] at h
      obtain ⟨t, ht⟩ := exists_of_holders_pos h
      refine .inr ⟨t, ?_⟩
      cases hpc : s.threads t <;> simp_all [Pc.sends]
    · exact .inl (hqueue.mp hpos)
  · rintro (hmem | ⟨t, ht⟩)
    · exact Nat.add_pos_left (hqueue.mpr hmem) _
    · exact Nat.add_pos_right _ (sending_pos ht)

def Wanted (es : List Event) (b : BlockId) : Prop :=
  ∃ res, .received res ∈ es ∧ res.canHaz = true ∧ res.pId = b

def Stored (items : ℕ → Item) (es : List Event) (b : BlockId) : Prop :=
  ∃ i, (items i).pId = b ∧ .stored i .ok ∈ es

/-- An item of the block with the data it came with is queued for its transfer or
undergoes it. -/
def InTransfer (items : ℕ → Item) (s : State n) (b : BlockId) : Prop :=
  ∃ i, (items i).pId = b ∧ (i ∈ s.submitQueue.items ∨ ∃ t, s.threads t = .submit i) ∧
    (s.items i).needsStore = true ∧ (s.items i).hasData = (items i).hasData

/-- An item of the block was queued for its transfer and nobody has given up on it. -/
def Sending (items : ℕ → Item) (es : List Event) (b : BlockId) : Prop :=
  ∃ i, (items i).pId = b ∧ .pushed i true ∈ es ∧ .gaveUp i ∉ es

/-- `P` holds of the events and the state before each hit of a wanted block. -/
def AtHits (P : List Event → State n → BlockId → Prop) (items : ℕ → Item) (ls : List (Label n))
    (s : State n) : Prop :=
  ∀ as l bs rs s' es s'' i, ls = as ++ l :: bs → run step as s = .ok (rs, s') →
    step l s' = .ok (es, s'') → .hit i ∈ es → Wanted rs.flatten (items i).pId →
    P rs.flatten s' (items i).pId

structure Tracked (items : ℕ → Item) (es : List Event) (s : State n) : Prop where
  inv : Inv (fun i => (items i).submittedCallback) es s
  history : ∀ i, History (items i).hasData s i (fates i es)

theorem Tracked.step (h : Tracked items es s)
    (hstep : step l s = .ok (es', s')) : Tracked items (es ++ es') s' := by
  refine ⟨h.inv.step hstep, fun i => ?_⟩
  rw [fates_append]
  exact (h.history i).step h.inv.ledgers
    ((step_trans hstep).handled h.inv.scans h.inv.ledgers i)

theorem tracked_of_run (hids : ids.Nodup)
    (hst : ∀ i ∈ ids, (items i).getStatus = Status.collecting.code ∨
      (items i).getStatus = Status.finalized.code)
    (hr : run step ls (State.init items ids caches) = .ok (rs, s)) : Tracked items rs.flatten s := by
  have hinit : Tracked items (flatten []) (.init items ids caches : State n) :=
    ⟨.init hids hst caches, fun i => .before (by rw [height_new not_mem_nil]; decide) rfl⟩
  refine run_invariant (I := fun rs s => Tracked items rs.flatten s) (fun rs l s es s' hi hs => ?_) hinit hr
  rw [flatten_append, flatten_singleton]
  exact hi.step hs

theorem Tracked.safe_iff (h : Tracked items es s) (b : BlockId) :
    Stored items es b ∨ InTransfer items s b ↔ Sending items es b := by
  have hitem : ∀ i, (.stored i .ok ∈ es ∨ (i ∈ s.submitQueue.items ∨ ∃ t, s.threads t = .submit i) ∧
      (s.items i).needsStore ∧ (s.items i).hasData = (items i).hasData) ↔
      .pushed i true ∈ es ∧ .gaveUp i ∉ es := by
    intro i
    have hi := (h.history i).safe_iff h.inv.ledgers
    rwa [mem_fates, mem_fates, mem_fates, waiting_pos] at hi
  simp only [Stored, InTransfer, Sending, ← exists_or, ← and_or_left, hitem]

end

/-- In every run, every local cache hit on a block that a response asked for finds
the block stored or its data on the way, exactly if at each such hit an item of the
block was queued for its transfer and nobody has given up on it. -/
theorem wanted_not_skipped_iff {n : ℕ} (items : ℕ → Item) (ids : List ℕ) (caches : LocalCache.Caches)
    (hids : ids.Nodup) (hst : ∀ i ∈ ids, (items i).getStatus = Status.collecting.code ∨
      (items i).getStatus = Status.finalized.code) (ls : List (Label n)) :
    AtHits (fun es s b => Stored items es b ∨ InTransfer items s b) items ls
        (State.init items ids caches) ↔
      AtHits (fun es _ b => Sending items es b) items ls (State.init items ids caches) := by
  constructor
  · intro h as l bs rs s es s' i hls hr hs hhit hwant
    exact ((tracked_of_run hids hst hr).safe_iff _).mp (h as l bs rs s es s' i hls hr hs hhit hwant)
  · intro h as l bs rs s es s' i hls hr hs hhit hwant
    exact ((tracked_of_run hids hst hr).safe_iff _).mpr (h as l bs rs s es s' i hls hr hs hhit hwant)

def sameBlock : ℕ → Item := fun _ => ⟨0x02, true, false, 0, ⟨[1], 1, 1⟩, none⟩

local instance neZeroTwo : NeZero 2 := ⟨two_ne_zero⟩

/-- The first item is asked for, its transfer fails for want of a dispatcher, then
the second is submitted. -/
def failedStore : List (Label 2) :=
  [.submit 0 0 0 false true fun _ _ _ => 0, .popRequest 0, .request 0 true,
    .receive 0 ⟨⟨[1], 1, 1⟩, sfFlagCanHaz, 0, 0⟩, .respond 0 true true, .respond 0 true true,
    .respond 0 true true, .popSubmit 0, .transfer 0 (fun _ => none) true true,
    .submit 1 1 0 false true fun _ _ _ => 0]

theorem wanted_not_skipped_iff_failedStore :
    AtHits (fun es s b => Stored sameBlock es b ∨ InTransfer sameBlock s b) sameBlock failedStore
        (State.init sameBlock [0, 1] (LocalCache.initcache (fun _ _ => LocalCache.blankEntry) 1 1)) ↔
      AtHits (fun es _ b => Sending sameBlock es b) sameBlock failedStore
        (State.init sameBlock [0, 1] (LocalCache.initcache (fun _ _ => LocalCache.blankEntry) 1 1)) :=
  wanted_not_skipped_iff sameBlock [0, 1] _ (by decide) (by decide) failedStore

/-- The local cache answers for a block whose only transfer has failed. -/
theorem failed_store_skips_wanted :
    ¬AtHits (fun es s b => Stored sameBlock es b ∨ InTransfer sameBlock s b) sameBlock failedStore
      (State.init sameBlock [0, 1] (LocalCache.initcache (fun _ _ => LocalCache.blankEntry) 1 1)) := by
  intro h
  obtain ⟨rs, s, es, s', hr, hs, hhit, hreceived, hstored, hqueue, hfirst, hsecond⟩ :
      ∃ rs s es s', run step (failedStore.take 9)
        (State.init sameBlock [0, 1] (LocalCache.initcache (fun _ _ => LocalCache.blankEntry) 1 1)) =
          .ok (rs, s) ∧
        step (.submit 1 1 0 false true fun _ _ _ => 0) s = .ok (es, s') ∧ .hit 1 ∈ es ∧
        .received ⟨⟨[1], 1, 1⟩, sfFlagCanHaz, 0, 0⟩ ∈ rs.flatten ∧
        (∀ e ∈ rs.flatten, ¬(e matches .stored _ _)) ∧ s.submitQueue.items = [] ∧
        s.threads 0 = .destroy 0 ∧ s.threads 1 = .idle :=
    ⟨_, _, _, _, rfl, rfl, by decide, by decide, by decide, rfl, rfl, rfl⟩
  rcases h _ _ [] rs s es s' 1 rfl hr hs hhit ⟨_, hreceived, by decide, rfl⟩ with
    ⟨i, _, hmem⟩ | ⟨i, _, hmem | ⟨t, ht⟩, _⟩
  · exact hstored _ hmem rfl
  · rw [hqueue] at hmem
    exact not_mem_nil hmem
  · match t with
    | 0 => exact nomatch hfirst.symm.trans ht
    | 1 => exact nomatch hsecond.symm.trans ht

end Razorback.Submission
