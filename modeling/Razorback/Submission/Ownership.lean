import Razorback.Submission.Steps
import Razorback.Submission.Lifecycle
import Razorback.Base.Holders

/-! The pipeline refines the life of each item: read off a state, the claims on
an item move as its ledger does, whatever the threads do to other items. -/

namespace Razorback.Submission
open Runs Razorback.Lists Holders List
open Transfer (TransferStatus)

def Status.ofCode (c : UInt32) : Option Status :=
  [collecting, finalized, checkGlobalCache, checkingGlobalCache, submitData, error, noType].find?
    fun st => st.code == c

@[simp] theorem Status.ofCode_code (st : Status) : ofCode st.code = some st := by
  cases st <;> decide

theorem Status.Final.rank {st : Status} (h : st.Final) : st.rank = 4 := by
  rcases h with rfl | rfl | rfl <;> rfl

namespace Pc

def requests (i : ℕ) : Pc → Bool
  | .request j => j == i
  | _ => false

def sends (i : ℕ) : Pc → Bool
  | .submit j => j == i
  | _ => false

def closes (i : ℕ) : Pc → Bool
  | .destroy j => j == i
  | .remove j _ del => j == i && !del
  | _ => false

def about (k : ℕ) : Pc → Bool
  | .request j | .submit j | .destroy j | .remove j _ _ => j == k
  | _ => true

theorem about_of_ne {i k : ℕ} (hik : i ≠ k) {pc : Pc} (h : pc.about k) :
    pc.requests i = false ∧ pc.sends i = false ∧ pc.closes i = false := by
  cases pc <;> simp_all [about, requests, sends, closes, Ne.symm hik]

end Pc

def Event.act (i : ℕ) : Event → Option Act
  | .touched j => if j = i then some .touched else none
  | .status j st => if j = i then some (.status st) else none
  | .pushed j _ => if j = i then some .pushed else none
  | .callback j => if j = i then some .callback else none
  | .published j _ _ => if j = i then some .published else none
  | .destroyed j => if j = i then some .destroyed else none
  | .hit _ | .returned _ _ | .received _ | .matched _ _ | .stored _ _ | .gaveUp _ => none

def acts (i : ℕ) (es : List Event) : List Act := es.filterMap (Event.act i)

section
variable {n : ℕ} {s s' : State n} {es : List Event} {t : Fin n} {i k : ℕ}

def statusOf (s : State n) (i : ℕ) : Option Status :=
  if i ∈ s.submitted then Status.ofCode (s.items i).getStatus else none

def ledger (s : State n) (i : ℕ) : Ledger where
  status := statusOf s i
  asking := s.requestQueue.items.count i
  requesting := holders (Pc.requests i) s.threads
  queued := s.submitQueue.items.count i
  sending := holders (Pc.sends i) s.threads
  closing := holders (Pc.closes i) s.threads
  marked := s.marked.count i
  freed := s.freed.count i

theorem acts_append (i : ℕ) (es es' : List Event) : acts i (es ++ es') = acts i es ++ acts i es' :=
  filterMap_append

theorem acts_touched (i : ℕ) (es : List Event) : acts i (.touched i :: es) = .touched :: acts i es :=
  filterMap_cons_some (if_pos rfl)

theorem acts_status (i : ℕ) (st : Status) (es : List Event) :
    acts i (.status i st :: es) = .status st :: acts i es := filterMap_cons_some (if_pos rfl)

theorem acts_touched_of_ne (hik : i ≠ k) (es : List Event) : acts i (.touched k :: es) = acts i es :=
  filterMap_cons_none (if_neg hik.symm)

theorem acts_status_of_ne (hik : i ≠ k) (st : Status) (es : List Event) :
    acts i (.status k st :: es) = acts i es := filterMap_cons_none (if_neg hik.symm)

theorem acts_callback (i : ℕ) (item : Item) :
    acts i (callbackEvents i item) = Ledger.notice item.submittedCallback := by
  unfold callbackEvents Ledger.notice
  split_ifs
  · simp [acts, Event.act]
  · rfl

theorem acts_callback_of_ne (hik : i ≠ k) (item : Item) : acts i (callbackEvents k item) = [] := by
  unfold callbackEvents
  split_ifs
  · simp [acts, Event.act, hik.symm]
  · rfl

@[simp] theorem setItem_threads (s : State n) (k : ℕ) (item : Item) : (s.setItem k item).threads = s.threads :=
  rfl

theorem ledger_setThread (s : State n) (t : Fin n) (pc : Pc) (i : ℕ) :
    ledger (s.setThread t pc) i = { ledger s i with
      requesting := (ledger s i).requesting + (pc.requests i).toNat - ((s.threads t).requests i).toNat
      sending := (ledger s i).sending + (pc.sends i).toNat - ((s.threads t).sends i).toNat
      closing := (ledger s i).closing + (pc.closes i).toNat - ((s.threads t).closes i).toNat } := by
  have hmove : ∀ p : Pc → Bool, holders p (Function.update s.threads t pc) =
      holders p s.threads + (p pc).toNat - (p (s.threads t)).toNat :=
    fun p => Nat.eq_sub_of_add_eq (holders_update p s.threads t pc)
  ext1 <;> first | rfl | exact hmove _

theorem ledger_setThread_same (h : pc.requests i = (s.threads t).requests i ∧
    pc.sends i = (s.threads t).sends i ∧ pc.closes i = (s.threads t).closes i) :
    ledger (s.setThread t pc) i = ledger s i := by
  rw [ledger_setThread, h.1, h.2.1, h.2.2]
  simp

theorem ledger_setItem_self (hk : k ∈ s.submitted) (item : Item) :
    ledger (s.setItem k item) k = { ledger s k with status := Status.ofCode item.getStatus } := by
  have hst : statusOf (s.setItem k item) k = Status.ofCode item.getStatus := by
    simp [statusOf, State.setItem, hk]
  ext1 <;> first | rfl | exact hst

theorem ledger_setItem_of_ne (hik : i ≠ k) (s : State n) (item : Item) :
    ledger (s.setItem k item) i = ledger s i := by
  have hst : statusOf (s.setItem k item) i = statusOf s i := by
    simp [statusOf, State.setItem, hik]
  ext1 <;> first | rfl | exact hst

theorem count_push_self (allocOk : Bool) (q : Seq ℕ) (k : ℕ) :
    (if allocOk then q.pushItem k else q).items.count k = q.items.count k + allocOk.toNat := by
  cases allocOk with
  | false => rfl
  | true => rw [if_pos rfl, (q.pushItem_perm k).count_eq, count_cons_self]; rfl

theorem count_push_of_ne (hik : i ≠ k) (allocOk : Bool) (q : Seq ℕ) :
    (if allocOk then q.pushItem k else q).items.count i = q.items.count i := by
  cases allocOk with
  | false => rfl
  | true => rw [if_pos rfl, (q.pushItem_perm k).count_eq, count_cons_of_ne hik.symm]

variable {caches : LocalCache.Caches}

theorem ledger_with_of_ne (hik : i ≠ k) (s : State n)
    (hsub : submitted = s.submitted ∨ submitted = k :: s.submitted)
    (hrequest : requestQueue.items.count i = s.requestQueue.items.count i)
    (hsubmit : submitQueue.items.count i = s.submitQueue.items.count i) :
    ledger { s with
      submitted := submitted, requestQueue := requestQueue, submitQueue := submitQueue,
      caches := caches, storedLocality := storedLocality } i = ledger s i := by
  have hst : (if i ∈ submitted then Status.ofCode (s.items i).getStatus else none) = statusOf s i := by
    rcases hsub with rfl | rfl
    · rfl
    · simp [statusOf, hik]
  ext1 <;> first | rfl | exact hst | exact hrequest | exact hsubmit

def Moved (s : State n) (es : List Event) (s' : State n) (i : ℕ) : Prop :=
  (acts i es = [] ∧ ledger s' i = ledger s i) ∨
    Ledger.Move (s.items i).submittedCallback (ledger s i) (acts i es) (ledger s' i)

theorem freed_eq_zero (h : i ∉ s.freed) : (ledger s i).freed = 0 := count_eq_zero.mpr h

theorem statusOf_new (h : i ∉ s.submitted) : (ledger s i).status = none := if_neg h

theorem Moved.self
    (hm : Ledger.Move (s.items i).submittedCallback (ledger s i) A L) (hacts : acts i es = A)
    (hL : ledger s' i = L) : Moved s es s' i := by
  subst hacts hL
  exact .inr hm

variable {item : Item}

theorem Moved.other (hik : i ≠ k) (hacts : acts i es = []) (hbase : ledger s₁ i = ledger s i)
    (h₀ : (s₁.threads t).about k) (h : pc.about k) :
    Moved s es ((s₁.setItem k item).setThread t pc) i := by
  refine .inl ⟨hacts, ?_⟩
  obtain ⟨hr₀, hs₀, hc₀⟩ := Pc.about_of_ne hik h₀
  obtain ⟨hr, hs, hc⟩ := Pc.about_of_ne hik h
  rw [ledger_setThread_same, ledger_setItem_of_ne hik, hbase]
  simp [hr₀, hs₀, hc₀, hr, hs, hc]

theorem moved_refuse (hidle : s.threads t = .idle)
    (hnew : k ∉ s.submitted) (hfree : k ∉ s.freed) (hst : st.Final) (i : ℕ) :
    Moved s (.touched k :: .status k st :: callbackEvents k (s.items k) ++ [.returned k result])
      (({ s with submitted := k :: s.submitted }.setItem k ((s.items k).setStatus st)).setThread t
        (.destroy k)) i := by
  by_cases hik : i = k
  · subst hik
    refine .self (.refuse st (statusOf_new hnew) (freed_eq_zero hfree) hst.rank) ?_ ?_
    · rw [← acts_callback i]
      simp [acts, Event.act]
    · rw [ledger_setThread, ledger_setItem_self mem_cons_self]
      ext1 <;> first | rfl | simp [ledger, hidle, Pc.requests, Pc.sends, Pc.closes]
  · exact .other hik (by simp [acts, Event.act, Ne.symm hik, callbackEvents])
      (ledger_with_of_ne hik s (.inr rfl) rfl rfl) (by simp [hidle, Pc.about]) (by simp [Pc.about])

theorem moved_hit (hnew : k ∉ s.submitted)
    (hfree : k ∉ s.freed) (hitem : item.getStatus = Status.submitData.code) (allocOk : Bool) (i : ℕ) :
    Moved s (.touched k :: .hit k :: .status k .submitData ::
        (if allocOk then [.pushed k item.needsStore] else []) ++ [.returned k (.ok sf ent)])
      ({ s with
        submitted := k :: s.submitted
        caches := caches
        submitQueue := if allocOk then s.submitQueue.pushItem k else s.submitQueue }.setItem k item) i := by
  by_cases hik : i = k
  · subst hik
    refine .self (.hit allocOk (statusOf_new hnew) (freed_eq_zero hfree)) ?_ ?_
    · cases allocOk <;> simp [acts, filterMap_cons, Event.act]
    · rw [ledger_setItem_self mem_cons_self]
      ext1 <;> first | rfl | exact count_push_self allocOk _ i | simp [hitem]
  · refine .inl ⟨by cases allocOk <;> simp [acts, Event.act, Ne.symm hik], ?_⟩
    rw [ledger_setItem_of_ne hik]
    exact ledger_with_of_ne hik s (.inr rfl) rfl (count_push_of_ne hik allocOk _)

theorem moved_miss (hnew : k ∉ s.submitted) (hfree : k ∉ s.freed) (allocOk : Bool) (i : ℕ) :
    Moved s [.touched k, .status k .checkGlobalCache, .returned k (.ok 0 0)]
      ({ s with
        submitted := k :: s.submitted
        caches := caches
        requestQueue := if allocOk then s.requestQueue.pushItem k else s.requestQueue }.setItem k
        (((s.items k).setStatus .checkGlobalCache).setFlags flags)) i := by
  by_cases hik : i = k
  · subst hik
    refine .self (.miss allocOk (statusOf_new hnew) (freed_eq_zero hfree)) ?_ ?_
    · simp [acts, Event.act]
    · rw [ledger_setItem_self mem_cons_self]
      ext1 <;> first | rfl | exact count_push_self allocOk _ i | simp
  · refine .inl ⟨by simp [acts, Event.act, Ne.symm hik], ?_⟩
    rw [ledger_setItem_of_ne hik]
    exact ledger_with_of_ne hik s (.inr rfl) (count_push_of_ne hik allocOk _) rfl

theorem requesting_pos (hpc : s.threads t = .request i) : 0 < (ledger s i).requesting :=
  holders_pos (t := t) (by simp [hpc, Pc.requests])

theorem sending_pos (hpc : s.threads t = .submit i) : 0 < (ledger s i).sending :=
  holders_pos (t := t) (by simp [hpc, Pc.sends])

theorem moved_popRequest (hidle : s.threads t = .idle)
    (hqueue : s.requestQueue.items.Perm (k :: queue.items)) (i : ℕ) :
    Moved s [.touched k] ({ s with requestQueue := queue }.setThread t (.request k)) i := by
  have hcount := fun j => hqueue.count_eq j
  by_cases hik : i = k
  · subst hik
    have hi := hcount i
    rw [count_cons_self] at hi
    refine .self (.popRequest (by rw [ledger, hi]; exact Nat.succ_pos _)) (by simp [acts, Event.act]) ?_
    rw [ledger_setThread]
    ext1 <;> first | rfl | simp [ledger, hidle, Pc.requests, Pc.sends, Pc.closes, hi]
  · refine .inl ⟨by simp [acts, Event.act, Ne.symm hik], ?_⟩
    rw [ledger_setThread_same]
    · have hi := hcount i
      rw [count_cons_of_ne (.symm hik)] at hi
      exact ledger_with_of_ne hik s (.inl rfl) hi.symm rfl
    · simp [hidle, Pc.requests, Pc.sends, Pc.closes, Ne.symm hik]

theorem moved_popSubmit (hidle : s.threads t = .idle)
    (hqueue : s.submitQueue.items.Perm (k :: queue.items)) (i : ℕ) :
    Moved s [.touched k] ({ s with submitQueue := queue }.setThread t (.submit k)) i := by
  have hcount := fun j => hqueue.count_eq j
  by_cases hik : i = k
  · subst hik
    have hi := hcount i
    rw [count_cons_self] at hi
    refine .self (.popSubmit (by rw [ledger, hi]; exact Nat.succ_pos _)) (by simp [acts, Event.act]) ?_
    rw [ledger_setThread]
    ext1 <;> first | rfl | simp [ledger, hidle, Pc.requests, Pc.sends, Pc.closes, hi]
  · refine .inl ⟨by simp [acts, Event.act, Ne.symm hik], ?_⟩
    rw [ledger_setThread_same]
    · have hi := hcount i
      rw [count_cons_of_ne (.symm hik)] at hi
      exact ledger_with_of_ne hik s (.inl rfl) rfl hi.symm
    · simp [hidle, Pc.requests, Pc.sends, Pc.closes, Ne.symm hik]

theorem moved_drop (hpc : s.threads t = .request k ∨ s.threads t = .submit k) (i : ℕ) :
    Moved s [.touched k] (s.setThread t .idle) i := by
  by_cases hik : i = k
  · subst hik
    rcases hpc with hpc | hpc
    · refine .self (.dropRequest (requesting_pos hpc)) (by simp [acts, Event.act]) ?_
      rw [ledger_setThread]
      ext1 <;> first | rfl | simp [hpc, Pc.requests, Pc.sends, Pc.closes]
    · refine .self (.dropSubmit (sending_pos hpc)) (by simp [acts, Event.act]) ?_
      rw [ledger_setThread]
      ext1 <;> first | rfl | simp [hpc, Pc.requests, Pc.sends, Pc.closes]
  · refine .inl ⟨by simp [acts, Event.act, Ne.symm hik], ledger_setThread_same ?_⟩
    rcases hpc with hpc | hpc <;> simp [hpc, Pc.requests, Pc.sends, Pc.closes, Ne.symm hik]

theorem moved_request (hpc : s.threads t = .request k) (hsub : k ∈ s.submitted) (i : ℕ) :
    Moved s [.touched k, .status k .checkingGlobalCache]
      ((s.setItem k ((s.items k).setStatus .checkingGlobalCache)).setThread t .idle) i := by
  by_cases hik : i = k
  · subst hik
    refine .self (.request (requesting_pos hpc)) (by simp [acts, Event.act]) ?_
    rw [ledger_setThread, ledger_setItem_self hsub]
    ext1 <;> first | rfl | simp [hpc, Pc.requests, Pc.sends, Pc.closes]
  · exact .other hik (by simp [acts, Event.act, Ne.symm hik]) rfl (by simp [hpc, Pc.about])
      (by simp [Pc.about])

theorem moved_requestFail (hpc : s.threads t = .request k) (hsub : k ∈ s.submitted) (i : ℕ) :
    Moved s (.touched k :: .status k .checkingGlobalCache :: .status k .error ::
        callbackEvents k (s.items k))
      ((s.setItem k (((s.items k).setStatus .checkingGlobalCache).setStatus .error)).setThread t
        (.destroy k)) i := by
  by_cases hik : i = k
  · subst hik
    refine .self (.requestFail (requesting_pos hpc)) ?_ ?_
    · rw [← acts_callback i]
      simp [acts, Event.act]
    · rw [ledger_setThread, ledger_setItem_self hsub]
      ext1 <;> first | rfl | simp [hpc, Pc.requests, Pc.sends, Pc.closes]
  · exact .other hik (by simp [acts, Event.act, Ne.symm hik, callbackEvents]) rfl
      (by simp [hpc, Pc.about]) (by simp [Pc.about])

theorem moved_respond
    (allocOk : Bool) (hpc : s.threads t = .respond res (k :: rest)) (hsub : k ∈ s.submitted)
    (hst : (s.items k).getStatus = Status.checkingGlobalCache.code)
    (hitem : item.getStatus = Status.submitData.code) (i : ℕ) :
    Moved s (.touched k :: .matched k res :: .status k .submitData ::
        (if allocOk then [.pushed k item.needsStore] else []))
      (({ s with
        caches := caches
        submitQueue := if allocOk then s.submitQueue.pushItem k else s.submitQueue }.setItem k
        item).setThread t (.respond res rest)) i := by
  by_cases hik : i = k
  · subst hik
    have hstatus : (ledger s i).status = some .checkingGlobalCache := by
      simp [ledger, statusOf, hsub, hst]
    refine .self (.respond allocOk hstatus) ?_ ?_
    · cases allocOk <;> simp [acts, filterMap_cons, Event.act]
    · rw [ledger_setThread, ledger_setItem_self]
      · ext1 <;> first | rfl | exact count_push_self allocOk _ i |
          simp [ledger, hpc, hitem, Pc.requests, Pc.sends, Pc.closes]
      · exact hsub
  · refine .other hik (by cases allocOk <;> simp [acts, Event.act, Ne.symm hik])
      (ledger_with_of_ne hik s (.inl rfl) rfl (count_push_of_ne hik allocOk _))
      (by simp [hpc, Pc.about]) (by simp [Pc.about])

theorem moved_submit {results : List TransferStatus} {gave sent : List Event} {st : Status}
    {pc : Pc} {storedLocality : Fin n → UInt8} (hpc : s.threads t = .submit k)
    (hsub : k ∈ s.submitted) (hgave : gave = [] ∨ gave = [.gaveUp k])
    (hsent : sent = [] ∨ ∃ reason locality, sent = [.published k reason locality]) (hfinal : st.Final)
    (hitem : item = (s.items k).setStatus st ∧ pc = .destroy k ∨
      item = (((s.items k).setStatus st).setFlags 0).dropData ∧ pc = .idle) (i : ℕ) :
    Moved s (.touched k :: (results.map (.stored k) ++
        (gave ++ (sent ++ .status k st :: callbackEvents k (s.items k)))))
      (({ s with storedLocality := storedLocality }.setItem k item).setThread t pc) i := by
  have hstored : ∀ j, acts j (results.map (.stored k)) = [] := by
    intro j
    rw [acts, filterMap_eq_nil_iff]
    rintro e he
    obtain ⟨r, _, rfl⟩ := mem_map.mp he
    rfl
  have hgave' : ∀ j, acts j gave = [] := by rcases hgave with rfl | rfl <;> exact fun _ => rfl
  by_cases hik : i = k
  · subst hik
    have hst : item.getStatus = st.code := by rcases hitem with ⟨rfl, _⟩ | ⟨rfl, _⟩ <;> simp
    obtain ⟨b, hb⟩ : ∃ b : Bool, acts i sent = replicate b.toNat .published := by
      rcases hsent with rfl | ⟨reason, locality, rfl⟩
      · exact ⟨false, rfl⟩
      · exact ⟨true, by simp [acts, Event.act]⟩
    obtain ⟨kept, hkept, hrequests, hsends⟩ : ∃ kept : Bool, (pc.closes i).toNat = (!kept).toNat ∧
        pc.requests i = false ∧ pc.sends i = false := by
      rcases hitem with ⟨_, rfl⟩ | ⟨_, rfl⟩
      · exact ⟨false, by simp [Pc.closes], rfl, rfl⟩
      · exact ⟨true, rfl, rfl, rfl⟩
    refine .self (.submit st b kept (sending_pos hpc) hfinal.rank) ?_ ?_
    · rw [acts_touched, acts_append, hstored, acts_append, hgave', acts_append, hb, acts_status,
        acts_callback]
      rfl
    · rw [ledger_setThread, ledger_setItem_self]
      · have hold : ((Pc.submit i).requests i, (Pc.submit i).sends i, (Pc.submit i).closes i) =
            (false, true, false) := by simp [Pc.requests, Pc.sends, Pc.closes]
        ext1 <;> first | rfl | simp_all [ledger]
      · exact hsub
  · refine .other hik ?_ rfl (by simp [hpc, Pc.about]) ?_
    · have hother : acts i sent = [] := by
        rcases hsent with rfl | ⟨reason, locality, rfl⟩
        · rfl
        · simp [acts, Event.act, Ne.symm hik]
      rw [acts_touched_of_ne hik, acts_append, hstored, acts_append, hgave', acts_append, hother,
        acts_status_of_ne hik, acts_callback_of_ne hik]
      rfl
    · rcases hitem with ⟨_, rfl⟩ | ⟨_, rfl⟩ <;> simp [Pc.about]

theorem moved_look (hes : es = [] ∨ (∃ res, es = [.received res]) ∨
      ∃ j, es = [.touched j] ∧ j ∉ s.freed)
    (h : ∀ i, pc.requests i = (s.threads t).requests i ∧ pc.sends i = (s.threads t).sends i ∧
      pc.closes i = (s.threads t).closes i) (i : ℕ) : Moved s es (s.setThread t pc) i := by
  have hsame := ledger_setThread_same (h i)
  rcases hes with rfl | ⟨res, rfl⟩ | ⟨j, rfl, hj⟩
  · exact .inl ⟨rfl, hsame⟩
  · exact .inl ⟨rfl, hsame⟩
  · by_cases hij : i = j
    · subst hij
      exact .self (.look (freed_eq_zero hj)) (by simp [acts, Event.act]) hsame
    · exact .inl ⟨by simp [acts, Event.act, Ne.symm hij], hsame⟩

theorem moved_giveUp (hpc : s.threads t = .remove k [] false) (i : ℕ) :
    Moved s [] (s.setThread t .idle) i := by
  by_cases hik : i = k
  · subst hik
    refine .self (.giveUp (holders_pos (t := t) (by simp [hpc, Pc.closes]))) rfl ?_
    rw [ledger_setThread]
    ext1 <;> first | rfl | simp [hpc, Pc.requests, Pc.sends, Pc.closes]
  · exact .inl ⟨rfl, ledger_setThread_same (by simp [hpc, Pc.requests, Pc.sends, Pc.closes, Ne.symm hik])⟩

theorem marked_mark (pool : List PoolNode) (k i : ℕ) :
    (((pool.map fun node => if node.item = k then { node with del := true } else node).filter
        PoolNode.del).map PoolNode.item).count i =
      if i = k then (pool.map PoolNode.item).count i
      else ((pool.filter PoolNode.del).map PoolNode.item).count i := by
  induction pool with
  | nil => simp
  | cons node pool ih =>
    obtain ⟨j, del⟩ := node
    by_cases hik : i = k
    · subst hik
      by_cases hj : j = i
      · simpa [hj] using ih
      · cases del <;> simpa [hj] using ih
    · by_cases hj : j = k
      · subst hj
        cases del <;> simpa [Ne.symm hik] using ih
      · cases del <;> simpa [hj, hik, count_cons] using ih

theorem moved_mark (hpc : s.threads t = .remove k (k :: rest) false)
    (hone : s.poolItems.count k = 1) (hfree : k ∉ s.freed) (i : ℕ) :
    Moved s [.touched k] ((s.mark k).setThread t (.remove k rest true)) i := by
  have hmarked : (s.mark k).marked.count i =
      if i = k then s.poolItems.count i else s.marked.count i := marked_mark s.pool k i
  have hbase : ledger (s.mark k) i = { ledger s i with
      marked := if i = k then s.poolItems.count i else s.marked.count i } := by
    ext1 <;> first | rfl | exact hmarked
  have hpc' : (s.mark k).threads t = .remove k (k :: rest) false := hpc
  by_cases hik : i = k
  · subst hik
    refine .self (.mark (holders_pos (t := t) (by simp [hpc, Pc.closes]))) (by simp [acts, Event.act]) ?_
    rw [ledger_setThread, hbase, hpc', hone]
    ext1 <;> first | rfl | simp [Pc.closes]
  · refine .inl ⟨by simp [acts, Event.act, Ne.symm hik], ?_⟩
    rw [ledger_setThread_same, hbase, if_neg hik]
    · rfl
    · simp [hpc', Pc.requests, Pc.sends, Pc.closes, Ne.symm hik]

theorem freeAll_spec {marked freed freed' : List ℕ} (h : freeAll marked freed = .ok freed') :
    freed' = marked.reverse ++ freed := by
  induction marked generalizing freed with
  | nil => exact (Except.ok.inj h).symm
  | cons i marked ih =>
    rw [freeAll] at h
    split_ifs at h
    rw [ih h]
    simp

theorem freeAll_ok {marked freed : List ℕ} (hnd : marked.Nodup) (hdisj : ∀ i ∈ marked, i ∉ freed) :
    ∃ freed', freeAll marked freed = .ok freed' := by
  induction marked generalizing freed with
  | nil => exact ⟨freed, rfl⟩
  | cons i marked ih =>
    obtain ⟨hi, hnd⟩ := nodup_cons.mp hnd
    rw [freeAll, if_neg (hdisj i mem_cons_self)]
    refine ih hnd fun j hj hmem => ?_
    rcases mem_cons.mp hmem with rfl | hmem
    · exact hi hj
    · exact hdisj j (mem_cons_of_mem _ hj) hmem

theorem acts_destroyed (i : ℕ) (ids : List ℕ) :
    acts i (ids.map .destroyed) = List.replicate (ids.count i) .destroyed := by
  induction ids with
  | nil => rfl
  | cons j ids ih =>
    by_cases hj : j = i
    · subst hj
      rw [count_cons_self, replicate_succ, ← ih]
      exact filterMap_cons_some (if_pos rfl)
    · rw [count_cons_of_ne hj, ← ih]
      exact filterMap_cons_none (if_neg hj)

theorem moved_prune (hpc : s.threads t = .prune)
    (hfree : freeAll s.marked s.freed = .ok freed) (i : ℕ) :
    Moved s (s.marked.map .destroyed)
      ({ s with freed := freed, pool := s.pool.filter fun node => !node.del }.setThread t .idle) i := by
  refine .self .prune (acts_destroyed i s.marked) ?_
  rw [ledger_setThread_same (by simp [hpc, Pc.requests, Pc.sends, Pc.closes])]
  ext1
  case marked => simp [ledger, State.marked]
  case freed => simp [ledger, freeAll_spec hfree, Nat.add_comm]
  all_goals rfl

end

end Razorback.Submission
