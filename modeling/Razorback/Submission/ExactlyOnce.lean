import Razorback.Submission.Ownership

/-! The pipeline over whole runs: whatever the interleaving, no thread touches a
destroyed item, and each item goes through its life once. -/

namespace Razorback.Submission
open Runs Razorback.Lists Holders Function List

def Pc.rest : Pc → List ℕ
  | .respond _ rest | .remove _ rest _ => rest
  | _ => []

def Item.identity (item : Item) : Bool × ℕ × BlockId × Option BlockId :=
  (item.submittedCallback, item.context, item.pId, item.pParentId)

section
variable {n : ℕ} {s s' : State n} {es : List Event} {t : Fin n} {i k : ℕ}

structure Scans (s : State n) : Prop where
  nodup : s.poolItems.Nodup
  suffix : ∀ t, (s.threads t).rest <:+ s.poolItems
  passed : ∀ t i rest, s.threads t = .remove i rest true → i ∉ rest
  gone : ∀ i ∈ s.freed, i ∉ s.poolItems
  waiting : ∀ i ∈ s.poolItems, i ∉ s.submitted →
    (s.items i).getStatus ≠ Status.checkingGlobalCache.code

theorem update_identity {items : ℕ → Item} {item : Item} (h : item.identity = (items k).identity)
    (i : ℕ) : (Function.update items k item i).identity = (items i).identity := by
  by_cases hik : i = k
  · subst hik
    rw [update_self, h]
  · rw [update_of_ne hik]

variable {l : Label n}

theorem Trans.identity (h : Trans l s es s') (i : ℕ) : (s'.items i).identity = (s.items i).identity := by
  cases h with
  | refuse | miss | request | requestFail =>
    refine update_identity ?_ i
    rfl
  | hit k flags sf ent allocOk caches item hpool hnew hitem =>
    refine update_identity ?_ i
    rw [hitem]
    rfl
  | respond t res k rest allocOk caches item hpc hst hcontext hid hitem =>
    refine update_identity ?_ i
    rw [hitem]
    split_ifs <;> rfl
  | submit t k results gave sent st item pc storedLocality hpc hst hstored hsent hfinal hitem =>
    refine update_identity ?_ i
    rcases hitem with ⟨rfl, _⟩ | ⟨rfl, _⟩ <;> rfl
  | stay | popNothing | popRequest | dropRequest | receive | respondEnd | respondSkip | popSubmit
  | dropSubmit | destroy | removeEnd | removeSkip | removeMark | prune => rfl

theorem mem_submitted (h : (ledger s i).status = some st) : i ∈ s.submitted := by
  by_contra hout
  rw [statusOf_new hout] at h
  cases h

def Ledgers (s : State n) : Prop :=
  ∀ i, ∃ l, Ledger.Good (s.items i).submittedCallback (ledger s i) l

theorem Ledgers.requested (h : Ledgers s) (hpc : s.threads t = .request i) : i ∈ s.submitted := by
  obtain ⟨l, hg⟩ := h i
  exact mem_submitted (hg.asked (Nat.add_pos_right _ (requesting_pos hpc)))

theorem Ledgers.sending (h : Ledgers s) (hpc : s.threads t = .submit i) : i ∈ s.submitted := by
  obtain ⟨l, hg⟩ := h i
  exact mem_submitted (hg.sent (Nat.add_pos_right _ (sending_pos hpc)))

theorem Scans.ahead (h : Scans s) (hpc : (s.threads t).rest = i :: rest) : i ∈ s.poolItems :=
  (h.suffix t).subset (by rw [hpc]; exact mem_cons_self)

theorem Trans.moved (h : Trans l s es s') (hscan : Scans s) (hledger : Ledgers s) (i : ℕ) :
    Moved s es s' i := by
  cases h with
  | stay => exact .inl ⟨rfl, rfl⟩
  | refuse t k st result hidle hpool hnew hst hfree => exact moved_refuse hidle hnew hfree hst i
  | hit k flags sf ent allocOk caches item hpool hnew hitem hfree =>
    exact moved_hit hnew hfree (by rw [hitem]; simp) allocOk i
  | miss k flags allocOk caches hpool hnew hfree => exact moved_miss hnew hfree allocOk i
  | popNothing requestQueue submitQueue hrequest hsubmit =>
    refine .inl ⟨rfl, ?_⟩
    ext1 <;> first | rfl | exact congrArg (count i) hrequest | exact congrArg (count i) hsubmit
  | popRequest t k queue hidle hqueue hfree => exact moved_popRequest hidle hqueue i
  | dropRequest t k hpc hst hfree => exact moved_drop (.inl hpc) i
  | request t k hpc hst hfree => exact moved_request hpc (hledger.requested hpc) i
  | requestFail t k hpc hst hfree => exact moved_requestFail hpc (hledger.requested hpc) i
  | receive t res hidle =>
    exact moved_look (.inr (.inl ⟨res, rfl⟩)) (fun i => by simp [hidle, Pc.requests, Pc.sends, Pc.closes]) i
  | respondEnd t res hpc =>
    exact moved_look (.inl rfl) (fun i => by simp [hpc, Pc.requests, Pc.sends, Pc.closes]) i
  | respondSkip t res k rest hpc hfree =>
    exact moved_look (.inr (.inr ⟨k, rfl, hfree⟩))
      (fun i => by simp [hpc, Pc.requests, Pc.sends, Pc.closes]) i
  | respond t res k rest allocOk caches item hpc hst hcontext hid hitem hfree =>
    have hin : k ∈ s.poolItems := hscan.ahead (by rw [hpc]; rfl)
    have hsub : k ∈ s.submitted := by
      by_contra hout
      exact hscan.waiting k hin hout hst
    refine moved_respond allocOk hpc hsub hst ?_ i
    rw [hitem]
    split_ifs <;> simp
  | popSubmit t k queue hidle hqueue hfree => exact moved_popSubmit hidle hqueue i
  | dropSubmit t k hpc hst hfree => exact moved_drop (.inr hpc) i
  | submit t k results gave sent st item pc storedLocality hpc hst hstored hsent hfinal hitem =>
    refine moved_submit hpc (hledger.sending hpc) ?_ hsent hfinal hitem i
    rcases hstored with ⟨_, _, hgave⟩ | ⟨_, ⟨_, hgave⟩ | ⟨_, hgave⟩⟩
    · exact .inl hgave
    · exact .inl hgave
    · exact .inr hgave
  | destroy t k hpc =>
    exact moved_look (.inl rfl) (fun i => by simp [hpc, Pc.requests, Pc.sends, Pc.closes]) i
  | removeEnd t k del hpc =>
    cases del with
    | false => exact moved_giveUp hpc i
    | true => exact moved_look (.inl rfl) (fun i => by simp [hpc, Pc.requests, Pc.sends, Pc.closes]) i
  | removeSkip t k j rest del hpc hne hfree =>
    exact moved_look (.inr (.inr ⟨j, rfl, hfree⟩))
      (fun i => by simp [hpc, Pc.requests, Pc.sends, Pc.closes]) i
  | removeMark t k rest del hpc hfree =>
    cases del with
    | false =>
      have hin : k ∈ s.poolItems := hscan.ahead (by rw [hpc]; rfl)
      exact moved_mark hpc (count_eq_one_of_mem hscan.nodup hin) hfree i
    | true => exact absurd mem_cons_self (hscan.passed t k _ hpc)
  | prune t freed hpc hread hfree => exact moved_prune hpc hfree i

theorem Scans.setThread (h : Scans s) (hrest : pc.rest <:+ s.poolItems)
    (hpassed : ∀ i rest, pc = .remove i rest true → i ∉ rest) : Scans (s.setThread t pc) := by
  have hself : (s.setThread t pc).threads t = pc := update_self ..
  have hother : ∀ u, u ≠ t → (s.setThread t pc).threads u = s.threads u :=
    fun u hu => update_of_ne hu ..
  refine ⟨h.nodup, fun u => ?_, fun u i rest hu => ?_, h.gone, h.waiting⟩
  · by_cases hut : u = t
    · rw [hut, hself]
      exact hrest
    · rw [hother u hut]
      exact h.suffix u
  · by_cases hut : u = t
    · rw [hut, hself] at hu
      exact hpassed i rest hu
    · rw [hother u hut] at hu
      exact h.passed u i rest hu

theorem Scans.setThread_out (h : Scans s) (hpc : pc.reading = false) :
    Scans (s.setThread t pc) := by
  refine h.setThread ?_ fun i rest he => ?_
  · cases pc <;> first | exact nil_suffix | cases hpc
  · subst he
    cases hpc

theorem Scans.congr (h : Scans s) (hpool : s'.pool = s.pool) (hthreads : s'.threads = s.threads)
    (hfreed : s'.freed = s.freed)
    (hitems : ∀ i, i ∉ s'.submitted → i ∉ s.submitted ∧ s'.items i = s.items i) : Scans s' := by
  have hids : s'.poolItems = s.poolItems := by rw [State.poolItems, hpool, State.poolItems]
  refine ⟨hids ▸ h.nodup, fun u => ?_, fun u => ?_, ?_, fun i hi hout => ?_⟩
  · rw [hthreads, hids]
    exact h.suffix u
  · rw [hthreads]
    exact h.passed u
  · rw [hfreed, hids]
    exact h.gone
  · obtain ⟨hold, hitem⟩ := hitems i hout
    rw [hitem]
    exact h.waiting i (hids ▸ hi) hold

theorem Scans.setItem_new (h : Scans s) (requestQueue submitQueue : Seq ℕ) (caches : LocalCache.Caches)
    (k : ℕ) (item : Item) :
    Scans ({ s with
      submitted := k :: s.submitted, requestQueue := requestQueue, submitQueue := submitQueue,
      caches := caches }.setItem k item) := by
  refine h.congr rfl rfl rfl fun i hi => ?_
  obtain ⟨hik, hi⟩ := ne_and_not_mem_of_not_mem_cons hi
  exact ⟨hi, update_of_ne hik ..⟩

theorem Scans.setItem_old (h : Scans s) (hk : k ∈ s.submitted) (submitQueue : Seq ℕ)
    (caches : LocalCache.Caches) (storedLocality : Fin n → UInt8) (item : Item) :
    Scans ({ s with
      submitQueue := submitQueue, caches := caches, storedLocality := storedLocality }.setItem k item) :=
  h.congr rfl rfl rfl fun _ hi => ⟨hi, update_of_ne (ne_of_mem_of_not_mem hk hi).symm ..⟩

theorem poolItems_mark (s : State n) (k : ℕ) : (s.mark k).poolItems = s.poolItems := by
  simp only [State.poolItems, State.mark, map_map]
  refine map_congr_left fun node _ => ?_
  dsimp only [comp]
  split_ifs <;> rfl

theorem Scans.mark (h : Scans s) (k : ℕ) : Scans (s.mark k) := by
  have hids := poolItems_mark s k
  exact ⟨hids ▸ h.nodup, fun u => hids ▸ h.suffix u, h.passed, hids ▸ h.gone, hids ▸ h.waiting⟩

theorem Scans.prune (h : Scans s) (hread : ∀ u, (s.threads u).reading = false)
    (hfree : freeAll s.marked s.freed = .ok freed) :
    Scans { s with freed := freed, pool := s.pool.filter fun node => !node.del } := by
  have hsub : List.Sublist ((s.pool.filter fun node => !node.del).map PoolNode.item) s.poolItems :=
    filter_sublist.map _
  refine ⟨h.nodup.sublist hsub, fun u => ?_, h.passed, fun i hi hin => ?_, fun i hi => ?_⟩
  · have hrest : (s.threads u).rest = [] := by
      have hu := hread u
      cases hpc : s.threads u <;> simp_all [Pc.reading, Pc.rest]
    exact hrest ▸ nil_suffix
  · rw [freeAll_spec hfree] at hi
    rcases mem_append.mp hi with hi | hi
    · obtain ⟨node, hnode, rfl⟩ := mem_map.mp (mem_reverse.mp hi)
      obtain ⟨node', hnode', he⟩ := mem_map.mp hin
      obtain ⟨hmem, hdel⟩ := mem_filter.mp hnode
      obtain ⟨hmem', hdel'⟩ := mem_filter.mp hnode'
      obtain rfl := inj_on_of_nodup_map h.nodup hmem' hmem he
      rw [hdel] at hdel'
      cases hdel'
    · exact h.gone i hi (hsub.subset hin)
  · exact h.waiting i (hsub.subset hi)

theorem suffix_of_cons (h : Scans s) (hpc : (s.threads t).rest = k :: rest) :
    rest <:+ s.poolItems := (suffix_cons k rest).trans (hpc ▸ h.suffix t)

theorem Trans.scans (h : Trans l s es s') (hs : Scans s) (hl : Ledgers s) : Scans s' := by
  cases h with
  | stay => exact hs
  | refuse t k st result hidle hpool hnew hst hfree =>
    exact (hs.setItem_new s.requestQueue s.submitQueue s.caches k _).setThread_out rfl
  | hit k flags sf ent allocOk caches item hpool hnew hitem hfree =>
    exact hs.setItem_new _ _ caches k item
  | miss k flags allocOk caches hpool hnew hfree => exact hs.setItem_new _ _ caches k _
  | popNothing requestQueue submitQueue hrequest hsubmit =>
    exact hs.congr rfl rfl rfl fun _ hi => ⟨hi, rfl⟩
  | popRequest t k queue hidle hqueue hfree =>
    have hq : Scans { s with requestQueue := queue } := hs.congr rfl rfl rfl fun _ hi => ⟨hi, rfl⟩
    exact hq.setThread_out rfl
  | dropRequest t k hpc hst hfree => exact hs.setThread_out rfl
  | request t k hpc hst hfree =>
    exact (hs.setItem_old (hl.requested hpc) s.submitQueue s.caches s.storedLocality _).setThread_out rfl
  | requestFail t k hpc hst hfree =>
    exact (hs.setItem_old (hl.requested hpc) s.submitQueue s.caches s.storedLocality _).setThread_out rfl
  | receive t res hidle => exact hs.setThread (suffix_refl _) fun i rest he => nomatch he
  | respondEnd t res hpc => exact hs.setThread_out rfl
  | respondSkip t res k rest hpc hfree =>
    exact hs.setThread (suffix_of_cons hs (by rw [hpc]; rfl)) fun i rest he => nomatch he
  | respond t res k rest allocOk caches item hpc hst hcontext hid hitem hfree =>
    have hsuffix : rest <:+ s.poolItems := suffix_of_cons hs (by rw [hpc]; rfl)
    have hin : k ∈ s.poolItems := hs.ahead (by rw [hpc]; rfl)
    have hsub : k ∈ s.submitted := by
      by_contra hout
      exact hs.waiting k hin hout hst
    exact (hs.setItem_old hsub _ caches s.storedLocality _).setThread hsuffix fun i rest he => nomatch he
  | popSubmit t k queue hidle hqueue hfree =>
    have hq : Scans { s with submitQueue := queue } := hs.congr rfl rfl rfl fun _ hi => ⟨hi, rfl⟩
    exact hq.setThread_out rfl
  | dropSubmit t k hpc hst hfree => exact hs.setThread_out rfl
  | submit t k results gave sent st item pc storedLocality hpc hst hstored hsent hfinal hitem =>
    refine (hs.setItem_old (hl.sending hpc) s.submitQueue s.caches storedLocality item).setThread_out ?_
    rcases hitem with ⟨_, rfl⟩ | ⟨_, rfl⟩ <;> rfl
  | destroy t k hpc => exact hs.setThread (suffix_refl _) fun i rest he => nomatch he
  | removeEnd t k del hpc =>
    refine hs.setThread_out ?_
    cases del <;> rfl
  | removeSkip t k j rest del hpc hne hfree =>
    refine hs.setThread (suffix_of_cons hs (by rw [hpc]; rfl)) fun i rest' he hin => ?_
    cases he
    exact hs.passed t k _ hpc (mem_cons_of_mem _ hin)
  | removeMark t k rest del hpc hfree =>
    have hsuffix : k :: rest <:+ s.poolItems := by
      have h := hs.suffix t
      rwa [hpc] at h
    have hids : (s.mark k).poolItems = s.poolItems := poolItems_mark s k
    refine (hs.mark k).setThread ?_ fun i rest' he => ?_
    · rw [hids]
      exact (suffix_cons k rest).trans hsuffix
    · cases he
      exact (nodup_cons.mp (hs.nodup.sublist hsuffix.sublist)).1
  | prune t freed hpc hread hfree => exact (hs.prune hread hfree).setThread_out rfl

theorem Ledgers.alive (h : Ledgers s) (hc : 0 < (ledger s i).asking + (ledger s i).requesting +
    (ledger s i).queued + (ledger s i).sending) : i ∉ s.freed := by
  obtain ⟨l, hg⟩ := h i
  have hclaims := hg.claims
  exact count_eq_zero.mp (show (ledger s i).freed = 0 by omega)

def Safe {α : Type} (x : Except Fault α) : Prop := x ≠ .error .useAfterFree

theorem Safe.ok {α : Type} (a : α) : Safe (.ok a) := fun h => nomatch h

theorem Safe.bind {α β : Type} {x : Except Fault α} {f : α → Except Fault β} (hx : Safe x)
    (hf : ∀ a, Safe (f a)) : Safe (x >>= f) := by
  cases x with
  | error e => exact fun h => hx (congrArg Except.error (Except.error.inj h))
  | ok a => exact hf a

theorem Safe.touch (h : i ∉ s.freed) : Safe (s.touch i) := by
  rw [State.touch, if_neg h]
  exact .ok ()

theorem Safe.fromCache {α : Type} (x : Except LocalCache.Fault α) : Safe (fromCache x) := by
  cases x with
  | error e => exact fun h => nomatch h
  | ok a => exact .ok a

theorem responseHandler_safe (allocOk mallocOk : Bool) (res : CacheResult) (i : ℕ) (s : State n) :
    Safe (responseHandler allocOk mallocOk res i s) := by
  by_cases hmatch : (s.items i).getStatus = Status.checkingGlobalCache.code ∧
      (s.items i).context = res.context ∧ (s.items i).pId = res.pId
  · rw [responseHandler, if_pos hmatch]
    exact (Safe.fromCache _).bind fun p => .ok _
  · rw [responseHandler, if_neg hmatch]
    exact .ok _

theorem step_safe (hs : Scans s) (hl : Ledgers s) (l : Label n) : Safe (step l s) := by
  cases l with
  | submit t i flags outNull allocOk beyond =>
    unfold step
    dsimp only
    split_ifs with hguard
    · have hfree : i ∉ s.freed := fun hi => hs.gone i hi hguard.2.1
      refine (Safe.touch hfree).bind fun _ => .bind ?_ fun _ => .ok _
      unfold submissionSubmit
      dsimp only
      split_ifs
      · exact .ok _
      · exact .ok _
      · exact .ok _
      · refine (Safe.fromCache _).bind fun p => ?_
        cases p.1 <;> exact .ok _
    · exact .ok _
  | popRequest t =>
    unfold step
    dsimp only
    split
    · split
      · rename_i i hpop
        have hcount := (Seq.pop_past hpop).count_eq i
        rw [count_cons_self] at hcount
        have hfree : i ∉ s.freed := hl.alive (by change 0 < s.requestQueue.items.count i + _ + _ + _; omega)
        exact (Safe.touch hfree).bind fun _ => .ok _
      · exact .ok _
    · exact .ok _
  | request t sendOk =>
    unfold step
    dsimp only
    split
    · rename_i i hpc
      have hpos := requesting_pos hpc
      exact (Safe.touch (hl.alive (by omega))).bind fun _ => .ok _
    · exact .ok _
  | receive t res =>
    unfold step
    dsimp only
    split <;> exact .ok _
  | respond t allocOk mallocOk =>
    unfold step
    dsimp only
    split
    · exact .ok _
    · rename_i res i rest hpc
      have hin : i ∈ s.poolItems := hs.ahead (by rw [hpc]; rfl)
      exact (Safe.touch fun hi => hs.gone i hi hin).bind fun _ =>
        .bind (responseHandler_safe allocOk mallocOk res i s) fun _ => .ok _
    · exact .ok _
  | popSubmit t =>
    unfold step
    dsimp only
    split
    · split
      · rename_i i hpop
        have hcount := (Seq.pop_past hpop).count_eq i
        rw [count_cons_self] at hcount
        have hfree : i ∉ s.freed := hl.alive (by change 0 < _ + _ + s.submitQueue.items.count i + _; omega)
        exact (Safe.touch hfree).bind fun _ => .ok _
      · exact .ok _
    · exact .ok _
  | transfer t attempt initOk putOk =>
    unfold step
    dsimp only
    split
    · rename_i i hpc
      have hpos := sending_pos hpc
      exact (Safe.touch (hl.alive (by omega))).bind fun _ => .ok _
    · exact .ok _
  | destroy t =>
    unfold step
    dsimp only
    split <;> exact .ok _
  | remove t =>
    unfold step
    dsimp only
    split
    · exact .ok _
    · rename_i i j rest del hpc
      have hin : j ∈ s.poolItems := hs.ahead (by rw [hpc]; rfl)
      refine (Safe.touch fun hj => hs.gone j hj hin).bind fun _ => ?_
      split_ifs <;> exact .ok _
    · exact .ok _
  | prune t =>
    unfold step
    dsimp only
    split_ifs with hguard
    · have hsub : List.Sublist s.marked s.poolItems := filter_sublist.map _
      obtain ⟨freed, hf⟩ := freeAll_ok (hs.nodup.sublist hsub)
        fun i hi hfreed => hs.gone i hfreed (hsub.subset hi)
      rw [hf]
      exact .ok _
    · exact .ok _

structure Inv (notify : ℕ → Bool) (es : List Event) (s : State n) : Prop where
  scans : Scans s
  notified : ∀ i, (s.items i).submittedCallback = notify i
  lives : ∀ i, ∃ l, Monitor.run (Life.next (notify i)) Life.fresh (acts i es) = some l ∧
    Ledger.Good (notify i) (ledger s i) l

theorem Inv.ledgers (h : Inv notify es s) : Ledgers s := by
  intro i
  obtain ⟨l, _, hg⟩ := h.lives i
  exact ⟨l, h.notified i ▸ hg⟩

theorem Inv.step (h : Inv notify es s)
    (hstep : step l s = .ok (es', s')) : Inv notify (es ++ es') s' := by
  have htrans := step_trans hstep
  refine ⟨htrans.scans h.scans h.ledgers, fun i => ?_, fun i => ?_⟩
  · exact (congrArg Prod.fst (htrans.identity i)).trans (h.notified i)
  · obtain ⟨l, hrun, hg⟩ := h.lives i
    rcases htrans.moved h.scans h.ledgers i with ⟨hacts, hsame⟩ | hmove
    · refine ⟨l, ?_, hsame ▸ hg⟩
      rw [acts_append, hacts, append_nil, hrun]
    · rw [h.notified i] at hmove
      obtain ⟨l', hrun', hg'⟩ := hmove.good hg
      refine ⟨l', ?_, hg'⟩
      rw [acts_append, Monitor.run_append, hrun]
      exact hrun'

theorem holders_idle (p : Pc → Bool) (hp : p .idle = false) :
    holders p (fun _ : Fin n => Pc.idle) = 0 := by
  simp [holders, hp]

theorem Inv.init (hids : ids.Nodup) (hst : ∀ i ∈ ids, (items i).getStatus = Status.collecting.code ∨
      (items i).getStatus = Status.finalized.code) (caches : LocalCache.Caches) :
    Inv (fun i => (items i).submittedCallback) [] (State.init items ids caches : State n) := by
  have hpool : (.init items ids caches : State n).poolItems = ids := by
    simp [State.init, State.poolItems, comp_def]
  have hmarked : (.init items ids caches : State n).marked = [] := by
    simp [State.init, State.marked]
  have hscans : Scans (.init items ids caches : State n) := by
    refine ⟨?_, fun _ => nil_suffix, (fun _ _ _ h => by cases h), (fun _ h => by cases h),
      fun i hi _ hc => ?_⟩
    · rw [hpool]
      exact hids
    · rw [hpool] at hi
      rcases hst i hi with h | h
      · exact absurd (h.symm.trans hc) (by decide)
      · exact absurd (h.symm.trans hc) (by decide)
  refine ⟨hscans, fun _ => rfl, fun i => ⟨.fresh, rfl, ?_⟩⟩
  have hledger : ledger (.init items ids caches : State n) i = ⟨none, 0, 0, 0, 0, 0, 0, 0⟩ := by
    ext1
    case requesting => exact holders_idle _ rfl
    case sending => exact holders_idle _ rfl
    case closing => exact holders_idle _ rfl
    case marked => exact congrArg (count i) hmarked
    all_goals rfl
  rw [hledger]
  exact ⟨by decide, by decide, by decide, by decide, rfl, rfl, fun _ => rfl, fun _ => rfl, fun _ => rfl,
    fun h => absurd h (by decide)⟩

end

/-- In every run of the pipeline, with any number of threads, items, cache
responses and results of the broker and the transports, no step touches a
destroyed item and every item goes through its life exactly once; its status
word holds the last status of that life. -/
theorem items_exactly_once {n : ℕ} (items : ℕ → Item) (ids : List ℕ) (caches : LocalCache.Caches)
    (hids : ids.Nodup) (hst : ∀ i ∈ ids, (items i).getStatus = Status.collecting.code ∨
      (items i).getStatus = Status.finalized.code) (ls : List (Label n)) :
    run step ls (State.init items ids caches) ≠ .error .useAfterFree ∧
      ∀ rs s, run step ls (State.init items ids caches) = .ok (rs, s) →
        ∀ i, ExactlyOnce (items i).submittedCallback (acts i rs.flatten) ∧
          statusOf s i = ((acts i rs.flatten).filterMap Act.toStatus).getLast? := by
  have hinit : Inv (fun i => (items i).submittedCallback) (flatten [])
      (State.init items ids caches : State n) := Inv.init hids hst caches
  have hstep : ∀ rs l (s : State n) es s', Inv (fun i => (items i).submittedCallback) rs.flatten s →
      step l s = .ok (es, s') → Inv (fun i => (items i).submittedCallback) (rs ++ [es]).flatten s' := by
    intro rs l s es s' hi hs
    rw [flatten_append, flatten_singleton]
    exact hi.step hs
  refine ⟨?_, fun rs s hr i => ?_⟩
  · exact run_ne_error (I := fun rs s => Inv (fun i => (items i).submittedCallback) rs.flatten s) hstep
      (fun rs l s hi => step_safe hi.scans hi.ledgers l) ls [] hinit
  · have hi := run_invariant (I := fun rs s => Inv (fun i => (items i).submittedCallback) rs.flatten s)
      hstep hinit hr
    obtain ⟨l, hrun, hg⟩ := hi.lives i
    exact ⟨Life.exactlyOnce_of_run hrun, hg.status.symm.trans (Life.status_eq_getLast hrun)⟩

theorem items_exactly_once_one :
    run step [.submit 0 0 0 false true fun _ _ _ => 0, .popRequest 0, .request 0 true]
        (State.init (fun _ => ⟨0x02, true, true, 0, ⟨[1], 1, 1⟩, none⟩) [0]
          (LocalCache.initcache (fun _ _ => LocalCache.blankEntry) 1 1) : State 1) ≠
        .error .useAfterFree ∧
      ∀ rs s, run step [.submit 0 0 0 false true fun _ _ _ => 0, .popRequest 0, .request 0 true]
          (State.init (fun _ => ⟨0x02, true, true, 0, ⟨[1], 1, 1⟩, none⟩) [0]
            (LocalCache.initcache (fun _ _ => LocalCache.blankEntry) 1 1) : State 1) = .ok (rs, s) →
        ∀ i, ExactlyOnce true (acts i rs.flatten) ∧
          statusOf s i = ((acts i rs.flatten).filterMap Act.toStatus).getLast? :=
  items_exactly_once (fun _ => ⟨0x02, true, true, 0, ⟨[1], 1, 1⟩, none⟩) [0]
    (LocalCache.initcache (fun _ _ => LocalCache.blankEntry) 1 1) (by decide)
    (fun _ _ => .inr (by decide)) _

end Razorback.Submission
