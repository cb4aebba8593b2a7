import Razorback.Submission.Isolation
import Razorback.Submission.Wanted

/-! What a submit worker gives back. An item with `BLOCK_POOL_FLAG_MAY_REUSE` goes back to its owner if its message could
be made, but the exits before that destroy it whatever its flags. The copy of a dispatcher is released if the data could be
stored with it, but is lost when the worker tries again or gives up. -/

namespace Razorback.Submission
open Runs Razorback.Lists Holders Function List
open Transfer (TransferStatus)

namespace Item

theorem mayReuse_setFlags (item : Item) (flags : UInt32) :
    (item.setFlags flags).mayReuse = (flags &&& flagMayReuse == flagMayReuse) := by
  have hstatus : statusMask &&& flagMayReuse = 0 := by decide
  have hflag : flagMask &&& flagMayReuse = flagMayReuse := by decide
  simp only [mayReuse, setFlags, or_and_distrib, UInt32.and_assoc, hstatus, hflag, UInt32.and_zero, UInt32.or_zero]

theorem mayReuse_eventOnly (item : Item) (h : flags &&& flagMayReuse = flagMayReuse) :
    (item.setFlags (flags ||| flagEventOnly)).mayReuse := by
  have hother : flagEventOnly &&& flagMayReuse = 0 := by decide
  rw [mayReuse_setFlags, or_and_distrib, h, hother, UInt32.or_zero, beq_self_eq_true]

def Reused (item : Item) : Prop :=
  ∃ st : Status, item.getStatus = st.code ∧ (st.rank < 4 ∧ item.mayReuse = true ∨ st.rank = 4 ∧ item.hasData = false)

theorem Reused.mayReuse {item : Item} (h : item.Reused) {st : Status} (hst : item.getStatus = st.code)
    (hrank : st.rank < 4) : item.mayReuse := by
  obtain ⟨st', hst', h⟩ := h
  obtain rfl : st = st' := Option.some.inj (by rw [← Status.ofCode_code st, ← hst, hst', Status.ofCode_code])
  rcases h with ⟨_, hmay⟩ | ⟨h4, _⟩
  · exact hmay
  · omega

end Item

section
variable {n : ℕ} {s s' : State n} {es : List Event} {t : Fin n} {i k : ℕ} {l : Label n}

def Flagged (i : ℕ) : Label n → Prop
  | .submit _ k flags _ _ _ => k = i → flags &&& flagMayReuse = flagMayReuse
  | _ => True

/-- None of the exits that destroy an item before its message is made is taken for the item: it is not refused, its cache
request is sent, its data is stored if there is a store to do, and its message can be allocated. -/
def Spared (i : ℕ) (l : Label n) (s : State n) : Prop :=
  match l with
  | .submit _ k _ outNull _ _ => k = i →
    (s.items i).pParentId ≠ some (s.items i).pId ∧ outNull = false ∧ (s.items i).pId.uuidDataType ≠ 0
  | .request t sendOk => s.threads t = .request i → sendOk = true
  | .transfer t attempt initOk _ => s.threads t = .submit i → initOk = true ∧
    ((s.items i).needsStore = true → .ok ∈ (storeTries attempt transferTries 0 .failLocal).2.2)
  | _ => True

structure Kept (i : ℕ) (s : State n) : Prop where
  pool : i ∈ s.poolItems
  unmarked : i ∉ s.marked
  unclosed : ∀ t, (s.threads t).closes i = false
  reused : i ∈ s.submitted → (s.items i).Reused

theorem unclosed_setThread (h : ∀ t, (s.threads t).closes i = false) (hpc : pc.closes i = false) (u : Fin n) :
    ((s.setThread t pc).threads u).closes i = false := by
  change (update s.threads t pc u).closes i = false
  by_cases hut : u = t
  · rw [hut, update_self, hpc]
  · rw [update_of_ne hut, h u]

theorem Kept.unclosed_step (h : Kept i s) (hl : Ledgers s) (ht : Trans l s es s') (hspared : Spared i l s) (u : Fin n) :
    (s'.threads u).closes i = false := by
  have hun := h.unclosed
  cases ht with
  | stay | hit | miss | popNothing => exact hun u
  | popRequest | dropRequest | request | receive | respondEnd | respondSkip | respond | popSubmit | dropSubmit | prune =>
    exact unclosed_setThread hun rfl u
  | refuse t k st result hidle hpool hnew hst hfree hlabel =>
    obtain ⟨flags, outNull, allocOk, beyond, rfl, hwhy⟩ := hlabel
    refine unclosed_setThread hun (beq_eq_false_iff_ne.mpr fun hki => ?_) u
    obtain ⟨hparent, hnull, htype⟩ := hspared hki
    subst hki
    simp [hparent, hnull, htype] at hwhy
  | requestFail t k hpc hst hfree hlabel =>
    subst hlabel
    refine unclosed_setThread hun (beq_eq_false_iff_ne.mpr fun hki => ?_) u
    exact Bool.false_ne_true (hspared (hki ▸ hpc))
  | submit t k results gave sent st item pc storedLocality hpc hst hstored hsent hfinal hitem hfree hlabel =>
    obtain ⟨attempt, initOk, putOk, rfl, hback, hgave⟩ := hlabel
    refine unclosed_setThread hun ?_ u
    rcases hitem with ⟨_, rfl⟩ | ⟨_, rfl⟩
    · refine beq_eq_false_iff_ne.mpr fun hki => ?_
      subst hki
      obtain ⟨hinit, hok⟩ := hspared hpc
      have hnone : gave = [] := by
        rcases hstored with ⟨_, _, hnone⟩ | ⟨hneeds, _⟩
        · exact hnone
        · exact hgave.resolve_right fun hno => hno (hok hneeds)
      have hmay := (h.reused (hl.sending hpc)).mayReuse hst (by decide)
      cases hback hinit hnone hmay
    · rfl
  | destroy t k hpc => exact unclosed_setThread hun (by simpa [hpc, Pc.closes] using hun t) u
  | removeEnd t k del hpc => cases del <;> exact unclosed_setThread hun rfl u
  | removeSkip t k j rest del hpc => exact unclosed_setThread hun (by simpa [hpc, Pc.closes] using hun t) u
  | removeMark => exact unclosed_setThread hun (by simp [Pc.closes]) u

theorem Kept.reused_step (h : Kept i s) (hl : Ledgers s) (hs : Scans s) (ht : Trans l s es s') (hflag : Flagged i l)
    (hun : ∀ u, (s'.threads u).closes i = false) (hin : i ∈ s'.submitted) : (s'.items i).Reused := by
  have hdestroy : ∀ {s₁ : State n} {t k}, (∀ u, ((s₁.setThread t (.destroy k)).threads u).closes i = false) → k ≠ i := by
    intro s₁ t k hun hki
    have ht := hun t
    simp [State.setThread, Pc.closes, hki] at ht
  have hold : ∀ {k item}, k ∈ s.submitted → i ∈ s.submitted → (k = i → (s.items i).Reused → item.Reused) →
      (update s.items k item i).Reused := by
    intro k item hk hi hitem
    by_cases hik : i = k
    · rw [hik, update_self]
      exact hitem hik.symm (h.reused hi)
    · rw [update_of_ne hik]
      exact h.reused hi
  have hnew : ∀ {k item}, i ∈ k :: s.submitted → (k = i → item.Reused) → (update s.items k item i).Reused := by
    intro k item hi hitem
    by_cases hik : i = k
    · rw [hik, update_self]
      exact hitem hik.symm
    · rw [update_of_ne hik]
      exact h.reused ((mem_cons.mp hi).resolve_left hik)
  cases ht with
  | stay | popNothing | popRequest | dropRequest | receive | respondEnd | respondSkip | popSubmit | dropSubmit | destroy
  | removeEnd | removeSkip | removeMark | prune => exact h.reused hin
  | refuse => exact hnew hin fun hki => absurd hki (hdestroy hun)
  | hit k flags sf ent allocOk caches item hpool hnew' hitem hfree hlabel =>
    obtain ⟨t, outNull, beyond, rfl⟩ := hlabel
    refine hnew hin fun hki => ?_
    rw [hitem]
    exact ⟨.submitData, by simp, .inl ⟨by decide, Item.mayReuse_eventOnly _ (hflag hki)⟩⟩
  | miss k flags allocOk caches hpool hnew' hfree hlabel =>
    obtain ⟨t, outNull, beyond, rfl⟩ := hlabel
    refine hnew hin fun hki => ⟨.checkGlobalCache, by simp, .inl ⟨by decide, ?_⟩⟩
    rw [Item.mayReuse_setFlags, hflag hki, beq_self_eq_true]
  | request t k hpc hst hfree =>
    refine hold (hl.requested hpc) hin fun hki hr => ⟨.checkingGlobalCache, by simp, .inl ⟨by decide, ?_⟩⟩
    rw [Item.mayReuse_setStatus, hki]
    exact hr.mayReuse (hki ▸ hst) (by decide)
  | requestFail t k hpc => exact hold (hl.requested hpc) hin fun hki _ => absurd hki (hdestroy hun)
  | respond t res k rest allocOk caches item hpc hst hcontext hid hitem hfree =>
    have hsub : k ∈ s.submitted := by
      by_contra hout
      exact hs.waiting k (hs.ahead (by rw [hpc]; rfl)) hout hst
    refine hold hsub hin fun hki hr => ⟨.submitData, by rw [hitem]; split_ifs <;> simp, .inl ⟨by decide, ?_⟩⟩
    have hmay := hr.mayReuse (hki ▸ hst) (by decide)
    rw [hitem, hki]
    split_ifs
    · rw [Item.mayReuse_setStatus, hmay]
    · refine Item.mayReuse_eventOnly _ (beq_iff_eq.mp ?_)
      exact (Item.mayReuse_setStatus (s.items i) .submitData).trans hmay
  | submit t k results gave sent st item pc storedLocality hpc hst hstored hsent hfinal hitem hfree hlabel =>
    refine hold (hl.sending hpc) hin fun hki hr => ?_
    rcases hitem with ⟨_, rfl⟩ | ⟨rfl, _⟩
    · exact absurd hki (hdestroy hun)
    · exact ⟨st, by simp, .inr ⟨hfinal.rank, rfl⟩⟩

theorem Kept.step (h : Kept i s) (hl : Ledgers s) (hs : Scans s) (ht : Trans l s es s') (hspared : Spared i l s)
    (hflag : Flagged i l) : Kept i s' := by
  have hun := h.unclosed_step hl ht hspared
  have hpool : i ∈ s'.poolItems ∧ i ∉ s'.marked := by
    cases ht with
    | removeMark t k rest del hpc hfree =>
      have hki : i ≠ k := by
        rintro rfl
        have hk := h.unclosed t
        cases del with
        | false => simp [hpc, Pc.closes] at hk
        | true => exact hs.passed t i _ hpc mem_cons_self
      refine ⟨(poolItems_mark s k).symm ▸ h.pool, count_eq_zero.mp ?_⟩
      exact (marked_mark s.pool k i).trans ((if_neg hki).trans (count_eq_zero.mpr h.unmarked))
    | prune t freed hpc hread hfree =>
      obtain ⟨node, hnode, rfl⟩ := mem_map.mp h.pool
      have hdel : node.del = false := Bool.eq_false_iff.mpr fun hdel =>
        h.unmarked (mem_map.mpr ⟨node, mem_filter.mpr ⟨hnode, hdel⟩, rfl⟩)
      refine ⟨mem_map.mpr ⟨node, mem_filter.mpr ⟨hnode, by rw [hdel]; rfl⟩, rfl⟩, fun hm => ?_⟩
      simp [State.setThread, State.marked] at hm
    | _ => exact ⟨h.pool, h.unmarked⟩
  exact ⟨hpool.1, hpool.2, hun, h.reused_step hl hs ht hflag hun⟩

theorem Inv.called (h : Inv notify es s) (hc : .callback i ∈ es) :
    height s i = 4 ∧ i ∉ s.requestQueue.items ∧ i ∉ s.submitQueue.items := by
  obtain ⟨life, hrun, hg⟩ := h.lives i
  have hcalled : life.called := by
    have hin : .callback ∈ acts i es := mem_filterMap.mpr ⟨_, hc, if_pos rfl⟩
    have hcount := count_pos_iff.mpr hin
    rw [Life.count_callback hrun] at hcount
    cases hb : life.called
    · simp [hb] at hcount
    · rfl
  have hheight : ¬height s i < 4 := fun hlow => by
    rw [hg.called hlow] at hcalled
    cases hcalled
  have hrank : ∀ {st : Status}, (ledger s i).status = some st → st.rank < 4 → False :=
    fun hst hlow => hheight ((Ledger.height_of_status hst).trans_lt hlow)
  refine ⟨?_, fun hin => ?_, fun hin => ?_⟩
  · have hle : height s i ≤ 4 := by
      rw [height, Ledger.height]
      cases (ledger s i).status with
      | none => decide
      | some st => cases st <;> decide
    omega
  · exact hrank (hg.asked (Nat.add_pos_left (count_pos_iff.mpr hin) _)) (by decide)
  · exact hrank (hg.sent (Nat.add_pos_left (count_pos_iff.mpr hin) _)) (by decide)

end

/-- An item that is submitted with the flag and takes none of the exits that ignore it stays in the pool, and once its
callback has run it has no data and is on no queue. -/
theorem reusable_stays {n : ℕ} (items : ℕ → Item) (ids : List ℕ) (caches : LocalCache.Caches) (hids : ids.Nodup)
    (hst : ∀ i ∈ ids, (items i).getStatus = Status.collecting.code ∨ (items i).getStatus = Status.finalized.code)
    (ls : List (Label n)) {i : ℕ} (hi : i ∈ ids)
    (hspared : Along (fun l s => Flagged i l ∧ Spared i l s) step ls (State.init items ids caches)) :
    ∀ rs s, run step ls (State.init items ids caches) = .ok (rs, s) →
      (i ∈ s.poolItems ∧ i ∉ s.marked ∧ i ∉ s.freed) ∧
      (.callback i ∈ rs.flatten →
        (s.items i).hasData = false ∧ i ∉ s.requestQueue.items ∧ i ∉ s.submitQueue.items) := by
  intro rs s hrun
  have hinit : Inv (fun i => (items i).submittedCallback) [] (State.init items ids caches : State n) ∧
      Kept i (State.init items ids caches : State n) := by
    refine ⟨Inv.init hids hst caches, ?_, ?_, fun _ => rfl, nofun⟩
    · simpa [State.init, State.poolItems, comp_def] using hi
    · simp [State.init, State.marked, filter_map]
  obtain ⟨hinv, hkept⟩ := run_events
    (I := fun es s => Inv (fun i => (items i).submittedCallback) es s ∧ Kept i s)
    (fun es l s es' s' h hl hs => ⟨h.1.step hs, h.2.step h.1.ledgers h.1.scans (step_trans hs) hl.2 hl.1⟩) hinit hspared hrun
  refine ⟨⟨hkept.pool, hkept.unmarked, fun hf => hinv.scans.gone i hf hkept.pool⟩, fun hc => ?_⟩
  obtain ⟨hheight, hrequest, hsubmit⟩ := hinv.called hc
  have hsub : i ∈ s.submitted := by
    by_contra hout
    rw [height_new hout] at hheight
    cases hheight
  obtain ⟨st, hcode, ⟨hlow, _⟩ | ⟨_, hdata⟩⟩ := hkept.reused hsub
  · rw [height_of_code hsub hcode] at hheight
    omega
  · exact ⟨hdata, hrequest, hsubmit⟩

/-- An item that needs no store and is sent after a local cache miss and a response. -/
theorem reusable_stays_sent : ∃ rs s,
    run step [.submit 0 0 (flagMayReuse ||| flagUpdate) false true fun _ _ _ => 0, .popRequest 0, .request 0 true,
        .receive 0 ⟨⟨[1], 1, 1⟩, 0, 0, 0⟩, .respond 0 true true, .respond 0 true true, .popSubmit 0,
        .transfer 0 (fun _ => none) true true]
      (State.init (fun _ => ⟨0x02, true, true, 0, ⟨[1], 1, 1⟩, none⟩) [0]
        (LocalCache.initcache (fun _ _ => LocalCache.blankEntry) 1 1) : State 1) = .ok (rs, s) ∧
    (0 ∈ s.poolItems ∧ 0 ∉ s.marked ∧ 0 ∉ s.freed) ∧
      (.callback 0 ∈ rs.flatten → (s.items 0).hasData = false ∧ 0 ∉ s.requestQueue.items ∧ 0 ∉ s.submitQueue.items) :=
  exists_of_isOk rfl <| reusable_stays (fun _ => ⟨0x02, true, true, 0, ⟨[1], 1, 1⟩, none⟩) [0] _ (by decide) (fun _ _ => .inr (by decide)) _
    mem_cons_self
    (along_cons ⟨fun _ => by decide, fun _ => by decide⟩ rfl <| along_cons ⟨trivial, trivial⟩ rfl <|
      along_cons ⟨trivial, fun _ => rfl⟩ rfl <| along_cons ⟨trivial, trivial⟩ rfl <| along_cons ⟨trivial, trivial⟩ rfl <|
      along_cons ⟨trivial, trivial⟩ rfl <| along_cons ⟨trivial, trivial⟩ rfl <|
      along_cons ⟨trivial, fun _ => ⟨rfl, fun h => absurd h (by decide)⟩⟩ rfl trivial)

/-- An item with the flag is destroyed if it has no data type, and if no dispatcher takes its data. -/
theorem reusable_destroyed :
    (∃ rs s, run step [.submit 0 0 flagMayReuse false true fun _ _ _ => 0, .destroy 0, .remove 0, .remove 0, .prune 0]
        (State.init (fun _ => ⟨0x02, true, true, 0, ⟨[1], 0, 1⟩, none⟩) [0]
          (LocalCache.initcache (fun _ _ => LocalCache.blankEntry) 1 1) : State 1) = .ok (rs, s) ∧
      .destroyed 0 ∈ rs.flatten ∧ s.poolItems = []) ∧
    ∃ rs s, run step [.submit 0 0 flagMayReuse false true fun _ _ _ => 0, .popRequest 0, .request 0 true,
          .receive 0 ⟨⟨[1], 1, 1⟩, sfFlagCanHaz, 0, 0⟩, .respond 0 true true, .respond 0 true true, .popSubmit 0,
          .transfer 0 (fun _ => none) true true, .destroy 0, .remove 0, .remove 0, .prune 0]
        (State.init (fun _ => ⟨0x02, true, true, 0, ⟨[1], 1, 1⟩, none⟩) [0]
          (LocalCache.initcache (fun _ _ => LocalCache.blankEntry) 1 1) : State 1) = .ok (rs, s) ∧
      .destroyed 0 ∈ rs.flatten ∧ s.poolItems = [] :=
  ⟨⟨_, _, rfl, by decide, rfl⟩, ⟨_, _, rfl, by decide, rfl⟩⟩

/-! ### Copies of dispatchers -/

/-- The loop over `transferTries`, where each try that finds a dispatcher gets the copy of its number: the status it ends
with, the copy of a success and the copies that were got. -/
def storeCopies (attempt : Attempts) : ℕ → ℕ → TransferStatus → TransferStatus × Option ℕ × List ℕ
  | 0, _, transfered => (transfered, none, [])
  | fuel + 1, tries, _ =>
    match attempt tries with
    | none => (.failLocal, none, [])
    | some (_, .ok) => (.ok, some tries, [tries])
    | some (_, result) =>
      let (transfered, copy, copies) := storeCopies attempt fuel (tries + 1) result
      (transfered, copy, tries :: copies)

inductive CopyEvent
  /-- `ConnectedEntityList_GetDispatcher` returned it. -/
  | got (item tries : ℕ)
  /-- `ConnectedEntity_Destroy` was called with it. -/
  | released (item tries : ℕ)
  deriving DecidableEq

def releaseCopy (k : ℕ) : TransferStatus × Option ℕ × List ℕ → List CopyEvent
  | (.ok, some copy, copies) => copies.map (.got k) ++ [.released k copy]
  | (_, _, copies) => copies.map (.got k)

def Work.copies (work : Work) (k : ℕ) : List CopyEvent :=
  if !work.due then []
  else if work.needsStore then releaseCopy k (storeCopies work.attempt transferTries 0 .failLocal)
  else []

/-- The copies of the items that a worker has taken, the first of them numbered `k`. -/
def copyTrace : ℕ → List Work → List CopyEvent
  | _, [] => []
  | k, work :: works => work.copies k ++ copyTrace (k + 1) works

/-- No `Transfer_Store` for the item fails. -/
def Work.StoredAtOnce (work : Work) : Prop :=
  work.due = true → work.needsStore = true → ∀ result ∈ (storeTries work.attempt transferTries 0 .failLocal).2.2, result = .ok

section
variable {attempt : Attempts} {fuel tries k item copy : ℕ} {last : TransferStatus} {work : Work} {works : List Work}

theorem storeCopies_le (h : (storeCopies attempt fuel tries last).2.1 = some copy) : tries ≤ copy := by
  induction fuel generalizing tries last with
  | zero => cases h
  | succ fuel ih =>
    unfold storeCopies at h
    split at h
    · cases h
    · exact (Option.some.inj h).le
    · exact Nat.le_of_succ_le (ih h)

theorem mem_releaseCopy : e ∈ releaseCopy k p ↔
    (∃ c ∈ p.2.2, e = .got k c) ∨ ∃ c, p.1 = .ok ∧ p.2.1 = some c ∧ e = .released k c := by
  obtain ⟨_ | _ | _, _ | copy, copies⟩ := p <;> simp [releaseCopy, eq_comm]

theorem count_releaseCopy_le (p : TransferStatus × Option ℕ × List ℕ) : (releaseCopy k p).count (.released k copy) ≤ 1 := by
  have hgot : ∀ copies : List ℕ, (copies.map (CopyEvent.got k)).count (.released k copy) = 0 :=
    fun copies => count_eq_zero.mpr (by simp)
  obtain ⟨_ | _ | _, _ | c, copies⟩ := p <;> simp [releaseCopy, hgot, count_singleton]
  split_ifs <;> omega

theorem item_of_mem_copies (h : e ∈ work.copies k) : ∃ c, e = .got k c ∨ e = .released k c := by
  unfold Work.copies at h
  split_ifs at h
  · cases h
  · rcases mem_releaseCopy.mp h with ⟨c, _, rfl⟩ | ⟨c, _, _, rfl⟩
    · exact ⟨c, .inl rfl⟩
    · exact ⟨c, .inr rfl⟩
  · cases h

theorem item_of_mem_copyTrace (h : e ∈ copyTrace k works) :
    ∃ item c, k ≤ item ∧ (e = .got item c ∨ e = .released item c) := by
  induction works generalizing k with
  | nil => cases h
  | cons work works ih =>
    rcases mem_append.mp h with h | h
    · obtain ⟨c, hc⟩ := item_of_mem_copies h
      exact ⟨k, c, le_rfl, hc⟩
    · obtain ⟨item, c, hk, hc⟩ := ih h
      exact ⟨item, c, Nat.le_of_succ_le hk, hc⟩

theorem releaseCopy_iff : (∀ copy, .got k copy ∈ releaseCopy k (storeCopies attempt (fuel + 1) tries last) →
      .released k copy ∈ releaseCopy k (storeCopies attempt (fuel + 1) tries last)) ↔
    ∀ result ∈ (storeTries attempt (fuel + 1) tries last).2.2, result = .ok := by
  simp only [mem_releaseCopy, reduceCtorEq, and_false, exists_false, or_false, false_or, CopyEvent.got.injEq,
    CopyEvent.released.injEq, true_and, exists_eq_right']
  unfold storeCopies storeTries
  rcases attempt tries with _ | ⟨dispatcher, _ | _ | _⟩
  · simp
  · simp
  all_goals
    -- the copy that is got first is not the one of a later success
    refine iff_of_false (fun h => ?_) fun h => by cases h _ mem_cons_self
    obtain ⟨copy, _, hcopy, rfl⟩ := h tries mem_cons_self
    exact absurd (@storeCopies_le attempt fuel (tries + 1) _ _ hcopy) (by omega)

theorem copies_released_iff : (∀ copy, .got k copy ∈ work.copies k → .released k copy ∈ work.copies k) ↔
    work.StoredAtOnce := by
  unfold Work.copies Work.StoredAtOnce
  cases work.due with
  | false => simp
  | true =>
    cases work.needsStore with
    | false => simp
    | true => exact (@releaseCopy_iff work.attempt 19 0 k .failLocal).trans ⟨fun h _ _ => h, fun h => h rfl rfl⟩

theorem count_copies_le : (work.copies k).count (.released k copy) ≤ 1 := by
  unfold Work.copies
  split_ifs
  · exact Nat.zero_le _
  · exact count_releaseCopy_le _
  · exact Nat.zero_le _

theorem copyTrace_released_iff : (∀ item copy, .got item copy ∈ copyTrace k works →
      (copyTrace k works).count (.released item copy) = 1) ↔ ∀ work ∈ works, work.StoredAtOnce := by
  induction works generalizing k with
  | nil => simp [copyTrace]
  | cons work works ih =>
    rw [forall_mem_cons, ← copies_released_iff, ← ih]
    -- an item's copies are mentioned in its own round only
    have hround : ∀ {copy}, .got k copy ∉ copyTrace (k + 1) works ∧ .released k copy ∉ copyTrace (k + 1) works := by
      intro copy
      constructor <;> intro h <;> obtain ⟨item, c, hk, he | he⟩ := item_of_mem_copyTrace h <;> cases he <;> omega
    have hlater : ∀ {item copy}, .got item copy ∈ copyTrace (k + 1) works → .released item copy ∉ work.copies k := by
      intro item copy hgot hrel
      obtain ⟨c, he | he⟩ := item_of_mem_copies hrel <;> cases he
      exact hround.1 hgot
    simp only [copyTrace, mem_append, count_append]
    constructor
    · refine fun h => ⟨fun copy hgot => ?_, fun item copy hgot => ?_⟩
      · have h1 := h k copy (.inl hgot)
        rw [count_eq_zero.mpr hround.2] at h1
        exact count_pos_iff.mp (by omega)
      · have h1 := h item copy (.inr hgot)
        rwa [count_eq_zero.mpr (hlater hgot), Nat.zero_add] at h1
    · rintro ⟨hhead, htail⟩ item copy (hgot | hgot)
      · obtain ⟨c, he | he⟩ := item_of_mem_copies hgot <;> cases he
        have hle := @count_copies_le k copy work
        have hpos := count_pos_iff.mpr (hhead copy hgot)
        rw [count_eq_zero.mpr hround.2]
        omega
      · rw [count_eq_zero.mpr (hlater hgot), htail item copy hgot]

end

/-- When a submit worker has processed the items `works`, every copy that it got is destroyed exactly once if and only if
no `Transfer_Store` for one of the items failed. -/
theorem dispatcher_copies_released_iff (works : List Work) :
    (∀ item copy, .got item copy ∈ copyTrace 0 works → (copyTrace 0 works).count (.released item copy) = 1) ↔
      ∀ work ∈ works, work.StoredAtOnce :=
  copyTrace_released_iff

/-- The first try fails, the second stores the data: the first copy is lost. -/
theorem dispatcher_copy_lost : copyTrace 0 [⟨Status.submitData.code, none,
    fun tries => some (⟨1, 7⟩, if tries = 0 then .failDispatcher else .ok), true⟩] = [.got 0 0, .got 0 1, .released 0 1] :=
  rfl

end Razorback.Submission
