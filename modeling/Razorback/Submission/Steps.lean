import Razorback.Submission.Defs

/-! What a step of the pipeline can do, said once: every step is one of the
transitions below, each with its guard and its exact effect. -/

namespace Razorback.Submission
open Runs Razorback.Lists Function
open Transfer (TransferStatus)

theorem or_and_distrib (a b m : UInt32) : (a ||| b) &&& m = (a &&& m) ||| (b &&& m) :=
  UInt32.eq_of_toBitVec_eq (by simp [BitVec.and_or_distrib_right])

namespace Item

@[simp] theorem getStatus_setStatus (item : Item) (st : Status) :
    (item.setStatus st).getStatus = st.code := by
  have hmask : flagMask &&& statusMask = 0 := by decide
  have hcode : st.code &&& statusMask &&& statusMask = st.code := by cases st <;> decide
  simp only [getStatus, setStatus, or_and_distrib, hcode, UInt32.and_assoc, hmask, UInt32.and_zero,
    UInt32.or_zero]

@[simp] theorem getStatus_setFlags (item : Item) (flags : UInt32) :
    (item.setFlags flags).getStatus = item.getStatus := by
  have hmask : flagMask &&& statusMask = 0 := by decide
  simp only [getStatus, setFlags, or_and_distrib, UInt32.and_assoc, hmask, UInt32.and_zero,
    UInt32.zero_or, UInt32.and_self]

@[simp] theorem getStatus_dropData (item : Item) : item.dropData.getStatus = item.getStatus := rfl

@[simp] theorem mayReuse_setStatus (item : Item) (st : Status) : (item.setStatus st).mayReuse = item.mayReuse := by
  have hstatus : statusMask &&& flagMayReuse = 0 := by decide
  have hflag : flagMask &&& flagMayReuse = flagMayReuse := by decide
  simp only [mayReuse, setStatus, or_and_distrib, UInt32.and_assoc, hstatus, hflag, UInt32.and_zero, UInt32.zero_or]

end Item

section
variable {n : ℕ}

def Status.Final (st : Status) : Prop := st = .finalized ∨ st = .error ∨ st = .noType

inductive Trans (l : Label n) (s : State n) : List Event → State n → Prop
  | stay : Trans l s [] s
  | refuse (t : Fin n) (i : ℕ) (st : Status) (result : SubmitResult) (hidle : s.threads t = .idle)
      (hpool : i ∈ s.poolItems) (hnew : i ∉ s.submitted) (hst : st.Final)
      (hfree : i ∉ s.freed) (hlabel : ∃ flags outNull allocOk beyond, l = .submit t i flags outNull allocOk beyond ∧
        ((s.items i).pParentId = some (s.items i).pId ∨ outNull = true ∨ (s.items i).pId.uuidDataType = 0)) :
      Trans l s (.touched i :: .status i st :: callbackEvents i (s.items i) ++ [.returned i result])
        (({ s with submitted := i :: s.submitted }.setItem i ((s.items i).setStatus st)).setThread t
          (.destroy i))
  | hit (i : ℕ) (flags sf ent : UInt32) (allocOk : Bool) (caches : LocalCache.Caches) (item : Item)
      (hpool : i ∈ s.poolItems) (hnew : i ∉ s.submitted)
      (hitem : item = ((s.items i).dropData.setStatus .submitData).setFlags (flags ||| flagEventOnly))
      (hfree : i ∉ s.freed) (hlabel : ∃ t outNull beyond, l = .submit t i flags outNull allocOk beyond) :
      Trans l s (.touched i :: .hit i :: .status i .submitData ::
          (if allocOk then [.pushed i item.needsStore] else []) ++ [.returned i (.ok sf ent)])
        ({ s with
          submitted := i :: s.submitted
          caches := caches
          submitQueue := if allocOk then s.submitQueue.pushItem i else s.submitQueue }.setItem i item)
  | miss (i : ℕ) (flags : UInt32) (allocOk : Bool) (caches : LocalCache.Caches)
      (hpool : i ∈ s.poolItems) (hnew : i ∉ s.submitted)
      (hfree : i ∉ s.freed) (hlabel : ∃ t outNull beyond, l = .submit t i flags outNull allocOk beyond) :
      Trans l s [.touched i, .status i .checkGlobalCache, .returned i (.ok 0 0)]
        ({ s with
          submitted := i :: s.submitted
          caches := caches
          requestQueue := if allocOk then s.requestQueue.pushItem i else s.requestQueue }.setItem i
          (((s.items i).setStatus .checkGlobalCache).setFlags flags))
  | popNothing (requestQueue submitQueue : Seq ℕ) (hrequest : requestQueue.items = s.requestQueue.items)
      (hsubmit : submitQueue.items = s.submitQueue.items) :
      Trans l s [] { s with requestQueue := requestQueue, submitQueue := submitQueue }
  | popRequest (t : Fin n) (i : ℕ) (queue : Seq ℕ) (hidle : s.threads t = .idle)
      (hqueue : s.requestQueue.items.Perm (i :: queue.items))
      (hfree : i ∉ s.freed) :
      Trans l s [.touched i] ({ s with requestQueue := queue }.setThread t (.request i))
  | dropRequest (t : Fin n) (i : ℕ) (hpc : s.threads t = .request i)
      (hst : (s.items i).getStatus ≠ Status.checkGlobalCache.code)
      (hfree : i ∉ s.freed) :
      Trans l s [.touched i] (s.setThread t .idle)
  | request (t : Fin n) (i : ℕ) (hpc : s.threads t = .request i)
      (hst : (s.items i).getStatus = Status.checkGlobalCache.code)
      (hfree : i ∉ s.freed) :
      Trans l s [.touched i, .status i .checkingGlobalCache]
        ((s.setItem i ((s.items i).setStatus .checkingGlobalCache)).setThread t .idle)
  | requestFail (t : Fin n) (i : ℕ) (hpc : s.threads t = .request i)
      (hst : (s.items i).getStatus = Status.checkGlobalCache.code)
      (hfree : i ∉ s.freed) (hlabel : l = .request t false) :
      Trans l s (.touched i :: .status i .checkingGlobalCache :: .status i .error ::
          callbackEvents i (s.items i))
        ((s.setItem i (((s.items i).setStatus .checkingGlobalCache).setStatus .error)).setThread t
          (.destroy i))
  | receive (t : Fin n) (res : CacheResult) (hidle : s.threads t = .idle) :
      Trans l s [.received res] (s.setThread t (.respond res s.poolItems))
  | respondEnd (t : Fin n) (res : CacheResult) (hpc : s.threads t = .respond res []) :
      Trans l s [] (s.setThread t .idle)
  | respondSkip (t : Fin n) (res : CacheResult) (i : ℕ) (rest : List ℕ)
      (hpc : s.threads t = .respond res (i :: rest))
      (hfree : i ∉ s.freed) :
      Trans l s [.touched i] (s.setThread t (.respond res rest))
  | respond (t : Fin n) (res : CacheResult) (i : ℕ) (rest : List ℕ) (allocOk : Bool)
      (caches : LocalCache.Caches) (item : Item) (hpc : s.threads t = .respond res (i :: rest))
      (hst : (s.items i).getStatus = Status.checkingGlobalCache.code)
      (hcontext : (s.items i).context = res.context) (hid : (s.items i).pId = res.pId)
      (hitem : item = if res.canHaz then (s.items i).setStatus .submitData
        else ((s.items i).setStatus .submitData).setFlags
          (((s.items i).setStatus .submitData).iStatus ||| flagEventOnly))
      (hfree : i ∉ s.freed) :
      Trans l s (.touched i :: .matched i res :: .status i .submitData ::
          (if allocOk then [.pushed i item.needsStore] else []))
        (({ s with
          caches := caches
          submitQueue := if allocOk then s.submitQueue.pushItem i else s.submitQueue }.setItem i
          item).setThread t (.respond res rest))
  | popSubmit (t : Fin n) (i : ℕ) (queue : Seq ℕ) (hidle : s.threads t = .idle)
      (hqueue : s.submitQueue.items.Perm (i :: queue.items))
      (hfree : i ∉ s.freed) :
      Trans l s [.touched i] ({ s with submitQueue := queue }.setThread t (.submit i))
  | dropSubmit (t : Fin n) (i : ℕ) (hpc : s.threads t = .submit i)
      (hst : (s.items i).getStatus ≠ Status.submitData.code)
      (hfree : i ∉ s.freed) :
      Trans l s [.touched i] (s.setThread t .idle)
  | submit (t : Fin n) (i : ℕ) (results : List TransferStatus) (gave sent : List Event) (st : Status)
      (item : Item) (pc : Pc) (storedLocality : Fin n → UInt8) (hpc : s.threads t = .submit i)
      (hst : (s.items i).getStatus = Status.submitData.code)
      (hstored : (s.items i).needsStore = false ∧ results = [] ∧ gave = [] ∨
        (s.items i).needsStore = true ∧ (.ok ∈ results ∧ gave = [] ∨
          .ok ∉ results ∧ gave = [.gaveUp i]))
      (hsent : sent = [] ∨ ∃ reason locality, sent = [.published i reason locality])
      (hfinal : st.Final) (hitem : item = (s.items i).setStatus st ∧ pc = .destroy i ∨
        item = (((s.items i).setStatus st).setFlags 0).dropData ∧ pc = .idle)
      (hfree : i ∉ s.freed) (hlabel : ∃ attempt initOk putOk, l = .transfer t attempt initOk putOk ∧
        (initOk = true → gave = [] → (s.items i).mayReuse = true → pc = .idle) ∧
        (gave = [] ∨ .ok ∉ (storeTries attempt transferTries 0 .failLocal).2.2)) :
      Trans l s (.touched i :: (results.map (.stored i) ++
          (gave ++ (sent ++ .status i st :: callbackEvents i (s.items i)))))
        (({ s with storedLocality := storedLocality }.setItem i item).setThread t pc)
  | destroy (t : Fin n) (i : ℕ) (hpc : s.threads t = .destroy i) :
      Trans l s [] (s.setThread t (.remove i s.poolItems false))
  | removeEnd (t : Fin n) (i : ℕ) (del : Bool) (hpc : s.threads t = .remove i [] del) :
      Trans l s [] (s.setThread t (if del then .prune else .idle))
  | removeSkip (t : Fin n) (i j : ℕ) (rest : List ℕ) (del : Bool)
      (hpc : s.threads t = .remove i (j :: rest) del) (hne : j ≠ i)
      (hfree : j ∉ s.freed) :
      Trans l s [.touched j] (s.setThread t (.remove i rest del))
  | removeMark (t : Fin n) (i : ℕ) (rest : List ℕ) (del : Bool)
      (hpc : s.threads t = .remove i (i :: rest) del)
      (hfree : i ∉ s.freed) :
      Trans l s [.touched i] ((s.mark i).setThread t (.remove i rest true))
  | prune (t : Fin n) (freed : List ℕ) (hpc : s.threads t = .prune)
      (hread : ∀ u, (s.threads u).reading = false) (hfree : freeAll s.marked s.freed = .ok freed) :
      Trans l s (s.marked.map .destroyed)
        ({ s with freed := freed, pool := s.pool.filter fun node => !node.del }.setThread t .idle)

variable {s s' : State n} {es : List Event} {t : Fin n} {i : ℕ} {l : Label n}

theorem touch_eq_ok (h : s.touch i = .ok ()) : i ∉ s.freed := by
  unfold State.touch at h
  split_ifs at h with hf
  exact hf

theorem pushSubmit_eq (s : State n) (allocOk : Bool) (i : ℕ) :
    s.pushSubmit allocOk i = (if allocOk then [.pushed i (s.items i).needsStore] else [],
      { s with submitQueue := if allocOk then s.submitQueue.pushItem i else s.submitQueue }) := by
  cases allocOk <;> rfl

theorem pushRequest_eq (s : State n) (allocOk : Bool) (i : ℕ) :
    s.pushRequest allocOk i =
      { s with requestQueue := if allocOk then s.requestQueue.pushItem i else s.requestQueue } := by
  cases allocOk <;> rfl

theorem submissionSubmit_trans {flags : UInt32} {outNull allocOk : Bool}
    {beyond : LocalCache.CacheType → ℕ → ℕ → UInt8} (hidle : s.threads t = .idle)
    (hpool : i ∈ s.poolItems) (hnew : i ∉ s.submitted) (hfree : i ∉ s.freed)
    (h : submissionSubmit t i flags outNull allocOk beyond { s with submitted := i :: s.submitted } =
      .ok (es, s')) : Trans (.submit t i flags outNull allocOk beyond) s (.touched i :: es) s' := by
  unfold submissionSubmit at h
  dsimp only at h
  split_ifs at h with hself hnull htype
  · cases h
    exact .refuse t i .error .error hidle hpool hnew (.inr (.inl rfl)) hfree ⟨_, _, _, _, rfl, .inl hself⟩
  · cases h
    exact .refuse t i .error .error hidle hpool hnew (.inr (.inl rfl)) hfree ⟨_, _, _, _, rfl, .inr (.inl hnull)⟩
  · cases h
    exact .refuse t i .noType .noType hidle hpool hnew (.inr (.inr rfl)) hfree ⟨_, _, _, _, rfl, .inr (.inr htype)⟩
  · obtain ⟨⟨found, caches⟩, _, h⟩ := bind_eq_ok.mp h
    cases found with
    | some flags' =>
      simp only [pushSubmit_eq, State.setItem, update_self] at h
      cases h
      exact .hit i flags flags'.1 flags'.2 allocOk caches _ hpool hnew rfl hfree ⟨_, _, _, rfl⟩
    | none =>
      simp only [pushRequest_eq] at h
      cases h
      exact .miss i flags allocOk caches hpool hnew hfree ⟨_, _, _, rfl⟩

theorem requestSection_trans (hpc : s.threads t = .request i) (hfree : i ∉ s.freed) :
    Trans (.request t sendOk) s (.touched i :: (requestSection t i sendOk s).1) (requestSection t i sendOk s).2 := by
  unfold requestSection
  dsimp only
  split_ifs with hst hsend
  · exact .dropRequest t i hpc hst hfree
  · exact .request t i hpc (not_not.mp hst) hfree
  · obtain rfl := Bool.eq_false_iff.mpr hsend
    have h := Trans.requestFail t i hpc (not_not.mp hst) hfree rfl
    simpa [finish, State.setItem, callbackEvents, Item.setStatus] using h

theorem responseHandler_trans (hpc : s.threads t = .respond res (i :: rest)) (hfree : i ∉ s.freed)
    (h : responseHandler allocOk mallocOk res i s = .ok (es, s')) :
    Trans l s (.touched i :: es) (s'.setThread t (.respond res rest)) := by
  by_cases hmatch : (s.items i).getStatus = Status.checkingGlobalCache.code ∧
      (s.items i).context = res.context ∧ (s.items i).pId = res.pId
  · rw [responseHandler, if_pos hmatch] at h
    obtain ⟨⟨_, caches⟩, _, h⟩ := bind_eq_ok.mp h
    simp only [pushSubmit_eq, State.setItem, update_self] at h
    cases h
    exact .respond t res i rest allocOk caches _ hpc hmatch.1 hmatch.2.1 hmatch.2.2 rfl hfree
  · rw [responseHandler, if_neg hmatch] at h
    cases h
    exact .respondSkip t res i rest hpc hfree

structure Closes (s : State n) (t : Fin n) (i : ℕ) (p : List Event × State n) (st : Status) (pc : Pc) :
    Prop where
  final : st.Final
  shape : ∃ sent item, p = (sent ++ .status i st :: callbackEvents i (s.items i),
      (s.setItem i item).setThread t pc) ∧
    (sent = [] ∨ ∃ reason locality, sent = [.published i reason locality]) ∧
    (item = (s.items i).setStatus st ∧ pc = .destroy i ∨
      item = (((s.items i).setStatus st).setFlags 0).dropData ∧ pc = .idle)

theorem finish_closes (s : State n) (t : Fin n) (i : ℕ) :
    Closes s t i (finish t i .error s) .error (.destroy i) :=
  ⟨.inr (.inl rfl), [], _, rfl, .inl rfl, .inl ⟨rfl, rfl⟩⟩

theorem publish_closes (s : State n) (t : Fin n) (i : ℕ) (reason : Reason) (initOk putOk : Bool) :
    ∃ st pc, Closes s t i (publish t i reason initOk putOk s) st pc ∧
      (initOk → (s.items i).mayReuse → pc = .idle) := by
  cases initOk with
  | false => exact ⟨_, _, finish_closes s t i, nofun⟩
  | true =>
    obtain ⟨st, sent, hst, hsent, heq⟩ : ∃ st sent, st.Final ∧
        (sent = [] ∨ ∃ reason locality, sent = [.published i reason locality]) ∧
        publish t i reason true putOk s = if ((s.items i).setStatus st).mayReuse then
          (sent ++ .status i st :: callbackEvents i (s.items i),
            (s.setItem i (((s.items i).setStatus st).setFlags 0).dropData).setThread t .idle)
        else (sent ++ .status i st :: callbackEvents i (s.items i),
          (s.setItem i ((s.items i).setStatus st)).setThread t (.destroy i)) := by
      cases putOk with
      | false => exact ⟨.error, [], .inr (.inl rfl), .inl rfl, rfl⟩
      | true => exact ⟨.finalized, _, .inl rfl, .inr ⟨reason, _, rfl⟩, rfl⟩
    rw [heq, Item.mayReuse_setStatus]
    split_ifs with hreuse
    · exact ⟨st, .idle, ⟨hst, sent, _, rfl, hsent, .inr ⟨rfl, rfl⟩⟩, fun _ _ => rfl⟩
    · exact ⟨st, .destroy i, ⟨hst, sent, _, rfl, hsent, .inl ⟨rfl, rfl⟩⟩, fun _ h => absurd h hreuse⟩

theorem storeTries_spec (hlast : last ≠ .ok)
    (h : storeTries attempt fuel tries last = (transfered, dispatcher, results)) :
    transfered = .ok ∧ dispatcher.isSome ∧ .ok ∈ results ∨ transfered ≠ .ok ∧ .ok ∉ results := by
  induction fuel generalizing tries last results with
  | zero =>
    obtain ⟨rfl, rfl, rfl⟩ : last = transfered ∧ none = dispatcher ∧ [] = results := by
      simpa [storeTries] using h
    exact .inr ⟨hlast, List.not_mem_nil⟩
  | succ fuel ih =>
    unfold storeTries at h
    split at h
    · obtain ⟨rfl, rfl, rfl⟩ : .failLocal = transfered ∧ none = dispatcher ∧ [] = results := by
        simpa using h
      exact .inr ⟨by decide, List.not_mem_nil⟩
    · rename_i d _
      obtain ⟨rfl, rfl, rfl⟩ : .ok = transfered ∧ some d = dispatcher ∧ [.ok] = results := by
        simpa using h
      exact .inl ⟨rfl, rfl, List.mem_singleton_self _⟩
    · rename_i result hne _
      rcases hrest : storeTries attempt fuel (tries + 1) result with ⟨last', dispatcher', results'⟩
      simp only [hrest] at h
      obtain ⟨rfl, rfl, rfl⟩ := h
      rcases ih hne hrest with ⟨hok, hd, hmem⟩ | ⟨hok, hmem⟩
      · exact .inl ⟨hok, hd, List.mem_cons_of_mem _ hmem⟩
      · refine .inr ⟨hok, fun hin => ?_⟩
        rcases List.mem_cons.mp hin with rfl | hin
        · exact hne rfl
        · exact hmem hin

theorem submitSection_trans (hpc : s.threads t = .submit i) (hfree : i ∉ s.freed) :
    Trans (.transfer t attempt initOk putOk) s (.touched i :: (submitSection t i attempt initOk putOk s).1)
      (submitSection t i attempt initOk putOk s).2 := by
  by_cases hst : (s.items i).getStatus = Status.submitData.code
  · cases hneeds : (s.items i).needsStore with
    | false =>
      obtain ⟨st, pc, ⟨hfinal, sent, item, hp, hsent, hitem⟩, hback⟩ := publish_closes s t i .event initOk putOk
      have hsec : submitSection t i attempt initOk putOk s = publish t i .event initOk putOk s := by
        simp [submitSection, hst, hneeds]
      rw [hsec, hp]
      exact .submit t i [] [] sent st item pc s.storedLocality hpc hst (.inl ⟨hneeds, rfl, rfl⟩) hsent
        hfinal hitem hfree ⟨_, _, _, rfl, fun hi _ => hback hi, .inl rfl⟩
    | true =>
      rcases hs : storeTries attempt transferTries 0 .failLocal with ⟨transfered, dispatcher, results⟩
      rcases storeTries_spec (by decide) hs with ⟨rfl, hd, hok⟩ | ⟨hne, hok⟩
      · obtain ⟨dispatcher, rfl⟩ := Option.isSome_iff_exists.mp hd
        obtain ⟨st, pc, ⟨hfinal, sent, item, hp, hsent, hitem⟩, hback⟩ := publish_closes
          { s with storedLocality := update s.storedLocality t dispatcher.locality } t i
          .requested initOk putOk
        have hsec : submitSection t i attempt initOk putOk s = (results.map (.stored i) ++
            (publish t i .requested initOk putOk { s with
              storedLocality := update s.storedLocality t dispatcher.locality }).1,
            (publish t i .requested initOk putOk { s with
              storedLocality := update s.storedLocality t dispatcher.locality }).2) := by
          simp [submitSection, hst, hneeds, hs]
        rw [hsec, hp]
        exact .submit t i results [] sent st item pc _ hpc hst (.inr ⟨hneeds, .inl ⟨hok, rfl⟩⟩) hsent
          hfinal hitem hfree ⟨_, _, _, rfl, fun hi _ => hback hi, .inl rfl⟩
      · have hsec : submitSection t i attempt initOk putOk s =
            (results.map (.stored i) ++ .gaveUp i :: (finish t i .error s).1, (finish t i .error s).2) := by
          cases transfered <;> simp_all [submitSection]
        rw [hsec]
        exact .submit t i results [.gaveUp i] [] .error _ (.destroy i) s.storedLocality hpc hst
          (.inr ⟨hneeds, .inr ⟨hok, rfl⟩⟩) (.inl rfl) (.inr (.inl rfl)) (.inl ⟨rfl, rfl⟩) hfree
          ⟨_, _, _, rfl, fun _ h => (nomatch h), .inr (by rw [hs]; exact hok)⟩
  · have hsec : submitSection t i attempt initOk putOk s = ([], s.setThread t .idle) := by
      simp [submitSection, hst]
    rw [hsec]
    exact .dropSubmit t i hpc hst hfree

theorem step_trans (h : step l s = .ok (es, s')) : Trans l s es s' := by
  cases l with
  | submit t i flags outNull allocOk beyond =>
    by_cases hguard : s.threads t = .idle ∧ i ∈ s.poolItems ∧ i ∉ s.submitted
    · rw [step, if_pos hguard] at h
      obtain ⟨_, htouch, h⟩ := bind_eq_ok.mp h
      obtain ⟨⟨es', s''⟩, hsub, h⟩ := bind_eq_ok.mp h
      cases h
      exact submissionSubmit_trans hguard.1 hguard.2.1 hguard.2.2 (touch_eq_ok htouch) hsub
    · rw [step, if_neg hguard] at h
      cases h
      exact .stay
  | popRequest t =>
    unfold step at h
    dsimp only at h
    split at h
    · rename_i hpc
      split at h
      · rename_i i hpop
        obtain ⟨_, htouch, h⟩ := bind_eq_ok.mp h
        cases h
        exact .popRequest t i _ hpc (Seq.pop_past hpop) (touch_eq_ok htouch)
      · rename_i hpop
        cases h
        exact .popNothing _ _ (Seq.pop_nothing fun x hx => hpop x hx) rfl
    · cases h
      exact .stay
  | request t sendOk =>
    unfold step at h
    dsimp only at h
    split at h
    · rename_i i hpc
      obtain ⟨_, htouch, h⟩ := bind_eq_ok.mp h
      cases h
      exact requestSection_trans hpc (touch_eq_ok htouch)
    · cases h
      exact .stay
  | receive t res =>
    unfold step at h
    dsimp only at h
    split at h
    · rename_i hpc
      cases h
      exact .receive t res hpc
    · cases h
      exact .stay
  | respond t allocOk mallocOk =>
    unfold step at h
    dsimp only at h
    split at h
    · rename_i res hpc
      cases h
      exact .respondEnd t res hpc
    · rename_i res i rest hpc
      obtain ⟨_, htouch, h⟩ := bind_eq_ok.mp h
      obtain ⟨⟨es', s''⟩, hres, h⟩ := bind_eq_ok.mp h
      cases h
      exact responseHandler_trans hpc (touch_eq_ok htouch) hres
    · cases h
      exact .stay
  | popSubmit t =>
    unfold step at h
    dsimp only at h
    split at h
    · rename_i hpc
      split at h
      · rename_i i hpop
        obtain ⟨_, htouch, h⟩ := bind_eq_ok.mp h
        cases h
        exact .popSubmit t i _ hpc (Seq.pop_past hpop) (touch_eq_ok htouch)
      · rename_i hpop
        cases h
        exact .popNothing _ _ rfl (Seq.pop_nothing fun x hx => hpop x hx)
    · cases h
      exact .stay
  | transfer t attempt initOk putOk =>
    unfold step at h
    dsimp only at h
    split at h
    · rename_i i hpc
      obtain ⟨_, htouch, h⟩ := bind_eq_ok.mp h
      cases h
      exact submitSection_trans hpc (touch_eq_ok htouch)
    · cases h
      exact .stay
  | destroy t =>
    unfold step at h
    dsimp only at h
    split at h
    · rename_i i hpc
      cases h
      exact .destroy t i hpc
    · cases h
      exact .stay
  | remove t =>
    unfold step at h
    dsimp only at h
    split at h
    · rename_i i del hpc
      cases h
      exact .removeEnd t i del hpc
    · rename_i i j rest del hpc
      obtain ⟨_, htouch, h⟩ := bind_eq_ok.mp h
      split_ifs at h with hji
      · cases h
        subst hji
        exact .removeMark t _ rest del hpc (touch_eq_ok htouch)
      · cases h
        exact .removeSkip t i j rest del hpc hji (touch_eq_ok htouch)
    · cases h
      exact .stay
  | prune t =>
    by_cases hguard : s.threads t = .prune ∧ ∀ u, (s.threads u).reading = false
    · rw [step, if_pos hguard] at h
      obtain ⟨freed, hfree, h⟩ := bind_eq_ok.mp h
      cases h
      exact .prune t freed hguard.1 hguard.2 hfree
    · rw [step, if_neg hguard] at h
      cases h
      exact .stay

end

end Razorback.Submission
