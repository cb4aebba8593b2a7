import Razorback.Transfer.Defs

/-! The requests of `transfer/http.c`: what `HTTP_Try_Store` and `HTTP_Try_Fetch` make of libcurl's answers, the tries at
one address and the walk over a dispatcher's addresses. What libcurl answers comes with the tries. -/

namespace Razorback.Transfer
open List

structure HttpTry where
  /-- Every call before `curl_easy_perform` succeeds. -/
  setupOk : Bool
  /-- `curl_easy_perform` returns `CURLE_OK`. -/
  performOk : Bool
  infoOk : Bool
  /-- `CURLINFO_RESPONSE_CODE`. -/
  code : ℕ
  /-- The number of bytes that were received. -/
  size : ℕ
  deriving DecidableEq

/-- An address of a dispatcher, as what the tries at it come to. -/
abbrev Address := ℕ → HttpTry

section
variable (sizeOk : ℕ → Bool)

/-- `HTTP_Try_Store` and `HTTP_Try_Fetch`, which alone looks at the size. The walk ends exactly after a success. -/
def httpTry (a : HttpTry) : TransferStatus :=
  if !a.setupOk then .failLocal
  else
    let status := TransferStatus.failDispatcher
    let status := if a.performOk then status else .failDispatcher
    let status := if a.infoOk then status else .failLocal
    if status = .failLocal then .failLocal
    else if a.code ≠ 200 then .failDispatcher
    else if !sizeOk a.size then .failDispatcher
    else .ok

def maxTries : ℕ := 10

/-- The loop of `HTTP_Store` and `HTTP_Fetch`, with the requests that were made to address `k`. -/
def httpTries (k : ℕ) (address : Address) : ℕ → ℕ → TransferStatus → TransferStatus × List (ℕ × HttpTry)
  | 0, _, status => (status, [])
  | fuel + 1, tries, _ =>
    let status := httpTry sizeOk (address tries)
    if status = .ok then (status, [(k, address tries)])
    else
      let (status, made) := httpTries k address fuel (tries + 1) status
      (status, (k, address tries) :: made)

/-- `List_ForEach` over the addresses from number `k` on. -/
def httpWalk : ℕ → List Address → TransferStatus → TransferStatus × List (ℕ × HttpTry)
  | _, [], status => (status, [])
  | k, address :: rest, status =>
    let (status, made) := httpTries sizeOk k address maxTries 0 status
    if status = .ok then (status, made)
    else
      let (status, made') := httpWalk (k + 1) rest status
      (status, made ++ made')

def HttpTry.Accepted (a : HttpTry) : Prop := a.setupOk = true ∧ a.infoOk = true ∧ a.code = 200 ∧ sizeOk a.size = true

end

/-- `Transfer_HTTP_Store`, without the switch that skips stores. -/
def httpStore (memoryOk nameOk : Bool) (addresses : List Address) : TransferStatus × List (ℕ × HttpTry) :=
  if !memoryOk then (.failLocal, [])
  else if !nameOk then (.failLocal, [])
  else httpWalk (fun _ => true) 0 addresses .failLocal

/-- `Transfer_HTTP_Fetch` of a block of `iLength` bytes; `prepareOk` if `Transfer_Prepare_File` succeeds. -/
def httpFetch (nameOk tempOk prepareOk : Bool) (iLength : ℕ) (addresses : List Address) :
    TransferStatus × List (ℕ × HttpTry) :=
  if !nameOk then (.failLocal, [])
  else if !tempOk then (.failLocal, [])
  else
    let (status, made) := httpWalk (· == iLength) 0 addresses .failLocal
    if status ≠ .ok then (status, made) else (if prepareOk then .ok else .failLocal, made)

section
variable {sizeOk : ℕ → Bool} {a : HttpTry} {k fuel tries : ℕ} {address : Address} {addresses : List Address}
  {status last : TransferStatus} {made : List (ℕ × HttpTry)}

theorem httpTry_ok_iff : httpTry sizeOk a = .ok ↔ a.Accepted sizeOk := by
  obtain ⟨setupOk, performOk, infoOk, code, size⟩ := a
  cases setupOk <;> cases performOk <;> cases infoOk <;> by_cases hcode : code = 200 <;> cases hsize : sizeOk size <;>
    simp [httpTry, HttpTry.Accepted, hcode]

/-- A walk ends in a success exactly if a request was accepted, and then that is the last request. -/
def EndsWell (sizeOk : ℕ → Bool) (status : TransferStatus) (made : List (ℕ × HttpTry)) : Prop :=
  (∃ before k a, status = .ok ∧ made = before ++ [(k, a)] ∧ a.Accepted sizeOk ∧ ∀ p ∈ before, ¬p.2.Accepted sizeOk) ∨
    status ≠ .ok ∧ ∀ p ∈ made, ¬p.2.Accepted sizeOk

theorem EndsWell.append (h : EndsWell sizeOk status made)
    (hbefore : ∀ p ∈ before, ¬p.2.Accepted sizeOk) : EndsWell sizeOk status (before ++ made) := by
  rcases h with ⟨pre, k, a, hok, rfl, ha, hpre⟩ | ⟨hne, hmade⟩
  · refine .inl ⟨before ++ pre, k, a, hok, by rw [append_assoc], ha, fun p hp => ?_⟩
    exact (mem_append.mp hp).elim (hbefore p) (hpre p)
  · exact .inr ⟨hne, fun p hp => (mem_append.mp hp).elim (hbefore p) (hmade p)⟩

theorem httpTries_endsWell (hlast : last ≠ .ok) :
    EndsWell sizeOk (httpTries sizeOk k address fuel tries last).1 (httpTries sizeOk k address fuel tries last).2 := by
  induction fuel generalizing tries last with
  | zero => exact .inr ⟨hlast, nofun⟩
  | succ fuel ih =>
    rw [httpTries]
    split_ifs with hok
    · exact .inl ⟨[], k, address tries, hok, rfl, httpTry_ok_iff.mp hok, nofun⟩
    · have hbefore : ∀ p ∈ [(k, address tries)], ¬p.2.Accepted sizeOk := fun p hp => by
        rw [mem_singleton.mp hp]
        exact mt httpTry_ok_iff.mpr hok
      exact (ih hok).append hbefore

theorem httpWalk_endsWell (hlast : last ≠ .ok) :
    EndsWell sizeOk (httpWalk sizeOk k addresses last).1 (httpWalk sizeOk k addresses last).2 := by
  induction addresses generalizing k last with
  | nil => exact .inr ⟨hlast, nofun⟩
  | cons address rest ih =>
    have htries := @httpTries_endsWell sizeOk k maxTries 0 address last hlast
    rw [httpWalk]
    dsimp only
    split_ifs with hok
    · exact htries
    · rcases htries with ⟨_, _, _, hst, _⟩ | ⟨_, hmade⟩
      · exact absurd hst hok
      · exact (ih hok).append hmade

theorem mem_httpTries (h : p ∈ (httpTries sizeOk k address fuel tries last).2) :
    ∃ i, p = (k, address i) := by
  induction fuel generalizing tries last with
  | zero => cases h
  | succ fuel ih =>
    rw [httpTries] at h
    split_ifs at h
    · exact ⟨tries, mem_singleton.mp h⟩
    · rcases mem_cons.mp h with rfl | h
      · exact ⟨tries, rfl⟩
      · exact ih h

theorem mem_httpWalk (h : p ∈ (httpWalk sizeOk k addresses last).2) :
    ∃ address ∈ addresses, ∃ i, p.2 = address i := by
  induction addresses generalizing k last with
  | nil => cases h
  | cons address rest ih =>
    have hfirst : p ∈ (httpTries sizeOk k address maxTries 0 last).2 → ∃ i, p.2 = address i := fun hp => by
      obtain ⟨i, rfl⟩ := mem_httpTries hp
      exact ⟨i, rfl⟩
    rw [httpWalk] at h
    dsimp only at h
    split_ifs at h
    · exact ⟨address, mem_cons_self, hfirst h⟩
    · rcases mem_append.mp h with h | h
      · exact ⟨address, mem_cons_self, hfirst h⟩
      · obtain ⟨address', hin, hi⟩ := ih h
        exact ⟨address', mem_cons_of_mem _ hin, hi⟩

end

/-- What the requests of a transfer say about its result: it is a success only if the last of them was performed without an
error and answered 200 with a size that is right, and a request that was accepted is followed by no other. -/
structure HttpSound (sizeOk : ℕ → Bool) (p : TransferStatus × List (ℕ × HttpTry)) : Prop where
  last : p.1 = .ok → ∃ k a, p.2.getLast? = some (k, a) ∧ a.performOk = true ∧ a.code = 200 ∧ sizeOk a.size = true
  ends : ∀ q ∈ p.2.dropLast, ¬q.2.Accepted sizeOk

/-- No request that libcurl reports as failed looks like a success. -/
def Honest (sizeOk : ℕ → Bool) (addresses : List Address) : Prop :=
  ∀ address ∈ addresses, ∀ i, (address i).Accepted sizeOk → (address i).performOk = true

section
variable {sizeOk : ℕ → Bool} {addresses : List Address} {status : TransferStatus}

theorem httpSound_nothing : HttpSound sizeOk (.failLocal, []) := ⟨nofun, nofun⟩

theorem Honest.walk (h : Honest sizeOk addresses) (hstatus : status = .ok → (httpWalk sizeOk 0 addresses .failLocal).1 = .ok) :
    HttpSound sizeOk (status, (httpWalk sizeOk 0 addresses .failLocal).2) := by
  have hmade : ∀ p ∈ (httpWalk sizeOk 0 addresses .failLocal).2, p.2.Accepted sizeOk → p.2.performOk := by
    intro p hp ha
    obtain ⟨address, hin, i, hi⟩ := mem_httpWalk hp
    rw [hi] at ha ⊢
    exact h address hin i ha
  rcases @httpWalk_endsWell sizeOk 0 addresses .failLocal (by decide) with ⟨before, k, a, _, he, ha, hbefore⟩ | ⟨hne, hnone⟩
  · rw [he] at hmade ⊢
    refine ⟨fun _ => ⟨k, a, by simp, hmade (k, a) (by simp) ha, ha.2.2⟩, fun q hq => ?_⟩
    rw [dropLast_concat] at hq
    exact hbefore q hq
  · exact ⟨fun hok => absurd (hstatus hok) hne, fun q hq => hnone q (dropLast_subset _ hq)⟩

end

/-- The requests of both directions, as long as libcurl reports no request as failed that has status 200 and, in a fetch,
exactly the bytes of the block. -/
theorem http_success_means_success (addresses : List Address) (iLength : ℕ) :
    (Honest (fun _ => true) addresses → ∀ memoryOk nameOk,
      HttpSound (fun _ => true) (httpStore memoryOk nameOk addresses)) ∧
    (Honest (· == iLength) addresses → ∀ nameOk tempOk prepareOk,
      HttpSound (· == iLength) (httpFetch nameOk tempOk prepareOk iLength addresses)) := by
  refine ⟨fun hstore memoryOk nameOk => ?_, fun hfetch nameOk tempOk prepareOk => ?_⟩
  · unfold httpStore
    split_ifs
    · exact httpSound_nothing
    · exact httpSound_nothing
    · exact hstore.walk id
  · unfold httpFetch
    dsimp only
    split_ifs with hname htemp hne hprep
    · exact httpSound_nothing
    · exact httpSound_nothing
    · exact hfetch.walk id
    · exact hfetch.walk fun _ => not_not.mp hne
    · exact hfetch.walk nofun

theorem http_success_means_success_one :
    HttpSound (fun _ => true) (httpStore true true [fun tries => ⟨true, true, true, if tries = 0 then 503 else 200, 2⟩]) ∧
      HttpSound (· == 2) (httpFetch true true true 2 [fun tries => ⟨true, true, true, if tries = 0 then 503 else 200, 2⟩]) := by
  obtain ⟨hstore, hfetch⟩ := http_success_means_success [fun tries => ⟨true, true, true, if tries = 0 then 503 else 200, 2⟩] 2
  exact ⟨hstore (by simp [Honest]) true true, hfetch (by simp [Honest]) true true true⟩

/-- The connection breaks after the status line and the bytes of the block: both directions report a success. -/
theorem http_failed_request_accepted :
    httpStore true true [fun _ => ⟨true, false, true, 200, 0⟩] = (.ok, [(0, ⟨true, false, true, 200, 0⟩)]) ∧
      httpFetch true true true 2 [fun _ => ⟨true, false, true, 200, 2⟩] = (.ok, [(0, ⟨true, false, true, 200, 2⟩)]) :=
  ⟨rfl, rfl⟩

end Razorback.Transfer
