import Razorback.Messages.Headers

/-! The loops of `Queue_Get_Ex` and `Queue_Put_Dest` with the results of the calls they make. The rounds of a receive are a
list; where it ends before the loop does, the caller still waits. -/

namespace Razorback.Queue.Loops
open List Messages

/-! ### Receiving -/

inductive Reply
  | normal | timeout | error

/-- What the calls of one round report, and the flag after the settlements. -/
structure Poll where
  reply : Reply
  serviced : Bool
  reconnected : Bool
  settled : Bool
  shuttingDown : Bool

inductive Exit
  | waiting | null | delivery
  deriving DecidableEq

def getPollTimeoutMs : UInt32 := 100

def pollTimeout (timeout remaining : UInt32) : UInt32 :=
  if 0 < timeout ∧ remaining < getPollTimeoutMs then remaining else getPollTimeoutMs

/-- How a round ends: the loop is left, or goes on with the time that remains. -/
def roundEnd (timeout remaining : UInt32) (poll : Poll) : Exit ⊕ UInt32 :=
  match poll.reply with
  | .normal => .inl (if poll.settled && !poll.shuttingDown then .delivery else .null)
  | .error => .inl .null
  | .timeout =>
    if !poll.serviced then
      if poll.reconnected && timeout = 0 then .inr remaining else .inl .null
    else if !poll.settled || poll.shuttingDown then .inl .null
    else if timeout = 0 then .inr remaining
    else if remaining ≤ pollTimeout timeout remaining then .inl .null
    else .inr (remaining - pollTimeout timeout remaining)

/-- The timeouts passed to `amqp_consume_message`. -/
def receiveLoop (timeout : UInt32) : UInt32 → List Poll → List UInt32 × Exit
  | _, [] => ([], .waiting)
  | remaining, poll :: polls =>
    match roundEnd timeout remaining poll with
    | .inl exit => ([pollTimeout timeout remaining], exit)
    | .inr left => ((receiveLoop timeout left polls).map (pollTimeout timeout remaining :: ·) id)

/-- `connected` if there is a read socket, or the reconnect makes one. -/
def queueGetEx (timeout : UInt32) (retained shuttingDown connected : Bool) (polls : List Poll) : List UInt32 × Exit :=
  if !retained || shuttingDown || !connected then ([], .null) else receiveLoop timeout timeout polls

def Poll.idle (poll : Poll) : Prop :=
  poll.reply matches .timeout ∧ poll.serviced ∧ poll.settled ∧ ¬poll.shuttingDown

def total (timeouts : List UInt32) : ℕ := (timeouts.map UInt32.toNat).sum

structure Spends (time : ℕ) (polls : List Poll) (run : List UInt32 × Exit) : Prop where
  calls : run.1.length ≤ (time + 99) / 100
  positive : ∀ x ∈ run.1, 0 < x
  within : total run.1 ≤ time
  returns : (time + 99) / 100 ≤ polls.length → run.2 ≠ .waiting
  exact : (∀ poll ∈ polls, poll.idle) → run.2 ≠ .waiting → total run.1 = time ∧ run.2 = .null

theorem toNat_pollTimeout (ht : 0 < timeout) (remaining : UInt32) :
    (pollTimeout timeout remaining).toNat = min remaining.toNat 100 := by
  rw [pollTimeout]
  split_ifs with h <;> simp [ht, getPollTimeoutMs, UInt32.lt_iff_toNat_lt] at h ⊢ <;> omega

theorem roundEnd_inr (ht : 0 < timeout)
    (h : roundEnd timeout remaining poll = .inr left) : left.toNat + 100 = remaining.toNat ∧ 0 < left := by
  have hne : timeout ≠ 0 := UInt32.pos_iff_ne_zero.mp ht
  have hpoll := toNat_pollTimeout ht remaining
  unfold roundEnd at h
  split at h
  · cases h
  · cases h
  · simp only [hne, decide_false, Bool.and_false, Bool.false_eq_true, if_false] at h
    split_ifs at h with hserved hsettled hle
    cases h
    rw [UInt32.le_iff_toNat_le] at hle
    rw [UInt32.lt_iff_toNat_lt, UInt32.toNat_sub_of_le _ _ (UInt32.le_iff_toNat_le.mpr (by omega))]
    simp only [UInt32.toNat_zero]
    omega

theorem roundEnd_idle (ht : 0 < timeout) (hidle : poll.idle)
    (h : roundEnd timeout remaining poll = .inl exit) : remaining.toNat ≤ 100 ∧ exit = .null := by
  obtain ⟨⟨⟩ | ⟨⟩ | ⟨⟩, serviced, reconnected, settled, shuttingDown⟩ := poll
  all_goals simp [Poll.idle] at hidle
  obtain ⟨rfl, rfl, rfl⟩ := hidle
  have hpoll := toNat_pollTimeout ht remaining
  simp only [roundEnd, UInt32.pos_iff_ne_zero.mp ht, Bool.not_true, Bool.false_eq_true, if_false, Bool.or_self] at h
  split_ifs at h with hle
  cases h
  rw [UInt32.le_iff_toNat_le] at hle
  exact ⟨by omega, rfl⟩

theorem roundEnd_ne_waiting : roundEnd timeout remaining poll ≠ .inl .waiting := by
  unfold roundEnd
  split
  · split_ifs <;> simp
  · simp
  · split_ifs <;> simp

theorem receiveLoop_spends (ht : 0 < timeout) (polls : List Poll) (hr : 0 < remaining) :
    Spends remaining.toNat polls (receiveLoop timeout remaining polls) := by
  induction polls generalizing remaining with
  | nil =>
    have hpos : 0 < remaining.toNat := UInt32.lt_iff_toNat_lt.mp hr
    exact ⟨Nat.zero_le _, by simp [receiveLoop], Nat.zero_le _, fun h => absurd h (by simp; omega), fun _ h => absurd rfl h⟩
  | cons poll polls ih =>
    have hpos : 0 < remaining.toNat := UInt32.lt_iff_toNat_lt.mp hr
    have hpoll := toNat_pollTimeout ht remaining
    have hfirst : 0 < pollTimeout timeout remaining := UInt32.lt_iff_toNat_lt.mpr (by rw [hpoll]; simp; omega)
    rw [receiveLoop]
    cases hend : roundEnd timeout remaining poll with
    | inl exit =>
      refine ⟨by simp; omega, by simpa using hfirst, by simp [total, hpoll], ?_, fun hidle _ => ?_⟩
      · rintro - rfl
        exact roundEnd_ne_waiting hend
      · obtain ⟨hle, rfl⟩ := roundEnd_idle ht (hidle poll mem_cons_self) hend
        exact ⟨by simp [total, hpoll, hle], rfl⟩
    | inr left =>
      obtain ⟨hleft, hleftPos⟩ := roundEnd_inr ht hend
      obtain ⟨hcalls, hpositive, hwithin, hreturns, hexact⟩ := ih hleftPos
      have htotal : ∀ xs, total (pollTimeout timeout remaining :: xs) = 100 + total xs := fun xs => by
        exact congrArg (· + _) (by omega)
      refine ⟨?_, forall_mem_cons.mpr ⟨hfirst, hpositive⟩, ?_, fun hlen => hreturns ?_, fun hidle hleft => ?_⟩
      · simp only [Prod.map_fst, length_cons]
        omega
      · simp only [Prod.map_fst, htotal]
        omega
      · rw [length_cons] at hlen
        omega
      · obtain ⟨hsum, hnull⟩ := hexact (fun p hp => hidle p (mem_cons_of_mem _ hp)) hleft
        simp only [Prod.map_fst, htotal]
        exact ⟨by omega, hnull⟩

/-- With a limit, the message is asked for as often as the limit has parts of 100 ms at most, for times that add up to the
limit at most, and to the limit exactly if every call waits in vain. -/
theorem receive_timeouts {timeout : UInt32} (ht : 0 < timeout) (retained shuttingDown connected : Bool) (polls : List Poll) :
    let run := queueGetEx timeout retained shuttingDown connected polls
    run.1.length ≤ (timeout.toNat + 99) / 100 ∧ (∀ x ∈ run.1, 0 < x) ∧ total run.1 ≤ timeout.toNat ∧
      ((timeout.toNat + 99) / 100 ≤ polls.length → run.2 ≠ .waiting) ∧
      (retained = true → shuttingDown = false → connected = true → (∀ poll ∈ polls, poll.idle) → run.2 ≠ .waiting →
        total run.1 = timeout.toNat ∧ run.2 = .null) := by
  intro run
  by_cases hstart : (!retained || shuttingDown || !connected) = true
  · have hrun : run = ([], .null) := if_pos hstart
    rw [hrun]
    refine ⟨Nat.zero_le _, by simp, Nat.zero_le _, by simp, ?_⟩
    rintro rfl rfl rfl
    cases hstart
  · have hrun : run = receiveLoop timeout timeout polls := if_neg hstart
    obtain ⟨hcalls, hpositive, hwithin, hreturns, hexact⟩ := receiveLoop_spends ht polls ht
    rw [hrun]
    exact ⟨hcalls, hpositive, hwithin, hreturns, fun _ _ _ => hexact⟩

theorem receive_timeouts_250 :
    let run := queueGetEx 250 true false true (replicate 3 ⟨.timeout, true, true, true, false⟩)
    run = ([100, 100, 50], .null) ∧ total run.1 = (250 : UInt32).toNat :=
  ⟨rfl, ((receive_timeouts (by decide : (0 : UInt32) < 250) true false true _).2.2.2.2 rfl rfl rfl
    (fun poll hpoll => by rw [eq_of_mem_replicate hpoll]; simp [Poll.idle]) (by decide)).1⟩

/-! ### Sending -/

structure Message (β : Type) where
  headers : List MessageHeader
  body : β
  serialized : Option (List UInt8)

/-- The results of the calls of one attempt, `reconnected` if there is a write socket after it. -/
structure Attempt where
  serviced : Bool
  accepted : Bool
  reconnected : Bool

/-- The results of the other calls: `wire` is the text that the message's serializer writes, `allocated` if there is memory for
its copy, and `prepared` if the header table is made. -/
structure Put where
  retained : Bool
  shuttingDown : Bool
  connected : Bool
  wire : Option (List UInt8)
  allocated : Bool
  prepared : Bool
  attempts : ℕ → Attempt

/-- What `Queue_Put_Dest` returns, the calls of `amqp_basic_publish` with their results, and whether it serialized. -/
structure Sent where
  ret : Bool
  published : List Bool
  serialized : Bool

/-- The loop from an attempt on, for the number of attempts that are left. -/
def publishLoop (attempts : ℕ → Attempt) (attempt : ℕ) : ℕ → Bool × List Bool
  | 0 => (false, [])
  | left + 1 =>
    let now := attempts attempt
    if now.serviced && now.accepted then (true, [true])
    else
      let published := if now.serviced then [false] else []
      if attempt = 0 ∧ now.reconnected then (publishLoop attempts (attempt + 1) left).map id (published ++ ·)
      else (false, published)

def publish (put : Put) (serialized : Bool) : Sent :=
  if put.prepared then ⟨(publishLoop put.attempts 0 2).1, (publishLoop put.attempts 0 2).2, serialized⟩
  else ⟨false, [], serialized⟩

variable {β : Type}

def messageSetSerializedJson (message : Message β) (wire : List UInt8) (allocated : Bool) : Option (Message β) :=
  if message.serialized.isSome || !allocated then none else some { message with serialized := some wire }

def queuePutDest (put : Put) (message : Message β) : Sent × Message β :=
  if !put.retained || put.shuttingDown || !put.connected then (⟨false, [], false⟩, message)
  else if message.serialized.isSome then (publish put false, message)
  else
    match put.wire.bind (messageSetSerializedJson message · put.allocated) with
    | none => (⟨false, [], false⟩, message)
    | some message => (publish put true, message)

def putAll : List Put → Message β → List Sent × Message β
  | [], message => ([], message)
  | put :: puts, message => (putAll puts (queuePutDest put message).2).map ((queuePutDest put message).1 :: ·) id

structure Sound (put : Put) (sent : Sent) : Prop where
  twice : sent.published.length ≤ 2
  last : ∀ ok ∈ sent.published.dropLast, ok = false
  ret : sent.ret = true ↔ true ∈ sent.published
  refused : put.shuttingDown = true → sent.published = []

theorem queuePutDest_sound (put : Put) (message : Message β) : Sound put (queuePutDest put message).1 := by
  have hnone : ∀ serialized, Sound put ⟨false, [], serialized⟩ := fun _ => ⟨by simp, by simp, by simp, fun _ => rfl⟩
  have hpublish (hopen : put.shuttingDown = false) (serialized : Bool) : Sound put (publish put serialized) := by
    unfold publish
    split_ifs
    · simp only [publishLoop]
      generalize put.attempts 0 = first
      generalize put.attempts (0 + 1) = second
      obtain ⟨_ | _, _ | _, _ | _⟩ := first <;> obtain ⟨_ | _, _ | _, _ | _⟩ := second <;>
        constructor <;> simp [hopen]
    · exact hnone _
  unfold queuePutDest
  split_ifs with hstart hserialized
  · exact hnone _
  · exact hpublish (by simp_all) _
  · cases put.wire.bind (messageSetSerializedJson message · put.allocated) with
    | none => exact hnone _
    | some message => exact hpublish (by simp_all) _

theorem queuePutDest_message (put : Put) (message : Message β) :
    let after := (queuePutDest put message).2
    (after.headers = message.headers ∧ after.body = message.body) ∧
      (queuePutDest put message).1.serialized.toNat + message.serialized.isSome.toNat = after.serialized.isSome.toNat := by
  have hpublish : ∀ serialized, (publish put serialized).serialized = serialized := fun _ => by
    unfold publish
    split_ifs <;> rfl
  unfold queuePutDest
  split_ifs with hstart hserialized
  · simp
  · simp [hpublish]
  · cases hset : put.wire.bind (messageSetSerializedJson message · put.allocated) with
    | none => simp
    | some after =>
      obtain ⟨wire, -, hset⟩ := Option.bind_eq_some_iff.mp hset
      simp only [messageSetSerializedJson, Option.ite_none_left_eq_some, Option.some.injEq] at hset
      simp [hpublish, hserialized, ← hset.2]

/-- However the broker's library answers, a message is published at most twice by a call and never after it was accepted,
the call returns whether it was, nothing is published by a queue that shuts down, and any number of calls serialize the
message once at most and leave its headers and its body as they are. -/
theorem publishing (puts : List Put) (message : Message β) :
    let run := putAll puts message
    Forall₂ Sound puts run.1 ∧ run.1.countP (·.serialized) ≤ 1 ∧
      run.2.headers = message.headers ∧ run.2.body = message.body := by
  have hall : Forall₂ Sound puts (putAll puts message).1 ∧
      (putAll puts message).1.countP (·.serialized) + message.serialized.isSome.toNat =
        (putAll puts message).2.serialized.isSome.toNat ∧
      (putAll puts message).2.headers = message.headers ∧ (putAll puts message).2.body = message.body := by
    induction puts generalizing message with
    | nil => exact ⟨.nil, Nat.zero_add _, rfl, rfl⟩
    | cons put puts ih =>
      obtain ⟨hsound, hcount, hheaders, hbody⟩ := ih (queuePutDest put message).2
      obtain ⟨⟨hheaders', hbody'⟩, hserialized⟩ := queuePutDest_message put message
      refine ⟨.cons (queuePutDest_sound put message) hsound, ?_, hheaders.trans hheaders', hbody.trans hbody'⟩
      simp only [putAll, Prod.map_fst, Prod.map_snd, id, countP_cons]
      rw [← hcount, ← hserialized]
      cases (queuePutDest put message).1.serialized with
      | false => simp
      | true =>
        simp
        omega
  exact ⟨hall.1, Nat.le_of_add_right_le (hall.2.1.trans_le (Bool.toNat_le _)), hall.2.2⟩

end Razorback.Queue.Loops
