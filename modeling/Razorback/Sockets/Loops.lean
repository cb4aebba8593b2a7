import Razorback.Records.Defs

/-! The send and receive loops of `socket.c`: `Socket_Tx` with `Socket_Printf`, and
`Socket_Rx_Until_Ex`, which reads byte by byte through `Socket_Rx`. -/

namespace Razorback.Sockets
open List
open Records (Bytes)

def maxRwSize : ℕ := 1024

/-- The results of `send` or `SSL_write`: the `k`-th call is offered `n` bytes, and
`none` is `SOCKET_ERROR`. -/
def Sends : Type := ℕ → (n : ℕ) → Option (Fin (n + 1))

/-- The loop of `Socket_Tx`: the bytes handed over and the return value. A round
sends a byte at least, so there are no more rounds than bytes. -/
def txLoop (sends : Sends) (buffer : Bytes) : ℕ → ℕ → ℕ → Bytes × ℤ
  | 0, _, amountSent => ([], amountSent)
  | rounds + 1, k, amountSent =>
    if buffer.length - amountSent > 0 then
      let sendThisTime := min (buffer.length - amountSent) maxRwSize
      match sends k sendThisTime with
      | none => ([], -1)
      | some sentThisTime =>
        if sentThisTime.val = 0 then ([], amountSent)
        else
          let (handed, ret) := txLoop sends buffer rounds (k + 1) (amountSent + sentThisTime)
          ((buffer.drop amountSent).take sentThisTime ++ handed, ret)
    else ([], amountSent)

def socketTx (sends : Sends) (buffer : Bytes) : Bytes × ℤ :=
  if buffer.length = 0 then ([], -1) else txLoop sends buffer buffer.length 0 0

/-- `Socket_Printf` on the formatted text: what is handed over and the result. -/
def socketPrintf (sends : Sends) (text : Bytes) : Bytes × Bool :=
  let (handed, ret) := socketTx sends text
  (handed, ret ≠ text.length)

/-- What precedes a read; `ready` also stands for a read without a wait. -/
inductive Wait
  | ready
  /-- `Socket_WaitForRead` fails with `EINTR` or `EAGAIN`. -/
  | interrupted
  | timedOut
  | failed
  deriving DecidableEq

structure Poll where
  wait : Wait
  readOk : Bool
  reallocOk : Bool

/-- The return value, `*r_buffer`, whether the buffer of the call was freed, and
what is left of the stream. -/
structure Received where
  ret : ℤ
  buffer : Option Bytes
  freed : Bool
  stream : Bytes
  deriving DecidableEq

/-- The loop of `Socket_Rx_Until_Ex`; `none` if it still waits. A `continue` in a
`do` loop goes to its condition, and `now` is 0 before the first byte. -/
def rxUntilLoop (terminator : UInt8) : List Poll → ℕ → Bytes → ℕ → Bytes → Option Received
  | [], _, _, _, _ => none
  | poll :: polls, now, buffer, bufSize, stream =>
    match poll.wait with
    | .timedOut | .failed => some ⟨-1, none, true, stream⟩
    | .interrupted =>
      if now > 0 then rxUntilLoop terminator polls now buffer bufSize stream else some ⟨-1, none, false, stream⟩
    | .ready =>
      if !poll.readOk then some ⟨-1, none, true, stream⟩
      else match stream with
        | [] => some ⟨0, none, true, []⟩
        | byte :: stream =>
          let buffer := buffer ++ [byte]
          if byte = terminator then some ⟨buffer.length, some buffer, false, stream⟩
          else if buffer.length = bufSize then
            if poll.reallocOk then rxUntilLoop terminator polls 1 buffer (bufSize + maxRwSize) stream
            else some ⟨-1, none, true, stream⟩
          else rxUntilLoop terminator polls 1 buffer bufSize stream

def socketRxUntilEx (terminator : UInt8) (polls : List Poll) (stream : Bytes) : Option Received :=
  rxUntilLoop terminator polls 0 [] maxRwSize stream

/-- The shortest prefix of the stream with the terminator, or the end of it. -/
def upTo (terminator : UInt8) (buffer stream : Bytes) : Received :=
  if terminator ∈ stream then
    let n := stream.idxOf terminator + 1
    ⟨buffer.length + n, some (buffer ++ stream.take n), false, stream.drop n⟩
  else ⟨0, none, true, []⟩

/-- Nothing but interruptions comes in between, and the stream is read to its end
if need be. -/
structure Calm (polls : List Poll) (stream : Bytes) : Prop where
  waits : ∀ poll ∈ polls, poll.wait = .ready ∨ poll.wait = .interrupted
  oks : ∀ poll ∈ polls, poll.readOk ∧ poll.reallocOk
  enough : stream.length < polls.countP (·.wait = .ready)

/-- What the loop hands over and returns from `amountSent` on. -/
def SendsRest (sends : Sends) (buffer : Bytes) (amountSent : ℕ) (r : Bytes × ℤ) : Prop :=
  r.1 <+: buffer.drop amountSent ∧ (r.2 = amountSent + r.1.length ∨
    r.2 = -1 ∧ amountSent + r.1.length < buffer.length ∧ ∃ k n, sends k n = none)

theorem txLoop_sends (sends : Sends) (buffer : Bytes) (k : ℕ) (hrounds : buffer.length - amountSent ≤ rounds) :
    SendsRest sends buffer amountSent (txLoop sends buffer rounds k amountSent) := by
  have hend (a : ℕ) : SendsRest sends buffer a ([], a) := ⟨by simp, .inl (by simp)⟩
  induction rounds generalizing k amountSent with
  | zero => exact hend amountSent
  | succ rounds ih =>
    rw [txLoop]
    split_ifs with hmore
    · cases hsend : sends k (min (buffer.length - amountSent) maxRwSize) with
      | none =>
        simp only [hsend]
        exact ⟨by simp, .inr ⟨rfl, Nat.lt_of_sub_pos hmore, _, _, hsend⟩⟩
      | some sent =>
        simp only [hsend]
        split_ifs with hzero
        · exact hend amountSent
        · obtain ⟨hpre, hret⟩ := ih (k + 1) (show buffer.length - (amountSent + sent) ≤ rounds by omega)
          have hlen : ((buffer.drop amountSent).take sent).length = sent := by
            rw [length_take, length_drop]
            omega
          rw [← drop_drop] at hpre
          refine ⟨?_, ?_⟩
          · simpa using (prefix_append_right_inj ((buffer.drop amountSent).take sent)).mpr hpre
          · simpa [hlen, Nat.add_assoc, Int.add_assoc] using hret
    · exact hend amountSent

/-- Whatever is sent at a time, `Socket_Tx` hands over a prefix of the text and
returns its length, or -1 after an error; `Socket_Printf` returns true if and only
if the text was not sent as a whole. -/
theorem printf_sends (sends : Sends) (byte : UInt8) (bytes : Bytes) :
    let text := byte :: bytes
    let (handed, ret) := socketTx sends text
    handed <+: text ∧ (ret = handed.length ∨ ret = -1 ∧ ∃ k n, sends k n = none) ∧
      (socketPrintf sends text).1 = handed ∧ ((socketPrintf sends text).2 = true ↔ handed ≠ text) := by
  intro text
  have htx : socketTx sends text = txLoop sends text text.length 0 0 := if_neg (by simp [text])
  obtain ⟨hpre, hret⟩ := txLoop_sends sends text 0 (Nat.sub_le _ 0)
  simp only [socketPrintf, htx]
  simp only [drop_zero, Nat.cast_zero, zero_add] at hpre hret
  refine ⟨hpre, hret.imp_right fun h => ⟨h.1, h.2.2⟩, trivial, ?_⟩
  rw [decide_eq_true_iff, not_iff_not]
  refine ⟨fun hall => hpre.eq_of_length ?_, fun hall => ?_⟩
  · omega
  · rw [hall] at hret
    omega

/-- A text of one byte is sent, and `Socket_Printf` returns false. -/
theorem printf_sent : socketPrintf (fun _ n => some (.last n)) [65] = ([65], false) := by decide

section
variable {terminator : UInt8} {poll : Poll} {polls : List Poll} {stream : Bytes}

theorem rxUntilLoop_calm (h : Calm polls stream) (buffer : Bytes) (bufSize : ℕ) :
    rxUntilLoop terminator polls 1 buffer bufSize stream = some (upTo terminator buffer stream) := by
  induction polls generalizing buffer bufSize stream with
  | nil => exact absurd h.enough (Nat.not_lt_zero _)
  | cons poll polls ih =>
    obtain ⟨hread, hrealloc⟩ := h.oks poll mem_cons_self
    have hrest (stream : Bytes) (hlt : stream.length < polls.countP (·.wait = .ready)) : Calm polls stream :=
      ⟨fun p hp => h.waits p (mem_cons_of_mem _ hp), fun p hp => h.oks p (mem_cons_of_mem _ hp), hlt⟩
    have henough := h.enough
    rw [countP_cons] at henough
    rcases h.waits poll mem_cons_self with hw | hw
    · rcases stream with _ | ⟨byte, stream⟩
      · simp [rxUntilLoop, hw, hread, upTo]
      · by_cases hb : byte = terminator
        · simp [rxUntilLoop, hw, hread, upTo, hb]
        · have hcalm := hrest stream (by simpa [hw] using henough)
          have hup : upTo terminator (buffer ++ [byte]) stream = upTo terminator buffer (byte :: stream) := by
            by_cases hmem : terminator ∈ stream <;> simp [upTo, hmem, hb, Ne.symm hb, idxOf_cons_ne]
            omega
          simp only [rxUntilLoop, hw, hread, hrealloc, ih hcalm, hb, hup]
          simp
    · simp only [rxUntilLoop, hw]
      exact ih (hrest stream (by simpa [hw] using henough)) buffer bufSize

/-- With interruptions only, `Socket_Rx_Until_Ex` returns the stream up to the
terminator and leaves the rest, or reports the end, if and only if it is not
interrupted before the first byte; then it fails and its buffer is lost. -/
theorem rxUntil_interrupted (h : Calm (poll :: polls) stream) :
    (socketRxUntilEx terminator (poll :: polls) stream = some (upTo terminator [] stream) ↔ poll.wait ≠ .interrupted) ∧
    (poll.wait = .interrupted → socketRxUntilEx terminator (poll :: polls) stream = some ⟨-1, none, false, stream⟩) := by
  have hloop : rxUntilLoop terminator (poll :: polls) 1 [] maxRwSize stream = _ := rxUntilLoop_calm h [] maxRwSize
  rcases h.waits poll mem_cons_self with hw | hw
  · refine ⟨iff_of_true ?_ (by simp [hw]), by simp [hw]⟩
    rw [← hloop, socketRxUntilEx]
    simp only [rxUntilLoop, hw]
  · have hfail : socketRxUntilEx terminator (poll :: polls) stream = some ⟨-1, none, false, stream⟩ := by
      simp [socketRxUntilEx, rxUntilLoop, hw]
    refine ⟨iff_of_false (fun heq => ?_) (by simp [hw]), fun _ => hfail⟩
    rw [hfail] at heq
    have hret := congrArg Received.ret (Option.some.inj heq)
    by_cases hmem : terminator ∈ stream <;> simp [upTo, hmem] at hret
    omega

theorem rxUntil_interrupted_line : socketRxUntilEx 10 (replicate 3 ⟨.ready, true, true⟩) [71, 10] =
    some (upTo 10 [] [71, 10]) :=
  (rxUntil_interrupted ⟨by decide, by decide, by decide⟩).1.mpr (by decide)

/-- One signal before the line "G\n" arrives. -/
theorem rxUntil_lost : socketRxUntilEx 10 [⟨.interrupted, true, true⟩, ⟨.ready, true, true⟩] [71, 10] =
    some ⟨-1, none, false, [71, 10]⟩ := by decide

end

end Razorback.Sockets
