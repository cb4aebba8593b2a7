import Razorback.Lists.Refine

/-! The receiving side of `queue.c`. `Queue_Get_Ex` runs under the read mutex, so
one thread at a time consumes deliveries and works off the pending settlements;
other threads only push settlements and start the shutdown. A step is one call of
the broker library with what follows from its result, one round of the settlement
loop, or one settlement pushed. Connections are numbered in the order they are
made, and the broker numbers the deliveries on each of them from 1. A message has
one owner at a time, so its settlement is pushed in one step. The decoding of a
message, its headers and the receive timeout are left out: their outcome comes
with the step. -/

namespace Razorback.Queue
open Razorback.Lists (Seq)

structure Settlement where
  deliveryTag : ℕ
  connectionSerial : UInt64
  acknowledge : Bool
  requeue : Bool
  deriving DecidableEq, Repr

inductive Verdict
  | ack | reject (requeue : Bool)
  deriving DecidableEq, Repr

inductive Event
  | delivered (conn tag : ℕ)
  /-- `amqp_basic_ack` or `amqp_basic_reject` was called. -/
  | sent (conn tag : ℕ) (verdict : Verdict)
  deriving DecidableEq, Repr

inductive Fault
  | nullSocket
  deriving DecidableEq, Repr

inductive Pc
  | idle
  | poll (autoAck : Bool)
  | flush (autoAck : Bool) (envelope : Option ℕ)
  | flushed (autoAck : Bool) (envelope : Option ℕ)
  /-- Before the call that acks or rejects the delivery. -/
  | settling (envelope : ℕ) (verdict : Verdict)
  /-- The settlement loop of `Queue_Final_Destroy`. -/
  | teardown
  | destroyed
  deriving DecidableEq, Repr

structure State where
  shuttingDown : Bool
  /-- The connection behind `pReadSocket`. -/
  readSocket : Option ℕ
  /-- How many connections were made. -/
  made : ℕ
  readConnectionSerial : UInt64
  /-- The last tag the broker gave out on the newest connection. -/
  lastTag : ℕ
  pendingSettlements : Seq Settlement
  /-- `brokerSettlement` of each message that was returned without `autoAck`. -/
  messages : List (Option Settlement)
  pc : Pc

def nextSerial (serial : UInt64) : UInt64 :=
  if serial + 1 = 0 then serial + 1 + 1 else serial + 1

def connectReadSocket (connect : Bool) (s : State) : Bool × State :=
  if s.shuttingDown then (false, s)
  else if s.readSocket.isSome then (true, s)
  else if connect then
    (true, { s with
      readSocket := some (s.made + 1)
      made := s.made + 1
      lastTag := 0
      readConnectionSerial := nextSerial s.readConnectionSerial })
  else (false, s)

def reconnect (connect : Bool) (s : State) : Bool × State :=
  if s.shuttingDown then (false, s)
  else connectReadSocket connect { s with readSocket := none }

/-- The common body of `Queue_Acknowledge_Delivery` and `Queue_Reject_Delivery`. -/
def settleDelivery (verdict : Verdict) (tag : ℕ) (sendOk connect : Bool) (s : State) :
    Bool × List Event × State :=
  match s.readSocket with
  | none => (false, [], s)
  | some conn =>
    if sendOk then (true, [.sent conn tag verdict], s)
    else (false, [.sent conn tag verdict], (reconnect connect s).2)

def acknowledgeDelivery : ℕ → Bool → Bool → State → Bool × List Event × State := settleDelivery .ack

def rejectDelivery (tag : ℕ) (requeue : Bool) : Bool → Bool → State → Bool × List Event × State :=
  settleDelivery (.reject requeue) tag

inductive Round
  | more | done | failed
  deriving DecidableEq, Repr

/-- One round of the loop of `Queue_Process_Pending_Settlements`. -/
def flushRound (sendOk connect : Bool) (s : State) : Round × List Event × State :=
  if s.readSocket.isNone then (.failed, [], s)
  else
    match s.pendingSettlements.takeItem with
    | (none, _) => (.done, [], s)
    | (some settlement, pending) =>
      let s := { s with pendingSettlements := pending }
      -- a settlement of an earlier connection is dropped
      if settlement.connectionSerial ≠ s.readConnectionSerial then (.more, [], s)
      else
        let (ok, es, s) := if settlement.acknowledge then
            acknowledgeDelivery settlement.deliveryTag sendOk connect s
          else rejectDelivery settlement.deliveryTag settlement.requeue sendOk connect s
        (if !ok && s.readSocket.isNone then .failed else .more, es, s)

/-- `Queue_Enqueue_Settlement` for message number `m`. -/
def enqueueSettlement (m : ℕ) (acknowledge requeue pushOk : Bool) (s : State) : State :=
  match s.messages[m]? with
  | some (some settlement) =>
    let settlement := { settlement with acknowledge := acknowledge, requeue := requeue }
    if pushOk then
      { s with
        pendingSettlements := s.pendingSettlements.pushItem settlement
        messages := s.messages.set m none }
    else { s with messages := s.messages.set m (some settlement) }
  | _ => s

/-- What becomes of a delivery: the message cannot be allocated or decoded, or it
can be returned. -/
inductive Fate
  | reject (requeue : Bool) | accept
  deriving DecidableEq, Repr

def setPc (pc : Pc) (s : State) : State := { s with pc := pc }

/-- `Queue_Get_Ex` from the check of the shutdown after the settlements on, up to
the call that settles the delivery. -/
def handle (autoAck : Bool) (tag : ℕ) (fate : Fate) (s : State) : State :=
  if s.shuttingDown then setPc (.settling tag (.reject true)) s
  else
    match fate with
    | .reject requeue => setPc (.settling tag (.reject requeue)) s
    | .accept =>
      if autoAck then setPc (.settling tag .ack) s
      else setPc .idle { s with
        messages := s.messages ++ [some ⟨tag, s.readConnectionSerial, false, false⟩] }

/-- The last call of `Queue_Get_Ex`. -/
def finish (tag : ℕ) : Verdict → Bool → Bool → State → Bool × List Event × State
  | .ack => acknowledgeDelivery tag
  | .reject requeue => rejectDelivery tag requeue

/-- What `amqp_consume_message` reports. -/
inductive Consumed
  | message
  /-- With the result of `AMQP_Service_Connection`; `again` if the caller waits without a limit. -/
  | timeout (serviceOk connect again : Bool)
  | error (connect : Bool)
  deriving DecidableEq, Repr

inductive Label
  | settle (m : ℕ) (acknowledge requeue pushOk : Bool)
  /-- The message is destroyed by its owner. -/
  | discard (m : ℕ)
  /-- `Queue_Terminate`. -/
  | terminate
  | get (autoAck connect : Bool)
  | consume (result : Consumed)
  | flush (sendOk connect : Bool)
  | handle (fate : Fate)
  | finish (sendOk connect : Bool)
  /-- No message was consumed; `again` if there is time left. -/
  | next (again : Bool)
  /-- The last reference is released. -/
  | release
  deriving DecidableEq, Repr

/-- One step; a thread that is not at the step's place does nothing. -/
def step (l : Label) (s : State) : Except Fault (List Event × State) :=
  match l with
  | .settle m acknowledge requeue pushOk =>
    .ok ([], if s.pc = .destroyed then s else enqueueSettlement m acknowledge requeue pushOk s)
  | .discard m => .ok ([], { s with messages := s.messages.set m none })
  | .terminate => .ok ([], { s with shuttingDown := true })
  | .get autoAck connect =>
    match s.pc with
    | .idle =>
      if s.shuttingDown then .ok ([], s)
      else if s.readSocket.isSome then .ok ([], setPc (.poll autoAck) s)
      else
        let (ok, s) := reconnect connect s
        .ok ([], if ok && s.readSocket.isSome then setPc (.poll autoAck) s else s)
    | _ => .ok ([], s)
  | .consume result =>
    match s.pc, s.readSocket with
    | .poll _, none => .error .nullSocket
    | .poll autoAck, some conn =>
      match result with
      | .message =>
        .ok ([.delivered conn (s.lastTag + 1)], setPc (.flush autoAck (some (s.lastTag + 1)))
          { s with lastTag := s.lastTag + 1 })
      | .timeout true _ _ => .ok ([], setPc (.flush autoAck none) s)
      | .timeout false connect again =>
        let (ok, s) := reconnect connect s
        .ok ([], if ok && s.readSocket.isSome && again then s else setPc .idle s)
      | .error connect => .ok ([], setPc .idle (reconnect connect s).2)
    | _, _ => .ok ([], s)
  | .flush sendOk connect =>
    match s.pc with
    | .flush autoAck envelope =>
      let (round, es, s) := flushRound sendOk connect s
      match round with
      | .more => .ok (es, s)
      | .done => .ok (es, setPc (.flushed autoAck envelope) s)
      -- the delivery is neither acked nor rejected
      | .failed => .ok (es, setPc .idle s)
    | .teardown =>
      let (round, es, s) := flushRound sendOk connect s
      match round with
      | .more => .ok (es, s)
      | _ => .ok (es, setPc .destroyed { s with readSocket := none })
    | _ => .ok ([], s)
  | .handle fate =>
    match s.pc with
    | .flushed autoAck (some tag) => .ok ([], handle autoAck tag fate s)
    | _ => .ok ([], s)
  | .finish sendOk connect =>
    match s.pc with
    | .settling tag verdict =>
      let (_, es, s) := finish tag verdict sendOk connect s
      .ok (es, setPc .idle s)
    | _ => .ok ([], s)
  | .next again =>
    match s.pc with
    | .flushed autoAck none =>
      .ok ([], setPc (if again && !s.shuttingDown then .poll autoAck else .idle) s)
    | _ => .ok ([], s)
  | .release =>
    if s.pc = .idle ∧ s.shuttingDown then
      .ok ([], setPc (if s.readSocket.isSome then .teardown else .destroyed) s)
    else .ok ([], s)

def State.init : State :=
  ⟨false, some 1, 1, nextSerial 0, 0, ⟨[], 0, .generic, none, none⟩, [], .idle⟩

end Razorback.Queue
