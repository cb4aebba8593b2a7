import Razorback.Queue.Moves
import Razorback.Base.Tokens

/-! Every delivery is a token of the connection that made it: the reader holds it
as an envelope, a message or a pending settlement carries it on, and a settlement
sent to the broker spends it. As long as no connection is made while an envelope is
held, what carries the token also names its connection. -/

namespace Razorback.Queue
open Runs Razorback.Lists Tokens

/-- Every ack or reject is sent on the connection its tag was delivered on, once. -/
def SettledOnOwn (es : List Event) : Prop :=
  ∀ before conn tag verdict after, es = before ++ .sent conn tag verdict :: after →
    .delivered conn tag ∈ before ∧ ∀ verdict', .sent conn tag verdict' ∉ before

def Event.issued : Event → Option (ℕ × ℕ)
  | .delivered conn tag => some (conn, tag)
  | .sent _ _ _ => none

def Event.spent : Event → Option (ℕ × ℕ)
  | .delivered _ _ => none
  | .sent conn tag _ => some (conn, tag)

theorem settledOnOwn_of_sound (h : Sound Event.issued Event.spent es) : SettledOnOwn es := by
  intro before conn tag verdict after he
  obtain ⟨⟨e, hmem, hissued⟩, hunspent⟩ := h before _ after (conn, tag) he rfl
  refine ⟨?_, fun verdict' hmem' => hunspent _ hmem' rfl⟩
  cases e with
  | delivered conn' tag' =>
    cases hissued
    exact hmem
  | sent => cases hissued

def Settlement.token (settlement : Settlement) : ℕ × ℕ :=
  (settlement.connectionSerial.toNat, settlement.deliveryTag)

def carried (s : State) : List (ℕ × ℕ) :=
  (s.messages.filterMap id ++ s.pendingSettlements.items).map Settlement.token

def tokens (s : State) : List (ℕ × ℕ) := (s.pc.envelope.map fun tag => (s.made, tag)).toList ++ carried s

structure Numbered (es : List Event) (s : State) : Prop where
  small : s.made < 2 ^ 64
  serial : s.readConnectionSerial.toNat = s.made
  socket : ∀ conn, s.readSocket = some conn → conn = s.made
  tags : ∀ conn tag, .delivered conn tag ∈ es → conn < s.made ∨ conn = s.made ∧ tag ≤ s.lastTag

structure Inv (es : List Event) (s : State) : Prop where
  numbered : Numbered es s
  account : Account Event.issued Event.spent es (tokens s)

section
variable {es es' : List Event} {s s' : State} {sendOk connect ok : Bool} {tag : ℕ}

theorem nextSerial_toNat (h : serial.toNat + 1 < 2 ^ 64) :
    (nextSerial serial).toNat = serial.toNat + 1 := by
  have hadd : (serial + 1).toNat = serial.toNat + 1 := by
    exact Nat.mod_eq_of_lt h
  have hne : serial + 1 ≠ 0 := fun hzero => by
    rw [hzero] at hadd
    exact absurd hadd (Nat.succ_ne_zero _).symm
  rw [nextSerial, if_neg hne, hadd]

theorem Numbered.congr (h : Numbered es s) (hmade : s'.made = s.made)
    (hserial : s'.readConnectionSerial = s.readConnectionSerial) (htag : s'.lastTag = s.lastTag)
    (hsocket : s'.readSocket = none ∨ s'.readSocket = s.readSocket) : Numbered es s' := by
  refine ⟨hmade ▸ h.small, by rw [hserial, hmade, h.serial], fun conn hconn => ?_, ?_⟩
  · rcases hsocket with hnone | hsame
    · exact nomatch hnone.symm.trans hconn
    · rw [hmade]
      exact h.socket conn (hsame ▸ hconn)
  · rw [hmade, htag]
    exact h.tags

theorem Numbered.sent (h : Numbered es s) (conn tag : ℕ) (verdict : Verdict) :
    Numbered (es ++ [.sent conn tag verdict]) s := by
  refine ⟨h.small, h.serial, h.socket, fun conn' tag' hmem => h.tags conn' tag' ?_⟩
  simpa using hmem

section
variable (h : Numbered es s) (hmade : s.made + 1 < 2 ^ 64)
include h hmade

theorem Numbered.connected :
    Numbered es (connected s) := by
  refine ⟨hmade, ?_, fun conn hconn => (Option.some.inj hconn).symm, fun conn tag hmem => .inl ?_⟩
  · change (nextSerial s.readConnectionSerial).toNat = s.made + 1
    rw [nextSerial_toNat (by rw [h.serial]; exact hmade), h.serial]
  · have htags := h.tags conn tag hmem
    change conn < s.made + 1
    omega

theorem reconnect_spec (connect : Bool) :
    Numbered es (reconnect connect s).2 ∧ carried (reconnect connect s).2 = carried s := by
  rcases reconnect_cases connect s with ⟨_, hr⟩ | ⟨_, hr⟩ | ⟨_, _, hr⟩
  · rw [hr]
    exact ⟨h, rfl⟩
  · rw [hr]
    exact ⟨h.congr rfl rfl rfl (.inl rfl), rfl⟩
  · rw [hr]
    exact ⟨h.connected hmade, rfl⟩

theorem settleDelivery_spec
    (ha : Account Event.issued Event.spent es ((s.made, tag) :: live)) (verdict : Verdict)
    (sendOk connect : Bool) :
    Numbered (es ++ (settleDelivery verdict tag sendOk connect s).2.1)
        (settleDelivery verdict tag sendOk connect s).2.2 ∧
      Account Event.issued Event.spent (es ++ (settleDelivery verdict tag sendOk connect s).2.1) live ∧
      carried (settleDelivery verdict tag sendOk connect s).2.2 = carried s := by
  cases hsocket : s.readSocket with
  | none =>
    simp only [settleDelivery, hsocket, List.append_nil]
    exact ⟨h, ha.drop, trivial⟩
  | some conn =>
    obtain rfl := h.socket conn hsocket
    have hspent : Account Event.issued Event.spent (es ++ [.sent s.made tag verdict]) live :=
      ha.spend_token rfl
    cases sendOk with
    | true =>
      simp only [settleDelivery, hsocket, if_true]
      exact ⟨h.sent s.made tag verdict, hspent, trivial⟩
    | false =>
      obtain ⟨hnum, hcarried⟩ := reconnect_spec (h.sent s.made tag verdict) hmade connect
      simp only [settleDelivery, hsocket]
      exact ⟨hnum, hspent, hcarried⟩

end

def reconnects (sendOk connect : Bool) (s : State) : Prop :=
  s.readSocket.isSome ∧ sendOk = false ∧ connect = true ∧ s.shuttingDown = false ∧
    ∃ settlement, s.pendingSettlements.takeItem.1 = some settlement ∧
      settlement.connectionSerial = s.readConnectionSerial

theorem carried_take (h : s.pendingSettlements.takeItem.1 = some settlement) :
    (carried s).Perm (settlement.token ::
      carried { s with pendingSettlements := s.pendingSettlements.takeItem.2 }) := by
  refine (.map Settlement.token ?_ :
    (carried s).Perm ((settlement :: (s.messages.filterMap id ++
      s.pendingSettlements.takeItem.2.items)).map Settlement.token))
  exact ((Seq.takeItem_perm h).append_left _).trans List.perm_middle

theorem flushRound_spec (h : Numbered es s) (hmade : s.made + 1 < 2 ^ 64)
    (ha : Account Event.issued Event.spent es (held ++ carried s)) (sendOk connect : Bool) :
    Numbered (es ++ (flushRound sendOk connect s).2.1) (flushRound sendOk connect s).2.2 ∧
      Account Event.issued Event.spent (es ++ (flushRound sendOk connect s).2.1)
        (held ++ carried (flushRound sendOk connect s).2.2) := by
  rcases flushRound_cases sendOk connect s with hr | ⟨settlement, htake, hr⟩
  · rw [hr, List.append_nil]
    exact ⟨h, ha⟩
  · have hnum : Numbered es { s with pendingSettlements := s.pendingSettlements.takeItem.2 } :=
      h.congr rfl rfl rfl (.inr rfl)
    have ha' := ha.perm (((carried_take htake).append_left held).trans List.perm_middle)
    rcases hr with ⟨_, hr⟩ | ⟨hcurrent, hr⟩
    · rw [hr, List.append_nil]
      exact ⟨hnum, ha'.drop⟩
    · rw [Settlement.token, hcurrent, h.serial] at ha'
      obtain ⟨hnum', haccount, hcarried⟩ :=
        settleDelivery_spec hnum hmade ha' settlement.verdict sendOk connect
      rw [hr, hcarried]
      exact ⟨hnum', haccount⟩

theorem flushRound_made (h : ¬reconnects sendOk connect s) :
    (flushRound sendOk connect s).2.2.made = s.made := by
  rcases flushRound_cases sendOk connect s with hr | ⟨settlement, htake, ⟨_, hr⟩ | ⟨hcurrent, hr⟩⟩
  · rw [hr]
  · rw [hr]
  · rw [hr]
    unfold settleDelivery
    split
    · rfl
    · rename_i hsocket
      have hsome : s.readSocket.isSome := Option.isSome_iff_exists.mpr ⟨_, hsocket⟩
      split_ifs with hsend
      · rfl
      · rcases reconnect_cases connect { s with pendingSettlements := s.pendingSettlements.takeItem.2 } with
          ⟨_, hc⟩ | ⟨_, hc⟩ | ⟨hdown, hconnect, hc⟩
        · rw [hc]
        · rw [hc]
        · exact absurd ⟨hsome, Bool.eq_false_iff.mpr hsend, hconnect, hdown, settlement, htake, hcurrent⟩ h

/-- The condition on a step: it does not come to as many connections as there are
serials, and it makes no connection while a delivery waits for the settlements. -/
def Steady (l : Label) (s : State) : Prop :=
  s.made + 1 < 2 ^ 64 ∧ ∀ sendOk connect autoAck tag, l = .flush sendOk connect →
    s.pc = .flush autoAck (some tag) → ¬reconnects sendOk connect s

theorem filterMap_set_none {l : List (Option Settlement)} {m : ℕ} {x : Settlement}
    (h : l[m]? = some (some x)) : (l.filterMap id).Perm (x :: (l.set m none).filterMap id) := by
  induction l generalizing m with
  | nil => simp at h
  | cons y l ih =>
    cases m with
    | zero =>
      obtain rfl : y = some x := by simpa using h
      simp
    | succ m =>
      have hrest := ih (by simpa using h)
      cases y with
      | none => simpa using hrest
      | some y =>
        exact (hrest.cons y).trans (.swap x y _)

theorem filterMap_set_sublist (l : List (Option Settlement)) (m : ℕ) :
    List.Sublist ((l.set m none).filterMap id) (l.filterMap id) := by
  induction l generalizing m with
  | nil => exact .refl _
  | cons y l ih =>
    cases m with
    | zero =>
      cases y with
      | none => exact .refl _
      | some y => exact List.sublist_cons_self y _
    | succ m =>
      cases y with
      | none => exact ih m
      | some y => exact (ih m).cons_cons y

theorem carried_enqueue (m : ℕ) (acknowledge requeue pushOk : Bool) (s : State) :
    (carried (enqueueSettlement m acknowledge requeue pushOk s)).Perm (carried s) := by
  unfold enqueueSettlement
  split
  · rename_i settlement hm
    have htake := filterMap_set_none hm
    split_ifs
    · have hpush := s.pendingSettlements.pushItem_perm
        { settlement with acknowledge := acknowledge, requeue := requeue }
      refine ((hpush.append_left _).map Settlement.token).trans ?_
      refine (List.perm_middle.map Settlement.token).trans ?_
      exact (((htake.append_right _).map Settlement.token)).symm
    · have hback : (s.messages.set m (some { settlement with
          acknowledge := acknowledge, requeue := requeue }))[m]? = some (some { settlement with
            acknowledge := acknowledge, requeue := requeue }) := by
        simp [(List.getElem?_eq_some_iff.mp hm).1]
      have hset := filterMap_set_none hback
      rw [List.set_set] at hset
      refine ((hset.append_right _).map Settlement.token).trans ?_
      exact (((htake.append_right _).map Settlement.token)).symm
  · exact .refl _

theorem tokens_of_none (h : s.pc.envelope = none) : tokens s = carried s := by
  rw [tokens, h]
  rfl

theorem Inv.pass (h : Inv es s) (hnum : Numbered es s') (hsub : (tokens s').Subperm (tokens s)) :
    Inv (es ++ []) s' := by
  rw [List.append_nil]
  exact ⟨hnum, h.account.subperm hsub⟩

theorem Inv.setPc (h : Inv es s)
    (hpc : pc.envelope = none ∨ pc.envelope = s.pc.envelope) : Inv es (setPc pc s) := by
  refine ⟨h.numbered.congr rfl rfl rfl (.inr rfl), h.account.subperm ?_⟩
  rcases hpc with hnone | hsame
  · rw [tokens_of_none hnone]
    exact (List.sublist_append_right _ _).subperm
  · have hsame' : tokens (Queue.setPc pc s) = tokens s := by
      unfold tokens
      rw [← hsame]
      rfl
    rw [hsame']

theorem Inv.reconnect (h : Inv es s) (hmade : s.made + 1 < 2 ^ 64) (hpc : s.pc.envelope = none)
    (connect : Bool) : Inv es (reconnect connect s).2 := by
  obtain ⟨hnum, hcarried⟩ := reconnect_spec h.numbered hmade connect
  refine ⟨hnum, ?_⟩
  rw [tokens_of_none (by rw [reconnect_pc, hpc]), hcarried, ← tokens_of_none hpc]
  exact h.account

theorem Inv.consume (h : Inv es s) (hpc : s.pc.envelope = none)
    (hsocket : s.readSocket = some conn) (autoAck : Bool) :
    Inv (es ++ [.delivered conn (s.lastTag + 1)])
      (Queue.setPc (.flush autoAck (some (s.lastTag + 1))) { s with lastTag := s.lastTag + 1 }) := by
  obtain rfl := h.numbered.socket conn hsocket
  refine ⟨⟨h.numbered.small, h.numbered.serial, h.numbered.socket, fun conn tag hmem => ?_⟩, ?_⟩
  · change conn < s.made ∨ conn = s.made ∧ tag ≤ s.lastTag + 1
    rcases List.mem_append.mp hmem with hold | hnew
    · have htags := h.numbered.tags conn tag hold
      omega
    · obtain ⟨rfl, rfl⟩ : conn = s.made ∧ tag = s.lastTag + 1 := by simpa using hnew
      exact .inr ⟨rfl, Nat.le_refl _⟩
  · have haccount := h.account
    rw [tokens_of_none hpc] at haccount
    refine haccount.issue_token rfl rfl fun e he hissued => ?_
    cases e with
    | sent => cases hissued
    | delivered conn tag =>
      obtain ⟨rfl, rfl⟩ := Prod.mk.inj (Option.some.inj hissued)
      have htags : s.made < s.made ∨ s.made = s.made ∧ s.lastTag + 1 ≤ s.lastTag :=
        h.numbered.tags _ _ he
      omega

theorem Inv.flush (h : Inv es s) (hmade : s.made + 1 < 2 ^ 64)
    (hsteady : ∀ tag, s.pc.envelope = some tag → ¬reconnects sendOk connect s) :
    Inv (es ++ (flushRound sendOk connect s).2.1) (flushRound sendOk connect s).2.2 := by
  obtain ⟨hnum, haccount⟩ := flushRound_spec h.numbered hmade h.account sendOk connect
  refine ⟨hnum, ?_⟩
  rw [tokens, flushRound_pc]
  cases henv : s.pc.envelope with
  | none =>
    rw [henv] at haccount
    exact haccount
  | some tag =>
    rw [henv] at haccount
    rw [flushRound_made (hsteady tag henv)]
    exact haccount

theorem carried_received (tag : ℕ) (s : State) :
    (carried (received tag s)).Perm ((s.readConnectionSerial.toNat, tag) :: carried s) := by
  refine (.map Settlement.token ?_ : (carried (received tag s)).Perm
    ((⟨tag, s.readConnectionSerial, false, false⟩ :: (s.messages.filterMap id ++
      s.pendingSettlements.items)).map Settlement.token))
  simp only [received, List.filterMap_append, List.append_assoc]
  exact List.perm_middle

theorem Inv.held (h : Inv es s) (hpc : s.pc.envelope = some tag) :
    Account Event.issued Event.spent es ((s.made, tag) :: carried s) := by
  have haccount := h.account
  rw [tokens, hpc] at haccount
  exact haccount

theorem Inv.receive (h : Inv es s) (hpc : s.pc.envelope = some tag) :
    Inv es (Queue.setPc .idle (received tag s)) := by
  refine ⟨h.numbered.congr rfl rfl rfl (.inr rfl), (h.held hpc).perm ?_⟩
  rw [← h.numbered.serial]
  exact (carried_received tag s).symm

theorem Inv.finish (h : Inv es s) (hmade : s.made + 1 < 2 ^ 64) (hpc : s.pc.envelope = some tag)
    (verdict : Verdict) (sendOk connect : Bool) :
    Inv (es ++ (settleDelivery verdict tag sendOk connect s).2.1)
      (Queue.setPc .idle (settleDelivery verdict tag sendOk connect s).2.2) := by
  obtain ⟨hnum, hspent, hcarried⟩ :=
    settleDelivery_spec h.numbered hmade (h.held hpc) verdict sendOk connect
  rw [← hcarried] at hspent
  exact ⟨hnum.congr rfl rfl rfl (.inr rfl), hspent⟩

theorem inv_step (h : Inv es s) (hsteady : Steady l s)
    (hstep : step l s = .ok (es', s')) : Inv (es ++ es') s' := by
  obtain ⟨hmade, hflush⟩ := hsteady
  cases move_of_step hstep with
  | stay => exact h.pass h.numbered (.refl _)
  | settle m acknowledge requeue pushOk =>
    have hcarried := carried_enqueue m acknowledge requeue pushOk s
    obtain ⟨pending, messages, hframe⟩ := enqueue_frame m acknowledge requeue pushOk s
    rw [hframe] at hcarried ⊢
    exact h.pass (h.numbered.congr rfl rfl rfl (.inr rfl)) (hcarried.append_left _).subperm
  | discard =>
    refine h.pass (h.numbered.congr rfl rfl rfl (.inr rfl)) (List.Sublist.subperm ?_)
    exact (((filterMap_set_sublist s.messages _).append_right _).map _).append_left _
  | terminate => exact h.pass (h.numbered.congr rfl rfl rfl (.inr rfl)) (.refl _)
  | goto pc hpc => exact (List.append_nil es).symm ▸ h.setPc hpc
  | reconnect connect pc hnone hpc =>
    exact (List.append_nil es).symm ▸ (h.reconnect hmade hnone connect).setPc (.inl hpc)
  | deliver autoAck conn hpc hsocket => exact h.consume (by rw [hpc]; rfl) hsocket autoAck
  | flush sendOk connect pc hpc hat =>
    have hsteady : ∀ tag, s.pc.envelope = some tag → ¬reconnects sendOk connect s := fun tag htag => by
      obtain ⟨autoAck, hflushing⟩ := hat tag htag
      exact hflush sendOk connect autoAck tag rfl hflushing
    rw [← flushRound_pc sendOk connect s] at hpc
    exact (h.flush hmade hsteady).setPc hpc
  | destroy sendOk connect hpc =>
    have hround : Inv _ (Queue.setPc .destroyed (flushRound sendOk connect s).2.2) :=
      (h.flush hmade fun _ htag => by rw [hpc] at htag; cases htag).setPc (.inl rfl)
    exact ⟨hround.numbered.congr rfl rfl rfl (.inl rfl), hround.account⟩
  | receive tag hpc => exact (List.append_nil es).symm ▸ h.receive hpc
  | finish sendOk connect tag verdict hpc =>
    exact h.finish hmade (by rw [hpc]; rfl) verdict sendOk connect

theorem inv_init : Inv [] State.init := by
  refine ⟨⟨by decide, by decide, fun conn hconn => ?_, fun _ _ hmem => nomatch hmem⟩, account_nil⟩
  exact (Option.some.inj hconn).symm

theorem ready_init : Ready State.init := ⟨fun _ h => (nomatch h), fun _ h => nomatch h⟩

end

/-- In every run of the receiving side in which no connection is made between a
delivery and the settlements flushed before it is handled, and no serial comes
again, each ack and reject goes to the connection of its delivery, once, and no
step reads through a missing socket. -/
theorem settlements_stay_on_connection (ls : List Label) (hsteady : Along Steady step ls State.init) :
    run step ls State.init ≠ .error .nullSocket ∧
      ∀ rs s, run step ls State.init = .ok (rs, s) → SettledOnOwn rs.flatten := by
  constructor
  · exact run_ne_error (I := fun _ s => Ready s) (fun _ _ _ _ _ h hstep => ready_step h hstep)
      (fun _ _ _ h => h.step_ne_error) ls [] ready_init
  · intro rs s hr
    have hinv := run_events (I := Inv) (fun _ _ _ _ _ hinv hcond hs => inv_step hinv hcond hs) inv_init
      hsteady hr
    exact settledOnOwn_of_sound hinv.account.sound

theorem settlements_stay_on_connection_one :
    SettledOnOwn [.delivered 1 1, .sent 1 1 .ack] := by
  refine (settlements_stay_on_connection [.get true true, .consume .message, .flush true true,
    .handle .accept, .finish true true] ?_).2 [[], [.delivered 1 1], [], [], [.sent 1 1 .ack]] _ rfl
  refine ⟨⟨by decide, fun _ _ _ _ he => nomatch he⟩, fun r s hs => ?_⟩
  cases hs
  refine ⟨⟨by decide, fun _ _ _ _ he => nomatch he⟩, fun r s hs => ?_⟩
  cases hs
  refine ⟨⟨by decide, fun _ _ _ _ he _ hr => ?_⟩, fun r s hs => ?_⟩
  · -- the ack does not fail
    cases he
    exact nomatch hr.2.1
  cases hs
  refine ⟨⟨by decide, fun _ _ _ _ he => nomatch he⟩, fun r s hs => ?_⟩
  cases hs
  exact ⟨⟨by decide, fun _ _ _ _ he => nomatch he⟩, fun _ _ _ => trivial⟩

/-- The ack of the first message fails after the second was consumed; the second
is then acked on the connection made in between. -/
theorem reconnect_settles_on_wrong_connection :
    ∃ rs s, run step [.get false true, .consume .message, .flush true true, .handle .accept,
        .settle 0 true false true, .get true true, .consume .message, .flush false true,
        .flush true true, .handle .accept, .finish true true] State.init = .ok (rs, s) ∧
      ¬SettledOnOwn rs.flatten := by
  refine ⟨_, _, rfl, fun h => ?_⟩
  have hown := h [.delivered 1 1, .delivered 1 2, .sent 1 1 .ack] 2 2 .ack [] rfl
  exact absurd hown.1 (by decide)

end Razorback.Queue
