import Razorback.Lists.Refine

/-! The order in which a queue hands its items out. `List_Queue_Push` appends at
the tail and `List_Queue_Pop` takes from the tail too, so the order is that of a
stack: it is first-in first-out exactly as long as no item ever waits behind
another one. -/

namespace Razorback.Lists
open Runs Function List

section
variable {α : Type}

abbrev History (α : Type) := List (Op α × Result α)

def pushedItem : Op α × Result α → Option α
  | (.push _ _ x, .pushed true) => some x
  | _ => none

def PopResult.item : PopResult α → Option α
  | .past x => x
  | _ => none

def poppedItem : Op α × Result α → Option α
  | (_, .popped r) => r.item
  | _ => none

def pushedItems (h : History α) : List α := h.filterMap pushedItem

def poppedItems (h : History α) : List α := h.filterMap poppedItem

/-- Every item was alone in the list when it was taken. -/
def OneAtATime (h : History α) : Prop :=
  ∀ before after p x, h = before ++ p :: after → poppedItem p = some x →
    (pushedItems before).length = (poppedItems before).length + 1

def QueueOp (l : ℕ) : Op α → Prop
  | .push _ m _ | .pop m _ => m = l
  | _ => False

structure QueueInvariant (l : ℕ) (h : History α) (a : ℕ → Seq α) : Prop where
  mode : (a l).mode = .queue
  count : (pushedItems h).length = (poppedItems h).length + (a l).items.length
  order : OneAtATime h → pushedItems h = poppedItems h ++ (a l).items
  alone : (pushedItems h).Nodup → poppedItems h <+: pushedItems h → OneAtATime h

variable {l : ℕ} {h : History α} {a a' : ℕ → Seq α} {p : Op α × Result α}

theorem pushedItems_snoc (h : History α) (p : Op α × Result α) :
    pushedItems (h ++ [p]) = pushedItems h ++ (pushedItem p).toList := by
  cases hp : pushedItem p <;> simp [pushedItems, hp]

theorem poppedItems_snoc (h : History α) (p : Op α × Result α) :
    poppedItems (h ++ [p]) = poppedItems h ++ (poppedItem p).toList := by
  cases hp : poppedItem p <;> simp [poppedItems, hp]

theorem oneAtATime_snoc (h : History α) (p : Op α × Result α) :
    OneAtATime (h ++ [p]) ↔ OneAtATime h ∧
      ∀ x, poppedItem p = some x → (pushedItems h).length = (poppedItems h).length + 1 := by
  constructor
  · intro ho
    refine ⟨fun before after q x heq hq => ?_, fun x hx => ho h [] p x rfl hx⟩
    exact ho before (after ++ [p]) q x (by rw [heq]; simp) hq
  · rintro ⟨ho, hp⟩ before after q x heq hq
    rcases snoc_eq_append_cons heq with ⟨_, rfl, rfl⟩ | ⟨after', _, hh⟩
    · exact hp x hq
    · exact ho before after' q x hh hq

theorem QueueInvariant.idle (hi : QueueInvariant l h a) (hpush : pushedItem p = none)
    (hpop : poppedItem p = none) (hmode : (a' l).mode = (a l).mode)
    (hitems : (a' l).items = (a l).items) : QueueInvariant l (h ++ [p]) a' := by
  have e1 : pushedItems (h ++ [p]) = pushedItems h := by simp [pushedItems_snoc, hpush]
  have e2 : poppedItems (h ++ [p]) = poppedItems h := by simp [poppedItems_snoc, hpop]
  have e3 : OneAtATime (h ++ [p]) ↔ OneAtATime h := by simp [oneAtATime_snoc, hpop]
  refine ⟨hmode.trans hi.mode, ?_, ?_, ?_⟩
  · rw [e1, e2, hitems]
    exact hi.count
  · rw [e1, e2, e3, hitems]
    exact hi.order
  · rw [e1, e2, e3]
    exact hi.alone

theorem QueueInvariant.push (hi : QueueInvariant l h a) (hpush : pushedItem p = some x)
    (hpop : poppedItem p = none) (hmode : (a' l).mode = (a l).mode)
    (hitems : (a' l).items = (a l).items ++ [x]) : QueueInvariant l (h ++ [p]) a' := by
  have e1 : pushedItems (h ++ [p]) = pushedItems h ++ [x] := by simp [pushedItems_snoc, hpush]
  have e2 : poppedItems (h ++ [p]) = poppedItems h := by simp [poppedItems_snoc, hpop]
  have e3 : OneAtATime (h ++ [p]) ↔ OneAtATime h := by simp [oneAtATime_snoc, hpop]
  refine ⟨hmode.trans hi.mode, ?_, fun ho => ?_, fun hnd hpre => ?_⟩
  · rw [e1, e2, hitems, length_append, length_append, hi.count, Nat.add_assoc]
  · rw [e1, e2, hitems, hi.order (e3.mp ho), append_assoc]
  · rw [e1] at hnd hpre
    rw [e2] at hpre
    have hlen : (poppedItems h).length ≤ (pushedItems h).length := by
      rw [hi.count]
      exact Nat.le_add_right _ _
    refine e3.mpr (hi.alone (nodup_append.mp hnd).1 ?_)
    exact prefix_of_prefix_length_le hpre (prefix_append _ _) hlen

theorem QueueInvariant.pop (hi : QueueInvariant l h a) (hpush : pushedItem p = none)
    (hpop : poppedItem p = some x) (hmode : (a' l).mode = (a l).mode)
    (hitems : (a l).items = (a' l).items ++ [x]) : QueueInvariant l (h ++ [p]) a' := by
  have e1 : pushedItems (h ++ [p]) = pushedItems h := by simp [pushedItems_snoc, hpush]
  have e2 : poppedItems (h ++ [p]) = poppedItems h ++ [x] := by simp [poppedItems_snoc, hpop]
  have e3 : OneAtATime (h ++ [p]) ↔ OneAtATime h ∧ (a' l).items = [] := by
    rw [oneAtATime_snoc, hi.count, hitems]
    simp [hpop]
  refine ⟨hmode.trans hi.mode, ?_, fun ho => ?_, fun hnd hpre => ?_⟩
  · rw [e1, e2, hi.count, hitems, length_append, length_append]
    omega
  · obtain ⟨ho, hnil⟩ := e3.mp ho
    rw [e1, e2, hi.order ho, hitems, hnil]
    simp
  · rw [e1] at hnd hpre
    rw [e2] at hpre
    have ho := hi.alone hnd ((prefix_append _ _).trans hpre)
    refine e3.mpr ⟨ho, ?_⟩
    -- the item just taken would also have to be the oldest one
    rw [hi.order ho, hitems] at hpre
    rw [hi.order ho, hitems, nodup_append, nodup_append] at hnd
    cases hys : (a' l).items with
    | nil => rfl
    | cons y ys =>
      rw [hys] at hpre hnd
      obtain rfl : x = y := by simpa using hpre
      exact absurd rfl (hnd.2.1.2.2 x mem_cons_self x (mem_singleton.mpr rfl))

theorem Seq.takeItem_queue {L : Seq α} (hm : L.mode ≠ .stack) :
    L.takeItem.2.mode = L.mode ∧ L.takeItem.2.items ++ L.takeItem.1.toList = L.items := by
  unfold Seq.takeItem
  rw [if_neg hm]
  rcases eq_nil_or_concat L.items with he | ⟨xs, x, he⟩
  · simp [Seq.withItems, he]
  · simp [Seq.withItems, he]

theorem Seq.pop_queue {L : Seq α} (hm : L.mode ≠ .stack) (timeout : ℕ) :
    (L.pop timeout).2.mode = L.mode ∧
    (L.pop timeout).2.items ++ (L.pop timeout).1.item.toList = L.items := by
  unfold Seq.pop
  cases hs : L.sem with
  | none => exact Seq.takeItem_queue hm
  | some k =>
    cases k with
    | zero =>
      split_ifs <;> simp [PopResult.item]
    | succ k => exact Seq.takeItem_queue hm

theorem callSeq_queue [DecidableEq α] (h : History α) (op : Op α) (a : ℕ → Seq α) (r : Result α)
    (a' : ℕ → Seq α) (hi : QueueInvariant l h a) (hop : QueueOp l op)
    (hc : callSeq op a = .ok (r, a')) : QueueInvariant l (h ++ [(op, r)]) a' := by
  have hm : ¬(a l).mode = .stack := by simp [hi.mode]
  cases op with
  | push allocOk m x =>
    obtain rfl : m = l := hop
    dsimp only [callSeq] at hc
    split_ifs at hc
    · cases hc
      refine hi.push rfl rfl ?_ ?_ <;> simp [Seq.pushItem, hm]
    · cases hc
      exact hi.idle rfl rfl rfl rfl
  | pop m timeout =>
    obtain rfl : m = l := hop
    have hpop : callSeq (.pop m timeout) a =
        .ok (.popped ((a m).pop timeout).1, update a m ((a m).pop timeout).2) := rfl
    rw [hpop] at hc
    cases hc
    obtain ⟨hmode, hitems⟩ := Seq.pop_queue hm timeout
    cases hx : ((a m).pop timeout).1.item with
    | none =>
      refine hi.idle rfl hx (by rw [update_self, hmode]) ?_
      simpa [hx] using hitems
    | some x =>
      refine hi.pop rfl hx (by rw [update_self, hmode]) ?_
      simpa [hx] using hitems.symm
  | remove m item => exact hop.elim
  | forEach m op s => exact hop.elim
  | clear m => exact hop.elim
  | transfer d s => exact hop.elim
  | setLimit m k => exact hop.elim

theorem run_callSeq_ok [DecidableEq α] (hops : ∀ op ∈ ops, QueueOp l op)
    (a : ℕ → Seq α) : ∃ rs a', run callSeq ops a = .ok (rs, a') := by
  induction ops generalizing a with
  | nil => exact ⟨[], a, rfl⟩
  | cons op ops ih =>
    obtain ⟨r, a₁, hc⟩ : ∃ r a₁, callSeq op a = .ok (r, a₁) := by
      have hop := hops op mem_cons_self
      cases op with
      | push allocOk m x =>
        dsimp only [callSeq]
        split_ifs
        · exact ⟨_, _, rfl⟩
        · exact ⟨_, _, rfl⟩
      | pop m timeout => exact ⟨_, _, rfl⟩
      | remove m item => exact hop.elim
      | forEach m op s => exact hop.elim
      | clear m => exact hop.elim
      | transfer d s => exact hop.elim
      | setLimit m k => exact hop.elim
    obtain ⟨rs, a', hr⟩ := ih (fun op h => hops op (mem_cons_of_mem _ h)) a₁
    exact ⟨r :: rs, a', by rw [run_cons_ok hc, hr]; rfl⟩

end

/-- Pushes and pops on one queue: what was popped is a prefix of what was pushed
if every item was taken alone, and only then when the items are distinct. -/
theorem queue_order [DecidableEq α] (junk : ℕ → Node α) (mode : ℕ → Mode)
    (cmp : ℕ → Option (α → α → Bool)) (limit : ℕ → ℕ) (l : ℕ) (hl : mode l = .queue)
    (ops : List (Op α)) (hops : ∀ op ∈ ops, QueueOp l op) :
    ∃ rs w, run call ops (initWorld junk mode cmp limit) = .ok (rs, w) ∧
      (OneAtATime (ops.zip rs) → poppedItems (ops.zip rs) <+: pushedItems (ops.zip rs)) ∧
      ((pushedItems (ops.zip rs)).Nodup → poppedItems (ops.zip rs) <+: pushedItems (ops.zip rs) →
        OneAtATime (ops.zip rs)) := by
  obtain ⟨rs, a, hr⟩ := run_callSeq_ok hops (initSeqs mode cmp limit)
  have hrel := run_refines ops ⟨_, initWorld_refines junk mode cmp limit⟩
  rw [hr] at hrel
  cases hw : run call ops (initWorld junk mode cmp limit) with
  | error e =>
    rw [hw] at hrel
    exact hrel.elim
  | ok p =>
    rw [hw] at hrel
    have hstart : QueueInvariant l [] (initSeqs mode cmp limit) :=
      ⟨hl, rfl, fun _ => rfl, fun _ _ before after p x heq => absurd heq (by simp)⟩
    have hi := run_along callSeq_queue hstart (along_of_forall hops) hr
    obtain rfl : p.1 = rs := hrel.1
    refine ⟨p.1, p.2, rfl, fun ho => ?_, hi.alone⟩
    rw [nil_append] at hi
    rw [hi.order ho]
    exact prefix_append _ _

theorem queue_order_push_pop :
    ∃ rs w, run call [.push true 0 1, .pop 0 0]
        (initWorld (fun _ => ⟨none, none, 0, false⟩) (fun _ => .queue) (fun _ => none) fun _ => 0) =
        .ok (rs, w) ∧
      (OneAtATime ([.push true 0 1, .pop 0 0].zip rs) →
        poppedItems ([.push true 0 1, .pop 0 0].zip rs) <+: pushedItems ([.push true 0 1, .pop 0 0].zip rs)) ∧
      ((pushedItems ([.push true 0 1, .pop 0 0].zip rs)).Nodup →
        poppedItems ([.push true 0 1, .pop 0 0].zip rs) <+:
          pushedItems ([.push true 0 1, .pop 0 0].zip rs) →
        OneAtATime ([.push true 0 1, .pop 0 0].zip rs)) :=
  queue_order _ _ _ _ 0 rfl _ (by simp [QueueOp])

/-- Two items pushed and one popped: the younger one comes first. -/
theorem queue_pops_newest : ∃ w : World ℕ, run call [.push true 0 1, .push true 0 2, .pop 0 0]
      (initWorld (fun _ => ⟨none, none, 0, false⟩) (fun _ => .queue) (fun _ => none) fun _ => 0) =
      .ok ([.pushed true, .pushed true, .popped (.past (some 2))], w) ∧
    ¬poppedItems ([.push true 0 1, .push true 0 2, .pop 0 0].zip
      [.pushed true, .pushed true, .popped (.past (some 2))]) <+:
    pushedItems ([.push true 0 1, .push true 0 2, .pop 0 0].zip
      [.pushed true, .pushed true, .popped (.past (some 2))]) :=
  ⟨_, rfl, by decide⟩

end Razorback.Lists
