import Razorback.Lists.Items

/-! The semaphore of a stack or a queue beside its length. A push posts and a pop
waits, but `List_ForEach`, `List_Remove`, `List_Clear` and `List_Transfer` change
the length alone. -/

namespace Razorback.Lists
open Runs List Function

section
variable {α : Type}

namespace Seq

def Counted (L : Seq α) : Prop := L.mode ≠ .generic → L.sem = some L.items.length

variable {L : Seq α}

theorem Counted.withItems_iff (h : L.Counted) (xs : List α) :
    (L.withItems xs).Counted ↔ (L.mode ≠ .generic → xs.length = L.items.length) := by
  refine forall_congr' fun hm => ?_
  simp only [withItems, h hm, Option.some.injEq, eq_comm]

theorem semPost_eq_succ : semPost n = n + 1 ↔ n < semValueMax := by
  unfold semPost
  split_ifs with h
  · simp [h]
  · simp [h]

theorem Counted.pushItem_iff (h : L.Counted) (x : α) :
    (L.pushItem x).Counted ↔ (L.mode ≠ .generic → L.items.length < semValueMax) := by
  have hlen : (L.pushItem x).items.length = L.items.length + 1 := by
    unfold pushItem
    split_ifs <;> simp
  refine forall_congr' fun hm => ?_
  rw [hlen]
  simp only [pushItem, h hm, Option.map_some, Option.some.injEq, semPost_eq_succ]

theorem takeItem_mode (L : Seq α) : L.takeItem.2.mode = L.mode := by
  unfold takeItem
  split_ifs <;> rfl

theorem pop_mode (L : Seq α) (timeout : ℕ) : (L.pop timeout).2.mode = L.mode := by
  unfold pop
  split
  · exact takeItem_mode L
  · rfl
  · exact takeItem_mode _

theorem Counted.pop (h : L.Counted) (timeout : ℕ) :
    (L.pop timeout).2.Counted ∧ (L.mode ≠ .generic →
      (∃ x, (L.pop timeout).1 = .past (some x)) ∨
        (L.pop timeout).1 = (if timeout = 0 then .blocked else .timedOut) ∧ L.items = []) := by
  by_cases hm : L.mode = .generic
  · exact ⟨fun hne => absurd hm (L.pop_mode timeout ▸ hne), fun hne => absurd hm hne⟩
  · have hs := h hm
    cases hk : L.items.length with
    | zero =>
      rw [hk] at hs
      simp only [Seq.pop, hs]
      exact ⟨h, fun _ => .inr ⟨trivial, length_eq_zero_iff.mp hk⟩⟩
    | succ k =>
      rw [hk] at hs
      have hne : { L with sem := some k }.items ≠ [] := ne_nil_of_length_eq_add_one hk
      obtain ⟨x, rest, ht, hlen, _⟩ := takeItem_some hne
      have hrest : rest.length = k := Nat.succ.inj (hlen.symm.trans hk)
      simp only [Seq.pop, hs, ht]
      exact ⟨fun _ => by rw [withItems, hrest], fun _ => .inl ⟨x, rfl⟩⟩

theorem visit_kept_iff {σ : Type} (op : α → σ → EachCode × σ) (xs : List α) (s : σ) :
    (visit op xs s).2.2.1.length = xs.length ↔ (visit op xs s).2.2.2 = [] := by
  have h := (visit_perm op xs s).length_eq
  rw [length_append] at h
  rw [← length_eq_zero_iff]
  omega

end Seq

def Balanced [DecidableEq α] (op : Op α) (a : ℕ → Seq α) : Prop :=
  match op with
  | .push allocOk l _ =>
    (allocOk && !(a l).full) = true → (a l).mode ≠ .generic → (a l).items.length < semValueMax
  | .pop _ _ => True
  | .remove l item => (a l).mode ≠ .generic → ∀ x ∈ (a l).items, (a l).hit item x = false
  | .forEach l op s => (a l).mode ≠ .generic → (Seq.visit op (a l).items s).2.2.2 = []
  | .clear l => (a l).mode ≠ .generic → (a l).items = []
  | .transfer dest source => dest ≠ source →
    ((a source).mode ≠ .generic → (a source).items = []) ∧
      ((a dest).mode ≠ .generic → (a source).items.length = (a dest).items.length)
  | .setLimit _ _ => True

theorem counted_update_iff (h : ∀ m, (a m).Counted) (l : ℕ) (L : Seq α) :
    (∀ m, (update a l L m).Counted) ↔ L.Counted := by
  rw [forall_update_iff a fun _ L => Seq.Counted L]
  exact and_iff_left fun m _ => h m

theorem callSeq_counted_iff [DecidableEq α] {op : Op α} {a a' : ℕ → Seq α} {r : Result α}
    (h : ∀ m, (a m).Counted) (hc : callSeq op a = .ok (r, a')) :
    (∀ m, (a' m).Counted) ↔ Balanced op a := by
  cases op with
  | push allocOk l item =>
    dsimp only [callSeq, Balanced] at hc ⊢
    split_ifs at hc with hok
    · cases hc
      rw [counted_update_iff h, (h l).pushItem_iff, forall_prop_of_true hok]
    · cases hc
      exact iff_of_true h fun hok' => absurd hok' hok
  | pop l timeout =>
    cases hc
    exact iff_of_true ((counted_update_iff h l _).mpr ((h l).pop timeout).1) trivial
  | remove l item =>
    cases hc
    rw [counted_update_iff h, (h l).withItems_iff, Seq.visit_kept_iff, (visit_findRemove _ _ _).2.2]
    simp only [Balanced, filter_eq_nil_iff, Bool.not_eq_true]
  | forEach l op s =>
    cases hc
    rw [counted_update_iff h, (h l).withItems_iff, Seq.visit_kept_iff, Balanced]
  | clear l =>
    cases hc
    rw [counted_update_iff h, (h l).withItems_iff, Balanced]
    simp only [length_nil, @eq_comm ℕ 0, length_eq_zero_iff]
  | transfer dest source =>
    dsimp only [callSeq, Balanced] at hc ⊢
    split_ifs at hc with hne
    cases hc
    have hdest : (∀ m, m ≠ source → (update a dest ((a dest).withItems (a source).items) m).Counted) ↔
        ((a dest).withItems (a source).items).Counted := by
      constructor
      · intro hall
        have hd := hall dest hne
        rwa [update_self] at hd
      · intro hd m _
        exact (counted_update_iff h dest _).mpr hd m
    rw [forall_update_iff _ fun _ L => Seq.Counted L, hdest, (h source).withItems_iff,
      (h dest).withItems_iff, forall_prop_of_true hne]
    simp only [length_nil, @eq_comm ℕ 0, length_eq_zero_iff]
  | setLimit l limit =>
    cases hc
    exact iff_of_true ((counted_update_iff h l _).mpr (h l)) trivial

theorem balanced_of_error [DecidableEq α] {op : Op α} {a : ℕ → Seq α} {e : Fault}
    (hc : callSeq op a = .error e) : Balanced op a := by
  cases op with
  | push allocOk l item =>
    dsimp only [callSeq] at hc
    split_ifs at hc
  | transfer dest source =>
    dsimp only [callSeq] at hc
    split_ifs at hc with hne
    exact fun hne' => absurd hne hne'
  | pop | remove | forEach | clear | setLimit => cases hc

def SemaphoreCounts (w : World α) : Prop :=
  ∀ l, (w.lists l).mode ≠ .generic → (w.lists l).sem = some (w.lists l).length

/-- A pop of a stack or a queue gets an item if it passes the semaphore, and
does not pass it only if there is none. -/
def PopsExact (w : World α) : Prop :=
  ∀ l timeout, (w.lists l).mode ≠ .generic → ∃ r w', popEx l timeout w = .ok (r, w') ∧
    ((∃ x, r = .past (some x)) ∨
      r = (if timeout = 0 then .blocked else .timedOut) ∧ (w.lists l).length = 0)

variable {w : World α} {ls : ℕ → List ℕ} {a : ℕ → Seq α}

theorem Refines.length_eq (h : Refines w ls a) (l : ℕ) : (w.lists l).length = (a l).items.length := by
  rw [h.items l, h.rep.length l]
  simp [itemsOf]

theorem Refines.popsExact (h : Refines w ls a) (hc : ∀ l, (a l).Counted) : PopsExact w := by
  intro l timeout hm
  obtain ⟨w', ls', hp, _⟩ := h.popEx l timeout
  refine ⟨_, w', hp, ?_⟩
  rw [h.length_eq, length_eq_zero_iff]
  exact ((hc l).pop timeout).2 (h.mode l ▸ hm)

theorem Refines.semaphoreCounts_iff (h : Refines w ls a) :
    SemaphoreCounts w ↔ ∀ l, (a l).Counted := by
  refine forall_congr' fun l => ?_
  rw [Seq.Counted, h.mode, h.sem, h.length_eq]

end

/-- In every run from new lists the semaphore of each stack and queue is its
length after every call exactly when no call changes a length alone; pops are
then answered by what the list holds. -/
theorem semaphore_counts_iff {α : Type} [DecidableEq α] (junk : ℕ → Node α) (mode : ℕ → Mode)
    (cmp : ℕ → Option (α → α → Bool)) (limit : ℕ → ℕ) (ops : List (Op α)) :
    (Throughout SemaphoreCounts call ops (initWorld junk mode cmp limit) ↔
      Along Balanced callSeq ops (initSeqs mode cmp limit)) ∧
    (Along Balanced callSeq ops (initSeqs mode cmp limit) →
      Throughout PopsExact call ops (initWorld junk mode cmp limit)) := by
  have hst : ∃ ls, Refines (initWorld junk mode cmp limit) ls (initSeqs mode cmp limit) :=
    ⟨_, initWorld_refines junk mode cmp limit⟩
  have hiff : Throughout (fun a => ∀ l, (a l).Counted) callSeq ops (initSeqs mode cmp limit) ↔
      Along Balanced callSeq ops (initSeqs mode cmp limit) :=
    throughout_iff_along (fun _ _ _ _ hs hc => callSeq_counted_iff hs hc)
      (fun _ _ _ _ hc => balanced_of_error hc) (fun _ hm => if_neg hm) ops
  refine ⟨?_, fun h as bs rs w he hr => ?_⟩
  · rw [← hiff]
    exact throughout_related call_refines (fun _ _ ⟨_, hr⟩ => hr.semaphoreCounts_iff) ops hst
  · have hrel := run_refines as hst
    rw [hr] at hrel
    cases ha : run callSeq as (initSeqs mode cmp limit) with
    | error e => rw [ha] at hrel; exact hrel.elim
    | ok q =>
      rw [ha] at hrel
      obtain ⟨_, hrefine⟩ := hrel.2
      exact hrefine.popsExact (hiff.mpr h as bs q.1 q.2 he ha)

/-- A cleared queue keeps the posts of what it held: the next pop passes the
semaphore and gets nothing. -/
theorem semaphore_outlives_clear :
    ∃ w, run call [.push true 0 1, .clear 0]
        (initWorld (fun _ => ⟨none, none, 0, false⟩) (fun _ => .queue) (fun _ => none) fun _ => 0) =
        .ok ([.pushed true, .cleared [1]], w) ∧
      (w.lists 0).mode = .queue ∧ (w.lists 0).sem = some 1 ∧ (w.lists 0).length = 0 ∧
      (popEx 0 0 w).map Prod.fst = .ok (.past none) :=
  ⟨_, rfl, rfl, rfl, rfl, rfl⟩

end Razorback.Lists
