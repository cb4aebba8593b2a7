import Mathlib.Data.UInt

/-! Doubly linked chains in a store of nodes. A store is known only through its
two pointer fields; a chain is a finite sequence of nodes that these fields
string together, with given outer neighbours on both sides. -/

namespace Razorback.Linked
open List

variable {ι : Type*}

structure Links (ι : Type*) where
  next : ι → Option ι
  prev : ι → Option ι

/-- `Chain L p xs q`: the nodes `xs` are linked in this order, the first one
pointing back to `p` and the last one forward to `q`. -/
def Chain (L : Links ι) : Option ι → List ι → Option ι → Prop
  | _, [], _ => True
  | p, x :: xs, q => L.prev x = p ∧ L.next x = xs.head?.or q ∧ Chain L (some x) xs q

def follow (L : Links ι) : ℕ → Option ι → List ι
  | 0, _ => []
  | _ + 1, none => []
  | n + 1, some x => x :: follow L n (L.next x)

variable {L M : Links ι} {p q : Option ι} {xs ys : List ι} {x : ι}

@[simp] theorem chain_nil : Chain L p [] q := trivial

theorem chain_cons :
    Chain L p (x :: xs) q ↔ L.prev x = p ∧ L.next x = xs.head?.or q ∧ Chain L (some x) xs q := .rfl

theorem chain_append : Chain L p (xs ++ ys) q ↔
    Chain L p xs (ys.head?.or q) ∧ Chain L (xs.getLast?.or p) ys q := by
  induction xs generalizing p with
  | nil => simp
  | cons x xs ih =>
    have hhead : (xs ++ ys).head?.or q = xs.head?.or (ys.head?.or q) := by
      cases xs <;> simp
    have hlast : (x :: xs).getLast?.or p = xs.getLast?.or (some x) := by
      rw [getLast?_cons]
      cases xs.getLast? <;> rfl
    rw [cons_append, chain_cons, chain_cons, ih, hhead, hlast]
    tauto

theorem Chain.congr (h : Chain L p xs q)
    (hM : ∀ y ∈ xs, M.next y = L.next y ∧ M.prev y = L.prev y) : Chain M p xs q := by
  induction xs generalizing p with
  | nil => trivial
  | cons x xs ih =>
    obtain ⟨hp, hn, ht⟩ := h
    obtain ⟨hxn, hxp⟩ := hM x mem_cons_self
    exact ⟨hxp.trans hp, hxn.trans hn, ih ht fun y hy => hM y (mem_cons_of_mem _ hy)⟩

theorem Chain.neighbours (h : Chain L p (xs ++ x :: ys) q) :
    L.prev x = xs.getLast?.or p ∧ L.next x = ys.head?.or q := by
  obtain ⟨_, hp, hn, _⟩ := chain_append.mp h
  exact ⟨hp, hn⟩

theorem Chain.mem_of_next (h : Chain L none xs none) {y : ι} (hx : x ∈ xs) (hn : L.next x = some y) :
    y ∈ xs := by
  obtain ⟨as, bs, rfl⟩ := append_of_mem hx
  have hhead : bs.head? = some y := by simpa [h.neighbours.2] using hn
  exact mem_append_right _ (mem_cons_of_mem _ (mem_of_mem_head? hhead))

theorem Chain.mem_of_prev (h : Chain L none xs none) {y : ι} (hx : x ∈ xs) (hp : L.prev x = some y) :
    y ∈ xs := by
  obtain ⟨as, bs, rfl⟩ := append_of_mem hx
  have hlast : as.getLast? = some y := by simpa [h.neighbours.1] using hp
  exact mem_append_left _ (mem_of_getLast? hlast)

section
variable (h : Chain L p xs q) (hnd : xs.Nodup)
include h hnd

theorem Chain.redirect_last {q' : Option ι}
    (hlast : ∀ a, xs.getLast? = some a → M.next a = q')
    (hnext : ∀ y ∈ xs, xs.getLast? ≠ some y → M.next y = L.next y)
    (hprev : ∀ y ∈ xs, M.prev y = L.prev y) : Chain M p xs q' := by
  induction xs generalizing p with
  | nil => trivial
  | cons x xs ih =>
    obtain ⟨hp, hn, ht⟩ := h
    have hx := (nodup_cons.mp hnd).1
    refine ⟨(hprev x mem_cons_self).trans hp, ?_, ?_⟩
    · cases xs with
      | nil => simpa using hlast x rfl
      | cons y ys =>
        have hne : (x :: y :: ys).getLast? ≠ some x := by
          intro he
          exact hx (mem_of_getLast? he)
        simpa using (hnext x mem_cons_self hne).trans hn
    · cases xs with
      | nil => trivial
      | cons y ys =>
        exact ih ht (nodup_cons.mp hnd).2 hlast
          (fun z hz => hnext z (mem_cons_of_mem _ hz))
          (fun z hz => hprev z (mem_cons_of_mem _ hz))

theorem Chain.redirect_head {p' : Option ι}
    (hhead : ∀ a, xs.head? = some a → M.prev a = p')
    (hprev : ∀ y ∈ xs, xs.head? ≠ some y → M.prev y = L.prev y)
    (hnext : ∀ y ∈ xs, M.next y = L.next y) : Chain M p' xs q := by
  cases xs with
  | nil => trivial
  | cons x xs =>
    obtain ⟨_, hn, ht⟩ := h
    have hx := (nodup_cons.mp hnd).1
    refine ⟨hhead x rfl, (hnext x mem_cons_self).trans hn, ht.congr fun y hy => ?_⟩
    have hne : (x :: xs).head? ≠ some y := by
      rintro he
      exact hx (Option.some.inj he ▸ hy)
    exact ⟨hnext y (mem_cons_of_mem _ hy), hprev y (mem_cons_of_mem _ hy) hne⟩

theorem Chain.snoc {q' : Option ι}
    (hxp : M.prev x = xs.getLast?.or p) (hxn : M.next x = q')
    (hlast : ∀ a, xs.getLast? = some a → M.next a = some x)
    (hnext : ∀ y ∈ xs, xs.getLast? ≠ some y → M.next y = L.next y)
    (hprev : ∀ y ∈ xs, M.prev y = L.prev y) : Chain M p (xs ++ [x]) q' := by
  rw [chain_append]
  exact ⟨h.redirect_last hnd hlast hnext hprev, hxp, by simpa using hxn, trivial⟩

theorem Chain.push {p' : Option ι}
    (hxp : M.prev x = p') (hxn : M.next x = xs.head?.or q)
    (hhead : ∀ a, xs.head? = some a → M.prev a = some x)
    (hprev : ∀ y ∈ xs, xs.head? ≠ some y → M.prev y = L.prev y)
    (hnext : ∀ y ∈ xs, M.next y = L.next y) : Chain M p' (x :: xs) q :=
  ⟨hxp, hxn, h.redirect_head hnd hhead hprev hnext⟩

end

theorem Chain.unlink (h : Chain L p (xs ++ x :: ys) q) (hnd : (xs ++ x :: ys).Nodup)
    (hlast : ∀ a, xs.getLast? = some a → M.next a = ys.head?.or q)
    (hhead : ∀ b, ys.head? = some b → M.prev b = xs.getLast?.or p)
    (hnext : ∀ y ∈ xs ++ ys, xs.getLast? ≠ some y → M.next y = L.next y)
    (hprev : ∀ y ∈ xs ++ ys, ys.head? ≠ some y → M.prev y = L.prev y) :
    Chain M p (xs ++ ys) q := by
  obtain ⟨hl, hx⟩ := chain_append.mp h
  obtain ⟨hndl, hndr, hdisj⟩ := nodup_append.mp hnd
  have hndy := (nodup_cons.mp hndr).2
  rw [chain_append]
  constructor
  · refine hl.redirect_last hndl hlast (fun y hy => hnext y (mem_append_left _ hy)) ?_
    intro y hy
    apply hprev y (mem_append_left _ hy)
    intro he
    exact hdisj y hy y (mem_cons_of_mem _ (mem_of_mem_head? he)) rfl
  · refine hx.2.2.redirect_head hndy hhead (fun y hy => hprev y (mem_append_right _ hy)) ?_
    intro y hy
    apply hnext y (mem_append_right _ hy)
    intro he
    exact hdisj y (mem_of_getLast? he) y (mem_cons_of_mem _ hy) rfl

theorem Chain.follow_eq (h : Chain L p xs none) {n : ℕ} (hn : xs.length ≤ n) :
    follow L n xs.head? = xs := by
  induction xs generalizing p n with
  | nil => cases n <;> rfl
  | cons x xs ih =>
    obtain ⟨_, hnx, ht⟩ := h
    cases n with
    | zero => simp at hn
    | succ n =>
      rw [head?_cons, follow, hnx, Option.or_none, ih ht (by simpa using hn)]

def Links.flip (L : Links ι) : Links ι := ⟨L.prev, L.next⟩

theorem Chain.reverse (h : Chain L p xs q) : Chain L.flip q xs.reverse p := by
  induction xs generalizing p with
  | nil => trivial
  | cons x xs ih =>
    obtain ⟨hp, hn, ht⟩ := h
    rw [reverse_cons, chain_append]
    refine ⟨ih ht, ?_, hp, trivial⟩
    rw [getLast?_reverse]
    exact hn

theorem Chain.next_iff_prev (h : Chain L none xs none) (hnd : xs.Nodup) {a b : ι}
    (ha : a ∈ xs) (hb : b ∈ xs) : L.next a = some b ↔ L.prev b = some a := by
  constructor
  · intro hab
    obtain ⟨l, r, rfl⟩ := append_of_mem ha
    have hr : r.head? = some b := by simpa [h.neighbours.2] using hab
    obtain ⟨r', rfl⟩ : ∃ r', r = b :: r' := by cases r <;> simp_all
    have hb' : Chain L none ((l ++ [a]) ++ b :: r') none := by simpa using h
    simpa using hb'.neighbours.1
  · intro hba
    obtain ⟨l, r, rfl⟩ := append_of_mem hb
    have hl : l.getLast? = some a := by simpa [h.neighbours.1] using hba
    obtain ⟨l', rfl⟩ := getLast?_eq_some_iff.mp hl
    have ha' : Chain L none (l' ++ a :: (b :: r)) none := by simpa using h
    simpa using ha'.neighbours.2

end Razorback.Linked
