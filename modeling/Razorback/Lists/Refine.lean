import Razorback.Lists.Links

/-! The lists as sequences of items. The calls on sequences say what each public
function is for, without nodes; the pointer code refines them, so it neither
faults nor loses an item. -/

namespace Razorback.Lists
open Linked Runs Function List

structure Seq (α : Type) where
  items : List α
  limit : ℕ
  mode : Mode
  cmp : Option (α → α → Bool)
  sem : Option ℕ

inductive Op (α : Type)
  | push (allocOk : Bool) (l : ℕ) (item : α)
  | pop (l timeout : ℕ)
  | remove (l : ℕ) (item : α)
  | forEach (l : ℕ) (op : α → ℕ → EachCode × ℕ) (userData : ℕ)
  | clear (l : ℕ)
  | transfer (dest source : ℕ)
  | setLimit (l limit : ℕ)

inductive Result (α : Type)
  | pushed (ok : Bool)
  | popped (r : PopResult α)
  | removed (found : Bool) (destroyed : List α)
  | visited (ok : Bool) (userData : ℕ) (destroyed : List α)
  | cleared (destroyed : List α)
  | transferred (destroyed : List α)
  | limited

section
variable {α : Type}

def call [DecidableEq α] (op : Op α) (w : World α) : Except Fault (Result α × World α) :=
  match op with
  | .push allocOk l item => let (ok, w) := push allocOk l item w; .ok (.pushed ok, w)
  | .pop l timeout => (popEx l timeout w).map fun p => (.popped p.1, p.2)
  | .remove l item => (remove l item w).map fun p => (.removed p.1.1 p.1.2, p.2)
  | .forEach l op s => (forEach l op s w).map fun p => (.visited p.1.1 p.1.2.1 p.1.2.2, p.2)
  | .clear l => (clear l w).map fun p => (.cleared p.1, p.2)
  | .transfer dest source => (transfer dest source w).map fun p => (.transferred p.1, p.2)
  | .setLimit l limit => .ok (.limited, setLimit l limit w)

namespace Seq

def withItems (L : Seq α) (xs : List α) : Seq α := { L with items := xs }

def full (L : Seq α) : Bool := 0 < L.limit && L.limit ≤ L.items.length

def pushItem (item : α) (L : Seq α) : Seq α :=
  { L with
    items := if L.mode = .stack then item :: L.items else L.items ++ [item]
    sem := L.sem.map semPost }

def takeItem (L : Seq α) : Option α × Seq α :=
  if L.mode = .stack then (L.items.head?, L.withItems L.items.tail)
  else (L.items.getLast?, L.withItems L.items.dropLast)

def pop (timeout : ℕ) (L : Seq α) : PopResult α × Seq α :=
  match L.sem with
  | none => let (x, L) := L.takeItem; (.past x, L)
  | some 0 => (if timeout = 0 then .blocked else .timedOut, L)
  | some (k + 1) => let (x, L) := { L with sem := some k }.takeItem; (.past x, L)

/-- A pass over the items: the return value, the user data, what stays and what goes. -/
def visit {σ : Type} (op : α → σ → EachCode × σ) : List α → σ → Bool × σ × List α × List α
  | [], s => (true, s, [], [])
  | x :: xs, s =>
    match op x s with
    | (.error, s) => (false, s, x :: xs, [])
    | (.end, s) => (true, s, x :: xs, [])
    | (.remove, s) =>
      let (ret, s, kept, gone) := visit op xs s
      (ret, s, kept, x :: gone)
    | (.ok, s) =>
      let (ret, s, kept, gone) := visit op xs s
      (ret, s, x :: kept, gone)

def hit [DecidableEq α] (L : Seq α) (item x : α) : Bool :=
  x = item || (L.cmp.map fun cmp => cmp x item).getD false

def drained (L : Seq α) : List α := if L.mode = .stack then L.items else L.items.reverse

end Seq

def callSeq [DecidableEq α] (op : Op α) (a : ℕ → Seq α) : Except Fault (Result α × (ℕ → Seq α)) :=
  match op with
  | .push allocOk l item =>
    if allocOk && !(a l).full then .ok (.pushed true, Function.update a l ((a l).pushItem item))
    else .ok (.pushed false, a)
  | .pop l timeout =>
    let (r, L) := (a l).pop timeout
    .ok (.popped r, Function.update a l L)
  | .remove l item =>
    let (_, found, kept, gone) := Seq.visit
      (fun x found => if (a l).hit item x then (.remove, some x) else (.ok, found)) (a l).items
      (none : Option α)
    .ok (.removed found.isSome gone, Function.update a l ((a l).withItems kept))
  | .forEach l op s =>
    let (ret, s, kept, gone) := Seq.visit op (a l).items s
    .ok (.visited ret s gone, Function.update a l ((a l).withItems kept))
  | .clear l => .ok (.cleared (a l).drained, Function.update a l ((a l).withItems []))
  | .transfer dest source =>
    if dest = source then .error .deadlock
    else .ok (.transferred (a dest).drained,
      Function.update (Function.update a dest ((a dest).withItems (a source).items)) source
        ((a source).withItems []))
  | .setLimit l limit => .ok (.limited, Function.update a l { a l with limit := limit })

/-- The pointers thread the items, and no node is left marked. -/
structure Refines (w : World α) (ls : ℕ → List ℕ) (a : ℕ → Seq α) : Prop where
  rep : Rep w ls
  clean : Clean w ls
  items : ∀ l, (a l).items = itemsOf w (ls l)
  limit : ∀ l, (a l).limit = (w.lists l).limit
  mode : ∀ l, (a l).mode = (w.lists l).mode
  cmp : ∀ l, (a l).cmp = (w.lists l).cmp
  sem : ∀ l, (a l).sem = (w.lists l).sem

variable {w w' : World α} {ls : ℕ → List ℕ} {a : ℕ → Seq α} {l n : ℕ}

theorem Settings.items_eq (h : Settings w w') (ns : List ℕ) : itemsOf w' ns = itemsOf w ns :=
  map_congr_left fun n _ => h.item n

variable {xs : List ℕ}

theorem Refines.setItems (h : Refines w ls a) (hr : Rep w' (Function.update ls l xs))
    (hk : Settings w w') (hclean : Clean w' (Function.update ls l xs)) :
    Refines w' (Function.update ls l xs) (Function.update a l ((a l).withItems (itemsOf w xs))) := by
  refine ⟨hr, hclean, fun m => ?_, fun m => ?_, fun m => ?_, fun m => ?_, fun m => ?_⟩
  · rw [hk.items_eq, apply_update fun _ => Seq.items, apply_update fun _ => itemsOf w, funext h.items]
    rfl
  · rw [update_field Seq.limit (by rfl), h.limit, hk.limit]
  · rw [update_field Seq.mode (by rfl), h.mode, hk.mode]
  · rw [update_field Seq.cmp (by rfl), h.cmp, hk.cmp]
  · rw [update_field Seq.sem (by rfl), h.sem, hk.sem]

theorem Clean.update (hother : ∀ m, m ≠ l → ∀ n ∈ ls m, (w.nodes n).del = false)
    (hxs : ∀ n ∈ xs, (w.nodes n).del = false) : Clean w (Function.update ls l xs) :=
  (forall_update_iff ls fun _ xs => ∀ n ∈ xs, (w.nodes n).del = false).mpr ⟨hxs, hother⟩

theorem Refines.keepPart (h : Refines w ls a) (hr : Rep w' (Function.update ls l xs))
    (hk : Keeps w w') (hxs : xs ⊆ ls l) :
    Refines w' (Function.update ls l xs) (Function.update a l ((a l).withItems (itemsOf w xs))) :=
  h.setItems hr hk.toSettings (.update (fun m _ n hn => (hk.del n).trans (h.clean m n hn))
    fun n hn => (hk.del n).trans (h.clean l n (hxs hn)))

theorem doPop_none (h : popEnd (w.lists l) = none) : doPop l w = .ok (none, w) := by
  simp only [doPop, h]

theorem doPop_some (h : popEnd (w.lists l) = some n) (hr : removeNode l n w = .ok w') :
    doPop l w = .ok (some n, w') := by
  simp only [doPop, h, hr]
  rfl

theorem popEnd_eq (h : Rep w ls) (l : ℕ) : popEnd (w.lists l) =
    if (w.lists l).mode = .stack then (ls l).head? else (ls l).getLast? := by
  unfold popEnd
  cases (w.lists l).mode with
  | stack => exact h.threads.first_eq l
  | generic => exact h.threads.last_eq l
  | queue => exact h.threads.last_eq l

theorem doPop_spec (h : Rep w ls) (l : ℕ) :
    ∃ w', doPop l w = .ok (if (w.lists l).mode = .stack then (ls l).head? else (ls l).getLast?, w') ∧
      Rep w' (Function.update ls l
        (if (w.lists l).mode = .stack then (ls l).tail else (ls l).dropLast)) ∧ Keeps w w' := by
  have hend := popEnd_eq h l
  have hnil : ls l = [] → Function.update ls l [] = ls := fun e => e ▸ update_eq_self l ls
  split_ifs at hend ⊢ with hm
  · cases he : ls l with
    | nil =>
      rw [he] at hend
      exact ⟨w, doPop_none hend, (hnil he).symm ▸ h, .refl w⟩
    | cons n bs =>
      obtain ⟨w', hr, hrep, hk⟩ := removeNode_spec h (show ls l = [] ++ n :: bs from he)
      rw [he] at hend
      exact ⟨w', doPop_some hend hr, hrep, hk⟩
  · rcases eq_nil_or_concat (ls l) with he | ⟨as, n, he⟩
    · rw [he] at hend ⊢
      exact ⟨w, doPop_none hend, (hnil he).symm ▸ h, .refl w⟩
    · rw [concat_eq_append] at he
      obtain ⟨w', hr, hrep, hk⟩ := removeNode_spec h he
      rw [he, getLast?_concat] at hend
      rw [he, getLast?_concat]
      exact ⟨w', doPop_some hend hr, by simpa using hrep, hk⟩

theorem Refines.take (h : Refines w ls a) (l : ℕ) :
    ∃ n w' ls', doPop l w = .ok (n, w') ∧ n.map (fun n => (w'.nodes n).item) = (a l).takeItem.1 ∧
      Refines w' ls' (Function.update a l (a l).takeItem.2) := by
  obtain ⟨w', hd, hr, hk⟩ := doPop_spec h.rep l
  unfold Seq.takeItem
  rw [h.mode l, h.items l]
  split_ifs at hd hr ⊢ with hm
  · refine ⟨_, w', Function.update ls l (ls l).tail, hd, by simp [itemsOf, hk.item], ?_⟩
    simpa [itemsOf] using h.keepPart hr hk fun _ hn => mem_of_mem_tail hn
  · refine ⟨_, w', Function.update ls l (ls l).dropLast, hd, by simp [itemsOf, hk.item], ?_⟩
    simpa [itemsOf] using h.keepPart hr hk (dropLast_subset _)

theorem Refines.setSem (h : Refines w ls a) (l : ℕ) (v : Option ℕ) :
    Refines (w.setSem l v) ls (Function.update a l { a l with sem := v }) := by
  refine ⟨h.rep.setSem l v, h.clean, fun m => ?_, fun m => ?_, fun m => ?_, fun m => ?_, fun m => ?_⟩ <;>
    rw [World.setSem, World.setList]
  · rw [update_field Seq.items (by rfl)]
    exact h.items m
  · rw [update_field Seq.limit (by rfl), update_field LinkedList.limit (by rfl), h.limit]
  · rw [update_field Seq.mode (by rfl), update_field LinkedList.mode (by rfl), h.mode]
  · rw [update_field Seq.cmp (by rfl), update_field LinkedList.cmp (by rfl), h.cmp]
  · rw [apply_update fun _ => Seq.sem, apply_update fun _ => LinkedList.sem, funext h.sem]

theorem Refines.popEx (h : Refines w ls a) (l timeout : ℕ) :
    ∃ w' ls', popEx l timeout w = .ok (((a l).pop timeout).1, w') ∧
      Refines w' ls' (Function.update a l ((a l).pop timeout).2) := by
  unfold Lists.popEx Seq.pop
  rw [← h.sem l]
  cases hs : (a l).sem with
  | none =>
    obtain ⟨n, w', ls', hd, hn, hr⟩ := h.take l
    exact ⟨w', ls', by simp [hd, hn, pure, Except.pure], hr⟩
  | some k =>
    cases k with
    | zero => exact ⟨w, ls, rfl, by simpa using h⟩
    | succ k =>
      obtain ⟨n, w', ls', hd, hn, hr⟩ := (h.setSem l (some k)).take l
      rw [update_self] at hn hr
      rw [update_idem] at hr
      exact ⟨w', ls', by simp [hd, hn, pure, Except.pure], hr⟩

theorem newNode_of_lt (w : World α) (item : α) (hn : n < w.fresh) : (newNode item w).nodes n = w.nodes n :=
  update_of_ne (Nat.ne_of_lt hn) ..

theorem Rep.newNode (h : Rep w ls) (item : α) : Rep (newNode item w) ls := by
  refine ⟨h.threads.congr fun m n hn => ?_, fun m n hn => Nat.lt_succ_of_lt (h.fresh m n hn), h.length⟩
  simp only [links]
  rw [newNode_of_lt w item (h.fresh m n hn)]
  exact ⟨rfl, rfl⟩

theorem Refines.newNode (h : Refines w ls a) (item : α) : Refines (newNode item w) ls a := by
  have hold : ∀ m, ∀ n ∈ ls m, (Lists.newNode item w).nodes n = w.nodes n :=
    fun m n hn => newNode_of_lt w item (h.rep.fresh m n hn)
  refine ⟨h.rep.newNode item, fun m n hn => ?_, fun m => ?_, h.limit, h.mode, h.cmp, h.sem⟩
  · rw [hold m n hn]
    exact h.clean m n hn
  · rw [h.items m]
    exact (map_congr_left fun n hn => by rw [hold m n hn]).symm

theorem Refines.push_full (h : Refines w ls a) (allocOk : Bool) (l : ℕ) (item : α)
    (hfull : ¬(allocOk && !(a l).full)) :
    ∃ w', push allocOk l item w = (false, w') ∧ Refines w' ls a := by
  cases allocOk with
  | false => exact ⟨w, rfl, h⟩
  | true =>
    have hlen : (a l).items.length = (w.lists l).length := by
      rw [h.items l, h.rep.length l]
      simp [itemsOf]
    have hf : 0 < (w.lists l).limit ∧ (w.lists l).limit ≤ (w.lists l).length := by
      simpa [Seq.full, h.limit l, hlen, Nat.pos_iff_ne_zero] using hfull
    refine ⟨Lists.newNode item w, ?_, h.newNode item⟩
    have hf' : 0 < ((Lists.newNode item w).lists l).limit ∧
        ((Lists.newNode item w).lists l).limit ≤ ((Lists.newNode item w).lists l).length := hf
    simp only [push, Bool.not_true, Bool.false_eq_true, if_false, if_pos hf']

theorem pushNode_keeps (l n : ℕ) (w : World α) : Keeps w (pushNode l n w) := by
  unfold pushNode
  cases (w.lists l).mode with
  | generic | queue => exact queuePush_keeps l n w
  | stack => exact stackPush_keeps l n w

theorem pushNode_length (l n m : ℕ) (w : World α) :
    ((pushNode l n w).lists m).length = (w.lists m).length := by
  unfold pushNode queuePush stackPush
  cases (w.lists l).mode <;> cases (w.lists l).tail <;> cases (w.lists l).head <;> simp

theorem pushNode_threads (h : Rep w ls) (hout : ∀ m, n ∉ ls m) (hnx : (w.nodes n).next = none)
    (hpv : (w.nodes n).prev = none) (l : ℕ) :
    Threads (links (pushNode l n w)) (heads (pushNode l n w)) (tails (pushNode l n w))
      (Function.update ls l (if (w.lists l).mode = .stack then n :: ls l else ls l ++ [n])) := by
  unfold pushNode
  cases (w.lists l).mode with
  | generic | queue => exact queuePush_threads h hout hnx hpv l
  | stack => exact stackPush_threads h hout hnx hpv l

theorem Rep.linked (h : Rep w ls) (hk : Keeps w w')
    (hlen : ∀ m, (w'.lists m).length = (w.lists m).length)
    (ht : Threads (links w') (heads w') (tails w') (Function.update ls l xs))
    (hxs : xs.length = (ls l).length + 1) (hnew : ∀ n ∈ xs, n < w.fresh) :
    Rep (w'.setLength l ((w'.lists l).length + 1)) (Function.update ls l xs) := by
  refine h.update ?_ (Nat.le_of_eq hk.fresh.symm) (fun n hn => hk.fresh ▸ hnew n hn) fun m => ?_
  · rw [setLength_heads, setLength_tails]
    exact ht
  · rw [setLength_length, hlen, hlen, hxs, h.length l]

theorem Refines.linked (h : Refines w ls a) (hk : Keeps w w')
    (hlen : ∀ m, (w'.lists m).length = (w.lists m).length)
    (ht : Threads (links w') (heads w') (tails w') (Function.update ls l xs))
    (hxs : xs.length = (ls l).length + 1)
    (hnew : ∀ n ∈ xs, n < w.fresh ∧ (w.nodes n).del = false) :
    Refines ((w'.setLength l ((w'.lists l).length + 1)).setSem l ((a l).sem.map semPost))
      (Function.update ls l xs) (Function.update a l
        { a l with items := itemsOf w xs, sem := (a l).sem.map semPost }) := by
  have hrep := h.rep.linked hk hlen ht hxs fun n hn => (hnew n hn).1
  have hk' := hk.setLength l ((w'.lists l).length + 1)
  have hclean : Clean (w'.setLength l ((w'.lists l).length + 1)) (Function.update ls l xs) :=
    .update (fun m _ n hn => (hk'.del n).trans (h.clean m n hn))
      fun n hn => (hk'.del n).trans (hnew n hn).2
  have hset := (h.setItems hrep hk'.toSettings hclean).setSem l ((a l).sem.map semPost)
  rw [update_idem, update_self] at hset
  exact hset

theorem Refines.push_ok (h : Refines w ls a) (l : ℕ) (item : α) (hfull : (a l).full = false) :
    ∃ w' ls', push true l item w = (true, w') ∧ (∀ m, m ≠ l → ls' m = ls m) ∧
      Refines w' ls' (Function.update a l ((a l).pushItem item)) := by
  have hlen : (a l).items.length = (w.lists l).length := by
    rw [h.items l, h.rep.length l]
    simp [itemsOf]
  have hf : ¬(0 < (w.lists l).limit ∧ (w.lists l).limit ≤ (w.lists l).length) := by
    simpa [Seq.full, h.limit l, hlen] using hfull
  have h₁ := h.newNode item
  have hout : ∀ m, w.fresh ∉ ls m := fun m hm => Nat.lt_irrefl _ (h.rep.fresh m _ hm)
  have hnode : (Lists.newNode item w).nodes w.fresh = ⟨none, none, item, false⟩ :=
    update_self ..
  have hold : itemsOf (Lists.newNode item w) (ls l) = (a l).items := (h₁.items l).symm
  have hnew : ∀ n, n = w.fresh ∨ n ∈ ls l →
      n < (Lists.newNode item w).fresh ∧ ((Lists.newNode item w).nodes n).del = false := by
    rintro n (rfl | hn)
    · exact ⟨Nat.lt_succ_self _, by rw [hnode]⟩
    · exact ⟨h₁.rep.fresh l n hn, h₁.clean l n hn⟩
  have ht := pushNode_threads h₁.rep hout (by rw [hnode]) (by rw [hnode]) l
  have hk := pushNode_keeps l w.fresh (Lists.newNode item w)
  have hr := h₁.linked hk (fun m => pushNode_length l w.fresh m _) ht
    (by split_ifs <;> simp) (fun n hn => hnew n (by split_ifs at hn <;> simpa [or_comm] using hn))
  have hitems : itemsOf (Lists.newNode item w) (if ((Lists.newNode item w).lists l).mode = .stack then
      w.fresh :: ls l else ls l ++ [w.fresh]) = ((a l).pushItem item).items := by
    have hmode : ((Lists.newNode item w).lists l).mode = (a l).mode := (h.mode l).symm
    rw [hmode]
    unfold Seq.pushItem
    split_ifs
    · rw [← hold, itemsOf, map_cons, hnode]
      rfl
    · rw [← hold, itemsOf, map_append, map_singleton, hnode]
      rfl
  rw [hitems] at hr
  refine ⟨_, _, ?_, fun m hm => update_of_ne hm .., hr⟩
  have hf' : ¬(0 < ((Lists.newNode item w).lists l).limit ∧
      ((Lists.newNode item w).lists l).limit ≤ ((Lists.newNode item w).lists l).length) := hf
  have hsem : (((pushNode l w.fresh (Lists.newNode item w)).setLength l
      (((pushNode l w.fresh (Lists.newNode item w)).lists l).length + 1)).lists l).sem = (a l).sem :=
    ((hk.setLength l _).sem l).trans (h.sem l).symm
  simp only [push, Bool.not_true, Bool.false_eq_true, if_false, if_neg hf', hsem]

/-- Only deletion marks differ. -/
structure Marks (w w' : World α) : Prop where
  lists : w'.lists = w.lists
  fresh : w'.fresh = w.fresh
  next : ∀ n, (w'.nodes n).next = (w.nodes n).next
  prev : ∀ n, (w'.nodes n).prev = (w.nodes n).prev
  item : ∀ n, (w'.nodes n).item = (w.nodes n).item

theorem Marks.refl (w : World α) : Marks w w :=
  ⟨rfl, rfl, fun _ => rfl, fun _ => rfl, fun _ => rfl⟩

theorem Marks.trans (h : Marks w w') (h' : Marks w' w'') : Marks w w'' :=
  ⟨h'.lists.trans h.lists, h'.fresh.trans h.fresh, fun n => (h'.next n).trans (h.next n),
    fun n => (h'.prev n).trans (h.prev n), fun n => (h'.item n).trans (h.item n)⟩

theorem mark_marks (w : World α) (n : ℕ) : Marks w (w.mark n) := by
  exact ⟨rfl, rfl, update_field Node.next rfl, update_field Node.prev rfl, update_field Node.item rfl⟩

theorem Marks.settings (h : Marks w w') : Settings w w' := by
  refine ⟨h.item, fun l => ?_, fun l => ?_, fun l => ?_, fun l => ?_⟩ <;> rw [h.lists]

theorem mark_del_of_ne (w : World α) (hm : m ≠ n) : ((w.mark n).nodes m).del = (w.nodes m).del := by
  simp [World.mark, World.modify, hm]

def marked (w : World α) (ns : List ℕ) : List ℕ := ns.filter fun n => (w.nodes n).del

def unmarked (w : World α) (ns : List ℕ) : List ℕ := ns.filter fun n => !(w.nodes n).del

variable {ns : List ℕ}

theorem marked_clean (h : ∀ n ∈ ns, (w.nodes n).del = false) : marked w ns = [] := by
  rw [marked, filter_eq_nil_iff]
  intro n hn
  simp [h n hn]

theorem unmarked_clean (h : ∀ n ∈ ns, (w.nodes n).del = false) : unmarked w ns = ns := by
  rw [unmarked, filter_eq_self]
  intro n hn
  simp [h n hn]

theorem marked_cons (n : ℕ) :
    marked w (n :: ns) = if (w.nodes n).del then n :: marked w ns else marked w ns := by
  unfold marked
  rw [filter_cons]

theorem unmarked_cons (n : ℕ) :
    unmarked w (n :: ns) = if (w.nodes n).del then unmarked w ns else n :: unmarked w ns := by
  unfold unmarked
  rw [filter_cons]
  cases (w.nodes n).del <;> rfl

structure Visited {σ : Type} (op : α → σ → EachCode × σ) (s : σ) (ns : List ℕ) (w w' : World α)
    (ret del : Bool) (s' : σ) : Prop where
  marks : Marks w w'
  outside : ∀ n, n ∉ ns → (w'.nodes n).del = (w.nodes n).del
  visit : Seq.visit op (itemsOf w ns) s =
    (ret, s', itemsOf w (unmarked w' ns), itemsOf w (marked w' ns))
  none : del = false → marked w' ns = []

theorem Visited.stop {σ : Type} {op : α → σ → EachCode × σ} {s s' : σ} {ret : Bool}
    (hclean : ∀ n ∈ ns, (w.nodes n).del = false)
    (hv : Seq.visit op (itemsOf w ns) s = (ret, s', itemsOf w ns, [])) :
    Visited op s ns w w ret false s' := by
  refine ⟨.refl w, fun _ _ => rfl, ?_, fun _ => marked_clean hclean⟩
  rw [hv, marked_clean hclean, unmarked_clean hclean]
  rfl

theorem visit_spec {σ : Type} (op : α → σ → EachCode × σ) {fuel : ℕ} {p : Option ℕ}
    (s : σ) (hc : Chain (links w) p ns none) (hnd : ns.Nodup) (hf : ns.length ≤ fuel)
    (hclean : ∀ n ∈ ns, (w.nodes n).del = false) :
    ∃ ret del s' w', visit op fuel ns.head? s w = .ok ((ret, del, s'), w') ∧
      Visited op s ns w w' ret del s' := by
  induction ns generalizing w s fuel p with
  | nil => exact ⟨true, false, s, w, by cases fuel <;> rfl, .stop hclean rfl⟩
  | cons n ns ih =>
    obtain ⟨fuel, rfl⟩ : ∃ k, fuel = k + 1 := Nat.exists_eq_succ_of_ne_zero (by
      simp only [length_cons] at hf
      omega)
    simp only [length_cons, Nat.add_le_add_iff_right] at hf
    obtain ⟨hout, hnd⟩ := nodup_cons.mp hnd
    obtain ⟨_, hnx, hc⟩ := hc
    have hnx' : (w.nodes n).next = ns.head? := by simpa [links] using hnx
    have hclean' : ∀ m ∈ ns, (w.nodes m).del = false := fun m hm => hclean m (mem_cons_of_mem _ hm)
    rcases hop : op (w.nodes n).item s with ⟨code, s₁⟩
    cases code with
    | error =>
      refine ⟨false, false, s₁, w, ?_, .stop hclean ?_⟩
      · simp only [head?_cons, visit, hop]
      · simp only [itemsOf, map_cons, Seq.visit, hop]
    | «end» =>
      refine ⟨true, false, s₁, w, ?_, .stop hclean ?_⟩
      · simp only [head?_cons, visit, hop]
      · simp only [itemsOf, map_cons, Seq.visit, hop]
    | ok =>
      obtain ⟨ret, del, s', w', hv, hV⟩ := ih s₁ hc hnd hf hclean'
      have hn : (w'.nodes n).del = false := (hV.outside n hout).trans (hclean n mem_cons_self)
      refine ⟨ret, del, s', w', ?_, hV.marks, fun m hm => hV.outside m fun h => hm (mem_cons_of_mem _ h),
        ?_, fun hd => ?_⟩
      · simpa only [head?_cons, visit, hop, hnx'] using hv
      · have hvis := hV.visit
        simp only [itemsOf] at hvis
        simp only [itemsOf, map_cons, Seq.visit, hop, hvis, marked_cons, unmarked_cons, hn]
        rfl
      · rw [marked_cons, hn]
        exact hV.none hd
    | remove =>
      have hm := mark_marks w n
      have hc' : Chain (links (w.mark n)) (some n) ns none :=
        hc.congr fun m _ => ⟨hm.next m, hm.prev m⟩
      have hne : ∀ m ∈ ns, m ≠ n := fun m hmem e => hout (e ▸ hmem)
      obtain ⟨ret, del, s', w', hv, hV⟩ := ih s₁ hc' hnd hf fun m hmem => by
        rw [mark_del_of_ne w (hne m hmem)]
        exact hclean' m hmem
      have hn : (w'.nodes n).del := (hV.outside n hout).trans (by simp [World.mark, World.modify])
      refine ⟨ret, true, s', w', ?_, hm.trans hV.marks, fun m hmem => ?_, ?_, fun hd => by cases hd⟩
      · simp only [head?_cons, visit, hop, hm.next, hnx', hv]
        rfl
      · rw [hV.outside m fun h => hmem (mem_cons_of_mem _ h)]
        exact mark_del_of_ne w fun e => hmem (e ▸ mem_cons_self)
      · have hvis := hV.visit
        simp only [hm.settings.items_eq] at hvis
        simp only [itemsOf] at hvis
        simp only [itemsOf, map_cons, Seq.visit, hop, hvis, marked_cons, unmarked_cons, hn]
        rfl

def pruneNodes (l : ℕ) : ℕ → Option ℕ → World α → Except Fault (List ℕ × World α)
  | _, none, w => .ok ([], w)
  | 0, some _, _ => .error .stuck
  | fuel + 1, some n, w =>
    let next := (w.nodes n).next
    if (w.nodes n).del then do
      let w ← removeNode l n w
      let (freed, w) ← pruneNodes l fuel next w
      return (n :: freed, w)
    else pruneNodes l fuel next w

theorem pruneNodes_spec (h : Rep w ls) (hls : ls l = pre ++ ns) (hf : ns.length ≤ fuel) :
    ∃ w', pruneNodes l fuel ns.head? w = .ok (marked w ns, w') ∧
      prune l fuel ns.head? w = .ok (itemsOf w (marked w ns), w') ∧
      Rep w' (Function.update ls l (pre ++ unmarked w ns)) ∧ Keeps w w' := by
  induction ns generalizing w ls pre fuel with
  | nil =>
    refine ⟨w, by cases fuel <;> rfl, by cases fuel <;> rfl, ?_, .refl w⟩
    rw [unmarked, filter_nil, ← hls, update_eq_self]
    exact h
  | cons n ns ih =>
    obtain ⟨fuel, rfl⟩ : ∃ k, fuel = k + 1 := Nat.exists_eq_succ_of_ne_zero (by
      simp only [length_cons] at hf
      omega)
    simp only [length_cons, Nat.add_le_add_iff_right] at hf
    have hnx : (w.nodes n).next = ns.head? := by
      have hc := h.threads.chain l
      rw [hls] at hc
      simpa [links] using hc.neighbours.2
    cases hd : (w.nodes n).del with
    | true =>
      obtain ⟨w₁, hr, hrep, hk⟩ := removeNode_spec h hls
      obtain ⟨w', hnodes, hp, hrep', hk'⟩ := ih hrep (update_self ..) hf
      have hdel : ∀ m, (w₁.nodes m).del = (w.nodes m).del := hk.del
      refine ⟨w', ?_, ?_, ?_, hk.trans hk'⟩
      · simp only [head?_cons, pruneNodes, hd, hnx, hr, hnodes, ok_bind, marked_cons]
        simp only [marked, hdel]
        rfl
      · simp only [head?_cons, prune, hd, hnx, hr, hp, ok_bind, hk.items_eq, marked_cons]
        simp only [marked, hdel]
        rfl
      · rw [update_idem] at hrep'
        rw [unmarked_cons, hd, if_pos rfl]
        simpa only [unmarked, hdel] using hrep'
    | false =>
      obtain ⟨w', hnodes, hp, hrep, hk⟩ := ih h (show ls l = (pre ++ [n]) ++ ns by simpa using hls) hf
      refine ⟨w', ?_, ?_, ?_, hk⟩
      · simpa [pruneNodes, hd, hnx, marked_cons] using hnodes
      · simpa [prune, hd, hnx, marked_cons] using hp
      · simpa [unmarked_cons, hd] using hrep

theorem Rep.length_le_fresh (h : Rep w ls) (l : ℕ) : (ls l).length ≤ w.fresh := by
  have hsub : ls l ⊆ range w.fresh := fun n hn => mem_range.mpr (h.fresh l n hn)
  simpa using ((h.threads.nodup l).subperm hsub).length_le

theorem Rep.marks (h : Rep w ls) (hm : Marks w w') : Rep w' ls := by
  have hheads : heads w' = heads w := by
    funext l
    rw [heads, hm.lists]
    rfl
  have htails : tails w' = tails w := by
    funext l
    rw [tails, hm.lists]
    rfl
  refine ⟨?_, hm.fresh ▸ h.fresh, hm.lists ▸ h.length⟩
  rw [hheads, htails]
  exact h.threads.congr fun _ n _ => ⟨hm.next n, hm.prev n⟩

theorem Refines.forEach {σ : Type} (h : Refines w ls a) (l : ℕ) (op : α → σ → EachCode × σ) (s : σ) :
    ∃ w' ls', forEach l op s w = .ok (((Seq.visit op (a l).items s).1,
        (Seq.visit op (a l).items s).2.1, (Seq.visit op (a l).items s).2.2.2), w') ∧
      Refines w' ls' (Function.update a l ((a l).withItems (Seq.visit op (a l).items s).2.2.1)) := by
  have hhead : (w.lists l).head = (ls l).head? := h.rep.threads.first_eq l
  cases hnil : (w.lists l).head with
  | none =>
    have he : (a l).items = [] := by
      rw [h.items l, head?_eq_none_iff.mp (hhead.symm.trans hnil)]
      rfl
    refine ⟨w, ls, ?_, ?_⟩
    · simp only [Lists.forEach, hnil, he]
      rfl
    · have hsame : (a l).withItems (Seq.visit op (a l).items s).2.2.1 = a l := by
        rw [he, Seq.visit, ← he]
        rfl
      rw [hsame, update_eq_self]
      exact h
  | some n =>
    obtain ⟨ret, del, s', w₁, hv, hV⟩ := visit_spec op s (h.rep.threads.chain l)
      (h.rep.threads.nodup l) (h.rep.length_le_fresh l) (h.clean l)
    rw [h.items l, hV.visit]
    have hrep₁ := h.rep.marks hV.marks
    have hother : ∀ m, m ≠ l → ∀ n ∈ ls m, (w₁.nodes n).del = false := by
      intro m hm n hn
      rw [hV.outside n (h.rep.threads.disjoint m l (.symm hm) n hn)]
      exact h.clean m n hn
    have hnone : (w.lists l).head ≠ none := by simp [hnil]
    rw [← hhead] at hv
    cases del with
    | false =>
      have hun : ∀ n ∈ ls l, (w₁.nodes n).del = false := by
        intro n hn
        by_contra hd
        have hmem : n ∈ marked w₁ (ls l) := mem_filter.mpr ⟨hn, by simpa using hd⟩
        rw [hV.none rfl] at hmem
        exact not_mem_nil hmem
      refine ⟨w₁, Function.update ls l (ls l), ?_, ?_⟩
      · simp only [Lists.forEach, if_neg hnone, hv, hV.none rfl]
        rfl
      · rw [unmarked_clean hun]
        refine h.setItems ?_ hV.marks.settings (.update hother hun)
        rw [update_eq_self]
        exact hrep₁
    | true =>
      have hhead₁ : (w₁.lists l).head = (ls l).head? := by rw [hV.marks.lists, hhead]
      obtain ⟨w', -, hp, hrep', hk⟩ := pruneNodes_spec hrep₁ (show ls l = [] ++ ls l from rfl)
        (hrep₁.length_le_fresh l)
      rw [← hhead₁] at hp
      refine ⟨w', Function.update ls l (unmarked w₁ (ls l)), ?_, ?_⟩
      · simp only [Lists.forEach, if_neg hnone, hv, hp, ok_bind, hV.marks.settings.items_eq]
        rfl
      · refine h.setItems hrep' (hV.marks.settings.trans hk.toSettings) (.update ?_ ?_)
        · exact fun m hm n hn => (hk.del n).trans (hother m hm n hn)
        · intro n hn
          rw [hk.del]
          simpa using (mem_filter.mp hn).2

variable {L : Seq α}

theorem Seq.takeItem_nil (h : L.items = []) : L.takeItem = (none, L) := by
  obtain ⟨items, limit, mode, cmp, sem⟩ := L
  subst h
  simp [Seq.takeItem, Seq.withItems]

theorem Seq.takeItem_some (h : L.items ≠ []) :
    ∃ x rest, L.takeItem = (some x, L.withItems rest) ∧ L.items.length = rest.length + 1 ∧
      L.drained = x :: (L.withItems rest).drained := by
  by_cases hm : L.mode = .stack
  · obtain ⟨x, rest, hx⟩ := exists_cons_of_ne_nil h
    exact ⟨x, rest, by simp [Seq.takeItem, hm, hx], by simp [hx], by simp [Seq.drained, Seq.withItems, hm, hx]⟩
  · rcases eq_nil_or_concat L.items with he | ⟨rest, x, hx⟩
    · exact absurd he h
    · exact ⟨x, rest, by simp [Seq.takeItem, hm, hx], by simp [hx],
        by simp [Seq.drained, Seq.withItems, hm, hx]⟩

theorem Seq.drained_perm (L : Seq α) : L.drained.Perm L.items := by
  unfold Seq.drained
  split_ifs
  · exact .refl _
  · exact reverse_perm _

theorem Seq.takeItem_perm (h : L.takeItem.1 = some x) : L.items.Perm (x :: L.takeItem.2.items) := by
  have hne : L.items ≠ [] := fun hnil => by simp [Seq.takeItem_nil hnil] at h
  obtain ⟨y, rest, ht, _, hd⟩ := Seq.takeItem_some hne
  rw [ht] at h ⊢
  obtain rfl := Option.some.inj h
  have hrest := (L.withItems rest).drained_perm.cons y
  rw [← hd] at hrest
  exact L.drained_perm.symm.trans hrest

theorem Seq.takeItem_none (h : L.takeItem.1 = none) : L.takeItem.2.items = L.items := by
  by_cases hnil : L.items = []
  · rw [Seq.takeItem_nil hnil]
  · obtain ⟨y, rest, ht, _⟩ := Seq.takeItem_some hnil
    simp [ht] at h

theorem Seq.pop_past (h : (L.pop timeout).1 = .past (some x)) :
    L.items.Perm (x :: (L.pop timeout).2.items) := by
  unfold Seq.pop at h ⊢
  split at h
  · exact Seq.takeItem_perm (PopResult.past.inj h)
  · split_ifs at h
  · exact Seq.takeItem_perm (PopResult.past.inj h)

theorem Seq.pop_nothing (h : ∀ x, (L.pop timeout).1 ≠ .past (some x)) :
    (L.pop timeout).2.items = L.items := by
  have hnone : ∀ o : Option α, (∀ x, PopResult.past o ≠ .past (some x)) → o = none :=
    fun o ho => Option.eq_none_iff_forall_ne_some.mpr fun x hx => ho x (hx ▸ rfl)
  unfold Seq.pop at h ⊢
  split at h
  · exact Seq.takeItem_none (hnone _ h)
  · rfl
  · exact Seq.takeItem_none (hnone _ h)

theorem Seq.pushItem_perm (L : Seq α) (x : α) : (L.pushItem x).items.Perm (x :: L.items) := by
  unfold Seq.pushItem
  split_ifs
  · exact .refl _
  · exact perm_append_singleton x L.items

theorem Refines.clearFrom (h : Refines w ls a) (l : ℕ) (hf : (a l).items.length < fuel) :
    ∃ w' ls', clearFrom l fuel w = .ok ((a l).drained, w') ∧
      Refines w' ls' (Function.update a l ((a l).withItems [])) := by
  induction fuel generalizing w ls a with
  | zero => exact absurd hf (Nat.not_lt_zero _)
  | succ fuel ih =>
    obtain ⟨n, w₁, ls₁, hd, hn, hr⟩ := h.take l
    by_cases he : (a l).items = []
    · rw [Seq.takeItem_nil he] at hn hr
      have hnone : n = none := by simpa using hn
      refine ⟨w₁, ls₁, ?_, ?_⟩
      · simp only [Lists.clearFrom, hd, hnone, Seq.drained, he]
        simp [pure, Except.pure]
      · have hsame : (a l).withItems [] = a l := by
          rw [← he]
          rfl
        rwa [hsame]
    · obtain ⟨x, rest, ht, hlen, hdr⟩ := Seq.takeItem_some he
      rw [ht] at hn hr
      obtain ⟨n, rfl⟩ : ∃ m, n = some m := by
        cases n with
        | none => simp at hn
        | some m => exact ⟨m, rfl⟩
      have hitem : (w₁.nodes n).item = x := by simpa using hn
      obtain ⟨w', ls', hc, hr'⟩ := ih hr (by
        rw [update_self]
        simp only [Seq.withItems]
        omega)
      rw [update_self] at hc hr'
      rw [update_idem] at hr'
      refine ⟨w', ls', ?_, hr'⟩
      simp only [Lists.clearFrom, hd, ok_bind, hitem, hc, hdr]
      rfl

theorem Refines.clear (h : Refines w ls a) (l : ℕ) :
    ∃ w' ls', clear l w = .ok ((a l).drained, w') ∧
      Refines w' ls' (Function.update a l ((a l).withItems [])) := by
  refine h.clearFrom l ?_
  have hle := h.rep.length_le_fresh l
  rw [h.items l, itemsOf, length_map]
  omega

variable {dest source : ℕ}

theorem moveNodes_lists (hne : dest ≠ source) (m : ℕ) :
    (moveNodes dest source w).lists m =
      if m = source then { w.lists source with head := none, tail := none, length := 0 }
      else if m = dest then { w.lists dest with
        head := (w.lists source).head, tail := (w.lists source).tail, length := (w.lists source).length }
      else w.lists m := by
  by_cases hs : m = source
  · subst hs
    simp [moveNodes, World.setHead, World.setTail, World.setLength, World.setList, Ne.symm hne]
  · by_cases hd : m = dest
    · subst hd
      simp [moveNodes, World.setHead, World.setTail, World.setLength, World.setList, hs]
    · simp [moveNodes, World.setHead, World.setTail, World.setLength, World.setList, hs, hd]

theorem forall_moved {p : List ℕ → Prop} (hnil : p []) (hall : ∀ m, p (ls m)) :
    ∀ m, p (Function.update (Function.update ls source []) dest (ls source) m) :=
  (forall_update_iff _ fun _ => p).mpr ⟨hall source, fun m _ => (forall_update_iff ls fun _ => p).mpr ⟨hnil, fun m _ => hall m⟩ m⟩

theorem Rep.moveNodes (h : Rep w ls) (hne : dest ≠ source) :
    Rep (moveNodes dest source w)
      (Function.update (Function.update ls source []) dest (ls source)) := by
  have hheads : heads (Lists.moveNodes dest source w) =
      Function.update (Function.update (heads w) source none) dest (ls source).head? := by
    rw [← h.threads.first_eq source, update_comm hne.symm]
    simp [Lists.moveNodes, heads]
  have htails : tails (Lists.moveNodes dest source w) =
      Function.update (Function.update (tails w) source none) dest (ls source).getLast? := by
    rw [← h.threads.last_eq source, update_comm hne.symm]
    simp [Lists.moveNodes, tails]
  have hsrc : Threads (links w) (Function.update (heads w) source none)
      (Function.update (tails w) source none) (Function.update ls source []) :=
    h.threads.update trivial nodup_nil (fun _ _ _ hy => absurd hy not_mem_nil)
      (fun _ _ _ _ => ⟨rfl, rfl⟩) rfl rfl
  have hdisj : ∀ m, m ≠ dest → ∀ y ∈ ls source, y ∉ Function.update ls source [] m := by
    refine fun m _ y hy => (forall_update_iff ls fun _ ns => y ∉ ns).mpr ⟨not_mem_nil, fun m hm => ?_⟩ m
    exact h.threads.disjoint source m hm y hy
  refine ⟨hsrc.update (h.threads.chain source) (h.threads.nodup source) hdisj
    (fun _ _ _ _ => ⟨rfl, rfl⟩) hheads htails, fun m n hn => ?_, fun m => ?_⟩
  · exact forall_moved (p := fun ns => ∀ n ∈ ns, n < w.fresh) (by simp) h.fresh m n hn
  · rw [moveNodes_lists hne]
    by_cases hd : m = dest
    · subst hd
      rw [if_neg hne, if_pos rfl, update_self]
      exact h.length source
    · rw [if_neg hd, update_of_ne hd]
      by_cases hs : m = source
      · subst hs
        rw [if_pos rfl, update_self]
        rfl
      · rw [if_neg hs, update_of_ne hs]
        exact h.length m

theorem moveNodes_settings (hne : dest ≠ source) (w : World α) :
    Settings w (moveNodes dest source w) := by
  have hl := moveNodes_lists (w := w) hne
  have key : ∀ {β : Type} (f : LinkedList α → β), (∀ L : LinkedList α, ∀ h t n, f { L with
      head := h, tail := t, length := n } = f L) →
      ∀ m, f ((moveNodes dest source w).lists m) = f (w.lists m) := by
    intro β f hf m
    rw [hl m]
    split_ifs with hs hd
    · rw [hs]
      exact hf (w.lists source) none none 0
    · rw [hd]
      exact hf (w.lists dest) _ _ _
    · rfl
  exact ⟨fun _ => rfl, key _ fun _ _ _ _ => rfl, key _ fun _ _ _ _ => rfl, key _ fun _ _ _ _ => rfl,
    key _ fun _ _ _ _ => rfl⟩

theorem Refines.moveNodes (h : Refines w ls a) (hne : dest ≠ source) :
    Refines (moveNodes dest source w) (Function.update (Function.update ls source []) dest (ls source))
      (Function.update (Function.update a dest ((a dest).withItems (a source).items)) source
        ((a source).withItems [])) := by
  have hset := moveNodes_settings hne w
  have hfield : ∀ {β : Type} (f : Seq α → β), (∀ L xs, f (.withItems L xs) = f L) → ∀ m,
      f (Function.update (Function.update a dest ((a dest).withItems (a source).items)) source
        ((a source).withItems []) m) = f (a m) := by
    intro β f hf m
    have hdest := update_field f (hf (a dest) (a source).items)
    exact (update_field f ((hf _ _).trans (hdest source).symm) m).trans (hdest m)
  refine ⟨h.rep.moveNodes hne, fun m n hn => ?_, fun m => ?_,
    fun m => by rw [hfield Seq.limit (fun _ _ => rfl), h.limit, hset.limit],
    fun m => by rw [hfield Seq.mode (fun _ _ => rfl), h.mode, hset.mode],
    fun m => by rw [hfield Seq.cmp (fun _ _ => rfl), h.cmp, hset.cmp],
    fun m => by rw [hfield Seq.sem (fun _ _ => rfl), h.sem, hset.sem]⟩
  · exact forall_moved (p := fun ns => ∀ n ∈ ns, (w.nodes n).del = false) (by simp) h.clean m n hn
  · rw [hset.items_eq]
    by_cases hs : m = source
    · subst hs
      rw [update_self, update_of_ne hne.symm, update_self]
      rfl
    · rw [update_of_ne hs]
      by_cases hd : m = dest
      · subst hd
        rw [update_self, update_self]
        exact h.items source
      · rw [update_of_ne hd, update_of_ne hd, update_of_ne hs]
        exact h.items m

theorem Refines.setLimit (h : Refines w ls a) (l limit : ℕ) :
    Refines (setLimit l limit w) ls (Function.update a l { a l with limit := limit }) := by
  have hheads : heads (Lists.setLimit l limit w) = heads w := funext (update_field LinkedList.head rfl)
  have htails : tails (Lists.setLimit l limit w) = tails w := funext (update_field LinkedList.tail rfl)
  refine ⟨⟨hheads ▸ htails ▸ h.rep.threads, h.rep.fresh, fun m => ?_⟩, h.clean, fun m => ?_, fun m => ?_, fun m => ?_,
    fun m => ?_, fun m => ?_⟩ <;> rw [Lists.setLimit, World.setList]
  · rw [update_field LinkedList.length (by rfl)]
    exact h.rep.length m
  · rw [update_field Seq.items (by rfl)]
    exact h.items m
  · rw [apply_update fun _ => Seq.limit, apply_update fun _ => LinkedList.limit, funext h.limit]
  · rw [update_field Seq.mode (by rfl), update_field LinkedList.mode (by rfl), h.mode]
  · rw [update_field Seq.cmp (by rfl), update_field LinkedList.cmp (by rfl), h.cmp]
  · rw [update_field Seq.sem (by rfl), update_field LinkedList.sem (by rfl), h.sem]

theorem call_refines [DecidableEq α] (op : Op α) (w : World α) (a : ℕ → Seq α)
    (h : ∃ ls, Refines w ls a) :
    Related (fun p q => p.1 = q.1 ∧ ∃ ls, Refines p.2 ls q.2) (call op w) (callSeq op a) := by
  obtain ⟨ls, h⟩ := h
  cases op with
  | push allocOk l item =>
    dsimp only [call, callSeq]
    split_ifs with hok
    · obtain ⟨rfl, hfull⟩ : allocOk ∧ (a l).full = false := by simpa using hok
      obtain ⟨w', ls', hp, _, hr⟩ := h.push_ok l item hfull
      rw [hp]
      exact ⟨rfl, ls', hr⟩
    · obtain ⟨w', hp, hr⟩ := h.push_full allocOk l item hok
      rw [hp]
      exact ⟨rfl, ls, hr⟩
  | pop l timeout =>
    obtain ⟨w', ls', hp, hr⟩ := h.popEx l timeout
    dsimp only [call]
    rw [hp]
    exact ⟨rfl, ls', hr⟩
  | remove l item =>
    obtain ⟨w', ls', hp, hr⟩ := h.forEach l
      (fun x found => if (a l).hit item x then (.remove, some x) else (.ok, found)) (none : Option α)
    dsimp only [call, callSeq, remove]
    simp only [Seq.hit, h.cmp l] at hp hr ⊢
    rw [hp]
    exact ⟨rfl, ls', hr⟩
  | forEach l op s =>
    obtain ⟨w', ls', hp, hr⟩ := h.forEach l op s
    dsimp only [call]
    rw [hp]
    exact ⟨rfl, ls', hr⟩
  | clear l =>
    obtain ⟨w', ls', hp, hr⟩ := h.clear l
    dsimp only [call]
    rw [hp]
    exact ⟨rfl, ls', hr⟩
  | transfer dest source =>
    dsimp only [call, callSeq, transfer]
    split_ifs with hne
    · rfl
    · obtain ⟨w', ls', hp, hr⟩ := h.clear dest
      have hm := hr.moveNodes hne
      rw [update_self, update_of_ne (.symm hne), update_idem] at hm
      rw [hp]
      exact ⟨rfl, _, hm⟩
  | setLimit l limit => exact ⟨rfl, ls, h.setLimit l limit⟩

theorem run_refines [DecidableEq α] (ops : List (Op α)) (h : ∃ ls, Refines w ls a) :
    Related (fun p q => p.1 = q.1 ∧ ∃ ls, Refines p.2 ls q.2) (run call ops w) (run callSeq ops a) :=
  run_related call_refines ops h

/-- Lists as `List_Create` and `List_SetLimit` leave them, in a heap of unused nodes. -/
def initWorld (junk : ℕ → Node α) (mode : ℕ → Mode) (cmp : ℕ → Option (α → α → Bool))
    (limit : ℕ → ℕ) : World α :=
  ⟨junk, 0, fun l => { create (mode l) (cmp l) with limit := limit l }⟩

def initSeqs (mode : ℕ → Mode) (cmp : ℕ → Option (α → α → Bool)) (limit : ℕ → ℕ) (l : ℕ) : Seq α :=
  ⟨[], limit l, mode l, cmp l, if mode l = .generic then none else some 0⟩

theorem initWorld_refines (junk : ℕ → Node α) (mode : ℕ → Mode) (cmp : ℕ → Option (α → α → Bool))
    (limit : ℕ → ℕ) :
    Refines (initWorld junk mode cmp limit) (fun _ => []) (initSeqs mode cmp limit) :=
  ⟨⟨⟨fun _ => trivial, fun _ => nodup_nil, fun _ _ _ _ _ => not_mem_nil, fun _ => rfl,
    fun _ => rfl⟩, fun _ _ hn => absurd hn not_mem_nil, fun _ => rfl⟩,
    fun _ _ hn => absurd hn not_mem_nil, fun _ => rfl, fun _ => rfl, fun _ => rfl, fun _ => rfl,
    fun _ => rfl⟩

end

end Razorback.Lists
