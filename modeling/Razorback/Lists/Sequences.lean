import Mathlib.Algebra.BigOperators.Group.Finset.Basic
import Razorback.Lists.Items
import Razorback.Lists.Queue

/-! The lists as finite sequences under every public function. `Does` says in terms of the items alone what a call
answers and leaves; the pointer code does it, as long as no pop finds items behind a semaphore without posts. -/

namespace Razorback.Lists
open Linked Runs Function List Finset

/-- The calls on the lists. What the callback of `List_ForEach` returns for an item may depend on the items it was called
on before. -/
inductive Call (α : Type)
  | push (allocOk : Bool) (l : ℕ) (item : α)
  | pop (l timeout : ℕ)
  | find (l : ℕ) (equal : α → Bool)
  | remove (l : ℕ) (item : α)
  | forEach (l : ℕ) (codes : α → List α → EachCode)
  | clear (l : ℕ)
  | transfer (dest source : ℕ)
  | setLimit (l limit : ℕ)

inductive Answer (α : Type)
  | pushed (ok : Bool)
  | popped (r : PopResult α)
  | found (item : Option α)
  | removed (ok : Bool) (destroyed : List α)
  /-- `calls` are the items the callback was called on. -/
  | visited (ok : Bool) (calls destroyed : List α)
  | cleared (destroyed : List α)
  | transferred (destroyed : List α)
  | limited

section Calls

variable {α : Type}

def recording (codes : α → List α → EachCode) (x : α) (calls : List α) : EachCode × List α :=
  (codes x calls, calls ++ [x])

def perform [DecidableEq α] (c : Call α) (w : World α) : Except Fault (Answer α × World α) :=
  match c with
  | .push allocOk l item => let (ok, w) := push allocOk l item w; .ok (.pushed ok, w)
  | .pop l timeout => (popEx l timeout w).map fun p => (.popped p.1, p.2)
  | .find l equal => (forEach l (findKeyCmp equal) none w).map fun p => (.found p.1.2.1, p.2)
  | .remove l item => (remove l item w).map fun p => (.removed p.1.1 p.1.2, p.2)
  | .forEach l codes => (forEach l (recording codes) [] w).map fun p => (.visited p.1.1 p.1.2.1 p.1.2.2, p.2)
  | .clear l => (clear l w).map fun p => (.cleared p.1, p.2)
  | .transfer dest source => (transfer dest source w).map fun p => (.transferred p.1, p.2)
  | .setLimit l limit => .ok (.limited, setLimit l limit w)

/-! ### Sequences of items -/

/-- The calls of the callback on a sequence of items, up to and including the first END or ERROR. -/
def called (codes : α → List α → EachCode) (before : List α) : List α → List (α × EachCode)
  | [] => []
  | x :: xs =>
    (x, codes x before) ::
      if codes x before = .end ∨ codes x before = .error then [] else called codes (before ++ [x]) xs

/-- What a call answers where the lists hold `xs`, and what they hold after it. -/
def Does [DecidableEq α] (w : World α) (xs xs' : ℕ → List α) : Call α → Answer α → Prop
  | .push allocOk l x, .pushed ok =>
    (ok = true ↔ allocOk = true ∧ ¬(0 < (w.lists l).limit ∧ (w.lists l).limit ≤ (xs l).length)) ∧
      xs' = if ok then Function.update xs l (if (w.lists l).mode = .stack then x :: xs l else xs l ++ [x]) else xs
  | .pop l _, .popped r =>
    (xs l = [] ∧ r.item = none ∧ xs' = xs) ∨
      ∃ x rest, r = .past (some x) ∧ xs l = (if (w.lists l).mode = .stack then x :: rest else rest ++ [x]) ∧
        xs' = Function.update xs l rest
  | .find l equal, .found x => x = (xs l).find? equal ∧ xs' = xs
  | .remove l item, .removed ok destroyed =>
    let hit := fun x => x = item || ((w.lists l).cmp.map fun cmp => cmp x item).getD false
    destroyed = (xs l).filter hit ∧ (ok = true ↔ destroyed ≠ []) ∧
      xs' = Function.update xs l ((xs l).filter fun x => !hit x)
  | .forEach l codes, .visited ok calls destroyed =>
    let made := called codes [] (xs l)
    calls = made.map Prod.fst ∧ (ok = false ↔ ∃ p ∈ made, p.2 = .error) ∧
      destroyed = (made.filter fun p => p.2 = .remove).map Prod.fst ∧
      xs' = Function.update xs l
        ((made.filter fun p => ¬p.2 = .remove).map Prod.fst ++ (xs l).drop made.length)
  | .clear l, .cleared destroyed => destroyed.Perm (xs l) ∧ xs' = Function.update xs l []
  | .transfer dest source, .transferred destroyed =>
    destroyed.Perm (xs dest) ∧ xs' = Function.update (Function.update xs dest (xs source)) source []
  | .setLimit _ _, .limited => xs' = xs
  | _, _ => False

/-- A list that holds items has posts for a pop, and a list is transferred to another one. -/
def Conforms (c : Call α) (w : World α) : Prop :=
  match c with
  | .pop l _ => (w.lists l).head ≠ none → (w.lists l).sem ≠ some 0
  | .transfer dest source => dest ≠ source
  | _ => True

/-! ### Passes of a callback -/

theorem visit_recording (codes : α → List α → EachCode) (xs before : List α) :
    Seq.visit (recording codes) xs before =
      ((called codes before xs).all fun p => p.2 ≠ .error, before ++ (called codes before xs).map Prod.fst,
        ((called codes before xs).filter fun p => ¬p.2 = .remove).map Prod.fst ++ xs.drop (called codes before xs).length,
        ((called codes before xs).filter fun p => p.2 = .remove).map Prod.fst) := by
  induction xs generalizing before with
  | nil => simp [Seq.visit, called]
  | cons x xs ih =>
    have hrest := ih (before ++ [x])
    cases hcode : codes x before with
    | error => simp [Seq.visit, called, recording, hcode]
    | «end» => simp [Seq.visit, called, recording, hcode]
    | remove => simp [Seq.visit, called, recording, hcode, hrest]
    | ok => simp [Seq.visit, called, recording, hcode, hrest]

theorem called_append (codes : α → List α → EachCode) (before xs : List α) :
    (called codes before xs).map Prod.fst ++ xs.drop (called codes before xs).length = xs := by
  induction xs generalizing before with
  | nil => rfl
  | cons x xs ih =>
    rw [called]
    split_ifs
    · rfl
    · simpa using ih (before ++ [x])

theorem visit_findKeyCmp (equal : α → Bool) (xs : List α) (s : Option α) :
    (Seq.visit (findKeyCmp equal) xs s).2.2.1 = xs := by
  induction xs generalizing s with
  | nil => rfl
  | cons x xs ih =>
    cases hx : equal x with
    | true => simp [Seq.visit, findKeyCmp, hx]
    | false => simp [Seq.visit, findKeyCmp, hx, ih s]

/-! ### One call -/

theorem Seq.takeItem_end {L : Seq α} (h : L.items ≠ []) :
    ∃ x rest, L.takeItem = (some x, L.withItems rest) ∧
      L.items = if L.mode = .stack then x :: rest else rest ++ [x] := by
  by_cases hm : L.mode = .stack
  · obtain ⟨x, rest, hx⟩ := exists_cons_of_ne_nil h
    exact ⟨x, rest, by simp [Seq.takeItem, hm, hx], by rw [if_pos hm, hx]⟩
  · rcases eq_nil_or_concat L.items with he | ⟨rest, x, hx⟩
    · exact absurd he h
    · rw [concat_eq_append] at hx
      exact ⟨x, rest, by simp [Seq.takeItem, hm, hx], by rw [if_neg hm, hx]⟩

theorem Seq.pop_end {L : Seq α} (h : L.items ≠ []) (hsem : L.sem ≠ some 0) (timeout : ℕ) :
    ∃ x rest, (L.pop timeout).1 = .past (some x) ∧ (L.pop timeout).2.items = rest ∧
      L.items = if L.mode = .stack then x :: rest else rest ++ [x] := by
  unfold Seq.pop
  split
  next =>
    obtain ⟨x, rest, ht, hitems⟩ := Seq.takeItem_end h
    rw [ht]
    exact ⟨x, rest, rfl, rfl, hitems⟩
  next hzero => exact absurd hzero hsem
  next k hk =>
    obtain ⟨x, rest, ht, hitems⟩ := Seq.takeItem_end (show { L with sem := some k }.items ≠ [] from h)
    rw [ht]
    exact ⟨x, rest, rfl, rfl, hitems⟩

theorem Seq.pop_empty {L : Seq α} (h : L.items = []) (timeout : ℕ) :
    (L.pop timeout).1.item = none ∧ (L.pop timeout).2.items = [] := by
  unfold Seq.pop
  split
  · rw [Seq.takeItem_nil h]
    exact ⟨rfl, h⟩
  · refine ⟨?_, h⟩
    split_ifs <;> rfl
  next k hk =>
    rw [Seq.takeItem_nil (show { L with sem := some k }.items = [] from h)]
    exact ⟨rfl, h⟩

theorem items_update (a : ℕ → Seq α) (l : ℕ) (L : Seq α) :
    (fun m => (update a l L m).items) = update (fun m => (a m).items) l L.items := by
  funext m
  exact apply_update (fun _ => Seq.items) a l L m

variable {w : World α} {ls : ℕ → List ℕ} {a : ℕ → Seq α} [DecidableEq α]

theorem Refines.push_does (h : Refines w ls a) (allocOk : Bool) (l : ℕ) (item : α) :
    ∃ answer w' ls' a', perform (.push allocOk l item) w = .ok (answer, w') ∧ Refines w' ls' a' ∧
      Does w (fun m => (a m).items) (fun m => (a' m).items) (.push allocOk l item) answer := by
  have hroom : (allocOk && !(a l).full) ↔
      allocOk ∧ ¬(0 < (w.lists l).limit ∧ (w.lists l).limit ≤ (a l).items.length) := by
    cases allocOk <;> simp [Seq.full, h.limit l, Nat.pos_iff_ne_zero, or_iff_not_imp_left]
  by_cases hok : (allocOk && !(a l).full)
  · obtain ⟨rfl, hfull⟩ : allocOk ∧ (a l).full = false := by simpa using hok
    obtain ⟨w', ls', hp, _, hr⟩ := h.push_ok l item hfull
    refine ⟨.pushed true, w', ls', _, by simp [perform, hp], hr, iff_of_true rfl (hroom.mp hok), ?_⟩
    rw [items_update, if_pos rfl, Seq.pushItem, h.mode l]
  · obtain ⟨w', hp, hr⟩ := h.push_full allocOk l item hok
    exact ⟨.pushed false, w', ls, a, by simp [perform, hp], hr,
      iff_of_false Bool.false_ne_true fun hroom' => hok (hroom.mpr hroom'), rfl⟩

theorem Refines.pop_does (h : Refines w ls a) (l timeout : ℕ)
    (hposts : (w.lists l).head ≠ none → (w.lists l).sem ≠ some 0) :
    ∃ answer w' ls' a', perform (.pop l timeout) w = .ok (answer, w') ∧ Refines w' ls' a' ∧
      Does w (fun m => (a m).items) (fun m => (a' m).items) (.pop l timeout) answer := by
  obtain ⟨w', ls', hp, hr⟩ := h.popEx l timeout
  refine ⟨_, w', ls', _, by rw [perform, hp]; rfl, hr, ?_⟩
  rw [items_update]
  by_cases hnil : (a l).items = []
  · obtain ⟨hnone, hitems⟩ := Seq.pop_empty hnil timeout
    refine .inl ⟨hnil, hnone, ?_⟩
    rw [hitems, ← hnil, update_eq_self]
  · have hhead : (w.lists l).head ≠ none := by
      intro hnone
      have hfirst : (w.lists l).head = (ls l).head? := h.rep.threads.first_eq l
      rw [hnone] at hfirst
      rw [h.items l, head?_eq_none_iff.mp hfirst.symm] at hnil
      exact hnil rfl
    obtain ⟨x, rest, hx, hrest, hitems⟩ := Seq.pop_end hnil (by rw [h.sem l]; exact hposts hhead) timeout
    refine .inr ⟨x, rest, hx, ?_, by rw [hrest]⟩
    rw [← h.mode l]
    exact hitems

theorem Refines.perform (h : Refines w ls a) (hc : Conforms c w) :
    ∃ answer w' ls' a', perform c w = .ok (answer, w') ∧ Refines w' ls' a' ∧
      Does w (fun m => (a m).items) (fun m => (a' m).items) c answer := by
  cases c with
  | push allocOk l item => exact h.push_does allocOk l item
  | pop l timeout => exact h.pop_does l timeout hc
  | find l equal =>
    obtain ⟨w', ls', hf, hr⟩ := h.forEach l (findKeyCmp equal) none
    refine ⟨.found (find equal (a l).items), w', ls', _, by rw [Lists.perform, hf]; rfl, hr, find_eq equal _, ?_⟩
    rw [Seq.withItems, visit_findKeyCmp, update_eq_self]
  | remove l item =>
    have hhit : (fun x => x = item || ((w.lists l).cmp.map fun cmp => cmp x item).getD false) = (a l).hit item := by
      funext x
      rw [Seq.hit, h.cmp l]
    obtain ⟨w', ls', hf, hr⟩ := h.forEach l
      (fun x found => if (a l).hit item x then (.remove, some x) else (.ok, found)) (none : Option α)
    obtain ⟨hfound, hkept, hgone⟩ := visit_findRemove ((a l).hit item) (a l).items none
    rw [hfound, hgone, Option.or_none] at hf
    refine ⟨.removed ((a l).items.filter ((a l).hit item)).getLast?.isSome ((a l).items.filter ((a l).hit item)), w',
      ls', _, ?_, hr, ?_, ?_, ?_⟩
    · rw [Lists.perform, Lists.remove]
      simp only [congrFun hhit, hf]
      rfl
    · rw [hhit]
    · rw [getLast?_isSome]
    · rw [items_update, Seq.withItems, hkept, hhit]
  | forEach l codes =>
    obtain ⟨w', ls', hf, hr⟩ := h.forEach l (recording codes) []
    rw [visit_recording] at hf hr
    refine ⟨.visited _ _ _, w', ls', _, by rw [Lists.perform, hf]; rfl, hr, rfl, ?_, rfl, ?_⟩
    · simp
    · rw [items_update]
      rfl
  | clear l =>
    obtain ⟨w', ls', hp, hr⟩ := h.clear l
    refine ⟨.cleared (a l).drained, w', ls', _, by rw [Lists.perform, hp]; rfl, hr, (a l).drained_perm, ?_⟩
    rw [items_update]
    rfl
  | transfer dest source =>
    obtain ⟨w', ls', hp, hr⟩ := h.clear dest
    have hm := hr.moveNodes hc
    rw [update_of_ne (.symm hc), update_idem] at hm
    refine ⟨.transferred (a dest).drained, _, _, _, by rw [Lists.perform, transfer, if_neg hc, hp]; rfl, hm,
      (a dest).drained_perm, ?_⟩
    rw [items_update, items_update]
    rfl
  | setLimit l limit =>
    refine ⟨.limited, _, ls, _, rfl, h.setLimit l limit, ?_⟩
    change (fun m => (update a l { a l with limit := limit } m).items) = _
    rw [items_update, update_eq_self]

end Calls

/-! ### Where the items are -/

section Conservation

variable {α : Type}

def pushedBy : Call α × Answer α → List α
  | (.push _ _ item, .pushed true) => [item]
  | _ => []

def poppedBy : Call α × Answer α → List α
  | (_, .popped r) => r.item.toList
  | _ => []

def destroyedBy : Call α × Answer α → List α
  | (_, .removed _ destroyed) | (_, .visited _ _ destroyed) | (_, .cleared destroyed) | (_, .transferred destroyed) =>
    destroyed
  | _ => []

variable [DecidableEq α]

def countIn (N : ℕ) (xs : ℕ → List α) (x : α) : ℕ := ∑ l ∈ Finset.range N, (xs l).count x

/-- Every item was pushed as often as it is in a list, was popped and was destroyed. -/
def Conserved (h : List (Call α × Answer α)) (xs : ℕ → List α) : Prop :=
  ∃ N, (∀ l, N ≤ l → xs l = []) ∧ ∀ x, (h.flatMap pushedBy).count x =
    countIn N xs x + (h.flatMap poppedBy).count x + (h.flatMap destroyedBy).count x

variable {xs xs' : ℕ → List α} {l : ℕ} {h : List (Call α × Answer α)} {p : Call α × Answer α}

theorem countIn_of_le (hNM : N ≤ M) (hnil : ∀ l, N ≤ l → xs l = []) (x : α) :
    countIn M xs x = countIn N xs x := by
  refine (sum_subset (range_mono hNM) fun m _ hm => ?_).symm
  rw [hnil m (by simpa using hm), count_nil]

theorem countIn_update (hl : l < N) (ys : List α) (x : α) :
    countIn N (update xs l ys) x + (xs l).count x = countIn N xs x + ys.count x := by
  have hmem : l ∈ Finset.range N := Finset.mem_range.mpr hl
  have hothers : ∑ m ∈ (Finset.range N).erase l, (update xs l ys m).count x =
      ∑ m ∈ (Finset.range N).erase l, (xs m).count x :=
    sum_congr rfl fun m hm => by rw [update_of_ne (ne_of_mem_erase hm)]
  unfold countIn
  rw [← add_sum_erase _ _ hmem, ← add_sum_erase _ (fun m => (xs m).count x) hmem,
    update_self]
  omega

theorem Conserved.step (hc : Conserved h xs) (hfar : ∀ l, M ≤ l → xs' l = xs l)
    (htotal : ∀ N, M ≤ N → ∀ x, countIn N xs x + (pushedBy p).count x =
      countIn N xs' x + (poppedBy p).count x + (destroyedBy p).count x) : Conserved (h ++ [p]) xs' := by
  obtain ⟨N, hnil, hcount⟩ := hc
  refine ⟨max N M, fun l hl => ?_, fun x => ?_⟩
  · rw [hfar l (le_trans (le_max_right N M) hl), hnil l (le_trans (le_max_left N M) hl)]
  · have hx := hcount x
    have hp := htotal (max N M) (le_max_right N M) x
    rw [countIn_of_le (le_max_left N M) hnil] at hp
    simp only [flatMap_append, flatMap_singleton, count_append]
    omega

theorem Conserved.update (hc : Conserved h xs)
    (hcount : ∀ x, (xs l).count x + (pushedBy p).count x =
      ys.count x + (poppedBy p).count x + (destroyedBy p).count x) :
    Conserved (h ++ [p]) (update xs l ys) := by
  refine hc.step (fun m (hm : l + 1 ≤ m) => update_of_ne (by omega) ..) fun N hN x => ?_
  have hl := @countIn_update α _ xs l N hN ys x
  have hx := hcount x
  omega

theorem Conserved.same (hc : Conserved h xs) (hpush : pushedBy p = []) (hpop : poppedBy p = [])
    (hdestroy : destroyedBy p = []) : Conserved (h ++ [p]) xs :=
  hc.step (M := 0) (fun _ _ => rfl) fun N _ x => by rw [hpush, hpop, hdestroy, count_nil]

theorem Does.conserved (hdoes : Does w xs xs' c answer)
    (hc : Conserved h xs) : Conserved (h ++ [(c, answer)]) xs' := by
  cases c <;> cases answer <;> try exact hdoes.elim
  case push.pushed allocOk l x ok =>
    obtain ⟨-, rfl⟩ := hdoes
    cases ok with
    | false => exact hc.same rfl rfl rfl
    | true =>
      refine hc.update fun y => ?_
      split_ifs <;> simp [pushedBy, poppedBy, destroyedBy, count_cons]
  case pop.popped l timeout r =>
    rcases hdoes with ⟨-, hitem, rfl⟩ | ⟨x, rest, rfl, hitems, rfl⟩
    · exact hc.same rfl (by rw [poppedBy, hitem]; rfl) rfl
    · refine hc.update fun y => ?_
      rw [hitems]
      split_ifs <;> simp [pushedBy, poppedBy, destroyedBy, PopResult.item, count_cons]
  case find.found l equal x =>
    obtain ⟨-, rfl⟩ := hdoes
    exact hc.same rfl rfl rfl
  case remove.removed l item ok destroyed =>
    obtain ⟨rfl, -, rfl⟩ := hdoes
    refine hc.update fun y => ?_
    have hsplit := (filter_append_perm (fun x => x = item || ((w.lists l).cmp.map fun cmp => cmp x item).getD false)
      (xs l)).count_eq y
    rw [count_append] at hsplit
    simp only [pushedBy, poppedBy, destroyedBy]
    omega
  case forEach.visited l codes ok calls destroyed =>
    obtain ⟨-, -, rfl, rfl⟩ := hdoes
    refine hc.update fun y => ?_
    have hall := congrArg (count y) (called_append codes [] (xs l))
    have hsplit := ((filter_append_perm (fun p => p.2 = .remove) (called codes [] (xs l))).map Prod.fst).count_eq y
    simp only [map_append, count_append] at hall hsplit ⊢
    simp only [pushedBy, poppedBy, destroyedBy, decide_not]
    omega
  case clear.cleared l destroyed =>
    obtain ⟨hperm, rfl⟩ := hdoes
    refine hc.update fun y => ?_
    simp [pushedBy, poppedBy, destroyedBy, hperm.count_eq]
  case transfer.transferred dest source destroyed =>
    obtain ⟨hperm, rfl⟩ := hdoes
    have hsource : update xs dest (xs source) source = xs source := by
      by_cases hne : source = dest
      · rw [hne, update_self]
      · rw [update_of_ne hne]
    refine hc.step (M := max dest source + 1) (fun m hm => ?_) fun N hN y => ?_
    · rw [update_of_ne (by omega), update_of_ne (by omega)]
    · have hdest := @countIn_update α _ xs dest N (by omega) (xs source) y
      have hsrc := @countIn_update α _ (update xs dest (xs source)) source N (by omega) [] y
      rw [hsource] at hsrc
      simp only [pushedBy, poppedBy, destroyedBy, hperm.count_eq, count_nil] at hsrc ⊢
      omega
  case setLimit.limited l limit =>
    obtain rfl := hdoes
    exact hc.same rfl rfl rfl

end Conservation

/-! ### Runs -/

section Runs

variable {α : Type}

/-- Following `next` from the head gives the nodes of each list, following `prev` from the tail gives their reverse, and
the length counts them. -/
def Represents (w : World α) (ls : ℕ → List ℕ) : Prop :=
  ∀ l, follow (links w) ((ls l).length + 1) (w.lists l).head = ls l ∧
    follow (links w).flip ((ls l).length + 1) (w.lists l).tail = (ls l).reverse ∧
    (w.lists l).length = (ls l).length

theorem Rep.represents (h : Rep w ls) : Represents w ls := by
  intro l
  have hhead : (w.lists l).head = (ls l).head? := h.threads.first_eq l
  have htail : (w.lists l).tail = (ls l).reverse.head? := by
    rw [head?_reverse]
    exact h.threads.last_eq l
  refine ⟨?_, ?_, h.length l⟩
  · rw [hhead]
    exact (h.threads.chain l).follow_eq (Nat.le_succ _)
  · rw [htail]
    exact (h.threads.chain l).reverse.follow_eq (by rw [length_reverse]; exact Nat.le_succ _)

variable [DecidableEq α]

/-- In every run in which a pop finds a post wherever the list holds items, each list is a finite sequence of nodes, any
further call does on the sequences what it is for, and every item that was pushed is in a list, was popped or was
destroyed, as often as it was pushed. -/
theorem list_refines_sequence (junk : ℕ → Node α) (mode : ℕ → Mode) (cmp : ℕ → Option (α → α → Bool)) (limit : ℕ → ℕ)
    (calls : List (Call α)) (hcalls : Along Conforms perform calls (initWorld junk mode cmp limit)) :
    ∃ answers w ls, run perform calls (initWorld junk mode cmp limit) = .ok (answers, w) ∧ Represents w ls ∧
      Conserved (calls.zip answers) (fun l => itemsOf w (ls l)) ∧
      ∀ c, Conforms c w → ∃ answer w' ls', perform c w = .ok (answer, w') ∧ Represents w' ls' ∧
        Does w (fun l => itemsOf w (ls l)) (fun l => itemsOf w' (ls' l)) c answer := by
  have hinit : ∃ ls a, Refines (initWorld junk mode cmp limit) ls a ∧ Conserved [] fun l => (a l).items :=
    ⟨_, _, initWorld_refines junk mode cmp limit, 0, fun _ _ => rfl, fun _ => rfl⟩
  obtain ⟨answers, w, hrun, ls, a, href, hcons⟩ := run_conforming
    (I := fun h w => ∃ ls a, Refines w ls a ∧ Conserved h fun l => (a l).items)
    (fun h c w hi hc => by
      obtain ⟨ls, a, href, hcons⟩ := hi
      obtain ⟨answer, w', ls', a', hperform, href', hdoes⟩ := href.perform hc
      exact ⟨answer, w', hperform, ls', a', href', hdoes.conserved hcons⟩) hinit hcalls
  rw [nil_append, funext href.items] at hcons
  refine ⟨answers, w, ls, hrun, href.rep.represents, hcons, fun c hc => ?_⟩
  obtain ⟨answer, w', ls', a', hperform, href', hdoes⟩ := href.perform hc
  rw [funext href.items, funext href'.items] at hdoes
  exact ⟨answer, w', ls', hperform, href'.rep.represents, hdoes⟩

def emptyLists (mode : ℕ → Mode) : World ℕ := initWorld (fun _ => ⟨none, none, 0, false⟩) mode (fun _ => none) fun _ => 0

/-- A push and a pop on a queue, and a transfer between lists without semaphores. -/
theorem push_pop_transfer_conform :
    ∃ answers w ls, run perform [.push true 0 7, .pop 0 0, .push true 1 8, .transfer 2 1]
        (emptyLists fun l => if l = 0 then .queue else .generic) = .ok (answers, w) ∧ Represents w ls := by
  have hcalls : Along Conforms perform [.push true 0 7, .pop 0 0, .push true 1 8, .transfer 2 1]
      (emptyLists fun l => if l = 0 then .queue else .generic) :=
    along_cons trivial rfl <| along_cons (fun _ => by decide) rfl <|
      along_cons trivial rfl <| along_cons (show 2 ≠ 1 by decide) rfl trivial
  obtain ⟨answers, w, ls, hrun, hrep, -⟩ := list_refines_sequence _ _ _ _ _ hcalls
  exact ⟨answers, w, ls, hrun, hrep⟩

/-- An item that is transferred to a queue stays out of reach: the list holds it, and a pop times out. -/
theorem transferred_item_not_popped :
    ∃ w, run perform [.push true 1 7, .transfer 0 1] (emptyLists fun _ => .queue) =
        .ok ([.pushed true, .transferred []], w) ∧
      (w.lists 0).length = 1 ∧ (perform (.pop 0 5) w).map Prod.fst = .ok (.popped .timedOut) :=
  ⟨_, rfl, rfl, rfl⟩

end Runs

end Razorback.Lists
