import Razorback.Lists.Sequences

/-! `List_Clone`, and what its caller can tell of the copy. The copy is made by pushing onto the new list during a pass
over the old one, so its order hangs on the end the mode pushes at; its limit and its semaphore are those of a new list. -/

namespace Razorback.Lists
open Linked Runs Function List

section Defs

variable {α : Type}

/-- `List_Clone_Node`; what the clone callback returns may depend on the state of the heap. -/
def cloneNode (copy : ℕ → α → Option α) (nodeOk : ℕ → Bool) (dest : ℕ) (item : α) (w : World α) : EachCode × World α :=
  match copy w.fresh item with
  | none => (.error, w)
  | some new =>
    let (pushed, w) := push (nodeOk w.fresh) dest new w
    (if pushed then .ok else .error, w)

/-- The reading pass of `List_ForEach` with `List_Clone_Node`, which pushes onto another list. -/
def cloneNodes (copy : ℕ → α → Option α) (nodeOk : ℕ → Bool) (dest : ℕ) :
    ℕ → Option ℕ → World α → Except Fault (Bool × World α)
  | _, none, w => .ok (true, w)
  | 0, some _, _ => .error .stuck
  | fuel + 1, some n, w =>
    match cloneNode copy nodeOk dest (w.nodes n).item w with
    | (.ok, w) => cloneNodes copy nodeOk dest fuel (w.nodes n).next w
    | (_, w) => .ok (false, w)

/-- `List_Clone` of `source` into the new list `dest`; `copy` is `NULL` where the list has no clone callback, `createOk`
the fate of `List_Create`. A copy that fails is destroyed. -/
def clone (copy : Option (ℕ → α → Option α)) (createOk : Bool) (nodeOk : ℕ → Bool) (source dest : ℕ) (w : World α) :
    Except Fault (Bool × World α) :=
  match copy with
  | none => .ok (false, w)
  | some copy =>
    if createOk then do
      let S := w.lists source
      let w := w.setList dest fun _ => create S.mode S.cmp
      let (ret, w) ← cloneNodes copy nodeOk dest w.fresh (w.lists source).head w
      if ret then return (true, w)
      else
        let (_, w) ← clear dest w
        return (false, w)
    else .ok (false, w)

/-- What a caller can do to a list and see of it. -/
inductive Look (α : Type)
  | push (item : α)
  | pop (timeout : ℕ)
  | find (equal : α → Bool)
  | forEach (codes : α → List α → EachCode)

def Look.on (l : ℕ) : Look α → Call α
  | .push item => .push true l item
  | .pop timeout => .pop l timeout
  | .find equal => .find l equal
  | .forEach codes => .forEach l codes

def Look.pushes : Look α → ℕ
  | .push _ => 1
  | _ => 0

/-- The same call, with equal items, and with callbacks that treat equal items alike. -/
inductive Look.Like (same : α → α → Prop) : Look α → Look α → Prop
  | push {x y : α} : same x y → Like same (.push x) (.push y)
  | pop (timeout : ℕ) : Like same (.pop timeout) (.pop timeout)
  | find {equal equal' : α → Bool} : (∀ x y, same x y → equal x = equal' y) → Like same (.find equal) (.find equal')
  | forEach {codes codes' : α → List α → EachCode} :
      (∀ x y xs ys, same x y → List.Forall₂ same xs ys → codes x xs = codes' y ys) →
      Like same (.forEach codes) (.forEach codes')

/-- The same answer up to equal items; a pop that blocks and one that returns `NULL` hand out no item. -/
inductive Answer.Like (same : α → α → Prop) : Answer α → Answer α → Prop
  | pushed (ok : Bool) : Like same (.pushed ok) (.pushed ok)
  | popped {r r' : PopResult α} : Option.Rel same r.item r'.item → Like same (.popped r) (.popped r')
  | found {x y : Option α} : Option.Rel same x y → Like same (.found x) (.found y)
  | visited (ok : Bool) {calls calls' destroyed destroyed' : List α} :
      List.Forall₂ same calls calls' → List.Forall₂ same destroyed destroyed' →
      Like same (.visited ok calls destroyed) (.visited ok calls' destroyed')

def Seq.look (L : Seq α) : Look α → Answer α × Seq α
  | .push item => if L.full then (.pushed false, L) else (.pushed true, L.pushItem item)
  | .pop timeout => (.popped (L.pop timeout).1, (L.pop timeout).2)
  | .find equal => (.found (L.items.find? equal), L)
  | .forEach codes =>
    let v := Seq.visit (recording codes) L.items []
    (.visited v.1 v.2.1 v.2.2.2, L.withItems v.2.2.1)

def Seq.looks (L : Seq α) : List (Look α) → List (Answer α)
  | [] => []
  | look :: looks => (L.look look).1 :: (L.look look).2.looks looks

def pushes (looks : List (Look α)) : ℕ := (looks.map Look.pushes).sum

end Defs

section Refinement

variable {α : Type} [DecidableEq α] {w : World α} {ls : ℕ → List ℕ} {a : ℕ → Seq α}

theorem Refines.look (h : Refines w ls a) (l : ℕ) (look : Look α) :
    ∃ w' ls', Lists.perform (look.on l) w = .ok (((a l).look look).1, w') ∧
      Refines w' ls' (Function.update a l ((a l).look look).2) := by
  cases look with
  | push item =>
    cases hfull : (a l).full with
    | true =>
      obtain ⟨w', hp, hr⟩ := h.push_full true l item (by simp [hfull])
      refine ⟨w', ls, by simp [Look.on, Lists.perform, Seq.look, hp, hfull], ?_⟩
      simpa [Seq.look, hfull] using hr
    | false =>
      obtain ⟨w', ls', hp, _, hr⟩ := h.push_ok l item hfull
      refine ⟨w', ls', by simp [Look.on, Lists.perform, Seq.look, hp, hfull], ?_⟩
      simpa [Seq.look, hfull] using hr
  | pop timeout =>
    obtain ⟨w', ls', hp, hr⟩ := h.popEx l timeout
    exact ⟨w', ls', by simp [Look.on, Lists.perform, Seq.look, hp, Except.map], hr⟩
  | find equal =>
    obtain ⟨w', ls', hp, hr⟩ := h.forEach l (findKeyCmp equal) none
    rw [visit_findKeyCmp] at hr
    refine ⟨w', ls', ?_, hr⟩
    have hfound : (Seq.visit (findKeyCmp equal) (a l).items none).2.1 = (a l).items.find? equal := find_eq equal _
    simp [Look.on, Lists.perform, Seq.look, hp, Except.map, hfound]
  | forEach codes =>
    obtain ⟨w', ls', hp, hr⟩ := h.forEach l (recording codes) []
    exact ⟨w', ls', by simp [Look.on, Lists.perform, Seq.look, hp, Except.map], hr⟩

theorem Refines.looks (h : Refines w ls a) (l : ℕ) (looks : List (Look α)) :
    ∃ w', run Lists.perform (looks.map (Look.on l)) w = .ok ((a l).looks looks, w') := by
  induction looks generalizing w ls a with
  | nil => exact ⟨w, rfl⟩
  | cons look looks ih =>
    obtain ⟨w₁, ls₁, hcall, hr⟩ := h.look l look
    obtain ⟨w', hrest⟩ := ih hr
    rw [update_self] at hrest
    refine ⟨w', ?_⟩
    rw [map_cons, run_cons_ok hcall, hrest]
    rfl

end Refinement

section Related

variable {α : Type} {same : α → α → Prop} {xs ys : List α}

theorem forall₂_find? {β : Type} {same : α → β → Prop} {xs : List α} {ys : List β} (h : List.Forall₂ same xs ys)
    {equal : α → Bool} {equal' : β → Bool} (heq : ∀ x y, same x y → equal x = equal' y) :
    Option.Rel same (xs.find? equal) (ys.find? equal') := by
  induction h with
  | nil => exact .none
  | @cons x y xs ys hxy _ ih =>
    rw [find?_cons, find?_cons, ← heq x y hxy]
    cases equal x with
    | true => exact .some hxy
    | false => exact ih

theorem forall₂_head? (h : List.Forall₂ same xs ys) : Option.Rel same xs.head? ys.head? := by
  cases h with
  | nil => exact .none
  | cons hxy _ => exact .some hxy

theorem forall₂_tail (h : List.Forall₂ same xs ys) : List.Forall₂ same xs.tail ys.tail := by
  cases h with
  | nil => exact .nil
  | cons _ hrest => exact hrest

theorem forall₂_visit (h : List.Forall₂ same xs ys) (hcodes : ∀ x y xs ys, same x y → List.Forall₂ same xs ys → codes x xs = codes' y ys)
    (hcalls : List.Forall₂ same calls calls') :
    let v := Seq.visit (recording codes) xs calls
    let v' := Seq.visit (recording codes') ys calls'
    v.1 = v'.1 ∧ List.Forall₂ same v.2.1 v'.2.1 ∧ List.Forall₂ same v.2.2.1 v'.2.2.1 ∧
      List.Forall₂ same v.2.2.2 v'.2.2.2 := by
  induction h generalizing calls calls' with
  | nil => exact ⟨rfl, hcalls, .nil, .nil⟩
  | @cons x y xs ys hxy hrest ih =>
    have hcode := hcodes x y calls calls' hxy hcalls
    have hnext : List.Forall₂ same (calls ++ [x]) (calls' ++ [y]) := rel_append hcalls (.cons hxy .nil)
    obtain ⟨hret, hdata, hkept, hgone⟩ := ih hnext
    cases hx : codes x calls with
    | error | «end» =>
      simp only [Seq.visit, recording, ← hcode, hx]
      exact ⟨trivial, hnext, .cons hxy hrest, .nil⟩
    | remove =>
      simp only [Seq.visit, recording, ← hcode, hx]
      exact ⟨hret, hdata, hkept, .cons hxy hgone⟩
    | ok =>
      simp only [Seq.visit, recording, ← hcode, hx]
      exact ⟨hret, hdata, .cons hxy hkept, hgone⟩

end Related

section Twins

variable {α : Type} {same : α → α → Prop} {L M : Seq α} {p : ℕ}

structure Roomy (p : ℕ) (L : Seq α) : Prop where
  posts : ∀ k, L.sem = some k → L.items.length ≤ k
  room : L.limit = 0 ∨ L.items.length + p ≤ L.limit
  bound : L.sem = none ∨ L.items.length + p ≤ semValueMax

theorem Roomy.of_length (h : Roomy p L) (hlimit : M.limit = L.limit) (hlen : M.items.length ≤ L.items.length)
    (hposts : ∀ k, M.sem = some k → M.items.length ≤ k) (hsem : L.sem = none → M.sem = none) : Roomy p M := by
  refine ⟨hposts, ?_, ?_⟩
  · rw [hlimit]
    exact h.room.imp_right fun hle => by omega
  · exact h.bound.imp hsem fun hle => by omega

theorem Roomy.not_full (h : Roomy (p + 1) L) : L.full = false := by
  rcases h.room with hlimit | hroom
  · simp [Seq.full, hlimit]
  · simp only [Seq.full, Bool.and_eq_false_iff, decide_eq_false_iff_not]
    omega

theorem pushItem_length (L : Seq α) (x : α) : (L.pushItem x).items.length = L.items.length + 1 := by
  unfold Seq.pushItem
  split_ifs <;> simp

theorem Roomy.pushItem (h : Roomy (p + 1) L) (x : α) : Roomy p (L.pushItem x) := by
  have hlen := pushItem_length L x
  refine ⟨fun k hk => ?_, ?_, ?_⟩
  · obtain ⟨j, hj, rfl⟩ := Option.map_eq_some_iff.mp hk
    have hposts := h.posts j hj
    have hbound := h.bound.resolve_left (by rw [hj]; exact Option.some_ne_none j)
    rw [semPost]
    split_ifs <;> omega
  · refine h.room.imp_right fun hle => ?_
    rw [hlen]
    show L.items.length + 1 + p ≤ L.limit
    omega
  · refine h.bound.imp (fun hnone => ?_) fun hle => by rw [hlen]; omega
    rw [Seq.pushItem, hnone]
    rfl

theorem Roomy.pop (h : Roomy p L) (timeout : ℕ) :
    (L.pop timeout).1.item = L.takeItem.1 ∧ (L.pop timeout).2.items = L.takeItem.2.items ∧
      (L.pop timeout).2.mode = L.mode ∧ Roomy p (L.pop timeout).2 := by
  have htake : ∀ K : Seq α, K.takeItem.2 = K.withItems K.takeItem.2.items ∧
      K.takeItem.2.items.length = K.items.length - 1 := by
    intro K
    unfold Seq.takeItem
    split_ifs
    · exact ⟨rfl, by simp [Seq.withItems]⟩
    · exact ⟨rfl, by simp [Seq.withItems]⟩
  obtain ⟨hwith, hlen⟩ := htake L
  unfold Seq.pop
  split
  next hnone =>
    refine ⟨rfl, rfl, by rw [hwith]; rfl, h.of_length (by rw [hwith]; rfl) ?_ ?_ ?_⟩
    · exact hlen.trans_le (Nat.sub_le _ _)
    · intro k hk
      rw [hwith] at hk
      cases hnone.symm.trans hk
    · exact fun _ => by rw [hwith]; exact hnone
  next hzero =>
    have hnil : L.items = [] := eq_nil_of_length_eq_zero (Nat.le_zero.mp (h.posts 0 hzero))
    rw [Seq.takeItem_nil hnil]
    refine ⟨?_, rfl, rfl, h⟩
    split_ifs <;> rfl
  next k hk =>
    obtain ⟨hwith', hlen'⟩ := htake { L with sem := some k }
    have hsame : { L with sem := some k }.takeItem.1 = L.takeItem.1 ∧
        { L with sem := some k }.takeItem.2.items = L.takeItem.2.items := by
      unfold Seq.takeItem
      split_ifs <;> exact ⟨rfl, rfl⟩
    have hposts := h.posts (k + 1) hk
    refine ⟨hsame.1, hsame.2, by rw [hwith']; rfl, h.of_length (by rw [hwith']; rfl) ?_ ?_ ?_⟩
    · rw [hsame.2]
      omega
    · intro j hj
      rw [hwith'] at hj
      obtain rfl : k = j := Option.some.inj hj
      rw [hsame.2]
      omega
    · intro hnone
      cases hk.symm.trans hnone

structure Twins (same : α → α → Prop) (p : ℕ) (L M : Seq α) : Prop where
  mode : L.mode = M.mode
  items : List.Forall₂ same L.items M.items
  left : Roomy p L
  right : Roomy p M

theorem Twins.takeItem (hmode : L.mode = M.mode) (hitems : List.Forall₂ same L.items M.items) :
    Option.Rel same L.takeItem.1 M.takeItem.1 ∧ List.Forall₂ same L.takeItem.2.items M.takeItem.2.items := by
  unfold Seq.takeItem
  rw [← hmode]
  split_ifs
  · exact ⟨forall₂_head? hitems, forall₂_tail hitems⟩
  · have hreverse : List.Forall₂ same L.items.reverse M.items.reverse := rel_reverse hitems
    refine ⟨?_, ?_⟩
    · have hhead := forall₂_head? hreverse
      rwa [head?_reverse, head?_reverse] at hhead
    · have htail := rel_reverse (forall₂_tail hreverse)
      rwa [tail_reverse, tail_reverse, reverse_reverse, reverse_reverse] at htail

theorem Twins.pushItem (h : Twins same (p + 1) L M) (hxy : same x y) :
    Twins same p (L.pushItem x) (M.pushItem y) := by
  refine ⟨h.mode, ?_, h.left.pushItem x, h.right.pushItem y⟩
  unfold Seq.pushItem
  rw [← h.mode]
  split_ifs
  · exact .cons hxy h.items
  · exact rel_append h.items (.cons hxy .nil)

theorem Roomy.withItems (h : Roomy p L) (hlen : xs.length ≤ L.items.length) :
    Roomy p (L.withItems xs) :=
  h.of_length rfl hlen (fun k hk => Nat.le_trans hlen (h.posts k hk)) id

theorem Twins.look {look look' : Look α} (h : Twins same (look.pushes + p) L M) (hlike : Look.Like same look look') :
    Answer.Like same (L.look look).1 (M.look look').1 ∧ Twins same p (L.look look).2 (M.look look').2 := by
  cases hlike with
  | push hxy =>
    rw [show (Look.push _).pushes + p = p + 1 from Nat.add_comm 1 p] at h
    simp only [Seq.look, h.left.not_full, h.right.not_full]
    exact ⟨.pushed true, h.pushItem hxy⟩
  | pop timeout =>
    rw [show (.pop timeout : Look α).pushes + p = p from Nat.zero_add p] at h
    obtain ⟨hitem, hitems, hmode, hroomy⟩ := h.left.pop timeout
    obtain ⟨hitem', hitems', hmode', hroomy'⟩ := h.right.pop timeout
    obtain ⟨htaken, hleft⟩ := Twins.takeItem h.mode h.items
    refine ⟨.popped ?_, ?_, ?_, hroomy, hroomy'⟩
    · rw [hitem, hitem']
      exact htaken
    · rw [Seq.look, Seq.look, hmode, hmode']
      exact h.mode
    · rw [Seq.look, Seq.look, hitems, hitems']
      exact hleft
  | @find equal equal' heq =>
    rw [show (Look.find equal).pushes + p = p from Nat.zero_add p] at h
    exact ⟨.found (forall₂_find? h.items heq), h⟩
  | @forEach codes codes' hcodes =>
    rw [show (Look.forEach codes).pushes + p = p from Nat.zero_add p] at h
    obtain ⟨hret, hdata, hkept, hgone⟩ := forall₂_visit h.items hcodes .nil
    refine ⟨?_, h.mode, hkept, ?_, ?_⟩
    · simp only [Seq.look]
      rw [hret]
      exact .visited _ hdata hgone
    · exact h.left.withItems (visit_kept_length _ _ _)
    · exact h.right.withItems (visit_kept_length _ _ _)

theorem Twins.looks {looks looks' : List (Look α)} (hlike : List.Forall₂ (Look.Like same) looks looks')
    (h : Twins same (pushes looks) L M) : List.Forall₂ (Answer.Like same) (L.looks looks) (M.looks looks') := by
  induction hlike generalizing L M with
  | nil => exact .nil
  | @cons look look' looks looks' hhead _ ih =>
    obtain ⟨hanswer, hrest⟩ := h.look hhead
    exact .cons hanswer (ih hrest)

end Twins

section Copy

variable {α : Type} {w : World α} {ls : ℕ → List ℕ} {a : ℕ → Seq α} {source dest : ℕ}

def newSeq (mode : Mode) (cmp : Option (α → α → Bool)) : Seq α :=
  ⟨[], 0, mode, cmp, if mode = .generic then none else some 0⟩

theorem Refines.create (h : Refines w ls a) (hdest : ls dest = []) (mode : Mode) (cmp : Option (α → α → Bool)) :
    Refines (w.setList dest fun _ => Lists.create mode cmp) ls (Function.update a dest (newSeq mode cmp)) := by
  have hself : (w.setList dest fun _ => Lists.create mode cmp).lists dest = Lists.create mode cmp :=
    update_self ..
  have hother : ∀ m, m ≠ dest → (w.setList dest fun _ => Lists.create mode cmp).lists m = w.lists m :=
    fun m hm => update_of_ne hm ..
  have hfield : ∀ {β : Type} (g : LinkedList α → β) (f : Seq α → β), (∀ m, f (a m) = g (w.lists m)) →
      f (newSeq mode cmp) = g (Lists.create mode cmp) → ∀ m, f (update a dest (newSeq mode cmp) m) =
        g ((w.setList dest fun _ => Lists.create mode cmp).lists m) := by
    intro β g f hold hnew m
    by_cases hm : m = dest
    · rw [hm, hself, update_self, hnew]
    · rw [hother m hm, update_of_ne hm, hold m]
  refine ⟨⟨⟨h.rep.threads.chain, h.rep.threads.nodup, h.rep.threads.disjoint, fun m => ?_, fun m => ?_⟩, h.rep.fresh,
    fun m => ?_⟩, h.clean, fun m => ?_, hfield LinkedList.limit Seq.limit h.limit rfl,
    hfield LinkedList.mode Seq.mode h.mode rfl, hfield LinkedList.cmp Seq.cmp h.cmp rfl,
    hfield LinkedList.sem Seq.sem h.sem rfl⟩
  · by_cases hm : m = dest
    · rw [hm, heads, hself, hdest]
      rfl
    · rw [heads, hother m hm]
      exact h.rep.threads.first_eq m
  · by_cases hm : m = dest
    · rw [hm, tails, hself, hdest]
      rfl
    · rw [tails, hother m hm]
      exact h.rep.threads.last_eq m
  · by_cases hm : m = dest
    · rw [hm, hself, hdest]
      rfl
    · rw [hother m hm]
      exact h.rep.length m
  · by_cases hm : m = dest
    · rw [hm, update_self, hdest]
      rfl
    · rw [update_of_ne hm]
      exact h.items m

theorem cloneNodes_spec (hcopy : ∀ k x, ∃ y, copy k x = some y ∧ same x y) (hne : source ≠ dest)
    (h : Refines w ls a) (hls : ls source = pre ++ ns) (hf : ns.length ≤ fuel) (hlimit : (a dest).limit = 0) :
    ∃ ys w' ls', cloneNodes copy (fun _ => true) dest fuel ns.head? w = .ok (true, w') ∧
      List.Forall₂ same (itemsOf w ns) ys ∧
      Refines w' ls' (Function.update a dest (ys.foldl (fun L y => L.pushItem y) (a dest))) := by
  induction ns generalizing w ls a pre fuel with
  | nil =>
    refine ⟨[], w, ls, by cases fuel <;> rfl, .nil, ?_⟩
    rw [foldl_nil, update_eq_self]
    exact h
  | cons n ns ih =>
    obtain ⟨fuel, rfl⟩ : ∃ k, fuel = k + 1 := Nat.exists_eq_succ_of_ne_zero (by
      simp only [length_cons] at hf
      omega)
    simp only [length_cons, Nat.add_le_add_iff_right] at hf
    obtain ⟨y, hy, hsame⟩ := hcopy w.fresh (w.nodes n).item
    obtain ⟨w₁, ls₁, hpush, hkeep, h₁⟩ := h.push_ok dest y (by simp [Seq.full, hlimit])
    have hls₁ : ls₁ source = pre ++ n :: ns := (hkeep source hne).trans hls
    -- the pushed node goes to another list, so the chain of `source` and its items are as before
    have hnext : (w₁.nodes n).next = ns.head? := (h₁.rep.threads.neighbours hls₁).2
    obtain ⟨ys, w', ls', hrun, hys, h'⟩ := ih h₁ (show ls₁ source = (pre ++ [n]) ++ ns by simpa using hls₁) hf
      (by rw [update_self]; exact hlimit)
    have hitems : itemsOf w₁ ns = itemsOf w ns := by
      have hsource := h₁.items source
      rw [update_of_ne hne, h.items source, hls, hls₁] at hsource
      simp only [itemsOf, map_append] at hsource
      have hrest := (append_inj hsource (by simp)).2
      exact (cons.inj hrest).2.symm
    rw [hitems] at hys
    refine ⟨y :: ys, w', ls', ?_, .cons hsame hys, ?_⟩
    · simp only [head?_cons, cloneNodes, cloneNode, hy, hpush, if_true, hnext]
      exact hrun
    · rw [update_idem, update_self] at h'
      exact h'

theorem foldl_pushItem (ys : List α) (L : Seq α) :
    let M := ys.foldl (fun L y => L.pushItem y) L
    M.mode = L.mode ∧ M.items = (if L.mode = .stack then ys.reverse ++ L.items else L.items ++ ys) ∧
      ∀ p, Roomy (p + ys.length) L → Roomy p M := by
  induction ys generalizing L with
  | nil => simp
  | cons y ys ih =>
    obtain ⟨hmode, hitems, hroomy⟩ := ih (L.pushItem y)
    refine ⟨hmode, ?_, fun p hp => hroomy p (hp.pushItem y)⟩
    rw [foldl_cons, hitems]
    simp only [Seq.pushItem]
    split_ifs <;> simp

theorem twins_of_copies {same : α → α → Prop} {L : Seq α} {ys : List α} {p : ℕ}
    (hys : List.Forall₂ same L.items ys) (hstack : L.mode = .stack → L.items.length ≤ 1)
    (hposts : ∀ k, L.sem = some k → L.items.length ≤ k) (hroom : L.limit = 0 ∨ L.items.length + p ≤ L.limit)
    (hbound : L.mode = .generic ∧ L.sem = none ∨ L.items.length + p ≤ semValueMax) :
    Twins same p L (ys.foldl (fun L y => L.pushItem y) (newSeq L.mode L.cmp)) := by
  obtain ⟨hmode, hitems, hroomy⟩ := foldl_pushItem ys (newSeq L.mode L.cmp)
  have hlen : ys.length = L.items.length := hys.length_eq.symm
  refine ⟨hmode.symm, ?_, ⟨hposts, hroom, hbound.imp_left And.right⟩, hroomy p ⟨fun k _ => Nat.zero_le k, .inl rfl, ?_⟩⟩
  · rw [hitems]
    simp only [newSeq, append_nil]
    split_ifs with hmode
    · have hone : ys.length ≤ 1 := hlen.trans_le (hstack hmode)
      have hsame : ys.reverse = ys := by
        match ys, hone with
        | [], _ => rfl
        | [_], _ => rfl
      rw [hsame]
      exact hys
    · exact hys
  · refine hbound.imp (fun hgeneric => ?_) fun hle => ?_
    · rw [newSeq, if_pos hgeneric.1]
    · simp only [newSeq, length_nil]
      omega

variable [DecidableEq α]

end Copy

end Razorback.Lists
