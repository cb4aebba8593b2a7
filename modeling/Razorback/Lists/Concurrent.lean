import Razorback.Base.Histories
import Razorback.Base.Tokens
import Razorback.Lists.Sequences

/-! Threads on one list. A write-locked section is one step, which waits for every reader; the reading section of
`List_ForEach` is entered, visits one node after the other and is left in steps of its own, so that several threads can
be inside it. What a thread does to memory no other thread can reach is done in the step next to it: `List_Push` fills
its node in the step that links it. The list is the list 0 of the heap. -/

namespace Razorback.Lists
open Linked Runs Tokens Histories Function List Nat

inductive Job (α : Type)
  | forEach
  | remove (item : α)

inductive Pc (α : Type)
  | idle
  /-- `List_Push` before `Semaphore_Post`. -/
  | posting
  /-- `List_Pop_Ex` past the semaphore. -/
  | popping
  /-- `List_Pop_Ex` past the lock, with the node it took. -/
  | taken (node : ℕ)
  /-- `List_ForEach` past the check of the head. -/
  | entering (job : Job α)
  /-- `List_ForEach` with the read lock, before the node `cur`. -/
  | marking (job : Job α) (cur : Option ℕ) (del : Bool)
  /-- `List_ForEach` between its two sections. -/
  | pruning

def Pc.reading {α : Type} : Pc α → Bool
  | .marking .. => true
  | _ => false

structure Shared (n : ℕ) (α : Type) where
  world : World α
  pcs : Fin n → Pc α

inductive Event (n : ℕ) (α : Type)
  | pushed (t : Fin n) (node : ℕ) (item : α)
  | popped (t : Fin n) (node : ℕ) (item : α)
  | returned (t : Fin n) (node : ℕ) (item : α)
  | visited (t : Fin n) (node : ℕ) (item : α)
  | destroyed (t : Fin n) (node : ℕ) (item : α)
  | freed (t : Fin n) (node : ℕ)

inductive Label (n : ℕ) (α : Type)
  | push (t : Fin n) (item : α) (allocOk : Bool)
  | post (t : Fin n)
  | wait (t : Fin n)
  | pop (t : Fin n)
  | finishPop (t : Fin n)
  | check (t : Fin n) (job : Job α)
  | enter (t : Fin n)
  /-- The code is what the callback of `List_ForEach` returns. -/
  | visit (t : Fin n) (code : EachCode)
  | leave (t : Fin n)
  | prune (t : Fin n)

section Steps

variable {n : ℕ} {α : Type}

def Shared.goto (s : Shared n α) (t : Fin n) (pc : Pc α) : Shared n α := { s with pcs := Function.update s.pcs t pc }

def Shared.Unread (s : Shared n α) : Prop := ∀ u, (s.pcs u).reading = false

instance (s : Shared n α) : Decidable s.Unread := inferInstanceAs (Decidable (∀ u, (s.pcs u).reading = false))

def pushSection (item : α) (w : World α) : Bool × World α :=
  let node := w.fresh
  let w := newNode item w
  if 0 < (w.lists 0).limit ∧ (w.lists 0).limit ≤ (w.lists 0).length then (false, w)
  else
    let w := pushNode 0 node w
    (true, w.setLength 0 ((w.lists 0).length + 1))

/-- What the callback returns for an item. -/
def Job.code [DecidableEq α] (cmp : Option (α → α → Bool)) (code : EachCode) (x : α) : Job α → EachCode
  | .forEach => code
  | .remove item => if x = item || (cmp.map fun cmp => cmp x item).getD false then .remove else .ok

def visitNode [DecidableEq α] (t : Fin n) (code : EachCode) (job : Job α) (node : ℕ) (del : Bool) (s : Shared n α) :
    List (Event n α) × Shared n α :=
  let x := (s.world.nodes node).item
  let next := (s.world.nodes node).next
  ([.visited t node x],
    match job.code (s.world.lists 0).cmp code x with
    | .error | .end => s.goto t (.marking job none del)
    | .remove => { s with world := s.world.mark node }.goto t (.marking job next true)
    | .ok => s.goto t (.marking job next del))

/-- One step of one thread; a thread that is not at the step's place, or waits for a lock, does nothing. -/
def step [DecidableEq α] (label : Label n α) (s : Shared n α) : Except Fault (List (Event n α) × Shared n α) :=
  match label with
  | .push t item allocOk =>
    match s.pcs t with
    | .idle =>
      if allocOk = true ∧ s.Unread then
        match pushSection item s.world with
        | (true, w) => .ok ([.pushed t s.world.fresh item], { s with world := w }.goto t .posting)
        | (false, w) => .ok ([.freed t s.world.fresh], { s with world := w })
      else .ok ([], s)
    | _ => .ok ([], s)
  | .post t =>
    match s.pcs t with
    | .posting => .ok ([], { s with world := s.world.setSem 0 ((s.world.lists 0).sem.map semPost) }.goto t .idle)
    | _ => .ok ([], s)
  | .wait t =>
    match s.pcs t with
    | .idle =>
      match (s.world.lists 0).sem with
      | none => .ok ([], s.goto t .popping)
      | some 0 => .ok ([], s)
      | some (k + 1) => .ok ([], { s with world := s.world.setSem 0 (some k) }.goto t .popping)
    | _ => .ok ([], s)
  | .pop t =>
    match s.pcs t with
    | .popping =>
      if s.Unread then do
        let (node, w) ← doPop 0 s.world
        match node with
        | none => return ([], { s with world := w }.goto t .idle)
        | some node => return ([.popped t node (w.nodes node).item], { s with world := w }.goto t (.taken node))
      else .ok ([], s)
    | _ => .ok ([], s)
  | .finishPop t =>
    match s.pcs t with
    | .taken node => .ok ([.returned t node (s.world.nodes node).item, .freed t node], s.goto t .idle)
    | _ => .ok ([], s)
  | .check t job =>
    match s.pcs t with
    | .idle => .ok ([], if (s.world.lists 0).head = none then s else s.goto t (.entering job))
    | _ => .ok ([], s)
  | .enter t =>
    match s.pcs t with
    | .entering job => .ok ([], s.goto t (.marking job (s.world.lists 0).head false))
    | _ => .ok ([], s)
  | .visit t code =>
    match s.pcs t with
    | .marking job (some node) del => .ok (visitNode t code job node del s)
    | _ => .ok ([], s)
  | .leave t =>
    match s.pcs t with
    | .marking _ none del => .ok ([], s.goto t (if del then .pruning else .idle))
    | _ => .ok ([], s)
  | .prune t =>
    match s.pcs t with
    | .pruning =>
      if s.Unread then do
        let (freed, w) ← pruneNodes 0 s.world.fresh (s.world.lists 0).head s.world
        return (freed.flatMap fun node => [.destroyed t node (w.nodes node).item, .freed t node],
          { s with world := w }.goto t .idle)
      else .ok ([], s)
    | _ => .ok ([], s)

/-! ### What is kept -/

def Event.enters : Event n α → Option ℕ
  | .pushed _ node _ => some node
  | _ => none

def Event.leaves : Event n α → Option ℕ
  | .popped _ node _ | .destroyed _ node _ => some node
  | _ => none

def Warranted (before : List (Event n α)) : Event n α → Prop
  | .pushed _ node _ => ∀ u x, .pushed u node x ∉ before
  | .popped _ node x | .destroyed _ node x => ∃ u, .pushed u node x ∈ before
  | .returned t node x => .popped t node x ∈ before ∧ ∀ u y, .returned u node y ∉ before
  | .visited _ node x =>
    (∃ u, .pushed u node x ∈ before) ∧ (∀ u y, .destroyed u node y ∉ before) ∧ ∀ u, .freed u node ∉ before
  | .freed _ _ => True

structure Ledger (es : List (Event n α)) (live : List ℕ) (fresh : ℕ) (item : ℕ → α) : Prop where
  account : Account Event.enters Event.leaves es live
  warranted : Justified Warranted es
  kept : ∀ u node x, .pushed u node x ∈ es → node ∈ live ∨ ∃ e ∈ es, Event.leaves e = some node
  items : ∀ u node x, .pushed u node x ∈ es → node < fresh ∧ item node = x
  freed : ∀ u node, .freed u node ∈ es → node < fresh ∧ node ∉ live

end Steps

namespace Ledger

variable {n : ℕ} {α : Type} {es : List (Event n α)} {live live' : List ℕ} {fresh fresh' : ℕ} {item item' : ℕ → α}
variable {t : Fin n} {node : ℕ} {x : α}

section
variable (h : Ledger es live fresh item)
include h

theorem perm (hperm : live.Perm live') : Ledger es live' fresh item :=
  ⟨h.account.perm hperm, h.warranted, fun u node x hp => (h.kept u node x hp).imp_left hperm.mem_iff.mp, h.items,
    fun u node hf => ⟨(h.freed u node hf).1, fun hmem => (h.freed u node hf).2 (hperm.mem_iff.mpr hmem)⟩⟩

theorem grow (hfresh : fresh ≤ fresh') (hitem : ∀ m < fresh, item' m = item m) :
    Ledger es live fresh' item' :=
  ⟨h.account, h.warranted, h.kept, fun u node x hp =>
      ⟨(h.items u node x hp).1.trans_le hfresh, (hitem node (h.items u node x hp).1).trans (h.items u node x hp).2⟩,
    fun u node hf => ⟨(h.freed u node hf).1.trans_le hfresh, (h.freed u node hf).2⟩⟩

theorem pushed_of_mem (hmem : node ∈ live) :
    node < fresh ∧ ∃ u, .pushed u node (item node) ∈ es := by
  obtain ⟨e, he, henters⟩ := h.account.issued node hmem
  cases e with
  | pushed u m x =>
    obtain rfl := Option.some.inj henters
    obtain ⟨hlt, rfl⟩ := h.items u m x he
    exact ⟨hlt, u, he⟩
  | popped | returned | visited | destroyed | freed => exact nomatch henters

theorem lt_of_popped (hpop : .popped t node x ∈ es) : node < fresh := by
  obtain ⟨before, hsub, u, hpush⟩ := h.warranted.of_mem hpop
  exact (h.items u node x (hsub hpush)).1

theorem other (hleaves : e.leaves = none) (hwarrant : Warranted es e)
    (hpush : ∀ u m y, e ≠ .pushed u m y) (hfree : ∀ u m, e = .freed u m → m < fresh ∧ m ∉ live) :
    Ledger (es ++ [e]) live fresh item := by
  refine ⟨h.account.other hleaves, h.warranted.snoc hwarrant, fun u m y hp => ?_, fun u m y hp => ?_, fun u m hf => ?_⟩
  · obtain hp : .pushed u m y ∈ es := by simpa [(hpush u m y).symm] using hp
    refine (h.kept u m y hp).imp_right fun ⟨e', he', hl⟩ => ⟨e', mem_append_left _ he', hl⟩
  · obtain hp : .pushed u m y ∈ es := by simpa [(hpush u m y).symm] using hp
    exact h.items u m y hp
  · rcases mem_append.mp hf with hf | hf
    · exact h.freed u m hf
    · exact hfree u m (mem_singleton.mp hf).symm

end

theorem leave (h : Ledger es (node :: live) fresh item) (hleaves : e.leaves = some node)
    (hwarrant : Warranted es e) : Ledger (es ++ [e]) live fresh item := by
  have hpush : ∀ u m y, e ≠ .pushed u m y := by
    rintro u m y rfl
    exact nomatch hleaves
  have hfree : ∀ u m, e ≠ .freed u m := by
    rintro u m rfl
    exact nomatch hleaves
  refine ⟨h.account.spend_token hleaves, h.warranted.snoc hwarrant, fun u m y hp => ?_, fun u m y hp => ?_,
    fun u m hf => ?_⟩
  · obtain hp : .pushed u m y ∈ es := by simpa [(hpush u m y).symm] using hp
    rcases h.kept u m y hp with hmem | ⟨e', he', hl⟩
    · rcases mem_cons.mp hmem with rfl | hmem
      · exact .inr ⟨e, by simp, hleaves⟩
      · exact .inl hmem
    · exact .inr ⟨e', mem_append_left _ he', hl⟩
  · obtain hp : .pushed u m y ∈ es := by simpa [(hpush u m y).symm] using hp
    exact h.items u m y hp
  · obtain hf : .freed u m ∈ es := by simpa [(hfree u m).symm] using hf
    exact ⟨(h.freed u m hf).1, fun hmem => (h.freed u m hf).2 (mem_cons_of_mem _ hmem)⟩

theorem push (h : Ledger es live fresh item) (hitem : item' fresh = x) (hold : ∀ m < fresh, item' m = item m) :
    Ledger (es ++ [.pushed t fresh x]) (fresh :: live) (fresh + 1) item' := by
  have hgrown := h.grow (le_succ fresh) hold
  have hnew : ∀ u y, .pushed u fresh y ∉ es := fun u y hmem => lt_irrefl _ (h.items u fresh y hmem).1
  have hfresh : ∀ e ∈ es, Event.enters e ≠ some fresh := by
    intro e he henters
    cases e with
    | pushed u m y =>
      obtain rfl := Option.some.inj henters
      exact hnew u y he
    | popped | returned | visited | destroyed | freed => exact nomatch henters
  refine ⟨h.account.issue_token rfl rfl hfresh, h.warranted.snoc hnew, fun u m y hp => ?_, fun u m y hp => ?_,
    fun u m hf => ?_⟩
  · rcases mem_append.mp hp with hp | hp
    · rcases h.kept u m y hp with hmem | ⟨e', he', hl⟩
      · exact .inl (mem_cons_of_mem _ hmem)
      · exact .inr ⟨e', mem_append_left _ he', hl⟩
    · obtain ⟨-, rfl, -⟩ : u = t ∧ m = fresh ∧ y = x := by simpa using hp
      exact .inl mem_cons_self
  · rcases mem_append.mp hp with hp | hp
    · exact hgrown.items u m y hp
    · obtain ⟨-, rfl, rfl⟩ : u = t ∧ m = fresh ∧ y = x := by simpa using hp
      exact ⟨lt_succ_self m, hitem⟩
  · have hbefore : .freed u m ∈ es := by simpa using hf
    refine ⟨(hgrown.freed u m hbefore).1, fun hmem => ?_⟩
    rcases mem_cons.mp hmem with rfl | hmem
    · exact lt_irrefl _ (h.freed u m hbefore).1
    · exact (h.freed u m hbefore).2 hmem

theorem refuse (h : Ledger es live fresh item) (hlive : ∀ m ∈ live, m < fresh) (hold : ∀ m < fresh, item' m = item m) :
    Ledger (es ++ [.freed t fresh]) live (fresh + 1) item' := by
  refine (h.grow (le_succ fresh) hold).other rfl trivial nofun fun u m he => ?_
  obtain ⟨-, rfl⟩ : t = u ∧ fresh = m := by simpa using he
  exact ⟨lt_succ_self _, fun hmem => lt_irrefl _ (hlive _ hmem)⟩

theorem pop (h : Ledger es (node :: live) fresh item) : Ledger (es ++ [.popped t node (item node)]) live fresh item :=
  h.leave rfl (h.pushed_of_mem mem_cons_self).2

theorem destroy (h : Ledger es (node :: live) fresh item) :
    Ledger (es ++ [.destroyed t node (item node), .freed t node]) live fresh item := by
  obtain ⟨hlt, hpushed⟩ := h.pushed_of_mem mem_cons_self
  have hleft : Ledger (es ++ [.destroyed t node (item node)]) live fresh item := h.leave rfl hpushed
  have hout : node ∉ live := (nodup_cons.mp h.account.nodup).1
  rw [append_cons]
  refine hleft.other rfl trivial nofun fun u m he => ?_
  obtain ⟨-, rfl⟩ : t = u ∧ node = m := by simpa using he
  exact ⟨hlt, hout⟩

theorem visit (h : Ledger es live fresh item) (hmem : node ∈ live) :
    Ledger (es ++ [.visited t node (item node)]) live fresh item := by
  refine h.other rfl ⟨(h.pushed_of_mem hmem).2, fun u y hd => ?_, fun u hf => ?_⟩ nofun nofun
  · exact h.account.unspent node hmem _ hd rfl
  · exact (h.freed u node hf).2 hmem

theorem finish (h : Ledger es live fresh item) (hpop : .popped t node (item node) ∈ es)
    (hret : ∀ u y, .returned u node y ∉ es) :
    Ledger (es ++ [.returned t node (item node), .freed t node]) live fresh item := by
  have hreturned : Ledger (es ++ [.returned t node (item node)]) live fresh item :=
    h.other rfl ⟨hpop, hret⟩ nofun nofun
  rw [append_cons]
  refine hreturned.other rfl trivial nofun fun u m he => ?_
  obtain ⟨-, rfl⟩ : t = u ∧ node = m := by simpa using he
  exact ⟨h.lt_of_popped hpop, fun hmem => h.account.unspent node hmem _ hpop rfl⟩

theorem destroyAll (h : Ledger es (nodes ++ live) fresh item) :
    Ledger (es ++ nodes.flatMap fun node => [.destroyed t node (item node), .freed t node]) live fresh item := by
  induction nodes generalizing es with
  | nil => simpa using h
  | cons node nodes ih => simpa using ih (h.destroy)

end Ledger

/-! ### Steps -/

section Sections

variable {α : Type} {w : World α} {ls : ℕ → List ℕ}

theorem Rep.next_mem (h : Rep w ls) (hmem : node ∈ ls l) (hnext : (w.nodes node).next = some m) :
    m ∈ ls l := by
  obtain ⟨as, bs, hls⟩ := append_of_mem hmem
  have hneighbours : (w.nodes node).next = bs.head? := (h.threads.neighbours hls).2
  have hm : m ∈ bs := mem_of_head? (hneighbours.symm.trans hnext)
  rw [hls]
  exact mem_append_right _ (mem_cons_of_mem _ hm)

theorem pushSection_spec (h : Rep w ls) (item : α) :
    ∃ ok w', pushSection item w = (ok, w') ∧ w'.fresh = w.fresh + 1 ∧ (w'.nodes w.fresh).item = item ∧
      (∀ m < w.fresh, (w'.nodes m).item = (w.nodes m).item) ∧
      ((ok = false ∧ Rep w' ls) ∨
        ok ∧ ∃ xs, (w.fresh :: ls 0).Perm xs ∧ Rep w' (Function.update ls 0 xs)) := by
  have hnode : (newNode item w).nodes w.fresh = ⟨none, none, item, false⟩ := update_self ..
  have hold : ∀ m < w.fresh, ((newNode item w).nodes m).item = (w.nodes m).item :=
    fun m hm => by rw [newNode_of_lt w item hm]
  unfold pushSection
  dsimp only
  split_ifs with hfull
  · exact ⟨false, _, rfl, rfl, by rw [hnode], hold, .inl ⟨rfl, h.newNode item⟩⟩
  · have hout : ∀ m, w.fresh ∉ ls m := fun m hm => lt_irrefl _ (h.fresh m _ hm)
    have hk := pushNode_keeps 0 w.fresh (newNode item w)
    have ht := pushNode_threads (h.newNode item) hout (by rw [hnode]) (by rw [hnode]) 0
    have hperm : (w.fresh :: ls 0).Perm
        (if ((newNode item w).lists 0).mode = .stack then w.fresh :: ls 0 else ls 0 ++ [w.fresh]) := by
      split_ifs
      · exact .refl _
      · exact (perm_append_singleton _ _).symm
    have hrep := (h.newNode item).linked hk (fun m => pushNode_length 0 w.fresh m _) ht hperm.length_eq.symm
      fun m hm => by
        rcases mem_cons.mp (hperm.mem_iff.mpr hm) with rfl | hm
        · exact lt_succ_self _
        · exact lt_succ_of_lt (h.fresh 0 m hm)
    refine ⟨true, _, rfl, hk.fresh, ?_, fun m hm => ?_, .inr ⟨rfl, _, hperm, hrep⟩⟩
    · exact (hk.item w.fresh).trans (by rw [hnode])
    · exact (hk.item m).trans (hold m hm)

theorem doPop_section (h : Rep w ls) :
    ∃ node w', doPop 0 w = .ok (node, w') ∧ Keeps w w' ∧
      ((node = none ∧ Rep w' ls) ∨
        ∃ m rest, node = some m ∧ (ls 0).Perm (m :: rest) ∧ Rep w' (Function.update ls 0 rest)) := by
  obtain ⟨w', hpop, hrep, hk⟩ := doPop_spec h 0
  refine ⟨_, w', hpop, hk, ?_⟩
  by_cases hnil : ls 0 = []
  · have hsame : update ls 0 [] = ls := hnil ▸ update_eq_self 0 ls
    simpa [hnil, hsame] using hrep
  · refine .inr ?_
    split_ifs at hrep ⊢ with hm
    · obtain ⟨m, rest, hls⟩ := exists_cons_of_ne_nil hnil
      rw [hls] at hrep ⊢
      exact ⟨m, rest, rfl, .refl _, hrep⟩
    · rcases eq_nil_or_concat (ls 0) with he | ⟨rest, m, hls⟩
      · exact absurd he hnil
      · rw [concat_eq_append] at hls
        rw [hls, dropLast_concat] at hrep
        rw [hls, getLast?_concat]
        exact ⟨m, rest, rfl, perm_append_singleton _ _, hrep⟩

end Sections

structure Inv {n : ℕ} {α : Type} (es : List (Event n α)) (s : Shared n α) (ls : ℕ → List ℕ) : Prop where
  rep : Rep s.world ls
  ledger : Ledger es (ls 0) s.world.fresh fun m => (s.world.nodes m).item
  /-- A reader stands at a node of the list. -/
  cursors : ∀ u job node del, s.pcs u = .marking job (some node) del → node ∈ ls 0
  /-- A node that was taken has not been returned yet. -/
  taken : ∀ u node, s.pcs u = .taken node →
    .popped u node (s.world.nodes node).item ∈ es ∧ ∀ v y, .returned v node y ∉ es

section Invariant

variable {n : ℕ} {α : Type} {es es' : List (Event n α)} {s : Shared n α} {ls ls' : ℕ → List ℕ} {t : Fin n}
variable {w' : World α} {pc : Pc α}

theorem Inv.move (h : Inv es s ls) (hrep : Rep w' ls')
    (hledger : Ledger (es ++ es') (ls' 0) w'.fresh fun m => (w'.nodes m).item)
    (hitem : ∀ m < s.world.fresh, (w'.nodes m).item = (s.world.nodes m).item)
    (hreaders : ls' 0 = ls 0 ∨ s.Unread)
    (hreturned : ∀ u node, s.pcs u = .taken node → u ≠ t → ∀ v y, .returned v node y ∉ es')
    (hcursor : ∀ job node del, pc = .marking job (some node) del → node ∈ ls' 0)
    (htaken : ∀ node, pc = .taken node →
      .popped t node (w'.nodes node).item ∈ es ++ es' ∧ ∀ v y, .returned v node y ∉ es ++ es') :
    Inv (es ++ es') ({ s with world := w' }.goto t pc) ls' := by
  refine ⟨hrep, hledger, fun u job node del hu => ?_, fun u node hu => ?_⟩
  · by_cases hut : u = t
    · subst hut
      exact hcursor job node del (by simpa [Shared.goto] using hu)
    · have hold : s.pcs u = .marking job (some node) del := by simpa [Shared.goto, hut] using hu
      rcases hreaders with hsame | hunread
      · rw [hsame]
        exact h.cursors u job node del hold
      · have hread := hunread u
        rw [hold] at hread
        exact nomatch hread
  · by_cases hut : u = t
    · subst hut
      exact htaken node (by simpa [Shared.goto] using hu)
    · have hold : s.pcs u = .taken node := by simpa [Shared.goto, hut] using hu
      obtain ⟨hpop, hret⟩ := h.taken u node hold
      refine ⟨?_, fun v y hmem => ?_⟩
      · have hsame : (w'.nodes node).item = (s.world.nodes node).item := hitem node (h.ledger.lt_of_popped hpop)
        simp only [Shared.goto, hsame]
        exact mem_append_left _ hpop
      · rcases mem_append.mp hmem with hmem | hmem
        · exact hret v y hmem
        · exact hreturned u node hold hut v y hmem

theorem Inv.quiet (h : Inv es s ls) (hrep : Rep w' ls) (hfresh : w'.fresh = s.world.fresh)
    (hitem : ∀ m, (w'.nodes m).item = (s.world.nodes m).item)
    (hcursor : ∀ job node del, pc = .marking job (some node) del → node ∈ ls 0) (htaken : ∀ node, pc ≠ .taken node) :
    Inv (es ++ []) ({ s with world := w' }.goto t pc) ls := by
  refine h.move hrep ?_ (fun m _ => hitem m) (.inl rfl) (fun _ _ _ _ _ _ => not_mem_nil) hcursor
    fun node hnode => absurd hnode (htaken node)
  rw [append_nil]
  exact h.ledger.grow hfresh.ge fun m _ => hitem m

variable [DecidableEq α]

def Advances (es : List (Event n α)) (label : Label n α) (s : Shared n α) : Prop :=
  ∃ es' s' ls', step label s = .ok (es', s') ∧ Inv (es ++ es') s' ls'

section
variable (h : Inv es s ls)
include h

theorem Inv.idle (hstep : step label s = .ok ([], s)) : Advances es label s :=
  ⟨[], s, ls, hstep, by rwa [append_nil]⟩

variable (t : Fin n)

theorem Inv.push (item : α) (allocOk : Bool) : Advances es (.push t item allocOk) s := by
  cases hpc : s.pcs t with
  | idle =>
    by_cases hgo : allocOk ∧ s.Unread
    · obtain ⟨ok, w', hsection, hfresh, hitem, hold, hcases⟩ := pushSection_spec h.rep item
      rcases hcases with ⟨rfl, hrep⟩ | ⟨rfl, xs, hperm, hrep⟩
      · refine ⟨[.freed t s.world.fresh], { s with world := w' }.goto t .idle, ls, ?_, ?_⟩
        · have hsame : update s.pcs t .idle = s.pcs := by rw [← hpc, update_eq_self]
          simp only [step, hpc, if_pos hgo, hsection, Shared.goto, hsame]
        · refine h.move hrep ?_ hold (.inl rfl) (by simp) nofun nofun
          rw [hfresh]
          exact h.ledger.refuse (fun m hm => h.rep.fresh 0 m hm) hold
      · refine ⟨[.pushed t s.world.fresh item], { s with world := w' }.goto t .posting, update ls 0 xs,
          by simp only [step, hpc, if_pos hgo, hsection], ?_⟩
        refine h.move hrep ?_ hold (.inr hgo.2) (by simp) nofun nofun
        rw [hfresh]
        exact (h.ledger.push hitem hold).perm hperm
    · exact h.idle (by simp only [step, hpc, if_neg hgo])
  | posting | popping | taken | entering | marking | pruning => exact h.idle (by simp only [step, hpc])

theorem Inv.post : Advances es (.post t) s := by
  cases hpc : s.pcs t with
  | posting =>
    exact ⟨[], { s with world := s.world.setSem 0 ((s.world.lists 0).sem.map semPost) }.goto t .idle, ls,
      by simp only [step, hpc], h.quiet (h.rep.setSem 0 _) rfl (fun _ => rfl) (by nofun) (by nofun)⟩
  | idle | popping | taken | entering | marking | pruning => exact h.idle (by simp only [step, hpc])

theorem Inv.wait : Advances es (.wait t) s := by
  cases hpc : s.pcs t with
  | idle =>
    cases hsem : (s.world.lists 0).sem with
    | none =>
      exact ⟨[], s.goto t .popping, ls, by simp only [step, hpc, hsem], h.quiet h.rep rfl (fun _ => rfl) nofun nofun⟩
    | some k =>
      cases k with
      | zero => exact h.idle (by simp only [step, hpc, hsem])
      | succ k =>
        exact ⟨[], { s with world := s.world.setSem 0 (some k) }.goto t .popping, ls, by simp only [step, hpc, hsem],
          h.quiet (h.rep.setSem 0 _) rfl (fun _ => rfl) (by nofun) (by nofun)⟩
  | posting | popping | taken | entering | marking | pruning => exact h.idle (by simp only [step, hpc])

theorem Inv.pop : Advances es (.pop t) s := by
  cases hpc : s.pcs t with
  | popping =>
    by_cases hgo : s.Unread
    · obtain ⟨node, w', hpop, hk, hcases⟩ := doPop_section h.rep
      rcases hcases with ⟨rfl, hrep⟩ | ⟨m, rest, rfl, hperm, hrep⟩
      · refine ⟨[], { s with world := w' }.goto t .idle, ls, ?_,
          h.quiet hrep hk.fresh hk.item (by nofun) (by nofun)⟩
        simp only [step, hpc, if_pos hgo, hpop]
        rfl
      · have hledger := (h.ledger.perm hperm).grow hk.fresh.ge fun m _ => hk.item m
        have hmem : m ∈ ls 0 := hperm.mem_iff.mpr mem_cons_self
        refine ⟨[.popped t m (w'.nodes m).item], { s with world := w' }.goto t (.taken m), update ls 0 rest,
          ?_, ?_⟩
        · simp only [step, hpc, if_pos hgo, hpop]
          rfl
        · refine h.move hrep ?_ (fun m _ => hk.item m) (.inr hgo) (by simp) nofun ?_
          · exact hledger.pop
          · rintro node ⟨rfl⟩
            refine ⟨by simp, fun v y hmem' => ?_⟩
            -- a node that was returned was popped, but this one was still in the list
            have hreturned : .returned v m y ∈ es := by simpa using hmem'
            obtain ⟨before, hsub, hpopped, -⟩ := h.ledger.warranted.of_mem hreturned
            exact h.ledger.account.unspent m hmem _ (hsub hpopped) rfl
    · exact h.idle (by simp only [step, hpc, if_neg hgo])
  | idle | posting | taken | entering | marking | pruning => exact h.idle (by simp only [step, hpc])

theorem Inv.finishPop : Advances es (.finishPop t) s := by
  cases hpc : s.pcs t with
  | taken node =>
    obtain ⟨hpop, hret⟩ := h.taken t node hpc
    refine ⟨[.returned t node (s.world.nodes node).item, .freed t node], s.goto t .idle, ls, by simp only [step, hpc],
      h.move h.rep (h.ledger.finish hpop hret) (fun _ _ => rfl) (.inl rfl) (fun u m hu hut v y hmem => ?_) nofun nofun⟩
    -- another thread would have popped the same node
    obtain ⟨-, rfl, -⟩ : v = t ∧ m = node ∧ y = (s.world.nodes node).item := by simpa using hmem
    have heq := h.ledger.account.sound.unique (h.taken u m hu).1 hpop rfl rfl
    exact hut (by injection heq)
  | idle | posting | popping | entering | marking | pruning => exact h.idle (by simp only [step, hpc])

theorem Inv.check (job : Job α) : Advances es (.check t job) s := by
  cases hpc : s.pcs t with
  | idle =>
    by_cases hhead : (s.world.lists 0).head = none
    · exact h.idle (by simp only [step, hpc, if_pos hhead])
    · exact ⟨[], s.goto t (.entering job), ls, by simp only [step, hpc, if_neg hhead],
        h.quiet h.rep rfl (fun _ => rfl) nofun nofun⟩
  | posting | popping | taken | entering | marking | pruning => exact h.idle (by simp only [step, hpc])

theorem Inv.enter : Advances es (.enter t) s := by
  cases hpc : s.pcs t with
  | entering job =>
    refine ⟨[], s.goto t (.marking job (s.world.lists 0).head false), ls, by simp only [step, hpc],
      h.quiet h.rep rfl (fun _ => rfl) ?_ nofun⟩
    rintro job' node del hmark
    have hhead : (s.world.lists 0).head = some node := by injection hmark
    exact mem_of_head? ((h.rep.threads.first_eq 0).symm.trans hhead)
  | idle | posting | popping | taken | marking | pruning => exact h.idle (by simp only [step, hpc])

theorem Inv.visit (code : EachCode) : Advances es (.visit t code) s := by
  cases hpc : s.pcs t with
  | marking job cur del =>
    cases cur with
    | none => exact h.idle (by simp only [step, hpc])
    | some node =>
      have hmem := h.cursors t job node del hpc
      have hvisited : Ledger (es ++ [.visited t node (s.world.nodes node).item]) (ls 0) s.world.fresh
          fun m => (s.world.nodes m).item := h.ledger.visit hmem
      have hnext (d : Bool) : ∀ job' m del', Pc.marking job (s.world.nodes node).next d = .marking job' (some m) del' →
          m ∈ ls 0 := by
        intro job' m del' heq
        exact h.rep.next_mem hmem (by injection heq)
      refine ⟨[.visited t node (s.world.nodes node).item], (visitNode t code job node del s).2, ls,
        by simp only [step, hpc]; rfl, ?_⟩
      unfold visitNode
      dsimp only
      split
      · exact h.move h.rep hvisited (fun _ _ => rfl) (.inl rfl) (by simp) nofun nofun
      · exact h.move h.rep hvisited (fun _ _ => rfl) (.inl rfl) (by simp) nofun nofun
      · have hm := mark_marks s.world node
        exact h.move (h.rep.marks hm) (hvisited.grow hm.fresh.ge fun m _ => hm.item m) (fun m _ => hm.item m) (.inl rfl)
          (by simp) (hnext true) nofun
      · exact h.move h.rep hvisited (fun _ _ => rfl) (.inl rfl) (by simp) (hnext del) nofun
  | idle | posting | popping | taken | entering | pruning => exact h.idle (by simp only [step, hpc])

theorem Inv.leave : Advances es (.leave t) s := by
  cases hpc : s.pcs t with
  | marking job cur del =>
    cases cur with
    | none =>
      refine ⟨[], s.goto t (if del then .pruning else .idle), ls, by simp only [step, hpc],
        h.quiet h.rep rfl (fun _ => rfl) ?_ ?_⟩
      · cases del <;> exact nofun
      · cases del <;> exact nofun
    | some node => exact h.idle (by simp only [step, hpc])
  | idle | posting | popping | taken | entering | pruning => exact h.idle (by simp only [step, hpc])

theorem Inv.prune : Advances es (.prune t) s := by
  cases hpc : s.pcs t with
  | pruning =>
    by_cases hgo : s.Unread
    · obtain ⟨w', hprune, -, hrep, hk⟩ := pruneNodes_spec h.rep (show ls 0 = [] ++ ls 0 from rfl) (h.rep.length_le_fresh 0)
      have hhead : (s.world.lists 0).head = (ls 0).head? := h.rep.threads.first_eq 0
      have hperm : (ls 0).Perm (marked s.world (ls 0) ++ unmarked s.world (ls 0)) :=
        (filter_append_perm _ _).symm
      have hledger := (h.ledger.perm hperm).grow hk.fresh.ge fun m _ => hk.item m
      refine ⟨(marked s.world (ls 0)).flatMap fun node => [.destroyed t node (w'.nodes node).item, .freed t node],
        { s with world := w' }.goto t .idle, update ls 0 (unmarked s.world (ls 0)), ?_, ?_⟩
      · simp only [step, hpc, if_pos hgo, hhead, hprune]
        rfl
      · refine h.move hrep ?_ (fun m _ => hk.item m) (.inr hgo) (by simp) nofun nofun
        exact hledger.destroyAll
    · exact h.idle (by simp only [step, hpc, if_neg hgo])
  | idle | posting | popping | taken | entering | marking => exact h.idle (by simp only [step, hpc])

theorem Inv.advances (label : Label n α) : Advances es label s := by
  cases label with
  | push t item allocOk => exact h.push t item allocOk
  | post t => exact h.post t
  | wait t => exact h.wait t
  | pop t => exact h.pop t
  | finishPop t => exact h.finishPop t
  | check t job => exact h.check t job
  | enter t => exact h.enter t
  | visit t code => exact h.visit t code
  | leave t => exact h.leave t
  | prune t => exact h.prune t

end

end Invariant

def Shared.start (n : ℕ) {α : Type} (junk : ℕ → Node α) (mode : Mode) (cmp : Option (α → α → Bool)) (limit : ℕ) :
    Shared n α :=
  ⟨initWorld junk (fun _ => mode) (fun _ => cmp) fun _ => limit, fun _ => .idle⟩

/-- However the sections of any number of threads interleave, no step faults; a node leaves the list at most once, by one
pop or one prune, and only after it was pushed; a pop returns the item that was pushed, once; no node is visited after it
was destroyed or freed; no node is lost; and the list is a well-formed sequence between the steps. -/
theorem list_conserved_concurrently {n : ℕ} {α : Type} [DecidableEq α] (junk : ℕ → Node α) (mode : Mode)
    (cmp : Option (α → α → Bool)) (limit : ℕ) (labels : List (Label n α)) :
    ∃ rs s ls, run step labels (Shared.start n junk mode cmp limit) = .ok (rs, s) ∧
      Sound Event.enters Event.leaves rs.flatten ∧ Justified Warranted rs.flatten ∧
      (∀ u node x, .pushed u node x ∈ rs.flatten → node ∈ ls 0 ∨ ∃ e ∈ rs.flatten, Event.leaves e = some node) ∧
      Represents s.world ls := by
  have hstart : ∃ ls, Inv [] (Shared.start n junk mode cmp limit) ls := ⟨fun _ => [],
    (initWorld_refines junk _ _ _).rep, ⟨account_nil, justified_nil, nofun, nofun, nofun⟩, nofun, nofun⟩
  obtain ⟨rs, s, hrun, ls, hinv⟩ := run_events_total (I := fun es s => ∃ ls, Inv es s ls)
    (fun es label s ⟨ls, hinv⟩ => by
      obtain ⟨es', s', ls', hstep, hinv'⟩ := hinv.advances label
      exact ⟨es', s', hstep, ls', hinv'⟩) hstart labels
  rw [nil_append] at hinv
  exact ⟨rs, s, ls, hrun, hinv.ledger.account.sound, hinv.ledger.warranted, hinv.ledger.kept, hinv.rep.represents⟩

end Razorback.Lists
