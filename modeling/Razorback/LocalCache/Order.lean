import Razorback.Base.Recency
import Razorback.LocalCache.Turns

/-! The order of the four lists. An entry comes to the MRU end of T1 when it is
added, of T2 when a lookup finds it, of B1 or B2 when it is demoted; along a run,
each list is therefore in the order of those events. -/

namespace Razorback.LocalCache
open Runs Recency Function List

structure Step where
  before : Cache
  op : Op
  result : CheckResult
  after : Cache

namespace Step

def added (s : Step) : Option ℕ :=
  match s.op with
  | .add .. => (obtainEntry s.before).toOption.map Prod.fst
  | _ => none

def checked (s : Step) : Option ℕ :=
  match s.op, s.result.1 with
  | .check beyond (some key) _ _, .found => (findEntry beyond key s.before).toOption.join
  | _, _ => none

def demotes (s : Step) (src : ListType) (i : ℕ) : Bool :=
  i < s.before.entries && (s.before.entrylist i).listtype == src &&
    (s.after.entrylist i).listtype == ghost src

def enters (s : Step) : ListType → ℕ → Bool
  | .t1, i => s.added == some i
  | .t2, i => s.checked == some i
  | .b1, i => s.demotes .t1 i
  | .b2, i => s.demotes .t2 i
  | .none, _ => false

end Step

/-- The number of the call that added, last checked or demoted the entry `i` of
the list `l`, in a record with the newest call first. -/
def enteredAt (h : List Step) (l : ListType) (i : ℕ) : Option ℕ := lastTime (fun s => s.enters l i) h

/-- A call together with the record it extends. -/
def recorded (t : CacheType) (op : Op) (p : Caches × List Step) :
    Except Fault (CheckResult × Caches × List Step) :=
  (call t op p.1).map fun q => (q.1, q.2, ⟨p.1 t, op, q.1, q.2 t⟩ :: p.2)

structure Turn (s : Step) (ls ls' : Slots) : Prop where
  gains : ∀ l, l ≠ .none → ∃ kept e, kept.Sublist (ls l) ∧ ls' l = kept ++ e.toList ∧
    ∀ i, s.enters l i = true ↔ e = some i
  demotes : ∀ src, Resident src → ∀ i, s.demotes src i = true → (ls src).head? = some i
  reuses : ∀ i, s.added = some i → i < s.before.entries → Reused ls i

section
variable {c c' : Cache} {ls ls₁ ls' : Slots} {l m src : ListType} {d : Option (ListType × ℕ)} {s : Step}
variable {x i : ℕ}

theorem demotes_iff : s.demotes src i ↔ i < s.before.entries ∧
    (s.before.entrylist i).listtype = src ∧ (s.after.entrylist i).listtype = ghost src := by
  simp [Step.demotes, and_assoc]

theorem Resident.ghost_inj (hl : Resident l) (hm : Resident m) (h : ghost l = ghost m) : l = m := by
  rcases hl with rfl | rfl <;> rcases hm with rfl | rfl <;> first | rfl | cases h

theorem Shift.demoted (h : Shift ls d ls') (hsrc : Resident src) (hi : entering d (ghost src) = some i) :
    (ls src).head? = some i := by
  cases h with
  | leave => cases hi
  | @demote ls₀ _ src' y hs hsame hd =>
    by_cases hg : ghost src = ghost src'
    · obtain rfl := hsrc.ghost_inj hd.resident hg
      obtain rfl : y = i := by simpa [entering] using hi
      obtain ⟨ys, hy, _⟩ := hd.moved
      rw [← hsame src hsrc, hy, head?_cons]
    · simp [entering, hg] at hi

theorem demotes_iff_entering (h : Rep s.before ls) (h' : Rep s.after ls')
    (hent : s.before.entries ≤ s.after.entries) (hs : Shift ls d ls₁) (hsrc : Resident src)
    (hghost : ls' (ghost src) = ls₁ (ghost src)) (i : ℕ) :
    s.demotes src i ↔ entering d (ghost src) = some i := by
  have hg := hsrc.ghost_ne_none
  obtain ⟨kept, hsub, hls⟩ := hs.gains (ghost src)
  rw [← hghost] at hls
  rw [demotes_iff]
  constructor
  · rintro ⟨hlt, hb, ha⟩
    have hmem : i ∈ ls src := (h.mem src hsrc.ne_none i).mpr ⟨hlt, hb⟩
    have hmem' : i ∈ ls' (ghost src) := (h'.mem _ hg i).mpr ⟨hlt.trans_le hent, ha⟩
    rw [hls, mem_append] at hmem'
    rcases hmem' with hk | he
    · exact absurd (hsub.subset hk) (h.threads.disjoint src _ (hsrc.ghost_ne hsrc).symm i hmem)
    · simpa using he
  · intro he
    have hmem := (h.mem src hsrc.ne_none i).mp (mem_of_mem_head? (hs.demoted hsrc he))
    have hmem' := (h'.mem _ hg i).mp (by rw [hls, he]; simp)
    exact ⟨hmem.1, hmem.2, hmem'.2⟩

theorem turn_of_shift (h : Rep s.before ls) (hent : s.before.entries ≤ s.after.entries) (hs : Shift ls d ls₁)
    (hm : Resident m) (h' : Rep s.after (Function.update ls₁ m (ls₁ m ++ [x])))
    (henters : ∀ i, s.enters m i ↔ x = i)
    (hother : ∀ l, Resident l → l ≠ m → ∀ i, s.enters l i = false)
    (hreused : ∀ i, s.added = some i → i < s.before.entries → Reused ls i) :
    Turn s ls (Function.update ls₁ m (ls₁ m ++ [x])) := by
  have hdem : ∀ src, Resident src → ∀ i, s.demotes src i ↔ entering d (ghost src) = some i := by
    intro src hsrc i
    refine demotes_iff_entering h h' hent hs hsrc ?_ i
    exact update_of_ne (hm.ghost_ne hsrc).symm _ _
  have hresident : ∀ l, Resident l → ∃ kept e, kept.Sublist (ls l) ∧
      update ls₁ m (ls₁ m ++ [x]) l = kept ++ e.toList ∧ ∀ i, s.enters l i ↔ e = some i := by
    intro l hl
    obtain ⟨kept, hsub, hls⟩ := hs.gains l
    rw [entering_resident hs hl] at hls
    by_cases hlm : l = m
    · subst hlm
      exact ⟨kept, some x, hsub, by simp [hls], by simpa using henters⟩
    · exact ⟨kept, none, hsub, by simp [hlm, hls], by simp [hother l hl hlm]⟩
  have hghost : ∀ src, Resident src → (∀ i, s.enters (ghost src) i = s.demotes src i) →
      ∃ kept e, kept.Sublist (ls (ghost src)) ∧
        update ls₁ m (ls₁ m ++ [x]) (ghost src) = kept ++ e.toList ∧
        ∀ i, s.enters (ghost src) i ↔ e = some i := by
    intro src hsrc he
    obtain ⟨kept, hsub, hls⟩ := hs.gains (ghost src)
    refine ⟨kept, entering d (ghost src), hsub, ?_, fun i => by rw [he i, hdem src hsrc i]⟩
    rw [update_of_ne (hm.ghost_ne hsrc).symm, hls]
  refine ⟨fun l hl => ?_, fun src hsrc i hi => hs.demoted hsrc ((hdem src hsrc i).mp hi), hreused⟩
  cases l with
  | t1 => exact hresident .t1 (.inl rfl)
  | t2 => exact hresident .t2 (.inr rfl)
  | b1 => exact hghost .t1 (.inl rfl) fun _ => rfl
  | b2 => exact hghost .t2 (.inr rfl) fun _ => rfl
  | none => exact absurd rfl hl

theorem turn_of_same (ls : Slots)
    (hsame : ∀ i, (s.after.entrylist i).listtype = (s.before.entrylist i).listtype)
    (hadded : s.added = none) (hchecked : s.checked = none) : Turn s ls ls := by
  have hdem : ∀ src, Resident src → ∀ i, s.demotes src i ≠ true := by
    intro src hsrc i hi
    obtain ⟨_, hb, ha⟩ := demotes_iff.mp hi
    exact hsrc.ghost_ne hsrc (hb.symm.trans ((hsame i).symm.trans ha))
  refine ⟨fun l hl => ⟨ls l, none, .refl _, by simp, fun i => ?_⟩,
    fun src hsrc i hi => absurd hi (hdem src hsrc i), fun i hi => by simp [hadded] at hi⟩
  cases l with
  | t1 => simp [Step.enters, hadded]
  | t2 => simp [Step.enters, hchecked]
  | b1 => simpa [Step.enters] using hdem .t1 (.inl rfl) i
  | b2 => simpa [Step.enters] using hdem .t2 (.inr rfl) i
  | none => exact absurd rfl hl

variable {r : CheckResult}

theorem callIn_turn (h : Rep c ls) (hc : callIn op c = .ok (r, c')) :
    ∃ ls', Rep c' ls' ∧ Turn ⟨c, op, r, c'⟩ ls ls' := by
  cases callIn_called hc with
  | add ha =>
    obtain ⟨x, c₁, d, ls₁, ho, hs, hr, hreused⟩ := addIn_lists h ha
    obtain ⟨_, _, _, _, _, hent⟩ := addIn_inv ha
    refine ⟨_, hr, turn_of_shift h ?_ hs (.inl rfl) hr ?_ ?_ ?_⟩
    · show c.entries ≤ c'.entries
      omega
    · simp [Step.enters, Step.added, ho, Except.toOption]
    · intro l hl hne i
      rcases hl with rfl | rfl
      · exact absurd rfl hne
      · simp [Step.enters, Step.checked]
    · intro i hi hlt
      obtain rfl : x = i := by simpa [Step.added, ho, Except.toOption] using hi
      exact hreused hlt
  | hit hf hl hh =>
    obtain ⟨d, ls₁, hs, hr⟩ := hitEntry_lists h (findEntry_lt hf) hl hh
    refine ⟨_, hr, turn_of_shift h (hitEntry_keeps hh).entries.ge hs (.inr rfl) hr ?_ ?_ ?_⟩
    · simp [Step.enters, Step.checked, hf, Except.toOption]
    · intro l hl' hne i
      rcases hl' with rfl | rfl
      · rfl
      · exact absurd rfl hne
    · intro i hi
      cases hi
  | @updated _ _ sf ent x hf =>
    have hkeep : KeepsPlace fun e => { e with sfflags := sf, entflags := ent } := fun _ => ⟨rfl, rfl, rfl⟩
    exact ⟨ls, h.modify x hkeep, turn_of_same ls (fun i => (hkeep.modify c x i).2.2) rfl rfl⟩
  | @unchecked _ key _ _ r hr =>
    refine ⟨ls, h, turn_of_same ls (fun _ => rfl) rfl ?_⟩
    cases key <;> cases r <;> first | rfl | exact absurd rfl hr
  | unmatched hr => exact ⟨ls, h, turn_of_same ls (fun _ => rfl) rfl rfl⟩

/-- Each list stands in the order of the events that entered its members. -/
def Ordered (h : List Step) (c : Cache) : Prop :=
  ∀ l, l ≠ .none → InOrder (enteredAt h l) (walk c l)

/-- Every demoted entry was the oldest of T1 or T2, and every entry that had to
give up its slot the oldest of T1, B1 or B2. -/
def EvictsOldest (h : List Step) : Prop :=
  ∀ newer s older, h = newer ++ s :: older →
    (∀ src, Resident src → ∀ i, s.demotes src i = true →
      Oldest (enteredAt older src) (walk s.before src) i) ∧
    ∀ i, s.added = some i → i < s.before.entries → ∃ l, (l = .t1 ∨ l = .b1 ∨ l = .b2) ∧
      Oldest (enteredAt older l) (walk s.before l) i

structure InTime (h : List Step) (c : Cache) : Prop where
  ordered : ∃ ls, Rep c ls ∧ ∀ l, l ≠ .none → InOrder (enteredAt h l) (ls l)
  evicts : EvictsOldest h

theorem Turn.inOrder (ht : Turn s ls ls') (h' : Rep s.after ls')
    (ho : ∀ l, l ≠ .none → InOrder (enteredAt h l) (ls l)) (hl : l ≠ .none) :
    InOrder (enteredAt (s :: h) l) (ls' l) := by
  obtain ⟨kept, e, hsub, hls, he⟩ := ht.gains l hl
  have hnd := h'.threads.nodup l
  rw [hls] at hnd ⊢
  have hold : InOrder (fun i => lastTime (fun s : Step => s.enters l i) h) (ls l) := ho l hl
  refine hold.enter hsub he fun i hi hei => ?_
  exact (nodup_append.mp hnd).2.2 i hi i (by simp [hei]) rfl

theorem oldest_of_head (h : InOrder time xs) (hx : xs.head? = some x) : Oldest time xs x := by
  obtain ⟨ys, rfl⟩ := head?_eq_some_iff.mp hx
  exact h.oldest

theorem InTime.step (hi : InTime h c)
    (hc : callIn op c = .ok (r, c')) : InTime (⟨c, op, r, c'⟩ :: h) c' := by
  obtain ⟨ls, hr, ho⟩ := hi.ordered
  obtain ⟨ls', hr', ht⟩ := callIn_turn hr hc
  refine ⟨⟨ls', hr', fun l hl => ht.inOrder hr' ho hl⟩, fun newer s older he => ?_⟩
  cases newer with
  | cons s' newer => exact hi.evicts newer s older (cons.inj he).2
  | nil =>
    obtain ⟨rfl, rfl⟩ := cons.inj he
    constructor
    · intro src hsrc i hd
      rw [hr.walk_eq hsrc.ne_none]
      exact oldest_of_head (ho src hsrc.ne_none) (ht.demotes src hsrc i hd)
    · intro i ha hlt
      obtain ⟨l, hl, hhead⟩ := ht.reuses i ha hlt
      have hln : l ≠ .none := by rcases hl with rfl | rfl | rfl <;> decide
      refine ⟨l, hl, ?_⟩
      rw [hr.walk_eq hln]
      exact oldest_of_head (ho l hln) hhead

theorem InTime.init (junk : ℕ → Entry) (n : ℕ) : InTime [] (initCache junk n) := by
  refine ⟨⟨fun _ => [], .init junk n, fun l _ => inOrder_nil⟩, fun newer s older he => ?_⟩
  simp at he

end

/-- Adding orders T1, checking T2 and demotion B1 and B2, in every run on a cache
of any size; below `2 ^ 31` slots every run comes to its end. -/
theorem lists_in_order (junk : CacheType → ℕ → Entry) (badLimit goodLimit : UInt32) (t : CacheType)
    (ht : t ≠ .all) (hn : 1 ≤ (initcache junk badLimit goodLimit t).size) (ops : List Op) :
    ((initcache junk badLimit goodLimit t).size < 2 ^ 31 → ∃ rs cs h,
      run (recorded t) ops (initcache junk badLimit goodLimit, []) = .ok (rs, cs, h)) ∧
    ∀ rs cs h, run (recorded t) ops (initcache junk badLimit goodLimit, []) = .ok (rs, cs, h) →
      Ordered h (cs t) ∧ EvictsOldest h := by
  have hinit := initcache_eq junk badLimit goodLimit t
  set n := (initcache junk badLimit goodLimit t).size
  constructor
  · intro hn'
    have hcall : ∀ op (p : Caches × List Step), (∃ ls, Arc n (p.1 t) ls) →
        ∃ r p', recorded t op p = .ok (r, p') ∧ ∃ ls, Arc n (p'.1 t) ls := by
      intro op p hp
      obtain ⟨r, c', hc, harc⟩ := callIn_arc hn hn' op (p.1 t) hp
      refine ⟨r, (update p.1 t c', _), by rw [recorded, call_eq ht, hc]; rfl, ?_⟩
      simpa only [update_self] using harc
    have hstart : ∃ ls, Arc n ((initcache junk badLimit goodLimit, ([] : List Step)).1 t) ls :=
      ⟨_, hinit ▸ Arc.init (junk t) hn⟩
    obtain ⟨rs, p, hr, _⟩ := run_total hcall hstart ops
    exact ⟨rs, p.1, p.2, hr⟩
  · intro rs cs h hr
    have hstep : ∀ op (p : Caches × List Step) r p', InTime p.2 (p.1 t) →
        recorded t op p = .ok (r, p') → InTime p'.2 (p'.1 t) := by
      intro op p r p' hp hc
      rw [recorded, call_eq ht] at hc
      obtain ⟨_, hcall, hq⟩ := map_eq_ok.mp hc
      obtain ⟨q, hin, rfl⟩ := map_eq_ok.mp hcall
      cases hq
      simp only [update_self]
      exact hp.step hin
    have hstart : InTime [] (initcache junk badLimit goodLimit t) := hinit ▸ InTime.init (junk t) n
    obtain ⟨⟨ls, hrep, ho⟩, hev⟩ := run_keeps (I := fun p => InTime p.2 (p.1 t)) hstep hstart hr
    refine ⟨fun l hl => ?_, hev⟩
    rw [hrep.walk_eq hl]
    exact ho l hl

/-- Two insertions, a lookup of the first and a third insertion in a cache of two
slots: the second entry is demoted. -/
theorem lists_in_order_two : ∃ rs cs h,
    run (recorded .goodHash) [.add [1] 0 0, .add [2] 0 0,
      .check (fun _ _ => 0) (some [1]) (some 0) (some 0), .add [3] 0 0]
      (initcache (fun _ _ => blankEntry) 2 2, []) = .ok (rs, cs, h) ∧
    Ordered h (cs .goodHash) ∧ EvictsOldest h := by
  obtain ⟨hex, hall⟩ := lists_in_order (fun _ _ => blankEntry) 2 2 .goodHash (by decide) (by decide)
    [.add [1] 0 0, .add [2] 0 0, .check (fun _ _ => 0) (some [1]) (some 0) (some 0), .add [3] 0 0]
  obtain ⟨rs, cs, h, hr⟩ := hex (by decide)
  exact ⟨rs, cs, h, hr, hall rs cs h hr⟩

end Razorback.LocalCache
