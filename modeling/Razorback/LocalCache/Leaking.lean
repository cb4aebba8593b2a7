import Razorback.LocalCache.Failed

/-! The lists and counters of a cache that entries were removed from. A removal takes an entry out of its list and frees
its key, but the counter of the list still counts it and its slot stays behind. The calls go on from such a state as long
as no list that they purge is empty. -/

namespace Razorback.LocalCache
open Runs Function Dir

def source (target : ℚ) (c : Cache) : ListType := if maxD target 1 ≤ c.listSize .t1 then .t1 else .t2

def Replaceable (target : ℚ) (c : Cache) : Prop := walk c (source target c) ≠ []

def Insertable (c : Cache) : Prop :=
  if (c.listSize .t1 + c.listSize .b1) % 2 ^ 32 = c.size then
    if c.listSize .t1 < c.size then walk c .b1 ≠ [] ∧ Replaceable c.target c else walk c .t1 ≠ []
  else if c.size ≤ c.entries then
    if (2 * c.size) % 2 ^ 32 ≤ c.entries then walk c .b2 ≠ [] ∧ Replaceable c.target c else Replaceable c.target c
  else c.entries < c.size * 2 % 2 ^ 32

def Hittable (x : ℕ) (c : Cache) : Prop :=
  match (c.entrylist x).listtype with
  | .b1 => Replaceable (minD (c.target + maxD ((c.listSize .b2 / c.listSize .b1 : ℕ) : ℚ) 1) c.size) c
  | .b2 => Replaceable (maxD (c.target - maxD ((c.listSize .b1 / c.listSize .b2 : ℕ) : ℚ) 1) 0) c
  | _ => True

def NoFreedKey (beyond : ℕ → ℕ → UInt8) (key : Bytes) (c : Cache) : Prop :=
  ∀ j, Reaches beyond key c j → (c.entrylist j).key ≠ .freed

structure Leaking (lost : ListType → ℕ) (c : Cache) (d : Dir) : Prop where
  shows : Shows c d
  counted : Counted lost 0 d
  live : ∀ i < c.entries, (c.entrylist i).listtype ≠ .none → ∃ bytes, (c.entrylist i).key = .live bytes
  freed : ∀ i < c.entries, (c.entrylist i).listtype = .none → (c.entrylist i).key = .freed

section
variable {c c' : Cache} {d d' : Dir} {lost : ListType → ℕ} {l m : ListType} {x n : ℕ}
  {beyond : ℕ → ℕ → UInt8} {key : Bytes}

theorem Leaking.walk_eq (h : Leaking lost c d) (hl : l ≠ .none) : walk c l = d.lists l := h.shows.rep.walk_eq hl

theorem Leaking.of_keys (h : Leaking lost c d) {lost' : ListType → ℕ} (hs : Shows c' d') (hc : Counted lost' 0 d')
    (hnew : ∀ i < c'.entries, (i < c.entries ∧ (c'.entrylist i).key = (c.entrylist i).key ∧ (d'.Has i ↔ d.Has i)) ∨
      (d'.Has i ∧ ∃ bytes, (c'.entrylist i).key = .live bytes) ∨ ¬d'.Has i ∧ (c'.entrylist i).key = .freed) :
    Leaking lost' c' d' := by
  refine ⟨hs, hc, fun i hi hl => ?_, fun i hi hl => ?_⟩
  · have hin := (hs.has_iff hi).mpr hl
    rcases hnew i hi with ⟨hi', hk, hhas⟩ | ⟨_, hlive⟩ | ⟨hnot, _⟩
    · rw [hk]
      exact h.live i hi' ((h.shows.has_iff hi').mp (hhas.mp hin))
    · exact hlive
    · exact absurd hin hnot
  · have hout : ¬d'.Has i := fun hin => (hs.has_iff hi).mp hin hl
    rcases hnew i hi with ⟨hi', hk, hhas⟩ | ⟨hin, _⟩ | ⟨_, hfreed⟩
    · rw [hk]
      exact h.freed i hi' (not_not.mp fun hl' => hout (hhas.mpr ((h.shows.has_iff hi').mpr hl')))
    · exact absurd hin hout
    · exact hfreed

/-! ### Hits -/

theorem source_mem (target : ℚ) (c : Cache) : Resident (source target c) := by
  unfold source
  split_ifs
  · exact .inl rfl
  · exact .inr rfl

theorem Leaking.replaceable_iff (h : Leaking lost c d) (d' : Dir) (hcount : d'.listSize .t1 = d.listSize .t1)
    (hlists : ∀ l, Resident l → d'.lists l = d.lists l) : Replaceable d'.target c ↔ d'.lists d'.source ≠ [] := by
  have hsource : d'.source = source d'.target c := by
    rw [Dir.source, source, hcount, h.shows.listSize]
  have hres := source_mem d'.target c
  rw [Replaceable, hsource, h.walk_eq hres.ne_none, hlists _ hres]

theorem Dir.replace_nil (h : d.lists d.source = []) : d.replace = .error .purgeEmpty := by
  rw [replace, purge, h]
  rfl

theorem Dir.replace_cons (h : d.lists d.source ≠ []) : ∃ y d', d.replace = .ok (y, d') := by
  obtain ⟨y, ys, hy⟩ := List.exists_cons_of_ne_nil h
  exact ⟨y, (d.take d.source ys).put y (ghost d.source), by rw [replace, purge, hy]; rfl⟩

section
variable (h : Leaking lost c d)
include h

theorem Leaking.revive {g : ListType} (other : ListType) (hg : g = .b1 ∨ g = .b2)
    (move : ℚ → ℚ → ℚ) (hx : x ∈ d.lists g) :
    (Replaceable (move c.target (maxD ((c.listSize other / c.listSize g : ℕ) : ℚ) 1)) c →
      ∃ d', d.revive x g other move = .ok d') ∧
    (¬Replaceable (move c.target (maxD ((c.listSize other / c.listSize g : ℕ) : ℚ) 1)) c →
      d.revive x g other move = .error .purgeEmpty) := by
  have hgn : g ≠ .none := by rcases hg with rfl | rfl <;> decide
  rw [h.shows.target, h.shows.listSize, (h.counted.revive_eq other hgn move hx).1]
  -- neither the counter of T1 nor T1 and T2 themselves change before `replace` looks at them
  have hiff := h.replaceable_iff (take g ((d.lists g).erase x)
      { d with target := move d.target (maxD ((d.listSize other / d.listSize g : ℕ) : ℚ) 1) })
    (update_of_ne (by rcases hg with rfl | rfl <;> decide) _ _) fun l hl =>
    update_of_ne (by rcases hl with rfl | rfl <;> rcases hg with rfl | rfl <;> decide) _ _
  refine ⟨fun hr => ?_, fun hr => ?_⟩
  · obtain ⟨y, d', hd⟩ := replace_cons (hiff.mp hr)
    exact ⟨_, by rw [hd]; rfl⟩
  · rw [replace_nil (not_not.mp fun hne => hr (hiff.mpr hne))]
    rfl

theorem Leaking.hit (hx : x < c.entries) (hl : (c.entrylist x).listtype ≠ .none) :
    (Hittable x c → ∃ c' d', hitEntry x c = .ok c' ∧ Leaking lost c' d') ∧
      (¬Hittable x c → hitEntry x c = .error .purgeEmpty) := by
  have hin := (h.shows.rep.mem _ hl x).mpr ⟨hx, rfl⟩
  have hrel := hit_related h.shows hl hin
  have hdir : (Hittable x c → ∃ d', d.hit x (c.entrylist x).listtype = .ok d') ∧
      (¬Hittable x c → d.hit x (c.entrylist x).listtype = .error .purgeEmpty) := by
    unfold Hittable
    cases ht : (c.entrylist x).listtype with
    | none => exact absurd ht hl
    | t1 | t2 => exact ⟨fun _ => ⟨_, rfl⟩, fun hnot => absurd trivial hnot⟩
    | b1 =>
      rw [ht] at hin
      have hr := h.revive .b2 (.inl rfl) (fun target amount => minD (target + amount) d.size) hin
      rw [← h.shows.size] at hr
      rw [Dir.hit, ← h.shows.size]
      exact hr
    | b2 =>
      rw [ht] at hin
      exact h.revive .b1 (.inr rfl) (fun target amount => maxD (target - amount) 0) hin
  refine ⟨fun hh => ?_, fun hh => hrel.error_right (hdir.2 hh)⟩
  obtain ⟨d', hd⟩ := hdir.1 hh
  obtain ⟨c', hc, hs⟩ := hrel.ok_right hd
  have hk := hitEntry_keeps hc
  exact ⟨c', d', hc, h.of_keys hs (h.counted.hit hl hin hd) fun i hi =>
    .inl ⟨hk.entries ▸ hi, key_eq_of_payload (hk.payload i), (has_hit hl hin hd i).2⟩⟩

/-! ### Insertions -/

theorem Leaking.insertable :
    (Insertable c → ∃ x d', d.obtain = .ok (x, d')) ∧ (¬Insertable c → ∃ e, d.obtain = .error e) := by
  have hpurge : ∀ {l}, l ≠ .none → (walk c l ≠ [] → ∃ x xs, d.purge l = .ok (x, d.take l xs)) ∧
      (¬walk c l ≠ [] → d.purge l = .error .purgeEmpty) := by
    intro l hl
    rw [h.walk_eq hl, purge]
    cases d.lists l with
    | nil => exact ⟨fun hne => absurd rfl hne, fun _ => rfl⟩
    | cons x xs => exact ⟨fun _ => ⟨x, xs, rfl⟩, fun hnil => absurd (List.cons_ne_nil x xs) hnil⟩
  have hshift : ∀ {r x d₁}, r = .ok (x, d₁) → d₁.target = d.target → d₁.listSize .t1 = d.listSize .t1 →
      (∀ l, Resident l → d₁.lists l = d.lists l) → (Replaceable c.target c → ∃ x d', shift r = .ok (x, d')) ∧
        (¬Replaceable c.target c → ∃ e, shift r = .error e) := by
    rintro r x d₁ rfl htarget hcount hlists
    have hiff := h.replaceable_iff d₁ hcount hlists
    rw [htarget, ← h.shows.target] at hiff
    refine ⟨fun hr => ?_, fun hr => ?_⟩
    · obtain ⟨y, d', hd⟩ := replace_cons (hiff.mp hr)
      exact ⟨x, d', by rw [shift, ok_bind]; dsimp only; rw [hd]; rfl⟩
    · refine ⟨.purgeEmpty, ?_⟩
      rw [shift, ok_bind]
      dsimp only
      rw [replace_nil (not_not.mp fun hne => hr (hiff.mpr hne))]
      rfl
  have hghost : ∀ {g}, g = .b1 ∨ g = .b2 →
      (walk c g ≠ [] ∧ Replaceable c.target c → ∃ x d', shift (d.purge g) = .ok (x, d')) ∧
        (¬(walk c g ≠ [] ∧ Replaceable c.target c) → ∃ e, shift (d.purge g) = .error e) := by
    intro g hg
    have hgn : g ≠ .none := by rcases hg with rfl | rfl <;> decide
    by_cases hw : walk c g ≠ []
    · obtain ⟨x, xs, hp⟩ := (hpurge hgn).1 hw
      obtain ⟨hok, herror⟩ := hshift hp rfl (update_of_ne (by rcases hg with rfl | rfl <;> decide) _ _)
        fun l hl => update_of_ne (by rcases hl with rfl | rfl <;> rcases hg with rfl | rfl <;> decide) _ _
      exact ⟨fun hr => hok hr.2, fun hr => herror fun hrep => hr ⟨hw, hrep⟩⟩
    · refine ⟨fun hr => absurd hr.1 hw, fun _ => ⟨.purgeEmpty, ?_⟩⟩
      rw [(hpurge hgn).2 hw]
      rfl
  have hnew : d.entries < d.size * 2 % 2 ^ 32 → d.getNew = .ok (d.entries, { d with entries := d.entries + 1 }) :=
    fun hlt => if_pos hlt
  unfold Insertable obtain
  rw [h.shows.listSize, h.shows.size, h.shows.entries]
  split_ifs with hA hA1 hB hB1
  · exact hghost (.inl rfl)
  · refine ⟨fun hw => ?_, fun hw => ⟨_, (hpurge (by decide)).2 hw⟩⟩
    obtain ⟨x, xs, hp⟩ := (hpurge (by decide)).1 hw
    exact ⟨x, _, hp⟩
  · exact hghost (.inr rfl)
  · exact hshift (hnew (by rw [Nat.mul_comm]; exact not_le.mp hB1)) rfl rfl fun _ _ => rfl
  · exact ⟨fun hlt => ⟨_, _, hnew hlt⟩, fun hlt => ⟨_, if_neg hlt⟩⟩

theorem Leaking.obtain :
    (Insertable c → ∃ x c' d', obtainEntry c = .ok (x, c') ∧ d.obtain = .ok (x, d') ∧ Shows c' d' ∧ d'.Free x ∧
      (c'.entrylist x).key ≠ .freed) ∧ (¬Insertable c → ∃ e, obtainEntry c = .error e) := by
  have hrel := obtain_related h.shows
  refine ⟨fun hins => ?_, fun hnot => ?_⟩
  · obtain ⟨x, d', hd⟩ := h.insertable.1 hins
    obtain ⟨⟨y, c'⟩, hc, hy, hs, hfree⟩ := hrel.ok_right hd
    obtain rfl : y = x := hy
    refine ⟨y, c', d', hc, hd, hs, hfree, ?_⟩
    rcases obtainEntry_cases hc with hk | ⟨_, _, hnew, _⟩
    · have hlt : y < c.entries := hk.entries ▸ (hs.unlisted hfree).1
      rcases (obtained hd).slot with ⟨_, hin⟩ | ⟨_, hx⟩
      · obtain ⟨bytes, hb⟩ := h.live y hlt ((h.shows.has_iff hlt).mp hin)
        rw [key_eq_of_payload (hk.payload y), hb]
        nofun
      · exact absurd hlt (by rw [h.shows.entries, hx]; exact lt_irrefl _)
    · rw [key_eq_of_payload hnew]
      nofun
  · obtain ⟨e, he⟩ := h.insertable.2 hnot
    exact ⟨e, hrel.error_right he⟩

theorem Leaking.add (key : Bytes) (sf ent : UInt32) :
    (Insertable c → ∃ c' d', addIn true key sf ent c = .ok (.success, c') ∧ Leaking lost c' d') ∧
      (¬Insertable c → ∃ e, addIn true key sf ent c = .error e) := by
  refine ⟨fun hins => ?_, fun hnot => ?_⟩
  · obtain ⟨x, c₁, d₁, ho, hd, hs, hfree, hkey⟩ := h.obtain.1 hins
    have ha := addIn_filled ho hkey true key sf ent
    obtain ⟨x', c₂, ho', hx, hother, hent⟩ := addIn_inv ha
    obtain ⟨rfl, -⟩ := ok_inj (ho.symm.trans ho')
    refine ⟨_, _, ha, h.of_keys ((filled_shows hs hfree key sf ent).modify x fun _ => ⟨rfl, rfl, rfl⟩)
      ((h.counted.obtain hd).put (by decide) x) fun i hi => ?_⟩
    rw [has_put (by decide)]
    by_cases hix : i = x
    · subst hix
      exact .inr (.inl ⟨.inr rfl, key, congrArg (fun p => p.2.1) hx⟩)
    · refine .inl ⟨by rcases hent with he | ⟨he, hx⟩ <;> omega, key_eq_of_payload (hother i hix), ?_⟩
      simp [hix, (obtained hd).others i hix]
  · obtain ⟨e, he⟩ := h.obtain.2 hnot
    exact ⟨e, by rw [addIn, he]; rfl⟩

end

/-! ### Lookups and removals -/

theorem findEntry_freed (hne : key ≠ []) (hreach : Reaches beyond key c j)
    (hfreed : (c.entrylist j).key = .freed) : findEntry beyond key c = .error .useAfterFree := by
  obtain ⟨_, _, rfl⟩ := List.exists_cons_of_ne_nil hne
  exact findEntry_error_of_reaches hreach (by rw [hfreed]; rfl)

theorem findEntry_disturbed (hne : key ≠ []) (h : ¬NoFreedKey beyond key c) :
    findEntry beyond key c = .error .useAfterFree := by
  obtain ⟨j, hj⟩ := not_forall.mp h
  obtain ⟨hreach, hfreed⟩ := Classical.not_imp.mp hj
  exact findEntry_freed hne hreach (not_not.mp hfreed)

theorem Leaking.listed_of_not_freed (h : Leaking lost c d) (hx : x < c.entries) (hk : (c.entrylist x).key ≠ .freed) :
    (c.entrylist x).listtype ≠ .none := fun he => hk (h.freed x hx he)

theorem Leaking.find (h : Leaking lost c d) (hkeys : NoFreedKey beyond key c) :
    (findEntry beyond key c = .ok none ∧
      ∀ j < c.entries, memcmpEq (beyond j) (c.entrylist j).key key = .ok false) ∨
    ∃ x, Reaches beyond key c x ∧ SlotMatches beyond key c x ∧ findEntry beyond key c = .ok (some x) ∧
      (c.entrylist x).listtype ≠ .none ∧ ∃ bytes, (c.entrylist x).key = .live bytes := by
  rcases findEntry_cases beyond key c with hnone | ⟨x, hreach, ⟨hm, hf⟩ | ⟨e, hcmp, _⟩⟩
  · exact .inl hnone
  · have hl := h.listed_of_not_freed hreach.1 (hkeys x hreach)
    exact .inr ⟨x, hreach, hm, hf, hl, h.live x hreach.1 hl⟩
  · obtain ⟨bytes, hb⟩ := h.live x hreach.1 (h.listed_of_not_freed hreach.1 (hkeys x hreach))
    rw [hb, memcmpEq_live] at hcmp
    cases hcmp

theorem removeIn_found (hf : findEntry beyond key c = .ok (some x)) (hrm : removeEntry x c = .ok c₁) (hb : (c₁.entrylist x).key = .live bytes) :
    removeIn beyond key c = .ok (.success, c₁.modify x fun e => { e with key := .freed, size := 0 }) := by
  have htwice : (c₁.modify x fun e => { e with key := .freed }).modify x (fun e => { e with size := 0 }) =
      c₁.modify x fun e => { e with key := .freed, size := 0 } := by
    simp [Cache.modify]
  rw [removeIn, hf, ok_bind]
  dsimp only
  rw [hrm, ok_bind, destroyEntry, hb]
  exact congrArg (fun d => Except.ok (LookupResult.success, d)) htwice

structure Removed (x : ℕ) (c c' : Cache) : Prop where
  lists : ∀ l, l ≠ .none → walk c' l = (walk c l).erase x
  counters : c'.listSize = c.listSize
  others : ∀ i, i ≠ x → payload (c'.entrylist i) = payload (c.entrylist i)
  entries : c'.entries = c.entries
  freed : (c'.entrylist x).key = .freed

theorem Leaking.remove (h : Leaking lost c d) (hx : x < c.entries) (hl : (c.entrylist x).listtype ≠ .none)
    (hf : findEntry beyond key c = .ok (some x)) :
    ∃ c' d', removeIn beyond key c = .ok (.success, c') ∧ Removed x c c' ∧
      Leaking (Function.update lost (c.entrylist x).listtype (lost (c.entrylist x).listtype + 1)) c' d' := by
  obtain ⟨bytes, hb⟩ := h.live x hx hl
  set l := (c.entrylist x).listtype with hldef
  have hin : x ∈ d.lists l := (h.shows.rep.mem l hl x).mpr ⟨hx, hldef.symm⟩
  have hlen := length_erase hin
  obtain ⟨c₁, hrm, hs, hfree⟩ := remove_shows h.shows hl hin
  have hk := removeEntry_keeps hrm
  have hs' := hs.modify (f := fun e => { e with key := .freed, size := 0 }) x fun _ => ⟨rfl, rfl, rfl⟩
  have hcounters : c₁.listSize = c.listSize := hs.listSize.trans h.shows.listSize.symm
  refine ⟨_, _, removeIn_found hf hrm ((key_eq_of_payload (hk.payload x)).trans hb),
    ⟨fun m hml => ?_, hcounters, fun i hix => ?_, hk.entries, by rw [modify_self]⟩,
    h.of_keys hs' ⟨fun m hml => ?_, h.counted.total, h.counted.bound⟩ fun i hi => ?_⟩
  · rw [hs'.rep.walk_eq hml, h.walk_eq hml]
    by_cases hmeq : m = l
    · subst hmeq
      exact update_self ..
    · refine (update_of_ne hmeq ..).trans (List.erase_of_not_mem ?_).symm
      exact fun hin => hmeq (((h.shows.rep.mem m hml x).mp hin).2.symm)
  · rw [modify_of_ne _ hix]
    exact hk.payload i
  · rw [show d.listSize m = _ from h.counted.counts m hml]
    by_cases hmeq : m = l
    · subst hmeq
      simp only [update_self]
      omega
    · simp only [update_of_ne hmeq]
  · by_cases hix : i = x
    · subst hix
      exact .inr (.inr ⟨hfree.2, by rw [modify_self]⟩)
    · rw [modify_of_ne _ hix]
      exact .inl ⟨hk.entries ▸ hi, key_eq_of_payload (hk.payload i),
        has_take (fun j hj => List.mem_erase_of_ne hj) hix⟩

theorem removeIn_freed (hf : findEntry beyond key c = .ok (some x)) (hk : (c.entrylist x).key = .freed) :
    ∃ e, removeIn beyond key c = .error e := by
  rw [removeIn, hf, ok_bind]
  dsimp only
  cases hrm : removeEntry x c with
  | error e => exact ⟨e, rfl⟩
  | ok c₁ =>
    refine ⟨.doubleFree, ?_⟩
    rw [ok_bind, destroyEntry, key_eq_of_payload ((removeEntry_keeps hrm).payload x), hk]
    rfl

end

end Razorback.LocalCache
