import Razorback.Base.Runs
import Razorback.LocalCache.Lists

/-! The cache without its pointers and its keys: the counters, the target and, for each list, its slots from LRU to MRU.
The functions of the cache that work on the lists are refined by functions on this directory, and what they do to the
lists and counters is proved there. -/

namespace Razorback.LocalCache
open Runs

theorem inc_eq (h : k + 1 < 2 ^ 32) : inc k = k + 1 := Nat.mod_eq_of_lt h

theorem dec_succ (h : k + 1 < 2 ^ 32) : dec (k + 1) = k := by
  unfold dec
  omega

structure Keeps (c c' : Cache) : Prop where
  entries : c'.entries = c.entries
  payload : ∀ i, payload (c'.entrylist i) = payload (c.entrylist i)

section
variable {c c' c'' : Cache} {x : ℕ} {l : ListType}

theorem Keeps.trans (h : Keeps c c') (h' : Keeps c' c'') : Keeps c c'' :=
  ⟨h'.entries.trans h.entries, fun i => (h'.payload i).trans (h.payload i)⟩

theorem Frame.keeps (h : Frame c c') : Keeps c c' := ⟨h.entries, h.payload⟩

theorem Keeps.setSize (h : Keeps c c') (l : ListType) (n : ℕ) : Keeps c (c'.setSize l n) :=
  ⟨h.entries, h.payload⟩

theorem findLRU_moves (l : ListType) (c : Cache) (x : ℕ) : Moves x c (findLRU l c).2 := by
  unfold findLRU
  cases c.lru l with
  | some y => exact .refl x c
  | none => exact (Moves.refl x c).setLRU l _

theorem purgeLRU_keeps (h : purgeLRU l c = .ok (x, c')) : Keeps c c' := by
  have hm := findLRU_moves l c
  unfold purgeLRU at h
  generalize findLRU l c = p at h hm
  obtain ⟨r, c₁⟩ := p
  cases r with
  | none => cases h
  | some y =>
    dsimp only at h hm
    cases hn : (c₁.entrylist y).next with
    | some z =>
      rw [hn] at h
      obtain ⟨rfl, rfl⟩ := ok_inj h
      exact (((hm y).setPrev z none).setLRU l _).detach.toFrame.keeps
    | none =>
      rw [hn] at h
      obtain ⟨rfl, rfl⟩ := ok_inj h
      exact (((hm y).setLRU l none).setMRU l none).detach.toFrame.keeps

theorem addMRU_keeps (x : ℕ) (l : ListType) (c : Cache) : Keeps c (addMRU x l c) :=
  (addMRU_moves x l c).toFrame.keeps

theorem removeEntry_keeps (h : removeEntry x c = .ok c') : Keeps c c' := by
  have hm := Moves.refl x c
  unfold removeEntry at h
  cases hn : (c.entrylist x).next with
  | some n =>
    cases hp : (c.entrylist x).prev with
    | some p =>
      simp only [hn, hp] at h
      exact Except.ok.inj h ▸ (((hm.setPrev n _).setNext p _).detach.toFrame.keeps)
    | none =>
      simp only [hn, hp] at h
      split_ifs at h with hl
      cases hpurge : purgeLRU (c.entrylist x).listtype c with
      | error e => simp [hpurge, Except.map] at h
      | ok q =>
        rw [hpurge] at h
        exact Except.ok.inj h ▸ (purgeLRU_keeps hpurge).trans
          ((Moves.refl x q.2).detach.toFrame.keeps)
  | none =>
    cases hp : (c.entrylist x).prev with
    | some p =>
      simp only [hn, hp] at h
      split_ifs at h with hl
      exact Except.ok.inj h ▸ (((hm.setNext p _).setMRU _ _).detach.toFrame.keeps)
    | none =>
      simp only [hn, hp] at h
      split_ifs at h with hl
      exact Except.ok.inj h ▸ (((hm.setMRU _ _).setLRU _ _).detach.toFrame.keeps)

theorem demote_keeps {m : ListType} (h : demote l m c = .ok (x, c')) : Keeps c c' := by
  simp only [demote, bind_eq_ok] at h
  obtain ⟨⟨y, c₁⟩, hp, he⟩ := h
  cases he
  exact (((purgeLRU_keeps hp).trans (addMRU_keeps y m c₁)).setSize l _).setSize m _

theorem replace_keeps (h : replace c = .ok (x, c')) : Keeps c c' := by
  unfold replace at h
  split_ifs at h
  · exact demote_keeps h
  · exact demote_keeps h

theorem reviveGhost_keeps (h : reviveGhost x c = .ok c') : Keeps c c' := by
  simp only [reviveGhost, bind_eq_ok] at h
  obtain ⟨c₁, hr, ⟨y, c₂⟩, hp, he⟩ := h
  have hk := (removeEntry_keeps hr).trans (replace_keeps hp)
  exact Except.ok.inj he ▸ (hk.setSize .t2 _).trans (addMRU_keeps x .t2 _)

theorem adaptTarget_keeps {g other : ListType} {move : ℚ → ℚ → ℚ}
    (h : adaptTarget g other move c = .ok c') : Keeps c c' := by
  unfold adaptTarget at h
  split_ifs at h
  exact Except.ok.inj h ▸ ⟨rfl, fun _ => rfl⟩

theorem hitEntry_keeps (h : hitEntry x c = .ok c') : Keeps c c' := by
  unfold hitEntry at h
  cases hl : (c.entrylist x).listtype with
  | t1 | t2 =>
    simp only [hl, bind_eq_ok] at h
    obtain ⟨c₁, hr, he⟩ := h
    have hk := removeEntry_keeps hr
    have hk' : Keeps c c₁ := ⟨hk.entries, hk.payload⟩
    exact Except.ok.inj he ▸ hk'.trans (addMRU_keeps x .t2 c₁)
  | b1 | b2 =>
    simp only [hl, bind_eq_ok] at h
    obtain ⟨c₁, ha, hr⟩ := h
    exact (adaptTarget_keeps ha).trans (reviveGhost_keeps hr)
  | none =>
    simp only [hl] at h
    exact Except.ok.inj h ▸ ⟨rfl, fun _ => rfl⟩

theorem getNewEntry_inv (h : getNewEntry c = .ok (x, c')) :
    x = c.entries ∧ c'.entries = c.entries + 1 ∧ ∀ i, i ≠ x → c'.entrylist i = c.entrylist i := by
  unfold getNewEntry at h
  split_ifs at h with hlt
  cases h
  exact ⟨rfl, inc_eq (by omega), fun i hi => modify_of_ne (fun _ => blankEntry) hi⟩

theorem getNewEntry_blank (h : getNewEntry c = .ok (x, c')) : c'.entrylist x = blankEntry := by
  unfold getNewEntry at h
  split_ifs at h
  cases h
  simp [Cache.modify]

theorem obtainEntry_cases (h : obtainEntry c = .ok (x, c')) :
    Keeps c c' ∨ x = c.entries ∧ c'.entries = c.entries + 1 ∧ payload (c'.entrylist x) = payload blankEntry ∧
      ∀ i, i ≠ x → payload (c'.entrylist i) = payload (c.entrylist i) := by
  unfold obtainEntry at h
  split_ifs at h
  · simp only [bind_eq_ok] at h
    obtain ⟨⟨y, c₁⟩, hp, ⟨z, c₂⟩, hr, he⟩ := h
    cases he
    exact .inl (((purgeLRU_keeps hp).setSize _ _).trans (replace_keeps hr))
  · simp only [bind_eq_ok] at h
    obtain ⟨⟨y, c₁⟩, hp, he⟩ := h
    cases he
    exact .inl ((purgeLRU_keeps hp).setSize _ _)
  · simp only [bind_eq_ok] at h
    obtain ⟨⟨y, c₁⟩, hp, ⟨z, c₂⟩, hr, he⟩ := h
    cases he
    exact .inl (((purgeLRU_keeps hp).setSize _ _).trans (replace_keeps hr))
  · simp only [bind_eq_ok] at h
    obtain ⟨⟨y, c₁⟩, hg, ⟨z, c₂⟩, hr, he⟩ := h
    cases he
    obtain ⟨hx, hent, hother⟩ := getNewEntry_inv hg
    have hk := replace_keeps hr
    have hnew := hk.payload y
    rw [getNewEntry_blank hg] at hnew
    exact .inr ⟨hx, hk.entries.trans hent, hnew, fun i hi => (hk.payload i).trans (by rw [hother i hi])⟩
  · obtain ⟨hx, hent, hother⟩ := getNewEntry_inv h
    exact .inr ⟨hx, hent, by rw [getNewEntry_blank h], fun i hi => by rw [hother i hi]⟩

theorem obtainEntry_inv (h : obtainEntry c = .ok (x, c')) :
    (∀ i, i ≠ x → payload (c'.entrylist i) = payload (c.entrylist i)) ∧
      (c'.entries = c.entries ∨ c'.entries = c.entries + 1 ∧ x = c.entries) := by
  rcases obtainEntry_cases h with hk | ⟨hx, hent, _, hother⟩
  · exact ⟨fun i _ => hk.payload i, .inl hk.entries⟩
  · exact ⟨hother, .inr ⟨hent, hx⟩⟩

theorem addIn_inv (h : addIn true key sf ent c = .ok (r, c')) :
    ∃ x c₁, obtainEntry c = .ok (x, c₁) ∧
      payload (c'.entrylist x) = (key.length, .live key, sf, ent) ∧
      (∀ i, i ≠ x → payload (c'.entrylist i) = payload (c.entrylist i)) ∧
      (c'.entries = c.entries ∨ c'.entries = c.entries + 1 ∧ x = c.entries) := by
  simp only [addIn, bind_eq_ok] at h
  obtain ⟨⟨x, c₁⟩, ho, k, _, he⟩ := h
  obtain ⟨-, rfl⟩ := ok_inj he
  obtain ⟨hother, hent⟩ := obtainEntry_inv ho
  have hk := addMRU_keeps x .t1 c₁
  refine ⟨x, c₁, ho, ?_, fun i hi => ?_, ?_⟩
  · rw [modify_self, modify_self]
    rfl
  · rw [modify_of_ne _ hi, modify_of_ne _ hi]
    exact (hk.payload i).trans (hother i hi)
  · have he' : (addMRU x .t1 c₁).entries = c₁.entries := hk.entries
    simpa only [Cache.modify, Cache.setSize, he'] using hent

def KeepsPlace (f : Entry → Entry) : Prop :=
  ∀ e, (f e).next = e.next ∧ (f e).prev = e.prev ∧ (f e).listtype = e.listtype

theorem KeepsPlace.modify (hf : KeepsPlace f) (c : Cache) (x i : ℕ) :
    ((c.modify x f).entrylist i).next = (c.entrylist i).next ∧
    ((c.modify x f).entrylist i).prev = (c.entrylist i).prev ∧
    ((c.modify x f).entrylist i).listtype = (c.entrylist i).listtype := by
  by_cases hix : i = x
  · subst hix
    simpa [Cache.modify] using hf (c.entrylist i)
  · simp [Cache.modify, hix]

theorem Rep.modify {ls : ListType → List ℕ} (h : Rep c ls) (x : ℕ) {f : Entry → Entry} (hf : KeepsPlace f) :
    Rep (c.modify x f) ls := by
  refine ⟨?_, h.unlisted, fun m hm i => ?_⟩
  · exact h.threads.congr fun _ i _ => ⟨(hf.modify c x i).1, (hf.modify c x i).2.1⟩
  · rw [(hf.modify c x i).2.2]
    exact h.mem m hm i

end

structure Dir where
  size : ℕ
  entries : ℕ
  listSize : ListType → ℕ
  target : ℚ
  lists : ListType → List ℕ

def ghost : ListType → ListType
  | .t1 => .b1
  | .t2 => .b2
  | _ => .none

def Resident (l : ListType) : Prop := l = .t1 ∨ l = .t2

namespace Dir

def take (l : ListType) (xs : List ℕ) (d : Dir) : Dir :=
  { d with lists := Function.update d.lists l xs, listSize := Function.update d.listSize l (dec (d.listSize l)) }

def put (x : ℕ) (l : ListType) (d : Dir) : Dir :=
  { d with
    lists := Function.update d.lists l (d.lists l ++ [x])
    listSize := Function.update d.listSize l (inc (d.listSize l)) }

def purge (l : ListType) (d : Dir) : Except Fault (ℕ × Dir) :=
  match d.lists l with
  | [] => .error .purgeEmpty
  | x :: xs => .ok (x, d.take l xs)

def source (d : Dir) : ListType := if maxD d.target 1 ≤ d.listSize .t1 then .t1 else .t2

def replace (d : Dir) : Except Fault (ℕ × Dir) := do
  let (x, d') ← d.purge d.source
  return (x, d'.put x (ghost d.source))

def revive (x : ℕ) (g other : ListType) (move : ℚ → ℚ → ℚ) (d : Dir) : Except Fault Dir :=
  if d.listSize g = 0 then .error .zeroDivisor
  else do
    let target := move d.target (maxD ((d.listSize other / d.listSize g : ℕ) : ℚ) 1)
    let (_, d) ← replace ({ d with target := target }.take g ((d.lists g).erase x))
    return d.put x .t2

def hit (x : ℕ) (l : ListType) (d : Dir) : Except Fault Dir :=
  match l with
  | .t1 => .ok ((d.take .t1 ((d.lists .t1).erase x)).put x .t2)
  | .t2 => .ok { (d.take .t2 ((d.lists .t2).erase x)).put x .t2 with listSize := d.listSize }
  | .b1 => d.revive x .b1 .b2 fun target amount => minD (target + amount) d.size
  | .b2 => d.revive x .b2 .b1 fun target amount => maxD (target - amount) 0
  | .none => .ok d

def getNew (d : Dir) : Except Fault (ℕ × Dir) :=
  if d.entries < d.size * 2 % 2 ^ 32 then .ok (d.entries, { d with entries := d.entries + 1 })
  else .error .nullEntry

def shift (r : Except Fault (ℕ × Dir)) : Except Fault (ℕ × Dir) := do
  let (x, d) ← r
  let (_, d) ← d.replace
  return (x, d)

def obtain (d : Dir) : Except Fault (ℕ × Dir) :=
  if (d.listSize .t1 + d.listSize .b1) % 2 ^ 32 = d.size then
    if d.listSize .t1 < d.size then shift (d.purge .b1) else d.purge .t1
  else if d.size ≤ d.entries then
    if (2 * d.size) % 2 ^ 32 ≤ d.entries then shift (d.purge .b2) else shift d.getNew
  else d.getNew

def Has (d : Dir) (i : ℕ) : Prop := ∃ l, l ≠ .none ∧ i ∈ d.lists l

def Free (x : ℕ) (d : Dir) : Prop := x < d.entries ∧ ¬d.Has x

section
variable {d d' : Dir} {l : ListType} {x y i : ℕ} {xs : List ℕ}

theorem has_take (hx : ∀ i, i ≠ x → (i ∈ xs ↔ i ∈ d.lists l)) (hi : i ≠ x) : (d.take l xs).Has i ↔ d.Has i := by
  refine exists_congr fun m => and_congr_right fun _ => ?_
  by_cases hm : m = l
  · subst hm
    simpa [take] using hx i hi
  · simp [take, hm]

theorem has_put (hl : l ≠ .none) : (d.put x l).Has i ↔ d.Has i ∨ i = x := by
  constructor
  · rintro ⟨m, hm, hi⟩
    by_cases hml : m = l
    · subst hml
      rcases (by simpa [put] using hi : i ∈ d.lists m ∨ i = x) with hi | hi
      · exact .inl ⟨m, hm, hi⟩
      · exact .inr hi
    · exact .inl ⟨m, hm, by simpa [put, hml] using hi⟩
  · rintro (⟨m, hm, hi⟩ | rfl)
    · refine ⟨m, hm, ?_⟩
      by_cases hml : m = l
      · subst hml
        simp [put, hi]
      · simpa [put, hml] using hi
    · exact ⟨l, hl, by simp [put]⟩

theorem purge_ok (h : d.purge l = .ok (x, d')) : ∃ xs, d.lists l = x :: xs ∧ d' = d.take l xs := by
  unfold purge at h
  split at h
  · cases h
  · next y ys hls =>
    cases h
    exact ⟨ys, hls, rfl⟩

theorem source_resident (d : Dir) : Resident d.source := by
  unfold source Resident
  split_ifs <;> simp

theorem replace_ok (h : d.replace = .ok (y, d')) :
    ∃ ys, d.lists d.source = y :: ys ∧ d' = (d.take d.source ys).put y (ghost d.source) := by
  simp only [replace, bind_eq_ok] at h
  obtain ⟨⟨z, d₁⟩, hp, he⟩ := h
  cases he
  obtain ⟨ys, hys, rfl⟩ := purge_ok hp
  exact ⟨ys, hys, rfl⟩

end

end Dir

theorem Resident.ne_none {l : ListType} (h : Resident l) : l ≠ .none := by
  rcases h with rfl | rfl <;> decide

theorem Resident.ghost_ne {l src : ListType} (h : Resident l) (hs : Resident src) : l ≠ ghost src := by
  rcases h with rfl | rfl <;> rcases hs with rfl | rfl <;> decide

theorem Resident.ghost_ne_none {src : ListType} (h : Resident src) : ghost src ≠ .none := by
  rcases h with rfl | rfl <;> decide

theorem Dir.has_replace {d d' : Dir} {y : ℕ} (h : d.replace = .ok (y, d')) (i : ℕ) :
    d'.entries = d.entries ∧ (d'.Has i ↔ d.Has i) := by
  obtain ⟨ys, hys, rfl⟩ := replace_ok h
  refine ⟨rfl, ?_⟩
  have hsrc := d.source_resident
  rw [has_put hsrc.ghost_ne_none]
  by_cases hi : i = y
  · subst hi
    exact ⟨fun _ => ⟨d.source, hsrc.ne_none, by simp [hys]⟩, fun _ => .inr rfl⟩
  · rw [has_take (fun i hi => by simp [hys, hi]) hi]
    simp [hi]

structure Dir.Obtained (x : ℕ) (d d' : Dir) : Prop where
  slot : d'.entries = d.entries ∧ d.Has x ∨ d'.entries = d.entries + 1 ∧ x = d.entries
  others : ∀ i, i ≠ x → (d'.Has i ↔ d.Has i)

theorem Dir.obtained (h : d.obtain = .ok (x, d')) : Obtained x d d' := by
  have hpurge : ∀ {l d'}, l ≠ .none → d.purge l = .ok (x, d') → Obtained x d d' := by
    intro l d' hl hp
    obtain ⟨xs, hxs, rfl⟩ := purge_ok hp
    exact ⟨.inl ⟨rfl, l, hl, by simp [hxs]⟩, fun i hi => has_take (fun j hj => by simp [hxs, hj]) hi⟩
  have hnew : ∀ {d'}, d.getNew = .ok (x, d') → Obtained x d d' := by
    intro d' hg
    unfold getNew at hg
    split_ifs at hg
    cases hg
    exact ⟨.inr ⟨rfl, rfl⟩, fun i hi => .rfl⟩
  have hshift : ∀ {r d'}, (∀ {d'}, r = .ok (x, d') → Obtained x d d') → shift r = .ok (x, d') → Obtained x d d' := by
    intro r d' hr hs
    simp only [shift, bind_eq_ok] at hs
    obtain ⟨⟨x', d₁⟩, h₁, ⟨y, d₂⟩, h₂, he⟩ := hs
    cases he
    obtain ⟨hslot, hothers⟩ := hr h₁
    exact ⟨(has_replace h₂ 0).1 ▸ hslot, fun i hi => (has_replace h₂ i).2.trans (hothers i hi)⟩
  unfold obtain at h
  split_ifs at h
  · exact hshift (hpurge (by decide)) h
  · exact hpurge (by decide) h
  · exact hshift (hpurge (by decide)) h
  · exact hshift hnew h
  · exact hnew h

structure Shows (c : Cache) (d : Dir) : Prop where
  rep : Rep c d.lists
  size : c.size = d.size
  entries : c.entries = d.entries
  listSize : c.listSize = d.listSize
  target : c.target = d.target

def dirOf (c : Cache) (ls : ListType → List ℕ) : Dir := ⟨c.size, c.entries, c.listSize, c.target, ls⟩

section
variable {c c' : Cache} {d : Dir} {ls : ListType → List ℕ} {l : ListType} {x : ℕ}

theorem Rep.shows (h : Rep c ls) : Shows c (dirOf c ls) := ⟨h, rfl, rfl, rfl, rfl⟩

theorem Shows.has_iff (h : Shows c d) (hx : x < c.entries) : d.Has x ↔ (c.entrylist x).listtype ≠ .none := by
  constructor
  · rintro ⟨l, hl, hi⟩
    rw [((h.rep.mem l hl x).mp hi).2]
    exact hl
  · exact fun hl => ⟨_, hl, (h.rep.mem _ hl x).mpr ⟨hx, rfl⟩⟩

theorem Shows.unlisted (h : Shows c d) (hx : d.Free x) : x < c.entries ∧ (c.entrylist x).listtype = .none := by
  have hlt : x < c.entries := h.entries ▸ hx.1
  exact ⟨hlt, not_not.mp fun hl => hx.2 ((h.has_iff hlt).mpr hl)⟩

theorem Shows.free (h : Shows c d) (hx : x < c.entries) (ht : (c.entrylist x).listtype = .none) : d.Free x :=
  ⟨h.entries ▸ hx, fun hin => (h.has_iff hx).mp hin ht⟩

theorem Shows.setSize (h : Shows c d) (l : ListType) (f : ℕ → ℕ) : Shows (c.setSize l (f (c.listSize l)))
    { d with listSize := Function.update d.listSize l (f (d.listSize l)) } :=
  ⟨h.rep.setSize _ _, h.size, h.entries, by rw [← h.listSize]; rfl, h.target⟩

theorem Shows.moves (h : Shows c d) (hm : Moves x c c') (hr : Rep c' ls) : Shows c' { d with lists := ls } :=
  ⟨hr, hm.size.trans h.size, hm.entries.trans h.entries, hm.listSize.trans h.listSize, hm.target.trans h.target⟩

theorem addMRU_setSize (x k : ℕ) (l m : ListType) (c : Cache) :
    (addMRU x l c).setSize m k = addMRU x l (c.setSize m k) := by
  unfold addMRU findMRU
  cases hm : c.mru l with
  | some y =>
    have hm' : (c.setSize m k).mru l = some y := hm
    rw [hm']
    rfl
  | none =>
    have hm' : (c.setSize m k).mru l = none := hm
    have hscan : scan (fun e => e.next.isNone && e.listtype == l) (c.setSize m k) =
        scan (fun e => e.next.isNone && e.listtype == l) c := rfl
    rw [hm']
    simp only [hscan]
    cases scan (fun e => e.next.isNone && e.listtype == l) c <;> rfl

section
variable (h : Shows c d)
include h

theorem purge_related (hl : l ≠ .none) :
    Related (fun p q => p.1 = q.1 ∧ Shows (p.2.setSize l (dec (p.2.listSize l))) q.2 ∧ q.2.Free p.1)
      (purgeLRU l c) (d.purge l) := by
  unfold Dir.purge
  cases hls : d.lists l with
  | nil =>
    rw [purgeLRU, findLRU_eq h.rep hl, hls]
    rfl
  | cons x xs =>
    obtain ⟨c', hp, hr, ht, hm, _⟩ := purgeLRU_spec h.rep hl hls
    have hs := (h.moves hm hr).setSize l dec
    rw [hp]
    refine ⟨rfl, hs, hs.free ?_ ht⟩
    exact hm.entries.symm ▸ ((h.rep.mem l hl x).mp (by simp [hls])).1

theorem put_shows (hl : l ≠ .none) (hx : d.Free x) :
    Shows (addMRU x l (c.setSize l (inc (c.listSize l)))) (d.put x l) := by
  obtain ⟨hlt, ht⟩ := h.unlisted hx
  have hs := h.setSize l inc
  obtain ⟨hr, hm⟩ := addMRU_spec hs.rep hl hlt ht
  exact hs.moves hm hr

theorem remove_shows (hl : l ≠ .none) (hx : x ∈ d.lists l) :
    ∃ c', removeEntry x c = .ok c' ∧
      Shows c' { d with lists := Function.update d.lists l ((d.lists l).erase x) } ∧
      Dir.Free x { d with lists := Function.update d.lists l ((d.lists l).erase x) } := by
  obtain ⟨as, bs, hls⟩ := List.append_of_mem hx
  obtain ⟨c', hrm, hr, ht, hm⟩ := removeEntry_spec h.rep hl hls
  have hnot := h.rep.threads.not_mem_rest hls
  have herase : (d.lists l).erase x = as ++ bs := by
    rw [hls, List.erase_append_right _ fun hin => hnot (List.mem_append_left _ hin), List.erase_cons_head]
  rw [herase]
  have hs := h.moves hm hr
  exact ⟨c', hrm, hs, hs.free (hm.entries.symm ▸ ((h.rep.mem l hl x).mp hx).1) ht⟩

theorem demote_related {src : ListType} (hsrc : Resident src) :
    Related (fun p q => p.1 = q.1 ∧ Shows p.2 q.2) (demote src (ghost src) c) (do
      let (x, d') ← d.purge src
      return (x, d'.put x (ghost src))) := by
  refine (purge_related h hsrc.ne_none).bind fun p q hpq => ?_
  obtain ⟨x, c₁⟩ := p
  obtain ⟨y, d₁⟩ := q
  obtain ⟨rfl, hs, hfree⟩ := hpq
  have hput := put_shows hs hsrc.ghost_ne_none hfree
  rw [← addMRU_setSize, ← addMRU_setSize] at hput
  have hsz := (addMRU_moves x (ghost src) c₁).listSize
  refine ⟨rfl, ?_⟩
  simp only [Cache.setSize, hsz] at hput ⊢
  exact hput

theorem replace_related :
    Related (fun p q => p.1 = q.1 ∧ Shows p.2 q.2 ∧ ∀ x, d.Free x → q.2.Free x) (replace c) d.replace := by
  have hrel : Related (fun p q => p.1 = q.1 ∧ Shows p.2 q.2) (replace c) d.replace := by
    unfold replace Dir.replace Dir.source
    rw [h.target, h.listSize]
    split_ifs
    · exact demote_related h (.inl rfl)
    · exact demote_related h (.inr rfl)
  refine hrel.of_ok fun p q hpq _ hq => ⟨hpq.1, hpq.2, fun x hx => ?_⟩
  obtain ⟨hent, hhas⟩ := Dir.has_replace hq x
  exact ⟨hent.symm ▸ hx.1, fun hin => hx.2 (hhas.mp hin)⟩

theorem revive_related {g other : ListType} (hg : g ≠ .none) (move : ℚ → ℚ → ℚ) (hx : x ∈ d.lists g) :
    Related Shows (adaptTarget g other move c >>= reviveGhost x) (d.revive x g other move) := by
  obtain ⟨_, _, _, _, lists⟩ := d
  obtain ⟨hr, rfl, rfl, rfl, rfl⟩ := h
  unfold adaptTarget Dir.revive
  split_ifs
  · rfl
  · have hdec := ((hr.setTarget (move c.target (maxD ((c.listSize other / c.listSize g : ℕ) : ℚ) 1))).shows).setSize g dec
    obtain ⟨c', hrm, hs, hfree⟩ := remove_shows hdec hg hx
    rw [ok_bind, reviveGhost, hrm]
    refine (replace_related hs).bind fun p q hpq => ?_
    exact put_shows hpq.2.1 (by decide) (hpq.2.2 x hfree)

theorem hit_related (hl : l ≠ .none) (hx : x ∈ d.lists l) :
    Related Shows (hitEntry x c) (d.hit x l) := by
  have ht : (c.entrylist x).listtype = l := ((h.rep.mem l hl x).mp hx).2
  unfold hitEntry Dir.hit
  rw [ht]
  cases l with
  | t1 =>
    obtain ⟨c', hrm, hs, hfree⟩ := remove_shows ((h.setSize .t1 dec).setSize .t2 inc) hl hx
    obtain ⟨hlt, hun⟩ := hs.unlisted hfree
    obtain ⟨hr, hm⟩ := addMRU_spec (l := .t2) hs.rep (by decide) hlt hun
    dsimp only
    rw [hrm]
    exact hs.moves hm hr
  | t2 =>
    obtain ⟨c', hrm, hs, hfree⟩ := remove_shows h hl hx
    obtain ⟨hlt, hun⟩ := hs.unlisted hfree
    obtain ⟨hr, hm⟩ := addMRU_spec (l := .t2) hs.rep (by decide) hlt hun
    rw [hrm]
    exact hs.moves hm hr
  | b1 =>
    rw [← h.size]
    exact revive_related h hl _ hx
  | b2 => exact revive_related h hl _ hx
  | none => exact h

theorem getNew_related :
    Related (fun p q => p.1 = q.1 ∧ Shows p.2 q.2 ∧ q.2.Free p.1) (getNewEntry c) d.getNew := by
  obtain ⟨_, _, _, _, lists⟩ := d
  obtain ⟨hr, rfl, rfl, rfl, rfl⟩ := h
  unfold getNewEntry Dir.getNew
  dsimp only at hr ⊢
  split_ifs with hlt
  · have hother : ∀ i, i ≠ c.entries → (c.modify c.entries fun _ => blankEntry).entrylist i = c.entrylist i :=
      fun i hi => modify_of_ne _ hi
    have hnew : (c.modify c.entries fun _ => blankEntry).entrylist c.entries = blankEntry := modify_self _
    have hin : ∀ m, ∀ i ∈ lists m, i ≠ c.entries := by
      rintro m i hi rfl
      by_cases hm : m = .none
      · rw [hm, hr.unlisted] at hi
        exact List.not_mem_nil hi
      · exact absurd ((hr.mem m hm _).mp hi).1 (lt_irrefl _)
    rw [inc_eq (by omega)]
    have hrep : Rep { c.modify c.entries (fun _ => blankEntry) with entries := c.entries + 1 } lists := by
      refine ⟨hr.threads.congr fun m i hi => ?_, hr.unlisted, fun m hm i => ?_⟩
      · simp only [links, hother i (hin m i hi), and_self]
      · rw [hr.mem m hm i]
        by_cases hi : i = c.entries
        · subst hi
          rw [hnew]
          exact ⟨fun hin => absurd hin.1 (lt_irrefl _), fun hin => absurd hin.2.symm hm⟩
        · simp only [hother i hi]
          exact and_congr_left fun _ => by omega
    exact ⟨rfl, hrep.shows, hrep.shows.free (Nat.lt_succ_self _) (by simp only [hnew]; rfl)⟩
  · rfl

theorem obtain_related :
    Related (fun p q => p.1 = q.1 ∧ Shows p.2 q.2 ∧ q.2.Free p.1) (obtainEntry c) d.obtain := by
  have hghost : ∀ l, l ≠ .none → Related (fun p q => p.1 = q.1 ∧ Shows p.2 q.2 ∧ q.2.Free p.1) (do
        let r ← purgeLRU l c
        let r' ← replace (r.2.setSize l (dec (r.2.listSize l)))
        return (r.1, r'.2)) (Dir.shift (d.purge l)) := by
    intro l hl
    refine (purge_related h hl).bind fun p q hpq => ?_
    refine (replace_related hpq.2.1).bind fun p' q' hpq' => ?_
    exact ⟨hpq.1, hpq'.2.1, hpq'.2.2 _ hpq.2.2⟩
  unfold obtainEntry Dir.obtain
  rw [h.listSize, h.size, h.entries]
  split_ifs
  · exact hghost .b1 (by decide)
  · have hp := purge_related h (show ListType.t1 ≠ .none by decide)
    unfold Dir.purge at hp ⊢
    cases hls : d.lists .t1 with
    | nil =>
      rw [hls] at hp
      exact hp.bind (g := fun q => .ok q) fun p q hpq => hpq
    | cons x xs =>
      rw [hls] at hp
      exact hp.bind fun p q hpq => hpq
  · exact hghost .b2 (by decide)
  · refine (getNew_related h).bind fun p q hpq => ?_
    refine (replace_related hpq.2.1).bind fun p' q' hpq' => ?_
    exact ⟨hpq.1, hpq'.2.1, hpq'.2.2 _ hpq.2.2⟩
  · exact getNew_related h

theorem Shows.modify (x : ℕ) (hf : KeepsPlace f) : Shows (c.modify x f) d :=
  ⟨h.rep.modify x hf, h.size, h.entries, h.listSize, h.target⟩

end

def filled (x : ℕ) (key : Bytes) (sf ent : UInt32) (c : Cache) : Cache :=
  ((addMRU x .t1 c).setSize .t1 (inc ((addMRU x .t1 c).listSize .t1))).modify x
    fun e => { e with size := key.length, sfflags := sf, entflags := ent }

theorem filled_key (x : ℕ) (key : Bytes) (sf ent : UInt32) (c : Cache) (i : ℕ) :
    ((filled x key sf ent c).entrylist i).key = (c.entrylist i).key :=
  (modify_field Entry.key rfl i).trans (key_eq_of_payload ((addMRU_keeps x .t1 c).payload i))

theorem addIn_filled (ho : obtainEntry c = .ok (x, c₁)) (hx : (c₁.entrylist x).key ≠ .freed)
    (mallocOk : Bool) (key : Bytes) (sf ent : UInt32) :
    addIn mallocOk key sf ent c = .ok (if mallocOk then .success else .error,
      (filled x key sf ent c₁).modify x fun e => { e with key := if mallocOk then .live key else .null }) := by
  obtain ⟨k, hfree⟩ : ∃ k, freeKey ((filled x key sf ent c₁).entrylist x).key = .ok k := by
    rw [filled_key]
    cases hk : (c₁.entrylist x).key with
    | freed => exact absurd hk hx
    | null => exact ⟨_, rfl⟩
    | live bytes => exact ⟨_, rfl⟩
  unfold filled at hfree
  simp only [addIn, ho, ok_bind, hfree]
  cases mallocOk <;> rfl

theorem addIn_eq (mallocOk : Bool) (key : Bytes) (sf ent : UInt32) (c : Cache) :
    addIn mallocOk key sf ent c = (do
      let (x, c) ← obtainEntry c
      let _ ← freeKey ((filled x key sf ent c).entrylist x).key
      return (if mallocOk then .success else .error,
        (filled x key sf ent c).modify x fun e => { e with key := if mallocOk then .live key else .null })) := by
  cases mallocOk <;> rfl

theorem filled_shows (h : Shows c d) (hx : d.Free x) (key : Bytes) (sf ent : UInt32) :
    Shows (filled x key sf ent c) (d.put x .t1) := by
  have hs := put_shows h (show ListType.t1 ≠ .none by decide) hx
  rw [← addMRU_setSize] at hs
  unfold filled
  rw [(addMRU_moves x .t1 c).listSize]
  exact hs.modify x fun _ => ⟨rfl, rfl, rfl⟩

end

end Razorback.LocalCache
