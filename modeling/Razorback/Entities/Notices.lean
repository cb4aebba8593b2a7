import Razorback.Entities.History

/-! The prune listeners of `connected_entity.c`: what they are told in one pass of
the prune timer, beside what is left of the list. The nodes to go are only marked
while the pass runs, so the count for the listeners still takes them in. -/

namespace Razorback.Entities
open List
open Razorback.Lists (Seq EachCode visit_plain visit_ok)

/-- A call of a listener's `entityRemoved`. -/
structure Notice where
  listener : ℕ
  entity : ConnectedEntity
  remainingCount : ℕ
  deriving DecidableEq

def samePair (e e' : ConnectedEntity) : Bool :=
  e.uuidNuggetType = e'.uuidNuggetType && e.uuidApplicationType = e'.uuidApplicationType

/-- The pass of `ConnectedEntityList_CountNuggets`, on fewer than 2^32 entities. -/
def countNuggets (entities : List ConnectedEntity) (entity : ConnectedEntity) : ℕ :=
  (Seq.visit (fun e count => (.ok, if samePair entity e then count + 1 else count)) entities 0).2.1

/-- A call of `ConnectedEntityList_Prune`. -/
structure Pass where
  now : ℤ
  deadTime : ℤ
  listeners : List ℕ
  entities : List ConnectedEntity

namespace Pass
variable (p : Pass)

def pruneEntity (entity : ConnectedEntity) (notices : List Notice) : EachCode × List Notice :=
  if dead p.now p.deadTime entity then
    (.remove, (Seq.visit (fun h notices => (.ok, notices ++ [⟨h, entity, countNuggets p.entities entity - 1⟩]))
      p.listeners notices).2.1)
  else (.ok, notices)

def notices : List Notice := (Seq.visit p.pruneEntity p.entities []).2.1

def kept : List ConnectedEntity := (Seq.visit p.pruneEntity p.entities []).2.2.1

def expired : List ConnectedEntity := p.entities.filter (dead p.now p.deadTime)

/-- What the listeners are told of an expired entity. -/
def told (e : ConnectedEntity) : List Notice := p.listeners.map fun h => ⟨h, e, p.entities.countP (samePair e) - 1⟩

/-- The last notice for the pair of `e` tells how many of the pair are left. -/
def LastRight (e : ConnectedEntity) : Prop :=
  ∀ notice, (p.notices.filter fun n => samePair e n.entity).getLast? = some notice →
    notice.remainingCount = p.kept.countP (samePair e)

end Pass

theorem samePair_congr (h : samePair e e') : samePair e' = samePair e := by
  simp only [samePair, Bool.and_eq_true, decide_eq_true_eq] at h
  funext x
  rw [samePair, samePair, h.1, h.2]

theorem countNuggets_eq (entities : List ConnectedEntity) (e : ConnectedEntity) :
    countNuggets entities e = entities.countP (samePair e) := by
  have hfold (n : ℕ) : entities.foldl (fun n x => if samePair e x then n + 1 else n) n =
      n + entities.countP (samePair e) := by
    induction entities generalizing n with
    | nil => rfl
    | cons x xs ih =>
      rw [foldl_cons, ih, countP_cons]
      split <;> omega
  rw [countNuggets, visit_ok, hfold, Nat.zero_add]

namespace Pass
variable (p : Pass)

theorem visit_eq : Seq.visit p.pruneEntity p.entities [] =
    (true, p.entities.flatMap fun e => if dead p.now p.deadTime e then p.told e else [],
      p.entities.filter fun e => !dead p.now p.deadTime e, p.expired) := by
  have hentity : p.pruneEntity = fun e notices => (if dead p.now p.deadTime e then .remove else .ok,
      notices ++ if dead p.now p.deadTime e then p.told e else []) := by
    funext e notices
    unfold pruneEntity told
    split_ifs
    · simp only [visit_ok, foldl_append_eq_append, countNuggets_eq]
      rw [← flatMap_def, ← map_eq_flatMap]
    · rw [append_nil]
  rw [hentity, visit_plain]
  simp only [foldl_append_eq_append, nil_append, ← flatMap_def, expired]

theorem mem_notices : notice ∈ p.notices ↔ ∃ e ∈ p.expired, notice ∈ p.told e := by
  rw [notices, visit_eq, mem_flatMap]
  simp only [expired, mem_filter, and_assoc]
  refine exists_congr fun e => and_congr_right fun _ => ?_
  split_ifs with hd <;> simp [hd]

theorem lastRight_iff (he : e ∈ p.expired) :
    p.LastRight e ↔ p.listeners = [] ∨ p.expired.countP (samePair e) = 1 := by
  have hself : samePair e e := by simp [samePair]
  have hsplit := countP_eq_countP_filter_add p.entities (samePair e) (dead p.now p.deadTime)
  have hkept : p.kept = p.entities.filter fun e => !dead p.now p.deadTime e := by rw [kept, visit_eq]
  have hpos : 0 < p.expired.countP (samePair e) := countP_pos_iff.mpr ⟨e, he, hself⟩
  rw [← expired, ← hkept] at hsplit
  -- every notice of the pair has the same count
  have hcount (notice) (h : notice ∈ p.notices.filter fun n => samePair e n.entity) :
      p.listeners ≠ [] ∧ notice.remainingCount = p.entities.countP (samePair e) - 1 := by
    obtain ⟨hmem, hpair⟩ := mem_filter.mp h
    obtain ⟨e', -, htold⟩ := p.mem_notices.mp hmem
    obtain ⟨l, hl, rfl⟩ := mem_map.mp htold
    exact ⟨ne_nil_of_mem hl, by rw [samePair_congr hpair]⟩
  constructor
  · intro h
    refine or_iff_not_imp_left.mpr fun hne => ?_
    obtain ⟨l, hl⟩ := exists_mem_of_ne_nil _ hne
    have hmem : _ ∈ p.notices.filter fun n => samePair e n.entity :=
      mem_filter.mpr ⟨p.mem_notices.mpr ⟨e, he, mem_map_of_mem hl⟩, hself⟩
    have hlast := h _ (getLast?_eq_some_getLast (ne_nil_of_mem hmem))
    rw [(hcount _ (getLast_mem _)).2] at hlast
    omega
  · intro h notice hlast
    obtain ⟨hne, hcount⟩ := hcount notice (mem_of_getLast? hlast)
    have hone := h.resolve_left hne
    omega

/-- In one pass each listener is told of each expired entity once and of no other,
and exactly these are gone; the last notice for a pair of types tells what is left
of it if and only if one entity of the pair has gone. -/
theorem prune_notices :
    (p.notices = p.entities.flatMap fun e => if dead p.now p.deadTime e then p.told e else []) ∧
    p.kept = p.entities.filter (fun e => !dead p.now p.deadTime e) ∧ p.kept = prune p.now p.deadTime p.entities ∧
    ∀ e ∈ p.expired, p.LastRight e ↔ p.listeners = [] ∨ p.expired.countP (samePair e) = 1 := by
  refine ⟨?_, ?_, ?_, fun e => p.lastRight_iff⟩
  · rw [notices, visit_eq]
  · rw [kept, visit_eq]
  · rw [kept, visit_eq, prune_eq]

/-- Two entities of one pair expire: the last notice counts one that is left. -/
theorem prune_notices_two :
    let e : ConnectedEntity := ⟨1, 7, 8, 1, 0, none⟩
    ¬ LastRight ⟨100, 10, [0], [e, { e with uuidNuggetId := 2 }]⟩ e := by
  intro e h
  exact absurd (h ⟨0, { e with uuidNuggetId := 2 }, 1⟩ (by decide)) (by decide)

end Pass

end Razorback.Entities
