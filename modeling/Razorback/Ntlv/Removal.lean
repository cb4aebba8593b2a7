import Razorback.Ntlv.Defs
import Razorback.Lists.Sequences

/-! `List_Remove` on metadata lists and on header lists. It takes out every element that the list's comparator reports
equal, so it removes what was asked for exactly where the comparator is exact on the elements of the list. -/

namespace Razorback.Ntlv
open Records Lists Runs List
open Messages (MessageHeader)

section

variable {w : World ℕ} {ls : ℕ → List ℕ} {a : ℕ → Seq ℕ} {l x : ℕ}

/-- `List_Remove` of `x` takes out and destroys the elements of the list that are the same as `x`, leaves the others in
their order, and leaves the other lists alone. -/
def RemovesExactly (same : ℕ → ℕ → Prop) [DecidableRel same] (w : World ℕ) (a : ℕ → Seq ℕ) (l x : ℕ) : Prop :=
  ∃ w' ls', remove l x w = .ok ((true, (a l).items.filter (same x ·)), w') ∧
    Refines w' ls' (Function.update a l ((a l).withItems ((a l).items.filter (¬same x ·))))

theorem remove_eq (h : Refines w ls a) (l x : ℕ) :
    ∃ w' ls', remove l x w = .ok ((((a l).items.filter ((a l).hit x)).getLast?.isSome,
        (a l).items.filter ((a l).hit x)), w') ∧
      Refines w' ls' (Function.update a l ((a l).withItems ((a l).items.filter fun y => !(a l).hit x y))) := by
  obtain ⟨w', ls', hf, hr⟩ := h.forEach l
    (fun y found => if (a l).hit x y then (.remove, some y) else (.ok, found)) (none : Option ℕ)
  obtain ⟨hfound, hkept, hgone⟩ := visit_findRemove ((a l).hit x) (a l).items none
  rw [hfound, hgone, Option.or_none] at hf
  rw [hkept] at hr
  refine ⟨w', ls', ?_, hr⟩
  have hhit : ∀ y, (y = x || ((w.lists l).cmp.map fun cmp => cmp y x).getD false) = (a l).hit x y := by
    intro y
    rw [Seq.hit, h.cmp l]
  rw [remove]
  simp only [hhit, hf]
  rfl

theorem removesExactly_iff (h : Refines w ls a) (hx : x ∈ (a l).items) (same : ℕ → ℕ → Prop) [DecidableRel same] :
    RemovesExactly same w a l x ↔ ∀ y ∈ (a l).items, (a l).hit x y ↔ same x y := by
  obtain ⟨w', ls', hremove, href⟩ := remove_eq h l x
  constructor
  · rintro ⟨w₁, ls₁, hremove₁, _⟩ y hy
    have hgone : (a l).items.filter ((a l).hit x) = (a l).items.filter (same x ·) :=
      congrArg Prod.snd (ok_inj (hremove.symm.trans hremove₁)).1
    have hmem : y ∈ (a l).items.filter ((a l).hit x) ↔ y ∈ (a l).items.filter (same x ·) := by rw [hgone]
    simpa [hy] using hmem
  · intro hexact
    have hgone : (a l).items.filter ((a l).hit x) = (a l).items.filter (same x ·) := by
      refine filter_congr fun y hy => ?_
      rw [Bool.eq_iff_iff, decide_eq_true_iff]
      exact hexact y hy
    have hkept : (a l).items.filter (fun y => !(a l).hit x y) = (a l).items.filter (¬same x ·) := by
      refine filter_congr fun y hy => ?_
      rw [Bool.eq_iff_iff, decide_eq_true_iff, Bool.not_eq_true', Bool.eq_false_iff, Ne, hexact y hy]
    have hself : (a l).hit x x := by simp [Seq.hit]
    have hsome : ((a l).items.filter ((a l).hit x)).getLast?.isSome := by
      rw [getLast?_isSome]
      exact ne_nil_of_mem (mem_filter.mpr ⟨hx, hself⟩)
    rw [hsome, hgone] at hremove
    rw [hkept] at href
    exact ⟨w', ls', hremove, href⟩

def SameItem (contents : ℕ → NTLVItem) (x y : ℕ) : Prop :=
  (contents y).uuidName = (contents x).uuidName ∧ (contents y).uuidType = (contents x).uuidType

instance (contents : ℕ → NTLVItem) : DecidableRel (SameItem contents) := fun _ _ => instDecidableAnd

def SameHeader (contents : ℕ → MessageHeader) (x y : ℕ) : Prop :=
  (contents y).sName = (contents x).sName ∧ (contents y).sValue = (contents x).sValue

instance (contents : ℕ → MessageHeader) : DecidableRel (SameHeader contents) := fun _ _ => instDecidableAnd

theorem hit_ntlv {contents : ℕ → NTLVItem} (hcmp : (a l).cmp = some fun p q => ntlvCmp (contents p) (contents q))
    (y : ℕ) : (a l).hit x y ↔ (contents y).uuidName = (contents x).uuidName ∨
      (contents y).uuidType = (contents x).uuidType := by
  rw [Seq.hit, hcmp]
  simp only [ntlvCmp, Option.map_some, Option.getD_some, Bool.or_eq_true, decide_eq_true_iff]
  constructor
  · rintro (rfl | h)
    · exact .inl rfl
    · exact h
  · exact .inr

theorem hit_header {contents : ℕ → MessageHeader}
    (hcmp : (a l).cmp = some fun p q => messageHeaderCmp (contents p) (contents q)) (y : ℕ) :
    (a l).hit x y := by
  rw [Seq.hit, hcmp]
  simp [messageHeaderCmp]

/-- `List_Remove` on a metadata list removes exactly the elements with the name and type of the item if and only if no
element agrees with it in one of the two only; on a header list, which it empties, if and only if all elements have the
name and value of the item. -/
theorem list_remove_exact_iff (h : Refines w ls a) (hx : x ∈ (a l).items) :
    (∀ contents : ℕ → NTLVItem, (w.lists l).cmp = some (fun p q => ntlvCmp (contents p) (contents q)) →
      (RemovesExactly (SameItem contents) w a l x ↔ ∀ y ∈ (a l).items,
        ((contents y).uuidName = (contents x).uuidName ↔ (contents y).uuidType = (contents x).uuidType))) ∧
    ∀ contents : ℕ → MessageHeader, (w.lists l).cmp = some (fun p q => messageHeaderCmp (contents p) (contents q)) →
      (RemovesExactly (SameHeader contents) w a l x ↔ ∀ y ∈ (a l).items, SameHeader contents x y) := by
  refine ⟨fun contents hcmp => ?_, fun contents hcmp => ?_⟩
  · rw [← h.cmp l] at hcmp
    rw [removesExactly_iff h hx]
    refine forall₂_congr fun y _ => ?_
    rw [hit_ntlv hcmp, SameItem]
    tauto
  · rw [← h.cmp l] at hcmp
    rw [removesExactly_iff h hx]
    refine forall₂_congr fun y _ => ?_
    rw [hit_header hcmp y]
    exact ⟨fun hiff => hiff.mp rfl, fun hsame => iff_of_true rfl hsame⟩

end

def comparedLists (cmp : ℕ → ℕ → Bool) : World ℕ :=
  initWorld (fun _ => ⟨none, none, 0, false⟩) (fun _ => .generic) (fun _ => some cmp) fun _ => 0

/-- Two items of different name and type, and a header list of one header. -/
theorem list_remove_exact_two :
    (∃ w ls a, Refines w ls a ∧ (a 0).items = [0, 1] ∧
      RemovesExactly (SameItem fun p => if p = 0 then ⟨1, 3, [7]⟩ else ⟨2, 4, [8]⟩) w a 0 0) ∧
    ∃ w ls a, Refines w ls a ∧ (a 0).items = [0] ∧
      RemovesExactly (SameHeader fun _ => ⟨Text.cString [65], Text.cString [66]⟩) w a 0 0 := by
  constructor
  · have hinit := initWorld_refines (fun _ => ⟨none, none, 0, false⟩) (fun _ => Mode.generic)
      (fun _ => some fun p q => ntlvCmp (if p = 0 then ⟨1, 3, [7]⟩ else ⟨2, 4, [8]⟩)
        (if q = 0 then ⟨1, 3, [7]⟩ else ⟨2, 4, [8]⟩)) fun _ => 0
    obtain ⟨w₁, ls₁, _, _, h₁⟩ := hinit.push_ok 0 0 rfl
    obtain ⟨w₂, ls₂, _, _, h₂⟩ := h₁.push_ok 0 1 rfl
    refine ⟨w₂, ls₂, _, h₂, rfl, ((list_remove_exact_iff h₂ mem_cons_self).1 _ ((h₂.cmp 0).symm.trans rfl)).mpr ?_⟩
    intro y hy
    rcases mem_cons.mp hy with rfl | hy
    · decide
    · obtain rfl := mem_singleton.mp hy
      decide
  · have hinit := initWorld_refines (fun _ => ⟨none, none, 0, false⟩) (fun _ => Mode.generic)
      (fun _ => some fun _ _ => messageHeaderCmp ⟨Text.cString [65], Text.cString [66]⟩
        ⟨Text.cString [65], Text.cString [66]⟩) fun _ => 0
    obtain ⟨w₁, ls₁, _, _, h₁⟩ := hinit.push_ok 0 0 rfl
    refine ⟨w₁, ls₁, _, h₁, rfl, ((list_remove_exact_iff h₁ mem_cons_self).2 _ ((h₁.cmp 0).symm.trans rfl)).mpr ?_⟩
    exact fun y _ => ⟨rfl, rfl⟩

/-- Removing an item takes others of its name or of its type along, and removing a header takes all of them. -/
theorem others_removed :
    (∃ w, run perform [.push true 0 0, .push true 0 1, .push true 0 2, .push true 0 3]
        (comparedLists fun p q => ntlvCmp ([⟨1, 3, [7]⟩, ⟨1, 4, [8]⟩, ⟨2, 3, [9]⟩, ⟨2, 4, [6]⟩].getD p ⟨0, 0, []⟩)
          ([⟨1, 3, [7]⟩, ⟨1, 4, [8]⟩, ⟨2, 3, [9]⟩, ⟨2, 4, [6]⟩].getD q ⟨0, 0, []⟩)) =
          .ok ([.pushed true, .pushed true, .pushed true, .pushed true], w) ∧
      (remove 0 0 w).map Prod.fst = .ok (true, [0, 1, 2])) ∧
    ∃ w, run perform [.push true 0 0, .push true 0 1]
        (comparedLists fun p q => messageHeaderCmp
          (if p = 0 then ⟨Text.cString [65], Text.cString [66]⟩ else ⟨Text.cString [67], Text.cString [68]⟩)
          (if q = 0 then ⟨Text.cString [65], Text.cString [66]⟩ else ⟨Text.cString [67], Text.cString [68]⟩)) =
          .ok ([.pushed true, .pushed true], w) ∧
      (remove 0 0 w).map Prod.fst = .ok (true, [0, 1]) :=
  ⟨⟨_, rfl, rfl⟩, _, rfl, rfl⟩

end Razorback.Ntlv
