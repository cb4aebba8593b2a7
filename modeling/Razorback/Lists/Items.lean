import Razorback.Lists.Refine

/-! What a user of a generic list reads and moves: `List_Find` and
`List_Transfer` on the items. -/

namespace Razorback.Lists

variable {α : Type}

/-- `List_FindKeyCmp`, where `equal` is `keyCmp` against the key with result zero. -/
def findKeyCmp (equal : α → Bool) (item : α) (ret : Option α) : EachCode × Option α :=
  if equal item then (.end, some item) else (.ok, ret)

def find (equal : α → Bool) (items : List α) : Option α := (Seq.visit (findKeyCmp equal) items none).2.1

theorem find_eq (equal : α → Bool) (items : List α) : find equal items = items.find? equal := by
  unfold find
  induction items with
  | nil => rfl
  | cons x xs ih =>
    cases hx : equal x with
    | true => simp [Seq.visit, findKeyCmp, hx]
    | false =>
      simp only [Seq.visit, findKeyCmp, hx, List.find?_cons]
      exact ih

/-- A pass that neither fails nor ends early. -/
theorem visit_plain {σ : Type} (gone : α → Bool) (next : α → σ → σ) (xs : List α) (s : σ) :
    Seq.visit (fun x s => (if gone x then .remove else .ok, next x s)) xs s =
      (true, xs.foldl (fun s x => next x s) s, xs.filter (fun x => !gone x), xs.filter gone) := by
  induction xs generalizing s with
  | nil => rfl
  | cons x xs ih => cases hx : gone x <;> simp [Seq.visit, hx, ih]

theorem visit_ok {σ : Type} (next : α → σ → σ) (xs : List α) (s : σ) :
    Seq.visit (fun x s => (.ok, next x s)) xs s = (true, xs.foldl (fun s x => next x s) s, xs, []) := by
  simpa using visit_plain (fun _ => false) next xs s

theorem visit_findRemove (hit : α → Bool) (xs : List α) (s : Option α) :
    let v := Seq.visit (fun x found => if hit x then (.remove, some x) else (.ok, found)) xs s
    v.2.1 = (xs.filter hit).getLast?.or s ∧ v.2.2.1 = xs.filter (fun x => !hit x) ∧ v.2.2.2 = xs.filter hit := by
  induction xs generalizing s with
  | nil => simp [Seq.visit]
  | cons x xs ih =>
    cases hx : hit x with
    | true =>
      obtain ⟨hs, hkept, hgone⟩ := ih (some x)
      simp [Seq.visit, hx, hs, hkept, hgone, List.getLast?_cons]
    | false =>
      obtain ⟨hs, hkept, hgone⟩ := ih s
      simp [Seq.visit, hx, hs, hkept, hgone]

theorem visit_perm {σ : Type} (op : α → σ → EachCode × σ) (items : List α) (s : σ) :
    ((Seq.visit op items s).2.2.1 ++ (Seq.visit op items s).2.2.2).Perm items := by
  induction items generalizing s with
  | nil => exact .nil
  | cons x xs ih =>
    rcases hop : op x s with ⟨code, s'⟩
    cases code with
    | error | «end» => simp [Seq.visit, hop]
    | remove => simpa only [Seq.visit, hop] using List.perm_middle.trans ((ih s').cons x)
    | ok => simpa only [Seq.visit, hop, List.cons_append] using (ih s').cons x

theorem visit_kept_length {σ : Type} (op : α → σ → EachCode × σ) (items : List α) (s : σ) :
    (Seq.visit op items s).2.2.1.length ≤ items.length := by
  simp [← (visit_perm op items s).length_eq]

def transferItems (_dest source : List α) : List α × List α := (source, [])

theorem transfer_items [DecidableEq α] (hne : dest ≠ source) (a : ℕ → Seq α) :
    ∃ destroyed a', callSeq (.transfer dest source) a = .ok (.transferred destroyed, a') ∧
      ((a' dest).items, (a' source).items) = transferItems (a dest).items (a source).items := by
  refine ⟨_, _, if_neg hne, ?_⟩
  rw [Function.update_of_ne hne, Function.update_self, Function.update_self]
  rfl

end Razorback.Lists
