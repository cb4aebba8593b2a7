import Razorback.Base.Threads
import Razorback.LocalCache.Defs

/-! What each list operation of the cache does to the four lists. `Rep c ls`
says that the pointers of `c` thread exactly the slots `ls l`, from LRU to MRU,
for each list `l`; every operation is described by its effect on `ls`. -/

namespace Razorback.LocalCache
open Linked Function List

def links (c : Cache) : Links ℕ :=
  ⟨fun i => (c.entrylist i).next, fun i => (c.entrylist i).prev⟩

structure Rep (c : Cache) (ls : ListType → List ℕ) : Prop where
  threads : Threads (links c) c.lru c.mru ls
  unlisted : ls .none = []
  mem : ∀ l, l ≠ .none → ∀ i, i ∈ ls l ↔ i < c.entries ∧ (c.entrylist i).listtype = l

def payload (e : Entry) : ℕ × KeyPtr × UInt32 × UInt32 := (e.size, e.key, e.sfflags, e.entflags)

theorem key_eq_of_payload (h : payload e = payload e') : e.key = e'.key :=
  congrArg (fun p => p.2.1) h

structure Frame (c c' : Cache) : Prop where
  size : c'.size = c.size
  entries : c'.entries = c.entries
  target : c'.target = c.target
  payload : ∀ i, payload (c'.entrylist i) = payload (c.entrylist i)

structure Moves (x : ℕ) (c c' : Cache) : Prop extends Frame c c' where
  listSize : c'.listSize = c.listSize
  listtype : ∀ i, i ≠ x → (c'.entrylist i).listtype = (c.entrylist i).listtype

theorem Moves.refl (x : ℕ) (c : Cache) : Moves x c c :=
  ⟨⟨rfl, rfl, rfl, fun _ => rfl⟩, rfl, fun _ _ => rfl⟩

variable {x : ℕ} {c c' : Cache}

section
variable (h : Moves x c c')
include h

theorem Moves.setLRU (l : ListType) (v : Option ℕ) :
    Moves x c (c'.setLRU l v) :=
  ⟨⟨h.size, h.entries, h.target, h.payload⟩, h.listSize, h.listtype⟩

theorem Moves.setMRU (l : ListType) (v : Option ℕ) :
    Moves x c (c'.setMRU l v) :=
  ⟨⟨h.size, h.entries, h.target, h.payload⟩, h.listSize, h.listtype⟩

theorem Moves.modify (hf : ∀ e, LocalCache.payload (f e) = LocalCache.payload e)
    (ht : i = x ∨ ∀ e, (f e).listtype = e.listtype) : Moves x c (c'.modify i f) := by
  refine ⟨⟨h.size, h.entries, h.target, fun j => (update_field LocalCache.payload (hf _) j).trans (h.payload j)⟩,
    h.listSize, fun j hj => .trans ?_ (h.listtype j hj)⟩
  rcases ht with rfl | ht
  · exact congrArg Entry.listtype (update_of_ne hj _ _)
  · exact update_field Entry.listtype (ht _) j

theorem Moves.setNext (i : ℕ) (v : Option ℕ) :
    Moves x c (c'.setNext i v) := h.modify (fun _ => rfl) (.inr fun _ => rfl)

theorem Moves.setPrev (i : ℕ) (v : Option ℕ) :
    Moves x c (c'.setPrev i v) := h.modify (fun _ => rfl) (.inr fun _ => rfl)

theorem Moves.setType (l : ListType) :
    Moves x c (c'.setType x l) := h.modify (fun _ => rfl) (.inl rfl)

theorem Moves.detach : Moves x c (detach x c') :=
  ((h.setPrev x none).setNext x none).setType .none

end

theorem modify_self (f : Entry → Entry) :
    (c.modify i f).entrylist i = f (c.entrylist i) := update_self ..

theorem modify_of_ne (f : Entry → Entry) (h : j ≠ i) :
    (c.modify i f).entrylist j = c.entrylist j := update_of_ne h ..

theorem modify_field {γ : Type} {c : Cache} {i : ℕ} {f : Entry → Entry} (p : Entry → γ)
    (h : p (f (c.entrylist i)) = p (c.entrylist i)) (j : ℕ) : p ((c.modify i f).entrylist j) = p (c.entrylist j) :=
  update_field p h j

theorem modify_related {R : Entry → Entry → Prop} {c d : Cache} {i j : ℕ} {f : Entry → Entry}
    (hf : ∀ e e', R e e' → R (f e) (f e')) (h : R (c.entrylist j) (d.entrylist j)) :
    R ((c.modify i f).entrylist j) ((d.modify i f).entrylist j) := by
  by_cases hj : j = i
  · subst hj
    rw [modify_self, modify_self]
    exact hf _ _ h
  · rwa [modify_of_ne _ hj, modify_of_ne _ hj]

section
variable (c : Cache) (i j : ℕ) (v : Option ℕ) (l : ListType)

@[simp] theorem setNext_next :
    ((c.setNext i v).entrylist j).next = if j = i then v else (c.entrylist j).next := by
  rw [Cache.setNext, Cache.modify, apply_update fun _ => Entry.next, update_apply]

@[simp] theorem setNext_prev : ((c.setNext i v).entrylist j).prev = (c.entrylist j).prev :=
  update_field Entry.prev (by rfl) j

@[simp] theorem setNext_type : ((c.setNext i v).entrylist j).listtype = (c.entrylist j).listtype :=
  update_field Entry.listtype (by rfl) j

@[simp] theorem setPrev_next : ((c.setPrev i v).entrylist j).next = (c.entrylist j).next :=
  update_field Entry.next (by rfl) j

@[simp] theorem setPrev_prev :
    ((c.setPrev i v).entrylist j).prev = if j = i then v else (c.entrylist j).prev := by
  rw [Cache.setPrev, Cache.modify, apply_update fun _ => Entry.prev, update_apply]

@[simp] theorem setPrev_type : ((c.setPrev i v).entrylist j).listtype = (c.entrylist j).listtype :=
  update_field Entry.listtype (by rfl) j

@[simp] theorem setType_next : ((c.setType i l).entrylist j).next = (c.entrylist j).next :=
  update_field Entry.next (by rfl) j

@[simp] theorem setType_prev : ((c.setType i l).entrylist j).prev = (c.entrylist j).prev :=
  update_field Entry.prev (by rfl) j

@[simp] theorem setType_type :
    ((c.setType i l).entrylist j).listtype = if j = i then l else (c.entrylist j).listtype := by
  rw [Cache.setType, Cache.modify, apply_update fun _ => Entry.listtype, update_apply]

@[simp] theorem setNext_lru : (c.setNext i v).lru = c.lru := rfl
@[simp] theorem setPrev_lru : (c.setPrev i v).lru = c.lru := rfl
@[simp] theorem setType_lru : (c.setType i l).lru = c.lru := rfl
@[simp] theorem setMRU_lru : (c.setMRU l v).lru = c.lru := rfl
@[simp] theorem setLRU_lru : (c.setLRU l v).lru = update c.lru l v := rfl
@[simp] theorem setNext_mru : (c.setNext i v).mru = c.mru := rfl
@[simp] theorem setPrev_mru : (c.setPrev i v).mru = c.mru := rfl
@[simp] theorem setType_mru : (c.setType i l).mru = c.mru := rfl
@[simp] theorem setLRU_mru : (c.setLRU l v).mru = c.mru := rfl
@[simp] theorem setMRU_mru : (c.setMRU l v).mru = update c.mru l v := rfl
@[simp] theorem setNext_entries : (c.setNext i v).entries = c.entries := rfl
@[simp] theorem setPrev_entries : (c.setPrev i v).entries = c.entries := rfl
@[simp] theorem setType_entries : (c.setType i l).entries = c.entries := rfl
@[simp] theorem setLRU_entries : (c.setLRU l v).entries = c.entries := rfl
@[simp] theorem setMRU_entries : (c.setMRU l v).entries = c.entries := rfl
@[simp] theorem setLRU_entrylist : (c.setLRU l v).entrylist = c.entrylist := rfl
@[simp] theorem setMRU_entrylist : (c.setMRU l v).entrylist = c.entrylist := rfl
@[simp] theorem detach_next :
    ((detach i c).entrylist j).next = if j = i then none else (c.entrylist j).next := by
  simp [detach]

@[simp] theorem detach_prev :
    ((detach i c).entrylist j).prev = if j = i then none else (c.entrylist j).prev := by
  simp [detach]

@[simp] theorem detach_type :
    ((detach i c).entrylist j).listtype = if j = i then .none else (c.entrylist j).listtype := by
  simp [detach]

@[simp] theorem detach_lru : (detach i c).lru = c.lru := by simp [detach]
@[simp] theorem detach_mru : (detach i c).mru = c.mru := by simp [detach]
@[simp] theorem detach_entries : (detach i c).entries = c.entries := by simp [detach]

end

section
variable {c c' : Cache} {ls : ListType → List ℕ} {l : ListType} {x : ℕ} {as bs : List ℕ}

theorem Rep.setSize (h : Rep c ls) (m : ListType) (n : ℕ) : Rep (c.setSize m n) ls :=
  ⟨h.threads, h.unlisted, h.mem⟩

theorem Rep.setTarget (h : Rep c ls) (t : ℚ) : Rep { c with target := t } ls :=
  ⟨h.threads, h.unlisted, h.mem⟩

theorem Rep.unlink (h : Rep c ls) (hl : l ≠ .none) (hx : ls l = as ++ x :: bs)
    (hlast : ∀ a, as.getLast? = some a → (c'.entrylist a).next = bs.head?)
    (hhead : ∀ b, bs.head? = some b → (c'.entrylist b).prev = as.getLast?)
    (hnext : ∀ i, i ≠ x → as.getLast? ≠ some i → (c'.entrylist i).next = (c.entrylist i).next)
    (hprev : ∀ i, i ≠ x → bs.head? ≠ some i → (c'.entrylist i).prev = (c.entrylist i).prev)
    (htype : ∀ i, i ≠ x → (c'.entrylist i).listtype = (c.entrylist i).listtype)
    (hxt : (c'.entrylist x).listtype = .none) (hent : c'.entries = c.entries)
    (hlru : c'.lru = update c.lru l (as ++ bs).head?)
    (hmru : c'.mru = update c.mru l (as ++ bs).getLast?) :
    Rep c' (update ls l (as ++ bs)) := by
  have ht := h.threads.unlink (M := links c') hx hlast hhead hnext hprev hlru hmru
  refine ⟨ht, by rw [update_of_ne hl.symm, h.unlisted], fun m hm i => ?_⟩
  have hxin : x ∈ ls l := by simp [hx]
  rw [hent]
  by_cases hix : i = x
  · subst hix
    have hnot : i ∉ update ls l (as ++ bs) m := (forall_update_iff ls fun _ xs => i ∉ xs).mpr
      ⟨h.threads.not_mem_rest hx, fun m hml => h.threads.disjoint l m hml i hxin⟩ m
    rw [hxt]
    exact ⟨fun hi => absurd hi hnot, fun hi => absurd hi.2.symm hm⟩
  · rw [htype i hix, ← h.mem m hm i]
    by_cases hml : m = l
    · subst hml
      simp [hx, hix]
    · rw [update_of_ne hml]

theorem Rep.link (h : Rep c ls) (hl : l ≠ .none) (hx : x < c.entries)
    (hxt : (c.entrylist x).listtype = .none)
    (hxp : (c'.entrylist x).prev = (ls l).getLast?) (hxn : (c'.entrylist x).next = none)
    (hlast : ∀ a, (ls l).getLast? = some a → (c'.entrylist a).next = some x)
    (hnext : ∀ i, i ≠ x → (ls l).getLast? ≠ some i →
      (c'.entrylist i).next = (c.entrylist i).next)
    (hprev : ∀ i, i ≠ x → (c'.entrylist i).prev = (c.entrylist i).prev)
    (htype : ∀ i, i ≠ x → (c'.entrylist i).listtype = (c.entrylist i).listtype)
    (hxl : (c'.entrylist x).listtype = l) (hent : c'.entries = c.entries)
    (hlru : c'.lru = update c.lru l (ls l ++ [x]).head?)
    (hmru : c'.mru = update c.mru l (some x)) :
    Rep c' (update ls l (ls l ++ [x])) := by
  have hout : ∀ m, x ∉ ls m := by
    intro m hxm
    by_cases hm : m = .none
    · rw [hm, h.unlisted] at hxm
      exact not_mem_nil hxm
    · exact hm (((h.mem m hm x).mp hxm).2.symm.trans hxt)
  have ht := h.threads.snoc (M := links c') l hout hxp hxn hlast hnext hprev hlru hmru
  refine ⟨ht, by rw [update_of_ne hl.symm, h.unlisted], fun m hm i => ?_⟩
  rw [hent]
  by_cases hix : i = x
  · subst hix
    rw [hxl]
    by_cases hml : m = l
    · subst hml
      simp [hx]
    · rw [update_of_ne hml]
      exact ⟨fun hi => absurd hi (hout m), fun hi => absurd hi.2.symm hml⟩
  · rw [htype i hix, ← h.mem m hm i]
    by_cases hml : m = l
    · subst hml
      simp [hix]
    · rw [update_of_ne hml]

theorem detach_idem (x : ℕ) (c : Cache) : detach x (detach x c) = detach x c := by
  simp [detach, Cache.setPrev, Cache.setNext, Cache.setType, Cache.modify]

theorem purgeLRU_spec (h : Rep c ls) (hl : l ≠ .none) (hx : ls l = x :: xs) :
    ∃ c', purgeLRU l c = .ok (x, c') ∧ Rep c' (update ls l xs) ∧
      (c'.entrylist x).listtype = .none ∧ Moves x c c' ∧ detach x c' = c' := by
  have hlru : c.lru l = some x := by rw [h.threads.first_eq l, hx, head?_cons]
  have hx' : ls l = [] ++ x :: xs := hx
  have hnx : (c.entrylist x).next = xs.head? := (h.threads.neighbours hx').2
  cases xs with
  | nil =>
    refine ⟨detach x ((c.setLRU l none).setMRU l none), ?_, ?_, by simp, ?_, detach_idem x _⟩
    · simp [purgeLRU, findLRU, hlru, hnx]
    · refine h.unlink hl hx' ?_ ?_ ?_ ?_ ?_ ?_ ?_ ?_ ?_ <;> simp +contextual
    · exact (((Moves.refl x c).setLRU l none).setMRU l none).detach
  | cons y ys =>
    refine ⟨detach x ((c.setPrev y none).setLRU l (some y)), ?_, ?_, by simp, ?_, detach_idem x _⟩
    · simp [purgeLRU, findLRU, hlru, hnx]
    · refine h.unlink hl hx' ?_ ?_ ?_ ?_ ?_ ?_ (by simp) (by simp) ?_
      · simp
      · simp
      · simp +contextual
      · intro i hi hib
        have hiy : i ≠ y := fun e => hib (e ▸ rfl)
        simp [hi, hiy]
      · simp +contextual
      · simp
      · rw [← h.threads.last_of_ne_nil hx' (cons_ne_nil y ys)]
        simp
    · exact (((Moves.refl x c).setPrev y none).setLRU l (some y)).detach

theorem scan_eq_none (test : Entry → Bool) (c : Cache)
    (h : ∀ i < c.entries, test (c.entrylist i) = false) : scan test c = none := by
  have key : ∀ n ≤ c.entries, (range n).foldl
      (fun r i => if test (c.entrylist i) then some i else r) none = none := by
    intro n hn
    induction n with
    | zero => rfl
    | succ n ih => simp [range_succ, ih (by omega), h n (by omega)]
  exact key c.entries le_rfl

theorem Rep.scan_eq_none (h : Rep c ls) (hl : l ≠ .none) (hnil : ls l = []) (test : Entry → Bool) :
    scan (fun e => test e && e.listtype == l) c = none := by
  apply LocalCache.scan_eq_none
  intro i hi
  have hne : (c.entrylist i).listtype ≠ l := by
    intro e
    have := (h.mem l hl i).mpr ⟨hi, e⟩
    simp [hnil] at this
  simp [hne]

theorem findMRU_eq (h : Rep c ls) (hl : l ≠ .none) : findMRU l c = ((ls l).getLast?, c) := by
  have hm := h.threads.last_eq l
  unfold findMRU
  cases hg : (ls l).getLast? with
  | some m => rw [hm, hg]
  | none =>
    have hs := h.scan_eq_none hl (getLast?_eq_none_iff.mp hg) fun e => e.next.isNone
    rw [hm, hg]
    simp only [hs, Cache.setMRU]
    rw [← hg, ← hm, update_eq_self]

theorem findLRU_eq (h : Rep c ls) (hl : l ≠ .none) : findLRU l c = ((ls l).head?, c) := by
  have hf := h.threads.first_eq l
  unfold findLRU
  cases hg : (ls l).head? with
  | some m => rw [hf, hg]
  | none =>
    have hs := h.scan_eq_none hl (head?_eq_none_iff.mp hg) fun e => e.prev.isNone
    rw [hf, hg]
    simp only [hs, Cache.setLRU]
    rw [← hg, ← hf, update_eq_self]

theorem addMRU_moves (x : ℕ) (l : ListType) (c : Cache) : Moves x c (addMRU x l c) := by
  have hfind : ∀ m c', findMRU l c = (m, c') → Moves x c c' := by
    intro m c' hf
    unfold findMRU at hf
    split at hf
    · obtain ⟨_, rfl⟩ := Prod.mk.inj hf
      exact .refl x c
    · obtain ⟨_, rfl⟩ := Prod.mk.inj hf
      exact (Moves.refl x c).setMRU l _
  unfold addMRU
  split
  · rename_i m c' hf
    exact (((((hfind _ _ hf).setNext m (some x)).setPrev x (some m)).setNext x none).setMRU l
      (some x)).setType l
  · rename_i c' hf
    exact (((((hfind _ _ hf).setLRU l (some x)).setPrev x none).setNext x none).setMRU l
      (some x)).setType l

theorem addMRU_spec (h : Rep c ls) (hl : l ≠ .none) (hx : x < c.entries)
    (hxt : (c.entrylist x).listtype = .none) :
    Rep (addMRU x l c) (update ls l (ls l ++ [x])) ∧ Moves x c (addMRU x l c) := by
  refine ⟨?_, addMRU_moves x l c⟩
  have hout : x ∉ ls l := fun hxm => hl (((h.mem l hl x).mp hxm).2.symm.trans hxt)
  cases hg : (ls l).getLast? with
  | none =>
    have hnil : ls l = [] := getLast?_eq_none_iff.mp hg
    rw [addMRU, findMRU_eq h hl]
    refine h.link hl hx hxt ?_ ?_ ?_ ?_ ?_ ?_ ?_ ?_ ?_ ?_ <;> simp +contextual [hnil]
  | some m =>
    have hmx : m ≠ x := fun e => hout (e ▸ mem_of_getLast? hg)
    have hhead : (ls l ++ [x]).head? = c.lru l := by
      rw [h.threads.first_eq l]
      cases hls : ls l with
      | nil => simp [hls] at hg
      | cons a as => simp
    rw [addMRU, findMRU_eq h hl, hg]
    refine h.link hl hx hxt ?_ ?_ ?_ ?_ ?_ ?_ ?_ (by simp) ?_ (by simp)
    · simp [hg]
    · simp
    · intro a ha
      obtain rfl : m = a := by simpa [hg] using ha
      simp [hmx]
    · intro i hi him
      have him' : i ≠ m := fun e => him (e ▸ hg)
      simp [hi, him']
    · simp +contextual
    · simp +contextual
    · simp
    · rw [hhead]
      simp

theorem removeEntry_spec (h : Rep c ls) (hl : l ≠ .none) (hx : ls l = as ++ x :: bs) :
    ∃ c', removeEntry x c = .ok c' ∧ Rep c' (update ls l (as ++ bs)) ∧
      (c'.entrylist x).listtype = .none ∧ Moves x c c' := by
  obtain ⟨hpv, hnx⟩ : (c.entrylist x).prev = as.getLast? ∧ (c.entrylist x).next = bs.head? :=
    h.threads.neighbours hx
  have hxl : x ∉ as ++ bs := h.threads.not_mem_rest hx
  have htype : (c.entrylist x).listtype = l := ((h.mem l hl x).mp (by simp [hx])).2
  rcases hb : bs.head? with _ | n <;> rcases ha : as.getLast? with _ | p
  · obtain rfl := head?_eq_none_iff.mp hb
    obtain rfl := getLast?_eq_none_iff.mp ha
    refine ⟨detach x ((c.setMRU l none).setLRU l none), ?_, ?_, by simp, ?_⟩
    · simp [removeEntry, hnx, hpv, htype, hl]
    · refine h.unlink hl (show ls l = [] ++ x :: _ from hx) ?_ ?_ ?_ ?_ ?_ ?_ ?_ ?_ ?_ <;> simp +contextual
    · exact (((Moves.refl x c).setMRU l none).setLRU l none).detach
  · obtain rfl := head?_eq_none_iff.mp hb
    refine ⟨detach x ((c.setNext p none).setMRU l (some p)), ?_, ?_, by simp, ?_⟩
    · simp [removeEntry, hnx, hpv, ha, htype, hl]
    · refine h.unlink hl hx ?_ ?_ ?_ ?_ ?_ ?_ (by simp) ?_ ?_
      · intro a ha'
        obtain rfl : p = a := by simpa [ha] using ha'
        simp
      · simp
      · intro i hi hip
        have hip' : i ≠ p := fun e => hip (e ▸ ha)
        simp [hi, hip']
      · simp +contextual
      · simp +contextual
      · simp
      · rw [← h.threads.first_of_ne_nil hx (by rintro rfl; simp at ha)]
        simp
      · rw [append_nil, ha]
        simp
    · exact (((Moves.refl x c).setNext p none).setMRU l (some p)).detach
  · obtain rfl := getLast?_eq_none_iff.mp ha
    obtain ⟨c', hp, hr, ht, hm, hd⟩ := purgeLRU_spec h hl hx
    refine ⟨c', ?_, hr, ht, hm⟩
    simp [removeEntry, hnx, hpv, hb, htype, hl, hp, hd, Except.map]
  · have hpx : p ≠ x := fun e => hxl (e ▸ mem_append_left _ (mem_of_getLast? ha))
    have hnx' : n ≠ x := fun e => hxl (e ▸ mem_append_right _ (mem_of_mem_head? hb))
    refine ⟨detach x ((c.setPrev n (some p)).setNext p (some n)), ?_, ?_, by simp, ?_⟩
    · simp [removeEntry, hnx, hpv, ha, hb]
    · refine h.unlink hl hx ?_ ?_ ?_ ?_ ?_ ?_ (by simp) ?_ ?_
      · intro a ha'
        obtain rfl : p = a := by simpa [ha] using ha'
        simp [hpx, hb]
      · intro b hb'
        obtain rfl : n = b := by simpa [hb] using hb'
        simp [hnx', ha]
      · intro i hi hip
        have hip' : i ≠ p := fun e => hip (e ▸ ha)
        simp [hi, hip']
      · intro i hi hin
        have hin' : i ≠ n := fun e => hin (e ▸ hb)
        simp [hi, hin']
      · simp +contextual
      · simp
      · rw [← h.threads.first_of_ne_nil hx (by rintro rfl; simp at ha)]
        simp
      · rw [← h.threads.last_of_ne_nil hx (by rintro rfl; simp at hb)]
        simp
    · exact (((Moves.refl x c).setPrev n (some p)).setNext p (some n)).detach

end

end Razorback.LocalCache
