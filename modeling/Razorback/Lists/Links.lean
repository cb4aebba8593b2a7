import Razorback.Base.Runs
import Razorback.Base.Threads
import Razorback.Lists.Defs

/-! The pointers of the lists. `Rep w ls` says that the links of every list `l`
thread the nodes `ls l` and that its length counts them; pushing and unlinking a
node are described by what they do to these sequences. -/

namespace Razorback.Lists
open Linked Runs List Function

section
variable {α : Type}

def links (w : World α) : Links ℕ := ⟨fun n => (w.nodes n).next, fun n => (w.nodes n).prev⟩

def heads (w : World α) (l : ℕ) : Option ℕ := (w.lists l).head

def tails (w : World α) (l : ℕ) : Option ℕ := (w.lists l).tail

structure Rep (w : World α) (ls : ℕ → List ℕ) : Prop where
  threads : Threads (links w) (heads w) (tails w) ls
  fresh : ∀ l, ∀ n ∈ ls l, n < w.fresh
  length : ∀ l, (w.lists l).length = (ls l).length

def Clean (w : World α) (ls : ℕ → List ℕ) : Prop := ∀ l, ∀ n ∈ ls l, (w.nodes n).del = false

def itemsOf (w : World α) (ns : List ℕ) : List α := ns.map fun n => (w.nodes n).item

structure Settings (w w' : World α) : Prop where
  item : ∀ n, (w'.nodes n).item = (w.nodes n).item
  mode : ∀ l, (w'.lists l).mode = (w.lists l).mode
  limit : ∀ l, (w'.lists l).limit = (w.lists l).limit
  cmp : ∀ l, (w'.lists l).cmp = (w.lists l).cmp
  sem : ∀ l, (w'.lists l).sem = (w.lists l).sem

structure Keeps (w w' : World α) : Prop extends Settings w w' where
  fresh : w'.fresh = w.fresh
  del : ∀ n, (w'.nodes n).del = (w.nodes n).del

theorem Settings.trans (h : Settings w w') (h' : Settings w' w'') : Settings w w'' :=
  ⟨fun n => (h'.item n).trans (h.item n), fun l => (h'.mode l).trans (h.mode l),
    fun l => (h'.limit l).trans (h.limit l), fun l => (h'.cmp l).trans (h.cmp l),
    fun l => (h'.sem l).trans (h.sem l)⟩

theorem Keeps.refl (w : World α) : Keeps w w :=
  ⟨⟨fun _ => rfl, fun _ => rfl, fun _ => rfl, fun _ => rfl, fun _ => rfl⟩, rfl, fun _ => rfl⟩

theorem Keeps.trans (h : Keeps w w') (h' : Keeps w' w'') : Keeps w w'' :=
  ⟨h.toSettings.trans h'.toSettings, h'.fresh.trans h.fresh, fun n => (h'.del n).trans (h.del n)⟩

variable {w w' : World α}

section
variable (h : Keeps w w')
include h

theorem Keeps.modify (n : ℕ)
    (hf : ∀ d, (f d).item = d.item ∧ (f d).del = d.del) : Keeps w (w'.modify n f) :=
  ⟨⟨fun m => (update_field Node.item (hf _).1 m).trans (h.item m), h.mode, h.limit, h.cmp, h.sem⟩, h.fresh,
    fun m => (update_field Node.del (hf _).2 m).trans (h.del m)⟩

theorem Keeps.setList (l : ℕ)
    (hf : ∀ L, (f L).mode = L.mode ∧ (f L).limit = L.limit ∧ (f L).cmp = L.cmp ∧ (f L).sem = L.sem) :
    Keeps w (w'.setList l f) :=
  ⟨⟨h.item, fun m => (update_field LinkedList.mode (hf _).1 m).trans (h.mode m),
    fun m => (update_field LinkedList.limit (hf _).2.1 m).trans (h.limit m),
    fun m => (update_field LinkedList.cmp (hf _).2.2.1 m).trans (h.cmp m),
    fun m => (update_field LinkedList.sem (hf _).2.2.2 m).trans (h.sem m)⟩, h.fresh, h.del⟩

theorem Keeps.setNext (n : ℕ) (v : Option ℕ) :
    Keeps w (w'.setNext n v) := h.modify n fun _ => ⟨rfl, rfl⟩

theorem Keeps.setPrev (n : ℕ) (v : Option ℕ) :
    Keeps w (w'.setPrev n v) := h.modify n fun _ => ⟨rfl, rfl⟩

theorem Keeps.setHead (l : ℕ) (v : Option ℕ) :
    Keeps w (w'.setHead l v) := h.setList l fun _ => ⟨rfl, rfl, rfl, rfl⟩

theorem Keeps.setTail (l : ℕ) (v : Option ℕ) :
    Keeps w (w'.setTail l v) := h.setList l fun _ => ⟨rfl, rfl, rfl, rfl⟩

theorem Keeps.setLength (l n : ℕ) : Keeps w (w'.setLength l n) :=
  h.setList l fun _ => ⟨rfl, rfl, rfl, rfl⟩

end

end

section
variable {α : Type} (w : World α) (l n m : ℕ) (v : Option ℕ)

@[simp] theorem setNext_next :
    ((w.setNext n v).nodes m).next = if m = n then v else (w.nodes m).next := by
  rw [World.setNext, World.modify, apply_update fun _ => Node.next, update_apply]

@[simp] theorem setNext_prev : ((w.setNext n v).nodes m).prev = (w.nodes m).prev := update_field Node.prev (by rfl) m

@[simp] theorem setPrev_prev :
    ((w.setPrev n v).nodes m).prev = if m = n then v else (w.nodes m).prev := by
  rw [World.setPrev, World.modify, apply_update fun _ => Node.prev, update_apply]

@[simp] theorem setPrev_next : ((w.setPrev n v).nodes m).next = (w.nodes m).next := update_field Node.next (by rfl) m

@[simp] theorem setNext_lists : (w.setNext n v).lists = w.lists := rfl
@[simp] theorem setPrev_lists : (w.setPrev n v).lists = w.lists := rfl
@[simp] theorem setHead_nodes : (w.setHead l v).nodes = w.nodes := rfl
@[simp] theorem setTail_nodes : (w.setTail l v).nodes = w.nodes := rfl
@[simp] theorem setLength_nodes : (w.setLength l n).nodes = w.nodes := rfl
@[simp] theorem setSem_nodes : (w.setSem l v).nodes = w.nodes := rfl
@[simp] theorem setNext_heads : heads (w.setNext n v) = heads w := rfl
@[simp] theorem setPrev_heads : heads (w.setPrev n v) = heads w := rfl
@[simp] theorem setNext_tails : tails (w.setNext n v) = tails w := rfl
@[simp] theorem setPrev_tails : tails (w.setPrev n v) = tails w := rfl

@[simp] theorem setHead_heads : heads (w.setHead l v) = update (heads w) l v :=
  funext (apply_update (fun _ => LinkedList.head) w.lists l _)

@[simp] theorem setTail_tails : tails (w.setTail l v) = update (tails w) l v :=
  funext (apply_update (fun _ => LinkedList.tail) w.lists l _)

@[simp] theorem setTail_heads : heads (w.setTail l v) = heads w :=
  funext (update_field LinkedList.head rfl)

@[simp] theorem setHead_tails : tails (w.setHead l v) = tails w :=
  funext (update_field LinkedList.tail rfl)

@[simp] theorem setLength_heads : heads (w.setLength l n) = heads w :=
  funext (update_field LinkedList.head rfl)

@[simp] theorem setLength_tails : tails (w.setLength l n) = tails w :=
  funext (update_field LinkedList.tail rfl)

@[simp] theorem setSem_heads : heads (w.setSem l v) = heads w :=
  funext (update_field LinkedList.head rfl)

@[simp] theorem setSem_tails : tails (w.setSem l v) = tails w :=
  funext (update_field LinkedList.tail rfl)

@[simp] theorem setHead_length : ((w.setHead l v).lists m).length = (w.lists m).length :=
  update_field LinkedList.length (by rfl) m

@[simp] theorem setTail_length : ((w.setTail l v).lists m).length = (w.lists m).length :=
  update_field LinkedList.length (by rfl) m

@[simp] theorem setSem_length : ((w.setSem l v).lists m).length = (w.lists m).length :=
  update_field LinkedList.length (by rfl) m

@[simp] theorem setLength_length :
    ((w.setLength l n).lists m).length = if m = l then n else (w.lists m).length := by
  rw [World.setLength, World.setList, apply_update fun _ => LinkedList.length, update_apply]

end

section
variable {α : Type} {w w' : World α} {ls : ℕ → List ℕ} {l n : ℕ} {as bs : List ℕ}

theorem Rep.setSem (h : Rep w ls) (l : ℕ) (v : Option ℕ) : Rep (w.setSem l v) ls := by
  refine ⟨?_, h.fresh, fun m => by rw [setSem_length, h.length m]⟩
  rw [setSem_heads, setSem_tails]
  exact h.threads

theorem Rep.update (h : Rep w ls) (ht : Threads (links w') (heads w') (tails w') (update ls l xs))
    (hfresh : w.fresh ≤ w'.fresh) (hxs : ∀ n ∈ xs, n < w'.fresh)
    (hlen : ∀ m, (w'.lists m).length = if m = l then xs.length else (w.lists m).length) :
    Rep w' (update ls l xs) := by
  refine ⟨ht, (forall_update_iff ls fun _ xs => ∀ n ∈ xs, n < w'.fresh).mpr ⟨hxs, ?_⟩, fun m => ?_⟩
  · exact fun m _ n hn => (h.fresh m n hn).trans_le hfresh
  · rw [hlen m, apply_update fun _ => List.length, update_apply, h.length m]

theorem removeNode_relinks (h : Rep w ls) (hn : ls l = as ++ n :: bs) :
    ∃ w₁, removeNode l n w = .ok (w₁.setLength l ((w₁.lists l).length - 1)) ∧
      (∀ m, (w₁.lists m).length = (w.lists m).length) ∧ Keeps w w₁ ∧
      Threads (links w₁) (heads w₁) (tails w₁) (update ls l (as ++ bs)) := by
  obtain ⟨hpv, hnx⟩ : (w.nodes n).prev = as.getLast? ∧ (w.nodes n).next = bs.head? :=
    h.threads.neighbours hn
  have hhead : (w.lists l).head = (as ++ n :: bs).head? := hn ▸ h.threads.first_eq l
  have htail : (w.lists l).tail = (as ++ n :: bs).getLast? := hn ▸ h.threads.last_eq l
  have hhne : (w.lists l).head ≠ none := by simp [hhead]
  have hk := Keeps.refl w
  rcases hb : bs.head? with _ | b <;> rcases ha : as.getLast? with _ | p
  · obtain rfl := head?_eq_none_iff.mp hb
    obtain rfl := getLast?_eq_none_iff.mp ha
    refine ⟨(w.setHead l none).setTail l none, ?_, by simp, (hk.setHead l _).setTail l _, ?_⟩
    · simp [removeNode, hhead, htail]
    · refine h.threads.unlink hn ?_ ?_ ?_ ?_ ?_ ?_ <;> simp [links]
  · obtain rfl := head?_eq_none_iff.mp hb
    have has : as ≠ [] := by rintro rfl; simp at ha
    have hhn : (w.lists l).head ≠ some n := h.threads.first_ne hn has
    refine ⟨(w.setTail l (some p)).setNext p none, ?_, by simp, (hk.setTail l _).setNext p _, ?_⟩
    · simp [removeNode, hhn, hhne, htail, hpv, ha]
    · refine h.threads.unlink hn ?_ (by simp) ?_ (by simp [links]) ?_ (by simp [ha])
      · simp [links, ha]
      · intro y hy hyp
        have hyp' : y ≠ p := fun e => hyp (e ▸ ha)
        simp [links, hyp']
      · rw [← h.threads.first_of_ne_nil hn has]
        simp
  · obtain rfl := getLast?_eq_none_iff.mp ha
    have hbs : bs ≠ [] := by rintro rfl; simp at hb
    have htn : (w.lists l).tail ≠ some n := h.threads.last_ne hn hbs
    refine ⟨(w.setHead l (some b)).setPrev b none, ?_, by simp, (hk.setHead l _).setPrev b _, ?_⟩
    · simp [removeNode, hhead, htn, hnx, hb]
    · refine h.threads.unlink hn (by simp) (by simp [links, hb]) (by simp [links]) ?_ (by simp [hb]) ?_
      · intro y hy hyb
        have hyb' : y ≠ b := fun e => hyb (e ▸ hb)
        simp [links, hyb']
      · rw [← h.threads.last_of_ne_nil hn hbs]
        simp
  · have has : as ≠ [] := by rintro rfl; simp at ha
    have hbs : bs ≠ [] := by rintro rfl; simp at hb
    have hhn : (w.lists l).head ≠ some n := h.threads.first_ne hn has
    have htn : (w.lists l).tail ≠ some n := h.threads.last_ne hn hbs
    refine ⟨(w.setNext p (some b)).setPrev b (some p), ?_, by simp, (hk.setNext p _).setPrev b _, ?_⟩
    · simp [removeNode, hhn, hhne, htn, hnx, hpv, ha, hb]
    · refine h.threads.unlink hn (by simp [links, ha, hb]) (by simp [links, ha, hb]) ?_ ?_ ?_ ?_
      · intro y hy hyp
        have hyp' : y ≠ p := fun e => hyp (e ▸ ha)
        simp [links, hyp']
      · intro y hy hyb
        have hyb' : y ≠ b := fun e => hyb (e ▸ hb)
        simp [links, hyb']
      · rw [← h.threads.first_of_ne_nil hn has]
        simp
      · rw [← h.threads.last_of_ne_nil hn hbs]
        simp

theorem removeNode_spec (h : Rep w ls) (hn : ls l = as ++ n :: bs) :
    ∃ w', removeNode l n w = .ok w' ∧ Rep w' (update ls l (as ++ bs)) ∧ Keeps w w' := by
  obtain ⟨w₁, hr, hlen, hk, ht⟩ := removeNode_relinks h hn
  refine ⟨_, hr, h.update ?_ (Nat.le_of_eq hk.fresh.symm) (fun m hm => ?_) fun m => ?_, hk.setLength l _⟩
  · rw [setLength_heads, setLength_tails]
    exact ht
  · refine hk.fresh ▸ h.fresh l m ?_
    rw [hn, mem_append]
    rw [mem_append] at hm
    tauto
  · rw [setLength_length, hlen l, hlen m, h.length l, hn]
    simp

section
variable (h : Rep w ls) (hout : ∀ m, n ∉ ls m) (hnx : (w.nodes n).next = none) (hpv : (w.nodes n).prev = none)
include h hout hnx hpv

theorem queuePush_threads (l : ℕ) :
    Threads (links (queuePush l n w)) (heads (queuePush l n w)) (tails (queuePush l n w))
      (update ls l (ls l ++ [n])) := by
  have htail : (w.lists l).tail = (ls l).getLast? := h.threads.last_eq l
  have hne : ∀ y ∈ ls l, y ≠ n := fun y hy e => hout l (e ▸ hy)
  unfold queuePush
  cases ht : (w.lists l).tail with
  | none =>
    have hnil : ls l = [] := getLast?_eq_none_iff.mp (htail.symm.trans ht)
    refine h.threads.snoc l hout ?_ ?_ ?_ ?_ ?_ ?_ ?_ <;> simp [links, hnil, hnx, hpv]
  | some t =>
    have hlast : (ls l).getLast? = some t := htail.symm.trans ht
    have htn : t ≠ n := hne t (mem_of_getLast? hlast)
    refine h.threads.snoc l hout ?_ ?_ ?_ ?_ ?_ ?_ ?_
    · simp [links, hlast]
    · simp [links, htn.symm, hnx]
    · intro a ha
      obtain rfl : t = a := by simpa [hlast] using ha
      simp [links]
    · intro y hy hyt
      have hyt' : y ≠ t := fun e => hyt (e ▸ hlast)
      simp [links, hyt']
    · intro y hy
      simp [links, hy]
    · have hfirst : heads w l = (ls l ++ [n]).head? := by
        refine (h.threads.first_eq l).trans ?_
        cases hls : ls l with
        | nil => simp [hls] at hlast
        | cons a as => simp
      rw [← hfirst]
      simp
    · simp

theorem stackPush_threads (l : ℕ) :
    Threads (links (stackPush l n w)) (heads (stackPush l n w)) (tails (stackPush l n w))
      (update ls l (n :: ls l)) := by
  have hhead : (w.lists l).head = (ls l).head? := h.threads.first_eq l
  have hne : ∀ y ∈ ls l, y ≠ n := fun y hy e => hout l (e ▸ hy)
  unfold stackPush
  cases hh : (w.lists l).head with
  | none =>
    have hnil : ls l = [] := head?_eq_none_iff.mp (hhead.symm.trans hh)
    refine h.threads.push l hout ?_ ?_ ?_ ?_ ?_ ?_ ?_ <;> simp [links, hnil, hnx, hpv]
  | some b =>
    have hfirst : (ls l).head? = some b := hhead.symm.trans hh
    have hbn : b ≠ n := hne b (mem_of_mem_head? hfirst)
    refine h.threads.push l hout ?_ ?_ ?_ ?_ ?_ ?_ ?_
    · simp [links, hbn.symm, hpv]
    · simp [links, hfirst]
    · intro a ha
      obtain rfl : b = a := by simpa [hfirst] using ha
      simp [links]
    · intro y hy hyb
      have hyb' : y ≠ b := fun e => hyb (e ▸ hfirst)
      simp [links, hyb']
    · intro y hy
      simp [links, hy]
    · simp
    · have hlast : tails w l = (n :: ls l).getLast? := by
        refine (h.threads.last_eq l).trans ?_
        cases hls : ls l with
        | nil => simp [hls] at hfirst
        | cons a as => simp
      rw [← hlast]
      simp

end

theorem queuePush_keeps (l n : ℕ) (w : World α) : Keeps w (queuePush l n w) := by
  unfold queuePush
  cases (w.lists l).tail with
  | none => exact ((Keeps.refl w).setHead l _).setTail l _
  | some t => exact (((Keeps.refl w).setPrev n _).setNext t _).setTail l _

theorem stackPush_keeps (l n : ℕ) (w : World α) : Keeps w (stackPush l n w) := by
  unfold stackPush
  cases (w.lists l).head with
  | none => exact ((Keeps.refl w).setHead l _).setTail l _
  | some t => exact (((Keeps.refl w).setNext n _).setPrev t _).setHead l _

end

end Razorback.Lists
