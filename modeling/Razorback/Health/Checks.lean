import Razorback.Health.Defs

/-! No callback of a health check runs once `UnregisterCheck` has returned true
for it, and no check is freed under an evaluation. Every check that was
registered is on the list, with the one who removes it, or freed; whoever
removes it has seen `activeSnapshots` at 0 after it was off the list, where no
evaluation can take it any more. -/

namespace Razorback.Health
open Runs Histories Holders References Function List Option Nat Bool

def Pc.held : Pc → List ℕ
  | .running snapshot _ | .inCallback snapshot _ _ | .releasing snapshot => snapshot
  | _ => []

def Pc.holds (c : ℕ) (pc : Pc) : Bool := pc.held.contains c

def Pc.calls (c : ℕ) : Pc → Bool
  | .inCallback _ _ c' => c' == c
  | _ => false

def Pc.removes (c : ℕ) : Pc → Bool
  | .waiting _ c' | .freeing _ c' => c' == c
  | _ => false

def Pc.frees (c : ℕ) : Pc → Bool
  | .freeing _ c' => c' == c
  | _ => false

def Pc.Ok : Pc → Prop
  | .running snapshot rest => snapshot.Nodup ∧ rest ⊆ snapshot
  | .inCallback snapshot rest c => snapshot.Nodup ∧ rest ⊆ snapshot ∧ c ∈ snapshot
  | .releasing snapshot => snapshot.Nodup
  | .waiting (.unregister id) c | .freeing (.unregister id) c => id = c + 1
  | _ => True

def State.listed {n : ℕ} (s : State n) : List ℕ := s.list.getD []

/-- As long as ids do not repeat, the check with number `c` has the id `c + 1`. -/
structure Inv {n : ℕ} (es : List Event) (s : State n) : Prop where
  ok : ∀ t, (s.pcs t).Ok
  ids : ∀ c < s.fresh, (s.checks c).id = c + 1
  next : s.nextCheckId = (s.fresh + 1) % 2 ^ 64
  numbered : ∀ c id, .registered c id ∈ es → c < s.fresh ∧ id = c + 1
  once : ∀ c, es.count (.registered c (c + 1)) ≤ 1
  place : ∀ c, s.listed.count c + holders (Pc.removes c) s.pcs + es.count (.freed c) = es.count (.registered c (c + 1))
  snapshots : ∀ c, (s.checks c).activeSnapshots = holders (Pc.holds c) s.pcs % 2 ^ 64
  retained : ∀ c, es.count (.retained c) = es.count (.released c) + holders (Pc.holds c) s.pcs
  called : ∀ c, es.count (.called c) = es.count (.returned c) + holders (Pc.calls c) s.pcs
  alive : ∀ c, 0 < holders (Pc.holds c) s.pcs → .registered c (c + 1) ∈ es
  quiet : ∀ c, 0 < holders (Pc.frees c) s.pcs + es.count (.freed c) → holders (Pc.holds c) s.pcs = 0
  gone : ∀ id, .unregistered id true ∈ es → ∃ c, id = c + 1 ∧ .freed c ∈ es
  sound : Justified Sound es

section
variable {n : ℕ} {es e : List Event} {s s' : State n} {t : Fin n} {c : ℕ}

theorem frees_le_removes (c : ℕ) (pc : Pc) (h : pc.frees c) : pc.removes c := by
  cases pc with
  | freeing r c' => exact h
  | _ => cases h

theorem Inv.of_listed (h : Inv es s) (hc : c ∈ s.listed) :
    .registered c (c + 1) ∈ es ∧ holders (Pc.frees c) s.pcs = 0 ∧ .freed c ∉ es := by
  have hpos : 0 < s.listed.count c := count_pos_iff.mpr hc
  have hplace := h.place c
  have honce := h.once c
  have hle := holders_mono (frees_le_removes c) s.pcs
  refine ⟨count_pos_iff.mp (by omega), by omega, fun hf => ?_⟩
  have := count_pos_iff.mpr hf
  omega

theorem Inv.of_removes (h : Inv es s) (hc : (s.pcs t).removes c) :
    .registered c (c + 1) ∈ es ∧ c ∉ s.listed ∧ .freed c ∉ es := by
  have hpos : 0 < holders (Pc.removes c) s.pcs := holders_pos hc
  have hplace := h.place c
  have honce := h.once c
  refine ⟨count_pos_iff.mp (by omega), fun hl => ?_, fun hf => ?_⟩
  · have := count_pos_iff.mpr hl
    omega
  · have := count_pos_iff.mpr hf
    omega

theorem Inv.of_holds (h : Inv es s) (hc : c ∈ (s.pcs t).held) :
    .registered c (c + 1) ∈ es ∧ .freed c ∉ es ∧ .unregistered (c + 1) true ∉ es := by
  have hpos : 0 < holders (Pc.holds c) s.pcs := holders_pos (contains_iff_mem.mpr hc)
  have hfreed : .freed c ∉ es := fun hf => by
    have := h.quiet c (Nat.add_pos_right _ (count_pos_iff.mpr hf))
    omega
  refine ⟨h.alive c hpos, hfreed, fun hu => ?_⟩
  obtain ⟨c', hid, hf⟩ := h.gone _ hu
  obtain rfl : c = c' := by omega
  exact hfreed hf

structure Moves (t : Fin n) (e : List Event) (s s' : State n) : Prop where
  others : ∀ u, u ≠ t → s'.pcs u = s.pcs u
  ok : (s'.pcs t).Ok
  fresh : s'.fresh = s.fresh
  next : s'.nextCheckId = s.nextCheckId
  ids : ∀ c, (s'.checks c).id = (s.checks c).id
  silent : ∀ c id, .registered c id ∉ e
  place : ∀ c, s'.listed.count c + ((s'.pcs t).removes c).toNat + e.count (.freed c) =
    s.listed.count c + ((s.pcs t).removes c).toNat
  snapshots : ∀ c k, (s.checks c).activeSnapshots = (k + ((s.pcs t).holds c).toNat) % 2 ^ 64 →
    (s'.checks c).activeSnapshots = (k + ((s'.pcs t).holds c).toNat) % 2 ^ 64
  retained : ∀ c, e.count (.retained c) + ((s.pcs t).holds c).toNat = e.count (.released c) + ((s'.pcs t).holds c).toNat
  called : ∀ c, e.count (.called c) + ((s.pcs t).calls c).toNat = e.count (.returned c) + ((s'.pcs t).calls c).toNat
  held : ∀ c ∈ (s'.pcs t).held, c ∈ (s.pcs t).held ∨ c ∈ s.listed
  frees : ∀ c, (s'.pcs t).frees c = true → (s.pcs t).removes c = true ∧
    ((s.pcs t).frees c = true ∨ holders (Pc.holds c) s.pcs = 0)
  freed : ∀ c, .freed c ∈ e → (s.pcs t).frees c = true
  gone : ∀ id, .unregistered id true ∈ e → ∃ c, id = c + 1 ∧ .freed c ∈ e

theorem Moves.holders (hm : Moves t e s s') (p : Pc → Bool) :
    holders p s'.pcs + (p (s.pcs t)).toNat = holders p s.pcs + (p (s'.pcs t)).toNat := by
  have hpcs : s'.pcs = update s.pcs t (s'.pcs t) := by
    funext u
    by_cases hu : u = t
    · rw [hu, update_self]
    · rw [update_of_ne hu, hm.others u hu]
  conv_lhs => rw [hpcs]
  exact holders_update p s.pcs t (s'.pcs t)

theorem Moves.held_or_listed (hm : Moves t e s s') (hc : 0 < Holders.holders (Pc.holds c) s'.pcs) :
    0 < Holders.holders (Pc.holds c) s.pcs ∨ c ∈ s.listed := by
  obtain ⟨u, hu⟩ := exists_of_holders_pos hc
  have hmem := contains_iff_mem.mp hu
  by_cases hut : u = t
  · subst hut
    exact (hm.held c hmem).imp (fun h => holders_pos (contains_iff_mem.mpr h)) id
  · rw [hm.others u hut] at hmem
    exact .inl (holders_pos (contains_iff_mem.mpr hmem))

theorem Moves.frees_or_quiet (hm : Moves t e s s') (h : Inv es s)
    (hc : 0 < Holders.holders (Pc.frees c) s'.pcs + (es ++ e).count (.freed c)) :
    0 < Holders.holders (Pc.frees c) s.pcs + es.count (.freed c) ∨
      Holders.holders (Pc.holds c) s.pcs = 0 ∧ c ∉ s.listed := by
  rw [count_append] at hc
  by_cases he : .freed c ∈ e
  · exact .inl (Nat.add_pos_left (holders_pos (hm.freed c he)) _)
  · rw [count_eq_zero_of_not_mem he] at hc
    rcases Nat.eq_zero_or_pos (es.count (.freed c)) with h0 | hpos
    · obtain ⟨u, hu⟩ := exists_of_holders_pos (by omega : 0 < Holders.holders (Pc.frees c) s'.pcs)
      by_cases hut : u = t
      · subst hut
        obtain ⟨hremoves, hfrees⟩ := hm.frees c hu
        exact hfrees.imp (fun h => Nat.add_pos_left (holders_pos h) _) fun h0 => ⟨h0, (h.of_removes hremoves).2.1⟩
      · rw [hm.others u hut] at hu
        exact .inl (Nat.add_pos_left (holders_pos hu) _)
    · exact .inl (Nat.add_pos_right _ hpos)

theorem Inv.move (h : Inv es s) (hm : Moves t e s s') (hsound : Justified (fun before x => Sound (es ++ before) x) e) :
    Inv (es ++ e) s' := by
  have hregistered : ∀ c id, .registered c id ∈ es ++ e → .registered c id ∈ es := fun c id hx =>
    (mem_append.mp hx).resolve_right (hm.silent c id)
  have hcount : ∀ c, (es ++ e).count (.registered c (c + 1)) = es.count (.registered c (c + 1)) := fun c => by
    rw [count_append, count_eq_zero_of_not_mem (hm.silent c _), add_zero]
  have hquiet : ∀ c, holders (Pc.holds c) s'.pcs ≠ 0 → holders (Pc.frees c) s.pcs + es.count (.freed c) = 0 := by
    intro c hne
    rcases hm.held_or_listed (pos_of_ne_zero hne) with hheld | hl
    · by_contra hpos
      have := h.quiet c (pos_of_ne_zero hpos)
      omega
    · obtain ⟨_, hfrees, hfreed⟩ := h.of_listed hl
      rw [hfrees, count_eq_zero_of_not_mem hfreed]
  refine ⟨fun u => ?_, fun c hc => ?_, ?_, fun c id hx => ?_, fun c => ?_, fun c => ?_, fun c => ?_, fun c => ?_,
    fun c => ?_, fun c hc => ?_, fun c hc => ?_, fun id hx => ?_, h.sound.append hsound⟩
  · by_cases hu : u = t
    · exact hu ▸ hm.ok
    · exact hm.others u hu ▸ h.ok u
  · rw [hm.ids c]
    exact h.ids c (hm.fresh ▸ hc)
  · rw [hm.next, hm.fresh, h.next]
  · rw [hm.fresh]
    exact h.numbered c id (hregistered c id hx)
  · rw [hcount c]
    exact h.once c
  · have hplace := h.place c
    have hmove := hm.place c
    have hold := hm.holders (Pc.removes c)
    rw [hcount c, count_append]
    omega
  · have hold := hm.holders (Pc.holds c)
    have hle : ((s.pcs t).holds c).toNat ≤ holders (Pc.holds c) s.pcs := by
      rw [holders_eq_add _ _ t]
      exact le_add_right _ _
    have hk := hm.snapshots c (holders (Pc.holds c) s.pcs - ((s.pcs t).holds c).toNat)
      (by rw [Nat.sub_add_cancel hle, h.snapshots c])
    omega
  · have hret := h.retained c
    have hmove := hm.retained c
    have hold := hm.holders (Pc.holds c)
    rw [count_append, count_append]
    omega
  · have hcal := h.called c
    have hmove := hm.called c
    have hold := hm.holders (Pc.calls c)
    rw [count_append, count_append]
    omega
  · refine mem_append_left _ ?_
    rcases hm.held_or_listed hc with hheld | hl
    · exact h.alive c hheld
    · exact (h.of_listed hl).1
  · by_contra hne
    rcases hm.frees_or_quiet h hc with hfrees | ⟨h0, hl⟩
    · exact ne_of_gt hfrees (hquiet c hne)
    · rcases hm.held_or_listed (pos_of_ne_zero hne) with hheld | hl'
      · exact ne_of_gt hheld h0
      · exact hl hl'
  · rcases mem_append.mp hx with hx | hx
    · obtain ⟨c, hid, hf⟩ := h.gone id hx
      exact ⟨c, hid, mem_append_left _ hf⟩
    · obtain ⟨c, hid, hf⟩ := hm.gone id hx
      exact ⟨c, hid, mem_append_right _ hf⟩

theorem goto_self (s : State n) (t : Fin n) (pc : Pc) : (s.goto t pc).pcs t = pc := update_self ..

attribute [simp] Pc.held Pc.holds Pc.calls Pc.removes Pc.frees Pc.Ok State.listed State.goto State.set

section
variable (h : Inv es s)
include h

theorem Inv.stays : Inv (es ++ []) s := by rwa [append_nil]

theorem Inv.callback {snapshot rest : List ℕ} (hpc : s.pcs t = .running snapshot (c :: rest)) :
    Inv (es ++ [.called c]) (s.goto t (.inCallback snapshot rest c)) := by
  have hok : (Pc.running snapshot (c :: rest)).Ok := hpc ▸ h.ok t
  obtain ⟨hreg, hfreed, hun⟩ := h.of_holds (by rw [hpc]; exact hok.2 mem_cons_self)
  refine h.move (t := t) ?_ (justified_singleton ?_)
  · constructor <;> simp_all [count_singleton, Bool.toNat]
  · rw [append_nil]
    exact ⟨c + 1, hreg, hun, hfreed⟩

theorem Inv.callbackReturns {snapshot rest : List ℕ} {pc : Pc}
    (hpc : s.pcs t = .inCallback snapshot rest c) (hpc' : pc = .running snapshot rest ∨ pc = .releasing snapshot) :
    Inv (es ++ [.returned c]) (s.goto t pc) := by
  have hok : (Pc.inCallback snapshot rest c).Ok := hpc ▸ h.ok t
  refine h.move (t := t) ?_ (justified_singleton trivial)
  rcases hpc' with rfl | rfl <;> constructor <;> simp_all [count_singleton, Bool.toNat]

theorem Inv.load (hn : n < 2 ^ 64) (hpc : s.pcs t = .waiting r c)
    (h0 : (s.checks c).activeSnapshots = 0) : Inv (es ++ []) (s.goto t (.freeing r c)) := by
  have hle : holders (Pc.holds c) s.pcs ≤ n := by simpa using holders_le_card (Pc.holds c) s.pcs
  have hzero : holders (Pc.holds c) s.pcs = 0 := by
    rw [← Nat.mod_eq_of_lt (lt_of_le_of_lt hle hn), ← h.snapshots c, h0]
  have hok : (Pc.waiting r c).Ok := hpc ▸ h.ok t
  refine h.move (t := t) ?_ justified_nil
  cases r <;> constructor <;> simp_all +contextual

theorem Inv.calls_eq_zero (h0 : holders (Pc.holds c) s.pcs = 0) : holders (Pc.calls c) s.pcs = 0 := by
  refine holders_eq_zero fun u => eq_false_iff.mpr fun hu => ?_
  have hok := h.ok u
  have hnot := holders_eq_zero_iff.mp h0 u
  cases hpc : s.pcs u with
  | inCallback snapshot rest c' => simp_all
  | _ => simp [hpc] at hu

theorem Inv.of_freeing (hpc : s.pcs t = .freeing r c) :
    .registered c (c + 1) ∈ es ∧ .freed c ∉ es ∧ es.count (.retained c) = es.count (.released c) ∧
      es.count (.called c) = es.count (.returned c) := by
  have hfrees : (s.pcs t).frees c := by simp [hpc]
  obtain ⟨hreg, _, hfreed⟩ := h.of_removes (frees_le_removes c _ hfrees)
  have h0 := h.quiet c (Nat.add_pos_left (holders_pos hfrees) _)
  refine ⟨hreg, hfreed, ?_, ?_⟩
  · rw [h.retained c, h0, add_zero]
  · rw [h.called c, h.calls_eq_zero h0, add_zero]

theorem Inv.freeUnregister {id : ℕ} (hpc : s.pcs t = .freeing (.unregister id) c) :
    Inv (es ++ [.freed c, .unregistered id true]) (s.goto t .idle) := by
  obtain ⟨hreg, hfreed, hret, hcal⟩ := h.of_freeing hpc
  obtain rfl : id = c + 1 := by simpa [hpc] using h.ok t
  refine h.move (t := t) ?_ ((justified_singleton ?_).snoc ⟨fun hun => ?_, fun c' hc' => ?_⟩)
  · constructor <;> simp +contextual [hpc, count_cons, Bool.toNat]
  · rw [append_nil]
    exact ⟨⟨_, hreg⟩, hfreed, hret⟩
  · obtain ⟨c', hid, hf⟩ := h.gone (c + 1) (by simpa using hun)
    obtain rfl : c = c' := by omega
    exact hfreed hf
  · obtain ⟨_, hid⟩ := h.numbered c' (c + 1) (by simpa using hc')
    obtain rfl : c = c' := by omega
    simpa using hcal

theorem Inv.freeShutdown (hpc : s.pcs t = .freeing .shutdown c) :
    Inv (es ++ [.freed c]) (s.goto t .popping) := by
  obtain ⟨hreg, hfreed, hret, _⟩ := h.of_freeing hpc
  refine h.move (t := t) ?_ (justified_singleton ?_)
  · constructor <;> simp +contextual [hpc, count_cons, Bool.toNat]
  · rw [append_nil]
    exact ⟨⟨_, hreg⟩, hfreed, hret⟩

end

theorem contains_cons_toNat (h : c ∉ xs) :
    ((c :: xs).contains x).toNat = (c == x).toNat + (xs.contains x).toNat := by
  by_cases hx : c = x
  · subst hx
    simp [h]
  · simp [Ne.symm hx, hx]

theorem update_id {f : Check → Check} (hf : ∀ k, (f k).id = k.id) (checks : ℕ → Check) (c x : ℕ) :
    (Function.update checks c (f (checks c)) x).id = (checks x).id := by
  by_cases hx : x = c
  · rw [hx, update_self, hf]
  · rw [update_of_ne hx]

theorem release_activeSnapshots {checks : ℕ → Check} {x k : ℕ}
    (h : (checks x).activeSnapshots = (k + (c == x).toNat) % 2 ^ 64) :
    (Function.update checks c (checkSnapshotRelease (checks c)) x).activeSnapshots = k % 2 ^ 64 := by
  by_cases hx : x = c
  · subst hx
    rw [beq_self_eq_true] at h
    rw [update_self, checkSnapshotRelease, h]
    exact release_mod (Nat.two_pow_pos 64) (succ_pos k)
  · rw [update_of_ne hx, h, beq_false_of_ne (.symm hx)]
    rfl

theorem retain_activeSnapshots {checks : ℕ → Check} {x k : ℕ} (h : (checks x).activeSnapshots = k % 2 ^ 64) :
    (Function.update checks c (checkRetain (checks c)) x).activeSnapshots = (k + (c == x).toNat) % 2 ^ 64 := by
  by_cases hx : x = c
  · subst hx
    rw [update_self, checkRetain, h, retain_mod, beq_self_eq_true]
    rfl
  · rw [update_of_ne hx, h, beq_false_of_ne (.symm hx)]
    rfl

theorem Inv.release (h : Inv es s) (hpc : s.pcs t = .releasing (c :: rest)) :
    Inv (es ++ [.released c]) ((s.set c checkSnapshotRelease).goto t (.releasing rest)) := by
  obtain ⟨hc, hrest⟩ : c ∉ rest ∧ rest.Nodup := by simpa [hpc] using h.ok t
  have hholds : ∀ x, ((s.pcs t).holds x).toNat = (c == x).toNat + (rest.contains x).toNat := fun x => by
    rw [hpc]
    exact contains_cons_toNat hc
  refine h.move (t := t) ⟨?_, ?_, rfl, rfl, update_id checkSnapshotRelease_id s.checks c, ?_, ?_, fun x k hk => ?_,
    fun x => ?_, ?_, ?_, ?_, ?_, ?_⟩ (justified_singleton trivial)
  case refine_5 =>
    rw [hholds, add_comm (c == x).toNat, ← add_assoc] at hk
    simpa using release_activeSnapshots hk
  case refine_6 =>
    rw [hholds]
    simp [count_singleton, Bool.toNat]
  all_goals simp +contextual [hpc, hrest]

theorem Moves.waits (hpc : s.pcs t = .popping ∨ ∃ id, s.pcs t = .removing id)
    (hok : (Pc.waiting r c).Ok) (hplace : ∀ x, kept.count x + (c == x).toNat = s.listed.count x) :
    Moves t [] s ({ s with list := some kept }.goto t (.waiting r c)) := by
  rcases hpc with hpc | ⟨id, hpc⟩ <;> constructor <;> simp_all

theorem Inv.listed_count (h : Inv es s) (c : ℕ) : s.listed.count c ≤ 1 := by
  have hplace := h.place c
  have honce := h.once c
  omega

theorem Inv.pops (h : Inv es s) (hpc : s.pcs t = .popping) : Inv (es ++ []) (pop t s) := by
  unfold pop
  split
  · rename_i c list hl
    refine h.move (.waits (.inl hpc) trivial fun x => ?_) justified_nil
    cases hcx : c == x <;> simp [hl, count_cons, hcx]
  all_goals
    rename_i hl
    refine h.move (t := t) ?_ justified_nil
    constructor <;> simp +contextual [hpc, hl]

theorem Inv.removes {id : ℕ} (h : Inv es s) (hpc : s.pcs t = .removing id) :
    Inv (es ++ (remove t id s).1) (remove t id s).2 := by
  -- nothing found is reported
  have hrefused : ∀ list, list.getD [] = s.list.getD [] →
      Inv (es ++ [.unregistered id false]) ({ s with list := list }.goto t .idle) := by
    intro list hlist
    refine h.move (t := t) ?_ (justified_singleton trivial)
    constructor <;> simp +contextual [hpc, hlist]
  unfold remove
  cases hl : s.list with
  | none => exact hrefused s.list rfl
  | some list =>
    have hlisted : s.listed = list := by simp [hl]
    obtain ⟨hfound, hkept, _⟩ := Lists.visit_findRemove (fun c => (s.checks c).id == id) list none
    dsimp only at hfound hkept ⊢
    rw [hfound, hkept]
    have hhit : ∀ x ∈ list, ((s.checks x).id == id) = (x + 1 == id) := fun x hx => by
      rw [h.ids x (h.numbered x _ (h.of_listed (hlisted ▸ hx)).1).1]
    rw [filter_congr hhit, filter_congr fun x hx => congrArg (!·) (hhit x hx)]
    cases hlast : (list.filter fun c => c + 1 == id).getLast? with
    | none =>
      refine hrefused _ ?_
      have hnone := filter_eq_nil_iff.mp (getLast?_eq_none_iff.mp hlast)
      rw [hl, getD_some, getD_some, filter_eq_self.mpr fun x hx => by simpa using hnone x hx]
    | some c =>
      obtain ⟨hc, hcid⟩ := mem_filter.mp (mem_of_getLast? hlast)
      obtain rfl : c + 1 = id := beq_iff_eq.mp hcid
      refine h.move (.waits (.inr ⟨_, hpc⟩) rfl fun x => ?_) justified_nil
      have hone := h.listed_count c
      have hpos := count_pos_iff.mpr hc
      rw [hlisted] at hone ⊢
      by_cases hx : c = x
      · subst hx
        rw [count_eq_zero_of_not_mem (by simp), beq_self_eq_true, toNat_true]
        omega
      · rw [count_filter (by simp [Ne.symm hx]), beq_false_of_ne hx]
        rfl

/-- What a pass of `Health_SnapshotCheck` has come to: each check of the snapshot
was counted once more than in `k`. -/
structure Taken (k : ℕ → ℕ) (ids : ℕ → ℕ) (list : List ℕ) (st : SnapshotState) : Prop where
  nodup : st.snapshot.Nodup
  subset : st.snapshot ⊆ list
  ids : ∀ c, (st.checks c).id = ids c
  active : ∀ c, (st.checks c).activeSnapshots = (k c + (st.snapshot.contains c).toNat) % 2 ^ 64

theorem Taken.visit {k ids : ℕ → ℕ} {list : List ℕ} (kind : Kind) (xs : List ℕ) {st : SnapshotState}
    (h : Taken k ids list st) (hxs : xs.Nodup) (hsub : xs ⊆ list) (hnew : ∀ x ∈ xs, x ∉ st.snapshot) :
    Taken k ids list (Lists.Seq.visit (snapshotCheck kind) xs st).2.1 := by
  induction xs generalizing st with
  | nil => exact h
  | cons c xs ih =>
    obtain ⟨hc, hxs⟩ := nodup_cons.mp hxs
    have hsub' : xs ⊆ list := fun x hx => hsub (mem_cons_of_mem _ hx)
    have hcnew := hnew c mem_cons_self
    by_cases hkind : (st.checks c).kind = kind
    · cases hroom : st.room with
      | zero =>
        -- the reference is dropped again
        have hstep : snapshotCheck kind c st =
            (.error, { (st.set c checkRetain).set c checkSnapshotRelease with ok := false }) := by
          rw [snapshotCheck, if_neg (not_not_intro hkind), hroom]
        rw [Lists.Seq.visit, hstep]
        refine ⟨h.nodup, h.subset, fun x => ?_, fun x => ?_⟩
        · exact (update_id checkSnapshotRelease_id _ c x).trans
            ((update_id checkRetain_id st.checks c x).trans (h.ids x))
        · exact release_activeSnapshots (retain_activeSnapshots (h.active x))
      | succ room =>
        have hstep : snapshotCheck kind c st =
            (.ok, { st.set c checkRetain with snapshot := st.snapshot ++ [c], room := room }) := by
          rw [snapshotCheck, if_neg (not_not_intro hkind), hroom]
        rw [Lists.Seq.visit, hstep]
        refine ih ⟨?_, ?_, fun x => ?_, fun x => ?_⟩ hxs hsub' fun x hx hmem => ?_
        · exact nodup_append.mpr ⟨h.nodup, nodup_singleton c, fun a ha b hb => by
            rintro rfl
            exact hcnew (mem_singleton.mp hb ▸ ha)⟩
        · exact append_subset.mpr ⟨h.subset, cons_subset.mpr ⟨hsub mem_cons_self, nil_subset _⟩⟩
        · exact (update_id checkRetain_id st.checks c x).trans (h.ids x)
        · rw [contains_append, Bool.or_comm, ← contains_append, singleton_append, contains_cons_toNat hcnew,
            Nat.add_comm (c == x).toNat, ← add_assoc]
          exact retain_activeSnapshots (h.active x)
        · rcases mem_append.mp hmem with hmem | hmem
          · exact hnew x (mem_cons_of_mem _ hx) hmem
          · exact hc (mem_singleton.mp hmem ▸ hx)
    · have hstep : snapshotCheck kind c st = (.ok, st) := by rw [snapshotCheck, if_pos hkind]
      rw [Lists.Seq.visit, hstep]
      exact ih h hxs hsub' fun x hx => hnew x (mem_cons_of_mem _ hx)

theorem count_map_retained {xs : List ℕ} (h : xs.Nodup) (x : ℕ) :
    (xs.map Event.retained).count (.retained x) = (xs.contains x).toNat := by
  rw [count_map_of_injective xs Event.retained (fun _ _ he => Event.retained.inj he) x, h.count]
  simp [Bool.toNat]

variable {kind : Kind}

theorem Inv.takes (h : Inv es s) (hpc : s.pcs t = .snapshotting kind)
    (hst : Taken (fun c => holders (Pc.holds c) s.pcs) (fun c => (s.checks c).id) s.listed st)
    (hpc' : pc = .running st.snapshot st.snapshot ∨ pc = .releasing st.snapshot) :
    Inv (es ++ st.snapshot.map .retained) ({ s with checks := st.checks }.goto t pc) := by
  have h0 : ∀ x : Event, (∀ c, x ≠ .retained c) → (st.snapshot.map .retained).count x = 0 := fun x hx =>
    count_eq_zero_of_not_mem fun hmem => by
      obtain ⟨c, _, rfl⟩ := mem_map.mp hmem
      exact hx c rfl
  have hsound : Justified (fun before x => Sound (es ++ before) x) (st.snapshot.map .retained) := by
    intro before x after hx
    obtain ⟨c, hc, rfl⟩ := mem_map.mp (hx ▸ mem_append_right before mem_cons_self)
    intro hfreed
    rcases mem_append.mp hfreed with hfreed | hfreed
    · exact (h.of_listed (hst.subset hc)).2.2 hfreed
    · have hmem : .freed c ∈ st.snapshot.map Event.retained := hx ▸ mem_append_left _ hfreed
      simp at hmem
  have hactive : ∀ c k, (s.checks c).activeSnapshots = k % 2 ^ 64 →
      (st.checks c).activeSnapshots = (k + (st.snapshot.contains c).toNat) % 2 ^ 64 := fun c k hk => by
    rw [hst.active c, add_mod, ← h.snapshots c, hk, ← add_mod]
  refine h.move (t := t) ?_ hsound
  have hnodup := hst.nodup
  have hsub := hst.subset
  rcases hpc' with rfl | rfl <;> constructor <;>
    simp_all +contextual [hst.ids, count_map_retained, subset_def]
  all_goals exact hactive

structure Added (e : List Event) (s : State n) (list : Option (List ℕ)) : Prop where
  event : ∀ x ∈ e, x = .registered s.fresh (s.fresh + 1)
  once : e.count (.registered s.fresh (s.fresh + 1)) ≤ 1
  listed : ∀ c, (list.getD []).count c = s.listed.count c + e.count (.registered c (c + 1))
  sound : Justified (fun before _ => before = []) e

theorem added_singleton (hl : s.list = some list) :
    Added [.registered s.fresh (s.fresh + 1)] s (some (list ++ [s.fresh])) := by
  refine ⟨by simp, by simp, fun c => ?_, justified_singleton rfl⟩
  rw [State.listed, hl]
  by_cases hc : s.fresh = c
  · simp [hc]
  · simp [hc]


theorem Inv.pushes (h : Inv es s) (hpc : s.pcs t = .registering kind)
    (hlt : s.fresh + 1 < 2 ^ 64) (he : Added e s list) :
    Inv (es ++ e) ({ s with
      checks := update s.checks s.fresh ⟨s.nextCheckId, kind, 0⟩
      fresh := s.fresh + 1
      nextCheckId := (s.nextCheckId + 1) % 2 ^ 64
      list := list }.goto t .idle) := by
  have hid : s.nextCheckId = s.fresh + 1 := by rw [h.next, Nat.mod_eq_of_lt hlt]
  have hsame : ∀ p : Pc → Bool, p (.registering kind) = false → p .idle = false →
      holders p (update s.pcs t .idle) = holders p s.pcs := fun p h1 h2 =>
    holders_same (by rw [hpc, h1, h2])
  have hnone : ∀ id, .registered s.fresh id ∉ es := fun id hmem => lt_irrefl _ (h.numbered _ _ hmem).1
  have hfresh : holders (Pc.holds s.fresh) s.pcs = 0 := by
    by_contra hpos
    exact hnone _ (h.alive _ (pos_of_ne_zero hpos))
  have h0 : ∀ x : Event, x ≠ .registered s.fresh (s.fresh + 1) → e.count x = 0 := fun x hx =>
    count_eq_zero_of_not_mem fun hmem => hx (he.event x hmem)
  have hquiet : ∀ c, e.count (.freed c) = 0 ∧ e.count (.retained c) = 0 ∧ e.count (.released c) = 0 ∧
      e.count (.called c) = 0 ∧ e.count (.returned c) = 0 := fun c =>
    ⟨h0 _ nofun, h0 _ nofun, h0 _ nofun, h0 _ nofun, h0 _ nofun⟩
  refine ⟨fun u => ?_, fun c hc => ?_, ?_, fun c id hx => ?_, fun c => ?_, fun c => ?_, fun c => ?_, fun c => ?_,
    fun c => ?_, fun c hc => ?_, fun c hc => ?_, fun id hx => ?_, h.sound.append fun before x after hx => ?_⟩
  all_goals simp only [State.goto, hsame (Pc.holds _) rfl rfl, hsame (Pc.removes _) rfl rfl, hsame (Pc.calls _) rfl rfl,
    hsame (Pc.frees _) rfl rfl, count_append, hquiet] at *
  · by_cases hu : u = t
    · simp [hu]
    · simpa [hu] using h.ok u
  · rcases Nat.lt_succ_iff_lt_or_eq.mp hc with hc | rfl
    · simpa [Nat.ne_of_lt hc] using h.ids c hc
    · simp [hid]
  · rw [hid]
  · rcases mem_append.mp hx with hx | hx
    · exact (h.numbered c id hx).imp_left lt_succ_of_lt
    · obtain ⟨rfl, rfl⟩ := Event.registered.inj (he.event _ hx)
      exact ⟨lt_succ_self _, rfl⟩
  · by_cases hc : c = s.fresh
    · rw [hc, count_eq_zero_of_not_mem (hnone _), zero_add]
      exact he.once
    · rw [h0 _ (by simp [hc])]
      exact h.once c
  · have hplace := h.place c
    have hlisted := he.listed c
    simp only [State.listed] at hplace hlisted ⊢
    omega
  · by_cases hc : c = s.fresh
    · simp [hc, hfresh]
    · simpa [hc] using h.snapshots c
  · exact h.retained c
  · exact h.called c
  · exact mem_append_left _ (h.alive c hc)
  · exact h.quiet c hc
  · obtain ⟨c, hidc, hf⟩ := h.gone id ((mem_append.mp hx).resolve_right fun hx => nomatch he.event _ hx)
    exact ⟨c, hidc, mem_append_left _ hf⟩
  · obtain rfl := he.event x (hx ▸ mem_append_right before mem_cons_self)
    rw [he.sound before _ after hx, append_nil]
    intro c' id' hmem
    obtain ⟨hc', rfl⟩ := h.numbered c' id' hmem
    exact ⟨by omega, Nat.ne_of_lt hc'⟩

theorem push_fresh (t : Fin n) (kind : Kind) (allocOk : Bool) (s : State n) : (push t kind allocOk s).2.fresh = s.fresh + 1 := by
  unfold push
  split <;> rfl

theorem Inv.registers (h : Inv es s) (hpc : s.pcs t = .registering kind)
    (hlt : (push t kind allocOk s).2.fresh < 2 ^ 64) :
    Inv (es ++ (push t kind allocOk s).1) (push t kind allocOk s).2 := by
  rw [push_fresh] at hlt
  have hid : s.nextCheckId = s.fresh + 1 := by rw [h.next, Nat.mod_eq_of_lt hlt]
  unfold push
  split
  · rename_i list hl
    have hadd : Added [.registered s.fresh s.nextCheckId] s (some (list ++ [s.fresh])) := by
      rw [hid]
      exact added_singleton hl
    exact h.pushes hpc hlt hadd
  · exact h.pushes hpc hlt ⟨nofun, zero_le _, fun _ => rfl, justified_nil⟩

theorem Inv.snapshotTaken (h : Inv es s) (hpc : s.pcs t = .snapshotting kind) (room : ℕ) :
    Inv (es ++ (snapshot t kind room s).1) (snapshot t kind room s).2 := by
  unfold snapshot
  split
  · rename_i list hl
    have hlisted : s.listed = list := by rw [State.listed, hl, getD_some]
    have hnodup : list.Nodup := nodup_iff_count_le_one.mpr fun c => hlisted ▸ h.listed_count c
    have hstart : Taken (fun c => holders (Pc.holds c) s.pcs) (fun c => (s.checks c).id) s.listed
        ⟨s.checks, [], true, room⟩ := ⟨nodup_nil, nil_subset _, fun _ => rfl, h.snapshots⟩
    have hst := hstart.visit kind list hnodup (hlisted ▸ .refl _) nofun
    refine h.takes hpc hst ?_
    split
    · exact .inl rfl
    · exact .inr rfl
  · refine h.move (t := t) ?_ justified_nil
    constructor <;> simp +contextual [hpc]


theorem inv_init (n : ℕ) : Inv [] (State.init n) := by
  constructor <;> simp [State.init, holders, justified_nil]

theorem inv_step (hn : n < 2 ^ 64) (l : Label n) (h : Inv es s) (hlt : (step l s).2.fresh < 2 ^ 64) :
    Inv (es ++ (step l s).1) (step l s).2 := by
  -- a step to another place that holds and removes the same
  have hgoes : ∀ {t pc}, Moves t [] s (s.goto t pc) → Inv (es ++ []) (s.goto t pc) := fun hm => h.move hm justified_nil
  cases l with
  | registerCheck t kind | evaluate t kind | shutdownGlobal t =>
    simp only [step]
    split
    · next hpc =>
      split
      · refine hgoes ?_
        constructor <;> simp +contextual [hpc]
      · exact h.stays
    · exact h.stays
  | push t allocOk =>
    simp only [step] at hlt ⊢
    split
    · next hpc =>
      simp only [hpc] at hlt
      split
      · next hmutex => exact h.registers hpc (by rwa [if_pos hmutex] at hlt)
      · exact h.stays
    · exact h.stays
  | unregisterCheck t id =>
    simp only [step]
    split
    · next hpc =>
      split
      · refine hgoes ?_
        constructor <;> simp +contextual [hpc]
      · refine h.move (t := t) ?_ (justified_singleton trivial)
        constructor <;> simp +contextual [hpc]
    · exact h.stays
  | remove t =>
    simp only [step]
    split
    · next hpc =>
      split
      · exact h.removes hpc
      · exact h.stays
    · exact h.stays
  | evaluateBuiltIn t healthy =>
    simp only [step]
    split
    · next hpc =>
      refine hgoes ?_
      split <;> constructor <;> simp +contextual [hpc]
    · exact h.stays
  | snapshot t room =>
    simp only [step]
    split
    · next hpc =>
      split
      · exact h.snapshotTaken hpc room
      · exact h.stays
    · exact h.stays
  | callback t =>
    simp only [step]
    split
    · next hpc => exact h.callback hpc
    · have hok := h.ok t
      refine hgoes ?_
      constructor <;> simp_all
    · exact h.stays
  | callbackReturns t healthy =>
    simp only [step]
    split
    · next hpc =>
      refine h.callbackReturns hpc ?_
      cases healthy with
      | true => exact .inl rfl
      | false => exact .inr rfl
    · exact h.stays
  | release t =>
    simp only [step]
    split
    · next hpc => exact h.release hpc
    · next hpc =>
      refine hgoes ?_
      constructor <;> simp +contextual [hpc]
    · exact h.stays
  | pop t =>
    simp only [step]
    split
    · next hpc =>
      split
      · exact h.pops hpc
      · exact h.stays
    · exact h.stays
  | load t =>
    simp only [step]
    split
    · next hpc =>
      split
      · next h0 => exact h.load hn hpc h0
      · exact h.stays
    · exact h.stays
  | free t =>
    simp only [step]
    split
    · next hpc => exact h.freeUnregister hpc
    · next hpc => exact h.freeShutdown hpc
    · exact h.stays
  | destroyMutex t =>
    simp only [step]
    split
    · next hpc =>
      refine h.move (t := t) ?_ justified_nil
      constructor <;> simp +contextual [hpc]
    · exact h.stays

theorem fresh_le_step (l : Label n) (s : State n) : s.fresh ≤ (step l s).2.fresh := by
  cases l <;> simp only [step, push, remove, snapshot, pop] <;> (repeat' split) <;> simp

end

/-- While fewer than 2 ^ 64 ids were drawn and fewer than 2 ^ 64 evaluations run at
once, every event of every run is sound. -/
theorem checks_sound {n : ℕ} (hn : n < 2 ^ 64) (ls : List (Label n)) :
    ∃ es s, Emits call ls (State.init n) es s ∧ (s.fresh < 2 ^ 64 → Justified Sound es) := by
  obtain ⟨rs, s, hr, hinv⟩ := run_events_total (I := fun es s => s.fresh < 2 ^ 64 → Inv es s)
    (fun es l s h => ⟨_, _, rfl, fun hlt => inv_step hn l (h (lt_of_le_of_lt (fresh_le_step l s) hlt)) hlt⟩)
    (fun _ => inv_init n) ls
  exact ⟨_, s, ⟨rs, hr, rfl⟩, fun hlt => (hinv hlt).sound⟩

def unregisterDuringCallback : List (Label 2) :=
  [.registerCheck 0 .live, .push 0 true, .evaluate 1 .live, .evaluateBuiltIn 1 true, .snapshot 1 1, .callback 1,
    .unregisterCheck 0 1, .remove 0, .load 0, .callbackReturns 1 true, .callback 1, .release 1, .load 0, .free 0]

theorem checks_sound_two :
    let es : List Event :=
      [.registered 0 1, .retained 0, .called 0, .returned 0, .released 0, .freed 0, .unregistered 1 true]
    ∃ s, Emits call unregisterDuringCallback (State.init 2) es s ∧ s.fresh < 2 ^ 64 ∧ Justified Sound es := by
  obtain ⟨es, s, hes, hs⟩ := checks_sound (by decide : 2 < 2 ^ 64) unregisterDuringCallback
  obtain ⟨s', hes', hfresh⟩ : ∃ s', Emits call unregisterDuringCallback (State.init 2)
      [.registered 0 1, .retained 0, .called 0, .returned 0, .released 0, .freed 0, .unregistered 1 true] s' ∧
      s'.fresh < 2 ^ 64 := ⟨_, ⟨_, rfl, rfl⟩, by decide⟩
  obtain ⟨rfl, rfl⟩ := hes.unique hes'
  exact ⟨s, hes, hfresh, hs hfresh⟩

structure Rests (list : List ℕ) (s : State 1) : Prop where
  pc : s.pcs 0 = .idle
  mutex : s.mutex = true
  list : s.list = some list

def registration : List (Label 1) := [.registerCheck 0 .live, .push 0 true]

def unregistration (id : ℕ) : List (Label 1) := [.unregisterCheck 0 id, .remove 0, .load 0, .free 0]

theorem Rests.registration {list : List ℕ} {s : State 1} (h : Rests list s) :
    ∃ s', Emits call registration s [.registered s.fresh s.nextCheckId] s' ∧ Rests (list ++ [s.fresh]) s' ∧
      s'.checks s.fresh = ⟨s.nextCheckId, .live, 0⟩ ∧ s'.fresh = s.fresh + 1 ∧
      s'.nextCheckId = (s.nextCheckId + 1) % 2 ^ 64 := by
  have hstart : call (.registerCheck 0 .live) s = .ok ([], s.goto 0 (.registering .live)) := by
    simp [call, step, h.pc, h.mutex]
  have hpush : call (.push 0 true) (s.goto 0 (.registering .live)) =
      .ok (push 0 .live true (s.goto 0 (.registering .live))) := by
    simp [call, step, h.mutex]
  have hl : (s.goto 0 (.registering .live)).list = some list := h.list
  simp only [push, hl] at hpush
  exact ⟨_, .cons hstart (.cons hpush (emits_nil _)), ⟨goto_self _ _ _, h.mutex, rfl⟩, update_self ..,
    rfl, rfl⟩

theorem Rests.unregistration (h : Rests [c] s) (h0 : (s.checks c).id ≠ 0)
    (hactive : (s.checks c).activeSnapshots = 0) :
    ∃ s', Emits call (unregistration (s.checks c).id) s [.freed c, .unregistered (s.checks c).id true] s' ∧ Rests [] s' ∧
      s'.fresh = s.fresh ∧ s'.nextCheckId = s.nextCheckId := by
  have hstart : call (.unregisterCheck 0 (s.checks c).id) s = .ok ([], s.goto 0 (.removing (s.checks c).id)) := by
    simp [call, step, h.pc, h.mutex, h0]
  have hremove : call (.remove 0) (s.goto 0 (.removing (s.checks c).id)) =
      .ok ([], { s with list := some [] }.goto 0 (.waiting (.unregister (s.checks c).id) c)) := by
    simp [call, step, remove, h.mutex, h.list, Lists.Seq.visit]
  have hload : call (.load 0) ({ s with list := some [] }.goto 0 (.waiting (.unregister (s.checks c).id) c)) =
      .ok ([], { s with list := some [] }.goto 0 (.freeing (.unregister (s.checks c).id) c)) := by
    simp [call, step, hactive]
  have hfree : call (.free 0) ({ s with list := some [] }.goto 0 (.freeing (.unregister (s.checks c).id) c)) =
      .ok ([.freed c, .unregistered (s.checks c).id true], { s with list := some [] }.goto 0 .idle) := by
    simp [call, step]
  exact ⟨_, .cons hstart (.cons hremove (.cons hload (.cons hfree (emits_nil _)))),
    ⟨goto_self _ _ _, h.mutex, rfl⟩, rfl, rfl⟩

def rounds (k : ℕ) : List (Label 1) := (List.range k).flatMap fun i => registration ++ unregistration (i + 1)

theorem rounds_drawn (k : ℕ) (hk : k < 2 ^ 64) :
    ∃ es s, Emits call (rounds k) (State.init 1) es s ∧ Rests [] s ∧ s.fresh = k ∧ s.nextCheckId = (k + 1) % 2 ^ 64 ∧
      (0 < k → .registered 0 1 ∈ es) := by
  induction k with
  | zero => exact ⟨[], .init 1, emits_nil _, ⟨rfl, rfl, rfl⟩, rfl, rfl, fun h => absurd h (lt_irrefl 0)⟩
  | succ k ih =>
    obtain ⟨es, s, hes, hrests, hfresh, hnext, hmem⟩ := ih (lt_of_succ_lt hk)
    have hid : s.nextCheckId = k + 1 := hnext.trans (Nat.mod_eq_of_lt hk)
    obtain ⟨s1, h1, hr1, hc1, hf1, hn1⟩ := hrests.registration
    have hid1 : (s1.checks s.fresh).id = k + 1 := by rw [hc1, hid]
    obtain ⟨s2, h2, hr2, hf2, hn2⟩ := Rests.unregistration hr1 (by rw [hid1]; exact succ_ne_zero k) (by rw [hc1])
    rw [hid1] at h2
    refine ⟨es ++ ([.registered s.fresh s.nextCheckId] ++ [.freed s.fresh, .unregistered (k + 1) true]), s2, ?_, hr2, by rw [hf2, hf1, hfresh], by rw [hn2, hn1, hid], fun _ => ?_⟩
    · rw [rounds, range_succ, flatMap_append]
      exact hes.append (h1.append h2)
    · cases k with
      | zero =>
        rw [hfresh, hid]
        simp
      | succ k => exact mem_append_left _ (hmem (succ_pos k))

theorem id_repeated : ∃ es s, Emits call (rounds (2 ^ 64 - 1) ++ registration ++ registration) (State.init 1) es s ∧
    .registered 0 1 ∈ es ∧ .registered (2 ^ 64) 1 ∈ es := by
  have hlt : 2 ^ 64 - 1 < 2 ^ 64 := Nat.sub_one_lt (Nat.two_pow_pos 64).ne'
  obtain ⟨es, s, hes, hrests, hfresh, hnext, hmem⟩ := rounds_drawn (2 ^ 64 - 1) hlt
  have hwrapped : s.nextCheckId = 0 := by rw [hnext, Nat.sub_add_cancel (Nat.two_pow_pos 64), Nat.mod_self]
  obtain ⟨s1, h1, hr1, _, hf1, hn1⟩ := hrests.registration
  obtain ⟨s2, h2, _, _, _, _⟩ := hr1.registration
  refine ⟨_, s2, (hes.append h1).append h2, ?_, ?_⟩
  · exact mem_append_left _ (mem_append_left _ (hmem (by decide)))
  · have hid : s1.nextCheckId = 1 := by
      rw [hn1, hwrapped]
      exact Nat.mod_eq_of_lt (Nat.one_lt_two_pow (by decide))
    have hf : s1.fresh = 2 ^ 64 := by rw [hf1, hfresh, Nat.sub_add_cancel (Nat.two_pow_pos 64)]
    rw [hid, hf]
    exact mem_append_right _ mem_cons_self

end Razorback.Health
