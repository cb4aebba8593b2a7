import Razorback.LocalCache.Failed

/-! One cache used by several threads. The part of a call between `Mutex_Lock` and `Mutex_Unlock` is one step, and it is all
that an insertion or an update does to the cache. `checkLocalEntry` goes on without the lock: it copies `entflags` and then
`sfflags` out of the slot it has found, one step each. -/

namespace Razorback.LocalCache.Concurrent
open Runs List Function

inductive Pc
  | idle
  /-- In a call before the lock, with the fate of the allocation if it is an insertion. -/
  | waiting (call : Bool × Op)
  /-- In `checkLocalEntry` behind the unlock, with `cachehit`. -/
  | found (x : ℕ)
  /-- Between the two copies. -/
  | half (x : ℕ) (entflags : UInt32)

structure System (ι : Type) where
  cache : Cache
  pcs : ι → Pc

inductive Label (ι : Type)
  | call (t : ι) (p : Bool × Op)
  /-- The locked section of the call. -/
  | enter (t : ι)
  | copyEntflags (t : ι)
  | copySfflags (t : ι)

def checkSection (beyond : ℕ → ℕ → UInt8) (key : Bytes) (c : Cache) :
    Except Fault (LookupResult × Option ℕ × Cache) := do
  match ← findEntry beyond key c with
  | none => return (.notFound, none, c)
  | some x =>
    if (c.entrylist x).listtype = .none then
      return (.error, none, c)
    else
      let c ← hitEntry x c
      return (.found, some x, c)

section
variable {ι : Type} [DecidableEq ι]

def System.goto (s : System ι) (t : ι) (pc : Pc) : System ι := { s with pcs := Function.update s.pcs t pc }

/-- The locked section of a call, with what the call returns if it ends there. -/
def enter (t : ι) (p : Bool × Op) (s : System ι) : Except Fault (Option CheckResult × System ι) :=
  match p.2 with
  | .check beyond (some key) (some _) (some _) => do
    match ← checkSection beyond key s.cache with
    | (_, some x, c) => return (none, { s with cache := c }.goto t (.found x))
    | (r, none, c) => return (some (r, none), { s with cache := c }.goto t .idle)
  | _ => do
    let (r, c) ← callFate p s.cache
    return (some r, { s with cache := c }.goto t .idle)

/-- One step of one thread, with what its call returns if it ends; a thread that is not at the step's place does nothing. -/
def step (l : Label ι) (s : System ι) : Except Fault (Option CheckResult × System ι) :=
  match l with
  | .call t p =>
    match s.pcs t with
    | .idle => .ok (none, s.goto t (.waiting p))
    | _ => .ok (none, s)
  | .enter t =>
    match s.pcs t with
    | .waiting p => enter t p s
    | _ => .ok (none, s)
  | .copyEntflags t =>
    match s.pcs t with
    | .found x => .ok (none, s.goto t (.half x (s.cache.entrylist x).entflags))
    | _ => .ok (none, s)
  | .copySfflags t =>
    match s.pcs t with
    | .half x ent => .ok (some (.found, some ((s.cache.entrylist x).sfflags, ent)), s.goto t .idle)
    | _ => .ok (none, s)

end

def Takes {ι : Type} (l : Label ι) (s : System ι) (x : ℕ) : Prop :=
  ∃ t fate key sf ent c, l = .enter t ∧ s.pcs t = .waiting (fate, .add key sf ent) ∧ obtainEntry s.cache = .ok (x, c)

def Sets {ι : Type} (l : Label ι) (s : System ι) (x : ℕ) : Prop :=
  ∃ t fate beyond key sf ent, l = .enter t ∧ s.pcs t = .waiting (fate, .update beyond (some key) sf ent) ∧
    findEntry beyond key s.cache = .ok (some x)

/-- The slot that the thread still reads is not taken, and between its two copies it is not written at all. -/
def Spares {ι : Type} (t : ι) (l : Label ι) (s : System ι) : Prop :=
  match s.pcs t with
  | .found x => ¬Takes l s x
  | .half x _ => ¬Takes l s x ∧ ¬Sets l s x
  | _ => True

/-- The flags are stored together in a slot that `FindEntry` takes for the key, and whose key it is if it has its length. -/
def StoredFor (beyond : ℕ → ℕ → UInt8) (key : Bytes) (fl : UInt32 × UInt32) (c : Cache) : Prop :=
  ∃ x < c.entries, SlotMatches beyond key c x ∧
    (∀ bytes, (c.entrylist x).key = .live bytes → bytes.length = key.length → bytes = key) ∧
    ((c.entrylist x).sfflags, (c.entrylist x).entflags) = fl

section
variable {c c' : Cache} {x : ℕ} {key : Bytes} {beyond : ℕ → ℕ → UInt8}

theorem checkIn_eq_section (beyond : ℕ → ℕ → UInt8) (key : Bytes) (c : Cache) :
    checkIn beyond key c = (checkSection beyond key c).map fun p =>
      ((p.1, p.2.1.map fun x => ((p.2.2.entrylist x).sfflags, (p.2.2.entrylist x).entflags)), p.2.2) := by
  rw [checkIn, checkSection]
  cases findEntry beyond key c with
  | error e => rfl
  | ok found =>
    cases found with
    | none => rfl
    | some x =>
      rw [ok_bind, ok_bind]
      dsimp only
      split_ifs
      · rfl
      · cases hitEntry x c <;> rfl

theorem checkSection_found (h : checkSection beyond key c = .ok (r, some x, c')) :
    x < c.entries ∧ SlotMatches beyond key c x ∧ Keeps c c' := by
  simp only [checkSection, bind_eq_ok] at h
  obtain ⟨found, hf, h⟩ := h
  cases found with
  | none => cases h
  | some y =>
    dsimp only at h
    split_ifs at h
    · cases h
    · simp only [bind_eq_ok] at h
      obtain ⟨c₁, hhit, h⟩ := h
      cases h
      rcases findEntry_cases beyond key c with ⟨hf', _⟩ | ⟨z, hreach, ⟨hm, hf'⟩ | ⟨e, _, hf'⟩⟩
      · cases hf.symm.trans hf'
      · cases hf.symm.trans hf'
        exact ⟨hreach.1, hm, hitEntry_keeps hhit⟩
      · cases hf.symm.trans hf'

theorem bytes_eq_of_slotMatches (h : SlotMatches beyond key c x) (hb : (c.entrylist x).key = .live bytes)
    (hlen : bytes.length = key.length) : bytes = key := by
  rw [SlotMatches, hb, memcmpEq_live] at h
  have hall := all_eq_true.mp (Except.ok.inj h)
  refine ext_getElem hlen fun j hj hj' => ?_
  have heq := beq_iff_eq.mp (hall j (mem_range.mpr hj'))
  simpa [hj, hj'] using heq

theorem slotMatches_congr (hk : (c'.entrylist x).key = (c.entrylist x).key) :
    SlotMatches beyond key c' x ↔ SlotMatches beyond key c x := by
  rw [SlotMatches, SlotMatches, hk]

theorem addIn_others (h : addIn fate key sf ent c = .ok (r, c')) :
    ∃ y c₁, obtainEntry c = .ok (y, c₁) ∧ c.entries ≤ c'.entries ∧
      ∀ i, i ≠ y → payload (c'.entrylist i) = payload (c.entrylist i) := by
  rw [addIn_eq] at h
  simp only [bind_eq_ok] at h
  obtain ⟨⟨y, c₁⟩, ho, k, _, he⟩ := h
  obtain ⟨-, rfl⟩ := ok_inj he
  obtain ⟨hother, hent⟩ := obtainEntry_inv ho
  have hkeep := addMRU_keeps y .t1 c₁
  refine ⟨y, c₁, ho, ?_, fun i hi => ?_⟩
  · have hent' : (addMRU y .t1 c₁).entries = c₁.entries := hkeep.entries
    change c.entries ≤ (addMRU y .t1 c₁).entries
    omega
  · rw [modify_of_ne _ hi, filled, modify_of_ne _ hi]
    exact (hkeep.payload i).trans (hother i hi)

theorem callFate_slot (h : callFate p c = .ok (r, c'))
    (hadd : ∀ key sf ent c₁, p.2 = .add key sf ent → obtainEntry c ≠ .ok (x, c₁)) :
    c.entries ≤ c'.entries ∧ (c'.entrylist x).key = (c.entrylist x).key ∧
      ((∀ beyond key sf ent, p.2 = .update beyond (some key) sf ent → findEntry beyond key c ≠ .ok (some x)) →
        payload (c'.entrylist x) = payload (c.entrylist x)) := by
  obtain ⟨fate, op⟩ := p
  have hkeeps : ∀ {c'}, Keeps c c' → c.entries ≤ c'.entries ∧ (c'.entrylist x).key = (c.entrylist x).key ∧
      ((∀ beyond key sf ent, op = .update beyond (some key) sf ent → findEntry beyond key c ≠ .ok (some x)) →
        payload (c'.entrylist x) = payload (c.entrylist x)) :=
    fun hk => ⟨hk.entries.ge, key_eq_of_payload (hk.payload x), fun _ => hk.payload x⟩
  have hself : Keeps c c := ⟨rfl, fun _ => rfl⟩
  cases op with
  | add key sf ent =>
    obtain ⟨q, ha, hq⟩ := map_eq_ok.mp h
    cases hq
    obtain ⟨y, c₁, ho, hent, hother⟩ := addIn_others ha
    have hxy : x ≠ y := by
      rintro rfl
      exact hadd key sf ent c₁ rfl ho
    exact ⟨hent, key_eq_of_payload (hother x hxy), fun _ => hother x hxy⟩
  | check beyond key sf ent =>
    cases callIn_called h with
    | hit _ _ hh => exact hkeeps (hitEntry_keeps hh)
    | unchecked => exact hkeeps hself
  | update beyond key sf ent =>
    cases callIn_called h with
    | unmatched => exact hkeeps hself
    | @updated _ key _ _ y hf =>
      refine ⟨le_rfl, modify_field Entry.key rfl x, fun hupdate => ?_⟩
      have hxy : x ≠ y := by
        rintro rfl
        exact hupdate beyond key sf ent rfl hf
      rw [modify_of_ne _ hxy]

end

section
variable {ι : Type} [DecidableEq ι] {s s' s₁ : System ι} {t u : ι} {x : ℕ} {beyond : ℕ → ℕ → UInt8} {key : Bytes}
  {r : Option CheckResult} {l : Label ι}

def Label.thread : Label ι → ι
  | .call t _ | .enter t | .copyEntflags t | .copySfflags t => t

theorem goto_self (s : System ι) (t : ι) (pc : Pc) : (s.goto t pc).pcs t = pc := update_self ..

theorem goto_of_ne (s : System ι) (pc : Pc) (h : t ≠ u) : (s.goto u pc).pcs t = s.pcs t := update_of_ne h ..

theorem enter_cache (h : enter u p s = .ok (r, s')) :
    (∃ q, callFate p s.cache = .ok (q, s'.cache)) ∧ ∃ pc, s'.pcs = update s.pcs u pc := by
  obtain ⟨fate, op⟩ := p
  have hother : (do
      let (r, c) ← callFate (fate, op) s.cache
      return (some r, { s with cache := c }.goto u .idle)) = .ok (r, s') →
      (∃ q, callFate (fate, op) s.cache = .ok (q, s'.cache)) ∧ ∃ pc, s'.pcs = update s.pcs u pc := by
    intro h
    simp only [bind_eq_ok] at h
    obtain ⟨⟨q, c⟩, hc, he⟩ := h
    obtain ⟨-, rfl⟩ := ok_inj he
    exact ⟨⟨q, hc⟩, .idle, rfl⟩
  cases op with
  | add key sf ent => exact hother h
  | update beyond key sf ent => exact hother h
  | check beyond key sf ent =>
    cases key <;> cases sf <;> cases ent
    case some.some.some key a b =>
      simp only [enter, bind_eq_ok] at h
      obtain ⟨⟨q, found, c⟩, hsec, he⟩ := h
      have hcall : callFate (fate, .check beyond (some key) (some a) (some b)) s.cache = checkIn beyond key s.cache := rfl
      rw [hcall, checkIn_eq_section, hsec]
      cases found with
      | none =>
        obtain ⟨-, rfl⟩ := ok_inj he
        exact ⟨⟨_, rfl⟩, .idle, rfl⟩
      | some x =>
        obtain ⟨-, rfl⟩ := ok_inj he
        exact ⟨⟨_, rfl⟩, .found x, rfl⟩
    all_goals exact hother h

theorem enter_check (h : enter t (fate, .check beyond (some key) (some a) (some b)) s = .ok (r, s')) :
    (s'.pcs t = .idle ∧ ∀ fl, r ≠ some (.found, some fl)) ∨
      ∃ x, s'.pcs t = .found x ∧ x < s'.cache.entries ∧ SlotMatches beyond key s'.cache x ∧ r = none := by
  simp only [enter, bind_eq_ok] at h
  obtain ⟨⟨q, found, c⟩, hsec, he⟩ := h
  cases found with
  | none =>
    cases he
    exact .inl ⟨goto_self _ t .idle, fun fl hr => nomatch hr⟩
  | some x =>
    cases he
    obtain ⟨hx, hm, hkeep⟩ := checkSection_found hsec
    refine .inr ⟨x, goto_self _ t (.found x), hkeep.entries.symm ▸ hx, ?_, rfl⟩
    exact (slotMatches_congr (key_eq_of_payload (hkeep.payload x))).mpr hm

theorem step_cases (h : step l s = .ok (r, s')) :
    (r = none ∧ s' = s) ∨
    (∃ u p, l = .call u p ∧ s.pcs u = .idle ∧ r = none ∧ s' = s.goto u (.waiting p)) ∨
    (∃ u p, l = .enter u ∧ s.pcs u = .waiting p ∧ enter u p s = .ok (r, s')) ∨
    (∃ u x, l = .copyEntflags u ∧ s.pcs u = .found x ∧ r = none ∧
      s' = s.goto u (.half x (s.cache.entrylist x).entflags)) ∨
    ∃ u x ent, l = .copySfflags u ∧ s.pcs u = .half x ent ∧
      r = some (.found, some ((s.cache.entrylist x).sfflags, ent)) ∧ s' = s.goto u .idle := by
  unfold step at h
  split at h <;> split at h
  · next hpc =>
    cases h
    exact .inr (.inl ⟨_, _, rfl, hpc, rfl, rfl⟩)
  · exact .inl ((ok_inj h).imp .symm .symm)
  · next hpc => exact .inr (.inr (.inl ⟨_, _, rfl, hpc, h⟩))
  · exact .inl ((ok_inj h).imp .symm .symm)
  · next hpc =>
    cases h
    exact .inr (.inr (.inr (.inl ⟨_, _, rfl, hpc, rfl, rfl⟩)))
  · exact .inl ((ok_inj h).imp .symm .symm)
  · next hpc =>
    cases h
    exact .inr (.inr (.inr (.inr ⟨_, _, _, rfl, hpc, rfl, rfl⟩)))
  · exact .inl ((ok_inj h).imp .symm .symm)

theorem step_pcs (h : step l s = .ok (r, s')) (ht : t ≠ l.thread) : s'.pcs t = s.pcs t := by
  rcases step_cases h with ⟨-, rfl⟩ | ⟨u, p, rfl, _, _, rfl⟩ | ⟨u, p, rfl, _, he⟩ | ⟨u, x, rfl, _, _, rfl⟩ |
    ⟨u, x, ent, rfl, _, _, rfl⟩
  · rfl
  · exact goto_of_ne s _ ht
  · obtain ⟨-, pc, hpcs⟩ := enter_cache he
    rw [hpcs]
    exact update_of_ne ht ..
  · exact goto_of_ne s _ ht
  · exact goto_of_ne s _ ht

theorem step_slot (h : step l s = .ok (r, s')) (htakes : ¬Takes l s x) :
    s.cache.entries ≤ s'.cache.entries ∧ (s'.cache.entrylist x).key = (s.cache.entrylist x).key ∧
      (¬Sets l s x → payload (s'.cache.entrylist x) = payload (s.cache.entrylist x)) := by
  rcases step_cases h with ⟨-, rfl⟩ | ⟨u, p, rfl, _, _, rfl⟩ | ⟨u, p, rfl, hpc, he⟩ | ⟨u, y, rfl, _, _, rfl⟩ |
    ⟨u, y, ent, rfl, _, _, rfl⟩
  · exact ⟨le_rfl, rfl, fun _ => rfl⟩
  · exact ⟨le_rfl, rfl, fun _ => rfl⟩
  · obtain ⟨⟨q, hc⟩, -⟩ := enter_cache he
    obtain ⟨fate, op⟩ := p
    have hadd : ∀ key sf ent c₁, op = .add key sf ent → obtainEntry s.cache ≠ .ok (x, c₁) := by
      rintro key sf ent c₁ rfl ho
      exact htakes ⟨u, fate, key, sf, ent, c₁, rfl, hpc, ho⟩
    obtain ⟨hent, hkey, hpay⟩ := callFate_slot hc hadd
    refine ⟨hent, hkey, fun hsets => hpay ?_⟩
    rintro beyond key sf ent rfl hf
    exact hsets ⟨u, fate, beyond, key, sf, ent, rfl, hpc, hf⟩
  · exact ⟨le_rfl, rfl, fun _ => rfl⟩
  · exact ⟨le_rfl, rfl, fun _ => rfl⟩

/-- What is known of a lookup of `key` by the thread `t` since the state `s₁` behind its call, after the steps `ls`. -/
def Tracked (beyond : ℕ → ℕ → UInt8) (key : Bytes) (t : ι) (s₁ : System ι) (ls : List (Label ι)) (s : System ι) : Prop :=
  match s.pcs t with
  | .idle => True
  | .waiting p => ∃ fate sf ent, p = (fate, .check beyond (some key) (some sf) (some ent))
  | .found x => x < s.cache.entries ∧ SlotMatches beyond key s.cache x
  | .half x ent => Sometime (fun s' => StoredFor beyond key ((s.cache.entrylist x).sfflags, ent) s'.cache) step ls s₁

variable {ls : List (Label ι)}

theorem Tracked.append (h : Tracked beyond key t s₁ ls s) (l : Label ι) :
    Tracked beyond key t s₁ (ls ++ [l]) s := by
  unfold Tracked at h ⊢
  cases hpc : s.pcs t with
  | idle => trivial
  | waiting p =>
    rw [hpc] at h
    exact h
  | found x =>
    rw [hpc] at h
    exact h
  | half x ent =>
    rw [hpc] at h
    exact h.append [l]

theorem Tracked.other (h : Tracked beyond key t s₁ ls s) (ht : t ≠ l.thread) (hspares : Spares t l s)
    (hstep : step l s = .ok (r, s')) : Tracked beyond key t s₁ (ls ++ [l]) s' := by
  have hpcs := step_pcs hstep ht
  unfold Tracked at h ⊢
  unfold Spares at hspares
  rw [hpcs]
  cases hpc : s.pcs t with
  | idle => trivial
  | waiting p =>
    rw [hpc] at h
    exact h
  | found x =>
    rw [hpc] at h hspares
    obtain ⟨hent, hkey, -⟩ := step_slot hstep hspares
    exact ⟨h.1.trans_le hent, (slotMatches_congr hkey).mpr h.2⟩
  | half x ent =>
    rw [hpc] at h hspares
    obtain ⟨-, -, hpay⟩ := step_slot hstep hspares.1
    have hflags := (flags_of_payload (hpay hspares.2)).1
    change Sometime (fun s'' => StoredFor beyond key ((s'.cache.entrylist x).sfflags, ent) s''.cache) step (ls ++ [l]) s₁
    rw [hflags]
    exact h.append [l]

theorem Tracked.step (h : Tracked beyond key t s₁ ls s)
    (hrun : run step ls s₁ = .ok (rs, s)) (hspares : Spares t l s) (hown : ∀ p, l ≠ .call t p)
    (hstep : step l s = .ok (r, s')) : Tracked beyond key t s₁ (ls ++ [l]) s' := by
  by_cases ht : t = l.thread
  · rcases step_cases hstep with ⟨-, rfl⟩ | ⟨u, p, rfl, _⟩ | ⟨u, p, rfl, hpc, he⟩ | ⟨u, x, rfl, hpc, -, rfl⟩ |
      ⟨u, x, ent, rfl, _, _, rfl⟩
    · exact h.append l
    · exact absurd (congrArg (fun u => Label.call u p) ht.symm) (hown p)
    · obtain rfl : t = u := ht
      rw [Tracked, hpc] at h
      obtain ⟨fate, sf, ent, rfl⟩ := h
      rcases enter_check he with ⟨hidle, -⟩ | ⟨x, hfound, hx, hm, -⟩
      · rw [Tracked, hidle]
        trivial
      · rw [Tracked, hfound]
        exact ⟨hx, hm⟩
    · obtain rfl : t = u := ht
      rw [Tracked, hpc] at h
      have hafter : run step (ls ++ [.copyEntflags t]) s₁ = _ := run_append_ok hrun
      rw [run_cons_ok hstep] at hafter
      rw [Tracked, goto_self]
      exact sometime_of_run hafter ⟨_, h.1, h.2, fun _ hb hlen => bytes_eq_of_slotMatches h.2 hb hlen, rfl⟩
    · obtain rfl : t = u := ht
      rw [Tracked, goto_self]
      trivial
  · exact h.other ht hspares hstep

theorem tracked_run (h : Tracked beyond key t s₁ [] s₁)
    (hown : ∀ p, .call t p ∉ mid) (hspares : Along (Spares t) step mid s₁) (hrun : run step mid s₁ = .ok (rs, s')) :
    Tracked beyond key t s₁ mid s' := by
  have hcond := hspares.and (along_of_forall (p := fun l => ∀ p, l ≠ .call t p) fun l hl p he => hown p (he ▸ hl))
  have hinv := run_along (I := fun h s => run step (h.map Prod.fst) s₁ = .ok (h.map Prod.snd, s) ∧
      Tracked beyond key t s₁ (h.map Prod.fst) s) (h := []) (fun h l s r s' hi hl hstep => ?_) ⟨rfl, h⟩ hcond hrun
  · have hmap := hinv.2
    rw [nil_append, map_fst_zip (run_length hrun).ge] at hmap
    exact hmap
  · rw [map_append, map_append]
    refine ⟨?_, hi.2.step hi.1 hl.1 hl.2 hstep⟩
    rw [run_append_ok hi.1]
    change (run step [l] s).map _ = _
    rw [run_cons_ok hstep]
    rfl

end

/-- A thread that looks a key up, among any others: if it returns a hit, then the flags it returns were stored together
for the key at some moment between its call and its return, as long as no insertion takes the slot it has found before it
has copied both, and no update writes the slot between the two copies. -/
theorem lookup_consistent {ι : Type} [DecidableEq ι] {s s₁ s₂ s₃ : System ι} {t : ι} {fate : Bool}
    {beyond : ℕ → ℕ → UInt8} {key : Bytes} {a b : UInt32} {r : Option CheckResult} (hidle : s.pcs t = .idle)
    (hcall : step (.call t (fate, .check beyond (some key) (some a) (some b))) s = .ok (r, s₁))
    {mid : List (Label ι)} {rs : List (Option CheckResult)} (hown : ∀ p, .call t p ∉ mid)
    (hmid : run step mid s₁ = .ok (rs, s₂)) (hspares : Along (Spares t) step mid s₁) {l : Label ι} (hl : l.thread = t)
    {fl : UInt32 × UInt32} (hreturn : step l s₂ = .ok (some (.found, some fl), s₃)) :
    Sometime (fun s' => StoredFor beyond key fl s'.cache) step mid s₁ := by
  have hstart : Tracked beyond key t s₁ [] s₁ := by
    rw [step, hidle] at hcall
    obtain ⟨-, rfl⟩ := ok_inj hcall
    rw [Tracked, goto_self]
    exact ⟨fate, a, b, rfl⟩
  have htracked := tracked_run hstart hown hspares hmid
  rcases step_cases hreturn with ⟨he, -⟩ | ⟨u, p, _, _, he, _⟩ | ⟨u, p, rfl, hpc, he⟩ | ⟨u, x, _, _, he, _⟩ |
    ⟨u, x, ent, rfl, hpc, he, _⟩
  · cases he
  · cases he
  · obtain rfl : u = t := hl
    rw [Tracked, hpc] at htracked
    obtain ⟨fate', sf, ent, rfl⟩ := htracked
    rcases enter_check he with ⟨_, hnot⟩ | ⟨x, _, _, _, hnone⟩
    · exact absurd rfl (hnot fl)
    · cases hnone
  · cases he
  · obtain rfl : u = t := hl
    rw [Tracked, hpc] at htracked
    cases he
    exact htracked

instance (beyond : ℕ → ℕ → UInt8) (key : Bytes) (fl : UInt32 × UInt32) (c : Cache) :
    Decidable (StoredFor beyond key fl c) :=
  have (x : ℕ) : Decidable (SlotMatches beyond key c x) := inferInstanceAs (Decidable (_ = _))
  decidable_of_iff (∃ x < c.entries, SlotMatches beyond key c x ∧ ((c.entrylist x).sfflags, (c.entrylist x).entflags) = fl)
    (exists_congr fun _ => and_congr_right fun _ => and_congr_right fun h =>
      (and_iff_right fun _ hb hlen => bytes_eq_of_slotMatches h hb hlen).symm)

def System.init (n : ℕ) : System Bool := ⟨initCache (fun _ => blankEntry) n, fun _ => .idle⟩

def locked (op : Op) : List (Label Bool) := [.call false (true, op), .enter false]

def lookup (t : Bool) (key : Bytes) : Label Bool := .call t (true, .check (fun _ _ => 0) (some key) (some 0) (some 0))

def after (ls : List (Label Bool)) (s : System Bool) : System Bool := ((run step ls s).toOption.map Prod.snd).getD s

/-- An update between the locked section of a lookup and its copies. -/
theorem lookup_consistent_update : ∃ s₁ rs' s₂ s₃,
    step (lookup true [1]) (after (locked (.add [1] 5 6)) (System.init 2)) = .ok (none, s₁) ∧
    run step (.enter true :: locked (.update (fun _ _ => 0) (some [1]) 7 8) ++ [.copyEntflags true]) s₁ = .ok (rs', s₂) ∧
    step (.copySfflags true) s₂ = .ok (some (.found, some (7, 8)), s₃) ∧
    Sometime (fun s' => StoredFor (fun _ _ => 0) [1] (7, 8) s'.cache) step
      (.enter true :: locked (.update (fun _ _ => 0) (some [1]) 7 8) ++ [.copyEntflags true]) s₁ := by
  refine ⟨_, _, _, _, rfl, rfl, rfl, @lookup_consistent Bool _ (after (locked (.add [1] 5 6)) (System.init 2)) _ _ _ true
    _ _ _ _ _ _ rfl rfl _ _ ?_ rfl ?_ (.copySfflags true) rfl _ rfl⟩
  · simp [locked]
  · refine along_cons trivial rfl (along_cons ?_ rfl (along_cons ?_ rfl (along_cons ?_ rfl trivial)))
    · rintro ⟨_, _, _, _, _, _, hl, _⟩
      cases hl
    · rintro ⟨_, _, _, _, _, _, hl, hpc, _⟩
      cases hl
      cases (show Pc.waiting _ = .waiting _ from hpc)
    · rintro ⟨_, _, _, _, _, _, hl, _⟩
      cases hl

/-- An update between the two copies, and a slot that is recycled before both: the first lookup of [1] returns flags that
were never stored together, the second those of [4]. -/
theorem lookup_torn :
    (∃ rs s₁ rs' s₂ s₃, run step (locked (.add [1] 1 1) ++ [lookup true [1]]) (System.init 2) = .ok (rs, s₁) ∧
      run step ([.enter true, .copyEntflags true] ++ locked (.update (fun _ _ => 0) (some [1]) 2 2)) s₁ = .ok (rs', s₂) ∧
      step (.copySfflags true) s₂ = .ok (some (.found, some (2, 1)), s₃) ∧
      ¬Sometime (fun s' => StoredFor (fun _ _ => 0) [1] (2, 1) s'.cache) step
        ([.enter true, .copyEntflags true] ++ locked (.update (fun _ _ => 0) (some [1]) 2 2) ++ [.copySfflags true]) s₁) ∧
    ∃ rs s₁ rs' s₂ s₃, run step (locked (.add [1] 1 1) ++ [lookup true [1]]) (System.init 1) = .ok (rs, s₁) ∧
      run step (.enter true :: locked (.add [2] 2 2) ++
        [lookup false [2], .enter false, .copyEntflags false, .copySfflags false] ++ locked (.add [4] 4 4) ++
        [.copyEntflags true]) s₁ = .ok (rs', s₂) ∧
      step (.copySfflags true) s₂ = .ok (some (.found, some (4, 4)), s₃) ∧
      ¬Sometime (fun s' => StoredFor (fun _ _ => 0) [1] (4, 4) s'.cache) step
        (.enter true :: locked (.add [2] 2 2) ++
          [lookup false [2], .enter false, .copyEntflags false, .copySfflags false] ++ locked (.add [4] 4 4) ++
          [.copyEntflags true, .copySfflags true]) s₁ := by
  refine ⟨⟨_, _, _, _, _, rfl, rfl, rfl, not_sometime_of_throughout (by decide)⟩,
    ⟨_, _, _, _, _, rfl, rfl, rfl, not_sometime_of_throughout (by decide)⟩⟩

end Razorback.LocalCache.Concurrent
