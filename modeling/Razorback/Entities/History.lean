import Razorback.Entities.Selection
import Razorback.Base.Histories
import Razorback.Base.Reentry
import Razorback.Transfer.Defs

/-! The list of connected entities over whole runs: Hello messages, passes of the
prune timer, calls of `ConnectedEntityList_GetDispatcher` and
`ConnectedEntityList_MarkDispatcherUnusable`, and the store loops of the submit
threads, which call both. A step is one such call or the end of one
`Transfer_Store`. -/

namespace Razorback.Entities
open Records Uuids Runs Histories Reentry List Option
open Transfer (TransferStatus)

structure Setup where
  registry : Registry
  supported : UInt8 → Bool
  deadTime : ℤ
  locality : UInt8
  localities : List ℤ

inductive Loop
  | selecting (transferTries : ℕ)
  | storing (nuggetId : Uuid) (transferTries : ℕ)
  /-- `Transfer_Store` has returned `TRANSFER_FAIL_DISPATCHER`. -/
  | marking (nuggetId : Uuid) (transferTries : ℕ)
  | ended (transferedOk : Bool)
  deriving DecidableEq

structure State (n : ℕ) where
  entities : List ConnectedEntity
  loops : Fin n → Loop

inductive Event (n : ℕ)
  | added (nuggetId : Uuid)
  | removed (nuggetId : Uuid)
  /-- `ConnectedEntityList_MarkDispatcherUnusable` has returned true. -/
  | marked (nuggetId : Uuid)
  /-- `ConnectedEntityList_GetDispatcher` has returned it. -/
  | selected (nuggetId : Uuid)
  /-- A submit thread stores its item there. -/
  | tried (t : Fin n) (nuggetId : Uuid)
  | failed (t : Fin n) (nuggetId : Uuid)
  deriving DecidableEq

inductive Label (n : ℕ)
  | update (now : ℤ) (hello : Hello)
  | prune (now : ℤ)
  | getDispatcher
  | markDispatcherUnusable (nuggetId : Uuid)
  | select (t : Fin n)
  | stored (t : Fin n) (transfered : TransferStatus)
  | markFailed (t : Fin n)
  | nextItem (t : Fin n)

section
variable {n : ℕ}

def State.goto (s : State n) (t : Fin n) (loop : Loop) : State n := { s with loops := Function.update s.loops t loop }

def updateEntities (cfg : Setup) (now : ℤ) (hello : Hello) (s : State n) : Except Fault (List (Event n) × State n) := do
  let entities ← update cfg.registry cfg.supported now hello s.entities
  let new := (findEntity s.entities (nuggetIdKey hello.source)).isNone
  return (if new then [.added hello.source] else [], { s with entities := entities })

def dead (now deadTime : ℤ) (e : ConnectedEntity) : Bool :=
  e.tTimeOfLastHello > 0 ∧ now - e.tTimeOfLastHello > deadTime

def markUnusable (nuggetId : Uuid) (s : State n) : Except Fault (List (Event n) × State n) := do
  let entities ← markDispatcherUnusable nuggetId s.entities
  let found := (findEntity s.entities (nuggetIdKey nuggetId)).isSome
  return (if found then [.marked nuggetId] else [], { s with entities := entities })

/-- One step; a thread that is not at the step's place does nothing. -/
def call (cfg : Setup) (l : Label n) (s : State n) : Except Fault (List (Event n) × State n) :=
  match l with
  | .update now hello => updateEntities cfg now hello s
  | .prune now =>
    .ok ((s.entities.filter (dead now cfg.deadTime)).map fun e => .removed e.uuidNuggetId,
      { s with entities := prune now cfg.deadTime s.entities })
  | .getDispatcher => do
    let ret ← getDispatcher cfg.registry s.entities cfg.locality cfg.localities
    return (ret.toList.map fun e => .selected e.uuidNuggetId, s)
  | .markDispatcherUnusable nuggetId => markUnusable nuggetId s
  | .select t =>
    match s.loops t with
    | .selecting tries =>
      if tries < 20 then do
        let ret ← getDispatcher cfg.registry s.entities cfg.locality cfg.localities
        match ret with
        | none => return ([], s.goto t (.ended false))
        | some e => return ([.selected e.uuidNuggetId, .tried t e.uuidNuggetId], s.goto t (.storing e.uuidNuggetId tries))
      else return ([], s.goto t (.ended false))
    | _ => return ([], s)
  | .stored t transfered =>
    match s.loops t with
    | .storing nuggetId tries =>
      match transfered with
      | .ok => return ([], s.goto t (.ended true))
      | .failDispatcher => return ([.failed t nuggetId], s.goto t (.marking nuggetId tries))
      | .failLocal => return ([], s.goto t (.selecting (tries + 1)))
    | _ => return ([], s)
  | .markFailed t =>
    match s.loops t with
    | .marking nuggetId tries => markUnusable nuggetId (s.goto t (.selecting (tries + 1)))
    | _ => return ([], s)
  | .nextItem t =>
    match s.loops t with
    | .ended _ => return ([], s.goto t (.selecting 0))
    | _ => return ([], s)

end

def State.init (n : ℕ) : State n := ⟨[], fun _ => .selecting 0⟩

/-- A dispatcher that was marked unusable is selected again only after it was
removed and added, and likewise one that has failed a submit thread. -/
def Sound {n : ℕ} (before : List (Event n)) : Event n → Prop
  | .selected id => ∀ earlier since, before = earlier ++ .marked id :: since →
    [.removed id, .added id].Sublist since
  | .tried t id => ∀ earlier since, before = earlier ++ .tried t id :: since → .failed t id ∈ since →
    [.removed id, .added id].Sublist since
  | _ => True

structure Holds {n : ℕ} (registry : Registry) (es : List (Event n)) (s : State n) : Prop where
  distinct : (s.entities.map ConnectedEntity.uuidNuggetId).Nodup
  equipped : ∀ e ∈ s.entities, e.dispatcher.isSome = isDispatcherType registry e.uuidNuggetType
  sound : Justified Sound es

section
variable {n : ℕ} {cfg : Setup} {es e' : List (Event n)} {s s' : State n}

variable (entities : List ConnectedEntity)

theorem findEntity_isNone (nuggetId : Uuid) :
    (findEntity entities (nuggetIdKey nuggetId)).isNone ↔ ∀ e ∈ entities, e.uuidNuggetId ≠ nuggetId := by
  rw [findEntity, Lists.find_eq, isNone_iff_eq_none, find?_eq_none]
  refine forall₂_congr fun e _ => ?_
  rw [decide_eq_true_iff, keyCmp_nuggetIdKey]

theorem prune_eq (now deadTime : ℤ) (entities : List ConnectedEntity) :
    prune now deadTime entities = entities.filter fun e => !dead now deadTime e := by
  have h := Lists.visit_plain (dead now deadTime) (fun _ _ => ()) entities ()
  simp only [dead, decide_eq_true_eq] at h
  rw [prune, h]
  rfl

def Unusable (e : ConnectedEntity) : Prop := e.dispatcher.map DispatcherEntity.usable ≠ some true

/-- Since some events the entity has stayed on the list with `U`, is out, or has come back. -/
def Since (U : ConnectedEntity → Prop) (id : Uuid) (since : List (Event n)) (entities : List ConnectedEntity) : Prop :=
  Traced ConnectedEntity.uuidNuggetId Event.removed Event.added U id since entities

def Steps (entities entities' : List ConnectedEntity) (es : List (Event n)) : Prop :=
  Changes ConnectedEntity.uuidNuggetId Event.removed Event.added (fun e e' => Unusable e → Unusable e') entities
    entities' es

structure Inv (registry : Registry) (es : List (Event n)) (s : State n) : Prop extends Holds registry es s where
  marked : ∀ id earlier since, es = earlier ++ .marked id :: since → Since Unusable id since s.entities
  tried : ∀ t id earlier since, es = earlier ++ .tried t id :: since → Since (fun _ => True) id since s.entities
  failed : ∀ t id earlier since, es = earlier ++ .tried t id :: since → .failed t id ∈ since →
    (∃ tries, s.loops t = .marking id tries) ∨ Since Unusable id since s.entities

theorem steps_refl (hr : ∀ id, .removed id ∉ es) : Steps entities entities es :=
  ⟨fun x hx => .inl ⟨x, hx, rfl, id⟩, fun id hid => absurd hid (hr id), fun y hy => .inl ⟨y, hy, rfl⟩⟩

theorem steps_change {before after : List ConnectedEntity} {e e' : ConnectedEntity} {es : List (Event n)}
    (hid : e'.uuidNuggetId = e.uuidNuggetId) (hu : Unusable e → Unusable e') (hr : ∀ id, .removed id ∉ es) :
    Steps (before ++ e :: after) (before ++ e' :: after) es := by
  refine ⟨fun x hx => .inl ?_, fun id hid => absurd hid (hr id), fun y hy => .inl ?_⟩
  · rcases mem_append.mp hx with hx | hx
    · exact ⟨x, mem_append_left _ hx, rfl, id⟩
    · rcases mem_cons.mp hx with rfl | hx
      · exact ⟨e', mem_append_right _ mem_cons_self, hid, hu⟩
      · exact ⟨x, mem_append_right _ (mem_cons_of_mem _ hx), rfl, id⟩
  · rcases mem_append.mp hy with hy | hy
    · exact ⟨y, mem_append_left _ hy, rfl⟩
    · rcases mem_cons.mp hy with rfl | hy
      · exact ⟨e, mem_append_right _ mem_cons_self, hid.symm⟩
      · exact ⟨y, mem_append_right _ (mem_cons_of_mem _ hy), rfl⟩

theorem steps_add (e : ConnectedEntity) :
    Steps entities (entities ++ [e]) ([.added e.uuidNuggetId] : List (Event n)) := by
  refine ⟨fun x hx => .inl ⟨x, mem_append_left _ hx, rfl, id⟩, by simp, fun y hy => ?_⟩
  rcases mem_append.mp hy with hy | hy
  · exact .inl ⟨y, hy, rfl⟩
  · rw [mem_singleton.mp hy]
    exact .inr mem_cons_self

theorem steps_prune (now deadTime : ℤ) {entities : List ConnectedEntity}
    (hnodup : (entities.map ConnectedEntity.uuidNuggetId).Nodup) :
    Steps entities (prune now deadTime entities)
      (((entities.filter (dead now deadTime)).map fun e => .removed e.uuidNuggetId) : List (Event n)) := by
  rw [prune_eq]
  refine ⟨fun x hx => ?_, fun id hid y hy hkey => ?_, fun y hy => .inl ⟨y, (mem_filter.mp hy).1, rfl⟩⟩
  · cases hd : dead now deadTime x with
    | true => exact .inr (mem_map_of_mem (mem_filter.mpr ⟨hx, hd⟩))
    | false => exact .inl ⟨x, mem_filter.mpr ⟨hx, by rw [hd]; rfl⟩, rfl, id⟩
  · obtain ⟨x, hx, he⟩ := mem_map.mp hid
    obtain ⟨hxm, hxd⟩ := mem_filter.mp hx
    obtain ⟨hym, hyd⟩ := mem_filter.mp hy
    obtain rfl := Event.removed.inj he
    obtain rfl := inj_on_of_nodup_map hnodup hym hxm hkey
    simp [hxd] at hyd

theorem Inv.move (h : Inv cfg.registry es s) (hsteps : Steps s.entities s'.entities e')
    (hdistinct : (s'.entities.map ConnectedEntity.uuidNuggetId).Nodup)
    (hequipped : ∀ e ∈ s'.entities, e.dispatcher.isSome = isDispatcherType cfg.registry e.uuidNuggetType)
    (hsound : Justified (fun before x => Sound (es ++ before) x) e')
    (hmarked : ∀ id earlier since, e' = earlier ++ .marked id :: since → Since Unusable id since s'.entities)
    (htried : ∀ t id earlier since, e' = earlier ++ .tried t id :: since → Since (fun _ => True) id since s'.entities)
    (hfails : ∀ t id, .failed t id ∈ e' → ∃ tries, s'.loops t = .marking id tries)
    (hleaves : ∀ t id tries, s.loops t = .marking id tries → (∃ tries, s'.loops t = .marking id tries) ∨
      ∀ since, Since (fun _ => True) id since s.entities → Since Unusable id (since ++ e') s'.entities) :
    Inv cfg.registry (es ++ e') s' := by
  have htraced : ∀ {U : ConnectedEntity → Prop}, (∀ e e', (Unusable e → Unusable e') → U e → U e') → ∀ id since,
      Since U id since s.entities → Since U id (since ++ e') s'.entities := fun hU _ _ hs => hsteps.traced hU hs
  refine ⟨⟨hdistinct, hequipped, h.sound.append hsound⟩, fun id earlier since heq => ?_, fun t id earlier since heq => ?_,
    fun t id earlier since heq hf => ?_⟩
  · rcases append_eq_append_cons heq with ⟨since', hes, rfl⟩ | ⟨earlier', he', _⟩
    · exact htraced (fun _ _ hu => hu) id since' (h.marked id earlier since' hes)
    · exact hmarked id earlier' since he'
  · rcases append_eq_append_cons heq with ⟨since', hes, rfl⟩ | ⟨earlier', he', _⟩
    · exact htraced (fun _ _ _ _ => trivial) id since' (h.tried t id earlier since' hes)
    · exact htried t id earlier' since he'
  · rcases append_eq_append_cons heq with ⟨since', hes, rfl⟩ | ⟨earlier', he', _⟩
    · rcases mem_append.mp hf with hf | hf
      · rcases h.failed t id earlier since' hes hf with ⟨tries, hpc⟩ | hs
        · exact (hleaves t id tries hpc).imp_right fun hl => hl since' (h.tried t id earlier since' hes)
        · exact .inr (htraced (fun _ _ hu => hu) id since' hs)
      · exact .inl (hfails t id hf)
    · exact .inl (hfails t id (he' ▸ mem_append_right _ (mem_cons_of_mem _ hf)))

theorem Inv.silent (h : Inv cfg.registry es s) (hent : s'.entities = s.entities)
    (hleaves : ∀ t id tries, s.loops t = .marking id tries → ∃ tries, s'.loops t = .marking id tries) :
    Inv cfg.registry (es ++ []) s' :=
  h.move (hent ▸ steps_refl s.entities (by simp)) (hent ▸ h.distinct) (hent ▸ h.equipped) justified_nil (by simp)
    (by simp) (by simp) fun t id tries hpc => .inl (hleaves t id tries hpc)

structure Keeps (e e' : ConnectedEntity) : Prop where
  id : e'.uuidNuggetId = e.uuidNuggetId
  type : e'.uuidNuggetType = e.uuidNuggetType
  data : e'.dispatcher.isSome = e.dispatcher.isSome
  unusable : Unusable e → Unusable e'

theorem newEntity_data (registry : Registry) (supported : UInt8 → Bool) (hello : Hello) :
    (newEntity registry supported hello).dispatcher.isSome =
      isDispatcherType registry (newEntity registry supported hello).uuidNuggetType := by
  unfold newEntity
  cases isDispatcherType registry hello.uuidNuggetType <;> rfl

variable {e : ConnectedEntity}

theorem touch_keeps (now : ℤ) (hello : Hello)
    (he : e.dispatcher.isSome = isDispatcherType registry e.uuidNuggetType) :
    ∃ e', touch registry now hello e = .ok e' ∧ Keeps e e' := by
  unfold touch
  split
  · rename_i htype
    obtain ⟨d, hd⟩ := isSome_iff_exists.mp (he.trans htype)
    rw [hd]
    exact ⟨_, rfl, rfl, rfl, by rw [hd]; rfl, fun hu => by simpa [Unusable, hd] using hu⟩
  · exact ⟨_, rfl, rfl, rfl, rfl, id⟩

section
variable (h : Inv cfg.registry es s)
include h

theorem Inv.changes {before after : List ConnectedEntity} {e₁ e₂ : ConnectedEntity}
    (hent : s.entities = before ++ e₁ :: after) (hk : Keeps e₁ e₂) :
    ((before ++ e₂ :: after).map ConnectedEntity.uuidNuggetId).Nodup ∧
      ∀ e ∈ before ++ e₂ :: after, e.dispatcher.isSome = isDispatcherType cfg.registry e.uuidNuggetType := by
  have hids : (before ++ e₂ :: after).map ConnectedEntity.uuidNuggetId =
      s.entities.map ConnectedEntity.uuidNuggetId := by
    rw [hent, map_append, map_append, map_cons, map_cons, hk.id]
  refine ⟨hids ▸ h.distinct, fun e he => ?_⟩
  have hequipped := h.equipped
  rw [hent] at hequipped
  rcases mem_append.mp he with he | he
  · exact hequipped e (mem_append_left _ he)
  · rcases mem_cons.mp he with rfl | he
    · rw [hk.data, hk.type]
      exact hequipped e₁ (mem_append_right _ mem_cons_self)
    · exact hequipped e (mem_append_right _ (mem_cons_of_mem _ he))

theorem Inv.updates (now : ℤ) (hello : Hello) :
    ∃ e' s', updateEntities cfg now hello s = .ok (e', s') ∧ Inv cfg.registry (es ++ e') s' := by
  unfold updateEntities update
  rcases updateFirst_cases hello.source (touch cfg.registry now hello)
      ((touch cfg.registry now hello (newEntity cfg.registry cfg.supported hello)).map fun e => [e]) s.entities with
    ⟨before, e₁, after, hent, hid, hupdate⟩ | ⟨hnone, hupdate⟩
  · have hmem : e₁ ∈ s.entities := hent ▸ mem_append_right _ mem_cons_self
    obtain ⟨e₂, htouch, hk⟩ := touch_keeps now hello (h.equipped e₁ hmem)
    have hfound : (findEntity s.entities (nuggetIdKey hello.source)).isNone = false :=
      Bool.eq_false_iff.mpr fun hn => (findEntity_isNone _ _).mp hn e₁ hmem hid
    rw [hupdate, htouch, hfound]
    obtain ⟨hdistinct, hequipped⟩ := h.changes hent hk
    refine ⟨[], _, rfl, h.move ?_ hdistinct hequipped justified_nil (by simp) (by simp) (by simp)
      fun t id tries hpc => .inl ⟨tries, hpc⟩⟩
    rw [hent]
    exact steps_change hk.id hk.unusable (by simp)
  · obtain ⟨e₂, htouch, hk⟩ := touch_keeps now hello (newEntity_data cfg.registry cfg.supported hello)
    rw [hupdate, htouch, (findEntity_isNone _ _).mpr hnone]
    have hid : e₂.uuidNuggetId = hello.source := hk.id
    refine ⟨[.added hello.source], _, rfl, h.move ?_ ?_ (fun e he => ?_) (justified_singleton trivial)
      (fun _ _ _ heq => absurd heq (ne_append_cons (by simp))) (fun _ _ _ _ heq => absurd heq (ne_append_cons (by simp)))
      (by simp) fun t id tries hpc => .inl ⟨tries, hpc⟩⟩
    · rw [← hid]
      exact steps_add s.entities e₂
    · rw [map_append, nodup_append]
      refine ⟨h.distinct, nodup_singleton _, fun id hmem id' hmem' heq => ?_⟩
      obtain ⟨e, he, rfl⟩ := mem_map.mp hmem
      rw [mem_singleton.mp hmem', hid] at heq
      exact hnone e he heq
    · rcases mem_append.mp he with he | he
      · exact h.equipped e he
      · rw [mem_singleton.mp he, hk.data, hk.type]
        exact newEntity_data cfg.registry cfg.supported hello

theorem Inv.prunes (now : ℤ) :
    Inv cfg.registry (es ++ (s.entities.filter (dead now cfg.deadTime)).map fun e => .removed e.uuidNuggetId)
      { s with entities := prune now cfg.deadTime s.entities } := by
  have hno : ∀ x : Event n, (∀ id, x ≠ .removed id) →
      x ∉ (s.entities.filter (dead now cfg.deadTime)).map fun e => .removed e.uuidNuggetId := by
    intro x hx hmem
    obtain ⟨e, _, rfl⟩ := mem_map.mp hmem
    exact hx _ rfl
  refine h.move (steps_prune now cfg.deadTime h.distinct) ?_ (fun e he => ?_) (fun earlier x since heq => ?_)
    (fun _ _ _ heq => absurd heq (ne_append_cons (hno _ (by simp))))
    (fun _ _ _ _ heq => absurd heq (ne_append_cons (hno _ (by simp)))) (fun t id hf => absurd hf (hno _ (by simp)))
    fun t id tries hpc => .inl ⟨tries, hpc⟩
  · rw [prune_eq]
    exact h.distinct.sublist (filter_sublist.map _)
  · rw [prune_eq] at he
    exact h.equipped e (mem_filter.mp he).1
  · obtain ⟨e, _, rfl⟩ := mem_map.mp (heq ▸ mem_append_right earlier mem_cons_self)
    trivial

theorem Inv.selects :
    ∃ ret, getDispatcher cfg.registry s.entities cfg.locality cfg.localities = .ok ret ∧
      ∀ e ∈ ret, e ∈ s.entities ∧ ¬Unusable e := by
  have hequipped : ∀ e ∈ s.entities, Equipped cfg.registry e := fun e he htype =>
    isSome_iff_exists.mp ((h.equipped e he).trans htype)
  refine ⟨_, getDispatcher_eq ⟨s.entities, hequipped⟩ cfg.locality cfg.localities, fun e he => ?_⟩
  obtain ⟨hmem, husable⟩ := mem_filter.mp (mem_of_mem_head? he)
  refine ⟨hmem, fun hu => hu ?_⟩
  have hdata := (Bool.and_eq_true_iff.mp husable).2
  cases hd : e.dispatcher with
  | none => simp [hd] at hdata
  | some d => simpa [hd] using hdata

end

def HasData (nuggetId : Uuid) (entities : List ConnectedEntity) : Prop :=
  ∀ e ∈ entities, e.uuidNuggetId = nuggetId → e.dispatcher.isSome = true

def disable (e : ConnectedEntity) : Except Fault ConnectedEntity :=
  match e.dispatcher with
  | none => .error .nullPointer
  | some d => .ok { e with dispatcher := some { d with usable := false } }

theorem disable_keeps (he : e.dispatcher.isSome) :
    ∃ e', disable e = .ok e' ∧ Keeps e e' ∧ Unusable e' := by
  obtain ⟨d, hd⟩ := isSome_iff_exists.mp he
  unfold disable
  rw [hd]
  exact ⟨_, rfl, ⟨rfl, rfl, by rw [hd]; rfl, fun _ => by simp [Unusable]⟩, by simp [Unusable]⟩

theorem Inv.marks (s₀ : State n) {nuggetId : Uuid} (h : Inv cfg.registry es s) (hent : s₀.entities = s.entities)
    (hloops : ∀ t id tries, s.loops t = .marking id tries → (∃ tries, s₀.loops t = .marking id tries) ∨ id = nuggetId)
    (hdata : HasData nuggetId s.entities) :
    ∃ e' s', markUnusable nuggetId s₀ = .ok (e', s') ∧ Inv cfg.registry (es ++ e') s' := by
  unfold markUnusable
  rw [hent]
  rcases updateFirst_cases nuggetId disable (.ok []) s.entities with
    ⟨before, e₁, after, hsplit, hid, hupdate⟩ | ⟨hnone, hupdate⟩
  · have hmem : e₁ ∈ s.entities := hsplit ▸ mem_append_right _ mem_cons_self
    obtain ⟨e₂, hdisable, hk, hu⟩ := disable_keeps (hdata e₁ hmem hid)
    have hfound : (findEntity s.entities (nuggetIdKey nuggetId)).isSome := by
      rw [← not_isNone, Bool.not_eq_true', Bool.eq_false_iff]
      exact fun hn => (findEntity_isNone _ _).mp hn e₁ hmem hid
    obtain ⟨hdistinct, hequipped⟩ := h.changes hsplit hk
    have hmem₂ : e₂ ∈ before ++ e₂ :: after := mem_append_right _ mem_cons_self
    have hid₂ : e₂.uuidNuggetId = nuggetId := hk.id.trans hid
    have hsteps : Steps s.entities (before ++ e₂ :: after) ([.marked nuggetId] : List (Event n)) := by
      rw [hsplit]
      exact steps_change hk.id hk.unusable (by simp)
    have hmark : markDispatcherUnusable nuggetId s.entities = .ok (before ++ e₂ :: after) := by
      refine hupdate.trans ?_
      rw [hdisable]
      rfl
    rw [hmark, hfound]
    refine ⟨[.marked nuggetId], _, rfl, h.move hsteps hdistinct hequipped (justified_singleton trivial)
      (fun id earlier since heq => ?_) (fun _ _ _ _ heq => absurd heq (ne_append_cons (by simp))) (by simp)
      fun t id tries hpc => (hloops t id tries hpc).imp_right fun hid' since hs => ?_⟩
    · obtain ⟨hx, rfl⟩ := singleton_eq_append_cons heq
      obtain rfl := Event.marked.inj hx
      exact .inl ⟨e₂, hmem₂, hid₂, hu⟩
    · rw [hid'] at hs ⊢
      refine (hsteps.traced (fun _ _ _ _ => trivial) hs).mono fun x hx hkey _ => ?_
      obtain rfl := inj_on_of_nodup_map hdistinct hx hmem₂ (hkey.trans hid₂.symm)
      exact hu
  · have hfound : (findEntity s.entities (nuggetIdKey nuggetId)).isSome = false := by
      rw [← not_isNone, (findEntity_isNone _ _).mpr hnone]
      rfl
    have hmark : markDispatcherUnusable nuggetId s.entities = .ok s.entities := by
      refine hupdate.trans ?_
      show Except.ok (s.entities ++ []) = _
      rw [append_nil]
    rw [hmark, hfound]
    refine ⟨[], _, rfl, h.move (steps_refl s.entities (by simp)) h.distinct h.equipped justified_nil (by simp) (by simp)
      (by simp) fun t id tries hpc => (hloops t id tries hpc).imp_right fun hid' since hs => ?_⟩
    rw [hid', append_nil] at *
    exact hs.mono fun x hx hkey _ => absurd hkey (hnone x hx)

theorem markUnusable_error {nuggetId : Uuid} {s : State n}
    (hdistinct : (s.entities.map ConnectedEntity.uuidNuggetId).Nodup) (hdata : ¬HasData nuggetId s.entities) :
    markUnusable nuggetId s = .error .nullPointer := by
  simp only [HasData, not_forall] at hdata
  obtain ⟨e, he, hid, hnone⟩ := hdata
  rcases updateFirst_cases nuggetId disable (.ok []) s.entities with
    ⟨before, e₁, after, hsplit, hid₁, hupdate⟩ | ⟨hout, _⟩
  · have hmem : e₁ ∈ s.entities := hsplit ▸ mem_append_right _ mem_cons_self
    obtain rfl := inj_on_of_nodup_map hdistinct he hmem (hid.trans hid₁.symm)
    have hmark : markDispatcherUnusable nuggetId s.entities = .error .nullPointer := by
      refine hupdate.trans ?_
      rw [disable, not_isSome_iff_eq_none.mp hnone]
      rfl
    rw [markUnusable, hmark]
    rfl
  · exact absurd hid (hout e he)

theorem goto_marking {t u : Fin n} {loop : Loop} {id : Uuid} {tries : ℕ} (hpc : ∀ id tries, s.loops t ≠ .marking id tries)
    (hu : s.loops u = .marking id tries) : ∃ tries, (s.goto t loop).loops u = .marking id tries := by
  refine ⟨tries, ?_⟩
  by_cases hut : u = t
  · exact absurd (hut ▸ hu) (hpc id tries)
  · exact (Function.update_of_ne hut ..).trans hu

section
variable (h : Inv cfg.registry es s)
include h

theorem Inv.goes (t : Fin n) (loop : Loop) (hpc : ∀ id tries, s.loops t ≠ .marking id tries) :
    Inv cfg.registry (es ++ []) (s.goto t loop) :=
  h.silent rfl fun _ _ _ hu => goto_marking hpc hu

theorem Inv.gets (ret : Option ConnectedEntity)
    (hret : ∀ e ∈ ret, e ∈ s.entities ∧ ¬Unusable e) :
    Inv cfg.registry (es ++ ret.toList.map fun e => .selected e.uuidNuggetId) s := by
  cases ret with
  | none => exact h.silent rfl fun _ _ tries hu => ⟨tries, hu⟩
  | some e =>
    obtain ⟨he, hu⟩ := hret e rfl
    exact h.move (steps_refl s.entities (by simp)) h.distinct h.equipped
      (justified_singleton (by
        rw [append_nil]
        exact fun earlier since heq => Traced.reentered (h.marked _ earlier since heq) he h.distinct hu))
      (fun _ _ _ heq => absurd heq (ne_append_cons (by simp))) (fun _ _ _ _ heq => absurd heq (ne_append_cons (by simp)))
      (by simp) fun _ _ tries hpc => .inl ⟨tries, hpc⟩

theorem Inv.tries {t : Fin n} {tries : ℕ}
    (hpc : s.loops t = .selecting tries) (he : e ∈ s.entities) (hu : ¬Unusable e) :
    Inv cfg.registry (es ++ [.selected e.uuidNuggetId, .tried t e.uuidNuggetId])
      (s.goto t (.storing e.uuidNuggetId tries)) := by
  have hnot : ∀ id tries, s.loops t ≠ .marking id tries := by simp [hpc]
  have hget := h.gets (some e) fun e' he' => some.inj he' ▸ ⟨he, hu⟩
  have hsplit : es ++ [.selected e.uuidNuggetId, .tried t e.uuidNuggetId] =
      (es ++ [.selected e.uuidNuggetId]) ++ [.tried t e.uuidNuggetId] := by simp
  rw [hsplit]
  have hsound : Sound (es ++ [.selected e.uuidNuggetId]) (.tried t e.uuidNuggetId) := by
    intro earlier since heq hf
    rcases hget.failed t _ earlier since heq hf with ⟨tries, hm⟩ | hs
    · exact absurd hm (hnot _ tries)
    · exact Traced.reentered hs he h.distinct hu
  refine hget.move (steps_refl s.entities (by simp)) h.distinct h.equipped
    (justified_singleton (by rwa [append_nil]))
    (fun _ _ _ heq => absurd heq (ne_append_cons (by simp))) (fun u id earlier since heq => ?_) (by simp)
    fun u id tries hm => .inl (goto_marking hnot hm)
  obtain ⟨hx, rfl⟩ := singleton_eq_append_cons heq
  obtain ⟨rfl, rfl⟩ := Event.tried.inj hx
  exact .inl ⟨e, he, rfl, trivial⟩

theorem Inv.fails {t : Fin n} {id : Uuid} {tries : ℕ} (hpc : s.loops t = .storing id tries) :
    Inv cfg.registry (es ++ [.failed t id]) (s.goto t (.marking id tries)) := by
  refine h.move (steps_refl s.entities (by simp)) h.distinct h.equipped (justified_singleton trivial)
    (fun _ _ _ heq => absurd heq (ne_append_cons (by simp))) (fun _ _ _ _ heq => absurd heq (ne_append_cons (by simp)))
    (fun u id' hf => ?_) fun u id' tries' hm => .inl (goto_marking (by simp [hpc]) hm)
  obtain ⟨rfl, rfl⟩ := Event.failed.inj (mem_singleton.mp hf)
  exact ⟨tries, Function.update_self ..⟩

end

/-- No mark finds an entity without dispatcher data. -/
def Marks (l : Label n) (s : State n) : Prop :=
  match l with
  | .markDispatcherUnusable nuggetId => HasData nuggetId s.entities
  | .markFailed t => ∀ nuggetId tries, s.loops t = .marking nuggetId tries → HasData nuggetId s.entities
  | _ => True

theorem Inv.call (h : Inv cfg.registry es s) (l : Label n) (hm : Marks l s) :
    ∃ e' s', call cfg l s = .ok (e', s') ∧ Inv cfg.registry (es ++ e') s' := by
  cases l with
  | update now hello => exact h.updates now hello
  | prune now => exact ⟨_, _, rfl, h.prunes now⟩
  | getDispatcher =>
    obtain ⟨ret, hget, hret⟩ := h.selects
    refine ⟨_, _, ?_, h.gets ret hret⟩
    rw [Entities.call, hget]
    rfl
  | markDispatcherUnusable nuggetId => exact h.marks s rfl (fun _ _ tries hu => .inl ⟨tries, hu⟩) hm
  | select t =>
    simp only [Entities.call]
    cases hpc : s.loops t with
    | selecting tries =>
      dsimp only
      split
      · obtain ⟨ret, hget, hret⟩ := h.selects
        rw [hget]
        cases ret with
        | none => exact ⟨_, _, rfl, h.goes t _ (by simp [hpc])⟩
        | some e =>
          obtain ⟨he, hu⟩ := hret e rfl
          exact ⟨_, _, rfl, h.tries hpc he hu⟩
      · exact ⟨_, _, rfl, h.goes t _ (by simp [hpc])⟩
    | _ => exact ⟨_, _, rfl, h.silent rfl fun _ _ tries hu => ⟨tries, hu⟩⟩
  | stored t transfered =>
    simp only [Entities.call]
    cases hpc : s.loops t with
    | storing id tries =>
      cases transfered with
      | ok => exact ⟨_, _, rfl, h.goes t _ (by simp [hpc])⟩
      | failDispatcher => exact ⟨_, _, rfl, h.fails hpc⟩
      | failLocal => exact ⟨_, _, rfl, h.goes t _ (by simp [hpc])⟩
    | _ => exact ⟨_, _, rfl, h.silent rfl fun _ _ tries hu => ⟨tries, hu⟩⟩
  | markFailed t =>
    simp only [Entities.call]
    cases hpc : s.loops t with
    | marking id tries =>
      refine h.marks (s.goto t (.selecting (tries + 1))) rfl (fun u id' tries' hu => ?_) (hm id tries hpc)
      by_cases hut : u = t
      · rw [hut, hpc] at hu
        exact .inr (Loop.marking.inj hu).1.symm
      · exact .inl ⟨tries', (Function.update_of_ne hut ..).trans hu⟩
    | _ => exact ⟨_, _, rfl, h.silent rfl fun _ _ tries hu => ⟨tries, hu⟩⟩
  | nextItem t =>
    simp only [Entities.call]
    cases hpc : s.loops t with
    | ended ok => exact ⟨_, _, rfl, h.goes t _ (by simp [hpc])⟩
    | _ => exact ⟨_, _, rfl, h.silent rfl fun _ _ tries hu => ⟨tries, hu⟩⟩

theorem Inv.marks_of_call (h : Inv cfg.registry es s) (hok : Entities.call cfg l s = .ok (e', s')) :
    Marks l s := by
  cases l with
  | markDispatcherUnusable nuggetId =>
    by_contra hdata
    have herror := markUnusable_error h.distinct hdata
    exact nomatch herror.symm.trans hok
  | markFailed t =>
    intro nuggetId tries hpc
    by_contra hdata
    have herror : markUnusable nuggetId (s.goto t (.selecting (tries + 1))) = .error .nullPointer :=
      markUnusable_error h.distinct hdata
    simp only [Entities.call, hpc] at hok
    exact nomatch herror.symm.trans hok
  | _ => trivial

theorem inv_init (registry : Registry) (n : ℕ) : Inv registry [] (State.init n) :=
  ⟨⟨nodup_nil, nofun, justified_nil⟩, by simp, by simp, by simp⟩

end

/-- A run of calls goes on unless a mark finds an entity without dispatcher data,
and what the list is for holds at every point it comes to. -/
theorem entities_hold {n : ℕ} (cfg : Setup) (ls : List (Label n)) :
    ((∃ es s, Emits (call cfg) ls (State.init n) es s) ↔ Along Marks (call cfg) ls (State.init n)) ∧
      ∀ es s, Emits (call cfg) ls (State.init n) es s → Holds cfg.registry es s := by
  obtain ⟨hiff, hkeep⟩ := emits_iff_along (I := fun es s => Inv cfg.registry es s) (fun es l s h hm => h.call l hm)
    (fun es l s es' s' h hok => h.marks_of_call hok) (inv_init cfg.registry n) ls
  exact ⟨hiff, fun es s h => (hkeep es s h).toHolds⟩

def helloOf (source nuggetType : Uuid) : Hello := ⟨source, nuggetType, 0, 1, 0, 0, [], 1, 80⟩

def sampleSetup : Setup := ⟨knownTypes, fun _ => true, 30, 1, []⟩

/-- A dispatcher is selected, is pruned, comes back as something else and is then
marked unusable. -/
theorem selected_mark_fails :
    (∃ s : State 0, Emits (call sampleSetup)
      [.update 1 (helloOf 5 0x1117de3c6fe8429184ae36cdf2f91017), .getDispatcher, .prune 100, .update 101 (helloOf 5 0)]
      (State.init 0) [.added 5, .selected 5, .removed 5, .added 5] s) ∧
    run (call sampleSetup)
      [.update 1 (helloOf 5 0x1117de3c6fe8429184ae36cdf2f91017), .getDispatcher, .prune 100, .update 101 (helloOf 5 0),
        .markDispatcherUnusable 5] (State.init 0) = .error .nullPointer := by
  refine ⟨⟨_, _, rfl, rfl⟩, rfl⟩

end Razorback.Entities
