import Razorback.Entities.Defs
import Razorback.Base.Runs

/-! The list of connected entities with what its operations keep: an entity of
the dispatcher type comes with its dispatcher data, so the reads through
`dispatcher` in `ConnectedEntityList_Update` do not fail. -/

namespace Razorback.Entities
open Records Uuids Runs List
open Razorback.Lists (Seq)

def Equipped (registry : Registry) (e : ConnectedEntity) : Prop :=
  isDispatcherType registry e.uuidNuggetType = true → ∃ d, e.dispatcher = some d

structure EntityList (registry : Registry) where
  entities : List ConnectedEntity
  equipped : ∀ e ∈ entities, Equipped registry e

def nuggetIdKey (nuggetId : Uuid) : ConnectedEntityKey :=
  { noKey with searchKeys := searchKeyNuggetId, nuggetId := some nuggetId }

section
theorem nuggetIdKey_wants (nuggetId : Uuid) (searchKey : UInt32) :
    (nuggetIdKey nuggetId).wants searchKey = decide (searchKeyNuggetId &&& searchKey ≠ 0) := rfl

theorem keyCmp_nuggetIdKey (e : ConnectedEntity) (nuggetId : Uuid) :
    keyCmp e (nuggetIdKey nuggetId) = 0 ↔ e.uuidNuggetId = nuggetId := by
  have hid : (nuggetIdKey nuggetId).wants searchKeyNuggetId := by rw [nuggetIdKey_wants]; decide
  have happ : (nuggetIdKey nuggetId).wants searchKeyAppType = false := by rw [nuggetIdKey_wants]; decide
  have htype : (nuggetIdKey nuggetId).wants searchKeyNuggetType = false := by rw [nuggetIdKey_wants]; decide
  have hdd : (nuggetIdKey nuggetId).wants searchKeyDD = false := by rw [nuggetIdKey_wants]; decide
  have hlocality : (nuggetIdKey nuggetId).wants searchKeyLocality = false := by rw [nuggetIdKey_wants]; decide
  have husable : (nuggetIdKey nuggetId).wants searchKeyUsable = false := by rw [nuggetIdKey_wants]; decide
  have hkey : (nuggetIdKey nuggetId).nuggetId = some nuggetId := rfl
  by_cases he : nuggetId = e.uuidNuggetId
  · subst he
    simp [keyCmp, hid, happ, htype, hdd, hlocality, husable, hkey, criterion]
  · simp [keyCmp, happ, htype, hdd, hlocality, husable, hkey, criterion, he, Ne.symm he]

variable (nuggetId : Uuid) (change : ConnectedEntity → Except Fault ConnectedEntity) (last : Except Fault (List ConnectedEntity))

theorem updateFirst_cons (e : ConnectedEntity) (rest : List ConnectedEntity) :
    updateFirst nuggetId change last (e :: rest) =
      if keyCmp e (nuggetIdKey nuggetId) = 0 then (change e).map fun e => e :: rest
      else (updateFirst nuggetId change last rest).map fun rest => e :: rest := by
  congr 1

variable (entities : List ConnectedEntity)

theorem updateFirst_cases :
    (∃ before e after, entities = before ++ e :: after ∧ e.uuidNuggetId = nuggetId ∧
      updateFirst nuggetId change last entities = (change e).map fun e => before ++ e :: after) ∨
    (∀ e ∈ entities, e.uuidNuggetId ≠ nuggetId) ∧
      updateFirst nuggetId change last entities = last.map fun l => entities ++ l := by
  induction entities with
  | nil =>
    refine .inr ⟨nofun, ?_⟩
    cases last <;> rfl
  | cons e rest ih =>
    have hkey := keyCmp_nuggetIdKey e nuggetId
    by_cases he : e.uuidNuggetId = nuggetId
    · refine .inl ⟨[], e, rest, rfl, he, ?_⟩
      rw [updateFirst_cons, if_pos (hkey.mpr he)]
      rfl
    · rw [updateFirst_cons, if_neg (fun h => he (hkey.mp h))]
      rcases ih with ⟨before, x, after, rfl, hx, hupdate⟩ | ⟨hnone, hupdate⟩
      · refine .inl ⟨e :: before, x, after, rfl, hx, ?_⟩
        rw [hupdate]
        cases change x <;> rfl
      · refine .inr ⟨forall_mem_cons.mpr ⟨he, hnone⟩, ?_⟩
        rw [hupdate]
        cases last <;> rfl

end

section
variable {registry : Registry} {before after entities' : List ConnectedEntity}

theorem touch_ok (now : ℤ) (hello : Hello) (he : Equipped registry e) :
    ∃ e', touch registry now hello e = .ok e' ∧ Equipped registry e' := by
  unfold touch
  split
  · next htype =>
    obtain ⟨d, hd⟩ := he htype
    rw [hd]
    exact ⟨_, rfl, fun _ => ⟨_, rfl⟩⟩
  · exact ⟨_, rfl, he⟩

theorem newEntity_equipped (registry : Registry) (supported : UInt8 → Bool) (hello : Hello) :
    Equipped registry (newEntity registry supported hello) :=
  fun htype => ⟨_, if_pos htype⟩

theorem equipped_replace (hall : ∀ x ∈ before ++ e :: after, Equipped registry x) (he : Equipped registry e') :
    ∀ x ∈ before ++ e' :: after, Equipped registry x := by
  simp only [forall_mem_append, forall_mem_cons] at hall ⊢
  exact ⟨hall.1, he, hall.2.2⟩

theorem EntityList.update_ok (L : EntityList registry) (supported : UInt8 → Bool) (now : ℤ) (hello : Hello) :
    ∃ L' : EntityList registry, update registry supported now hello L.entities = .ok L'.entities := by
  rcases updateFirst_cases hello.source (touch registry now hello)
    ((touch registry now hello (newEntity registry supported hello)).map fun e => [e]) L.entities with
    ⟨before, e, after, hlist, -, hupdate⟩ | ⟨-, hupdate⟩
  · obtain ⟨e', htouch, he'⟩ := touch_ok now hello (L.equipped e (by simp [hlist]))
    refine ⟨⟨before ++ e' :: after, equipped_replace (hlist ▸ L.equipped) he'⟩, hupdate.trans ?_⟩
    rw [htouch]
    rfl
  · obtain ⟨e, htouch, he⟩ := touch_ok now hello (newEntity_equipped registry supported hello)
    refine ⟨⟨L.entities ++ [e], forall_mem_append.mpr ⟨L.equipped, by simpa using he⟩⟩, hupdate.trans ?_⟩
    rw [htouch]
    rfl

theorem EntityList.prune_ok (L : EntityList registry) (now deadTime : ℤ) :
    ∃ L' : EntityList registry, prune now deadTime L.entities = L'.entities :=
  ⟨⟨_, fun e he => L.equipped e ((Lists.visit_perm ..).subset (mem_append_left _ he))⟩, rfl⟩

theorem EntityList.markDispatcherUnusable_ok (L : EntityList registry)
    (hok : markDispatcherUnusable nuggetId L.entities = .ok entities') :
    ∃ L' : EntityList registry, entities' = L'.entities := by
  rw [markDispatcherUnusable] at hok
  rcases updateFirst_cases nuggetId _ _ L.entities with ⟨before, e, after, hlist, -, hupdate⟩ | ⟨-, hupdate⟩
  · obtain ⟨e', hmark, rfl⟩ := map_eq_ok.mp (hupdate.symm.trans hok)
    refine ⟨⟨_, equipped_replace (hlist ▸ L.equipped) ?_⟩, rfl⟩
    cases hd : e.dispatcher with
    | none => simp [hd] at hmark
    | some d =>
      simp only [hd] at hmark
      cases hmark
      exact fun _ => ⟨_, rfl⟩
  · obtain rfl := Except.ok.inj (hupdate.symm.trans hok)
    exact ⟨L, append_nil _⟩

end

end Razorback.Entities
