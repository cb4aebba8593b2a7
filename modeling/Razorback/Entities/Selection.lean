import Mathlib.Data.List.Find
import Razorback.Base.Preferences
import Razorback.Entities.Lists

/-! Which dispatcher `ConnectedEntityList_GetDispatcher` selects. In the key
comparison a usable dispatcher counts as a match whatever the criteria before it
said, so the search for a locality ends at the first usable dispatcher. -/

namespace Razorback.Entities
open Records Uuids Runs Preferences List
open Razorback.Lists (Seq)

def usableDispatcher (registry : Registry) (e : ConnectedEntity) : Bool :=
  isDispatcherType registry e.uuidNuggetType && (e.dispatcher.map DispatcherEntity.usable).getD false

def usableDispatchers (registry : Registry) (entities : List ConnectedEntity) : List ConnectedEntity :=
  entities.filter (usableDispatcher registry)

/-- The order of preference: the own locality, the backup localities, any other. -/
def preferences (locality : UInt8) (localities : List ℤ) : List (ConnectedEntity → Bool) :=
  (fun e => decide (e.locality = locality)) ::
    localities.map (fun l (e : ConnectedEntity) => decide ((e.locality.toNat : ℤ) = l)) ++ [fun _ => true]

/-- The dispatcher to be selected: the first usable one of the best locality. -/
def preferred (registry : Registry) (entities : List ConnectedEntity) (locality : UInt8) (localities : List ℤ) :
    Option ConnectedEntity :=
  choose (preferences locality localities) (usableDispatchers registry entities)

section
variable {registry : Registry} {entities : List ConnectedEntity}

theorem collectDispatchers_eq (registry : Registry) (entities : List ConnectedEntity) :
    collectDispatchers registry entities = entities.filter fun e => isDispatcherType registry e.uuidNuggetType := by
  have hvisit : ∀ list : List ConnectedEntity, (Seq.visit (fun e list =>
      (.ok, if isDispatcherType registry e.uuidNuggetType then list ++ [e] else list)) entities list).2.1 =
      list ++ entities.filter fun e => isDispatcherType registry e.uuidNuggetType := by
    induction entities with
    | nil => simp [Seq.visit]
    | cons e rest ih =>
      intro list
      simp only [Seq.visit, filter_cons]
      rw [ih]
      split <;> simp
  exact hvisit []

theorem keyCmp_of_usable (hd : e.dispatcher = some d) (hid : key.wants searchKeyNuggetId = false)
    (happ : key.wants searchKeyAppType = false) (htype : key.wants searchKeyNuggetType = false)
    (husable : key.wants searchKeyUsable) : keyCmp e key = 0 ↔ d.usable := by
  cases hu : d.usable with
  | true => simp [keyCmp, hid, happ, htype, husable, hd, hu, criterion]
  | false =>
    simp only [keyCmp, hid, happ, htype, Bool.false_and, Bool.false_eq_true, if_false]
    generalize criterion (key.wants searchKeyLocality) _ _ = ret
    simp only [criterion, husable, hd, Option.map_some, hu, if_true]
    split <;> simp_all

theorem findEntity_usable (L : EntityList registry)
    (hid : key.wants searchKeyNuggetId = false) (happ : key.wants searchKeyAppType = false)
    (htype : key.wants searchKeyNuggetType = false) (husable : key.wants searchKeyUsable) :
    findEntity (collectDispatchers registry L.entities) key = (usableDispatchers registry L.entities).head? := by
  rw [findEntity, Lists.find_eq, collectDispatchers_eq, find?_filter, usableDispatchers, head?_filter]
  refine find?_congr fun e he => ?_
  cases ht : isDispatcherType registry e.uuidNuggetType with
  | false => simp [usableDispatcher, ht]
  | true =>
    obtain ⟨d, hd⟩ := L.equipped e he ht
    have hkey := keyCmp_of_usable hd hid happ htype husable
    simp [usableDispatcher, ht, hd, hkey]

theorem localityKey_wants (l searchKey : UInt32) :
    (localityKey l).wants searchKey = decide ((searchKeyLocality ||| searchKeyUsable) &&& searchKey ≠ 0) := rfl

theorem getDispatcher_eq (L : EntityList registry) (locality : UInt8) (localities : List ℤ) :
    getDispatcher registry L.entities locality localities =
      .ok (usableDispatchers registry L.entities).head? := by
  have hlocal : ∀ l, findEntity (collectDispatchers registry L.entities) (localityKey l) =
      (usableDispatchers registry L.entities).head? := fun l =>
    findEntity_usable L (by rw [localityKey_wants]; decide) (by rw [localityKey_wants]; decide)
      (by rw [localityKey_wants]; decide) (by rw [localityKey_wants]; decide)
  have hany : findEntity (collectDispatchers registry L.entities) { noKey with searchKeys := searchKeyUsable } =
      (usableDispatchers registry L.entities).head? := 
    findEntity_usable L (by decide) (by decide) (by decide) (by decide)
  have hmem : ∀ e, (usableDispatchers registry L.entities).head? = some e →
      collectDispatchers registry L.entities ≠ [] ∧ clone e = .ok e := by
    intro e he
    obtain ⟨hin, husable⟩ := mem_filter.mp (mem_of_mem_head? he)
    have ht : isDispatcherType registry e.uuidNuggetType := (Bool.and_eq_true_iff.mp husable).1
    obtain ⟨d, hd⟩ := L.equipped e hin ht
    refine ⟨ne_nil_of_mem (a := e) ?_, by rw [clone, hd]⟩
    rw [collectDispatchers_eq]
    exact mem_filter.mpr ⟨hin, ht⟩
  simp only [getDispatcher, hlocal, hany]
  cases hhead : (usableDispatchers registry L.entities).head? with
  | none =>
    have hbackup : localities.findSome? (fun _ => (none : Option ConnectedEntity)) = none :=
      findSome?_eq_none_iff.mpr fun _ _ => rfl
    simp [hbackup, pure, Except.pure]
  | some e =>
    obtain ⟨hne, hclone⟩ := hmem e hhead
    simp [hne, hclone, pure, Except.pure]

/-- The preferred dispatcher is selected exactly when the first usable dispatcher
of the list is of a locality that no other usable one is preferred to. -/
theorem getDispatcher_preferred_iff (L : EntityList registry) (locality : UInt8) (localities : List ℤ) :
    getDispatcher registry L.entities locality localities =
        .ok (preferred registry L.entities locality localities) ↔
      ∀ first rest, usableDispatchers registry L.entities = first :: rest → ∀ e ∈ rest,
        rank (preferences locality localities) first ≤ rank (preferences locality localities) e := by
  rw [getDispatcher_eq, preferred]
  cases husable : usableDispatchers registry L.entities with
  | nil => simp [choose_nil]
  | cons first rest =>
    have hany : ∃ test ∈ preferences locality localities, test first = true :=
      ⟨fun _ => true, by simp [preferences], rfl⟩
    have hchoose := choose_cons_iff (preferences locality localities) first rest
    rw [and_iff_right hany] at hchoose
    rw [head?_cons, Except.ok.injEq, eq_comm, hchoose]
    constructor
    · rintro h first' rest' heq
      obtain ⟨rfl, rfl⟩ := cons.inj heq
      exact h
    · exact fun h => h first rest rfl

end

def dispatcherIn (locality : UInt8) : ConnectedEntity :=
  ⟨locality.toNat, 0x1117de3c6fe8429184ae36cdf2f91017, 0, 1, locality, some ⟨0, 0, [], 1, 80, true⟩⟩

def knownTypes : Registry
  | .nuggetType => [⟨0x1117de3c6fe8429184ae36cdf2f91017, nuggetTypeDispatcher, none⟩]
  | _ => []

/-- The first dispatcher of the list is selected although the second one is of the
configured locality. -/
theorem remote_dispatcher_selected :
    getDispatcher knownTypes [dispatcherIn 2, dispatcherIn 1] 1 [] ≠
      .ok (preferred knownTypes [dispatcherIn 2, dispatcherIn 1] 1 []) := by
  have hselected : getDispatcher knownTypes [dispatcherIn 2, dispatcherIn 1] 1 [] = .ok (some (dispatcherIn 2)) := rfl
  have hpreferred : preferred knownTypes [dispatcherIn 2, dispatcherIn 1] 1 [] = some (dispatcherIn 1) := by decide
  rw [hselected, hpreferred]
  intro h
  exact absurd (Except.ok.inj h) (by decide)

end Razorback.Entities
