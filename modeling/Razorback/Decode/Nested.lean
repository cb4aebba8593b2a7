import Razorback.Decode.Accounts

/-! The accounts of blocks, events and judgments. Two things can go wrong in a block: `Block_Destroy` forgets a parent
block, and it asks for the id that the block may not have. -/

namespace Razorback.Decode
open Records Text Uuids Heap
open JsonBuffer (Libs)
open Json (Fields)
open Partial (isSome_bind)

/-! ### The objects of a message -/

inductive Reaches (msg : Fields) : Fields → Prop
  | self : Reaches msg msg
  | member {object inner : Fields} {key : String} :
      Reaches msg object → Json.getObject object key = some inner → Reaches msg inner
  | entry {object inner : Fields} {key : String} {items : List Json} :
      Reaches msg object → Json.get object key = some (.array items) → .object inner ∈ items → Reaches msg inner

def blockNames : List String := ["Block", "Child_Block"]

inductive IsBlock (msg : Fields) : Fields → Prop
  | named {object block : Fields} {name : String} :
      Reaches msg object → name ∈ blockNames → Json.getObject object name = some block → IsBlock msg block
  | parent {block parent : Fields} : IsBlock msg block → Json.getObject block "Parent" = some parent → IsBlock msg parent

theorem IsBlock.reaches (h : IsBlock msg block) : Reaches msg block := by
  induction h with
  | named hobject _ hblock => exact hobject.member hblock
  | parent _ hparent ih => exact ih.member hparent

def ParentFree (lib : Libs) (registry : Registry) (msg : Fields) : Prop :=
  ∀ block parent, IsBlock msg block → Json.getObject block "Parent" = some parent →
    JsonBuffer.readBlock lib registry parent = none

/-- Every block has an id that can be read, and no binary value is empty. -/
structure Tame (lib : Libs) (msg : Fields) : Prop where
  ids : ∀ block, IsBlock msg block → (JsonBuffer.getBlockId lib block "Id").isSome
  values : ∀ object, Reaches msg object → JsonBuffer.getByteArray lib object "Bin_Value" ≠ some []

theorem Reaches.mem_objects (h : Reaches msg object) : object ∈ Json.objects (.object msg) := by
  induction h with
  | self => exact List.mem_cons_self
  | @member object inner key _ hinner ih =>
    have hsub : (Json.object inner).objects ⊆ Json.objectsFields object :=
      Json.objects_subset_of_get (Json.get_of_getObject hinner)
    exact Json.objectsFields_subset _ ih (hsub List.mem_cons_self)
  | @entry object inner key items _ hitems hinner ih =>
    have hsub : (Json.array items).objects ⊆ Json.objectsFields object := Json.objects_subset_of_get hitems
    exact Json.objectsFields_subset _ ih (hsub (Json.mem_objectsItems hinner))

theorem ParentFree.of_objects
    (h : ∀ object ∈ Json.objects (.object msg), (Json.getObject object "Parent").isNone) : ParentFree lib registry msg := by
  intro block parent hblock hparent
  simpa [hparent] using h block hblock.reaches.mem_objects

theorem Tame.of_objects
    (hids : ∀ object ∈ Json.objects (.object msg), ∀ name ∈ "Parent" :: blockNames,
      (Json.getObject object name).all fun block => (JsonBuffer.getBlockId lib block "Id").isSome)
    (hvalues : ∀ object ∈ Json.objects (.object msg), JsonBuffer.getByteArray lib object "Bin_Value" ≠ some []) :
    Tame lib msg where
  ids block hblock := by
    cases hblock with
    | named hobject hname hread => simpa [hread] using hids _ hobject.mem_objects _ (List.mem_cons_of_mem _ hname)
    | parent hchild hread => simpa [hread] using hids _ hchild.reaches.mem_objects _ List.mem_cons_self
  values object hobject := hvalues object hobject.mem_objects

section Nested

variable {exact quiet : Prop} {lib : Libs} {registry : Registry} {msg object : Fields} {parent : Json}
  {name : String}

theorem metadata_reads (htame : quiet → Tame lib msg) (hp : quiet → isObject parent)
    (hparent : Reaches msg (members parent)) :
    Reads exact quiet (getNTLVList lib registry parent name) ntlvOwn
      (JsonBuffer.getNTLVList lib registry (members parent) name).isSome :=
  getNTLVList_reads hp fun hquiet _ entry hitems hentry =>
    (htame hquiet).values entry (hparent.entry hitems hentry)

theorem fills_ifPresent {σ α : Type} {own : σ → Multiset Address} {ownField : α → Multiset Address}
    {set : σ → α → σ} {read : Prog (Option α)} {steps : List (Step Fault σ)} {s : σ} {b found : Bool}
    (habsent : Json.get object name = none → b)
    (hread : (Json.get object name).isSome → Reads exact quiet read ownField b)
    (hset : exact → (Json.get object name).isSome → b → ∀ a, own (set s a) = own s + ownField a)
    (hrest : Fills exact quiet own steps s found) (hrest' : ∀ a, Fills exact quiet own steps (set s a) found) :
    Fills exact quiet own (ifPresent object name (slot set read) :: steps) s (b && found) := by
  refine .ifSome (objectGet_gives fun _ => rfl) (fun hpresent => ?_) fun hnone => ?_
  · exact .slot (hread hpresent) (fun hexact => hset hexact hpresent) hrest'
  · rw [habsent hnone]
    exact .skip hrest

variable {found : Bool}

theorem fills_optional {σ α β : Type} {own : σ → Multiset Address} {ownField : α → Multiset Address}
    {set : σ → α → σ} {read : Prog (Option α)} {content : Fields → String → Option β} {steps : List (Step Fault σ)}
    {s : σ} (hread : Reads exact quiet read ownField (content object name).isSome)
    (hset : ∀ a, own (set s a) = own s + ownField a)
    (hrest : Fills exact quiet own steps s found) (hrest' : ∀ a, Fills exact quiet own steps (set s a) found) :
    Fills exact quiet own (ifPresent object name (slot set read) :: steps) s
      ((JsonBuffer.getOptional content object name).isSome && found) := by
  refine fills_ifPresent (fun hnone => ?_) (fun hpresent => hread.as ?_) (fun _ _ _ => hset) hrest hrest'
  · rw [JsonBuffer.getOptional, hnone]
    rfl
  · obtain ⟨value, hvalue⟩ := Option.isSome_iff_exists.mp hpresent
    rw [JsonBuffer.getOptional, hvalue, Option.isSome_map]

theorem parent_reads {α β : Type} {own : α → Multiset Address} {read : Fields → Prog (Option α)}
    {content : Fields → Option β}
    (hread : ∀ parent, Json.getObject object "Parent" = some parent →
      Reads exact quiet (read parent) own (content parent).isSome)
    (hpresent : (Json.get object "Parent").isSome) :
    Reads exact quiet (match _h : Json.getObject object "Parent" with
      | some parent => read parent
      | none => pure none) own (match Json.get object "Parent" with
        | none => some none
        | some _ => match _h : Json.getObject object "Parent" with
          | some parent => (content parent).map some
          | none => none).isSome := by
  obtain ⟨value, hvalue⟩ := Option.isSome_iff_exists.mp hpresent
  rw [hvalue]
  split
  · next parent hparent => exact (hread parent hparent).as (by simp)
  · exact .answer rfl rfl

theorem parent_unread {β : Type} {content : Fields → Option β}
    (hnone : ∀ parent, Json.getObject object "Parent" = some parent → content parent = none)
    (hpresent : (Json.get object "Parent").isSome) :
    (match Json.get object "Parent" with
      | none => some none
      | some _ => match _h : Json.getObject object "Parent" with
        | some parent => (content parent).map some
        | none => none).isSome = false := by
  obtain ⟨value, hvalue⟩ := Option.isSome_iff_exists.mp hpresent
  rw [hvalue]
  dsimp only
  split
  · next parent hparent => rw [hnone parent hparent, Option.map_none, Option.isSome_none]
  · rfl

/-! ### Blocks -/

def BlockPtr.own (block : BlockPtr) : Multiset Address :=
  block.pId.own + (block.pParentId.elim 0 BlockIdPtr.own + (block.pMetaDataList.elim 0 ntlvOwn + {block.addr}))

theorem blockDestroy_frees (block : BlockPtr) : Frees exact quiet block.own (blockDestroy block) :=
  (blockIdDestroy_frees block.pId).andThen ((Frees.unlessNull blockIdDestroy_frees block.pParentId).andThen
    ((Frees.unlessNull ntlvDestroy_frees block.pMetaDataList).andThen (free_frees block.addr)))

theorem blockDestroyParts_frees (hquiet : ¬ quiet) (addr : Address) :
    Frees exact quiet {addr} (blockDestroyParts addr none none none) :=
  (fault_frees hquiet).first (Frees.nothing.first (Frees.nothing.first (free_frees addr)))

theorem readBlock_reads (hfree : exact → ParentFree lib registry msg) (htame : quiet → Tame lib msg) {object : Fields}
    (hblock : IsBlock msg object) :
    Reads exact quiet (readBlock lib registry object) BlockPtr.own (JsonBuffer.readBlock lib registry object).isSome := by
  rw [readBlock, JsonBuffer.readBlock]
  refine .as ?_ (isSome_bind fun _ => isSome_bind fun _ => isSome_bind fun _ => isSome_bind fun _ => rfl)
  refine alloc_meets.bind fun addr _ => .bind_beside (getBlockId_reads fun _ => rfl) fun pId hpId => ?_
  dsimp only [members] at hpId
  rw [← hpId]
  cases pId with
  | none =>
    -- `Block_Destroy` hands the missing id to `BlockId_Destroy`
    have hloud : ¬ quiet := fun hquiet => by simpa [← hpId] using (htame hquiet).ids object hblock
    exact (blockDestroyParts_frees hloud addr).lastly (.answer rfl rfl)
  | some pId =>
    -- the parent is accounted for by recursion; where it is read it stays behind, so an exact account has none
    have hread := parent_reads fun parent hparent => readBlock_reads hfree htame (.parent hblock hparent)
    have hunread (hexact : exact) := parent_unread (hfree hexact object · hblock)
    have hmetadata (block : BlockPtr) (hnone : block.pMetaDataList = none) :
        Fills exact quiet BlockPtr.own [blockMetadata lib registry object] block _ :=
      fills_optional (metadata_reads htame (fun _ => rfl) hblock.reaches) (fun list => by
        simp only [BlockPtr.own, hnone, Option.elim_some]
        ac_rfl) .nil fun _ => .nil
    have hparents (block : BlockPtr) (hnone : block.pMetaDataList = none) :
        Fills exact quiet BlockPtr.own (blockParent object _ :: [blockMetadata lib registry object]) block _ :=
      fills_ifPresent (fun habsent => by rw [habsent]; rfl) hread
        (fun hexact hpresent hb => by simp [hunread hexact hpresent] at hb) (hmetadata block hnone)
        fun parent => hmetadata { block with pParentBlock := some parent } hnone
    refine .holding (Fills.orDestroy (fills_optional (getBlockId_reads fun _ => rfl) (fun id => ?_) (hparents _ rfl)
      fun id => hparents _ rfl) blockDestroy_frees) ?_
    · simp only [BlockPtr.own, Option.elim_some]
      ac_rfl
    · simp only [BlockPtr.own, Option.elim_none, Option.elim_some, zero_add]
decreasing_by exact Json.sizeOf_getObject_lt ‹_›

theorem getBlock_reads (hfree : exact → ParentFree lib registry msg) (htame : quiet → Tame lib msg)
    (hp : quiet → isObject parent) (hparent : Reaches msg (members parent)) (hname : name ∈ blockNames) :
    Reads exact quiet (getBlock lib registry parent name) BlockPtr.own
      (JsonBuffer.getBlock lib registry (members parent) name).isSome :=
  getObject_reads hp fun _ hblock => readBlock_reads hfree htame (.named hparent hname hblock)

/-! ### Events -/

def EventPtr.own : EventPtr → Multiset Address
  | ⟨addr, pId, pParentId, pParent, pMetaDataList, pBlock⟩ =>
    (pId.elim 0 fun p => {p}) + (pBlock.elim 0 BlockPtr.own + (pMetaDataList.elim 0 ntlvOwn +
      ((match pParent with
        | none => 0
        | some parent => parent.own) + ((pParentId.elim 0 fun p => {p}) + {addr}))))

theorem EventPtr.own_eq (event : EventPtr) :
    event.own = (event.pId.elim 0 fun p => {p}) + (event.pBlock.elim 0 BlockPtr.own +
      (event.pMetaDataList.elim 0 ntlvOwn + (event.pParent.elim 0 EventPtr.own +
        ((event.pParentId.elim 0 fun p => {p}) + {event.addr})))) := by
  obtain ⟨addr, pId, pParentId, pParent, pMetaDataList, pBlock⟩ := event
  cases pParent <;> rfl

theorem eventDestroy_frees : ∀ event : EventPtr, Frees exact quiet event.own (eventDestroy event)
  | ⟨addr, pId, pParentId, pParent, pMetaDataList, pBlock⟩ => by
    have hfirst {rest : Prog Unit} {R : Multiset Address} (hrest : Frees exact quiet R rest) :=
      (Frees.unlessNull free_frees pId).andThen ((Frees.unlessNull blockDestroy_frees pBlock).andThen
        ((Frees.unlessNull ntlvDestroy_frees pMetaDataList).andThen hrest))
    have hlast : Frees exact quiet ((pParentId.elim 0 fun p => {p}) + {addr}) (do
        unlessNull free pParentId
        free addr : Prog Unit) :=
      (Frees.unlessNull free_frees pParentId).andThen (free_frees addr)
    cases pParent with
    | none => exact hfirst (.holding hlast (zero_add _).symm)
    | some parent => exact hfirst ((eventDestroy_frees parent).andThen hlast)

variable {event : EventPtr}

variable {steps : List (Step Fault EventPtr)}

theorem eventMetadata_fills (htame : quiet → Tame lib msg) (hobject : Reaches msg object)
    (hnone : event.pMetaDataList = none)
    (hrest : ∀ list, Fills exact quiet EventPtr.own steps { event with pMetaDataList := some list } found) :
    Fills exact quiet EventPtr.own (eventMetadata lib registry object :: steps) event
      ((JsonBuffer.getOptional (JsonBuffer.getNTLVList lib registry) object "Metadata").isSome && found) := by
  have hset : ∀ list, EventPtr.own { event with pMetaDataList := some list } = event.own + ntlvOwn list := by
    intro list
    rw [EventPtr.own_eq, EventPtr.own_eq event]
    simp only [hnone, Option.elim_some]
    ac_rfl
  have hcreate : Reads exact quiet (do
      let list ← listCreate
      pure (some list)) ntlvOwn true := (listCreate_meets NTLVItemPtr.own).bind fun list _ => .answer rfl rfl
  refine .ifSome (objectGet_gives fun _ => rfl) (fun hpresent => ?_) fun habsent => ?_
  · obtain ⟨value, hvalue⟩ := Option.isSome_iff_exists.mp hpresent
    dsimp only [members] at hvalue
    rw [JsonBuffer.getOptional, hvalue, Option.isSome_map]
    exact .slot (metadata_reads htame (fun _ => rfl) hobject) (fun _ _ => hset) hrest
  · dsimp only [members] at habsent
    rw [JsonBuffer.getOptional, habsent]
    exact .always hcreate (fun _ => hset) hrest

theorem readEvent_reads (hfree : exact → ParentFree lib registry msg) (htame : quiet → Tame lib msg) {object : Fields}
    (hobject : Reaches msg object) :
    Reads exact quiet (readEvent lib registry object) EventPtr.own (JsonBuffer.readEvent lib registry object).isSome := by
  rw [readEvent, JsonBuffer.readEvent]
  refine .as (.construct (fun p => ?_) (fun p => ?_) eventDestroy_frees) (isSome_bind fun _ =>
    isSome_bind fun _ => isSome_bind fun _ => isSome_bind fun _ => isSome_bind fun _ => rfl)
  · simp [EventPtr.own_eq]
  have hread := parent_reads fun parent hparent => readEvent_reads hfree htame (hobject.member hparent)
  -- the fields from the last to the first: each is read into an event that does not have the later ones yet
  have hmetadata (event : EventPtr) (hlist : event.pMetaDataList = none) (hblock : event.pBlock = none) :
      Fills exact quiet EventPtr.own [eventMetadata lib registry object, eventBlock lib registry object] event _ :=
    eventMetadata_fills htame hobject hlist fun list => by
      refine fills_optional (getBlock_reads hfree htame (fun _ => rfl) hobject (by decide)) (fun block => ?_) .nil fun _ => .nil
      rw [EventPtr.own_eq, EventPtr.own_eq { event with pMetaDataList := some list }]
      simp only [hblock, Option.elim_some]
      ac_rfl
  have hparents (event : EventPtr) (hparent : event.pParent = none) (hlist : event.pMetaDataList = none)
      (hblock : event.pBlock = none) :
      Fills exact quiet EventPtr.own (eventParent object _ :: _) event _ :=
    fills_ifPresent (fun habsent => by rw [habsent]; rfl) hread (fun _ _ _ parent => by
        rw [EventPtr.own_eq, EventPtr.own_eq event]
        simp only [hparent, Option.elim_some]
        ac_rfl)
      (hmetadata event hlist hblock) fun parent => hmetadata { event with pParent := some parent } hlist hblock
  refine .slot (getEventId_reads fun _ => rfl) (fun _ _ id => ?_) fun id =>
    fills_optional (getEventId_reads fun _ => rfl) (fun parentId => ?_) (hparents _ rfl rfl rfl) fun _ => hparents _ rfl rfl rfl
  all_goals
    rw [EventPtr.own_eq, EventPtr.own_eq]
    simp only [Option.elim_some]
    ac_rfl
decreasing_by exact Json.sizeOf_getObject_lt ‹_›

theorem getEvent_reads (hfree : exact → ParentFree lib registry msg) (htame : quiet → Tame lib msg)
    (hp : quiet → isObject parent) (hparent : Reaches msg (members parent)) :
    Reads exact quiet (getEvent lib registry parent name) EventPtr.own
      (JsonBuffer.getEvent lib registry (members parent) name).isSome :=
  getObject_reads hp fun _ hevent => readEvent_reads hfree htame (hparent.member hevent)

/-! ### Judgments -/

def JudgmentPtr.own (judgment : JudgmentPtr) : Multiset Address :=
  (judgment.pEventId.elim 0 fun p => {p}) + (judgment.pBlockId.elim 0 BlockIdPtr.own +
    (judgment.pMetaDataList.elim 0 ntlvOwn + ((judgment.sMessage.elim 0 fun p => {p}) + {judgment.addr})))

theorem judgmentDestroy_frees (judgment : JudgmentPtr) : Frees exact quiet judgment.own (judgmentDestroy judgment) :=
  (Frees.unlessNull free_frees judgment.pEventId).andThen ((Frees.unlessNull blockIdDestroy_frees judgment.pBlockId).andThen
    ((Frees.unlessNull ntlvDestroy_frees judgment.pMetaDataList).andThen
      ((Frees.unlessNull free_frees judgment.sMessage).andThen (free_frees judgment.addr))))

theorem getJudgment_reads (htame : quiet → Tame lib msg) (hp : quiet → isObject parent)
    (hparent : Reaches msg (members parent)) :
    Reads exact quiet (getJudgment lib registry parent name) JudgmentPtr.own
      (JsonBuffer.getJudgment lib registry (members parent) name).isSome := by
  refine getObject_reads hp fun judgment hjudgment => .as (.construct (fun p => ?_) (fun p => ?_)
    judgmentDestroy_frees) (isSome_bind fun _ => isSome_bind fun _ => isSome_bind fun _ => isSome_bind fun _ =>
      isSome_bind fun _ => isSome_bind fun _ => isSome_bind fun _ => isSome_bind fun _ => isSome_bind fun _ =>
      isSome_bind fun _ => isSome_bind fun _ => isSome_bind fun _ => isSome_bind fun _ => isSome_bind fun _ => rfl)
  · simp [JudgmentPtr.own]
  refine .value (getUUID_gives fun _ => rfl) (.value (getNumber_gives _ fun _ => rfl)
    (.value (getNumber_gives _ fun _ => rfl) ?_))
  refine .slot (getEventId_reads fun _ => rfl) (fun _ _ id => ?_) fun pEventId => ?_
  · simp only [JudgmentPtr.own]
    ac_rfl
  refine .slot (getBlockId_reads fun _ => rfl) (fun _ _ id => ?_) fun pBlockId => .value (getNumber_gives _ fun _ => rfl) ?_
  · simp only [JudgmentPtr.own, Option.elim_some]
    ac_rfl
  refine .slot (metadata_reads htame (fun _ => rfl) (hparent.member hjudgment)) (fun _ _ list => ?_) fun pMetaDataList => ?_
  · simp only [JudgmentPtr.own, Option.elim_some]
    ac_rfl
  refine .value (getNumber_gives _ fun _ => rfl) (.value (getNumber_gives _ fun _ => rfl)
    (.value (getNumber_gives _ fun _ => rfl) (.value (getNumber_gives _ fun _ => rfl)
      (.value (getNumber_gives _ fun _ => rfl) (.value (getNumber_gives _ fun _ => rfl) ?_)))))
  refine .slot (getOptionalString_reads fun _ => rfl) (fun _ _ text => ?_) fun sMessage => .nil
  simp only [JudgmentPtr.own]
  ac_rfl

end Nested

end Razorback.Decode
