import Razorback.Ntlv.Sendable
import Razorback.Lists.Clone

/-! The buffers of a metadata list. A getter hands out the buffer of the list, `Metadata_Get_Port` apart, which reads the
port from it and frees it. -/

namespace Razorback.Ntlv
open Records Runs Text Uuids Function List Option
open JsonBuffer hiding getUUID putNTLVItem putNTLVItems putNTLVList

abbrev Heap := ℕ → Option Bytes

inductive Fault
  | useAfterFree | outOfBounds | doubleFree
  deriving DecidableEq, Repr

def readBuffer (heap : Heap) (p size : ℕ) : Except Fault Bytes :=
  match heap p with
  | none => .error .useAfterFree
  | some data => if data.length < size then .error .outOfBounds else .ok (data.take size)

def freeBuffer (heap : Heap) (p : ℕ) : Except Fault Heap :=
  match heap p with
  | none => .error .doubleFree
  | some _ => .ok (Function.update heap p none)

structure Entry where
  uuidName : Uuid
  uuidType : Uuid
  iLength : ℕ
  pData : ℕ

def Entry.item (entry : Entry) (data : Bytes) : NTLVItem := ⟨entry.uuidName, entry.uuidType, data⟩

structure Store where
  list : List Entry
  heap : Heap

inductive Answer
  | notFound
  | buffer (pData size : ℕ)
  | port (value : UInt16)
  deriving DecidableEq, Repr

namespace Store

section Getters

variable (registry : Registry)

/-- The comparator does not look at the data. -/
def ntlvListGet (list : List Entry) (name type : Uuid) : Option Entry :=
  Lists.find (fun entry => ntlvKeyCmp name type (entry.item [])) list

def getOfType (typeName : String) (list : List Entry) (name : Uuid) : Option Entry :=
  lookup registry typeName .ntlvType fun type => ntlvListGet list name type

def handOut : Option Entry → Answer
  | none => .notFound
  | some entry => .buffer entry.pData entry.iLength

def metadataGetString (name : Uuid) (s : Store) : Except Fault (Answer × Store) :=
  .ok (handOut (getOfType registry "STRING" s.list name), s)

def metadataGetIPv4 (name : Uuid) (s : Store) : Except Fault (Answer × Store) :=
  .ok (handOut (getOfType registry "IPv4_ADDR" s.list name), s)

def metadataGetIPv6 (name : Uuid) (s : Store) : Except Fault (Answer × Store) :=
  .ok (handOut (getOfType registry "IPv6_ADDR" s.list name), s)

def metadataGetPort (name : Uuid) (s : Store) : Except Fault (Answer × Store) :=
  match getOfType registry "PORT" s.list name with
  | none => .ok (.notFound, s)
  | some entry => do
    let data ← readBuffer s.heap entry.pData 2
    let heap ← freeBuffer s.heap entry.pData
    return (.port ((readPort data).getD 0), { s with heap })

def ofSide (side : Side) (get : Uuid → Store → Except Fault (Answer × Store)) (s : Store) :
    Except Fault (Answer × Store) :=
  match getUUID registry side.sName .ntlvName with
  | none => .ok (.notFound, s)
  | some name => get name s

end Getters

end Store

inductive Getter
  | string (name : Uuid)
  | ipv4 (name : Uuid)
  | ipv4At (side : Side)
  | ipv6 (name : Uuid)
  | ipv6At (side : Side)
  | port (name : Uuid)
  | portAt (side : Side)

namespace Getter

def call (registry : Registry) : Getter → Store → Except Fault (Answer × Store)
  | string name => Store.metadataGetString registry name
  | ipv4 name => Store.metadataGetIPv4 registry name
  | ipv4At side => Store.ofSide registry side (Store.metadataGetIPv4 registry)
  | ipv6 name => Store.metadataGetIPv6 registry name
  | ipv6At side => Store.ofSide registry side (Store.metadataGetIPv6 registry)
  | port name => Store.metadataGetPort registry name
  | portAt side => Store.ofSide registry side (Store.metadataGetPort registry)

def typeName : Getter → String
  | string _ => "STRING"
  | ipv4 _ | ipv4At _ => "IPv4_ADDR"
  | ipv6 _ | ipv6At _ => "IPv6_ADDR"
  | port _ | portAt _ => "PORT"

def name (registry : Registry) : Getter → Option Uuid
  | string name | ipv4 name | ipv6 name | port name => some name
  | ipv4At side | ipv6At side | portAt side => getUUID registry side.sName .ntlvName

def found (registry : Registry) (list : List Entry) (g : Getter) : Option Entry :=
  (g.name registry).bind (Store.getOfType registry g.typeName list)

def isPort : Getter → Bool
  | port _ | portAt _ => true
  | _ => false

def Frees (registry : Registry) (list : List Entry) (g : Getter) : Prop :=
  g.isPort = true ∧ (g.found registry list).isSome = true

/-- What a getter that frees nothing returns. -/
def answer (registry : Registry) (list : List Entry) (g : Getter) : Answer := Store.handOut (g.found registry list)

end Getter

/-! ### What is done with the list afterwards -/

namespace Store

section Put

variable (lib : Libs) (registry : Registry)

def sizeRefused (entry : Entry) : Bool :=
  !(isString registry entry.uuidType || ntlvTypeUsesJsonValue registry entry.uuidType) &&
    (scalarOf registry entry.uuidType).any fun scalar => entry.iLength ≠ scalar.size

def putNTLVItem (heap : Heap) (array : List Json) (entry : Entry) : Except Fault (Option (List Json)) :=
  if sizeRefused registry entry then .ok none
  else (readBuffer heap entry.pData entry.iLength).map fun data =>
    JsonBuffer.putNTLVItem lib registry array (entry.item data)

def putNTLVItems (heap : Heap) (array : List Json) : List Entry → Except Fault (Option (List Json))
  | [] => .ok (some array)
  | entry :: entries => do
    match ← putNTLVItem lib registry heap array entry with
    | none => .ok none
    | some array => putNTLVItems heap array entries

def putNTLVList (parent : Json.Fields) (name : String) (s : Store) : Except Fault (Option Json.Fields) :=
  (putNTLVItems lib registry s.heap [] s.list).map fun array? =>
    array?.map fun array => Json.add parent name (.array array)

end Put

def ntlvDeleteAll : List Entry → Heap → Except Fault Heap
  | [], heap => .ok heap
  | entry :: entries, heap => do ntlvDeleteAll entries (← freeBuffer heap entry.pData)

def destroy (s : Store) : Except Fault Heap := ntlvDeleteAll s.list.reverse s.heap

end Store

/-- The entry stands for the item: its buffer is allocated and holds the data. -/
structure Represents (heap : Heap) (entry : Entry) (item : NTLVItem) : Prop where
  name : entry.uuidName = item.uuidName
  type : entry.uuidType = item.uuidType
  length : entry.iLength = item.pData.length
  data : heap entry.pData = some item.pData

/-- The store holds the items, each of them in a buffer of its own. -/
structure Store.Holds (s : Store) (items : List NTLVItem) : Prop where
  represents : List.Forall₂ (Represents s.heap) s.list items
  apart : (s.list.map Entry.pData).Nodup

section Calls

variable {registry : Registry} {s s' : Store} {items : List NTLVItem} {g : Getter} {a : Answer} {p : ℕ}

theorem Getter.call_of_not_frees (h : ¬g.Frees registry s.list) :
    g.call registry s = .ok (g.answer registry s.list, s) := by
  have hport : g.isPort → g.found registry s.list = none := fun hp =>
    not_isSome_iff_eq_none.mp fun hf => h ⟨hp, hf⟩
  cases g with
  | string name | ipv4 name | ipv6 name => rfl
  | ipv4At side | ipv6At side =>
    simp only [call, Store.ofSide, answer, found, Getter.name]
    cases getUUID registry side.sName .ntlvName with
    | none => rfl
    | some name => rfl
  | port name =>
    have hnone : Store.getOfType registry "PORT" s.list name = none := hport rfl
    rw [call, Store.metadataGetPort, hnone, answer, hport rfl]
    rfl
  | portAt side =>
    have hfound := hport rfl
    simp only [found, Getter.name, typeName] at hfound
    rw [call, Store.ofSide, answer, hport rfl]
    cases hname : getUUID registry side.sName .ntlvName with
    | none => rfl
    | some name =>
      rw [hname, bind_some] at hfound
      simp only [Store.metadataGetPort, hfound]
      rfl

theorem Store.metadataGetPort_found (hentry : getOfType registry "PORT" s.list name = some entry)
    (h : metadataGetPort registry name s = .ok (a, s')) :
    s' = { s with heap := update s.heap entry.pData none } := by
  simp only [metadataGetPort, hentry, bind_eq_ok] at h
  obtain ⟨data, _, heap, hfree, hs⟩ := h
  obtain ⟨_, rfl⟩ := ok_inj hs
  rw [freeBuffer] at hfree
  split at hfree
  · cases hfree
  · rw [← Except.ok.inj hfree]

theorem Getter.call_cases (h : g.call registry s = .ok (a, s')) :
    (¬g.Frees registry s.list ∧ s' = s) ∨ ∃ entry, g.found registry s.list = some entry ∧
      s' = { s with heap := update s.heap entry.pData none } := by
  by_cases hfrees : g.Frees registry s.list
  · obtain ⟨hport, hfound⟩ := hfrees
    obtain ⟨entry, hentry⟩ := isSome_iff_exists.mp hfound
    refine .inr ⟨entry, hentry, ?_⟩
    obtain ⟨name, hname, hget⟩ := bind_eq_some_iff.mp hentry
    cases g with
    | string _ | ipv4 _ | ipv4At _ | ipv6 _ | ipv6At _ => cases hport
    | port _ =>
      obtain rfl := Option.some.inj hname
      exact Store.metadataGetPort_found hget h
    | portAt side =>
      change getUUID registry side.sName .ntlvName = some name at hname
      simp only [call, Store.ofSide, hname] at h
      exact Store.metadataGetPort_found hget h
  · rw [call_of_not_frees hfrees] at h
    exact .inl ⟨hfrees, (ok_inj h).2.symm⟩

theorem Getter.call_freed (hp : s.heap p = none) (h : g.call registry s = .ok (a, s')) : s'.heap p = none := by
  obtain ⟨_, rfl⟩ | ⟨entry, _, rfl⟩ := call_cases h
  · exact hp
  · change update s.heap entry.pData none p = none
    rw [update_apply]
    split_ifs
    · rfl
    · exact hp

theorem Getter.mem_of_found (h : g.found registry s.list = some entry) : entry ∈ s.list := by
  obtain ⟨name, _, h⟩ := bind_eq_some_iff.mp h
  obtain ⟨type, _, h⟩ := bind_eq_some_iff.mp h
  rw [Store.ntlvListGet, Lists.find_eq] at h
  exact mem_of_find?_eq_some h

variable {gs : List Getter} {answers : List Answer}

theorem run_of_not_frees (h : ∀ g ∈ gs, ¬g.Frees registry s.list) :
    run (Getter.call registry) gs s = .ok (gs.map (Getter.answer registry s.list), s) := by
  induction gs with
  | nil => rfl
  | cons g gs ih =>
    rw [run_cons_ok (Getter.call_of_not_frees (h g mem_cons_self)),
      ih fun g' hg' => h g' (mem_cons_of_mem g hg')]
    rfl

theorem run_frees (hg : g ∈ gs) (hfrees : g.Frees registry s.list)
    (hrun : run (Getter.call registry) gs s = .ok (answers, s')) : ∃ entry ∈ s.list, s'.heap entry.pData = none := by
  induction gs generalizing s answers with
  | nil => cases hg
  | cons first gs ih =>
    simp only [run, bind_eq_ok] at hrun
    obtain ⟨⟨a, s₁⟩, hcall, ⟨rest, s₂⟩, hrest, he⟩ := hrun
    obtain ⟨_, rfl⟩ := ok_inj he
    have hlist : s₁.list = s.list := by
      obtain ⟨_, rfl⟩ | ⟨entry, _, rfl⟩ := Getter.call_cases hcall <;> rfl
    rcases mem_cons.mp hg with rfl | hg
    · rcases Getter.call_cases hcall with ⟨hnot, _⟩ | ⟨entry, hfound, hs₁⟩
      · exact absurd hfrees hnot
      · have hfreed : s₁.heap entry.pData = none := by
          rw [hs₁]
          exact update_self entry.pData none s.heap
        exact ⟨entry, Getter.mem_of_found hfound,
          run_keeps (I := fun s => s.heap entry.pData = none) (fun _ _ _ _ hp h => Getter.call_freed hp h) hfreed hrest⟩
    · rw [← hlist] at hfrees ⊢
      exact ih hg hfrees hrest

/-! ### The list afterwards -/

variable {lib : Libs} {heap : Heap} {entry : Entry} {item : NTLVItem}

theorem readBuffer_of_represents (h : Represents heap entry item) :
    readBuffer heap entry.pData entry.iLength = .ok item.pData := by
  rw [readBuffer, h.data, h.length]
  simp

theorem Represents.item_eq (h : Represents heap entry item) : entry.item item.pData = item := by
  rw [Entry.item, h.name, h.type]

theorem Store.Holds.getOfType (h : s.Holds items) (typeName : String) (name : Uuid) :
    Ntlv.getOfType registry typeName items name =
      (Store.getOfType registry typeName s.list name).bind fun entry =>
        (s.heap entry.pData).map fun data => (entry.iLength, data) := by
  rw [Ntlv.getOfType, Store.getOfType, lookup, lookup]
  cases getUUID registry typeName .ntlvType with
  | none => rfl
  | some type =>
    have hcmp : ∀ entry item, Represents s.heap entry item →
        ntlvKeyCmp name type (entry.item []) = ntlvKeyCmp name type item := by
      intro entry item hitem
      rw [ntlvKeyCmp, ntlvKeyCmp, Entry.item, hitem.name]
    have hfind := Lists.forall₂_find? h.represents hcmp
    rw [bind_some, bind_some, metadataGet, Ntlv.ntlvListGet, Store.ntlvListGet, Lists.find_eq, Lists.find_eq]
    revert hfind
    generalize s.list.find? (fun entry => ntlvKeyCmp name type (entry.item [])) = entry?
    generalize items.find? (ntlvKeyCmp name type) = item?
    rintro (hitem | _)
    · rw [map_some, bind_some, hitem.data, map_some, hitem.length]
    · rfl

theorem putNTLVItem_of_sizeRefused (h : Represents heap entry item) (hsize : Store.sizeRefused registry entry)
    (array : List Json) : JsonBuffer.putNTLVItem lib registry array item = none := by
  rw [Store.sizeRefused, h.type, h.length, Bool.and_eq_true, Bool.not_eq_true'] at hsize
  obtain ⟨hplain, hscalar⟩ := hsize
  cases hkind : scalarOf registry item.uuidType with
  | none =>
    rw [hkind] at hscalar
    cases hscalar
  | some scalar =>
    have hlength : item.pData.length ≠ scalar.size := by simpa [hkind] using hscalar
    have hvalue : scalarValue lib registry item = none := by
      simp only [scalarValue, hkind, hlength, if_true, ne_eq, not_false_eq_true]
    have htext : textValue registry item = some none := by simp only [textValue, hplain, Bool.false_eq_true, if_false]
    rw [JsonBuffer.putNTLVItem, ntlvItemFields, htext, hvalue]
    rfl

theorem Store.putNTLVItem_eq (h : Represents heap entry item) (array : List Json) :
    putNTLVItem lib registry heap array entry = .ok (JsonBuffer.putNTLVItem lib registry array item) := by
  rw [putNTLVItem]
  split_ifs with hsize
  · rw [putNTLVItem_of_sizeRefused h hsize]
  · rw [readBuffer_of_represents h]
    exact congrArg Except.ok (congrArg _ h.item_eq)

variable {entries : List Entry}

theorem Store.putNTLVItems_eq (h : List.Forall₂ (Represents heap) entries items)
    (array : List Json) :
    putNTLVItems lib registry heap array entries = .ok (JsonBuffer.putNTLVItems lib registry array items) := by
  induction h generalizing array with
  | nil => rfl
  | @cons entry item entries items hentry _ ih =>
    rw [putNTLVItems, putNTLVItem_eq hentry, JsonBuffer.putNTLVItems]
    cases JsonBuffer.putNTLVItem lib registry array item with
    | none => rfl
    | some array => exact ih array

theorem Store.Holds.putNTLVList (h : s.Holds items) (parent : Json.Fields) (name : String) :
    Store.putNTLVList lib registry parent name s = .ok (JsonBuffer.putNTLVList lib registry parent name (some items)) := by
  rw [Store.putNTLVList, putNTLVItems_eq h.represents, JsonBuffer.putNTLVList, bind_some, ntlvListJson,
    Option.map_map]
  rfl

theorem Store.ntlvDeleteAll_ok (hapart : (entries.map Entry.pData).Nodup)
    (halloc : ∀ entry ∈ entries, (heap entry.pData).isSome) :
    ntlvDeleteAll entries heap = .ok fun p => if p ∈ entries.map Entry.pData then none else heap p := by
  induction entries generalizing heap with
  | nil => rfl
  | cons entry entries ih =>
    rw [map_cons, nodup_cons] at hapart
    obtain ⟨data, hdata⟩ := isSome_iff_exists.mp (halloc entry mem_cons_self)
    have hfree : freeBuffer heap entry.pData = .ok (update heap entry.pData none) := by rw [freeBuffer, hdata]
    have hrest : ∀ other ∈ entries, (update heap entry.pData none other.pData).isSome := by
      intro other hother
      have hne : other.pData ≠ entry.pData := fun heq => hapart.1 (heq ▸ mem_map_of_mem hother)
      rw [update_of_ne hne]
      exact halloc other (mem_cons_of_mem entry hother)
    rw [ntlvDeleteAll, hfree, ok_bind, ih hapart.2 hrest]
    congr 1
    funext p
    by_cases hp : p = entry.pData
    · subst hp
      simp
    · simp [hp]

theorem allocated_of_represents (h : List.Forall₂ (Represents heap) entries items) :
    ∀ entry ∈ entries, (heap entry.pData).isSome := by
  induction h with
  | nil => exact fun _ hentry => nomatch hentry
  | cons hentry _ ih =>
    rw [forall_mem_cons]
    exact ⟨by rw [hentry.data]; rfl, ih⟩

theorem Store.Holds.destroy (h : s.Holds items) :
    Store.destroy s = .ok fun p => if p ∈ s.list.map Entry.pData then none else s.heap p := by
  rw [Store.destroy, ntlvDeleteAll_ok]
  · simp
  · rw [map_reverse, nodup_reverse]
    exact h.apart
  · exact fun entry hentry => allocated_of_represents h.represents entry (mem_reverse.mp hentry)

/-- The getters leave the list and its buffers as they are exactly where none of them is a port getter that comes to an
item. Their answers are then a function of the list, so a getter that is repeated answers the same, and the list is
written from its buffers and destroyed without a fault. -/
theorem getters_keep_list (h : s.Holds items) (gs : List Getter) :
    ((∃ answers, run (Getter.call registry) gs s = .ok (answers, s)) ↔ ∀ g ∈ gs, ¬g.Frees registry s.list) ∧
    ((∀ g ∈ gs, ¬g.Frees registry s.list) →
      run (Getter.call registry) gs s = .ok (gs.map (Getter.answer registry s.list), s) ∧
      (∀ lib parent name, Store.putNTLVList lib registry parent name s =
        .ok (JsonBuffer.putNTLVList lib registry parent name (some items))) ∧
      Store.destroy s = .ok fun p => if p ∈ s.list.map Entry.pData then none else s.heap p) := by
  refine ⟨⟨?_, fun hnot => ⟨_, run_of_not_frees hnot⟩⟩, fun hnot => ⟨run_of_not_frees hnot, ?_, h.destroy⟩⟩
  · rintro ⟨answers, hrun⟩ g hg hfrees
    obtain ⟨entry, hentry, hfreed⟩ := run_frees hg hfrees hrun
    have hallocated := allocated_of_represents h.represents entry hentry
    rw [hfreed] at hallocated
    cases hallocated
  · exact fun lib parent name => h.putNTLVList parent name

end Calls

def portStore : Store where
  list := [⟨2, 5, 2, 100⟩, ⟨1, 3, 2, 200⟩]
  heap p := if p = 100 then some [80, 0] else if p = 200 then some [97, 0] else none

theorem portStore_holds : portStore.Holds [⟨2, 5, [80, 0]⟩, ⟨1, 3, [97, 0]⟩] :=
  ⟨.cons ⟨rfl, rfl, rfl, rfl⟩ (.cons ⟨rfl, rfl, rfl, rfl⟩ .nil), by decide⟩

/-- The file name is handed out twice, and a port that is not there is not found. -/
theorem getters_keep_list_string :
    run (Getter.call standardRegistry) [.string 1, .port 9, .string 1] portStore =
      .ok ([.buffer 200 2, .notFound, .buffer 200 2], portStore) := by
  refine ((getters_keep_list portStore_holds _).2 fun g hg => ?_).1
  simp only [mem_cons, not_mem_nil, or_false] at hg
  rcases hg with rfl | rfl | rfl
  · exact fun h => Bool.false_ne_true h.1
  · exact fun h => Bool.false_ne_true h.2
  · exact fun h => Bool.false_ne_true h.1

/-- After `Metadata_Get_Port_Source` the buffer is gone: the getter repeated and the list written read freed memory, the
list destroyed frees it again. -/
theorem port_buffer_freed : ∃ s, Getter.call standardRegistry (.portAt .source) portStore = .ok (.port 80, s) ∧
    Getter.call standardRegistry (.portAt .source) s = .error .useAfterFree ∧
    Store.putNTLVList textLibs standardRegistry [] "Metadata" s = .error .useAfterFree ∧
    s.destroy = .error .doubleFree :=
  ⟨_, rfl, rfl, rfl, rfl⟩

end Razorback.Ntlv
