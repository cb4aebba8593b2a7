import Razorback.Decode.Objects

/-! What each decoder allocates and releases, and whether it reads anything. A decoded structure owns what its destroy
function releases. -/

namespace Razorback.Decode
open Records Text Uuids Heap Option
open JsonBuffer (Libs)
open Json (Fields)
open Partial (isSome_bind)

/-! ### Single values -/

section Values

variable {exact quiet : Prop} {lib : Libs} {parent : Json} {name : String}

theorem needsObject_frees (hp : quiet → isObject parent) : Frees exact quiet 0 (needsObject parent) := by
  unfold needsObject
  split_ifs with h
  · exact .nothing
  · exact fault_frees fun hquiet => h (hp hquiet)

theorem getNumber_gives {α : Type} (read : Fields → String → Option α) (hp : quiet → isObject parent) :
    Gives exact quiet (getNumber parent name read) (read (members parent) name) :=
  (needsObject_frees hp).first (Gives.pure _)

theorem objectGet_gives (hp : quiet → isObject parent) :
    Gives exact quiet (objectGet parent name) (Json.get (members parent) name) :=
  (needsObject_frees hp).first (Gives.pure _)

theorem objectGetEx_gives (hp : quiet → isObject parent) :
    Gives exact quiet (objectGetEx parent name) (Json.has (members parent) name) :=
  (needsObject_frees hp).first (Gives.pure _)

theorem getObject_gives (hp : quiet → isObject parent) :
    Gives exact quiet (getObject parent name) (Json.getObject (members parent) name) :=
  (needsObject_frees hp).first (Gives.pure _)

def Copies {β : Type} (exact quiet : Prop) (m : Prog (Option (Address × β))) (content : Option β) : Prop :=
  Meets exact quiet 0 m (fun r => r.elim 0 fun copy => {copy.1}) fun r => r.map Prod.snd = content

theorem copied_copies (text : Option CString) : Copies exact quiet (copied text) text := by
  cases text with
  | none => exact .answer rfl rfl
  | some text => exact alloc_meets.bind fun ret _ => .answer rfl rfl

section
variable (hp : quiet → isObject parent)
include hp

theorem getString_copies :
    Copies exact quiet (getString parent name) (JsonBuffer.getString (members parent) name) :=
  (needsObject_frees hp).first (copied_copies _)

theorem getByteArray_copies :
    Copies exact quiet (getByteArray lib parent name) (JsonBuffer.getByteArray lib (members parent) name) := by
  refine (objectGet_gives hp).bind ?_
  unfold JsonBuffer.getByteArray
  generalize Json.get (members parent) name = found
  rcases found with _ | (_ | _ | _ | _ | text | _ | _)
  case some.string =>
    refine alloc_meets.bind fun output _ => ?_
    refine .bind_beside alloc_meets fun b64 _ => ?_
    refine .bind_beside alloc_meets fun bmem _ => ?_
    have hbios : ({b64} + ({bmem} + {output}) : Multiset Address) = {bmem} + ({b64} + {output}) := add_left_comm _ _ _
    refine .holding ?_ hbios
    dsimp only
    cases lib.base64Decode (cString text) with
    | none => exact (free_frees b64).andThen ((free_frees bmem).andThen ((free_frees output).lastly (.answer rfl rfl)))
    | some data => exact (free_frees b64).andThen ((free_frees bmem).andThen (.answer rfl rfl))
  all_goals exact .answer rfl rfl

theorem getOptionalString_reads :
    Reads exact quiet (getOptionalString parent name) (fun text => text.elim 0 fun p => {p})
      (JsonBuffer.getOptionalString (members parent) name).isSome := by
  refine (objectGet_gives hp).bind ?_
  unfold JsonBuffer.getOptionalString
  cases Json.get (members parent) name with
  | none => exact .answer rfl rfl
  | some value =>
    refine .bind (getString_copies hp) fun r hr => ?_
    rw [← hr]
    rcases r with _ | ⟨text, bytes⟩
    · exact .answer rfl rfl
    · exact .answer rfl rfl

theorem getUUID_gives :
    Gives exact quiet (getUUID lib parent name) (JsonBuffer.getUUID lib (members parent) name) := by
  refine (getObject_gives hp).bind ?_
  unfold JsonBuffer.getUUID
  cases Json.getObject (members parent) name with
  | none => exact Gives.pure none
  | some object =>
    refine .bind (getString_copies fun _ => rfl) fun r hr => ?_
    dsimp only [members] at hr ⊢
    rw [← hr]
    rcases r with _ | ⟨tmp, text⟩
    · exact .answer rfl rfl
    · exact (free_frees tmp).lastly (.answer rfl rfl)

end

end Values

/-! ### Lists -/

section Lists

variable {exact quiet : Prop} {α : Type} {ownItem : α → Multiset Address} {destroy : α → Prog Unit} {parent : Json}
  {name : String}

def nodesOwn (ownItem : α → Multiset Address) : List (Address × α) → Multiset Address
  | [] => 0
  | (node, item) :: nodes => ownItem item + ({node} + nodesOwn ownItem nodes)

def ListPtr.own (ownItem : α → Multiset Address) (list : ListPtr α) : Multiset Address :=
  nodesOwn ownItem list.nodes + ({list.lock} + {list.addr})

theorem nodesOwn_push (nodes : List (Address × α)) (node : Address) (item : α) :
    nodesOwn ownItem (nodes ++ [(node, item)]) = ownItem item + ({node} + nodesOwn ownItem nodes) := by
  induction nodes with
  | nil => rfl
  | cons first nodes ih =>
    simp only [List.cons_append, nodesOwn, ih]
    ac_rfl

theorem listCreate_meets (ownItem : α → Multiset Address) :
    Meets exact quiet 0 (listCreate : Prog (ListPtr α)) (ListPtr.own ownItem) fun _ => True := by
  refine alloc_meets.bind fun addr _ => .bind_beside alloc_meets fun lock _ => ?_
  exact .answer (zero_add _).symm trivial

theorem listPush_meets (ownItem : α → Multiset Address) (list : ListPtr α) (item : α) :
    Meets exact quiet (ownItem item + list.own ownItem) (listPush list item) (ListPtr.own ownItem) fun _ => True := by
  refine .bind_beside alloc_meets fun node _ => .answer ?_ trivial
  simp only [ListPtr.own, nodesOwn_push]
  ac_rfl

theorem listDestroy_frees (hdestroy : ∀ item, Frees exact quiet (ownItem item) (destroy item)) (list : ListPtr α) :
    Frees exact quiet (list.own ownItem) (listDestroy destroy list) := by
  have hclear : ∀ nodes, Frees exact quiet (nodesOwn ownItem nodes) (listClear destroy nodes) := by
    intro nodes
    induction nodes with
    | nil => exact .nothing
    | cons first nodes ih => exact (hdestroy first.2).andThen ((free_frees first.1).andThen ih)
  exact (hclear list.nodes).andThen ((free_frees list.lock).andThen (free_frees list.addr))

def acceptsEntries (accept : Option Json → Bool) : Option Json → Bool
  | some (.array items) => (items.map Json.nonNull).all accept
  | _ => false

theorem isSome_of_entries {β : Type} {read : List Json → Option β} {accept : Option Json → Bool}
    (h : ∀ items, (read items).isSome = (items.map Json.nonNull).all accept) (found : Option Json) :
    (match found with
      | some (.array items) => read items
      | _ => none).isSome = acceptsEntries accept found := by
  rcases found with _ | (_ | _ | _ | _ | _ | items | _)
  case some.array => exact h items
  all_goals rfl

theorem getList_reads {round : Option Json → Step Fault (ListPtr α)} {accept : Option Json → Bool}
    (hp : quiet → isObject parent) (hdestroy : ∀ item, Frees exact quiet (ownItem item) (destroy item))
    (hround : ∀ items, Json.get (members parent) name = some (.array items) → ∀ e ∈ items.map Json.nonNull, ∀ list,
      Takes exact quiet (ListPtr.own ownItem) (round e) list (accept e)) :
    Reads exact quiet (getList destroy round parent name) (ListPtr.own ownItem)
      (acceptsEntries accept (Json.get (members parent) name)) := by
  refine (objectGet_gives hp).bind ?_
  generalize Json.get (members parent) name = found at *
  rcases found with _ | (_ | _ | _ | _ | _ | items | _)
  case some.array =>
    refine (listCreate_meets ownItem).bind fun list _ => ?_
    exact Gives.bind (.pure _) ((Fills.each (hround items rfl) list).orDestroy (listDestroy_frees hdestroy))
  all_goals exact .answer rfl rfl

end Lists

/-! ### Metadata -/

section Metadata

variable {exact quiet : Prop} {lib : Libs} {registry : Registry} {parent : Json} {name : String}

def NTLVItemPtr.own (item : NTLVItemPtr) : Multiset Address := {item.pData} + {item.addr}

abbrev ntlvOwn : ListPtr NTLVItemPtr → Multiset Address := ListPtr.own NTLVItemPtr.own

theorem ntlvDelete_frees (item : NTLVItemPtr) : Frees exact quiet item.own (ntlvDelete item) :=
  (free_frees item.pData).andThen (free_frees item.addr)

theorem ntlvDestroy_frees (list : ListPtr NTLVItemPtr) : Frees exact quiet (ntlvOwn list) (listDestroy ntlvDelete list) :=
  listDestroy_frees ntlvDelete_frees list

theorem ntlvListAdd_takes (hdata : quiet → data ≠ []) (list : ListPtr NTLVItemPtr) :
    Takes exact quiet ntlvOwn (ntlvListAdd data) list (data ≠ []) := by
  unfold Takes ntlvListAdd
  split_ifs with h
  · exact (fault_frees fun hquiet => hdata hquiet h).first (.answer rfl (by simp [h]))
  · refine .bind_beside alloc_meets fun addr _ => .bind_beside alloc_meets fun pData _ => ?_
    refine .bind ((listPush_meets NTLVItemPtr.own list ⟨addr, pData⟩).holding (add_assoc _ _ _)) fun list' _ => ?_
    exact .answer rfl (by simp [h])

theorem addAndFree_meets {β : Type} {read : Option (Address × β)} {convert : β → Option Bytes}
    (hconvert : quiet → ∀ copy ∈ read, convert copy.2 ≠ some []) (list : ListPtr NTLVItemPtr) :
    Meets exact quiet ((read.elim 0 fun copy => {copy.1}) + ntlvOwn list) (addAndFree read convert list)
      (fun r => ntlvOwn r.2) (·.1 = ((read.map Prod.snd).bind convert).any (· ≠ [])) := by
  rcases read with _ | ⟨buffer, raw⟩
  · exact .answer (zero_add _) rfl
  · refine .bind ((Meets.frame (Q := fun r => ntlvOwn r.2)
      (φ := (·.1 = (convert raw).any (· ≠ []))) ?_ {buffer}).holding (add_comm _ _)) fun r hr => ?_
    · cases hraw : convert raw with
      | none => exact .answer rfl rfl
      | some data => exact ntlvListAdd_takes (fun hquiet hnil => hconvert hquiet _ rfl (hraw.trans (congrArg some hnil))) list
    · refine .holding ?_ (add_comm _ _)
      exact (free_frees buffer).andThen (.answer rfl hr)

/-! #### What an item adds -/

variable (list : List NTLVItem)

theorem addStringValue_eq (name type : Uuid) (str : CString) :
    JsonBuffer.addStringValue lib registry list name type str =
      (stringValue lib registry type str).bind (JsonBuffer.ntlvListAdd list name type) := by
  unfold JsonBuffer.addStringValue stringValue
  split_ifs
  · rfl
  · rfl
  · cases JsonBuffer.scalarOf registry type <;> rfl

theorem addJsonValue_eq (name type : Uuid) (str : CString) :
    JsonBuffer.addJsonValue registry list name type str =
      (jsonValue registry type str).bind (JsonBuffer.ntlvListAdd list name type) := by
  unfold JsonBuffer.addJsonValue jsonValue
  split_ifs <;> rfl

theorem addBinValue_eq (name type : Uuid) (data : Bytes) :
    JsonBuffer.addBinValue registry list name type data =
      (binValue registry type data).bind (JsonBuffer.ntlvListAdd list name type) := by
  unfold JsonBuffer.addBinValue binValue
  split_ifs <;> rfl

theorem isSome_bind_ntlvListAdd (name type : Uuid) (data : Option Bytes) :
    (data.bind (JsonBuffer.ntlvListAdd list name type)).isSome = data.any (· ≠ []) := by
  cases data with
  | none => rfl
  | some data => by_cases h : data = [] <;> simp [JsonBuffer.ntlvListAdd, h]

theorem scan_ne_nil (scalar : JsonBuffer.Scalar) (str : CString) : scalar.scan lib str ≠ some [] := by
  intro h
  cases scalar with
  | port => simp [JsonBuffer.Scalar.scan] at h
  | ipProto => simp [JsonBuffer.Scalar.scan] at h
  | ipv4 => exact absurd (lib.inetPton_size _ _ _ h) (by decide)
  | ipv6 => exact absurd (lib.inetPton_size _ _ _ h) (by decide)

theorem stringValue_ne_nil (type : Uuid) (str : CString) : stringValue lib registry type str ≠ some [] := by
  unfold stringValue
  split_ifs
  · simpa using JsonBuffer.terminated_ne_nil str
  · simp
  · cases JsonBuffer.scalarOf registry type with
    | none => simp
    | some scalar => exact scan_ne_nil scalar str

theorem jsonValue_ne_nil (type : Uuid) (str : CString) : jsonValue registry type str ≠ some [] := by
  unfold jsonValue
  split_ifs
  · simpa using JsonBuffer.terminated_ne_nil str
  · simp

theorem binValue_ne_nil (hdata : data ≠ []) (type : Uuid) : binValue registry type data ≠ some [] := by
  unfold binValue
  split_ifs <;> simp [hdata]

theorem addCopied_takes {β : Type} {m : Prog (Option (Address × β))} {content : Option β} {convert : β → Option Bytes}
    {add : β → Option (List NTLVItem)} {name type : Uuid} (hm : Copies exact quiet m content)
    (hconvert : quiet → ∀ raw ∈ content, convert raw ≠ some [])
    (hadd : ∀ raw, add raw = (convert raw).bind (JsonBuffer.ntlvListAdd [] name type)) (list : ListPtr NTLVItemPtr) :
    Meets exact quiet (ntlvOwn list) (m >>= fun read => addAndFree read convert list) (fun r => ntlvOwn r.2)
      (·.1 = (content.bind add).isSome) := by
  refine .bind_beside hm fun read hread => ?_
  have hsame : ((read.map Prod.snd).bind convert).any (· ≠ []) = (content.bind add).isSome := by
    rw [hread, funext hadd, ← bind_assoc, isSome_bind_ntlvListAdd]
  refine hsame ▸ addAndFree_meets (fun hquiet copy hcopy => ?_) list
  exact hconvert hquiet copy.2 (hread ▸ mem_map_of_mem Prod.snd hcopy)

def acceptsItem (lib : Libs) (registry : Registry) : Option Json → Bool
  | some (.object entry) => (JsonBuffer.getNTLVItem lib registry [] entry).isSome
  | _ => false

theorem getNTLVItem_takes (hvalue : quiet → JsonBuffer.getByteArray lib entry "Bin_Value" ≠ some [])
    (list : ListPtr NTLVItemPtr) :
    Takes exact quiet ntlvOwn (getNTLVItem lib registry (.object entry)) list
      (JsonBuffer.getNTLVItem lib registry [] entry).isSome := by
  unfold JsonBuffer.getNTLVItem
  refine Gives.bind (getUUID_gives fun _ => rfl) ?_
  dsimp only [members]
  cases JsonBuffer.getUUID lib entry "Name" with
  | none => exact .answer rfl rfl
  | some name =>
    refine Gives.bind (getUUID_gives fun _ => rfl) ?_
    dsimp only [members]
    cases JsonBuffer.getUUID lib entry "Type" with
    | none => exact .answer rfl rfl
    | some type =>
      refine Gives.bind (objectGetEx_gives fun _ => rfl) (Gives.bind (objectGetEx_gives fun _ => rfl)
        (Gives.bind (objectGetEx_gives fun _ => rfl) ?_))
      dsimp only [members]
      -- one case for each value alone, and the items with none or with several
      rcases Json.has entry "String_Value" <;> rcases Json.has entry "Bin_Value" <;>
        rcases Json.has entry "Json_Value"
      case true.false.false =>
        exact addCopied_takes (getString_copies fun _ => rfl) (fun _ str _ => stringValue_ne_nil type str)
          (addStringValue_eq [] name type) list
      case false.true.false =>
        refine addCopied_takes (getByteArray_copies fun _ => rfl) (fun hquiet data hdata => ?_)
          (addBinValue_eq [] name type) list
        exact binValue_ne_nil (fun hnil => hvalue hquiet (hnil ▸ hdata)) type
      case false.false.true =>
        exact addCopied_takes ((needsObject_frees fun _ => rfl).first (copied_copies _)) (fun _ str _ => jsonValue_ne_nil type str)
          (addJsonValue_eq [] name type) list
      all_goals exact .answer rfl rfl

theorem isSome_getNTLVItem (entry : Fields) :
    (JsonBuffer.getNTLVItem lib registry list entry).isSome = (JsonBuffer.getNTLVItem lib registry [] entry).isSome := by
  unfold JsonBuffer.getNTLVItem
  cases JsonBuffer.getUUID lib entry "Name" with
  | none => rfl
  | some name =>
    cases JsonBuffer.getUUID lib entry "Type" with
    | none => rfl
    | some type =>
      dsimp only [bind_eq_bind, bind_some]
      split
      · simp only [funext (addStringValue_eq _ name type), ← bind_assoc, isSome_bind_ntlvListAdd]
      · simp only [funext (addBinValue_eq _ name type), ← bind_assoc, isSome_bind_ntlvListAdd]
      · simp only [funext (addJsonValue_eq _ name type), ← bind_assoc, isSome_bind_ntlvListAdd]
      · rfl

theorem isSome_getNTLVItems (items : List Json) (list : List NTLVItem) :
    (JsonBuffer.getNTLVItems lib registry list items).isSome =
      (items.map Json.nonNull).all (acceptsItem lib registry) := by
  induction items generalizing list with
  | nil => rfl
  | cons item items ih =>
    cases item with
    | object entry =>
      have hitem : (JsonBuffer.getNTLVItem lib registry list entry).isSome = _ := isSome_getNTLVItem list entry
      simp only [JsonBuffer.getNTLVItems, List.map_cons, List.all_cons, Json.nonNull, acceptsItem, ← hitem]
      cases JsonBuffer.getNTLVItem lib registry list entry with
      | none => rfl
      | some list' => exact ih list'
    | _ => rfl

theorem getNTLVList_reads (hp : quiet → isObject parent)
    (hvalues : quiet → ∀ items entry, Json.get (members parent) name = some (.array items) → .object entry ∈ items →
      JsonBuffer.getByteArray lib entry "Bin_Value" ≠ some []) :
    Reads exact quiet (getNTLVList lib registry parent name) ntlvOwn
      (JsonBuffer.getNTLVList lib registry (members parent) name).isSome := by
  refine .as ?_ (isSome_of_entries (isSome_getNTLVItems · []) _)
  refine getList_reads hp ntlvDelete_frees fun items hitems e he list => ?_
  obtain ⟨item, hitem, rfl⟩ := List.mem_map.mp he
  cases item with
  | object entry => exact getNTLVItem_takes (fun hquiet => hvalues hquiet items entry hitems hitem) list
  | _ => exact .answer rfl rfl

end Metadata

/-! ### Lists of UUIDs, of strings and of bytes -/

section Lists

variable {exact quiet : Prop} {lib : Libs} {parent : Json} {name : String}

theorem isSome_mapM_entries {β : Type} {read : Json → Option β} (hnull : read .null = none) (items : List Json) :
    (items.mapM read).isSome = (items.map Json.nonNull).all fun e => (e.bind read).isSome := by
  have hitem : ∀ item : Json, (read item).isSome = ((Json.nonNull item).bind read).isSome := by
    intro item
    cases item with
    | null => simp [hnull, Json.nonNull]
    | _ => rfl
  rw [Bool.eq_iff_iff, Partial.isSome_list_mapM_iff]
  simp [hitem]

def UUIDListNodePtr.own (current : UUIDListNodePtr) : Multiset Address :=
  {current.sName} + ((current.sDescription.elim 0 fun p => {p}) + {current.addr})

abbrev uuidsOwn : ListPtr UUIDListNodePtr → Multiset Address := ListPtr.own UUIDListNodePtr.own

theorem uuidDestroy_frees (current : UUIDListNodePtr) : Frees exact quiet current.own (uuidDestroy current) :=
  (free_frees current.sName).andThen ((Frees.unlessNull free_frees current.sDescription).andThen (free_frees current.addr))

theorem uuidAddListEntry_takes (htext : text.bytes ≠ []) (desc : Option Address)
    (list : ListPtr UUIDListNodePtr) : Takes exact quiet uuidsOwn (uuidAddListEntry text desc) list true := by
  unfold Takes uuidAddListEntry
  rw [if_neg htext]
  refine .bind_beside alloc_meets fun addr _ => .bind_beside alloc_meets fun sName _ => ?_
  cases desc with
  | none =>
    refine .bind ((listPush_meets UUIDListNodePtr.own list ⟨addr, sName, none⟩).holding ?_) fun _ _ => .answer rfl rfl
    simp only [UUIDListNodePtr.own]
    ac_rfl
  | some _ =>
    refine .bind_beside alloc_meets fun sDescription _ => ?_
    refine .bind ((listPush_meets UUIDListNodePtr.own list ⟨addr, sName, some sDescription⟩).holding ?_)
      fun _ _ => .answer rfl rfl
    simp only [UUIDListNodePtr.own]
    ac_rfl

theorem uuidRound_takes (object : Fields) (list : ListPtr UUIDListNodePtr) :
    Takes exact quiet uuidsOwn (uuidRound lib (some (.object object))) list
      (Messages.uuidEntryOfJson lib (.object object)).isSome := by
  unfold Messages.uuidEntryOfJson
  refine .bind_beside (getString_copies fun _ => rfl) fun r hr => ?_
  dsimp only [members] at hr ⊢
  rw [← hr]
  rcases r with _ | ⟨uuidS, idText⟩
  · exact .answer (zero_add _) rfl
  refine .bind_beside (getString_copies fun _ => rfl) fun r hr => ?_
  dsimp only [members] at hr ⊢
  rw [← hr]
  rcases r with _ | ⟨nameS, nameText⟩
  · refine .holding ?_ (zero_add _).symm
    exact (free_frees uuidS).andThen (.answer rfl rfl)
  dsimp only [map_some, bind_eq_bind, bind_some]
  by_cases hname : nameText.bytes = []
  · rw [if_pos hname, if_pos hname]
    exact (free_frees nameS).andThen ((free_frees uuidS).andThen (.answer rfl rfl))
  rw [if_neg hname, if_neg hname]
  refine .bind_beside (getOptionalString_reads fun _ => rfl) fun desc hdesc => ?_
  dsimp only [members] at hdesc
  cases hread : JsonBuffer.getOptionalString object "description" with
  | none =>
    obtain rfl : desc = none := by simpa [hread] using hdesc
    refine .holding ?_ (show {uuidS} + ({nameS} + uuidsOwn list) = 0 + ({nameS} + ({uuidS} + uuidsOwn list)) from ?_)
    · exact (free_frees uuidS).andThen ((free_frees nameS).andThen (.answer rfl rfl))
    · rw [zero_add, add_left_comm]
  | some content =>
    obtain ⟨desc, rfl⟩ : ∃ d, desc = some d := isSome_iff_exists.mp (by simp [hdesc, hread])
    -- the entry has copies of the texts: the three that were read are held across the addition and freed after it
    refine .bind ((Meets.frame (P := uuidsOwn list) (Q := fun r => uuidsOwn r.2)
      (φ := (·.1 = (lib.uuidParse idText).isSome)) ?_ (desc.elim 0 (fun p => {p}) + ({nameS} + {uuidS}))).holding ?_)
      fun r hr => ?_
    · cases lib.uuidParse idText with
      | none => exact .answer rfl rfl
      | some uuid => exact uuidAddListEntry_takes hname desc list
    · simp only [Option.elim]
      ac_rfl
    refine .holding ?_ (show (desc.elim 0 (fun p => {p}) + ({nameS} + ({uuidS} + uuidsOwn r.2))) = _ from ?_)
    · refine (Frees.unlessNull free_frees desc).andThen ((free_frees nameS).andThen ((free_frees uuidS).andThen ?_))
      exact .answer rfl (by rw [hr]; cases lib.uuidParse idText <;> rfl)
    · ac_rfl

theorem getUUIDList_reads (hp : quiet → isObject parent) :
    Reads exact quiet (getUUIDList lib parent name) uuidsOwn (Messages.getUUIDList lib (members parent) name).isSome := by
  refine .as ?_ (isSome_of_entries (isSome_mapM_entries rfl) _)
  refine getList_reads hp uuidDestroy_frees fun items hitems e he list => ?_
  rcases e with _ | (_ | _ | _ | _ | _ | _ | object)
  case some.object => exact uuidRound_takes object list
  all_goals exact .answer rfl rfl

abbrev stringsOwn : ListPtr Address → Multiset Address := ListPtr.own fun p => {p}

theorem getStringList_reads (hp : quiet → isObject parent) :
    Reads exact quiet (getStringList parent name) stringsOwn (Messages.getStringList (members parent) name).isSome := by
  refine .as ?_ (isSome_of_entries (isSome_mapM_entries rfl) _)
  refine getList_reads hp free_frees fun items hitems e he list => ?_
  rcases e with _ | (_ | _ | _ | _ | text | _ | _)
  case some.string =>
    refine .bind_beside alloc_meets fun string _ => ?_
    exact .bind (listPush_meets (fun p => {p}) list string) fun _ _ => .answer rfl rfl
  all_goals exact .answer rfl rfl

theorem getUint8List_reads (hp : quiet → isObject parent) :
    Reads exact quiet (getUint8List parent name) (fun items => items.elim 0 fun p => {p})
      (Messages.getUint8List (members parent) name).isSome := by
  refine (objectGet_gives hp).bind ?_
  unfold Messages.getUint8List
  generalize Json.get (members parent) name = found
  rcases found with _ | (_ | _ | _ | _ | _ | entries | _)
  case some.array =>
    dsimp only
    by_cases hcount : entries.length % 2 ^ 32 = 0
    · rw [hcount]
      exact .answer rfl rfl
    · rw [if_neg hcount]
      refine alloc_meets.bind fun items _ => ?_
      cases (entries.take (entries.length % 2 ^ 32)).mapM Messages.uint8OfJson with
      | none => exact (free_frees items).lastly (.answer rfl rfl)
      | some bytes => exact .answer rfl rfl
  all_goals exact .answer rfl rfl

end Lists

/-! ### Hashes, ids and nuggets -/

section Ids

variable {exact quiet : Prop} {lib : Libs} {parent : Json} {name : String}

def HashPtr.own (hash : HashPtr) : Multiset Address := {hash.pData} + {hash.addr}

theorem hashDestroy_frees (hash : HashPtr) : Frees exact quiet hash.own (hashDestroy hash) :=
  (free_frees hash.pData).andThen (free_frees hash.addr)

theorem getHash_reads (hp : quiet → isObject parent) :
    Reads exact quiet (getHash parent name) HashPtr.own (JsonBuffer.getHash (members parent) name).isSome := by
  refine (needsObject_frees hp).first ?_
  cases JsonBuffer.getHash (members parent) name with
  | none => exact .answer rfl rfl
  | some _ => exact alloc_meets.bind fun addr _ => .bind_beside alloc_meets fun pData _ => .answer rfl rfl

def BlockIdPtr.own (id : BlockIdPtr) : Multiset Address := id.pHash.elim 0 HashPtr.own + {id.addr}

theorem blockIdDestroy_frees (id : BlockIdPtr) : Frees exact quiet id.own (blockIdDestroy id) :=
  (Frees.unlessNull hashDestroy_frees id.pHash).andThen (free_frees id.addr)

theorem getObject_reads {α β : Type} {own : α → Multiset Address} {k : Fields → Prog (Option α)} {read : Fields → Option β}
    (hp : quiet → isObject parent)
    (hk : ∀ object, Json.getObject (members parent) name = some object →
      Reads exact quiet (k object) own (read object).isSome) :
    Reads exact quiet (getObject parent name >>= fun r => match r with
      | none => pure none
      | some object => k object) own ((Json.getObject (members parent) name).bind read).isSome := by
  refine (getObject_gives hp).bind ?_
  cases hobject : Json.getObject (members parent) name with
  | none => exact .answer rfl rfl
  | some object => exact hk object hobject

theorem getBlockId_reads (hp : quiet → isObject parent) :
    Reads exact quiet (getBlockId lib parent name) BlockIdPtr.own
      (JsonBuffer.getBlockId lib (members parent) name).isSome := by
  refine getObject_reads hp fun object _ => .as (.construct (fun p => zero_add _) (fun p => ?_)
    blockIdDestroy_frees) (isSome_bind fun _ => isSome_bind fun _ => isSome_bind fun _ => rfl)
  refine .slot (getHash_reads fun _ => rfl) (fun _ _ hash => ?_) fun hash => ?_
  · exact add_comm _ _
  · exact .value (getNumber_gives _ fun _ => rfl) (.value (getUUID_gives fun _ => rfl) .nil)

theorem getEventId_reads (hp : quiet → isObject parent) :
    Reads exact quiet (getEventId lib parent name) (fun p => {p})
      (JsonBuffer.getEventId lib (members parent) name).isSome := by
  refine getObject_reads hp fun object _ => getObject_reads (fun _ => rfl) fun nugget _ =>
    .as (.construct (fun p => rfl) (fun p => ?_) free_frees)
      (isSome_bind fun _ => isSome_bind fun _ => isSome_bind fun _ => rfl)
  exact .value (getUUID_gives fun _ => rfl) (.value (getNumber_gives _ fun _ => rfl)
    (.value (getNumber_gives _ fun _ => rfl) .nil))

def NuggetPtr.own (nugget : NuggetPtr) : Multiset Address :=
  (nugget.sName.elim 0 fun p => {p}) + ((nugget.sLocation.elim 0 fun p => {p}) +
    ((nugget.sContact.elim 0 fun p => {p}) + {nugget.addr}))

theorem nuggetDestroy_frees (nugget : NuggetPtr) : Frees exact quiet nugget.own (nuggetDestroy nugget) :=
  (Frees.unlessNull free_frees nugget.sName).andThen ((Frees.unlessNull free_frees nugget.sLocation).andThen
    ((Frees.unlessNull free_frees nugget.sContact).andThen (free_frees nugget.addr)))

theorem getNugget_reads (hp : quiet → isObject parent) :
    Reads exact quiet (getNugget lib parent name) NuggetPtr.own
      (JsonBuffer.getNugget lib (members parent) name).isSome := by
  refine getObject_reads hp fun object _ => .as (.construct (fun p => by simp [NuggetPtr.own]) (fun p => ?_)
    nuggetDestroy_frees) (isSome_bind fun _ => isSome_bind fun _ => isSome_bind fun _ => isSome_bind fun _ =>
      isSome_bind fun _ => isSome_bind fun _ => rfl)
  refine .value (getUUID_gives fun _ => rfl) (.value (getUUID_gives fun _ => rfl) (.value (getUUID_gives fun _ => rfl) ?_))
  refine .slot (getOptionalString_reads fun _ => rfl) (fun _ _ text => ?_) fun sName => ?_
  · simp only [NuggetPtr.own]
    ac_rfl
  refine .slot (getOptionalString_reads fun _ => rfl) (fun _ _ text => ?_) fun sLocation => ?_
  · simp only [NuggetPtr.own]
    ac_rfl
  refine .slot (getOptionalString_reads fun _ => rfl) (fun _ _ text => ?_) fun sContact => .nil
  simp only [NuggetPtr.own]
  ac_rfl

end Ids

end Razorback.Decode
