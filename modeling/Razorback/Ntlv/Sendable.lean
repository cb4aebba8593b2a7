import Razorback.Ntlv.Lookup
import Razorback.JsonBuffer.Texts

/-! Metadata that the helpers built can be sent: each helper stores its value with the length that
`JsonBuffer_Put_NTLVItem` accepts for its type, `Block_MetaData_Add_FileName` apart. -/

namespace Razorback.Ntlv
open Records Text Uuids List Option
open JsonBuffer hiding getUUID

inductive Addition
  | blockFileName (fileName : CString)
  | string (name : Uuid) (text : CString)
  | filename (text : CString)
  | hostname (text : CString)
  | uri (text : CString)
  | httpRequest (text : CString)
  | httpResponse (text : CString)
  | malwareName (vendor name : CString)
  | report (text : CString)
  | cve (text : CString)
  | bid (text : CString)
  | osvdb (text : CString)
  | ipv4 (name : Uuid) (addr : Address 4)
  | ipv4At (side : Side) (addr : Address 4)
  | ipv6 (name : Uuid) (addr : Address 16)
  | ipv6At (side : Side) (addr : Address 16)
  | port (name : Uuid) (value : UInt16)
  | portAt (side : Side) (value : UInt16)

namespace Addition

def add (registry : Registry) (list : List NTLVItem) : Addition → Option (List NTLVItem)
  | blockFileName fileName => blockMetaDataAddFileName registry list fileName
  | string name text => metadataAddString registry list name text
  | filename text => metadataAddFilename registry list text
  | hostname text => metadataAddHostname registry list text
  | uri text => metadataAddURI registry list text
  | httpRequest text => metadataAddHttpRequest registry list text
  | httpResponse text => metadataAddHttpResponse registry list text
  | malwareName vendor name => metadataAddMalwareName registry list vendor name
  | report text => metadataAddReport registry list text
  | cve text => metadataAddCVE registry list text
  | bid text => metadataAddBID registry list text
  | osvdb text => metadataAddOSVDB registry list text
  | ipv4 name addr => metadataAddIPv4 registry list name addr
  | ipv4At side addr => addIPv4 registry side list addr
  | ipv6 name addr => metadataAddIPv6 registry list name addr
  | ipv6At side addr => addIPv6 registry side list addr
  | port name value => metadataAddPort registry list name value
  | portAt side value => addPort registry side list value

/-- The helper counts the terminator of the text that it stores. -/
def Counts : Addition → Prop
  | blockFileName _ => False
  | _ => True

/-- The text and its terminator have a size of 32 bits. -/
def Fits : Addition → Prop
  | string _ text | filename text | hostname text | uri text | httpRequest text | httpResponse text | report text
  | cve text | bid text | osvdb text => text.terminated.length < 2 ^ 32
  | malwareName vendor name => (malwareText vendor name).terminated.length < 2 ^ 32
  | blockFileName _ | ipv4 _ _ | ipv4At _ _ | ipv6 _ _ | ipv6At _ _ | port _ _ | portAt _ _ => True

end Addition

def addAll (registry : Registry) : List Addition → List NTLVItem → Option (List NTLVItem)
  | [], list => some list
  | a :: as, list => (a.add registry list).bind (addAll registry as)

def standardTypes : List String := ["STRING", "JSON", "PORT", "IPPROTO", "IPv4_ADDR", "IPv6_ADDR"]

def Distinct (registry : Registry) : Prop :=
  ∀ n ∈ standardTypes, ∀ m ∈ standardTypes, ∀ uuid, getUUID registry n .ntlvType = some uuid →
    getUUID registry m .ntlvType = some uuid → n = m

def Sendable (lib : Libs) (registry : Registry) (item : NTLVItem) : Prop :=
  ∃ object, ntlvItemFields lib registry item = some object

section Items

variable {lib : Libs} {registry : Registry} {typeName : String} {name type : Uuid} {list added : List NTLVItem}
  {data : Bytes}

theorem namedNTLVTypeMatches_iff (n : String) : namedNTLVTypeMatches registry n type ↔
    getUUID registry n .ntlvType = some type := by
  rw [namedNTLVTypeMatches, isNamedUUID]
  cases getUUID registry n .ntlvType with
  | none => simp
  | some uuid => simp

theorem Distinct.matches_eq (h : Distinct registry) (hname : typeName ∈ standardTypes)
    (htype : getUUID registry typeName .ntlvType = some type) (hn : n ∈ standardTypes) :
    namedNTLVTypeMatches registry n type = decide (n = typeName) := by
  rw [Bool.eq_iff_iff, namedNTLVTypeMatches_iff, decide_eq_true_iff]
  constructor
  · exact fun hother => h n hn typeName hname type hother htype
  · rintro rfl
    exact htype

theorem sendable_string (h : Distinct registry) (htype : getUUID registry "STRING" .ntlvType = some type)
    (text : CString) : Sendable lib registry ⟨name, type, text.terminated⟩ := by
  have hmatch := fun n hn => h.matches_eq (n := n) (by decide) htype hn
  have hstring : isString registry type := hmatch "STRING" (by decide)
  have hjson : ntlvTypeUsesJsonValue registry type = false := hmatch "JSON" (by decide)
  have hscalar : scalarOf registry type = none := by
    rw [scalarOf, find?_eq_none]
    intro scalar _
    have hother : namedNTLVTypeMatches registry scalar.typeName type = false := by
      cases scalar
      · exact hmatch "PORT" (by decide)
      · exact hmatch "IPPROTO" (by decide)
      · exact hmatch "IPv4_ADDR" (by decide)
      · exact hmatch "IPv6_ADDR" (by decide)
    rw [hother]
    exact Bool.false_ne_true
  have hlast : text.terminated.getLast? = some 0 := getLast?_concat
  refine ⟨putString (itemHeader lib ⟨name, type, text.terminated⟩) "String_Value" (cString text.terminated), ?_⟩
  rw [ntlvItemFields, textValue, scalarValue]
  simp only [hstring, hjson, hscalar, hlast]
  rfl

theorem sendable_scalar (h : Distinct registry) (scalar : Scalar)
    (htype : getUUID registry scalar.typeName .ntlvType = some type) (hsize : data.length = scalar.size) :
    Sendable lib registry ⟨name, type, data⟩ := by
  have hmember : scalar.typeName ∈ standardTypes := by cases scalar <;> decide
  have hmatch := fun n hn => h.matches_eq (n := n) hmember htype hn
  have hstring : isString registry type = false := by
    rw [isString, hmatch "STRING" (by decide)]
    cases scalar <;> decide
  have hjson : ntlvTypeUsesJsonValue registry type = false := by
    rw [ntlvTypeUsesJsonValue, hmatch "JSON" (by decide)]
    cases scalar <;> decide
  have hscalar : scalarOf registry type = some scalar := by
    have hport := hmatch "PORT" (by decide)
    have hproto := hmatch "IPPROTO" (by decide)
    have hfour := hmatch "IPv4_ADDR" (by decide)
    have hsix := hmatch "IPv6_ADDR" (by decide)
    cases scalar <;> simp [scalarOf, Scalar.typeName, hport, hproto, hfour, hsix]
  refine ⟨putString (itemHeader lib ⟨name, type, data⟩) "String_Value" (scalar.format lib data), ?_⟩
  rw [ntlvItemFields, textValue, scalarValue]
  simp only [hstring, hjson, hscalar, hsize, ne_eq]
  rfl

theorem addOfType_eq_some (h : addOfType registry typeName list name data = some added) :
    ∃ type, getUUID registry typeName .ntlvType = some type ∧ added = list ++ [⟨name, type, data⟩] := by
  obtain ⟨type, htype, h⟩ := bind_eq_some_iff.mp h
  rw [metadataAdd, ntlvListAdd] at h
  split_ifs at h
  exact ⟨type, htype, (some.inj h).symm⟩

theorem not_sendable_fileName (htype : getUUID registry "STRING" .ntlvType = some type) (text : CString) (size : ℕ) :
    ¬Sendable lib registry ⟨name, type, text.bytes.take size⟩ := by
  rintro ⟨object, hobject⟩
  have hstring : isString registry type := (namedNTLVTypeMatches_iff "STRING").mpr htype
  have hlast : (text.bytes.take size).getLast? ≠ some 0 := fun h =>
    text.noNul (mem_of_mem_take (mem_of_getLast? h))
  obtain ⟨value, hvalue, -⟩ := bind_eq_some_iff.mp hobject
  rw [textValue] at hvalue
  simp only [hstring, hlast] at hvalue
  cases hvalue

def Extends (lib : Libs) (registry : Registry) (list added : List NTLVItem) (sent : Prop) : Prop :=
  ∃ item, added = list ++ [item] ∧ (Sendable lib registry item ↔ sent)

section
variable (hd : Distinct registry)
include hd

theorem metadataAddString_extends (hlen : text.terminated.length < 2 ^ 32)
    (h : metadataAddString registry list name text = some added) : Extends lib registry list added True := by
  rw [metadataAddString, sized, Nat.mod_eq_of_lt hlen, take_length] at h
  obtain ⟨type, htype, rfl⟩ := addOfType_eq_some h
  exact ⟨_, rfl, iff_true_intro (sendable_string hd htype text)⟩

theorem addScalar_extends (scalar : Scalar) (hsize : data.length = scalar.size)
    (h : addOfType registry scalar.typeName list name data = some added) : Extends lib registry list added True := by
  obtain ⟨type, htype, rfl⟩ := addOfType_eq_some h
  exact ⟨_, rfl, iff_true_intro (sendable_scalar hd scalar htype hsize)⟩

theorem addScalarAt_extends (scalar : Scalar) (hsize : data.length = scalar.size)
    (h : lookup registry sName .ntlvName (fun name => addOfType registry scalar.typeName list name data) = some added) :
    Extends lib registry list added True := by
  obtain ⟨name, _, h⟩ := bind_eq_some_iff.mp h
  exact addScalar_extends hd scalar hsize h

theorem Addition.extends {a : Addition} (ha : a.Fits)
    (h : a.add registry list = some added) : Extends lib registry list added a.Counts := by
  cases a with
  | blockFileName fileName =>
    obtain ⟨_, _, h⟩ := bind_eq_some_iff.mp h
    obtain ⟨type, htype, rfl⟩ := addOfType_eq_some h
    exact ⟨_, rfl, iff_false_intro (not_sendable_fileName htype fileName _)⟩
  | string name text => exact metadataAddString_extends hd ha h
  | filename text | hostname text | uri text | httpRequest text | httpResponse text | report text | cve text
  | bid text | osvdb text | malwareName vendor name =>
    obtain ⟨_, _, h⟩ := bind_eq_some_iff.mp h
    exact metadataAddString_extends hd ha h
  | ipv4 name addr => exact addScalar_extends hd .ipv4 addr.2 h
  | ipv6 name addr => exact addScalar_extends hd .ipv6 addr.2 h
  | port name value => exact addScalar_extends hd .port (show (portBytes value).length = 2 from rfl) h
  | ipv4At side addr => cases side <;> exact addScalarAt_extends hd .ipv4 addr.2 h
  | ipv6At side addr => cases side <;> exact addScalarAt_extends hd .ipv6 addr.2 h
  | portAt side value =>
    cases side <;> exact addScalarAt_extends hd .port (show (portBytes value).length = 2 from rfl) h

theorem addAll_sendable (has : ∀ a ∈ as, a.Fits) (h : addAll registry as list = some added) :
    ∃ items, added = list ++ items ∧ ((∀ item ∈ items, Sendable lib registry item) ↔ ∀ a ∈ as, a.Counts) := by
  induction as generalizing list with
  | nil =>
    refine ⟨[], ?_, by simp⟩
    rw [append_nil]
    exact (some.inj h).symm
  | cons a as ih =>
    obtain ⟨middle, hadd, hrest⟩ := bind_eq_some_iff.mp h
    obtain ⟨item, rfl, hitem⟩ := Addition.extends hd (has a mem_cons_self) hadd
    obtain ⟨items, rfl, hitems⟩ := ih (fun b hb => has b (mem_cons_of_mem a hb)) hrest
    refine ⟨item :: items, by rw [append_assoc, singleton_append], ?_⟩
    rw [forall_mem_cons, forall_mem_cons, hitem, hitems]

end

theorem ntlvListJson_isSome :
    (ntlvListJson lib registry items).isSome ↔ ∀ item ∈ items, Sendable lib registry item := by
  rw [ntlvListJson, isSome_map]
  constructor
  · intro h
    obtain ⟨array, harray⟩ := isSome_iff_exists.mp h
    exact ntlvItemFields_of_putNTLVItems harray
  · generalize ([] : List Json) = array
    intro h
    induction items generalizing array with
    | nil => rfl
    | cons item items ih =>
      obtain ⟨object, hobject⟩ := h item mem_cons_self
      rw [putNTLVItems, putNTLVItem, hobject]
      exact ih _ fun other hother => h other (mem_cons_of_mem item hother)

/-! ### Blocks and events with the list -/

variable {items : List NTLVItem}

theorem blockJson_isSome_metadata (pId : BlockId) (pParentId : Option BlockId) (pParentBlock : Option Block) :
    (blockJson lib registry (.mk pId pParentId pParentBlock (some items))).isSome ↔
      (blockJson lib registry (.mk pId pParentId pParentBlock none)).isSome ∧
        (ntlvListJson lib registry items).isSome := by
  cases hid : blockIdJson lib pId with
  | none => cases pParentBlock <;> simp [blockJson, hid]
  | some id =>
    cases hparent : pParentId.mapM (blockIdJson lib) with
    | none => cases pParentBlock <;> simp [blockJson, hparent]
    | some parentId =>
      cases hitems : ntlvListJson lib registry items with
      | none => cases pParentBlock <;> simp [blockJson, hitems]
      | some metadata =>
        cases pParentBlock with
        | none => simp [blockJson, hid, hparent, hitems]
        | some block => cases hblock : blockJson lib registry block <;> simp [blockJson, hid, hparent, hitems, hblock]

theorem eventJson_isSome_metadata (pId : EventId) (pParentId : Option EventId) (pParent : Option Event)
    (uuidApplicationType : Uuid) (pBlock : Option Block) :
    (eventJson lib registry (.mk pId pParentId pParent uuidApplicationType pBlock (some items))).isSome ↔
      (eventJson lib registry (.mk pId pParentId pParent uuidApplicationType pBlock none)).isSome ∧
        (ntlvListJson lib registry items).isSome := by
  cases hblock : pBlock.mapM (blockJson lib registry) with
  | none => cases pParent <;> simp [eventJson, hblock]
  | some block =>
    cases hitems : ntlvListJson lib registry items with
    | none => cases pParent <;> simp [eventJson, hitems]
    | some metadata =>
      cases pParent with
      | none => simp [eventJson, hblock, hitems]
      | some parent => cases hparent : eventJson lib registry parent <;> simp [eventJson, hblock, hitems, hparent]

/-- `JsonBuffer_Put_NTLVList` accepts a list that the helpers built exactly where none of the calls was
`Block_MetaData_Add_FileName`; a block or event that carries the list is then written if it is written without it. -/
theorem built_metadata_sent_iff (hd : Distinct registry) {as : List Addition} (has : ∀ a ∈ as, a.Fits)
    (h : addAll registry as [] = some list) :
    (∀ parent name, (putNTLVList lib registry parent name (some list)).isSome = true ↔ ∀ a ∈ as, a.Counts) ∧
    (∀ pId pParentId pParentBlock, (blockJson lib registry (.mk pId pParentId pParentBlock (some list))).isSome = true ↔
      (blockJson lib registry (.mk pId pParentId pParentBlock none)).isSome = true ∧ ∀ a ∈ as, a.Counts) ∧
    ∀ pId pParentId pParent uuidApplicationType pBlock,
      (eventJson lib registry (.mk pId pParentId pParent uuidApplicationType pBlock (some list))).isSome = true ↔
        (eventJson lib registry (.mk pId pParentId pParent uuidApplicationType pBlock none)).isSome = true ∧
          ∀ a ∈ as, a.Counts := by
  obtain ⟨items, hlist, hitems⟩ :
      ∃ items, list = [] ++ items ∧ ((∀ item ∈ items, Sendable lib registry item) ↔ ∀ a ∈ as, a.Counts) :=
    addAll_sendable hd has h
  rw [nil_append] at hlist
  subst hlist
  have hjson : (ntlvListJson lib registry list).isSome = true ↔ ∀ a ∈ as, a.Counts := ntlvListJson_isSome.trans hitems
  refine ⟨fun parent name => ?_, fun pId pParentId pParentBlock => ?_,
    fun pId pParentId pParent uuidApplicationType pBlock => ?_⟩
  · rw [putNTLVList, bind_some, isSome_map, hjson]
  · rw [blockJson_isSome_metadata, hjson]
  · rw [eventJson_isSome_metadata, hjson]

end Items

def standardRegistry : Registry
  | .ntlvName => [⟨1, "FILENAME", none⟩, ⟨2, "SOURCE", none⟩]
  | .ntlvType => [⟨3, "STRING", none⟩, ⟨4, "JSON", none⟩, ⟨5, "PORT", none⟩, ⟨6, "IPPROTO", none⟩,
      ⟨7, "IPv4_ADDR", none⟩, ⟨8, "IPv6_ADDR", none⟩]
  | _ => []

theorem distinct_standardRegistry : Distinct standardRegistry := by
  have hinj : ∀ n ∈ standardTypes, ∀ m ∈ standardTypes,
      getUUID standardRegistry n .ntlvType = getUUID standardRegistry m .ntlvType → n = m := by decide
  exact fun n hn m hm uuid hn' hm' => hinj n hn m hm (hn'.trans hm'.symm)

/-- A file name added by `Metadata_Add_Filename`, an empty one among them, and a port. -/
theorem built_metadata_sent_three : ∃ list,
    addAll standardRegistry [.filename (cString [97]), .filename (cString []), .portAt .source 80] [] = some list ∧
      ∀ parent name, (putNTLVList textLibs standardRegistry parent name (some list)).isSome = true := by
  obtain ⟨list, hlist⟩ : ∃ list,
      addAll standardRegistry [.filename (cString [97]), .filename (cString []), .portAt .source 80] [] = some list :=
    ⟨_, rfl⟩
  refine ⟨list, hlist, fun parent name => ?_⟩
  refine ((built_metadata_sent_iff distinct_standardRegistry ?_ hlist).1 parent name).mpr ?_
  · simp only [forall_mem_cons]
    exact ⟨show (cString [97]).terminated.length < 2 ^ 32 by decide,
      show (cString []).terminated.length < 2 ^ 32 by decide, trivial, fun _ h => nomatch h⟩
  · simp [Addition.Counts]

/-- The list with a file name that `Block_MetaData_Add_FileName` stored is refused. -/
theorem file_name_refused : ∃ list, blockMetaDataAddFileName standardRegistry [] (cString [97]) = some list ∧
    putNTLVList textLibs standardRegistry [] "Metadata" (some list) = none :=
  ⟨_, rfl, rfl⟩

end Razorback.Ntlv
