import Razorback.JsonBuffer.Fields
import Razorback.Records.Events
import Razorback.Uuids.Defs

/-! The metadata codec: `JsonBuffer_Put_NTLVList` and `JsonBuffer_Get_NTLVList`. -/

namespace Razorback.JsonBuffer
open Records Text Uuids Option
open Json (Fields Shape FieldsShape add get getObject has nonNull)

/-! ### The types a registry knows -/

def namedNTLVTypeMatches (registry : Registry) (name : String) (type : Uuid) : Bool :=
  (isNamedUUID registry name .ntlvType type).getD false

def isString (registry : Registry) (type : Uuid) : Bool := namedNTLVTypeMatches registry "STRING" type

def ntlvTypeUsesJsonValue (registry : Registry) (type : Uuid) : Bool := namedNTLVTypeMatches registry "JSON" type

inductive Scalar
  | port | ipProto | ipv4 | ipv6
  deriving DecidableEq, Repr

namespace Scalar

def typeName : Scalar → String
  | port => "PORT"
  | ipProto => "IPPROTO"
  | ipv4 => "IPv4_ADDR"
  | ipv6 => "IPv6_ADDR"

def size : Scalar → Nat
  | port => 2
  | ipProto => 1
  | ipv4 => 4
  | ipv6 => 16

end Scalar

/-- The first of the scalar types the UUID is registered as, in the order both codecs ask. -/
def scalarOf (registry : Registry) (type : Uuid) : Option Scalar :=
  [Scalar.port, .ipProto, .ipv4, .ipv6].find? fun scalar => namedNTLVTypeMatches registry scalar.typeName type

def ntlvTypeUsesStringValue (registry : Registry) (type : Uuid) : Bool :=
  isString registry type || (scalarOf registry type).isSome

theorem noNul_decimal (n : Nat) : 0 ∉ decimal n := fun h => absurd (isDigit_of_mem_decimal 0 h) (by decide)

def decimalText (n : Nat) : CString := ⟨decimal n, noNul_decimal n⟩

def littleEndian (data : Bytes) : Nat := data.foldr (fun b n => b.toNat + 256 * n) 0

def Scalar.format (lib : Libs) (scalar : Scalar) (data : Bytes) : CString :=
  match scalar with
  | port | ipProto => decimalText (littleEndian data)
  | ipv4 => lib.inetNtop .inet data
  | ipv6 => lib.inetNtop .inet6 data

def Scalar.scan (lib : Libs) (scalar : Scalar) (text : CString) : Option Bytes :=
  match scalar with
  | port => (sscanfUnsigned 16 text.bytes).map fun port => [UInt8.ofNat (port % 256), UInt8.ofNat (port / 256)]
  | ipProto => (sscanfUnsigned 8 text.bytes).map fun proto => [UInt8.ofNat proto]
  | ipv4 => lib.inetPton .inet text
  | ipv6 => lib.inetPton .inet6 text

/-! ### Writing -/

/-- The text of a STRING or JSON value, which has to end in a NUL. -/
def textValue (registry : Registry) (item : NTLVItem) : Option (Option CString) :=
  if isString registry item.uuidType || ntlvTypeUsesJsonValue registry item.uuidType then
    if item.pData.getLast? = some 0 then some (some (cString item.pData)) else none
  else some none

def scalarValue (lib : Libs) (registry : Registry) (item : NTLVItem) : Option (Option CString) :=
  match scalarOf registry item.uuidType with
  | none => some none
  | some scalar => if item.pData.length ≠ scalar.size then none else some (some (scalar.format lib item.pData))

def itemHeader (lib : Libs) (item : NTLVItem) : Fields :=
  putUUID lib (putUUID lib [] "Name" item.uuidName) "Type" item.uuidType

def ntlvItemFields (lib : Libs) (registry : Registry) (item : NTLVItem) : Option Fields := do
  let text ← textValue registry item
  let scalar ← scalarValue lib registry item
  -- a scalar type writes over the text of the types before it
  match scalar.or text with
  | none => putByteArray lib (itemHeader lib item) "Bin_Value" item.pData
  | some str =>
    if ntlvTypeUsesJsonValue registry item.uuidType then putJsonString lib (itemHeader lib item) "Json_Value" str
    else some (putString (itemHeader lib item) "String_Value" str)

def putNTLVItem (lib : Libs) (registry : Registry) (array : List Json) (item : NTLVItem) : Option (List Json) :=
  (ntlvItemFields lib registry item).map fun object => array ++ [.object object]

/-- `List_ForEach` over the items with the array to append to. -/
def putNTLVItems (lib : Libs) (registry : Registry) (array : List Json) : List NTLVItem → Option (List Json)
  | [] => some array
  | item :: items => do putNTLVItems lib registry (← putNTLVItem lib registry array item) items

def ntlvListJson (lib : Libs) (registry : Registry) (items : List NTLVItem) : Option Json :=
  (putNTLVItems lib registry [] items).map .array

/-- `JsonBuffer_Put_NTLVList`: `List_ForEach` refuses a list that is NULL. -/
def putNTLVList (lib : Libs) (registry : Registry) (parent : Fields) (name : String)
    (list : Option (List NTLVItem)) : Option Fields :=
  list.bind fun items => (ntlvListJson lib registry items).map (add parent name)

/-! ### Reading -/

def ntlvListAdd (list : List NTLVItem) (name type : Uuid) (data : Bytes) : Option (List NTLVItem) :=
  if data = [] then none else some (list ++ [⟨name, type, data⟩])

def addStringValue (lib : Libs) (registry : Registry) (list : List NTLVItem) (name type : Uuid) (str : CString) :
    Option (List NTLVItem) :=
  if isString registry type then ntlvListAdd list name type str.terminated
  else if ntlvTypeUsesJsonValue registry type then none
  else match scalarOf registry type with
    | some scalar => (scalar.scan lib str).bind (ntlvListAdd list name type)
    | none => none

def addJsonValue (registry : Registry) (list : List NTLVItem) (name type : Uuid) (str : CString) :
    Option (List NTLVItem) :=
  if ntlvTypeUsesJsonValue registry type then ntlvListAdd list name type str.terminated else none

def addBinValue (registry : Registry) (list : List NTLVItem) (name type : Uuid) (data : Bytes) :
    Option (List NTLVItem) :=
  if ntlvTypeUsesStringValue registry type || ntlvTypeUsesJsonValue registry type then none
  else ntlvListAdd list name type data

def getNTLVItem (lib : Libs) (registry : Registry) (list : List NTLVItem) (parent : Fields) :
    Option (List NTLVItem) := do
  let name ← getUUID lib parent "Name"
  let type ← getUUID lib parent "Type"
  match has parent "String_Value", has parent "Bin_Value", has parent "Json_Value" with
  | true, false, false => (getString parent "String_Value").bind (addStringValue lib registry list name type)
  | false, true, false => (getByteArray lib parent "Bin_Value").bind (addBinValue registry list name type)
  | false, false, true => (getJsonString lib parent "Json_Value").bind (addJsonValue registry list name type)
  | _, _, _ => none

def getNTLVItems (lib : Libs) (registry : Registry) (list : List NTLVItem) : List Json → Option (List NTLVItem)
  | [] => some list
  | .object entry :: entries => do getNTLVItems lib registry (← getNTLVItem lib registry list entry) entries
  | _ :: _ => none

def getNTLVList (lib : Libs) (registry : Registry) (parent : Fields) (name : String) : Option (List NTLVItem) :=
  match get parent name with
  | some (.array entries) => getNTLVItems lib registry [] entries
  | _ => none

/-! ### What an item is written as -/

def wireText (lib : Libs) (registry : Registry) (item : NTLVItem) : CString :=
  match scalarOf registry item.uuidType with
  | some scalar => scalar.format lib item.pData
  | none => cString item.pData

inductive ItemValue (lib : Libs) (registry : Registry) (item : NTLVItem) : String → Json → Prop
  | binary {value : Json} (hstring : isString registry item.uuidType = false)
      (hjson : ntlvTypeUsesJsonValue registry item.uuidType = false)
      (hscalar : scalarOf registry item.uuidType = none) (hvalue : byteArrayJson lib item.pData = some value) :
      ItemValue lib registry item "Bin_Value" value
  | json {value : Json} (hjson : ntlvTypeUsesJsonValue registry item.uuidType = true)
      (hlast : item.pData.getLast? = some 0) (hvalue : jsonStringJson lib (cString item.pData) = some value) :
      ItemValue lib registry item "Json_Value" value
  | string (hstring : isString registry item.uuidType = true)
      (hjson : ntlvTypeUsesJsonValue registry item.uuidType = false) (hlast : item.pData.getLast? = some 0) :
      ItemValue lib registry item "String_Value" (stringJson (wireText lib registry item))
  | scalar {scalar : Scalar} (hstring : isString registry item.uuidType = false)
      (hjson : ntlvTypeUsesJsonValue registry item.uuidType = false)
      (hscalar : scalarOf registry item.uuidType = some scalar) (hsize : item.pData.length = scalar.size) :
      ItemValue lib registry item "String_Value" (stringJson (scalar.format lib item.pData))

section Written

variable {lib : Libs} {registry : Registry} {item : NTLVItem}

theorem scalar_not_container (scalar : Scalar) (data : Bytes) : jsonStringJson lib (scalar.format lib data) = none := by
  have hdigits : ∀ n, '['.toUInt8 ∉ decimal n ∧ '\x7b'.toUInt8 ∉ decimal n := fun n =>
    ⟨fun h => absurd (isDigit_of_mem_decimal _ h) (by decide), fun h => absurd (isDigit_of_mem_decimal _ h) (by decide)⟩
  have hbracket : '['.toUInt8 ∉ (scalar.format lib data).bytes ∧ '\x7b'.toUInt8 ∉ (scalar.format lib data).bytes := by
    cases scalar
    · exact hdigits _
    · exact hdigits _
    · exact lib.no_bracket_inetNtop .inet data
    · exact lib.no_bracket_inetNtop .inet6 data
  rw [eq_none_iff_forall_not_mem]
  intro value hvalue
  obtain ⟨hparsed, -, hcontainer⟩ := jsonStringJson_eq_some hvalue
  rcases lib.bracket_of_container _ _ hparsed hcontainer with h | h
  · exact hbracket.1 h
  · exact hbracket.2 h

theorem scalarValue_cases (h : scalarValue lib registry item = some scalar) :
    (scalarOf registry item.uuidType = none ∧ scalar = none) ∨
      ∃ s, scalarOf registry item.uuidType = some s ∧ item.pData.length = s.size ∧
        scalar = some (s.format lib item.pData) := by
  simp only [scalarValue] at h
  split at h
  · next hscalar => exact .inl ⟨hscalar, (some.inj h).symm⟩
  · next s hscalar =>
    split at h
    · simp at h
    · next hsize => exact .inr ⟨s, hscalar, not_not.mp hsize, (some.inj h).symm⟩

theorem textValue_cases (h : textValue registry item = some text) :
    (isString registry item.uuidType = false ∧ ntlvTypeUsesJsonValue registry item.uuidType = false ∧ text = none) ∨
      ((isString registry item.uuidType ∨ ntlvTypeUsesJsonValue registry item.uuidType) ∧
        item.pData.getLast? = some 0 ∧ text = some (cString item.pData)) := by
  simp only [textValue] at h
  split at h
  · next htype =>
    split at h
    · next hlast => exact .inr ⟨by simpa using htype, hlast, (some.inj h).symm⟩
    · simp at h
  · next htype =>
    have hnone : isString registry item.uuidType = false ∧ ntlvTypeUsesJsonValue registry item.uuidType = false := by
      simpa using htype
    exact .inl ⟨hnone.1, hnone.2, (some.inj h).symm⟩

theorem ntlvItemFields_cases (h : ntlvItemFields lib registry item = some object) :
    ∃ key value, ItemValue lib registry item key value ∧ object = add (itemHeader lib item) key value := by
  obtain ⟨text, htext, hrest⟩ := bind_eq_some_iff.mp h
  obtain ⟨scalar, hscalar, hput⟩ := bind_eq_some_iff.mp hrest
  rcases scalarValue_cases hscalar with ⟨hs, rfl⟩ | ⟨s, hs, hsize, rfl⟩
  · have hwire : wireText lib registry item = cString item.pData := by rw [wireText, hs]
    rcases textValue_cases htext with ⟨hstring, hjson, rfl⟩ | ⟨htype, hlast, rfl⟩
    · obtain ⟨value, hvalue, rfl⟩ := map_eq_some_iff.mp hput
      exact ⟨_, value, .binary hstring hjson hs hvalue, rfl⟩
    · simp only [none_or] at hput
      split at hput
      · next hjson =>
        obtain ⟨value, hvalue, rfl⟩ := map_eq_some_iff.mp hput
        exact ⟨_, value, .json hjson hlast hvalue, rfl⟩
      · next hjson =>
        have hnot := Bool.eq_false_of_not_eq_true hjson
        have hstring := htype.resolve_right hjson
        exact ⟨_, _, .string hstring hnot hlast, by rw [← some.inj hput, hwire]; rfl⟩
  · have hwire : wireText lib registry item = s.format lib item.pData := by rw [wireText, hs]
    simp only [some_or] at hput
    split at hput
    -- a JSON type that is a scalar too: its text is no array or object, so nothing is put
    · simp [putJsonString, scalar_not_container] at hput
    · next hjson =>
      have hnot := Bool.eq_false_of_not_eq_true hjson
      rcases textValue_cases htext with ⟨hstring, -, rfl⟩ | ⟨htype, hlast, rfl⟩
      · exact ⟨_, _, .scalar hstring hnot hs hsize, (some.inj hput).symm⟩
      · have hstring := htype.resolve_right hjson
        exact ⟨_, _, .string hstring hnot hlast, by rw [← some.inj hput, hwire]; rfl⟩

variable {items : List NTLVItem}

theorem ntlvItemFields_of_putNTLVItems (h : putNTLVItems lib registry array items = some array') :
    ∀ item ∈ items, ∃ object, ntlvItemFields lib registry item = some object := by
  induction items generalizing array with
  | nil => simp
  | cons item items ih =>
    obtain ⟨extended, hitem, hrest⟩ := bind_eq_some_iff.mp h
    obtain ⟨object, hobject, -⟩ := map_eq_some_iff.mp hitem
    intro other hother
    rcases List.mem_cons.mp hother with rfl | hother
    · exact ⟨object, hobject⟩
    · exact ih hrest other hother

/-! ### What an item is read back as -/

/-- The item that arrives: a STRING or JSON value is cut to a C string on the way. -/
def restoredItem (lib : Libs) (registry : Registry) (item : NTLVItem) : Option NTLVItem :=
  if ntlvTypeUsesJsonValue registry item.uuidType then
    (lib.jsonValue (cString item.pData)).map fun value =>
      { item with pData := (lib.jsonText .plain value).terminated }
  else if isString registry item.uuidType then
    some { item with pData := (wireText lib registry item).terminated }
  else if item.pData = [] then none
  else some item

theorem littleEndian_pair (a b : UInt8) : littleEndian [a, b] = a.toNat + 256 * b.toNat := by
  simp [littleEndian]

theorem Scalar.scan_format {scalar : Scalar} {data : Bytes} (h : data.length = scalar.size) :
    scalar.scan lib (scalar.format lib data) = some data := by
  cases scalar with
  | port =>
    obtain ⟨a, b, rfl⟩ := List.length_eq_two.mp h
    have ha := a.toNat_lt
    have hb := b.toNat_lt
    have hlow : (a.toNat + 256 * b.toNat) % 256 = a.toNat := by omega
    have hhigh : (a.toNat + 256 * b.toNat) / 256 = b.toNat := by omega
    have hread : sscanfUnsigned 16 (decimal (a.toNat + 256 * b.toNat)) = some (a.toNat + 256 * b.toNat) :=
      sscanfUnsigned_decimal (by omega) (by decide)
    simp only [scan, format, decimalText, littleEndian_pair, hread, map_some, hlow, hhigh, UInt8.ofNat_toNat]
  | ipProto =>
    obtain ⟨a, rfl⟩ := List.length_eq_one_iff.mp h
    have hread : sscanfUnsigned 8 (decimal a.toNat) = some a.toNat := sscanfUnsigned_decimal a.toNat_lt (by decide)
    simp [scan, format, decimalText, littleEndian, hread]
  | ipv4 => exact lib.inetPton_ntop .inet data h
  | ipv6 => exact lib.inetPton_ntop .inet6 data h

theorem terminated_ne_nil (text : CString) : text.terminated ≠ [] := by
  simp [CString.terminated]

variable {value : Json}

theorem nonNull_of_container (h : value.isContainer) : nonNull value = some value := by
  cases value <;> simp_all [Json.isContainer, nonNull]

theorem nonNull_itemValue (h : ItemValue lib registry item key value) :
    nonNull value = some value := by
  cases h with
  | binary hstring hjson hscalar hvalue =>
    simp only [byteArrayJson] at hvalue
    split at hvalue
    · simp at hvalue
    · obtain ⟨text, -, rfl⟩ := map_eq_some_iff.mp hvalue
      rfl
  | json hjson hlast hvalue => exact nonNull_of_container (jsonStringJson_eq_some hvalue).2.2
  | string => rfl
  | scalar => rfl

theorem getNTLVItem_written (h : ntlvItemFields lib registry item = some object)
    (list : List NTLVItem) :
    getNTLVItem lib registry list object = (restoredItem lib registry item).map fun i => list ++ [i] := by
  obtain ⟨key, value, hitem, rfl⟩ := ntlvItemFields_cases h
  have hkey : key ≠ "Name" ∧ key ≠ "Type" := by
    cases hitem <;> decide
  have hname : getUUID lib (add (itemHeader lib item) key value) "Name" = some item.uuidName := by
    apply getUUID_of_get
    simp [itemHeader, hkey.1]
  have htype : getUUID lib (add (itemHeader lib item) key value) "Type" = some item.uuidType := by
    apply getUUID_of_get
    simp [itemHeader, hkey.2]
  have hget : get (add (itemHeader lib item) key value) key = some value := by
    simp [nonNull_itemValue hitem]
  have hhas : ∀ other, other ≠ "Name" → other ≠ "Type" →
      has (add (itemHeader lib item) key value) other = decide (key = other) := by
    intro other hn ht
    simp [itemHeader, hn.symm, ht.symm]
  simp only [getNTLVItem, hname, htype,
    hhas "String_Value" (by decide) (by decide), hhas "Bin_Value" (by decide) (by decide),
    hhas "Json_Value" (by decide) (by decide)]
  cases hitem with
  | binary hstring hjson hscalar hvalue =>
    by_cases hdata : item.pData = [] <;>
      simp [getByteArray_of_get hvalue hget, addBinValue, ntlvTypeUsesStringValue, restoredItem, hstring, hjson,
        hscalar, ntlvListAdd, hdata]
  | json hjson hlast hvalue =>
    obtain ⟨hparsed, -, hcontainer⟩ := jsonStringJson_eq_some hvalue
    simp [getJsonString, hget, hcontainer, addJsonValue, restoredItem, hjson, hparsed, ntlvListAdd, terminated_ne_nil]
  | string hstring hjson hlast =>
    simp [getString_of_get hget, addStringValue, restoredItem, hstring, hjson, ntlvListAdd, terminated_ne_nil]
  | @scalar s hstring hjson hscalar hsize =>
    have hne : item.pData ≠ [] := by
      intro hnil
      rw [hnil] at hsize
      cases s <;> exact absurd hsize (by decide)
    simp [getString_of_get hget, addStringValue, restoredItem, hstring, hjson, hscalar, Scalar.scan_format hsize,
      ntlvListAdd, hne]

def restoredItems (lib : Libs) (registry : Registry) (items : List NTLVItem) : Option (List NTLVItem) :=
  items.mapM (restoredItem lib registry)

theorem putNTLVItems_written (h : putNTLVItems lib registry array items = some array') :
    ∃ entries, array' = array ++ entries ∧ ∀ list,
      getNTLVItems lib registry list entries = (restoredItems lib registry items).map fun is => list ++ is := by
  induction items generalizing array with
  | nil =>
    obtain rfl : array = array' := some.inj h
    exact ⟨[], (List.append_nil _).symm, fun list => by simp [getNTLVItems, restoredItems]⟩
  | cons item items ih =>
    obtain ⟨extended, hitem, hrest⟩ := bind_eq_some_iff.mp h
    obtain ⟨object, hobject, rfl⟩ := map_eq_some_iff.mp hitem
    obtain ⟨entries, rfl, hentries⟩ := ih hrest
    refine ⟨.object object :: entries, by simp, fun list => ?_⟩
    have hhead := getNTLVItem_written hobject list
    simp only [getNTLVItems, hhead, restoredItems, List.mapM_cons]
    cases hfirst : restoredItem lib registry item with
    | none => rfl
    | some first =>
      have htail := hentries (list ++ [first])
      simp only [restoredItems] at htail
      simp only [map_some, bind_eq_bind, bind_some, htail]
      cases items.mapM (restoredItem lib registry) <;> simp

theorem getNTLVList_of_get {parent : Fields} {name : String}
    (hvalue : ntlvListJson lib registry items = some value) (h : get parent name = some value) :
    getNTLVList lib registry parent name = restoredItems lib registry items := by
  obtain ⟨array, harray, rfl⟩ := map_eq_some_iff.mp hvalue
  obtain ⟨entries, rfl, hentries⟩ := putNTLVItems_written harray
  simp only [getNTLVList, h, List.nil_append, hentries, map_id']

end Written

end Razorback.JsonBuffer
