import Razorback.JsonBuffer.Restored
import Razorback.JsonBuffer.Texts

/-! Metadata that was written arrives unchanged, except for bytes behind a NUL. -/

namespace Razorback.JsonBuffer
open Records Text Uuids
open Json (Fields add get)

def Denotes (lib : Libs) (data : Bytes) (value : Json) : Prop :=
  ∃ text : CString, data = text.terminated ∧ lib.jsonValue text = some value

/-- Equal items, or JSON items with texts of one value. -/
def SameItem (lib : Libs) (registry : Registry) (a b : NTLVItem) : Prop :=
  a.uuidName = b.uuidName ∧ a.uuidType = b.uuidType ∧
    (a.pData = b.pData ∨ (ntlvTypeUsesJsonValue registry a.uuidType = true ∧
      ∃ value, Denotes lib a.pData value ∧ Denotes lib b.pData value))

/-- The UUID is registered as STRING but not also as a type that replaces the text. -/
def PlainString (registry : Registry) (type : Uuid) : Prop :=
  isString registry type = true → ntlvTypeUsesJsonValue registry type = false → scalarOf registry type = none

def NoInteriorNul (registry : Registry) (item : NTLVItem) : Prop :=
  isString registry item.uuidType = true ∨ ntlvTypeUsesJsonValue registry item.uuidType = true →
    0 ∉ item.pData.dropLast

section Items

variable {lib : Libs} {registry : Registry} {item : NTLVItem}

theorem json_survives_iff (hjson : ntlvTypeUsesJsonValue registry item.uuidType)
    (hlast : item.pData.getLast? = some 0) (hvalue : jsonStringJson lib (cString item.pData) = some value) :
    (∃ restored, restoredItem lib registry item = some restored ∧ SameItem lib registry item restored) ↔
      0 ∉ item.pData.dropLast := by
  have hparsed := (jsonStringJson_eq_some hvalue).1
  have hrestored : restoredItem lib registry item =
      some { item with pData := (lib.jsonText .plain value).terminated } := by
    simp [restoredItem, hjson, hparsed]
  have hprinted : lib.jsonValue (lib.jsonText .plain value) = some value :=
    lib.jsonValue_text .plain value (lib.wellFormed_jsonValue _ _ hparsed)
  rw [hrestored, ← terminated_cString hlast]
  constructor
  · rintro ⟨_, hsome, -, -, hsame⟩
    obtain rfl := Option.some.inj hsome
    -- either way the bytes that were sent are a C string and its terminator
    rcases hsame with hdata | ⟨-, _, ⟨text, hdata, -⟩, -⟩
    · rw [hdata, cString_terminated]
    · rw [hdata, cString_terminated]
  · intro hdata
    exact ⟨_, rfl, rfl, rfl, .inr ⟨hjson, value, ⟨cString item.pData, hdata.symm, hparsed⟩,
      ⟨lib.jsonText .plain value, rfl, hprinted⟩⟩⟩

theorem sameItem_iff_of_not_json (hjson : ntlvTypeUsesJsonValue registry item.uuidType = false) :
    SameItem lib registry item restored ↔ item = restored := by
  obtain ⟨name, type, data⟩ := item
  obtain ⟨name', type', data'⟩ := restored
  simp [SameItem, hjson]

theorem item_survives_iff (hne : item.pData ≠ []) (hplain : PlainString registry item.uuidType)
    (h : ntlvItemFields lib registry item = some object) :
    (∃ restored, restoredItem lib registry item = some restored ∧ SameItem lib registry item restored) ↔
      NoInteriorNul registry item := by
  obtain ⟨key, value, hvalue, -⟩ := ntlvItemFields_cases h
  cases hvalue with
  | binary hstring hjson hscalar hvalue =>
    have hrestored : restoredItem lib registry item = some item := by simp [restoredItem, hjson, hstring, hne]
    simp [hrestored, sameItem_iff_of_not_json hjson, NoInteriorNul, hstring, hjson]
  | json hjson hlast hvalue =>
    rw [json_survives_iff hjson hlast hvalue]
    simp [NoInteriorNul, hjson]
  | string hstring hjson hlast =>
    have hrestored : restoredItem lib registry item = some { item with pData := (cString item.pData).terminated } := by
      simp [restoredItem, hjson, hstring, wireText, hplain hstring hjson]
    have hsame : item = { item with pData := (cString item.pData).terminated } ↔
        (cString item.pData).terminated = item.pData := by
      obtain ⟨name, type, data⟩ := item
      simp [eq_comm]
    simp only [hrestored, Option.some.injEq, exists_eq_left', sameItem_iff_of_not_json hjson, hsame,
      terminated_cString hlast, NoInteriorNul, hstring, true_or, forall_const]
  | scalar hstring hjson hscalar hsize =>
    have hrestored : restoredItem lib registry item = some item := by simp [restoredItem, hjson, hstring, hne]
    simp [hrestored, sameItem_iff_of_not_json hjson, NoInteriorNul, hstring, hjson]

end Items

/-- A list that was written is read back item by item exactly if no STRING or JSON value has a NUL inside. -/
theorem metadata_survives_iff (lib : Libs) (registry : Registry) (parent fields : Fields) (name : String)
    (items : List NTLVItem) (hne : ∀ item ∈ items, item.pData ≠ [])
    (hplain : ∀ item ∈ items, PlainString registry item.uuidType)
    (hput : putNTLVList lib registry parent name (some items) = some fields) :
    (∃ items', getNTLVList lib registry fields name = some items' ∧ List.Forall₂ (SameItem lib registry) items items') ↔
      ∀ item ∈ items, NoInteriorNul registry item := by
  obtain ⟨value, hvalue, rfl⟩ := Option.map_eq_some_iff.mp hput
  obtain ⟨array, harray, -⟩ := Option.map_eq_some_iff.mp hvalue
  have hget : get (add parent name value) name = some value := by
    simp [nonNull_ntlvListJson hvalue]
  have hwritten := ntlvItemFields_of_putNTLVItems harray
  rw [getNTLVList_of_get hvalue hget, restoredItems, Partial.exists_forall₂_mapM_iff]
  apply forall₂_congr
  intro item hitem
  obtain ⟨object, hobject⟩ := hwritten item hitem
  exact item_survives_iff (hne item hitem) (hplain item hitem) hobject

theorem metadata_survives_string_and_binary :
    ∃ fields, putNTLVList textLibs stringRegistry [] "Metadata" (some [⟨7, 1, [65, 66, 0]⟩, ⟨8, 2, [0, 255, 0]⟩]) =
        some fields ∧
      ∃ items', getNTLVList textLibs stringRegistry fields "Metadata" = some items' ∧
        List.Forall₂ (SameItem textLibs stringRegistry) [⟨7, 1, [65, 66, 0]⟩, ⟨8, 2, [0, 255, 0]⟩] items' := by
  obtain ⟨fields, hput⟩ := Option.isSome_iff_exists.mp
    (show (putNTLVList textLibs stringRegistry [] "Metadata"
      (some [⟨7, 1, [65, 66, 0]⟩, ⟨8, 2, [0, 255, 0]⟩])).isSome = true from by decide)
  refine ⟨fields, hput, ?_⟩
  rw [metadata_survives_iff textLibs stringRegistry [] fields "Metadata" _ (by decide) ?_ hput]
  · unfold NoInteriorNul
    decide
  · unfold PlainString
    decide

def aliasRegistry : Registry
  | .ntlvType => [⟨1, "STRING", none⟩, ⟨1, "PORT", none⟩]
  | _ => []

/-- The bytes behind the first NUL of a string are lost, and a string whose UUID is also that of ports arrives as
the digits of a number. -/
theorem metadata_changed :
    (∃ fields, putNTLVList textLibs stringRegistry [] "Metadata" (some [⟨7, 1, [65, 0, 66, 0]⟩]) = some fields ∧
      getNTLVList textLibs stringRegistry fields "Metadata" = some [⟨7, 1, [65, 0]⟩]) ∧
    (∃ fields, putNTLVList textLibs aliasRegistry [] "Metadata" (some [⟨7, 1, [65, 0]⟩]) = some fields ∧
      getNTLVList textLibs aliasRegistry fields "Metadata" = some [⟨7, 1, [54, 53, 0]⟩]) :=
  ⟨⟨_, rfl, by decide⟩, ⟨_, rfl, by decide⟩⟩

end Razorback.JsonBuffer
