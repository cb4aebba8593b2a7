import Razorback.Base.Partial
import Razorback.JsonBuffer.Libs

/-! The single values of `json_buffer.c`: numbers, strings, bytes, UUIDs and JSON texts under a name. -/

namespace Razorback.JsonBuffer
open Records Text Option
open Json (Fields Shape FieldsShape add get getObject has nonNull)

def intMax : Nat := 2 ^ 31 - 1

def parseUnsignedText (text : List UInt8) (maxValue : Nat) : Option Nat :=
  if text = [] then none
  else if text.head? = some '-'.toUInt8 then none
  else match strtoumax text with
    | some (parsed, []) => if parsed > maxValue then none else some parsed
    | _ => none

/-! ### Numbers -/

def uintJson (value : UInt64) : Json := .int value.toNat

def putUint64 (parent : Fields) (name : String) (value : UInt64) : Fields := add parent name (uintJson value)

def putUint8 (parent : Fields) (name : String) (value : UInt8) : Fields :=
  putUint64 parent name value.toUInt64

def putUint32 (parent : Fields) (name : String) (value : UInt32) : Fields :=
  putUint64 parent name value.toUInt64

def getUint64 (parent : Fields) (name : String) : Option UInt64 :=
  match get parent name with
  | some (.string text) => (parseUnsignedText (cString text).bytes (2 ^ 64 - 1)).map UInt64.ofNat
  | some (.int value) => (parseUnsignedText (intText value) (2 ^ 64 - 1)).map UInt64.ofNat
  | _ => none

def getUint8 (parent : Fields) (name : String) : Option UInt8 :=
  match get parent name with
  | some (.int value) => (parseUnsignedText (intText value) (2 ^ 8 - 1)).map UInt8.ofNat
  | _ => none

def getUint16 (parent : Fields) (name : String) : Option UInt16 :=
  match get parent name with
  | some (.int value) => (parseUnsignedText (intText value) (2 ^ 16 - 1)).map UInt16.ofNat
  | _ => none

def getUint32 (parent : Fields) (name : String) : Option UInt32 :=
  match getUint64 parent name with
  | some value => if value.toNat > 2 ^ 32 - 1 then none else some value.toUInt32
  | none => none

/-! ### Texts and bytes -/

def stringJson (text : CString) : Json := .string text.bytes

def putString (parent : Fields) (name : String) (text : CString) : Fields := add parent name (stringJson text)

def getString (parent : Fields) (name : String) : Option CString :=
  match get parent name with
  | some (.string text) => some (cString text)
  | _ => none

def addOptional (parent : Fields) (name : String) (value : Option Json) : Fields :=
  match value with
  | none => parent
  | some value => add parent name value

def putOptionalString (parent : Fields) (name : String) (text : Option CString) : Fields :=
  addOptional parent name (text.map stringJson)

def getOptionalString (parent : Fields) (name : String) : Option (Option CString) :=
  match get parent name with
  | none => some none
  | some _ => (getString parent name).map some

/-- The encoding of `JsonBuffer_Put_ByteArray`: `BIO_write` takes no size beyond an `int`. -/
def byteArrayJson (lib : Libs) (data : Bytes) : Option Json :=
  if intMax < data.length then none else (lib.base64Encode data).map stringJson

def putByteArray (lib : Libs) (parent : Fields) (name : String) (data : Bytes) : Option Fields :=
  (byteArrayJson lib data).map (add parent name)

def getByteArray (lib : Libs) (parent : Fields) (name : String) : Option Bytes :=
  match get parent name with
  | some (.string text) => lib.base64Decode (cString text)
  | _ => none

def jsonStringJson (lib : Libs) (text : CString) : Option Json :=
  if intMax < text.bytes.length then none
  else match lib.tokenerParse text with
    | none => none
    | some parsed => if parsed.isContainer then some parsed else none

def putJsonString (lib : Libs) (parent : Fields) (name : String) (text : CString) : Option Fields :=
  (jsonStringJson lib text).map (add parent name)

def getJsonString (lib : Libs) (parent : Fields) (name : String) : Option CString :=
  match get parent name with
  | some value => if value.isContainer then some (lib.jsonText .plain value) else none
  | none => none

/-! ### UUIDs -/

def uuidJson (lib : Libs) (uuid : Uuid) : Json := .object (putString [] "id" (lib.uuidUnparse uuid))

def putUUID (lib : Libs) (parent : Fields) (name : String) (uuid : Uuid) : Fields :=
  add parent name (uuidJson lib uuid)

def getUUID (lib : Libs) (parent : Fields) (name : String) : Option Uuid :=
  match getObject parent name with
  | some members => (getString members "id").bind lib.uuidParse
  | none => none

/-! ### Optional fields -/

def getOptional {α : Type} (read : Fields → String → Option α) (parent : Fields) (name : String) :
    Option (Option α) :=
  match get parent name with
  | none => some none
  | some _ => (read parent name).map some

/-! ### What is read where a value was put -/

attribute [simp] putUint64 putUint8 putUint32 putString putOptionalString putUUID

@[simp] theorem nonNull_uintJson (value : UInt64) : nonNull (uintJson value) = some (uintJson value) := rfl

@[simp] theorem nonNull_stringJson (text : CString) : nonNull (stringJson text) = some (stringJson text) := rfl

@[simp] theorem nonNull_uuidJson (lib : Libs) (uuid : Uuid) : nonNull (uuidJson lib uuid) = some (uuidJson lib uuid) :=
  rfl

theorem parseUnsignedText_decimal {n max : Nat} (h : n ≤ max) (hmax : max < 2 ^ 64) :
    parseUnsignedText (intText n) max = some n := by
  have htext : intText n = decimal n := by
    simp [intText]
  obtain ⟨d, ds, hd⟩ := List.exists_cons_of_ne_nil (decimal_ne_nil n)
  have hminus : d ≠ '-'.toUInt8 :=
    (digit_not_space_or_sign (isDigit_of_mem_decimal d (hd ▸ List.mem_cons_self))).2.1
  have hhead : (decimal n).head? ≠ some '-'.toUInt8 := by
    simpa [hd] using hminus
  rw [parseUnsignedText, htext, if_neg (decimal_ne_nil n), if_neg hhead, strtoumax_decimal (h.trans_lt hmax)]
  simp only [if_neg (Nat.not_lt.mpr h)]

section Reads

variable {lib : Libs} {parent : Fields} {name : String}

theorem getUint64_of_get (h : get parent name = some (uintJson value)) :
    getUint64 parent name = some value := by
  have hvalue : value.toNat ≤ 2 ^ 64 - 1 := Nat.le_sub_one_of_lt value.toNat_lt
  simp only [getUint64, h, uintJson, parseUnsignedText_decimal hvalue (by decide), map_some,
    UInt64.ofNat_toNat]

theorem getUint8_of_get (h : get parent name = some (uintJson value.toUInt64)) :
    getUint8 parent name = some value := by
  have hvalue : value.toNat ≤ 2 ^ 8 - 1 := Nat.le_sub_one_of_lt value.toNat_lt
  simp only [getUint8, h, uintJson, UInt8.toNat_toUInt64, parseUnsignedText_decimal hvalue (by decide),
    map_some, UInt8.ofNat_toNat]

theorem getUint32_of_get (h : get parent name = some (uintJson value.toUInt64)) :
    getUint32 parent name = some value := by
  have hvalue : ¬ value.toUInt64.toNat > 2 ^ 32 - 1 := by
    exact Nat.not_lt.mpr (Nat.le_sub_one_of_lt value.toNat_lt)
  simp only [getUint32, getUint64_of_get h, if_neg hvalue, UInt32.toUInt32_toUInt64]

theorem getString_of_get (h : get parent name = some (stringJson text)) :
    getString parent name = some text := by
  simp only [getString, h, stringJson, cString_bytes]

theorem getOptionalString_of_get (h : get parent name = text.map stringJson) :
    getOptionalString parent name = some text := by
  cases text with
  | none => simp only [getOptionalString, h, map_none]
  | some text =>
    simp only [getOptionalString, h, getString_of_get h, map_some]

theorem getByteArray_of_get (hdata : byteArrayJson lib data = some value)
    (h : get parent name = some value) : getByteArray lib parent name = some data := by
  simp only [byteArrayJson] at hdata
  split at hdata
  · simp at hdata
  · obtain ⟨text, htext, rfl⟩ := map_eq_some_iff.mp hdata
    simp only [getByteArray, h, stringJson, cString_bytes, lib.base64Decode_encode data text htext]

theorem jsonStringJson_eq_some (h : jsonStringJson lib text = some value) :
    lib.jsonValue text = some value ∧ value.depth ≤ tokenerDefaultDepth ∧ value.isContainer := by
  simp only [jsonStringJson] at h
  split at h
  · simp at h
  split at h
  · simp at h
  next parsed hparsed =>
  split at h
  · next hcontainer =>
    obtain rfl : parsed = value := some.inj h
    obtain ⟨hvalue, hdepth⟩ := Libs.tokenerParse_eq_some.mp hparsed
    exact ⟨hvalue, hdepth, hcontainer⟩
  · simp at h

theorem getUUID_of_get (h : get parent name = some (uuidJson lib uuid)) :
    getUUID lib parent name = some uuid := by
  have hmembers : getObject parent name = some (putString [] "id" (lib.uuidUnparse uuid)) :=
    Json.getObject_of_get h
  have hid : getString (putString [] "id" (lib.uuidUnparse uuid)) "id" = some (lib.uuidUnparse uuid) := by
    apply getString_of_get
    simp
  simp only [getUUID, hmembers, hid, bind_some, lib.uuidParse_unparse]

variable {value : Option Json}

@[simp] theorem get_addOptional : get (addOptional parent name value) other =
      if name = other then (value.elim (get parent other) nonNull) else get parent other := by
  cases value <;> simp [addOptional]

theorem elim_nonNull {α : Type} {encode : α → Option Json} {field : Option α}
    (hencode : ∀ a v, encode a = some v → nonNull v = some v) (h : field.mapM encode = some value) :
    value.elim none nonNull = value := by
  rcases Partial.mapM_eq_some h with ⟨-, rfl⟩ | ⟨a, v, -, hv, rfl⟩
  · rfl
  · exact hencode a v hv

theorem getOptional_of_get {α β : Type} {encode : α → Option Json} {read : Fields → String → Option β}
    {restored : α → Option β} {field : Option α}
    (hread : ∀ a ∈ field, ∀ v, encode a = some v → get parent name = some v → read parent name = restored a)
    (hvalue : field.mapM encode = some value) (h : get parent name = value) :
    getOptional read parent name = field.mapM restored := by
  rcases Partial.mapM_eq_some hvalue with ⟨rfl, rfl⟩ | ⟨a, v, rfl, hv, rfl⟩
  · simp [getOptional, h]
  · simp [getOptional, h, hread a rfl v hv h]

end Reads

/-! ### How deep the values are nested -/

theorem uintJson_shape (value : UInt64) : Shape (uintJson value) 0 := by
  have h := value.toNat_lt
  exact ⟨by simp only [uintJson, Json.WellFormed]; omega, rfl⟩

theorem stringJson_shape (text : CString) : Shape (stringJson text) 0 := ⟨trivial, rfl⟩

theorem uuidJson_shape (lib : Libs) (uuid : Uuid) : Shape (uuidJson lib uuid) 1 :=
  (FieldsShape.nil.add ⟨by simp, by decide⟩ (stringJson_shape (lib.uuidUnparse uuid))).object

@[simp] theorem mem_keys_addOptional : other ∈ Json.keys (addOptional fields name value) ↔
      (other = name ∧ value.isSome) ∨ other ∈ Json.keys fields := by
  cases value <;> simp [addOptional]

end Razorback.JsonBuffer
