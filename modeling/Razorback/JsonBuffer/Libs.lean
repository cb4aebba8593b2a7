import Razorback.Base.Json
import Razorback.Base.Text
import Razorback.Records.Defs

/-! What the codecs take from json-c, libuuid, OpenSSL and the C library. -/

namespace Razorback.JsonBuffer
open Records Text

inductive Family
  | inet | inet6
  deriving DecidableEq, Repr

def Family.size : Family → Nat
  | .inet => 4
  | .inet6 => 16

/-- The flags of `json_object_to_json_string_ext`. -/
inductive Style
  | plain | spaced
  deriving DecidableEq, Repr

/-- Conversions to text whose readings back are their inverses. A JSON text stands for one value whatever
its depth; the limits on depth are those of `json_tokener`. -/
structure Libs where
  uuidUnparse : Uuid → CString
  uuidParse : CString → Option Uuid
  inetNtop : Family → Bytes → CString
  inetPton : Family → CString → Option Bytes
  /-- `BIO_write` and `BIO_flush` through the base64 filter into memory, which may run full. -/
  base64Encode : Bytes → Option CString
  base64Decode : CString → Option Bytes
  jsonValue : CString → Option Json
  jsonText : Style → Json → CString
  uuidParse_unparse : ∀ uuid, uuidParse (uuidUnparse uuid) = some uuid
  inetPton_ntop : ∀ family data, data.length = family.size → inetPton family (inetNtop family data) = some data
  inetPton_size : ∀ family text data, inetPton family text = some data → data.length = family.size
  base64Decode_encode : ∀ data text, base64Encode data = some text → base64Decode text = some data
  jsonValue_text : ∀ style value, value.WellFormed → jsonValue (jsonText style value) = some value
  wellFormed_jsonValue : ∀ text value, jsonValue text = some value → value.WellFormed
  /-- The text of an array or object has its bracket, an address has none. -/
  bracket_of_container : ∀ text value, jsonValue text = some value → value.isContainer →
    '['.toUInt8 ∈ text.bytes ∨ '\x7b'.toUInt8 ∈ text.bytes
  no_bracket_inetNtop : ∀ family data,
    '['.toUInt8 ∉ (inetNtop family data).bytes ∧ '\x7b'.toUInt8 ∉ (inetNtop family data).bytes

def tokenerDefaultDepth : Nat := 32

/-- `json_tokener_parse`, and `json_tokener_parse_ex` where only white space follows the value. -/
def Libs.tokenerParse (lib : Libs) (text : CString) : Option Json :=
  (lib.jsonValue text).filter fun value => value.depth ≤ tokenerDefaultDepth

theorem Libs.tokenerParse_eq_some {lib : Libs} {text : CString} {value : Json} :
    lib.tokenerParse text = some value ↔ lib.jsonValue text = some value ∧ value.depth ≤ tokenerDefaultDepth := by
  simp [tokenerParse]

theorem Libs.tokenerParse_text (lib : Libs) (style : Style) (h : value.WellFormed) :
    lib.tokenerParse (lib.jsonText style value) =
      if value.depth ≤ tokenerDefaultDepth then some value else none := by
  rw [tokenerParse, lib.jsonValue_text style value h]
  simp [Option.filter]

end Razorback.JsonBuffer
