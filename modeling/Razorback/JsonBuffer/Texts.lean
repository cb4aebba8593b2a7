import Razorback.Base.ByteTexts
import Razorback.Base.JsonText
import Razorback.JsonBuffer.Libs
import Razorback.Uuids.Defs

/-! Texts that satisfy what the codecs assume of the libraries. -/

namespace Razorback.JsonBuffer
open Records Text Uuids ByteTexts

def uuidGroups : List Nat := [4, 2, 2, 2, 6]

def inet6Groups : List Nat := List.replicate 8 2

/-- UUIDs and IPv6 addresses have all their digits, nothing is left out. -/
def textLibs : Libs where
  uuidUnparse uuid := ⟨hexGroups 45 uuidGroups (bigEndian 16 uuid.toNat), notMem_hexGroups (by decide) (by decide) _ _⟩
  uuidParse text := (readHexGroups 45 uuidGroups text.bytes).map fun bs => BitVec.ofNat 128 (readBigEndian bs)
  inetNtop
    | .inet, data => ⟨dotted data, notMem_dotted (by decide) (by decide) _⟩
    | .inet6, data => ⟨hexGroups 58 inet6Groups data, notMem_hexGroups (by decide) (by decide) _ _⟩
  inetPton
    | .inet, text => readDotted 4 text.bytes
    | .inet6, text => readHexGroups 58 inet6Groups text.bytes
  base64Encode data := some ⟨encode64 data, noNul_encode64 data⟩
  base64Decode text := decode64 text.bytes
  jsonValue text := JsonText.read text.bytes
  jsonText style value := ⟨JsonText.print (style = .spaced) value, JsonText.noNul_print _ value⟩
  uuidParse_unparse uuid := by
    have hgroups : readHexGroups 45 uuidGroups (hexGroups 45 uuidGroups (bigEndian 16 uuid.toNat)) =
        some (bigEndian 16 uuid.toNat) :=
      readHexGroups_hexGroups (by decide) (by decide) (length_bigEndian _ _)
    have hlt : uuid.toNat < 256 ^ 16 := uuid.isLt
    simp only [hgroups, Option.map_some, readBigEndian_bigEndian hlt, BitVec.ofNat_toNat, BitVec.setWidth_eq]
  inetPton_ntop family data hsize := by
    cases family with
    | inet => exact readDotted_dotted hsize (by decide)
    | inet6 => exact readHexGroups_hexGroups (by decide) (by decide) hsize
  inetPton_size family text data hdata := by
    cases family with
    | inet => exact length_readDotted hdata
    | inet6 => exact length_readHexGroups hdata
  base64Decode_encode data text htext := by
    obtain rfl := Option.some.inj htext
    exact decode64_encode64 data
  jsonValue_text style value hvalue := JsonText.read_print _ hvalue
  wellFormed_jsonValue text value hvalue := by
    obtain ⟨fuel, rest, hread⟩ := JsonText.readValue_of_read hvalue
    exact (JsonText.wellFormed_of_readValue fuel).1 _ value rest hread
  bracket_of_container text value hvalue hcontainer := by
    obtain ⟨fuel, rest, hread⟩ := JsonText.readValue_of_read hvalue
    exact JsonText.bracket_of_readValue hread hcontainer
  no_bracket_inetNtop family data := by
    cases family with
    | inet => exact ⟨notMem_dotted (by decide) (by decide) _, notMem_dotted (by decide) (by decide) _⟩
    | inet6 =>
      exact ⟨notMem_hexGroups (by decide) (by decide) _ _, notMem_hexGroups (by decide) (by decide) _ _⟩

def stringRegistry : Registry
  | .ntlvType => [⟨1, "STRING", none⟩]
  | _ => []

end Razorback.JsonBuffer
