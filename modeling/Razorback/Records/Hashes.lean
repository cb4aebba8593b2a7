import Razorback.Records.Defs
import Razorback.Base.Text

/-! The text of a digest in `hash.c`. -/

namespace Razorback.Records
open Text

def hashTypeMD5 : UInt32 := 1
def hashTypeSHA1 : UInt32 := 2
def hashTypeSHA224 : UInt32 := 3
def hashTypeSHA256 : UInt32 := 4
def hashTypeSHA512 : UInt32 := 5

def hashFlagFinal : UInt32 := 1

def Hash.isFinal (hash : Hash) : Bool := hash.iFlags &&& hashFlagFinal != 0

def Hash.digest (hash : Hash) : Bytes := hash.pData.take hash.iSize.toNat

/-- `Hash_Get_ExpectedDigestLength`: zero for a type it does not know. -/
def hashExpectedDigestLength (type : UInt32) : UInt32 :=
  if type = hashTypeMD5 then 16
  else if type = hashTypeSHA1 then 20
  else if type = hashTypeSHA224 then 28
  else if type = hashTypeSHA256 then 32
  else if type = hashTypeSHA512 then 64
  else 0

/-- `Hash_ToText`. A size beyond the data, or one whose text overflows the buffer, has no result. -/
def hashToText (hash : Hash) : Option (List UInt8) :=
  if ¬ hash.isFinal then none
  else if hash.pData.length < hash.iSize.toNat ∨ 2 ^ 32 ≤ 2 * hash.iSize.toNat + 1 then none
  else some (hex hash.digest)

def hashCreateFromString (type : UInt32) (text : CString) : Option Hash :=
  let expected := hashExpectedDigestLength type
  if expected = 0 then none
  else if text.bytes.length ≠ expected.toNat * 2 then none
  else if ¬ text.bytes.all (fun c => (hexValue c).isSome) then none
  else (readHex text.bytes).map fun data =>
    { iType := type, iSize := expected, pData := data, iFlags := hashFlagFinal }

/-- `Hash_Clone`: the bytes past the digest stay behind. -/
def hashClone (hash : Hash) : Option Hash :=
  if hash.isFinal then some { hash with pData := hash.digest, iFlags := hashFlagFinal } else none

/-- A finalized digest of a known type with that type's length. -/
structure Hash.Complete (hash : Hash) : Prop where
  final : hash.isFinal
  supported : hashExpectedDigestLength hash.iType ≠ 0
  size : hash.iSize = hashExpectedDigestLength hash.iType
  data : hash.iSize.toNat ≤ hash.pData.length

theorem isXDigit_hex (bs : Bytes) : (hex bs).all (fun c => (hexValue c).isSome) := by
  rw [List.all_eq_true]
  intro c hc
  obtain ⟨n, hn, rfl⟩ := hex_digits c hc
  rw [hexValue_hexDigit n hn]
  rfl

theorem hashCreateFromString_toText {hash : Hash} {text : List UInt8} (htext : hashToText hash = some text)
    (htype : hashExpectedDigestLength hash.iType ≠ 0) :
    hashCreateFromString hash.iType (cString text) =
      if hash.iSize = hashExpectedDigestLength hash.iType then
        some { hash with pData := hash.digest, iFlags := hashFlagFinal } else none := by
  simp only [hashToText] at htext
  split at htext
  · simp at htext
  split at htext
  · simp at htext
  obtain rfl : hex hash.digest = text := Option.some.inj htext
  have hbytes : (cString (hex hash.digest)).bytes = hex hash.digest :=
    congrArg CString.bytes (cString_bytes ⟨hex hash.digest, notMem_hex (by decide) _⟩)
  have hlength : (hex hash.digest).length = 2 * hash.iSize.toNat := by
    rw [length_hex, Hash.digest, List.length_take]
    omega
  simp only [hashCreateFromString, if_neg htype, hbytes, hlength, isXDigit_hex, not_true_eq_false, if_false,
    readHex_hex, Option.map_some]
  by_cases hs : hash.iSize = hashExpectedDigestLength hash.iType
  · rw [if_neg (by rw [hs]; omega), if_pos hs, ← hs]
  · have hne : ¬ hash.iSize.toNat = (hashExpectedDigestLength hash.iType).toNat := fun h => hs (UInt32.toNat_inj.mp h)
    rw [if_pos (by omega), if_neg hs]

theorem expectedDigestLength_le (type : UInt32) : (hashExpectedDigestLength type).toNat ≤ 64 := by
  unfold hashExpectedDigestLength
  split_ifs <;> decide

theorem Hash.Complete.toText {hash : Hash} (h : hash.Complete) : hashToText hash = some (hex hash.digest) := by
  have hsize := expectedDigestLength_le hash.iType
  have hdata := h.data
  rw [← h.size] at hsize
  rw [hashToText, if_neg (by simp [h.final]), if_neg (by omega)]

theorem hashCreateFromString_digits (htype : hashExpectedDigestLength type ≠ 0)
    (hlength : text.bytes.length = 2 * (hashExpectedDigestLength type).toNat)
    (hdigits : ∀ c ∈ text.bytes, (hexValue c).isSome) :
    ∃ hash, hashCreateFromString type text = some hash ∧ hash.Complete ∧ hex hash.digest = text.bytes.map toLower := by
  obtain ⟨data, hread, hdata, hhex⟩ := readHex_digits hlength hdigits
  refine ⟨⟨type, hashExpectedDigestLength type, data, hashFlagFinal⟩, ?_, ⟨by simp [Hash.isFinal, hashFlagFinal], htype, rfl, hdata.ge⟩,
    ?_⟩
  · rw [hashCreateFromString, if_neg htype, if_neg (by omega), if_neg (not_not.mpr (List.all_eq_true.mpr hdigits)), hread]
    rfl
  · rw [Hash.digest, ← hdata, List.take_length, hhex]

/-- The text of a digest is read back as the digest, and a text is read exactly if it is that of a digest up to the case
of its letters. -/
theorem hash_text (type : UInt32) (htype : hashExpectedDigestLength type ≠ 0) :
    (∀ hash : Hash, hash.Complete → hash.iType = type → ∃ text back, hashToText hash = some text ∧
      hashCreateFromString type (cString text) = some back ∧ back.isFinal ∧ back.iType = type ∧
      back.iSize = hash.iSize ∧ back.digest = hash.digest) ∧
    ∀ s : CString, ((hashCreateFromString type s).isSome ↔
        s.bytes.length = 2 * (hashExpectedDigestLength type).toNat ∧ ∀ c ∈ s.bytes, (hexValue c).isSome) ∧
      ∀ hash, hashCreateFromString type s = some hash → hashToText hash = some (s.bytes.map toLower) := by
  refine ⟨?_, fun s => ?_⟩
  · rintro hash h rfl
    have hback := hashCreateFromString_toText h.toText htype
    rw [if_pos h.size] at hback
    refine ⟨_, _, h.toText, hback, by simp [Hash.isFinal, hashFlagFinal], rfl, rfl, ?_⟩
    exact List.take_of_length_le (List.length_take_le _ _)
  · by_cases hs : s.bytes.length = 2 * (hashExpectedDigestLength type).toNat ∧ ∀ c ∈ s.bytes, (hexValue c).isSome
    · obtain ⟨hash, hcreate, hcomplete, hhex⟩ := hashCreateFromString_digits htype hs.1 hs.2
      rw [hcreate]
      refine ⟨iff_of_true rfl hs, ?_⟩
      rintro _ ⟨⟩
      rw [hcomplete.toText, hhex]
    · have hnone : hashCreateFromString type s = none := by
        rw [hashCreateFromString, if_neg htype]
        split_ifs with hlength hdigits
        · rfl
        · exact absurd ⟨by omega, List.all_eq_true.mp hdigits⟩ hs
        · rfl
      rw [hnone]
      exact ⟨iff_of_false (by decide) hs, fun _ h => by cases h⟩

/-- An MD5 digest in upper case. -/
theorem hash_text_md5 :
    let s := cString (List.replicate 32 'A'.toUInt8)
    (hashCreateFromString hashTypeMD5 s).isSome ∧ ∀ hash, hashCreateFromString hashTypeMD5 s = some hash →
      hashToText hash = some (List.replicate 32 'a'.toUInt8) :=
  have h := (hash_text hashTypeMD5 (by decide)).2 (cString (List.replicate 32 'A'.toUInt8))
  ⟨h.1.mpr ⟨rfl, List.all_eq_true.mp rfl⟩, h.2⟩

end Razorback.Records
