import Razorback.JsonBuffer.Texts
import Razorback.Records.Hashes

/-! The text of a block id in `block_id.c`: the UUID of the type, the length in hexadecimal and the digest. -/

namespace Razorback.Records
open Text List JsonBuffer ByteTexts Option

def hashStringLength (hash : Hash) : UInt32 := hash.iSize * 2 + 1

/-- Two pointers to one `struct Hash` are two equal values here. -/
def hashIsEqual (a b : Hash) : Bool := a.isFinal && b.isFinal && a.iSize == b.iSize && a.digest == b.digest

def blockIdIsEqual (a b : BlockId) : Bool :=
  a.uuidDataType == b.uuidDataType && (a.pHash.any fun hash => b.pHash.any (hashIsEqual hash)) && a.iLength == b.iLength

def hexNumber (n : Nat) : List UInt8 := (Nat.toDigits 16 n).map Char.toUInt8

/-- The conversion `%8.8jx`: at least eight digits. -/
def lengthText (length : UInt64) : List UInt8 := (hexNumber length.toNat).leftpad 8 '0'.toUInt8

def blockIdToText (lib : Libs) (id : BlockId) : Option (List UInt8) := do
  let hash ← hashToText (← id.pHash)
  some ((lib.uuidUnparse id.uuidDataType).bytes ++ '-'.toUInt8 :: (lengthText id.iLength ++ '-'.toUInt8 :: hash))

def uuidStringLength : UInt32 := 37

def blockIdStringLength (id : BlockId) : UInt32 := uuidStringLength + id.pHash.elim 0 hashStringLength + 9

/-! ### The length -/

def readHexNumber (digits : List UInt8) : Nat := digits.foldl (fun n c => 16 * n + (hexValue c).getD 0) 0

theorem hexNumber_digits (n : Nat) :
    (∀ c ∈ hexNumber n, (hexValue c).isSome) ∧ readHexNumber (hexNumber n) = n := by
  have hdigit : ∀ d < 16, hexValue (Nat.digitChar d).toUInt8 = some d := hexValue_hexDigit
  induction n using Nat.strong_induction_on with
  | _ n ih =>
    unfold hexNumber at ih ⊢
    rw [Nat.toDigits_eq_if (by decide)]
    split_ifs with hn
    · simp [readHexNumber, hdigit n hn]
    · obtain ⟨hrest, hread⟩ := ih (n / 16) (by omega)
      have hlast := hdigit (n % 16) (by omega)
      refine ⟨?_, ?_⟩
      · simp only [map_append, mem_append, map_cons, map_nil, mem_singleton]
        rintro c (hc | rfl)
        · exact hrest c hc
        · rw [hlast]
          rfl
      · simp only [readHexNumber] at hread
        simp only [readHexNumber, map_append, foldl_append, map_cons, map_nil, foldl_cons, foldl_nil, hlast,
          getD_some]
        omega

theorem lengthText_digits (length : UInt64) : ∀ c ∈ lengthText length, (hexValue c).isSome := by
  intro c hc
  rcases mem_append.mp hc with hzero | hdigit
  · rw [eq_of_mem_replicate hzero]
    rfl
  · exact (hexNumber_digits _).1 c hdigit

theorem readHexNumber_lengthText (length : UInt64) : readHexNumber (lengthText length) = length.toNat := by
  have hzeros : ∀ k, readHexNumber (replicate k '0'.toUInt8) = 0 := by
    intro k
    induction k with
    | zero => rfl
    | succ k ih => exact ih
  have hread := (hexNumber_digits length.toNat).2
  unfold readHexNumber at hzeros hread ⊢
  rw [lengthText, leftpad, foldl_append, hzeros, hread]

theorem length_lengthText (length : UInt64) : (lengthText length).length = 8 ↔ length.toNat < 2 ^ 32 := by
  have hdigits : (hexNumber length.toNat).length ≤ 8 ↔ length.toNat < 16 ^ 8 := by
    rw [hexNumber, length_map]
    exact Nat.length_toDigits_le_iff (by decide) (by decide)
  rw [lengthText, length_leftpad, max_eq_left_iff]
  exact hdigits

variable {lib : Libs} {a b : BlockId} {hash hash' : Hash}

theorem blockIdToText_complete (ha : a.pHash = some hash) (h : hash.Complete) : blockIdToText lib a =
    some ((lib.uuidUnparse a.uuidDataType).bytes ++ '-'.toUInt8 :: (lengthText a.iLength ++ '-'.toUInt8 :: hex hash.digest)) := by
  simp only [blockIdToText, ha, h.toText, bind_eq_bind, bind_some]

theorem Hash.Complete.length_digest (h : hash.Complete) : hash.digest.length = hash.iSize.toNat :=
  length_take_of_le h.data

theorem blockIdStringLength_complete (ha : a.pHash = some hash) (h : hash.Complete) :
    (blockIdStringLength a).toNat = 2 * hash.iSize.toNat + 47 := by
  have hsize := expectedDigestLength_le hash.iType
  rw [← h.size] at hsize
  simp [blockIdStringLength, uuidStringLength, ha, hashStringLength]
  omega

theorem blockIdIsEqual_complete (ha : a.pHash = some hash) (hb : b.pHash = some hash') (h : hash.Complete)
    (h' : hash'.Complete) : blockIdIsEqual a b ↔
      a.uuidDataType = b.uuidDataType ∧ a.iLength = b.iLength ∧ hash.digest = hash'.digest := by
  have hsize : hash.digest = hash'.digest → hash.iSize = hash'.iSize := fun e =>
    UInt32.toNat_inj.mp (by rw [← h.length_digest, ← h'.length_digest, e])
  simp only [blockIdIsEqual, hashIsEqual, ha, hb, any_some, h.final, h'.final, Bool.true_and, Bool.and_eq_true,
    beq_iff_eq]
  exact ⟨fun e => ⟨e.1.1, e.2, e.1.2.2⟩, fun e => ⟨⟨e.1, hsize e.2.2, e.2.2⟩, e.2.1⟩⟩

/-- The text of a block id is as long as `BlockId_StringLength` says exactly if its length has 32 bits; it is the same for
two block ids exactly if they are equal. -/
theorem blockId_text (hunparse : ∀ uuid, (lib.uuidUnparse uuid).bytes.length + 1 = uuidStringLength.toNat)
    (ha : a.pHash = some hash) (hb : b.pHash = some hash') (h : hash.Complete) (h' : hash'.Complete) :
    (∃ text, blockIdToText lib a = some text ∧
      ((blockIdStringLength a).toNat = text.length + 1 ↔ a.iLength.toNat < 2 ^ 32)) ∧
    (blockIdToText lib a = blockIdToText lib b ↔ blockIdIsEqual a b = true) := by
  have hdash : ∀ length, '-'.toUInt8 ∉ lengthText length := fun length hmem =>
    absurd (lengthText_digits length _ hmem) (by decide)
  refine ⟨⟨_, blockIdToText_complete ha h, ?_⟩, ?_⟩
  · have huuid : (lib.uuidUnparse a.uuidDataType).bytes.length + 1 = 37 := hunparse _
    rw [← length_lengthText, blockIdStringLength_complete ha h, length_append, length_cons, length_append, length_cons,
      length_hex, h.length_digest]
    omega
  · rw [blockIdToText_complete ha h, blockIdToText_complete hb h', blockIdIsEqual_complete ha hb h h']
    constructor
    · intro e
      obtain ⟨huuid, hrest⟩ := append_inj (some.inj e) (Nat.succ.inj ((hunparse _).trans (hunparse _).symm))
      obtain ⟨hlength, -, hhex⟩ := (append_cons_inj_of_notMem (hdash _) (notMem_hex (by decide) _)).mp (cons.inj hrest).2
      refine ⟨?_, ?_, ?_⟩
      · exact some.inj (by rw [← lib.uuidParse_unparse, CString.ext huuid, lib.uuidParse_unparse])
      · exact UInt64.toNat_inj.mp (by rw [← readHexNumber_lengthText, hlength, readHexNumber_lengthText])
      · exact some.inj (by rw [← readHex_hex, hhex, readHex_hex])
    · rintro ⟨huuid, hlength, hdigest⟩
      rw [huuid, hlength, hdigest]

def md5Id (length : UInt64) : BlockId := ⟨some ⟨hashTypeMD5, 16, replicate 16 0, hashFlagFinal⟩, 0, length⟩

theorem md5_complete : Hash.Complete ⟨hashTypeMD5, 16, replicate 16 0, hashFlagFinal⟩ :=
  ⟨by decide, by decide, by decide, by decide⟩

theorem length_uuidUnparse (uuid : Uuid) : (textLibs.uuidUnparse uuid).bytes.length + 1 = uuidStringLength.toNat := by
  simp [textLibs, hexGroups, joined, uuidGroups, length_hex, length_bigEndian, uuidStringLength]

theorem blockId_text_md5 :
    (∃ text, blockIdToText textLibs (md5Id 7) = some text ∧
      ((blockIdStringLength (md5Id 7)).toNat = text.length + 1 ↔ (7 : UInt64).toNat < 2 ^ 32)) ∧
    (blockIdToText textLibs (md5Id 7) = blockIdToText textLibs (md5Id 7) ↔ blockIdIsEqual (md5Id 7) (md5Id 7) = true) :=
  blockId_text length_uuidUnparse rfl rfl md5_complete md5_complete

/-- The text of a block of 4 GiB has a digit more. -/
theorem blockId_text_longer : (blockIdStringLength (md5Id (2 ^ 32))).toNat = 79 ∧
    (blockIdToText textLibs (md5Id (2 ^ 32))).map length = some 79 := by
  decide

end Razorback.Records
