import Razorback.Base.Numerals
import Razorback.Messages.Defs
import Razorback.JsonBuffer.Texts

/-! The integers that are read. A JSON integer is read as it is; a text goes through `strtoumax` or `sscanf`, which take
more than numbers, and an entry of a list of bytes through a cast. -/

namespace Razorback.JsonBuffer
open Records Text Uuids List Option UInt8
open Json (Fields get has)
open Messages (getUint8List uint8OfJson)

section Parse

variable {text : List UInt8} {maxValue v : ℕ}

theorem parseUnsignedText_eq_some (h : parseUnsignedText text maxValue = some v) :
    v ≤ maxValue ∧ ∃ negative n, scanUnsigned text = some (negative, n, []) ∧
      v = if negative then (2 ^ 64 - n) % 2 ^ 64 else n := by
  rw [parseUnsignedText] at h
  split_ifs at h
  split at h
  · next parsed hparsed =>
    split_ifs at h with hmax
    obtain rfl := some.inj h
    refine ⟨Nat.le_of_not_lt hmax, ?_⟩
    rw [strtoumax] at hparsed
    split at hparsed
    · cases hparsed
    · next negative n rest hscan =>
      by_cases hn : n < 2 ^ 64
      · rw [if_pos hn] at hparsed
        obtain ⟨hvalue, rfl⟩ := Prod.mk.inj (some.inj hparsed)
        exact ⟨negative, n, hscan, hvalue.symm⟩
      · rw [if_neg hn] at hparsed
        cases hparsed
  · cases h

theorem parseUnsignedText_numeral (h : parseUnsignedText text maxValue = some v) :
    Numeral text v ↔ ¬Negative text := by
  obtain ⟨-, negative, n, hscan, rfl⟩ := parseUnsignedText_eq_some h
  refine ⟨Numeral.not_negative, fun hnot => ?_⟩
  obtain rfl : negative = false :=
    Bool.eq_false_of_not_eq_true fun hneg => hnot ((scanUnsigned_eq_some.mp hscan).2.1.mp hneg)
  exact numeral_of_scan hscan fun _ hc => nomatch hc

theorem parseUnsignedText_intText (h : parseUnsignedText (intText k) maxValue = some v) : k = v := by
  by_cases hk : k < 0
  · rw [intText, if_pos hk] at h
    cases h
  · rw [intText, if_neg hk] at h
    obtain ⟨-, negative, n, hscan, rfl⟩ := parseUnsignedText_eq_some h
    rw [scanUnsigned_decimal] at hscan
    obtain ⟨rfl, hn, -⟩ : false = negative ∧ k.natAbs = n ∧ ([] : List UInt8) = [] := by simpa using hscan
    rw [if_neg Bool.false_ne_true]
    omega

theorem map_parseUnsignedText_intText {β : Type} {ofNat : ℕ → β} {k : ℤ} {value : β}
    (h : (parseUnsignedText (intText k) maxValue).map ofNat = some value) :
    ∃ v, v ≤ maxValue ∧ k = v ∧ ofNat v = value := by
  obtain ⟨v, hv, hvalue⟩ := map_eq_some_iff.mp h
  exact ⟨v, (parseUnsignedText_eq_some hv).1, parseUnsignedText_intText hv, hvalue⟩

/-- A JSON string that is accepted is the number unless it has a minus sign after white space, or a NUL that ends it. -/
theorem parseUnsignedText_cString (h : parseUnsignedText (cString raw).bytes maxValue = some v) :
    Numeral raw v ↔ ¬Negative raw ∧ 0 ∉ raw := by
  constructor
  · exact fun hnumeral => ⟨hnumeral.not_negative, hnumeral.noNul⟩
  · rintro ⟨hnot, hnul⟩
    rw [cString_bytes_of_noNul hnul] at h
    exact (parseUnsignedText_numeral h).mpr hnot

end Parse

section Getters

variable {parent : Fields} {name : String}

theorem getUint8_eq_some (h : getUint8 parent name = some value) :
    get parent name = some (.int value.toNat) := by
  rw [getUint8] at h
  split at h
  · next k hk =>
    obtain ⟨v, hmax, rfl, rfl⟩ := map_parseUnsignedText_intText h
    rw [hk, toNat_ofNat_of_lt' (Nat.lt_of_le_pred (by decide) hmax)]
  · cases h

theorem getUint16_eq_some (h : getUint16 parent name = some value) :
    get parent name = some (.int value.toNat) := by
  rw [getUint16] at h
  split at h
  · next k hk =>
    obtain ⟨v, hmax, rfl, rfl⟩ := map_parseUnsignedText_intText h
    rw [hk, UInt16.toNat_ofNat_of_lt' (Nat.lt_of_le_pred (by decide) hmax)]
  · cases h

/-- The value is a JSON integer, or the string with it is a number but for a minus sign or a NUL. -/
def ReadAs (parent : Fields) (name : String) (v : ℕ) : Prop :=
  get parent name = some (.int v) ∨ ∃ raw, get parent name = some (.string raw) ∧
    (Numeral raw v ↔ ¬Negative raw ∧ 0 ∉ raw)

theorem getUint64_readAs (h : getUint64 parent name = some value) :
    ReadAs parent name value.toNat := by
  have hvalue : ∀ v, v ≤ 2 ^ 64 - 1 → (UInt64.ofNat v).toNat = v := fun v hv =>
    UInt64.toNat_ofNat_of_lt' (Nat.lt_of_le_pred (by decide) hv)
  rw [getUint64] at h
  split at h
  · next raw hraw =>
    obtain ⟨v, hv, rfl⟩ := map_eq_some_iff.mp h
    rw [hvalue v (parseUnsignedText_eq_some hv).1]
    exact .inr ⟨raw, hraw, parseUnsignedText_cString hv⟩
  · next k hk =>
    obtain ⟨v, hmax, rfl, rfl⟩ := map_parseUnsignedText_intText h
    rw [hvalue v hmax]
    exact .inl hk
  · cases h

theorem getUint32_readAs (h : getUint32 parent name = some value) :
    ReadAs parent name value.toNat := by
  rw [getUint32] at h
  split at h
  · next wide hwide =>
    split_ifs at h with hmax
    obtain rfl := some.inj h
    have hnarrow : wide.toUInt32.toNat = wide.toNat := by
      exact Nat.mod_eq_of_lt (Nat.lt_of_le_pred (by decide) (Nat.le_of_not_lt hmax))
    rw [hnarrow]
    exact getUint64_readAs hwide
  · cases h

/-! ### Lists of bytes -/

theorem uint8OfJson_exact (h : uint8OfJson entry = some byte) :
    entry = .int byte.toNat ↔ ∃ k : ℕ, k < 256 ∧ entry = .int k := by
  constructor
  · exact fun hentry => ⟨byte.toNat, byte.toNat_lt, hentry⟩
  · rintro ⟨k, hk, rfl⟩
    have hrange : max (-2 ^ 31) (min (k : ℤ) (2 ^ 31 - 1)) % 256 = (k : ℤ) := by omega
    rw [uint8OfJson, hrange, Int.toNat_natCast] at h
    rw [← some.inj h, toNat_ofNat_of_lt' hk]

theorem mapM_uint8OfJson_exact {entries : List Json} {list : List UInt8} (h : entries.mapM uint8OfJson = some list) :
    entries = list.map (fun byte => .int byte.toNat) ↔ ∀ entry ∈ entries, ∃ k : ℕ, k < 256 ∧ entry = .int k := by
  induction entries generalizing list with
  | nil =>
    obtain rfl : [] = list := by simpa using h
    simp
  | cons entry entries ih =>
    rw [mapM_cons] at h
    obtain ⟨byte, hbyte, hrest⟩ := bind_eq_some_iff.mp h
    obtain ⟨bytes, hbytes, hlist⟩ := bind_eq_some_iff.mp hrest
    obtain rfl : byte :: bytes = list := some.inj hlist
    rw [map_cons, cons.injEq, forall_mem_cons, uint8OfJson_exact hbyte, ih hbytes]

theorem getUint8List_exact (h : getUint8List parent name = some list) :
    ∃ entries, get parent name = some (.array entries) ∧
      (entries = list.map (fun byte => .int byte.toNat) ↔
        entries.length < 2 ^ 32 ∧ ∀ entry ∈ entries, ∃ k : ℕ, k < 256 ∧ entry = .int k) := by
  rw [getUint8List] at h
  split at h
  · next entries hentries =>
    refine ⟨entries, hentries, ?_⟩
    by_cases hlength : entries.length < 2 ^ 32
    · rw [Nat.mod_eq_of_lt hlength, take_length] at h
      rw [mapM_uint8OfJson_exact h]
      exact (and_iff_right hlength).symm
    · have hcount := (Partial.list_mapM_eq_some_iff.mp h).length_eq
      rw [length_take] at hcount
      refine iff_of_false (fun heq => ?_) fun hall => hlength hall.1
      have hsame := congrArg length heq
      rw [length_map] at hsame
      omega
  · cases h

/-! ### Ports and protocols -/

theorem littleEndian_portBytes (h : port < 2 ^ 16) :
    littleEndian [UInt8.ofNat (port % 256), UInt8.ofNat (port / 256)] = port := by
  have hlow : (ofNat (port % 256)).toNat = port % 256 := toNat_ofNat_of_lt' (Nat.mod_lt _ (by decide))
  have hhigh : (ofNat (port / 256)).toNat = port / 256 :=
    toNat_ofNat_of_lt' (Nat.div_lt_of_lt_mul h)
  rw [littleEndian, foldr_cons, foldr_cons, foldr_nil]
  omega

theorem scan_number {lib : Libs} {scalar : Scalar} {text : CString} {data : Bytes}
    (hscalar : scalar = .port ∨ scalar = .ipProto) (h : scalar.scan lib text = some data) :
    data.length = scalar.size ∧ sscanfUnsigned (8 * scalar.size) text.bytes = some (littleEndian data) := by
  rcases hscalar with rfl | rfl
  · obtain ⟨port, hport, rfl⟩ := map_eq_some_iff.mp h
    refine ⟨rfl, ?_⟩
    rw [littleEndian_portBytes (sscanfUnsigned_lt hport)]
    exact hport
  · obtain ⟨proto, hproto, rfl⟩ := map_eq_some_iff.mp h
    have hbyte : (ofNat proto).toNat = proto := toNat_ofNat_of_lt' (sscanfUnsigned_lt hproto)
    refine ⟨rfl, ?_⟩
    rw [littleEndian, foldr_cons, hbyte]
    exact hproto

theorem getNTLVItem_stringValue
    (hraw : get parent "String_Value" = some (.string raw)) (h : getNTLVItem lib registry list parent = some added) :
    ∃ name type, JsonBuffer.getUUID lib parent "Type" = some type ∧
      addStringValue lib registry list name type (cString raw) = some added := by
  obtain ⟨name, _, hrest⟩ := bind_eq_some_iff.mp h
  obtain ⟨type, htype, hvalue⟩ := bind_eq_some_iff.mp hrest
  have hhas : has parent "String_Value" := by
    obtain ⟨value, hvalue, _⟩ := bind_eq_some_iff.mp hraw
    rw [has, hvalue]
    rfl
  have hstr : getString parent "String_Value" = some (cString raw) := by rw [getString, hraw]
  refine ⟨name, type, htype, ?_⟩
  rw [hhas, hstr] at hvalue
  split at hvalue
  · exact hvalue
  · next hfalse _ _ => cases hfalse
  · next hfalse _ _ => cases hfalse
  · cases hvalue

/-- A port or a protocol that is read has the number of its text if the text is a number that fits, and only then. -/
theorem getNTLVItem_number (htype : JsonBuffer.getUUID lib parent "Type" = some type)
    (hstring : isString registry type = false) (hkind : scalarOf registry type = some scalar)
    (hscalar : scalar = .port ∨ scalar = .ipProto) (hraw : get parent "String_Value" = some (.string raw))
    (h : getNTLVItem lib registry list parent = some added) :
    ∃ name data, added = list ++ [⟨name, type, data⟩] ∧ data.length = scalar.size ∧
      (Numeral raw (littleEndian data) ↔ ∃ n, n < 2 ^ (8 * scalar.size) ∧ Numeral raw n) := by
  obtain ⟨name, type', htype', hadd⟩ := getNTLVItem_stringValue hraw h
  obtain rfl : type = type' := some.inj (htype.symm.trans htype')
  rw [addStringValue, hstring, if_neg Bool.false_ne_true] at hadd
  split_ifs at hadd
  simp only [hkind] at hadd
  obtain ⟨data, hdata, hlist⟩ := bind_eq_some_iff.mp hadd
  obtain ⟨hlength, hscan⟩ := scan_number hscalar hdata
  rw [ntlvListAdd] at hlist
  split_ifs at hlist
  refine ⟨name, data, (some.inj hlist).symm, hlength, ?_⟩
  have hbits : 8 * scalar.size ≤ 64 := by rcases hscalar with rfl | rfl <;> decide
  constructor
  · exact fun hnumeral => ⟨_, sscanfUnsigned_lt hscan, hnumeral⟩
  · rintro ⟨n, hn, hnumeral⟩
    rw [cString_bytes_of_noNul hnumeral.noNul, sscanfUnsigned_of_numeral hbits hn hnumeral] at hscan
    rw [← some.inj hscan]
    exact hnumeral

end Getters

/-- What the decoders of integers hand out is the integer on the wire: for a JSON integer always, for a string of
`JsonBuffer_Get_uint32_t` and `JsonBuffer_Get_uint64_t` exactly if it has no minus sign after white space and no NUL, for
a port or a protocol exactly if its text is a number that fits, and for a list of bytes exactly if its entries are
bytes and a count of 32 bits holds their number. -/
theorem decoded_integers_exact (parent : Fields) (name : String) :
    (∀ value, getUint8 parent name = some value → get parent name = some (.int value.toNat)) ∧
    (∀ value, getUint16 parent name = some value → get parent name = some (.int value.toNat)) ∧
    (∀ value, getUint32 parent name = some value → ReadAs parent name value.toNat) ∧
    (∀ value, getUint64 parent name = some value → ReadAs parent name value.toNat) ∧
    (∀ list, getUint8List parent name = some list → ∃ entries, get parent name = some (.array entries) ∧
      (entries = list.map (fun byte => .int byte.toNat) ↔
        entries.length < 2 ^ 32 ∧ ∀ entry ∈ entries, ∃ k : ℕ, k < 256 ∧ entry = .int k)) ∧
    ∀ lib registry list type scalar raw added, JsonBuffer.getUUID lib parent "Type" = some type →
      isString registry type = false → scalarOf registry type = some scalar → (scalar = .port ∨ scalar = .ipProto) →
      get parent "String_Value" = some (.string raw) → getNTLVItem lib registry list parent = some added →
      ∃ name data, added = list ++ [⟨name, type, data⟩] ∧ data.length = scalar.size ∧
        (Numeral raw (littleEndian data) ↔ ∃ n, n < 2 ^ (8 * scalar.size) ∧ Numeral raw n) := by
  refine ⟨fun _ => getUint8_eq_some, fun _ => getUint16_eq_some, fun _ => getUint32_readAs,
    fun _ => getUint64_readAs, fun _ => getUint8List_exact, ?_⟩
  intro lib registry list type scalar raw added htype hstring hkind hscalar hraw h
  exact getNTLVItem_number htype hstring hkind hscalar hraw h

def numberRegistry : Registry
  | .ntlvType => [⟨5, "PORT", none⟩, ⟨6, "IPPROTO", none⟩]
  | _ => []

def numberItem (type : Uuid) (text : List UInt8) : Fields :=
  putString (itemHeader textLibs ⟨1, type, []⟩) "String_Value" (cString text)

/-- The text of each string is given by its bytes: a plus sign and 7, a space and 12, 80. -/
theorem decoded_integers_exact_small :
    get [("a", .int 7)] "a" = some (.int (7 : UInt8).toNat) ∧
    get [("a", .int 300)] "a" = some (.int (300 : UInt16).toNat) ∧
    ReadAs [("a", .string [43, 55])] "a" (7 : UInt32).toNat ∧
    ReadAs [("a", .string [32, 49, 50])] "a" (12 : UInt64).toNat ∧
    (∃ entries, get [("a", .array [.int 1, .int 255])] "a" = some (.array entries) ∧
      (entries = [1, 255].map (fun byte : UInt8 => .int byte.toNat) ↔
        entries.length < 2 ^ 32 ∧ ∀ entry ∈ entries, ∃ k : ℕ, k < 256 ∧ entry = .int k)) ∧
    ∃ name data, [⟨1, 5, [80, 0]⟩] = [] ++ [(⟨name, 5, data⟩ : NTLVItem)] ∧ data.length = 2 ∧
      (Numeral [56, 48] (littleEndian data) ↔ ∃ n, n < 2 ^ 16 ∧ Numeral [56, 48] n) := by
  obtain ⟨h8, -⟩ := decoded_integers_exact [("a", .int 7)] "a"
  obtain ⟨-, h16, -⟩ := decoded_integers_exact [("a", .int 300)] "a"
  obtain ⟨-, -, h32, -⟩ := decoded_integers_exact [("a", .string [43, 55])] "a"
  obtain ⟨-, -, -, h64, -⟩ := decoded_integers_exact [("a", .string [32, 49, 50])] "a"
  obtain ⟨-, -, -, -, hlist, -⟩ := decoded_integers_exact [("a", .array [.int 1, .int 255])] "a"
  obtain ⟨-, -, -, -, -, hitem⟩ := decoded_integers_exact (numberItem 5 [56, 48]) "String_Value"
  exact ⟨h8 7 rfl, h16 300 rfl, h32 7 rfl, h64 12 rfl, hlist [1, 255] rfl,
    hitem textLibs numberRegistry [] 5 .port [56, 48] _ rfl rfl rfl (.inl rfl) rfl rfl⟩

/-- The texts " -5", " -18446744073709551615" and "5" with a NUL and a letter behind it, the entries 300 and -1 of a list
of bytes, the port "65616x" and the protocol "-1" are all read. -/
theorem other_integers_decoded :
    getUint64 [("a", .string [32, 45, 53])] "a" = some 18446744073709551611 ∧
    getUint32 [("a", .string [32, 45, 49, 56, 52, 52, 54, 55, 52, 52, 48, 55, 51, 55, 48, 57, 53, 53, 49, 54, 49, 53])]
      "a" = some 1 ∧
    getUint64 [("a", .string [53, 0, 120])] "a" = some 5 ∧
    getUint8List [("a", .array [.int 300, .int (-1)])] "a" = some [44, 255] ∧
    getNTLVItem textLibs numberRegistry [] (numberItem 5 [54, 53, 54, 49, 54, 120]) = some [⟨1, 5, [80, 0]⟩] ∧
    getNTLVItem textLibs numberRegistry [] (numberItem 6 [45, 49]) = some [⟨1, 6, [255]⟩] :=
  ⟨rfl, rfl, rfl, rfl, rfl, rfl⟩

end Razorback.JsonBuffer
