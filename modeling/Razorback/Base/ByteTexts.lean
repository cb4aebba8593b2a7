import Mathlib.Data.List.SplitLengths
import Razorback.Base.Partial
import Razorback.Base.Text

/-! Bytes as base64, as groups of digits between separators, and as the number they spell. -/

namespace Razorback.ByteTexts
open Text List

/-! ### Base64 -/

def pad : UInt8 := 61

def sextet (n : Nat) : UInt8 :=
  if n < 26 then UInt8.ofNat (65 + n)
  else if n < 52 then UInt8.ofNat (71 + n)
  else if n < 62 then UInt8.ofNat (n - 4)
  else if n = 62 then 43
  else 47

def sextetValue (c : UInt8) : Option Nat :=
  if 65 ≤ c && c ≤ 90 then some (c.toNat - 65)
  else if 97 ≤ c && c ≤ 122 then some (c.toNat - 71)
  else if isDigit c then some (c.toNat + 4)
  else if c = 43 then some 62
  else if c = 47 then some 63
  else none

def encode64 : List UInt8 → List UInt8
  | [] => []
  | [a] => [sextet (a.toNat / 4), sextet (a.toNat % 4 * 16), pad, pad]
  | [a, b] => [sextet (a.toNat / 4), sextet (a.toNat % 4 * 16 + b.toNat / 16), sextet (b.toNat % 16 * 4), pad]
  | a :: b :: c :: rest =>
    sextet (a.toNat / 4) :: sextet (a.toNat % 4 * 16 + b.toNat / 16) ::
      sextet (b.toNat % 16 * 4 + c.toNat / 64) :: sextet (c.toNat % 64) :: encode64 rest

def decode64 : List UInt8 → Option (List UInt8)
  | [] => some []
  | w :: x :: y :: z :: rest =>
    match sextetValue w, sextetValue x, sextetValue y, sextetValue z with
    | some w, some x, some y, some z =>
      (decode64 rest).map fun bs =>
        UInt8.ofNat (4 * w + x / 16) :: UInt8.ofNat (x % 16 * 16 + y / 4) :: UInt8.ofNat (y % 4 * 64 + z) :: bs
    | some w, some x, some y, none =>
      if z = pad ∧ rest = [] then some [UInt8.ofNat (4 * w + x / 16), UInt8.ofNat (x % 16 * 16 + y / 4)] else none
    | some w, some x, none, none =>
      if y = pad ∧ z = pad ∧ rest = [] then some [UInt8.ofNat (4 * w + x / 16)] else none
    | _, _, _, _ => none
  | _ => none

theorem sextetValue_sextet : ∀ n < 64, sextetValue (sextet n) = some n ∧ sextet n ≠ 0 := by decide

theorem sextetValue_pad : sextetValue pad = none := by decide

theorem decode64_encode64 (bs : List UInt8) : decode64 (encode64 bs) = some bs := by
  induction bs using encode64.induct with
  | case1 => rfl
  | case2 a =>
    have ha := a.toNat_lt
    have hw := (sextetValue_sextet (a.toNat / 4) (by omega)).1
    have hx := (sextetValue_sextet (a.toNat % 4 * 16) (by omega)).1
    have hfirst : 4 * (a.toNat / 4) + a.toNat % 4 * 16 / 16 = a.toNat := by omega
    simp only [encode64, decode64, hw, hx, sextetValue_pad, hfirst, UInt8.ofNat_toNat, and_self, if_true]
  | case3 a b =>
    have ha := a.toNat_lt
    have hb := b.toNat_lt
    have hw := (sextetValue_sextet (a.toNat / 4) (by omega)).1
    have hx := (sextetValue_sextet (a.toNat % 4 * 16 + b.toNat / 16) (by omega)).1
    have hy := (sextetValue_sextet (b.toNat % 16 * 4) (by omega)).1
    have hfirst : 4 * (a.toNat / 4) + (a.toNat % 4 * 16 + b.toNat / 16) / 16 = a.toNat := by omega
    have hsecond : (a.toNat % 4 * 16 + b.toNat / 16) % 16 * 16 + b.toNat % 16 * 4 / 4 = b.toNat := by omega
    simp only [encode64, decode64, hw, hx, hy, sextetValue_pad, hfirst, hsecond, UInt8.ofNat_toNat, and_self, if_true]
  | case4 a b c rest ih =>
    have ha := a.toNat_lt
    have hb := b.toNat_lt
    have hc := c.toNat_lt
    have hw := (sextetValue_sextet (a.toNat / 4) (by omega)).1
    have hx := (sextetValue_sextet (a.toNat % 4 * 16 + b.toNat / 16) (by omega)).1
    have hy := (sextetValue_sextet (b.toNat % 16 * 4 + c.toNat / 64) (by omega)).1
    have hz := (sextetValue_sextet (c.toNat % 64) (by omega)).1
    have hfirst : 4 * (a.toNat / 4) + (a.toNat % 4 * 16 + b.toNat / 16) / 16 = a.toNat := by omega
    have hsecond : (a.toNat % 4 * 16 + b.toNat / 16) % 16 * 16 + (b.toNat % 16 * 4 + c.toNat / 64) / 4 = b.toNat := by
      omega
    have hthird : (b.toNat % 16 * 4 + c.toNat / 64) % 4 * 64 + c.toNat % 64 = c.toNat := by omega
    simp only [encode64, decode64, hw, hx, hy, hz, ih, hfirst, hsecond, hthird, UInt8.ofNat_toNat, Option.map_some]

theorem noNul_encode64 (bs : List UInt8) : 0 ∉ encode64 bs := by
  have hsextet : ∀ n < 64, (0 : UInt8) ≠ sextet n := fun n hn => (sextetValue_sextet n hn).2.symm
  have hpad : (0 : UInt8) ≠ pad := by decide
  induction bs using encode64.induct with
  | case1 => simp [encode64]
  | case2 a =>
    have ha := a.toNat_lt
    simp [encode64, hpad, hsextet (a.toNat / 4) (by omega), hsextet (a.toNat % 4 * 16) (by omega)]
  | case3 a b =>
    have ha := a.toNat_lt
    have hb := b.toNat_lt
    simp [encode64, hpad, hsextet (a.toNat / 4) (by omega),
      hsextet (a.toNat % 4 * 16 + b.toNat / 16) (by omega), hsextet (b.toNat % 16 * 4) (by omega)]
  | case4 a b c rest ih =>
    have ha := a.toNat_lt
    have hb := b.toNat_lt
    have hc := c.toNat_lt
    simp [encode64, ih, hsextet (a.toNat / 4) (by omega), hsextet (a.toNat % 4 * 16 + b.toNat / 16) (by omega),
      hsextet (b.toNat % 16 * 4 + c.toNat / 64) (by omega), hsextet (c.toNat % 64) (by omega)]

/-! ### Numbers of a fixed size, the high byte first -/

def bigEndian : Nat → Nat → List UInt8
  | 0, _ => []
  | size + 1, n => bigEndian size (n / 256) ++ [UInt8.ofNat (n % 256)]

def readBigEndian (bs : List UInt8) : Nat := bs.foldl (fun n b => 256 * n + b.toNat) 0

theorem length_bigEndian (size n : Nat) : (bigEndian size n).length = size := by
  induction size generalizing n with
  | zero => rfl
  | succ size ih => simp [bigEndian, ih]

theorem readBigEndian_bigEndian {size n : Nat} (h : n < 256 ^ size) : readBigEndian (bigEndian size n) = n := by
  induction size generalizing n with
  | zero => simp_all [bigEndian, readBigEndian]
  | succ size ih =>
    have hrest : n / 256 < 256 ^ size := by
      rw [Nat.div_lt_iff_lt_mul (by decide)]
      exact h
    have hread := ih hrest
    simp only [readBigEndian] at hread
    simp only [bigEndian, readBigEndian, foldl_append, foldl_cons, foldl_nil, UInt8.toNat_ofNat']
    omega

/-! ### Groups between separators -/

def joined (sep : UInt8) (groups : List (List UInt8)) : List UInt8 := [sep].intercalate groups

theorem mem_joined {sep c : UInt8} {groups : List (List UInt8)} (h : c ∈ joined sep groups) :
    c = sep ∨ ∃ group ∈ groups, c ∈ group := by
  induction groups with
  | nil => simp [joined] at h
  | cons group groups ih =>
    cases groups with
    | nil => exact .inr ⟨group, mem_cons_self, by simpa [joined] using h⟩
    | cons next groups =>
      rcases mem_append.mp h with h | h
      · exact .inr ⟨group, mem_cons_self, h⟩
      · rcases mem_append.mp h with h | h
        · exact .inl (mem_singleton.mp h)
        · rcases ih h with hsep | ⟨other, hother, hmem⟩
          · exact .inl hsep
          · exact .inr ⟨other, mem_cons_of_mem _ hother, hmem⟩

theorem mapM_splitOn_joined {α : Type} {sep : UInt8} {as : List α} {print : α → List UInt8}
    {read : List UInt8 → Option α} (hne : as ≠ []) (hsep : ∀ a ∈ as, sep ∉ print a)
    (hread : ∀ a ∈ as, read (print a) = some a) :
    (joined sep (as.map print)).splitOn sep = as.map print ∧ (as.map print).mapM read = some as := by
  constructor
  · apply splitOn_intercalate
    · intro group hgroup
      obtain ⟨a, ha, rfl⟩ := mem_map.mp hgroup
      exact hsep a ha
    · simpa using hne
  · rw [mapM_map]
    exact Partial.list_mapM_self hread

def readByte (digits : List UInt8) : Option UInt8 :=
  match strtoumax digits with
  | some (n, []) => if n < 256 then some (UInt8.ofNat n) else none
  | _ => none

theorem readByte_decimal (b : UInt8) : readByte (decimal b.toNat) = some b := by
  have hb : b.toNat < 256 := b.toNat_lt
  simp [readByte, strtoumax_decimal (show b.toNat < 2 ^ 64 by omega), hb]

def dotted (bs : List UInt8) : List UInt8 := joined 46 (bs.map fun b => decimal b.toNat)

def readDotted (size : Nat) (text : List UInt8) : Option (List UInt8) :=
  let groups := text.splitOn 46
  if groups.length = size then groups.mapM readByte else none

theorem readDotted_dotted {size : Nat} {bs : List UInt8} (h : bs.length = size) (hpos : 0 < size) :
    readDotted size (dotted bs) = some bs := by
  have hne : bs ≠ [] := ne_nil_of_length_pos (h ▸ hpos)
  have hsep : ∀ b ∈ bs, 46 ∉ decimal b.toNat := fun b _ hmem => absurd (isDigit_of_mem_decimal 46 hmem) (by decide)
  obtain ⟨hsplit, hread⟩ := mapM_splitOn_joined hne hsep fun b _ => readByte_decimal b
  simp only [readDotted, dotted, hsplit, hread, length_map, h, if_true]

theorem length_readDotted {size : Nat} {text bs : List UInt8} (h : readDotted size text = some bs) :
    bs.length = size := by
  simp only [readDotted] at h
  split_ifs at h with hsize
  rw [← (Partial.list_mapM_eq_some_iff.mp h).length_eq, hsize]

theorem notMem_dotted {c : UInt8} (hsep : c ≠ 46) (hc : isDigit c = false) (bs : List UInt8) : c ∉ dotted bs := by
  intro h
  rcases mem_joined h with rfl | ⟨group, hgroup, hmem⟩
  · exact hsep rfl
  · obtain ⟨b, -, rfl⟩ := mem_map.mp hgroup
    simp [isDigit_of_mem_decimal c hmem] at hc

def hexGroups (sep : UInt8) (sizes : List Nat) (bs : List UInt8) : List UInt8 :=
  joined sep ((sizes.splitLengths bs).map hex)

def readHexGroups (sep : UInt8) (sizes : List Nat) (text : List UInt8) : Option (List UInt8) :=
  ((text.splitOn sep).mapM readHex).bind fun groups => if groups.map List.length = sizes then some groups.flatten else none

theorem readHexGroups_hexGroups {sep : UInt8} {sizes : List Nat} {bs : List UInt8} (hsep : hexValue sep = none)
    (hsizes : sizes ≠ []) (h : bs.length = sizes.sum) :
    readHexGroups sep sizes (hexGroups sep sizes bs) = some bs := by
  have hne : sizes.splitLengths bs ≠ [] := by
    apply ne_nil_of_length_pos
    rw [length_splitLengths]
    exact length_pos_of_ne_nil hsizes
  obtain ⟨hsplit, hread⟩ := mapM_splitOn_joined hne (fun group _ => notMem_hex hsep group) fun group _ => readHex_hex group
  have hlengths : (sizes.splitLengths bs).map length = sizes := map_splitLengths_length _ _ h.ge
  have hflatten : (sizes.splitLengths bs).flatten = bs := flatten_splitLengths _ _ h.le
  simp only [readHexGroups, hexGroups, hsplit, hread, Option.bind_some, hlengths, hflatten, if_true]

theorem length_readHexGroups {sep : UInt8} {sizes : List Nat} {text bs : List UInt8}
    (h : readHexGroups sep sizes text = some bs) : bs.length = sizes.sum := by
  obtain ⟨groups, -, hgroups⟩ := Option.bind_eq_some_iff.mp h
  split_ifs at hgroups with hsizes
  rw [← Option.some.inj hgroups, length_flatten, hsizes]

theorem notMem_hexGroups {c sep : UInt8} (hsep : c ≠ sep) (hc : hexValue c = none) (sizes : List Nat) (bs : List UInt8) :
    c ∉ hexGroups sep sizes bs := by
  intro h
  rcases mem_joined h with rfl | ⟨group, hgroup, hmem⟩
  · exact hsep rfl
  · obtain ⟨part, -, rfl⟩ := mem_map.mp hgroup
    exact notMem_hex hc part hmem

end Razorback.ByteTexts
