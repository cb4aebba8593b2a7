import Mathlib.Data.List.TakeWhile
import Mathlib.Data.UInt

/-! Texts as C has them: bytes up to a NUL, numbers in decimal, bytes in hexadecimal. -/

namespace Razorback.Text
open List

structure CString where
  bytes : List UInt8
  noNul : 0 ∉ bytes
  deriving DecidableEq

def cString (data : List UInt8) : CString where
  bytes := data.takeWhile (· != 0)
  noNul := fun h => by simpa using List.mem_takeWhile_imp h

def CString.terminated (s : CString) : List UInt8 := s.bytes ++ [0]

theorem CString.ext {s t : CString} (h : s.bytes = t.bytes) : s = t := by
  cases s
  cases t
  simpa using h

theorem takeWhile_noNul {xs : List UInt8} (h : 0 ∉ xs) (ys : List UInt8) :
    (xs ++ ys).takeWhile (· != 0) = xs ++ ys.takeWhile (· != 0) := by
  apply takeWhile_append_of_pos
  intro x hx
  simpa using fun h0 : x = 0 => h (h0 ▸ hx)

@[simp] theorem cString_terminated (s : CString) : cString s.terminated = s := by
  simp [cString, CString.terminated, takeWhile_noNul s.noNul]

@[simp] theorem cString_bytes (s : CString) : cString s.bytes = s := by
  apply CString.ext
  simpa [cString] using takeWhile_noNul s.noNul []

theorem terminated_cString {data : List UInt8} (hlast : data.getLast? = some 0) :
    (cString data).terminated = data ↔ 0 ∉ data.dropLast := by
  have hdata : data.dropLast ++ [0] = data := dropLast_append_getLast? 0 hlast
  constructor
  · intro h
    have hdrop := congrArg dropLast h
    simp only [CString.terminated, dropLast_concat] at hdrop
    exact hdrop ▸ (cString data).noNul
  · intro h
    rw [← hdata]
    simp [cString, CString.terminated, takeWhile_noNul h]

/-! ### Decimal numbers -/

def isDigit (c : UInt8) : Bool := '0'.toUInt8 ≤ c && c ≤ '9'.toUInt8

def decimal (n : Nat) : List UInt8 := (Nat.toDigits 10 n).map Char.toUInt8

def intText (n : Int) : List UInt8 :=
  if n < 0 then '-'.toUInt8 :: decimal n.natAbs else decimal n.natAbs

def readDigits (n : Nat) (ds : List UInt8) : Nat :=
  ds.foldl (fun n c => 10 * n + (c.toNat - 48)) n

theorem digit_byte : ∀ d < 10, isDigit (Nat.digitChar d).toUInt8 ∧ (Nat.digitChar d).toUInt8.toNat - 48 = d := by
  decide

theorem decimal_eq (n : Nat) :
    decimal n = if n < 10 then [(Nat.digitChar n).toUInt8]
      else decimal (n / 10) ++ [(Nat.digitChar (n % 10)).toUInt8] := by
  rw [decimal, Nat.toDigits_eq_if (by decide)]
  split <;> simp [decimal]

theorem decimal_ne_nil (n : Nat) : decimal n ≠ [] := by
  simp [decimal]

theorem isDigit_of_mem_decimal {n : Nat} : ∀ c ∈ decimal n, isDigit c := by
  induction n using Nat.strong_induction_on with
  | _ n ih =>
    intro c hc
    rw [decimal_eq] at hc
    split at hc
    · next hn =>
      rw [mem_singleton.mp hc]
      exact (digit_byte n hn).1
    · rcases mem_append.mp hc with hc | hc
      · exact ih (n / 10) (by omega) c hc
      · rw [mem_singleton.mp hc]
        exact (digit_byte (n % 10) (by omega)).1

theorem readDigits_decimal (n : Nat) : readDigits 0 (decimal n) = n := by
  induction n using Nat.strong_induction_on with
  | _ n ih =>
    rw [decimal_eq]
    split
    · next hn => simp [readDigits, (digit_byte n hn).2]
    · have hrest := ih (n / 10) (by omega)
      simp only [readDigits] at hrest
      simp only [readDigits, foldl_append, foldl_cons, foldl_nil,
        (digit_byte (n % 10) (by omega)).2]
      omega

def NoDigit (rest : List UInt8) : Prop := ∀ c ∈ rest.head?, isDigit c = false

theorem takeWhile_decimal (n : Nat) {rest : List UInt8} (h : NoDigit rest) :
    (decimal n ++ rest).takeWhile isDigit = decimal n ∧ (decimal n ++ rest).dropWhile isDigit = rest := by
  have htake : rest.takeWhile isDigit = [] ∧ rest.dropWhile isDigit = rest := by
    cases rest with
    | nil => exact ⟨rfl, rfl⟩
    | cons c rest =>
      have hc : isDigit c = false := h c rfl
      simp [hc]
  rw [takeWhile_append_of_pos isDigit_of_mem_decimal, dropWhile_append_of_pos isDigit_of_mem_decimal,
    htake.1, htake.2, append_nil]
  exact ⟨rfl, rfl⟩

/-! ### The numbers `strtoumax` and `sscanf` read -/

def isSpace (c : UInt8) : Bool := c = ' '.toUInt8 || ('\t'.toUInt8 ≤ c && c ≤ '\r'.toUInt8)

def scanUnsigned (text : List UInt8) : Option (Bool × Nat × List UInt8) :=
  let text := text.dropWhile isSpace
  let negative := text.head? = some '-'.toUInt8
  let text := if negative ∨ text.head? = some '+'.toUInt8 then text.tail else text
  match text.takeWhile isDigit with
  | [] => none
  | digits => some (negative, readDigits 0 digits, text.dropWhile isDigit)

/-- `strtoumax` without a conversion or with `ERANGE` gives no value. -/
def strtoumax (text : List UInt8) : Option (Nat × List UInt8) :=
  match scanUnsigned text with
  | none => none
  | some (negative, n, rest) =>
    if n < 2 ^ 64 then some (if negative then (2 ^ 64 - n) % 2 ^ 64 else n, rest) else none

/-- `sscanf` of an unsigned number into `bits` bits: what `strtoul` gives, cut to the size. -/
def sscanfUnsigned (bits : Nat) (text : List UInt8) : Option Nat :=
  match scanUnsigned text with
  | none => none
  | some (negative, n, _) =>
    let value := if n < 2 ^ 64 then if negative then (2 ^ 64 - n) % 2 ^ 64 else n else 2 ^ 64 - 1
    some (value % 2 ^ bits)

theorem digit_not_space_or_sign {c : UInt8} (h : isDigit c) :
    isSpace c = false ∧ c ≠ '-'.toUInt8 ∧ c ≠ '+'.toUInt8 := by
  have hrange : 48 ≤ c.toNat ∧ c.toNat ≤ 57 := by
    simp only [isDigit, Bool.and_eq_true, decide_eq_true_eq] at h
    exact h
  have hne : ∀ d : UInt8, d.toNat < 48 → c ≠ d := fun d hd hcd => by
    rw [hcd] at hrange
    omega
  refine ⟨?_, hne _ (by decide), hne _ (by decide)⟩
  simp only [isSpace, UInt8.le_iff_toNat_le, Bool.or_eq_false_iff, decide_eq_false_iff_not,
    Bool.and_eq_false_iff]
  exact ⟨hne _ (by decide), .inr fun hr => absurd (hr.trans (by decide : _ ≤ 47)) (by omega)⟩

theorem scanUnsigned_decimal (n : Nat) : scanUnsigned (decimal n) = some (false, n, []) := by
  obtain ⟨d, ds, hd⟩ := exists_cons_of_ne_nil (decimal_ne_nil n)
  have hdigit : isDigit d := isDigit_of_mem_decimal d (hd ▸ mem_cons_self)
  obtain ⟨hspace, hminus, hplus⟩ := digit_not_space_or_sign hdigit
  have htext : (decimal n).dropWhile isSpace = decimal n := by simp [hd, hspace]
  have hhead : (decimal n).head? = some d := by simp [hd]
  have hend : NoDigit [] := by simp [NoDigit]
  have hrun := takeWhile_decimal n hend
  rw [append_nil] at hrun
  have hvalue : readDigits 0 (d :: ds) = n := hd ▸ readDigits_decimal n
  simp only [scanUnsigned, htext, hhead, Option.some.injEq, hminus, hplus, or_self, if_false, hrun, decide_false]
  rw [hd]
  simp only [hvalue]

theorem strtoumax_decimal {n : Nat} (h : n < 2 ^ 64) : strtoumax (decimal n) = some (n, []) := by
  simp only [strtoumax, scanUnsigned_decimal, if_pos h, Bool.false_eq_true, if_false]

theorem sscanfUnsigned_decimal {bits n : Nat} (h : n < 2 ^ bits) (hbits : bits ≤ 64) :
    sscanfUnsigned bits (decimal n) = some n := by
  have h64 : n < 2 ^ 64 := lt_of_lt_of_le h (Nat.pow_le_pow_right (by decide) hbits)
  simp only [sscanfUnsigned, scanUnsigned_decimal, if_pos h64, Bool.false_eq_true, if_false,
    Nat.mod_eq_of_lt h]

/-! ### Bytes in hexadecimal -/

def hexDigit (n : Nat) : UInt8 := (Nat.digitChar n).toUInt8

def hexValue (c : UInt8) : Option Nat :=
  if isDigit c then some (c.toNat - 48)
  else if 'a'.toUInt8 ≤ c && c ≤ 'f'.toUInt8 then some (c.toNat - 87)
  else if 'A'.toUInt8 ≤ c && c ≤ 'F'.toUInt8 then some (c.toNat - 55)
  else none

def hex : List UInt8 → List UInt8
  | [] => []
  | b :: bs => hexDigit (b.toNat / 16) :: hexDigit (b.toNat % 16) :: hex bs

def readHex : List UInt8 → Option (List UInt8)
  | [] => some []
  | [_] => none
  | high :: low :: rest =>
    match hexValue high, hexValue low, readHex rest with
    | some h, some l, some bs => some (UInt8.ofNat (16 * h + l) :: bs)
    | _, _, _ => none

theorem hexValue_hexDigit : ∀ n < 16, hexValue (hexDigit n) = some n := by decide

theorem length_hex (bs : List UInt8) : (hex bs).length = 2 * bs.length := by
  induction bs with
  | nil => rfl
  | cons b bs ih => simp [hex]; omega

theorem hex_digits {bs : List UInt8} : ∀ c ∈ hex bs, ∃ n < 16, c = hexDigit n := by
  induction bs with
  | nil => simp [hex]
  | cons b bs ih =>
    have hb : b.toNat < 256 := b.toNat_lt
    intro c hc
    simp only [hex, mem_cons] at hc
    rcases hc with hc | hc | hc
    · exact ⟨b.toNat / 16, by omega, hc⟩
    · exact ⟨b.toNat % 16, by omega, hc⟩
    · exact ih c hc

theorem notMem_hex {c : UInt8} (hvalue : hexValue c = none) (bs : List UInt8) : c ∉ hex bs := by
  intro h
  obtain ⟨n, hn, rfl⟩ := hex_digits c h
  simp [hexValue_hexDigit n hn] at hvalue

theorem readHex_hex (bs : List UInt8) : readHex (hex bs) = some bs := by
  induction bs with
  | nil => rfl
  | cons b bs ih =>
    have hb : b.toNat < 256 := b.toNat_lt
    have hhigh := hexValue_hexDigit (b.toNat / 16) (by omega)
    have hlow := hexValue_hexDigit (b.toNat % 16) (by omega)
    have hbyte : .ofNat (16 * (b.toNat / 16) + b.toNat % 16) = b := by
      rw [Nat.div_add_mod, UInt8.ofNat_toNat]
    simp only [hex, readHex, hhigh, hlow, ih, hbyte]

/-! ### The numbers `strtol` reads, and comparison without case -/

/-- `strtol` in the base that the text itself shows; no value without a conversion or with `ERANGE`. -/
def strtol (text : List UInt8) : Option (Int × List UInt8) :=
  let text := text.dropWhile isSpace
  let negative := text.head? = some '-'.toUInt8
  let text := if negative ∨ text.head? = some '+'.toUInt8 then text.tail else text
  let hexadecimal := text.head? = some '0'.toUInt8 ∧
    (text[1]? = some 'x'.toUInt8 ∨ text[1]? = some 'X'.toUInt8) ∧ (text[2]?.bind hexValue).isSome
  let base := if hexadecimal then 16 else if text.head? = some '0'.toUInt8 then 8 else 10
  let text := if hexadecimal then text.drop 2 else text
  let isDigit (c : UInt8) : Bool := match hexValue c with
    | some d => d < base
    | none => false
  match text.takeWhile isDigit with
  | [] => none
  | digits =>
    let n : Int := digits.foldl (fun n c => base * n + (hexValue c).getD 0) 0
    let value := if negative then -n else n
    if -2 ^ 63 ≤ value ∧ value < 2 ^ 63 then some (value, text.dropWhile isDigit) else none

def toLower (c : UInt8) : UInt8 := if 'A'.toUInt8 ≤ c && c ≤ 'Z'.toUInt8 then c + 32 else c

set_option maxRecDepth 4096 in
theorem hexDigit_hexValue : ∀ k < 256, ∀ n ∈ hexValue (UInt8.ofNat k), n < 16 ∧ hexDigit n = toLower (UInt8.ofNat k) := by
  decide

theorem readHex_digits {text : List UInt8} {n : Nat} (hlength : text.length = 2 * n)
    (hdigits : ∀ c ∈ text, (hexValue c).isSome) :
    ∃ data, readHex text = some data ∧ data.length = n ∧ hex data = text.map toLower := by
  induction n generalizing text with
  | zero =>
    obtain rfl := eq_nil_of_length_eq_zero hlength
    exact ⟨[], rfl, rfl, rfl⟩
  | succ n ih =>
    obtain ⟨high, low, rest, rfl⟩ : ∃ high low rest, text = high :: low :: rest := by
      rcases text with _ | ⟨high, _ | ⟨low, rest⟩⟩
      · simp at hlength
      · rw [List.length_singleton] at hlength
        omega
      · exact ⟨high, low, rest, rfl⟩
    have hrest : rest.length = 2 * n := by simpa [Nat.mul_succ] using hlength
    obtain ⟨data, hread, rfl, hhex⟩ := ih hrest fun c hc => hdigits c (by simp [hc])
    obtain ⟨h, hh⟩ := Option.isSome_iff_exists.mp (hdigits high (by simp))
    obtain ⟨l, hl⟩ := Option.isSome_iff_exists.mp (hdigits low (by simp))
    have hhigh := hexDigit_hexValue high.toNat high.toNat_lt h (by simpa using hh)
    have hlow := hexDigit_hexValue low.toNat low.toNat_lt l (by simpa using hl)
    have hbyte : (UInt8.ofNat (16 * h + l)).toNat = 16 * h + l := Nat.mod_eq_of_lt (by omega)
    refine ⟨.ofNat (16 * h + l) :: data, by simp [readHex, hh, hl, hread], rfl, ?_⟩
    rw [hex, hbyte, Nat.mul_add_div (by decide), Nat.mul_add_mod, Nat.div_eq_of_lt hlow.1, Nat.mod_eq_of_lt hlow.1, add_zero,
      hhigh.2, hlow.2, hhex]
    simp

/-- `strcasecmp (s, text) == 0`. -/
def CString.sameLetters (s : CString) (text : String) : Bool :=
  s.bytes.map toLower == (text.toList.map Char.toUInt8).map toLower

/-- `strncasecmp (s, text, n) == 0` with `n` the length of `text`. -/
def CString.startsWith (s : CString) (text : String) : Bool :=
  (s.bytes.take text.length).map toLower == (text.toList.map Char.toUInt8).map toLower

end Razorback.Text
