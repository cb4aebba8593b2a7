import Razorback.Base.Text

/-! Texts that are numbers, and what the conversions of C make of other texts. -/

namespace Razorback.Text
open List

/-- The text is the number `n`: decimal digits with nothing around them but white space and a plus sign. -/
def Numeral (text : List UInt8) (n : ℕ) : Prop :=
  ∃ before sign digits after, text = before ++ (sign ++ (digits ++ after)) ∧ (∀ c ∈ before, isSpace c = true) ∧
    (sign = [] ∨ sign = ['+'.toUInt8]) ∧ digits ≠ [] ∧ (∀ c ∈ digits, isDigit c = true) ∧
    (∀ c ∈ after, isSpace c = true) ∧ readDigits 0 digits = n

def Negative (text : List UInt8) : Prop := (text.dropWhile isSpace).head? = some '-'.toUInt8

def unsigned (text : List UInt8) : List UInt8 :=
  if text.head? = some '-'.toUInt8 ∨ text.head? = some '+'.toUInt8 then text.tail else text

variable {text rest : List UInt8} {n : ℕ} {negative : Bool}

theorem scanUnsigned_eq_some : scanUnsigned text = some (negative, n, rest) ↔
    (unsigned (text.dropWhile isSpace)).takeWhile isDigit ≠ [] ∧ (negative ↔ Negative text) ∧
      n = readDigits 0 ((unsigned (text.dropWhile isSpace)).takeWhile isDigit) ∧
      rest = (unsigned (text.dropWhile isSpace)).dropWhile isDigit := by
  simp only [scanUnsigned]
  rw [← unsigned]
  split
  · next hnil => simp [hnil]
  · next hdigits =>
    rw [Option.some.injEq, Prod.mk.injEq, Prod.mk.injEq]
    constructor
    · rintro ⟨rfl, rfl, rfl⟩
      exact ⟨hdigits, decide_eq_true_iff, rfl, rfl⟩
    · rintro ⟨-, hnegative, rfl, rfl⟩
      refine ⟨?_, rfl, rfl⟩
      rw [Bool.eq_iff_iff, decide_eq_true_iff, hnegative, Negative]

theorem unsigned_of_not_minus (h : text.head? ≠ some '-'.toUInt8) :
    ∃ sign, (sign = [] ∨ sign = ['+'.toUInt8]) ∧ text = sign ++ unsigned text := by
  by_cases hplus : text.head? = some '+'.toUInt8
  · refine ⟨['+'.toUInt8], .inr rfl, ?_⟩
    obtain ⟨tail, rfl⟩ := head?_eq_some_iff.mp hplus
    rfl
  · refine ⟨[], .inl rfl, ?_⟩
    rw [unsigned, if_neg (not_or.mpr ⟨h, hplus⟩), nil_append]

theorem numeral_of_scan (h : scanUnsigned text = some (false, n, rest)) (hrest : ∀ c ∈ rest, isSpace c) :
    Numeral text n := by
  obtain ⟨hdigits, hnegative, rfl, rfl⟩ := scanUnsigned_eq_some.mp h
  obtain ⟨sign, hsign, htext⟩ := unsigned_of_not_minus fun hminus => Bool.false_ne_true (hnegative.mpr hminus)
  refine ⟨text.takeWhile isSpace, sign, _, _, ?_, fun c hc => mem_takeWhile_imp hc, hsign, hdigits,
    fun c hc => mem_takeWhile_imp hc, hrest, rfl⟩
  rw [takeWhile_append_dropWhile, ← htext, takeWhile_append_dropWhile]

theorem takeWhile_digits {digits after : List UInt8} (hdigits : ∀ c ∈ digits, isDigit c)
    (hafter : ∀ c ∈ after, isSpace c) :
    (digits ++ after).takeWhile isDigit = digits ∧ (digits ++ after).dropWhile isDigit = after := by
  rw [takeWhile_append_of_pos hdigits, dropWhile_append_of_pos hdigits]
  cases after with
  | nil => exact ⟨append_nil digits, rfl⟩
  | cons c after =>
    have hc : isDigit c = false := by
      rw [Bool.eq_false_iff]
      intro hdigit
      have hspace := hafter c mem_cons_self
      rw [(digit_not_space_or_sign hdigit).1] at hspace
      cases hspace
    simp [hc]

theorem scan_of_numeral (h : Numeral text n) :
    ∃ rest, scanUnsigned text = some (false, n, rest) ∧ ∀ c ∈ rest, isSpace c := by
  obtain ⟨before, sign, digits, after, rfl, hbefore, hsign, hne, hdigits, hafter, rfl⟩ := h
  obtain ⟨htake, hdrop⟩ := takeWhile_digits hdigits hafter
  obtain ⟨d, ds, rfl⟩ := exists_cons_of_ne_nil hne
  obtain ⟨hspace, hminus, hplus⟩ := digit_not_space_or_sign (hdigits d mem_cons_self)
  have hstart : (before ++ (sign ++ (d :: ds ++ after))).dropWhile isSpace = sign ++ (d :: ds ++ after) := by
    rw [dropWhile_append_of_pos hbefore]
    rcases hsign with rfl | rfl
    · simp [hspace]
    · exact dropWhile_cons_of_neg (by decide)
  have hunsigned : unsigned (sign ++ (d :: ds ++ after)) = d :: ds ++ after := by
    rcases hsign with rfl | rfl
    · simp [unsigned, hminus, hplus]
    · rfl
  have hnegative : ¬Negative (before ++ (sign ++ (d :: ds ++ after))) := by
    rw [Negative, hstart]
    rcases hsign with rfl | rfl
    · simpa using hminus
    · exact fun h => absurd (Option.some.inj h) (by decide)
  refine ⟨after, scanUnsigned_eq_some.mpr ?_, hafter⟩
  rw [hstart, hunsigned, htake, hdrop]
  exact ⟨hne, iff_of_false Bool.false_ne_true hnegative, rfl, rfl⟩

theorem Numeral.not_negative (h : Numeral text n) : ¬Negative text := by
  obtain ⟨rest, hscan, _⟩ := scan_of_numeral h
  exact fun hnegative => Bool.false_ne_true ((scanUnsigned_eq_some.mp hscan).2.1.mpr hnegative)

theorem Numeral.noNul (h : Numeral text n) : 0 ∉ text := by
  obtain ⟨before, sign, digits, after, rfl, hbefore, hsign, -, hdigits, hafter, -⟩ := h
  simp only [mem_append, not_or]
  refine ⟨fun hc => absurd (hbefore 0 hc) (by decide), ?_, fun hc => absurd (hdigits 0 hc) (by decide),
    fun hc => absurd (hafter 0 hc) (by decide)⟩
  rcases hsign with rfl | rfl <;> decide

theorem cString_bytes_of_noNul {raw : List UInt8} (h : 0 ∉ raw) : (cString raw).bytes = raw := by
  have hcut := takeWhile_noNul h []
  rw [takeWhile_nil, append_nil] at hcut
  exact hcut

theorem sscanfUnsigned_of_numeral {bits : ℕ} (hbits : bits ≤ 64) (hn : n < 2 ^ bits) (h : Numeral text n) :
    sscanfUnsigned bits text = some n := by
  obtain ⟨rest, hscan, _⟩ := scan_of_numeral h
  have h64 : n < 2 ^ 64 := hn.trans_le (Nat.pow_le_pow_right (by decide) hbits)
  simp only [sscanfUnsigned, hscan, if_pos h64, Bool.false_eq_true, if_false, Nat.mod_eq_of_lt hn]

theorem sscanfUnsigned_lt {bits v : ℕ} (h : sscanfUnsigned bits text = some v) : v < 2 ^ bits := by
  rw [sscanfUnsigned] at h
  split at h
  · cases h
  · rw [← Option.some.inj h]
    exact Nat.mod_lt _ (Nat.two_pow_pos bits)

end Razorback.Text
