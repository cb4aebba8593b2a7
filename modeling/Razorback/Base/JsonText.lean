import Razorback.Base.Json
import Razorback.Base.Text

/-! The text of a JSON value, compact or spaced, and its reading. Strings and keys are bytes; an escape stands
for one byte. -/

namespace Razorback.JsonText
open Text List Option
open Json (Fields add keys ValidKey)

def quote : UInt8 := 34
def comma : UInt8 := 44
def minus : UInt8 := 45
def dot : UInt8 := 46
def slash : UInt8 := 47
def colon : UInt8 := 58
def openBracket : UInt8 := 91
def backslash : UInt8 := 92
def closeBracket : UInt8 := 93
def letterE : UInt8 := 101
def letterU : UInt8 := 117
def openBrace : UInt8 := 123
def closeBrace : UInt8 := 125

def nullText : List UInt8 := [110, 117, 108, 108]
def trueText : List UInt8 := [116, 114, 117, 101]
def falseText : List UInt8 := [102, 97, 108, 115, 101]

/-! ### Strings -/

def escapes : List (UInt8 × UInt8) :=
  [(quote, quote), (backslash, backslash), (slash, slash), (8, 98), (9, 116), (10, 110), (12, 102), (13, 114)]

def shortEscape (b : UInt8) : Option UInt8 := (escapes.find? fun e => e.1 = b).map Prod.snd

def shortUnescape (c : UInt8) : Option UInt8 := (escapes.find? fun e => e.2 = c).map Prod.fst

def escapeByte (b : UInt8) : List UInt8 :=
  match shortEscape b with
  | some c => [backslash, c]
  | none =>
    if b < 32 then [backslash, letterU, 48, 48, hexDigit (b.toNat / 16), hexDigit (b.toNat % 16)] else [b]

def escape : List UInt8 → List UInt8
  | [] => []
  | b :: bs => escapeByte b ++ escape bs

def printString (bs : List UInt8) : List UInt8 := quote :: (escape bs ++ [quote])

def readString : List UInt8 → Option (List UInt8 × List UInt8)
  | [] => none
  | c :: rest =>
    if c = quote then some ([], rest)
    else if c ≠ backslash then (readString rest).map fun p => (c :: p.1, p.2)
    else match rest with
      | [] => none
      | e :: rest =>
        if e ≠ letterU then
          match shortUnescape e with
          | some b => (readString rest).map fun p => (b :: p.1, p.2)
          | none => none
        else match rest with
          | z :: z' :: high :: low :: rest =>
            match hexValue high, hexValue low with
            | some h, some l =>
              if z = 48 ∧ z' = 48 then (readString rest).map fun p => (UInt8.ofNat (16 * h + l) :: p.1, p.2)
              else none
            | _, _ => none
          | _ => none

theorem shortUnescape_of_escape {b c : UInt8} (h : shortEscape b = some c) :
    shortUnescape c = some b ∧ c ≠ letterU ∧ c ≠ 0 := by
  have hall : escapes.all (fun e => shortUnescape e.2 = some e.1 ∧ e.2 ≠ letterU ∧ e.2 ≠ 0) := by decide
  obtain ⟨e, he, rfl⟩ := map_eq_some_iff.mp h
  have hb : e.1 = b := by simpa using find?_some he
  have hcode := all_eq_true.mp hall e (mem_of_find?_eq_some he)
  exact hb ▸ of_decide_eq_true hcode

theorem shortEscape_eq_none {b : UInt8} (h : shortEscape b = none) : b ≠ quote ∧ b ≠ backslash := by
  constructor <;> rintro rfl <;> exact absurd h (by decide)

theorem readString_escapeByte (b : UInt8) (rest : List UInt8) :
    readString (escapeByte b ++ rest) = (readString rest).map fun p => (b :: p.1, p.2) := by
  have hback : backslash ≠ quote := by decide
  simp only [escapeByte]
  split
  · next c hc =>
    obtain ⟨hread, hu, -⟩ := shortUnescape_of_escape hc
    rw [readString.eq_def]
    simp [hback, hu, hread]
  · next hnone =>
    obtain ⟨hquote, hbackslash⟩ := shortEscape_eq_none hnone
    split
    · have hb := b.toNat_lt
      have hhigh := hexValue_hexDigit (b.toNat / 16) (by omega)
      have hlow := hexValue_hexDigit (b.toNat % 16) (by omega)
      have hbyte : .ofNat (16 * (b.toNat / 16) + b.toNat % 16) = b := by
        rw [Nat.div_add_mod, UInt8.ofNat_toNat]
      rw [readString.eq_def]
      simp [hback, hhigh, hlow, hbyte]
    · rw [readString.eq_def]
      simp [hquote, hbackslash]

theorem readString_escape (bs rest : List UInt8) : readString (escape bs ++ quote :: rest) = some (bs, rest) := by
  induction bs with
  | nil =>
    rw [readString.eq_def]
    simp [escape]
  | cons b bs ih => rw [escape, append_assoc, readString_escapeByte, ih, map_some]

/-! ### Numbers -/

def splitSign (text : List UInt8) : Bool × List UInt8 :=
  if text.head? = some minus then (true, text.tail) else (false, text)

def signed (negative : Bool) (n : Nat) : Int := if negative then -n else n

def readInt (text : List UInt8) : Option (Int × List UInt8) :=
  let body := (splitSign text).2
  match body.takeWhile isDigit with
  | [] => none
  | digits => some (signed (splitSign text).1 (readDigits 0 digits), body.dropWhile isDigit)

def readFraction (text : List UInt8) : List UInt8 × List UInt8 :=
  if text.head? = some dot then (text.tail.takeWhile isDigit, text.tail.dropWhile isDigit) else ([], text)

def readExponent (text : List UInt8) : Option (Int × List UInt8) :=
  if text.head? = some letterE then readInt text.tail else none

def readNumber (text : List UInt8) : Option (Json × List UInt8) :=
  let body := (splitSign text).2
  match body.takeWhile isDigit with
  | [] => none
  | whole =>
    let (fraction, rest) := readFraction (body.dropWhile isDigit)
    let mantissa := signed (splitSign text).1 (readDigits 0 (whole ++ fraction))
    match readExponent rest with
    | some (exponent, rest) => some (.double mantissa (exponent - fraction.length), rest)
    | none =>
      if fraction ≠ [] then some (.double mantissa (-fraction.length), rest)
      else if -2 ^ 63 ≤ mantissa ∧ mantissa < 2 ^ 64 then some (.int mantissa, rest)
      else none

def Delimited (rest : List UInt8) : Prop :=
  ∀ c ∈ rest.head?, c = 32 ∨ c = comma ∨ c = closeBracket ∨ c = closeBrace

theorem splitSign_intText (n : Int) (rest : List UInt8) :
    splitSign (intText n ++ rest) = (decide (n < 0), decimal n.natAbs ++ rest) := by
  by_cases hn : n < 0
  · simp [splitSign, intText, hn, minus, show '-'.toUInt8 = 45 from rfl]
  · obtain ⟨d, ds, hd⟩ := exists_cons_of_ne_nil (decimal_ne_nil n.natAbs)
    have hminus : d ≠ minus := (digit_not_space_or_sign (isDigit_of_mem_decimal d (hd ▸ mem_cons_self))).2.1
    simp [splitSign, intText, hn, hd, hminus]

theorem signed_natAbs (n : Int) : signed (decide (n < 0)) n.natAbs = n := by
  by_cases hn : n < 0
  · rw [signed, if_pos (decide_eq_true hn)]
    omega
  · rw [signed, if_neg (by simpa using hn)]
    omega

variable {rest : List UInt8}

theorem readInt_intText (n : Int) (h : NoDigit rest) :
    readInt (intText n ++ rest) = some (n, rest) := by
  obtain ⟨htake, hdrop⟩ := takeWhile_decimal n.natAbs h
  obtain ⟨d, ds, hd⟩ := exists_cons_of_ne_nil (decimal_ne_nil n.natAbs)
  have hvalue : readDigits 0 (d :: ds) = n.natAbs := hd ▸ readDigits_decimal n.natAbs
  simp only [readInt, splitSign_intText, htake, hdrop]
  rw [hd]
  simp only [hvalue, signed_natAbs]

theorem Delimited.noDigit (h : Delimited rest) : NoDigit rest := by
  intro c hc
  rcases h c hc with rfl | rfl | rfl | rfl <;> decide

theorem Delimited.head_ne (h : Delimited rest) : rest.head? ≠ some dot ∧ rest.head? ≠ some letterE := by
  constructor <;> intro hc <;> exact absurd (h _ hc) (by decide)

theorem readNumber_intText (n : Int) (h : NoDigit rest) (hdot : rest.head? ≠ some dot) :
    readNumber (intText n ++ rest) = match readExponent rest with
      | some (exponent, rest) => some (.double n exponent, rest)
      | none => if -2 ^ 63 ≤ n ∧ n < 2 ^ 64 then some (.int n, rest) else none := by
  obtain ⟨htake, hdrop⟩ := takeWhile_decimal n.natAbs h
  obtain ⟨d, ds, hd⟩ := exists_cons_of_ne_nil (decimal_ne_nil n.natAbs)
  have hvalue : readDigits 0 (d :: ds) = n.natAbs := hd ▸ readDigits_decimal n.natAbs
  have hfraction : readFraction rest = ([], rest) := by rw [readFraction, if_neg hdot]
  simp only [readNumber, splitSign_intText, htake, hdrop]
  rw [hd]
  simp only [hfraction, append_nil, hvalue, signed_natAbs, length_nil, Int.ofNat_zero, Int.sub_zero,
    ne_eq, not_true_eq_false, if_false]

theorem readNumber_int {n : Int} (hn : -2 ^ 63 ≤ n ∧ n < 2 ^ 64) (h : Delimited rest) :
    readNumber (intText n ++ rest) = some (.int n, rest) := by
  have hexponent : readExponent rest = none := by rw [readExponent, if_neg h.head_ne.2]
  rw [readNumber_intText n h.noDigit h.head_ne.1, hexponent]
  simp only [if_pos hn]

theorem readNumber_double (mantissa exponent : Int) (h : Delimited rest) :
    readNumber (intText mantissa ++ letterE :: (intText exponent ++ rest)) = some (.double mantissa exponent, rest) := by
  have hdigit : NoDigit (letterE :: (intText exponent ++ rest)) := by simp [NoDigit, show isDigit letterE = false from rfl]
  have hexponent : readExponent (letterE :: (intText exponent ++ rest)) = some (exponent, rest) := by
    simp [readExponent, readInt_intText exponent h.noDigit]
  rw [readNumber_intText mantissa hdigit (by simp [dot, letterE]), hexponent]

/-! ### Printing -/

def space (spaced : Bool) : List UInt8 := if spaced then [32] else []

def separator (first : Bool) : List UInt8 := if first then [] else [comma]

def keyBytes (key : String) : List UInt8 := key.toList.map Char.toUInt8

mutual
def print (spaced : Bool) : Json → List UInt8
  | .null => nullText
  | .boolean value => if value then trueText else falseText
  | .int value => intText value
  | .double mantissa exponent => intText mantissa ++ letterE :: intText exponent
  | .string text => printString text
  | .array items => openBracket :: printItems spaced true items
  | .object fields => openBrace :: printFields spaced true fields

def printItems (spaced first : Bool) : List Json → List UInt8
  | [] => space spaced ++ [closeBracket]
  | item :: items => separator first ++ (space spaced ++ (print spaced item ++ printItems spaced false items))

def printFields (spaced first : Bool) : Fields → List UInt8
  | [] => space spaced ++ [closeBrace]
  | (key, value) :: fields =>
    separator first ++ (space spaced ++ (printString (keyBytes key) ++
      colon :: (space spaced ++ (print spaced value ++ printFields spaced false fields))))
end

/-! ### Reading -/

def skip (text : List UInt8) : List UInt8 := text.dropWhile isSpace

def readChar (expected : UInt8) (text : List UInt8) : Option (List UInt8) :=
  match skip text with
  | [] => none
  | c :: rest => if c = expected then some rest else none

def readSeparator (first : Bool) (text : List UInt8) : Option (List UInt8) :=
  if first then some text else readChar comma text

def keyOfBytes (bs : List UInt8) : String := String.ofList (bs.map Char.ofUInt8)

def readKey (text : List UInt8) : Option (String × List UInt8) := do
  let text ← readChar quote text
  let (bs, text) ← readString text
  let text ← readChar colon text
  if 0 ∈ bs then none else some (keyOfBytes bs, text)

def readKeyword (text : List UInt8) : Option (Json × List UInt8) :=
  if text.take 4 = nullText then some (.null, text.drop 4)
  else if text.take 4 = trueText then some (.boolean true, text.drop 4)
  else if text.take 5 = falseText then some (.boolean false, text.drop 5)
  else none

mutual
def readValue : Nat → List UInt8 → Option (Json × List UInt8)
  | 0, _ => none
  | fuel + 1, text =>
    match skip text with
    | [] => none
    | c :: rest =>
      if c = quote then (readString rest).map fun p => (.string p.1, p.2)
      else if c = openBracket then (readItems fuel true rest).map fun p => (.array p.1, p.2)
      else if c = openBrace then (readFields fuel true [] rest).map fun p => (.object p.1, p.2)
      else if c = minus ∨ isDigit c then readNumber (c :: rest)
      else readKeyword (c :: rest)

def readItems : Nat → Bool → List UInt8 → Option (List Json × List UInt8)
  | 0, _, _ => none
  | fuel + 1, first, text =>
    match readChar closeBracket text with
    | some rest => some ([], rest)
    | none => do
      let text ← readSeparator first text
      let (item, text) ← readValue fuel text
      let (items, text) ← readItems fuel false text
      some (item :: items, text)

def readFields : Nat → Bool → Fields → List UInt8 → Option (Fields × List UInt8)
  | 0, _, _, _ => none
  | fuel + 1, first, fields, text =>
    match readChar closeBrace text with
    | some rest => some (fields, rest)
    | none => do
      let text ← readSeparator first text
      let (key, text) ← readKey text
      let (value, text) ← readValue fuel text
      readFields fuel false (add fields key value) text
end

def read (text : List UInt8) : Option Json :=
  match readValue (text.length + 1) text with
  | some (value, rest) => if skip rest = [] then some value else none
  | none => none

/-! ### What is printed is read -/

@[simp] theorem skip_space (spaced : Bool) (text : List UInt8) : skip (space spaced ++ text) = skip text := by
  cases spaced
  · rfl
  · simp [skip, space, show isSpace 32 from rfl]

variable {c : UInt8}

theorem skip_cons (h : isSpace c = false) (rest : List UInt8) : skip (c :: rest) = c :: rest := by
  simp [skip, h]

@[simp] theorem readChar_space (expected : UInt8) (spaced : Bool) (text : List UInt8) :
    readChar expected (space spaced ++ text) = readChar expected text := by
  simp only [readChar, skip_space]

theorem readChar_cons (h : isSpace c = false) (expected : UInt8) (rest : List UInt8) :
    readChar expected (c :: rest) = if c = expected then some rest else none := by
  simp only [readChar, skip_cons h]

@[simp] theorem readValue_space (fuel : Nat) (spaced : Bool) (text : List UInt8) :
    readValue fuel (space spaced ++ text) = readValue fuel text := by
  cases fuel <;> simp only [readValue, skip_space]

theorem intText_head (n : Int) : ∃ c cs, intText n = c :: cs ∧ (c = minus ∨ isDigit c) := by
  by_cases hn : n < 0
  · exact ⟨minus, decimal n.natAbs, by simp [intText, hn]; rfl, .inl rfl⟩
  · obtain ⟨d, ds, hd⟩ := exists_cons_of_ne_nil (decimal_ne_nil n.natAbs)
    exact ⟨d, ds, by simp [intText, hn, hd], .inr (isDigit_of_mem_decimal d (hd ▸ mem_cons_self))⟩

theorem number_start (h : c = minus ∨ isDigit c) :
    isSpace c = false ∧ c ≠ quote ∧ c ≠ openBracket ∧ c ≠ openBrace ∧ c ≠ closeBracket := by
  rcases h with rfl | h
  · decide
  · refine ⟨(digit_not_space_or_sign h).1, ?_, ?_, ?_, ?_⟩ <;> rintro rfl <;> exact absurd h (by decide)

theorem print_head (spaced : Bool) (value : Json) :
    ∃ c cs, print spaced value = c :: cs ∧ isSpace c = false ∧ c ≠ closeBracket := by
  cases value with
  | null => exact ⟨_, _, rfl, by decide, by decide⟩
  | boolean value => cases value <;> exact ⟨_, _, rfl, by decide, by decide⟩
  | int value =>
    obtain ⟨c, cs, hc, hstart⟩ := intText_head value
    obtain ⟨hspace, -, -, -, hclose⟩ := number_start hstart
    exact ⟨c, cs, by rw [print, hc], hspace, hclose⟩
  | double mantissa exponent =>
    obtain ⟨c, cs, hc, hstart⟩ := intText_head mantissa
    obtain ⟨hspace, -, -, -, hclose⟩ := number_start hstart
    exact ⟨c, _, by rw [print, hc, cons_append], hspace, hclose⟩
  | string text => exact ⟨_, _, by rw [print, printString], by decide, by decide⟩
  | array items => exact ⟨_, _, by rw [print], by decide, by decide⟩
  | object fields => exact ⟨_, _, by rw [print], by decide, by decide⟩

theorem delimited_printItems (spaced : Bool) (items : List Json) (rest : List UInt8) :
    Delimited (printItems spaced false items ++ rest) := by
  cases items with
  | nil => cases spaced <;> simp [printItems, space, Delimited]
  | cons item items => simp [printItems, separator, Delimited]

theorem delimited_printFields (spaced : Bool) (fields : Fields) (rest : List UInt8) :
    Delimited (printFields spaced false fields ++ rest) := by
  cases fields with
  | nil => cases spaced <;> simp [printFields, space, Delimited]
  | cons field fields =>
    simp [printFields, separator, Delimited]

theorem byte_of_char {c : Char} (h : c.toNat < 256) : c.toUInt8.toNat = c.toNat ∧ Char.ofUInt8 c.toUInt8 = c := by
  have hbyte : c.toUInt8.toNat = c.toNat := by
    exact Nat.mod_eq_of_lt h
  refine ⟨hbyte, Char.ext (UInt32.toNat_inj.mp ?_)⟩
  exact hbyte

theorem keyOfBytes_keyBytes {key : String} (h : ValidKey key) : keyOfBytes (keyBytes key) = key ∧ 0 ∉ keyBytes key := by
  constructor
  · have hchars : (key.toList.map Char.toUInt8).map .ofUInt8 = key.toList := by
      rw [List.map_map]
      exact (map_congr_left fun c hc => (byte_of_char (h c hc).2).2).trans (map_id _)
    rw [keyOfBytes, keyBytes, hchars, String.ofList_toList]
  · intro hmem
    obtain ⟨c, hc, hzero⟩ := mem_map.mp hmem
    have hnat := (byte_of_char (h c hc).2).1
    have hpos := (h c hc).1
    rw [hzero] at hnat
    exact absurd hpos (by rw [← hnat]; decide)

theorem readSeparator_print (first : Bool) (text : List UInt8) :
    readSeparator first (separator first ++ text) = some text := by
  cases first
  · exact readChar_cons (by decide : isSpace comma = false) comma text
  · rfl

theorem readKey_print (spaced : Bool) {key : String} (h : ValidKey key) (rest : List UInt8) :
    readKey (space spaced ++ (printString (keyBytes key) ++ colon :: rest)) = some (key, rest) := by
  obtain ⟨hkey, hnul⟩ := keyOfBytes_keyBytes h
  have hopen : readChar quote (quote :: (escape (keyBytes key) ++ quote :: colon :: rest)) =
      some (escape (keyBytes key) ++ quote :: colon :: rest) := readChar_cons (by decide) _ _
  have hcolon : readChar colon (colon :: rest) = some rest := readChar_cons (by decide) _ _
  simp [readKey, printString, hopen, readString_escape, hcolon, hnul, hkey]

theorem readValue_keyword (fuel : Nat) (hspace : isSpace c = false)
    (hstart : c ≠ quote ∧ c ≠ openBracket ∧ c ≠ openBrace ∧ ¬ (c = minus ∨ isDigit c)) :
    readValue (fuel + 1) (c :: rest) = readKeyword (c :: rest) := by
  simp only [readValue, skip_cons hspace, hstart, if_false]

theorem readValue_number (fuel : Nat) (hstart : c = minus ∨ isDigit c) :
    readValue (fuel + 1) (c :: rest) = readNumber (c :: rest) := by
  obtain ⟨hspace, hquote, hbracket, hbrace, -⟩ := number_start hstart
  simp only [readValue, skip_cons hspace, hquote, hbracket, hbrace, hstart, if_false, if_true]

theorem readValue_intText (fuel : Nat) (n : Int) (rest : List UInt8) :
    readValue (fuel + 1) (intText n ++ rest) = readNumber (intText n ++ rest) := by
  obtain ⟨c, cs, hc, hstart⟩ := intText_head n
  rw [hc]
  exact readValue_number fuel hstart

mutual
theorem readValue_print (spaced : Bool) : ∀ (value : Json) (fuel : Nat) (rest : List UInt8), value.WellFormed →
    Delimited rest → (print spaced value).length < fuel →
    readValue fuel (print spaced value ++ rest) = some (value, rest)
  | _, 0, _, _, _, hfuel => absurd hfuel (Nat.not_lt_zero _)
  | .null, fuel + 1, rest, _, _, _ => by
    have hread : readKeyword (nullText ++ rest) = some (.null, rest) := by simp [readKeyword, nullText]
    rw [print, ← hread]
    exact readValue_keyword fuel (by decide) (by decide)
  | .boolean true, fuel + 1, rest, _, _, _ => by
    have hread : readKeyword (trueText ++ rest) = some (.boolean true, rest) := by
      simp [readKeyword, nullText, trueText]
    rw [print, if_pos rfl, ← hread]
    exact readValue_keyword fuel (by decide) (by decide)
  | .boolean false, fuel + 1, rest, _, _, _ => by
    have hread : readKeyword (falseText ++ rest) = some (.boolean false, rest) := by
      simp [readKeyword, nullText, trueText, falseText]
    rw [print, if_neg Bool.false_ne_true, ← hread]
    exact readValue_keyword fuel (by decide) (by decide)
  | .int value, fuel + 1, rest, hvalue, hrest, _ => by
    rw [print, readValue_intText, readNumber_int hvalue hrest]
  | .double mantissa exponent, fuel + 1, rest, _, hrest, _ => by
    rw [print, append_assoc, cons_append, readValue_intText, readNumber_double mantissa exponent hrest]
  | .string text, fuel + 1, rest, _, _, _ => by
    have hskip : ∀ text, skip (quote :: text) = quote :: text := skip_cons (by decide)
    simp [print, printString, readValue, hskip, readString_escape]
  | .array items, fuel + 1, rest, hitems, hrest, hfuel => by
    have hskip : ∀ text, skip (openBracket :: text) = openBracket :: text := skip_cons (by decide)
    have hquote : openBracket ≠ quote := by decide
    rw [print, length_cons] at hfuel
    have hread := readItems_print spaced items true fuel rest hitems (by omega)
    simp [print, readValue, hskip, hquote, hread]
  | .object fields, fuel + 1, rest, hfields, hrest, hfuel => by
    have hskip : ∀ text, skip (openBrace :: text) = openBrace :: text := skip_cons (by decide)
    have hne : openBrace ≠ quote ∧ openBrace ≠ openBracket := by decide
    rw [print, length_cons] at hfuel
    have hread := readFields_print spaced fields true [] fuel rest hfields.2 hfields.1 (by omega)
    simp [print, readValue, hskip, hne, hread]

theorem readItems_print (spaced : Bool) : ∀ (items : List Json) (first : Bool) (fuel : Nat) (rest : List UInt8),
    Json.WellFormedItems items → (printItems spaced first items).length < fuel →
    readItems fuel first (printItems spaced first items ++ rest) = some (items, rest)
  | _, _, 0, _, _, hfuel => absurd hfuel (Nat.not_lt_zero _)
  | [], first, fuel + 1, rest, _, _ => by
    have hclose : readChar closeBracket (closeBracket :: rest) = some rest := by
      rw [readChar_cons (by decide), if_pos rfl]
    simp [printItems, readItems, hclose]
  | item :: items, first, fuel + 1, rest, hitems, hfuel => by
    obtain ⟨c, cs, hc, hspace, hbracket⟩ := print_head spaced item
    -- the item and the rest both leave something to the other, so each fits the fuel
    have hlength : (printItems spaced false items).length + (print spaced item).length ≤ fuel := by
      simp only [printItems, length_append] at hfuel
      omega
    have hpos : 0 < (print spaced item).length := by simp [hc]
    have htail : 0 < (printItems spaced false items).length := by
      cases items <;> simp [printItems, separator]
    have hvalue := readValue_print spaced item fuel (printItems spaced false items ++ rest) hitems.1
      (delimited_printItems spaced items rest) (by omega)
    have hrest := readItems_print spaced items false fuel rest hitems.2 (by omega)
    -- the bracket that would end the array is not there
    have hclose : readChar closeBracket (separator first ++ (space spaced ++ (print spaced item ++
        (printItems spaced false items ++ rest)))) = none := by
      cases first with
      | false => exact readChar_cons (by decide) _ _
      | true =>
        rw [separator, if_pos rfl, nil_append, readChar_space, hc, cons_append, readChar_cons hspace,
          if_neg hbracket]
    simp [printItems, readItems, hclose, readSeparator_print, hvalue, hrest]

theorem readFields_print (spaced : Bool) : ∀ (fields : Fields) (first : Bool) (before : Fields) (fuel : Nat)
    (rest : List UInt8), Json.WellFormedFields fields → (keys (before ++ fields)).Nodup →
    (printFields spaced first fields).length < fuel →
    readFields fuel first before (printFields spaced first fields ++ rest) = some (before ++ fields, rest)
  | _, _, _, 0, _, _, _, hfuel => absurd hfuel (Nat.not_lt_zero _)
  | [], first, before, fuel + 1, rest, _, _, _ => by
    have hclose : readChar closeBrace (closeBrace :: rest) = some rest := by
      rw [readChar_cons (by decide), if_pos rfl]
    simp [printFields, readFields, hclose]
  | (key, value) :: fields, first, before, fuel + 1, rest, hfields, hkeys, hfuel => by
    have hlength : (printFields spaced false fields).length + (print spaced value).length + 1 ≤ fuel := by
      simp only [printFields, length_append, length_cons] at hfuel
      omega
    have hkey := readKey_print spaced hfields.1.1 (space spaced ++ (print spaced value ++
      (printFields spaced false fields ++ rest)))
    have hvalue := readValue_print spaced value fuel (printFields spaced false fields ++ rest) hfields.1.2
      (delimited_printFields spaced fields rest) (by omega)
    -- no key comes twice, so adding it appends
    have hnew : key ∉ keys before := by
      have hsplit : keys (before ++ (key, value) :: fields) = keys before ++ key :: keys fields := by simp [Json.keys]
      rw [hsplit] at hkeys
      exact fun hmem => disjoint_of_nodup_append hkeys hmem mem_cons_self
    have hadd : add before key value = before ++ [(key, value)] := Json.add_of_notMem hnew
    have hrest := readFields_print spaced fields false (before ++ [(key, value)]) fuel rest hfields.2
      (by simpa using hkeys) (by omega)
    have hclose : readChar closeBrace (separator first ++ (space spaced ++ (printString (keyBytes key) ++
        colon :: (space spaced ++ (print spaced value ++ (printFields spaced false fields ++ rest)))))) = none := by
      cases first with
      | false => exact readChar_cons (by decide) _ _
      | true =>
        rw [separator, if_pos rfl, nil_append, readChar_space, printString]
        exact readChar_cons (by decide) _ _
    simp [printFields, readFields, hclose, readSeparator_print, hkey, hvalue, hadd, hrest]
end

variable {value : Json}

theorem read_print (spaced : Bool) (h : value.WellFormed) : read (print spaced value) = some value := by
  have hread := readValue_print spaced value ((print spaced value).length + 1) [] h (by simp [Delimited])
  rw [append_nil] at hread
  simp [read, hread, skip]

/-! ### What is read exists -/

variable {text rest : List UInt8}

theorem readNumber_wellFormed (h : readNumber text = some (value, rest)) :
    value.WellFormed ∧ value.isContainer = false := by
  simp only [readNumber] at h
  repeat' split at h
  all_goals first
    | (simp at h; done)
    | skip
  · obtain rfl := (Prod.mk.inj (some.inj h)).1
    exact ⟨trivial, rfl⟩
  · obtain rfl := (Prod.mk.inj (some.inj h)).1
    exact ⟨trivial, rfl⟩
  · next hrange =>
    obtain rfl := (Prod.mk.inj (some.inj h)).1
    exact ⟨hrange, rfl⟩

theorem readKeyword_wellFormed (h : readKeyword text = some (value, rest)) :
    value.WellFormed ∧ value.isContainer = false := by
  simp only [readKeyword] at h
  repeat' split at h
  all_goals first
    | (simp at h; done)
    | (obtain rfl := (Prod.mk.inj (some.inj h)).1; exact ⟨trivial, rfl⟩)

theorem readKey_valid {key : String} (h : readKey text = some (key, rest)) : ValidKey key := by
  obtain ⟨text, -, h⟩ := bind_eq_some_iff.mp h
  obtain ⟨⟨bs, text⟩, -, h⟩ := bind_eq_some_iff.mp h
  obtain ⟨text, -, h⟩ := bind_eq_some_iff.mp h
  split at h
  · simp at h
  · next hnul =>
    obtain rfl := (Prod.mk.inj (some.inj h)).1
    intro c hc
    rw [keyOfBytes, String.toList_ofList] at hc
    obtain ⟨b, hb, rfl⟩ := mem_map.mp hc
    have hzero : b.toNat ≠ 0 := fun h0 => hnul ((UInt8.toNat_inj.mp h0 : b = 0) ▸ hb)
    exact ⟨Nat.pos_of_ne_zero hzero, b.toNat_lt⟩

theorem wellFormed_of_readValue (fuel : Nat) :
    (∀ text value rest, readValue fuel text = some (value, rest) → value.WellFormed) ∧
    (∀ first text items rest, readItems fuel first text = some (items, rest) → Json.WellFormedItems items) ∧
    (∀ first before text fields rest, readFields fuel first before text = some (fields, rest) →
      (Json.object before).WellFormed → (Json.object fields).WellFormed) := by
  induction fuel with
  | zero =>
    refine ⟨?_, ?_, ?_⟩
    · intro text value rest h
      simp [readValue] at h
    · intro first text items rest h
      simp [readItems] at h
    · intro first before text fields rest h
      simp [readFields] at h
  | succ fuel ih =>
    obtain ⟨ihValue, ihItems, ihFields⟩ := ih
    refine ⟨?_, ?_, ?_⟩
    · intro text value rest h
      simp only [readValue] at h
      split at h
      · simp at h
      split_ifs at h
      · obtain ⟨p, -, heq⟩ := map_eq_some_iff.mp h
        obtain rfl := (Prod.mk.inj heq).1
        trivial
      · obtain ⟨p, hp, heq⟩ := map_eq_some_iff.mp h
        obtain rfl := (Prod.mk.inj heq).1
        exact ihItems true _ p.1 p.2 hp
      · obtain ⟨p, hp, heq⟩ := map_eq_some_iff.mp h
        obtain rfl := (Prod.mk.inj heq).1
        exact ihFields true [] _ p.1 p.2 hp ⟨nodup_nil, trivial⟩
      · exact (readNumber_wellFormed h).1
      · exact (readKeyword_wellFormed h).1
    · intro first text items rest h
      simp only [readItems] at h
      split at h
      · obtain rfl := (Prod.mk.inj (some.inj h)).1
        trivial
      · obtain ⟨text, -, h⟩ := bind_eq_some_iff.mp h
        obtain ⟨⟨item, text⟩, hitem, h⟩ := bind_eq_some_iff.mp h
        obtain ⟨⟨tail, text⟩, htail, h⟩ := bind_eq_some_iff.mp h
        obtain rfl := (Prod.mk.inj (some.inj h)).1
        exact ⟨ihValue _ item _ hitem, ihItems false _ tail _ htail⟩
    · intro first before text fields rest h hbefore
      simp only [readFields] at h
      split at h
      · obtain rfl := (Prod.mk.inj (some.inj h)).1
        exact hbefore
      · obtain ⟨text, -, h⟩ := bind_eq_some_iff.mp h
        obtain ⟨⟨key, text⟩, hkey, h⟩ := bind_eq_some_iff.mp h
        obtain ⟨⟨value, text⟩, hvalue, h⟩ := bind_eq_some_iff.mp h
        exact ihFields false _ _ fields rest h
          (Json.wellFormed_add hbefore (readKey_valid hkey) (ihValue _ value _ hvalue))

theorem bracket_of_readValue {fuel : Nat}
    (h : readValue fuel text = some (value, rest)) (hcontainer : value.isContainer) :
    openBracket ∈ text ∨ openBrace ∈ text := by
  cases fuel with
  | zero => simp [readValue] at h
  | succ fuel =>
    simp only [readValue] at h
    split at h
    · simp at h
    next c rest hskip =>
    have hmem : c ∈ text := (dropWhile_sublist isSpace).subset (hskip ▸ mem_cons_self : c ∈ skip text)
    split_ifs at h with hquote hbracket hbrace
    · obtain ⟨p, -, heq⟩ := map_eq_some_iff.mp h
      obtain rfl := (Prod.mk.inj heq).1
      simp [Json.isContainer] at hcontainer
    · exact .inl (hbracket ▸ hmem)
    · exact .inr (hbrace ▸ hmem)
    · simp [(readNumber_wellFormed h).2] at hcontainer
    · simp [(readKeyword_wellFormed h).2] at hcontainer

theorem readValue_of_read {text : List UInt8} (h : read text = some value) :
    ∃ fuel rest, readValue fuel text = some (value, rest) := by
  simp only [read] at h
  split at h
  · next found rest hfound =>
    split at h
    · exact ⟨_, rest, some.inj h ▸ hfound⟩
    · simp at h
  · simp at h

/-! ### A text has no NUL -/

theorem noNul_escapeByte (b : UInt8) : 0 ∉ escapeByte b := by
  have hdigit : ∀ n < 16, hexDigit n ≠ 0 := by decide
  have hback : backslash ≠ 0 := by decide
  simp only [escapeByte]
  split
  · next c hc => simp [hback.symm, (shortUnescape_of_escape hc).2.2.symm]
  split
  · have hb := b.toNat_lt
    have hhigh := hdigit (b.toNat / 16) (by omega)
    have hlow := hdigit (b.toNat % 16) (by omega)
    simp [hback.symm, letterU, hhigh.symm, hlow.symm]
  · next hb =>
    rintro hmem
    obtain rfl := mem_singleton.mp hmem
    exact hb (by decide)

theorem noNul_printString (bs : List UInt8) : 0 ∉ printString bs := by
  have hescape : 0 ∉ escape bs := by
    induction bs with
    | nil => simp [escape]
    | cons b bs ih => simp [escape, noNul_escapeByte, ih]
  simp [printString, quote, hescape]

theorem noNul_intText (n : Int) : 0 ∉ intText n := by
  have hdecimal : 0 ∉ decimal n.natAbs := fun h => absurd (isDigit_of_mem_decimal 0 h) (by decide)
  by_cases hn : n < 0 <;> simp [intText, hn, hdecimal, show (0 : UInt8) ≠ '-'.toUInt8 from by decide]

theorem noNul_space (spaced : Bool) : 0 ∉ space spaced := by
  cases spaced <;> decide

theorem noNul_separator (first : Bool) : 0 ∉ separator first := by
  cases first <;> decide

mutual
theorem noNul_print (spaced : Bool) : ∀ value : Json, 0 ∉ print spaced value
  | .null => by simp [print, nullText]
  | .boolean value => by cases value <;> simp [print, trueText, falseText]
  | .int value => by simp [print, noNul_intText]
  | .double mantissa exponent => by simp [print, noNul_intText, letterE]
  | .string text => by simp [print, noNul_printString]
  | .array items => by simp [print, openBracket, noNul_printItems spaced true items]
  | .object fields => by simp [print, openBrace, noNul_printFields spaced true fields]

theorem noNul_printItems (spaced first : Bool) : ∀ items : List Json, 0 ∉ printItems spaced first items
  | [] => by simp [printItems, closeBracket, noNul_space]
  | item :: items => by
    simp [printItems, noNul_separator, noNul_space, noNul_print spaced item, noNul_printItems spaced false items]

theorem noNul_printFields (spaced first : Bool) : ∀ fields : Fields, 0 ∉ printFields spaced first fields
  | [] => by simp [printFields, closeBrace, noNul_space]
  | (key, value) :: fields => by
    simp [printFields, noNul_separator, noNul_space, noNul_printString, colon, noNul_print spaced value,
      noNul_printFields spaced false fields]
end

end Razorback.JsonText
