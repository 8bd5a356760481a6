import AddingMachine.Json
import AddingMachine.Proofs.Decimal.Written

/-!
# Reading JSON

What a JSON text stands for, and that strings and numbers are read as they were written.
-/

namespace AddingMachine

/-! ## §1 Reading JSON

What a JSON text stands for, whoever has written it. `JsonValue.ofText?` reads all that the format
allows and nothing else: white space around values, every escape in strings, no control characters
in them, and no leading zeros in numbers. Numbers are read as exact decimals, and objects as their
fields in the order in which they stand. -/

/-- What a JSON text stands for. -/
inductive JsonValue where
  | null
  | bool (value : Bool)
  /-- A number by its sign, which a zero has too, and its absolute value. -/
  | number (negative : Bool) (value : Decimal)
  | string (text : String)
  | array (items : List JsonValue)
  | object (fields : List (String × JsonValue))

namespace JsonValue

/-! ### Strings -/

/-- The value of a hexadecimal digit. -/
def hexDigit? (c : Char) : Option Nat :=
  if c.isDigit then some (c.toNat - '0'.toNat)
  else if 'a' ≤ c ∧ c ≤ 'f' then some (c.toNat - 'a'.toNat + 10)
  else if 'A' ≤ c ∧ c ≤ 'F' then some (c.toNat - 'A'.toNat + 10)
  else none

/-- Reads the four hexadecimal digits of a UTF-16 unit. -/
def readUnit : List Char → Option (Nat × List Char)
  | a :: b :: c :: d :: rest => do
    let digits ← [a, b, c, d].mapM hexDigit?
    return (digits.foldl (fun unit digit => 16 * unit + digit) 0, rest)
  | _ => none

/-- Reads what stands behind a backslash and `u`: a unit that is a character, or the first of two
surrogates, and then the second one has to follow as an escape of its own. -/
def readUnits (text : List Char) : Option (Char × List Char) := do
  let (unit, rest) ← readUnit text
  if unit < 0xD800 ∨ 0xE000 ≤ unit then return (Char.ofNat unit, rest)
  else if 0xDC00 ≤ unit then none
  else match rest with
    | '\\' :: 'u' :: rest => do
      let (second, rest) ← readUnit rest
      if 0xDC00 ≤ second ∧ second < 0xE000 then
        return (Char.ofNat (0x10000 + 0x400 * (unit - 0xD800) + (second - 0xDC00)), rest)
      else none
    | _ => none

/-- What a letter stands for behind a backslash. -/
def escape? (c : Char) : Option Char :=
  if c = '\x22' ∨ c = '\\' ∨ c = '/' then some c
  else if c = 'b' then some '\x08'
  else if c = 'f' then some '\x0c'
  else if c = 'n' then some '\n'
  else if c = 'r' then some '\r'
  else if c = 't' then some '\t'
  else none

def readEscape : List Char → Option (Char × List Char)
  | [] => none
  | c :: rest => if c = 'u' then readUnits rest else (escape? c).map (·, rest)

/-- Reads one character of a string, as it stands or as an escape. -/
def readChar : List Char → Option (Char × List Char)
  | [] => none
  | c :: rest =>
    if c = '\\' then readEscape rest
    else if c.toNat < 32 then none
    else some (c, rest)

/-- Reads the rest of a string, behind its first quotation mark. As in all that follows, the number
bounds the steps that reading may take, and as many as there are characters are enough. -/
def readString : Nat → List Char → Option (List Char × List Char)
  | _, [] => none
  | 0, _ => none
  | steps + 1, c :: text =>
    if c = '\x22' then some ([], text)
    else do
      let (first, rest) ← readChar (c :: text)
      let (others, rest) ← readString steps rest
      return (first :: others, rest)

/-! ### Numbers -/

/-- Reads digits, and at least one. -/
def readDigits (text : List Char) : Option (List Char × List Char) :=
  let digits := text.takeWhile Char.isDigit
  if digits.isEmpty then none else some (digits, text.dropWhile Char.isDigit)

def readNatural (text : List Char) : Option (Nat × List Char) :=
  (readDigits text).map fun (digits, rest) => (Nat.ofDigitChars 10 digits 0, rest)

/-- Reads digits with a sign or without one. -/
def readInteger : List Char → Option (Int × List Char)
  | '-' :: rest => (readNatural rest).map fun (n, rest) => (-(n : Int), rest)
  | '+' :: rest => (readNatural rest).map fun (n, rest) => ((n : Int), rest)
  | text => (readNatural text).map fun (n, rest) => ((n : Int), rest)

/-- Reads a point and digits, or nothing. -/
def readFraction : List Char → Option (List Char × List Char)
  | '.' :: rest => readDigits rest
  | text => some ([], text)

/-- Reads an exponent, or nothing. -/
def readExponent : List Char → Option (Int × List Char)
  | [] => some (0, [])
  | c :: rest => if c = 'e' ∨ c = 'E' then readInteger rest else some (0, c :: rest)

/-- Reads a number without its sign. A zero in front has to be the only digit before the point. -/
def readDecimal (text : List Char) : Option (Decimal × List Char) := do
  let (whole, rest) ← readDigits text
  if whole.head? = some '0' ∧ whole ≠ ['0'] then none
  else
    let (fraction, rest) ← readFraction rest
    let (exponent, rest) ← readExponent rest
    return (⟨Nat.ofDigitChars 10 (whole ++ fraction) 0, exponent - fraction.length⟩, rest)

def readNumber : List Char → Option (JsonValue × List Char)
  | '-' :: rest => (readDecimal rest).map fun (d, rest) => (number true d, rest)
  | text => (readDecimal text).map fun (d, rest) => (number false d, rest)

/-! ### Values -/

def isBlank (c : Char) : Bool :=
  c = ' ' || c = '\t' || c = '\n' || c = '\r'

def skipBlanks (text : List Char) : List Char :=
  text.dropWhile isBlank

/-- What stands behind a mark, if it is the mark that comes next. -/
def behind? (mark : Char) (text : List Char) : Option (List Char) :=
  match skipBlanks text with
  | [] => none
  | c :: rest => if c = mark then some rest else none

def readWord (text : List Char) : Option (JsonValue × List Char) :=
  [("null", null), ("true", bool true), ("false", bool false)].findSome? fun (word, value) =>
    (word.toList.isPrefixOf? text).map (value, ·)

mutual

def readValue : Nat → List Char → Option (JsonValue × List Char)
  | 0, _ => none
  | steps + 1, text =>
    match skipBlanks text with
    | [] => none
    | c :: rest =>
      if c = '\x22' then
        (readString steps rest).map fun (chars, rest) => (string (String.ofList chars), rest)
      else if c = '[' then
        -- an empty array is told from others before an item is read
        match behind? ']' rest with
        | some rest => some (array [], rest)
        | none => do
          let (first, rest) ← readValue steps rest
          let (others, rest) ← readItems steps rest
          return (array (first :: others), rest)
      else if c = '\x7b' then
        match behind? '\x7d' rest with
        | some rest => some (object [], rest)
        | none => do
          let (first, rest) ← readField steps rest
          let (others, rest) ← readFields steps rest
          return (object (first :: others), rest)
      else if c = '-' ∨ c.isDigit then readNumber (c :: rest)
      else readWord (c :: rest)

/-- Reads the items behind the first one, and the bracket behind the last. -/
def readItems : Nat → List Char → Option (List JsonValue × List Char)
  | 0, _ => none
  | steps + 1, text =>
    match behind? ']' text with
    | some rest => some ([], rest)
    | none => do
      let rest ← behind? ',' text
      let (first, rest) ← readValue steps rest
      let (others, rest) ← readItems steps rest
      return (first :: others, rest)

def readField : Nat → List Char → Option ((String × JsonValue) × List Char)
  | 0, _ => none
  | steps + 1, text => do
    let rest ← behind? '\x22' text
    let (name, rest) ← readString steps rest
    let rest ← behind? ':' rest
    let (value, rest) ← readValue steps rest
    return ((String.ofList name, value), rest)

/-- Reads the fields behind the first one, and the brace behind the last. -/
def readFields : Nat → List Char → Option (List (String × JsonValue) × List Char)
  | 0, _ => none
  | steps + 1, text =>
    match behind? '\x7d' text with
    | some rest => some ([], rest)
    | none => do
      let rest ← behind? ',' text
      let (first, rest) ← readField steps rest
      let (others, rest) ← readFields steps rest
      return (first :: others, rest)

end

/-- The value that a text stands for, if it is JSON. -/
def ofText? (text : String) : Option JsonValue :=
  match readValue text.length text.toList with
  | some (value, rest) => if (skipBlanks rest).isEmpty then some value else none
  | none => none

end JsonValue

/-! ## §2 Strings and numbers in JSON

A string is read as the characters that were written (`JsonValue.readString_flatMap`), whichever of
them were escaped. A decimal is written as a numeral without leading zeros and perhaps an exponent
(`Decimal.exists_jsonChars`), and that is read as it stands (`JsonValue.readDecimal_chars`). -/

namespace JsonValue

/-! ### Strings -/

theorem hexDigit?_digitChar : ∀ n < 16, hexDigit? (Nat.digitChar n) = some n := by
  decide

/-- Control characters are written as units of their own. -/
theorem readUnits_control {n : Nat} (h : n < 32) (rest : List Char) :
    readUnits ('0' :: '0' :: Nat.digitChar (n / 16) :: Nat.digitChar (n % 16) :: rest) =
      some (Char.ofNat n, rest) := by
  have hzero : hexDigit? '0' = some 0 := rfl
  have hhigh := hexDigit?_digitChar (n / 16) (by omega)
  have hlow := hexDigit?_digitChar (n % 16) (by omega)
  have hunit : 16 * (n / 16) + n % 16 = n := Nat.div_add_mod n 16
  have hsmall : n < 0xD800 := by omega
  simp [readUnits, readUnit, hzero, hhigh, hlow, hunit, hsmall]

/-- A character is read as it was written. -/
theorem readChar_escaped (c : Char) (rest : List Char) :
    readChar (Json.escaped c ++ rest) = some (c, rest) := by
  unfold Json.escaped
  split_ifs with hmark hback hfeed hline hreturn htab hcontrol
  · -- a quotation mark or a backslash, each behind a backslash
    simp only [Bool.or_eq_true, decide_eq_true_eq] at hmark
    rcases hmark with rfl | rfl
    · rfl
    · rfl
  -- the control characters that have letters
  · subst hback
    rfl
  · subst hfeed
    rfl
  · subst hline
    rfl
  · subst hreturn
    rfl
  · subst htab
    rfl
  · -- the others
    have hunit := readUnits_control hcontrol rest
    rw [Char.ofNat_toNat] at hunit
    exact hunit
  · have hne : c ≠ '\\' := fun heq => hmark (by simp [heq])
    rw [List.singleton_append, readChar, if_neg hne, if_neg hcontrol]

/-- What is written for a character does not end the string. -/
theorem exists_escaped_cons (c : Char) :
    ∃ d more, Json.escaped c = d :: more ∧ d ≠ '\x22' := by
  unfold Json.escaped
  split_ifs with hmark
  -- it begins with a backslash, or is the character itself
  all_goals first
    | exact ⟨'\\', _, rfl, by decide⟩
    | exact ⟨c, [], rfl, fun heq => hmark (by simp [heq])⟩

/-- A string is read as the characters that were written. -/
theorem readString_flatMap (chars rest : List Char) {steps : Nat} (h : chars.length < steps) :
    readString steps (chars.flatMap Json.escaped ++ '\x22' :: rest) = some (chars, rest) := by
  induction chars generalizing steps with
  | nil =>
    obtain ⟨steps, rfl⟩ := Nat.exists_eq_add_of_lt h
    rfl
  | cons c chars ih =>
    obtain ⟨d, more, hescaped, hd⟩ := exists_escaped_cons c
    cases steps with
    | zero => cases h
    | succ steps =>
      -- the string does not end here, so a character is read
      have hchar := readChar_escaped c (chars.flatMap Json.escaped ++ '\x22' :: rest)
      rw [hescaped, List.cons_append] at hchar
      rw [List.flatMap_cons, hescaped, List.append_assoc, List.cons_append, readString, if_neg hd,
        hchar]
      simp [ih (Nat.lt_of_succ_lt_succ h)]

/-- Each character takes one step at least, so there are enough of them. -/
theorem length_le_flatMap_escaped (chars : List Char) :
    chars.length ≤ (chars.flatMap Json.escaped).length := by
  induction chars with
  | nil => exact Nat.le_refl _
  | cons c chars ih =>
    obtain ⟨d, more, hescaped, -⟩ := exists_escaped_cons c
    simp only [List.flatMap_cons, hescaped, List.length_append, List.length_cons]
    omega

/-! ### Numbers -/

/-- Whether a character behind a number would belong to it, rightly or wrongly. -/
def extendsNumber (c : Char) : Bool :=
  continuesNumber c || c = 'e' || c = 'E'

theorem breaks_of_extendsNumber {rest : List Char} (h : Breaks extendsNumber rest) :
    Breaks continuesNumber rest := by
  intro c hc
  have hbreaks := h c hc
  simp only [extendsNumber, Bool.or_eq_false_iff] at hbreaks
  exact hbreaks.1.1

/-- Where nothing continues a number, no digit follows. -/
theorem breaks_isDigit {rest : List Char} (h : Breaks continuesNumber rest) :
    Breaks Char.isDigit rest := by
  intro c hc
  have hbreaks := h c hc
  simp only [continuesNumber, Bool.or_eq_false_iff] at hbreaks
  exact hbreaks.1

theorem readDigits_chars (digits : Digits) {rest : List Char} (h : Breaks Char.isDigit rest) :
    readDigits (digits.chars ++ rest) = some (digits.chars, rest) := by
  simp [readDigits, takeWhile_run digits.digit h, dropWhile_run digits.digit h, digits.ne_nil]

theorem readFraction_breaks {rest : List Char} (h : Breaks continuesNumber rest) :
    readFraction rest = some ([], rest) := by
  unfold readFraction
  split
  next => cases h '.' rfl
  next => rfl

/-- Without a letter for it there is no exponent. -/
theorem readExponent_breaks {rest : List Char} (h : Breaks extendsNumber rest) :
    readExponent rest = some (0, rest) := by
  cases rest with
  | nil => rfl
  | cons c rest =>
    have hbreaks := h c rfl
    simp only [extendsNumber, Bool.or_eq_false_iff, decide_eq_false_iff_not] at hbreaks
    exact if_neg fun heq => heq.elim hbreaks.1.2 hbreaks.2

theorem readNatural_toDigits (n : Nat) {rest : List Char} (h : Breaks Char.isDigit rest) :
    readNatural (Nat.toDigits 10 n ++ rest) = some (n, rest) := by
  have hdigits : readDigits (Nat.toDigits 10 n ++ rest) = some (Nat.toDigits 10 n, rest) :=
    readDigits_chars (Decimal.allDigits ⟨n, 0⟩) h
  simp [readNatural, hdigits, Nat.ofDigitChars_ten_toDigits]

/-- An exponent as it is written in JSON, if there is one: always with a sign. -/
def exponentChars : Option Int → List Char
  | none => []
  | some exponent =>
    'e' :: (if exponent < 0 then ['-'] else ['+']) ++ Nat.toDigits 10 exponent.natAbs

theorem breaks_exponentChars (exponent : Option Int) {rest : List Char}
    (h : Breaks extendsNumber rest) :
    Breaks continuesNumber (exponentChars exponent ++ rest) := by
  cases exponent with
  | none => exact breaks_of_extendsNumber h
  | some exponent => exact .cons rfl _

/-- An exponent is read as it is written, with its sign. -/
theorem readExponent_chars (exponent : Option Int) {rest : List Char}
    (h : Breaks extendsNumber rest) :
    readExponent (exponentChars exponent ++ rest) = some (exponent.getD 0, rest) := by
  cases exponent with
  | none => exact readExponent_breaks h
  | some exponent =>
    have hdigit := breaks_isDigit (breaks_of_extendsNumber h)
    have hnatural := readNatural_toDigits exponent.natAbs hdigit
    -- the sign stands in front of the absolute value
    by_cases hneg : exponent < 0
    · rw [exponentChars, if_pos hneg]
      show (readNatural (Nat.toDigits 10 exponent.natAbs ++ rest)).map _ = _
      simp [hnatural, abs_of_neg hneg]
    · rw [exponentChars, if_neg hneg]
      show (readNatural (Nat.toDigits 10 exponent.natAbs ++ rest)).map _ = _
      simp [hnatural, not_lt.mp hneg]

/-- A zero in front is the only digit, if zeros do not lead. -/
theorem not_leadingZero {digits : Digits} (h : (Numeral.whole digits).NoLeadingZero) :
    ¬ (digits.chars.head? = some '0' ∧ digits.chars ≠ ['0']) := by
  rintro ⟨hhead, hne⟩
  obtain ⟨more, hmore⟩ := List.head?_eq_some_iff.mp hhead
  obtain rfl : more = [] := h more hmore
  exact hne hmore

/-- A numeral without a leading zero is read as it stands, and then the exponent behind it. -/
theorem readDecimal_chars {numeral : Numeral} (hzero : numeral.NoLeadingZero)
    {tail rest : List Char} {exponent : Int} (htail : Breaks continuesNumber tail)
    (hexponent : readExponent tail = some (exponent, rest)) :
    readDecimal (numeral.chars ++ tail) =
      some (⟨numeral.toDecimal.coefficient, exponent + numeral.toDecimal.exponent⟩, rest) := by
  cases numeral with
  -- the digits end where the tail begins
  | whole digits =>
    have hdigits := readDigits_chars digits (breaks_isDigit htail)
    simp [readDecimal, Numeral.chars, Numeral.toDecimal, Decimal.ofDigits, hdigits,
      not_leadingZero hzero, readFraction_breaks htail, hexponent]
  -- they end at the point, and the fraction where the tail begins
  | decimal digits fraction =>
    have hpoint : Breaks Char.isDigit ('.' :: (fraction.chars ++ tail)) := .cons rfl _
    have hdigits := readDigits_chars digits hpoint
    have hfraction := readDigits_chars fraction (breaks_isDigit htail)
    simp [readDecimal, Numeral.chars, Numeral.toDecimal, Decimal.ofDigits, hdigits,
      not_leadingZero hzero, readFraction, hfraction, hexponent, sub_eq_add_neg]

end JsonValue

namespace Decimal

variable (d : Decimal)

/-- The first digit, and a point and the others if there are any. -/
theorem exists_mantissa :
    ∃ numeral : Numeral, d.digits.take 1 ++
        (if (d.digits.drop 1).isEmpty then [] else '.' :: d.digits.drop 1) = numeral.chars ∧
      numeral.NoLeadingZero ∧
      numeral.toDecimal = ⟨d.coefficient, 1 - d.digits.length⟩ := by
  obtain ⟨c, more, hdigits, hc⟩ := d.allDigits.exists_cons
  have hdigits : d.digits = c :: more := hdigits
  have hdigit : ∀ a ∈ c :: more, a.isDigit = true := hdigits ▸ d.isDigit_digits
  have hvalue : Nat.ofDigitChars 10 (c :: more) 0 = d.coefficient := hdigits ▸ d.ofDigitChars_digits
  have hfirst : ∀ a ∈ [c], a.isDigit = true := fun a ha => List.mem_singleton.mp ha ▸ hc
  let first : Digits := ⟨[c], List.cons_ne_nil _ _, hfirst⟩
  rw [hdigits]
  -- without other digits there is no point
  cases more with
  | nil =>
    refine ⟨.whole first, rfl, fun more hmore => (List.cons.inj hmore).2.symm, ?_⟩
    simp [Numeral.toDecimal, ofDigits, first, hvalue]
  -- the others are the fraction
  | cons a more =>
    have hothers : ∀ b ∈ a :: more, b.isDigit = true := fun b hb => hdigit b (.tail c hb)
    refine ⟨.decimal first ⟨a :: more, List.cons_ne_nil _ _, hothers⟩, rfl,
      fun more hmore => (List.cons.inj hmore).2.symm, ?_⟩
    simp [Numeral.toDecimal, ofDigits, first, hvalue]

/-- In JSON, a decimal is a numeral, and perhaps an exponent. -/
theorem exists_jsonChars (h : d.coefficient ≠ 0 ∨ d.exponent ≤ 0) :
    ∃ (numeral : Numeral) (exponent : Option Int),
      d.chars .json = numeral.chars ++ JsonValue.exponentChars exponent ∧ numeral.NoLeadingZero ∧
        (mk numeral.toDecimal.coefficient (exponent.getD 0 + numeral.toDecimal.exponent)).toRat =
          d.toRat := by
  unfold chars
  split
  next =>
    -- positional writing has no exponent
    obtain ⟨numeral, hchars, hrat, hzero⟩ := d.exists_numeral true
    refine ⟨numeral, none, ?_, hzero h, ?_⟩
    · rw [JsonValue.exponentChars, List.append_nil]
      exact hchars
    · rw [Option.getD_none, zero_add, ← hrat]
      exact numeral.toRat_toDecimal
  next =>
    -- the exponent of the first digit, less the digits behind it, is that of the last
    obtain ⟨numeral, hchars, hzero, hdecimal⟩ := d.exists_mantissa
    refine ⟨numeral, some d.leadingExponent, ?_, hzero, ?_⟩
    · rw [← hchars]
      simp [scientificChars, JsonValue.exponentChars, NumberStyle.json]
    · have hexponent : d.leadingExponent + (1 - d.digits.length) = d.exponent := by
        rw [leadingExponent]
        omega
      rw [hdecimal, Option.getD_some, hexponent]

end Decimal

end AddingMachine
