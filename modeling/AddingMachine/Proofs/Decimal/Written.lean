import AddingMachine.Proofs.Decimal.Whole
import AddingMachine.Proofs.Scanner.Spelling

/-!
# Numerals

What is scanned as a number is the double nearest to its numeral, and what is written for a double is a
numeral that has it as its value.
-/

namespace AddingMachine

/-! ## §1 Literals are correctly rounded

A numeral stands for a rational number, `Numeral.toRat`. Scanning gives a number exactly where a
numeral stands that cannot be continued (`Scanner.next_eq_number_iff`), and the number is the double
nearest to what the numeral stands for, however many digits it has (`literals_correctly_rounded`). -/

namespace Numeral

/-! ### What a numeral stands for -/

def toRat : Numeral → ℚ
  | .whole digits => wholeValue digits.chars
  | .decimal digits fraction => wholeValue digits.chars + fractionValue fraction.chars

def toDecimal : Numeral → Decimal
  | .whole digits => .ofDigits digits.chars []
  | .decimal digits fraction => .ofDigits digits.chars fraction.chars

theorem value_eq (numeral : Numeral) : numeral.value = numeral.toDecimal.toBinary64 false := by
  cases numeral with
  | whole digits => rfl
  | decimal digits fraction => rfl

theorem toRat_toDecimal (numeral : Numeral) : numeral.toDecimal.toRat = numeral.toRat := by
  cases numeral with
  | whole digits =>
    show (Decimal.ofDigits digits.chars []).toRat = _
    rw [Decimal.toRat_ofDigits]
    exact add_zero _
  | decimal digits fraction => exact Decimal.toRat_ofDigits _ _

/-! ### Reading a numeral -/

/-- A numeral is read as a whole. -/
theorem ofChars?_chars (numeral : Numeral) :
    Decimal.ofChars? numeral.chars = some numeral.toDecimal := by
  cases numeral with
  | whole digits =>
    have htake := takeWhile_run digits.digit (.nil Char.isDigit)
    have hdrop := dropWhile_run digits.digit (.nil Char.isDigit)
    rw [List.append_nil] at htake hdrop
    -- all digits are taken, and nothing is left for a fraction
    simp [Decimal.ofChars?, chars, toDecimal, htake, hdrop, digits.ne_nil]
  | decimal digits fraction =>
    have hdot : Breaks Char.isDigit ('.' :: fraction.chars) := .cons rfl _
    have hfraction : fraction.chars.all Char.isDigit = true := List.all_eq_true.mpr fraction.digit
    -- the point ends the digits of the whole part
    simp [Decimal.ofChars?, chars, toDecimal, takeWhile_run digits.digit hdot,
      dropWhile_run digits.digit hdot, digits.ne_nil, fraction.ne_nil, hfraction]

/-- The words for infinities and NaN, and a minus sign, do not begin with a digit. -/
theorem ofText?_chars (numeral : Numeral) :
    Binary64.ofText? (String.ofList numeral.chars) = some numeral.value := by
  obtain ⟨c, more, hchars, hdigit⟩ := numeral.exists_cons
  have hread := numeral.ofChars?_chars
  rw [hchars] at hread
  rw [Binary64.ofText?, String.toList_ofList, hchars]
  split
  next heq =>
    obtain ⟨rfl, -⟩ := List.cons.inj heq
    cases hdigit
  next heq =>
    obtain ⟨rfl, -⟩ := List.cons.inj heq
    cases hdigit
  next heq =>
    obtain ⟨rfl, -⟩ := List.cons.inj heq
    cases hdigit
  next heq =>
    obtain ⟨rfl, -⟩ := List.cons.inj heq
    cases hdigit
  -- so the text is read as a decimal
  next => rw [hread, value_eq, Option.map_some]

end Numeral

/-! ### The nearest double without a minus sign -/

/-- Neither NaN nor with a minus sign; zero has one of the two signs. -/
def Binary64.HasPlusSign : Binary64 → Prop
  | .infinite false => True
  | .finite false _ => True
  | _ => False

namespace Numeral

/-- The value of a numeral is an infinity or a finite double, without a minus sign. -/
theorem value_cases (numeral : Numeral) :
    numeral.value = .infinite false ∨ ∃ m, numeral.value = .finite false m := by
  rw [value_eq]
  exact Decimal.toBinary64_cases false _

theorem hasPlusSign_value (numeral : Numeral) : numeral.value.HasPlusSign := by
  rcases numeral.value_cases with hvalue | ⟨m, hvalue⟩
  · rw [hvalue]
    trivial
  · rw [hvalue]
    trivial

/-- The value of a numeral is nearest to the number that it stands for. -/
theorem isNearest_value (numeral : Numeral) : Binary64.IsNearest numeral.toRat numeral.value := by
  have h := Decimal.toBinary64_isNearest false numeral.toDecimal
  rwa [← value_eq, if_neg Bool.false_ne_true, toRat_toDecimal] at h

/-- Without a minus sign, there is one nearest double. -/
theorem eq_value_iff (numeral : Numeral) (x : Binary64) :
    x = numeral.value ↔ Binary64.IsNearest numeral.toRat x ∧ x.HasPlusSign := by
  constructor
  · rintro rfl
    exact ⟨numeral.isNearest_value, numeral.hasPlusSign_value⟩
  · intro hx
    obtain ⟨hnearest, hplus⟩ := hx
    have hvalue := numeral.hasPlusSign_value
    rcases hnearest.unique numeral.isNearest_value with heq | ⟨s, s', rfl, heq'⟩
    · exact heq
    · -- both zeros have the same sign
      rw [heq'] at hvalue ⊢
      cases s with
      | true => exact hplus.elim
      | false =>
        cases s' with
        | true => exact hvalue.elim
        | false => rfl

/-- One half of the smallest subnormal is the last number whose numeral has the value zero. -/
theorem value_eq_zero_iff (numeral : Numeral) :
    numeral.value = .finite false .zero ↔ numeral.toRat ≤ 1 / 2 ^ 1075 := by
  rw [value_eq, Decimal.toBinary64_eq_zero_iff, toRat_toDecimal]

/-- From the bound on, numerals have an infinite value. -/
theorem value_eq_infinite_iff (numeral : Numeral) :
    numeral.value = .infinite false ↔ Binary64.bound ≤ numeral.toRat := by
  rw [value_eq, Decimal.toBinary64_eq_infinite_iff, toRat_toDecimal]

end Numeral

/-! ### Where numbers are found -/

/-- Scanning gives a number where a numeral stands, behind a gap, that cannot be continued. -/
theorem Scanner.next_eq_number_iff (s : Scanner) (value : Binary64) (position : Nat) :
    s.next.1 = .ok ⟨.number value, position⟩ ↔
      ∃ (gap : Gap) (numeral : Numeral) (rest : List Char),
        s.rest = gap.chars ++ (numeral.chars ++ rest) ∧ Breaks continuesNumber rest ∧
          position = s.position + gap.chars.length ∧ value = numeral.value := by
  obtain ⟨chars, start⟩ := s
  constructor
  · intro hnext
    -- a text begins in one of three ways, and only a lexeme can be a number
    cases opening chars with
    | gap gap =>
      rw [next_gap] at hnext
      cases hnext
    | lexeme gap lexeme rest hends =>
      rw [next_lexeme gap lexeme hends] at hnext
      cases lexeme with
      | number numeral =>
        cases hnext
        -- the lexeme is the numeral that was looked for
        exact ⟨gap, numeral, rest, rfl, hends, rfl, rfl⟩
      | sign operator =>
        -- a sign has another token
        cases operator with
        | add => cases hnext
        | subtract => cases hnext
    | misspelling gap m rest hstays =>
      rw [next_misspelling gap m hstays] at hnext
      cases hnext
  · intro hnumeral
    obtain ⟨gap, numeral, rest, hchars, hends, rfl, rfl⟩ := hnumeral
    obtain rfl : chars = gap.chars ++ (numeral.chars ++ rest) := hchars
    exact congrArg Prod.fst (next_lexeme gap (.number numeral) hends start)

/-- **Literals are correctly rounded.** A scanner gives a number exactly where a numeral stands that
cannot be continued. The text of every numeral is read, as the only nearest double without a minus
sign: zero up to one half of the smallest subnormal, and an infinity from halfway between the
largest finite double and `2 ^ 1024` on. -/
theorem literals_correctly_rounded :
    (∀ (s : Scanner) (value : Binary64) (position : Nat),
      s.next.1 = .ok ⟨.number value, position⟩ ↔
        ∃ (gap : Gap) (numeral : Numeral) (rest : List Char),
          s.rest = gap.chars ++ (numeral.chars ++ rest) ∧ Breaks continuesNumber rest ∧
            position = s.position + gap.chars.length ∧ value = numeral.value) ∧
      ∀ numeral : Numeral,
        Binary64.ofText? (String.ofList numeral.chars) = some numeral.value ∧
          (∀ x, x = numeral.value ↔ Binary64.IsNearest numeral.toRat x ∧ x.HasPlusSign) ∧
          (numeral.value = .finite false .zero ↔ numeral.toRat ≤ 1 / 2 ^ 1075) ∧
          (numeral.value = .infinite false ↔ 2 ^ 1024 - 2 ^ 970 ≤ numeral.toRat) := by
  refine ⟨Scanner.next_eq_number_iff, fun numeral => ?_⟩
  exact ⟨numeral.ofText?_chars, numeral.eq_value_iff, numeral.value_eq_zero_iff,
    numeral.value_eq_infinite_iff⟩

/-! ## §2 Decimals are written as numerals

What positional writing gives is a numeral, whatever the exponent is, and it stands for the decimal
that is written (`Decimal.exists_numeral`). The shortest decimal of a double is read as the double,
so its numeral has the double as its value (`Magnitude.exists_numeral`). -/

-- powers of natural numbers are the ones that decimals are defined with
attribute [local instance (2000)] instPowNat

/-! ### Digits -/

theorem isDigit_zeros {n : Nat} : ∀ c ∈ List.replicate n '0', c.isDigit = true := by
  intro c hc
  rw [List.eq_of_mem_replicate hc]
  rfl

theorem isDigit_append {chars more : List Char} (h : ∀ c ∈ chars, c.isDigit = true)
    (hmore : ∀ c ∈ more, c.isDigit = true) : ∀ c ∈ chars ++ more, c.isDigit = true := by
  intro c hc
  exact (List.mem_append.mp hc).elim (h c) (hmore c)

def Digits.zero : Digits :=
  ⟨['0'], List.cons_ne_nil _ _, @isDigit_zeros 1⟩

/-- Only the digits of zero begin with a zero. -/
theorem eq_zero_of_toDigits_cons {n : Nat} {more : List Char}
    (h : Nat.toDigits 10 n = '0' :: more) : n = 0 := by
  induction n using Nat.strongRecOn generalizing more with
  | ind n ih =>
    by_cases hsmall : n < 10
    -- a number of one digit is that digit
    · rw [Nat.toDigits_of_lt_base hsmall] at h
      exact Nat.digitChar_eq_zero.mp (List.cons.inj h).1
    · -- the first digit is that of a smaller number, which is not zero
      have hne : Nat.toDigits 10 (n / 10) ≠ [] := Nat.toDigits_ne_nil
      obtain ⟨c, rest, hrest⟩ := List.exists_cons_of_ne_nil hne
      rw [Nat.toDigits_of_base_le (by decide) (by omega), hrest] at h
      obtain ⟨rfl, -⟩ := List.cons.inj h
      have hzero := ih (n / 10) (by omega) hrest
      omega

namespace Numeral

def wholeDigits : Numeral → Digits
  | .whole digits => digits
  | .decimal digits _ => digits

/-- A zero before the point is the only digit there. -/
def NoLeadingZero (numeral : Numeral) : Prop :=
  ∀ more, numeral.wholeDigits.chars = '0' :: more → more = []

end Numeral

namespace Decimal

/-! ### Positional writing -/

variable (d : Decimal)

theorem digits_ne_nil : d.digits ≠ [] :=
  Nat.toDigits_ne_nil

theorem isDigit_digits : ∀ c ∈ d.digits, c.isDigit = true :=
  fun _ hc => Nat.isDigit_of_mem_toDigits (by decide) (by decide) hc

theorem ofDigitChars_digits : Nat.ofDigitChars 10 d.digits 0 = d.coefficient :=
  Nat.ofDigitChars_ten_toDigits

/-- Only zero has a digit in front that is zero, and then no other one. -/
theorem digits_eq_of_cons {more : List Char} (h : d.digits = '0' :: more) :
    d.coefficient = 0 ∧ more = [] := by
  have hzero : d.coefficient = 0 := eq_zero_of_toDigits_cons h
  rw [digits, hzero, Nat.toDigits_zero] at h
  exact ⟨hzero, (List.cons.inj h).2.symm⟩

def allDigits : Digits :=
  ⟨d.digits, d.digits_ne_nil, d.isDigit_digits⟩

theorem allDigits_noLeadingZero : (Numeral.whole d.allDigits).NoLeadingZero :=
  fun _ hmore => (d.digits_eq_of_cons hmore).2

/-- The digits, and zeros behind them. -/
def shiftedDigits (zeros : Nat) : Digits where
  chars := d.digits ++ List.replicate zeros '0'
  ne_nil := List.append_ne_nil_of_left_ne_nil d.digits_ne_nil _
  digit := isDigit_append d.isDigit_digits isDigit_zeros

theorem wholeValue_shiftedDigits (zeros : Nat) :
    wholeValue (d.shiftedDigits zeros).chars = d.coefficient * 10 ^ zeros := by
  rw [shiftedDigits, wholeValue_eq, Nat.ofDigitChars_append, Nat.ofDigitChars_replicate_zero,
    ofDigitChars_digits, Nat.cast_mul, cast_pow_eq, Nat.cast_ofNat, mul_comm]

/-- If the number is not zero, or no zero is added, the digits with zeros behind them have no zero in
front. -/
theorem shiftedDigits_noLeadingZero {zeros : Nat} (h : d.coefficient ≠ 0 ∨ zeros = 0)
    (more : List Char) (hmore : (d.shiftedDigits zeros).chars = '0' :: more) : more = [] := by
  obtain ⟨c, rest, hdigits⟩ := List.exists_cons_of_ne_nil d.digits_ne_nil
  have hchars : (d.shiftedDigits zeros).chars = d.digits ++ List.replicate zeros '0' := rfl
  rw [hchars, hdigits] at hmore
  obtain ⟨rfl, rfl⟩ := List.cons.inj hmore
  -- a zero in front is all the digits there are
  obtain ⟨hzero, rfl⟩ := d.digits_eq_of_cons hdigits
  rcases h with hne | rfl
  · exact absurd hzero hne
  · rfl

/-- With as many digits behind the point as the exponent says, the digits are those of the
coefficient. -/
theorem toRat_numeral (whole fraction : Digits)
    (hcoefficient : Nat.ofDigitChars 10 (whole.chars ++ fraction.chars) 0 = d.coefficient)
    (hexponent : d.exponent = -(fraction.chars.length : Int)) :
    (Numeral.decimal whole fraction).toRat = d.toRat := by
  rw [← Numeral.toRat_toDecimal, Numeral.toDecimal, ofDigits, hcoefficient, ← hexponent]

/-- The point stands between the digits, or zeros stand around it. -/
theorem exists_numeral_of_neg {n : Nat} (hexponent : d.exponent = .negSucc n) (pointZero : Bool) :
    ∃ numeral : Numeral, d.positionalChars pointZero = numeral.chars ∧ numeral.toRat = d.toRat ∧
      numeral.NoLeadingZero := by
  have hplaces : d.exponent = -((n + 1 : Nat) : Int) := hexponent
  simp only [positionalChars, hexponent]
  split
  next hlt =>
    -- the point stands between the digits, which are divided there
    have hsplit := List.take_append_drop (d.digits.length - (n + 1)) d.digits
    have hdigit : ∀ c ∈ d.digits.take (d.digits.length - (n + 1)) ++
        d.digits.drop (d.digits.length - (n + 1)), c.isDigit = true := by
      rw [hsplit]
      exact d.isDigit_digits
    have hdrop : (d.digits.drop (d.digits.length - (n + 1))).length = n + 1 := by
      rw [List.length_drop]
      omega
    have htake : (d.digits.take (d.digits.length - (n + 1))).length = d.digits.length - (n + 1) := by
      rw [List.length_take]
      omega
    generalize d.digits.take (d.digits.length - (n + 1)) = whole at hsplit hdigit htake ⊢
    generalize d.digits.drop (d.digits.length - (n + 1)) = fraction at hsplit hdigit hdrop ⊢
    -- there are digits on both sides of it
    have hwhole : whole ≠ [] := List.ne_nil_of_length_pos (by omega)
    have hfraction : fraction ≠ [] := List.ne_nil_of_length_pos (by omega)
    let numeral : Numeral :=
      .decimal ⟨whole, hwhole, fun c hc => hdigit c (List.mem_append_left _ hc)⟩
        ⟨fraction, hfraction, fun c hc => hdigit c (List.mem_append_right _ hc)⟩
    refine ⟨numeral, rfl, d.toRat_numeral _ _ ?_ ?_, fun more hmore => ?_⟩
    · rw [hsplit, ofDigitChars_digits]
    · rw [hplaces, hdrop]
    · -- a leading zero would be the only digit
      obtain rfl : whole = '0' :: more := hmore
      obtain ⟨-, hnone⟩ := d.digits_eq_of_cons hsplit.symm
      exact (List.append_eq_nil_iff.mp hnone).1
  next hge =>
    -- zeros stand between the point and the digits
    let numeral : Numeral :=
      .decimal .zero ⟨List.replicate (n + 1 - d.digits.length) '0' ++ d.digits,
        List.append_ne_nil_of_right_ne_nil _ d.digits_ne_nil,
        isDigit_append isDigit_zeros d.isDigit_digits⟩
    refine ⟨numeral, rfl, d.toRat_numeral _ _ ?_ ?_, fun more hmore => ?_⟩
    · show Nat.ofDigitChars 10 (List.replicate (n + 1 - d.digits.length + 1) '0' ++ d.digits) 0 = _
      rw [Nat.ofDigitChars_append, Nat.ofDigitChars_replicate_zero, Nat.mul_zero,
        ofDigitChars_digits]
    · rw [hplaces, List.length_append, List.length_replicate, Nat.sub_add_cancel (Nat.not_lt.mp hge)]
    · exact (List.cons.inj hmore).2.symm

/-- **Positional writing** gives a numeral that stands for the decimal. -/
theorem exists_numeral (pointZero : Bool) :
    ∃ numeral : Numeral, d.positionalChars pointZero = numeral.chars ∧ numeral.toRat = d.toRat ∧
      (d.coefficient ≠ 0 ∨ d.exponent ≤ 0 → numeral.NoLeadingZero) := by
  cases hexponent : d.exponent with
  | ofNat zeros =>
    -- the exponent is written as zeros behind the digits
    have hrat : wholeValue (d.shiftedDigits zeros).chars = d.toRat := by
      rw [wholeValue_shiftedDigits, toRat, hexponent, Int.ofNat_eq_natCast, zpow_natCast]
    have hzero : d.coefficient ≠ 0 ∨ Int.ofNat zeros ≤ 0 → d.coefficient ≠ 0 ∨ zeros = 0 :=
      Or.imp_right fun hle => Nat.le_zero.mp (Int.ofNat_le.mp hle)
    simp only [positionalChars, hexponent]
    cases pointZero with
    | false =>
      exact ⟨.whole (d.shiftedDigits zeros), List.append_nil _, hrat,
        fun h => d.shiftedDigits_noLeadingZero (hzero h)⟩
    | true =>
      refine ⟨.decimal (d.shiftedDigits zeros) .zero, rfl, ?_,
        fun h => d.shiftedDigits_noLeadingZero (hzero h)⟩
      rw [Numeral.toRat, hrat]
      simp [Digits.zero, fractionValue, digitValue]
  | negSucc n =>
    -- the exponent is written by the place of the point
    obtain ⟨numeral, hchars, hrat, hzero⟩ := d.exists_numeral_of_neg hexponent pointZero
    exact ⟨numeral, hchars, hrat, fun _ => hzero⟩

end Decimal

/-! ### The text of a double -/

/-- A numeral and a decimal that stand for one number are read as one double. -/
theorem Numeral.value_of_toRat {numeral : Numeral} {d : Decimal} (h : numeral.toRat = d.toRat) :
    numeral.value = d.toBinary64 false := by
  rw [value_eq]
  apply Decimal.toBinary64_congr
  rw [toRat_toDecimal, h]

/-- **Doubles are written as numerals** that have them as their values. -/
theorem Magnitude.exists_numeral (m : Magnitude) :
    ∃ numeral : Numeral, (Binary64.finite false m).chars .plain = numeral.chars ∧
      numeral.value = .finite false m := by
  obtain ⟨numeral, hchars, hrat, -⟩ := (m.shortest .up).exists_numeral false
  refine ⟨numeral, hchars, ?_⟩
  rw [Numeral.value_of_toRat hrat, toBinary64_shortest]

end AddingMachine
