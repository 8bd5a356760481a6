import AddingMachine.Decimal
import AddingMachine.Proofs.Rounding

/-!
# Nearest doubles

Doubles and decimals stand for rational numbers, and what is rounded to a double, a quotient or a
decimal, is rounded to the nearest one.
-/

namespace AddingMachine

/-! ## §1 The nearest double

A finite double stands for a rational number. `IsNearest q x` says that rounding `q` to nearest,
with ties to the even significand, gives `x`: no finite double is nearer to `q`, or `q` is too large
for all of them. `nearest` gives such a double (`nearest_isNearest`), there is no other one
(`IsNearest.unique`), and only the quotient that `nearest` is given counts (`nearest_congr`). -/

-- powers of natural numbers are the ones that rounding is defined with
attribute [local instance (2000)] instPowNat

/-! ### Doubles as numbers -/

/-- The number that a finite double of the given sign stands for. -/
def Magnitude.toRat (negative : Bool) (m : Magnitude) : ℚ :=
  m.signed negative / 2 ^ 1074

theorem Magnitude.eq_iff {m m' : Magnitude} : m = m' ↔ m.units = m'.units := by
  obtain ⟨units, hunits⟩ := m
  obtain ⟨units', hunits'⟩ := m'
  rw [mk.injEq]

namespace Binary64

/-- Halfway between the largest finite double and `2 ^ 1024`, which has the even significand. -/
def bound : ℚ :=
  2 ^ 1024 - 2 ^ 970

/-- The double is what a number is rounded to; as a number, zero has no sign. -/
inductive IsNearest (q : ℚ) : Binary64 → Prop where
  /-- No finite double is nearer, and if another one is as near, the significand is even. -/
  | finite (negative : Bool) (m : Magnitude) (hbound : |q| < bound)
      (hnearest : ∀ s x, |m.toRat negative - q| ≤ |Magnitude.toRat s x - q|)
      (heven : ∀ s x, Magnitude.toRat s x ≠ m.toRat negative →
        |m.toRat negative - q| = |Magnitude.toRat s x - q| → Rounding.EvenSignificand m.units) :
      IsNearest q (.finite negative m)
  /-- All finite doubles are too small. -/
  | infinite (negative : Bool) (hbound : bound ≤ if negative then -q else q) :
      IsNearest q (.infinite negative)

end Binary64

/-! ### The two signs -/

@[simp] theorem Magnitude.units_zero : Magnitude.zero.units = 0 :=
  rfl

@[simp] theorem Magnitude.signed_false (m : Magnitude) : m.signed false = m.units :=
  rfl

@[simp] theorem Magnitude.signed_true (m : Magnitude) : m.signed true = -m.units :=
  rfl

theorem Magnitude.signed_not (negative : Bool) (m : Magnitude) :
    m.signed (!negative) = -m.signed negative := by
  cases negative with
  | false => rfl
  | true => exact (neg_neg _).symm

theorem Magnitude.toRat_not (negative : Bool) (m : Magnitude) :
    m.toRat (!negative) = -m.toRat negative := by
  rw [toRat, toRat, signed_not, Int.cast_neg, neg_div]

namespace Binary64

/-- Rounding treats both signs alike. -/
theorem IsNearest.neg {q : ℚ} {x : Binary64} (h : IsNearest q x) : IsNearest (-q) x.neg := by
  -- a distance is that of the opposite numbers
  have hdist : ∀ negative (m : Magnitude),
      |m.toRat negative - -q| = |m.toRat (!negative) - q| := by
    intro negative m
    rw [m.toRat_not, ← abs_neg]
    congr 1
    ring
  cases h with
  | finite negative m hbound hnearest heven =>
    refine .finite _ m (by rwa [abs_neg]) (fun s x => ?_) (fun s x hne htie => ?_)
    -- no double is nearer to the opposite number
    · rw [hdist, hdist, Bool.not_not]
      exact hnearest _ x
    -- and a tie there is one here
    · rw [hdist, hdist, Bool.not_not] at htie
      refine heven _ x ?_ htie
      intro heq
      apply hne
      rw [← Bool.not_not s, x.toRat_not, heq, m.toRat_not]
  | infinite negative hbound =>
    apply IsNearest.infinite
    cases negative with
    | false => simpa using hbound
    | true => simpa using hbound

/-- The sign is no part of rounding. -/
theorem neg_nearest (negative : Bool) (num den : Nat) :
    (nearest negative num den).neg = nearest (!negative) num den := by
  unfold nearest
  split
  · rfl
  · rfl

/-! ### Rounding a quotient -/

section Quotient

variable (num : Nat) {den : Nat}

theorem unit_pos : (0 : ℚ) < 2 ^ 1074 :=
  pow_pos two_pos 1074

/-- The bound is one half of the last gap below `2 ^ 1024`. -/
theorem bound_mul_unit : bound * 2 ^ 1074 = (2 ^ 53 - 1 / 2) * 2 ^ 2045 := by
  have hlarge : (2 : ℚ) ^ 1024 = 2 ^ 54 * 2 ^ 970 := by rw [← pow_add]
  have hhalf : (2 : ℚ) ^ 2045 = 2 * (2 ^ 970 * 2 ^ 1074) := by rw [← pow_add, ← pow_succ']
  rw [bound, hlarge, hhalf]
  generalize (2 : ℚ) ^ 970 = gap
  generalize (2 : ℚ) ^ 1074 = unit
  ring

/-- What is rounded is finite exactly below the bound. -/
theorem significant_lt_overflow_iff_bound (hden : 0 < den) :
    Rounding.significant num den < Rounding.overflow ↔ (num : ℚ) / den / 2 ^ 1074 < bound := by
  rw [Rounding.significant_lt_overflow_iff num hden, ← bound_mul_unit, div_lt_iff₀ unit_pos]

/-- Distances in units. -/
theorem dist_unit (x y : ℚ) : |x / 2 ^ 1074 - y / 2 ^ 1074| = |x - y| / 2 ^ 1074 := by
  rw [← sub_div, abs_div, abs_of_pos unit_pos]

/-- No finite double of either sign is nearer to the quotient than what this is rounded to. -/
theorem significant_nearest_signed (hden : 0 < den) (s : Bool) (x : Magnitude) :
    |(Rounding.significant num den : ℚ) - num / den| ≤ |(x.signed s : ℚ) - num / den| ∧
      ((x.signed s : ℚ) ≠ Rounding.significant num den →
        |(Rounding.significant num den : ℚ) - num / den| = |(x.signed s : ℚ) - num / den| →
        Rounding.EvenSignificand (Rounding.significant num den)) := by
  cases s with
  | false =>
    -- on the side of the quotient this is what rounding does
    obtain ⟨hle, heven⟩ := Rounding.significant_nearest num hden x.representable.short
    exact ⟨hle, fun hne => heven fun heq => hne (congrArg Nat.cast heq)⟩
  | true =>
    -- zero lies between a negative number and the quotient
    obtain ⟨hle, heven⟩ := Rounding.significant_nearest num hden Magnitude.zero.representable.short
    have hquotient : (0 : ℚ) ≤ num / den := by positivity
    have hunits : (0 : ℚ) ≤ x.units := Nat.cast_nonneg _
    have hsigned : (x.signed true : ℚ) = -x.units := by simp
    have hzero : |((Magnitude.zero.units : Nat) : ℚ) - num / den| = num / den := by
      rw [Magnitude.units_zero, Nat.cast_zero, zero_sub, abs_neg, abs_of_nonneg hquotient]
    have hdist : |-(x.units : ℚ) - num / den| = x.units + num / den := by
      rw [← neg_add', abs_neg, abs_of_nonneg (by linarith)]
    rw [hzero] at hle heven
    rw [hsigned, hdist]
    refine ⟨by linarith, fun hne htie => heven ?_ (by linarith)⟩
    -- a tie leaves only zero on the other side
    have hnone : (x.units : ℚ) = 0 := by linarith
    rw [hnone, neg_zero] at hne
    intro heq
    apply hne
    rw [← heq]
    rfl

/-- A quotient is rounded to the double that is nearest to it. -/
theorem nearest_false_isNearest (hden : 0 < den) :
    IsNearest (num / den / 2 ^ 1074) (nearest false num den) := by
  have hquotient : (0 : ℚ) ≤ num / den / 2 ^ 1074 := div_nonneg (by positivity) unit_pos.le
  unfold nearest
  split
  next hsmall =>
    have hbound := (significant_lt_overflow_iff_bound num hden).mp hsmall
    -- distances are compared in units
    apply IsNearest.finite
    · rwa [abs_of_nonneg hquotient]
    · intro s x
      rw [Magnitude.toRat, Magnitude.toRat, dist_unit, dist_unit]
      exact div_le_div_of_nonneg_right (significant_nearest_signed num hden s x).1 unit_pos.le
    · intro s x hne htie
      rw [Magnitude.toRat, Magnitude.toRat, dist_unit, dist_unit,
        div_left_inj' unit_pos.ne'] at htie
      refine (significant_nearest_signed num hden s x).2 (fun heq => hne ?_) htie
      rw [Magnitude.toRat, heq]
      rfl
  next hlarge =>
    apply IsNearest.infinite
    -- what overflows is not below the bound
    apply not_lt.mp
    intro hlt
    exact hlarge ((significant_lt_overflow_iff_bound num hden).mpr hlt)

/-- **Rounding a quotient** gives the nearest double. -/
theorem nearest_isNearest (negative : Bool) (hden : 0 < den) :
    IsNearest (if negative then -(num / den / 2 ^ 1074) else num / den / 2 ^ 1074)
      (nearest negative num den) := by
  cases negative with
  | false => exact nearest_false_isNearest num hden
  | true =>
    have h := (nearest_false_isNearest num hden).neg
    rwa [neg_nearest] at h

/-- Only the quotient has a part in what it is rounded to. -/
theorem nearest_congr (negative : Bool) {num' den' : Nat} (hden : 0 < den) (hden' : 0 < den')
    (h : (num : ℚ) / den = num' / den') : nearest negative num den = nearest negative num' den' := by
  simp only [nearest, Rounding.significant_congr num hden hden' h]

/-! ### Zero and the infinities -/

/-- Rounding keeps the sign and never gives NaN. -/
theorem nearest_cases (negative : Bool) (den : Nat) :
    nearest negative num den = .infinite negative ∨
      ∃ m, nearest negative num den = .finite negative m := by
  unfold nearest
  split
  · exact .inr ⟨_, rfl⟩
  · exact .inl rfl

/-- One half of the smallest subnormal is the last number that is rounded to zero. -/
theorem nearest_eq_zero_iff (negative : Bool) (hden : 0 < den) :
    nearest negative num den = .finite negative .zero ↔
      (num : ℚ) / den / 2 ^ 1074 ≤ 1 / 2 ^ 1075 := by
  have hhalf : (1 : ℚ) / 2 ^ 1075 = 1 / 2 / 2 ^ 1074 := by
    rw [pow_succ' 2 1074, div_div]
  rw [hhalf, div_le_div_iff_of_pos_right unit_pos, ← Rounding.significant_eq_zero_iff num hden]
  unfold nearest
  split
  next hsmall =>
    rw [finite.injEq, Magnitude.eq_iff]
    exact and_iff_right rfl
  next hlarge =>
    -- what overflows is not zero
    apply iff_of_false
    · nofun
    · intro hzero
      exact hlarge (hzero ▸ Rounding.overflow_pos)

/-- From the bound on, what is rounded is infinite. -/
theorem nearest_eq_infinite_iff (negative : Bool) (hden : 0 < den) :
    nearest negative num den = .infinite negative ↔ bound ≤ (num : ℚ) / den / 2 ^ 1074 := by
  rw [← not_lt, ← significant_lt_overflow_iff_bound num hden]
  unfold nearest
  split
  next hsmall => exact iff_of_false nofun (not_not_intro hsmall)
  next hlarge => exact iff_of_true rfl hlarge

end Quotient

/-! ### There is one nearest double -/

end Binary64

theorem Magnitude.toRat_lt_toRat_iff (s s' : Bool) (m m' : Magnitude) :
    m.toRat s < m'.toRat s' ↔ m.signed s < m'.signed s' := by
  rw [toRat, toRat, div_lt_div_iff_of_pos_right Binary64.unit_pos, Int.cast_lt]

/-- Between two doubles of even significand there is another one. -/
theorem Magnitude.exists_between (s s' : Bool) {m m' : Magnitude}
    (heven : Rounding.EvenSignificand m.units) (heven' : Rounding.EvenSignificand m'.units)
    (h : m.toRat s < m'.toRat s') :
    ∃ (sign : Bool) (between : Magnitude),
      m.toRat s < between.toRat sign ∧ between.toRat sign < m'.toRat s' := by
  -- found among the units, the other one is below the overflow as well
  have hunits : ∀ low high : Magnitude, Rounding.EvenSignificand low.units →
      Rounding.EvenSignificand high.units → low.units < high.units →
      ∃ between : Magnitude, low.units < between.units ∧ between.units < high.units := by
    intro low high hlow hhigh hlt
    obtain ⟨units, hshort, habove, hbelow⟩ := Rounding.exists_short_between hlow hhigh hlt
    have hoverflow := hbelow.trans high.representable.lt_overflow
    exact ⟨⟨units, hshort.representable hoverflow⟩, habove, hbelow⟩
  simp only [toRat_lt_toRat_iff] at h ⊢
  cases s with
  | false =>
    cases s' with
    | false =>
      -- both are positive
      obtain ⟨between, habove, hbelow⟩ := hunits m m' heven heven' (Int.ofNat_lt.mp h)
      exact ⟨false, between, Int.ofNat_lt.mpr habove, Int.ofNat_lt.mpr hbelow⟩
    | true =>
      simp only [signed_false, signed_true] at h
      omega
  | true =>
    cases s' with
    | false =>
      -- one of the two is not zero, and zero has an even significand
      simp only [signed_false, signed_true] at h ⊢
      rcases Nat.eq_zero_or_pos m'.units with hzero | hpos
      · obtain ⟨between, habove, hbelow⟩ :=
          hunits .zero m Rounding.evenSignificand_zero heven (by rw [units_zero]; omega)
        rw [units_zero] at habove
        exact ⟨true, between, by rw [signed_true]; omega, by rw [signed_true]; omega⟩
      · obtain ⟨between, habove, hbelow⟩ :=
          hunits .zero m' Rounding.evenSignificand_zero heven' hpos
        rw [units_zero] at habove
        exact ⟨false, between, by rw [signed_false]; omega, Int.ofNat_lt.mpr hbelow⟩
    | true =>
      simp only [signed_true, Int.neg_lt_neg_iff, Int.ofNat_lt] at h
      -- both are negative, and their units are in the other order
      obtain ⟨between, habove, hbelow⟩ := hunits m' m heven' heven h
      refine ⟨true, between, ?_, ?_⟩
      · exact Int.neg_lt_neg (Int.ofNat_lt.mpr hbelow)
      · exact Int.neg_lt_neg (Int.ofNat_lt.mpr habove)

/-- Doubles that stand for one number are the same, but for the sign of zero. -/
theorem Magnitude.eq_or_eq_zero {s s' : Bool} {m m' : Magnitude} (h : m.toRat s = m'.toRat s') :
    (s = s' ∧ m = m') ∨ (m = .zero ∧ m' = .zero) := by
  rw [toRat, toRat, div_left_inj' Binary64.unit_pos.ne', Int.cast_inj] at h
  simp only [eq_iff, units_zero]
  cases s with
  | false =>
    cases s' with
    | false => exact .inl ⟨rfl, Int.ofNat_inj.mp h⟩
    | true =>
      simp only [signed_false, signed_true] at h
      -- of two signs, one number is zero
      exact .inr (by omega)
  | true =>
    cases s' with
    | false =>
      simp only [signed_false, signed_true] at h
      exact .inr (by omega)
    | true => exact .inl ⟨rfl, Int.ofNat_inj.mp (Int.neg_inj.mp h)⟩

namespace Binary64

/-- What is as far from a number on the other side is farther than all between. -/
theorem abs_sub_lt_of_between {x y z q : ℚ} (hxz : x < z) (hzy : z < y)
    (h : |x - q| = |y - q|) : |z - q| < |x - q| := by
  rcases abs_eq_abs.mp h with heq | heq
  · linarith
  · rw [abs_of_neg (by linarith : x - q < 0), abs_lt]
    exact ⟨by linarith, by linarith⟩

/-- The finite doubles that are nearest are one number. -/
theorem IsNearest.toRat_le {q : ℚ} {s s' : Bool} {m m' : Magnitude}
    (h : IsNearest q (.finite s m)) (h' : IsNearest q (.finite s' m')) :
    m'.toRat s' ≤ m.toRat s := by
  cases h with
  | finite _ _ _ hnearest heven =>
    cases h' with
    | finite _ _ _ hnearest' heven' =>
      have hdist := le_antisymm (hnearest s' m') (hnearest' s m)
      apply not_lt.mp
      intro hlt
      -- two doubles at the same distance have even significands, and so another one between them
      obtain ⟨sign, between, habove, hbelow⟩ := Magnitude.exists_between s s'
        (heven s' m' hlt.ne' hdist) (heven' s m hlt.ne hdist.symm) hlt
      exact absurd (hnearest sign between) (abs_sub_lt_of_between habove hbelow hdist).not_ge

theorem bound_pos : 0 < bound := by
  have hlarge : (2 : ℚ) ^ 1024 = 2 ^ 54 * 2 ^ 970 := by rw [← pow_add]
  have hpos : (0 : ℚ) < 2 ^ 970 := pow_pos two_pos 970
  rw [bound, hlarge]
  generalize (2 : ℚ) ^ 970 = gap at hpos
  linarith

theorem bound_le_abs {q : ℚ} {s : Bool} (h : bound ≤ if s then -q else q) : bound ≤ |q| := by
  apply h.trans
  cases s with
  | false => exact le_abs_self q
  | true => exact neg_le_abs q

/-- What is beyond all finite doubles has a sign. -/
theorem sign_unique {q : ℚ} {s s' : Bool} (h : bound ≤ if s then -q else q)
    (h' : bound ≤ if s' then -q else q) : s = s' := by
  have hpos := bound_pos
  by_contra hne
  obtain rfl : s' = !s := Bool.eq_not.mpr (Ne.symm hne)
  cases s with
  | false =>
    simp only [Bool.not_false, if_true, Bool.false_eq_true, if_false] at h h'
    linarith
  | true =>
    simp only [Bool.not_true, if_true, Bool.false_eq_true, if_false] at h h'
    linarith

/-- **No other double is nearest**, but that zero has two signs. -/
theorem IsNearest.unique {q : ℚ} {x y : Binary64} (hx : IsNearest q x) (hy : IsNearest q y) :
    x = y ∨ ∃ s s', x = .finite s .zero ∧ y = .finite s' .zero := by
  have hx' := hx
  have hy' := hy
  cases hx with
  | finite s m hbelow =>
    cases hy with
    | finite s' m' =>
      -- each of them is at most the other
      have heq := le_antisymm (hy'.toRat_le hx') (hx'.toRat_le hy')
      rcases Magnitude.eq_or_eq_zero heq with ⟨rfl, rfl⟩ | ⟨rfl, rfl⟩
      · exact .inl rfl
      · exact .inr ⟨s, s', rfl, rfl⟩
    -- what is finite is below the bound, and what is infinite is not
    | infinite s' hbound => exact absurd (bound_le_abs hbound) hbelow.not_ge
  | infinite s hbound =>
    cases hy with
    | finite s' m' hbelow => exact absurd (bound_le_abs hbound) hbelow.not_ge
    | infinite s' hbound' => exact .inl (congrArg Binary64.infinite (sign_unique hbound hbound'))

end Binary64

/-! ## §2 The value of a decimal

A `Decimal` stands for a rational number, `Decimal.toRat`, and the number that digits stand for is
defined place by place (`wholeValue`, `fractionValue`). The double of a decimal is the one nearest to
its rational number (`toBinary64_isNearest`), which alone decides what the double is
(`toBinary64_congr`): neither leading nor trailing zeros have a part in it. -/

/-! ### Places -/

def digitValue (c : Char) : Nat :=
  c.toNat - '0'.toNat

/-- The number that digits stand for: as many powers of ten as other digits follow. -/
def wholeValue : List Char → ℚ
  | [] => 0
  | c :: rest => digitValue c * 10 ^ rest.length + wholeValue rest

/-- The number that digits behind a point stand for: tenths, tenths of these, and so on. -/
def fractionValue : List Char → ℚ
  | [] => 0
  | c :: rest => (digitValue c + fractionValue rest) / 10

theorem ofDigitChars_cons_zero (c : Char) (rest : List Char) :
    Nat.ofDigitChars 10 (c :: rest) 0 =
      10 ^ rest.length * digitValue c + Nat.ofDigitChars 10 rest 0 := by
  rw [Nat.ofDigitChars_cons, Nat.mul_zero, Nat.zero_add, Nat.ofDigitChars_eq_ofDigitChars_zero]
  rfl

/-- Place by place, digits make the number that they are read as. -/
theorem wholeValue_eq (digits : List Char) :
    wholeValue digits = (Nat.ofDigitChars 10 digits 0 : Nat) := by
  induction digits with
  | nil => rfl
  | cons c rest ih =>
    rw [wholeValue, ih, ofDigitChars_cons_zero]
    push_cast
    ring

/-- Behind the point, digits count in units of the last place. -/
theorem fractionValue_eq (digits : List Char) :
    fractionValue digits = (Nat.ofDigitChars 10 digits 0 : Nat) / 10 ^ digits.length := by
  induction digits with
  | nil => simp [fractionValue]
  | cons c rest ih =>
    have hpos : (0 : ℚ) < 10 ^ rest.length := by positivity
    rw [fractionValue, ih, ofDigitChars_cons_zero, List.length_cons, pow_succ]
    push_cast
    field_simp

namespace Decimal

/-! ### Decimals as numbers -/

/-- The number that a decimal is. -/
def toRat (d : Decimal) : ℚ :=
  d.coefficient * 10 ^ d.exponent

/-- Digits before and behind a point stand for what they do in their places. -/
theorem toRat_ofDigits (whole fraction : List Char) :
    (ofDigits whole fraction).toRat = wholeValue whole + fractionValue fraction := by
  have hpos : (0 : ℚ) < 10 ^ fraction.length := by positivity
  -- the coefficient counts units of the last place, so the whole part is moved up to it
  rw [toRat, ofDigits, wholeValue_eq, fractionValue_eq, Nat.ofDigitChars_append,
    Nat.ofDigitChars_eq_ofDigitChars_zero, zpow_neg, zpow_natCast]
  push_cast
  field_simp

/-! ### The nearest double -/

theorem cast_pow_eq (b n : Nat) : ((b ^ n : Nat) : ℚ) = (b : ℚ) ^ n := by
  norm_cast

theorem cast_unitsPerOne : ((unitsPerOne : Nat) : ℚ) = 2 ^ 1074 := by
  rw [unitsPerOne]
  generalize 1074 = n
  rw [cast_pow_eq, Nat.cast_ofNat]

/-- A decimal is rounded as a quotient, which stands for the same number. -/
theorem exists_toBinary64_eq (d : Decimal) :
    ∃ num den : Nat, 0 < den ∧ (num : ℚ) / den / 2 ^ 1074 = d.toRat ∧
      ∀ negative, d.toBinary64 negative = .nearest negative num den := by
  obtain ⟨coefficient, exponent⟩ := d
  -- a power of ten belongs to the numerator or to the denominator
  cases exponent with
  | ofNat e =>
    refine ⟨coefficient * 10 ^ e * unitsPerOne, 1, Nat.one_pos, ?_, fun negative => rfl⟩
    rw [toRat, Int.ofNat_eq_natCast, zpow_natCast, Nat.cast_mul, Nat.cast_mul, cast_unitsPerOne,
      Nat.cast_one, div_one, mul_div_cancel_right₀ _ Binary64.unit_pos.ne', cast_pow_eq,
      Nat.cast_ofNat]
  | negSucc e =>
    refine ⟨coefficient * unitsPerOne, 10 ^ (e + 1), Nat.pow_pos (by decide), ?_,
      fun negative => rfl⟩
    rw [toRat, zpow_negSucc, Nat.cast_mul, cast_unitsPerOne, div_right_comm,
      mul_div_cancel_right₀ _ Binary64.unit_pos.ne', div_eq_mul_inv, cast_pow_eq, Nat.cast_ofNat]

/-- **Reading a decimal** gives the nearest double. -/
theorem toBinary64_isNearest (negative : Bool) (d : Decimal) :
    Binary64.IsNearest (if negative then -d.toRat else d.toRat) (d.toBinary64 negative) := by
  obtain ⟨num, den, hden, hrat, heq⟩ := d.exists_toBinary64_eq
  rw [heq, ← hrat]
  exact Binary64.nearest_isNearest num negative hden

/-- What a decimal is read as depends on its number only. -/
theorem toBinary64_congr (negative : Bool) {d d' : Decimal} (h : d.toRat = d'.toRat) :
    d.toBinary64 negative = d'.toBinary64 negative := by
  obtain ⟨num, den, hden, hrat, heq⟩ := d.exists_toBinary64_eq
  obtain ⟨num', den', hden', hrat', heq'⟩ := d'.exists_toBinary64_eq
  rw [heq, heq']
  apply Binary64.nearest_congr num negative hden hden'
  rwa [← hrat, ← hrat', div_left_inj' Binary64.unit_pos.ne'] at h

/-- Reading a decimal keeps the sign and never gives NaN. -/
theorem toBinary64_cases (negative : Bool) (d : Decimal) :
    d.toBinary64 negative = .infinite negative ∨
      ∃ m, d.toBinary64 negative = .finite negative m := by
  obtain ⟨num, den, -, -, heq⟩ := d.exists_toBinary64_eq
  rw [heq]
  exact Binary64.nearest_cases num negative den

/-- One half of the smallest subnormal is the last decimal that is read as zero. -/
theorem toBinary64_eq_zero_iff (negative : Bool) (d : Decimal) :
    d.toBinary64 negative = .finite negative .zero ↔ d.toRat ≤ 1 / 2 ^ 1075 := by
  obtain ⟨num, den, hden, hrat, heq⟩ := d.exists_toBinary64_eq
  rw [heq, ← hrat]
  exact Binary64.nearest_eq_zero_iff num negative hden

/-- From the bound on, decimals are read as infinite. -/
theorem toBinary64_eq_infinite_iff (negative : Bool) (d : Decimal) :
    d.toBinary64 negative = .infinite negative ↔ Binary64.bound ≤ d.toRat := by
  obtain ⟨num, den, hden, hrat, heq⟩ := d.exists_toBinary64_eq
  rw [heq, ← hrat]
  exact Binary64.nearest_eq_infinite_iff num negative hden

end Decimal

end AddingMachine
