import AddingMachine.Proofs.Binary64

/-!
# Shortest decimals and whole numbers

The shortest decimal of a double is read as the double. Sums and differences of whole numbers are exact
up to `2 ^ 53`, and whole numbers up to there are written with their own digits.
-/

namespace AddingMachine

/-! ## §1 The shortest decimal reads back

What 53 significant bits can write is rounded to itself (`significant_of_short`), so the finest grid
of decimals has a number that is read as a given finite double: its exact value. What a coarser grid
gives is read back before it is taken. So whatever the search ends with is read as the double
(`Magnitude.toBinary64_shortest`). -/

-- powers of natural numbers are the ones that decimals are defined with
attribute [local instance (2000)] instPowNat

/-! ### Exact values -/

namespace Rounding

/-- What needs no rounding is not changed by it. -/
theorem significant_of_short {units den : Nat} (hden : 0 < den) (h : Short units) :
    significant (units * den) den = units := by
  have hpos : (den : ℚ) ≠ 0 := Nat.cast_ne_zero.mpr hden.ne'
  have hquotient : ((units * den : Nat) : ℚ) / den = units := by
    rw [Nat.cast_mul, mul_div_cancel_right₀ _ hpos]
  -- the quotient is such a number itself, at no distance
  obtain ⟨hle, -⟩ := significant_nearest (units * den) hden h
  rw [hquotient, sub_self, abs_zero] at hle
  have hzero := abs_eq_zero.mp (le_antisymm hle (abs_nonneg _))
  exact Nat.cast_inj.mp (sub_eq_zero.mp hzero)

end Rounding

/-- A quotient that is rounded to a magnitude gives its double. -/
theorem Binary64.nearest_eq_finite (negative : Bool) {num den : Nat} {m : Magnitude}
    (h : Rounding.significant num den = m.units) :
    nearest negative num den = .finite negative m := by
  have hlt : Rounding.significant num den < Rounding.overflow := h ▸ m.representable.lt_overflow
  rw [nearest, dif_pos hlt, finite.injEq, Magnitude.eq_iff]
  exact ⟨rfl, h⟩

namespace Magnitude

/-! ### Candidates -/

theorem decimalUnitsPerUnit_pos : 0 < decimalUnitsPerUnit := by
  rw [decimalUnitsPerUnit]
  generalize 1074 = n
  exact Nat.pow_pos (by decide)

/-- Units of `10 ^ -1074` on a grid, as a number. -/
theorem toRat_grid (coefficient grid : Nat) :
    ((coefficient * 10 ^ grid : Nat) : ℚ) / decimalUnitsPerUnit / 2 ^ 1074 =
      (Decimal.mk coefficient ((grid : Int) - 1074)).toRat := by
  have hunits : (decimalUnitsPerUnit : ℚ) * 2 ^ 1074 = 10 ^ 1074 := by
    rw [decimalUnitsPerUnit]
    generalize 1074 = n
    rw [Decimal.cast_pow_eq, ← mul_pow]
    norm_num
  -- units of both kinds together are powers of ten
  rw [div_div, hunits, Decimal.toRat, zpow_sub₀ (by norm_num), zpow_natCast, Nat.cast_mul,
    Decimal.cast_pow_eq, Nat.cast_ofNat, mul_div_assoc]
  norm_cast

/-- A candidate that reads back is read as the double. -/
theorem toBinary64_of_readsBack (negative : Bool) {m : Magnitude} {grid coefficient : Nat}
    (h : m.readsBack grid coefficient = true) :
    (Decimal.mk coefficient ((grid : Int) - 1074)).toBinary64 negative = .finite negative m := by
  obtain ⟨num, den, hden, hrat, heq⟩ :=
    (Decimal.mk coefficient ((grid : Int) - 1074)).exists_toBinary64_eq
  -- as a quotient the candidate is the one that was tried
  rw [← toRat_grid, div_left_inj' Binary64.unit_pos.ne'] at hrat
  rw [heq, Binary64.nearest_congr num negative hden decimalUnitsPerUnit_pos hrat]
  exact Binary64.nearest_eq_finite negative (beq_iff_eq.mp h)

/-- One of the two neighbours of the exact value is taken. -/
theorem nearer_cases (tie : Tie) (m : Magnitude) (grid low : Nat) :
    m.nearer tie grid low = low ∨ m.nearer tie grid low = low + 1 := by
  simp only [nearer]
  split
  · exact .inl rfl
  · split
    · exact .inr rfl
    -- a tie is settled by the format
    · cases tie with
      | up => exact .inr rfl
      | even => exact (Nat.mod_two_eq_zero_or_one low).imp (by simp [·]) (by simp [·])

/-- What is taken from a grid reads back. -/
theorem readsBack_of_onGrid? {tie : Tie} {m : Magnitude} {grid coefficient : Nat}
    (h : m.onGrid? tie grid = some coefficient) : m.readsBack grid coefficient = true := by
  simp only [onGrid?] at h
  have hnearer := m.nearer_cases tie grid (m.decimalUnits / 10 ^ grid)
  generalize m.decimalUnits / 10 ^ grid = low at h hnearer
  split at h
  next hlow =>
    split at h
    next hhigh =>
      rw [← Option.some.inj h]
      -- where both neighbours read back, either may be nearer
      rcases hnearer with hnearer | hnearer
      · rw [hnearer]
        exact hlow
      · rw [hnearer]
        exact hhigh
    next =>
      rw [← Option.some.inj h]
      exact hlow
  next =>
    split at h
    next hhigh =>
      rw [← Option.some.inj h]
      exact hhigh
    next => cases h

/-! ### The search -/

/-- On the finest grid, the exact value reads back. -/
theorem readsBack_decimalUnits (m : Magnitude) : m.readsBack 0 m.decimalUnits = true := by
  rw [readsBack, Nat.pow_zero, Nat.mul_one, decimalUnits,
    Rounding.significant_of_short decimalUnitsPerUnit_pos m.representable.short]
  exact beq_self_eq_true _

/-- What holds of the base, and of whatever is found, holds of what a search ends with. -/
theorem lastFound_induction {α : Type} {motive : α → Prop} {f : Nat → Option α} {base : α}
    (hbase : motive base) (hfound : ∀ n a, f n = some a → motive a) (n : Nat) :
    motive (lastFound f base n) := by
  induction n with
  | zero => exact hbase
  | succ n ih =>
    rw [lastFound]
    split
    next found heq => exact hfound _ found heq
    next => exact ih

/-- Wherever the search begins, what it ends with is read as the double. -/
theorem toBinary64_coarsest (negative : Bool) (tie : Tie) (m : Magnitude) (grid : Nat) :
    (m.coarsest tie grid).toBinary64 negative = .finite negative m := by
  rw [coarsest]
  apply lastFound_induction (motive := fun d : Decimal => d.toBinary64 negative = .finite negative m)
  -- nothing is found, and the finest grid is left
  · have h := toBinary64_of_readsBack negative m.readsBack_decimalUnits
    rwa [Nat.cast_zero, zero_sub] at h
  -- something is found on a grid
  · intro grid d hd
    obtain ⟨coefficient, hfound, rfl⟩ := Option.map_eq_some_iff.mp hd
    exact toBinary64_of_readsBack negative (readsBack_of_onGrid? hfound)

/-- **The shortest decimal** is read as the double. -/
theorem toBinary64_shortest (negative : Bool) (tie : Tie) (m : Magnitude) :
    (m.shortest tie).toBinary64 negative = .finite negative m := by
  unfold shortest
  split
  next hzero =>
    obtain rfl : m = zero := eq_iff.mpr hzero
    rw [Decimal.toBinary64_eq_zero_iff]
    simp [Decimal.toRat]
  next => exact toBinary64_coarsest negative tie m _

/-- The shortest decimal of zero has no zeros behind its only digit. -/
theorem shortest_zero_or (tie : Tie) (m : Magnitude) :
    (m.shortest tie).coefficient ≠ 0 ∨ (m.shortest tie).exponent ≤ 0 := by
  by_cases hunits : m.units = 0
  · right
    rw [shortest, if_pos hunits]
  · left
    -- a coefficient of zero would be read as zero
    intro hzero
    have hsmall : (m.shortest tie).toRat ≤ 1 / 2 ^ 1075 := by simp [Decimal.toRat, hzero]
    have hread := (Decimal.toBinary64_eq_zero_iff false _).mpr hsmall
    rw [m.toBinary64_shortest] at hread
    exact hunits (congrArg units (Binary64.finite.inj hread).2)

end Magnitude

/-! ## §2 Sums of doubles

A sum is negative zero only where both terms are (`Binary64.add_eq_negativeZero_iff`). A finite term
makes no NaN, and leaves an infinity as it is. Whole numbers up to `2 ^ 53` are doubles, and their
sums and differences are the doubles nearest to the exact whole numbers (`Binary64.add_ofInt`,
`Binary64.sub_ofInt`). -/

namespace Binary64

/-! ### Negative zero -/

/-- Zero with a minus sign. -/
def negativeZero : Binary64 :=
  .finite true .zero

/-- One unit and more is not rounded to zero. -/
theorem nearest_ne_zero (negative sign : Bool) {num : Nat} (h : num ≠ 0) :
    nearest negative num 1 ≠ .finite sign .zero := by
  have hone : (1 : ℚ) ≤ num := Nat.one_le_cast.mpr (Nat.one_le_iff_ne_zero.mpr h)
  unfold nearest
  split
  next =>
    intro heq
    -- only what is below one unit is rounded to zero
    obtain ⟨-, hzero⟩ := finite.inj heq
    have hsmall := (Rounding.significant_eq_zero_iff num Nat.one_pos).mp (Magnitude.eq_iff.mp hzero)
    rw [Nat.cast_one, div_one] at hsmall
    linarith
  next =>
    intro heq
    cases heq

/-- An exact total is negative zero only if it is zero and both terms are negative. -/
theorem ofSum_eq_negativeZero_iff (bothNegative : Bool) (total : Int) :
    ofSum bothNegative total = negativeZero ↔ total = 0 ∧ bothNegative = true := by
  unfold ofSum
  split
  next hzero => simp [negativeZero, hzero]
  next hne =>
    apply iff_of_false
    · exact nearest_ne_zero _ true (Int.natAbs_ne_zero.mpr hne)
    · exact fun h => hne h.1

/-- **Only negative zeros** have negative zero as their sum. -/
theorem add_eq_negativeZero_iff (x y : Binary64) :
    x.add y = negativeZero ↔ x = negativeZero ∧ y = negativeZero := by
  cases x with
  | nan => simp [add, negativeZero]
  | infinite p =>
    cases y with
    | nan => simp [add, negativeZero]
    | infinite q => by_cases hsign : p = q <;> simp [add, negativeZero, hsign]
    | finite q b => simp [add, negativeZero]
  | finite p a =>
    cases y with
    | nan => simp [add, negativeZero]
    | infinite q => simp [add, negativeZero]
    | finite q b =>
      rw [add, ofSum_eq_negativeZero_iff, Bool.and_eq_true, negativeZero, finite.injEq,
        finite.injEq, Magnitude.eq_iff, Magnitude.eq_iff, Magnitude.units_zero]
      constructor
      -- two negative numbers whose sum is zero are zeros
      · rintro ⟨htotal, rfl, rfl⟩
        rw [Magnitude.signed_true, Magnitude.signed_true] at htotal
        exact ⟨⟨rfl, by omega⟩, rfl, by omega⟩
      · rintro ⟨⟨rfl, ha⟩, rfl, hb⟩
        rw [Magnitude.signed_true, Magnitude.signed_true, ha, hb]
        exact ⟨rfl, rfl, rfl⟩

/-! ### Infinities and NaN -/

/-- A total of finite terms is no NaN. -/
theorem ofSum_ne_nan (bothNegative : Bool) (total : Int) : ofSum bothNegative total ≠ .nan := by
  unfold ofSum
  split
  next => nofun
  next =>
    rcases nearest_cases total.natAbs (total < 0) 1 with heq | ⟨m, heq⟩
    · rw [heq]
      nofun
    · rw [heq]
      nofun

/-- A finite term does not make NaN. -/
theorem add_ne_nan {x y : Binary64} (hx : x ≠ .nan) (hy : y.isFinite = true) : x.add y ≠ .nan := by
  cases y with
  | nan => cases hy
  | infinite q => cases hy
  | finite q b =>
    cases x with
    | nan => exact absurd rfl hx
    | infinite p => nofun
    | finite p a => exact ofSum_ne_nan _ _

/-- A finite term leaves an infinity as it is. -/
theorem infinite_add (negative : Bool) {y : Binary64} (hy : y.isFinite = true) :
    (infinite negative).add y = .infinite negative := by
  cases y with
  | nan => cases hy
  | infinite q => cases hy
  | finite q b => rfl

@[simp] theorem isFinite_neg (x : Binary64) : x.neg.isFinite = x.isFinite := by
  cases x with
  | nan => rfl
  | infinite negative => rfl
  | finite negative m => rfl

/-! ### Whole numbers -/

theorem unitsPerOne_pos : 0 < Decimal.unitsPerOne := by
  rw [Decimal.unitsPerOne]
  generalize 1074 = n
  exact Nat.two_pow_pos n

/-- The double nearest to a whole number. -/
def ofInt (n : Int) : Binary64 :=
  .nearest (n < 0) (n.natAbs * Decimal.unitsPerOne) 1

end Binary64

namespace Rounding

/-- Whole numbers up to `2 ^ 53` are magnitudes of doubles. -/
theorem representable_mul_unitsPerOne {n : Nat} (h : n ≤ 2 ^ (53 : Nat)) :
    Representable (n * Decimal.unitsPerOne) := by
  obtain ⟨s, hs, hunits⟩ : ∃ s < 2045, Decimal.unitsPerOne = 2 ^ s := ⟨1074, by decide, rfl⟩
  rw [hunits]
  rcases Nat.lt_or_eq_of_le h with hlt | rfl
  · exact ⟨n, s, hlt, hs.le, rfl⟩
  · -- the one number with a 54th bit is a power of two
    exact ⟨2 ^ (52 : Nat), s + 1, by decide, hs, by rw [Nat.pow_succ 2 s]; ring⟩

theorem significant_mul_unitsPerOne {n : Nat} (h : n ≤ 2 ^ (53 : Nat)) :
    significant (n * Decimal.unitsPerOne) 1 = n * Decimal.unitsPerOne := by
  have hexact := significant_of_short Nat.one_pos (representable_mul_unitsPerOne h).short
  rwa [Nat.mul_one] at hexact

end Rounding

namespace Binary64

/-- A whole number up to `2 ^ 53` is a double, with the sign and the units of the number. -/
theorem exists_ofInt_eq {n : Int} (h : n.natAbs ≤ 2 ^ (53 : Nat)) :
    ∃ m : Magnitude, ofInt n = .finite (n < 0) m ∧ m.units = n.natAbs * Decimal.unitsPerOne :=
  ⟨⟨_, Rounding.representable_mul_unitsPerOne h⟩,
    nearest_eq_finite _ (Rounding.significant_mul_unitsPerOne h), rfl⟩

/-- With its sign, the double has as many units as the number. -/
theorem signed_of_units {n : Int} {m : Magnitude}
    (h : m.units = n.natAbs * Decimal.unitsPerOne) :
    m.signed (n < 0) = n * Decimal.unitsPerOne := by
  by_cases hneg : n < 0
  · rw [decide_eq_true hneg, Magnitude.signed_true, h, Nat.cast_mul,
      Int.ofNat_natAbs_of_nonpos hneg.le, neg_mul, neg_neg]
  · rw [decide_eq_false hneg, Magnitude.signed_false, h, Nat.cast_mul,
      Int.natAbs_of_nonneg (not_lt.mp hneg)]

/-- As a number, the double is the whole number. -/
theorem toRat_of_units {n : Int} {m : Magnitude}
    (h : m.units = n.natAbs * Decimal.unitsPerOne) : m.toRat (n < 0) = n := by
  have hunit : (Decimal.unitsPerOne : ℚ) ≠ 0 := Nat.cast_ne_zero.mpr unitsPerOne_pos.ne'
  rw [Magnitude.toRat, signed_of_units h, ← Decimal.cast_unitsPerOne, Int.cast_mul,
    Int.cast_natCast, mul_div_cancel_right₀ _ hunit]

/-- An exact whole total is rounded as a whole number. Two negative terms never make zero. -/
theorem ofSum_mul_unitsPerOne {bothNegative : Bool} {n : Int}
    (h : n = 0 → bothNegative = false) :
    ofSum bothNegative (n * Decimal.unitsPerOne) = ofInt n := by
  have hunit : (0 : Int) < Decimal.unitsPerOne := Int.natCast_pos.mpr unitsPerOne_pos
  unfold ofSum ofInt
  split
  next hzero =>
    -- a total of zero is positive
    obtain rfl : n = 0 := (mul_eq_zero.mp hzero).resolve_right hunit.ne'
    rw [h rfl, Int.natAbs_zero, Nat.zero_mul]
    exact ((nearest_eq_zero_iff 0 false Nat.one_pos).mpr (by simp)).symm
  next =>
    -- any other total has the sign of the number
    have hsign : n * (Decimal.unitsPerOne : Int) < 0 ↔ n < 0 :=
      ⟨fun hneg => neg_of_mul_neg_left hneg hunit.le, fun hneg => mul_neg_of_neg_of_pos hneg hunit⟩
    rw [Int.natAbs_mul, Int.natAbs_natCast, decide_eq_decide.mpr hsign]

section Whole

variable {a b : Int} (ha : a.natAbs ≤ 2 ^ (53 : Nat)) (hb : b.natAbs ≤ 2 ^ (53 : Nat))
include ha hb

/-- **Sums of whole numbers** are rounded once, from the exact whole number. -/
theorem add_ofInt : (ofInt a).add (ofInt b) = ofInt (a + b) := by
  obtain ⟨m, hm, hunits⟩ := exists_ofInt_eq ha
  obtain ⟨m', hm', hunits'⟩ := exists_ofInt_eq hb
  rw [hm, hm', add, signed_of_units hunits, signed_of_units hunits', ← add_mul]
  apply ofSum_mul_unitsPerOne
  -- numbers whose sum is zero are not both negative
  intro hzero
  rw [Bool.and_eq_false_iff, decide_eq_false_iff_not, decide_eq_false_iff_not]
  omega

/-- **Differences of whole numbers** as well. -/
theorem sub_ofInt : (ofInt a).sub (ofInt b) = ofInt (a - b) := by
  obtain ⟨m, hm, hunits⟩ := exists_ofInt_eq ha
  obtain ⟨m', hm', hunits'⟩ := exists_ofInt_eq hb
  rw [hm, hm', sub, neg, add, Magnitude.signed_not, signed_of_units hunits,
    signed_of_units hunits', ← sub_eq_add_neg, ← sub_mul]
  apply ofSum_mul_unitsPerOne
  intro hzero
  rw [Bool.and_eq_false_iff, decide_eq_false_iff_not, Bool.not_eq_false', decide_eq_true_iff]
  omega

end Whole

end Binary64

/-! ## §3 How whole numbers are written

A whole number up to `2 ^ 53` is written with its own digits (`Binary64.text_ofInt`). The search for
its shortest decimal begins above all of its digits (`Magnitude.lt_ten_pow_digitBound`) and ends on
the grid of whole numbers at the latest, where it finds the number itself. What it finds before is a
whole number too, and no other one is read as the same double (`Rounding.eq_or_succ_of_significant`):
the one tie, `2 ^ 53 + 1`, is no multiple of ten. -/

/-! ### Whole numbers that are read alike -/

namespace Rounding

/-- Behind `2 ^ 53`, the first double is two higher. -/
theorem short_behind_whole : Short ((2 ^ (53 : Nat) + 2) * Decimal.unitsPerOne) := by
  obtain ⟨s, hunits⟩ : ∃ s, Decimal.unitsPerOne = 2 ^ s := ⟨1074, rfl⟩
  refine ⟨2 ^ (52 : Nat) + 1, s + 1, by decide, ?_⟩
  rw [hunits, Nat.pow_succ 2 s]
  ring

/-- A whole number is rounded to another one up to `2 ^ 53` only in the one tie there is. -/
theorem eq_or_succ_of_significant {n k : Nat} (hn : n ≤ 2 ^ (53 : Nat))
    (h : significant (k * Decimal.unitsPerOne) 1 = n * Decimal.unitsPerOne) :
    k = n ∨ (n = 2 ^ (53 : Nat) ∧ k = n + 1) := by
  by_cases hk : k ≤ 2 ^ (53 : Nat)
  -- up to there whole numbers are not rounded
  · rw [significant_mul_unitsPerOne hk] at h
    exact .inl (Nat.eq_of_mul_eq_mul_right Binary64.unitsPerOne_pos h)
  · -- the double behind `2 ^ 53` is not nearer
    have hunit : (0 : ℚ) < Decimal.unitsPerOne := Nat.cast_pos.mpr Binary64.unitsPerOne_pos
    have hdist : ∀ j : Nat, |((j * Decimal.unitsPerOne : Nat) : ℚ) -
        (k * Decimal.unitsPerOne : Nat) / (1 : Nat)| = |(j : ℚ) - k| * Decimal.unitsPerOne := by
      intro j
      rw [Nat.cast_one, div_one, Nat.cast_mul, Nat.cast_mul, ← sub_mul, abs_mul, abs_of_pos hunit]
    obtain ⟨hnear, -⟩ := significant_nearest (k * Decimal.unitsPerOne) Nat.one_pos short_behind_whole
    rw [h, hdist, hdist, mul_le_mul_iff_left₀ hunit] at hnear
    have hnear : |(n : ℤ) - k| ≤ |((2 ^ (53 : Nat) + 2 : Nat) : ℤ) - k| := by exact_mod_cast hnear
    rw [Int.abs_eq_natAbs, Int.abs_eq_natAbs] at hnear
    omega

end Rounding

namespace Magnitude

/-! ### Where the search begins -/

/-- Each 93 bits have at most 28 digits. -/
theorem two_pow_le_ten_pow (bits : Nat) :
    2 ^ (bits + 1) ≤ 10 ^ (bits * 28 / 93 + 2) := by
  -- what is less than 93 bits is tried out
  have hfew : ∀ r < 93, 2 ^ (r + 1) ≤ 10 ^ (r * 28 / 93 + 2) := by decide
  have hbits : bits + 1 = 93 * (bits / 93) + (bits % 93 + 1) := by omega
  have hdigits : bits * 28 / 93 + 2 = 28 * (bits / 93) + (bits % 93 * 28 / 93 + 2) := by omega
  calc 2 ^ (bits + 1) = (2 ^ (93 : Nat)) ^ (bits / 93) * 2 ^ (bits % 93 + 1) := by
        rw [← Nat.pow_mul, ← Nat.pow_add, ← hbits]
    _ ≤ (10 ^ (28 : Nat)) ^ (bits / 93) * 10 ^ (bits % 93 * 28 / 93 + 2) :=
        Nat.mul_le_mul (Nat.pow_le_pow_left (by decide) _) (hfew _ (Nat.mod_lt _ (by decide)))
    _ = 10 ^ (bits * 28 / 93 + 2) := by rw [← Nat.pow_mul, ← Nat.pow_add, ← hdigits]

/-- The search begins above all digits of a number. -/
theorem lt_ten_pow_digitBound (n : Nat) : n < 10 ^ digitBound n :=
  Nat.lt_log2_self.trans_le (two_pow_le_ten_pow _)

theorem lt_digitBound {grid n : Nat} (h : 10 ^ grid ≤ n) : grid < digitBound n :=
  (Nat.pow_lt_pow_iff_right (by decide)).mp (h.trans_lt (lt_ten_pow_digitBound n))

/-- Where there is something up to a place, the search ends there or before it gets there. -/
theorem exists_lastFound_eq {α : Type} (f : Nat → Option α) (base : α) {a : α} {k n : Nat}
    (hk : 0 < k) (hkn : k ≤ n) (hf : f k = some a) :
    ∃ j b, k ≤ j ∧ f j = some b ∧ lastFound f base n = b := by
  induction n with
  | zero => omega
  | succ n ih =>
    rw [lastFound]
    split
    next found heq => exact ⟨n + 1, found, hkn, heq, rfl⟩
    next hnone =>
      -- what is found at `k` has still to come
      have hne : k ≠ n + 1 := by
        rintro rfl
        rw [hf] at hnone
        cases hnone
      exact ih (by omega)

/-- Where a grid has a candidate, the search ends on this grid or on a coarser one. -/
theorem exists_coarsest_eq {tie : Tie} {m : Magnitude} {k n coefficient : Nat} (hk : 0 < k)
    (hkn : k ≤ n) (h : m.onGrid? tie k = some coefficient) :
    ∃ grid found, k ≤ grid ∧ m.onGrid? tie grid = some found ∧
      m.coarsest tie n = ⟨found, (grid : Int) - 1074⟩ := by
  let f := fun grid : Nat => (m.onGrid? tie grid).map fun coefficient =>
    Decimal.mk coefficient ((grid : Int) - 1074)
  have hf : f k = some ⟨coefficient, (k : Int) - 1074⟩ := by
    simp only [f, h, Option.map_some]
  obtain ⟨grid, d, hgrid, hd, hsearch⟩ :=
    exists_lastFound_eq f ⟨m.decimalUnits, -1074⟩ hk hkn hf
  obtain ⟨found, hfound, rfl⟩ := Option.map_eq_some_iff.mp hd
  exact ⟨grid, found, hgrid, hfound, hsearch⟩

/-- A grid that holds the exact value gives it. -/
theorem onGrid?_of_exact (tie : Tie) {m : Magnitude} {grid low : Nat}
    (h : m.decimalUnits = low * 10 ^ grid) : m.onGrid? tie grid = some low := by
  have hpos : 0 < 10 ^ grid := Nat.pow_pos (by decide)
  have hreads : m.readsBack grid low = true := by
    have hexact := m.readsBack_decimalUnits
    rwa [readsBack, Nat.pow_zero, Nat.mul_one, h] at hexact
  have hnearer : m.nearer tie grid low = low := by
    simp only [nearer, h, Nat.mul_mod_left, Nat.mul_zero, hpos, if_true]
  -- the exact value is its own lower neighbour, and the nearer one
  simp only [onGrid?, h, Nat.mul_div_cancel low hpos, hreads, if_true, hnearer, ite_self]

/-! ### What the search finds -/

section Whole

variable {m : Magnitude} {n : Nat} (hm : m.units = n * Decimal.unitsPerOne)
include hm

/-- A whole number is one on the decimal grid as well. -/
theorem decimalUnits_of_whole : m.decimalUnits = n * 10 ^ (1074 : Nat) := by
  rw [decimalUnits, hm, Decimal.unitsPerOne, decimalUnitsPerUnit]
  generalize 1074 = s
  rw [Nat.mul_assoc, ← Nat.mul_pow]

variable (hn : n ≤ 2 ^ (53 : Nat))
include hn

/-- A candidate that is a whole number is the number itself, or the tie. -/
theorem eq_or_succ_of_readsBack {e coefficient : Nat}
    (h : m.readsBack (1074 + e) coefficient = true) :
    coefficient * 10 ^ e = n ∨ (n = 2 ^ (53 : Nat) ∧ coefficient * 10 ^ e = n + 1) := by
  have hgrid : coefficient * 10 ^ (1074 + e) =
      coefficient * 10 ^ e * Decimal.unitsPerOne * decimalUnitsPerUnit := by
    rw [Decimal.unitsPerOne, decimalUnitsPerUnit]
    generalize 1074 = s
    rw [Nat.mul_assoc, ← Nat.mul_pow, Nat.pow_add, Nat.mul_assoc, Nat.mul_comm (10 ^ e)]
  have hreads := beq_iff_eq.mp h
  -- the quotient that is rounded is the candidate, in units
  have hcancel := Rounding.significant_mul_right (coefficient * 10 ^ e * Decimal.unitsPerOne) 1
    decimalUnitsPerUnit_pos
  rw [Nat.one_mul] at hcancel
  rw [hgrid, hcancel, hm] at hreads
  exact Rounding.eq_or_succ_of_significant hn hreads

/-- **The shortest decimal of a whole number** is the number, with its last zeros in the exponent. -/
theorem exists_shortest_eq (tie : Tie) (hpos : 0 < n) :
    ∃ coefficient e : Nat, m.shortest tie = ⟨coefficient, e⟩ ∧ coefficient * 10 ^ e = n := by
  have hunits : m.units ≠ 0 := by
    rw [hm]
    exact (Nat.mul_pos hpos Binary64.unitsPerOne_pos).ne'
  have hexact := onGrid?_of_exact tie (decimalUnits_of_whole hm)
  have hbound : 1074 < digitBound m.decimalUnits := by
    apply lt_digitBound
    rw [decimalUnits_of_whole hm]
    generalize 10 ^ (1074 : Nat) = power
    exact Nat.le_mul_of_pos_left power hpos
  -- on the grid of whole numbers the number itself is found, if nothing was before
  obtain ⟨grid, coefficient, hgrid, hfound, hsearch⟩ :=
    exists_coarsest_eq (by decide) hbound.le hexact
  obtain ⟨e, rfl⟩ := Nat.exists_eq_add_of_le hgrid
  refine ⟨coefficient, e, ?_, ?_⟩
  · rw [shortest, if_neg hunits, hsearch, Nat.cast_add]
    congr 1
    exact add_sub_cancel_left _ _
  · rcases eq_or_succ_of_readsBack hm hn (readsBack_of_onGrid? hfound) with heq | ⟨rfl, htie⟩
    · exact heq
    -- what remains is the tie, which the search does not find
    · exfalso
      cases e with
      | zero =>
        -- on the grid of whole numbers it finds the number itself
        rw [Nat.add_zero, hexact, Option.some.injEq] at hfound
        rw [← hfound] at htie
        omega
      | succ e =>
        -- the tie is no multiple of ten
        rw [Nat.pow_succ, ← Nat.mul_assoc] at htie
        omega

end Whole

end Magnitude

/-! ### The digits -/

/-- Multiples of powers of ten end in zeros. -/
theorem toDigits_mul_ten_pow {n : Nat} (hpos : 0 < n) (e : Nat) :
    Nat.toDigits 10 (n * 10 ^ e) = Nat.toDigits 10 n ++ List.replicate e '0' := by
  induction e with
  | zero => rw [Nat.pow_zero, Nat.mul_one, List.replicate_zero, List.append_nil]
  | succ e ih =>
    have hmore : n * 10 ^ (e + 1) = 10 * (n * 10 ^ e) + 0 := by
      rw [Nat.pow_succ]
      ring
    -- one more factor of ten is one more zero
    rw [hmore, ← Nat.toDigits_append_toDigits (by decide)
      (Nat.mul_pos hpos (Nat.pow_pos (by decide))) (by decide), ih, List.replicate_succ',
      Nat.toDigits_zero, List.append_assoc]

/-- A whole number up to `2 ^ 53` is written with its own digits. -/
theorem Magnitude.positionalChars_shortest {m : Magnitude} {n : Nat}
    (hm : m.units = n * Decimal.unitsPerOne) (hn : n ≤ 2 ^ (53 : Nat)) (tie : Tie) :
    (m.shortest tie).positionalChars false = Nat.toDigits 10 n := by
  rcases Nat.eq_zero_or_pos n with rfl | hpos
  · rw [Nat.zero_mul] at hm
    rw [shortest, if_pos hm]
    rfl
  · obtain ⟨coefficient, e, hshortest, rfl⟩ := exists_shortest_eq hm hn tie hpos
    have hcoefficient : 0 < coefficient := Nat.pos_of_mul_pos_right hpos
    -- the exponent stands for the last zeros
    rw [hshortest, toDigits_mul_ten_pow hcoefficient]
    exact List.append_nil _

namespace Binary64

/-- The characters of a whole number: its digits, behind a minus sign if it is negative. -/
theorem toList_toString_int (n : Int) :
    (toString n).toList = (if n < 0 then ['-'] else []) ++ Nat.toDigits 10 n.natAbs := by
  cases n with
  | ofNat k =>
    rw [if_neg (Int.not_lt.mpr (Int.natCast_nonneg k) : ¬ Int.ofNat k < 0)]
    exact String.toList_ofList
  | negSucc k =>
    have htext : toString (Int.negSucc k) = "-" ++ Nat.repr (k + 1) := rfl
    rw [if_pos (Int.negSucc_lt_zero k), htext, String.toList_append, Nat.repr_eq_ofList_toDigits]
    exact congrArg _ String.toList_ofList

/-- **Whole numbers** up to `2 ^ 53` are written with their own digits, behind a minus sign if they
are negative. -/
theorem text_ofInt {n : Int} (h : n.natAbs ≤ 2 ^ (53 : Nat)) :
    (ofInt n).text .plain = toString n := by
  obtain ⟨m, hm, hunits⟩ := exists_ofInt_eq h
  have hdigits : (m.shortest .up).chars .plain = Nat.toDigits 10 n.natAbs :=
    Magnitude.positionalChars_shortest hunits h .up
  have hchars : (ofInt n).chars .plain = (toString n).toList := by
    rw [hm, toList_toString_int, ← hdigits]
    simp only [chars, decide_eq_true_eq, NumberStyle.plain]
  rw [text, hchars, String.ofList_toList]

end Binary64

end AddingMachine
