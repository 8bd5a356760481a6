import AddingMachine.Binary64
import Mathlib.Algebra.Order.Field.Basic
import Mathlib.Algebra.Order.Ring.Abs
import Mathlib.Algebra.Order.Ring.Rat
import Mathlib.Data.Nat.Cast.Order.Field
import Mathlib.Data.Rat.Cast.Order
import Mathlib.Tactic.FieldSimp
import Mathlib.Tactic.Linarith
import Mathlib.Tactic.NormNum
import Mathlib.Tactic.Positivity
import Mathlib.Tactic.Ring

/-!
# Rounding goes to the nearest number

`halfEven` is at most one half away from the quotient that it rounds, and even where it is exactly
one half away. So `significant` is nearest to the quotient among all numbers of 53 significant bits,
and where another one is as near, its own significand is even (`significant_nearest`). Where it is
zero (`significant_eq_zero_iff`) and where it reaches `overflow` (`significant_lt_overflow_iff`) is
decided by what becomes of a half.
-/

namespace AddingMachine.Rounding

-- powers of natural numbers are the ones that rounding is defined with
attribute [local instance (2000)] instPowNat

/-! ## §1 Rounding to an integer -/

section HalfEven

variable (num : Nat) {den : Nat}

/-- A quotient is its floor and a part of one. -/
theorem div_eq_floor_add (hden : 0 < den) :
    (num : ℚ) / den = (num / den : Nat) + (num % den : Nat) / (den : ℚ) := by
  have hpos : (0 : ℚ) < den := by exact_mod_cast hden
  have hsplit : (num : ℚ) = (den : ℚ) * (num / den : Nat) + (num % den : Nat) := by
    exact_mod_cast (Nat.div_add_mod num den).symm
  field_simp
  linarith

/-- The integer is at most one half away, and even if it is as far as that. -/
theorem halfEven_error (hden : 0 < den) :
    |(halfEven num den : ℚ) - num / den| ≤ 1 / 2 ∧
      (|(halfEven num den : ℚ) - num / den| = 1 / 2 → Even (halfEven num den)) := by
  have hpos : (0 : ℚ) < den := by exact_mod_cast hden
  have hlt : num % den < den := Nat.mod_lt num hden
  rw [div_eq_floor_add num hden]
  -- only the floor and the rest of the division have a part in it
  simp only [halfEven]
  generalize num / den = floor
  generalize num % den = rest at hlt ⊢
  have hnonneg : (0 : ℚ) ≤ rest / den := by positivity
  have hone : (rest : ℚ) / den < 1 := by
    rw [div_lt_one hpos]
    exact_mod_cast hlt
  split
  next hlow =>
    -- the floor is nearer
    have hhalf : (rest : ℚ) / den < 1 / 2 := by
      rw [div_lt_div_iff₀ hpos two_pos]
      exact_mod_cast (by omega : rest * 2 < 1 * den)
    have hdist : |(floor : ℚ) - (floor + rest / den)| = rest / den := by
      rw [sub_add_cancel_left, abs_neg, abs_of_nonneg hnonneg]
    rw [hdist]
    exact ⟨hhalf.le, fun htie => absurd htie hhalf.ne⟩
  next hlow =>
    split
    next hhigh =>
      -- the next integer is nearer
      have hhalf : 1 / 2 < (rest : ℚ) / den := by
        rw [div_lt_div_iff₀ two_pos hpos]
        exact_mod_cast (by omega : 1 * den < rest * 2)
      have hdist : |((floor + 1 : Nat) : ℚ) - (floor + rest / den)| = 1 - rest / den := by
        rw [Nat.cast_succ, add_sub_add_left_eq_sub, abs_of_pos (by linarith)]
      rw [hdist]
      exact ⟨by linarith, fun htie => by linarith⟩
    next hhigh =>
      -- halfway between the floor and the next integer, one of which is even
      have hhalf : (rest : ℚ) / den = 1 / 2 := by
        rw [div_eq_div_iff hpos.ne' two_ne_zero]
        exact_mod_cast (by omega : rest * 2 = 1 * den)
      have heven : Even (floor + floor % 2) := by
        rw [Nat.even_iff]
        omega
      refine ⟨?_, fun _ => heven⟩
      rw [hhalf, Nat.cast_add, add_sub_add_left_eq_sub]
      rcases Nat.mod_two_eq_zero_or_one floor with hzero | hone
      · rw [hzero]; norm_num
      · rw [hone]; norm_num

/-- No integer is nearer, and if another one is as near, the integer is even. -/
theorem halfEven_nearest (hden : 0 < den) (k : ℤ) :
    |(halfEven num den : ℚ) - num / den| ≤ |(k : ℚ) - num / den| ∧
      (k ≠ halfEven num den → |(halfEven num den : ℚ) - num / den| = |(k : ℚ) - num / den| →
        Even (halfEven num den)) := by
  obtain ⟨herror, heven⟩ := halfEven_error num hden
  by_cases hk : k = halfEven num den
  · rw [hk]
    exact ⟨le_rfl, fun h => absurd rfl h⟩
  · -- two integers are at least one apart
    have hapart : (1 : ℚ) ≤ |(k : ℚ) - halfEven num den| := by
      have hone : 1 ≤ |k - halfEven num den| := Int.one_le_abs (sub_ne_zero.mpr hk)
      exact_mod_cast hone
    -- so the other one is at least one half away from the quotient
    have htriangle := abs_sub_le (k : ℚ) (num / den) (halfEven num den)
    rw [abs_sub_comm ((num : ℚ) / den)] at htriangle
    exact ⟨by linarith, fun _ htie => heven (by linarith)⟩

/-- A quotient halfway below an even integer is rounded up to it. -/
theorem halfEven_lt_iff_of_even (hden : 0 < den) {k : Nat} (hk : Even k) :
    halfEven num den < k ↔ (num : ℚ) / den < k - 1 / 2 := by
  obtain ⟨herror, heven⟩ := halfEven_error num hden
  have hbounds := abs_le.mp herror
  constructor
  · intro hlt
    have hle : (halfEven num den : ℚ) + 1 ≤ k := by exact_mod_cast hlt
    -- below `k` means at most `k - 1`, which leaves the tie to be excluded
    refine lt_of_le_of_ne (by linarith) fun htie => ?_
    -- the integer below would be even as well
    have hhalf : |(halfEven num den : ℚ) - num / den| = 1 / 2 := by
      rw [abs_of_nonpos (by linarith)]
      linarith
    have hsucc : k = halfEven num den + 1 := by
      have : (k : ℚ) ≤ halfEven num den + 1 := by linarith
      exact le_antisymm (by exact_mod_cast this) hlt
    rw [hsucc, Nat.even_add_one] at hk
    exact hk (heven hhalf)
  · intro hlt
    have : (halfEven num den : ℚ) < k := by linarith
    exact_mod_cast this

/-- A quotient halfway below an odd integer is rounded down. -/
theorem halfEven_lt_iff_of_odd (hden : 0 < den) {k : Nat} (hk : Odd k) :
    halfEven num den < k ↔ (num : ℚ) / den ≤ k - 1 / 2 := by
  obtain ⟨herror, heven⟩ := halfEven_error num hden
  have hbounds := abs_le.mp herror
  constructor
  · intro hlt
    have hle : (halfEven num den : ℚ) + 1 ≤ k := by exact_mod_cast hlt
    linarith
  · intro hle
    have hle' : (halfEven num den : ℚ) ≤ k := by linarith
    -- at most `k` is clear, and `k` itself would need the tie
    refine lt_of_le_of_ne (by exact_mod_cast hle') fun hsame => ?_
    -- the odd integer would be half a unit away
    have hhalf : |(halfEven num den : ℚ) - num / den| = 1 / 2 := by
      apply le_antisymm herror
      rw [hsame, le_abs]
      exact .inl (by linarith)
    rw [← hsame] at hk
    exact Nat.not_even_iff_odd.mpr hk (heven hhalf)

end HalfEven

/-! ## §2 Rounding to 53 significant bits -/

/-- Numbers that 53 significant bits can write, however large they are. -/
def Short (units : Nat) : Prop :=
  ∃ m s : Nat, m < 2 ^ (53 : Nat) ∧ units = m * 2 ^ s

/-- Numbers of 53 significant bits, of which the last is zero. Below `2 ^ 52` the last bit counts
ones, and from there on the first bit is not zero. -/
def EvenSignificand (units : Nat) : Prop :=
  ∃ m s : Nat, units = m * 2 ^ s ∧ m < 2 ^ (53 : Nat) ∧ (s = 0 ∨ 2 ^ (52 : Nat) ≤ m) ∧ Even m

section Significant

variable (num : Nat) {den : Nat}

/-- On a finer grid, 53 bits write at most what 52 bits write on a coarser one. -/
theorem mul_two_pow_le (s t : Nat) (h : s < t) :
    2 ^ (53 : Nat) * 2 ^ s ≤ 2 ^ (52 : Nat) * 2 ^ t :=
  calc 2 ^ (53 : Nat) * 2 ^ s = 2 ^ (52 : Nat) * 2 ^ (s + 1) := by
        rw [Nat.pow_succ 2 s, Nat.mul_comm (2 ^ s) 2, ← Nat.mul_assoc]
    _ ≤ 2 ^ (52 : Nat) * 2 ^ t := Nat.mul_le_mul_left _ (Nat.pow_le_pow_right Nat.two_pos h)

/-- The quotient in units of the gap. -/
theorem div_gap (den : Nat) :
    (num : ℚ) / den = num / (den * 2 ^ gap num den : Nat) * (2 ^ gap num den : Nat) := by
  have hpos : (0 : ℚ) < (2 ^ gap num den : Nat) := by exact_mod_cast Nat.two_pow_pos _
  rw [Nat.cast_mul, ← div_div, div_mul_cancel₀ _ hpos.ne']

/-- The distance of a multiple of the gap, in units of the gap. -/
theorem dist_gap (den k : Nat) :
    |((k * 2 ^ gap num den : Nat) : ℚ) - num / den| =
      |(k : ℚ) - num / (den * 2 ^ gap num den : Nat)| * (2 ^ gap num den : Nat) := by
  have hpos : (0 : ℚ) < (2 ^ gap num den : Nat) := by exact_mod_cast Nat.two_pow_pos _
  rw [div_gap, Nat.cast_mul, ← sub_mul, abs_mul, abs_of_pos hpos]

theorem den_gap_pos (hden : 0 < den) : 0 < den * 2 ^ gap num den :=
  Nat.mul_pos hden (Nat.two_pow_pos _)

/-- Where there is a gap between neighbours, the quotient has all 53 bits. -/
theorem le_div_of_gap_pos (h : 0 < gap num den) :
    (2 ^ (52 : Nat) * 2 ^ gap num den : Nat) ≤ (num : ℚ) / den := by
  have hpos : (0 : ℚ) < (2 ^ gap num den : Nat) := by exact_mod_cast Nat.two_pow_pos _
  have hfloor : ((num / (den * 2 ^ gap num den) : Nat) : ℚ) ≤
      num / (den * 2 ^ gap num den : Nat) := Nat.cast_div_le
  have hle : ((2 ^ (52 : Nat) : Nat) : ℚ) ≤ (num / (den * 2 ^ gap num den) : Nat) := by
    exact_mod_cast le_div_gap h
  rw [div_gap, Nat.cast_mul]
  exact mul_le_mul_of_nonneg_right (hle.trans hfloor) hpos.le

/-- The quotient is below the first number of 54 bits on the grid. -/
theorem div_lt_of_gap (hden : 0 < den) :
    (num : ℚ) / den < (2 ^ (53 : Nat) * 2 ^ gap num den : Nat) := by
  have hpos : (0 : ℚ) < (2 ^ gap num den : Nat) := by exact_mod_cast Nat.two_pow_pos _
  have hden' := den_gap_pos num hden
  rw [div_gap, Nat.cast_mul (2 ^ (53 : Nat))]
  apply mul_lt_mul_of_pos_right _ hpos
  rw [div_lt_iff₀ (Nat.cast_pos.mpr hden')]
  exact_mod_cast (Nat.div_lt_iff_lt_mul hden').mp (div_gap_lt num den)

/-- What rounding to 53 bits carries into a 54th bit is even. -/
theorem evenSignificand_significant (den : Nat)
    (h : Even (halfEven num (den * 2 ^ gap num den))) :
    EvenSignificand (significant num den) := by
  have hb := halfEven_bounds num (den * 2 ^ gap num den)
  have hlt := div_gap_lt num den
  have hle : 0 < gap num den → 2 ^ (52 : Nat) ≤ halfEven num (den * 2 ^ gap num den) :=
    fun hgap => (le_div_gap hgap).trans hb.1
  unfold significant
  generalize halfEven num (den * 2 ^ gap num den) = m at h hb hle ⊢
  by_cases hcarry : m = 2 ^ (53 : Nat)
  -- the carry makes the first number of the next grid
  · refine ⟨2 ^ (52 : Nat), gap num den + 1, ?_, by decide, .inr le_rfl, by decide⟩
    rw [hcarry, Nat.pow_succ 2 (gap num den)]
    ring
  · refine ⟨m, gap num den, rfl, by omega, ?_, h⟩
    -- without a carry the significand is `m` itself
    rcases Nat.eq_zero_or_pos (gap num den) with hzero | hpos
    · exact .inl hzero
    · exact .inr (hle hpos)

/-- Multiples of the gap are no nearer, and if another one is as near, the significand is even. -/
theorem significant_nearest_multiple (hden : 0 < den) (k : Nat) :
    |(significant num den : ℚ) - num / den| ≤ |((k * 2 ^ gap num den : Nat) : ℚ) - num / den| ∧
      (k * 2 ^ gap num den ≠ significant num den →
        |(significant num den : ℚ) - num / den| = |((k * 2 ^ gap num den : Nat) : ℚ) - num / den| →
        EvenSignificand (significant num den)) := by
  have hpos : (0 : ℚ) < (2 ^ gap num den : Nat) := by exact_mod_cast Nat.two_pow_pos _
  obtain ⟨hle, heven⟩ := halfEven_nearest num (den_gap_pos num hden) k
  rw [Int.cast_natCast] at hle heven
  -- both distances are in units of the gap, where integers are compared
  rw [significant, dist_gap, dist_gap]
  refine ⟨mul_le_mul_of_nonneg_right hle hpos.le, fun hne htie => ?_⟩
  apply evenSignificand_significant
  apply heven _ (mul_right_cancel₀ hpos.ne' htie)
  intro hk
  rw [Nat.cast_inj.mp hk] at hne
  exact hne rfl

/-- Among the numbers of 53 significant bits none is nearer, and if another one is as near, the
significand is even. -/
theorem significant_nearest (hden : 0 < den) {units : Nat} (hunits : Short units) :
    |(significant num den : ℚ) - num / den| ≤ |(units : ℚ) - num / den| ∧
      (units ≠ significant num den →
        |(significant num den : ℚ) - num / den| = |(units : ℚ) - num / den| →
        EvenSignificand (significant num den)) := by
  obtain ⟨m, s, hm, rfl⟩ := hunits
  by_cases hs : gap num den ≤ s
  · -- the other number is a multiple of the gap too
    obtain ⟨t, rfl⟩ := Nat.exists_eq_add_of_le hs
    have hmul : m * 2 ^ (gap num den + t) = m * 2 ^ t * 2 ^ gap num den := by
      rw [Nat.pow_add, Nat.mul_assoc, Nat.mul_comm (2 ^ t)]
    rw [hmul]
    exact significant_nearest_multiple num hden (m * 2 ^ t)
  · -- on a finer grid the other number is below `2 ^ 52` gaps, and these below the quotient
    have hlt : m * 2 ^ s < 2 ^ (52 : Nat) * 2 ^ gap num den :=
      calc m * 2 ^ s < 2 ^ (53 : Nat) * 2 ^ s := Nat.mul_lt_mul_of_pos_right hm (Nat.two_pow_pos s)
        _ ≤ 2 ^ (52 : Nat) * 2 ^ gap num den := mul_two_pow_le _ _ (Nat.lt_of_not_le hs)
    have hcast : ((m * 2 ^ s : Nat) : ℚ) < (2 ^ (52 : Nat) * 2 ^ gap num den : Nat) :=
      Nat.cast_lt.mpr hlt
    have hle := le_div_of_gap_pos num (Nat.lt_of_lt_of_le (Nat.zero_lt_succ s) (Nat.lt_of_not_le hs))
    obtain ⟨hnear, -⟩ := significant_nearest_multiple num hden (2 ^ (52 : Nat))
    rw [abs_of_nonpos (sub_nonpos.mpr hle)] at hnear
    rw [abs_of_neg (sub_neg.mpr (hcast.trans_le hle))]
    exact ⟨by linarith, fun _ htie => by linarith⟩

/-! ## §3 Where rounding gives zero, and where it overflows -/

/-- Where there is a gap between neighbours, the rounded quotient has all 53 bits too. -/
theorem le_halfEven_of_gap_pos (h : 0 < gap num den) :
    2 ^ (52 : Nat) ≤ halfEven num (den * 2 ^ gap num den) :=
  (le_div_gap h).trans (halfEven_bounds _ _).1

/-- Half a unit is the last quotient that is rounded to zero. -/
theorem significant_eq_zero_iff (hden : 0 < den) :
    significant num den = 0 ↔ (num : ℚ) / den ≤ 1 / 2 := by
  have hzero : significant num den = 0 ↔ halfEven num (den * 2 ^ gap num den) < 1 := by
    simp [significant]
  rw [hzero]
  rcases Nat.eq_zero_or_pos (gap num den) with hgap | hgap
  -- on the finest grid, one half is the tie, and zero is even
  · rw [hgap, Nat.pow_zero, Nat.mul_one, halfEven_lt_iff_of_odd num hden odd_one]
    norm_num
  · -- the quotient and what it is rounded to are far from zero
    have hle := le_div_of_gap_pos num hgap
    have hhalf := le_halfEven_of_gap_pos num hgap
    have hone : (1 : ℚ) ≤ (2 ^ (52 : Nat) * 2 ^ gap num den : Nat) := by
      exact_mod_cast Nat.mul_pos (Nat.two_pow_pos 52) (Nat.two_pow_pos _)
    constructor
    · intro hk
      omega
    · intro hsmall
      linarith

/-- A power of two is reached from one half of the last gap below it on. -/
theorem significant_lt_two_pow_iff (hden : 0 < den) (last : Nat) :
    significant num den < 2 ^ (53 : Nat) * 2 ^ last ↔
      (num : ℚ) / den < (2 ^ 53 - 1 / 2) * 2 ^ last := by
  have hcast : (2 : ℚ) ^ last = (2 ^ last : Nat) := by norm_cast
  have hunit : (0 : ℚ) < (2 ^ last : Nat) := Nat.cast_pos.mpr (Nat.two_pow_pos last)
  rw [significant, hcast]
  obtain hgap | rfl | hgap := Nat.lt_trichotomy (gap num den) last
  · -- on finer grids both are at most half as large
    have hle := mul_two_pow_le (gap num den) last hgap
    have hhalf : halfEven num (den * 2 ^ gap num den) ≤ 2 ^ (53 : Nat) := by
      have hbounds := halfEven_bounds num (den * 2 ^ gap num den)
      have hlt := div_gap_lt num den
      omega
    have hquotient := (div_lt_of_gap num hden).trans_le (Nat.cast_le.mpr hle)
    -- below the power both of them
    apply iff_of_true
    · calc halfEven num (den * 2 ^ gap num den) * 2 ^ gap num den
          ≤ 2 ^ (53 : Nat) * 2 ^ gap num den := Nat.mul_le_mul_right _ hhalf
        _ ≤ 2 ^ (52 : Nat) * 2 ^ last := hle
        _ < 2 ^ (53 : Nat) * 2 ^ last :=
          Nat.mul_lt_mul_of_pos_right (by decide) (Nat.two_pow_pos last)
    · apply hquotient.trans_le
      rw [Nat.cast_mul]
      exact mul_le_mul_of_nonneg_right (by norm_num) hunit.le
  · -- the last gap below the power, which is an even number of them
    rw [div_gap, Nat.mul_lt_mul_right (Nat.two_pow_pos _), mul_lt_mul_iff_left₀ hunit,
      halfEven_lt_iff_of_even num (den_gap_pos num hden) (by decide)]
    norm_num
  · -- on coarser grids both reach the power
    have hle := mul_two_pow_le last (gap num den) hgap
    have hpos : 0 < gap num den := Nat.zero_lt_of_lt hgap
    have hquotient := (Nat.cast_le.mpr hle).trans (le_div_of_gap_pos num hpos)
    -- neither of them is below it
    apply iff_of_false
    · apply Nat.not_lt.mpr
      exact hle.trans (Nat.mul_le_mul_right _ (le_halfEven_of_gap_pos num hpos))
    · apply not_lt.mpr
      apply le_trans _ hquotient
      rw [Nat.cast_mul]
      exact mul_le_mul_of_nonneg_right (by norm_num) hunit.le

/-- The overflow is divided into a significand and a grid. -/
theorem overflow_eq (m n : Nat) (h : m + n = 2098) : overflow = 2 ^ m * 2 ^ n := by
  rw [← Nat.pow_add, h, overflow]

theorem overflow_pos : 0 < overflow := by
  obtain ⟨n, hn⟩ : ∃ n : Nat, overflow = 2 ^ n := ⟨_, rfl⟩
  rw [hn]
  exact Nat.two_pow_pos n

/-- A quotient overflows from one half of the last gap below the overflow on. -/
theorem significant_lt_overflow_iff (hden : 0 < den) :
    significant num den < overflow ↔
      (num : ℚ) / den < (2 ^ 53 - 1 / 2) * 2 ^ 2045 := by
  rw [overflow_eq 53 2045 rfl]
  exact significant_lt_two_pow_iff num hden 2045

/-! ## §4 Neighbours -/

theorem Representable.short {units : Nat} (h : Representable units) : Short units := by
  obtain ⟨m, s, hm, -, hunits⟩ := h
  exact ⟨m, s, hm, hunits⟩

theorem Representable.lt_overflow {units : Nat} (h : Representable units) : units < overflow := by
  obtain ⟨m, s, hm, hs, rfl⟩ := h
  rw [overflow_eq 53 2045 rfl]
  calc m * 2 ^ s < 2 ^ (53 : Nat) * 2 ^ s := Nat.mul_lt_mul_of_pos_right hm (Nat.two_pow_pos s)
    _ ≤ 2 ^ (53 : Nat) * 2 ^ 2045 := Nat.mul_le_mul_left _ (Nat.pow_le_pow_right Nat.two_pos hs)

/-- Below the overflow, 53 bits are enough on the grids of the format. -/
theorem Short.representable {units : Nat} (h : Short units) (hlt : units < overflow) :
    Representable units := by
  obtain ⟨m, s, hm, rfl⟩ := h
  rw [overflow_eq 53 2045 rfl] at hlt
  generalize hlast : 2045 = last at hlt
  by_cases hs : s ≤ last
  · exact ⟨m, s, hm, hlast ▸ hs, rfl⟩
  · -- the last grid of the format takes what a coarser one counts
    obtain ⟨t, rfl⟩ := Nat.exists_eq_add_of_le (Nat.le_of_not_le hs)
    have hmul : m * 2 ^ (last + t) = m * 2 ^ t * 2 ^ last := by
      rw [Nat.pow_add, Nat.mul_assoc, Nat.mul_comm (2 ^ t)]
    rw [hmul] at hlt ⊢
    exact ⟨m * 2 ^ t, last, Nat.lt_of_mul_lt_mul_right hlt, Nat.le_of_eq hlast.symm, rfl⟩

theorem evenSignificand_zero : EvenSignificand 0 :=
  ⟨0, 0, rfl, by decide, .inl rfl, by decide⟩

/-- Two neighbours do not both have an even significand. -/
theorem exists_short_between {low high : Nat} (hlow : EvenSignificand low)
    (hhigh : EvenSignificand high) (h : low < high) :
    ∃ units, Short units ∧ low < units ∧ units < high := by
  obtain ⟨m, s, rfl, hm, hfull, heven⟩ := hlow
  obtain ⟨n, t, rfl, hn, -, heven'⟩ := hhigh
  have hodd : m + 1 < 2 ^ (53 : Nat) := by
    obtain ⟨half, rfl⟩ := heven
    omega
  have hpos := Nat.two_pow_pos s
  -- the next number on the grid of the lower one
  refine ⟨(m + 1) * 2 ^ s, ⟨m + 1, s, hodd, rfl⟩,
    Nat.mul_lt_mul_of_pos_right m.lt_succ_self hpos, ?_⟩
  by_cases hs : s ≤ t
  · -- the higher one is an even number of gaps too
    obtain ⟨r, rfl⟩ := Nat.exists_eq_add_of_le hs
    have hmul : n * 2 ^ (s + r) = n * 2 ^ r * 2 ^ s := by
      rw [Nat.pow_add, Nat.mul_assoc, Nat.mul_comm (2 ^ r)]
    rw [hmul] at h ⊢
    have hlt : m < n * 2 ^ r := Nat.lt_of_mul_lt_mul_right h
    obtain ⟨half, rfl⟩ := heven
    obtain ⟨half', hhalf'⟩ := heven'.mul_right (2 ^ r)
    exact Nat.mul_lt_mul_of_pos_right (by omega) hpos
  · -- on a finer grid the other one would be lower
    have hle := mul_two_pow_le t s (Nat.lt_of_not_le hs)
    have hfull : 2 ^ (52 : Nat) ≤ m := hfull.resolve_left (by omega)
    have hlt : n * 2 ^ t < m * 2 ^ s :=
      calc n * 2 ^ t < 2 ^ (53 : Nat) * 2 ^ t := Nat.mul_lt_mul_of_pos_right hn (Nat.two_pow_pos t)
        _ ≤ 2 ^ (52 : Nat) * 2 ^ s := hle
        _ ≤ m * 2 ^ s := Nat.mul_le_mul_right _ hfull
    exact absurd h (Nat.lt_asymm hlt)

/-! ## §5 The same quotient -/

/-- A common factor has no part in a quotient. -/
theorem halfEven_mul_right (den : Nat) {k : Nat} (hk : 0 < k) :
    halfEven (num * k) (den * k) = halfEven num den := by
  simp only [halfEven, Nat.mul_div_mul_right num den hk, Nat.mul_mod_mul_right, ← Nat.mul_assoc,
    Nat.mul_lt_mul_right hk]

theorem significant_mul_right (den : Nat) {k : Nat} (hk : 0 < k) :
    significant (num * k) (den * k) = significant num den := by
  have hgap : gap (num * k) (den * k) = gap num den := by
    rw [gap, gap, Nat.mul_div_mul_right num den hk]
  rw [significant, significant, hgap, Nat.mul_right_comm, halfEven_mul_right num _ hk]

/-- Only the quotient has a part in what it is rounded to. -/
theorem significant_congr {num' den' : Nat} (hden : 0 < den) (hden' : 0 < den')
    (h : (num : ℚ) / den = num' / den') : significant num den = significant num' den' := by
  have hne : (den : ℚ) ≠ 0 := Nat.cast_ne_zero.mpr hden.ne'
  have hne' : (den' : ℚ) ≠ 0 := Nat.cast_ne_zero.mpr hden'.ne'
  have hcross : num * den' = num' * den := by
    rw [div_eq_div_iff hne hne'] at h
    exact_mod_cast h
  rw [← significant_mul_right num den hden', hcross, Nat.mul_comm den,
    significant_mul_right num' den' hden]

end Significant

end AddingMachine.Rounding
