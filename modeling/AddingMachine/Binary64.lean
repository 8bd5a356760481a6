/-!
# Double-precision numbers

Rounding a quotient of natural numbers to 53 significant bits, and the numbers that are formed by it:
values of the IEEE 754 double format, with their sums and differences.
-/

namespace AddingMachine

/-! ## §1 Rounding a quotient of natural numbers

`halfEven num den` is the integer nearest to `num / den`. `significant num den` is the nearest
number among those that 53 significant bits can write, still without an upper bound: the gap
between two neighbours is `2 ^ gap num den`, and the quotient is rounded to a multiple of it.

`significant_representable` says that a result below `overflow` fits the grid of finite doubles,
measured in units of `2 ^ -1074`. -/

namespace Rounding

-- Powers of natural numbers mean the same here whatever else is imported. A literal exponent is
-- given its type, so that no default is chosen for it.
attribute [local instance (2000)] instPowNat

/-! ### Rounding to an integer -/

/-- The integer nearest to `num / den`; a tie goes to the even neighbour. -/
def halfEven (num den : Nat) : Nat :=
  let floor := num / den
  let rest := num % den
  if 2 * rest < den then floor
  else if den < 2 * rest then floor + 1
  else floor + floor % 2

/-- Rounding moves a quotient down to its floor or up by one. -/
theorem halfEven_bounds (num den : Nat) :
    num / den ≤ halfEven num den ∧ halfEven num den ≤ num / den + 1 := by
  simp only [halfEven]
  split
  · omega
  · split <;> omega

/-! ### Rounding to 53 significant bits -/

/-- Neighbouring 53-bit numbers around `num / den` are `2 ^ gap num den` apart. -/
def gap (num den : Nat) : Nat :=
  (num / den).log2 - 52

/-- The number of at most 53 significant bits nearest to `num / den`, ties to even. -/
def significant (num den : Nat) : Nat :=
  halfEven num (den * 2 ^ gap num den) * 2 ^ gap num den

/-- The first number of units of `2 ^ -1074` beyond all finite doubles, which is `2 ^ 1024`. -/
def overflow : Nat :=
  2 ^ (2098 : Nat)

/-- Numbers of at most 53 significant bits below `overflow`: the magnitudes of finite doubles in
units of `2 ^ -1074`. -/
def Representable (units : Nat) : Prop :=
  ∃ m s : Nat, m < 2 ^ (53 : Nat) ∧ s ≤ 2045 ∧ units = m * 2 ^ s

theorem div_gap_lt (num den : Nat) : num / (den * 2 ^ gap num den) < 2 ^ (53 : Nat) := by
  rw [← Nat.div_div_eq_div_mul, Nat.div_lt_iff_lt_mul (Nat.two_pow_pos _), ← Nat.pow_add]
  exact Nat.lt_of_lt_of_le Nat.lt_log2_self
    (Nat.pow_le_pow_right (by decide) (by unfold gap; omega))

theorem le_div_gap {num den : Nat} (h : 0 < gap num den) :
    2 ^ (52 : Nat) ≤ num / (den * 2 ^ gap num den) := by
  have hlog : 52 + gap num den = (num / den).log2 := by
    unfold gap at h ⊢; omega
  have hne : num / den ≠ 0 := by
    intro h0
    rw [h0, Nat.log2_zero] at hlog
    omega
  rw [← Nat.div_div_eq_div_mul, Nat.le_div_iff_mul_le (Nat.two_pow_pos _), ← Nat.pow_add, hlog]
  exact Nat.log2_self_le hne

/-- A rounded quotient below `overflow` is the magnitude of a finite double. -/
theorem significant_representable {num den : Nat} (h : significant num den < overflow) :
    Representable (significant num den) := by
  have hb := halfEven_bounds num (den * 2 ^ gap num den)
  have hlt := div_gap_lt num den
  unfold significant overflow at *
  generalize hq : halfEven num (den * 2 ^ gap num den) = q at h hb ⊢
  have hgap : ∀ k, 2 ^ k ≤ q → k + gap num den < 2098 := by
    intro k hk
    have hle : 2 ^ (k + gap num den) ≤ q * 2 ^ gap num den := by
      rw [Nat.pow_add]
      exact Nat.mul_le_mul_right _ hk
    have hlt : 2 ^ (k + gap num den) < 2 ^ (2098 : Nat) := Nat.lt_of_le_of_lt hle h
    exact (Nat.pow_lt_pow_iff_right (n := k + gap num den) (m := 2098) Nat.one_lt_two).1 hlt
  by_cases hcarry : q = 2 ^ (53 : Nat)
  · -- the rounding carried into a 54th bit: halve the significand
    have := hgap 53 (Nat.le_of_eq hcarry.symm)
    refine ⟨2 ^ (52 : Nat), gap num den + 1, by decide, by omega, ?_⟩
    have hhalf : 2 ^ (53 : Nat) = 2 ^ (52 : Nat) * 2 := by decide
    rw [hcarry, hhalf, Nat.mul_assoc, Nat.mul_comm 2 (2 ^ gap num den), ← Nat.pow_succ]
  · refine ⟨q, gap num den, by omega, ?_, rfl⟩
    by_cases hpos : 0 < gap num den
    · have := hgap 52 (Nat.le_trans (le_div_gap hpos) hb.1)
      omega
    · omega

end Rounding

/-! ## §2 Double-precision numbers

A `Binary64` is a value of the IEEE 754 double format, all NaNs counting as one. Finite magnitudes
are kept exactly, as natural multiples of the smallest subnormal `2 ^ -1074`, so two values are
equal exactly when their bits are. Sums are formed exactly and rounded once. -/

/-! ### Values -/

/-- The size of a finite double, in units of `2 ^ -1074`. -/
structure Magnitude where
  /-- How many times `2 ^ -1074`. -/
  units : Nat
  /-- Only what the format can hold occurs. -/
  representable : Rounding.Representable units
  deriving DecidableEq

/-- A double-precision number; zero is finite and has a sign. -/
inductive Binary64 where
  | nan
  | infinite (negative : Bool)
  | finite (negative : Bool) (magnitude : Magnitude)
  deriving DecidableEq

namespace Magnitude

def zero : Magnitude :=
  ⟨0, 0, 0, by decide, by decide, rfl⟩

def signed (negative : Bool) (magnitude : Magnitude) : Int :=
  if negative then -magnitude.units else magnitude.units

end Magnitude

namespace Binary64

def isFinite : Binary64 → Bool
  | .finite .. => true
  | _ => false

/-! ### Rounding into the format -/

/-- The double nearest to `num / den` units of `2 ^ -1074`, with the given sign. From
`2 ^ 1024 - 2 ^ 970` on, the nearest is an infinity. -/
def nearest (negative : Bool) (num den : Nat) : Binary64 :=
  if h : Rounding.significant num den < Rounding.overflow then
    .finite negative ⟨Rounding.significant num den, Rounding.significant_representable h⟩
  else
    .infinite negative

/-! ### Arithmetic -/

def neg : Binary64 → Binary64
  | .nan => .nan
  | .infinite negative => .infinite !negative
  | .finite negative magnitude => .finite (!negative) magnitude

/-- The sum of two finite values, given by its exact number of units. A sum of zero is negative
only where both terms are. -/
def ofSum (bothNegative : Bool) (total : Int) : Binary64 :=
  if total = 0 then .finite bothNegative .zero
  else nearest (total < 0) total.natAbs 1

/-- The sum, rounded to nearest with ties to even. -/
def add : Binary64 → Binary64 → Binary64
  | .nan, _ => .nan
  | _, .nan => .nan
  -- opposite infinities have no sum
  | .infinite p, .infinite q => if p = q then .infinite p else .nan
  | .infinite p, .finite _ _ => .infinite p
  | .finite _ _, .infinite q => .infinite q
  | .finite p a, .finite q b => ofSum (p && q) (a.signed p + b.signed q)

def sub (x y : Binary64) : Binary64 :=
  x.add y.neg

end Binary64

end AddingMachine
