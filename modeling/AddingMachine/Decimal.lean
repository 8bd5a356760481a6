import AddingMachine.Binary64

/-!
# Decimal numbers

Decimals, the doubles that they are read as, and the other way: the shortest decimal that is read as a
given double, and how it is written.
-/

namespace AddingMachine

/-! ## §1 Decimal numbers

A `Decimal` is a natural coefficient times a power of ten. Its nearest double is found in one exact
step, however many digits there are, so the result is correctly rounded for every text. -/

-- powers of natural numbers mean the same here whatever else is imported
attribute [local instance (2000)] instPowNat

/-! ### Decimals and their digits -/

/-- The number `coefficient * 10 ^ exponent`. -/
structure Decimal where
  /-- All digits, read as one natural number. -/
  coefficient : Nat
  /-- The power of ten of the last digit. -/
  exponent : Int
  deriving DecidableEq

namespace Decimal

/-- The number written as `whole` digits, a point and `fraction` digits. -/
def ofDigits (whole fraction : List Char) : Decimal :=
  ⟨Nat.ofDigitChars 10 (whole ++ fraction) 0, -(fraction.length : Int)⟩

def digits (d : Decimal) : List Char :=
  Nat.toDigits 10 d.coefficient

/-- The power of ten of the first digit. -/
def leadingExponent (d : Decimal) : Int :=
  d.exponent + (d.digits.length - 1 : Int)

/-! ### The nearest double -/

/-- How many units of `2 ^ -1074` make one. -/
def unitsPerOne : Nat :=
  2 ^ (1074 : Nat)

/-- The double nearest to the number, with the given sign; ties go to the even significand. -/
def toBinary64 (negative : Bool) (d : Decimal) : Binary64 :=
  match d.exponent with
  | .ofNat e => .nearest negative (d.coefficient * 10 ^ e * unitsPerOne) 1
  | .negSucc e => .nearest negative (d.coefficient * unitsPerOne) (10 ^ (e + 1))

/-! ### Reading -/

/-- Reads digits, optionally followed by a point and more digits, and nothing else. -/
def ofChars? (text : List Char) : Option Decimal :=
  let whole := text.takeWhile Char.isDigit
  if whole.isEmpty then none
  else match text.dropWhile Char.isDigit with
    | [] => some (ofDigits whole [])
    | '.' :: fraction =>
      if fraction.isEmpty || !fraction.all Char.isDigit then none
      else some (ofDigits whole fraction)
    | _ :: _ => none

end Decimal

/-- Reads a signed decimal, `inf`, `-inf` or `NaN`. -/
def Binary64.ofText? (text : String) : Option Binary64 :=
  match text.toList with
  | ['N', 'a', 'N'] => some .nan
  | ['i', 'n', 'f'] => some (.infinite false)
  | ['-', 'i', 'n', 'f'] => some (.infinite true)
  | '-' :: digits => (Decimal.ofChars? digits).map (·.toBinary64 true)
  | digits => (Decimal.ofChars? digits).map (·.toBinary64 false)

/-! ## §2 The shortest decimal that reads back

Among the decimals that are read as a given double, `Magnitude.shortest` picks one with the fewest
digits, and of those one nearest to the double. Every finite double is a multiple of `10 ^ -1074`;
on that grid the search walks from coarse powers of ten to fine ones and looks at the two neighbours
of the exact value. Where any number of a grid reads back, one of the two neighbours does. -/

/-- Which of two equally near shortest decimals is taken. -/
inductive Tie where
  | up
  | even
  deriving DecidableEq

namespace Magnitude

/-! ### Candidates on one grid -/

/-- How many units of `10 ^ -1074` make one unit of `2 ^ -1074`. -/
def decimalUnitsPerUnit : Nat :=
  5 ^ (1074 : Nat)

def decimalUnits (m : Magnitude) : Nat :=
  m.units * decimalUnitsPerUnit

/-- Whether `coefficient * 10 ^ grid` units of `10 ^ -1074` are read as `m`. -/
def readsBack (m : Magnitude) (grid coefficient : Nat) : Bool :=
  Rounding.significant (coefficient * 10 ^ grid) decimalUnitsPerUnit == m.units

/-- Of the neighbours `low` and `low + 1` on a grid, the one nearer to `m`. -/
def nearer (tie : Tie) (m : Magnitude) (grid low : Nat) : Nat :=
  let rest := m.decimalUnits % 10 ^ grid
  if 2 * rest < 10 ^ grid then low
  else if 10 ^ grid < 2 * rest then low + 1
  else match tie with
    | .up => low + 1
    | .even => low + low % 2

/-- The multiple of `10 ^ grid` that reads back as `m`, if a neighbour of `m` on the grid does. -/
def onGrid? (tie : Tie) (m : Magnitude) (grid : Nat) : Option Nat :=
  -- the exact value lies between `low` and `low + 1` on this grid
  let low := m.decimalUnits / 10 ^ grid
  if m.readsBack grid low then
    if m.readsBack grid (low + 1) then some (m.nearer tie grid low) else some low
  else if m.readsBack grid (low + 1) then some (low + 1)
  else none

/-! ### The search -/

/-- The last of `f 1`, …, `f n` that there is, or else `base`. -/
def lastFound {α : Type} (f : Nat → Option α) (base : α) : Nat → α
  | 0 => base
  | n + 1 =>
    match f (n + 1) with
    | some found => found
    | none => lastFound f base n

/-- The number on the coarsest grid up to `10 ^ grid` that has one which reads back. The finest
grid holds `m` itself. -/
def coarsest (tie : Tie) (m : Magnitude) (grid : Nat) : Decimal :=
  lastFound (fun grid => (m.onGrid? tie grid).map fun coefficient =>
      ⟨coefficient, (grid : Int) - 1074⟩)
    ⟨m.decimalUnits, -1074⟩ grid

/-- A power of ten above `n`, by its exponent: `2 ^ 93 < 10 ^ 28`, so each 93 bits have at most 28
digits. -/
def digitBound (n : Nat) : Nat :=
  n.log2 * 28 / 93 + 2

/-- The shortest decimal that reads back as `m`, the nearest one of these. -/
def shortest (tie : Tie) (m : Magnitude) : Decimal :=
  if m.units = 0 then ⟨0, 0⟩
  else m.coarsest tie (digitBound m.decimalUnits)

end Magnitude

/-! ## §3 How numbers are written

A `NumberStyle` gathers the decisions of a number format: where positional writing ends, how whole
numbers and exponents look, and which of two equally near decimals is written. The calculator uses
three styles: `plain` for results, `logged` for log lines and `json` for JSON reports. -/

/-! ### Styles -/

/-- The decisions of a number format. -/
structure NumberStyle where
  /-- Which of two equally near shortest decimals is written. -/
  tie : Tie
  /-- The least and the greatest leading exponent that are written positionally; all are, without
  these bounds. -/
  positional : Option (Int × Int)
  /-- Whether whole numbers in positional writing end in `.0`. -/
  pointZero : Bool
  /-- Whether exponents that are not negative carry a plus sign. -/
  plusSign : Bool
  deriving DecidableEq

namespace NumberStyle

/-- Results and trees: always positional, whole numbers without a point. -/
def plain : NumberStyle :=
  ⟨.up, none, false, false⟩

/-- Log lines: positional from `10 ^ -4` and below `10 ^ 16`, whole numbers end in `.0`. -/
def logged : NumberStyle :=
  ⟨.up, some (-4, 15), true, false⟩

/-- JSON reports: positional from `10 ^ -5` and below `10 ^ 16`, whole numbers end in `.0`, and
exponents always have a sign. -/
def json : NumberStyle :=
  ⟨.even, some (-5, 15), true, true⟩

def isPositional (style : NumberStyle) (leading : Int) : Bool :=
  match style.positional with
  | none => true
  | some (least, greatest) => least ≤ leading && leading ≤ greatest

end NumberStyle

/-! ### Writing -/

namespace Decimal

def positionalChars (pointZero : Bool) (d : Decimal) : List Char :=
  let digits := d.digits
  match d.exponent with
  | .ofNat zeros => digits ++ List.replicate zeros '0' ++ if pointZero then ['.', '0'] else []
  | .negSucc n =>
    let places := n + 1
    if places < digits.length then
      digits.take (digits.length - places) ++ '.' :: digits.drop (digits.length - places)
    else
      '0' :: '.' :: (List.replicate (places - digits.length) '0' ++ digits)

/-- The number as one digit, a point and the other digits if there are any, and the exponent. -/
def scientificChars (plusSign : Bool) (d : Decimal) : List Char :=
  let fraction := d.digits.drop 1
  let sign := if d.leadingExponent < 0 then ['-'] else if plusSign then ['+'] else []
  d.digits.take 1 ++ (if fraction.isEmpty then [] else '.' :: fraction)
    ++ 'e' :: sign ++ Nat.toDigits 10 d.leadingExponent.natAbs

def chars (style : NumberStyle) (d : Decimal) : List Char :=
  if style.isPositional d.leadingExponent then d.positionalChars style.pointZero
  else d.scientificChars style.plusSign

end Decimal

namespace Binary64

/-- The characters of a value: its shortest decimal in the given style, or `inf`, `-inf`, `NaN`. -/
def chars (style : NumberStyle) : Binary64 → List Char
  | .nan => ['N', 'a', 'N']
  | .infinite negative => (if negative then ['-'] else []) ++ ['i', 'n', 'f']
  | .finite negative magnitude =>
    (if negative then ['-'] else []) ++ (magnitude.shortest style.tie).chars style

def text (style : NumberStyle) (x : Binary64) : String :=
  String.ofList (x.chars style)

end Binary64

end AddingMachine
