import Bilingual.BinaryFloat

/-!
# The shortest decimal of a binary number

A binary number is written with the fewest digits that still denote it, that is,
for which no other number of the format is nearer.  The digits are found by exact
comparisons: for one digit, two digits and so on, the two neighbours of the number
among the decimals with so many digits are tried, and the nearer one that denotes
the number is taken.  Of two that are equally near the greater one is taken.

The digits are written positionally, without an exponent and without a point
behind whole numbers.
-/

namespace Bilingual

/-- A decimal: its digits times a power of ten. -/
structure Decimal where
  digits : Nat
  exponent : Int
  deriving DecidableEq, Repr

namespace Decimal

/-- Compares a decimal with a mantissa times a power of two. -/
def compareBinary (decimal : Decimal) (mantissa : Nat) (exponent : Int) : Ordering :=
  compare
    (decimal.digits * Nat.pow 10 decimal.exponent.toNat * Nat.pow 2 (-exponent).toNat)
    (mantissa * Nat.pow 2 exponent.toNat * Nat.pow 10 (-decimal.exponent).toNat)

/-- The greatest multiple of a power of ten that is not above a mantissa times a
power of two. -/
def floorOf (mantissa : Nat) (exponent scale : Int) : Decimal :=
  ⟨mantissa * Nat.pow 2 exponent.toNat * Nat.pow 10 (-scale).toNat /
    (Nat.pow 10 scale.toNat * Nat.pow 2 (-exponent).toNat), scale⟩

/-- The decimal lies among the numbers that are rounded to a finite binary number
other than zero.  Below a power of two the next number is only half as far away
as above it.  The ends of the interval belong to it if the mantissa is even. -/
def denotes (decimal : Decimal) (mantissa : Nat) (exponent : Int) : Bool :=
  let narrowBelow := mantissa = 0x10000000000000 && -1074 < exponent
  let lower := if narrowBelow then 4 * mantissa - 1 else 4 * mantissa - 2
  let upper := 4 * mantissa + 2
  let atLower := decimal.compareBinary lower (exponent - 2)
  let atUpper := decimal.compareBinary upper (exponent - 2)
  let even := mantissa % 2 = 0
  (atLower = .gt || (even && atLower = .eq)) && (atUpper = .lt || (even && atUpper = .eq))

/-- The least power of ten that is above a binary number.  The logarithm in base
two leads near to it. -/
def scaleOf (mantissa : Nat) (exponent : Int) : Int :=
  let estimate := Int.fdiv (((Nat.log2 mantissa : Int) + exponent) * 30103) 100000 - 1
  let isAbove (scale : Int) : Bool := compareBinary ⟨1, scale⟩ mantissa exponent = .gt
  ([estimate, estimate + 1, estimate + 2, estimate + 3].find? isAbove).getD (estimate + 4)

/-- The nearer of the two neighbours of a binary number among the multiples of a
power of ten, if it denotes the number; otherwise the other one, if that does. -/
def neighbour? (mantissa : Nat) (exponent scale : Int) : Option Decimal :=
  let below := floorOf mantissa exponent scale
  let above : Decimal := ⟨below.digits + 1, scale⟩
  let middle : Decimal := ⟨below.digits + above.digits, scale⟩
  let candidates :=
    if middle.compareBinary (2 * mantissa) exponent = .gt then [below, above]
    else [above, below]
  candidates.find? (·.denotes mantissa exponent)

/-- The decimal with the fewest digits that denotes a binary number.  Seventeen
digits are enough for every number of the format. -/
def shortest (mantissa : Nat) (exponent : Int) : Decimal :=
  let scale := scaleOf mantissa exponent
  let neighbourOf (count : Nat) := neighbour? mantissa exponent (scale - (count + 1))
  ((List.range 17).findSome? neighbourOf).getD (floorOf mantissa exponent (scale - 17))

/-- The same decimal without zeros at the end of its digits.  A neighbour above can
be a power of ten, which has one digit less than its grid has places. -/
def withoutEndingZeros (decimal : Decimal) : Decimal :=
  if ended : decimal.digits ≠ 0 ∧ decimal.digits % 10 = 0 then
    withoutEndingZeros ⟨decimal.digits / 10, decimal.exponent + 1⟩
  else decimal
termination_by decimal.digits
decreasing_by omega

/-- A decimal as it is written. -/
def written (decimal : Decimal) : Text :=
  let digits := decimalDigits decimal.digits
  if 0 ≤ decimal.exponent then digits ++ List.replicate decimal.exponent.toNat '0'
  else
    let places := (-decimal.exponent).toNat
    let padded := padZeros (places + 1) digits
    padded.take (padded.length - places) ++ '.' :: padded.drop (padded.length - places)

end Decimal

/-- A binary number as it is written. -/
def BinaryFloat.written : BinaryFloat → Text
  | .notANumber => "NaN".toList
  | .infinite negative => if negative then "-inf".toList else "inf".toList
  | .finite negative mantissa exponent =>
      (if negative then ['-'] else []) ++
        if mantissa = 0 then ['0']
        else (Decimal.shortest mantissa exponent).withoutEndingZeros.written

end Bilingual
