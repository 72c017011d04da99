import Bilingual.Digits

/-!
# Binary floating-point numbers

The numbers of the 64-bit binary format, taken apart into a sign, a whole
mantissa and an exponent of two.  They are read from decimals, and they are
rounded to whole numbers where a setting asks for one.
-/

namespace Bilingual

/-- A number of the binary format.  The finite ones are the mantissa times a power
of two. -/
inductive BinaryFloat
  | notANumber
  | infinite (negative : Bool)
  | finite (negative : Bool) (mantissa : Nat) (exponent : Int)
  deriving DecidableEq, Repr

namespace BinaryFloat

/-- A quotient as the nearest whole number.  A half goes to the even neighbour. -/
def nearestWhole (dividend divisor : Nat) : Nat :=
  let whole := dividend / divisor
  let twice := 2 * (dividend % divisor)
  if divisor < twice || (twice = divisor && whole % 2 = 1) then whole + 1 else whole

/-- The number nearest to a quotient.  Its exponent is such that the mantissa has
53 binary digits, but never below the least exponent of the format; the numbers of
digits of dividend and divisor tell it up to one. -/
def ofQuotient (negative : Bool) (dividend divisor : Nat) : BinaryFloat :=
  let mantissaAt (exponent : Int) : Nat :=
    nearestWhole (dividend * Nat.pow 2 (-exponent).toNat)
      (divisor * Nat.pow 2 exponent.toNat)
  let estimate := max ((dividend.log2 : Int) - divisor.log2 - 53) (-1074)
  let exponent :=
    if mantissaAt estimate < 0x20000000000000 then estimate else estimate + 1
  let mantissa := mantissaAt exponent
  let carried := mantissa = 0x20000000000000
  let exponent := if carried then exponent + 1 else exponent
  if 971 < exponent then .infinite negative
  else .finite negative (if carried then 0x10000000000000 else mantissa) exponent

/-- The number nearest to a decimal, which is `digits` times a power of ten.  With
an exponent far outside of the range of the format the answer is clear without
computing the power. -/
def ofDecimal (negative : Bool) (digits : Nat) (exponent : Int) : BinaryFloat :=
  let magnitude := exponent + (decimalDigits digits).length
  if digits = 0 || magnitude < -400 then .finite negative 0 (-1074)
  else if 400 < magnitude then .infinite negative
  else
    ofQuotient negative (digits * Nat.pow 10 exponent.toNat)
      (Nat.pow 10 (-exponent).toNat)

/-- The number is zero, with either sign. -/
def isZero : BinaryFloat → Bool
  | .finite _ mantissa _ => mantissa = 0
  | _ => false

/-- A finite magnitude as a whole number.  A half is rounded up. -/
def roundedMagnitude (mantissa : Nat) (exponent : Int) : Nat :=
  if 0 ≤ exponent then mantissa * Nat.pow 2 exponent.toNat
  else
    let divisor := Nat.pow 2 (-exponent).toNat
    (2 * mantissa + divisor) / (2 * divisor)

/-- The nearest whole number of 64 bits.  A half is rounded away from zero, and
what is too small or too large becomes the least or the greatest of them.  No
number at all counts as zero. -/
def toWord64 : BinaryFloat → Nat
  | .notANumber => 0
  | .infinite negative => if negative then 0 else 0xFFFFFFFFFFFFFFFF
  | .finite negative mantissa exponent =>
      if negative then 0 else min (roundedMagnitude mantissa exponent) 0xFFFFFFFFFFFFFFFF

end BinaryFloat

end Bilingual
