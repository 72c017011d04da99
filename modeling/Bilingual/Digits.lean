import Bilingual.Text

/-!
# Digits

Digits of numerals in the bases ten, sixteen and below, and the numbers that
they denote.  Only the digits and letters of ASCII count.
-/

namespace Bilingual

/-- The character is one of `0` to `9`. -/
def isDigit (character : Char) : Bool :=
  '0' ≤ character && character ≤ '9'

/-- The value of a digit or letter, where `a` and `A` are ten. -/
def digitValue? (character : Char) : Option Nat :=
  if isDigit character then some (character.toNat - 48)
  else if 'a' ≤ character && character ≤ 'z' then some (character.toNat - 87)
  else if 'A' ≤ character && character ≤ 'Z' then some (character.toNat - 55)
  else none

/-- The value of a digit of a given base. -/
def digitValueIn? (base : Nat) (character : Char) : Option Nat :=
  (digitValue? character).filter (· < base)

/-- The number that is denoted by digits behind the number `value`. -/
def numberFrom? (base : Nat) (value : Nat) : Text → Option Nat
  | [] => some value
  | character :: digits =>
      match digitValueIn? base character with
      | some digit => numberFrom? base (value * base + digit) digits
      | none => none

/-- The number that is denoted by at least one digit. -/
def number? (base : Nat) : Text → Option Nat
  | [] => none
  | digits => numberFrom? base 0 digits

/-- The number that is denoted by digits of base ten.  Anything else in the text
counts as the digit zero. -/
def decimalNumber (digits : Text) : Nat :=
  digits.foldl (fun value character =>
    value * 10 + (digitValueIn? 10 character).getD 0) 0

/-- Splits a sign off a numeral, and tells whether it is a minus sign. -/
def splitSign : Text → Bool × Text
  | '-' :: rest => (true, rest)
  | '+' :: rest => (false, rest)
  | text => (false, text)

/-- A number with a sign. -/
def signedNumber (negative : Bool) (magnitude : Nat) : Int :=
  if negative then -(magnitude : Int) else magnitude

/-- 64 bits hold the number. -/
def isWord64 (number : Nat) : Bool :=
  number < 0x10000000000000000

/-- 64 bits of which one is a sign hold the number. -/
def isSignedWord64 (number : Int) : Bool :=
  -0x8000000000000000 ≤ number && number < 0x8000000000000000

/-- The digits of a number in base ten. -/
def decimalDigits (number : Nat) : Text :=
  Nat.toDigits 10 number

/-- The digits of a number in base sixteen, in lower case. -/
def hexDigits (number : Nat) : Text :=
  Nat.toDigits 16 number

/-- Puts zeros in front of digits up to a given length. -/
def padZeros (width : Nat) (digits : Text) : Text :=
  List.replicate (width - digits.length) '0' ++ digits

/-- The character of a code point, unless it is a surrogate or too large. -/
def charOfCodePoint? (codePoint : Nat) : Option Char :=
  if valid : codePoint.isValidChar then some (Char.ofNatAux codePoint valid) else none

end Bilingual
