import Bilingual.Digits

/-!
# JSON values

The tree of a JSON text.  It keeps what a reader may still have to judge: the
parts of a number as they were written, members of an object in order and with
repeated names, and whether the escapes of a string denote a text at all.
-/

namespace Bilingual

/-- A number as it was written: an optional sign, the digits in front of the
point, the digits behind it, and the exponent. -/
structure JsonNumber where
  negative : Bool
  whole : Text
  fraction : Option Text
  exponent : Option Int
  deriving DecidableEq, Repr

/-- A natural number without a sign, a point or an exponent. -/
def JsonNumber.natural? (number : JsonNumber) : Option Nat :=
  if !number.negative && number.fraction.isNone && number.exponent.isNone then
    some (decimalNumber number.whole)
  else none

/-- The plain way to write a natural number. -/
def JsonNumber.ofNat (value : Nat) : JsonNumber :=
  ⟨false, decimalDigits value, none, none⟩

/-- A JSON value.  A string or the name of a member is absent when its escapes
denote an unpaired surrogate. -/
inductive Json
  | null
  | boolean (value : Bool)
  | number (value : JsonNumber)
  | string (text : Option Text)
  | array (elements : List Json)
  | object (members : List (Option Text × Json))
  deriving Repr

namespace Json

/-- The string of a given text. -/
def ofText (text : Text) : Json :=
  .string (some text)

/-- The number of a given value. -/
def ofNat (value : Nat) : Json :=
  .number (.ofNat value)

/-- The object with given names and values. -/
def record (members : List (String × Json)) : Json :=
  .object (members.map fun member => (some member.1.toList, member.2))

/-- The text of a string. -/
def text? : Json → Option Text
  | .string text => text
  | _ => none

/-- The truth value of a boolean. -/
def boolean? : Json → Option Bool
  | .boolean value => some value
  | _ => none

/-- The elements of an array. -/
def elements? : Json → Option (List Json)
  | .array elements => some elements
  | _ => none

/-- The value of a natural number that fits 64 bits. -/
def word64? : Json → Option Nat
  | .number numeral => numeral.natural?.filter isWord64
  | _ => none

/-- The members of an object all of whose names are texts. -/
def members? : Json → Option (List (Text × Json))
  | .object members => members.mapM fun member => member.1.map (·, member.2)
  | _ => none

end Json

end Bilingual
