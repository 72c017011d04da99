/-!
# Sets of code points given by ranges

Character properties are long lists of code points that mostly come in runs.
This file represents such a property by its runs and decides membership.
-/

namespace Bilingual

/-- All code points from `first` to `last`, both included. -/
structure CodePointRange where
  first : Nat
  last : Nat
  deriving DecidableEq, Repr

/-- The character lies between the ends of the range. -/
def CodePointRange.contains (range : CodePointRange) (character : Char) : Bool :=
  range.first ≤ character.toNat && character.toNat ≤ range.last

/-- The character lies in one of the ranges. -/
def inSomeRange (ranges : List CodePointRange) (character : Char) : Bool :=
  ranges.any (·.contains character)

/-- Reads a table of alternating first and last code points. -/
def rangesOfEnds : List Nat → List CodePointRange
  | first :: last :: ends => ⟨first, last⟩ :: rangesOfEnds ends
  | _ => []

end Bilingual
