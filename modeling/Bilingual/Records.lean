import Bilingual.Text

/-!
# Fields of records

Structured texts spell a record as a list of names and values.  A field may not
be given twice, and names that are not asked for do not matter.
-/

namespace Bilingual

variable {Value : Type}

/-- The values that are given for a name. -/
def valuesOf (name : String) (members : List (Text × Value)) : List Value :=
  (members.filter (·.1 = name.toList)).map Prod.snd

/-- The value of a field that has to be given exactly once. -/
def requiredField? (name : String) (members : List (Text × Value)) : Option Value :=
  match valuesOf name members with
  | [value] => some value
  | _ => none

/-- The value of a field that may be left out: nothing if it is given more than
once. -/
def optionalField? (name : String) (members : List (Text × Value)) :
    Option (Option Value) :=
  match valuesOf name members with
  | [] => some none
  | [value] => some (some value)
  | _ => none

end Bilingual
