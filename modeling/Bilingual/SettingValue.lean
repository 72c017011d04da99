import Bilingual.ShortestDecimal

/-!
# Values of settings

A setting has a value of any kind: settings come from texts, which do not know
what a setting wants.  The kinds are converted when a setting is read.

Tables are lists of names and values.  Names are compared in lower case.
-/

namespace Bilingual

/-- The value of a setting, or of a group of settings. -/
inductive SettingValue
  | null
  | boolean (value : Bool)
  | integer (value : Int)
  | float (value : BinaryFloat)
  | text (value : Text)
  | list (elements : List SettingValue)
  | table (members : List (Text × SettingValue))
  deriving Repr

/-- A character in lower case, as far as this can be one of the letters a to z. -/
def loweredCharacter (character : Char) : Char :=
  if character = '\u212a' then 'k' else character.toLower

/-- A name as it is compared. -/
def lowered (name : Text) : Text :=
  name.map loweredCharacter

namespace SettingValue

/-- The members of a table; anything else has none. -/
def members : SettingValue → List (Text × SettingValue)
  | .table members => members
  | _ => []

/-- The elements of a list; anything else has none. -/
def elements : SettingValue → List SettingValue
  | .list elements => elements
  | _ => []

/-- The member of a given name. -/
def member? (name : Text) (value : SettingValue) : Option SettingValue :=
  value.members.lookup name

/-- Puts a member in place of the one of the same name, or behind the others. -/
def putMember (name : Text) (value : SettingValue) :
    List (Text × SettingValue) → List (Text × SettingValue)
  | [] => [(name, value)]
  | member :: members =>
      if member.1 = name then (name, value) :: members
      else member :: putMember name value members

mutual

/-- Sets a member of a table.  A table is merged member by member into the one
that is there; any other value replaces what is there.  What is not a table
becomes one. -/
def setMember (target : SettingValue) (name : Text) : SettingValue → SettingValue
  | .table members =>
      let present := (target.member? (lowered name)).getD (.table [])
      .table (putMember (lowered name) (setMembers present members) target.members)
  | value => .table (putMember (lowered name) value target.members)

/-- Sets several members of a table. -/
def setMembers (target : SettingValue) : List (Text × SettingValue) → SettingValue
  | [] => target
  | (name, value) :: members => setMembers (setMember target name value) members

end

/-! ### Conversions -/

/-- Words for truth values, in lower case. -/
def truthOfWord? (word : Text) : Option Bool :=
  if ["true".toList, "on".toList, "yes".toList].contains word then some true
  else if ["false".toList, "off".toList, "no".toList].contains word then some false
  else none

/-- The natural number of 64 bits that a text denotes: a word for a truth value,
or decimal digits behind an optional plus sign. -/
def word64OfText? (text : Text) : Option Nat :=
  match truthOfWord? (lowered text) with
  | some truth => some truth.toNat
  | none =>
      (number? 10 (if text.head? = some '+' then text.tail else text)).filter isWord64

/-- The value as a natural number of 64 bits. -/
def word64? : SettingValue → Option Nat
  | .boolean value => some value.toNat
  | .integer value => if value < 0 then none else some value.toNat |>.filter isWord64
  | .float value => some value.toWord64
  | .text value => word64OfText? value
  | .null | .list _ | .table _ => none

/-- The value as a truth value. -/
def truth? : SettingValue → Option Bool
  | .boolean value => some value
  | .integer value => some (value ≠ 0)
  | .float value => some (!value.isZero)
  | .text value =>
      let word := lowered value
      if word = ['1'] then some true
      else if word = ['0'] then some false
      else truthOfWord? word
  | .null | .list _ | .table _ => none

/-- An integer as it is written. -/
def writtenInteger (value : Int) : Text :=
  (if value < 0 then ['-'] else []) ++ decimalDigits value.natAbs

/-- The value as a text. -/
def text? : SettingValue → Option Text
  | .boolean true => some "true".toList
  | .boolean false => some "false".toList
  | .integer value => some (writtenInteger value)
  | .float value => some value.written
  | .text value => some value
  | .null | .list _ | .table _ => none

end SettingValue

end Bilingual
