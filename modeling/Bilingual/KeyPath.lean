import Bilingual.SettingValue

/-!
# Paths to settings

A setting is named by a path: a name, followed by names of members and by
positions of elements, as in `formatting.indent_width` or `list[2]`.  A value can
be put at any path.  What stands in its way is replaced by a table or a list.
-/

namespace Bilingual

/-- A step from a value to one of its parts. -/
inductive KeyStep
  | member (name : Text)
  | element (position : Int)
  deriving DecidableEq, Repr

/-- A path from a table to a value. -/
structure KeyPath where
  first : Text
  steps : List KeyStep
  deriving DecidableEq, Repr

/-! ### Reading paths -/

/-- Characters of names in paths. -/
def isKeyCharacter (character : Char) : Bool :=
  character.isAlphanum || character = '_' || character = ' ' || character = '-'

/-- Reads a name, which is not empty. -/
def keyName? (source : Text) : Option (Text × Text) :=
  let name := source.takeWhile isKeyCharacter
  if name.isEmpty then none else some (name, source.dropWhile isKeyCharacter)

/-- A space or a tab. -/
def isKeyBlank (character : Char) : Bool :=
  character = ' ' || character = '\t'

/-- Reads a position behind its opening bracket.  It fits 64 bits with a sign. -/
def keyPosition? (source : Text) : Option (Int × Text) :=
  let source := source.dropWhile isKeyBlank
  let negative := source.head? = some '-'
  let unsigned := if negative then source.tail else source
  let digits := unsigned.takeWhile isDigit
  let position := signedNumber negative (decimalNumber digits)
  if digits.isEmpty || !isSignedWord64 position then none
  else
    match (unsigned.dropWhile isDigit).dropWhile isKeyBlank with
    | ']' :: rest => some (position, rest)
    | _ => none

/-- Reads one step. -/
def keyStep? (source : Text) : Option (KeyStep × Text) :=
  match source with
  | '.' :: rest => (keyName? rest).map fun found => (.member found.1, found.2)
  | '[' :: rest => (keyPosition? rest).map fun found => (.element found.1, found.2)
  | _ => none

/-- Reads steps up to the end of a text.  Every step takes a character. -/
def keySteps? (source : Text) : Option (List KeyStep) :=
  if source.isEmpty then some []
  else
    match keyStep? source with
    | none => none
    | some (step, rest) =>
        if rest.length < source.length then (keySteps? rest).map (step :: ·) else none
termination_by source.length

/-- Reads a path. -/
def KeyPath.read? (source : Text) : Option KeyPath := do
  let (first, rest) ← keyName? source
  let steps ← keySteps? rest
  return ⟨first, steps⟩

/-! ### Putting values at paths -/

namespace SettingValue

/-- The index of a position.  A negative position counts from the end. -/
def indexOf (position : Int) (length : Nat) : Nat :=
  if 0 ≤ position then position.toNat else length - position.natAbs

/-- Puts an element at an index.  Elements that are missing before it are null. -/
def putElement (index : Nat) (value : SettingValue) (elements : List SettingValue) :
    List SettingValue :=
  (elements ++ List.replicate (index + 1 - elements.length) SettingValue.null).set index value

/-- Puts a value at the end of some steps from a target.  Only a table that is put
at a member is merged into what is there. -/
def putAt (value : SettingValue) : List KeyStep → SettingValue → SettingValue
  | [], _ => value
  | [.member name], target => target.setMember name value
  | .member name :: steps, target =>
      let present := (target.member? (lowered name)).getD .null
      .table (putMember (lowered name) (putAt value steps present) target.members)
  | .element position :: steps, target =>
      let index := indexOf position target.elements.length
      let present := (target.elements[index]?).getD .null
      .list (putElement index (putAt value steps present) target.elements)

/-- Puts a value at a path from a table. -/
def putAtPath (target : SettingValue) (path : KeyPath) (value : SettingValue) :
    SettingValue :=
  putAt value (.member path.first :: path.steps) target

/-- Puts a value where a name leads, which is taken as a path if it has the form of
one. -/
def putNamed (target : SettingValue) (name : Text) (value : SettingValue) : SettingValue :=
  match KeyPath.read? name with
  | some path => target.putAtPath path value
  | none => target.setMember name value

end SettingValue

end Bilingual
