import Bilingual.SettingValue

/-!
# The parts of a TOML text

A TOML text is a sequence of statements: headers of tables, headers of elements
of lists of tables, and assignments.  What they mean together is another matter.
-/

namespace Bilingual

/-- A value as it is written.  The members of a table in braces are assignments to
paths. -/
inductive TomlValue
  | scalar (value : SettingValue)
  | list (elements : List TomlValue)
  | inlineTable (assignments : List (List Text × TomlValue))
  deriving Repr

/-- A statement. -/
inductive TomlStatement
  | table (path : List Text)
  | tableElement (path : List Text)
  | assignment (path : List Text) (value : TomlValue)
  deriving Repr

/-- A space or a tab. -/
def isTomlBlank (character : Char) : Bool :=
  character = ' ' || character = '\t'

/-- Characters that may stand in comments, and in strings where they do not mean
something else. -/
def isTomlCharacter (character : Char) : Bool :=
  character = '\t' || (0x20 ≤ character.toNat && character.toNat ≠ 0x7F)

/-- The text behind a line break at its start. -/
def behindTomlBreak? : Text → Option Text
  | '\n' :: rest => some rest
  | '\r' :: '\n' :: rest => some rest
  | _ => none

/-- Passes over blanks and line breaks. -/
def passTomlBreaks : Text → Text
  | [] => []
  | '\r' :: '\n' :: rest => passTomlBreaks rest
  | character :: rest =>
      if isTomlBlank character || character = '\n' then passTomlBreaks rest
      else character :: rest

theorem length_passTomlBreaks_le (source : Text) :
    (passTomlBreaks source).length ≤ source.length := by
  fun_induction passTomlBreaks source <;> simp_all <;> omega

theorem length_passTomlBreaks_dropWhile_le (source : Text) :
    (passTomlBreaks (source.dropWhile isTomlBlank)).length ≤ source.length :=
  Nat.le_trans (length_passTomlBreaks_le _) (List.dropWhile_suffix _).length_le

/-- Passes over blanks, line breaks and comments.  Where a comment holds a
character that it may not hold, the remaining text starts with it. -/
def passTomlSpace (inComment : Bool) : Text → Text
  | [] => []
  | '\r' :: '\n' :: rest => passTomlSpace false rest
  | character :: rest =>
      if character = '\n' then passTomlSpace false rest
      else if inComment && isTomlCharacter character then passTomlSpace true rest
      else if inComment then character :: rest
      else if isTomlBlank character then passTomlSpace false rest
      else if character = '#' then passTomlSpace true rest
      else character :: rest

/-- Passes over a comment to the end of a line, behind which nothing else may
stand. -/
def restOfTomlLine? (source : Text) : Option Text :=
  let behindBlanks := source.dropWhile isTomlBlank
  let rest :=
    if behindBlanks.head? = some '#' then behindBlanks.dropWhile isTomlCharacter
    else behindBlanks
  if rest.isEmpty then some [] else behindTomlBreak? rest

end Bilingual
