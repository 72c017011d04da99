import Bilingual.TomlScalars

/-!
# Reading the statements of a TOML text

Values nest; the functions that read them call each other at most twice for each
character, and the argument `steps` bounds their number.  Lists and tables in
braces may be nested up to a limit, and paths have the same limit.
-/

namespace Bilingual

/-- Neither the nesting of values nor the length of a path reaches this number. -/
def tomlNestingLimit : Nat := 80

/-- Characters of a name without quotes. -/
def isTomlNameCharacter (character : Char) : Bool :=
  character.isAlphanum || character = '_' || character = '-'

/-- Reads one name of a path. -/
def tomlName? (source : Text) : Option (Text × Text) :=
  match source with
  | [] => none
  | character :: rest =>
      if character = '\x22' || character = '\x27' then tomlString? character [] rest
      else
        let name := source.takeWhile isTomlNameCharacter
        if name.isEmpty then none else some (name, source.dropWhile isTomlNameCharacter)

/-- Reads names with points between them, and the blanks around all of these. -/
def tomlNames? : Nat → Text → Option (List Text × Text)
  | 0, _ => none
  | steps + 1, source => do
      let (name, rest) ← tomlName? (source.dropWhile isTomlBlank)
      let rest := rest.dropWhile isTomlBlank
      match rest with
      | '.' :: rest =>
          let (names, rest) ← tomlNames? steps rest
          return (name :: names, rest)
      | rest => return ([name], rest)

/-- Reads a path of fewer names than the limit. -/
def tomlPath? (source : Text) : Option (List Text × Text) :=
  tomlNames? (tomlNestingLimit - 1) source

mutual

/-- Reads a value within `levels` more levels of nesting. -/
def tomlValue? (levels : Nat) : Nat → Text → Option (TomlValue × Text)
  | 0, _ => none
  | _ + 1, [] => none
  | steps + 1, character :: rest =>
      if character = '\x22' || character = '\x27' then
        (tomlQuoted? (character :: rest)).map fun found =>
          (.scalar (.text found.1), found.2)
      else if character = '[' then
        if levels = 0 then none
        else
          (tomlElements? (levels - 1) steps rest).map fun found =>
            (.list found.1, found.2)
      else if character = '{' then
        if levels = 0 then none
        else
          let inside := rest.dropWhile isTomlBlank
          if inside.head? = some '}' then some (.inlineTable [], inside.drop 1)
          else
            (tomlAssignments? (levels - 1) steps inside).map fun found =>
              (.inlineTable found.1, found.2)
      else
        let (word, rest) := splitTomlWord (character :: rest)
        (tomlWord? word).map fun value => (.scalar value, rest)

/-- Reads the elements of a list up to its end.  A comma may stand behind the last
one. -/
def tomlElements? (levels : Nat) : Nat → Text → Option (List TomlValue × Text)
  | 0, _ => none
  | steps + 1, source =>
      let inside := passTomlSpace false source
      if inside.head? = some ']' then some ([], inside.drop 1)
      else do
        let (element, rest) ← tomlValue? levels steps inside
        let rest := passTomlSpace false rest
        if rest.head? = some ',' then
          let (elements, rest) ← tomlElements? levels steps (rest.drop 1)
          return (element :: elements, rest)
        else if rest.head? = some ']' then return ([element], rest.drop 1)
        else none

/-- Reads the assignments of a table in braces up to its end, all on one line. -/
def tomlAssignments? (levels : Nat) :
    Nat → Text → Option (List (List Text × TomlValue) × Text)
  | 0, _ => none
  | steps + 1, source => do
      let (path, rest) ← tomlPath? source
      let rest ← passCharacter? '=' rest
      let (value, rest) ← tomlValue? levels steps (rest.dropWhile isTomlBlank)
      let rest := rest.dropWhile isTomlBlank
      if rest.head? = some ',' then
        let (assignments, rest) ← tomlAssignments? levels steps (rest.drop 1)
        return ((path, value) :: assignments, rest)
      else if rest.head? = some '}' then return ([(path, value)], rest.drop 1)
      else none

end

/-- Reads an assignment. -/
def tomlAssignment? (source : Text) : Option (TomlStatement × Text) := do
  let (path, rest) ← tomlPath? source
  let rest ← passCharacter? '=' rest
  let (value, rest) ←
    tomlValue? (tomlNestingLimit - 1) (2 * rest.length + 2) (rest.dropWhile isTomlBlank)
  return (.assignment path value, rest)

/-- Reads a statement that starts with the first character. -/
def tomlStatement? (source : Text) : Option (TomlStatement × Text) :=
  match source with
  | '[' :: '[' :: rest => do
      let (path, rest) ← tomlPath? rest
      let rest ← passCharacter? ']' rest
      let rest ← passCharacter? ']' rest
      return (.tableElement path, rest)
  | '[' :: rest => do
      let (path, rest) ← tomlPath? rest
      let rest ← passCharacter? ']' rest
      return (.table path, rest)
  | _ => tomlAssignment? source

/-- Reads statements, each of which ends with its line. -/
def tomlStatementsFrom? (source : Text) : Option (List TomlStatement) :=
  match passTomlSpace false source with
  | [] => some []
  | character :: rest =>
      match tomlStatement? (character :: rest) with
      | none => none
      | some (statement, rest) =>
          match restOfTomlLine? rest with
          | none => none
          | some behind =>
              if behind.length < source.length then
                (tomlStatementsFrom? behind).map (statement :: ·)
              else none
termination_by source.length

/-- The statements of a text, in front of which a byte order mark may stand. -/
def tomlStatements? (source : Text) : Option (List TomlStatement) :=
  tomlStatementsFrom? (if source.head? = some '\ufeff' then source.tail else source)

end Bilingual
