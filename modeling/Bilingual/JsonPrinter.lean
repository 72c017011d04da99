import Bilingual.JsonValue

/-!
# Writing JSON

Values are written over several lines, each level indented by two spaces.  Only
quotes, backslashes and control characters below the space are escaped.
-/

namespace Bilingual

namespace Json

/-- A character as it is written in a string. -/
def writtenCharacter (character : Char) : Text :=
  match character with
  | '\x22' => ['\\', '\x22']
  | '\\' => ['\\', '\\']
  | '\x08' => ['\\', 'b']
  | '\x0c' => ['\\', 'f']
  | '\n' => ['\\', 'n']
  | '\r' => ['\\', 'r']
  | '\t' => ['\\', 't']
  | _ =>
      if character.toNat < 32 then
        '\\' :: 'u' :: padZeros 4 (hexDigits character.toNat)
      else [character]

/-- A text as it is written as a string. -/
def writtenText (text : Text) : Text :=
  '\x22' :: text.flatMap writtenCharacter ++ ['\x22']

/-- A number as it is written. -/
def writtenNumber (number : JsonNumber) : Text :=
  (if number.negative then ['-'] else []) ++ number.whole ++
    (match number.fraction with
      | none => []
      | some digits => '.' :: digits) ++
    (match number.exponent with
      | none => []
      | some exponent =>
          'e' :: (if exponent < 0 then ['-'] else []) ++ decimalDigits exponent.natAbs)

/-- The start of a line at a given depth. -/
def newLine (depth : Nat) : Text :=
  '\n' :: Text.spaces (2 * depth)

mutual

/-- A value as it is written at a given depth. -/
def written (depth : Nat) : Json → Text
  | .null => "null".toList
  | .boolean true => "true".toList
  | .boolean false => "false".toList
  | .number numeral => writtenNumber numeral
  | .string text => writtenText (text.getD [])
  | .array [] => "[]".toList
  | .array (element :: elements) =>
      '[' :: newLine (depth + 1) ++ written (depth + 1) element ++
        writtenElements (depth + 1) elements ++ newLine depth ++ [']']
  | .object [] => "\x7b\x7d".toList
  | .object ((name, value) :: members) =>
      '{' :: newLine (depth + 1) ++ writtenText (name.getD []) ++ ": ".toList ++
        written (depth + 1) value ++ writtenMembers (depth + 1) members ++
        newLine depth ++ ['}']

/-- Elements as they are written behind another one. -/
def writtenElements (depth : Nat) : List Json → Text
  | [] => []
  | element :: elements =>
      ',' :: newLine depth ++ written depth element ++ writtenElements depth elements

/-- Members as they are written behind another one. -/
def writtenMembers (depth : Nat) : List (Option Text × Json) → Text
  | [] => []
  | (name, value) :: members =>
      ',' :: newLine depth ++ writtenText (name.getD []) ++ ": ".toList ++
        written depth value ++ writtenMembers depth members

end

/-- A value as it is written on its own. -/
def print (value : Json) : Text :=
  written 0 value

end Json

end Bilingual
