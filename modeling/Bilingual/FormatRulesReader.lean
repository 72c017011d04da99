import Bilingual.FormatRules
import Bilingual.JsonReader
import Bilingual.Records

/-!
# Format rules from JSON

Rules are an object whose fields may be left out, or an array of the values of
the first few fields.  Unknown fields do not matter, but the values of the known
ones have to be of the right type: a natural number that fits 64 bits, or a
truth value.
-/

namespace Bilingual

namespace FormatRules

/-- The value of a field, or the default of the field if there is none. -/
def fieldOr? {Value : Type} (standard : Value) (read : Json → Option Value) :
    Option Json → Option Value
  | none => some standard
  | some value => read value

/-- Reads the four fields, each of which may be absent. -/
def ofFields? (indentWidth spaceAfterComma spaceAfterColon reindentComments : Option Json) :
    Option FormatRules := do
  let standard := FormatRules.standard
  let indentWidth ← fieldOr? standard.indentWidth Json.word64? indentWidth
  let spaceAfterComma ← fieldOr? standard.spaceAfterComma Json.boolean? spaceAfterComma
  let spaceAfterColon ← fieldOr? standard.spaceAfterColon Json.boolean? spaceAfterColon
  let reindentComments ← fieldOr? standard.reindentComments Json.boolean? reindentComments
  return ⟨indentWidth, spaceAfterComma, spaceAfterColon, reindentComments⟩

/-- Reads rules from a JSON value. -/
def ofJson? : Json → Option FormatRules
  | .array values =>
      if values.length ≤ 4 then ofFields? values[0]? values[1]? values[2]? values[3]?
      else none
  | .object members => do
      let members ← (Json.object members).members?
      ofFields? (← optionalField? "indent_width" members)
        (← optionalField? "space_after_comma" members)
        (← optionalField? "space_after_colon" members)
        (← optionalField? "reindent_comments" members)
  | _ => none

/-- Reads rules from a JSON text. -/
def read? (text : Text) : Option FormatRules :=
  (Json.read? text).bind ofJson?

end FormatRules

end Bilingual
