import Bilingual.JsonReader
import Bilingual.KeywordTable
import Bilingual.Records

/-!
# Keyword tables from JSON

A table is an object with the field `keywords`, a list of objects with the
fields `localized` and `standard`.  Each of these objects may also be an array
of exactly its fields.  Fields of other names do not matter.
-/

namespace Bilingual

/-- Reads a row. -/
def KeywordEntry.ofJson? : Json → Option KeywordEntry
  | .array [localized, standard] => do
      return ⟨← localized.text?, ← standard.text?⟩
  | .object members => do
      let members ← (Json.object members).members?
      let localized ← requiredField? "localized" members
      let standard ← requiredField? "standard" members
      return ⟨← localized.text?, ← standard.text?⟩
  | _ => none

/-- The list of rows in a table. -/
def keywordRowsOfJson? : Json → Option (List Json)
  | .array [rows] => rows.elements?
  | .object members => do
      let members ← (Json.object members).members?
      (← requiredField? "keywords" members).elements?
  | _ => none

/-- Reads the rows of a table from a JSON text. -/
def keywordEntriesOfJson? (text : Text) : Option (List KeywordEntry) := do
  let value ← Json.read? text
  let rows ← keywordRowsOfJson? value
  rows.mapM KeywordEntry.ofJson?

end Bilingual
