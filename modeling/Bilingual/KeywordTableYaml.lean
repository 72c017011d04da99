import Bilingual.KeywordTable
import Bilingual.Records
import Bilingual.YamlReader

/-!
# Keyword tables from YAML

A table is a mapping with the field `keywords`, a sequence of mappings with the
fields `localized` and `standard`.  Words are taken as they are written, whatever
else a plain scalar like `true` or `1.5` might mean.  A sequence that is left out
is empty.
-/

namespace Bilingual

namespace YamlNode

/-- The text of a scalar. -/
def text? (root node : YamlNode) : Option Text :=
  match root.resolve node with
  | .scalar _ text => some text
  | _ => none

/-- The items of a sequence. -/
def items? (root node : YamlNode) : Option (List YamlNode) :=
  match root.resolve node with
  | .sequence items => some items
  | .scalar true [] => some []
  | _ => none

/-- The fields of a mapping, whose keys have to be scalars. -/
def fields? (root node : YamlNode) : Option (List (Text × YamlNode)) :=
  match root.resolve node with
  | .mapping entries =>
      entries.mapM fun entry => (root.text? entry.1).map (·, entry.2)
  | _ => none

end YamlNode

/-- Reads a row of the document with the given root. -/
def KeywordEntry.ofYaml? (root node : YamlNode) : Option KeywordEntry := do
  let fields ← root.fields? node
  let localized ← requiredField? "localized" fields
  let standard ← requiredField? "standard" fields
  return ⟨← root.text? localized, ← root.text? standard⟩

/-- Reads the rows of a table from a YAML text. -/
def keywordEntriesOfYaml? (text : Text) : Option (List KeywordEntry) := do
  let root ← YamlNode.read? text
  let fields ← root.fields? root
  let rows ← root.items? (← requiredField? "keywords" fields)
  rows.mapM (KeywordEntry.ofYaml? root)

end Bilingual
