import Bilingual.FileTree
import Bilingual.KeywordTableJson
import Bilingual.KeywordTableYaml

/-!
# Keyword tables in files

The extension of a file tells whether its table is written in JSON or in YAML.
-/

namespace Bilingual

/-- Why there is no table. -/
inductive KeywordTableError
  | row (reason : KeywordRowError)
  | malformed
  | unreadable (path : Text) (reason : FileError)
  | unsupportedFormat (extension : Text)
  deriving DecidableEq, Repr

/-- The wording of the reason. -/
def KeywordTableError.message : KeywordTableError → String
  | .row reason => reason.message
  | .malformed => "invalid keyword table: the text does not have the form of a table"
  | .unreadable path reason =>
      "failed to read keyword table " ++ String.ofList path ++ ": " ++ reason.message
  | .unsupportedFormat extension =>
      "unsupported keyword table format `" ++ String.ofList extension ++
        "` (expected .json, .yaml or .yml)"

namespace KeywordTable

/-- The table of the rows that were read, if they could be read. -/
def ofRead (entries : Option (List KeywordEntry)) :
    Except KeywordTableError KeywordTable :=
  match entries with
  | none => .error .malformed
  | some entries => (ofEntries entries).mapError .row

/-- Reads a table from a JSON text. -/
def ofJson (text : Text) : Except KeywordTableError KeywordTable :=
  ofRead (keywordEntriesOfJson? text)

/-- Reads a table from a YAML text. -/
def ofYaml (text : Text) : Except KeywordTableError KeywordTable :=
  ofRead (keywordEntriesOfYaml? text)

/-- Reads a table from a file.  A file that cannot be read is an error before its
extension is judged. -/
def ofFile (tree : FileTree) (path : Text) : Except KeywordTableError KeywordTable :=
  match tree.read path with
  | .error reason => .error (.unreadable path reason)
  | .ok text =>
      let extension := Text.toLowerAscii (extensionOf path)
      if extension = "json".toList then ofJson text
      else if extension = "yaml".toList || extension = "yml".toList then ofYaml text
      else .error (.unsupportedFormat extension)

end KeywordTable

end Bilingual
