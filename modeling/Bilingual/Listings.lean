import Bilingual.JsonPrinter
import Bilingual.KeywordTable
import Bilingual.QuotedText
import Bilingual.Spans

/-!
# Listings

Spans and keyword tables are listed with one line for each member, or as a JSON
value over several lines.  Every listing ends with the end of a line.
-/

namespace Bilingual

/-- A span as a line: its range, its kind and its quoted text, in columns. -/
def spanLine (span : Span) : Text :=
  Text.pad .right 5 (decimalDigits span.start) ++ "..".toList ++
    Text.pad .left 5 (decimalDigits span.stop) ++ [' '] ++
    Text.pad .left 9 span.kind.name.toList ++ [' '] ++ quoted span.text ++ ['\n']

/-- A span as a JSON value. -/
def Span.toJson (span : Span) : Json :=
  .record [("kind", .ofText span.kind.name.toList), ("text", .ofText span.text),
    ("range", .record [("start", .ofNat span.start), ("end", .ofNat span.stop)])]

/-- An entry as a line: the standard keyword in a column, and the localized one. -/
def entryLine (entry : KeywordEntry) : Text :=
  Text.pad .left 12 entry.standard ++ [' '] ++ entry.localized ++ ['\n']

/-- An entry as a JSON value. -/
def KeywordEntry.toJson (entry : KeywordEntry) : Json :=
  .record [("localized", .ofText entry.localized), ("standard", .ofText entry.standard)]

/-- JSON values as a listing. -/
def jsonListing (elements : List Json) : Text :=
  Json.print (.array elements) ++ ['\n']

end Bilingual
