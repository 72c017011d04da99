import Bilingual.KeywordSubstitution
import Bilingual.LineFormatter

/-!
# Formatting localized source

Formatters know standard keywords only.  A pipeline formats localized source by
replacing its keywords with standard ones, formatting the result, and putting
the localized keywords back.  The formatter is exchangeable, and it is the only
step that can fail.
-/

namespace Bilingual

/-- A formatter that gave up, and why. -/
structure FormatterError where
  formatter : Text
  reason : Text
  deriving DecidableEq, Repr

/-- The wording of the failure. -/
def FormatterError.message (error : FormatterError) : String :=
  "formatter `" ++ String.ofList error.formatter ++ "` failed: " ++
    String.ofList error.reason

/-- A formatter of source with standard keywords. -/
structure StandardFormatter where
  name : Text
  run : Text → Except FormatterError Text

namespace StandardFormatter

/-- The line formatter with given rules. -/
def line (rules : FormatRules) : StandardFormatter where
  name := "line".toList
  run source := .ok (formatWith rules source)

/-- A formatter that replaces one text by another and does nothing else. -/
def replacing (name pattern replacement : Text) : StandardFormatter where
  name := name
  run source := .ok (Text.replace pattern replacement source)

/-- A formatter that gives up on every source. -/
def failing (name reason : Text) : StandardFormatter where
  name := name
  run _ := .error ⟨name, reason⟩

end StandardFormatter

/-- A keyword table and a formatter. -/
structure Pipeline where
  table : KeywordTable
  formatter : StandardFormatter := .line .standard

namespace Pipeline

/-- Localized source with standard keywords. -/
def toStandard (pipeline : Pipeline) (localized : Text) : Text :=
  Bilingual.toStandard pipeline.table localized

/-- Standard source with localized keywords. -/
def toLocalized (pipeline : Pipeline) (standard : Text) : Text :=
  Bilingual.toLocalized pipeline.table standard

/-- Formats localized source. -/
def formatLocalized (pipeline : Pipeline) (localized : Text) :
    Except FormatterError Text :=
  match pipeline.formatter.run (pipeline.toStandard localized) with
  | .ok formatted => .ok (pipeline.toLocalized formatted)
  | .error error => .error error

end Pipeline

end Bilingual
