import Bilingual.KeywordTable
import Bilingual.SpanScanner

/-!
# Keyword substitution

Substitution replaces keywords in one direction of a table.  It touches words
in code spans only, and only words that are keywords as a whole, so that an
identifier which merely contains a keyword stays as it is.  White space and
punctuation are kept, which is what makes the way back possible.
-/

namespace Bilingual

/-- The word that stands for a given word after the replacement. -/
def KeywordTable.replaceWord (table : KeywordTable) (direction : Direction)
    (word : Text) : Text :=
  (table.lookup? word direction).getD word

/-- A piece of code after the replacement. -/
def KeywordTable.replaceToken (table : KeywordTable) (direction : Direction)
    (token : Token WordTokenKind) : Text :=
  if token.kind = .word then table.replaceWord direction token.text else token.text

/-- Replaces the keywords of a code span. -/
def substituteCode (table : KeywordTable) (direction : Direction) (code : Text) : Text :=
  (wordTokens code).flatMap (table.replaceToken direction)

/-- A span after the replacement. -/
def substituteSpan (table : KeywordTable) (direction : Direction) (span : Span) : Text :=
  if span.kind = .code then substituteCode table direction span.text else span.text

/-- Replaces the keywords of a source text in one direction. -/
def substitute (table : KeywordTable) (direction : Direction) (source : Text) : Text :=
  (scan source).flatMap (substituteSpan table direction)

/-- Replaces localized keywords by standard ones. -/
def toStandard (table : KeywordTable) (source : Text) : Text :=
  substitute table .toStandard source

/-- Replaces standard keywords by localized ones. -/
def toLocalized (table : KeywordTable) (source : Text) : Text :=
  substitute table .toLocalized source

end Bilingual
