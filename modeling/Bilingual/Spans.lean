import Bilingual.Text

/-!
# Spans of a source text

A source text is a sequence of spans: code, strings, comments, docstrings and
newlines.  Only code may ever be rewritten, so everything else in the library
starts from this classification.
-/

namespace Bilingual

/-- The lexical category of a span. -/
inductive SpanKind
  | code
  | string
  | comment
  | docstring
  | newline
  deriving DecidableEq, Repr

namespace SpanKind

/-- Every kind, in the order of listings. -/
def all : List SpanKind :=
  [.code, .string, .comment, .docstring, .newline]

/-- The word for a kind in listings. -/
def name : SpanKind → String
  | .code => "code"
  | .string => "string"
  | .comment => "comment"
  | .docstring => "docstring"
  | .newline => "newline"

/-- Strings and docstrings are literals: their content is never changed. -/
def isLiteral : SpanKind → Bool
  | .string | .docstring => true
  | .code | .comment | .newline => false

end SpanKind

/-- A run of source text of one category, with the byte position at which it
starts. -/
structure Span where
  kind : SpanKind
  start : Nat
  text : Text
  deriving DecidableEq, Repr

/-- The byte position behind a span. -/
def Span.stop (span : Span) : Nat :=
  span.start + Text.byteLength span.text

end Bilingual
