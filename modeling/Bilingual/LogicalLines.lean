import Bilingual.SpanScanner

/-!
# Logical lines

A source is formatted line by line, but a newline inside a string or docstring
does not end a line.  A logical line therefore consists of one or more physical
lines: the source is cut exactly at the newlines behind which the scanner is not
inside a literal.
-/

namespace Bilingual

/-- The spans between two cuts, and the byte position of the first. -/
structure LogicalLine where
  offset : Nat
  spans : List Span
  deriving DecidableEq, Repr

/-- What a line that is not blank consists of, as far as indentation is
concerned. -/
inductive LineClass
  | blank
  | comment
  | docstring
  | code
  deriving DecidableEq, Repr

/-- The span ends a logical line if it is a newline behind which the scanner is
not inside a literal. -/
def endsLogicalLine (step : Span × Scanner) : Bool :=
  step.1.kind = .newline && !step.2.inLiteral

/-- Cuts the steps of a scan into logical lines, the first of which starts at
`offset`. -/
def logicalLinesFrom (offset : Nat) : List (Span × Scanner) → List LogicalLine
  | [] => [⟨offset, []⟩]
  | step :: steps =>
      if endsLogicalLine step then
        ⟨offset, []⟩ :: logicalLinesFrom step.1.stop steps
      else
        match logicalLinesFrom offset steps with
        | [] => [⟨offset, [step.1]⟩]
        | line :: lines => { line with spans := step.1 :: line.spans } :: lines

/-- The logical lines of a source.  There is always at least one. -/
def logicalLines (source : Text) : List LogicalLine :=
  logicalLinesFrom 0 (Scanner.ofText source).steps

namespace LogicalLine

/-- The text of a line, without the newline that ends it. -/
def text (line : LogicalLine) : Text :=
  line.spans.flatMap Span.text

/-- The span is not just white space between other spans. -/
def isVisible (span : Span) : Bool :=
  span.kind != .code || !Text.isBlank span.text

/-- The class of a line follows from its first visible span. -/
def lineClass (line : LogicalLine) : LineClass :=
  if Text.isBlank line.text then .blank
  else
    match (line.spans.find? isVisible).map Span.kind with
    | some .comment => .comment
    | some .docstring => .docstring
    | _ => .code

/-- The comment at the end of a line. -/
def comment? (line : LogicalLine) : Option Text :=
  (line.spans.find? fun span => span.kind = .comment).map Span.text

/-- The last span of the line belongs to a literal. -/
def endsInLiteral (line : LogicalLine) : Bool :=
  match line.spans.getLast? with
  | some span => span.kind.isLiteral
  | none => false

/-- The line without its indentation.  White space at the end is dropped unless
it belongs to a literal. -/
def content (line : LogicalLine) : Text :=
  if line.endsInLiteral then Text.trimStart line.text else Text.trim line.text

end LogicalLine

end Bilingual
