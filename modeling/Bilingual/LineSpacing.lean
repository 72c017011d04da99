import Bilingual.FormatRules
import Bilingual.LineTokens
import Bilingual.LogicalLines

/-!
# Spaces within a line

A line of code is taken apart into pieces: tokens, and literals that are opaque
even when they reach over several physical lines.  It is put together again with
one space or none in each gap.  Whether there is a space depends on the pieces
on both sides, on the rules, and in the remaining cases on whether there was
white space before.
-/

namespace Bilingual

/-- What a line of code is put together from. -/
inductive Piece
  | token (kind : LineTokenKind) (text : Text)
  | literal (text : Text)
  deriving DecidableEq, Repr

namespace Piece

/-- The characters of a piece. -/
def text : Piece → Text
  | .token _ text => text
  | .literal text => text

/-- The kind of a piece that is a token. -/
def kind? : Piece → Option LineTokenKind
  | .token kind _ => some kind
  | .literal _ => none

/-- The piece of a token of code. -/
def ofToken (token : Token LineTokenKind) : Piece :=
  .token token.kind token.text

/-- Puts a part of a literal in front of pieces.  Parts that follow each other
make up one piece. -/
def consLiteral (part : Text) : List Piece → List Piece
  | .literal text :: pieces => .literal (part ++ text) :: pieces
  | pieces => .literal part :: pieces

/-- The pieces of a sequence of spans.  A newline among them lies inside a
literal; comments are left out. -/
def ofSpans : List Span → List Piece
  | [] => []
  | span :: spans =>
      match span.kind with
      | .code => (lineTokens span.text).map ofToken ++ ofSpans spans
      | .comment => ofSpans spans
      | .string | .docstring | .newline => consLiteral span.text (ofSpans spans)

/-- The piece starts with a closing bracket. -/
def closesGroup (piece : Piece) : Bool :=
  match piece.text.head? with
  | some character => [')', ']', '}'].contains character
  | none => false

end Piece

/-- Words after which an opening parenthesis keeps the space in front of it, as
in `if (x)` or `return (a, b)`. -/
def spacedKeywords : List Text :=
  ["False", "None", "True", "and", "as", "assert", "async", "await", "break", "case",
    "class", "continue", "def", "del", "elif", "else", "except", "finally", "for",
    "from", "global", "if", "import", "in", "is", "lambda", "match", "nonlocal",
    "not", "or", "pass", "raise", "return", "try", "while", "with", "yield"].map
    String.toList

/-- Whether a space is written between two pieces.  `hadSpace` tells whether
there was white space between them. -/
def needsSpace (rules : FormatRules) (previous next : Piece) (hadSpace : Bool) : Bool :=
  match previous.kind?, next.kind? with
  | some .assign, _ => true
  | _, some .assign => true
  | some .openParen, _ => false
  | _, some .closeParen => false
  | _, some .comma => false
  | _, some .colon => false
  | some .comma, _ => rules.spaceAfterComma && !next.closesGroup
  | some .colon, _ => rules.spaceAfterColon && !next.closesGroup
  | some .word, some .openParen => hadSpace && spacedKeywords.contains previous.text
  | some .closeParen, some .openParen => false
  | _, _ => hadSpace

/-- What is written between two pieces. -/
def gap (rules : FormatRules) (previous next : Piece) (hadSpace : Bool) : Text :=
  if needsSpace rules previous next hadSpace then [' '] else []

/-- Puts pieces together behind the piece `previous`. -/
def joinBehind (rules : FormatRules) (previous : Piece) (hadSpace : Bool) :
    List Piece → Text
  | [] => []
  | piece :: pieces =>
      if piece.kind? = some .whiteSpace then joinBehind rules previous true pieces
      else
        gap rules previous piece hadSpace ++ piece.text ++
          joinBehind rules piece false pieces

/-- Puts the pieces of a line together. -/
def joinPieces (rules : FormatRules) : List Piece → Text
  | [] => []
  | piece :: pieces =>
      if piece.kind? = some .whiteSpace then joinPieces rules pieces
      else piece.text ++ joinBehind rules piece false pieces

/-- The code of a line with its spaces put right. -/
def LogicalLine.spacedCode (line : LogicalLine) (rules : FormatRules) : Text :=
  joinPieces rules (Piece.ofSpans line.spans)

end Bilingual
