import Bilingual.Text

/-!
# Characters of YAML

Which characters may occur in a YAML stream, where its lines break, and which
characters end or start tokens.  Tests of what follows a position are tests of
the remaining text; its end counts as a blank.
-/

namespace Bilingual

/-- The character may occur in a stream. -/
def isYamlCharacter (character : Char) : Bool :=
  let codePoint := character.toNat
  [0x09, 0x0A, 0x0D, 0x85].contains codePoint ||
    (0x20 ≤ codePoint && codePoint ≤ 0x7E) ||
    (0xA0 ≤ codePoint && codePoint ≤ 0xFFFD) ||
    0x10000 ≤ codePoint

/-- Writes a carriage return, alone or with a line feed behind it, and the
control character for the next line as a line feed. -/
def unifyYamlBreaks : Text → Text
  | [] => []
  | '\r' :: '\n' :: rest => '\n' :: unifyYamlBreaks rest
  | character :: rest =>
      (if character = '\r' || character = '\x85' then '\n' else character) ::
        unifyYamlBreaks rest

/-- The character breaks a line, when breaks have been unified. -/
def isYamlBreak (character : Char) : Bool :=
  character = '\n' || character = '\u2028' || character = '\u2029'

/-- A space or a tab. -/
def isYamlBlank (character : Char) : Bool :=
  character = ' ' || character = '\t'

/-- A space, a tab or a break. -/
def isYamlSpace (character : Char) : Bool :=
  isYamlBlank character || isYamlBreak character

/-- Characters of anchors, of handles and of the names of directives. -/
def isYamlNameCharacter (character : Char) : Bool :=
  character.isAlphanum || character = '_' || character = '-'

/-- The first character has a property, if there is one. -/
def startsWith (property : Char → Bool) (text : Text) : Bool :=
  match text with
  | [] => false
  | character :: _ => property character

/-- A blank, a break or the end of the stream follows. -/
def startsWithYamlSpace (text : Text) : Bool :=
  text.isEmpty || startsWith isYamlSpace text

/-- A break or the end of the stream follows. -/
def startsWithYamlBreak (text : Text) : Bool :=
  text.isEmpty || startsWith isYamlBreak text

/-- Three given characters follow with a blank behind them. -/
def startsWithMarker (marker : Char) (text : Text) : Bool :=
  [marker, marker, marker].isPrefixOf text && startsWithYamlSpace (text.drop 3)

/-- A document starts or ends here, if this is the start of a line. -/
def startsWithDocumentMarker (text : Text) : Bool :=
  startsWithMarker '-' text || startsWithMarker '.' text

/-- Characters that separate or enclose the parts of flow collections. -/
def isYamlFlowIndicator (character : Char) : Bool :=
  [',', '[', ']', '{', '}'].contains character

end Bilingual
