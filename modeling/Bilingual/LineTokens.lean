import Bilingual.MaximalMunch

/-!
# Tokens for spacing

The formatter has opinions about parentheses, commas, colons and `=`.  Each of
them is a token of its own here.  Compound operators are tokens as a whole, so
that `==`, `<=` or `:=` are never taken for `=` or `:`.  All other characters,
brackets and dots included, belong to words.
-/

namespace Bilingual

/-- The kinds of tokens between which the formatter decides on spaces. -/
inductive LineTokenKind
  | whiteSpace
  | openParen
  | closeParen
  | comma
  | colon
  | assign
  | operator
  | word
  deriving DecidableEq, Repr

/-- The characters of which operators are made, `=` apart. -/
def operatorCharacters : Text :=
  ['<', '>', '!', '+', '-', '*', '/', '%', '&', '|', '^', '@', '~']

/-- The character can stand in an operator in front of an `=`. -/
def isOperatorCharacter (character : Char) : Bool :=
  operatorCharacters.contains character

/-- The character can stand in a word. -/
def isLineWordCharacter (character : Char) : Bool :=
  !isWhiteSpace character && !isOperatorCharacter character &&
    !(['(', ')', ',', ':', '='].contains character)

/-- One if the text starts with `=`, otherwise zero. -/
def equalsSignLength (text : Text) : Nat :=
  if text.head? = some '=' then 1 else 0

/-- An operator is `==`, `:=`, or a run of operator characters with at most one
`=` behind it.  White space and words extend as far as possible. -/
def lineMunch : Munch LineTokenKind := fun character rest =>
  let followed := equalsSignLength rest
  if isWhiteSpace character then (.whiteSpace, runLength isWhiteSpace rest)
  else if character = '(' then (.openParen, 0)
  else if character = ')' then (.closeParen, 0)
  else if character = ',' then (.comma, 0)
  else if character = ':' then
    if followed = 0 then (.colon, 0) else (.operator, followed)
  else if character = '=' then
    if followed = 0 then (.assign, 0) else (.operator, followed)
  else if isOperatorCharacter character then
    let run := runLength isOperatorCharacter rest
    (.operator, run + equalsSignLength (rest.drop run))
  else (.word, runLength isLineWordCharacter rest)

/-- Cuts code into the tokens between which spaces are decided. -/
def lineTokens (code : Text) : List (Token LineTokenKind) :=
  tokens lineMunch code

end Bilingual
