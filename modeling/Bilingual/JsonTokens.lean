import Bilingual.JsonValue
import Bilingual.MaximalMunch

/-!
# JSON tokens

A JSON text is cut into marks, strings and bare words, and white space between
them; bare words are the names of the three constants, and numbers.  Each token
is then read on its own.
-/

namespace Bilingual

/-- The pieces of a JSON text before they are read. -/
inductive JsonLexeme
  | blank
  | mark
  | quoted
  | bare
  | invalid
  deriving DecidableEq, Repr

/-- A token of JSON: one of the six marks, or a value without parts. -/
inductive JsonToken
  | openArray
  | closeArray
  | openObject
  | closeObject
  | comma
  | colon
  | scalar (value : Json)
  deriving Repr

/-- White space of JSON. -/
def isJsonBlank (character : Char) : Bool :=
  [' ', '\t', '\n', '\r'].contains character

/-- Characters of constants and numbers. -/
def isJsonBare (character : Char) : Bool :=
  character.isAlphanum || ['+', '-', '.'].contains character

/-- How many characters of a text belong to a string that was opened before it,
its closing quote included. -/
def jsonStringLength? : Text → Option Nat
  | [] => none
  | '\x22' :: _ => some 1
  | '\\' :: _ :: rest => (jsonStringLength? rest).map (· + 2)
  | _ :: rest => (jsonStringLength? rest).map (· + 1)

/-- The lexeme that starts with a character. -/
def jsonMunch : Munch JsonLexeme := fun character rest =>
  if isJsonBlank character then (.blank, runLength isJsonBlank rest)
  else if ['[', ']', '{', '}', ',', ':'].contains character then (.mark, 0)
  else if character = '\x22' then
    match jsonStringLength? rest with
    | some length => (.quoted, length)
    | none => (.invalid, rest.length)
  else if isJsonBare character then (.bare, runLength isJsonBare rest)
  else (.invalid, 0)

/-! ### Strings -/

/-- A 16-bit unit that was escaped in a string, or a character that was not. -/
inductive JsonStringUnit
  | plain (character : Char)
  | escaped (unit : Nat)
  deriving DecidableEq, Repr

/-- The character that a short escape denotes. -/
def jsonShortEscape? : Char → Option Char
  | '\x22' => some '\x22'
  | '\\' => some '\\'
  | '/' => some '/'
  | 'b' => some '\x08'
  | 'f' => some '\x0c'
  | 'n' => some '\n'
  | 'r' => some '\r'
  | 't' => some '\t'
  | _ => none

/-- Reads the inside of a string up to its closing quote, which is the last
character.  Control characters have to be escaped. -/
def jsonStringUnits? : Text → Option (List JsonStringUnit)
  | ['\x22'] => some []
  | '\\' :: 'u' :: first :: second :: third :: fourth :: rest =>
      match number? 16 [first, second, third, fourth] with
      | some unit => (jsonStringUnits? rest).map (.escaped unit :: ·)
      | none => none
  | '\\' :: escape :: rest =>
      match jsonShortEscape? escape with
      | some character => (jsonStringUnits? rest).map (.plain character :: ·)
      | none => none
  | character :: rest =>
      if character.toNat < 32 then none
      else (jsonStringUnits? rest).map (.plain character :: ·)
  | [] => none

/-- The unit is the first half of a surrogate pair. -/
def isHighSurrogate (unit : Nat) : Bool :=
  0xD800 ≤ unit && unit < 0xDC00

/-- The unit is the second half of a surrogate pair. -/
def isLowSurrogate (unit : Nat) : Bool :=
  0xDC00 ≤ unit && unit < 0xE000

/-- The text that units denote, if surrogates occur in pairs only. -/
def textOfJsonUnits? : List JsonStringUnit → Option Text
  | [] => some []
  | .plain character :: units => (textOfJsonUnits? units).map (character :: ·)
  | .escaped high :: .escaped low :: units =>
      if isHighSurrogate high then
        if isLowSurrogate low then
          match charOfCodePoint? (0x10000 + (high - 0xD800) * 0x400 + (low - 0xDC00)) with
          | some character => (textOfJsonUnits? units).map (character :: ·)
          | none => none
        else none
      else
        match charOfCodePoint? high with
        | some character => (textOfJsonUnits? (.escaped low :: units)).map (character :: ·)
        | none => none
  | .escaped unit :: units =>
      match charOfCodePoint? unit with
      | some character => (textOfJsonUnits? units).map (character :: ·)
      | none => none

/-! ### Numbers -/

/-- Reads the exponent of a number. -/
def jsonExponent? (text : Text) : Option Int :=
  match text with
  | '-' :: digits => (number? 10 digits).map fun value => -(value : Int)
  | '+' :: digits => (number? 10 digits).map Int.ofNat
  | digits => (number? 10 digits).map Int.ofNat

/-- Reads what follows the digits in front of the point. -/
def jsonNumberTail? (negative : Bool) (whole : Text) (text : Text) : Option JsonNumber :=
  let withFraction (fraction : Option Text) (text : Text) : Option JsonNumber :=
    match text with
    | [] => some ⟨negative, whole, fraction, none⟩
    | mark :: exponent =>
        if mark = 'e' || mark = 'E' then
          (jsonExponent? exponent).map fun value => ⟨negative, whole, fraction, some value⟩
        else none
  match text with
  | '.' :: rest =>
      let digits := rest.takeWhile isDigit
      if digits.isEmpty then none else withFraction (some digits) (rest.dropWhile isDigit)
  | _ => withFraction none text

/-- Reads a number.  A zero in front of the point stands alone there. -/
def jsonNumber? (text : Text) : Option JsonNumber :=
  let negative := text.head? = some '-'
  let unsigned := if negative then text.tail else text
  let whole := unsigned.takeWhile isDigit
  if whole.isEmpty || (whole.head? = some '0' && whole.length ≠ 1) then none
  else jsonNumberTail? negative whole (unsigned.dropWhile isDigit)

/-! ### Tokens -/

/-- Reads a bare word. -/
def jsonBare? (word : Text) : Option Json :=
  if word = "null".toList then some .null
  else if word = "true".toList then some (.boolean true)
  else if word = "false".toList then some (.boolean false)
  else (jsonNumber? word).map .number

/-- Reads a mark. -/
def jsonMark? : Text → Option JsonToken
  | ['['] => some .openArray
  | [']'] => some .closeArray
  | ['{'] => some .openObject
  | ['}'] => some .closeObject
  | [','] => some .comma
  | [':'] => some .colon
  | _ => none

/-- Reads a lexeme that is not white space. -/
def jsonToken? (lexeme : Token JsonLexeme) : Option JsonToken :=
  match lexeme.kind with
  | .mark => jsonMark? lexeme.text
  | .quoted =>
      (jsonStringUnits? lexeme.text.tail).map fun units =>
        .scalar (.string (textOfJsonUnits? units))
  | .bare => (jsonBare? lexeme.text).map .scalar
  | .blank | .invalid => none

/-- The tokens of a JSON text, if all of it can be read. -/
def jsonTokens? (text : Text) : Option (List JsonToken) :=
  ((tokens jsonMunch text).filter (·.kind ≠ .blank)).mapM jsonToken?

end Bilingual
