import Bilingual.TomlSyntax

/-!
# Scalars of TOML

Strings, numbers, truth values and points in time.  A point in time counts as the
text in which it is usually written.
-/

namespace Bilingual

/-! ### Strings -/

/-- The character that a short escape denotes. -/
def tomlShortEscape? : Char → Option Char
  | 'b' => some '\x08'
  | 't' => some '\t'
  | 'n' => some '\n'
  | 'f' => some '\x0c'
  | 'r' => some '\r'
  | '\x22' => some '\x22'
  | '\\' => some '\\'
  | _ => none

/-- How many digits follow an escape by code point. -/
def tomlEscapeLength? : Char → Option Nat
  | 'u' => some 4
  | 'U' => some 8
  | _ => none

/-- The character that an escape denotes, and how many characters of the text
behind the backslash belong to it. -/
def tomlEscape? : Text → Option (Char × Nat)
  | [] => none
  | character :: rest =>
      match tomlShortEscape? character, tomlEscapeLength? character with
      | some denoted, _ => some (denoted, 1)
      | none, some length =>
          if rest.length < length then none
          else
            ((number? 16 (rest.take length)).bind charOfCodePoint?).map (·, length + 1)
      | none, none => none

/-- Reads a string of one line up to its closing quote.  In double quotes a
backslash escapes. -/
def tomlString? (quote : Char) (before : Text) (source : Text) : Option (Text × Text) :=
  match source with
  | [] => none
  | character :: rest =>
      if character = quote then some (before, rest)
      else if character = '\\' && quote = '\x22' then
        match tomlEscape? rest with
        | some (denoted, length) =>
            tomlString? quote (before ++ [denoted]) (rest.drop length)
        | none => none
      else if isTomlCharacter character then tomlString? quote (before ++ [character]) rest
      else none
termination_by source.length
decreasing_by all_goals simp only [List.length_drop, List.length_cons]; omega

/-- Reads a string of several lines up to its three closing quotes.  One or two
quotes may stand in front of them or inside.  In double quotes a backslash
escapes, and at the end of a line it takes all white space behind it away. -/
def tomlLongString? (quote : Char) (before : Text) (source : Text) :
    Option (Text × Text) :=
  match source with
  | [] => none
  | character :: rest =>
      if character = quote then
        let more := (rest.takeWhile (· = quote)).length
        if more < 2 then
          tomlLongString? quote (before ++ List.replicate (more + 1) quote)
            (rest.drop more)
        else
          let extra := min (more - 2) 2
          some (before ++ List.replicate extra quote, rest.drop (2 + extra))
      else if character = '\\' && quote = '\x22' then
        let behindBlanks := rest.dropWhile isTomlBlank
        if (behindTomlBreak? behindBlanks).isSome then
          tomlLongString? quote before (passTomlBreaks behindBlanks)
        else
          match tomlEscape? rest with
          | some (denoted, length) =>
              tomlLongString? quote (before ++ [denoted]) (rest.drop length)
          | none => none
      else if character = '\n' then tomlLongString? quote (before ++ ['\n']) rest
      else if character = '\r' then
        if rest.head? = some '\n' then
          tomlLongString? quote (before ++ ['\n']) (rest.drop 1)
        else none
      else if isTomlCharacter character then
        tomlLongString? quote (before ++ [character]) rest
      else none
termination_by source.length
decreasing_by
  all_goals
    have passed := length_passTomlBreaks_dropWhile_le rest
    simp only [List.length_drop, List.length_cons]
    omega

/-- Reads a string of any form.  A line break right behind three opening quotes
does not count. -/
def tomlQuoted? (source : Text) : Option (Text × Text) :=
  match source with
  | [] => none
  | quote :: rest =>
      if [quote, quote].isPrefixOf rest then
        let body := rest.drop 2
        tomlLongString? quote [] ((behindTomlBreak? body).getD body)
      else tomlString? quote [] rest

/-! ### Numbers -/

/-- The digits among digits and underscores.  Every underscore has to stand
between two digits. -/
def groupedDigits? (isDigit : Char → Bool) : Text → Option Text
  | [] => none
  | [character] => if isDigit character then some [character] else none
  | character :: '_' :: rest =>
      if isDigit character then (groupedDigits? isDigit rest).map (character :: ·) else none
  | character :: rest =>
      if isDigit character then (groupedDigits? isDigit rest).map (character :: ·) else none

/-- The digits of a whole number in base ten, which does not start with zero
unless it is zero. -/
def wholeDigits? (text : Text) : Option Text :=
  if text.head? = some '0' && text.length ≠ 1 then none else groupedDigits? isDigit text

/-- The integer, if it fits 64 bits with a sign. -/
def signedWord? (value : Int) : Option SettingValue :=
  if isSignedWord64 value then some (.integer value) else none

/-- Reads a number in base sixteen, eight or two. -/
def tomlPrefixed? (base : Nat) (digits : Text) : Option SettingValue := do
  let digits ← groupedDigits? (fun character => (digitValueIn? base character).isSome) digits
  let value ← number? base digits
  signedWord? value

/-- Reads an integer. -/
def tomlInteger? (text : Text) : Option SettingValue :=
  match text with
  | '0' :: 'x' :: digits => tomlPrefixed? 16 digits
  | '0' :: 'o' :: digits => tomlPrefixed? 8 digits
  | '0' :: 'b' :: digits => tomlPrefixed? 2 digits
  | _ => do
      let (negative, unsigned) := splitSign text
      let digits ← wholeDigits? unsigned
      signedWord? (signedNumber negative (decimalNumber digits))

/-- Reads the exponent of a float, which may be left out. -/
def tomlExponent? : Text → Option Int
  | [] => some 0
  | mark :: text =>
      if mark = 'e' || mark = 'E' then do
        let (negative, unsigned) := splitSign text
        let digits ← groupedDigits? isDigit unsigned
        return signedNumber negative (decimalNumber digits)
      else none

/-- Reads a float.  It may not be too large, but it may be too small. -/
def tomlFloat? (text : Text) : Option SettingValue := do
  let (negative, unsigned) := splitSign text
  if unsigned = "inf".toList then return .float (.infinite negative)
  else if unsigned = "nan".toList then return .float .notANumber
  else
    let isMark (character : Char) : Bool := character = 'e' || character = 'E'
    let mantissa := unsigned.takeWhile (!isMark ·)
    let exponent ← tomlExponent? (unsigned.dropWhile (!isMark ·))
    let whole ← wholeDigits? (mantissa.takeWhile (· != '.'))
    let fraction ← match mantissa.dropWhile (· != '.') with
      | [] => if mantissa.length = unsigned.length then none else some []
      | _ :: digits => groupedDigits? isDigit digits
    let value := BinaryFloat.ofDecimal negative (decimalNumber (whole ++ fraction))
      (exponent - fraction.length)
    if value = .infinite false then none else return .float value

/-! ### Points in time -/

/-- Reads a number of a fixed count of digits within bounds. -/
def boundedNumber? (count least greatest : Nat) (source : Text) : Option (Nat × Text) :=
  let digits := source.take count
  if digits.length = count && digits.all isDigit then
    let value := decimalNumber digits
    if least ≤ value && value ≤ greatest then some (value, source.drop count) else none
  else none

/-- Passes over a given character. -/
def passCharacter? (expected : Char) : Text → Option Text
  | [] => none
  | character :: rest => if character = expected then some rest else none

/-- The number of days of a month. -/
def daysOfMonth (year month : Nat) : Nat :=
  if month = 2 then
    if year % 4 = 0 && (year % 100 ≠ 0 || year % 400 = 0) then 29 else 28
  else if [4, 6, 9, 11].contains month then 30
  else 31

/-- A number with zeros in front of it. -/
def paddedNumber (width value : Nat) : Text :=
  padZeros width (decimalDigits value)

/-- Reads a date, and writes it. -/
def tomlDate? (source : Text) : Option (Text × Text) := do
  let (year, rest) ← boundedNumber? 4 0 9999 source
  let (month, rest) ← boundedNumber? 2 1 12 (← passCharacter? '-' rest)
  let (day, rest) ← boundedNumber? 2 1 (daysOfMonth year month) (← passCharacter? '-' rest)
  return (paddedNumber 4 year ++ '-' :: paddedNumber 2 month ++ '-' :: paddedNumber 2 day,
    rest)

/-- Reads the fraction of a second, and writes up to nine of its digits without
zeros at the end. -/
def tomlFraction? (source : Text) : Option (Text × Text) :=
  match source with
  | '.' :: rest =>
      let digits := rest.takeWhile isDigit
      if digits.isEmpty then none
      else
        let shown := ((digits.take 9).reverse.dropWhile (· = '0')).reverse
        some (if shown.isEmpty then [] else '.' :: shown, rest.dropWhile isDigit)
  | _ => some ([], source)

/-- Reads a time of day, and writes it. -/
def tomlTime? (source : Text) : Option (Text × Text) := do
  let (hour, rest) ← boundedNumber? 2 0 23 source
  let (minute, rest) ← boundedNumber? 2 0 59 (← passCharacter? ':' rest)
  let (second, rest) ← boundedNumber? 2 0 60 (← passCharacter? ':' rest)
  let (fraction, rest) ← tomlFraction? rest
  return (paddedNumber 2 hour ++ ':' :: paddedNumber 2 minute ++ ':' ::
    paddedNumber 2 second ++ fraction, rest)

/-- Reads the distance from universal time at the end of a text, and writes it.
It may be left out. -/
def tomlOffset? (source : Text) : Option Text :=
  match source with
  | [] => some []
  | ['Z'] | ['z'] => some ['Z']
  | sign :: rest => do
      if sign != '+' && sign != '-' then none
      else
        let (hour, rest) ← boundedNumber? 2 0 23 rest
        let (minute, rest) ← boundedNumber? 2 0 59 (← passCharacter? ':' rest)
        if !rest.isEmpty then none
        else
          let shown := if hour = 0 && minute = 0 then '+' else sign
          return shown :: paddedNumber 2 hour ++ ':' :: paddedNumber 2 minute

/-- Reads a date, a time of day, or both with or without a distance from universal
time. -/
def tomlMoment? (text : Text) : Option SettingValue :=
  match tomlDate? text with
  | none => do
      let (time, rest) ← tomlTime? text
      if rest.isEmpty then some (.text time) else none
  | some (date, []) => some (.text date)
  | some (date, mark :: rest) => do
      if mark != 'T' && mark != 't' then none
      else
        let (time, rest) ← tomlTime? rest
        return .text (date ++ 'T' :: time ++ (← tomlOffset? rest))

/-! ### Words -/

/-- Characters of numbers, truth values and points in time. -/
def isTomlWordCharacter (character : Char) : Bool :=
  character.isAlphanum || ['_', '+', '-', '.', ':'].contains character

/-- Reads a word that is not a string. -/
def tomlWord? (word : Text) : Option SettingValue :=
  if word = "true".toList then some (.boolean true)
  else if word = "false".toList then some (.boolean false)
  else ((tomlMoment? word).or (tomlFloat? word)).or (tomlInteger? word)

/-- Splits a word off.  A space between a date and a time of day belongs to the
word and counts as the mark between them. -/
def splitTomlWord (source : Text) : Text × Text :=
  let word := source.takeWhile isTomlWordCharacter
  let rest := source.dropWhile isTomlWordCharacter
  match tomlDate? word, rest with
  | some (_, []), ' ' :: digit :: after =>
      if isDigit digit then
        (word ++ 'T' :: (digit :: after).takeWhile isTomlWordCharacter,
          (digit :: after).dropWhile isTomlWordCharacter)
      else (word, rest)
  | _, _ => (word, rest)

end Bilingual
