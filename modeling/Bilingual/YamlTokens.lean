import Bilingual.YamlScalars

/-!
# Tokens of YAML

The structure of a YAML stream follows from indentation in blocks and from
brackets in flow collections.  The tokens say both alike: where collections start
and end, where their entries, keys and values start, and what the scalars are.

A key of a mapping is recognised only by the colon behind it.  The scanner
therefore remembers for each level of brackets where a key may have started, and
puts the tokens for the key in at that place once the colon comes.  Such a key
has to stand on one line and within 1024 characters.
-/

namespace Bilingual

/-- A token of YAML.  An anchor is labelled by a number, and an alias by the number
of the anchor to which it refers. -/
inductive YamlToken
  | streamEnd
  | version (major minor : Nat)
  | tagHandle (handle : Text)
  | documentStart
  | documentEnd
  | blockSequenceStart
  | blockMappingStart
  | blockEnd
  | flowSequenceStart
  | flowSequenceEnd
  | flowMappingStart
  | flowMappingEnd
  | blockEntry
  | flowEntry
  | key
  | value
  | alias (label : Nat)
  | anchor (label : Nat)
  | tag (handle : Option Text)
  | scalar (plain : Bool) (text : Text)
  deriving DecidableEq, Repr

/-! ### Names, tags and directives -/

/-- Characters that may stand behind an anchor or an alias. -/
def mayFollowYamlName (text : Text) : Bool :=
  startsWithYamlSpace text ||
    startsWith (['?', ':', ',', ']', '}', '%', '@', '\x60'].contains ·) text

/-- Reads the name of an anchor or an alias. -/
def yamlName? (source : Text) : Option (Text × Text) :=
  let name := source.takeWhile isYamlNameCharacter
  let rest := source.dropWhile isYamlNameCharacter
  if name.isEmpty || !mayFollowYamlName rest then none else some (name, rest)

/-- Characters that stand for themselves in a tag. -/
def isYamlTagCharacter (withFlow : Bool) (character : Char) : Bool :=
  isYamlNameCharacter character ||
    [';', '/', '?', ':', '@', '&', '=', '+', '$', '.', '!', '~', '*', '\x27', '(',
      ')'].contains character ||
    (withFlow && [',', '[', ']'].contains character)

/-- The bytes that follow the first byte of a UTF-8 character. -/
def followingBytes? (first : Nat) : Option Nat :=
  if first < 0x80 then some 0
  else if 0xC0 ≤ first && first < 0xE0 then some 1
  else if 0xE0 ≤ first && first < 0xF0 then some 2
  else if 0xF0 ≤ first && first < 0xF8 then some 3
  else none

/-- Passes over the characters of a tag, whose escaped bytes have to make up
whole characters.  `pending` bytes of a character are still to come. -/
def passYamlTag? (withFlow : Bool) : Nat → Text → Option Text
  | pending, '%' :: high :: low :: rest =>
      match number? 16 [high, low], pending with
      | none, _ => none
      | some byte, 0 =>
          match followingBytes? byte with
          | some count => passYamlTag? withFlow count rest
          | none => none
      | some byte, pending + 1 =>
          if 0x80 ≤ byte && byte < 0xC0 then passYamlTag? withFlow pending rest else none
  | _ + 1, _ => none
  | 0, '%' :: _ => none
  | 0, character :: rest =>
      if isYamlTagCharacter withFlow character then passYamlTag? withFlow 0 rest
      else some (character :: rest)
  | 0, [] => some []

/-- The handle at the start of a tag, exclamation marks included, and what
follows it. -/
def yamlTagHandle (source : Text) : Text × Text :=
  let name := (source.drop 1).takeWhile isYamlNameCharacter
  let rest := (source.drop 1).dropWhile isYamlNameCharacter
  if rest.head? = some '!' then ('!' :: name ++ ['!'], rest.drop 1)
  else ('!' :: name, rest)

/-- The handle is closed by a second exclamation mark. -/
def isClosedHandle (handle : Text) : Bool :=
  1 < handle.length && handle.getLast? = some '!'

/-- Reads a tag: a whole one between angle brackets, or a suffix behind a handle.
Of the tag only its handle matters later, if it has one that has to be known. -/
def yamlTag? (inFlow : Bool) (source : Text) : Option (YamlToken × Text) := do
  let (token, rest) ←
    if (source.drop 1).head? = some '<' then do
      let behind ← passYamlTag? true 0 (source.drop 2)
      if behind.length < (source.drop 2).length && behind.head? = some '>' then
        some (YamlToken.tag none, behind.drop 1)
      else none
    else
      let (handle, suffix) := yamlTagHandle source
      let behind ← passYamlTag? false 0 suffix
      if isClosedHandle handle then
        if behind.length < suffix.length then some (YamlToken.tag (some handle), behind)
        else none
      else some (YamlToken.tag none, behind)
  if startsWithYamlSpace rest || (inFlow && rest.head? = some ',') then some (token, rest)
  else none

/-- Reads a part of a version: one to nine digits. -/
def yamlVersionPart? (source : Text) : Option (Nat × Text) :=
  let digits := source.takeWhile isDigit
  if digits.isEmpty || 9 < digits.length then none
  else some (decimalNumber digits, source.dropWhile isDigit)

/-- Reads the version in a directive. -/
def yamlVersion? (source : Text) : Option (YamlToken × Text) := do
  let (major, rest) ← yamlVersionPart? (source.dropWhile isYamlBlank)
  if rest.head? = some '.' then
    let (minor, rest) ← yamlVersionPart? (rest.drop 1)
    return (.version major minor, rest)
  else none

/-- Reads the handle and what it stands for in a directive. -/
def yamlHandleDirective? (source : Text) : Option (YamlToken × Text) := do
  let source := source.dropWhile isYamlBlank
  let (handle, rest) := yamlTagHandle source
  if source.head? = some '!' && (handle = ['!'] || isClosedHandle handle) &&
      startsWith isYamlBlank rest then
    let meaning := rest.dropWhile isYamlBlank
    let behind ← passYamlTag? true 0 meaning
    if behind.length < meaning.length && startsWithYamlSpace behind then
      some (.tagHandle handle, behind)
    else none
  else none

/-- Reads a directive behind its percent sign, up to the end of the line. -/
def yamlDirective? (source : Text) : Option (YamlToken × Text) := do
  let name := source.takeWhile isYamlNameCharacter
  let behind := source.dropWhile isYamlNameCharacter
  if !startsWithYamlSpace behind then none
  else
    let (token, rest) ←
      if name = "YAML".toList then yamlVersion? behind
      else if name = "TAG".toList then yamlHandleDirective? behind
      else none
    let rest ← restOfYamlLine? rest
    return (token, rest)

/-! ### The scanner -/

/-- A place in a stream: characters before it, lines before it, characters before
it on its line, and the text behind it. -/
structure YamlCursor where
  index : Nat
  line : Nat
  column : Nat
  rest : Text
  deriving DecidableEq, Repr

namespace YamlCursor

/-- The place behind the next character. -/
def advance (cursor : YamlCursor) : YamlCursor :=
  match cursor.rest with
  | [] => cursor
  | character :: rest =>
      if isYamlBreak character then ⟨cursor.index + 1, cursor.line + 1, 0, rest⟩
      else ⟨cursor.index + 1, cursor.line, cursor.column + 1, rest⟩

/-- The place behind a number of characters. -/
def advanceBy (cursor : YamlCursor) : Nat → YamlCursor
  | 0 => cursor
  | count + 1 => cursor.advance.advanceBy count

/-- The place at which a given part of the text is left. -/
def advanceTo (cursor : YamlCursor) (rest : Text) : YamlCursor :=
  cursor.advanceBy (cursor.rest.length - rest.length)

end YamlCursor

/-- A place at which a key may have started: the number of tokens before it, and
whether a key has to start there because nothing else fits the indentation. -/
structure YamlKeyPlace where
  tokenCount : Nat
  required : Bool
  index : Nat
  line : Nat
  column : Nat
  deriving DecidableEq, Repr

/-- The state of scanning a stream.

* `tokens`: what has been found, in order.
* `indents`: the columns of the open block collections, innermost first.
* `keyAllowed`: a key may start at the next token.
* `keyPlace`: where a key of the present level may have started.
* `outerKeyPlaces`: the same for the enclosing levels of brackets, innermost
  first, so that their number is the number of open brackets.
* `anchors`: the names of anchors with their latest labels. -/
structure YamlScanner where
  cursor : YamlCursor
  tokens : Array YamlToken
  indents : List Nat
  keyAllowed : Bool
  keyPlace : Option YamlKeyPlace
  outerKeyPlaces : List (Option YamlKeyPlace)
  anchors : List (Text × Nat)

namespace YamlScanner

/-- The scanner at the start of a stream. -/
def ofText (source : Text) : YamlScanner :=
  { cursor := ⟨0, 0, 0, source⟩
    tokens := #[]
    indents := []
    keyAllowed := true
    keyPlace := none
    outerKeyPlaces := []
    anchors := [] }

/-- The scanner is inside brackets. -/
def inFlow (scanner : YamlScanner) : Bool :=
  !scanner.outerKeyPlaces.isEmpty

/-- Adds a token. -/
def emit (scanner : YamlScanner) (token : YamlToken) : YamlScanner :=
  { scanner with tokens := scanner.tokens.push token }

/-- Goes on behind a number of characters. -/
def skip (scanner : YamlScanner) (count : Nat) : YamlScanner :=
  { scanner with cursor := scanner.cursor.advanceBy count }

/-- Goes on where a given part of the text is left. -/
def skipTo (scanner : YamlScanner) (rest : Text) : YamlScanner :=
  { scanner with cursor := scanner.cursor.advanceTo rest }

/-- Allows or forbids a key at the next token. -/
def allowKey (scanner : YamlScanner) (allowed : Bool) : YamlScanner :=
  { scanner with keyAllowed := allowed }

/-- Passes over white space and comments.  A new line in a block allows a key.  A
tab may not stand where the indentation of a key would be.  A byte order mark at
the start of a line is passed over too, but it takes up a column. -/
def passSpace (scanner : YamlScanner) : YamlScanner :=
  let rec pass (inFlow lineStart inComment keyAllowed : Bool) (passed : Nat) :
      Text → Nat × Bool
    | [] => (passed, keyAllowed)
    | character :: rest =>
        if isYamlBreak character then
          pass inFlow true false (keyAllowed || !inFlow) (passed + 1) rest
        else if inComment || character = '#' then
          pass inFlow false true keyAllowed (passed + 1) rest
        else if character = ' ' || (character = '\t' && (inFlow || !keyAllowed)) ||
            (character = '\ufeff' && lineStart) then
          pass inFlow false false keyAllowed (passed + 1) rest
        else (passed, keyAllowed)
  let (passed, keyAllowed) :=
    pass scanner.inFlow (scanner.cursor.column = 0) false scanner.keyAllowed 0
      scanner.cursor.rest
  (scanner.skip passed).allowKey keyAllowed

/-- A key that may have started at a place cannot be recognised any more, since
its line has ended or it is too long. -/
def isStale (cursor : YamlCursor) (place : YamlKeyPlace) : Bool :=
  place.line < cursor.line || place.index + 1024 < cursor.index

/-- Gives up places that are stale.  This is an error if a key was required. -/
def dropStaleKeys? (scanner : YamlScanner) : Option YamlScanner :=
  let stale (place : Option YamlKeyPlace) : Bool := place.any (isStale scanner.cursor)
  let places := scanner.keyPlace :: scanner.outerKeyPlaces
  if places.any fun place => stale place && place.any YamlKeyPlace.required then none
  else
    let keep (place : Option YamlKeyPlace) := if stale place then none else place
    some { scanner with
      keyPlace := keep scanner.keyPlace
      outerKeyPlaces := scanner.outerKeyPlaces.map keep }

/-- Gives up the place of the present level. -/
def removeKeyPlace? (scanner : YamlScanner) : Option YamlScanner :=
  if scanner.keyPlace.any YamlKeyPlace.required then none
  else some { scanner with keyPlace := none }

/-- Remembers that a key may start here. -/
def saveKeyPlace? (scanner : YamlScanner) : Option YamlScanner :=
  if !scanner.keyAllowed then some scanner
  else
    let cursor := scanner.cursor
    let place : YamlKeyPlace :=
      { tokenCount := scanner.tokens.size
        required := !scanner.inFlow && scanner.indents.head? = some cursor.column
        index := cursor.index
        line := cursor.line
        column := cursor.column }
    scanner.removeKeyPlace?.map fun scanner => { scanner with keyPlace := some place }

/-- Closes the block collections that are indented more than the column, or all
of them when there is no column. -/
def closeBlocks (scanner : YamlScanner) (column : Option Nat) : YamlScanner :=
  if scanner.inFlow then scanner
  else
    let open? (indent : Nat) : Bool := column.all (· < indent)
    let closed := scanner.indents.takeWhile open?
    { scanner with
      tokens := scanner.tokens ++ (closed.map fun _ => YamlToken.blockEnd).toArray
      indents := scanner.indents.dropWhile open? }

/-- Opens a block collection at a column if it is indented more than the one
around it.  Its token is put in behind the first `tokenCount` tokens. -/
def openBlock (scanner : YamlScanner) (column tokenCount : Nat) (token : YamlToken) :
    YamlScanner :=
  if scanner.inFlow || scanner.indents.head?.any (column ≤ ·) then scanner
  else
    { scanner with
      tokens := scanner.tokens.insertIdxIfInBounds tokenCount token
      indents := column :: scanner.indents }

/-- Reads the mark between documents or a directive: all blocks end before it. -/
def topLevel? (scanner : YamlScanner) : Option YamlScanner :=
  ((scanner.closeBlocks none).removeKeyPlace?).map (·.allowKey false)

/-- Reads an opening bracket. -/
def openFlow? (scanner : YamlScanner) (token : YamlToken) : Option YamlScanner := do
  let scanner ← scanner.saveKeyPlace?
  return ({ scanner with
    keyPlace := none
    outerKeyPlaces := scanner.keyPlace :: scanner.outerKeyPlaces
    keyAllowed := true }.emit token).skip 1

/-- Reads a closing bracket. -/
def closeFlow? (scanner : YamlScanner) (token : YamlToken) : Option YamlScanner := do
  let scanner ← scanner.removeKeyPlace?
  let scanner := match scanner.outerKeyPlaces with
    | [] => scanner
    | place :: places => { scanner with keyPlace := place, outerKeyPlaces := places }
  return ((scanner.allowKey false).emit token).skip 1

/-- Reads the comma between the entries of a flow collection. -/
def flowEntry? (scanner : YamlScanner) : Option YamlScanner := do
  let scanner ← scanner.removeKeyPlace?
  return ((scanner.allowKey true).emit .flowEntry).skip 1

/-- Reads the hyphen in front of an entry of a block sequence. -/
def blockEntry? (scanner : YamlScanner) : Option YamlScanner := do
  if !scanner.inFlow && !scanner.keyAllowed then none
  else
    let scanner :=
      scanner.openBlock scanner.cursor.column scanner.tokens.size .blockSequenceStart
    let scanner ← scanner.removeKeyPlace?
    return ((scanner.allowKey true).emit .blockEntry).skip 1

/-- Reads the question mark in front of a key. -/
def explicitKey? (scanner : YamlScanner) : Option YamlScanner := do
  if !scanner.inFlow && !scanner.keyAllowed then none
  else
    let scanner :=
      scanner.openBlock scanner.cursor.column scanner.tokens.size .blockMappingStart
    let scanner ← scanner.removeKeyPlace?
    return ((scanner.allowKey (!scanner.inFlow)).emit .key).skip 1

/-- Reads the colon in front of a value.  Where a key may have started, its tokens
are put in. -/
def keyValue? (scanner : YamlScanner) : Option YamlScanner :=
  match scanner.keyPlace with
  | some place =>
      let scanner := { scanner with
        tokens := scanner.tokens.insertIdxIfInBounds place.tokenCount .key
        keyPlace := none
        keyAllowed := false }
      let scanner := scanner.openBlock place.column place.tokenCount .blockMappingStart
      some ((scanner.emit .value).skip 1)
  | none =>
      if !scanner.inFlow && !scanner.keyAllowed then none
      else
        let scanner :=
          scanner.openBlock scanner.cursor.column scanner.tokens.size .blockMappingStart
        some (((scanner.allowKey (!scanner.inFlow)).emit .value).skip 1)

/-- Reads an anchor.  Its label is the number of different names before it: a name
that is given again has a new label then, which it shares with the next new
name. -/
def anchor? (scanner : YamlScanner) : Option YamlScanner := do
  let scanner ← scanner.saveKeyPlace?
  let (name, rest) ← yamlName? (scanner.cursor.rest.drop 1)
  let label := scanner.anchors.length
  let others := scanner.anchors.filter (·.1 ≠ name)
  return ({ scanner with anchors := (name, label) :: others, keyAllowed := false
    }.emit (.anchor label)).skipTo rest

/-- Reads an alias, which has to refer to an anchor before it. -/
def alias? (scanner : YamlScanner) : Option YamlScanner := do
  let scanner ← scanner.saveKeyPlace?
  let (name, rest) ← yamlName? (scanner.cursor.rest.drop 1)
  let label ← scanner.anchors.lookup name
  return ((scanner.allowKey false).emit (.alias label)).skipTo rest

/-- Reads a tag. -/
def tag? (scanner : YamlScanner) : Option YamlScanner := do
  let scanner ← scanner.saveKeyPlace?
  let (token, rest) ← yamlTag? scanner.inFlow scanner.cursor.rest
  return ((scanner.allowKey false).emit token).skipTo rest

/-- Reads a block scalar. -/
def block? (scanner : YamlScanner) (folded : Bool) : Option YamlScanner := do
  let scanner ← scanner.removeKeyPlace?
  let found ← blockScalar? folded scanner.indents.head? (scanner.cursor.rest.drop 1)
  return ((scanner.allowKey true).emit (.scalar false found.text)).skipTo found.rest

/-- Reads a quoted scalar. -/
def quoted? (scanner : YamlScanner) (quote : Char) : Option YamlScanner := do
  let scanner ← scanner.saveKeyPlace?
  let found ← quotedScalar? quote [] .none false (scanner.cursor.rest.drop 1)
  return ((scanner.allowKey false).emit (.scalar false found.text)).skipTo found.rest

/-- Reads a plain scalar.  A key may start behind it if it ends with a line. -/
def plain? (scanner : YamlScanner) : Option YamlScanner := do
  let scanner ← scanner.saveKeyPlace?
  let indent := (scanner.indents.head?.map (· + 1)).getD 0
  let found ← plainScalar? scanner.inFlow indent [] .none scanner.cursor.column
    scanner.cursor.rest
  return ((scanner.allowKey found.broken).emit (.scalar true found.text)).skipTo found.rest

/-- A plain scalar may start with a character that means nothing else here. -/
def startsPlain (inFlow : Bool) (character : Char) (rest : Text) : Bool :=
  !(isYamlSpace character || ['-', '?', ':', ',', '[', ']', '{', '}', '#', '&', '*', '!',
      '|', '>', '\x27', '\x22', '%', '@', '\x60'].contains character) ||
    (character = '-' && !startsWith isYamlBlank rest) ||
    (!inFlow && (character = '?' || character = ':') && !startsWithYamlSpace rest)

/-- Reads the token that starts with a character. -/
def token? (scanner : YamlScanner) (character : Char) (rest : Text) :
    Option YamlScanner :=
  let spaced := startsWithYamlSpace rest
  let lineStart := scanner.cursor.column = 0
  if lineStart && character = '%' then do
    let scanner ← scanner.topLevel?
    let (token, rest) ← yamlDirective? rest
    return (scanner.emit token).skipTo rest
  else if lineStart && startsWithMarker '-' (character :: rest) then
    scanner.topLevel?.map fun scanner => (scanner.emit .documentStart).skip 3
  else if lineStart && startsWithMarker '.' (character :: rest) then
    scanner.topLevel?.map fun scanner => (scanner.emit .documentEnd).skip 3
  else if character = '[' then scanner.openFlow? .flowSequenceStart
  else if character = '{' then scanner.openFlow? .flowMappingStart
  else if character = ']' then scanner.closeFlow? .flowSequenceEnd
  else if character = '}' then scanner.closeFlow? .flowMappingEnd
  else if character = ',' then scanner.flowEntry?
  else if character = '-' && spaced then scanner.blockEntry?
  else if character = '?' && (scanner.inFlow || spaced) then scanner.explicitKey?
  else if character = ':' && (scanner.inFlow || spaced) then scanner.keyValue?
  else if character = '*' then scanner.alias?
  else if character = '&' then scanner.anchor?
  else if character = '!' then scanner.tag?
  else if character = '|' && !scanner.inFlow then scanner.block? false
  else if character = '>' && !scanner.inFlow then scanner.block? true
  else if character = '\x27' || character = '\x22' then scanner.quoted? character
  else if startsPlain scanner.inFlow character rest then scanner.plain?
  else none

/-- Ends the stream. -/
def finish? (scanner : YamlScanner) : Option YamlScanner :=
  scanner.topLevel?.map (·.emit .streamEnd)

/-- Reads all tokens.  Each of them takes at least one character. -/
def scan? (scanner : YamlScanner) : Option YamlScanner :=
  match scanner.passSpace.dropStaleKeys? with
  | none => none
  | some ready =>
      let placed := ready.closeBlocks (some ready.cursor.column)
      match placed.cursor.rest with
      | [] => placed.finish?
      | character :: rest =>
          match placed.token? character rest with
          | none => none
          | some next =>
              if next.cursor.rest.length < scanner.cursor.rest.length then next.scan?
              else none
termination_by scanner.cursor.rest.length

end YamlScanner

/-- The tokens of a stream. -/
def yamlTokens? (source : Text) : Option (List YamlToken) :=
  if source.all isYamlCharacter then
    (YamlScanner.ofText (unifyYamlBreaks source)).scan?.map (·.tokens.toList)
  else none

end Bilingual
