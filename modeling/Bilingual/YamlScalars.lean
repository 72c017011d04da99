import Bilingual.Digits
import Bilingual.YamlCharacters

/-!
# Scalars of YAML

A scalar is written plainly, between quotes, or as a block of lines.  In plain
and quoted scalars the white space between two visible characters is folded: on
one line it stays, a single line break becomes a space, and of several breaks
the first is dropped.
-/

namespace Bilingual

/-- White space that was met within a plain or quoted scalar and whose meaning
depends on what follows. -/
inductive YamlGap
  /-- Blanks on one line. -/
  | blanks (text : Text)
  /-- Breaks and the blanks around them.  The first break is absent when it was
  escaped. -/
  | breaks (first : Option Char) (others : Text)
  deriving DecidableEq, Repr

namespace YamlGap

/-- No white space. -/
def none : YamlGap := .blanks []

/-- The gap with one more blank.  Around breaks blanks do not count. -/
def addBlank (blank : Char) : YamlGap → YamlGap
  | .blanks text => .blanks (text ++ [blank])
  | .breaks first others => .breaks first others

/-- The gap with one more break.  Blanks before a break do not count. -/
def addBreak (character : Char) : YamlGap → YamlGap
  | .blanks _ => .breaks (some character) []
  | .breaks first others => .breaks first (others ++ [character])

/-- What a gap stands for. -/
def folded : YamlGap → Text
  | .blanks text => text
  | .breaks (some '\n') [] => [' ']
  | .breaks (some '\n') others => others
  | .breaks first others => first.toList ++ others

/-- The gap goes over the end of a line. -/
def isBroken : YamlGap → Bool
  | .blanks _ => false
  | .breaks _ _ => true

end YamlGap

/-- A scalar that has been read, what follows it, and whether white space at its
end went over the end of a line. -/
structure YamlScalar where
  text : Text
  rest : Text
  broken : Bool
  deriving DecidableEq, Repr

/-! ### Plain scalars -/

/-- Reads a plain scalar from a given column.  In a block it has to stay at or
right of the column `indent`; `inFlow` tells that it stands in a flow
collection.  The text that was read before is `before`, and `gap` follows it. -/
def plainScalar? (inFlow : Bool) (indent : Nat) (before : Text) (gap : YamlGap)
    (column : Nat) : Text → Option YamlScalar
  | [] => some ⟨before, [], gap.isBroken⟩
  | character :: rest =>
      if isYamlBlank character then
        if gap.isBroken && column < indent && character = '\t' then none
        else
          plainScalar? inFlow indent before (gap.addBlank character) (column + 1) rest
      else if isYamlBreak character then
        plainScalar? inFlow indent before (gap.addBreak character) 0 rest
      else
        let ended : YamlScalar := ⟨before, character :: rest, gap.isBroken⟩
        if gap != .none && ((!inFlow && column < indent) || character = '#' ||
            (column = 0 && startsWithDocumentMarker (character :: rest))) then
          some ended
        else if inFlow && character = ':' &&
            startsWith (fun next => next = '?' || isYamlFlowIndicator next) rest then
          none
        else if (character = ':' && startsWithYamlSpace rest) ||
            (inFlow && isYamlFlowIndicator character) then
          some ended
        else
          plainScalar? inFlow indent (before ++ gap.folded ++ [character]) .none
            (column + 1) rest

/-! ### Quoted scalars -/

/-- The character that a short escape denotes. -/
def yamlShortEscape? : Char → Option Char
  | '0' => some '\x00'
  | 'a' => some '\x07'
  | 'b' => some '\x08'
  | 't' => some '\t'
  | '\t' => some '\t'
  | 'n' => some '\n'
  | 'v' => some '\x0b'
  | 'f' => some '\x0c'
  | 'r' => some '\r'
  | 'e' => some '\x1b'
  | ' ' => some ' '
  | '\x22' => some '\x22'
  | '/' => some '/'
  | '\\' => some '\\'
  | 'N' => some '\x85'
  | '_' => some '\xa0'
  | 'L' => some '\u2028'
  | 'P' => some '\u2029'
  | _ => none

/-- How many digits follow an escape by code point. -/
def yamlEscapeLength? : Char → Option Nat
  | 'x' => some 2
  | 'u' => some 4
  | 'U' => some 8
  | _ => none

/-- The character that an escape denotes, and how many characters of the text
behind the backslash belong to it. -/
def yamlEscape? : Text → Option (Char × Nat)
  | [] => none
  | character :: rest =>
      match yamlShortEscape? character, yamlEscapeLength? character with
      | some denoted, _ => some (denoted, 1)
      | none, some length =>
          if rest.length < length then none
          else
            ((number? 16 (rest.take length)).bind charOfCodePoint?).map (·, length + 1)
      | none, none => none

/-- Reads a quoted scalar up to its closing quote.  The text that was read before
is `before`, and `gap` follows it; `lineStart` tells that this is the start of a
line. -/
def quotedScalar? (quote : Char) (before : Text) (gap : YamlGap) (lineStart : Bool)
    (source : Text) : Option YamlScalar :=
  match source with
  | [] => none
  | character :: rest =>
      if isYamlBlank character then
        quotedScalar? quote before (gap.addBlank character) false rest
      else if isYamlBreak character then
        quotedScalar? quote before (gap.addBreak character) true rest
      else if lineStart && startsWithDocumentMarker (character :: rest) then none
      else
        let before := before ++ gap.folded
        if character = quote then
          if quote = '\x27' && rest.head? = some '\x27' then
            quotedScalar? quote (before ++ ['\x27']) .none false (rest.drop 1)
          else some ⟨before, rest, false⟩
        else if character = '\\' && quote = '\x22' then
          if startsWith isYamlBreak rest then
            quotedScalar? quote before (.breaks none []) true (rest.drop 1)
          else
            match yamlEscape? rest with
            | some (denoted, length) =>
                quotedScalar? quote (before ++ [denoted]) .none false (rest.drop length)
            | none => none
        else quotedScalar? quote (before ++ [character]) .none false rest
termination_by source.length
decreasing_by all_goals simp only [List.length_drop, List.length_cons]; omega

/-! ### Block scalars -/

/-- What becomes of the line breaks at the end of a block. -/
inductive YamlChomping
  | strip
  | clip
  | keep
  deriving DecidableEq, Repr

/-- What the line that opens a block says. -/
structure YamlBlockHeader where
  folded : Bool
  chomping : YamlChomping
  increment : Option Nat
  deriving DecidableEq, Repr

/-- The chomping that a sign asks for. -/
def yamlChomping? : Char → Option YamlChomping
  | '-' => some .strip
  | '+' => some .keep
  | _ => none

/-- Reads the signs behind the character that opens a block: a chomping sign and
an indentation, each at most once and in any order.  An indentation of zero is
refused. -/
def yamlBlockHeader? (folded : Bool) (source : Text) :
    Option (YamlBlockHeader × Text) :=
  let chomping := (source.head?.bind yamlChomping?)
  let afterSign := if chomping.isSome then source.drop 1 else source
  let increment := afterSign.head?.bind (digitValueIn? 10)
  let afterDigit := if increment.isSome then afterSign.drop 1 else afterSign
  let lateChomping :=
    if chomping.isSome || increment.isNone then none
    else afterDigit.head?.bind yamlChomping?
  let rest := if lateChomping.isSome then afterDigit.drop 1 else afterDigit
  if increment = some 0 then none
  else some (⟨folded, (chomping.or lateChomping).getD .clip, increment⟩, rest)

/-- Passes over blanks and a comment to the end of the line, and over the break
there.  Nothing else may stand there. -/
def restOfYamlLine? (source : Text) : Option Text :=
  let behindBlanks := source.dropWhile isYamlBlank
  let rest :=
    if behindBlanks.head? = some '#' then behindBlanks.dropWhile (!isYamlBreak ·)
    else behindBlanks
  if startsWithYamlBreak rest then some (rest.drop 1) else none

/-- The empty lines at some place of a block: their breaks, the widest
indentation among them and on the line behind them, the column there, and what
follows. -/
structure YamlBlockGap where
  breaks : Text
  widest : Nat
  column : Nat
  rest : Text
  deriving DecidableEq, Repr

/-- Passes over the indentation and over empty lines.  An indentation of zero is
not known yet.  A tab may not stand within the indentation. -/
def yamlBlockGap? (indent column widest : Nat) (breaks : Text) :
    Text → Option YamlBlockGap
  | [] => some ⟨breaks, max widest column, column, []⟩
  | character :: rest =>
      let within := indent = 0 || column < indent
      if within && character = ' ' then
        yamlBlockGap? indent (column + 1) widest breaks rest
      else if within && character = '\t' then none
      else if isYamlBreak character then
        yamlBlockGap? indent 0 (max widest column) (breaks ++ [character]) rest
      else some ⟨breaks, max widest column, column, character :: rest⟩

theorem length_rest_le_of_yamlBlockGap? {indent column widest : Nat}
    {breaks source : Text} {found : YamlBlockGap}
    (passed : yamlBlockGap? indent column widest breaks source = some found) :
    found.rest.length ≤ source.length := by
  fun_induction yamlBlockGap? indent column widest breaks source with
  | case1 => simp_all only [Option.some.injEq]; simp [← passed]
  | case2 column widest breaks character rest within space induction =>
      exact Nat.le_succ_of_le (induction passed)
  | case3 => simp at passed
  | case4 column widest breaks character rest within _ _ _ induction =>
      exact Nat.le_succ_of_le (induction passed)
  | case5 => simp_all only [Option.some.injEq]; simp [← passed]

/-- The lines of a block that have been read: their text without the last break,
that break, whether the last line starts with a blank, and the empty lines behind
it. -/
structure YamlBlockText where
  text : Text
  lastBreak : Text
  blankStart : Bool
  emptyLines : Text
  deriving DecidableEq, Repr

/-- Puts a line behind the ones before it.  When lines are folded, a break
between two lines that do not start with blanks becomes a space or, before empty
lines, nothing. -/
def YamlBlockText.addLine (folded : Bool) (block : YamlBlockText) (line : Text) :
    Text :=
  let foldsHere := folded && block.lastBreak = ['\n'] && !block.blankStart &&
    !startsWith isYamlBlank line
  let between :=
    if foldsHere then if block.emptyLines.isEmpty then [' '] else []
    else block.lastBreak
  block.text ++ between ++ block.emptyLines ++ line

/-- Reads the lines of a block that stand at the column `indent`. -/
def yamlBlockLines? (folded : Bool) (indent : Nat) (block : YamlBlockText)
    (column : Nat) (source : Text) : Option (YamlBlockText × Text) :=
  if column ≠ indent then some (block, source)
  else
    match source with
    | [] => some (block, [])
    | character :: rest =>
        let line := (character :: rest).takeWhile (!isYamlBreak ·)
        let behind := (character :: rest).dropWhile (!isYamlBreak ·)
        match _passed : yamlBlockGap? indent 0 0 [] (behind.drop 1) with
        | none => none
        | some found =>
            yamlBlockLines? folded indent
              ⟨block.addLine folded line, behind.take 1,
                startsWith isYamlBlank line, found.breaks⟩
              found.column found.rest
termination_by source.length
decreasing_by
  have passed := length_rest_le_of_yamlBlockGap? _passed
  have shorter := (List.dropWhile_suffix (!isYamlBreak ·) : _ <:+ character :: rest).length_le
  simp only [behind, List.length_drop, List.length_cons] at passed shorter ⊢
  omega

/-- Reads a block scalar behind the character that opens it, inside a collection
that is indented by `parent` columns if there is one. -/
def blockScalar? (folded : Bool) (parent : Option Nat) (source : Text) :
    Option YamlScalar := do
  let (header, rest) ← yamlBlockHeader? folded source
  let rest ← restOfYamlLine? rest
  let least := (parent.map (· + 1)).getD 0
  let given := match header.increment with
    | some increment => (parent.getD 0) + increment
    | none => 0
  let found ← yamlBlockGap? given 0 0 [] rest
  let indent := if given = 0 then max (max found.widest least) 1 else given
  let (block, rest) ←
    yamlBlockLines? folded indent ⟨[], [], false, found.breaks⟩ found.column found.rest
  let lastBreak := if header.chomping = .strip then [] else block.lastBreak
  let emptyLines := if header.chomping = .keep then block.emptyLines else []
  return ⟨block.text ++ lastBreak ++ emptyLines, rest, false⟩

end Bilingual
