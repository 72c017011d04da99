import Bilingual.LineFormatter

/-!
# Indentation in machine words

A machine counts columns and levels in words of sixty-four bits, and it makes no text
of so many bytes that a signed word could not count them.  The formatter of this file
writes what the line formatter writes, and gives up at the first number that does not
fit.
-/

namespace Bilingual

/-- A word holds the numbers below this one. -/
def wordLimit : Nat := 0x10000000000000000

/-- A text has fewer bytes than this. -/
def textLimit : Nat := 0x8000000000000000

/-- A number that does not fit.

* `leadingWidth`: the width of the spaces and tabs at the start of a line.
* `depth`: the depth behind a line that opens a block.
* `columns`: the columns that a depth takes.
* `indentation`: the length of an indentation that is to be written. -/
inductive IndentOverflow
  | leadingWidth
  | depth
  | columns
  | indentation
  deriving DecidableEq, Repr

/-- The wording of the reason. -/
def IndentOverflow.message : IndentOverflow → String
  | .leadingWidth => "attempt to add with overflow: the width of the indentation"
  | .depth => "attempt to add with overflow: the depth of the block"
  | .columns => "attempt to multiply with overflow: the columns of the indentation"
  | .indentation => "capacity overflow: the indentation"

/-- The number, if it is below a limit. -/
def IndentOverflow.below (limit : Nat) (overflow : IndentOverflow) (number : Nat) :
    Except IndentOverflow Nat :=
  if number < limit then .ok number else .error overflow

namespace IndentTracker

/-- Adds the width of the spaces and tabs at the start of a line to a number. -/
def addLeadingWidth (tracker : IndentTracker) (sum : Nat) :
    Text → Except IndentOverflow Nat
  | [] => .ok sum
  | character :: rest =>
      if character = ' ' || character = '\t' then
        match IndentOverflow.leadingWidth.below wordLimit (sum + tracker.columns character) with
        | .ok sum => tracker.addLeadingWidth sum rest
        | .error overflow => .error overflow
      else .ok sum

/-- Enters the block that the last line opened. -/
def openBlockWithin (tracker : IndentTracker) : Except IndentOverflow IndentTracker := do
  let depth ← IndentOverflow.depth.below wordLimit (tracker.depth + 1)
  return { tracker with depth := depth }

/-- The indentation that is written for a depth. -/
def indentationWithin (tracker : IndentTracker) (depth : Nat) :
    Except IndentOverflow Text := do
  let columns ← IndentOverflow.columns.below wordLimit (depth * tracker.width)
  let length ← IndentOverflow.indentation.below textLimit columns
  return Text.spaces length

end IndentTracker

/-- Writes one line, and tracks it. -/
def formatLineWithin (rules : FormatRules) (tracker : IndentTracker) (line : LogicalLine) :
    Except IndentOverflow (Text × IndentTracker) :=
  match line.lineClass with
  | .blank => .ok ([], tracker)
  | .comment => do
      let leading ← tracker.addLeadingWidth 0 line.text
      let depth := if rules.reindentComments then tracker.commentDepth leading else 0
      let indentation ← tracker.indentationWithin depth
      return (indentation ++ Text.trim line.text, tracker)
  | .docstring => do
      let leading ← tracker.addLeadingWidth 0 line.text
      let tracked := tracker.observe leading
      let indentation ← tracked.indentationWithin tracked.depth
      return (indentation ++ line.content, tracked)
  | .code => do
      let leading ← tracker.addLeadingWidth 0 line.text
      let code := line.spacedCode rules
      let tracked := tracker.observe leading
      let indentation ← tracked.indentationWithin tracked.depth
      let behind ← if opensBlock code then tracked.openBlockWithin else .ok tracked
      return (indentation ++ code ++ trailingComment code line.comment?, behind)

/-- Writes lines one after the other. -/
def formatLinesWithin (rules : FormatRules) (tracker : IndentTracker) :
    List LogicalLine → Except IndentOverflow (List Text)
  | [] => .ok []
  | line :: lines => do
      let written ← formatLineWithin rules tracker line
      let others ← formatLinesWithin rules written.2 lines
      return written.1 :: others

/-- Formats a source by given rules. -/
def formatWithin (rules : FormatRules) (source : Text) : Except IndentOverflow Text := do
  let lines ← formatLinesWithin rules (.ofWidth rules.indentWidth) (logicalLines source)
  return List.intercalate ['\n'] lines

end Bilingual
