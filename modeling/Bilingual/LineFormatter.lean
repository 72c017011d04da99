import Bilingual.IndentTracker
import Bilingual.LineSpacing

/-!
# The line formatter

The formatter writes a source anew line by line, without ever looking at its
grammar.  A blank line becomes empty.  A line with nothing but a comment is
trimmed and indented.  A line that starts with a docstring is indented and
otherwise left as it is.  In a line of code the spaces are put right, a comment
behind it is set off by two spaces, and a colon at the end of the code opens a
block.
-/

namespace Bilingual

/-- The comment of a line as it is written behind its code. -/
def trailingComment (code : Text) (comment : Option Text) : Text :=
  match comment with
  | none => []
  | some comment =>
      (if code.isEmpty then [] else Text.spaces 2) ++ Text.trimEnd comment

/-- Code that ends with a colon opens a block. -/
def opensBlock (code : Text) : Bool :=
  code.getLast? = some ':'

/-- Writes one line, and tracks it. -/
def formatLine (rules : FormatRules) (tracker : IndentTracker) (line : LogicalLine) :
    Text × IndentTracker :=
  let leading := tracker.leadingWidth line.text
  match line.lineClass with
  | .blank => ([], tracker)
  | .comment =>
      let depth := if rules.reindentComments then tracker.commentDepth leading else 0
      (tracker.indentation depth ++ Text.trim line.text, tracker)
  | .docstring =>
      let tracked := tracker.observe leading
      (tracked.indentation tracked.depth ++ line.content, tracked)
  | .code =>
      let tracked := tracker.observe leading
      let code := line.spacedCode rules
      (tracked.indentation tracked.depth ++ code ++ trailingComment code line.comment?,
        if opensBlock code then tracked.openBlock else tracked)

/-- Writes lines one after the other. -/
def formatLines (rules : FormatRules) (tracker : IndentTracker) :
    List LogicalLine → List Text
  | [] => []
  | line :: lines =>
      let written := formatLine rules tracker line
      written.1 :: formatLines rules written.2 lines

/-- Formats a source by given rules. -/
def formatWith (rules : FormatRules) (source : Text) : Text :=
  List.intercalate ['\n']
    (formatLines rules (.ofWidth rules.indentWidth) (logicalLines source))

/-- Formats a source by the standard rules. -/
def format (source : Text) : Text :=
  formatWith .standard source

end Bilingual
