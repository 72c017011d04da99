import Bilingual.Text

/-!
# Indentation depth

The tracker decides how deep a line is from the widths of the indentation that
was met.  The depth grows only through lines that open a block.  It shrinks
when a line is indented less than the tracked line before it; it then follows
from the number of whole levels that fit into the indentation.  This is a
heuristic on columns, which also puts misaligned lines somewhere.
-/

namespace Bilingual

/-- The state of indentation: columns for each level, the present depth, and the
indentation of the last tracked line. -/
structure IndentTracker where
  width : Nat
  depth : Nat
  previousLeading : Option Nat
  deriving DecidableEq, Repr

namespace IndentTracker

/-- The tracker at the start of a source.  A level takes at least one column. -/
def ofWidth (width : Nat) : IndentTracker :=
  ⟨max width 1, 0, none⟩

/-- The columns that an indentation character takes.  A tab is one level. -/
def columns (tracker : IndentTracker) (character : Char) : Nat :=
  if character = '\t' then tracker.width else 1

/-- The width of the spaces and tabs at the start of a line. -/
def leadingWidth (tracker : IndentTracker) : Text → Nat
  | [] => 0
  | character :: rest =>
      if character = ' ' || character = '\t' then
        tracker.columns character + tracker.leadingWidth rest
      else 0

/-- The depth that a line of a given indentation may have at most, when it stands
at the present place. -/
def depthAt (tracker : IndentTracker) (leading : Nat) : Nat :=
  min tracker.depth (leading / tracker.width)

/-- Tracks a line of code.  The depth afterwards is the depth of the line. -/
def observe (tracker : IndentTracker) (leading : Nat) : IndentTracker :=
  let narrower := match tracker.previousLeading with
    | none => false
    | some previous => leading < previous
  { tracker with
    depth := if narrower then tracker.depthAt leading else tracker.depth
    previousLeading := some leading }

/-- Enters the block that the last line opened. -/
def openBlock (tracker : IndentTracker) : IndentTracker :=
  { tracker with depth := tracker.depth + 1 }

/-- The depth of a line with nothing but a comment.  Such a line is not
tracked. -/
def commentDepth (tracker : IndentTracker) (leading : Nat) : Nat :=
  tracker.depthAt leading

/-- The indentation that is written for a depth. -/
def indentation (tracker : IndentTracker) (depth : Nat) : Text :=
  Text.spaces (depth * tracker.width)

end IndentTracker

end Bilingual
