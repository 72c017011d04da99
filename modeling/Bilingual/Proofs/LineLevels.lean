import Bilingual.Proofs.FormattingTwice
import Bilingual.Proofs.LinePieces

/-!
# Levels of lines

Lines are well nested when each of them is indented by a whole number of levels, and
goes deeper than the line before only where that opens a block.  This file states
such conditions for the lines of a source, and says how a line stands that the
formatter wrote.
-/

namespace Bilingual

/-- The columns of a level.  A level takes at least one column. -/
def FormatRules.levelWidth (rules : FormatRules) : Nat :=
  max rules.indentWidth 1

theorem FormatRules.levelWidth_pos (rules : FormatRules) : 0 < rules.levelWidth :=
  Nat.lt_of_lt_of_le Nat.one_pos (Nat.le_max_right _ _)

namespace LogicalLine

/-- The white space at the start of a line. -/
def margin (line : LogicalLine) : Text :=
  line.text.takeWhile isWhiteSpace

/-- The white space at the start of the line is so many spaces. -/
def IndentedBy (line : LogicalLine) (columns : Nat) : Prop :=
  line.margin = Text.spaces columns

instance (line : LogicalLine) (columns : Nat) : Decidable (line.IndentedBy columns) :=
  inferInstanceAs (Decidable (_ = _))

/-- The spaces and tabs at the start of a line. -/
def indentation (line : LogicalLine) : Text :=
  line.text.takeWhile isIndentation

/-- The columns of the spaces and tabs at the start of a line. -/
def leadingColumns (line : LogicalLine) (rules : FormatRules) : Nat :=
  line.indentation.count ' ' + line.indentation.count '\t' * rules.levelWidth

/-- The line is neither blank nor just a comment. -/
def isTracked (line : LogicalLine) : Bool :=
  line.lineClass = .docstring || line.lineClass = .code

theorem isTracked_iff {line : LogicalLine} :
    line.isTracked = true ↔ line.lineClass = .docstring ∨ line.lineClass = .code := by
  simp [isTracked]

theorem isTracked_eq_false_iff {line : LogicalLine} :
    line.isTracked = false ↔ line.lineClass = .blank ∨ line.lineClass = .comment := by
  rw [isTracked]
  cases line.lineClass <;> simp

/-- The line is one of code, and its last visible piece in front of a comment is a
colon. -/
def isOpener (line : LogicalLine) : Bool :=
  line.lineClass = .code &&
    (Piece.lastVisible? (Piece.ofSpans line.spans)).any (·.kind? = some .colon)

end LogicalLine

/-- The lines stand at whole levels.  Behind the tracked line `previous` a line may stand
where `allows` says so, and a comment not deeper than is expected there. -/
def StandAtLevels (rules : FormatRules) (allows : Option Placement → Nat → Prop)
    (previous : Option Placement) : List LogicalLine → Prop
  | [] => True
  | line :: lines =>
      match line.lineClass with
      | .blank => line.text = [] ∧ StandAtLevels rules allows previous lines
      | .comment =>
          (∃ level ≤ if rules.reindentComments then Placement.deepest previous else 0,
            line.IndentedBy (level * rules.levelWidth)) ∧
            StandAtLevels rules allows previous lines
      | .docstring | .code =>
          ∃ level, allows previous level ∧ line.IndentedBy (level * rules.levelWidth) ∧
            StandAtLevels rules allows (some ⟨level, line.isOpener⟩) lines

/-! ### Indentation -/

theorem LogicalLine.IndentedBy.indentation {line : LogicalLine} {columns : Nat}
    (indented : line.IndentedBy columns) : line.indentation = Text.spaces columns := by
  have parts : Text.spaces columns ++ Text.trimStart line.text = line.text := by
    rw [← indented]
    exact Text.takeWhile_append_trimStart line.text
  rw [LogicalLine.indentation, ← parts]
  exact takeWhile_isIndentation_spaces_append columns (Text.head?_trimStart line.text)

theorem LogicalLine.IndentedBy.leadingWidth {line : LogicalLine} {columns : Nat}
    (indented : line.IndentedBy columns) (tracker : IndentTracker) :
    tracker.leadingWidth line.text = columns :=
  tracker.leadingWidth_of_takeWhile indented.indentation

theorem IndentTracker.leadingWidth_eq_count (tracker : IndentTracker) (text : Text) :
    tracker.leadingWidth text = (text.takeWhile isIndentation).count ' ' +
      (text.takeWhile isIndentation).count '\t' * tracker.width := by
  induction text with
  | nil => simp [leadingWidth]
  | cons character rest induction =>
      rw [leadingWidth, List.takeWhile_cons, isIndentation, induction]
      split
      · next indents =>
          simp only [Bool.or_eq_true, decide_eq_true_eq] at indents
          rcases indents with rfl | rfl <;> simp [columns, Nat.succ_mul] <;> omega
      · simp

theorem IndentTracker.leadingWidth_eq_leadingColumns {rules : FormatRules}
    {tracker : IndentTracker} (width : tracker.width = rules.levelWidth) (line : LogicalLine) :
    tracker.leadingWidth line.text = line.leadingColumns rules := by
  rw [tracker.leadingWidth_eq_count, width]
  rfl

theorem IndentTracker.depthOf_tracked (tracker : IndentTracker) {rules : FormatRules}
    {line : LogicalLine} (tracked : line.isTracked = true) :
    tracker.depthOf rules line = (tracker.observe (tracker.leadingWidth line.text)).depth := by
  rcases LogicalLine.isTracked_iff.1 tracked with kind | kind <;>
  · simp only [depthOf, kind]

section Line

variable {list written : List Lexeme} {rules : FormatRules} {tracker : IndentTracker}

theorem isOpener_lineOf (offset start : Nat) (legible : Legible list)
    (inLine : Lexeme.newline ∉ list) :
    (lineOf offset start list).isOpener = (classOf list = .code && endsInColon list : Bool) := by
  have pieces : Piece.ofSpans (lineOf offset start list).spans = piecesOf list :=
    ofSpans_spansFrom legible inLine start
  rw [LogicalLine.isOpener, lineClass_lineOf offset start legible, pieces]
  rfl

theorem IndentTracker.width_formatLine (tracker : IndentTracker) {line : LogicalLine} :
    (formatLine rules tracker line).2.width = tracker.width := by
  rw [formatLine_snd]
  cases tracker.place? rules line <;> rfl

theorem place?_untracked {line : LogicalLine} (untracked : line.isTracked = false) :
    tracker.place? rules line = none := by
  rcases LogicalLine.isTracked_eq_false_iff.1 untracked with kind | kind <;>
  · simp only [IndentTracker.place?, kind]

theorem formatLine_untracked {line : LogicalLine} (untracked : line.isTracked = false) :
    (formatLine rules tracker line).2 = tracker := by
  rw [formatLine_snd, place?_untracked untracked]

/-- A tracked line behind which another one can stand is placed as an opener if it is
one. -/
theorem place?_tracked {offset : Nat} (legible : Legible list) (inLine : Lexeme.newline ∉ list)
    (complete : Complete list) (tracked : (lineOf offset offset list).isTracked = true) :
    tracker.place? rules (lineOf offset offset list) =
      some ⟨tracker.depthOf rules (lineOf offset offset list),
        (lineOf offset offset list).isOpener⟩ := by
  have code : (lineOf offset offset list).spacedCode rules = codeOf rules list :=
    spacedCode_eq legible inLine offset offset
  have opens : opensBlock (codeOf rules list) = endsInColon list :=
    opensBlock_codeOf legible complete
  rw [IndentTracker.place?, isOpener_lineOf offset offset legible inLine,
    ← lineClass_lineOf offset offset legible, code, opens]
  rcases LogicalLine.isTracked_iff.1 tracked with kind | kind <;>
  · rw [kind]
    rfl

/-! ### Lines that were written -/

theorem indentedBy_written (offset other : Nat) (legible : Legible list)
    (inLine : Lexeme.newline ∉ list)
    (text : (formatLine rules tracker (lineOf offset offset list)).1 = textOf written) :
    (lineOf other other written).IndentedBy
      (tracker.depthOf rules (lineOf offset offset list) * tracker.width) := by
  rw [LogicalLine.IndentedBy, LogicalLine.margin, text_lineOf,
    textOf_written legible inLine text]
  exact Text.takeWhile_of_isBlank_append (Text.isBlank_spaces _) (head?_bodyOf legible inLine)

/-- A line that was written is an opener if it was one before. -/
theorem isOpener_written (offset other : Nat) (legible : Legible list)
    (inLine : Lexeme.newline ∉ list) (complete : Complete list) (keeps : Keeps list written)
    (text : (formatLine rules tracker (lineOf offset offset list)).1 = textOf written) :
    (lineOf other other written).isOpener = (lineOf offset offset list).isOpener := by
  rw [isOpener_lineOf other other keeps.legible keeps.inLine,
    isOpener_lineOf offset offset legible inLine, keeps.lineClass]
  by_cases code : classOf list = .code
  · rw [endsInColon_written legible inLine code complete keeps
      (textOf_written legible inLine text) (isPlainCode_spaces _)]
  · simp [code]

end Line

end Bilingual
