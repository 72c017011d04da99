import Bilingual.Proofs.ParallelRuns
import Bilingual.Proofs.ScannedSeams

/-!
# Blocks that are formatted on their own

Behind a newline that is outside literals a text is scanned as if it stood alone.  It is
also written as if it stood alone when it starts at the left margin and the tracker
returns to the margin there.  The tracker does so unless a block is open and the last
tracked line stands at the margin itself; then a line at the margin is no dedent.  The
main statement is `formatWith_append_newline`.
-/

namespace Bilingual

/-! ### Lines at a seam -/

theorem linesFrom_append (offset : Nat) (first second : List (List Lexeme)) :
    ∃ behind, linesFrom offset (first ++ second) =
      linesFrom offset first ++ linesFrom behind second := by
  induction first generalizing offset with
  | nil => exact ⟨offset, rfl⟩
  | cons line lines induction =>
      obtain ⟨behind, same⟩ := induction (offset + Text.byteLength (textOf line) + 1)
      exact ⟨behind, by rw [List.cons_append, linesFrom, linesFrom, same, List.cons_append]⟩

theorem intercalate_append {separator : Text} {first second : List Text} (nonempty : first ≠ [])
    (nonemptySecond : second ≠ []) :
    separator.intercalate (first ++ second) =
      separator.intercalate first ++ separator ++ separator.intercalate second := by
  induction first with
  | nil => contradiction
  | cons text texts induction =>
      rw [List.cons_append, List.intercalate_cons_of_ne_nil (by simp [nonemptySecond])]
      cases texts with
      | nil => simp
      | cons next texts =>
          rw [induction (by simp), List.intercalate_cons_cons]
          simp only [List.append_assoc]

/-! ### The tracker at a seam -/

variable {rules : FormatRules}

/-- The tracker behind lines that have been written. -/
def trackerBehind (rules : FormatRules) (tracker : IndentTracker) :
    List LogicalLine → IndentTracker
  | [] => tracker
  | line :: lines => trackerBehind rules (formatLine rules tracker line).2 lines

theorem formatLines_append (tracker : IndentTracker) (first second : List LogicalLine) :
    formatLines rules tracker (first ++ second) =
      formatLines rules tracker first ++
        formatLines rules (trackerBehind rules tracker first) second := by
  induction first generalizing tracker with
  | nil => rfl
  | cons line lines induction =>
      rw [List.cons_append, formatLines, formatLines, trackerBehind, induction, List.cons_append]

/-- Where lines stand in the source does not matter for how they are written. -/
theorem formatLines_linesFrom (tracker : IndentTracker) {lines : List (List Lexeme)}
    (legible : LegibleLines lines) (offset other : Nat) :
    formatLines rules tracker (linesFrom offset lines) =
      formatLines rules tracker (linesFrom other lines) := by
  have alike : List.Forall₂ (fun line other => line.LooksAlike rules other ∧
      ∀ count, Text.spaces count ++ line.body rules = Text.spaces count ++ other.body rules)
      (linesFrom offset lines) (linesFrom other lines) := by
    induction lines generalizing offset other with
    | nil => exact .nil
    | cons line lines induction =>
        obtain ⟨⟨legibleLine, inLine⟩, -, others⟩ := legible
        refine .cons ⟨?_, fun count => ?_⟩ (induction others _ _)
        · exact looksAlike_lineOf _ _ _ _ legibleLine inLine legibleLine inLine rfl rfl rfl
        · rw [body_lineOf legibleLine inLine, body_lineOf legibleLine inLine]
  have same := forall₂_formatLines alike tracker
  rwa [List.forall₂_eq_eq_eq] at same

namespace IndentTracker

variable {tracker other : IndentTracker}

/-- A line at the left margin is put at the margin: no block is open, or the last tracked
line is indented. -/
def ReturnsToMargin (tracker : IndentTracker) : Prop :=
  tracker.depth = 0 ∨ ∃ leading ∈ tracker.previousLeading, 0 < leading

instance (tracker : IndentTracker) : Decidable tracker.ReturnsToMargin :=
  inferInstanceAs (Decidable (_ ∨ ∃ leading ∈ tracker.previousLeading, _))

theorem depth_observe_zero_iff : (tracker.observe 0).depth = 0 ↔ tracker.ReturnsToMargin := by
  unfold observe ReturnsToMargin depthAt
  cases tracker.previousLeading with
  | none => simp
  | some leading =>
      cases leading <;> simp

theorem observe_zero_of_returnsToMargin (returns : tracker.ReturnsToMargin)
    (otherReturns : other.ReturnsToMargin) (width : tracker.width = other.width) :
    tracker.observe 0 = other.observe 0 := by
  have depth := depth_observe_zero_iff.2 returns
  have otherDepth := depth_observe_zero_iff.2 otherReturns
  rw [observe] at depth otherDepth ⊢
  rw [observe]
  simp_all

end IndentTracker

/-- A tracked line is written by what the tracker becomes when it observes the line. -/
theorem formatLine_congr {tracker other : IndentTracker} {line : LogicalLine}
    (width : tracker.width = other.width) (tracked : line.isTracked = true)
    (same : tracker.observe (tracker.leadingWidth line.text) =
      other.observe (tracker.leadingWidth line.text)) :
    formatLine rules tracker line = formatLine rules other line := by
  have leading : other.leadingWidth line.text = tracker.leadingWidth line.text := by
    rw [IndentTracker.leadingWidth_eq_count, IndentTracker.leadingWidth_eq_count, width]
  rcases LogicalLine.isTracked_iff.1 tracked with kind | kind <;>
    simp only [formatLine, kind, leading, same]

/-- The first line that is not blank, if there is one, is tracked and stands at the left
margin. -/
def StartsAtMargin (rules : FormatRules) (lines : List LogicalLine) : Prop :=
  ∀ line ∈ lines.find? (·.lineClass ≠ .blank),
    line.isTracked = true ∧ line.leadingColumns rules = 0

instance (rules : FormatRules) (lines : List LogicalLine) :
    Decidable (StartsAtMargin rules lines) :=
  inferInstanceAs (Decidable (∀ line ∈ lines.find? _, _))

/-- Lines that start at the margin are written in the same way by all trackers that return
to the margin there. -/
theorem formatLines_congr {tracker other : IndentTracker} (returns : tracker.ReturnsToMargin)
    (otherReturns : other.ReturnsToMargin) (width : tracker.width = rules.levelWidth)
    (otherWidth : other.width = rules.levelWidth) {lines : List LogicalLine}
    (starts : StartsAtMargin rules lines) :
    formatLines rules tracker lines = formatLines rules other lines := by
  induction lines with
  | nil => rfl
  | cons line lines induction =>
      rw [formatLines, formatLines]
      by_cases blank : line.lineClass = .blank
      · rw [StartsAtMargin, List.find?_cons_of_neg (by simp [blank])] at starts
        have untracked := LogicalLine.isTracked_eq_false_iff.2 (.inl blank)
        rw [formatLine_untracked untracked, formatLine_untracked untracked, induction starts]
        simp only [formatLine, blank]
      · obtain ⟨tracked, leading⟩ := starts line (List.find?_cons_of_pos (by simp [blank]))
        have sameWidth := width.trans otherWidth.symm
        have observed :=
          IndentTracker.observe_zero_of_returnsToMargin returns otherReturns sameWidth
        rw [← leading, ← IndentTracker.leadingWidth_eq_leadingColumns width] at observed
        rw [formatLine_congr sameWidth tracked observed]

theorem width_trackerBehind (tracker : IndentTracker) (lines : List LogicalLine) :
    (trackerBehind rules tracker lines).width = tracker.width := by
  induction lines generalizing tracker with
  | nil => rfl
  | cons line lines induction => rw [trackerBehind, induction, IndentTracker.width_formatLine]

theorem formatLines_ne_nil {tracker : IndentTracker} {lines : List LogicalLine}
    (nonempty : lines ≠ []) : formatLines rules tracker lines ≠ [] := by
  cases lines with
  | nil => contradiction
  | cons line lines => simp [formatLines]

theorem logicalLines_ne_nil (source : Text) : logicalLines source ≠ [] := by
  rw [logicalLines, logicalLinesFrom_eq_cutMarks]
  exact cutMarks_ne_nil _ _

/-- A text that starts at the left margin, behind a newline outside literals where the
tracker returns to the margin, is formatted on its own. -/
theorem formatWith_append_newline (rules : FormatRules) {first second : Text}
    (closes : ClosesLiterals (first ++ ['\n']))
    (starts : StartsAtMargin rules (logicalLines second))
    (returns : (trackerBehind rules (.ofWidth rules.indentWidth)
      (logicalLines first)).ReturnsToMargin) :
    formatWith rules (first ++ '\n' :: second) =
      formatWith rules first ++ '\n' :: formatWith rules second := by
  have legible := legibleLines_lexemeLines second
  obtain ⟨behind, lines⟩ := linesFrom_append 0 (lexemeLines first) (lexemeLines second)
  have fresh : (IndentTracker.ofWidth rules.indentWidth).ReturnsToMargin := .inl rfl
  rw [formatWith, logicalLines_eq_linesFrom, lexemeLines_append_newline closes, lines,
    formatLines_append, formatLines_linesFrom _ legible _ 0, ← logicalLines_eq_linesFrom,
    ← logicalLines_eq_linesFrom,
    formatLines_congr returns fresh (width_trackerBehind _ _) rfl starts,
    intercalate_append (formatLines_ne_nil (logicalLines_ne_nil first))
      (formatLines_ne_nil (logicalLines_ne_nil second))]
  simp [formatWith]

/-- A block is still open, but the last line stands deeper than the next one. -/
theorem formatWith_append_newline_openBlock :
    let first := "if x:\n  '''a\n'''\n  while y: # z".toList
    let second := "\n\u00a0\ndef f():\n  pass".toList
    let rules : FormatRules := { indentWidth := 2 }
    formatWith rules (first ++ '\n' :: second) =
      formatWith rules first ++ '\n' :: formatWith rules second := by
  intro first second rules
  have closes : ClosesLiterals (first ++ ['\n']) := by decide +kernel
  have starts : StartsAtMargin rules (logicalLines second) := by decide +kernel
  have returns : (trackerBehind rules (.ofWidth rules.indentWidth)
      (logicalLines first)).ReturnsToMargin := by decide +kernel
  exact formatWith_append_newline rules closes starts returns

/-- Behind an opener at the margin the next line is written deeper. -/
example : format ("if x:".toList ++ '\n' :: "y".toList) ≠
    format "if x:".toList ++ '\n' :: format "y".toList := by
  decide +kernel

end Bilingual
