import Bilingual.Proofs.LineLevels

/-!
# Formatted sources are well nested

However the lines of a source are indented, the formatter writes them at whole
levels, and no line deeper than the line before it allows.  The depth of the tracker
is always the deepest level that is expected next; this is what the induction over
the lines carries along.  The main statement is `standAtLevels_formatWith`.
-/

namespace Bilingual

/-- A line may stand as deep as is expected behind the line before it, or less deep. -/
def Placement.Admits (previous : Option Placement) (level : Nat) : Prop :=
  level ≤ Placement.deepest previous

namespace IndentTracker

variable (tracker : IndentTracker) {rules : FormatRules} {line : LogicalLine}

theorem depthOf_le_of_comment (comment : line.lineClass = .comment) :
    tracker.depthOf rules line ≤ if rules.reindentComments then tracker.depth else 0 := by
  simp only [depthOf, comment]
  split
  · exact Nat.min_le_left _ _
  · exact le_rfl

theorem depthOf_le_of_tracked (tracked : line.isTracked = true) :
    tracker.depthOf rules line ≤ tracker.depth := by
  rw [tracker.depthOf_tracked tracked]
  exact tracker.depth_observe_le _

end IndentTracker

section Written

variable {rules : FormatRules} {tracker : IndentTracker} {previous : Option Placement}

/-- Behind a line that was written the tracker is at the depth that is expected there. -/
theorem depth_written {list written : List Lexeme} {offset : Nat} (other : Nat)
    (legible : Legible list) (inLine : Lexeme.newline ∉ list) (complete : Complete list)
    (keeps : Keeps list written)
    (text : (formatLine rules tracker (lineOf offset offset list)).1 = textOf written)
    (tracked : (lineOf offset offset list).isTracked = true) :
    (formatLine rules tracker (lineOf offset offset list)).2.depth =
      Placement.deepest (some ⟨tracker.depthOf rules (lineOf offset offset list),
        (lineOf other other written).isOpener⟩) := by
  have placed : tracker.place? rules (lineOf offset offset list) = some _ :=
    place?_tracked legible inLine complete tracked
  rw [formatLine_snd, placed, isOpener_written offset other legible inLine complete keeps text]
  rfl

/-- Lines that were written stand at levels behind the tracked line `previous`, when the
tracker is at the depth that is expected there. -/
theorem standAtLevels_formatLines {lines written : List (List Lexeme)}
    (legible : LegibleLines lines) (keeps : List.Forall₂ Keeps lines written)
    (width : tracker.width = rules.levelWidth)
    (depth : lines ≠ [] → tracker.depth = Placement.deepest previous) (offset other : Nat)
    (texts : formatLines rules tracker (linesFrom offset lines) = written.map textOf) :
    StandAtLevels rules Placement.Admits previous (linesFrom other written) := by
  -- Nothing is known of the tracker behind the last line, which may end in an open literal.
  induction keeps generalizing tracker previous offset other with
  | nil => trivial
  | @cons list body lines written keepsLine rest induction =>
      obtain ⟨⟨legibleLine, inLine⟩, complete, others⟩ := legible
      rw [linesFrom, formatLines, List.map_cons, List.cons.injEq] at texts
      obtain ⟨text, texts⟩ := texts
      replace depth := depth (by simp)
      have indented : (lineOf other other body).IndentedBy _ :=
        indentedBy_written offset other legibleLine inLine text
      rw [width] at indented
      have widthBehind : (formatLine rules tracker (lineOf offset offset list)).2.width = _ :=
        tracker.width_formatLine.trans width
      have depthBehind : LogicalLine.isTracked _ = true → lines ≠ [] → _ := fun tracked more =>
        depth_written other legibleLine inLine (complete more) keepsLine text tracked
      rw [linesFrom, StandAtLevels, lineClass_written offset other legibleLine keepsLine]
      cases kind : (lineOf offset offset list).lineClass with
      | blank =>
          have empty : (lineOf other other body).text = [] := by
            rw [text_lineOf, ← text]
            simp [formatLine, kind]
          have untracked := LogicalLine.isTracked_eq_false_iff.2 (.inl kind)
          rw [formatLine_untracked untracked] at texts
          exact ⟨empty, induction others width (fun _ => depth) _ _ texts⟩
      | comment =>
          have bound : tracker.depthOf rules (lineOf offset offset list) ≤ _ :=
            tracker.depthOf_le_of_comment kind
          rw [depth] at bound
          have untracked := LogicalLine.isTracked_eq_false_iff.2 (.inr kind)
          rw [formatLine_untracked untracked] at texts
          exact ⟨⟨_, bound, indented⟩, induction others width (fun _ => depth) _ _ texts⟩
      | docstring =>
          have tracked := LogicalLine.isTracked_iff.2 (.inl kind)
          have bound : tracker.depthOf rules (lineOf offset offset list) ≤ _ :=
            tracker.depthOf_le_of_tracked tracked
          rw [depth] at bound
          exact ⟨_, bound, indented,
            induction others widthBehind (depthBehind tracked) _ _ texts⟩
      | code =>
          have tracked := LogicalLine.isTracked_iff.2 (.inr kind)
          have bound : tracker.depthOf rules (lineOf offset offset list) ≤ _ :=
            tracker.depthOf_le_of_tracked tracked
          rw [depth] at bound
          exact ⟨_, bound, indented,
            induction others widthBehind (depthBehind tracked) _ _ texts⟩

end Written

/-- The lines of a formatted source are well nested: the first tracked line stands at the
margin, every other one at most one level deeper than the one before and only deeper than
an opener, and comments not deeper than is expected behind the line before them. -/
theorem standAtLevels_formatWith (rules : FormatRules) (source : Text) :
    StandAtLevels rules Placement.Admits none (logicalLines (formatWith rules source)) := by
  obtain ⟨written, texts, keeps, lines⟩ := exists_formatWith rules source
  rw [logicalLines_eq_linesFrom] at texts
  rw [logicalLines_eq_linesFrom, lines]
  exact standAtLevels_formatLines (legibleLines_lexemeLines source) keeps rfl (fun _ => rfl) 0 0
    texts

end Bilingual
