import Bilingual.Proofs.NestedOutput
import Bilingual.Proofs.TidyLines

/-!
# Sources that formatting leaves alone

Formatting leaves a source alone exactly when each of its lines stands at a level that
continues the line before it, and is tidy.  The main statement is `formatWith_eq_self_iff`.
-/

namespace Bilingual

namespace Tracks

variable {rules : FormatRules} {tracker : IndentTracker} {previous : Option Placement}
  {line : LogicalLine} {level : Nat}

theorem start (rules : FormatRules) :
    Tracks rules.levelWidth (.ofWidth rules.indentWidth) none :=
  ⟨rules.levelWidth_pos, rfl, rfl, rfl⟩

theorem depthOf_tracked_iff (tracks : Tracks rules.levelWidth tracker previous)
    (tracked : line.isTracked = true)
    (leading : tracker.leadingWidth line.text = level * rules.levelWidth) :
    tracker.depthOf rules line = level ↔ Placement.Continues previous level := by
  rw [tracker.depthOf_tracked tracked, leading, tracks.observe_iff]

theorem depthOf_comment (tracks : Tracks rules.levelWidth tracker previous)
    (comment : line.lineClass = .comment)
    (leading : tracker.leadingWidth line.text = level * rules.levelWidth)
    (bound : level ≤ if rules.reindentComments then Placement.deepest previous else 0) :
    tracker.depthOf rules line = level := by
  simp only [IndentTracker.depthOf, comment, leading, IndentTracker.commentDepth,
    IndentTracker.depthAt, tracks.div_width, tracks.depth]
  split at bound
  · next reindents => rw [if_pos reindents, Nat.min_eq_right bound]
  · next stays => rw [if_neg stays, Nat.le_zero.1 bound]

/-- Behind a tracked line that stands at its depth the tracker knows that line. -/
theorem step {list : List Lexeme} {offset : Nat}
    (tracks : Tracks rules.levelWidth tracker previous) (legible : Legible list)
    (inLine : Lexeme.newline ∉ list) (complete : Complete list)
    (tracked : (lineOf offset offset list).isTracked = true)
    (leading : tracker.leadingWidth (lineOf offset offset list).text =
      tracker.depthOf rules (lineOf offset offset list) * rules.levelWidth) :
    Tracks rules.levelWidth (formatLine rules tracker (lineOf offset offset list)).2
      (some ⟨tracker.depthOf rules (lineOf offset offset list),
        (lineOf offset offset list).isOpener⟩) := by
  have placed : tracker.place? rules (lineOf offset offset list) = some _ :=
    place?_tracked legible inLine complete tracked
  rw [formatLine_snd, placed]
  exact ⟨tracks.unit_pos, tracks.width, rfl, congrArg some leading⟩

end Tracks

/-! ### Lines that are written as they stand -/

section Lines

variable {rules : FormatRules} {tracker : IndentTracker} {previous : Option Placement}

/-- A line that is not blank is written as it stands exactly when it stands at its depth
and is tidy. -/
theorem formatLine_eq_iff {list : List Lexeme} (tracks : Tracks rules.levelWidth tracker previous)
    (offset : Nat) (legible : Legible list) (inLine : Lexeme.newline ∉ list)
    (shown : (lineOf offset offset list).lineClass ≠ .blank) :
    (formatLine rules tracker (lineOf offset offset list)).1 = textOf list ↔
      (lineOf offset offset list).IndentedBy
          (tracker.depthOf rules (lineOf offset offset list) * rules.levelWidth) ∧
        (lineOf offset offset list).IsTidy rules := by
  rw [lineClass_lineOf offset offset legible] at shown
  rw [formatLine_fst, body_lineOf legible inLine, IndentTracker.indentation, tracks.width, eq_comm]
  exact textOf_eq_written_iff offset offset _ legible inLine shown

theorem indentedBy_comment_iff {line : LogicalLine}
    (tracks : Tracks rules.levelWidth tracker previous) (comment : line.lineClass = .comment) :
    line.IndentedBy (tracker.depthOf rules line * rules.levelWidth) ↔
      ∃ level ≤ if rules.reindentComments then Placement.deepest previous else 0,
        line.IndentedBy (level * rules.levelWidth) := by
  constructor
  · intro indented
    have bound : tracker.depthOf rules line ≤ _ := tracker.depthOf_le_of_comment comment
    rw [tracks.depth] at bound
    exact ⟨_, bound, indented⟩
  · rintro ⟨level, bound, indented⟩
    rwa [tracks.depthOf_comment comment (indented.leadingWidth tracker) bound]

theorem indentedBy_tracked_iff {line : LogicalLine}
    (tracks : Tracks rules.levelWidth tracker previous) (tracked : line.isTracked = true)
    (stands : Nat → Prop) :
    line.IndentedBy (tracker.depthOf rules line * rules.levelWidth) ∧
        stands (tracker.depthOf rules line) ↔
      ∃ level, Placement.Continues previous level ∧
        line.IndentedBy (level * rules.levelWidth) ∧ stands level := by
  constructor
  · rintro ⟨indented, others⟩
    have continues := (tracks.depthOf_tracked_iff tracked (indented.leadingWidth tracker)).1 rfl
    exact ⟨_, continues, indented, others⟩
  · rintro ⟨level, continues, indented, others⟩
    obtain rfl :=
      (tracks.depthOf_tracked_iff tracked (indented.leadingWidth tracker)).2 continues
    exact ⟨indented, others⟩

/-- Lines behind the tracked line `previous` are written as they stand exactly when they
stand at levels that continue each other, and each of them is tidy. -/
theorem formatLines_eq_iff {lines : List (List Lexeme)} (legible : LegibleLines lines)
    (tracks : lines ≠ [] → Tracks rules.levelWidth tracker previous) (offset : Nat) :
    formatLines rules tracker (linesFrom offset lines) = lines.map textOf ↔
      StandAtLevels rules Placement.Continues previous (linesFrom offset lines) ∧
        ∀ line ∈ linesFrom offset lines, line.IsTidy rules := by
  -- The tracker knows the lines in front as long as these are written as they stand, so the
  -- condition on the others is looked at only behind such a line.
  induction lines generalizing tracker previous offset with
  | nil => simp [formatLines, linesFrom, StandAtLevels]
  | cons list lines induction =>
      obtain ⟨⟨legibleLine, inLine⟩, complete, others⟩ := legible
      replace tracks := tracks (by simp)
      have head : _ ≠ LineClass.blank → _ := formatLine_eq_iff tracks offset legibleLine inLine
      rw [linesFrom, formatLines, List.map_cons, List.cons.injEq, List.forall_mem_cons,
        StandAtLevels]
      have behind : (lineOf offset offset list).isTracked = true →
          (lineOf offset offset list).IndentedBy
              (tracker.depthOf rules (lineOf offset offset list) * rules.levelWidth) →
            lines ≠ [] → Tracks rules.levelWidth _ _ :=
        fun tracked indented more => tracks.step legibleLine inLine (complete more) tracked
          (indented.leadingWidth tracker)
      cases kind : (lineOf offset offset list).lineClass with
      | blank =>
          have empty : (formatLine rules tracker (lineOf offset offset list)).1 = textOf list ↔
              (lineOf offset offset list).text = [] := by
            rw [text_lineOf]
            simp [formatLine, kind, eq_comm]
          have tidy : (lineOf offset offset list).IsTidy rules := by
            simp [LogicalLine.IsTidy, kind]
          have untracked := LogicalLine.isTracked_eq_false_iff.2 (.inl kind)
          rw [formatLine_untracked untracked, induction others (fun _ => tracks), empty,
            and_iff_right tidy, and_assoc]
      | comment =>
          have untracked := LogicalLine.isTracked_eq_false_iff.2 (.inr kind)
          rw [formatLine_untracked untracked, induction others (fun _ => tracks),
            head (by simp [kind]), ← indentedBy_comment_iff tracks kind, and_and_and_comm]
      | docstring =>
          have tracked := LogicalLine.isTracked_iff.2 (.inl kind)
          dsimp only
          rw [head (by simp [kind]), ← indentedBy_tracked_iff tracks tracked, ← and_and_and_comm]
          exact and_congr_right fun stands => induction others (behind tracked stands.1) _
      | code =>
          have tracked := LogicalLine.isTracked_iff.2 (.inr kind)
          dsimp only
          rw [head (by simp [kind]), ← indentedBy_tracked_iff tracks tracked, ← and_and_and_comm]
          exact and_congr_right fun stands => induction others (behind tracked stands.1) _

/-- Formatting leaves a source alone exactly when its lines stand at levels that continue
each other, and the white space in each line is what the formatter writes there. -/
theorem formatWith_eq_self_iff (rules : FormatRules) (source : Text) :
    formatWith rules source = source ↔
      StandAtLevels rules Placement.Continues none (logicalLines source) ∧
        ∀ line ∈ logicalLines source, line.IsTidy rules := by
  have written := textOf_lexemeLines_formatWith rules source
  rw [logicalLines_eq_linesFrom] at written ⊢
  rw [← formatLines_eq_iff (legibleLines_lexemeLines source) (fun _ => .start rules), ← written]
  constructor
  · intro same
    rw [same]
  · intro same
    rw [← intercalate_map_textOf_lexemeLines (formatWith rules source), same,
      intercalate_map_textOf_lexemeLines]

end Lines

end Bilingual
