import Bilingual.Proofs.LineLevels

/-!
# The layout of a source

Where the formatter puts the tracked lines of a source depends on little: the columns at
which they stand, and which of them open a block.  Where every line stands at whole units
this is a list of levels and openers, the layout of the source.  The main statement is
`standAt_formatWith_iff`, which computes the levels of the written lines from the layout.
-/

namespace Bilingual

/-- The lines of a source that are neither blank nor just comments. -/
def trackedLines (source : Text) : List LogicalLine :=
  (logicalLines source).filter LogicalLine.isTracked

/-- The lines are indented by their levels, where a level takes `unit` spaces. -/
def StandAt (unit : Nat) : List LogicalLine → List Nat → Prop :=
  List.Forall₂ fun line level => line.indentation = Text.spaces (level * unit)

/-- The levels of lines, each with whether the line opens a block. -/
def layout (lines : List LogicalLine) (levels : List Nat) : List Placement :=
  List.zipWith (fun line level => ⟨level, line.isOpener⟩) lines levels

namespace IndentTracker

/-- Tracks a line that stands at its level. -/
def pass (unit : Nat) (tracker : IndentTracker) (placement : Placement) : IndentTracker :=
  let tracked := tracker.observe (placement.depth * unit)
  if placement.opensBlock then tracked.openBlock else tracked

/-- The depths at which lines of a layout are put. -/
def depthsAlong (unit : Nat) (tracker : IndentTracker) : List Placement → List Nat
  | [] => []
  | placement :: others =>
      (tracker.observe (placement.depth * unit)).depth ::
        (tracker.pass unit placement).depthsAlong unit others

theorem depthsAlong_append (unit : Nat) (tracker : IndentTracker)
    (first second : List Placement) :
    tracker.depthsAlong unit (first ++ second) =
      tracker.depthsAlong unit first ++
        (first.foldl (pass unit) tracker).depthsAlong unit second := by
  induction first generalizing tracker with
  | nil => rfl
  | cons placement others induction =>
      rw [List.cons_append, depthsAlong, depthsAlong, induction]
      rfl

end IndentTracker

section Lines

variable {rules : FormatRules} {tracker : IndentTracker}

theorem depthOf_indented {line : LogicalLine} {unit level : Nat} (tracked : line.isTracked = true)
    (indented : line.indentation = Text.spaces (level * unit)) :
    tracker.depthOf rules line = (tracker.observe (level * unit)).depth := by
  rw [tracker.depthOf_tracked tracked,
    tracker.leadingWidth_of_takeWhile indented]

/-- Behind a tracked line that stands at its level the tracker has passed that level. -/
theorem formatLine_tracked {list : List Lexeme} {offset unit level : Nat}
    (legible : Legible list) (inLine : Lexeme.newline ∉ list) (complete : Complete list)
    (tracked : (lineOf offset offset list).isTracked = true)
    (indented : (lineOf offset offset list).indentation = Text.spaces (level * unit)) :
    (formatLine rules tracker (lineOf offset offset list)).2 =
      tracker.pass unit ⟨level, (lineOf offset offset list).isOpener⟩ := by
  have placed : tracker.place? rules (lineOf offset offset list) = some _ :=
    place?_tracked legible inLine complete tracked
  rw [formatLine_snd, placed, tracker.leadingWidth_of_takeWhile indented,
    depthOf_indented tracked indented, IndentTracker.pass]
  cases (lineOf offset offset list).isOpener <;> rfl

/-- Lines that stand at levels are written at the depths along their layout. -/
theorem standAt_formatLines {lines written : List (List Lexeme)} (legible : LegibleLines lines)
    (keeps : List.Forall₂ Keeps lines written) (width : tracker.width = rules.levelWidth)
    {offset unit : Nat} (other : Nat)
    (texts : formatLines rules tracker (linesFrom offset lines) = written.map textOf)
    {levels : List Nat}
    (stand : StandAt unit ((linesFrom offset lines).filter LogicalLine.isTracked) levels) :
    StandAt rules.levelWidth ((linesFrom other written).filter LogicalLine.isTracked)
      (tracker.depthsAlong unit
        (layout ((linesFrom offset lines).filter LogicalLine.isTracked) levels)) := by
  induction keeps generalizing tracker offset other levels with
  | nil => exact .nil
  | @cons list body lines written keepsLine rest induction =>
      obtain ⟨⟨legibleLine, inLine⟩, complete, others⟩ := legible
      rw [linesFrom, formatLines, List.map_cons, List.cons.injEq] at texts
      obtain ⟨text, texts⟩ := texts
      have same : (lineOf other other body).isTracked = (lineOf offset offset list).isTracked := by
        rw [LogicalLine.isTracked, lineClass_written offset other legibleLine keepsLine]
        rfl
      have indentedBody := (indentedBy_written offset other legibleLine inLine text).indentation
      have widthBehind : (formatLine rules tracker (lineOf offset offset list)).2.width = _ :=
        tracker.width_formatLine.trans width
      have behind := fun {levels : List Nat} => @induction _ others widthBehind _
        (other + Text.byteLength (textOf body) + 1) texts levels
      rw [linesFrom, List.filter_cons] at stand
      rw [linesFrom, linesFrom, List.filter_cons, List.filter_cons, same]
      cases tracked : (lineOf offset offset list).isTracked with
      | false =>
          rw [tracked] at stand
          rw [formatLine_untracked tracked] at behind
          exact behind stand
      | true =>
          rw [tracked] at stand
          cases stand with
          | @cons _ level _ levels indented stand =>
              rw [width, depthOf_indented tracked indented] at indentedBody
              refine .cons indentedBody ?_
              by_cases more : lines = []
              · subst more
                cases rest
                cases stand
                exact .nil
              · rw [formatLine_tracked legibleLine inLine (complete more) tracked indented]
                  at behind
                exact behind stand

end Lines

theorem StandAt.eq {width : Nat} (positive : 0 < width) {lines : List LogicalLine}
    {levels others : List Nat} (stand : StandAt width lines levels)
    (standOthers : StandAt width lines others) : levels = others := by
  induction stand generalizing others with
  | nil =>
      cases standOthers
      rfl
  | cons first rest induction =>
      cases standOthers with
      | cons firstOther restOthers =>
          have same := congrArg List.length (first.symm.trans firstOther)
          rw [Text.spaces, Text.spaces, List.length_replicate, List.length_replicate,
            Nat.mul_left_inj positive.ne'] at same
          rw [same, induction restOthers]

/-- Where the tracked lines of a source are written follows from its layout: they stand at
the depths along it, and at no other levels. -/
theorem standAt_formatWith_iff (rules : FormatRules) {unit : Nat} {source : Text}
    {levels : List Nat} (stand : StandAt unit (trackedLines source) levels) (others : List Nat) :
    StandAt rules.levelWidth (trackedLines (formatWith rules source)) others ↔
      (IndentTracker.ofWidth rules.indentWidth).depthsAlong unit
        (layout (trackedLines source) levels) = others := by
  obtain ⟨written, texts, keeps, lines⟩ := exists_formatWith rules source
  rw [trackedLines, logicalLines_eq_linesFrom] at stand
  rw [logicalLines_eq_linesFrom] at texts
  have found : StandAt rules.levelWidth ((linesFrom 0 written).filter LogicalLine.isTracked) _ :=
    standAt_formatLines (legibleLines_lexemeLines source) keeps rfl 0 texts stand
  rw [trackedLines, trackedLines, logicalLines_eq_linesFrom, logicalLines_eq_linesFrom, lines]
  constructor
  · exact found.eq rules.levelWidth_pos
  · rintro rfl
    exact found

end Bilingual
