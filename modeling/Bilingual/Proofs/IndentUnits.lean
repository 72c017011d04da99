import Bilingual.Proofs.FixedSources
import Bilingual.Proofs.LineLayouts
import Mathlib.Data.List.Range

/-!
# When indentation is exact

A source is structured when each line stands at the level of its block.  The formatter
recomputes levels from columns, with its own width for a level.  It finds all of them
again if that is the unit by which the source is indented.  For every other unit there is
a source, a flight of stairs with one step back, of which a line is moved to another
block: `standAt_stairs` tells to which one.  The main statement is `standAt_structured_iff`.
-/

namespace Bilingual

/-- The second line stands where it can behind the first one: one level deeper if that
opens a block, and not deeper otherwise. -/
def Placement.LeadsTo (upper lower : Placement) : Prop :=
  if upper.opensBlock then lower.depth = upper.depth + 1 else lower.depth ≤ upper.depth

/-- The tracked lines of a source stand at the levels of their blocks, where a level takes
`unit` spaces. -/
structure Structured (unit : Nat) (source : Text) (levels : List Nat) : Prop where
  stand : StandAt unit (trackedLines source) levels
  first : ∀ level ∈ levels.head?, level = 0
  steps : (layout (trackedLines source) levels).IsChain Placement.LeadsTo

/-! ### The same unit -/

theorem Placement.LeadsTo.continues {upper lower : Placement} (leads : upper.LeadsTo lower) :
    Placement.Continues (some upper) lower.depth := by
  rw [Placement.LeadsTo] at leads
  rw [Placement.Continues, Placement.deepest, Placement.depthBehind]
  cases opens : upper.opensBlock with
  | true =>
      rw [opens, if_pos rfl] at leads
      exact .inl leads
  | false =>
      rw [opens, if_neg Bool.false_ne_true] at leads
      exact (Nat.eq_or_lt_of_le leads).imp_right fun less => ⟨upper, rfl, less⟩

section SameUnit

variable {rules : FormatRules} {tracker : IndentTracker} {previous : Option Placement}

theorem Tracks.pass {placement : Placement} (tracks : Tracks rules.levelWidth tracker previous)
    (continues : Placement.Continues previous placement.depth) :
    Tracks rules.levelWidth (tracker.pass rules.levelWidth placement) (some placement) := by
  have depth := (tracks.observe_iff placement.depth).2 continues
  rw [IndentTracker.pass]
  cases opens : placement.opensBlock with
  | true =>
      refine ⟨tracks.unit_pos, tracks.width, ?_, rfl⟩
      simpa [IndentTracker.openBlock, Placement.deepest, Placement.depthBehind, opens] using depth
  | false =>
      refine ⟨tracks.unit_pos, tracks.width, ?_, rfl⟩
      simpa [Placement.deepest, Placement.depthBehind, opens] using depth

theorem Tracks.depthsAlong {places : List Placement}
    (tracks : Tracks rules.levelWidth tracker previous)
    (continues : ∀ placement ∈ places.head?, Placement.Continues previous placement.depth)
    (steps : places.IsChain Placement.LeadsTo) :
    tracker.depthsAlong rules.levelWidth places = places.map Placement.depth := by
  induction places generalizing tracker previous with
  | nil => rfl
  | cons placement others induction =>
      obtain ⟨next, steps⟩ := List.isChain_cons.1 steps
      have first := continues placement rfl
      rw [IndentTracker.depthsAlong, (tracks.observe_iff placement.depth).2 first, List.map_cons,
        induction (tracks.pass first) (fun lower head => (next lower head).continues) steps]

theorem map_depth_layout {unit : Nat} {lines : List LogicalLine} {levels : List Nat}
    (stand : StandAt unit lines levels) : (layout lines levels).map Placement.depth = levels := by
  induction stand with
  | nil => rfl
  | cons first rest induction => exact congrArg (_ :: ·) induction

theorem Structured.depthsAlong {source : Text} {levels : List Nat}
    (structured : Structured rules.levelWidth source levels) :
    (IndentTracker.ofWidth rules.indentWidth).depthsAlong rules.levelWidth
      (layout (trackedLines source) levels) = levels := by
  have depths := map_depth_layout structured.stand
  rw [(Tracks.start rules).depthsAlong ?_ structured.steps, depths]
  intro placement head
  have level : placement.depth ∈ levels.head? := by
    rw [← depths, List.head?_map]
    exact Option.mem_map_of_mem _ head
  exact .inl (structured.first _ level)

end SameUnit

/-! ### Another unit -/

/-- Openers one below the other, then a line at the bottom, and one that is a step back
up. -/
def stairs (top : Nat) : List Placement :=
  (List.range (top + 1)).map (fun level => ⟨level, true⟩) ++ [⟨top + 1, false⟩, ⟨top, false⟩]

theorem isChain_stairs (top : Nat) : (stairs top).IsChain Placement.LeadsTo := by
  refine List.isChain_append.2 ⟨?_, ?_, ?_⟩
  · rw [List.isChain_map, List.isChain_range_succ]
    exact fun level _ => rfl
  · rw [List.isChain_cons_cons]
    exact ⟨Nat.le_succ top, .singleton _⟩
  · intro upper last lower head
    obtain rfl : ⟨top, true⟩ = upper := by simpa [List.range_succ] using last
    obtain rfl : ⟨top + 1, false⟩ = lower := by simpa using head
    rfl

/-- The tracker has passed so many openers, each deeper than the one before. -/
structure HasClimbed (width unit count : Nat) (tracker : IndentTracker) : Prop where
  width : tracker.width = width
  depth : tracker.depth = count
  column : ∀ leading ∈ tracker.previousLeading, leading ≤ count * unit

namespace HasClimbed

variable {width unit count : Nat} {tracker : IndentTracker}

theorem observe (climbed : HasClimbed width unit count tracker) :
    tracker.observe (count * unit) =
      { tracker with previousLeading := some (count * unit) } := by
  have column := climbed.column
  unfold IndentTracker.observe
  cases previous : tracker.previousLeading with
  | none => rfl
  | some leading =>
      rw [previous] at column
      have notNarrower : ¬count * unit < leading := Nat.not_lt.2 (column leading rfl)
      simp [notNarrower]

theorem step (climbed : HasClimbed width unit count tracker) :
    HasClimbed width unit (count + 1) (tracker.pass unit ⟨count, true⟩) := by
  rw [IndentTracker.pass, climbed.observe]
  refine ⟨climbed.width, congrArg (· + 1) climbed.depth, ?_⟩
  intro leading reached
  obtain rfl : count * unit = leading := by simpa [IndentTracker.openBlock] using reached
  exact Nat.mul_le_mul_right unit (Nat.le_succ count)

theorem climb (width unit count : Nat) :
    HasClimbed (max width 1) unit count
      (((List.range count).map fun level => ⟨level, true⟩).foldl (IndentTracker.pass unit)
        (.ofWidth width)) := by
  induction count with
  | zero => exact ⟨rfl, rfl, by simp [IndentTracker.ofWidth]⟩
  | succ count induction =>
      rw [List.range_succ, List.map_append, List.foldl_append]
      exact induction.step

theorem depthsAlong (climbed : HasClimbed width unit (count + 1) tracker) (positive : 0 < unit) :
    tracker.depthsAlong unit [⟨count + 1, false⟩, ⟨count, false⟩] =
      [count + 1, min (count + 1) (count * unit / width)] := by
  have narrower : count * unit < (count + 1) * unit :=
    Nat.mul_lt_mul_of_pos_right (Nat.lt_succ_self count) positive
  simp only [IndentTracker.depthsAlong, IndentTracker.pass, climbed.observe]
  simp [IndentTracker.observe, IndentTracker.depthAt, climbed.depth, climbed.width, narrower]

end HasClimbed

theorem depthsAlong_openers (width unit count : Nat) :
    (IndentTracker.ofWidth width).depthsAlong unit
      ((List.range count).map fun level => ⟨level, true⟩) = List.range count := by
  induction count with
  | zero => rfl
  | succ count induction =>
      have climbed := HasClimbed.climb width unit count
      rw [List.range_succ, List.map_append, IndentTracker.depthsAlong_append, induction]
      simp [IndentTracker.depthsAlong, climbed.observe, climbed.depth]

/-- The line that is a step back up is taken for one that stands as deep as its column is
wide. -/
theorem depthsAlong_stairs (width unit top : Nat) (positive : 0 < unit) :
    (IndentTracker.ofWidth width).depthsAlong unit (stairs top) =
      List.range (top + 1) ++ [top + 1, min (top + 1) (top * unit / max width 1)] := by
  have climbed := HasClimbed.climb width unit (top + 1)
  rw [stairs, IndentTracker.depthsAlong_append, climbed.depthsAlong positive,
    depthsAlong_openers]

theorem map_depth_stairs (top : Nat) :
    (stairs top).map Placement.depth = List.range (top + 1) ++ [top + 1, top] := by
  simp [stairs, Function.comp_def]

/-- A line of code that stands at a level, as an opener or not. -/
def stairText (unit : Nat) (placement : Placement) : Text :=
  Text.spaces (placement.depth * unit) ++ if placement.opensBlock then ['x', ':'] else ['x']

/-- A source of such lines. -/
def sourceAlong (unit : Nat) (places : List Placement) : Text :=
  ['\n'].intercalate (places.map (stairText unit))

section Stairs

variable (unit offset : Nat) (placement : Placement)

theorem legible_stairText : Legible [.code (stairText unit placement)] := by
  have plain : (stairText unit placement).all isPlainCode = true := by
    rw [stairText, List.all_append, isPlainCode_spaces]
    cases placement.opensBlock <;> decide
  have nonempty : stairText unit placement ≠ [] := by
    rw [stairText]
    cases placement.opensBlock <;> simp
  have alone : consCode (stairText unit placement) [] = [.code (stairText unit placement)] := by
    simp [consCode, nonempty]
  rw [← alone]
  exact legible_consCode trivial plain

theorem classOf_stairText : classOf [.code (stairText unit placement)] = .code := by
  apply classOf_cons_code
  rw [stairText, Text.isBlank_append, Text.isBlank_spaces]
  cases placement.opensBlock <;> decide

theorem isTracked_stairText :
    (lineOf offset offset [.code (stairText unit placement)]).isTracked = true := by
  rw [LogicalLine.isTracked, lineClass_lineOf _ _ (legible_stairText unit placement),
    classOf_stairText]
  rfl

theorem indentation_stairText :
    (lineOf offset offset [.code (stairText unit placement)]).indentation =
      Text.spaces (placement.depth * unit) := by
  apply LogicalLine.IndentedBy.indentation
  rw [LogicalLine.IndentedBy, LogicalLine.margin, text_lineOf, textOf_cons, textOf_nil,
    List.append_nil]
  apply Text.takeWhile_of_isBlank_append (Text.isBlank_spaces _)
  cases placement.opensBlock <;> decide

theorem complete_stairText : Complete [.code (stairText unit placement)] := by
  intro last lastOf
  obtain rfl : .code (stairText unit placement) = last := by simpa using lastOf
  rfl

theorem isOpener_stairText :
    (lineOf offset offset [.code (stairText unit placement)]).isOpener =
      placement.opensBlock := by
  have legible := legible_stairText unit placement
  have inLine : Lexeme.newline ∉ [.code (stairText unit placement)] := by simp
  have pieces : (piecesOf [.code (stairText unit placement)]).flatMap Piece.text =
      stairText unit placement := by
    simpa [Lexeme.comment?, Lexeme.text] using (textOf_eq_flatMap_piecesOf legible inLine).symm
  have trimmed : Text.trimEnd (stairText unit placement) = stairText unit placement := by
    rw [Text.trimEnd_eq_self_iff, stairText]
    cases placement.opensBlock <;> simp <;> decide
  rw [isOpener_lineOf offset offset legible inLine, classOf_stairText,
    ← opensBlock_trimEnd legible (complete_stairText unit placement), pieces, trimmed, stairText]
  cases placement.opensBlock <;> simp [opensBlock]

end Stairs

/-- The lexemes of the lines of such a source. -/
def stairLines (unit : Nat) (places : List Placement) : List (List Lexeme) :=
  places.map fun placement => [.code (stairText unit placement)]

theorem legibleLines_stairLines (unit : Nat) (places : List Placement) :
    LegibleLines (stairLines unit places) := by
  induction places with
  | nil => trivial
  | cons placement others induction =>
      exact ⟨⟨legible_stairText unit placement, by simp⟩,
        fun _ => complete_stairText unit placement, induction⟩

theorem trackedLines_sourceAlong (unit : Nat) {places : List Placement}
    (nonempty : places ≠ []) :
    trackedLines (sourceAlong unit places) = linesFrom 0 (stairLines unit places) := by
  have source : sourceAlong unit places =
      ['\n'].intercalate ((stairLines unit places).map textOf) := by
    rw [sourceAlong, stairLines, List.map_map]
    congr 2
    funext placement
    simp [Lexeme.text]
  have lines : lexemeLines (sourceAlong unit places) = stairLines unit places := by
    rw [source]
    exact lexemeLines_intercalate (by simpa [stairLines] using nonempty)
      (legibleLines_stairLines unit places)
  rw [trackedLines, logicalLines_eq_linesFrom, lines, List.filter_eq_self]
  generalize 0 = offset
  clear nonempty source lines
  induction places generalizing offset with
  | nil => simp [stairLines, linesFrom]
  | cons placement others induction =>
      exact List.forall_mem_cons.2 ⟨isTracked_stairText unit offset placement, induction _⟩

theorem standAt_stairLines (unit offset : Nat) (places : List Placement) :
    StandAt unit (linesFrom offset (stairLines unit places)) (places.map Placement.depth) := by
  induction places generalizing offset with
  | nil => exact .nil
  | cons placement others induction =>
      exact .cons (indentation_stairText unit offset placement) (induction _)

theorem layout_stairLines (unit offset : Nat) (places : List Placement) :
    layout (linesFrom offset (stairLines unit places)) (places.map Placement.depth) = places := by
  induction places generalizing offset with
  | nil => rfl
  | cons placement others induction =>
      have opens := isOpener_stairText unit offset placement
      rw [stairLines, List.map_cons, linesFrom, List.map_cons, layout, List.zipWith_cons_cons,
        opens]
      exact congrArg _ (induction _)

/-- The stairs are structured by every unit. -/
theorem structured_stairs (unit top : Nat) :
    Structured unit (sourceAlong unit (stairs top)) ((stairs top).map Placement.depth) := by
  have lines := @trackedLines_sourceAlong unit (stairs top) (by simp [stairs])
  refine ⟨?_, ?_, ?_⟩
  · rw [lines]
    exact standAt_stairLines unit 0 (stairs top)
  · intro level head
    simpa [stairs, List.range_succ_eq_map, eq_comm] using head
  · rw [lines, layout_stairLines]
    exact isChain_stairs top

/-- Of the stairs the formatter moves the last line only, to the level that its column makes
up in widths of the formatter. -/
theorem standAt_stairs (rules : FormatRules) {unit : Nat} (positive : 1 ≤ unit) (top : Nat) :
    StandAt rules.levelWidth (trackedLines (formatWith rules (sourceAlong unit (stairs top))))
      (List.range (top + 1) ++ [top + 1, min (top + 1) (top * unit / rules.levelWidth)]) := by
  rw [standAt_formatWith_iff rules (structured_stairs unit top).stand,
    trackedLines_sourceAlong unit (by simp [stairs]), layout_stairLines]
  exact depthsAlong_stairs rules.indentWidth unit top positive

/-- Formatting puts every line of every structured source at the level of its block exactly
when the source is indented by the unit of the formatter. -/
theorem standAt_structured_iff (rules : FormatRules) (unit : Nat) (positive : 1 ≤ unit)
    (width : 1 ≤ rules.indentWidth) :
    (∀ source levels, Structured unit source levels →
        StandAt rules.indentWidth (trackedLines (formatWith rules source)) levels) ↔
      unit = rules.indentWidth := by
  have levelWidth : rules.levelWidth = rules.indentWidth := Nat.max_eq_left width
  rw [← levelWidth]
  constructor
  · intro found
    -- A step back to the level of the width stands at as many columns as the width takes
    -- `unit` times, so the formatter takes it for the level `unit`.
    have structured := structured_stairs unit rules.levelWidth
    have same := StandAt.eq rules.levelWidth_pos (found _ _ structured)
      (standAt_stairs rules positive rules.levelWidth)
    rw [map_depth_stairs, Nat.mul_div_cancel_left _ rules.levelWidth_pos] at same
    have reached : rules.levelWidth = min (rules.levelWidth + 1) unit := by
      simpa using congrArg List.getLast? same
    omega
  · rintro rfl source levels structured
    exact (standAt_formatWith_iff rules structured.stand levels).2 structured.depthsAlong

/-- Stairs of five openers that are indented by two.  The standard rules, which indent by
four, move their last line from the level 4 to the level 2. -/
theorem exists_structured_moved :
    1 ≤ 2 ∧ 1 ≤ FormatRules.standard.indentWidth ∧
      sourceAlong 2 (stairs 4) =
        "x:\n  x:\n    x:\n      x:\n        x:\n          x\n        x".toList ∧
      Structured 2 (sourceAlong 2 (stairs 4)) [0, 1, 2, 3, 4, 5, 4] ∧
      StandAt FormatRules.standard.indentWidth
        (trackedLines (formatWith .standard (sourceAlong 2 (stairs 4)))) [0, 1, 2, 3, 4, 5, 2] ∧
      ¬∀ source levels, Structured 2 source levels →
        StandAt FormatRules.standard.indentWidth
          (trackedLines (formatWith .standard source)) levels := by
  refine ⟨by decide, by decide, by decide, structured_stairs 2 4,
    standAt_stairs .standard (by decide) 4, fun found => ?_⟩
  have same := (standAt_structured_iff .standard 2 (by decide) (by decide)).1 found
  revert same
  decide

end Bilingual
