import Bilingual.Proofs.LineBodies

/-!
# Where lines are written

The tracker puts a line at a depth that it reads off the indentation.  Where lines
stand at their levels, what it knows follows from the last one, and by
`Tracks.observe_iff` the next line stays where it stands exactly when it continues
that one.  When lines are tracked again as they were written, each stands at the
level of its depth.  The main statement is `Retraces.depthOf_iff`: the second depth
is the same as the first one, unless the line stands as deep as a line just before it
that opens a block.  The tracker never sees that the block was left again.
-/

namespace Bilingual

/-- Where a line that is tracked is written, and whether it opens a block. -/
structure Placement where
  depth : Nat
  opensBlock : Bool
  deriving DecidableEq, Repr

namespace Placement

/-- The depth that is expected behind the line. -/
def depthBehind (placement : Placement) : Nat :=
  if placement.opensBlock then placement.depth + 1 else placement.depth

/-- The deepest level that is expected behind the last tracked line. -/
def deepest : Option Placement → Nat
  | none => 0
  | some placement => placement.depthBehind

/-- A line may stand as deep as is expected behind the line before it, or less deep than
that line. -/
def Continues (previous : Option Placement) (level : Nat) : Prop :=
  level = deepest previous ∨ ∃ upper ∈ previous, level < upper.depth

/-- Of the levels that can be reached only one does not continue the line before: that of
the line itself when it opens a block. -/
theorem continues_iff {previous : Option Placement} {level : Nat}
    (reached : level ≤ deepest previous) :
    Continues previous level ↔
      ∀ upper ∈ previous, upper.opensBlock = true → level ≠ upper.depth := by
  cases previous with
  | none => exact iff_of_true (.inl (Nat.le_zero.1 reached)) (by simp)
  | some upper =>
      simp only [Continues, deepest, depthBehind, Option.mem_some_iff, exists_eq_left',
        forall_eq'] at reached ⊢
      cases opens : upper.opensBlock with
      | true =>
          simp only [opens, if_true, true_implies] at reached ⊢
          omega
      | false =>
          simp only [opens, Bool.false_eq_true, if_false, false_implies, iff_true] at reached ⊢
          omega

/-- The second line does not stand as deep as the first one when that opens a
block. -/
def Precedes (upper lower : Placement) : Prop :=
  upper.opensBlock = true → lower.depth ≠ upper.depth

instance (upper lower : Placement) : Decidable (upper.Precedes lower) :=
  inferInstanceAs (Decidable (_ → _))

end Placement

/-- The placement of a line.  Blank lines and comments are not tracked. -/
def IndentTracker.place? (tracker : IndentTracker) (rules : FormatRules)
    (line : LogicalLine) : Option Placement :=
  match line.lineClass with
  | .blank | .comment => none
  | .docstring => some ⟨tracker.depthOf rules line, false⟩
  | .code => some ⟨tracker.depthOf rules line, opensBlock (line.spacedCode rules)⟩

/-- The placements of the lines that are tracked, one after the other. -/
def placements (rules : FormatRules) (tracker : IndentTracker) :
    List LogicalLine → List Placement
  | [] => []
  | line :: lines =>
      (tracker.place? rules line).toList ++
        placements rules (formatLine rules tracker line).2 lines

/-- A line that is tracked leaves its placement and its indentation behind. -/
theorem formatLine_snd (rules : FormatRules) (tracker : IndentTracker) (line : LogicalLine) :
    (formatLine rules tracker line).2 =
      match tracker.place? rules line with
      | none => tracker
      | some placement =>
          { tracker with
            depth := placement.depthBehind
            previousLeading := some (tracker.leadingWidth line.text) } := by
  unfold formatLine IndentTracker.place? IndentTracker.depthOf
  cases line.lineClass with
  | blank => rfl
  | comment => rfl
  | docstring => rfl
  | code =>
      dsimp only [Placement.depthBehind]
      cases opensBlock (line.spacedCode rules) <;> rfl

theorem isChain_toList_append (previous here : Option Placement) (rest : List Placement) :
    (previous.toList ++ (here.toList ++ rest)).IsChain Placement.Precedes ↔
      (∀ upper ∈ previous, ∀ lower ∈ here, upper.Precedes lower) ∧
        ((here.or previous).toList ++ rest).IsChain Placement.Precedes := by
  cases previous with
  | none => cases here <;> simp
  | some upper => cases here <;> simp

/-! ### Indentation -/

/-- The characters of which indentation is made. -/
def isIndentation (character : Char) : Bool :=
  character = ' ' || character = '\t'

theorem isWhiteSpace_of_isIndentation {character : Char}
    (indents : isIndentation character = true) : isWhiteSpace character = true := by
  simp only [isIndentation, Bool.or_eq_true, decide_eq_true_eq] at indents
  rcases indents with rfl | rfl <;> decide

theorem takeWhile_isIndentation_spaces_append (count : Nat) {text : Text}
    (visible : text.head?.all (!isWhiteSpace ·) = true) :
    (Text.spaces count ++ text).takeWhile isIndentation = Text.spaces count := by
  have spaces : ∀ character ∈ Text.spaces count, isIndentation character = true := by
    intro character member
    rw [List.eq_of_mem_replicate member]
    decide
  rw [List.takeWhile_append_of_pos spaces]
  cases text with
  | nil => simp
  | cons character rest =>
      have other : ¬isIndentation character = true := by
        intro indents
        simp [isWhiteSpace_of_isIndentation indents] at visible
      rw [List.takeWhile_cons_of_neg other, List.append_nil]

namespace IndentTracker

theorem depth_observe_le (tracker : IndentTracker) (leading : Nat) :
    (tracker.observe leading).depth ≤ tracker.depth := by
  have shallower : ∀ narrower : Bool,
      (if narrower then tracker.depthAt leading else tracker.depth) ≤ tracker.depth := by
    intro narrower
    cases narrower with
    | false => exact le_rfl
    | true => exact Nat.min_le_left _ _
  exact shallower _

theorem leadingWidth_of_takeWhile (tracker : IndentTracker) {text : Text} {count : Nat}
    (indented : text.takeWhile isIndentation = Text.spaces count) :
    tracker.leadingWidth text = count := by
  induction text generalizing count with
  | nil =>
      cases count with
      | zero => rfl
      | succ count => contradiction
  | cons character rest induction =>
      rw [List.takeWhile_cons, isIndentation] at indented
      rw [leadingWidth]
      split
      · next indents =>
          rw [if_pos indents] at indented
          cases count with
          | zero => contradiction
          | succ count =>
              obtain ⟨rfl, others⟩ := List.cons.inj indented
              rw [induction others]
              exact Nat.add_comm 1 count
      · next other =>
          rw [if_neg other] at indented
          cases count with
          | zero => rfl
          | succ count => contradiction

theorem leadingWidth_spaces (tracker : IndentTracker) (count : Nat) {text : Text}
    (visible : text.head?.all (!isWhiteSpace ·) = true) :
    tracker.leadingWidth (Text.spaces count ++ text) = count :=
  tracker.leadingWidth_of_takeWhile (takeWhile_isIndentation_spaces_append count visible)

end IndentTracker

/-- The tracker has tracked lines that stand at their levels, of which `previous` is the
last. -/
structure Tracks (unit : Nat) (tracker : IndentTracker) (previous : Option Placement) :
    Prop where
  unit_pos : 0 < unit
  width : tracker.width = unit
  depth : tracker.depth = Placement.deepest previous
  column : tracker.previousLeading = previous.map (·.depth * unit)

namespace Tracks

variable {unit : Nat} {tracker : IndentTracker} {previous : Option Placement}

theorem div_width (tracks : Tracks unit tracker previous) (level : Nat) :
    level * unit / tracker.width = level := by
  rw [tracks.width, Nat.mul_div_cancel _ tracks.unit_pos]

/-- A line is put at the level at which it stands exactly when it continues the line
before it. -/
theorem observe_iff (tracks : Tracks unit tracker previous) (level : Nat) :
    (tracker.observe (level * unit)).depth = level ↔ Placement.Continues previous level := by
  have levels := tracks.div_width level
  have depth := tracks.depth
  have column := tracks.column
  cases previous with
  | none =>
      have observed : (tracker.observe (level * unit)).depth = 0 := by
        simp [IndentTracker.observe, column, depth, Placement.deepest]
      rw [observed]
      simp [Placement.Continues, Placement.deepest, eq_comm]
  | some upper =>
      have narrower : level * unit < upper.depth * unit ↔ level < upper.depth :=
        Nat.mul_lt_mul_right tracks.unit_pos
      have observed : (tracker.observe (level * unit)).depth =
          if level < upper.depth then min upper.depthBehind level else upper.depthBehind := by
        simp only [IndentTracker.observe, IndentTracker.depthAt, column, levels, depth,
          Option.map_some, Placement.deepest, narrower, decide_eq_true_eq]
      have deeper : upper.depth ≤ upper.depthBehind := by
        rw [Placement.depthBehind]
        split <;> omega
      rw [observed]
      simp only [Placement.Continues, Placement.deepest, Option.mem_some_iff, exists_eq_left']
      split <;> omega

end Tracks

/-- The second tracker has tracked lines as the first one has placed them, of which
`previous` is the last. -/
structure Retraces (first again : IndentTracker) (previous : Option Placement) : Prop where
  width_pos : 0 < first.width
  width : again.width = first.width
  depth : first.depth = (previous.map Placement.depthBehind).getD 0
  depth_again : again.depth = first.depth
  column : again.previousLeading = previous.map (·.depth * first.width)

namespace Retraces

variable {first again : IndentTracker} {previous : Option Placement} {rules : FormatRules}
  {line written : LogicalLine}

theorem start (width : Nat) : Retraces (.ofWidth width) (.ofWidth width) none :=
  ⟨Nat.lt_of_lt_of_le Nat.one_pos (Nat.le_max_right width 1), rfl, rfl, rfl, rfl⟩

theorem deepest_eq (previous : Option Placement) :
    Placement.deepest previous = (previous.map Placement.depthBehind).getD 0 := by
  cases previous <;> rfl

theorem tracks (retraces : Retraces first again previous) : Tracks first.width again previous where
  unit_pos := retraces.width_pos
  width := retraces.width
  depth := by rw [retraces.depth_again, retraces.depth, deepest_eq]
  column := retraces.column

/-- From the column at which a line was put, the tracker finds its depth again. -/
theorem observe_iff (retraces : Retraces first again previous) (leading : Nat) :
    (again.observe ((first.observe leading).depth * first.width)).depth =
        (first.observe leading).depth ↔
      ∀ upper ∈ previous, upper.opensBlock = true →
        (first.observe leading).depth ≠ upper.depth := by
  have reached := first.depth_observe_le leading
  rw [retraces.depth, ← deepest_eq] at reached
  rw [retraces.tracks.observe_iff, Placement.continues_iff reached]

/-- A line is put at its depth again, unless it stands as deep as the last line and
that opens a block. -/
theorem depthOf_iff (retraces : Retraces first again previous)
    (sameClass : written.lineClass = line.lineClass)
    (leading : line.lineClass ≠ .blank →
      again.leadingWidth written.text = first.depthOf rules line * first.width) :
    again.depthOf rules written = first.depthOf rules line ↔
      ∀ upper ∈ previous, ∀ lower ∈ first.place? rules line, upper.Precedes lower := by
  have tracked := retraces.observe_iff (first.leadingWidth line.text)
  unfold IndentTracker.place?
  unfold IndentTracker.depthOf at leading ⊢
  rw [sameClass]
  cases kind : line.lineClass with
  | blank => simp
  | comment =>
      simp only [kind] at leading ⊢
      rw [leading (by simp)]
      refine iff_of_true ?_ (by simp)
      cases rules.reindentComments with
      | false => rfl
      | true =>
          have shallower : first.depthAt (first.leadingWidth line.text) ≤ first.depth :=
            Nat.min_le_left _ _
          simp only [if_true, IndentTracker.commentDepth]
          rw [IndentTracker.depthAt, retraces.tracks.div_width, retraces.depth_again,
            Nat.min_eq_right shallower]
  | docstring =>
      simp only [kind] at leading ⊢
      rw [leading (by simp), tracked]
      simp [Placement.Precedes]
  | code =>
      simp only [kind] at leading ⊢
      rw [leading (by simp), tracked]
      simp [Placement.Precedes]

/-- Behind a line that is put at its depth again, the trackers still agree. -/
theorem step (retraces : Retraces first again previous)
    (sameClass : written.lineClass = line.lineClass)
    (leading : line.lineClass ≠ .blank →
      again.leadingWidth written.text = first.depthOf rules line * first.width)
    (depth : again.depthOf rules written = first.depthOf rules line)
    (code : line.lineClass = .code → written.spacedCode rules = line.spacedCode rules) :
    Retraces (formatLine rules first line).2 (formatLine rules again written).2
      ((first.place? rules line).or previous) := by
  have same : again.place? rules written = first.place? rules line := by
    unfold IndentTracker.place?
    rw [sameClass, depth]
    cases kind : line.lineClass with
    | code => simp only [code kind]
    | _ => rfl
  rw [formatLine_snd, formatLine_snd, same]
  cases here : first.place? rules line with
  | none => exact retraces
  | some placement =>
      have visible : line.lineClass ≠ .blank := by
        intro blank
        simp [IndentTracker.place?, blank] at here
      have placed : placement.depth = first.depthOf rules line := by
        unfold IndentTracker.place? at here
        cases kind : line.lineClass <;> simp_all <;> simp [← here]
      refine ⟨retraces.width_pos, retraces.width, rfl, rfl, ?_⟩
      simp [leading visible, placed]

end Retraces

end Bilingual
