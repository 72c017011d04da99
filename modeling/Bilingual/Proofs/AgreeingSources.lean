import Bilingual.Proofs.FreeGaps
import Bilingual.Proofs.KeptTexts
import Bilingual.Proofs.ParallelRuns
import Mathlib.Tactic.MkIffOfInductiveProp

/-!
# Sources that differ in white space

White space matters where it indents a line, inside of literals and comments, and in the
gaps between pieces that leave it open whether a space is written.  The main statement is
`formatWith_eq_iff`: sources that agree in all else are written as the same text exactly
when there is white space in the same ones of these gaps.
-/

namespace Bilingual

namespace LogicalLine

/-- The lines agree in all that is written of them but the white space between pieces of
code. -/
@[mk_iff]
structure AgreesWith (rules : FormatRules) (first second : LogicalLine) : Prop where
  lineClass : first.lineClass = second.lineClass
  leadingColumns : first.lineClass ≠ .blank →
    first.leadingColumns rules = second.leadingColumns rules
  commentLine : first.lineClass = .comment → Text.trim first.text = Text.trim second.text
  docstringLine : first.lineClass = .docstring → first.keptText = second.keptText
  pieces : first.lineClass = .code →
    (Piece.ofSpans first.spans).filter (!·.isBlank) =
      (Piece.ofSpans second.spans).filter (!·.isBlank)
  commentBehind : first.lineClass = .code →
    first.comment?.map Text.trimEnd = second.comment?.map Text.trimEnd

/-- If the first line is one of code, the lines have white space in the same gaps, except
where the pieces decide alone. -/
def GapsAgree (first second : LogicalLine) : Prop :=
  first.lineClass = .code →
    Piece.GapsAgree none (Piece.placed [] (Piece.ofSpans first.spans))
      (Piece.placed [] (Piece.ofSpans second.spans))

instance (rules : FormatRules) (first second : LogicalLine) :
    Decidable (first.AgreesWith rules second) :=
  decidable_of_iff _ (agreesWith_iff rules first second).symm

instance (first second : LogicalLine) : Decidable (first.GapsAgree second) :=
  inferInstanceAs (Decidable (_ → _))

end LogicalLine

/-! ### One line -/

theorem trailingComment_congr {code other : Text} {comment otherComment : Option Text}
    (empty : code.isEmpty = other.isEmpty)
    (comments : comment.map Text.trimEnd = otherComment.map Text.trimEnd) :
    trailingComment code comment = trailingComment other otherComment := by
  rw [← trailingComment_map_trimEnd, comments, trailingComment_map_trimEnd]
  cases otherComment with
  | none => rfl
  | some text => simp only [trailingComment, empty]

section Line

variable {rules : FormatRules} {first second : LogicalLine} {source other : Text}
  {tracker : IndentTracker}

theorem isSound_of_mem_ofSpans (member : first ∈ logicalLines source) :
    ∀ piece ∈ Piece.ofSpans first.spans, piece.IsSound := by
  obtain ⟨offset, list, legible, inLine, rfl⟩ := exists_lineOf member
  have pieces : Piece.ofSpans (lineOf offset offset list).spans = piecesOf list :=
    ofSpans_spansFrom legible inLine offset
  rw [pieces]
  exact isSound_of_mem_piecesOf legible

namespace LogicalLine.AgreesWith

theorem leadingWidth (agrees : first.AgreesWith rules second) (shown : first.lineClass ≠ .blank)
    (width : tracker.width = rules.levelWidth) :
    tracker.leadingWidth first.text = tracker.leadingWidth second.text := by
  rw [IndentTracker.leadingWidth_eq_leadingColumns width,
    IndentTracker.leadingWidth_eq_leadingColumns width, agrees.leadingColumns shown]

/-- The code ends alike, whatever the gaps are. -/
theorem getLast?_spacedCode (agrees : first.AgreesWith rules second)
    (member : first ∈ logicalLines source) (memberOther : second ∈ logicalLines other)
    (code : first.lineClass = .code) :
    (first.spacedCode rules).getLast? = (second.spacedCode rules).getLast? := by
  rw [spacedCode, spacedCode, Piece.getLast?_joinPieces (isSound_of_mem_ofSpans member),
    Piece.getLast?_joinPieces (isSound_of_mem_ofSpans memberOther), Piece.lastVisible?,
    Piece.lastVisible?, agrees.pieces code]

theorem depthOf (agrees : first.AgreesWith rules second)
    (width : tracker.width = rules.levelWidth) :
    tracker.depthOf rules first = tracker.depthOf rules second := by
  rw [IndentTracker.depthOf, IndentTracker.depthOf, ← agrees.lineClass]
  cases kind : first.lineClass with
  | blank => rfl
  | comment | docstring | code => simp only [agrees.leadingWidth (by simp [kind]) width]

/-- Lines that agree are tracked in the same way. -/
theorem formatLine_snd (agrees : first.AgreesWith rules second)
    (member : first ∈ logicalLines source) (memberOther : second ∈ logicalLines other)
    (width : tracker.width = rules.levelWidth) :
    (formatLine rules tracker first).2 = (formatLine rules tracker second).2 := by
  have depth := agrees.depthOf width
  rw [Bilingual.formatLine_snd, Bilingual.formatLine_snd, IndentTracker.place?,
    IndentTracker.place?, ← agrees.lineClass]
  cases kind : first.lineClass with
  | blank => rfl
  | comment => rfl
  | docstring => simp only [depth, agrees.leadingWidth (by simp [kind]) width]
  | code =>
      have opens : opensBlock (first.spacedCode rules) = opensBlock (second.spacedCode rules) := by
        rw [opensBlock, opensBlock, agrees.getLast?_spacedCode member memberOther kind]
      simp only [depth, opens, agrees.leadingWidth (by simp [kind]) width]

/-- Lines that agree are written as the same text exactly when their gaps agree. -/
theorem body_eq_iff (agrees : first.AgreesWith rules second)
    (member : first ∈ logicalLines source) (memberOther : second ∈ logicalLines other) :
    first.body rules = second.body rules ↔ first.GapsAgree second := by
  rw [body, body, ← agrees.lineClass, GapsAgree]
  cases kind : first.lineClass with
  | blank => simp
  | comment => simp [agrees.commentLine kind]
  | docstring =>
      rw [content_eq_keptText member, content_eq_keptText memberOther, agrees.docstringLine kind]
      simp
  | code =>
      have last := agrees.getLast?_spacedCode member memberOther kind
      have empty : (first.spacedCode rules).isEmpty = (second.spacedCode rules).isEmpty := by
        rw [Bool.eq_iff_iff, List.isEmpty_iff, List.isEmpty_iff, ← List.getLast?_eq_none_iff, last,
          List.getLast?_eq_none_iff]
      have sameCode : first.spacedCode rules = second.spacedCode rules ↔ _ :=
        joinPieces_eq_iff (isSound_of_mem_ofSpans member) (isSound_of_mem_ofSpans memberOther)
          (agrees.pieces kind)
      dsimp only
      rw [trailingComment_congr empty (agrees.commentBehind kind), List.append_cancel_right_eq,
        sameCode]
      simp

end LogicalLine.AgreesWith

end Line

/-! ### All lines -/

section Lines

variable {rules : FormatRules} {source other : Text}

theorem formatLines_congr_iff {lines others : List LogicalLine}
    (agree : List.Forall₂ (LogicalLine.AgreesWith rules) lines others)
    (members : ∀ line ∈ lines, line ∈ logicalLines source)
    (membersOther : ∀ line ∈ others, line ∈ logicalLines other) {tracker : IndentTracker}
    (width : tracker.width = rules.levelWidth) :
    formatLines rules tracker lines = formatLines rules tracker others ↔
      List.Forall₂ LogicalLine.GapsAgree lines others := by
  induction agree generalizing tracker with
  | nil => exact iff_of_true rfl .nil
  | @cons line otherLine lines others first rest induction =>
      obtain ⟨member, members⟩ := List.forall_mem_cons.1 members
      obtain ⟨memberOther, membersOther⟩ := List.forall_mem_cons.1 membersOther
      rw [formatLines, formatLines, List.cons.injEq, List.forall₂_cons, formatLine_fst,
        formatLine_fst, first.depthOf width, List.append_cancel_left_eq,
        first.body_eq_iff member memberOther, first.formatLine_snd member memberOther width,
        induction members membersOther (tracker.width_formatLine.trans width)]

/-- The lines that were written are those of the result. -/
theorem formatWith_eq_formatWith_iff :
    formatWith rules source = formatWith rules other ↔
      formatLines rules (.ofWidth rules.indentWidth) (logicalLines source) =
        formatLines rules (.ofWidth rules.indentWidth) (logicalLines other) := by
  constructor
  · intro same
    have lines := textOf_lexemeLines_formatWith rules source
    rw [same, textOf_lexemeLines_formatWith] at lines
    exact lines.symm
  · intro same
    rw [formatWith, formatWith, same]

end Lines

/-- Where the lines of two sources agree, they are written as the same text exactly when
there is white space in the same gaps, those apart in which the pieces decide alone. -/
theorem formatWith_eq_iff (rules : FormatRules) {first second : Text}
    (agree : List.Forall₂ (LogicalLine.AgreesWith rules) (logicalLines first)
      (logicalLines second)) :
    formatWith rules first = formatWith rules second ↔
      List.Forall₂ LogicalLine.GapsAgree (logicalLines first) (logicalLines second) := by
  rw [formatWith_eq_formatWith_iff]
  exact formatLines_congr_iff agree (fun _ => id) (fun _ => id) rfl

/-- Lines of all classes with tabs, a space that does not break, and a carriage return. -/
def looselySpaced : Text :=
  "if\t(x , y ) : # a \n\tf (a)\u00a0( b)=1\r\n    '''d ''' \n  # c\n \t".toList

/-- The same with few spaces. -/
def closelySpaced : Text :=
  "if (x,y):# a\n    f(a)(b) = 1\n\t'''d '''\n  # c \n".toList

/-- The space behind `if` is needed, and no other one in front of a parenthesis. -/
theorem formatWith_closelySpaced :
    List.Forall₂ (LogicalLine.AgreesWith .standard) (logicalLines looselySpaced)
        (logicalLines closelySpaced) ∧
      List.Forall₂ LogicalLine.GapsAgree (logicalLines looselySpaced)
        (logicalLines closelySpaced) ∧
      formatWith .standard looselySpaced = formatWith .standard closelySpaced := by
  have agree : List.Forall₂ (LogicalLine.AgreesWith .standard) (logicalLines looselySpaced)
      (logicalLines closelySpaced) := by
    decide +kernel
  have gaps : List.Forall₂ LogicalLine.GapsAgree (logicalLines looselySpaced)
      (logicalLines closelySpaced) := by
    decide +kernel
  exact ⟨agree, gaps, (formatWith_eq_iff .standard agree).2 gaps⟩

end Bilingual
