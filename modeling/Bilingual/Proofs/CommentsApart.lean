import Bilingual.Proofs.CodeWithoutComments

/-!
# Comments and blank lines stand apart

What is written of the other lines does not depend on blank lines and on lines with nothing
but a comment, and what is written of code does not depend on the comment behind it.  A line
that is not tracked leaves the tracker as it is, so a run over some lines is a run over the
tracked ones among them.  The main statement is `forall₂_emitted`, about two runs.
-/

namespace Bilingual

namespace LogicalLine

/-- The text of a line without its comment. -/
def codeText (line : LogicalLine) : Text :=
  (line.spans.filter (·.kind ≠ .comment)).flatMap Span.text

/-- The lines have the same text, or they are lines of code which leave no literal open and
differ in what stands behind the code. -/
def SameButComment (first second : LogicalLine) : Prop :=
  first.text = second.text ∨
    first.lineClass = .code ∧ second.lineClass = .code ∧ ClosesLiterals first.text ∧
      Text.trimEnd first.codeText = Text.trimEnd second.codeText

instance (first second : LogicalLine) : Decidable (first.SameButComment second) :=
  inferInstanceAs (Decidable (_ ∨ _))

end LogicalLine

/-- The tracked ones among the lines, each with what is written of it. -/
def emitted (rules : FormatRules) (tracker : IndentTracker) (lines : List LogicalLine) :
    List (LogicalLine × Text) :=
  (lines.zip (formatLines rules tracker lines)).filter (·.1.isTracked)

/-- Two lines of code are written with the same indentation and the same code, each with its
own comment behind it.  Of other lines the same is written. -/
def EmittedAlike (rules : FormatRules) (first second : LogicalLine × Text) : Prop :=
  first.1.lineClass = second.1.lineClass ∧
    if first.1.lineClass = .code then
      ∃ columns code, first.1.spacedCode rules = code ∧ second.1.spacedCode rules = code ∧
        first.2 = Text.spaces columns ++ code ++ trailingComment code first.1.comment? ∧
        second.2 = Text.spaces columns ++ code ++ trailingComment code second.1.comment?
    else first.2 = second.2

/-! ### One run -/

section Run

variable {rules : FormatRules} {tracker : IndentTracker} {line : LogicalLine}

theorem emitted_cons_untracked (untracked : line.isTracked = false) (lines : List LogicalLine) :
    emitted rules tracker (line :: lines) = emitted rules tracker lines := by
  rw [emitted, formatLines, List.zip_cons_cons, List.filter_cons_of_neg (by simp [untracked]),
    formatLine_untracked untracked]
  rfl

theorem emitted_cons_tracked (tracked : line.isTracked = true) (lines : List LogicalLine) :
    emitted rules tracker (line :: lines) =
      (line, (formatLine rules tracker line).1) ::
        emitted rules (formatLine rules tracker line).2 lines := by
  rw [emitted, formatLines, List.zip_cons_cons, List.filter_cons_of_pos (by simp [tracked])]
  rfl

/-- Blank lines and comments leave no trace in what is written of other lines. -/
theorem emitted_filter (lines : List LogicalLine) :
    emitted rules tracker (lines.filter LogicalLine.isTracked) = emitted rules tracker lines := by
  induction lines generalizing tracker with
  | nil => rfl
  | cons line lines induction =>
      cases tracked : line.isTracked with
      | true =>
          rw [List.filter_cons_of_pos tracked, emitted_cons_tracked tracked,
            emitted_cons_tracked tracked, induction]
      | false =>
          rw [List.filter_cons_of_neg (by simp [tracked]), emitted_cons_untracked tracked,
            induction]

end Run

/-! ### Two lines -/

theorem codeText_marks (lexeme : Lexeme) (start : Nat) :
    (((lexeme.marks start).map Prod.fst).filter (·.kind ≠ .comment)).flatMap Span.text =
      textOf (withoutComment [lexeme]) := by
  cases lexeme with
  | literal whole =>
      have kept : ∀ span ∈ ((Lexeme.literal whole).marks start).map Prod.fst,
          decide (span.kind ≠ .comment) = true := by
        intro span member
        obtain ⟨mark, marked, rfl⟩ := List.mem_map.1 member
        have other := Scanner.spanKind_mode_ne_comment whole.form
        rcases kind_of_mem_literalMarks marked with kind | kind <;> simp [kind, other]
      rw [List.filter_eq_self.2 kept, flatMap_text_marks]
      simp [withoutComment, Lexeme.comment?]
  | _ => simp [Lexeme.marks, withoutComment, Lexeme.comment?, Lexeme.text]

theorem codeText_lineOf (offset start : Nat) (list : List Lexeme) :
    (lineOf offset start list).codeText = textOf (withoutComment list) := by
  rw [LogicalLine.codeText, lineOf]
  induction list generalizing start with
  | nil => rfl
  | cons lexeme others induction =>
      rw [spansFrom, marksFrom, List.map_append, List.filter_append, List.flatMap_append,
        codeText_marks, ← spansFrom, induction, ← textOf_append, withoutComment, withoutComment,
        ← List.filter_append]
      rfl

/-- The lines are treated alike, and their code is the same. -/
structure WrittenSame (rules : FormatRules) (first second : LogicalLine) : Prop where
  looksAlike : first.LooksAlike rules second
  spacedCode : first.spacedCode rules = second.spacedCode rules
  body : first.lineClass ≠ .code → first.body rules = second.body rules

theorem LogicalLine.SameButComment.writtenSame {first second : LogicalLine}
    (same : first.SameButComment second) {source other : Text}
    (member : first ∈ logicalLines source) (memberOther : second ∈ logicalLines other)
    (rules : FormatRules) : WrittenSame rules first second := by
  obtain ⟨offset, list, legible, inLine, rfl⟩ := exists_lineOf member
  obtain ⟨offset', other, legibleOther, inLineOther, rfl⟩ := exists_lineOf memberOther
  have code : (lineOf offset offset list).spacedCode rules = codeOf rules list :=
    spacedCode_eq legible inLine offset offset
  have codeOther : (lineOf offset' offset' other).spacedCode rules = codeOf rules other :=
    spacedCode_eq legibleOther inLineOther offset' offset'
  rcases same with text | ⟨kind, kindOther, closes, text⟩
  · rw [text_lineOf, text_lineOf] at text
    obtain rfl := legible.eq_of_textOf legibleOther text
    exact ⟨looksAlike_lineOf _ _ _ _ legible inLine legible inLine rfl rfl rfl,
      code.trans codeOther.symm, fun _ => by
        rw [body_lineOf legible inLine, body_lineOf legible inLine]⟩
  · have complete : Complete list := by
      have complete := closes.complete
      rwa [text_lineOf, lexemes_textOf legible] at complete
    rw [codeText_lineOf, codeText_lineOf] at text
    have sameCode : codeOf rules list = codeOf rules other :=
      codeOf_congr_withoutComment legible inLine complete legibleOther inLineOther text rules
    have sameSpaced := code.trans (sameCode.trans codeOther.symm)
    refine ⟨⟨kind.trans kindOther.symm, ?_, by rw [sameSpaced]⟩, sameSpaced, absurd kind⟩
    rw [lineClass_lineOf _ _ legible] at kind
    rw [lineClass_lineOf _ _ legibleOther] at kindOther
    rw [LogicalLine.margin, LogicalLine.margin, text_lineOf, text_lineOf,
      takeWhile_withoutComment legible inLine kind, text,
      takeWhile_withoutComment legibleOther inLineOther kindOther]

/-! ### Two runs -/

theorem emittedAlike_formatLine {rules : FormatRules} {first second : LogicalLine}
    (written : WrittenSame rules first second) (tracker : IndentTracker) :
    EmittedAlike rules (first, (formatLine rules tracker first).1)
      (second, (formatLine rules tracker second).1) := by
  have depth := tracker.depthOf_congr written.looksAlike
  have sameClass := written.looksAlike.lineClass
  refine ⟨sameClass, ?_⟩
  dsimp only
  rw [formatLine_fst, formatLine_fst, depth]
  split
  · next code =>
      refine ⟨tracker.depthOf rules second * tracker.width, second.spacedCode rules,
        written.spacedCode, rfl, ?_, ?_⟩
      · rw [LogicalLine.body, code, written.spacedCode, List.append_assoc]
        rfl
      · rw [LogicalLine.body, ← sameClass, code, List.append_assoc]
        rfl
  · next other => rw [written.body other]

theorem forall₂_emitted_tracked {rules : FormatRules} {lines others : List LogicalLine}
    (written : List.Forall₂ (WrittenSame rules) lines others)
    (tracked : ∀ line ∈ lines, line.isTracked = true) (tracker : IndentTracker) :
    List.Forall₂ (EmittedAlike rules) (emitted rules tracker lines)
      (emitted rules tracker others) := by
  induction written generalizing tracker with
  | nil => exact .nil
  | @cons line other lines others first rest induction =>
      obtain ⟨trackedLine, trackedLines⟩ := List.forall_mem_cons.1 tracked
      have trackedOther : other.isTracked = true := by
        rwa [LogicalLine.isTracked, ← first.looksAlike.lineClass]
      rw [emitted_cons_tracked trackedLine, emitted_cons_tracked trackedOther,
        ← tracker.formatLine_snd_congr first.looksAlike]
      exact .cons (emittedAlike_formatLine first tracker) (induction trackedLines _)

/-- Insert or delete blank lines and comments among the lines of some sources, and change the
comments behind lines of code: of every other line the same indentation and code is written,
and of those that start with a docstring the same text. -/
theorem forall₂_emitted (rules : FormatRules) (tracker : IndentTracker)
    {first second : List LogicalLine}
    (genuine : ∀ line ∈ first ++ second, ∃ source, line ∈ logicalLines source)
    (same : List.Forall₂ LogicalLine.SameButComment (first.filter LogicalLine.isTracked)
      (second.filter LogicalLine.isTracked)) :
    List.Forall₂ (EmittedAlike rules) (emitted rules tracker first)
      (emitted rules tracker second) := by
  have written : List.Forall₂ (WrittenSame rules) (first.filter LogicalLine.isTracked)
      (second.filter LogicalLine.isTracked) := by
    have genuineFirst : ∀ line ∈ first.filter LogicalLine.isTracked,
        ∃ source, line ∈ logicalLines source := fun line member =>
      genuine line (List.mem_append_left _ (List.mem_of_mem_filter member))
    have genuineSecond : ∀ line ∈ second.filter LogicalLine.isTracked,
        ∃ source, line ∈ logicalLines source := fun line member =>
      genuine line (List.mem_append_right _ (List.mem_of_mem_filter member))
    have half := ((List.forall₂_and_left _ _).2 ⟨genuineSecond, same.flip⟩).flip
    refine ((List.forall₂_and_left _ _).2 ⟨genuineFirst, half⟩).imp ?_
    rintro line other ⟨⟨source, member⟩, ⟨otherSource, memberOther⟩, alike⟩
    exact LogicalLine.SameButComment.writtenSame alike member memberOther rules
  rw [← emitted_filter first, ← emitted_filter second]
  exact forall₂_emitted_tracked written (fun line member => (List.mem_filter.1 member).2) tracker

/-- A condition and a string with a comment sign in it. -/
def bareLines : List LogicalLine :=
  logicalLines "if x:\n  y = '#' # z".toList

/-- The same with comments that look like code, and one that is indented too little. -/
def commentedLines : List LogicalLine :=
  logicalLines "# if:\nif x: # def\n\n # d:\n  y = '#'".toList

/-- A comment opens no block, and a comment sign in a string starts none. -/
theorem forall₂_emitted_commentedLines :
    (∀ line ∈ bareLines ++ commentedLines, ∃ source, line ∈ logicalLines source) ∧
      List.Forall₂ LogicalLine.SameButComment (bareLines.filter LogicalLine.isTracked)
        (commentedLines.filter LogicalLine.isTracked) ∧
      ∀ rules tracker, List.Forall₂ (EmittedAlike rules) (emitted rules tracker bareLines)
        (emitted rules tracker commentedLines) := by
  have genuine : ∀ line ∈ bareLines ++ commentedLines, ∃ source, line ∈ logicalLines source := by
    intro line member
    rcases List.mem_append.1 member with member | member
    · exact ⟨_, member⟩
    · exact ⟨_, member⟩
  have same : List.Forall₂ LogicalLine.SameButComment (bareLines.filter LogicalLine.isTracked)
      (commentedLines.filter LogicalLine.isTracked) := by
    decide +kernel
  exact ⟨genuine, same, fun rules tracker => forall₂_emitted rules tracker genuine same⟩

end Bilingual
