import Bilingual.Proofs.PieceRanges
import Mathlib.Data.List.Nodup

/-!
# Where lines are cut

A source is cut into lines at the newlines outside literals, and at no others.  Whether a
newline is outside is asked of the scanner behind the step that gives it out; the answer
is that of a scan which ends right behind the newline, by `newlineAt_of_mem_steps`.  The
main statement is `logicalLines_cut`.
-/

namespace Bilingual

/-- A newline stands at a byte position, and `inLiteral` tells whether the scan of the
source up to this newline ends inside a literal. -/
def NewlineAt (source : Text) (position : Nat) (inLiteral : Bool) : Prop :=
  ∃ before after, before ++ '\n' :: after = source ∧ Text.byteLength before = position ∧
    (Scanner.ofText (before ++ ['\n'])).final.inLiteral = inLiteral

/-- The spans of a line fill it, its newlines are those inside literals, and all that is
cut out of it when it is written can be cut. -/
structure LogicalLine.IsSound (source : Text) (line : LogicalLine) : Prop where
  tiles : Tiles line.offset line.stop line.spans
  within : ∀ span ∈ line.spans, line.offset ≤ span.start ∧ span.stop ≤ line.stop
  slices : ∀ span ∈ line.spans, line.slice? span.start span.stop = some span.text
  pieces : line.slicedPieces? = some (Piece.ofSpans line.spans)
  newlines : ∀ span ∈ line.spans, span.kind = .newline → NewlineAt source span.start true
  rescanned : line.spans = (scan line.text).map (Span.shift line.offset)

variable {source : Text} {position start : Nat} {list : List Lexeme} {mark : Span × Bool}
  {step : Span × Scanner}

/-! ### Newlines among the lexemes -/

theorem text_of_mem_literalMarks {kind : SpanKind} {closed : Bool} {text : Text}
    (other : kind ≠ .newline) (member : mark ∈ literalMarks kind closed start text)
    (newline : mark.1.kind = .newline) : mark.1.text = ['\n'] := by
  fun_induction literalMarks kind closed start text with
  | case1 start text line shape =>
      rw [kind_of_mem_lineMarks member] at newline
      contradiction
  | case2 start text line character rest shape span induction =>
      rcases List.mem_append.1 member with first | others
      · rw [kind_of_mem_lineMarks first] at newline
        contradiction
      · rcases List.mem_cons.1 others with rfl | others
        · exact congrArg (fun character => [character]) (firstLine_append_newline shape).1
        · exact induction others

theorem text_of_mem_marks {lexeme : Lexeme} (member : mark ∈ lexeme.marks start)
    (newline : mark.1.kind = .newline) : mark.1.text = ['\n'] := by
  cases lexeme with
  | literal whole =>
      exact text_of_mem_literalMarks (Scanner.spanKind_mode_ne_newline whole.form) member newline
  | newline => rw [List.mem_singleton.1 member]
  | _ =>
      rw [List.mem_singleton.1 member] at newline
      contradiction

theorem text_of_mem_marksFrom (member : mark ∈ marksFrom start list)
    (newline : mark.1.kind = .newline) : mark.1.text = ['\n'] := by
  induction list generalizing start with
  | nil => contradiction
  | cons lexeme others induction =>
      rcases List.mem_append.1 member with first | later
      · exact text_of_mem_marks first newline
      · exact induction later

/-- The newlines that do not go on inside a literal are lexemes of their own. -/
theorem exists_endingMark_iff :
    (∃ mark ∈ marksFrom start list,
        mark.1.kind = .newline ∧ mark.2 = false ∧ mark.1.start = position) ↔
      ∃ before after, list = before ++ .newline :: after ∧
        start + Text.byteLength (textOf before) = position := by
  constructor
  · rintro ⟨mark, member, newline, ends, rfl⟩
    induction list generalizing start with
    | nil => contradiction
    | cons lexeme others induction =>
        rcases List.mem_append.1 member with first | later
        · by_cases outside : lexeme = .newline
          · subst outside
            rw [List.mem_singleton.1 first]
            exact ⟨[], others, rfl, rfl⟩
          · have goesOn := goesOn_of_mem_marks outside first newline
            simp [goesOn] at ends
        · obtain ⟨before, after, rfl, position⟩ := induction later
          refine ⟨lexeme :: before, after, rfl, ?_⟩
          rw [textOf_cons, Text.byteLength_append, ← Nat.add_assoc, position]
  · rintro ⟨before, after, rfl, rfl⟩
    refine ⟨(⟨.newline, start + Text.byteLength (textOf before), ['\n']⟩, false), ?_, rfl, rfl, rfl⟩
    simp [marksFrom_append, marksFrom, Lexeme.marks]

theorem exists_endingStep_iff :
    (∃ step ∈ (Scanner.ofText source).steps,
        endsLogicalLine step = true ∧ step.1.start = position) ↔
      ∃ before after, lexemes source = before ++ .newline :: after ∧
        Text.byteLength (textOf before) = position := by
  have marks := @exists_endingMark_iff position 0 (lexemes source)
  rw [← marks_ofText, Scanner.marks] at marks
  simpa [endsLogicalLine_eq, and_assoc] using marks

/-- A newline is a lexeme of its own if the scan up to it ends outside literals. -/
theorem exists_newlineLexeme_iff :
    (∃ before after, lexemes source = before ++ .newline :: after ∧
        Text.byteLength (textOf before) = position) ↔ NewlineAt source position false := by
  constructor
  · rintro ⟨before, after, shape, rfl⟩
    have legible := legible_lexemes source
    have whole := textOf_lexemes source
    rw [shape, List.append_cons] at legible
    rw [shape, textOf_append, textOf_cons] at whole
    refine ⟨textOf before, textOf after, whole, rfl, ?_⟩
    have cut : lexemes (textOf before ++ ['\n']) = before ++ [.newline] := by
      have text : textOf (before ++ [.newline]) = textOf before ++ ['\n'] := by
        simp [Lexeme.text]
      rw [← text, lexemes_textOf legible.of_append_left]
    have code : EndsInCode (textOf before ++ ['\n']) := by
      rw [endsInCode_iff, cut, List.getLast?_concat]
      simp [Lexeme.leavesCode]
    rw [Scanner.inLiteral, code]
    rfl
  · rintro ⟨before, after, rfl, rfl, closes⟩
    exact ⟨lexemes before, lexemes after, lexemes_append_newline closes after, by simp⟩

/-! ### Newlines among the steps -/

/-- The steps of a scan can be told by where they start. -/
theorem eq_of_start_eq {other : Span × Scanner} (member : step ∈ (Scanner.ofText source).steps)
    (memberOther : other ∈ (Scanner.ofText source).steps) (same : step.1.start = other.1.start) :
    step = other := by
  have partition := isPartition_scan source
  have nodup := partition.tiles.nodup_start partition.nonempty
  rw [scan, List.map_map] at nodup
  exact List.inj_on_of_nodup_map nodup member memberOther same

theorem exists_newlineAt (member : step ∈ (Scanner.ofText source).steps)
    (newline : step.1.kind = .newline) :
    ∃ inLiteral, NewlineAt source step.1.start inLiteral := by
  have span : step.1 ∈ scan source := List.mem_map_of_mem member
  have partition := isPartition_scan source
  obtain ⟨before, after, parts, length⟩ := partition.tiles.exists_of_mem span
  have text : step.1.text = ['\n'] := by
    rw [scan_eq_spansFrom, spansFrom] at span
    obtain ⟨mark, marked, same⟩ := List.mem_map.1 span
    rw [← same] at newline ⊢
    exact text_of_mem_marksFrom marked newline
  have whole : before ++ '\n' :: after = source := by
    have texts := partition.texts
    rwa [List.append_nil, ← parts, text] at texts
  rw [Nat.zero_add] at length
  exact ⟨_, before, after, whole, length, rfl⟩

/-- Behind a newline the scanner is inside a literal if the scan up to this newline ends
inside one, even where the scanner has read the newline a step before. -/
theorem newlineAt_of_mem_steps (member : step ∈ (Scanner.ofText source).steps)
    (newline : step.1.kind = .newline) : NewlineAt source step.1.start step.2.inLiteral := by
  cases inside : step.2.inLiteral with
  | false =>
      rw [← exists_newlineLexeme_iff, ← exists_endingStep_iff]
      exact ⟨step, member, by simp [endsLogicalLine, newline, inside], rfl⟩
  | true =>
      obtain ⟨inLiteral, stands⟩ := exists_newlineAt member newline
      cases inLiteral with
      | true => exact stands
      | false =>
          -- A newline outside is a step that ends a line, and no other step starts there.
          rw [← exists_newlineLexeme_iff, ← exists_endingStep_iff] at stands
          obtain ⟨other, found, ends, same⟩ := stands
          rw [eq_of_start_eq found member same] at ends
          simp [endsLogicalLine, inside] at ends

/-! ### Cuts -/

theorem mem_cuts_iff :
    position ∈ cuts (logicalLines source) ↔ NewlineAt source position false := by
  rw [mem_cuts_logicalLines, exists_endingStep_iff, exists_newlineLexeme_iff]

theorem isSound_of_mem_logicalLines {line : LogicalLine} (member : line ∈ logicalLines source) :
    line.IsSound source where
  tiles := LogicalLine.tiles_spans member
  within := fun span inside => (LogicalLine.tiles_spans member).bounds inside
  slices := by
    intro span inside
    obtain ⟨before, after, parts, length⟩ :=
      (LogicalLine.tiles_spans member).exists_of_mem inside
    have slice := LogicalLine.slice?_eq_some parts
    rwa [length] at slice
  pieces := LogicalLine.slicedPieces?_eq member
  newlines := by
    intro span inside newline
    obtain ⟨step, found, goesOn, rfl⟩ := exists_step_of_mem_spans member inside
    have inLiteral : step.2.inLiteral = true := by
      simpa [endsLogicalLine, newline] using goesOn
    rw [← inLiteral]
    exact newlineAt_of_mem_steps found newline
  rescanned := LogicalLine.spans_eq_map_scan member

/-- The logical lines are the source cut exactly at the newlines outside literals.  Read
from the first step of a scan to the last, with their texts cut out of the source, they are
the same lines; their texts give the source back; and each of them is sound. -/
theorem logicalLines_cut (source : Text) :
    slicedLines? source = some ((logicalLines source).map fun line => (line, line.text)) ∧
      ['\n'].intercalate ((logicalLines source).map LogicalLine.text) = source ∧
      (∀ position, position ∈ cuts (logicalLines source) ↔ NewlineAt source position false) ∧
      ∀ line ∈ logicalLines source, line.IsSound source :=
  ⟨slicedLines?_eq source, intercalate_map_text_logicalLines source,
    fun _ => mem_cuts_iff, fun _ => isSound_of_mem_logicalLines⟩

end Bilingual
