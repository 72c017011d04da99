import Bilingual.LogicalLines
import Bilingual.Proofs.CodeSpans

/-!
# Lines of lexemes

The logical lines of a text are its lexemes, cut at the newlines among them: a
newline inside a literal is part of a lexeme.  The main statements are
`logicalLines_eq_linesFrom` and `lexemeLines_intercalate`.  The second one reads
lines back that were written one after the other.
-/

namespace Bilingual

/-- The lexemes of each logical line of a source. -/
def lexemeLines (source : Text) : List (List Lexeme) :=
  (lexemes source).splitOn .newline

/-- The logical line of given lexemes. -/
def lineOf (offset start : Nat) (list : List Lexeme) : LogicalLine :=
  ⟨offset, spansFrom start list⟩

/-- The logical lines of given lexemes, the first of which starts at `offset`. -/
def linesFrom (offset : Nat) : List (List Lexeme) → List LogicalLine
  | [] => []
  | line :: lines =>
      lineOf offset offset line ::
        linesFrom (offset + Text.byteLength (textOf line) + 1) lines

/-! ### Cutting spans -/

/-- Cuts the spans of a scan at the newlines that do not go on inside a literal. -/
def cutMarks (offset : Nat) : List (Span × Bool) → List LogicalLine
  | [] => [⟨offset, []⟩]
  | mark :: marks =>
      if mark.1.kind = .newline && !mark.2 then
        ⟨offset, []⟩ :: cutMarks mark.1.stop marks
      else
        (cutMarks offset marks).modifyHead fun line =>
          { line with spans := mark.1 :: line.spans }

theorem cutMarks_ne_nil (offset : Nat) (marks : List (Span × Bool)) :
    cutMarks offset marks ≠ [] := by
  induction marks with
  | nil => simp [cutMarks]
  | cons mark marks induction =>
      rw [cutMarks]
      split <;> simp [induction]

theorem endsLogicalLine_eq (step : Span × Scanner) :
    endsLogicalLine step = (step.1.kind = .newline && !literalGoesOn step : Bool) := by
  by_cases newline : step.1.kind = .newline <;>
    simp [endsLogicalLine, literalGoesOn, newline]

theorem logicalLinesFrom_eq_cutMarks (offset : Nat) (steps : List (Span × Scanner)) :
    logicalLinesFrom offset steps =
      cutMarks offset (steps.map fun step => (step.1, literalGoesOn step)) := by
  induction steps generalizing offset with
  | nil => rfl
  | cons step steps induction =>
      rw [List.map_cons, logicalLinesFrom, cutMarks, endsLogicalLine_eq]
      split
      · rw [induction]
      · rw [← induction]
        have nonempty := cutMarks_ne_nil offset
          (steps.map fun step => (step.1, literalGoesOn step))
        rw [← induction] at nonempty
        obtain ⟨line, lines, shape⟩ := List.exists_cons_of_ne_nil nonempty
        rw [shape]
        rfl

/-- Marks at which no line ends belong to the first line. -/
theorem cutMarks_append {inner : List (Span × Bool)}
    (goesOn : ∀ mark ∈ inner, mark.1.kind = .newline → mark.2 = true)
    (offset : Nat) (marks : List (Span × Bool)) :
    cutMarks offset (inner ++ marks) =
      (cutMarks offset marks).modifyHead fun line =>
        { line with spans := inner.map Prod.fst ++ line.spans } := by
  induction inner with
  | nil =>
      obtain ⟨line, lines, shape⟩ :=
        List.exists_cons_of_ne_nil (cutMarks_ne_nil offset marks)
      rw [List.nil_append, shape]
      rfl
  | cons mark inner induction =>
      have stays : (mark.1.kind = .newline && !mark.2 : Bool) = false := by
        by_cases newline : mark.1.kind = .newline
        · simp [goesOn mark (by simp) newline]
        · simp [newline]
      have others := induction fun other member => goesOn other (by simp [member])
      rw [List.cons_append, cutMarks, stays, if_neg Bool.false_ne_true, others,
        List.modifyHead_modifyHead]
      rfl

theorem goesOn_of_mem_literalMarks {kind : SpanKind} {closed : Bool} {start : Nat}
    {text : Text} (other : kind ≠ .newline) {mark : Span × Bool}
    (member : mark ∈ literalMarks kind closed start text)
    (newline : mark.1.kind = .newline) : mark.2 = true := by
  fun_induction literalMarks kind closed start text with
  | case1 start text line shape =>
      rw [kind_of_mem_lineMarks member] at newline
      contradiction
  | case2 start text line character rest shape span induction =>
      rcases List.mem_append.1 member with first | others
      · rw [kind_of_mem_lineMarks first] at newline
        contradiction
      · rcases List.mem_cons.1 others with rfl | others
        · rfl
        · exact induction others

theorem goesOn_of_mem_marks {lexeme : Lexeme} {start : Nat} (inLine : lexeme ≠ .newline)
    {mark : Span × Bool} (member : mark ∈ lexeme.marks start)
    (newline : mark.1.kind = .newline) : mark.2 = true := by
  cases lexeme with
  | newline => contradiction
  | literal whole =>
      exact goesOn_of_mem_literalMarks (Scanner.spanKind_mode_ne_newline whole.form) member newline
  | code text =>
      rw [List.mem_singleton.1 member] at newline
      contradiction
  | comment text =>
      rw [List.mem_singleton.1 member] at newline
      contradiction

theorem linesFrom_modifyHead {lines : List (List Lexeme)} (lexeme : Lexeme) (start : Nat) :
    linesFrom start (lines.modifyHead (lexeme :: ·)) = match lines with
      | [] => []
      | line :: lines =>
          ⟨start, (lexeme.marks start).map Prod.fst ++
            spansFrom (start + Text.byteLength lexeme.text) line⟩ ::
            linesFrom (start + Text.byteLength lexeme.text +
              Text.byteLength (textOf line) + 1) lines := by
  cases lines with
  | nil => rfl
  | cons line lines =>
      rw [List.modifyHead_cons, linesFrom, lineOf, spansFrom, marksFrom, List.map_append,
        textOf_cons, Text.byteLength_append, ← Nat.add_assoc]
      rfl

/-- The spans of lexemes are cut where the lexemes are. -/
theorem cutMarks_marksFrom (offset start : Nat) (list : List Lexeme) :
    cutMarks offset (marksFrom start list) =
      (linesFrom start (list.splitOn .newline)).modifyHead fun line =>
        { line with offset := offset } := by
  induction list generalizing offset start with
  | nil => rfl
  | cons lexeme others induction =>
      rw [marksFrom, List.splitOn_cons_eq_if_modifyHead]
      split
      · next newline =>
          obtain rfl : lexeme = .newline := by simpa using newline
          have whole : (linesFrom (start + 1) (others.splitOn .newline)).modifyHead
              (fun line => { line with offset := start + 1 }) =
              linesFrom (start + 1) (others.splitOn .newline) := by
            cases others.splitOn .newline <;> rfl
          have size : Text.byteLength ['\n'] = 1 := rfl
          rw [Lexeme.marks, List.singleton_append, cutMarks, if_pos (by simp)]
          simp only [Span.stop, Lexeme.text, size]
          rw [induction, whole]
          rfl
      · next inLine =>
          have inLine : lexeme ≠ .newline := by simpa using inLine
          have nonempty := List.splitOn_ne_nil Lexeme.newline others
          obtain ⟨line, lines, shape⟩ := List.exists_cons_of_ne_nil nonempty
          rw [cutMarks_append fun mark => goesOn_of_mem_marks inLine, induction,
            linesFrom_modifyHead, shape]
          rfl

/-- The logical lines of a source are its lines of lexemes. -/
theorem logicalLines_eq_linesFrom (source : Text) :
    logicalLines source = linesFrom 0 (lexemeLines source) := by
  have marks := marks_ofText source
  rw [Scanner.marks] at marks
  rw [logicalLines, logicalLinesFrom_eq_cutMarks, marks, cutMarks_marksFrom, ← lexemeLines]
  cases lexemeLines source <;> rfl

/-- What holds of the lexemes of each line holds of the logical lines. -/
theorem map_linesFrom {Value : Type} {feature : LogicalLine → Value}
    {value : List Lexeme → Value} {lines : List (List Lexeme)}
    (agree : ∀ line ∈ lines, ∀ offset, feature (lineOf offset offset line) = value line)
    (offset : Nat) : (linesFrom offset lines).map feature = lines.map value := by
  induction lines generalizing offset with
  | nil => rfl
  | cons line lines induction =>
      rw [linesFrom, List.map_cons, List.map_cons, agree line (by simp),
        induction fun other member => agree other (by simp [member])]

/-! ### Lines that can be read back -/

/-- A newline can stand behind the lexemes. -/
def Complete (line : List Lexeme) : Prop :=
  ∀ lexeme ∈ line.getLast?, lexeme.canPrecede (some '\n') = true

/-- All literals among the lexemes are closed. -/
def AllClosed (list : List Lexeme) : Prop :=
  ∀ whole, .literal whole ∈ list → whole.closed = true

theorem allClosed_cons {lexeme : Lexeme} {others : List Lexeme} :
    AllClosed (lexeme :: others) ↔
      (∀ whole, lexeme = .literal whole → whole.closed = true) ∧ AllClosed others := by
  constructor
  · intro closed
    exact ⟨fun whole same => closed whole (by simp [same]),
      fun whole member => closed whole (List.mem_cons_of_mem lexeme member)⟩
  · rintro ⟨first, rest⟩ whole member
    rcases List.mem_cons.1 member with same | member
    · exact first whole same.symm
    · exact rest whole member

/-- Each line is the cut of its own text, and only the last one may end in an open
literal. -/
def LegibleLines : List (List Lexeme) → Prop
  | [] => True
  | line :: lines =>
      (Legible line ∧ Lexeme.newline ∉ line) ∧ (lines ≠ [] → Complete line) ∧
        LegibleLines lines

theorem textOf_intercalate (lines : List (List Lexeme)) :
    textOf ([Lexeme.newline].intercalate lines) = ['\n'].intercalate (lines.map textOf) := by
  induction lines with
  | nil => rfl
  | cons line lines induction =>
      cases lines with
      | nil => simp
      | cons next lines =>
          rw [List.map_cons, List.intercalate_cons_cons, textOf_append, textOf_append, induction]
          simp [Lexeme.text]

theorem legibleLines_modifyHead {lexeme : Lexeme} {line : List Lexeme}
    {lines : List (List Lexeme)} (legible : LegibleLines (line :: lines))
    (inLine : lexeme ≠ .newline)
    (reads : Reads (lexeme.text ++ textOf ([Lexeme.newline].intercalate (line :: lines))) lexeme
      (textOf ([Lexeme.newline].intercalate (line :: lines)))) :
    LegibleLines ((lexeme :: line) :: lines) := by
  obtain ⟨⟨legible, noNewline⟩, complete, others⟩ := legible
  have precedes := reads.canPrecede
  refine ⟨⟨⟨reads.replaceRest ?_, legible⟩, by simp [inLine.symm, noNewline]⟩, ?_, others⟩
  · cases line with
    | nil => exact lexeme.canPrecede_none
    | cons next line =>
        obtain ⟨character, text, shape⟩ := List.exists_cons_of_ne_nil legible.1.text_ne_nil
        rw [List.intercalate_cons_cons_left] at precedes
        rw [textOf_cons, shape] at precedes ⊢
        exact precedes
  · intro more last lastOf
    cases line with
    | nil =>
        obtain rfl : lexeme = last := by simpa using lastOf
        rwa [List.intercalate_cons_of_ne_nil more] at precedes
    | cons next line => exact complete more last lastOf

theorem legibleLines_splitOn {list : List Lexeme} (legible : Legible list) :
    LegibleLines (list.splitOn .newline) := by
  induction list with
  | nil => exact ⟨⟨trivial, by simp⟩, by simp, trivial⟩
  | cons lexeme others induction =>
      have rest := induction legible.2
      rw [List.splitOn_cons_eq_if_modifyHead]
      split
      · next newline => exact ⟨⟨trivial, by simp⟩, fun _ => by simp [Complete], rest⟩
      · next inLine =>
          have nonempty := List.splitOn_ne_nil Lexeme.newline others
          obtain ⟨line, lines, shape⟩ := List.exists_cons_of_ne_nil nonempty
          have joined : [Lexeme.newline].intercalate (others.splitOn Lexeme.newline) = others :=
            List.intercalate_splitOn Lexeme.newline
          rw [shape] at rest joined ⊢
          apply legibleLines_modifyHead rest (by simpa using inLine)
          rw [joined]
          exact legible.1

theorem LegibleLines.forall_mem {lines : List (List Lexeme)} (legible : LegibleLines lines) :
    ∀ line ∈ lines, Legible line ∧ Lexeme.newline ∉ line := by
  induction lines with
  | nil => simp
  | cons line lines induction =>
      intro other member
      rcases List.mem_cons.1 member with rfl | member
      · exact legible.1
      · exact induction legible.2.2 other member

theorem legibleLines_lexemeLines (source : Text) : LegibleLines (lexemeLines source) :=
  legibleLines_splitOn (legible_lexemes source)

/-- A logical line of a source is one of lexemes that can be read back. -/
theorem exists_lineOf {source : Text} {line : LogicalLine} (member : line ∈ logicalLines source) :
    ∃ offset list, Legible list ∧ Lexeme.newline ∉ list ∧ line = lineOf offset offset list := by
  have legible := (legibleLines_lexemeLines source).forall_mem
  rw [logicalLines_eq_linesFrom] at member
  generalize 0 = offset at member
  generalize lexemeLines source = lines at member legible
  induction lines generalizing offset with
  | nil => simp [linesFrom] at member
  | cons list lines induction =>
      obtain ⟨⟨first, inLine⟩, others⟩ := List.forall_mem_cons.1 legible
      rw [linesFrom] at member
      rcases List.mem_cons.1 member with rfl | member
      · exact ⟨offset, list, first, inLine, rfl⟩
      · exact induction _ member others

theorem legible_intercalate {lines : List (List Lexeme)} (legible : LegibleLines lines) :
    Legible ([Lexeme.newline].intercalate lines) := by
  induction lines with
  | nil => trivial
  | cons line lines induction =>
      obtain ⟨⟨first, -⟩, complete, others⟩ := legible
      cases lines with
      | nil => simpa using first
      | cons next lines =>
          rw [List.intercalate_cons_cons, List.append_assoc]
          exact first.append ⟨.newline, induction others⟩ (complete (by simp))

/-- Lines that can be read back are the lines of their text. -/
theorem lexemeLines_intercalate {lines : List (List Lexeme)} (nonempty : lines ≠ [])
    (legible : LegibleLines lines) :
    lexemeLines (['\n'].intercalate (lines.map textOf)) = lines := by
  have noNewline : ∀ line ∈ lines, Lexeme.newline ∉ line := by
    intro line member
    exact (legible.forall_mem line member).2
  rw [lexemeLines, ← textOf_intercalate, lexemes_textOf (legible_intercalate legible),
    List.splitOn_intercalate _ noNewline nonempty]

theorem intercalate_lexemeLines (source : Text) :
    [Lexeme.newline].intercalate (lexemeLines source) = lexemes source :=
  List.intercalate_splitOn Lexeme.newline

theorem intercalate_map_textOf_lexemeLines (source : Text) :
    ['\n'].intercalate ((lexemeLines source).map textOf) = source := by
  rw [← textOf_intercalate, intercalate_lexemeLines, textOf_lexemes]

end Bilingual
