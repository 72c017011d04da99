import Bilingual.Proofs.LexemeLines
import Bilingual.Proofs.VisibleTokens

/-!
# What a source contains

Three lists say what a source consists of, white space apart: the tokens of its
code, its literals, and its comments.  All three are read off a scan.  The main
statements give them by the lexemes of the source, and line by line.
-/

namespace Bilingual

/-- The tokens of the code among spans, white space apart. -/
def codeTokens (spans : List Span) : List (Token WordTokenKind) :=
  (codeTexts spans).flatMap visibleTokens

/-- The span is part of a literal: a piece of it, or a newline inside it. -/
def isPartOfLiteral (step : Span × Scanner) : Bool :=
  step.1.kind.isLiteral || (step.1.kind = .newline && step.2.inLiteral)

/-- The literals among the steps of a scan.  A part behind which its literal goes
on is put together with the parts behind it. -/
def literalsFrom : List (Span × Scanner) → List Text
  | [] => []
  | step :: steps =>
      if isPartOfLiteral step then
        if step.2.inLiteral then
          match literalsFrom steps with
          | [] => [step.1.text]
          | literal :: others => (step.1.text ++ literal) :: others
        else step.1.text :: literalsFrom steps
      else literalsFrom steps

/-- The literals of a source, with their delimiters and the newlines inside them. -/
def literals (source : Text) : List Text :=
  literalsFrom (Scanner.ofText source).steps

/-- The comments of a source. -/
def comments (source : Text) : List Text :=
  ((scan source).filter (·.kind = .comment)).map Span.text

namespace Lexeme

/-- The text of a comment. -/
def comment? : Lexeme → Option Text
  | .comment text => some text
  | .code _ => none
  | .newline => none
  | .literal _ => none

/-- The text of a literal. -/
def literal? : Lexeme → Option Text
  | .literal whole => some whole.text
  | .code _ => none
  | .newline => none
  | .comment _ => none

end Lexeme

/-- The tokens of the code among lexemes, white space apart. -/
def lexemeTokens (list : List Lexeme) : List (Token WordTokenKind) :=
  (list.filterMap Lexeme.code?).flatMap visibleTokens

/-! ### Code -/

theorem codeTokens_spansFrom (start : Nat) (list : List Lexeme) :
    codeTokens (spansFrom start list) = lexemeTokens list := by
  rw [codeTokens, codeTexts_spansFrom, lexemeTokens]

theorem codeTokens_scan (source : Text) :
    codeTokens (scan source) = lexemeTokens (lexemes source) := by
  rw [scan_eq_spansFrom, codeTokens_spansFrom]

theorem codeTokens_logicalLines (source : Text) :
    (logicalLines source).map (fun line => codeTokens line.spans) =
      (lexemeLines source).map lexemeTokens := by
  rw [logicalLines_eq_linesFrom]
  exact map_linesFrom (fun line _ offset => codeTokens_spansFrom offset line) 0

/-! ### Comments -/

theorem comments_marks (lexeme : Lexeme) (start : Nat) :
    (((lexeme.marks start).map Prod.fst).filter (·.kind = .comment)).map Span.text =
      lexeme.comment?.toList := by
  cases lexeme with
  | literal whole =>
      have none : ((literalMarks whole.form.mode.spanKind whole.closed start whole.text).map
          Prod.fst).filter (·.kind = .comment) = [] := by
        rw [List.filter_eq_nil_iff]
        intro span member
        obtain ⟨mark, marked, rfl⟩ := List.mem_map.1 member
        have other := Scanner.spanKind_mode_ne_comment whole.form
        rcases kind_of_mem_literalMarks marked with kind | kind <;> simp [kind, other]
      rw [Lexeme.marks, none]
      rfl
  | _ => rfl

theorem comments_spansFrom (start : Nat) (list : List Lexeme) :
    ((spansFrom start list).filter (·.kind = .comment)).map Span.text =
      list.filterMap Lexeme.comment? := by
  induction list generalizing start with
  | nil => rfl
  | cons lexeme others induction =>
      have rest := induction (start + Text.byteLength lexeme.text)
      rw [spansFrom] at rest ⊢
      rw [marksFrom, List.map_append, List.filter_append, List.map_append, comments_marks, rest]
      cases comment : lexeme.comment? <;> simp [comment]

theorem comments_eq (source : Text) :
    comments source = (lexemes source).filterMap Lexeme.comment? := by
  rw [comments, scan_eq_spansFrom, comments_spansFrom]

/-! ### Literals -/

/-- The literals among the marks of a scan. -/
def literalsOfMarks : List (Span × Bool) → List Text
  | [] => []
  | mark :: marks =>
      if mark.1.kind.isLiteral || (mark.1.kind = .newline && mark.2) then
        if mark.2 then
          match literalsOfMarks marks with
          | [] => [mark.1.text]
          | literal :: others => (mark.1.text ++ literal) :: others
        else mark.1.text :: literalsOfMarks marks
      else literalsOfMarks marks

theorem literalsFrom_eq (steps : List (Span × Scanner)) :
    literalsFrom steps =
      literalsOfMarks (steps.map fun step => (step.1, literalGoesOn step)) := by
  induction steps with
  | nil => rfl
  | cons step steps induction =>
      rw [List.map_cons, literalsFrom, literalsOfMarks, ← induction]
      obtain ⟨⟨kind, start, text⟩, after⟩ := step
      cases kind <;>
        simp [isPartOfLiteral, literalGoesOn, SpanKind.isLiteral]

theorem literalsOfMarks_goingOn {span : Span} {marks : List (Span × Bool)} {literal : Text}
    {others : List Text} (part : span.kind.isLiteral = true ∨ span.kind = .newline)
    (rest : literalsOfMarks marks = literal :: others) :
    literalsOfMarks ((span, true) :: marks) = (span.text ++ literal) :: others := by
  have isPart : (span.kind.isLiteral || (span.kind = .newline && true) : Bool) = true := by
    rcases part with kind | kind <;> simp [kind]
  rw [literalsOfMarks, if_pos isPart, if_pos rfl, rest]

theorem literalsOfMarks_lineMarks {kind : SpanKind} (part : kind.isLiteral = true)
    {start : Nat} {line literal : Text} {marks : List (Span × Bool)} {others : List Text}
    (rest : literalsOfMarks marks = literal :: others) :
    literalsOfMarks (lineMarks kind start line true ++ marks) = (line ++ literal) :: others := by
  unfold lineMarks
  split
  · next empty =>
      obtain rfl := List.isEmpty_iff.1 empty
      exact rest
  · exact literalsOfMarks_goingOn (.inl part) rest

/-- The parts of a literal are put together.  It must not be empty, and must be
closed unless it stands at the end. -/
theorem literalsOfMarks_literalMarks {kind : SpanKind} (part : kind.isLiteral = true)
    {closed : Bool} {start : Nat} {text : Text} {marks : List (Span × Bool)}
    (nonempty : text ≠ []) (last : closed = true → text.getLast? ≠ some '\n')
    (ended : closed = false → marks = []) :
    literalsOfMarks (literalMarks kind closed start text ++ marks) =
      text :: literalsOfMarks marks := by
  fun_induction literalMarks kind closed start text with
  | case1 start text line shape =>
      have whole : line = text := firstLine_eq_self shape
      have visible : text.isEmpty = false := List.isEmpty_eq_false_iff.2 nonempty
      rw [whole, lineMarks, visible, if_neg Bool.false_ne_true, List.singleton_append,
        literalsOfMarks, if_pos (by simp [part])]
      cases closed with
      | true => rfl
      | false => rw [ended rfl]; rfl
  | case2 start text line character rest shape newline induction =>
      obtain ⟨isNewline, parts⟩ := firstLine_append_newline shape
      have behind : literalsOfMarks ((newline, true) ::
          (literalMarks kind closed newline.stop rest ++ marks)) =
          (character :: rest) :: literalsOfMarks marks := by
        by_cases empty : rest = []
        · subst empty
          have left : closed = false := by
            rw [Bool.eq_false_iff]
            intro closes
            apply last closes
            rw [← parts, isNewline, List.getLast?_append]
            rfl
          rw [ended left, literalMarks_of_line (by simp)]
          rfl
        · have lastOf : rest.getLast? = text.getLast? := by
            rw [← parts, List.getLast?_append_of_ne_nil _ (by simp),
              List.getLast?_cons_of_ne_nil empty]
          have others := induction empty (lastOf ▸ last)
          exact literalsOfMarks_goingOn (.inr rfl) others
      rw [List.append_assoc, List.cons_append, literalsOfMarks_lineMarks part behind]
      exact congrArg (· :: _) parts

theorem literals_eq (source : Text) :
    literals source = (lexemes source).filterMap Lexeme.literal? := by
  have marks := marks_ofText source
  rw [Scanner.marks] at marks
  rw [literals, literalsFrom_eq, marks]
  generalize 0 = start
  have legible := legible_lexemes source
  generalize lexemes source = list at legible
  induction list generalizing start with
  | nil => rfl
  | cons lexeme others induction =>
      have rest := induction (start + Text.byteLength lexeme.text) legible.2
      rw [marksFrom]
      cases lexeme with
      | literal whole =>
          have part := Scanner.isLiteral_spanKind_mode whole.form
          have last : whole.closed = true → whole.text.getLast? ≠ some '\n' := by
            intro closed
            rw [legible.1.getLast?_literal closed]
            simpa using whole.form.quote.character_ne.1
          have ended : whole.closed = false → others = [] := by
            intro left
            have precedes := legible.1.canPrecede
            rw [Lexeme.canPrecede, left, if_neg Bool.false_ne_true] at precedes
            rw [← legible.2.textOf_eq_nil_iff]
            simpa using precedes
          have nonempty : whole.text ≠ [] := legible.1.text_ne_nil
          rw [Lexeme.marks, literalsOfMarks_literalMarks part nonempty last
            fun left => congrArg (marksFrom _) (ended left), rest]
          rfl
      | _ => exact rest

/-! ### Line by line -/

theorem filterMap_intercalate {Value : Type} {pick : Lexeme → Option Value}
    (newline : pick .newline = none) (lines : List (List Lexeme)) :
    ([Lexeme.newline].intercalate lines).filterMap pick =
      lines.flatMap fun line => line.filterMap pick := by
  induction lines with
  | nil => rfl
  | cons line lines induction =>
      cases lines with
      | nil => simp
      | cons next lines =>
          rw [List.intercalate_cons_cons, List.filterMap_append, List.filterMap_append, induction]
          simp [newline]

theorem literals_eq_flatMap (source : Text) :
    literals source = (lexemeLines source).flatMap fun line => line.filterMap Lexeme.literal? := by
  rw [literals_eq, ← intercalate_lexemeLines, filterMap_intercalate rfl]

theorem comments_eq_flatMap (source : Text) :
    comments source = (lexemeLines source).flatMap fun line => line.filterMap Lexeme.comment? := by
  rw [comments_eq, ← intercalate_lexemeLines, filterMap_intercalate rfl]

theorem codeTokens_scan_eq_flatMap (source : Text) :
    codeTokens (scan source) = (lexemeLines source).flatMap lexemeTokens := by
  rw [codeTokens_scan, lexemeTokens, ← intercalate_lexemeLines, filterMap_intercalate rfl,
    List.flatMap_assoc]
  rfl

end Bilingual
