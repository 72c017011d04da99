import Bilingual.Proofs.FormattedLines

/-!
# Formatting keeps the contents of a source

Formatting keeps the tokens of code on every line, and it keeps comments up to
white space at their ends.  It keeps literals byte for byte, with one exception:
a line that starts with a docstring and ends with a newline inside a literal that
is never closed is trimmed as if that newline were not part of the literal.
-/

namespace Bilingual

/-- The line starts with a docstring and ends with a newline inside a literal. -/
def LogicalLine.losesLiteralEnd (line : LogicalLine) : Bool :=
  line.lineClass = .docstring && line.spans.getLast?.map Span.kind = some .newline

/-! ### Code -/

theorem map_lexemeTokens_formatWith (rules : FormatRules) (source : Text) :
    (lexemeLines (formatWith rules source)).map lexemeTokens =
      (lexemeLines source).map lexemeTokens := by
  have keeps := keeps_formatWith rules source
  generalize lexemeLines source = lines, lexemeLines (formatWith rules source) = written at keeps
  induction keeps with
  | nil => rfl
  | cons first rest induction => rw [List.map_cons, List.map_cons, first.tokens, induction]

theorem codeTokens_scan_formatWith (rules : FormatRules) (source : Text) :
    codeTokens (scan (formatWith rules source)) = codeTokens (scan source) := by
  rw [codeTokens_scan_eq_flatMap, codeTokens_scan_eq_flatMap, List.flatMap_def,
    List.flatMap_def, map_lexemeTokens_formatWith]

/-- Formatting keeps the tokens of the code, in the whole source and line by line. -/
theorem codeTokens_formatWith (rules : FormatRules) (source : Text) :
    codeTokens (scan (formatWith rules source)) = codeTokens (scan source) ∧
      (logicalLines (formatWith rules source)).map (fun line => codeTokens line.spans) =
        (logicalLines source).map fun line => codeTokens line.spans := by
  constructor
  · exact codeTokens_scan_formatWith rules source
  · rw [codeTokens_logicalLines, codeTokens_logicalLines, map_lexemeTokens_formatWith]

/-! ### Comments -/

theorem comments_formatWith (rules : FormatRules) (source : Text) :
    (comments (formatWith rules source)).map Text.trimEnd =
      (comments source).map Text.trimEnd := by
  have keeps := keeps_formatWith rules source
  rw [comments_eq_flatMap, comments_eq_flatMap]
  generalize lexemeLines source = lines, lexemeLines (formatWith rules source) = written at keeps
  induction keeps with
  | nil => rfl
  | cons first rest induction =>
      rw [List.flatMap_cons, List.flatMap_cons, List.map_append, List.map_append,
        first.comments, induction]

/-! ### Literals -/

/-- A line that another one can follow does not end inside a literal. -/
theorem losesLiteralEnd_of_complete {line : List Lexeme} (legible : Legible line)
    (inLine : Lexeme.newline ∉ line) (complete : Complete line) :
    losesLiteralEnd line = false := by
  rw [losesLiteralEnd, Bool.and_eq_false_iff]
  right
  rcases List.eq_nil_or_concat' line with rfl | ⟨before, last, rfl⟩
  · rfl
  · have ends : last.canPrecede (some '\n') = true := complete last (by simp)
    rw [List.getLast?_concat, Option.map_some]
    cases last with
    | newline => simp at inLine
    | code text => rfl
    | comment text => rfl
    | literal whole =>
        have closed : whole.closed = true := by
          by_contra left
          simp [Lexeme.canPrecede, left] at ends
        rw [lastKind_of_closed legible.of_append_right.1 closed]
        simpa using Scanner.spanKind_mode_ne_newline whole.form

theorem literals_eq_iff_of_keeps {lines written : List (List Lexeme)}
    (legible : LegibleLines lines) (keeps : List.Forall₂ Keeps lines written) :
    written.flatMap (·.filterMap Lexeme.literal?) = lines.flatMap (·.filterMap Lexeme.literal?) ↔
      ∀ line ∈ lines, losesLiteralEnd line = false := by
  induction keeps with
  | nil => simp
  | @cons line body lines written first rest induction =>
      obtain ⟨⟨legibleLine, inLine⟩, complete, others⟩ := legible
      rw [List.flatMap_cons, List.flatMap_cons, List.forall_mem_cons, ← induction others]
      cases lines with
      | nil =>
          cases rest
          simpa using first.literals
      | cons next lines =>
          have kept := losesLiteralEnd_of_complete legibleLine inLine (complete (by simp))
          rw [first.literals.2 kept, List.append_cancel_left_eq]
          simp [kept]

theorem losesLiteralEnd_lineOf (offset start : Nat) {line : List Lexeme}
    (legible : Legible line) :
    (lineOf offset start line).losesLiteralEnd = losesLiteralEnd line := by
  rw [LogicalLine.losesLiteralEnd, losesLiteralEnd, lineClass_lineOf offset start legible,
    ← getLast?_spansFrom start legible]
  rfl

theorem literals_formatWith_iff (rules : FormatRules) (source : Text) :
    literals (formatWith rules source) = literals source ↔
      ∀ line ∈ logicalLines source, line.losesLiteralEnd = false := by
  have legible := legibleLines_lexemeLines source
  have agree : (logicalLines source).map LogicalLine.losesLiteralEnd =
      (lexemeLines source).map losesLiteralEnd := by
    rw [logicalLines_eq_linesFrom]
    exact map_linesFrom (fun line member offset =>
      losesLiteralEnd_lineOf offset offset (legible.forall_mem line member).1) 0
  rw [literals_eq_flatMap, literals_eq_flatMap,
    literals_eq_iff_of_keeps legible (keeps_formatWith rules source)]
  have members := congrArg (fun losses => ∀ loses ∈ losses, loses = false) agree
  simpa using members.symm

/-- Formatting keeps all literals, and all comments up to white space at their ends,
exactly when no line loses the end of a literal. -/
theorem literals_comments_formatWith_iff (rules : FormatRules) (source : Text) :
    (literals (formatWith rules source) = literals source ∧
        (comments (formatWith rules source)).map Text.trimEnd =
          (comments source).map Text.trimEnd) ↔
      ∀ line ∈ logicalLines source, line.losesLiteralEnd = false := by
  rw [and_iff_left (comments_formatWith rules source)]
  exact literals_formatWith_iff rules source

/-- White space at the end of an open docstring is lost. -/
theorem literals_format_openDocstring :
    literals (format "\"\"\"abc  \n".toList) ≠ literals "\"\"\"abc  \n".toList := by
  decide +kernel

end Bilingual
