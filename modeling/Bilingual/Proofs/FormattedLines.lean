import Bilingual.Proofs.KeptLines

/-!
# The lines of a formatted source

A formatted source has as many logical lines as before, and each of them is the
line that was written.  The main statements are `keeps_formatWith` and
`textOf_lexemeLines_formatWith`.
-/

namespace Bilingual

variable (rules : FormatRules)

theorem exists_formatLines {lines : List (List Lexeme)} (legible : LegibleLines lines)
    (tracker : IndentTracker) (offset : Nat) :
    ∃ written : List (List Lexeme),
      formatLines rules tracker (linesFrom offset lines) = written.map textOf ∧
        List.Forall₂ Keeps lines written := by
  induction lines generalizing tracker offset with
  | nil => exact ⟨[], rfl, .nil⟩
  | cons line lines induction =>
      obtain ⟨⟨legibleLine, inLine⟩, -, others⟩ := legible
      have text := textOf_writtenBody rules legibleLine inLine
      have keeps := keeps_writtenBody rules legibleLine inLine
      obtain ⟨rest, texts, keepsRest⟩ := induction others
        (formatLine rules tracker (lineOf offset offset line)).2
        (offset + Text.byteLength (textOf line) + 1)
      let indentation :=
        tracker.indentation (tracker.depthOf rules (lineOf offset offset line))
      have first : (formatLine rules tracker (lineOf offset offset line)).1 =
          textOf (consCode indentation (writtenBody rules line)) := by
        rw [formatLine_fst, body_lineOf legibleLine inLine, textOf_consCode, text]
      have keepsLine : Keeps line (consCode indentation (writtenBody rules line)) :=
        keeps.indent (Text.isBlank_spaces _) (isPlainCode_spaces _)
      refine ⟨consCode indentation (writtenBody rules line) :: rest, ?_,
        .cons keepsLine keepsRest⟩
      rw [linesFrom, formatLines, List.map_cons]
      exact congr (congrArg List.cons first) texts

theorem legibleLines_of_keeps {lines written : List (List Lexeme)}
    (legible : LegibleLines lines) (keeps : List.Forall₂ Keeps lines written) :
    LegibleLines written := by
  induction keeps with
  | nil => trivial
  | @cons line body lines written first rest induction =>
      refine ⟨⟨first.legible, first.inLine⟩, ?_, induction legible.2.2⟩
      intro more
      apply first.complete
      apply legible.2.1
      rintro rfl
      cases rest
      contradiction

/-- The lines of a formatted source are the lines that were written. -/
theorem exists_formatWith (source : Text) :
    ∃ written : List (List Lexeme),
      formatLines rules (.ofWidth rules.indentWidth) (logicalLines source) =
          written.map textOf ∧
        List.Forall₂ Keeps (lexemeLines source) written ∧
          lexemeLines (formatWith rules source) = written := by
  have legible := legibleLines_lexemeLines source
  obtain ⟨written, texts, keeps⟩ :=
    exists_formatLines rules legible (.ofWidth rules.indentWidth) 0
  rw [← logicalLines_eq_linesFrom] at texts
  refine ⟨written, texts, keeps, ?_⟩
  rw [formatWith, texts]
  refine lexemeLines_intercalate ?_ (legibleLines_of_keeps legible keeps)
  rintro rfl
  have none := List.splitOn_ne_nil Lexeme.newline (lexemes source)
  rw [← lexemeLines] at none
  cases shape : lexemeLines source <;> simp_all

/-- Formatting keeps the logical lines apart, and keeps each of them. -/
theorem keeps_formatWith (source : Text) :
    List.Forall₂ Keeps (lexemeLines source) (lexemeLines (formatWith rules source)) := by
  obtain ⟨written, -, keeps, lines⟩ := exists_formatWith rules source
  rwa [lines]

theorem textOf_lexemeLines_formatWith (source : Text) :
    (lexemeLines (formatWith rules source)).map textOf =
      formatLines rules (.ofWidth rules.indentWidth) (logicalLines source) := by
  obtain ⟨written, texts, -, lines⟩ := exists_formatWith rules source
  rw [lines, texts]

end Bilingual
