import Bilingual.Proofs.FormattedLines
import Bilingual.Proofs.Placements
import Bilingual.Proofs.RewrittenLines

/-!
# Formatting twice

Formatting a formatted source changes nothing, with two exceptions.  A line that
stands as deep as a line just before it that opens a block is moved into the block
by the second run.  And where no space is written behind a colon, a colon and a
`==` behind it are read as `:=` and `=`.  The main statement is
`formatWith_formatWith_iff`.
-/

namespace Bilingual

variable {rules : FormatRules}

/-! ### A line that was written -/

theorem spaces_append_iff {first second : Nat} {text other : Text}
    (visible : text.head?.all (!isWhiteSpace ·) = true)
    (visibleOther : other.head?.all (!isWhiteSpace ·) = true) :
    Text.spaces first ++ text = Text.spaces second ++ other ↔ first = second ∧ text = other := by
  rw [Text.isBlank_append_inj (Text.isBlank_spaces first) (Text.isBlank_spaces second) visible
    visibleOther, Text.spaces, Text.spaces, List.replicate_left_inj]

section Line

variable {list written : List Lexeme} {first again : IndentTracker}
  {previous : Option Placement}

theorem textOf_written {offset : Nat} (legible : Legible list) (inLine : Lexeme.newline ∉ list)
    (text : (formatLine rules first (lineOf offset offset list)).1 = textOf written) :
    textOf written =
      Text.spaces (first.depthOf rules (lineOf offset offset list) * first.width) ++
        bodyOf rules list := by
  rw [← text, formatLine_fst, body_lineOf legible inLine]
  rfl

theorem leadingWidth_written (offset other : Nat) (legible : Legible list)
    (inLine : Lexeme.newline ∉ list)
    (text : (formatLine rules first (lineOf offset offset list)).1 = textOf written) :
    again.leadingWidth (lineOf other other written).text =
      first.depthOf rules (lineOf offset offset list) * first.width := by
  rw [text_lineOf, textOf_written legible inLine text,
    IndentTracker.leadingWidth_spaces _ _ (head?_bodyOf legible inLine)]

theorem lineClass_written (offset other : Nat) (legible : Legible list)
    (keeps : Keeps list written) :
    (lineOf other other written).lineClass = (lineOf offset offset list).lineClass := by
  rw [lineClass_lineOf _ _ legible, lineClass_lineOf _ _ keeps.legible, keeps.lineClass]

/-- A line is written again as it stands exactly when it is not put elsewhere, and no
colon has come to stand directly in front of `==`. -/
theorem formatLine_again_iff (retraces : Retraces first again previous) (offset other : Nat)
    (legible : Legible list) (inLine : Lexeme.newline ∉ list) (keeps : Keeps list written)
    (text : (formatLine rules first (lineOf offset offset list)).1 = textOf written) :
    (formatLine rules again (lineOf other other written)).1 = textOf written ↔
      (∀ upper ∈ previous, ∀ lower ∈ first.place? rules (lineOf offset offset list),
          upper.Precedes lower) ∧
        (lineOf offset offset list).gluesColon rules = false := by
  have column : again.leadingWidth (lineOf other other written).text = _ :=
    leadingWidth_written offset other legible inLine text
  have shown := textOf_written legible inLine text
  have depth := retraces.depthOf_iff (lineClass_written offset other legible keeps)
    fun _ => column
  rw [formatLine_fst, body_lineOf keeps.legible keeps.inLine, IndentTracker.indentation, shown,
    spaces_append_iff (head?_bodyOf keeps.legible keeps.inLine) (head?_bodyOf legible inLine),
    bodyOf_indented_iff legible inLine keeps.legible shown, retraces.width,
    Nat.mul_left_inj retraces.width_pos.ne', depth, gluesColon_lineOf legible inLine]

/-- Behind a line that is written as it stands, the trackers still agree. -/
theorem retraces_formatLine (retraces : Retraces first again previous) (offset other : Nat)
    (legible : Legible list) (inLine : Lexeme.newline ∉ list) (keeps : Keeps list written)
    (text : (formatLine rules first (lineOf offset offset list)).1 = textOf written)
    (same : (formatLine rules again (lineOf other other written)).1 = textOf written) :
    Retraces (formatLine rules first (lineOf offset offset list)).2
      (formatLine rules again (lineOf other other written)).2
      ((first.place? rules (lineOf offset offset list)).or previous) := by
  have sameClass := lineClass_written offset other legible keeps
  have column : again.leadingWidth (lineOf other other written).text = _ :=
    leadingWidth_written offset other legible inLine text
  obtain ⟨stays, apart⟩ :=
    (formatLine_again_iff retraces offset other legible inLine keeps text).1 same
  refine retraces.step sameClass (fun _ => column)
    ((retraces.depthOf_iff sameClass fun _ => column).2 stays) fun code => ?_
  rw [lineClass_lineOf _ _ legible] at code
  rw [gluesColon_lineOf legible inLine] at apart
  have codeList : (lineOf offset offset list).spacedCode rules = codeOf rules list :=
    spacedCode_eq legible inLine offset offset
  have codeWritten : (lineOf other other written).spacedCode rules = codeOf rules written :=
    spacedCode_eq keeps.legible keeps.inLine other other
  rw [codeList, codeWritten]
  exact codeOf_indented legible inLine keeps.legible (textOf_written legible inLine text) code apart

end Line

/-! ### All lines -/

/-- The lines that were written are written again as they stand exactly when each of
them is. -/
theorem formatLines_again_iff {lines written : List (List Lexeme)} (legible : LegibleLines lines)
    (keeps : List.Forall₂ Keeps lines written) {first again : IndentTracker}
    {previous : Option Placement} (retraces : Retraces first again previous) (offset other : Nat)
    (texts : formatLines rules first (linesFrom offset lines) = written.map textOf) :
    formatLines rules again (linesFrom other written) = written.map textOf ↔
      (previous.toList ++ placements rules first (linesFrom offset lines)).IsChain
          Placement.Precedes ∧
        ∀ line ∈ linesFrom offset lines, line.gluesColon rules = false := by
  induction keeps generalizing first again previous offset other with
  | nil => cases previous <;> simp [formatLines, linesFrom, placements]
  | @cons line body lines written keepsLine rest induction =>
      obtain ⟨⟨legibleLine, inLine⟩, -, others⟩ := legible
      rw [linesFrom, formatLines, List.map_cons, List.cons.injEq] at texts
      rw [linesFrom, linesFrom, formatLines, List.map_cons, List.cons.injEq, placements,
        isChain_toList_append, List.forall_mem_cons, and_and_and_comm]
      have head := formatLine_again_iff retraces offset other legibleLine inLine keepsLine texts.1
      rw [← head]
      apply and_congr_right
      intro same
      have agree := retraces_formatLine retraces offset other legibleLine inLine keepsLine
        texts.1 same
      exact induction others agree _ _ texts.2

/-- Formatting a formatted source changes nothing exactly when no line stands as deep
as the line before that opens a block, and no colon comes to stand directly in front
of `==`. -/
theorem formatWith_formatWith_iff (rules : FormatRules) (source : Text) :
    formatWith rules (formatWith rules source) = formatWith rules source ↔
      (placements rules (.ofWidth rules.indentWidth) (logicalLines source)).IsChain
          Placement.Precedes ∧
        ∀ line ∈ logicalLines source, line.gluesColon rules = false := by
  obtain ⟨written, texts, keeps, lines⟩ := exists_formatWith rules source
  have again := textOf_lexemeLines_formatWith rules (formatWith rules source)
  have legible := legibleLines_lexemeLines source
  rw [logicalLines_eq_linesFrom] at texts
  rw [logicalLines_eq_linesFrom, lines] at again
  have iff := formatLines_again_iff legible keeps (.start rules.indentWidth) 0 0 texts
  rw [Option.toList_none, List.nil_append] at iff
  rw [logicalLines_eq_linesFrom, ← iff, ← again, ← lines]
  constructor
  · intro same
    rw [same]
  · intro same
    rw [← intercalate_map_textOf_lexemeLines (formatWith rules (formatWith rules source)), same,
      intercalate_map_textOf_lexemeLines]

/-- A comparison behind a colon is torn apart by the second run. -/
theorem format_format_colonEquality :
    format (format "x : == y".toList) ≠ format "x : == y".toList := by
  decide +kernel

/-- A value below its key is moved by the second run. -/
theorem format_format_openDictionary :
    format (format "d = \x7b\n    k:\nv\x7d\n".toList) ≠
      format "d = \x7b\n    k:\nv\x7d\n".toList := by
  decide +kernel

end Bilingual
