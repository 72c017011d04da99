import Bilingual.Proofs.ParallelRuns
import Bilingual.Proofs.SpacedTranslations

/-!
# Formatting and translating in either order

A source that is formatted and then translated agrees with the one that is translated and
then formatted, line by line, up to the white space in front of opening parentheses.  Both
are written by runs of the formatter over lines that look alike to it, so the theorem comes
down to one line, `agreesOnLayout_written`.
-/

namespace Bilingual

/-- The lines are indented in the same way, and they are the same to a reader who looks for
the structure of a source. -/
structure LogicalLine.SameLayout (first second : LogicalLine) : Prop where
  lineClass : first.lineClass = second.lineClass
  margin : first.margin = second.margin
  isOpener : first.isOpener = second.isOpener
  comment : first.comment? = second.comment?

/-- The lines differ in nothing but white space in front of opening parentheses, and that
does not make them different in structure. -/
structure AgreesOnLayout (list other : List Lexeme) : Prop where
  closedUp : closedUp list = closedUp other
  lineClass : classOf list = classOf other
  margin : (leadingCode list).takeWhile isWhiteSpace = (leadingCode other).takeWhile isWhiteSpace
  endsInColon : classOf list = .code → endsInColon list = endsInColon other
  comments : list.filterMap Lexeme.comment? = other.filterMap Lexeme.comment?
  literals : list.filterMap Lexeme.literal? = other.filterMap Lexeme.literal?

/-! ### One line -/

section Line

variable (table : KeywordTable) (direction : Direction) (rules : FormatRules)
variable {list : List Lexeme}

theorem map_substitute_spaces (count : Nat) (body : List Lexeme) :
    (consCode (Text.spaces count) body).map (Lexeme.substitute table direction) =
      consCode (Text.spaces count) (body.map (Lexeme.substitute table direction)) := by
  have blank := Text.isBlank_spaces count
  rw [map_substitute_consCode table direction (joinsWords_of_blank (Text.isBlank_iff.1 blank) _).1,
    substituteCode_blank table direction blank]

theorem margin_consCode_spaces {body : List Lexeme}
    (visible : (leadingCode body).head?.all (!isWhiteSpace ·) = true) (count : Nat) :
    (leadingCode (consCode (Text.spaces count) body)).takeWhile isWhiteSpace =
      Text.spaces count := by
  rw [leadingCode_consCode]
  exact Text.takeWhile_of_isBlank_append (Text.isBlank_spaces count) visible

/-- The code at the start of a body is visible. -/
theorem head?_leadingCode_writtenBody (legible : Legible list) (inLine : Lexeme.newline ∉ list) :
    (leadingCode (writtenBody rules list)).head?.all (!isWhiteSpace ·) = true := by
  have visible : (bodyOf rules list).head?.all (!isWhiteSpace ·) = true :=
    head?_bodyOf legible inLine
  rw [← textOf_writtenBody rules legible inLine] at visible
  have shown := (keeps_writtenBody rules legible inLine).legible
  generalize writtenBody rules list = body at visible shown
  match body with
  | .code text :: others =>
      rwa [Legible.head?_textOf_cons shown] at visible
  | [] | .newline :: _ | .comment _ :: _ | .literal _ :: _ => rfl

/-- The two orders give bodies with the same text closed up, the same comments and the same
literals. -/
theorem writtenBody_agrees (legible : Legible list) (inLine : Lexeme.newline ∉ list) :
    closedUp ((writtenBody rules list).map (Lexeme.substitute table direction)) =
        closedUp (writtenBody rules (list.map (Lexeme.substitute table direction))) ∧
      ((writtenBody rules list).map (Lexeme.substitute table direction)).filterMap
          Lexeme.comment? =
        (writtenBody rules (list.map (Lexeme.substitute table direction))).filterMap
          Lexeme.comment? ∧
      ((writtenBody rules list).map (Lexeme.substitute table direction)).filterMap
          Lexeme.literal? =
        (writtenBody rules (list.map (Lexeme.substitute table direction))).filterMap
          Lexeme.literal? := by
  by_cases code : classOf list = .code
  · have codeToo : classOf (list.map (Lexeme.substitute table direction)) = .code := by
      rw [classOf_map_substitute, code]
    rw [writtenBody_of_code code, writtenBody_of_code codeToo, comments_map_substitute,
      literals_map_substitute]
    refine ⟨(closedUp_writtenCode_substitute table direction rules legible inLine).symm, ?_, ?_⟩
    · rw [writtenCode, writtenCode, comments_assemble, comments_assemble,
        writtenComment_map_substitute, comments_map_substitute]
    · have parts : ∀ parts : List Part,
          (parts.map (Part.substitute table direction)).filterMap Part.literal? =
            parts.filterMap Part.literal? := by
        intro parts
        rw [List.filterMap_map]
        exact List.filterMap_congr fun part _ => by cases part <;> rfl
      rw [writtenCode, writtenCode, literals_assemble, literals_assemble, literals_spaced,
        literals_spaced, flatMap_parts_substitute, parts, writtenComment_map_substitute,
        literals_map_substitute]
  · rw [writtenBody_map_substitute table direction code]
    exact ⟨rfl, rfl, rfl⟩

/-- A line is written and translated in either order behind the same indentation. -/
theorem agreesOnLayout_written (legible : Legible list) (inLine : Lexeme.newline ∉ list)
    (count : Nat) :
    AgreesOnLayout
      ((consCode (Text.spaces count) (writtenBody rules list)).map
        (Lexeme.substitute table direction))
      (consCode (Text.spaces count)
        (writtenBody rules (list.map (Lexeme.substitute table direction)))) := by
  have legibleToo := legible_substitute table direction legible
  have inLineToo := mt (newline_mem_map_substitute table direction list).1 inLine
  have keeps := keeps_writtenBody rules legible inLine
  have keepsToo := keeps_writtenBody rules legibleToo inLineToo
  obtain ⟨closed, comments, literals⟩ := writtenBody_agrees table direction rules legible inLine
  constructor
  · rw [map_substitute_spaces, closedUp_consCode _
      (legible_substitute table direction keeps.legible).closesAgainst,
      closedUp_consCode _ keepsToo.legible.closesAgainst, closed]
  · rw [classOf_map_substitute, classOf_consCode_of_isBlank (Text.isBlank_spaces count),
      classOf_consCode_of_isBlank (Text.isBlank_spaces count), keeps.lineClass,
      keepsToo.lineClass, classOf_map_substitute]
  · rw [leadingCode_map_substitute, takeWhile_substituteCode,
      margin_consCode_spaces (head?_leadingCode_writtenBody rules legible inLine),
      margin_consCode_spaces (head?_leadingCode_writtenBody rules legibleToo inLineToo)]
  · intro code
    rw [classOf_map_substitute, classOf_consCode_of_isBlank (Text.isBlank_spaces count),
      keeps.lineClass] at code
    have codeToo : classOf (list.map (Lexeme.substitute table direction)) = .code := by
      rw [classOf_map_substitute, code]
    rw [endsInColon_map_substitute, writtenBody_of_code code, writtenBody_of_code codeToo,
      endsInColon_writtenCode legible inLine code,
      endsInColon_writtenCode legibleToo inLineToo codeToo, endsInColon_map_substitute]
  · rw [map_substitute_spaces, filterMap_consCode (fun _ => rfl),
      filterMap_consCode (fun _ => rfl), comments]
  · rw [map_substitute_spaces, filterMap_consCode (fun _ => rfl),
      filterMap_consCode (fun _ => rfl), literals]

end Line

/-! ### Whole sources -/

section Sources

variable {first second : Text}

theorem map_eq_of_forall₂ {Value : Type} {feature : List Lexeme → Value}
    {lines others : List (List Lexeme)} (agree : List.Forall₂ AgreesOnLayout lines others)
    (same : ∀ {line other : List Lexeme}, AgreesOnLayout line other →
      feature line = feature other) :
    lines.map feature = others.map feature := by
  induction agree with
  | nil => rfl
  | cons first rest induction => rw [List.map_cons, List.map_cons, same first, induction]

/-- Sources agree when their lines do. -/
theorem agree_of_forall₂
    (agree : List.Forall₂ AgreesOnLayout (lexemeLines first) (lexemeLines second)) :
    closeUp first = closeUp second ∧ comments first = comments second ∧
      literals first = literals second := by
  refine ⟨?_, ?_, ?_⟩
  · rw [closeUp_eq, closeUp_eq, ← intercalate_lexemeLines first, ← intercalate_lexemeLines second,
      closedUp_intercalate, closedUp_intercalate, map_eq_of_forall₂ agree (·.closedUp)]
  · rw [comments_eq_flatMap, comments_eq_flatMap, List.flatMap_def, List.flatMap_def,
      map_eq_of_forall₂ agree (·.comments)]
  · rw [literals_eq_flatMap, literals_eq_flatMap, List.flatMap_def, List.flatMap_def,
      map_eq_of_forall₂ agree (·.literals)]

theorem AgreesOnLayout.sameLayout {list other : List Lexeme} (agrees : AgreesOnLayout list other)
    (legible : Legible list) (inLine : Lexeme.newline ∉ list) (legibleOther : Legible other)
    (inLineOther : Lexeme.newline ∉ other) (offset offset' : Nat) :
    (lineOf offset offset list).SameLayout (lineOf offset' offset' other) where
  lineClass := by
    rw [lineClass_lineOf _ _ legible, lineClass_lineOf _ _ legibleOther, agrees.lineClass]
  margin := by
    rw [margin_lineOf _ _ legible inLine, margin_lineOf _ _ legibleOther inLineOther,
      agrees.margin]
  isOpener := by
    rw [isOpener_lineOf _ _ legible inLine, isOpener_lineOf _ _ legibleOther inLineOther,
      ← agrees.lineClass]
    by_cases code : classOf list = .code
    · rw [agrees.endsInColon code]
    · simp [code]
  comment := by rw [comment?_lineOf, comment?_lineOf, agrees.comments]

theorem forall₂_sameLayout
    (agree : List.Forall₂ AgreesOnLayout (lexemeLines first) (lexemeLines second)) :
    List.Forall₂ LogicalLine.SameLayout (logicalLines first) (logicalLines second) := by
  rw [logicalLines_eq_linesFrom, logicalLines_eq_linesFrom]
  apply forall₂_linesFrom
  refine (forall₂_legible agree).imp ?_
  rintro line other ⟨agrees, ⟨legible, inLine⟩, legibleOther, inLineOther⟩
  exact agrees.sameLayout legible inLine legibleOther inLineOther

end Sources

section Orders

variable (table : KeywordTable) (direction : Direction) (rules : FormatRules) (source : Text)

theorem forall₂_agreesOnLayout :
    List.Forall₂ AgreesOnLayout
      (lexemeLines (substitute table direction (formatWith rules source)))
      (lexemeLines (formatWith rules (substitute table direction source))) := by
  rw [lexemeLines_substitute, List.forall₂_map_left_iff]
  apply forall₂_formatWith
  rw [lexemeLines_substitute, List.forall₂_map_right_iff, List.forall₂_same]
  intro list member
  obtain ⟨legible, inLine⟩ := (legibleLines_lexemeLines source).forall_mem list member
  constructor
  · exact (classOf_map_substitute table direction list).symm
  · rw [leadingCode_map_substitute, takeWhile_substituteCode]
  · exact (opensBlock_codeOf_map_substitute table direction legible rules).symm
  · exact agreesOnLayout_written table direction rules legible inLine

/-- Formatting and translating a source can change places.  The two results have the same
lines, with the same indentation, comments and literals, and they are the same text but for
white space in front of opening parentheses. -/
theorem substitute_formatWith_agrees :
    closeUp (substitute table direction (formatWith rules source)) =
        closeUp (formatWith rules (substitute table direction source)) ∧
      List.Forall₂ LogicalLine.SameLayout
        (logicalLines (substitute table direction (formatWith rules source)))
        (logicalLines (formatWith rules (substitute table direction source))) ∧
      (substitute table direction (formatWith rules source)).count '\n' =
        (formatWith rules (substitute table direction source)).count '\n' ∧
      comments (substitute table direction (formatWith rules source)) =
        comments (formatWith rules (substitute table direction source)) ∧
      literals (substitute table direction (formatWith rules source)) =
        literals (formatWith rules (substitute table direction source)) := by
  have agree := forall₂_agreesOnLayout table direction rules source
  obtain ⟨closed, comments, literals⟩ := agree_of_forall₂ agree
  refine ⟨closed, forall₂_sameLayout agree, ?_, comments, literals⟩
  rw [← count_newline_closeUp, closed, count_newline_closeUp]

end Orders

end Bilingual
