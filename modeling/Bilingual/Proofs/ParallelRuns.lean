import Bilingual.Proofs.LineLevels

/-!
# Two sources side by side

Where the lines of two sources look alike to the formatter, it puts them at the same
depths and goes on behind them in the same way.  So whatever holds of two bodies behind
any common indentation holds of the lines that are written, `forall₂_formatWith`, and of
their lexemes, `forall₂_lexemeLines_formatWith`.
-/

namespace Bilingual

/-- The formatter treats the lines alike, apart from what it writes behind their
indentation. -/
structure LogicalLine.LooksAlike (rules : FormatRules) (first second : LogicalLine) : Prop where
  lineClass : first.lineClass = second.lineClass
  margin : first.margin = second.margin
  opensBlock : opensBlock (first.spacedCode rules) = opensBlock (second.spacedCode rules)

namespace IndentTracker

variable (tracker : IndentTracker)

/-- The width of the indentation is all that matters of a text. -/
theorem leadingWidth_eq (text : Text) :
    tracker.leadingWidth text = tracker.leadingWidth (text.takeWhile isWhiteSpace) := by
  induction text with
  | nil => rfl
  | cons character rest induction =>
      rw [List.takeWhile_cons]
      by_cases indents : isIndentation character = true
      · rw [if_pos (isWhiteSpace_of_isIndentation indents), leadingWidth, leadingWidth, induction]
      · have other : ¬(character = ' ' || character = '\t') = true := indents
        split <;> simp only [leadingWidth, if_neg other]

variable {rules : FormatRules} {first second : LogicalLine}

theorem leadingWidth_congr (same : first.margin = second.margin) :
    tracker.leadingWidth first.text = tracker.leadingWidth second.text := by
  rw [leadingWidth_eq, leadingWidth_eq tracker second.text]
  exact congrArg tracker.leadingWidth same

theorem depthOf_congr (alike : first.LooksAlike rules second) :
    tracker.depthOf rules first = tracker.depthOf rules second := by
  rw [depthOf, depthOf, alike.lineClass, tracker.leadingWidth_congr alike.margin]

theorem formatLine_snd_congr (alike : first.LooksAlike rules second) :
    (formatLine rules tracker first).2 = (formatLine rules tracker second).2 := by
  have placed : tracker.place? rules first = tracker.place? rules second := by
    rw [place?, place?, alike.lineClass, tracker.depthOf_congr alike, alike.opensBlock]
  rw [formatLine_snd, formatLine_snd, placed, tracker.leadingWidth_congr alike.margin]

end IndentTracker

/-- Two runs over lines that look alike write the same indentations. -/
theorem forall₂_formatLines {rules : FormatRules} {Rel : Text → Text → Prop}
    {lines others : List LogicalLine}
    (alike : List.Forall₂ (fun line other => line.LooksAlike rules other ∧
      ∀ count, Rel (Text.spaces count ++ line.body rules)
        (Text.spaces count ++ other.body rules)) lines others) (tracker : IndentTracker) :
    List.Forall₂ Rel (formatLines rules tracker lines) (formatLines rules tracker others) := by
  induction alike generalizing tracker with
  | nil => exact .nil
  | @cons line other lines others first rest induction =>
      obtain ⟨looks, bodies⟩ := first
      rw [formatLines, formatLines]
      refine .cons ?_ ?_
      · rw [formatLine_fst, formatLine_fst, tracker.depthOf_congr looks]
        exact bodies _
      · rw [tracker.formatLine_snd_congr looks]
        exact induction _

section Lexemes

variable {list other : List Lexeme} {rules : FormatRules}

/-- What stands behind the code at the start of a line is visible. -/
theorem head?_visible_of_leadingCode (legible : Legible list) (inLine : Lexeme.newline ∉ list)
    (none : leadingCode list = []) : (textOf list).head?.all (!isWhiteSpace ·) = true := by
  match list with
  | [] => rfl
  | .newline :: _ => simp at inLine
  | .code text :: others => exact absurd none legible.1.text_ne_nil
  | .comment text :: others =>
      have first : (Lexeme.comment text).text.head? = _ := head?_comment legible.1
      rw [legible.head?_textOf_cons, first]
      decide
  | .literal whole :: others => exact head?_textOf_cons_literal legible

theorem margin_lineOf (offset start : Nat) (legible : Legible list)
    (inLine : Lexeme.newline ∉ list) :
    (lineOf offset start list).margin = (leadingCode list).takeWhile isWhiteSpace := by
  have visible : ∀ {others : List Lexeme},
      (textOf others).head?.all (!isWhiteSpace ·) = true →
        (textOf others).takeWhile isWhiteSpace = [] := by
    intro others shown
    cases shape : textOf others with
    | nil => rfl
    | cons character rest =>
        rw [shape] at shown
        exact List.takeWhile_cons_of_neg (by simpa using shown)
  rw [LogicalLine.margin, text_lineOf]
  cases list with
  | nil => rfl
  | cons lexeme others =>
      cases lexeme with
      | code text =>
          have rest := visible (head?_visible_of_leadingCode legible.2
            (fun member => inLine (by simp [member])) (leadingCode_of_legible legible))
          rw [textOf_cons, List.takeWhile_append, rest]
          split
          · next whole =>
              rw [List.append_nil]
              exact ((List.takeWhile_prefix _).eq_of_length whole).symm
          · rfl
      | _ => exact visible (head?_visible_of_leadingCode legible inLine rfl)

/-- Lines look alike when their lexemes do. -/
theorem looksAlike_lineOf (offset start offset' start' : Nat) (legible : Legible list)
    (inLine : Lexeme.newline ∉ list) (legibleOther : Legible other)
    (inLineOther : Lexeme.newline ∉ other) (lineClass : classOf list = classOf other)
    (margin : (leadingCode list).takeWhile isWhiteSpace =
      (leadingCode other).takeWhile isWhiteSpace)
    (opens : opensBlock (codeOf rules list) = opensBlock (codeOf rules other)) :
    (lineOf offset start list).LooksAlike rules (lineOf offset' start' other) where
  lineClass := by
    rw [lineClass_lineOf _ _ legible, lineClass_lineOf _ _ legibleOther, lineClass]
  margin := by
    rw [margin_lineOf _ _ legible inLine, margin_lineOf _ _ legibleOther inLineOther, margin]
  opensBlock := by
    have code : (lineOf offset start list).spacedCode rules = codeOf rules list :=
      spacedCode_eq legible inLine offset start
    have codeOther : (lineOf offset' start' other).spacedCode rules = codeOf rules other :=
      spacedCode_eq legibleOther inLineOther offset' start'
    rw [code, codeOther, opens]

theorem lexemes_spaces_append_bodyOf (legible : Legible list) (inLine : Lexeme.newline ∉ list)
    (count : Nat) :
    lexemes (Text.spaces count ++ bodyOf rules list) =
      consCode (Text.spaces count) (writtenBody rules list) := by
  have written := (keeps_writtenBody rules legible inLine).legible
  rw [← textOf_writtenBody rules legible inLine, ← textOf_consCode,
    lexemes_textOf (legible_consCode written (isPlainCode_spaces count))]

end Lexemes

/-! ### Formatted sources -/

/-- Lines of sources that are related can be read on their own. -/
theorem forall₂_legible {Rel : List Lexeme → List Lexeme → Prop} {first second : Text}
    (related : List.Forall₂ Rel (lexemeLines first) (lexemeLines second)) :
    List.Forall₂ (fun line other => Rel line other ∧
      (Legible line ∧ Lexeme.newline ∉ line) ∧ Legible other ∧ Lexeme.newline ∉ other)
      (lexemeLines first) (lexemeLines second) := by
  have legible := (legibleLines_lexemeLines first).forall_mem
  have legibleOther := (legibleLines_lexemeLines second).forall_mem
  generalize lexemeLines first = lines at related legible
  generalize lexemeLines second = others at related legibleOther
  induction related with
  | nil => exact .nil
  | cons both rest induction =>
      obtain ⟨line, legible⟩ := List.forall_mem_cons.1 legible
      obtain ⟨other, legibleOther⟩ := List.forall_mem_cons.1 legibleOther
      exact .cons ⟨both, line, other⟩ (induction legible legibleOther)

theorem lexemeLines_formatWith (rules : FormatRules) (source : Text) :
    lexemeLines (formatWith rules source) =
      (formatLines rules (.ofWidth rules.indentWidth) (logicalLines source)).map lexemes := by
  have legible := (legibleLines_lexemeLines (formatWith rules source)).forall_mem
  have readBack : ∀ line ∈ lexemeLines (formatWith rules source),
      (lexemes ∘ textOf) line = id line := fun line member => lexemes_textOf (legible line member).1
  rw [← textOf_lexemeLines_formatWith, List.map_map, List.map_congr_left readBack, List.map_id]

theorem forall₂_linesFrom {Rel : LogicalLine → LogicalLine → Prop}
    {lines others : List (List Lexeme)}
    (related : List.Forall₂ (fun line other => ∀ offset offset',
      Rel (lineOf offset offset line) (lineOf offset' offset' other)) lines others)
    (offset offset' : Nat) :
    List.Forall₂ Rel (linesFrom offset lines) (linesFrom offset' others) := by
  induction related generalizing offset offset' with
  | nil => exact .nil
  | cons first rest induction => exact .cons (first _ _) (induction _ _)

/-- What holds between each line and that line as it is written holds between a source and the
formatted source. -/
theorem forall₂_lexemeLines_formatWith {rules : FormatRules}
    {Rel : List Lexeme → List Lexeme → Prop} {source : Text}
    (written : ∀ line, Legible line → Lexeme.newline ∉ line → ∀ count,
      Rel line (consCode (Text.spaces count) (writtenBody rules line))) :
    List.Forall₂ Rel (lexemeLines source) (lexemeLines (formatWith rules source)) := by
  have legible := (legibleLines_lexemeLines source).forall_mem
  rw [lexemeLines_formatWith, logicalLines_eq_linesFrom]
  generalize lexemeLines source = lines, IndentTracker.ofWidth rules.indentWidth = tracker,
    (0 : Nat) = offset at legible
  induction lines generalizing tracker offset with
  | nil => exact .nil
  | cons line lines induction =>
      obtain ⟨⟨legibleLine, inLine⟩, others⟩ := List.forall_mem_cons.1 legible
      rw [linesFrom, formatLines, List.map_cons, formatLine_fst, body_lineOf legibleLine inLine,
        IndentTracker.indentation, lexemes_spaces_append_bodyOf legibleLine inLine]
      exact .cons (written line legibleLine inLine _) (induction _ _ others)

/-- Lines that look alike to the formatter, with bodies that are related behind any
indentation. -/
structure WrittenAlike (rules : FormatRules) (Rel : List Lexeme → List Lexeme → Prop)
    (list other : List Lexeme) : Prop where
  lineClass : classOf list = classOf other
  margin : (leadingCode list).takeWhile isWhiteSpace =
    (leadingCode other).takeWhile isWhiteSpace
  opensBlock : opensBlock (codeOf rules list) = opensBlock (codeOf rules other)
  bodies : ∀ count, Rel (consCode (Text.spaces count) (writtenBody rules list))
    (consCode (Text.spaces count) (writtenBody rules other))

/-- What holds of the lines of two sources as they are written holds of the lines of the
formatted sources. -/
theorem forall₂_formatWith {rules : FormatRules} {Rel : List Lexeme → List Lexeme → Prop}
    {source other : Text}
    (alike : List.Forall₂ (WrittenAlike rules Rel) (lexemeLines source) (lexemeLines other)) :
    List.Forall₂ Rel (lexemeLines (formatWith rules source))
      (lexemeLines (formatWith rules other)) := by
  rw [lexemeLines_formatWith, lexemeLines_formatWith, List.forall₂_map_left_iff,
    List.forall₂_map_right_iff]
  apply forall₂_formatLines
  rw [logicalLines_eq_linesFrom, logicalLines_eq_linesFrom]
  apply forall₂_linesFrom
  refine (forall₂_legible alike).imp ?_
  rintro line otherLine ⟨both, ⟨legible, inLine⟩, legibleOther, inLineOther⟩ offset offset'
  refine ⟨?_, fun count => ?_⟩
  · exact looksAlike_lineOf _ _ _ _ legible inLine legibleOther inLineOther both.lineClass
      both.margin both.opensBlock
  · rw [body_lineOf legible inLine, body_lineOf legibleOther inLineOther,
      lexemes_spaces_append_bodyOf legible inLine,
      lexemes_spaces_append_bodyOf legibleOther inLineOther]
    exact both.bodies count

end Bilingual
