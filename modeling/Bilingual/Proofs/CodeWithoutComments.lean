import Bilingual.Proofs.ScannedSeams
import Bilingual.Proofs.LineLevels
import Bilingual.Proofs.ParallelRuns

/-!
# Code without its comment

White space at the end of code is cut off as a token of its own, and nothing else is read
differently because of it.  So where no literal is left open, the comment of a line and the
white space in front of it have no influence on the code.  The main statements are
`codeOf_congr_withoutComment` and `takeWhile_withoutComment`.
-/

namespace Bilingual

/-! ### White space behind code -/

theorem lineTokens_append_blank {code blank : Text}
    (visible : code.getLast?.all (!isWhiteSpace ·) = true) (nonempty : blank ≠ [])
    (space : Text.isBlank blank = true) :
    lineTokens (code ++ blank) = lineTokens code ++ [⟨.whiteSpace, blank⟩] := by
  have whole := flatMap_text_tokens lineMunch code
  have legible := legible_lineTokens code
  change (lineTokens code).flatMap Token.text = code at whole
  generalize lineTokens code = list at whole legible
  subst whole
  have alone := IsLineToken.whiteSpace nonempty (Text.isBlank_iff.1 space)
  induction list with
  | nil =>
      have reads : lineMunch.Reads ⟨.whiteSpace, blank⟩ [] := reads_of_isLineToken alone rfl
      have cut := tokens_of_reads reads
      rwa [List.append_nil, tokens_nil] at cut
  | cons token others induction =>
      obtain ⟨valid, before⟩ := reads_lineMunch_iff.1 legible.1
      rw [List.flatMap_cons] at visible
      have reads : lineMunch.Reads token (others.flatMap Token.text ++ blank) := by
        refine reads_of_isLineToken valid ?_
        cases more : others.flatMap Token.text with
        | cons character rest =>
            rw [more] at before
            exact before
        | nil =>
            obtain ⟨character, rest, rfl⟩ := List.exists_cons_of_ne_nil nonempty
            rw [more, List.append_nil] at visible
            refine Part.canPrecede_of_isWhiteSpace (Bool.eq_false_iff.2 fun blank => ?_)
              (Text.isBlank_iff.1 space character (by simp))
            have kind : token.kind = .whiteSpace := by
              simpa [Part.isBlank, Part.piece, Piece.ofToken, Piece.kind?] using blank
            obtain ⟨last, ends, white⟩ :=
              exists_getLast?_of_forall valid.text_ne_nil (valid.blank kind)
            simp [ends, white] at visible
      have rest := induction legible.2 ?_
      · rw [List.flatMap_cons, List.append_assoc]
        have cut := tokens_of_reads reads
        rw [lineTokens, cut]
        exact congrArg (token :: ·) rest
      · cases more : others.flatMap Token.text with
        | nil => rfl
        | cons character rest =>
            rwa [more, List.getLast?_append_of_ne_nil _ (by simp)] at visible

theorem mem_of_mem_parts {lexeme : Lexeme} {part : Part} (member : part ∈ lexeme.parts) :
    ∀ character ∈ part.text, character ∈ lexeme.text := by
  intro character inside
  cases lexeme with
  | newline => simp [Lexeme.parts] at member
  | comment text => simp [Lexeme.parts] at member
  | literal whole =>
      obtain rfl := List.mem_singleton.1 member
      exact inside
  | code text =>
      obtain ⟨token, known, rfl⟩ := List.mem_map.1 member
      have whole := flatMap_text_tokens lineMunch text
      rw [Lexeme.text, ← whole]
      exact List.mem_flatMap.2 ⟨token, known, inside⟩

/-- White space has no visible parts. -/
theorem isBlank_of_mem_parts_lexemes {blank : Text} (space : Text.isBlank blank = true) :
    ∀ part ∈ (lexemes blank).flatMap Lexeme.parts, part.isBlank = true := by
  intro part member
  have valid := isValid_of_mem_flatMap_parts (legible_lexemes blank) part member
  obtain ⟨lexeme, lexemeOf, partOf⟩ := List.mem_flatMap.1 member
  have white : ∀ character ∈ part.text, isWhiteSpace character = true := by
    intro character inside
    refine Text.isBlank_iff.1 space character ?_
    rw [← textOf_lexemes blank]
    exact List.mem_flatMap.2 ⟨lexeme, lexemeOf, mem_of_mem_parts partOf character inside⟩
  obtain ⟨character, rest, shape⟩ := List.exists_cons_of_ne_nil valid.text_ne_nil
  by_contra shown
  have visible := valid.head?_visible (Bool.eq_false_iff.2 shown)
  rw [shape] at white visible
  simp [white] at visible

/-- Code with white space behind it has the parts of both. -/
theorem parts_consCode_blank {code blank : Text}
    (visible : code.getLast?.all (!isWhiteSpace ·) = true) (space : Text.isBlank blank = true) :
    (consCode code (lexemes blank)).flatMap Lexeme.parts =
      (lineTokens code).map .code ++ (lexemes blank).flatMap Lexeme.parts := by
  rcases consCode_cases code (lexemes blank) with
    ⟨behind, others, shape, same⟩ | ⟨-, ⟨rfl, same⟩ | ⟨-, same⟩⟩
  · have legible := legible_lexemes blank
    have whole := textOf_lexemes blank
    rw [shape] at legible whole
    have nonempty : behind ≠ [] := legible.1.text_ne_nil
    have spaceBehind : Text.isBlank behind = true := by
      rw [← whole, textOf_cons, Text.isBlank_append, Bool.and_eq_true] at space
      exact space.1
    have alone := @lineTokens_append_blank [] behind rfl nonempty spaceBehind
    rw [List.nil_append] at alone
    rw [same, shape, List.flatMap_cons, List.flatMap_cons, Lexeme.parts, Lexeme.parts,
      lineTokens_append_blank visible nonempty spaceBehind, alone]
    simp [lineTokens]
  · rw [same]
    simp [lineTokens]
  · rw [same]
    rfl

theorem parts_lexemes_append_blank {code blank : Text} (ends : EndsInCode code)
    (visible : code.getLast?.all (!isWhiteSpace ·) = true) (space : Text.isBlank blank = true) :
    (lexemes (code ++ blank)).flatMap Lexeme.parts =
      (lexemes code).flatMap Lexeme.parts ++ (lexemes blank).flatMap Lexeme.parts := by
  have apart : ¬QuotesMeet code blank := by
    rintro ⟨quote, -, starts⟩
    have white := Text.isBlank_iff.1 space _ (List.mem_of_head? starts)
    rw [quote.not_isWhiteSpace] at white
    contradiction
  rcases lexemes_append ends apart with ⟨before, text, shape, joined⟩ | ⟨-, joined⟩
  · have legible := legible_lexemes code
    have whole := textOf_lexemes code
    rw [shape] at legible whole
    have nonempty : text ≠ [] := legible.of_append_right.1.text_ne_nil
    have textVisible : text.getLast?.all (!isWhiteSpace ·) = true := by
      rwa [← whole, textOf_append, textOf_cons, textOf_nil, List.append_nil, Lexeme.text,
        List.getLast?_append_of_ne_nil _ nonempty] at visible
    rw [joined, shape, List.flatMap_append, List.flatMap_append,
      parts_consCode_blank textVisible space, List.append_assoc]
    simp [Lexeme.parts]
  · rw [joined, List.flatMap_append]

theorem visibleParts_append_of_isBlank {blanks : List Part}
    (space : ∀ part ∈ blanks, part.isBlank = true) (hadSpace : Bool) (parts : List Part) :
    visibleParts hadSpace (parts ++ blanks) = visibleParts hadSpace parts := by
  induction parts generalizing hadSpace with
  | nil =>
      induction blanks generalizing hadSpace with
      | nil => rfl
      | cons part blanks induction =>
          obtain ⟨first, others⟩ := List.forall_mem_cons.1 space
          simp only [List.nil_append, visibleParts, first, if_true]
          exact induction others true
  | cons part parts induction =>
      rw [List.cons_append, visibleParts, visibleParts, induction, induction]

/-- White space at the end of code is not written. -/
theorem codeOf_lexemes_append_blank {code blank : Text} (ends : EndsInCode code)
    (visible : code.getLast?.all (!isWhiteSpace ·) = true) (space : Text.isBlank blank = true)
    (rules : FormatRules) :
    codeOf rules (lexemes (code ++ blank)) = codeOf rules (lexemes code) := by
  rw [codeOf, codeOf, parts_lexemes_append_blank ends visible space, spaced_eq rules _ false,
    visibleParts_append_of_isBlank (isBlank_of_mem_parts_lexemes space),
    ← spaced_eq rules _ false]

/-! ### Lines without their comments -/

/-- The lexemes of a line without its comment. -/
def withoutComment (list : List Lexeme) : List Lexeme :=
  list.filter (·.comment?.isNone)

section Lines

variable {list other : List Lexeme}

/-- A line is its lexemes without a comment, or these and a comment behind them. -/
theorem withoutComment_cases (legible : Legible list) (inLine : Lexeme.newline ∉ list) :
    withoutComment list = list ∨ ∃ text, list = withoutComment list ++ [.comment text] := by
  induction list with
  | nil => exact .inl rfl
  | cons lexeme others induction =>
      have rest := induction legible.2 fun member => inLine (by simp [member])
      cases lexeme with
      | comment text =>
          obtain rfl := eq_nil_of_comment legible fun member => inLine (by simp [member])
          exact .inr ⟨text, rfl⟩
      | newline => simp at inLine
      | code text | literal whole =>
          simp only [withoutComment, List.filter_cons, Lexeme.comment?, Option.isNone_none,
            if_true, List.cons.injEq, List.cons_append, true_and] at rest ⊢
          exact rest

theorem legible_withoutComment (legible : Legible list) (inLine : Lexeme.newline ∉ list) :
    Legible (withoutComment list) := by
  rcases withoutComment_cases legible inLine with same | ⟨text, shape⟩
  · rwa [same]
  · rw [shape] at legible
    exact legible.of_append_left

/-- In front of a comment all literals are closed. -/
theorem complete_withoutComment (legible : Legible list) (inLine : Lexeme.newline ∉ list)
    (complete : Complete list) : Complete (withoutComment list) := by
  rcases withoutComment_cases legible inLine with same | ⟨text, shape⟩
  · rwa [same]
  · rw [shape] at legible
    intro last lastOf
    have precedes := legible.seam last lastOf
    have first : (Lexeme.comment text).text.head? = _ := head?_comment legible.of_append_right.1
    rw [legible.of_append_right.head?_textOf_cons, first] at precedes
    exact Lexeme.canPrecede_newline precedes

theorem parts_withoutComment (list : List Lexeme) :
    (withoutComment list).flatMap Lexeme.parts = list.flatMap Lexeme.parts := by
  induction list with
  | nil => rfl
  | cons lexeme others induction =>
      cases lexeme <;> simp_all [withoutComment, Lexeme.comment?, Lexeme.parts]

theorem leavesCode_of_canPrecede {lexeme : Lexeme} {character : Char}
    (precedes : lexeme.canPrecede (some character) = true) (other : lexeme.comment? = none) :
    lexeme.leavesCode = true := by
  cases lexeme with
  | comment text => contradiction
  | literal whole =>
      by_contra left
      have opened : whole.closed = false := Bool.eq_false_iff.2 left
      simp [Lexeme.canPrecede, opened] at precedes
  | _ => rfl

/-- Behind closed literals the scanner is in code, also without the white space at the end. -/
theorem endsInCode_trimEnd (legible : Legible list) (inLine : Lexeme.newline ∉ list)
    (complete : Complete list) (noComment : withoutComment list = list) :
    EndsInCode (Text.trimEnd (textOf list)) := by
  rw [endsInCode_iff]
  rcases List.eq_nil_or_concat' list with rfl | ⟨before, last, rfl⟩
  · simp [Text.trimEnd]
  have apart : ∀ lexeme ∈ before ++ [last], lexeme.comment? = none := fun lexeme member =>
    Option.isNone_iff_eq_none.1 (List.filter_eq_self.1 noComment lexeme member)
  cases last with
  | newline => simp at inLine
  | comment text => exact absurd (apart (.comment text) (by simp)) (by simp [Lexeme.comment?])
  | literal whole =>
      have closed : whole.closed = true := by
        by_contra left
        have next := complete (.literal whole) (by simp)
        simp [Lexeme.canPrecede, left] at next
      have reads := legible.of_append_right.1
      have visible : (textOf (before ++ [.literal whole])).getLast?.all
          (!isWhiteSpace ·) = true := by
        rw [textOf_append, List.getLast?_append_of_ne_nil _ (by simp [reads.text_ne_nil]),
          textOf_cons, textOf_nil, List.append_nil, Lexeme.text, reads.getLast?_literal closed]
        simp [Quote.not_isWhiteSpace]
      rw [Text.trimEnd_eq_self_iff.2 visible, lexemes_textOf legible]
      simpa [Lexeme.leavesCode] using closed
  | code text =>
      rw [← textOf_append_trimmed legible inLine,
        lexemes_textOf (legible_append_trimmed legible (by simp) rfl), Lexeme.trimmed]
      split
      · intro lexeme lastOf
        rw [List.append_nil] at lastOf
        have precedes := legible.seam lexeme lastOf
        obtain ⟨character, rest, shape⟩ :=
          List.exists_cons_of_ne_nil legible.of_append_right.1.text_ne_nil
        rw [textOf_cons, shape] at precedes
        exact leavesCode_of_canPrecede precedes
          (apart lexeme (List.mem_append_left _ (List.mem_of_getLast? lastOf)))
      · simp [Lexeme.leavesCode]

/-- Of the text of a line in front of its comment only white space at the end does not
matter to the code. -/
theorem codeOf_lexemes_trimEnd (legible : Legible list) (inLine : Lexeme.newline ∉ list)
    {code : Text} (ends : EndsInCode code)
    (text : Text.trimEnd (textOf (withoutComment list)) = code) (rules : FormatRules) :
    codeOf rules list = codeOf rules (lexemes code) := by
  obtain ⟨blank, space, parts⟩ := Text.trimEnd_append_blank (textOf (withoutComment list))
  rw [text] at parts
  have visible : code.getLast?.all (!isWhiteSpace ·) = true := by
    rw [← text, ← Text.trimEnd_eq_self_iff, Text.trimEnd_trimEnd]
  rw [codeOf, ← parts_withoutComment, ← codeOf,
    ← lexemes_textOf (legible_withoutComment legible inLine), ← parts,
    codeOf_lexemes_append_blank ends visible space]

theorem newline_notMem_withoutComment (inLine : Lexeme.newline ∉ list) :
    Lexeme.newline ∉ withoutComment list :=
  fun member => inLine (List.mem_of_mem_filter member)

/-- The code of two lines is the same when they differ in their comments and in the white
space in front of these, and the first one leaves no literal open. -/
theorem codeOf_congr_withoutComment (legible : Legible list) (inLine : Lexeme.newline ∉ list)
    (complete : Complete list) (legibleOther : Legible other)
    (inLineOther : Lexeme.newline ∉ other)
    (text : Text.trimEnd (textOf (withoutComment list)) =
      Text.trimEnd (textOf (withoutComment other))) (rules : FormatRules) :
    codeOf rules list = codeOf rules other := by
  have ends : EndsInCode (Text.trimEnd (textOf (withoutComment list))) :=
    endsInCode_trimEnd (legible_withoutComment legible inLine)
      (newline_notMem_withoutComment inLine) (complete_withoutComment legible inLine complete)
      (by simp [withoutComment])
  rw [codeOf_lexemes_trimEnd legible inLine ends rfl rules,
    codeOf_lexemes_trimEnd legibleOther inLineOther ends text.symm rules]

/-- The code of a line is not just white space. -/
theorem not_isBlank_withoutComment (legible : Legible list) (inLine : Lexeme.newline ∉ list)
    (code : classOf list = .code) : Text.isBlank (textOf (withoutComment list)) = false := by
  rw [Bool.eq_false_iff]
  intro blank
  have blanks := isBlank_of_mem_parts_lexemes blank
  rw [lexemes_textOf (legible_withoutComment legible inLine), parts_withoutComment] at blanks
  have none : visibleParts false (list.flatMap Lexeme.parts) = [] :=
    visibleParts_append_of_isBlank blanks false []
  apply @codeOf_ne_nil list .standard legible inLine code
  rw [codeOf, spaced_eq _ _ false, none]
  rfl

theorem takeWhile_append_of_not_isBlank {first : Text} (visible : Text.isBlank first = false)
    (second : Text) :
    (first ++ second).takeWhile isWhiteSpace = first.takeWhile isWhiteSpace := by
  rw [List.takeWhile_append, if_neg]
  intro whole
  have same := (List.takeWhile_prefix isWhiteSpace).eq_of_length whole
  rw [← same, Text.isBlank_takeWhile] at visible
  contradiction

/-- The indentation of a line of code is that of its code. -/
theorem takeWhile_withoutComment (legible : Legible list) (inLine : Lexeme.newline ∉ list)
    (code : classOf list = .code) :
    (textOf list).takeWhile isWhiteSpace =
      (Text.trimEnd (textOf (withoutComment list))).takeWhile isWhiteSpace := by
  have visible := not_isBlank_withoutComment legible inLine code
  obtain ⟨blank, space, parts⟩ := Text.trimEnd_append_blank (textOf (withoutComment list))
  have trimmed : Text.isBlank (Text.trimEnd (textOf (withoutComment list))) = false := by
    rw [← parts, Text.isBlank_append, space, Bool.and_true] at visible
    exact visible
  have whole : (textOf (withoutComment list)).takeWhile isWhiteSpace = _ :=
    (congrArg _ parts.symm).trans (takeWhile_append_of_not_isBlank trimmed blank)
  rw [← whole]
  rcases withoutComment_cases legible inLine with same | ⟨text, shape⟩
  · rw [same]
  · rw [← takeWhile_append_of_not_isBlank visible (textOf [.comment text]), ← textOf_append,
      ← shape]

end Lines

end Bilingual
