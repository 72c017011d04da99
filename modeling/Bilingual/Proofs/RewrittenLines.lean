import Bilingual.Proofs.KeptLines
import Bilingual.Proofs.RespacedParts

/-!
# Writing a line again

A line that was written has a body of its own when it is written again.  That body
is the same text, unless a colon has come to stand directly in front of `==`.  The
main statement is `bodyOf_again_iff`.
-/

namespace Bilingual

variable {rules : FormatRules} {list written : List Lexeme}

/-! ### The start of a body -/

theorem head?_bodyOf (legible : Legible list) (inLine : Lexeme.newline ∉ list) :
    (bodyOf rules list).head?.all (!isWhiteSpace ·) = true := by
  rw [bodyOf]
  cases kind : classOf list with
  | blank => rfl
  | comment => exact Text.head?_trim _
  | docstring =>
      dsimp only
      split
      · exact Text.head?_trimStart _
      · exact Text.head?_trim _
  | code =>
      obtain ⟨character, rest, shape, shown⟩ :=
        @exists_codeOf_eq_cons list rules legible inLine kind
      simp [shape, shown]

/-! ### Code -/

/-- The line is one of code in which a colon comes to stand directly in front of
`==`. -/
def gluesColon (rules : FormatRules) (list : List Lexeme) : Bool :=
  classOf list = .code &&
    (!rules.spaceAfterColon &&
      gluesPlaced false (visibleParts false (list.flatMap Lexeme.parts)))

theorem isLineEnd_writtenComment (legible : Legible list) (inLine : Lexeme.newline ∉ list) :
    IsLineEnd (writtenComment list) := by
  rcases writtenComment_cases legible inLine with ⟨-, written⟩ | ⟨text, -, written, -⟩
  · rw [written]
    exact ⟨by simp, rfl⟩
  · have blank := Text.isBlank_iff.1 (Text.isBlank_spaces 2)
    have reads : lineMunch.Reads ⟨.whiteSpace, Text.spaces 2⟩
        (leadingCode [.comment (Text.trimEnd text)]) :=
      reads_of_isLineToken (.whiteSpace (by decide) blank) rfl
    have parts : (writtenComment list).flatMap Lexeme.parts = _ :=
      (congrArg _ written).trans (parts_consCode reads)
    refine ⟨?_, by rw [written]; rfl⟩
    rw [parts]
    simp [Lexeme.parts, Part.isBlank, Part.piece, Piece.ofToken, Piece.kind?]

/-- The code of a line is the same when it is spaced again, unless a colon comes to
stand directly in front of `==`. -/
theorem codeOf_writtenCode_iff (legible : Legible list) (inLine : Lexeme.newline ∉ list)
    (code : classOf list = .code) :
    codeOf rules (writtenCode rules list) = codeOf rules list ↔ gluesColon rules list = false := by
  obtain ⟨gap, part, others, shape, -, valid, visible, follows⟩ :=
    exists_visibleParts legible inLine code
  have parts : spaced rules (list.flatMap Lexeme.parts) = _ := spaced_of_visibleParts shape
  have again := @codeOf_assemble_iff rules (writtenComment list) part others
    (isLineEnd_writtenComment legible inLine) valid visible follows
  rw [writtenCode, codeOf.eq_def rules list, parts, List.flatMap_cons, again, gluesColon, shape]
  simp [code, gluesPlaced]

/-! ### All lines -/

theorem bodyOf_again_comment (text : textOf written = bodyOf rules list)
    (kind : classOf list = .comment) (keeps : Keeps list written) :
    bodyOf rules written = textOf written := by
  rw [bodyOf, kind] at text
  rw [bodyOf, keeps.lineClass, kind, text]
  exact Text.trim_trim _

theorem bodyOf_again_docstring (legible : Legible list) (kind : classOf list = .docstring)
    (text : textOf written = bodyOf rules list) (keeps : Keeps list written) :
    bodyOf rules written = textOf written := by
  have again : classOf written = .docstring := by rw [keeps.lineClass, kind]
  obtain ⟨blank, whole, rest, space, rfl, docstring, shown⟩ :=
    exists_of_classOf_docstring legible kind
  have visible := head?_textOf_cons_literal shown
  rw [bodyOf_consCode space visible, bodyOf, classOf_cons_literal shown.1, docstring] at text
  dsimp only at text
  split at text
  · next literal =>
      rw [Text.trimStart_eq_self visible] at text
      obtain rfl := keeps.legible.eq_of_textOf shown text
      rw [bodyOf, again]
      simp only [literal, if_true, Text.trimStart_eq_self visible]
  · rw [bodyOf, again, text]
    dsimp only
    split
    · exact Text.trimStart_trim _
    · exact Text.trim_trim _

theorem trailingComment_trimEnd {first second : Text} (nonempty : first ≠ [])
    (other : second ≠ []) (comment : Option Text) :
    trailingComment first (comment.map Text.trimEnd) = trailingComment second comment := by
  rw [trailingComment_map_trimEnd]
  cases comment with
  | none => rfl
  | some text => simp [trailingComment, nonempty, other]

theorem bodyOf_again_code_iff (legible : Legible list) (inLine : Lexeme.newline ∉ list)
    (kind : classOf list = .code) :
    bodyOf rules (writtenCode rules list) = textOf (writtenCode rules list) ↔
      gluesColon rules list = false := by
  have keeps : Keeps list (writtenCode rules list) := keeps_writtenCode legible inLine kind
  have again : classOf (writtenCode rules list) = .code := keeps.lineClass.trans kind
  have comments : (writtenCode rules list).filterMap Lexeme.comment? =
      (list.filterMap Lexeme.comment?).map Text.trimEnd := by
    rw [writtenCode, comments_assemble, comments_writtenComment legible inLine]
  rw [← codeOf_writtenCode_iff legible inLine kind, textOf_writtenCode legible inLine kind, bodyOf,
    again, comments, List.head?_map]
  dsimp only
  rw [trailingComment_trimEnd (codeOf_ne_nil keeps.legible keeps.inLine again)
    (codeOf_ne_nil legible inLine kind), List.append_cancel_right_eq]

/-- The body of a line is the same when it is written again, unless a colon comes to
stand directly in front of `==`. -/
theorem bodyOf_again_iff (legible : Legible list) (inLine : Lexeme.newline ∉ list)
    (text : textOf written = bodyOf rules list) (keeps : Keeps list written) :
    bodyOf rules written = bodyOf rules list ↔ gluesColon rules list = false := by
  rw [← text]
  cases kind : classOf list with
  | blank =>
      have empty : Legible [] := trivial
      rw [bodyOf, kind] at text
      obtain rfl := keeps.legible.eq_of_textOf empty text
      exact iff_of_true rfl (by simp [gluesColon, kind])
  | comment =>
      exact iff_of_true (bodyOf_again_comment text kind keeps) (by simp [gluesColon, kind])
  | docstring =>
      exact iff_of_true (bodyOf_again_docstring legible kind text keeps)
        (by simp [gluesColon, kind])
  | code =>
      rw [bodyOf, kind, ← textOf_writtenCode legible inLine kind] at text
      obtain rfl := keeps.legible.eq_of_textOf (legible_writtenCode legible inLine) text
      exact bodyOf_again_code_iff legible inLine kind

theorem codeOf_again (legible : Legible list) (inLine : Lexeme.newline ∉ list)
    (text : textOf written = bodyOf rules list) (keeps : Keeps list written)
    (kind : classOf list = .code) (apart : gluesColon rules list = false) :
    codeOf rules written = codeOf rules list := by
  rw [bodyOf, kind, ← textOf_writtenCode legible inLine kind] at text
  obtain rfl := keeps.legible.eq_of_textOf (legible_writtenCode legible inLine) text
  exact (codeOf_writtenCode_iff legible inLine kind).2 apart

/-! ### Lines with their indentation -/

section Indented

variable {count : Nat}

theorem exists_body (legible : Legible list) (inLine : Lexeme.newline ∉ list)
    (shown : Legible written) (text : textOf written = Text.spaces count ++ bodyOf rules list) :
    ∃ body, written = consCode (Text.spaces count) body ∧ textOf body = bodyOf rules list ∧
      Keeps list body := by
  have bodyText := textOf_writtenBody rules legible inLine
  have keeps := keeps_writtenBody rules legible inLine
  refine ⟨writtenBody rules list,
    shown.eq_of_textOf (legible_consCode keeps.legible (isPlainCode_spaces count)) ?_,
    bodyText, keeps⟩
  rw [text, textOf_consCode, bodyText]

theorem bodyOf_indented_iff (legible : Legible list) (inLine : Lexeme.newline ∉ list)
    (shown : Legible written) (text : textOf written = Text.spaces count ++ bodyOf rules list) :
    bodyOf rules written = bodyOf rules list ↔ gluesColon rules list = false := by
  obtain ⟨body, rfl, bodyText, keeps⟩ := exists_body legible inLine shown text
  have visible : (textOf body).head?.all (!isWhiteSpace ·) = true := by
    rw [bodyText]
    exact head?_bodyOf legible inLine
  rw [bodyOf_consCode (Text.isBlank_spaces count) visible,
    bodyOf_again_iff legible inLine bodyText keeps]

theorem codeOf_indented (legible : Legible list) (inLine : Lexeme.newline ∉ list)
    (shown : Legible written) (text : textOf written = Text.spaces count ++ bodyOf rules list)
    (kind : classOf list = .code) (apart : gluesColon rules list = false) :
    codeOf rules written = codeOf rules list := by
  obtain ⟨body, rfl, bodyText, keeps⟩ := exists_body legible inLine shown text
  have visible : (textOf body).head?.all (!isWhiteSpace ·) = true := by
    rw [bodyText]
    exact head?_bodyOf legible inLine
  rw [codeOf_consCode (Text.isBlank_spaces count) visible,
    codeOf_again legible inLine bodyText keeps kind apart]

end Indented

/-! ### The pieces of a line -/

/-- Among pieces a colon is followed by `==`, with nothing but white space between
the two. -/
def gluesPieces (afterColon : Bool) : List Piece → Bool
  | [] => false
  | piece :: pieces =>
      if piece.kind? = some .whiteSpace then gluesPieces afterColon pieces
      else
        (afterColon && piece = .token .operator ['=', '=']) ||
          gluesPieces (piece = .token .colon [':']) pieces

/-- The formatter is about to write a colon directly in front of `==`. -/
def LogicalLine.gluesColon (line : LogicalLine) (rules : FormatRules) : Bool :=
  line.lineClass = .code &&
    (!rules.spaceAfterColon && gluesPieces false (Piece.ofSpans line.spans))

theorem gluesPieces_consLiteral (afterColon : Bool) (text : Text) (pieces : List Piece) :
    gluesPieces afterColon (Piece.consLiteral text pieces) = gluesPieces false pieces := by
  match pieces with
  | [] | .token _ _ :: _ | .literal _ :: _ => simp [Piece.consLiteral, gluesPieces, Piece.kind?]

theorem gluesPieces_foldr (parts : List Part) (afterColon hadSpace : Bool) :
    gluesPieces afterColon (parts.foldr Part.consPiece []) =
      gluesPlaced afterColon (visibleParts hadSpace parts) := by
  induction parts generalizing afterColon hadSpace with
  | nil => rfl
  | cons part parts induction =>
      rw [List.foldr_cons, visibleParts]
      cases part with
      | literal whole =>
          rw [Part.consPiece, gluesPieces_consLiteral, induction false false]
          simp [gluesPlaced, Part.equality, Part.colon]
      | code token =>
          have sign : (Part.code token = .equality) =
              (Piece.ofToken token = .token .operator ['=', '=']) := by
            obtain ⟨kind, text⟩ := token
            simp [Part.equality, Piece.ofToken]
          have colon : (Part.code token = .colon) =
              (Piece.ofToken token = .token .colon [':']) := by
            obtain ⟨kind, text⟩ := token
            simp [Part.colon, Piece.ofToken]
          rw [Part.consPiece, gluesPieces, Part.isBlank, Part.piece]
          by_cases blank : (Piece.ofToken token).kind? = some .whiteSpace
          · simp only [blank, if_true, decide_true, induction afterColon true]
          · simp only [blank, if_false, decide_false, Bool.false_eq_true, gluesPlaced, sign, colon,
              induction _ false]

/-- Whether a colon comes to stand in front of `==` is seen on the spans of a line. -/
theorem gluesColon_lineOf (legible : Legible list) (inLine : Lexeme.newline ∉ list)
    (offset start : Nat) :
    (lineOf offset start list).gluesColon rules = gluesColon rules list := by
  rw [LogicalLine.gluesColon, lineClass_lineOf offset start legible, lineOf,
    ofSpans_spansFrom legible inLine, gluesPieces_foldr _ false false, gluesColon]

end Bilingual
