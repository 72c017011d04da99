import Bilingual.Proofs.LineLevels

/-!
# Tidy lines

A line is written as it stands exactly when it stands at its column and its white space
is what the formatter writes: between two pieces what is decided for them, and behind the
last one nothing, or two spaces in front of a comment.  The main statement is
`textOf_eq_written_iff`.
-/

namespace Bilingual

namespace Piece

/-- The pieces that are not white space, each with the white space in front of it.
`blank` is the white space that was met since the last one. -/
def placed (blank : Text) : List Piece → List (Text × Piece)
  | [] => []
  | piece :: pieces =>
      if piece.isBlank then placed (blank ++ piece.text) pieces
      else (blank, piece) :: placed [] pieces

/-- The white space behind the last piece that is not white space. -/
def trailing (blank : Text) : List Piece → Text
  | [] => blank
  | piece :: pieces =>
      if piece.isBlank then trailing (blank ++ piece.text) pieces else trailing [] pieces

end Piece

/-- The white space in front of the second piece is what is written between the two. -/
def IsGap (rules : FormatRules) (first second : Text × Piece) : Prop :=
  second.1 = gap rules first.2 second.2 (!second.1.isEmpty)

namespace LogicalLine

/-- Nothing stands behind the code of the line, or two spaces and a comment that does not
end with white space. -/
def EndsTidily (line : LogicalLine) : Prop :=
  match line.comment? with
  | none => Piece.trailing [] (Piece.ofSpans line.spans) = []
  | some comment =>
      Piece.trailing [] (Piece.ofSpans line.spans) = Text.spaces 2 ∧
        Text.trimEnd comment = comment

/-- The white space of the line behind its indentation is what the formatter writes. -/
def IsTidy (rules : FormatRules) (line : LogicalLine) : Prop :=
  match line.lineClass with
  | .blank => True
  | .comment => Text.trimEnd line.text = line.text
  | .docstring => line.endsInLiteral = true ∨ Text.trimEnd line.text = line.text
  | .code =>
      (Piece.placed [] (Piece.ofSpans line.spans)).IsChain (IsGap rules) ∧ line.EndsTidily

end LogicalLine

/-! ### Pieces and the white space between them -/

section Pieces

variable {rules : FormatRules} {pieces : List Piece}

theorem isBlank_gap (previous next : Piece) (hadSpace : Bool) :
    Text.isBlank (gap rules previous next hadSpace) = true := by
  unfold gap
  split
  · exact Text.isBlank_spaces 1
  · rfl

theorem Piece.IsSound.head?_append {piece : Piece} (sound : piece.IsSound)
    (visible : piece.isBlank = false) (behind : Text) :
    (piece.text ++ behind).head?.all (!isWhiteSpace ·) = true := by
  obtain ⟨character, rest, shape⟩ := List.exists_cons_of_ne_nil sound.text_ne_nil
  have starts := sound.visible visible
  rw [shape] at starts ⊢
  exact starts

theorem Piece.IsSound.isBlank_append {piece : Piece} (sound : piece.IsSound)
    (blankPiece : piece.isBlank = true) {blank : Text} (space : Text.isBlank blank = true) :
    Text.isBlank (blank ++ piece.text) = true := by
  rw [Text.isBlank_append, space, sound.blank blankPiece]
  rfl

theorem isBlank_trailing (sound : ∀ piece ∈ pieces, piece.IsSound) {blank : Text}
    (space : Text.isBlank blank = true) : Text.isBlank (Piece.trailing blank pieces) = true := by
  induction pieces generalizing blank with
  | nil => exact space
  | cons piece pieces induction =>
      obtain ⟨first, others⟩ := List.forall_mem_cons.1 sound
      rw [Piece.trailing]
      split
      · next blankPiece => exact induction others (first.isBlank_append blankPiece space)
      · exact @induction others [] rfl

/-- Behind a piece, the others stand as they are written exactly when the white space in
front of each is what is written there, and the ends agree. -/
theorem append_eq_joinBehind_iff (sound : ∀ piece ∈ pieces, piece.IsSound) {blank : Text}
    (space : Text.isBlank blank = true) (front : Text) (previous : Piece) (tail written : Text) :
    blank ++ (pieces.flatMap Piece.text ++ tail) =
        joinBehind rules previous (!blank.isEmpty) pieces ++ written ↔
      ((front, previous) :: Piece.placed blank pieces).IsChain (IsGap rules) ∧
        Piece.trailing blank pieces ++ tail = written := by
  -- `blank` gathers white space up to the next visible piece, which ends it.
  induction pieces generalizing blank front previous with
  | nil => simp [joinBehind, Piece.placed, Piece.trailing]
  | cons piece pieces induction =>
      obtain ⟨first, others⟩ := List.forall_mem_cons.1 sound
      rw [Piece.placed, Piece.trailing, List.flatMap_cons, List.append_assoc]
      cases blankPiece : piece.isBlank with
      | true =>
          have met : (!(blank ++ piece.text).isEmpty) = true := by
            simp [first.text_ne_nil]
          have rest := induction others (first.isBlank_append blankPiece space) front previous
          rw [met] at rest
          rw [Piece.joinBehind_cons_of_isBlank _ _ _ _ blankPiece, if_pos rfl, if_pos rfl, ← rest,
            List.append_assoc]
      | false =>
          have none : Text.isBlank [] = true := rfl
          have visible := first.head?_append blankPiece
          have rest := induction others none blank piece
          rw [Piece.joinBehind_cons _ _ _ _ blankPiece, if_neg Bool.false_ne_true,
            if_neg Bool.false_ne_true, List.isChain_cons_cons, and_assoc, ← rest,
            List.append_assoc, List.append_assoc,
            Text.isBlank_append_inj space (isBlank_gap _ _ _) (visible _) (visible _),
            List.append_cancel_left_eq]
          rfl

/-- Pieces stand as they are written behind a margin exactly when they stand behind that
margin, the white space in front of each other one is what is written there, and the ends
agree. -/
theorem append_eq_joinPieces_iff (sound : ∀ piece ∈ pieces, piece.IsSound)
    (shown : Piece.lastVisible? pieces ≠ none) {blank margin : Text}
    (space : Text.isBlank blank = true) (spaceMargin : Text.isBlank margin = true)
    (tail written : Text) :
    blank ++ (pieces.flatMap Piece.text ++ tail) =
        margin ++ (joinPieces rules pieces ++ written) ↔
      (blank ++ (pieces.flatMap Piece.text ++ tail)).takeWhile isWhiteSpace = margin ∧
        (Piece.placed blank pieces).IsChain (IsGap rules) ∧
          Piece.trailing blank pieces ++ tail = written := by
  induction pieces generalizing blank with
  | nil => contradiction
  | cons piece pieces induction =>
      obtain ⟨first, others⟩ := List.forall_mem_cons.1 sound
      rw [Piece.placed, Piece.trailing, List.flatMap_cons, List.append_assoc]
      cases blankPiece : piece.isBlank with
      | true =>
          rw [Piece.lastVisible?_cons_of_isBlank blankPiece] at shown
          have rest := induction others shown (first.isBlank_append blankPiece space)
          rw [Piece.joinPieces_cons_of_isBlank _ _ blankPiece, if_pos rfl, if_pos rfl,
            ← List.append_assoc blank]
          exact rest
      | false =>
          have visible := first.head?_append blankPiece
          have rest := @append_eq_joinBehind_iff rules _ others [] rfl blank piece tail written
          rw [Piece.joinPieces_cons _ _ blankPiece, if_neg Bool.false_ne_true,
            if_neg Bool.false_ne_true, ← rest, List.append_assoc,
            Text.takeWhile_of_isBlank_append space (visible _),
            Text.isBlank_append_inj space spaceMargin (visible _) (visible _),
            List.append_cancel_left_eq]
          rfl

end Pieces

/-! ### Lines -/

section Lines

variable {list : List Lexeme} {rules : FormatRules}

theorem lastVisible?_piecesOf_ne_none (legible : Legible list) (inLine : Lexeme.newline ∉ list)
    (code : classOf list = .code) : Piece.lastVisible? (piecesOf list) ≠ none := by
  intro none
  have last := @getLast?_codeOf list .standard legible
  rw [none, Option.bind_none, List.getLast?_eq_none_iff] at last
  exact codeOf_ne_nil legible inLine code last

theorem endsTidily_lineOf_iff (offset start : Nat) (legible : Legible list)
    (inLine : Lexeme.newline ∉ list) (code : classOf list = .code) :
    (lineOf offset start list).EndsTidily ↔
      Piece.trailing [] (piecesOf list) ++ (list.filterMap Lexeme.comment?).head?.getD [] =
        trailingComment (codeOf rules list) (list.filterMap Lexeme.comment?).head? := by
  have pieces : Piece.ofSpans (lineOf offset start list).spans = piecesOf list :=
    ofSpans_spansFrom legible inLine start
  have blank : Text.isBlank (Piece.trailing [] (piecesOf list)) = true :=
    isBlank_trailing (isSound_of_mem_piecesOf legible) rfl
  have nonempty : (codeOf rules list).isEmpty = false :=
    List.isEmpty_eq_false_iff.2 (codeOf_ne_nil legible inLine code)
  rw [LogicalLine.EndsTidily, comment?_lineOf, pieces]
  rcases comments_cases legible inLine with none | ⟨text, some, -, shown⟩
  · simp [none, trailingComment]
  · have visible : text.head?.all (!isWhiteSpace ·) = true := by
      rw [head?_comment shown.1]
      decide
    have seam := Text.isBlank_append_inj blank (Text.isBlank_spaces 2) visible
      (Text.head?_trimEnd_of_visible visible)
    simp only [some, List.head?_cons, Option.getD_some, trailingComment, nonempty]
    rw [if_neg Bool.false_ne_true, seam, eq_comm (a := text)]

theorem isTidy_code_iff (offset start columns : Nat) (legible : Legible list)
    (inLine : Lexeme.newline ∉ list) (code : classOf list = .code) :
    textOf list = Text.spaces columns ++ bodyOf rules list ↔
      (lineOf offset start list).IndentedBy columns ∧ (lineOf offset start list).IsTidy rules := by
  have pieces : Piece.ofSpans (lineOf offset start list).spans = piecesOf list :=
    ofSpans_spansFrom legible inLine start
  have joined := @append_eq_joinPieces_iff rules _ (isSound_of_mem_piecesOf legible)
    (lastVisible?_piecesOf_ne_none legible inLine code) [] (Text.spaces columns) rfl
    (Text.isBlank_spaces columns) ((list.filterMap Lexeme.comment?).head?.getD [])
    (trailingComment (codeOf rules list) (list.filterMap Lexeme.comment?).head?)
  rw [List.nil_append, ← textOf_eq_flatMap_piecesOf legible inLine,
    ← codeOf_eq_joinPieces legible, ← endsTidily_lineOf_iff offset start legible inLine code]
    at joined
  rw [bodyOf, code, LogicalLine.IsTidy, lineClass_lineOf offset start legible, code, pieces,
    LogicalLine.IndentedBy, LogicalLine.margin, text_lineOf]
  exact joined

/-- A line that is not blank is written as it stands behind so many spaces exactly when it
is indented by as many, and tidy. -/
theorem textOf_eq_written_iff (offset start columns : Nat) (legible : Legible list)
    (inLine : Lexeme.newline ∉ list) (shown : classOf list ≠ .blank) :
    textOf list = Text.spaces columns ++ bodyOf rules list ↔
      (lineOf offset start list).IndentedBy columns ∧ (lineOf offset start list).IsTidy rules := by
  have visible : (bodyOf rules list).head?.all (!isWhiteSpace ·) = true :=
    head?_bodyOf legible inLine
  have notBlank : Text.isBlank (textOf list) = false := by
    by_contra blank
    exact shown (by rw [classOf, if_pos (by simpa using blank)])
  cases kind : classOf list with
  | blank => contradiction
  | code => exact isTidy_code_iff offset start columns legible inLine kind
  | comment =>
      rw [Text.eq_spaces_append_iff visible, bodyOf, kind, LogicalLine.IsTidy,
        lineClass_lineOf offset start legible, kind, LogicalLine.IndentedBy, LogicalLine.margin,
        text_lineOf, Text.trimStart_eq_trim_iff notBlank]
  | docstring =>
      rw [Text.eq_spaces_append_iff visible, bodyOf, kind, LogicalLine.IsTidy,
        lineClass_lineOf offset start legible, kind, LogicalLine.IndentedBy, LogicalLine.margin,
        text_lineOf, endsInLiteral_lineOf offset start legible]
      cases list.getLast?.any (·.lastKind.isLiteral) with
      | true => simp
      | false => simp [Text.trimStart_eq_trim_iff notBlank]

end Lines

end Bilingual
