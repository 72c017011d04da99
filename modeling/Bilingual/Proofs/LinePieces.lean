import Bilingual.Proofs.WrittenCode

/-!
# Pieces of a line

The pieces of a line are its parts, where literals that follow each other are one
piece.  This file shows what is certain about them: their texts make up the line in
front of its comment, and each of them is white space or starts with something
visible.  The main statements are `opensBlock_codeOf` and `endsInColon_written`: where
another line can follow, a line opens a block exactly when its last visible piece is a
colon, and it still does so as it is written.
-/

namespace Bilingual

namespace Piece

/-- The piece is white space. -/
def isBlank (piece : Piece) : Bool :=
  piece.kind? = some .whiteSpace

/-- The last piece that is not white space. -/
def lastVisible? (pieces : List Piece) : Option Piece :=
  (pieces.filter (!·.isBlank)).getLast?

theorem lastVisible?_cons_of_isBlank {piece : Piece} (blank : piece.isBlank = true)
    (pieces : List Piece) : lastVisible? (piece :: pieces) = lastVisible? pieces := by
  rw [lastVisible?, List.filter_cons_of_neg (by simp [blank])]
  rfl

theorem lastVisible?_cons {piece : Piece} (visible : piece.isBlank = false)
    (pieces : List Piece) :
    lastVisible? (piece :: pieces) = (lastVisible? pieces).or (some piece) := by
  rw [lastVisible?, List.filter_cons_of_pos (by simp [visible]), List.getLast?_cons, lastVisible?]
  cases (pieces.filter (!·.isBlank)).getLast? <;> rfl

theorem mem_of_lastVisible? {pieces : List Piece} {piece : Piece}
    (last : piece ∈ lastVisible? pieces) : piece ∈ pieces ∧ piece.isBlank = false := by
  simpa using List.mem_filter.1 (List.mem_of_getLast? last)

section Joined

variable (rules : FormatRules) (previous : Piece) (hadSpace : Bool) {piece : Piece}
  (pieces : List Piece)

theorem joinBehind_cons_of_isBlank (blank : piece.isBlank = true) :
    joinBehind rules previous hadSpace (piece :: pieces) =
      joinBehind rules previous true pieces := by
  rw [joinBehind, if_pos (by simpa [isBlank] using blank)]

theorem joinBehind_cons (visible : piece.isBlank = false) :
    joinBehind rules previous hadSpace (piece :: pieces) =
      gap rules previous piece hadSpace ++ piece.text ++ joinBehind rules piece false pieces := by
  rw [joinBehind, if_neg (by simpa [isBlank] using visible)]

theorem joinPieces_cons_of_isBlank (blank : piece.isBlank = true) :
    joinPieces rules (piece :: pieces) = joinPieces rules pieces := by
  rw [joinPieces, if_pos (by simpa [isBlank] using blank)]

theorem joinPieces_cons (visible : piece.isBlank = false) :
    joinPieces rules (piece :: pieces) = piece.text ++ joinBehind rules piece false pieces := by
  rw [joinPieces, if_neg (by simpa [isBlank] using visible)]

end Joined

/-- The piece is white space, or it starts with something visible. -/
structure IsSound (piece : Piece) : Prop where
  text_ne_nil : piece.text ≠ []
  blank : piece.isBlank = true → Text.isBlank piece.text = true
  visible : piece.isBlank = false → piece.text.head?.all (!isWhiteSpace ·) = true

/-- If the piece is not white space it ends with something visible, and with a colon
only if it is one. -/
structure EndsVisibly (piece : Piece) : Prop where
  visible : piece.isBlank = false → piece.text.getLast?.all (!isWhiteSpace ·) = true
  colon_iff : piece.text.getLast? = some ':' ↔ piece.kind? = some .colon

theorem IsSound.not_isBlank {piece : Piece} (sound : piece.IsSound)
    (visible : piece.isBlank = false) : Text.isBlank piece.text = false := by
  obtain ⟨character, rest, shape⟩ := List.exists_cons_of_ne_nil sound.text_ne_nil
  have starts := sound.visible visible
  rw [shape] at starts ⊢
  exact Text.isBlank_eq_false_of_head? rfl (by simpa using starts)

/-! ### Where the code of a line ends -/

section Ends

variable {rules : FormatRules} {pieces : List Piece}

theorem getLast?_or_lastVisible? (sound : ∀ piece ∈ pieces, piece.IsSound) (first : Piece) :
    ((lastVisible? pieces).bind (·.text.getLast?)).or first.text.getLast? =
      ((lastVisible? pieces).or (some first)).bind (·.text.getLast?) := by
  cases last : lastVisible? pieces with
  | none => rfl
  | some other =>
      have nonempty := (sound other (mem_of_lastVisible? last).1).text_ne_nil
      simp [List.getLast?_eq_some_getLast nonempty]

theorem getLast?_joinBehind (sound : ∀ piece ∈ pieces, piece.IsSound) (previous : Piece)
    (hadSpace : Bool) :
    (joinBehind rules previous hadSpace pieces).getLast? =
      (lastVisible? pieces).bind (·.text.getLast?) := by
  induction pieces generalizing previous hadSpace with
  | nil => rfl
  | cons piece pieces induction =>
      obtain ⟨first, others⟩ := List.forall_mem_cons.1 sound
      cases blank : piece.isBlank with
      | true =>
          rw [joinBehind_cons_of_isBlank _ _ _ _ blank, lastVisible?_cons_of_isBlank blank,
            induction others]
      | false =>
          rw [joinBehind_cons _ _ _ _ blank, lastVisible?_cons blank, List.getLast?_append,
            induction others, List.getLast?_append_of_ne_nil _ first.text_ne_nil,
            getLast?_or_lastVisible? others]

theorem getLast?_joinPieces (sound : ∀ piece ∈ pieces, piece.IsSound) :
    (joinPieces rules pieces).getLast? = (lastVisible? pieces).bind (·.text.getLast?) := by
  induction pieces with
  | nil => rfl
  | cons piece pieces induction =>
      obtain ⟨-, others⟩ := List.forall_mem_cons.1 sound
      cases blank : piece.isBlank with
      | true =>
          rw [joinPieces_cons_of_isBlank _ _ blank, lastVisible?_cons_of_isBlank blank,
            induction others]
      | false =>
          rw [joinPieces_cons _ _ blank, lastVisible?_cons blank, List.getLast?_append,
            getLast?_joinBehind others, getLast?_or_lastVisible? others]

/-- Behind the last visible piece there is nothing but white space. -/
theorem getLast?_trimEnd_flatMap_text (sound : ∀ piece ∈ pieces, piece.IsSound)
    (ends : ∀ piece ∈ pieces, piece.EndsVisibly) :
    (Text.trimEnd (pieces.flatMap text)).getLast? =
      (lastVisible? pieces).bind (·.text.getLast?) := by
  induction pieces using List.reverseRecOn with
  | nil => rfl
  | append_singleton pieces piece induction =>
      have soundPiece := sound piece (by simp)
      have rest := induction (fun other member => sound other (by simp [member]))
        fun other member => ends other (by simp [member])
      rw [List.flatMap_append, List.flatMap_singleton, lastVisible?, List.filter_append]
      cases blank : piece.isBlank with
      | true =>
          rw [Text.trimEnd_append, if_pos (soundPiece.blank blank), rest,
            List.filter_cons_of_neg (by simp [blank]), List.filter_nil, List.append_nil]
          rfl
      | false =>
          have visible := (ends piece (by simp)).visible blank
          rw [Text.trimEnd_append_of_not_isBlank _ (soundPiece.not_isBlank blank),
            Text.trimEnd_eq_self_iff.2 visible,
            List.getLast?_append_of_ne_nil _ soundPiece.text_ne_nil,
            List.filter_cons_of_pos (by simp [blank]), List.filter_nil, List.getLast?_concat]
          rfl

/-- Code that ends as pieces do opens a block exactly when the last visible piece is a
colon. -/
theorem opensBlock_eq {code : Text} (ends : ∀ piece ∈ pieces, piece.EndsVisibly)
    (last : code.getLast? = (lastVisible? pieces).bind (·.text.getLast?)) :
    opensBlock code = (lastVisible? pieces).any (·.kind? = some .colon) := by
  rw [opensBlock, last]
  cases shape : lastVisible? pieces with
  | none => rfl
  | some piece =>
      have colon := (ends piece (mem_of_lastVisible? shape).1).colon_iff
      simp [colon]

end Ends

/-! ### Pieces of parts -/

theorem EndsVisibly.of_getLast? {piece : Piece} {character : Char}
    (last : piece.text.getLast? = some character) (visible : isWhiteSpace character = false)
    (other : character ≠ ':') (noColon : piece.kind? ≠ some .colon) : piece.EndsVisibly where
  visible := fun _ => by simp [last, visible]
  colon_iff := by simp [last, other, noColon]

end Piece

theorem exists_getLast?_of_forall {text : Text} {kind : Char → Bool} (nonempty : text ≠ [])
    (run : ∀ character ∈ text, kind character = true) :
    ∃ character, text.getLast? = some character ∧ kind character = true :=
  ⟨_, List.getLast?_eq_some_getLast nonempty, run _ (List.getLast_mem nonempty)⟩

theorem IsLineToken.endsVisibly {token : Token LineTokenKind} (valid : IsLineToken token) :
    (Piece.ofToken token).EndsVisibly := by
  cases valid with
  | whiteSpace nonempty blank =>
      obtain ⟨character, last, space⟩ := exists_getLast?_of_forall nonempty blank
      have other : character ≠ ':' := by
        rintro rfl
        contradiction
      refine ⟨fun visible => by contradiction, ?_⟩
      simp [Piece.ofToken, Piece.text, Piece.kind?, last, other]
  | word nonempty run =>
      obtain ⟨character, last, word⟩ := exists_getLast?_of_forall nonempty run
      obtain ⟨visible, -, -, -, -, noColon, -⟩ := isLineWordCharacter_iff.1 word
      exact .of_getLast? last visible noColon (by simp [Piece.ofToken, Piece.kind?])
  | operator nonempty run =>
      obtain ⟨character, last, operator⟩ := exists_getLast?_of_forall nonempty run
      obtain ⟨visible, -, -, -, noColon, -⟩ := isOperatorCharacter_cases operator
      exact .of_getLast? last visible noColon (by simp [Piece.ofToken, Piece.kind?])
  | assigningOperator nonempty run =>
      exact .of_getLast? List.getLast?_concat (by decide) (by decide)
        (by simp [Piece.ofToken, Piece.kind?])
  | _ => exact ⟨fun _ => by decide, by decide⟩

/-- What is true of a literal and stays true when a part is put in front of one is true
of all pieces with that part in front. -/
theorem forall_mem_consLiteral {Holds : Piece → Prop} {part : Text} {pieces : List Piece}
    (holds : ∀ piece ∈ pieces, Holds piece) (alone : Holds (.literal part))
    (joined : ∀ text, Holds (.literal text) → Holds (.literal (part ++ text))) :
    ∀ piece ∈ Piece.consLiteral part pieces, Holds piece := by
  match pieces with
  | [] => simpa [Piece.consLiteral] using alone
  | .token _ _ :: _ => exact List.forall_mem_cons.2 ⟨alone, holds⟩
  | .literal text :: pieces =>
      obtain ⟨first, others⟩ := List.forall_mem_cons.1 holds
      exact List.forall_mem_cons.2 ⟨joined text first, others⟩

theorem Part.IsValid.isSound {part : Part} (valid : part.IsValid) : part.piece.IsSound where
  text_ne_nil := by
    rw [Part.text_piece]
    exact valid.text_ne_nil
  blank := by
    rw [Part.text_piece]
    exact fun blank => Text.isBlank_iff.2 (valid.blank blank)
  visible := by
    rw [Part.text_piece]
    exact valid.head?_visible

theorem Part.IsValid.endsVisibly {part : Part} (valid : part.IsValid) (closed : part.IsClosed) :
    part.piece.EndsVisibly := by
  cases part with
  | code token => exact valid.1.endsVisibly
  | literal whole =>
      obtain ⟨rest, reads⟩ := valid
      have noColon : whole.form.quote.character ≠ ':' := by
        cases whole.form.quote <;> decide
      exact .of_getLast? (reads.getLast?_literal closed) whole.form.quote.not_isWhiteSpace noColon
        (by simp [Part.piece, Piece.kind?])

section Parts

variable {parts : List Part}

theorem isSound_of_mem_foldr (valid : ∀ part ∈ parts, part.IsValid) :
    ∀ piece ∈ parts.foldr Part.consPiece [], piece.IsSound := by
  induction parts with
  | nil => simp
  | cons part parts induction =>
      obtain ⟨first, others⟩ := List.forall_mem_cons.1 valid
      have sound := first.isSound
      cases part with
      | code token => exact List.forall_mem_cons.2 ⟨sound, induction others⟩
      | literal whole =>
          refine forall_mem_consLiteral (induction others) sound fun text _ => ?_
          obtain ⟨character, rest, shape⟩ := List.exists_cons_of_ne_nil first.text_ne_nil
          have visible := sound.visible rfl
          rw [Part.text_piece] at visible
          have shape : whole.text = character :: rest := shape
          refine ⟨by simp [Piece.text, shape], fun blank => by contradiction, fun _ => ?_⟩
          simpa [Piece.text, Part.text, shape] using visible

theorem endsVisibly_of_mem_foldr (valid : ∀ part ∈ parts, part.IsValid)
    (closed : ∀ part ∈ parts, part.IsClosed) :
    ∀ piece ∈ parts.foldr Part.consPiece [], piece.EndsVisibly := by
  induction parts with
  | nil => simp
  | cons part parts induction =>
      obtain ⟨first, others⟩ := List.forall_mem_cons.1 valid
      obtain ⟨closedFirst, closedOthers⟩ := List.forall_mem_cons.1 closed
      have ends := first.endsVisibly closedFirst
      cases part with
      | code token => exact List.forall_mem_cons.2 ⟨ends, induction others closedOthers⟩
      | literal whole =>
          refine forall_mem_consLiteral (induction others closedOthers) ends fun text endsText => ?_
          by_cases empty : text = []
          · rwa [empty, List.append_nil]
          · have last : (whole.text ++ text).getLast? = text.getLast? :=
              List.getLast?_append_of_ne_nil _ empty
            refine ⟨fun visible => ?_, ?_⟩
            · rw [Piece.text, last]
              exact endsText.visible visible
            · rw [Piece.text, last]
              exact endsText.colon_iff

theorem flatMap_text_consLiteral (part : Text) (pieces : List Piece) :
    (Piece.consLiteral part pieces).flatMap Piece.text = part ++ pieces.flatMap Piece.text := by
  match pieces with
  | [] => rfl
  | .token _ _ :: _ => rfl
  | .literal text :: pieces => simp [Piece.consLiteral, Piece.text]

/-- The kind of the last visible piece is the kind of the last visible part. -/
theorem lastVisible?_consPiece (part : Part) (pieces : List Piece) :
    (Piece.lastVisible? (part.consPiece pieces)).map Piece.kind? =
      if part.isBlank then (Piece.lastVisible? pieces).map Piece.kind?
      else ((Piece.lastVisible? pieces).map Piece.kind?).or (some part.piece.kind?) := by
  cases part with
  | code token =>
      split
      · next blank => exact congrArg _ (Piece.lastVisible?_cons_of_isBlank blank pieces)
      · next visible =>
          have shown : (Piece.ofToken token).isBlank = false := Bool.eq_false_iff.2 visible
          rw [Part.consPiece, Piece.lastVisible?_cons shown, Option.map_or]
          rfl
  | literal whole =>
      rw [Part.isBlank_literal, if_neg Bool.false_ne_true, Part.consPiece]
      match pieces with
      | [] => rfl
      | .token kind text :: pieces =>
          have last := congrArg (Option.map Piece.kind?)
            (@Piece.lastVisible?_cons (.literal whole.text) rfl (.token kind text :: pieces))
          rwa [Option.map_or] at last
      | .literal other :: pieces =>
          rw [Piece.consLiteral, Piece.lastVisible?_cons rfl, Piece.lastVisible?_cons rfl]
          cases Piece.lastVisible? pieces <;> rfl

theorem flatMap_text_foldr (parts : List Part) :
    (parts.foldr Part.consPiece []).flatMap Piece.text = parts.flatMap Part.text := by
  induction parts with
  | nil => rfl
  | cons part parts induction =>
      rw [List.foldr_cons, List.flatMap_cons, ← induction]
      cases part with
      | code token => rfl
      | literal whole => exact flatMap_text_consLiteral whole.text _

end Parts

/-! ### Pieces of lexemes -/

/-- The pieces of a line of lexemes. -/
def piecesOf (list : List Lexeme) : List Piece :=
  (list.flatMap Lexeme.parts).foldr Part.consPiece []

section Line

variable {list : List Lexeme} {rules : FormatRules}

theorem codeOf_eq_joinPieces (legible : Legible list) :
    codeOf rules list = joinPieces rules (piecesOf list) := by
  rw [piecesOf, (joinAlike_foldr (isValid_of_mem_flatMap_parts legible)).1, joinPieces_map_piece]
  rfl

theorem isSound_of_mem_piecesOf (legible : Legible list) :
    ∀ piece ∈ piecesOf list, piece.IsSound :=
  isSound_of_mem_foldr (isValid_of_mem_flatMap_parts legible)

theorem endsVisibly_of_mem_piecesOf (legible : Legible list) (complete : Complete list) :
    ∀ piece ∈ piecesOf list, piece.EndsVisibly :=
  endsVisibly_of_mem_foldr (isValid_of_mem_flatMap_parts legible)
    (isClosed_of_complete legible complete)

/-- A line is its pieces and the comment behind them. -/
theorem textOf_eq_flatMap_piecesOf (legible : Legible list) (inLine : Lexeme.newline ∉ list) :
    textOf list =
      (piecesOf list).flatMap Piece.text ++ (list.filterMap Lexeme.comment?).head?.getD [] := by
  have whole := congrArg textOf (assemble_parts legible inLine)
  rw [textOf_assemble, ← flatMap_text_foldr] at whole
  rw [← whole, piecesOf]
  rcases comments_cases legible inLine with none | ⟨text, some, -⟩
  · rw [none]
    rfl
  · simp [some, Lexeme.text]

/-- The line of lexemes ends with a colon, but for a comment behind it. -/
def endsInColon (list : List Lexeme) : Bool :=
  (Piece.lastVisible? (piecesOf list)).any (·.kind? = some .colon)

theorem endsInColon_eq_any (list : List Lexeme) :
    endsInColon list =
      ((Piece.lastVisible? (piecesOf list)).map Piece.kind?).any (· = some .colon) := by
  rw [endsInColon, Option.any_map]

theorem getLast?_codeOf (legible : Legible list) :
    (codeOf rules list).getLast? =
      (Piece.lastVisible? (piecesOf list)).bind (·.text.getLast?) := by
  rw [codeOf_eq_joinPieces legible]
  exact Piece.getLast?_joinPieces (isSound_of_mem_piecesOf legible)

/-- Where another line can follow, a line opens a block when its last visible piece is a
colon. -/
theorem opensBlock_codeOf (legible : Legible list) (complete : Complete list) :
    opensBlock (codeOf rules list) = endsInColon list :=
  Piece.opensBlock_eq (endsVisibly_of_mem_piecesOf legible complete) (getLast?_codeOf legible)

theorem opensBlock_trimEnd (legible : Legible list) (complete : Complete list) :
    opensBlock (Text.trimEnd ((piecesOf list).flatMap Piece.text)) = endsInColon list := by
  have ends := endsVisibly_of_mem_piecesOf legible complete
  exact Piece.opensBlock_eq ends
    (Piece.getLast?_trimEnd_flatMap_text (isSound_of_mem_piecesOf legible) ends)

theorem getLast?_codeOf_visible (legible : Legible list) (complete : Complete list) :
    (codeOf rules list).getLast?.all (!isWhiteSpace ·) = true := by
  rw [getLast?_codeOf legible]
  cases last : Piece.lastVisible? (piecesOf list) with
  | none => rfl
  | some piece =>
      obtain ⟨member, visible⟩ := Piece.mem_of_lastVisible? last
      exact (endsVisibly_of_mem_piecesOf legible complete piece member).visible visible

/-- The pieces of a line of code that was written are its indentation and its code, with
two spaces behind them where there is a comment. -/
theorem exists_flatMap_text_piecesOf {written : List Lexeme} {indentation : Text}
    (legible : Legible list) (inLine : Lexeme.newline ∉ list) (code : classOf list = .code)
    (keeps : Keeps list written) (text : textOf written = indentation ++ bodyOf rules list)
    (plain : indentation.all isPlainCode = true) :
    ∃ behind, Text.isBlank behind = true ∧
      (piecesOf written).flatMap Piece.text = indentation ++ codeOf rules list ++ behind := by
  have legibleWritten : Legible (consCode indentation (writtenCode rules list)) :=
    legible_consCode (legible_writtenCode legible inLine) plain
  rw [bodyOf, code, ← textOf_writtenCode legible inLine code, ← textOf_consCode] at text
  obtain rfl := keeps.legible.eq_of_textOf legibleWritten text
  have whole := textOf_eq_flatMap_piecesOf keeps.legible keeps.inLine
  rw [textOf_consCode, textOf_writtenCode legible inLine code,
    filterMap_consCode (fun _ => rfl), writtenCode.eq_def, comments_assemble, ← writtenCode.eq_def,
    comments_writtenComment legible inLine, List.head?_map] at whole
  cases comment : (list.filterMap Lexeme.comment?).head? with
  | none =>
      rw [comment] at whole
      exact ⟨[], rfl, by simpa [trailingComment] using whole.symm⟩
  | some text =>
      rw [comment] at whole
      have nonempty : (codeOf rules list).isEmpty = false :=
        List.isEmpty_eq_false_iff.2 (codeOf_ne_nil legible inLine code)
      refine ⟨Text.spaces 2, Text.isBlank_spaces 2, ?_⟩
      apply @List.append_cancel_right _ _ (Text.trimEnd text)
      simpa [trailingComment, nonempty] using whole.symm

/-- A line that was written ends with a colon if it did so before. -/
theorem endsInColon_written {written : List Lexeme} {indentation : Text}
    (legible : Legible list) (inLine : Lexeme.newline ∉ list) (code : classOf list = .code)
    (complete : Complete list) (keeps : Keeps list written)
    (text : textOf written = indentation ++ bodyOf rules list)
    (plain : indentation.all isPlainCode = true) :
    endsInColon written = endsInColon list := by
  obtain ⟨behind, blank, pieces⟩ :=
    exists_flatMap_text_piecesOf legible inLine code keeps text plain
  have nonempty : codeOf rules list ≠ [] := codeOf_ne_nil legible inLine code
  have visible : (codeOf rules list).getLast?.all (!isWhiteSpace ·) = true :=
    getLast?_codeOf_visible legible complete
  have trimmed : Text.trimEnd ((piecesOf written).flatMap Piece.text) =
      indentation ++ codeOf rules list := by
    rw [pieces, Text.trimEnd_append, if_pos blank, Text.trimEnd_eq_self_iff,
      List.getLast?_append_of_ne_nil _ nonempty]
    exact visible
  rw [← opensBlock_trimEnd keeps.legible (keeps.complete complete), trimmed, opensBlock,
    List.getLast?_append_of_ne_nil _ nonempty]
  exact opensBlock_codeOf legible complete

/-- What ends with a literal does not end with a colon. -/
theorem endsInColon_concat_literal (before : List Lexeme) (whole : Literal) :
    endsInColon (before ++ [.literal whole]) = false := by
  have last : (Piece.lastVisible? (piecesOf (before ++ [.literal whole]))).map Piece.kind? =
      some none := by
    rw [piecesOf, List.flatMap_append, List.foldr_append]
    induction before.flatMap Lexeme.parts with
    | nil => rfl
    | cons part parts induction =>
        rw [List.foldr_cons, lastVisible?_consPiece, induction]
        split <;> rfl
  rw [endsInColon_eq_any, last]
  rfl

theorem endsInColon_of_not_complete (left : ¬Complete list) : endsInColon list = false := by
  rcases List.eq_nil_or_concat' list with rfl | ⟨before, last, rfl⟩
  · rfl
  · cases last with
    | literal whole => exact endsInColon_concat_literal before whole
    | _ => exact absurd (by simp [Complete, Lexeme.canPrecede, isPlainCode]) left

/-- A line of code ends with a colon as it is written if it did so before, also when no
other line can follow it. -/
theorem endsInColon_writtenCode (legible : Legible list) (inLine : Lexeme.newline ∉ list)
    (code : classOf list = .code) (count : Nat) :
    endsInColon (consCode (Text.spaces count) (writtenCode rules list)) = endsInColon list := by
  by_cases complete : Complete list
  · have keeps : Keeps list (consCode (Text.spaces count) (writtenCode rules list)) :=
      (keeps_writtenCode legible inLine code).indent (Text.isBlank_spaces count)
        (isPlainCode_spaces count)
    have text : textOf (consCode (Text.spaces count) (writtenCode rules list)) =
        Text.spaces count ++ bodyOf rules list := by
      rw [textOf_consCode, textOf_writtenCode legible inLine code]
      simp only [bodyOf, code]
    exact endsInColon_written legible inLine code complete keeps text (isPlainCode_spaces count)
  · have left : ¬Complete (consCode (Text.spaces count) (writtenCode rules list)) := by
      rwa [complete_consCode_iff, complete_writtenCode_iff legible inLine]
    rw [endsInColon_of_not_complete complete, endsInColon_of_not_complete left]

end Line

end Bilingual
