import Bilingual.LineSpacing
import Bilingual.Proofs.LinePieces
import Bilingual.Proofs.LineSlices

/-!
# Pieces cut out of a line

The pieces of a line can be read from the first span to the last, and by byte positions:
each piece is a range, and the range of a literal goes on as long as the next part of a
literal starts where it stops.  The text of a piece is cut out of the line.  No such cut
fails, and the pieces are those of the line, by `slicedPieces?_eq`.
-/

namespace Bilingual

/-! ### Pieces from the first span on -/

namespace Piece

/-- Puts a part of a literal behind pieces, the last of which it goes on with if that is
a literal. -/
def concatLiteral (part : Text) : List Piece → List Piece
  | [] => [.literal part]
  | [.literal text] => [.literal (text ++ part)]
  | piece :: pieces => piece :: concatLiteral part pieces

/-- Puts the pieces of a span behind others. -/
def addSpan (pieces : List Piece) (span : Span) : List Piece :=
  match span.kind with
  | .code => pieces ++ (lineTokens span.text).map ofToken
  | .comment => pieces
  | .string | .docstring | .newline => concatLiteral span.text pieces

theorem concatLiteral_append_tokens (part : Text) (tokens : List (Token LineTokenKind))
    (pieces : List Piece) :
    concatLiteral part (tokens.map ofToken ++ pieces) =
      tokens.map ofToken ++ concatLiteral part pieces := by
  induction tokens with
  | nil => rfl
  | cons token tokens induction =>
      rw [List.map_cons, List.cons_append, List.cons_append, ← induction]
      rfl

theorem consLiteral_append_tokens (part : Text) (pieces : List Piece)
    (tokens : List (Token LineTokenKind)) :
    consLiteral part (pieces ++ tokens.map ofToken) =
      consLiteral part pieces ++ tokens.map ofToken := by
  match pieces with
  | [] => cases tokens <;> rfl
  | .token kind text :: pieces => rfl
  | .literal text :: pieces => rfl

theorem consLiteral_concatLiteral (first last : Text) (pieces : List Piece) :
    consLiteral first (concatLiteral last pieces) =
      concatLiteral last (consLiteral first pieces) := by
  match pieces with
  | [] => rfl
  | [.token kind text] => rfl
  | [.literal text] => simp [consLiteral, concatLiteral]
  | .token kind text :: next :: pieces => rfl
  | .literal text :: next :: pieces => rfl

/-- The last span puts its pieces behind those of the spans in front of it. -/
theorem ofSpans_concat (spans : List Span) (span : Span) :
    ofSpans (spans ++ [span]) = addSpan (ofSpans spans) span := by
  induction spans with
  | nil =>
      cases kind : span.kind <;> simp [ofSpans, addSpan, kind, consLiteral, concatLiteral]
  | cons first others induction =>
      rw [List.cons_append, ofSpans, ofSpans, induction]
      cases kind : first.kind <;> cases other : span.kind <;>
        simp [addSpan, other, concatLiteral_append_tokens, consLiteral_append_tokens,
          consLiteral_concatLiteral]

theorem flatMap_text_ofSpans {spans : List Span}
    (noComment : ∀ span ∈ spans, span.kind ≠ .comment) :
    (ofSpans spans).flatMap Piece.text = spans.flatMap Span.text := by
  induction spans with
  | nil => rfl
  | cons span spans induction =>
      have rest := induction fun other member => noComment other (by simp [member])
      have first := noComment span (by simp)
      have tokens : ((lineTokens span.text).map ofToken).flatMap Piece.text = span.text := by
        rw [List.flatMap_map]
        exact flatMap_text_tokens lineMunch span.text
      cases kind : span.kind with
      | comment => contradiction
      | code => simp [ofSpans, kind, rest, tokens]
      | _ => simp [ofSpans, kind, rest, flatMap_text_consLiteral]

end Piece

/-! ### Ranges of pieces -/

/-- The byte positions between which a piece stands, and its kind if it is a token. -/
structure PieceRange where
  kind? : Option LineTokenKind
  start : Nat
  stop : Nat
  deriving DecidableEq, Repr

namespace PieceRange

/-- The piece of a range that is cut out of a line. -/
def piece (range : PieceRange) (text : Text) : Piece :=
  match range.kind? with
  | some kind => .token kind text
  | none => .literal text

/-- The range of a token that starts at a position. -/
def ofToken (located : Nat × Token LineTokenKind) : PieceRange :=
  ⟨some located.2.kind, located.1, located.1 + Text.byteLength located.2.text⟩

/-- Puts a part of a literal behind ranges.  The last one goes on with it if it is that of
a literal and stops where the part starts. -/
def concatLiteral (part : Span) : List PieceRange → List PieceRange
  | [] => [⟨none, part.start, part.stop⟩]
  | [last] =>
      if last.kind? = none ∧ last.stop = part.start then [{ last with stop := part.stop }]
      else [last, ⟨none, part.start, part.stop⟩]
  | range :: ranges => range :: concatLiteral part ranges

/-- Puts the ranges of a span behind others. -/
def addSpan (ranges : List PieceRange) (span : Span) : List PieceRange :=
  match span.kind with
  | .code => ranges ++ (locatedFrom span.start (lineTokens span.text)).map ofToken
  | .comment => ranges
  | .string | .docstring | .newline => concatLiteral span ranges

end PieceRange

/-- The ranges of the pieces of spans. -/
def pieceRanges (spans : List Span) : List PieceRange :=
  spans.foldl PieceRange.addSpan []

namespace LogicalLine

/-- The part of a line between two byte positions in the source. -/
def slice? (line : LogicalLine) (start stop : Nat) : Option Text :=
  if line.offset ≤ start ∧ line.offset ≤ stop then
    Text.slice? line.text (start - line.offset) (stop - line.offset)
  else none

/-- The pieces that are cut out of a line. -/
def slicedPieces? (line : LogicalLine) : Option (List Piece) :=
  (pieceRanges line.spans).mapM fun range =>
    (line.slice? range.start range.stop).map range.piece

end LogicalLine

/-- The ranges of pieces that stand one behind the other. -/
def rangesFrom (start : Nat) : List Piece → List PieceRange
  | [] => []
  | piece :: pieces =>
      ⟨piece.kind?, start, start + Text.byteLength piece.text⟩ ::
        rangesFrom (start + Text.byteLength piece.text) pieces

theorem rangesFrom_append (start : Nat) (first second : List Piece) :
    rangesFrom start (first ++ second) = rangesFrom start first ++
      rangesFrom (start + Text.byteLength (first.flatMap Piece.text)) second := by
  induction first generalizing start with
  | nil => rfl
  | cons piece pieces induction =>
      rw [List.cons_append, rangesFrom, rangesFrom, induction, List.flatMap_cons,
        Text.byteLength_append, Nat.add_assoc, List.cons_append]

theorem map_ofToken_locatedFrom (start : Nat) (tokens : List (Token LineTokenKind)) :
    (locatedFrom start tokens).map PieceRange.ofToken =
      rangesFrom start (tokens.map Piece.ofToken) := by
  induction tokens generalizing start with
  | nil => rfl
  | cons token tokens induction =>
      rw [locatedFrom, List.map_cons, induction]
      rfl

theorem concatLiteral_rangesFrom {start : Nat} {part : Span} {pieces : List Piece}
    (next : start + Text.byteLength (pieces.flatMap Piece.text) = part.start) :
    PieceRange.concatLiteral part (rangesFrom start pieces) =
      rangesFrom start (Piece.concatLiteral part.text pieces) := by
  induction pieces generalizing start with
  | nil =>
      obtain rfl : start = part.start := next
      rfl
  | cons piece pieces induction =>
      rw [List.flatMap_cons, Text.byteLength_append, ← Nat.add_assoc] at next
      cases pieces with
      | nil =>
          have stop : start + Text.byteLength piece.text = part.start := next
          cases piece with
          | token kind text =>
              have apart : ¬((some kind : Option LineTokenKind) = none ∧
                  start + Text.byteLength text = part.start) := by simp
              simp only [rangesFrom, PieceRange.concatLiteral, Piece.concatLiteral, Piece.kind?,
                Piece.text, if_neg apart]
              rw [Span.stop, ← stop, Piece.text]
          | literal text =>
              simp only [rangesFrom, PieceRange.concatLiteral, Piece.concatLiteral, Piece.kind?]
              rw [if_pos ⟨trivial, stop⟩, Span.stop, ← stop, Nat.add_assoc]
              simp [Piece.text]
      | cons second others =>
          have rest := induction next
          cases piece <;> exact congrArg (_ :: ·) rest

variable {spans : List Span} {start stop : Nat}

/-- The ranges of the pieces of spans stand one behind the other. -/
theorem pieceRanges_eq (tiles : Tiles start stop spans)
    (noComment : ∀ span ∈ spans, span.kind ≠ .comment) :
    pieceRanges spans = rangesFrom start (Piece.ofSpans spans) := by
  -- A literal looks back at the last range, so the spans are taken off at the end.
  induction spans using List.reverseRecOn generalizing stop with
  | nil => rfl
  | append_singleton spans span induction =>
      obtain ⟨middle, tiles, next, -⟩ := tiles_append.1 tiles
      have before : ∀ other ∈ spans, other.kind ≠ .comment := by
        intro other member
        exact noComment other (by simp [member])
      have position : start + Text.byteLength ((Piece.ofSpans spans).flatMap Piece.text) =
          span.start := by
        rw [Piece.flatMap_text_ofSpans before, tiles.add_byteLength, next]
      have ranges := induction tiles before
      rw [pieceRanges] at ranges
      rw [pieceRanges, List.foldl_concat, ranges, Piece.ofSpans_concat]
      cases kind : span.kind with
      | comment => exact absurd kind (noComment span (by simp))
      | code =>
          simp only [PieceRange.addSpan, Piece.addSpan, kind]
          rw [rangesFrom_append, position, map_ofToken_locatedFrom]
      | _ =>
          simp only [PieceRange.addSpan, Piece.addSpan, kind]
          exact concatLiteral_rangesFrom position

/-! ### Comments behind the pieces -/

theorem ofSpans_append_comments {comments : List Span}
    (comment : ∀ span ∈ comments, span.kind = .comment) :
    Piece.ofSpans (spans ++ comments) = Piece.ofSpans spans := by
  induction comments using List.reverseRecOn with
  | nil => rw [List.append_nil]
  | append_singleton comments span induction =>
      rw [← List.append_assoc, Piece.ofSpans_concat, Piece.addSpan, comment span (by simp)]
      exact induction fun other member => comment other (by simp [member])

theorem pieceRanges_append_comments {comments : List Span}
    (comment : ∀ span ∈ comments, span.kind = .comment) :
    pieceRanges (spans ++ comments) = pieceRanges spans := by
  induction comments using List.reverseRecOn with
  | nil => rw [List.append_nil]
  | append_singleton comments span induction =>
      rw [← List.append_assoc, pieceRanges, List.foldl_concat, PieceRange.addSpan,
        comment span (by simp)]
      exact induction fun other member => comment other (by simp [member])

theorem kind_ne_comment_of_mem_marks {lexeme : Lexeme} (noComment : lexeme.comment? = none)
    {start : Nat} {mark : Span × Bool} (member : mark ∈ lexeme.marks start) :
    mark.1.kind ≠ .comment := by
  cases lexeme with
  | comment text => contradiction
  | literal whole =>
      rcases kind_of_mem_literalMarks member with kind | kind
      · rw [kind]
        exact Scanner.spanKind_mode_ne_comment whole.form
      · simp [kind]
  | _ =>
      rw [List.mem_singleton.1 member]
      simp

/-- In a line comments stand last. -/
theorem exists_spansFrom_eq_append {list : List Lexeme} (legible : Legible list)
    (inLine : Lexeme.newline ∉ list) (start : Nat) :
    ∃ before comments, spansFrom start list = before ++ comments ∧
      (∀ span ∈ before, span.kind ≠ .comment) ∧ ∀ span ∈ comments, span.kind = .comment := by
  induction list generalizing start with
  | nil => exact ⟨[], [], rfl, by simp, by simp⟩
  | cons lexeme others induction =>
      have inLineOthers : Lexeme.newline ∉ others := by
        intro member
        exact inLine (by simp [member])
      cases comment : lexeme.comment? with
      | some text =>
          obtain rfl : lexeme = .comment text := by
            cases lexeme <;> simp_all [Lexeme.comment?]
          obtain rfl := eq_nil_of_comment legible inLineOthers
          exact ⟨[], _, rfl, by simp, by simp [marksFrom]⟩
      | none =>
          obtain ⟨before, comments, shape, apart, rest⟩ :=
            induction legible.2 inLineOthers (start + Text.byteLength lexeme.text)
          refine ⟨(lexeme.marks start).map Prod.fst ++ before, comments, ?_, ?_, rest⟩
          · rw [List.append_assoc, ← shape, spansFrom, marksFrom, List.map_append]
            rfl
          · intro span member
            rcases List.mem_append.1 member with first | member
            · obtain ⟨mark, marked, rfl⟩ := List.mem_map.1 first
              exact kind_ne_comment_of_mem_marks comment marked
            · exact apart span member

/-! ### Cutting pieces out of a line -/

namespace LogicalLine

variable {line : LogicalLine} {before part after : Text}

/-- A part of a line can be cut out of it by its positions in the source. -/
theorem slice?_eq_some (parts : before ++ (part ++ after) = line.text) :
    line.slice? (line.offset + Text.byteLength before)
      (line.offset + Text.byteLength before + Text.byteLength part) = some part := by
  rw [slice?, if_pos (by omega)]
  refine Text.slice?_eq_some_iff.2 ⟨before, after, parts, ?_, ?_⟩ <;> omega

theorem mapM_rangesFrom {pieces : List Piece}
    (parts : before ++ (pieces.flatMap Piece.text ++ after) = line.text) :
    ((rangesFrom (line.offset + Text.byteLength before) pieces).mapM fun range =>
      (line.slice? range.start range.stop).map range.piece) = some pieces := by
  induction pieces generalizing before with
  | nil => rfl
  | cons piece pieces induction =>
      rw [List.flatMap_cons, List.append_assoc] at parts
      have first := slice?_eq_some parts
      have others : (before ++ piece.text) ++ (pieces.flatMap Piece.text ++ after) = line.text := by
        rw [List.append_assoc, parts]
      have rest := induction others
      rw [Text.byteLength_append, ← Nat.add_assoc] at rest
      rw [rangesFrom, List.mapM_cons, first, rest]
      cases piece <;> rfl

/-- No cut fails when a piece is cut out of a line, and the pieces are those of the
line. -/
theorem slicedPieces?_eq {source : Text} (member : line ∈ logicalLines source) :
    line.slicedPieces? = some (Piece.ofSpans line.spans) := by
  have tiles := tiles_spans member
  obtain ⟨offset, list, legible, inLine, rfl⟩ := exists_lineOf member
  obtain ⟨before, comments, shape, apart, comment⟩ :=
    exists_spansFrom_eq_append legible inLine offset
  have spans : (lineOf offset offset list).spans = before ++ comments := shape
  have parts : [] ++ ((Piece.ofSpans before).flatMap Piece.text ++
      comments.flatMap Span.text) = (lineOf offset offset list).text := by
    rw [Piece.flatMap_text_ofSpans apart, text, spans, List.flatMap_append]
    rfl
  rw [spans] at tiles ⊢
  obtain ⟨middle, first, -⟩ := tiles_append.1 tiles
  rw [slicedPieces?, spans, pieceRanges_append_comments comment,
    ofSpans_append_comments comment, pieceRanges_eq first apart]
  exact mapM_rangesFrom parts

end LogicalLine

end Bilingual
