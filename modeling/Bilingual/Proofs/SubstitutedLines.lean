import Bilingual.Proofs.KeptLines
import Bilingual.Proofs.LinePieces
import Bilingual.Proofs.SubstitutedParts

/-!
# Keywords in the lines of a source

To the formatter the lines of a translated source are those of the source itself.  They
have the same classes and the same comments, they end in a colon where they did before, and
lines other than those of code are written as before.  The main statements are
`lexemeLines_substitute`, `classOf_map_substitute` and `writtenBody_map_substitute`.
-/

namespace Bilingual

variable (table : KeywordTable) (direction : Direction)

/-! ### Lexemes -/

namespace Lexeme

variable (lexeme : Lexeme)

@[simp] theorem kind_substitute : (lexeme.substitute table direction).kind = lexeme.kind := by
  cases lexeme <;> rfl

@[simp] theorem lastKind_substitute :
    (lexeme.substitute table direction).lastKind = lexeme.lastKind := by
  cases lexeme <;> rfl

@[simp] theorem comment?_substitute :
    (lexeme.substitute table direction).comment? = lexeme.comment? := by
  cases lexeme <;> rfl

@[simp] theorem literal?_substitute :
    (lexeme.substitute table direction).literal? = lexeme.literal? := by
  cases lexeme <;> rfl

theorem isBlank_text_substitute :
    Text.isBlank (lexeme.substitute table direction).text = Text.isBlank lexeme.text := by
  cases lexeme with
  | code text => exact isBlank_substituteCode table direction text
  | _ => rfl

theorem isVisible_substitute :
    (lexeme.substitute table direction).isVisible = lexeme.isVisible := by
  cases lexeme with
  | code text => exact congrArg (!·) (isBlank_substituteCode table direction text)
  | _ => rfl

theorem trimmed_substitute :
    (lexeme.substitute table direction).trimmed =
      lexeme.trimmed.map (Lexeme.substitute table direction) := by
  cases lexeme with
  | code text =>
      rw [substitute, trimmed, trimmed, isBlank_substituteCode, trimEnd_substituteCode]
      split <;> rfl
  | _ => rfl

end Lexeme

/-! ### Lines of lexemes -/

section Lines

variable (list : List Lexeme)

theorem newline_mem_map_substitute :
    Lexeme.newline ∈ list.map (Lexeme.substitute table direction) ↔ Lexeme.newline ∈ list := by
  have newline : ∀ lexeme : Lexeme,
      lexeme.substitute table direction = .newline ↔ lexeme = .newline := by
    intro lexeme
    cases lexeme <;> simp [Lexeme.substitute]
  simp [newline]

/-- The lines of a translated source are the lines of the source. -/
theorem lexemeLines_substitute (source : Text) :
    lexemeLines (substitute table direction source) =
      (lexemeLines source).map (List.map (Lexeme.substitute table direction)) := by
  have inLine : ∀ line ∈ (lexemeLines source).map (List.map (Lexeme.substitute table direction)),
      Lexeme.newline ∉ line := by
    intro line member
    obtain ⟨old, known, rfl⟩ := List.mem_map.1 member
    rw [newline_mem_map_substitute]
    exact ((legibleLines_lexemeLines source).forall_mem old known).2
  have nonempty := List.splitOn_ne_nil Lexeme.newline (lexemes source)
  rw [lexemeLines, lexemes_substitute, ← intercalate_lexemeLines, map_substitute_intercalate]
  exact List.splitOn_intercalate _ inLine (mt List.map_eq_nil_iff.1 nonempty)

theorem isBlank_textOf_map_substitute :
    Text.isBlank (textOf (list.map (Lexeme.substitute table direction))) =
      Text.isBlank (textOf list) := by
  induction list with
  | nil => rfl
  | cons lexeme others induction =>
      rw [List.map_cons, textOf_cons, textOf_cons, Text.isBlank_append, Text.isBlank_append,
        Lexeme.isBlank_text_substitute, induction]

/-- A translated line has the class of the line. -/
theorem classOf_map_substitute :
    classOf (list.map (Lexeme.substitute table direction)) = classOf list := by
  have visible : Lexeme.isVisible ∘ Lexeme.substitute table direction = Lexeme.isVisible :=
    funext (Lexeme.isVisible_substitute table direction)
  have kind : Lexeme.kind ∘ Lexeme.substitute table direction = Lexeme.kind :=
    funext (Lexeme.kind_substitute table direction)
  rw [classOf, classOf, isBlank_textOf_map_substitute, List.find?_map, visible, Option.map_map,
    kind]

theorem comments_map_substitute :
    (list.map (Lexeme.substitute table direction)).filterMap Lexeme.comment? =
      list.filterMap Lexeme.comment? := by
  rw [List.filterMap_map]
  exact List.filterMap_congr fun lexeme _ => lexeme.comment?_substitute table direction

theorem literals_map_substitute :
    (list.map (Lexeme.substitute table direction)).filterMap Lexeme.literal? =
      list.filterMap Lexeme.literal? := by
  rw [List.filterMap_map]
  exact List.filterMap_congr fun lexeme _ => lexeme.literal?_substitute table direction

theorem leadingCode_map_substitute :
    leadingCode (list.map (Lexeme.substitute table direction)) =
      substituteCode table direction (leadingCode list) := by
  match list with
  | .code _ :: _ => rfl
  | [] | .newline :: _ | .comment _ :: _ | .literal _ :: _ => exact (substituteCode_nil ..).symm

/-! ### Lines that are written as they stand -/

theorem dropMargin_map_substitute :
    dropMargin (list.map (Lexeme.substitute table direction)) =
      (dropMargin list).map (Lexeme.substitute table direction) := by
  match list with
  | .code text :: others =>
      rw [List.map_cons, Lexeme.substitute, dropMargin, dropMargin, isBlank_substituteCode]
      split <;> rfl
  | [] | .newline :: _ | .comment _ :: _ | .literal _ :: _ => rfl

theorem trimLast_map_substitute :
    trimLast (list.map (Lexeme.substitute table direction)) =
      (trimLast list).map (Lexeme.substitute table direction) := by
  rcases List.eq_nil_or_concat' list with rfl | ⟨before, last, rfl⟩
  · rfl
  · rw [List.map_append, List.map_singleton, trimLast_concat, trimLast_concat, List.map_append,
      Lexeme.lastKind_substitute, Lexeme.trimmed_substitute]
    split <;> rfl

/-- Lines other than those of code are written with the translation in its place. -/
theorem writtenBody_map_substitute {list : List Lexeme} (other : classOf list ≠ .code)
    (rules : FormatRules) :
    writtenBody rules (list.map (Lexeme.substitute table direction)) =
      (writtenBody rules list).map (Lexeme.substitute table direction) := by
  rw [writtenBody, writtenBody, classOf_map_substitute]
  cases kind : classOf list with
  | blank => rfl
  | comment =>
      simp only [comments_map_substitute, List.map_map]
      rfl
  | docstring => simp only [dropMargin_map_substitute, trimLast_map_substitute]
  | code => contradiction

theorem writtenComment_map_substitute :
    writtenComment (list.map (Lexeme.substitute table direction)) =
      (writtenComment list).map (Lexeme.substitute table direction) := by
  have spaces : substituteCode table direction (Text.spaces 2) = Text.spaces 2 :=
    substituteCode_blank table direction (Text.isBlank_spaces 2)
  rw [writtenComment, writtenComment, comments_map_substitute]
  cases (list.filterMap Lexeme.comment?).head? with
  | none => rfl
  | some text => simp [Lexeme.substitute, spaces]

end Lines

/-! ### Pieces -/

/-- A piece after the replacement: only tokens change. -/
def Piece.substitute : Piece → Piece
  | .token kind text => .token kind (substituteCode table direction text)
  | .literal text => .literal text

@[simp] theorem Piece.kind?_substitute (piece : Piece) :
    (piece.substitute table direction).kind? = piece.kind? := by
  cases piece <;> rfl

theorem lastVisible?_map_substitute (pieces : List Piece) :
    Piece.lastVisible? (pieces.map (Piece.substitute table direction)) =
      (Piece.lastVisible? pieces).map (Piece.substitute table direction) := by
  have visible : (fun piece : Piece => !piece.isBlank) ∘ Piece.substitute table direction =
      fun piece => !piece.isBlank := by
    funext piece
    simp [Piece.isBlank]
  rw [Piece.lastVisible?, List.filter_map, visible, List.getLast?_map, Piece.lastVisible?]

theorem consPiece_substitute (part : Part) (pieces : List Piece) :
    (part.substitute table direction).consPiece (pieces.map (Piece.substitute table direction)) =
      (part.consPiece pieces).map (Piece.substitute table direction) := by
  cases part with
  | code token => rfl
  | literal whole =>
      match pieces with
      | [] | .token _ _ :: _ | .literal _ :: _ => rfl

theorem piecesOf_map_substitute (list : List Lexeme) :
    piecesOf (list.map (Lexeme.substitute table direction)) =
      (piecesOf list).map (Piece.substitute table direction) := by
  rw [piecesOf, piecesOf, flatMap_parts_substitute]
  induction list.flatMap Lexeme.parts with
  | nil => rfl
  | cons part parts induction =>
      rw [List.map_cons, List.foldr_cons, List.foldr_cons, induction, consPiece_substitute]

/-- A translated line ends with a colon if the line does. -/
theorem endsInColon_map_substitute (list : List Lexeme) :
    endsInColon (list.map (Lexeme.substitute table direction)) = endsInColon list := by
  rw [endsInColon, endsInColon, piecesOf_map_substitute, lastVisible?_map_substitute,
    Option.any_map]
  cases Piece.lastVisible? (piecesOf list) with
  | none => rfl
  | some piece => simp

theorem Piece.opensBlock_substitute (piece : Piece) :
    opensBlock (piece.substitute table direction).text = opensBlock piece.text := by
  have any : ∀ code : Text, opensBlock code = code.getLast?.any (· = ':') := by
    intro code
    rw [opensBlock]
    cases code.getLast? <;> simp
  have noColon : ∀ character, isWordCharacter character = true →
      decide (character = ':') = false := by
    intro character word
    rw [decide_eq_false_iff_not]
    rintro rfl
    contradiction
  cases piece with
  | literal text => rfl
  | token kind text =>
      rw [any, any]
      exact ((getLast?_substituteCode table direction text).any_eq noColon).symm

/-- A translated line opens a block if the line does. -/
theorem opensBlock_codeOf_map_substitute {list : List Lexeme} (legible : Legible list)
    (rules : FormatRules) :
    opensBlock (codeOf rules (list.map (Lexeme.substitute table direction))) =
      opensBlock (codeOf rules list) := by
  rw [opensBlock, opensBlock, getLast?_codeOf legible,
    getLast?_codeOf (legible_substitute table direction legible), piecesOf_map_substitute,
    lastVisible?_map_substitute]
  cases Piece.lastVisible? (piecesOf list) with
  | none => rfl
  | some piece => exact piece.opensBlock_substitute table direction

end Bilingual
