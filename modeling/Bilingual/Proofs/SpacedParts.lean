import Bilingual.Proofs.LineParts

/-!
# Spaces between parts

The formatter decides about each gap between two parts of a line.  This file
carries that out on parts instead of texts.  The main statement is `spacedCode_eq`,
which says that nothing else is written.
-/

namespace Bilingual

namespace Part

/-- The piece that the formatter sees. -/
def piece : Part → Piece
  | .code token => Piece.ofToken token
  | .literal whole => .literal whole.text

/-- The part is white space. -/
def isBlank (part : Part) : Bool :=
  part.piece.kind? = some .whiteSpace

/-- One space. -/
def space : Part :=
  .code ⟨.whiteSpace, [' ']⟩

@[simp] theorem text_piece (part : Part) : part.piece.text = part.text := by
  cases part <;> rfl

@[simp] theorem isBlank_literal (whole : Literal) : (Part.literal whole).isBlank = false := rfl

theorem isWhiteSpace_of_mem_space : ∀ character ∈ [' '], isWhiteSpace character = true := by
  intro character member
  rw [List.mem_singleton.1 member]
  decide

theorem isValid_space : space.IsValid :=
  ⟨.whiteSpace (by simp) isWhiteSpace_of_mem_space, by decide⟩

end Part

/-- What is written between two parts. -/
def gapParts (rules : FormatRules) (previous next : Part) (hadSpace : Bool) : List Part :=
  if needsSpace rules previous.piece next.piece hadSpace then [.space] else []

theorem assemble_space (parts : List Part) (behind : List Lexeme) :
    assemble (.space :: parts) behind = consCode [' '] (assemble parts behind) := rfl

/-- Puts spaces between the parts that stand behind `previous`. -/
def spacedBehind (rules : FormatRules) (previous : Part) (hadSpace : Bool) :
    List Part → List Part
  | [] => []
  | part :: parts =>
      if part.isBlank then spacedBehind rules previous true parts
      else
        gapParts rules previous part hadSpace ++ part :: spacedBehind rules part false parts

/-- Puts spaces between the parts of a line. -/
def spaced (rules : FormatRules) : List Part → List Part
  | [] => []
  | part :: parts =>
      if part.isBlank then spaced rules parts else part :: spacedBehind rules part false parts

/-- The code of a line of lexemes with its spaces put right. -/
def codeOf (rules : FormatRules) (list : List Lexeme) : Text :=
  (spaced rules (list.flatMap Lexeme.parts)).flatMap Part.text

/-! ### When there is a space -/

section Spaces

variable {rules : FormatRules} {previous next : Piece} {hadSpace : Bool}

/-- The kinds of punctuation in front of or behind which a space is dropped. -/
def LineTokenKind.isClosing : LineTokenKind → Bool
  | .openParen | .closeParen | .comma | .colon => true
  | .whiteSpace | .assign | .operator | .word => false

theorem isClosing_of_dropped (dropped : needsSpace rules previous next true = false) :
    previous.kind?.any LineTokenKind.isClosing = true ∨
      next.kind?.any LineTokenKind.isClosing = true := by
  unfold needsSpace at dropped
  split at dropped <;> simp_all [LineTokenKind.isClosing]

theorem needsSpace_of_assign (assign : next.kind? = some .assign) :
    needsSpace rules previous next hadSpace = true := by
  unfold needsSpace
  rw [assign]
  split <;> simp_all

/-- The decision about a gap depends on the kinds on both sides.  Only in front of an opening
parenthesis it depends on the word that stands there. -/
theorem needsSpace_congr {other nextOther : Piece} (kind : previous.kind? = other.kind?)
    (kindNext : next.kind? = nextOther.kind?) (closes : next.closesGroup = nextOther.closesGroup)
    (word : next.kind? = some .openParen → previous.kind? = some .word →
      previous.text = other.text) :
    needsSpace rules previous next hadSpace = needsSpace rules other nextOther hadSpace := by
  unfold needsSpace
  rw [← kind, ← kindNext, ← closes]
  split <;> simp_all

/-- The decision about a gap is the same when it is made again. -/
theorem needsSpace_needsSpace :
    needsSpace rules previous next (needsSpace rules previous next hadSpace) =
      needsSpace rules previous next hadSpace := by
  unfold needsSpace
  split <;> simp

end Spaces

/-! ### Writing pieces -/

section Pieces

variable (rules : FormatRules)

theorem flatMap_text_gapParts (previous next : Part) (hadSpace : Bool) :
    (gapParts rules previous next hadSpace).flatMap Part.text =
      gap rules previous.piece next.piece hadSpace := by
  unfold gapParts gap
  split <;> rfl

theorem joinBehind_map_piece (previous : Part) (hadSpace : Bool) (parts : List Part) :
    joinBehind rules previous.piece hadSpace (parts.map Part.piece) =
      (spacedBehind rules previous hadSpace parts).flatMap Part.text := by
  induction parts generalizing previous hadSpace with
  | nil => rfl
  | cons part parts induction =>
      rw [List.map_cons, joinBehind, spacedBehind, Part.isBlank]
      by_cases blank : part.piece.kind? = some .whiteSpace
      · simp only [blank, if_true, decide_true, induction]
      · simp only [blank, if_false, decide_false, Bool.false_eq_true, induction,
          List.flatMap_append, flatMap_text_gapParts, List.flatMap_cons, Part.text_piece,
          List.append_assoc]

theorem joinPieces_map_piece (parts : List Part) :
    joinPieces rules (parts.map Part.piece) = (spaced rules parts).flatMap Part.text := by
  induction parts with
  | nil => rfl
  | cons part parts induction =>
      rw [List.map_cons, joinPieces, spaced, Part.isBlank]
      by_cases blank : part.piece.kind? = some .whiteSpace
      · simp only [blank, if_true, decide_true, induction]
      · simp only [blank, if_false, decide_false, Bool.false_eq_true, joinBehind_map_piece,
          List.flatMap_cons, Part.text_piece]

/-- Two sequences of pieces are put together alike, wherever they stand. -/
def JoinAlike (first second : List Piece) : Prop :=
  joinPieces rules first = joinPieces rules second ∧
    ∀ previous hadSpace,
      joinBehind rules previous hadSpace first = joinBehind rules previous hadSpace second

variable {rules}

theorem JoinAlike.trans {first second third : List Piece} (alike : JoinAlike rules first second)
    (others : JoinAlike rules second third) : JoinAlike rules first third :=
  ⟨alike.1.trans others.1, fun previous hadSpace =>
    (alike.2 previous hadSpace).trans (others.2 previous hadSpace)⟩

theorem JoinAlike.append_left {first second : List Piece} (alike : JoinAlike rules first second)
    (before : List Piece) : JoinAlike rules (before ++ first) (before ++ second) := by
  induction before with
  | nil => exact alike
  | cons piece before induction =>
      constructor
      · rw [List.cons_append, List.cons_append, joinPieces, joinPieces, induction.1, induction.2]
      · intro previous hadSpace
        rw [List.cons_append, List.cons_append, joinBehind, joinBehind, induction.2, induction.2]

/-- What stands behind a literal does not depend on the literal. -/
theorem joinBehind_literal (text other : Text) (hadSpace : Bool) (pieces : List Piece) :
    joinBehind rules (.literal text) hadSpace pieces =
      joinBehind rules (.literal other) hadSpace pieces := by
  have sameGap : ∀ next hadSpace,
      gap rules (.literal text) next hadSpace = gap rules (.literal other) next hadSpace := by
    intro next hadSpace
    unfold gap needsSpace
    cases next.kind? with
    | none => rfl
    | some kind => cases kind <;> rfl
  induction pieces generalizing hadSpace with
  | nil => rfl
  | cons piece pieces induction =>
      rw [joinBehind, joinBehind, sameGap, induction]

/-- The two parts of a literal are one piece or two. -/
theorem joinAlike_literal_append {first : Text} (nonempty : first ≠ []) (second : Text)
    (pieces : List Piece) :
    JoinAlike rules (.literal (first ++ second) :: pieces)
      (.literal first :: .literal second :: pieces) := by
  obtain ⟨character, text, rfl⟩ := List.exists_cons_of_ne_nil nonempty
  have behind : joinBehind rules (.literal (character :: text ++ second)) false pieces =
      joinBehind rules (.literal second) false pieces := joinBehind_literal _ _ _ _
  constructor
  · simp [joinPieces, joinBehind, Piece.kind?, Piece.text, gap, needsSpace, ← behind]
  · intro previous hadSpace
    have sameGap : gap rules previous (.literal (character :: text ++ second)) hadSpace =
        gap rules previous (.literal (character :: text)) hadSpace := rfl
    simp only [joinBehind, sameGap, behind]
    simp [Piece.kind?, Piece.text, gap, needsSpace]

theorem joinAlike_consLiteral {part : Text} (nonempty : part ≠ []) (pieces : List Piece) :
    JoinAlike rules (Piece.consLiteral part pieces) (.literal part :: pieces) := by
  match pieces with
  | [] => exact ⟨rfl, fun _ _ => rfl⟩
  | .token _ _ :: _ => exact ⟨rfl, fun _ _ => rfl⟩
  | .literal text :: pieces => exact joinAlike_literal_append nonempty text pieces

/-! ### The pieces of a line -/

theorem consLiteral_consLiteral (first second : Text) (pieces : List Piece) :
    Piece.consLiteral first (Piece.consLiteral second pieces) =
      Piece.consLiteral (first ++ second) pieces := by
  match pieces with
  | [] => rfl
  | .token _ _ :: _ => rfl
  | .literal text :: pieces => simp [Piece.consLiteral]

theorem ofSpans_append {spans : List Span} (nonempty : spans ≠ [])
    (literal : ∀ span ∈ spans, span.kind.isLiteral = true ∨ span.kind = .newline)
    (behind : List Span) :
    Piece.ofSpans (spans ++ behind) =
      Piece.consLiteral (spans.flatMap Span.text) (Piece.ofSpans behind) := by
  induction spans with
  | nil => contradiction
  | cons span spans induction =>
      have first : Piece.ofSpans (span :: (spans ++ behind)) =
          Piece.consLiteral span.text (Piece.ofSpans (spans ++ behind)) := by
        have kind := literal span (by simp)
        cases kindEq : span.kind <;> simp_all [Piece.ofSpans, SpanKind.isLiteral]
      rw [List.cons_append, first, List.flatMap_cons]
      by_cases last : spans = []
      · rw [last]
        simp
      · rw [induction last fun other member => literal other (by simp [member]),
          consLiteral_consLiteral]

theorem ofSpans_literal (whole : Literal) (nonempty : whole.text ≠ []) (start : Nat)
    (behind : List Span) :
    Piece.ofSpans (((Lexeme.literal whole).marks start).map Prod.fst ++ behind) =
      Piece.consLiteral whole.text (Piece.ofSpans behind) := by
  have text := flatMap_text_marks (.literal whole) start
  rw [ofSpans_append, text]
  · rfl
  · intro empty
    rw [empty] at text
    exact nonempty text.symm
  · intro span member
    obtain ⟨mark, marked, rfl⟩ := List.mem_map.1 member
    rcases kind_of_mem_literalMarks marked with kind | kind
    · left
      rw [kind]
      cases whole.form <;> rfl
    · exact .inr kind

/-- Puts the piece of a part in front of pieces.  A literal joins one behind it. -/
def Part.consPiece : Part → List Piece → List Piece
  | .code token, pieces => Piece.ofToken token :: pieces
  | .literal whole, pieces => Piece.consLiteral whole.text pieces

/-- The pieces of a line are those of its parts. -/
theorem ofSpans_spansFrom {list : List Lexeme} (legible : Legible list)
    (inLine : Lexeme.newline ∉ list) (start : Nat) :
    Piece.ofSpans (spansFrom start list) =
      (list.flatMap Lexeme.parts).foldr Part.consPiece [] := by
  induction list generalizing start with
  | nil => rfl
  | cons lexeme others induction =>
      have rest := induction legible.2 (fun member => inLine (by simp [member]))
        (start + Text.byteLength lexeme.text)
      rw [spansFrom] at rest ⊢
      rw [marksFrom, List.map_append, List.flatMap_cons, List.foldr_append, ← rest]
      cases lexeme with
      | newline => simp at inLine
      | comment text => rfl
      | code text =>
          rw [Lexeme.parts, List.foldr_map]
          exact List.foldr_cons_eq_append.symm
      | literal whole => exact ofSpans_literal whole legible.1.text_ne_nil start _

theorem joinAlike_foldr {parts : List Part} (valid : ∀ part ∈ parts, part.IsValid) :
    JoinAlike rules (parts.foldr Part.consPiece []) (parts.map Part.piece) := by
  induction parts with
  | nil => exact ⟨rfl, fun _ _ => rfl⟩
  | cons part parts induction =>
      have rest := induction fun other member => valid other (by simp [member])
      have alike := rest.append_left [part.piece]
      cases part with
      | code token => exact alike
      | literal whole =>
          have nonempty : whole.text ≠ [] := (valid (.literal whole) (by simp)).text_ne_nil
          exact (joinAlike_consLiteral nonempty _).trans alike

/-- The code of a line is written from its parts. -/
theorem spacedCode_eq {list : List Lexeme} (legible : Legible list)
    (inLine : Lexeme.newline ∉ list) (offset start : Nat) :
    (⟨offset, spansFrom start list⟩ : LogicalLine).spacedCode rules = codeOf rules list := by
  rw [LogicalLine.spacedCode, ofSpans_spansFrom legible inLine,
    (joinAlike_foldr (isValid_of_mem_flatMap_parts legible)).1, joinPieces_map_piece]
  rfl

end Pieces

end Bilingual
