import Bilingual.Proofs.SpacedParts

/-!
# Visible parts and their places

White space in a line is nothing but a note at the part behind it.  This file
reads a line as its visible parts, each with whether there was white space in
front, and says which of them can be read back where the formatter puts them.  The
only exception is a colon that comes to stand directly in front of `==`; this is
what `fits_or_glued` states.
-/

namespace Bilingual

/-- The parts of a line that are not white space, each with whether there was white
space in front of it. -/
def visibleParts (hadSpace : Bool) : List Part → List (Bool × Part)
  | [] => []
  | part :: parts =>
      if part.isBlank then visibleParts true parts
      else (hadSpace, part) :: visibleParts false parts

theorem mem_of_mem_visibleParts {parts : List Part} {hadSpace : Bool} {next : Bool × Part}
    (member : next ∈ visibleParts hadSpace parts) : next.2 ∈ parts := by
  induction parts generalizing hadSpace with
  | nil => simp [visibleParts] at member
  | cons part parts induction =>
      rw [visibleParts] at member
      split at member
      · exact List.mem_cons_of_mem part (induction member)
      · rcases List.mem_cons.1 member with rfl | others
        · exact List.mem_cons_self
        · exact List.mem_cons_of_mem part (induction others)

/-- Puts visible parts behind another one, with spaces where they belong. -/
def placeBehind (rules : FormatRules) (previous : Part) : List (Bool × Part) → List Part
  | [] => []
  | (hadSpace, part) :: others =>
      gapParts rules previous part hadSpace ++ part :: placeBehind rules part others

theorem spacedBehind_eq (rules : FormatRules) (previous : Part) (hadSpace : Bool)
    (parts : List Part) :
    spacedBehind rules previous hadSpace parts =
      placeBehind rules previous (visibleParts hadSpace parts) := by
  induction parts generalizing previous hadSpace with
  | nil => rfl
  | cons part parts induction =>
      rw [spacedBehind, visibleParts]
      split
      · rw [induction]
      · rw [placeBehind, induction]

/-- A line is its first visible part and the others placed behind it. -/
theorem spaced_eq (rules : FormatRules) (parts : List Part) (hadSpace : Bool) :
    spaced rules parts = match visibleParts hadSpace parts with
      | [] => []
      | (_, part) :: others => part :: placeBehind rules part others := by
  induction parts generalizing hadSpace with
  | nil => rfl
  | cons part parts induction =>
      rw [spaced, visibleParts]
      split
      · exact induction true
      · rw [spacedBehind_eq]

theorem spaced_of_visibleParts {rules : FormatRules} {parts : List Part} {hadSpace gap : Bool}
    {part : Part} {others : List (Bool × Part)}
    (shape : visibleParts hadSpace parts = (gap, part) :: others) :
    spaced rules parts = part :: placeBehind rules part others := by
  rw [spaced_eq rules parts hadSpace, shape]

/-! ### Parts in a line -/

/-- The visible parts stand behind another one in a line: there is white space
between two of them, or the second one is read behind the first one. -/
def Follows : Part → List (Bool × Part) → Prop
  | _, [] => True
  | previous, (hadSpace, part) :: others =>
      previous.IsClosed ∧ (hadSpace = false → previous.Fits part) ∧
        (part.IsValid ∧ part.isBlank = false) ∧ Follows part others

theorem follows_visibleParts {previous : Part} {hadSpace : Bool} {parts : List Part}
    (validPrevious : previous.IsValid) (valid : ∀ part ∈ parts, part.IsValid)
    (chain : parts.IsChain Part.Fits)
    (first : hadSpace = false → ∀ next ∈ parts.head?, previous.Fits next)
    (closed : parts ≠ [] → previous.IsClosed) :
    Follows previous (visibleParts hadSpace parts) := by
  induction parts generalizing previous hadSpace with
  | nil => trivial
  | cons part parts induction =>
      have closed := closed (by simp)
      have validPart := valid part (by simp)
      have validParts : ∀ other ∈ parts, other.IsValid := by
        intro other member
        exact valid other (by simp [member])
      obtain ⟨head, chain⟩ := List.isChain_cons.1 chain
      rw [visibleParts]
      split
      · exact induction validPrevious validParts chain (by simp) fun _ => closed
      · next visible =>
          exact ⟨closed, fun noSpace => first noSpace part rfl, ⟨validPart, by simpa using visible⟩,
            induction validPart validParts chain (fun _ => head)
              (Part.isClosed_of_fits validPart validParts head)⟩

/-- The first visible part of a line stands in front of the others. -/
theorem follows_of_visibleParts {parts : List Part} (valid : ∀ part ∈ parts, part.IsValid)
    (chain : parts.IsChain Part.Fits) (hadSpace : Bool) :
    ∀ gap part others, visibleParts hadSpace parts = (gap, part) :: others →
      part.IsValid ∧ part.isBlank = false ∧ Follows part others := by
  induction parts generalizing hadSpace with
  | nil => intro gap part others shape; contradiction
  | cons first parts induction =>
      intro gap part others shape
      have validFirst := valid first (by simp)
      have validParts : ∀ other ∈ parts, other.IsValid := by
        intro other member
        exact valid other (by simp [member])
      obtain ⟨head, chain⟩ := List.isChain_cons.1 chain
      rw [visibleParts] at shape
      split at shape
      · exact induction validParts chain true gap part others shape
      · next visible =>
          obtain ⟨same, rfl⟩ := List.cons.inj shape
          obtain ⟨-, rfl⟩ := Prod.mk.inj same
          exact ⟨validFirst, by simpa using visible,
            follows_visibleParts validFirst validParts chain (fun _ => head)
              (Part.isClosed_of_fits validFirst validParts head)⟩

/-! ### First characters -/

theorem Part.IsValid.head?_visible {part : Part} (valid : part.IsValid)
    (visible : part.isBlank = false) : part.text.head?.all (!isWhiteSpace ·) = true := by
  cases part with
  | literal whole =>
      obtain ⟨rest, reads⟩ := valid
      simp [text, head?_literal reads, Quote.not_isWhiteSpace]
  | code token =>
      obtain ⟨valid, -⟩ := valid
      cases valid with
      | whiteSpace nonempty blank => contradiction
      | word nonempty run =>
          obtain ⟨character, others, rfl⟩ := List.exists_cons_of_ne_nil nonempty
          simp [text, (isLineWordCharacter_iff.1 (run character (by simp))).1]
      | operator nonempty run =>
          obtain ⟨character, others, rfl⟩ := List.exists_cons_of_ne_nil nonempty
          simp [text, (isOperatorCharacter_cases (run character (by simp))).1]
      | assigningOperator nonempty run =>
          obtain ⟨character, others, rfl⟩ := List.exists_cons_of_ne_nil nonempty
          simp [text, (isOperatorCharacter_cases (run character (by simp))).1]
      | _ => decide

theorem Part.IsValid.head?_text_append {part : Part} (valid : part.IsValid)
    (visible : part.isBlank = false) (behind : Text) :
    (part.text ++ behind).head?.all (!isWhiteSpace ·) = true := by
  obtain ⟨character, rest, shape⟩ := List.exists_cons_of_ne_nil valid.text_ne_nil
  have starts := valid.head?_visible visible
  rw [shape] at starts ⊢
  exact starts

/-! ### Parts next to each other -/

/-- Punctuation next to which a space is dropped is one character. -/
theorem IsLineToken.text_of_isClosing {token : Token LineTokenKind} (valid : IsLineToken token)
    (closing : token.kind.isClosing = true) :
    ∃ character ∈ ['(', ')', ',', ':'], token.text = [character] := by
  cases valid <;> simp_all [LineTokenKind.isClosing]

theorem apart_of_closing {character : Char} (sign : character ∈ ['(', ')', ',', ':']) :
    isWordCharacter character = false ∧ isOperatorCharacter character = false ∧
      isLineWordCharacter character = false ∧ character ≠ '=' := by
  simp only [List.mem_cons, List.not_mem_nil, or_false] at sign
  rcases sign with rfl | rfl | rfl | rfl <;> decide

namespace Part

/-- A colon that opens a block or separates two things. -/
def colon : Part :=
  .code ⟨.colon, [':']⟩

/-- The comparison `==`. -/
def equality : Part :=
  .code ⟨.operator, ['=', '=']⟩

theorem canPrecede_of_isWhiteSpace {token : Token LineTokenKind}
    (visible : (Part.code token).isBlank = false) {character : Char}
    (space : isWhiteSpace character = true) : token.canPrecede (some character) = true := by
  have noOperator : isOperatorCharacter character = false := by
    rw [Bool.eq_false_iff]
    intro operator
    rw [(isOperatorCharacter_cases operator).1] at space
    contradiction
  have noWord : isLineWordCharacter character = false := by
    rw [Bool.eq_false_iff]
    intro word
    rw [(isLineWordCharacter_iff.1 word).1] at space
    contradiction
  have noSign : character ≠ '=' := by
    rintro rfl
    contradiction
  obtain ⟨kind, text⟩ := token
  cases kind with
  | whiteSpace => contradiction
  | _ => simp [Token.canPrecede, noOperator, noWord, noSign]

/-- Everything but a space can stand in front of punctuation. -/
theorem fits_of_isClosing {first : Part} {second : Token LineTokenKind}
    (visible : first.isBlank = false) (closed : first.IsClosed) (valid : IsLineToken second)
    (closing : second.kind.isClosing = true) : first.Fits (.code second) := by
  obtain ⟨character, sign, shape⟩ := valid.text_of_isClosing closing
  cases first with
  | literal whole =>
      have closed : whole.closed = true := closed
      have other : character ≠ whole.form.quote.character := by
        rintro rfl
        revert sign
        cases whole.form.quote <;> decide
      simp [Fits, text, shape, Lexeme.canPrecede, closed, other]
  | code token =>
      obtain ⟨-, noOperator, noWord, noSign⟩ := apart_of_closing sign
      obtain ⟨kind, text⟩ := token
      cases kind with
      | whiteSpace => contradiction
      | _ => simp [Fits, Token.canPrecede, shape, noOperator, noWord, noSign]

theorem eq_of_head?_sign {token : Token LineTokenKind} (valid : IsLineToken token)
    (sign : token.text.head? = some '=') :
    token.kind = .assign ∨ Part.code token = .equality := by
  cases valid with
  | assign => exact .inl rfl
  | equality => exact .inr rfl
  | whiteSpace nonempty blank =>
      have space := blank '=' (List.mem_of_head? sign)
      contradiction
  | operator nonempty run =>
      have operator := run '=' (List.mem_of_head? sign)
      contradiction
  | assigningOperator nonempty run =>
      obtain ⟨character, others, rfl⟩ := List.exists_cons_of_ne_nil nonempty
      obtain rfl : character = '=' := by simpa using sign
      have operator := run '=' (by simp)
      contradiction
  | word nonempty run =>
      have word := run '=' (List.mem_of_head? sign)
      contradiction
  | _ => simp at sign

theorem fits_or_glued_code {rules : FormatRules} {first second : Token LineTokenKind}
    (validFirst : IsLineToken first) (validSecond : IsLineToken second)
    (closing : first.kind.isClosing = true)
    (dropped : needsSpace rules (Piece.ofToken first) (Piece.ofToken second) true = false) :
    (Part.code first).Fits (.code second) ∨
      Part.code first = .colon ∧ Part.code second = .equality ∧ rules.spaceAfterColon = false := by
  cases validFirst with
  | openParen => exact .inl rfl
  | closeParen => exact .inl rfl
  | comma => exact .inl rfl
  | colon =>
      by_cases sign : second.text.head? = some '='
      · rcases eq_of_head?_sign validSecond sign with assign | equality
        · simp [needsSpace, Piece.ofToken, Piece.kind?, assign] at dropped
        · obtain rfl := Part.code.inj equality
          refine .inr ⟨rfl, rfl, ?_⟩
          simpa [needsSpace, Piece.ofToken, Piece.kind?, Piece.closesGroup, Piece.text]
            using dropped
      · exact .inl (by simpa [Fits, Token.canPrecede] using sign)
  | _ => contradiction

/-- Where no space is written the second part is read behind the first one, except
that a colon and `==` become something else. -/
theorem fits_or_glued {rules : FormatRules} {previous next : Part} {hadSpace : Bool}
    (validPrevious : previous.IsValid) (visiblePrevious : previous.isBlank = false)
    (closed : previous.IsClosed) (valid : next.IsValid)
    (first : hadSpace = false → previous.Fits next)
    (dropped : needsSpace rules previous.piece next.piece hadSpace = false) :
    previous.Fits next ∨
      previous = .colon ∧ next = .equality ∧ rules.spaceAfterColon = false := by
  cases hadSpace with
  | false => exact .inl (first rfl)
  | true =>
      match previous, next with
      | .code _, .literal _ => exact .inl trivial
      | .literal _, .literal _ => simp [needsSpace, piece, Piece.kind?] at dropped
      | .literal whole, .code second =>
          left
          apply fits_of_isClosing visiblePrevious closed valid.1
          simpa [piece, Piece.ofToken, Piece.kind?] using isClosing_of_dropped dropped
      | .code first, .code second =>
          rcases isClosing_of_dropped dropped with closing | closing
          · exact fits_or_glued_code validPrevious.1 valid.1 closing dropped
          · exact .inl (fits_of_isClosing visiblePrevious closed valid.1 closing)

end Part

end Bilingual
