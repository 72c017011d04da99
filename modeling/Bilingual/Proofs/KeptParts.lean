import Bilingual.Proofs.PlacedParts

/-!
# Spacing keeps the parts of a line

Spacing drops white space and puts in single spaces; all other parts stay, in
their order.  The main statement is `meets_spaced`: a gap is closed only next to
punctuation, or where there was none, so no word and no literal changes.
-/

namespace Bilingual

variable {rules : FormatRules}

theorem mem_gapParts {previous next part : Part} {hadSpace : Bool}
    (member : part ∈ gapParts rules previous next hadSpace) : part = .space := by
  unfold gapParts at member
  split at member
  · exact List.mem_singleton.1 member
  · simp at member

theorem mem_spacedBehind {previous part : Part} {hadSpace : Bool} {parts : List Part}
    (member : part ∈ spacedBehind rules previous hadSpace parts) :
    part = .space ∨ part ∈ parts := by
  induction parts generalizing previous hadSpace with
  | nil => simp [spacedBehind] at member
  | cons next parts induction =>
      rw [spacedBehind] at member
      split at member
      · exact (induction member).imp_right (List.mem_cons_of_mem next)
      · rcases List.mem_append.1 member with inGap | others
        · exact .inl (mem_gapParts inGap)
        · rcases List.mem_cons.1 others with rfl | others
          · exact .inr (List.mem_cons_self)
          · exact (induction others).imp_right (List.mem_cons_of_mem next)

theorem mem_spaced {part : Part} {parts : List Part} (member : part ∈ spaced rules parts) :
    part = .space ∨ part ∈ parts := by
  induction parts with
  | nil => simp [spaced] at member
  | cons next parts induction =>
      rw [spaced] at member
      split at member
      · exact (induction member).imp_right (List.mem_cons_of_mem next)
      · rcases List.mem_cons.1 member with rfl | others
        · exact .inr (List.mem_cons_self)
        · exact (mem_spacedBehind others).imp_right (List.mem_cons_of_mem next)

theorem isValid_of_mem_spaced {parts : List Part} (valid : ∀ part ∈ parts, part.IsValid) :
    ∀ part ∈ spaced rules parts, part.IsValid := by
  intro part member
  rcases mem_spaced member with rfl | known
  · exact Part.isValid_space
  · exact valid part known

/-! ### What is not white space stays -/

section Kept

variable {Value : Type} {pick : Part → List Value}

theorem flatMap_spacedBehind (noSpace : pick .space = []) {parts : List Part}
    (blank : ∀ part ∈ parts, part.isBlank = true → pick part = []) (previous : Part)
    (hadSpace : Bool) :
    (spacedBehind rules previous hadSpace parts).flatMap pick = parts.flatMap pick := by
  induction parts generalizing previous hadSpace with
  | nil => rfl
  | cons part parts induction =>
      have others := induction fun other member => blank other (by simp [member])
      rw [spacedBehind, List.flatMap_cons]
      split
      · next space => rw [others, blank part (by simp) space, List.nil_append]
      · have none : (gapParts rules previous part hadSpace).flatMap pick = [] := by
          unfold gapParts
          split <;> simp [noSpace]
        rw [List.flatMap_append, none, List.flatMap_cons, others, List.nil_append]

/-- What is counted in parts other than white space is the same after spacing. -/
theorem flatMap_spaced (noSpace : pick .space = []) {parts : List Part}
    (blank : ∀ part ∈ parts, part.isBlank = true → pick part = []) :
    (spaced rules parts).flatMap pick = parts.flatMap pick := by
  induction parts with
  | nil => rfl
  | cons part parts induction =>
      have others : ∀ other ∈ parts, other.isBlank = true → pick other = [] :=
        fun other member => blank other (by simp [member])
      rw [spaced, List.flatMap_cons]
      split
      · next space => rw [induction others, blank part (by simp) space, List.nil_append]
      · rw [List.flatMap_cons, flatMap_spacedBehind noSpace others]

end Kept

theorem Part.IsValid.blank {part : Part} (valid : part.IsValid) (blank : part.isBlank = true) :
    ∀ character ∈ part.text, isWhiteSpace character = true := by
  cases part with
  | literal whole => simp at blank
  | code token =>
      apply valid.1.blank
      simpa [isBlank, piece, Piece.ofToken, Piece.kind?] using blank

theorem literal_mem_spaced {parts : List Part} {whole : Literal} :
    .literal whole ∈ spaced rules parts ↔ .literal whole ∈ parts := by
  have member : ∀ parts : List Part, .literal whole ∈ parts ↔
      .literal whole ∈ parts.flatMap fun part => [part].filter (·.literal?.isSome) := by
    intro parts
    simp only [List.mem_flatMap, List.mem_filter, List.mem_singleton]
    constructor
    · intro known
      exact ⟨_, known, rfl, rfl⟩
    · rintro ⟨part, known, rfl, -⟩
      exact known
  rw [member, member parts, flatMap_spaced rfl]
  intro part known blank
  cases part with
  | code token => rfl
  | literal whole => contradiction

theorem literals_spaced (parts : List Part) :
    (spaced rules parts).filterMap Part.literal? = parts.filterMap Part.literal? := by
  rw [List.filterMap_eq_flatMap_toList, List.filterMap_eq_flatMap_toList]
  apply flatMap_spaced rfl
  intro part member blank
  cases part with
  | code token => rfl
  | literal whole => simp at blank

theorem visibleTokens_spaced {parts : List Part} (valid : ∀ part ∈ parts, part.IsValid) :
    (spaced rules parts).flatMap Part.visibleTokens = parts.flatMap Part.visibleTokens := by
  have noSpace : Part.space.visibleTokens = [] := visibleTokens_blank Part.isWhiteSpace_of_mem_space
  apply flatMap_spaced noSpace
  intro part member blank
  cases part with
  | literal whole => rfl
  | code token => exact visibleTokens_blank ((valid _ member).blank blank)

/-! ### The seams between parts -/

/-- White space can stand behind everything that is closed. -/
theorem Part.meets_blank {part : Part} {token : Token LineTokenKind} (closed : part.IsClosed)
    (space : ∀ character ∈ token.text, isWhiteSpace character = true) :
    part.Meets (.code token) := by
  cases part with
  | code other => exact (joinsWords_of_blank space other.text).2
  | literal whole =>
      have closed : whole.closed = true := closed
      have other : token.text.head? ≠ some whole.form.quote.character := by
        intro first
        have blank := space _ (List.mem_of_head? first)
        rw [Quote.not_isWhiteSpace] at blank
        contradiction
      simp [Meets, text, Lexeme.canPrecede, closed, other]

theorem Part.space_meets (part : Part) : Part.space.Meets part := by
  cases part with
  | code token => exact (joinsWords_of_blank isWhiteSpace_of_mem_space token.text).1
  | literal whole => trivial

/-- Punctuation can stand next to everything that is closed. -/
theorem Part.meets_of_isClosing {first second : Part} (valid : first.IsValid)
    (validSecond : second.IsValid) (closed : first.IsClosed)
    (closing : first.piece.kind?.any LineTokenKind.isClosing = true ∨
      second.piece.kind?.any LineTokenKind.isClosing = true) : first.Meets second := by
  match first, second with
  | .code first, .literal _ => trivial
  | .code first, .code second =>
      rw [Meets, joinsWords, Bool.and_eq_false_iff]
      apply closing.imp <;> intro closing
      · obtain ⟨character, sign, shape⟩ := valid.1.text_of_isClosing closing
        simp [shape, (apart_of_closing sign).1]
      · obtain ⟨character, sign, shape⟩ := validSecond.1.text_of_isClosing closing
        simp [shape, (apart_of_closing sign).1]
  | .literal whole, .literal other => simp [piece, Piece.kind?] at closing
  | .literal whole, .code second =>
      have closing : second.kind.isClosing = true := by
        simpa [piece, Piece.ofToken, Piece.kind?] using closing
      obtain ⟨character, sign, shape⟩ := validSecond.1.text_of_isClosing closing
      have closed : whole.closed = true := closed
      have other : character ≠ whole.form.quote.character := by
        rintro rfl
        revert sign
        cases whole.form.quote <;> decide
      simp [Meets, text, shape, Lexeme.canPrecede, closed, other]

theorem meets_placeBehind {previous : Part} {others : List (Bool × Part)}
    (validPrevious : previous.IsValid) (follows : Follows previous others) :
    (previous :: placeBehind rules previous others).IsChain Part.Meets := by
  induction others generalizing previous with
  | nil => exact .singleton _
  | cons next others induction =>
      obtain ⟨hadSpace, part⟩ := next
      obtain ⟨closed, first, ⟨valid, -⟩, followsPart⟩ := follows
      have rest := induction valid followsPart
      rw [placeBehind, gapParts]
      split
      · rw [List.singleton_append, List.isChain_cons_cons, List.isChain_cons_cons]
        exact ⟨Part.meets_blank closed Part.isWhiteSpace_of_mem_space, Part.space_meets part, rest⟩
      · next dropped =>
          rw [List.nil_append, List.isChain_cons_cons]
          refine ⟨?_, rest⟩
          cases hadSpace with
          | false => exact (first rfl).meets validPrevious
          | true =>
              exact Part.meets_of_isClosing validPrevious valid closed
                (isClosing_of_dropped (Bool.eq_false_iff.2 dropped))

/-- After spacing, each part can still stand behind the one before. -/
theorem meets_spaced {parts : List Part} (valid : ∀ part ∈ parts, part.IsValid)
    (chain : parts.IsChain Part.Fits) : (spaced rules parts).IsChain Part.Meets := by
  have follows := follows_of_visibleParts valid chain false
  rw [spaced_eq rules parts false]
  match visible : visibleParts false parts with
  | [] => exact .nil
  | (_, part) :: others =>
      obtain ⟨validPart, -, followsPart⟩ := follows _ _ _ visible
      exact meets_placeBehind validPart followsPart

end Bilingual
