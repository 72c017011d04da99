import Bilingual.Proofs.ClosedUp
import Bilingual.Proofs.SubstitutedLines

/-!
# Spaces in translated lines

A line of code is written with the same spaces before and after a translation, except in
front of opening parentheses.  Closed up, a line that is written and then translated is the
same as one that is translated and then written, `closedUp_writtenCode_substitute`, and it
ends with a colon where the line itself does, `endsInColon_writtenCode`.
-/

namespace Bilingual

variable (table : KeywordTable) (direction : Direction) (rules : FormatRules)

/-! ### Parts with spaces between them -/

theorem visibleParts_map_substitute (hadSpace : Bool) (parts : List Part) :
    visibleParts hadSpace (parts.map (Part.substitute table direction)) =
      (visibleParts hadSpace parts).map (Prod.map id (Part.substitute table direction)) := by
  induction parts generalizing hadSpace with
  | nil => rfl
  | cons part parts induction =>
      rw [List.map_cons, visibleParts, visibleParts, isBlank_substitute]
      split
      · exact induction true
      · rw [induction, List.map_cons]
        rfl

theorem substitute_space : Part.space.substitute table direction = .space :=
  congrArg Part.code
    (replacedLineToken_eq_self table direction Part.isValid_space.1 (by simp))

theorem map_substitute_gapParts (previous next : Part) (hadSpace : Bool) :
    (gapParts rules previous next hadSpace).map (Part.substitute table direction) =
      gapParts rules previous next hadSpace := by
  unfold gapParts
  split
  · rw [List.map_singleton, substitute_space]
  · rfl

/-- A parenthesis swallows the gap in front of it. -/
theorem foldr_gapParts_of_openParen {next : Part} (valid : next.IsValid)
    (paren : next.piece.kind? = some .openParen) (previous : Part) (hadSpace : Bool)
    (behind : Text) :
    (gapParts rules previous next hadSpace).foldr Part.closeBehind (next.closeBehind behind) =
      next.closeBehind behind := by
  cases next with
  | literal whole => contradiction
  | code token =>
      have kind : token.kind = .openParen := by
        simpa [Part.piece, Piece.ofToken, Piece.kind?] using paren
      obtain ⟨valid, -⟩ := valid
      cases valid with
      | openParen =>
          rw [gapParts]
          split <;> rfl
      | _ => contradiction

/-- A gap is closed up to the same text before and after a translation. -/
theorem foldr_gapParts_substitute {next : Part} (valid : next.IsValid) (previous : Part)
    (hadSpace : Bool) (behind : Text) :
    (gapParts rules (previous.substitute table direction) (next.substitute table direction)
        hadSpace).foldr Part.closeBehind ((next.substitute table direction).closeBehind behind) =
      (gapParts rules previous next hadSpace).foldr Part.closeBehind
        ((next.substitute table direction).closeBehind behind) := by
  by_cases paren : next.piece.kind? = some .openParen
  · have parenToo : (next.substitute table direction).piece.kind? = some .openParen := by
      rw [kind?_piece_substitute, paren]
    have validToo := isValid_substitute table direction valid
    have same : next.substitute table direction = next := by
      cases next with
      | literal whole => rfl
      | code token =>
          refine congrArg Part.code (replacedLineToken_eq_self table direction valid.1 ?_)
          rintro word
          simp [Part.piece, Piece.ofToken, Piece.kind?, word] at paren
    rw [foldr_gapParts_of_openParen rules validToo parenToo, same,
      foldr_gapParts_of_openParen rules valid paren]
  · have decision : needsSpace rules previous.piece next.piece hadSpace =
        needsSpace rules (previous.substitute table direction).piece
          (next.substitute table direction).piece hadSpace :=
      needsSpace_congr (kind?_piece_substitute table direction previous).symm
        (kind?_piece_substitute table direction next).symm
        (closesGroup_piece_substitute table direction next).symm (absurd · paren)
    rw [gapParts, gapParts, decision]

theorem foldr_placeBehind_substitute (previous : Part) {others : List (Bool × Part)}
    (valid : ∀ next ∈ others, next.2.IsValid) (behind : Text) :
    (placeBehind rules (previous.substitute table direction)
        (others.map (Prod.map id (Part.substitute table direction)))).foldr Part.closeBehind
          behind =
      ((placeBehind rules previous others).map (Part.substitute table direction)).foldr
        Part.closeBehind behind := by
  induction others generalizing previous with
  | nil => rfl
  | cons next others induction =>
      obtain ⟨validNext, validOthers⟩ := List.forall_mem_cons.1 valid
      obtain ⟨hadSpace, part⟩ := next
      have rest := induction part validOthers
      have first := foldr_gapParts_substitute table direction rules validNext previous hadSpace
      simp only [List.map_cons, Prod.map_apply, id_eq, placeBehind, List.map_append,
        map_substitute_gapParts, List.foldr_append, List.foldr_cons]
      rw [rest, first]

/-- Spaces are put between parts in the same way before and after a translation, up to those
in front of parentheses. -/
theorem foldr_spaced_substitute {parts : List Part} (valid : ∀ part ∈ parts, part.IsValid)
    (behind : Text) :
    (spaced rules (parts.map (Part.substitute table direction))).foldr Part.closeBehind behind =
      ((spaced rules parts).map (Part.substitute table direction)).foldr Part.closeBehind
        behind := by
  have validVisible : ∀ next ∈ visibleParts false parts, next.2.IsValid := by
    intro next member
    exact valid next.2 (mem_of_mem_visibleParts member)
  rw [spaced_eq rules parts false, spaced_eq rules (parts.map _) false,
    visibleParts_map_substitute]
  generalize visibleParts false parts = visible at validVisible
  cases visible with
  | nil => rfl
  | cons next others =>
      have rest := foldr_placeBehind_substitute table direction rules next.2
        (List.forall_mem_cons.1 validVisible).2 behind
      exact congrArg (next.2.substitute table direction).closeBehind rest

/-! ### Lines of code -/

section Code

variable {list : List Lexeme}

/-- Closed up, it is the same to write a line of code and to translate it in either
order. -/
theorem closedUp_writtenCode_substitute (legible : Legible list)
    (inLine : Lexeme.newline ∉ list) :
    closedUp (writtenCode rules (list.map (Lexeme.substitute table direction))) =
      closedUp ((writtenCode rules list).map (Lexeme.substitute table direction)) := by
  have valid := isValid_of_mem_flatMap_parts legible
  have validSpaced : ∀ part ∈ spaced rules (list.flatMap Lexeme.parts), part.IsValid :=
    isValid_of_mem_spaced valid
  have validMapped := isValid_of_mem_map_substitute table direction validSpaced
  have validOther : ∀ part ∈ spaced rules
      ((list.flatMap Lexeme.parts).map (Part.substitute table direction)), part.IsValid :=
    isValid_of_mem_spaced (isValid_of_mem_map_substitute table direction valid)
  have shown := legible_substitute table direction (legible_writtenComment legible inLine)
  have apart := (tokens_writtenComment legible inLine).2
  rw [writtenCode, writtenCode, flatMap_parts_substitute, writtenComment_map_substitute,
    map_substitute_assemble table direction validSpaced
      (meets_spaced valid (isChain_flatMap_parts legible inLine)) apart,
    closedUp_assemble validOther shown, closedUp_assemble validMapped shown,
    foldr_spaced_substitute table direction rules valid]

end Code

end Bilingual
