import Bilingual.Proofs.LineBodies
import Bilingual.Proofs.TrimmedLines

/-!
# Lines of code as they are written

A line of code is put together from its parts, with new spaces between them, and
its comment.  This file shows that the line keeps what it consists of:
`keeps_writtenCode`.
-/

namespace Bilingual

variable {list : List Lexeme}

theorem isClosed_of_complete (legible : Legible list) (complete : Complete list) :
    ∀ part ∈ list.flatMap Lexeme.parts, part.IsClosed := by
  induction list with
  | nil => simp
  | cons lexeme others induction =>
      intro part member
      rw [List.flatMap_cons, List.mem_append] at member
      have ends : lexeme.canPrecede (some '\n') = true := by
        cases others with
        | nil => exact complete lexeme rfl
        | cons next others =>
            have precedes := legible.1.canPrecede
            obtain ⟨character, text, shape⟩ := List.exists_cons_of_ne_nil legible.2.1.text_ne_nil
            rw [textOf_cons, shape] at precedes
            exact Lexeme.canPrecede_newline precedes
      rcases member with first | rest
      · cases lexeme with
        | literal whole =>
            obtain rfl := List.mem_singleton.1 first
            by_contra left
            simp only [Part.IsClosed, Bool.not_eq_true] at left
            simp [Lexeme.canPrecede, left] at ends
        | newline => simp [Lexeme.parts] at first
        | comment text => simp [Lexeme.parts] at first
        | code text =>
            obtain ⟨token, -, rfl⟩ := List.mem_map.1 first
            trivial
      · refine induction legible.2 ?_ part rest
        cases others with
        | nil => simp [Complete]
        | cons next others => exact complete

/-- A line can have another one behind it unless a literal in it is left open. -/
theorem complete_iff (legible : Legible list) :
    Complete list ↔ AllClosed list := by
  constructor
  · intro complete whole member
    exact isClosed_of_complete legible complete _ (literal_mem_flatMap_parts.2 member)
  · intro closed last lastOf
    cases last with
    | literal whole =>
        have other := whole.form.quote.character_ne.1.symm
        simp [Lexeme.canPrecede, closed whole (List.mem_of_getLast? lastOf), other]
    | code text => simp [Lexeme.canPrecede, isPlainCode]
    | _ => rfl

/-- There is at most one comment in a line, and the line ends with it. -/
theorem comments_cases (legible : Legible list) (inLine : Lexeme.newline ∉ list) :
    list.filterMap Lexeme.comment? = [] ∨
      ∃ text, list.filterMap Lexeme.comment? = [text] ∧ Complete list ∧
        Legible [.comment text] := by
  induction list with
  | nil => exact .inl rfl
  | cons lexeme others induction =>
      have rest := induction legible.2 fun member => inLine (by simp [member])
      cases lexeme with
      | comment text =>
          obtain rfl := eq_nil_of_comment legible fun member => inLine (by simp [member])
          exact .inr ⟨text, rfl, by simp [Complete, Lexeme.canPrecede], legible⟩
      | _ =>
          rcases rest with none | ⟨text, some, complete, shown⟩
          · exact .inl none
          · refine .inr ⟨text, some, ?_, shown⟩
            cases others with
            | nil => contradiction
            | cons next others => exact complete

/-! ### The first visible part -/

/-- The class of a line that starts with the part. -/
def Part.lineClass : Part → LineClass
  | .code _ => .code
  | .literal whole => whole.lineClass

/-- The class of a line follows from its first visible part. -/
theorem classOf_assemble {parts : List Part} (valid : ∀ part ∈ parts, part.IsValid)
    (hadSpace : Bool) (behind : List Lexeme) :
    classOf (assemble parts behind) =
      match visibleParts hadSpace parts with
      | [] => classOf behind
      | (_, part) :: _ => part.lineClass := by
  induction parts generalizing hadSpace with
  | nil => rfl
  | cons part parts induction =>
      have validPart := valid part (by simp)
      have rest := induction fun other member => valid other (by simp [member])
      rw [visibleParts]
      cases part with
      | literal whole =>
          obtain ⟨after, reads⟩ := validPart
          exact classOf_cons_literal reads
      | code token =>
          rw [assemble]
          cases blank : (Part.code token).isBlank with
          | true =>
              have space : Text.isBlank token.text = true :=
                Text.isBlank_iff.2 (validPart.blank blank)
              rw [classOf_consCode_of_isBlank space, if_pos rfl]
              exact rest true
          | false =>
              obtain ⟨character, text, shape⟩ := List.exists_cons_of_ne_nil validPart.text_ne_nil
              have shown := validPart.head?_visible blank
              have starts : token.text.head? = some character := congrArg List.head? shape
              rw [shape] at shown
              rw [if_neg Bool.false_ne_true]
              exact classOf_consCode_of_not_isBlank
                (Text.isBlank_eq_false_of_head? starts (by simpa using shown))

/-- A line of code has a visible part, and the others stand behind it. -/
theorem exists_visibleParts (legible : Legible list) (inLine : Lexeme.newline ∉ list)
    (code : classOf list = .code) :
    ∃ gap part others, visibleParts false (list.flatMap Lexeme.parts) = (gap, part) :: others ∧
      part.lineClass = .code ∧ part.IsValid ∧ part.isBlank = false ∧ Follows part others := by
  have first := classOf_assemble (isValid_of_mem_flatMap_parts legible) false
    ((list.filterMap Lexeme.comment?).map Lexeme.comment)
  rw [assemble_parts legible inLine, code] at first
  cases shape : visibleParts false (list.flatMap Lexeme.parts) with
  | cons next others =>
      rw [shape] at first
      exact ⟨next.1, next.2, others, rfl, first.symm,
        follows_of_visibleParts (isValid_of_mem_flatMap_parts legible)
          (isChain_flatMap_parts legible inLine) false _ _ _ shape⟩
  | nil =>
      rw [shape] at first
      rcases comments_cases legible inLine with none | ⟨text, some, -, shown⟩
      · rw [none] at first
        contradiction
      · rw [some, List.map_singleton, classOf_cons_comment shown.1] at first
        contradiction

/-! ### What is written -/

/-- The comment of a line as it is written behind its code. -/
def writtenComment (list : List Lexeme) : List Lexeme :=
  match (list.filterMap Lexeme.comment?).head? with
  | none => []
  | some text => [.code (Text.spaces 2), .comment (Text.trimEnd text)]

/-- The lexemes of a line of code as they are written. -/
def writtenCode (rules : FormatRules) (list : List Lexeme) : List Lexeme :=
  assemble (spaced rules (list.flatMap Lexeme.parts)) (writtenComment list)

/-- The comment of a line is the only lexeme behind its code. -/
theorem writtenComment_cases (legible : Legible list) (inLine : Lexeme.newline ∉ list) :
    list.filterMap Lexeme.comment? = [] ∧ writtenComment list = [] ∨
      ∃ text, list.filterMap Lexeme.comment? = [text] ∧
        writtenComment list = [.code (Text.spaces 2), .comment (Text.trimEnd text)] ∧
          Complete list ∧ Legible (writtenComment list) := by
  rcases comments_cases legible inLine with none | ⟨text, some, complete, shown⟩
  · exact .inl ⟨none, by rw [writtenComment, none]; rfl⟩
  · have written : writtenComment list =
        [.code (Text.spaces 2), .comment (Text.trimEnd text)] := by
      rw [writtenComment, some, List.head?_cons]
    refine .inr ⟨text, some, written, complete, ?_⟩
    rw [written]
    exact legible_consCode (legible_trimEnd_comment shown) (isPlainCode_spaces 2)

theorem legible_writtenComment (legible : Legible list) (inLine : Lexeme.newline ∉ list) :
    Legible (writtenComment list) := by
  rcases writtenComment_cases legible inLine with ⟨-, written⟩ | ⟨text, -, -, -, shown⟩
  · rw [written]
    trivial
  · exact shown

section Code

variable {rules : FormatRules}

theorem tokens_writtenComment (legible : Legible list) (inLine : Lexeme.newline ∉ list) :
    lexemeTokens (writtenComment list) = [] ∧
      ∀ text, joinsWords text (leadingCode (writtenComment list)) = false := by
  rcases writtenComment_cases legible inLine with ⟨-, written⟩ | ⟨text, -, written, -⟩
  · rw [written]
    exact ⟨rfl, fun before => (joinsWords_of_blank (by simp [leadingCode]) before).2⟩
  · rw [written]
    have blank := Text.isBlank_iff.1 (Text.isBlank_spaces 2)
    refine ⟨?_, fun before => (joinsWords_of_blank blank before).2⟩
    simp [lexemeTokens, Lexeme.code?, visibleTokens_blank blank]

theorem comments_writtenComment (legible : Legible list) (inLine : Lexeme.newline ∉ list) :
    (writtenComment list).filterMap Lexeme.comment? =
      (list.filterMap Lexeme.comment?).map Text.trimEnd := by
  rcases writtenComment_cases legible inLine with ⟨none, written⟩ | ⟨text, some, written, -⟩
  · rw [written, none]
    rfl
  · rw [written, some]
    rfl

theorem legible_writtenCode (legible : Legible list) (inLine : Lexeme.newline ∉ list) :
    Legible (writtenCode rules list) := by
  have valid := isValid_of_mem_flatMap_parts legible
  have chain : (spaced rules (list.flatMap Lexeme.parts)).IsChain Part.Meets :=
    meets_spaced valid (isChain_flatMap_parts legible inLine)
  rcases writtenComment_cases legible inLine with ⟨-, written⟩ | ⟨text, -, written, complete, shown⟩
  · rw [writtenCode, written]
    exact legible_assemble (isValid_of_mem_spaced valid) chain trivial
      fun whole _ => Lexeme.canPrecede_none _
  · apply legible_assemble (isValid_of_mem_spaced valid) chain shown
    intro whole last
    -- Only a closed literal can have a comment behind it.
    have closed : (Part.literal whole).IsClosed :=
      (mem_spaced (List.mem_of_getLast? last)).elim (by simp [Part.space])
        (isClosed_of_complete legible complete _)
    have space : Part.IsClosed (.literal whole) → (Part.literal whole).Meets .space :=
      fun closed => Part.meets_blank closed Part.isWhiteSpace_of_mem_space
    rw [written]
    exact space closed

theorem complete_writtenCode_iff (legible : Legible list) (inLine : Lexeme.newline ∉ list) :
    Complete (writtenCode rules list) ↔ Complete list := by
  have noLiteral : ∀ whole, .literal whole ∉ writtenComment list := by
    intro whole
    rcases writtenComment_cases legible inLine with ⟨-, written⟩ | ⟨text, -, written, -⟩ <;>
      simp [written]
  rw [complete_iff legible, complete_iff (legible_writtenCode legible inLine)]
  simp only [AllClosed, writtenCode, literal_mem_assemble, literal_mem_spaced,
    literal_mem_flatMap_parts, noLiteral, or_false]

theorem classOf_writtenCode (legible : Legible list) (inLine : Lexeme.newline ∉ list)
    (code : classOf list = .code) : classOf (writtenCode rules list) = .code := by
  obtain ⟨gap, part, others, shape, kind, -, visible, -⟩ := exists_visibleParts legible inLine code
  have valid : ∀ part ∈ spaced rules (list.flatMap Lexeme.parts), part.IsValid :=
    isValid_of_mem_spaced (isValid_of_mem_flatMap_parts legible)
  rw [writtenCode, classOf_assemble valid false, spaced_of_visibleParts shape, visibleParts,
    visible, if_neg Bool.false_ne_true]
  exact kind

theorem keeps_writtenCode (legible : Legible list) (inLine : Lexeme.newline ∉ list)
    (code : classOf list = .code) : Keeps list (writtenCode rules list) where
  legible := legible_writtenCode legible inLine
  inLine := by
    rw [writtenCode, newline_mem_assemble]
    rcases writtenComment_cases legible inLine with ⟨-, written⟩ | ⟨text, -, written, -⟩ <;>
      simp [written]
  lineClass := by rw [classOf_writtenCode legible inLine code, code]
  complete := (complete_writtenCode_iff legible inLine).2
  tokens := by
    have valid := isValid_of_mem_flatMap_parts legible
    obtain ⟨noTokens, apart⟩ := tokens_writtenComment legible inLine
    rw [writtenCode, lexemeTokens_assemble (isValid_of_mem_spaced valid)
      (meets_spaced valid (isChain_flatMap_parts legible inLine)) apart, noTokens,
      List.append_nil, visibleTokens_spaced valid, ← lexemeTokens_eq_flatMap_parts]
  comments := by
    rw [writtenCode, comments_assemble, comments_writtenComment legible inLine, List.map_map]
    exact List.map_congr_left fun text _ => Text.trimEnd_trimEnd text
  literals := by
    have none : (writtenComment list).filterMap Lexeme.literal? = [] := by
      rcases writtenComment_cases legible inLine with ⟨-, written⟩ | ⟨text, -, written, -⟩ <;>
        simp [written, Lexeme.literal?]
    rw [writtenCode, literals_assemble, none, List.append_nil, literals_spaced,
      ← literals_eq_filterMap_parts]
    exact iff_of_true rfl (by simp [losesLiteralEnd, code])

theorem exists_codeOf_eq_cons (legible : Legible list) (inLine : Lexeme.newline ∉ list)
    (code : classOf list = .code) :
    ∃ character rest, codeOf rules list = character :: rest ∧ isWhiteSpace character = false := by
  obtain ⟨gap, part, others, shape, -, valid, visible, -⟩ := exists_visibleParts legible inLine code
  obtain ⟨character, rest, text⟩ := List.exists_cons_of_ne_nil valid.text_ne_nil
  have starts := valid.head?_visible visible
  rw [text] at starts
  refine ⟨character, rest ++ (placeBehind rules part others).flatMap Part.text, ?_,
    by simpa using starts⟩
  rw [codeOf, spaced_of_visibleParts shape, List.flatMap_cons, text]
  rfl

theorem codeOf_ne_nil (legible : Legible list) (inLine : Lexeme.newline ∉ list)
    (code : classOf list = .code) : codeOf rules list ≠ [] := by
  obtain ⟨character, rest, shape, -⟩ := @exists_codeOf_eq_cons list rules legible inLine code
  simp [shape]

theorem textOf_writtenCode (legible : Legible list) (inLine : Lexeme.newline ∉ list)
    (code : classOf list = .code) :
    textOf (writtenCode rules list) = codeOf rules list ++
      trailingComment (codeOf rules list) (list.filterMap Lexeme.comment?).head? := by
  have nonempty : (codeOf rules list).isEmpty = false :=
    List.isEmpty_eq_false_iff.2 (codeOf_ne_nil legible inLine code)
  rw [writtenCode, textOf_assemble, codeOf]
  rw [codeOf] at nonempty
  rcases writtenComment_cases legible inLine with ⟨none, written⟩ | ⟨text, some, written, -⟩
  · simp [none, written, trailingComment]
  · simp [some, written, trailingComment, nonempty, Lexeme.text]

end Code

end Bilingual
