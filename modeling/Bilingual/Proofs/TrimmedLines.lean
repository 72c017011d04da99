import Bilingual.Proofs.LineBodies

/-!
# Lines that are trimmed

Blank lines, comments and lines that start with a docstring are written as they
stand, except that white space is dropped at their ends.  This file shows that
such a line keeps its tokens and its comments, and says when it keeps its
literals.  The main statement is `keeps_trimLast`.
-/

namespace Bilingual

variable {list : List Lexeme}

/-! ### Blank lines -/

theorem isBlank_text_comment {text source rest : Text}
    (reads : Reads source (.comment text) rest) : Text.isBlank text = false :=
  Text.isBlank_eq_false_of_head? (head?_comment reads) (by decide)

theorem isBlank_text_literal {whole : Literal} {source rest : Text}
    (reads : Reads source (.literal whole) rest) : Text.isBlank whole.text = false :=
  Text.isBlank_eq_false_of_head? (head?_literal reads) whole.form.quote.not_isWhiteSpace

theorem keeps_of_isBlank (legible : Legible list) (inLine : Lexeme.newline ∉ list)
    (blank : Text.isBlank (textOf list) = true) : Keeps list [] := by
  induction list with
  | nil => exact .refl trivial (by simp) rfl
  | cons lexeme others induction =>
      rw [textOf_cons, Text.isBlank_append, Bool.and_eq_true] at blank
      cases lexeme with
      | newline => simp at inLine
      | comment text => exact absurd blank.1 (by simp [Lexeme.text, isBlank_text_comment legible.1])
      | literal whole =>
          exact absurd blank.1 (by simp [Lexeme.text, isBlank_text_literal legible.1])
      | code text =>
          rw [← consCode_of_legible legible]
          exact .of_consCode blank.1
            (induction legible.2 (fun member => inLine (by simp [member])) blank.2)

/-! ### Comments -/

theorem legible_trimEnd_comment {text : Text} {others : List Lexeme}
    (legible : Legible (.comment text :: others)) : Legible [.comment (Text.trimEnd text)] := by
  have reads := legible.1
  generalize (Lexeme.comment text).text ++ textOf others = source at reads
  cases reads with
  | @comment text rest inLine whole =>
      rw [Text.trimEnd_cons (by decide)]
      have shorter : '\n' ∉ Text.trimEnd text := by
        intro member
        exact inLine ((List.rdropWhile_prefix isWhiteSpace text).subset member)
      exact ⟨.comment shorter rfl, trivial⟩

theorem keeps_comment {text : Text} (legible : Legible [.comment text]) :
    Keeps [.comment text] [.comment (Text.trimEnd text)] where
  legible := legible_trimEnd_comment legible
  inLine := by simp
  lineClass := by
    rw [classOf_cons_comment legible.1, classOf_cons_comment (legible_trimEnd_comment legible).1]
  complete := fun _ => by simp [Complete, Lexeme.canPrecede]
  tokens := rfl
  comments := by simp [Lexeme.comment?]
  literals := by
    have kept : losesLiteralEnd [.comment text] = false := by
      simp [losesLiteralEnd, classOf_cons_comment legible.1]
    simp only [kept, iff_true]
    rfl

/-! ### Docstrings -/

/-- The last lexeme of a line with its end trimmed. -/
def Lexeme.trimmed : Lexeme → List Lexeme
  | .code text => if Text.isBlank text then [] else [.code (Text.trimEnd text)]
  | .newline => []
  | .comment text => [.comment (Text.trimEnd text)]
  | .literal whole => [.literal { whole with text := Text.trimEnd whole.text }]

theorem textOf_trimmed {lexeme : Lexeme} (inLine : lexeme ≠ .newline) :
    textOf lexeme.trimmed = Text.trimEnd lexeme.text := by
  cases lexeme with
  | newline => contradiction
  | code text =>
      rw [Lexeme.trimmed]
      split
      · next blank => exact (Text.trimEnd_eq_nil_iff.2 blank).symm
      · simp [Lexeme.text]
  | comment text => simp [Lexeme.trimmed, Lexeme.text]
  | literal whole => simp [Lexeme.trimmed, Lexeme.text]

theorem LiteralForm.opensBefore_of_append {form : LiteralForm} {first second : Text}
    (opens : form.opensBefore (first ++ second) = true) : form.opensBefore first = true := by
  cases form with
  | docstring quote => rfl
  | string quote =>
      simp only [opensBefore, Bool.not_eq_true', ← Bool.not_eq_true,
        List.isPrefixOf_iff_prefix] at opens ⊢
      intro starts
      exact opens (starts.trans (List.prefix_append first second))

/-- The start of a literal that is left open is one, when it has the delimiter. -/
theorem legible_trimEnd_literal {whole : Literal} (legible : Legible [.literal whole])
    (left : whole.closed = false) :
    Legible [.literal { whole with text := Text.trimEnd whole.text }] := by
  have reads := legible.1
  generalize (Lexeme.literal whole).text ++ textOf [] = source at reads
  generalize textOf [] = rest at reads
  cases reads with
  | @literal form behind opens =>
      obtain ⟨blank, -, parts⟩ := Text.trimEnd_append_blank behind
      have body := literalBody_of_left left
      have visible : form.delimiter.getLast?.all (!isWhiteSpace ·) = true := by
        cases form <;> simp [LiteralForm.delimiter, Quote.triple, Quote.not_isWhiteSpace]
      rw [← parts] at opens left
      have shorter := literalBody_of_left_append left
      have reads := Reads.literal (LiteralForm.opensBefore_of_append opens)
      rw [shorter] at reads
      rw [body]
      simp only [Text.trimEnd_append_of_getLast? visible]
      refine ⟨?_, trivial⟩
      rw [textOf_nil, List.append_nil]
      exact reads

/-- A trimmed lexeme is read back.  Of the literals, only one that is left open
loses something. -/
theorem legible_trimmed {lexeme : Lexeme} (legible : Legible [lexeme])
    (left : lexeme.lastKind.isLiteral = false) : Legible lexeme.trimmed := by
  cases lexeme with
  | newline => trivial
  | comment text => exact legible_trimEnd_comment legible
  | code text =>
      rw [Lexeme.trimmed]
      split
      · trivial
      · next shown =>
          have nonempty : Text.trimEnd text ≠ [] := mt Text.trimEnd_eq_nil_iff.1 shown
          have plain : (Text.trimEnd text).all isPlainCode = true :=
            List.all_eq_true.2 fun character member =>
              List.all_eq_true.1 legible.1.plain_of_code character
                ((List.rdropWhile_prefix isWhiteSpace text).subset member)
          exact ⟨.code nonempty plain rfl, trivial⟩
  | literal whole =>
      apply legible_trimEnd_literal legible
      rw [Bool.eq_false_iff]
      intro closed
      have last := legible.1.getLast?_literal closed
      have other := whole.form.quote.character_ne.1
      have literal := Scanner.isLiteral_spanKind_mode whole.form
      simp [Lexeme.lastKind, last, other, literal] at left

/-- In front of code at the end of a line there is no white space. -/
theorem getLast?_textOf_of_code {before : List Lexeme} {text : Text}
    (legible : Legible (before ++ [.code text])) (inLine : Lexeme.newline ∉ before) :
    (textOf before).getLast?.all (!isWhiteSpace ·) = true := by
  rcases List.eq_nil_or_concat' before with rfl | ⟨others, last, rfl⟩
  · rfl
  · have precedes := legible.seam last (by simp)
    have reads := (legible.of_append_left.of_append_right).1
    obtain ⟨character, rest, shape⟩ := List.exists_cons_of_ne_nil
      legible.of_append_right.1.text_ne_nil
    have plain := legible.of_append_right.1.plain_of_code
    simp only [Lexeme.text] at shape
    rw [shape, List.all_cons, Bool.and_eq_true] at plain
    rw [textOf_cons, Lexeme.text, shape, List.cons_append, List.head?_cons] at precedes
    rw [textOf_append, List.getLast?_append_of_ne_nil _ (by simp [reads.text_ne_nil])]
    cases last with
    | newline => simp at inLine
    | code code => simp [Lexeme.canPrecede, plain.1] at precedes
    | comment comment =>
        obtain rfl : character = '\n' := by simpa [Lexeme.canPrecede] using precedes
        simp [isPlainCode] at plain
    | literal whole =>
        have closed : whole.closed = true := by
          by_contra left
          simp [Lexeme.canPrecede, left] at precedes
        rw [textOf_cons, textOf_nil, List.append_nil, Lexeme.text,
          reads.getLast?_literal closed]
        simp [Quote.not_isWhiteSpace]

theorem textOf_append_trimmed {before : List Lexeme} {last : Lexeme}
    (legible : Legible (before ++ [last])) (inLine : Lexeme.newline ∉ before ++ [last]) :
    textOf (before ++ last.trimmed) = Text.trimEnd (textOf (before ++ [last])) := by
  have lastInLine : last ≠ .newline := by
    rintro rfl
    simp at inLine
  rw [textOf_append, textOf_append, textOf_trimmed lastInLine, textOf_cons, textOf_nil,
    List.append_nil]
  cases last with
  | newline => contradiction
  | code text =>
      exact (Text.trimEnd_append_of_getLast? (getLast?_textOf_of_code legible fun member =>
        inLine (by simp [member])) _).symm
  | comment text =>
      exact (Text.trimEnd_append_of_not_isBlank _
        (isBlank_text_comment legible.of_append_right.1)).symm
  | literal whole =>
      exact (Text.trimEnd_append_of_not_isBlank _
        (isBlank_text_literal legible.of_append_right.1)).symm

theorem Lexeme.canPrecede_newline {lexeme : Lexeme} {character : Char}
    (precedes : lexeme.canPrecede (some character) = true) :
    lexeme.canPrecede (some '\n') = true := by
  cases lexeme with
  | newline => rfl
  | code text => simp [canPrecede, isPlainCode]
  | comment text => simp [canPrecede]
  | literal whole =>
      have other := whole.form.quote.character_ne.1.symm
      cases closed : whole.closed <;> simp_all [canPrecede]

theorem legible_append_trimmed {before : List Lexeme} {last : Lexeme}
    (legible : Legible (before ++ [last])) (inLine : last ≠ .newline)
    (left : last.lastKind.isLiteral = false) : Legible (before ++ last.trimmed) := by
  refine legible.of_append_left.append (legible_trimmed legible.of_append_right left) ?_
  intro lexeme lastOf
  have precedes := legible.seam lexeme lastOf
  rw [textOf_cons, textOf_nil, List.append_nil] at precedes
  rw [textOf_trimmed inLine]
  cases blank : Text.isBlank last.text with
  | true =>
      rw [Text.trimEnd_eq_nil_iff.2 blank]
      exact lexeme.canPrecede_none
  | false => rwa [Text.head?_trimEnd blank]

theorem complete_append_trimmed {before : List Lexeme} {last : Lexeme}
    (legible : Legible (before ++ [last])) (complete : Complete (before ++ [last])) :
    Complete (before ++ last.trimmed) := by
  have ends : last.canPrecede (some '\n') = true := complete last (by simp)
  have one : ∀ lexeme : Lexeme, lexeme.canPrecede (some '\n') = true →
      Complete (before ++ [lexeme]) := by
    intro lexeme precedes other lastOf
    obtain rfl : lexeme = other := by simpa using lastOf
    exact precedes
  cases last with
  | newline =>
      rw [Lexeme.trimmed, List.append_nil]
      intro other lastOf
      exact Lexeme.canPrecede_newline (legible.seam other lastOf)
  | comment text => exact one _ rfl
  | literal whole =>
      have other := whole.form.quote.character_ne.1.symm
      refine one _ ?_
      simpa [Lexeme.canPrecede, other] using ends
  | code text =>
      rw [Lexeme.trimmed]
      split
      · obtain ⟨character, rest, shape⟩ := List.exists_cons_of_ne_nil
          legible.of_append_right.1.text_ne_nil
        rw [List.append_nil]
        intro other lastOf
        have precedes := legible.seam other lastOf
        rw [textOf_cons, shape] at precedes
        exact Lexeme.canPrecede_newline precedes
      · exact one _ rfl

theorem lexemeTokens_append (first second : List Lexeme) :
    lexemeTokens (first ++ second) = lexemeTokens first ++ lexemeTokens second := by
  simp [lexemeTokens]

theorem lexemeTokens_trimmed (lexeme : Lexeme) :
    lexemeTokens lexeme.trimmed = lexemeTokens [lexeme] := by
  cases lexeme with
  | code text =>
      obtain ⟨blank, space, parts⟩ := Text.trimEnd_append_blank text
      have same := visibleTokens_append_blank (Text.isBlank_iff.1 space) (Text.trimEnd text)
      rw [parts] at same
      rw [Lexeme.trimmed]
      split
      · next space =>
          have none : visibleTokens text = [] := visibleTokens_blank (Text.isBlank_iff.1 space)
          simp [lexemeTokens, Lexeme.code?, none]
      · simp [lexemeTokens, Lexeme.code?, same]
  | _ => rfl

theorem newline_notMem_trimmed (lexeme : Lexeme) : Lexeme.newline ∉ lexeme.trimmed := by
  cases lexeme with
  | code text =>
      rw [Lexeme.trimmed]
      split <;> simp
  | _ => simp [Lexeme.trimmed]

theorem comments_trimmed (lexeme : Lexeme) :
    (lexeme.trimmed.filterMap Lexeme.comment?).map Text.trimEnd =
      ([lexeme].filterMap Lexeme.comment?).map Text.trimEnd := by
  cases lexeme with
  | code text =>
      rw [Lexeme.trimmed]
      split <;> rfl
  | comment text => simp [Lexeme.trimmed, Lexeme.comment?]
  | _ => rfl

/-- Only an open literal that ends with a newline changes when it is trimmed. -/
theorem literals_trimmed_iff {lexeme : Lexeme} (inLine : lexeme ≠ .newline)
    (left : lexeme.lastKind.isLiteral = false) :
    lexeme.trimmed.filterMap Lexeme.literal? = [lexeme].filterMap Lexeme.literal? ↔
      lexeme.lastKind ≠ .newline := by
  cases lexeme with
  | newline => contradiction
  | code text =>
      rw [Lexeme.trimmed]
      split <;> exact iff_of_true rfl (by simp [Lexeme.lastKind])
  | comment text => exact iff_of_true rfl (by simp [Lexeme.lastKind])
  | literal whole =>
      have literal := Scanner.isLiteral_spanKind_mode whole.form
      have last : whole.text.getLast? = some '\n' := by
        by_contra other
        simp [Lexeme.lastKind, other, literal] at left
      have changed : Text.trimEnd whole.text ≠ whole.text := by
        rw [ne_eq, Text.trimEnd_eq_self_iff, last]
        decide
      simp [Lexeme.trimmed, Lexeme.literal?, Lexeme.lastKind, last, changed]

theorem classOf_append_trimmed {before : List Lexeme} {last : Lexeme}
    (legible : Legible (before ++ last.trimmed)) {whole : Literal} {rest : List Lexeme}
    (shape : before ++ [last] = .literal whole :: rest) :
    classOf (before ++ last.trimmed) = whole.lineClass := by
  cases before with
  | nil =>
      obtain ⟨rfl, -⟩ := List.cons.inj shape
      exact classOf_cons_literal legible.1
  | cons first before =>
      obtain ⟨rfl, -⟩ := List.cons.inj shape
      exact classOf_cons_literal legible.1

theorem keeps_append_trimmed {before : List Lexeme} {last : Lexeme}
    (legible : Legible (before ++ [last])) (inLine : Lexeme.newline ∉ before ++ [last])
    {whole : Literal} {rest : List Lexeme} (shape : before ++ [last] = .literal whole :: rest)
    (docstring : whole.lineClass = .docstring) (left : last.lastKind.isLiteral = false) :
    Keeps (before ++ [last]) (before ++ last.trimmed) := by
  have lastInLine : last ≠ .newline := by
    rintro rfl
    simp at inLine
  have trimmed : Legible (before ++ last.trimmed) :=
    legible_append_trimmed legible lastInLine left
  have kind : classOf (before ++ [last]) = .docstring := by
    rw [shape] at legible ⊢
    rw [classOf_cons_literal legible.1, docstring]
  have loses : losesLiteralEnd (before ++ [last]) = decide (last.lastKind = .newline) := by
    simp [losesLiteralEnd, kind]
  refine ⟨trimmed, ?_, ?_, complete_append_trimmed legible, ?_, ?_, ?_⟩
  · rw [List.mem_append, not_or]
    exact ⟨fun member => inLine (by simp [member]), newline_notMem_trimmed last⟩
  · rw [classOf_append_trimmed trimmed shape, docstring, kind]
  · rw [lexemeTokens_append, lexemeTokens_append, lexemeTokens_trimmed]
  · rw [List.filterMap_append, List.filterMap_append, List.map_append, List.map_append,
      comments_trimmed]
  · rw [List.filterMap_append, List.filterMap_append, List.append_cancel_left_eq,
      literals_trimmed_iff lastInLine left, loses, decide_eq_false_iff_not]

/-- A line with its end trimmed, unless it ends in a literal. -/
def trimLast : List Lexeme → List Lexeme
  | [] => []
  | [last] => if last.lastKind.isLiteral then [last] else last.trimmed
  | first :: next :: others => first :: trimLast (next :: others)

theorem trimLast_concat (before : List Lexeme) (last : Lexeme) :
    trimLast (before ++ [last]) =
      before ++ if last.lastKind.isLiteral then [last] else last.trimmed := by
  induction before with
  | nil => rfl
  | cons first before induction =>
      cases before with
      | nil => rfl
      | cons next before => exact congrArg (first :: ·) induction

theorem textOf_trimLast (legible : Legible list) (inLine : Lexeme.newline ∉ list) :
    textOf (trimLast list) =
      if list.getLast?.any (·.lastKind.isLiteral) then textOf list
      else Text.trimEnd (textOf list) := by
  rcases List.eq_nil_or_concat' list with rfl | ⟨before, last, rfl⟩
  · rfl
  · rw [trimLast_concat, List.getLast?_concat, Option.any_some]
    split
    · rfl
    · exact textOf_append_trimmed legible inLine

/-- A line that starts with a docstring is written as it stands, or with its end
trimmed. -/
theorem keeps_trimLast {whole : Literal} {rest : List Lexeme}
    (legible : Legible (.literal whole :: rest)) (inLine : Lexeme.newline ∉ .literal whole :: rest)
    (docstring : whole.lineClass = .docstring) :
    Keeps (.literal whole :: rest) (trimLast (.literal whole :: rest)) := by
  obtain ⟨before, last, shape⟩ : ∃ before last,
      before ++ [last] = Lexeme.literal whole :: rest :=
    ⟨_, _, List.dropLast_concat_getLast (by simp)⟩
  rw [← shape] at legible inLine ⊢
  rw [trimLast_concat]
  cases literal : last.lastKind.isLiteral with
  | true =>
      have kept : losesLiteralEnd (before ++ [last]) = false := by
        have other : last.lastKind ≠ .newline := by
          rintro newline
          rw [newline] at literal
          contradiction
        simp [losesLiteralEnd, other]
      exact .refl legible inLine kept
  | false => exact keeps_append_trimmed legible inLine shape docstring literal

end Bilingual
