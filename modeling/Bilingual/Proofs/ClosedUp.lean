import Bilingual.Proofs.LineParts

/-!
# Sources without white space in front of parentheses

Only in front of an opening parenthesis does the formatter ask which word a word is.  Two
sources that differ in nothing but the white space at such places are the same source when
it is dropped, which is what `closeUp` does.  By `closedUp_assemble` a line that is put
together from parts can be closed up part by part.
-/

namespace Bilingual

/-- Puts a character in front of code.  White space in front of a parenthesis is
dropped. -/
def closeStep (character : Char) (rest : Text) : Text :=
  if isWhiteSpace character && rest.head? = some '(' then rest else character :: rest

/-- Code without white space in front of opening parentheses. -/
def closeUpCode (code : Text) : Text :=
  code.foldr closeStep []

/-- A source without white space in front of opening parentheses in its code. -/
def closeUp (source : Text) : Text :=
  (scan source).flatMap fun span =>
    if span.kind = .code then closeUpCode span.text else span.text

example : closeUpCode "if  (x, (y ) )".toList = "if(x,(y ) )".toList := by decide

/-! ### Code -/

theorem closeStep_ne_nil (character : Char) (rest : Text) : closeStep character rest ≠ [] := by
  rw [closeStep]
  split
  · next dropped =>
      rintro rfl
      simp at dropped
  · simp

theorem foldr_closeStep_ne_nil {text : Text} (nonempty : text ≠ []) (init : Text) :
    text.foldr closeStep init ≠ [] := by
  obtain ⟨character, rest, rfl⟩ := List.exists_cons_of_ne_nil nonempty
  exact closeStep_ne_nil character _

theorem closeStep_append {character : Char} {text rest : Text}
    (seam : text ≠ [] ∨ rest.head? ≠ some '(') :
    closeStep character text ++ rest = closeStep character (text ++ rest) := by
  cases text with
  | nil =>
      have other : rest.head? ≠ some '(' := by simpa using seam
      simp [closeStep, other]
  | cons first text =>
      rw [closeStep, closeStep, List.cons_append, List.head?_cons, List.head?_cons]
      split <;> rfl

/-- What stands behind code matters only where it starts with a parenthesis. -/
theorem foldr_closeStep_append (text : Text) {init rest : Text}
    (seam : init ≠ [] ∨ rest.head? ≠ some '(') :
    text.foldr closeStep init ++ rest = text.foldr closeStep (init ++ rest) := by
  induction text with
  | nil => rfl
  | cons character text induction =>
      have seamHere : text.foldr closeStep init ≠ [] ∨ rest.head? ≠ some '(' := by
        cases text with
        | nil => exact seam
        | cons next text => exact .inl (foldr_closeStep_ne_nil (by simp) init)
      rw [List.foldr_cons, closeStep_append seamHere, induction, List.foldr_cons]

theorem closeUpCode_sublist (code : Text) : (closeUpCode code).Sublist code := by
  induction code with
  | nil => exact .slnil
  | cons character code induction =>
      rw [closeUpCode, List.foldr_cons, closeStep]
      split
      · exact induction.cons character
      · exact induction.cons_cons character

/-! ### Lexemes -/

/-- The text of lexemes, with the code among them closed up. -/
def closedUp (list : List Lexeme) : Text :=
  list.flatMap (Lexeme.rewriteCode closeUpCode)

theorem closeUp_eq (source : Text) : closeUp source = closedUp (lexemes source) := by
  rw [closeUp, scan_eq_spansFrom]
  exact flatMap_rewriteCode_spansFrom closeUpCode 0 (lexemes source)

@[simp] theorem closedUp_nil : closedUp [] = [] := rfl

@[simp] theorem closedUp_cons_literal (whole : Literal) (others : List Lexeme) :
    closedUp (.literal whole :: others) = whole.text ++ closedUp others := rfl

@[simp] theorem closedUp_cons_code (code : Text) (others : List Lexeme) :
    closedUp (.code code :: others) = closeUpCode code ++ closedUp others := rfl

theorem closedUp_append (first second : List Lexeme) :
    closedUp (first ++ second) = closedUp first ++ closedUp second :=
  List.flatMap_append

/-- Lines are closed up one by one. -/
theorem closedUp_intercalate (lines : List (List Lexeme)) :
    closedUp ([Lexeme.newline].intercalate lines) = ['\n'].intercalate (lines.map closedUp) := by
  induction lines with
  | nil => rfl
  | cons line lines induction =>
      cases lines with
      | nil => simp
      | cons next lines =>
          have newline : closedUp [.newline] = ['\n'] := rfl
          rw [List.intercalate_cons_cons, closedUp_append, closedUp_append, induction, newline]
          simp only [List.map_cons, List.intercalate_cons_cons]

/-- The lexemes start with code, or with something else than a parenthesis. -/
def ClosesAgainst (list : List Lexeme) : Prop :=
  leadingCode list ≠ [] ∨ (closedUp list).head? ≠ some '('

theorem head?_closedUp_cons_literal {whole : Literal} {source rest : Text}
    (reads : Reads source (.literal whole) rest) (others : List Lexeme) :
    (closedUp (.literal whole :: others)).head? ≠ some '(' := by
  have nonempty : whole.text ≠ [] := reads.text_ne_nil
  rw [closedUp_cons_literal, List.head?_append_of_ne_nil _ nonempty, head?_literal reads]
  cases whole.form.quote <;> decide

theorem Legible.closesAgainst {list : List Lexeme} (legible : Legible list) :
    ClosesAgainst list := by
  match list with
  | [] => exact .inr (by simp)
  | .code text :: others => exact .inl legible.1.text_ne_nil
  | .newline :: others => exact .inr (by simp [closedUp, Lexeme.rewriteCode])
  | .comment text :: others =>
      obtain ⟨rest, rfl⟩ := List.head?_eq_some_iff.1 (head?_comment legible.1)
      exact .inr (by simp [closedUp, Lexeme.rewriteCode])
  | .literal whole :: others => exact .inr (head?_closedUp_cons_literal legible.1 others)

theorem closedUp_consCode (text : Text) {list : List Lexeme} (closes : ClosesAgainst list) :
    closedUp (consCode text list) = text.foldr closeStep (closedUp list) := by
  rcases consCode_cases text list with
    ⟨behind, others, rfl, same⟩ | ⟨none, ⟨rfl, same⟩ | ⟨-, same⟩⟩
  · have seam : closeUpCode behind ≠ [] ∨ (closedUp others).head? ≠ some '(' := by
      by_cases empty : behind = []
      · subst empty
        exact .inr (closes.resolve_left (by simp [leadingCode]))
      · exact .inl (foldr_closeStep_ne_nil empty [])
    rw [same, closedUp_cons_code, closedUp_cons_code, closeUpCode, List.foldr_append,
      ← closeUpCode.eq_def behind]
    exact foldr_closeStep_append text seam
  · rw [same, List.foldr_nil]
  · have seam : ([] : Text) ≠ [] ∨ (closedUp list).head? ≠ some '(' :=
      .inr (closes.resolve_left (by simp [none]))
    rw [same, closedUp_cons_code, closeUpCode, foldr_closeStep_append text seam, List.nil_append]

/-! ### Parts -/

/-- Puts a part in front of a text that is closed up. -/
def Part.closeBehind : Part → Text → Text
  | .code token, behind => token.text.foldr closeStep behind
  | .literal whole, behind => whole.text ++ behind

theorem closesAgainst_assemble {parts : List Part} (valid : ∀ part ∈ parts, part.IsValid)
    {behind : List Lexeme} (legible : Legible behind) :
    ClosesAgainst (assemble parts behind) := by
  cases parts with
  | nil => exact legible.closesAgainst
  | cons part parts =>
      cases part with
      | code token =>
          have nonempty : token.text ≠ [] := (valid (.code token) (by simp)).text_ne_nil
          left
          rw [assemble, leadingCode_consCode]
          simp [nonempty]
      | literal whole =>
          obtain ⟨rest, reads⟩ := valid (.literal whole) (by simp)
          exact .inr (head?_closedUp_cons_literal reads _)

/-- A line is closed up part by part. -/
theorem closedUp_assemble {parts : List Part} (valid : ∀ part ∈ parts, part.IsValid)
    {behind : List Lexeme} (legible : Legible behind) :
    closedUp (assemble parts behind) = parts.foldr Part.closeBehind (closedUp behind) := by
  induction parts with
  | nil => rfl
  | cons part parts induction =>
      obtain ⟨-, validOthers⟩ := List.forall_mem_cons.1 valid
      rw [List.foldr_cons, ← induction validOthers]
      cases part with
      | code token =>
          exact closedUp_consCode token.text (closesAgainst_assemble validOthers legible)
      | literal whole => rfl

/-! ### Line ends -/

theorem count_newline_rewriteCode {lexeme : Lexeme} {source rest : Text}
    (reads : Reads source lexeme rest) :
    (lexeme.rewriteCode closeUpCode).count '\n' = lexeme.text.count '\n' := by
  cases lexeme with
  | code text =>
      have inLine : '\n' ∉ text := by
        intro member
        have plain := List.all_eq_true.1 reads.plain_of_code _ member
        contradiction
      have closed : '\n' ∉ closeUpCode text := fun member =>
        inLine ((closeUpCode_sublist text).subset member)
      rw [Lexeme.rewriteCode, Lexeme.text, List.count_eq_zero.2 inLine, List.count_eq_zero.2 closed]
  | _ => rfl

/-- No line end gets lost. -/
theorem count_newline_closeUp (source : Text) :
    (closeUp source).count '\n' = source.count '\n' := by
  have whole := textOf_lexemes source
  have legible := legible_lexemes source
  rw [closeUp_eq]
  generalize lexemes source = list at whole legible
  subst whole
  induction list with
  | nil => rfl
  | cons lexeme others induction =>
      rw [textOf_cons, closedUp, List.flatMap_cons, List.count_append, List.count_append,
        count_newline_rewriteCode legible.1, ← induction legible.2]
      rfl

end Bilingual
