import Bilingual.Proofs.WrittenCode

/-!
# Writing keeps a line

Each class of lines is written in its own way, `writtenBody`.  This file collects what
was shown for each: the tokens and the comments of a line stay, and so do the literals
in most cases.  The main statements are `textOf_writtenBody` and `keeps_writtenBody`.
-/

namespace Bilingual

variable {list : List Lexeme}

/-- A line without white space in front. -/
def dropMargin : List Lexeme → List Lexeme
  | .code text :: others => if Text.isBlank text then others else .code text :: others
  | list => list

/-- The body of a line, as lexemes. -/
def writtenBody (rules : FormatRules) (list : List Lexeme) : List Lexeme :=
  match classOf list with
  | .blank => []
  | .comment => (list.filterMap Lexeme.comment?).map fun text => .comment (Text.trimEnd text)
  | .docstring => trimLast (dropMargin list)
  | .code => writtenCode rules list

theorem writtenBody_of_code {rules : FormatRules} (code : classOf list = .code) :
    writtenBody rules list = writtenCode rules list := by
  simp only [writtenBody, code]

theorem dropMargin_consCode_literal {blank : Text} (space : Text.isBlank blank = true)
    (whole : Literal) (rest : List Lexeme) :
    dropMargin (consCode blank (.literal whole :: rest)) = .literal whole :: rest := by
  rcases consCode_cases blank (.literal whole :: rest) with
    ⟨behind, others, same, -⟩ | ⟨-, ⟨-, same⟩ | ⟨-, same⟩⟩
  · cases same
  · rw [same]
    rfl
  · rw [same, dropMargin, if_pos space]

variable (rules : FormatRules)

theorem textOf_writtenBody (legible : Legible list) (inLine : Lexeme.newline ∉ list) :
    textOf (writtenBody rules list) = bodyOf rules list := by
  rw [writtenBody]
  cases kind : classOf list with
  | blank => simp only [bodyOf, kind, textOf_nil]
  | comment =>
      obtain ⟨blank, text, space, rfl, shown⟩ := exists_of_classOf_comment legible inLine kind
      have visible : text.head?.all (!isWhiteSpace ·) = true := by
        rw [head?_comment shown.1]
        decide
      have comments : (consCode blank [.comment text]).filterMap Lexeme.comment? = [text] :=
        filterMap_consCode (fun _ => rfl) blank _
      rw [bodyOf_consCode space (by simpa [Lexeme.text] using visible), bodyOf,
        classOf_cons_comment shown.1]
      simp [comments, Lexeme.text, Text.trim, Text.trimStart_eq_self visible]
  | docstring =>
      obtain ⟨blank, whole, rest, space, rfl, docstring, shown⟩ :=
        exists_of_classOf_docstring legible kind
      have visible := head?_textOf_cons_literal shown
      have inLineRest := fun member => inLine (newline_mem_consCode.2 member)
      simp only [dropMargin_consCode_literal space]
      rw [textOf_trimLast shown inLineRest, bodyOf_consCode space visible, bodyOf,
        classOf_cons_literal shown.1, docstring]
      simp only [Text.trim, Text.trimStart_eq_self visible]
  | code => simp only [textOf_writtenCode legible inLine kind, bodyOf, kind]

/-- The body of a line keeps the line. -/
theorem keeps_writtenBody (legible : Legible list) (inLine : Lexeme.newline ∉ list) :
    Keeps list (writtenBody rules list) := by
  rw [writtenBody]
  cases kind : classOf list with
  | blank => exact keeps_of_isBlank legible inLine (isBlank_of_classOf_blank kind)
  | comment =>
      obtain ⟨blank, text, space, rfl, shown⟩ := exists_of_classOf_comment legible inLine kind
      have comments : (consCode blank [.comment text]).filterMap Lexeme.comment? = [text] :=
        filterMap_consCode (fun _ => rfl) blank _
      simp only [comments]
      exact .of_consCode space (keeps_comment shown)
  | docstring =>
      obtain ⟨blank, whole, rest, space, rfl, docstring, shown⟩ :=
        exists_of_classOf_docstring legible kind
      simp only [dropMargin_consCode_literal space]
      exact .of_consCode space
        (keeps_trimLast shown (fun member => inLine (newline_mem_consCode.2 member)) docstring)
  | code => exact keeps_writtenCode legible inLine kind

end Bilingual
