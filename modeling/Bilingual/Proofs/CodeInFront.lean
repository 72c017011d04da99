import Bilingual.Proofs.SourceContents

/-!
# Code in front of lexemes

Code that is written in front of code becomes one run with it.  The main
statements say what `consCode` does to the things that are counted in a line: it
adds tokens in front, and neither literals, comments nor line ends.
-/

namespace Bilingual

/-- Puts code in front of lexemes. -/
def consCode (text : Text) : List Lexeme → List Lexeme
  | .code behind :: others => .code (text ++ behind) :: others
  | others => if text.isEmpty then others else .code text :: others

/-- The run of code with which lexemes start. -/
def leadingCode : List Lexeme → Text
  | .code text :: _ => text
  | _ => []

/-- The lexemes can be described as code in front of others that do not start with
code. -/
theorem consCode_cases (text : Text) (list : List Lexeme) :
    (∃ behind others, list = .code behind :: others ∧
        consCode text list = .code (text ++ behind) :: others) ∨
      leadingCode list = [] ∧ (text = [] ∧ consCode text list = list ∨
        text ≠ [] ∧ consCode text list = .code text :: list) := by
  match list with
  | .code behind :: others => exact .inl ⟨behind, others, rfl, rfl⟩
  | [] | .newline :: _ | .comment _ :: _ | .literal _ :: _ =>
      refine .inr ⟨rfl, ?_⟩
      by_cases empty : text = []
      · exact .inl ⟨empty, by simp [consCode, empty]⟩
      · exact .inr ⟨empty, by simp [consCode, empty]⟩

@[simp] theorem consCode_nil (list : List Lexeme) : consCode [] list = list := by
  rcases consCode_cases [] list with ⟨behind, others, rfl, -⟩ | ⟨-, ⟨-, same⟩ | ⟨more, -⟩⟩
  · rfl
  · exact same
  · contradiction

theorem consCode_append (first second : Text) (list : List Lexeme) :
    consCode (first ++ second) list = consCode first (consCode second list) := by
  match list with
  | .code behind :: others => simp [consCode]
  | [] | .newline :: _ | .comment _ :: _ | .literal _ :: _ =>
      by_cases empty : second = []
      · simp [empty]
      · simp [consCode, empty]

@[simp] theorem textOf_consCode (text : Text) (list : List Lexeme) :
    textOf (consCode text list) = text ++ textOf list := by
  rcases consCode_cases text list with
    ⟨behind, others, rfl, same⟩ | ⟨-, ⟨rfl, same⟩ | ⟨-, same⟩⟩ <;> simp [same, Lexeme.text]

theorem leadingCode_consCode (text : Text) (list : List Lexeme) :
    leadingCode (consCode text list) = text ++ leadingCode list := by
  rcases consCode_cases text list with
    ⟨behind, others, rfl, same⟩ | ⟨none, ⟨rfl, same⟩ | ⟨-, same⟩⟩
  · rw [same]
    rfl
  · rw [same]
    rfl
  · rw [same, none, List.append_nil]
    rfl

/-- Nothing but code is counted differently with code in front. -/
theorem filterMap_consCode {Value : Type} {pick : Lexeme → Option Value}
    (code : ∀ text, pick (.code text) = none) (text : Text) (list : List Lexeme) :
    (consCode text list).filterMap pick = list.filterMap pick := by
  rcases consCode_cases text list with
    ⟨behind, others, rfl, same⟩ | ⟨-, ⟨-, same⟩ | ⟨-, same⟩⟩ <;> simp [same, code]

theorem newline_mem_consCode {text : Text} {list : List Lexeme} :
    Lexeme.newline ∈ consCode text list ↔ Lexeme.newline ∈ list := by
  rcases consCode_cases text list with
    ⟨behind, others, rfl, same⟩ | ⟨-, ⟨-, same⟩ | ⟨-, same⟩⟩ <;> simp [same]

theorem literal_mem_consCode {text : Text} {list : List Lexeme} {whole : Literal} :
    .literal whole ∈ consCode text list ↔ .literal whole ∈ list := by
  rcases consCode_cases text list with
    ⟨behind, others, rfl, same⟩ | ⟨-, ⟨-, same⟩ | ⟨-, same⟩⟩ <;> simp [same]

theorem complete_consCode_iff {text : Text} {list : List Lexeme} :
    Complete (consCode text list) ↔ Complete list := by
  rcases consCode_cases text list with
    ⟨behind, others, rfl, same⟩ | ⟨-, ⟨-, same⟩ | ⟨-, same⟩⟩
  · rw [same]
    cases others with
    | nil => simp [Complete, Lexeme.canPrecede, isPlainCode]
    | cons next others => rfl
  · rw [same]
  · rw [same]
    cases list with
    | nil => simp [Complete, Lexeme.canPrecede, isPlainCode]
    | cons next others => rfl

/-- What is not code starts with a character that is not plain code. -/
theorem Reads.head?_not_isPlainCode {source rest : Text} {lexeme : Lexeme}
    (reads : Reads source lexeme rest) (other : lexeme.code? = none) :
    source.head?.all (!isPlainCode ·) = true := by
  cases reads with
  | code => contradiction
  | newline => rfl
  | comment => rfl
  | @literal form behind opens =>
      cases form <;>
        simp [LiteralForm.delimiter, Quote.triple, Quote.not_isPlainCode]

theorem head?_not_isPlainCode_of_leadingCode {list : List Lexeme} (legible : Legible list)
    (none : leadingCode list = []) : (textOf list).head?.all (!isPlainCode ·) = true := by
  match list with
  | [] => rfl
  | .code text :: others => exact absurd none legible.1.text_ne_nil
  | .newline :: _ | .comment _ :: _ | .literal _ :: _ =>
      exact legible.1.head?_not_isPlainCode rfl

theorem leadingCode_of_legible {text : Text} {others : List Lexeme}
    (legible : Legible (.code text :: others)) : leadingCode others = [] := by
  match others with
  | [] | .newline :: _ | .comment _ :: _ | .literal _ :: _ => rfl
  | .code next :: others =>
      have whole := legible.1.canPrecede
      have plain := legible.2.1.plain_of_code
      obtain ⟨character, rest, shape⟩ := List.exists_cons_of_ne_nil legible.2.1.text_ne_nil
      simp only [Lexeme.text] at shape
      rw [shape, List.all_cons, Bool.and_eq_true] at plain
      simp [Lexeme.canPrecede, Lexeme.text, shape, plain.1] at whole

theorem consCode_of_legible {text : Text} {others : List Lexeme}
    (legible : Legible (.code text :: others)) : consCode text others = .code text :: others := by
  rcases consCode_cases text others with ⟨behind, after, rfl, -⟩ | ⟨-, ⟨rfl, -⟩ | ⟨-, same⟩⟩
  · exact absurd (leadingCode_of_legible legible) legible.2.1.text_ne_nil
  · exact absurd rfl legible.1.text_ne_nil
  · exact same

theorem legible_consCode {text : Text} {list : List Lexeme} (legible : Legible list)
    (plain : text.all isPlainCode = true) : Legible (consCode text list) := by
  rcases consCode_cases text list with
    ⟨behind, others, rfl, same⟩ | ⟨none, ⟨-, same⟩ | ⟨nonempty, same⟩⟩
  · rw [same]
    have more : text ++ behind ≠ [] := List.append_ne_nil_of_right_ne_nil _ legible.1.text_ne_nil
    have plainBoth : (text ++ behind).all isPlainCode = true := by
      rw [List.all_append, plain, legible.1.plain_of_code]
      rfl
    exact ⟨.code more plainBoth legible.1.canPrecede, legible.2⟩
  · rwa [same]
  · rw [same]
    have whole := head?_not_isPlainCode_of_leadingCode legible none
    exact ⟨.code nonempty plain whole, legible⟩

theorem isPlainCode_spaces (count : Nat) : (Text.spaces count).all isPlainCode = true := by
  rw [List.all_eq_true]
  intro character member
  rw [List.eq_of_mem_replicate member]
  decide

/-- Tokens in front are added to those behind, unless a word would grow over the
seam. -/
theorem lexemeTokens_consCode {text : Text} {list : List Lexeme}
    (apart : joinsWords text (leadingCode list) = false) :
    lexemeTokens (consCode text list) = visibleTokens text ++ lexemeTokens list := by
  rcases consCode_cases text list with
    ⟨behind, others, rfl, same⟩ | ⟨-, ⟨rfl, same⟩ | ⟨-, same⟩⟩
  · have seam : visibleTokens (text ++ behind) = visibleTokens text ++ visibleTokens behind :=
      visibleTokens_append apart
    rw [same]
    simp [lexemeTokens, Lexeme.code?, seam]
  · simp
  · rw [same]
    simp [lexemeTokens, Lexeme.code?]

theorem lexemeTokens_consCode_blank {blank : Text}
    (space : ∀ character ∈ blank, isWhiteSpace character = true) (list : List Lexeme) :
    lexemeTokens (consCode blank list) = lexemeTokens list := by
  rw [lexemeTokens_consCode (joinsWords_of_blank space _).1, visibleTokens_blank space,
    List.nil_append]

end Bilingual
