import Bilingual.KeywordSubstitution
import Bilingual.Proofs.CodeSpans
import Bilingual.Proofs.WordTokenLists

/-!
# Substitution keeps the lexemes

Replacing keywords neither moves a token nor a lexeme.  Every keyword is a single
word, so a replaced word is read back as one word, and no quote, `#` or newline
can come in or get lost.  The main statements are `wordTokens_substituteCode` and
`lexemes_substitute`.
-/

namespace Bilingual

namespace KeywordTable

variable (table : KeywordTable) (direction : Direction)

/-- A token of code after the replacement. -/
def replacedToken (token : Token WordTokenKind) : Token WordTokenKind :=
  ⟨token.kind, table.replaceToken direction token⟩

theorem isSingleWord_source {entry : KeywordEntry} (member : entry ∈ table.entries) :
    isSingleWord (entry.source direction) = true := by
  cases direction with
  | toStandard => exact table.isSingleWord_localized entry member
  | toLocalized => exact table.isSingleWord_standard entry member

theorem isSingleWord_of_lookup? {word other : Text}
    (found : table.lookup? word direction = some other) : isSingleWord other = true := by
  obtain ⟨entry, first, rfl⟩ := Option.map_eq_some_iff.1 found
  exact table.isSingleWord_source direction.opposite (List.mem_of_find?_eq_some first)

theorem isSingleWord_replaceWord {word : Text} (single : isSingleWord word = true) :
    isSingleWord (table.replaceWord direction word) = true := by
  unfold replaceWord
  cases found : table.lookup? word direction with
  | none => exact single
  | some other => exact table.isSingleWord_of_lookup? direction found

end KeywordTable

theorem Token.isPure_word_iff {text : Text} :
    (⟨.word, text⟩ : Token WordTokenKind).IsPure ↔ isSingleWord text = true := by
  simp [Token.IsPure, isSingleWord_iff, isWordCharacter]

section Substitution

variable (table : KeywordTable) (direction : Direction)

theorem isWordToken_replacedToken {token : Token WordTokenKind} (valid : token.IsWordToken) :
    (table.replacedToken direction token).IsWordToken := by
  obtain ⟨kind, text⟩ := token
  cases kind with
  | word =>
      have single := table.isSingleWord_replaceWord direction (Token.isPure_word_iff.1 valid.1)
      exact ⟨Token.isPure_word_iff.2 single, by simp [KeywordTable.replacedToken,
        WordTokenKind.extends]⟩
  | _ => exact valid

theorem substituteCode_eq (code : Text) :
    substituteCode table direction code =
      ((wordTokens code).map (table.replacedToken direction)).flatMap Token.text := by
  rw [List.flatMap_map]
  rfl

/-- Substituted code has the same tokens, with words replaced. -/
theorem wordTokens_substituteCode (code : Text) :
    wordTokens (substituteCode table direction code) =
      (wordTokens code).map (table.replacedToken direction) := by
  obtain ⟨valid, separate⟩ := legible_wordMunch_iff.1 (legible_wordTokens code)
  rw [substituteCode_eq]
  refine tokens_flatMap_text (legible_wordMunch_iff.2 ⟨?_, ?_⟩)
  · intro token member
    obtain ⟨old, known, rfl⟩ := List.mem_map.1 member
    exact isWordToken_replacedToken table direction (valid old known)
  · rw [List.isChain_map]
    exact separate

/-! ### Plain code -/

theorem isPlainCode_of_isWordCharacter {character : Char}
    (word : isWordCharacter character = true) : isPlainCode character = true := by
  simp only [isWordCharacter, WordTokenKind.ofChar] at word
  split at word
  · simp at word
  · next visible =>
      split at word
      · simp at word
      · split at word
        · simp at word
        · next quotes =>
            simp only [Bool.or_eq_true, decide_eq_true_eq, not_or] at quotes
            have inLine : character ≠ '\n' := by
              rintro rfl
              exact visible (by decide)
            simp [isPlainCode, inLine, quotes.1.1, Quote.ofChar?, Quote.character, quotes.1.2,
              quotes.2]

/-- All characters of substituted code stand in a word or were there before. -/
theorem mem_substituteCode {code : Text} {character : Char}
    (member : character ∈ substituteCode table direction code) :
    isWordCharacter character = true ∨ character ∈ code := by
  rw [substituteCode_eq] at member
  obtain ⟨token, replaced, member⟩ := List.mem_flatMap.1 member
  obtain ⟨⟨kind, text⟩, old, rfl⟩ := List.mem_map.1 replaced
  have valid := (legible_wordMunch_iff.1 (legible_wordTokens code)).1 _ old
  have kept : character ∈ text → character ∈ code := by
    intro inside
    rw [← flatMap_text_tokens wordMunch code]
    exact List.mem_flatMap.2 ⟨_, old, inside⟩
  cases kind with
  | word =>
      have single := table.isSingleWord_replaceWord direction (Token.isPure_word_iff.1 valid.1)
      exact .inl (List.all_eq_true.1 (isSingleWord_iff.1 single).2 character member)
  | _ => exact .inr (kept member)

theorem all_isPlainCode_substituteCode {code : Text} (plain : code.all isPlainCode = true) :
    (substituteCode table direction code).all isPlainCode = true := by
  rw [List.all_eq_true]
  intro character member
  rcases mem_substituteCode table direction member with word | old
  · exact isPlainCode_of_isWordCharacter word
  · exact List.all_eq_true.1 plain character old

theorem substituteCode_ne_nil {code : Text} (nonempty : code ≠ []) :
    substituteCode table direction code ≠ [] := by
  intro empty
  have same := wordTokens_substituteCode table direction code
  rw [empty, wordTokens, tokens_nil] at same
  have whole := flatMap_text_tokens wordMunch code
  rw [← wordTokens, List.map_eq_nil_iff.1 same.symm] at whole
  exact nonempty whole.symm

/-! ### Lexemes -/

/-- A lexeme after the replacement: only code changes. -/
def Lexeme.substitute : Lexeme → Lexeme
  | .code text => .code (substituteCode table direction text)
  | .newline => .newline
  | .comment text => .comment text
  | .literal whole => .literal whole

/-- Substitution replaces the words of every run of code, and nothing else. -/
theorem substitute_eq_textOf (source : Text) :
    substitute table direction source =
      textOf ((lexemes source).map (Lexeme.substitute table direction)) := by
  have rewritten := flatMap_rewriteCode_spansFrom (substituteCode table direction) 0
    (lexemes source)
  rw [← scan_eq_spansFrom] at rewritten
  rw [textOf, List.flatMap_map]
  refine rewritten.trans (List.flatMap_congr fun lexeme _ => ?_)
  cases lexeme <;> rfl

/-- Two characters that both are plain code, or the same character. -/
def SameStart (first second : Option Char) : Prop :=
  first = second ∨
    ∃ character other, first = some character ∧ second = some other ∧
      isPlainCode character = true ∧ isPlainCode other = true

theorem Lexeme.canPrecede_of_sameStart {lexeme : Lexeme} {first second : Option Char}
    (same : SameStart first second) (precedes : lexeme.canPrecede first = true) :
    lexeme.canPrecede second = true := by
  rcases same with rfl | ⟨character, other, rfl, rfl, plain, plainOther⟩
  · exact precedes
  · cases lexeme with
    | code text => simp [canPrecede, plain] at precedes
    | newline => rfl
    | comment text =>
        obtain rfl : character = '\n' := by simpa [canPrecede] using precedes
        simp [isPlainCode] at plain
    | literal whole =>
        simp only [canPrecede] at precedes ⊢
        split at precedes
        · have apart : other ≠ whole.form.quote.character := by
            rintro rfl
            simp [Quote.not_isPlainCode] at plainOther
          rename_i closed
          simp [closed, apart]
        · simp at precedes

theorem sameStart_head? {text other rest others : Text} (nonempty : text ≠ [])
    (plain : text.all isPlainCode = true) (nonemptyOther : other ≠ [])
    (plainOther : other.all isPlainCode = true) :
    SameStart (text ++ rest).head? (other ++ others).head? := by
  obtain ⟨character, text, rfl⟩ := List.exists_cons_of_ne_nil nonempty
  obtain ⟨character', other, rfl⟩ := List.exists_cons_of_ne_nil nonemptyOther
  rw [List.all_cons, Bool.and_eq_true] at plain plainOther
  exact .inr ⟨character, character', rfl, rfl, plain.1, plainOther.1⟩

/-- A text starts as before the substitution, up to a word. -/
theorem sameStart_substitute {list : List Lexeme} (legible : Legible list) :
    SameStart (textOf list).head?
      (textOf (list.map (Lexeme.substitute table direction))).head? := by
  cases list with
  | nil => exact .inl rfl
  | cons lexeme others =>
      have nonempty := legible.1.text_ne_nil
      rw [List.map_cons, textOf_cons, textOf_cons]
      cases lexeme with
      | code text =>
          have plain := legible.1.plain_of_code
          exact sameStart_head? nonempty plain (substituteCode_ne_nil table direction nonempty)
            (all_isPlainCode_substituteCode table direction plain)
      | _ =>
          obtain ⟨character, rest, shape⟩ := List.exists_cons_of_ne_nil nonempty
          left
          simp only [Lexeme.substitute, shape, List.cons_append, List.head?_cons]

/-- Substitution moves no lexeme. -/
theorem legible_substitute {list : List Lexeme} (legible : Legible list) :
    Legible (list.map (Lexeme.substitute table direction)) := by
  induction list with
  | nil => exact legible
  | cons lexeme others induction =>
      have precedes := lexeme.canPrecede_of_sameStart
        (sameStart_substitute table direction legible.2) legible.1.canPrecede
      rw [List.map_cons]
      refine ⟨?_, induction legible.2⟩
      cases lexeme with
      | code text =>
          exact .code (substituteCode_ne_nil table direction legible.1.text_ne_nil)
            (all_isPlainCode_substituteCode table direction legible.1.plain_of_code) precedes
      | _ => exact legible.1.replaceRest precedes

theorem lexemes_substitute (source : Text) :
    lexemes (substitute table direction source) =
      (lexemes source).map (Lexeme.substitute table direction) := by
  rw [substitute_eq_textOf]
  exact lexemes_textOf (legible_substitute table direction (legible_lexemes source))

end Substitution

end Bilingual
