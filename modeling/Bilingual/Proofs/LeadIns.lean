import Bilingual.Proofs.SpacedParts

/-!
# Words in front of parentheses

A word leads in an opening parenthesis when at most white space stands between the two.
This file finds these words among the tokens of keyword substitution.  The formatter has
words of its own, which take in brackets, braces and semicolons, so it says how much of
such a word leads in a parenthesis behind it.  The main statements are
`leadInsOfCode_append` and `spacedKeywords_contains_iff`.
-/

namespace Bilingual

/-- A word in front of an opening parenthesis, and the white space in between. -/
structure LeadIn where
  /-- The word stands directly behind a bracket, a brace or a semicolon. -/
  attached : Bool
  word : Text
  gap : Text
  deriving DecidableEq, Repr

/-- The same word in front of a parenthesis behind other white space. -/
def LeadIn.withGap (leadIn : LeadIn) (gap : Text) : LeadIn :=
  { leadIn with gap := gap }

namespace Token

/-- An opening parenthesis. -/
def openParen : Token WordTokenKind :=
  ⟨.punctuation, ['(']⟩

/-- The token is a bracket, a brace or a semicolon. -/
def attaches (token : Token WordTokenKind) : Bool :=
  [['['], [']'], ['{'], ['}'], [';']].contains token.text

end Token

/-- The white space in front of the parenthesis with which tokens start, if they do. -/
def gapBeforeParen? : List (Token WordTokenKind) → Option Text
  | [] => none
  | token :: others =>
      if token = .openParen then some []
      else if token.kind = .whiteSpace ∧ others.head? = some .openParen then some token.text
      else none

/-- The words among tokens that lead in a parenthesis. -/
def leadInsFrom (attached : Bool) : List (Token WordTokenKind) → List LeadIn
  | [] => []
  | token :: others =>
      (if token.kind = .word then (gapBeforeParen? others).map (LeadIn.mk attached token.text)
        else none).toList ++ leadInsFrom token.attaches others

/-- The words in code that lead in a parenthesis. -/
def leadInsOfCode (code : Text) : List LeadIn :=
  leadInsFrom false (wordTokens code)

/-- The words in a line that lead in a parenthesis. -/
def LogicalLine.leadIns (line : LogicalLine) : List LeadIn :=
  (codeTexts line.spans).flatMap leadInsOfCode

/-- The word with which tokens end, as it leads in a parenthesis directly behind it. -/
def endWord? (attached : Bool) : List (Token WordTokenKind) → Option LeadIn
  | [] => none
  | [token] => if token.kind = .word then some ⟨attached, token.text, []⟩ else none
  | token :: next :: others => endWord? token.attaches (next :: others)

/-! ### Lists of tokens -/

section Tokens

variable {attached : Bool} {tokens rest : List (Token WordTokenKind)}

theorem leadInsFrom_eq_of_head? (other : ∀ token ∈ tokens.head?, token.kind ≠ .word) :
    leadInsFrom attached tokens = leadInsFrom false tokens := by
  cases tokens with
  | nil => rfl
  | cons token others =>
      rw [leadInsFrom, leadInsFrom, if_neg (other token rfl), if_neg (other token rfl)]

theorem gapBeforeParen?_cons_of_visible {token : Token WordTokenKind}
    (visible : token.kind ≠ .whiteSpace) (other : token ≠ .openParen) :
    gapBeforeParen? (token :: rest) = none := by
  rw [gapBeforeParen?, if_neg other, if_neg fun space => visible space.1]

/-- Of tokens that have no parenthesis behind the first one, only the last one can lead in
a parenthesis behind them. -/
theorem leadInsFrom_append (nonempty : tokens ≠ [])
    (inner : ∀ token ∈ tokens.tail, token.kind ≠ .whiteSpace ∧ token ≠ .openParen) :
    leadInsFrom attached (tokens ++ rest) =
      ((endWord? attached tokens).bind fun word =>
        (gapBeforeParen? rest).map word.withGap).toList ++
        leadInsFrom (tokens.getLast?.any Token.attaches) rest := by
  induction tokens generalizing attached with
  | nil => contradiction
  | cons token others induction =>
      cases others with
      | nil =>
          rw [List.singleton_append, leadInsFrom, endWord?]
          by_cases word : token.kind = .word
          · simp only [if_pos word]
            rfl
          · simp only [if_neg word]
            rfl
      | cons next others =>
          have inner : ∀ other ∈ next :: others,
              other.kind ≠ .whiteSpace ∧ other ≠ .openParen := inner
          obtain ⟨visible, noParen⟩ := inner next (by simp)
          have behind := @induction token.attaches (by simp)
            fun other member => inner other (List.mem_cons_of_mem next member)
          rw [List.cons_append] at behind
          rw [List.cons_append, List.cons_append, leadInsFrom,
            gapBeforeParen?_cons_of_visible visible noParen, Option.map_none, ite_self, behind]
          rfl

theorem endWord?_eq_none (other : ∀ token ∈ tokens, token.kind ≠ .word) :
    endWord? attached tokens = none := by
  induction tokens generalizing attached with
  | nil => rfl
  | cons token others induction =>
      obtain ⟨first, rest⟩ := List.forall_mem_cons.1 other
      cases others with
      | nil => rw [endWord?, if_neg first]
      | cons next others => exact induction rest

/-- The word at the end is alone, or it stands behind another token. -/
theorem endWord?_cases {word : LeadIn} (found : endWord? attached tokens = some word) :
    tokens = [⟨.word, word.word⟩] ∧ word.attached = attached ∨
      ∃ before previous, tokens = before ++ [previous, ⟨.word, word.word⟩] ∧
        word.attached = previous.attaches := by
  induction tokens generalizing attached with
  | nil => contradiction
  | cons token others induction =>
      cases others with
      | nil =>
          obtain ⟨kind, text⟩ := token
          rw [endWord?] at found
          split at found
          · next same =>
              obtain rfl : kind = .word := same
              obtain rfl := Option.some.inj found
              exact .inl ⟨rfl, rfl⟩
          · contradiction
      | cons next others =>
          rcases induction found with ⟨alone, behind⟩ | ⟨before, previous, shape, behind⟩
          · exact .inr ⟨[], token, by rw [alone]; rfl, behind⟩
          · exact .inr ⟨token :: before, previous, by rw [shape]; rfl, behind⟩

end Tokens

/-! ### The formatter's tokens -/

/-- Brackets, braces and semicolons are the characters of the formatter's words that are not
word characters. -/
theorem attaches_of_isLineWordCharacter {character : Char}
    (inside : isLineWordCharacter character = true) (plain : isPlainCode character = true)
    (other : isWordCharacter character = false) (kind : WordTokenKind) :
    Token.attaches ⟨kind, [character]⟩ = true := by
  have signs : punctuationCharacters.all (fun sign =>
      !isLineWordCharacter sign || Token.attaches ⟨.punctuation, [sign]⟩) = true := by decide
  by_cases member : character ∈ punctuationCharacters
  · have attaches : Token.attaches ⟨.punctuation, [character]⟩ = true := by
      simpa [inside] using List.all_eq_true.1 signs character member
    exact attaches
  · have visible := (isLineWordCharacter_iff.1 inside).1
    have noQuote : character ≠ '#' ∧ character ≠ '\x27' ∧ character ≠ '\x22' := by
      refine ⟨?_, ?_, ?_⟩ <;>
      · rintro rfl
        exact absurd plain (by decide)
    simp [isWordCharacter, WordTokenKind.ofChar, visible, member, noQuote] at other

theorem wordTokens_cons_openParen (rest : Text) :
    wordTokens ('(' :: rest) = .openParen :: wordTokens rest :=
  tokens_cons wordMunch '(' rest

theorem exists_of_attaches {token : Token WordTokenKind} (attaches : token.attaches = true) :
    ∃ character, isLineWordCharacter character = true ∧ token.text = [character] := by
  simp only [Token.attaches, List.contains_iff_mem, List.mem_cons, List.not_mem_nil,
    or_false] at attaches
  rcases attaches with shape | shape | shape | shape | shape <;> exact ⟨_, by decide, shape⟩

theorem spacedKeywords_all_isWordCharacter :
    ∀ keyword ∈ spacedKeywords, keyword.all isWordCharacter = true := by
  decide +kernel

section LineTokens

variable {token : Token LineTokenKind} (valid : IsLineToken token)

include valid

/-- A parenthesis stands alone. -/
theorem IsLineToken.eq_openParen (member : '(' ∈ token.text) :
    token = ⟨.openParen, ['(']⟩ := by
  cases valid with
  | openParen => rfl
  | whiteSpace nonempty blank =>
      have space := blank _ member
      contradiction
  | word nonempty run =>
      have word := run _ member
      contradiction
  | operator nonempty run =>
      have operator := run _ member
      contradiction
  | assigningOperator nonempty run =>
      rcases List.mem_append.1 member with inside | sign
      · have operator := run _ inside
        contradiction
      · simp at sign
  | _ => simp at member

theorem IsLineToken.inner_wordTokens (visible : token.kind ≠ .whiteSpace) :
    ∀ other ∈ (wordTokens token.text).tail, other.kind ≠ .whiteSpace ∧ other ≠ .openParen := by
  intro other member
  have known := List.mem_of_mem_tail member
  refine ⟨valid.kind_ne_whiteSpace visible other known, ?_⟩
  rintro rfl
  have paren := valid.eq_openParen (mem_of_mem_wordTokens known (List.mem_singleton_self _))
  rw [paren, wordTokens_cons_openParen] at member
  simp [wordTokens] at member

/-- A word in a token of the formatter is part of a word of the formatter, and so are brackets,
braces and semicolons. -/
theorem IsLineToken.kind_eq_word_of_wordToken {other : Token WordTokenKind}
    (member : other ∈ wordTokens token.text)
    (inside : other.kind = .word ∨ other.attaches = true) : token.kind = .word := by
  rcases inside with word | attaches
  · obtain ⟨character, inside, kind⟩ := exists_mem_of_mem_wordTokens member
    refine valid.kind_eq_word inside ?_
    rw [isWordCharacter, kind, word]
    rfl
  · obtain ⟨character, sign, shape⟩ := exists_of_attaches attaches
    exact valid.kind_eq_word_of_mem (mem_of_mem_wordTokens member (by simp [shape])) sign

theorem IsLineToken.run_of_word (kind : token.kind = .word) :
    ∀ character ∈ token.text, isLineWordCharacter character = true := by
  cases valid with
  | word nonempty run => exact run
  | _ => contradiction

/-- In front of a second word in a word of the formatter there is a single character. -/
theorem IsLineToken.exists_of_behind (kind : token.kind = .word)
    {before : List (Token WordTokenKind)} {previous : Token WordTokenKind} {text : Text}
    (shape : wordTokens token.text = before ++ [previous, ⟨.word, text⟩]) :
    ∃ character, isWordCharacter character = false ∧ previous.text = [character] := by
  have member : previous ∈ wordTokens token.text := by simp [shape]
  obtain ⟨⟨nonempty, pure⟩, single⟩ := isWordToken_of_mem_wordTokens member
  have noSpace := valid.kind_ne_whiteSpace (by simp [kind]) previous member
  have noWord : previous.kind ≠ .word := by
    intro word
    have chain := (legible_wordMunch_iff.1 (legible_wordTokens token.text)).2
    rw [shape] at chain
    exact (List.isChain_append.1 chain).2.1.rel (by rw [word]; rfl) word.symm
  have alone : previous.kind.extends = false := by
    cases other : previous.kind <;> simp_all [WordTokenKind.extends]
  obtain ⟨character, same⟩ := List.length_eq_one_iff.1 (single alone)
  have inside := pure character (by simp [same])
  exact ⟨character, by simp [isWordCharacter, inside, noWord], same⟩

/-- A word of the formatter that ends with a word is a keyword exactly when it is that word
and the word is a keyword. -/
theorem IsLineToken.spacedKeywords_contains_iff (plain : token.text.all isPlainCode = true)
    {word : LeadIn} (found : endWord? false (wordTokens token.text) = some word) :
    spacedKeywords.contains token.text = true ↔
      spacedKeywords.contains word.word = true ∧ word.attached = false := by
  have whole := flatMap_text_wordTokens token.text
  rcases endWord?_cases found with ⟨alone, free⟩ | ⟨before, previous, shape, attached⟩
  · rw [alone] at whole
    have same : word.word = token.text := by simpa using whole
    rw [same, free]
    simp
  · have member : previous ∈ wordTokens token.text := by simp [shape]
    have kind : token.kind = .word := by
      have last : ⟨.word, word.word⟩ ∈ wordTokens token.text := by simp [shape]
      exact valid.kind_eq_word_of_wordToken last (.inl rfl)
    obtain ⟨character, sign, single⟩ := valid.exists_of_behind kind shape
    have inside : character ∈ token.text := mem_of_mem_wordTokens member (by simp [single])
    have noKeyword : token.text ∉ spacedKeywords := by
      intro keyword
      have words := spacedKeywords_all_isWordCharacter _ keyword
      rw [List.all_eq_true.1 words _ inside] at sign
      contradiction
    have attaches : previous.attaches = true := by
      obtain ⟨previousKind, text⟩ := previous
      obtain rfl : text = [character] := single
      exact attaches_of_isLineWordCharacter (valid.run_of_word kind _ inside)
        (List.all_eq_true.1 plain _ inside) sign previousKind
    simp [noKeyword, attached, attaches]

end LineTokens

/-! ### Code behind a token -/

theorem head?_wordTokens_eq_openParen_iff {rest : Text} :
    (wordTokens rest).head? = some .openParen ↔ rest.head? = some '(' := by
  have whole := flatMap_text_wordTokens rest
  constructor
  · intro first
    obtain ⟨others, shape⟩ := List.head?_eq_some_iff.1 first
    rw [shape, List.flatMap_cons] at whole
    rw [← whole]
    rfl
  · intro first
    obtain ⟨others, rfl⟩ := List.head?_eq_some_iff.1 first
    rw [wordTokens_cons_openParen, List.head?_cons]

section Gap

variable {gap rest : Text} (blank : ∀ character ∈ gap, isWhiteSpace character = true)
  (shown : rest.head?.all (!isWhiteSpace ·) = true)

include blank shown

theorem gapBeforeParen?_wordTokens :
    gapBeforeParen? (wordTokens (gap ++ rest)) =
      if rest.head? = some '(' then some gap else none := by
  by_cases empty : gap = []
  · subst empty
    by_cases paren : rest.head? = some '('
    · obtain ⟨others, rfl⟩ := List.head?_eq_some_iff.1 paren
      rw [if_pos paren, List.nil_append, wordTokens_cons_openParen, gapBeforeParen?, if_pos rfl]
    · rw [if_neg paren, List.nil_append]
      have other := mt head?_wordTokens_eq_openParen_iff.1 paren
      cases tokens : wordTokens rest with
      | nil => rfl
      | cons token others =>
          rw [tokens] at other
          refine gapBeforeParen?_cons_of_visible ?_ (by simpa using other)
          intro space
          obtain ⟨character, head, kind⟩ :=
            exists_of_head?_wordTokens (tokens ▸ rfl : token ∈ (wordTokens rest).head?)
          rw [head, Option.all_some, ofChar_eq_whiteSpace_iff.1 (kind.trans space)] at shown
          simp at shown
  · have noParen : (⟨.whiteSpace, gap⟩ : Token WordTokenKind) ≠ .openParen := by
      intro same
      have kind := congrArg Token.kind same
      contradiction
    rw [wordTokens_run empty blank shown, gapBeforeParen?, if_neg noParen]
    simp only [head?_wordTokens_eq_openParen_iff, true_and]

theorem leadInsFrom_wordTokens {attached : Bool}
    (free : gap = [] → attached = true → rest.head?.all (!isWordCharacter ·) = true) :
    leadInsFrom attached (wordTokens (gap ++ rest)) = leadInsOfCode rest := by
  by_cases empty : gap = []
  · subst empty
    cases attached with
    | false => rfl
    | true =>
        refine leadInsFrom_eq_of_head? fun token first word => ?_
        obtain ⟨character, head, kind⟩ := exists_of_head?_wordTokens first
        have noWord : rest.head?.all (!isWordCharacter ·) = true := free rfl rfl
        have head : rest.head? = some character := head
        simp [head, isWordCharacter, kind, word] at noWord
  · have noWord : ¬(⟨.whiteSpace, gap⟩ : Token WordTokenKind).kind = .word := by simp
    have free : Token.attaches ⟨.whiteSpace, gap⟩ = false := by
      rw [Bool.eq_false_iff]
      intro attaches
      obtain ⟨character, inside, shape⟩ := exists_of_attaches attaches
      have shape : gap = [character] := shape
      have space := blank character (by simp [shape])
      rw [(isLineWordCharacter_iff.1 inside).1] at space
      contradiction
    rw [wordTokens_run empty blank shown, leadInsFrom, if_neg noWord, free]
    rfl

theorem leadInsOfCode_blank_append : leadInsOfCode (gap ++ rest) = leadInsOfCode rest :=
  leadInsFrom_wordTokens blank shown (by simp)

/-- Only the word at the end of a token leads in a parenthesis behind the token, and white
space in front of the parenthesis is all that matters. -/
theorem leadInsOfCode_append {token : Token LineTokenKind} (valid : IsLineToken token)
    (visible : token.kind ≠ .whiteSpace)
    (apart : gap = [] → token.kind = .word → rest.head?.all (!isWordCharacter ·) = true) :
    leadInsOfCode (token.text ++ (gap ++ rest)) =
      (if rest.head? = some '(' then
        (endWord? false (wordTokens token.text)).map (·.withGap gap) else none).toList ++
        leadInsOfCode rest := by
  have joined : joinsWords token.text (gap ++ rest) = false := by
    by_cases empty : gap = []
    · rw [Bool.eq_false_iff]
      intro joins
      obtain ⟨last, first⟩ := Bool.and_eq_true_iff.1 joins
      obtain ⟨character, lastOf, word⟩ := (Option.any_eq_true _ _).1 last
      obtain ⟨next, firstOf, wordNext⟩ := (Option.any_eq_true _ _).1 first
      rw [empty, List.nil_append] at firstOf
      have noWord := apart empty (valid.kind_eq_word (List.mem_of_getLast? lastOf) word)
      rw [firstOf, Option.all_some, wordNext] at noWord
      contradiction
    · have seam := (joinsWords_of_blank blank token.text).2
      rwa [joinsWords, ← List.head?_append_of_ne_nil gap empty] at seam
  have ends : ∀ character ∈ token.text.getLast?, isWhiteSpace character = true →
      (gap ++ rest).head?.all (!isWhiteSpace ·) = true := by
    intro character last space
    rw [valid.visible_of_mem visible character (List.mem_of_getLast? last)] at space
    contradiction
  have nonempty : wordTokens token.text ≠ [] := by
    intro empty
    have whole := flatMap_text_wordTokens token.text
    rw [empty] at whole
    exact valid.text_ne_nil whole.symm
  have free : gap = [] → (wordTokens token.text).getLast?.any Token.attaches = true →
      rest.head?.all (!isWordCharacter ·) = true := by
    intro empty attaches
    obtain ⟨last, lastOf, attaches⟩ := (Option.any_eq_true _ _).1 attaches
    have last := List.mem_of_getLast? lastOf
    exact apart empty (valid.kind_eq_word_of_wordToken last (.inr attaches))
  rw [leadInsOfCode, wordTokens_append joined ends,
    leadInsFrom_append nonempty (valid.inner_wordTokens visible),
    gapBeforeParen?_wordTokens blank shown, leadInsFrom_wordTokens blank shown free]
  congr 2
  cases endWord? false (wordTokens token.text) <;> split <;> rfl

end Gap

end Bilingual
