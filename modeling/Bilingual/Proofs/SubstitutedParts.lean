import Bilingual.Proofs.LineParts
import Bilingual.Proofs.SpacedParts
import Bilingual.Proofs.SubstitutedSeams
import Bilingual.Proofs.Trimming

/-!
# Keywords among the parts of a line

The formatter sees a translated line as the line with the words of its tokens replaced:
no token comes in, gets lost or changes its kind.  The main statements are
`lineTokens_substituteCode` and `map_substitute_assemble`.
-/

namespace Bilingual

/-- The same character, or two characters of words. -/
def WordsOrSame (first second : Option Char) : Prop :=
  first = second ∨ first.any isWordCharacter = true ∧ second.any isWordCharacter = true

/-- What is either true or false of all characters of words does not tell them apart. -/
theorem WordsOrSame.any_eq {first second : Option Char} (alike : WordsOrSame first second)
    {property : Char → Bool} {value : Bool}
    (words : ∀ character, isWordCharacter character = true → property character = value) :
    first.any property = second.any property := by
  rcases alike with rfl | ⟨word, wordToo⟩
  · rfl
  · obtain ⟨character, rfl, word⟩ := (Option.any_eq_true _ _).1 word
    obtain ⟨other, rfl, wordToo⟩ := (Option.any_eq_true _ _).1 wordToo
    rw [Option.any_some, Option.any_some, words character word, words other wordToo]

theorem WordsOrSame.all_not_isWhiteSpace {first second : Option Char}
    (alike : WordsOrSame first second) :
    first.all (!isWhiteSpace ·) = second.all (!isWhiteSpace ·) := by
  have same : first.any isWhiteSpace = second.any isWhiteSpace := alike.any_eq fun character word =>
    (isLineWordCharacter_iff.1 (isLineWordCharacter_of_isWordCharacter word)).1
  cases first <;> cases second <;> simp_all

section Code

variable (table : KeywordTable) (direction : Direction)

/-- A token stays as it is, or it is a word and so is what takes its place. -/
theorem replaceToken_cases {token : Token WordTokenKind} (valid : token.IsWordToken) :
    table.replaceToken direction token = token.text ∨
      isSingleWord token.text = true ∧
        isSingleWord (table.replaceToken direction token) = true := by
  obtain ⟨kind, text⟩ := token
  cases kind with
  | word =>
      have single := Token.isPure_word_iff.1 valid.1
      exact .inr ⟨single, table.isSingleWord_replaceWord direction single⟩
  | _ => exact .inl rfl

theorem wordsOrSame_head? {text other rest others : Text} (nonempty : text ≠ [])
    (alike : other = text ∨ isSingleWord text = true ∧ isSingleWord other = true) :
    WordsOrSame (text ++ rest).head? (other ++ others).head? := by
  rcases alike with rfl | ⟨single, singleToo⟩
  · left
    rw [List.head?_append_of_ne_nil _ nonempty, List.head?_append_of_ne_nil _ nonempty]
  · right
    obtain ⟨-, words⟩ := isSingleWord_iff.1 single
    obtain ⟨nonemptyToo, wordsToo⟩ := isSingleWord_iff.1 singleToo
    rw [List.head?_append_of_ne_nil _ nonempty, List.head?_append_of_ne_nil _ nonemptyToo,
      List.head?_eq_some_head nonempty, List.head?_eq_some_head nonemptyToo]
    exact ⟨List.all_eq_true.1 words _ (List.head_mem _),
      List.all_eq_true.1 wordsToo _ (List.head_mem _)⟩

theorem wordsOrSame_getLast? {text other before others : Text} (nonempty : text ≠ [])
    (alike : other = text ∨ isSingleWord text = true ∧ isSingleWord other = true) :
    WordsOrSame (before ++ text).getLast? (others ++ other).getLast? := by
  rcases alike with rfl | ⟨single, singleToo⟩
  · left
    rw [List.getLast?_append_of_ne_nil _ nonempty, List.getLast?_append_of_ne_nil _ nonempty]
  · right
    obtain ⟨-, words⟩ := isSingleWord_iff.1 single
    obtain ⟨nonemptyToo, wordsToo⟩ := isSingleWord_iff.1 singleToo
    rw [List.getLast?_append_of_ne_nil _ nonempty, List.getLast?_append_of_ne_nil _ nonemptyToo,
      List.getLast?_eq_some_getLast nonempty, List.getLast?_eq_some_getLast nonemptyToo]
    exact ⟨List.all_eq_true.1 words _ (List.getLast_mem _),
      List.all_eq_true.1 wordsToo _ (List.getLast_mem _)⟩

/-- Substituted code starts as before, up to a word. -/
theorem head?_substituteCode (code : Text) :
    WordsOrSame code.head? (substituteCode table direction code).head? := by
  have whole := flatMap_text_wordTokens code
  rw [substituteCode]
  cases shape : wordTokens code with
  | nil =>
      rw [shape] at whole
      exact .inl (congrArg List.head? whole.symm)
  | cons token others =>
      have member : token ∈ wordTokens code := by simp [shape]
      have valid := isWordToken_of_mem_wordTokens member
      rw [shape, List.flatMap_cons] at whole
      rw [← whole, List.flatMap_cons]
      exact wordsOrSame_head? valid.1.1 (replaceToken_cases table direction valid)

/-- Substituted code ends as before, up to a word. -/
theorem getLast?_substituteCode (code : Text) :
    WordsOrSame code.getLast? (substituteCode table direction code).getLast? := by
  have whole := flatMap_text_wordTokens code
  rw [substituteCode]
  rcases List.eq_nil_or_concat' (wordTokens code) with empty | ⟨before, token, shape⟩
  · rw [empty] at whole ⊢
    exact .inl (congrArg List.getLast? whole.symm)
  · have member : token ∈ wordTokens code := by simp [shape]
    have valid := isWordToken_of_mem_wordTokens member
    rw [shape, List.flatMap_append, List.flatMap_singleton] at whole
    rw [shape, ← whole, List.flatMap_append, List.flatMap_singleton]
    exact wordsOrSame_getLast? valid.1.1 (replaceToken_cases table direction valid)

theorem substituteCode_eq_self {code : Text}
    (noWord : ∀ character ∈ code, isWordCharacter character = false) :
    substituteCode table direction code = code := by
  have whole := flatMap_text_wordTokens code
  conv_rhs => rw [← whole]
  refine List.flatMap_congr fun token member => ?_
  rcases replaceToken_cases table direction (isWordToken_of_mem_wordTokens member) with
    same | ⟨single, -⟩
  · exact same
  · obtain ⟨nonempty, words⟩ := isSingleWord_iff.1 single
    have inside : token.text.head nonempty ∈ code := by
      rw [← whole]
      exact List.mem_flatMap.2 ⟨token, member, List.head_mem nonempty⟩
    have word := List.all_eq_true.1 words _ (List.head_mem nonempty)
    rw [noWord _ inside] at word
    contradiction

/-! ### White space -/

theorem substituteCode_blank {blank : Text} (space : Text.isBlank blank = true) :
    substituteCode table direction blank = blank :=
  substituteCode_eq_self table direction fun character member =>
    isWordCharacter_of_isWhiteSpace (Text.isBlank_iff.1 space character member)

@[simp] theorem substituteCode_nil : substituteCode table direction [] = [] :=
  substituteCode_blank table direction rfl

theorem substituteCode_blank_append {blank : Text} (space : Text.isBlank blank = true)
    (code : Text) :
    substituteCode table direction (blank ++ code) =
      blank ++ substituteCode table direction code := by
  rw [substituteCode_append table direction (joinsWords_of_blank (Text.isBlank_iff.1 space) _).1,
    substituteCode_blank table direction space]

theorem head?_substituteCode_trimStart (code : Text) :
    (substituteCode table direction (Text.trimStart code)).head?.all (!isWhiteSpace ·) = true := by
  rw [← (head?_substituteCode table direction (Text.trimStart code)).all_not_isWhiteSpace]
  exact Text.head?_trimStart code

/-- Code is its margin and what was substituted behind it. -/
theorem substituteCode_eq_append (code : Text) :
    substituteCode table direction code =
      code.takeWhile isWhiteSpace ++ substituteCode table direction (Text.trimStart code) := by
  conv_lhs => rw [← Text.takeWhile_append_trimStart code]
  exact substituteCode_blank_append table direction (Text.isBlank_takeWhile code) _

theorem takeWhile_substituteCode (code : Text) :
    (substituteCode table direction code).takeWhile isWhiteSpace =
      code.takeWhile isWhiteSpace := by
  rw [substituteCode_eq_append]
  exact Text.takeWhile_of_isBlank_append (Text.isBlank_takeWhile code)
    (head?_substituteCode_trimStart table direction code)

theorem isBlank_substituteCode (code : Text) :
    Text.isBlank (substituteCode table direction code) = Text.isBlank code := by
  cases blank : Text.isBlank code with
  | true => rw [substituteCode_blank table direction blank, blank]
  | false =>
      have nonempty : Text.trimStart code ≠ [] := by
        intro empty
        have whole := Text.isBlank_takeWhile code
        rw [← List.append_nil (code.takeWhile isWhiteSpace), ← empty,
          Text.takeWhile_append_trimStart, blank] at whole
        contradiction
      have starts := head?_substituteCode_trimStart table direction code
      obtain ⟨character, rest, shape⟩ := List.exists_cons_of_ne_nil
        (substituteCode_ne_nil table direction nonempty)
      rw [shape] at starts
      have shown : Text.isBlank (character :: rest) = false :=
        Text.isBlank_eq_false_of_head? rfl (by simpa using starts)
      rw [substituteCode_eq_append, shape, Text.isBlank_append, shown, Bool.and_false]

theorem trimEnd_substituteCode (code : Text) :
    Text.trimEnd (substituteCode table direction code) =
      substituteCode table direction (Text.trimEnd code) := by
  obtain ⟨blank, space, parts⟩ := Text.trimEnd_append_blank code
  have ends := (getLast?_substituteCode table direction (Text.trimEnd code)).all_not_isWhiteSpace
  have trimmed : (Text.trimEnd code).getLast?.all (!isWhiteSpace ·) = true :=
    Text.trimEnd_eq_self_iff.1 (Text.trimEnd_trimEnd code)
  have seam : joinsWords (Text.trimEnd code) blank = false :=
    (joinsWords_of_blank (Text.isBlank_iff.1 space) _).2
  conv_lhs => rw [← parts]
  rw [substituteCode_append table direction seam, substituteCode_blank table direction space,
    Text.trimEnd_append, if_pos space, Text.trimEnd_eq_self_iff, ← ends, trimmed]

end Code

/-! ### Tokens -/

section Tokens

variable (table : KeywordTable) (direction : Direction)

/-- A token of the formatter after the replacement. -/
def replacedLineToken (token : Token LineTokenKind) : Token LineTokenKind :=
  ⟨token.kind, substituteCode table direction token.text⟩

/-- Only words change. -/
theorem replacedLineToken_eq_self {token : Token LineTokenKind} (valid : IsLineToken token)
    (other : token.kind ≠ .word) : replacedLineToken table direction token = token := by
  have noWord : ∀ character ∈ token.text, isWordCharacter character = false := by
    intro character member
    rw [Bool.eq_false_iff]
    exact fun word => other (valid.kind_eq_word member word)
  rw [replacedLineToken, substituteCode_eq_self table direction noWord]

theorem isLineToken_replacedLineToken {token : Token LineTokenKind} (valid : IsLineToken token) :
    IsLineToken (replacedLineToken table direction token) := by
  by_cases word : token.kind = .word
  · have nonempty := substituteCode_ne_nil table direction valid.text_ne_nil
    have run : ∀ character ∈ token.text, isLineWordCharacter character = true := by
      cases valid <;> first | contradiction | assumption
    rw [replacedLineToken, word]
    refine .word nonempty fun character member => ?_
    rcases mem_substituteCode table direction member with inWord | old
    · exact isLineWordCharacter_of_isWordCharacter inWord
    · exact run character old
  · rwa [replacedLineToken_eq_self table direction valid word]

/-- What may stand behind a token does not depend on the words. -/
theorem canPrecede_replacedLineToken {token : Token LineTokenKind} (valid : IsLineToken token)
    {first second : Option Char} (alike : WordsOrSame first second) :
    (replacedLineToken table direction token).canPrecede second = token.canPrecede first := by
  have behind : token.canPrecede second = token.canPrecede first := by
    rcases alike with rfl | ⟨word, wordToo⟩
    · rfl
    · obtain ⟨character, rfl, word⟩ := (Option.any_eq_true _ _).1 word
      obtain ⟨other, rfl, wordToo⟩ := (Option.any_eq_true _ _).1 wordToo
      have inWord := isLineWordCharacter_of_isWordCharacter word
      have inWordToo := isLineWordCharacter_of_isWordCharacter wordToo
      obtain ⟨visible, operator, -, -, -, -, sign⟩ := isLineWordCharacter_iff.1 inWord
      obtain ⟨visibleToo, operatorToo, -, -, -, -, signToo⟩ := isLineWordCharacter_iff.1 inWordToo
      have noSign : (character != '=') = (other != '=') := by
        rw [bne_iff_ne.2 sign, bne_iff_ne.2 signToo]
      have noSignNext : (some character != some '=') = (some other != some '=') := noSign
      obtain ⟨kind, text⟩ := token
      cases kind <;> simp [Token.canPrecede, inWord, inWordToo, visible, visibleToo, operator,
        operatorToo, noSign, noSignNext]
  by_cases word : token.kind = .word
  · rw [← behind, replacedLineToken, Token.canPrecede, Token.canPrecede, word]
  · rw [replacedLineToken_eq_self table direction valid word, behind]

theorem substituteCode_flatMap_text {list : List (Token LineTokenKind)}
    (legible : lineMunch.Legible list) :
    substituteCode table direction (list.flatMap Token.text) =
      (list.map (replacedLineToken table direction)).flatMap Token.text := by
  induction list with
  | nil => exact substituteCode_nil table direction
  | cons token others induction =>
      rw [List.flatMap_cons, substituteCode_append table direction (joinsWords_of_reads legible.1),
        induction legible.2]
      rfl

theorem legible_map_replacedLineToken {list : List (Token LineTokenKind)}
    (legible : lineMunch.Legible list) :
    lineMunch.Legible (list.map (replacedLineToken table direction)) := by
  induction list with
  | nil => trivial
  | cons token others induction =>
      obtain ⟨valid, next⟩ := reads_lineMunch_iff.1 legible.1
      have alike := head?_substituteCode table direction (others.flatMap Token.text)
      rw [substituteCode_flatMap_text table direction legible.2] at alike
      rw [List.map_cons]
      refine ⟨reads_lineMunch_iff.2 ⟨isLineToken_replacedLineToken table direction valid, ?_⟩,
        induction legible.2⟩
      rwa [canPrecede_replacedLineToken table direction valid alike]

/-- Substituted code has the tokens of the formatter, with words replaced inside them. -/
theorem lineTokens_substituteCode (code : Text) :
    lineTokens (substituteCode table direction code) =
      (lineTokens code).map (replacedLineToken table direction) := by
  have legible := legible_lineTokens code
  have whole : (lineTokens code).flatMap Token.text = code := flatMap_text_tokens lineMunch code
  conv_lhs => rw [← whole, substituteCode_flatMap_text table direction legible]
  exact tokens_flatMap_text (legible_map_replacedLineToken table direction legible)

end Tokens

/-! ### Parts -/

section Parts

variable (table : KeywordTable) (direction : Direction)

/-- A part after the replacement: only code changes. -/
def Part.substitute : Part → Part
  | .code token => .code (replacedLineToken table direction token)
  | .literal whole => .literal whole

theorem parts_substitute (lexeme : Lexeme) :
    (lexeme.substitute table direction).parts =
      lexeme.parts.map (Part.substitute table direction) := by
  cases lexeme with
  | code text =>
      rw [Lexeme.substitute, Lexeme.parts, Lexeme.parts, lineTokens_substituteCode, List.map_map,
        List.map_map]
      rfl
  | _ => rfl

theorem flatMap_parts_substitute (list : List Lexeme) :
    (list.map (Lexeme.substitute table direction)).flatMap Lexeme.parts =
      (list.flatMap Lexeme.parts).map (Part.substitute table direction) := by
  rw [List.flatMap_map, List.map_flatMap]
  exact List.flatMap_congr fun lexeme _ => parts_substitute table direction lexeme

@[simp] theorem kind?_piece_substitute (part : Part) :
    (part.substitute table direction).piece.kind? = part.piece.kind? := by
  cases part <;> rfl

@[simp] theorem isBlank_substitute (part : Part) :
    (part.substitute table direction).isBlank = part.isBlank := by
  rw [Part.isBlank, Part.isBlank, kind?_piece_substitute]

theorem closesGroup_piece_substitute (part : Part) :
    (part.substitute table direction).piece.closesGroup = part.piece.closesGroup := by
  cases part with
  | literal whole => rfl
  | code token =>
      have any : ∀ token : Token LineTokenKind, (Part.code token).piece.closesGroup =
          token.text.head?.any [')', ']', '}'].contains := by
        intro token
        rw [Piece.closesGroup, Part.text_piece, Part.text]
        cases token.text.head? <;> rfl
      have words : ∀ character, isWordCharacter character = true →
          [')', ']', '}'].contains character = false := by
        intro character word
        rw [Bool.eq_false_iff]
        intro closes
        simp only [List.contains_iff_mem, List.mem_cons, List.not_mem_nil, or_false] at closes
        rcases closes with rfl | rfl | rfl <;> contradiction
      rw [any, Part.substitute, any]
      exact ((head?_substituteCode table direction token.text).any_eq words).symm

theorem isValid_substitute {part : Part} (valid : part.IsValid) :
    (part.substitute table direction).IsValid := by
  cases part with
  | literal whole => exact valid
  | code token =>
      exact ⟨isLineToken_replacedLineToken table direction valid.1,
        all_isPlainCode_substituteCode table direction valid.2⟩

theorem isValid_of_mem_map_substitute {parts : List Part} (valid : ∀ part ∈ parts, part.IsValid) :
    ∀ part ∈ parts.map (Part.substitute table direction), part.IsValid := by
  intro part member
  obtain ⟨old, known, rfl⟩ := List.mem_map.1 member
  exact isValid_substitute table direction (valid old known)

theorem map_substitute_consCode {text : Text} {list : List Lexeme}
    (apart : joinsWords text (leadingCode list) = false) :
    (consCode text list).map (Lexeme.substitute table direction) =
      consCode (substituteCode table direction text)
        (list.map (Lexeme.substitute table direction)) := by
  match list with
  | .code behind :: others =>
      have seam : substituteCode table direction (text ++ behind) = _ :=
        substituteCode_append table direction apart
      simp [consCode, Lexeme.substitute, seam]
  | [] | .newline :: _ | .comment _ :: _ | .literal _ :: _ =>
      by_cases empty : text = []
      · simp [empty]
      · have nonempty := substituteCode_ne_nil table direction empty
        simp [consCode, empty, nonempty, Lexeme.substitute]

/-- What is put together from parts is replaced part by part. -/
theorem map_substitute_assemble {parts : List Part} {behind : List Lexeme}
    (valid : ∀ part ∈ parts, part.IsValid) (chain : parts.IsChain Part.Meets)
    (apart : ∀ text, joinsWords text (leadingCode behind) = false) :
    (assemble parts behind).map (Lexeme.substitute table direction) =
      assemble (parts.map (Part.substitute table direction))
        (behind.map (Lexeme.substitute table direction)) := by
  induction parts with
  | nil => rfl
  | cons part parts induction =>
      obtain ⟨first, others⟩ := List.isChain_cons.1 chain
      obtain ⟨-, validOthers⟩ := List.forall_mem_cons.1 valid
      have rest := induction validOthers others
      cases part with
      | literal whole => exact congrArg (Lexeme.literal whole :: ·) rest
      | code token =>
          rw [assemble, map_substitute_consCode table direction
            (joinsWords_leadingCode_assemble validOthers first (apart token.text)), rest]
          rfl

end Parts

end Bilingual
