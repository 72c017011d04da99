import Bilingual.LineTokens
import Bilingual.Proofs.Runs
import Bilingual.Proofs.TokenLists

/-!
# Lists of line tokens

This file says which tokens the formatter can find in a line, and what may stand
behind each of them.  The main statement is `reads_lineMunch_iff`: how a token is
read depends on the text behind it only through the next character.
-/

namespace Bilingual

/-- The tokens that can be found in code. -/
inductive IsLineToken : Token LineTokenKind → Prop
  | whiteSpace {text : Text} (nonempty : text ≠ [])
      (blank : ∀ character ∈ text, isWhiteSpace character = true) :
      IsLineToken ⟨.whiteSpace, text⟩
  | openParen : IsLineToken ⟨.openParen, ['(']⟩
  | closeParen : IsLineToken ⟨.closeParen, [')']⟩
  | comma : IsLineToken ⟨.comma, [',']⟩
  | colon : IsLineToken ⟨.colon, [':']⟩
  | assign : IsLineToken ⟨.assign, ['=']⟩
  | equality : IsLineToken ⟨.operator, ['=', '=']⟩
  | walrus : IsLineToken ⟨.operator, [':', '=']⟩
  | operator {text : Text} (nonempty : text ≠ [])
      (run : ∀ character ∈ text, isOperatorCharacter character = true) :
      IsLineToken ⟨.operator, text⟩
  | assigningOperator {text : Text} (nonempty : text ≠ [])
      (run : ∀ character ∈ text, isOperatorCharacter character = true) :
      IsLineToken ⟨.operator, text ++ ['=']⟩
  | word {text : Text} (nonempty : text ≠ [])
      (run : ∀ character ∈ text, isLineWordCharacter character = true) :
      IsLineToken ⟨.word, text⟩

/-- The character behind a token does not become part of it. -/
def Token.canPrecede (token : Token LineTokenKind) (next : Option Char) : Bool :=
  match token.kind with
  | .whiteSpace => next.all (!isWhiteSpace ·)
  | .openParen | .closeParen | .comma => true
  | .colon | .assign => next != some '='
  | .operator =>
      token.text.getLast? = some '=' ||
        next.all fun character => !isOperatorCharacter character && character != '='
  | .word => next.all (!isLineWordCharacter ·)

theorem IsLineToken.text_ne_nil {token : Token LineTokenKind} (valid : IsLineToken token) :
    token.text ≠ [] := by
  cases valid <;> simp_all

theorem IsLineToken.blank {token : Token LineTokenKind} (valid : IsLineToken token)
    (space : token.kind = .whiteSpace) :
    ∀ character ∈ token.text, isWhiteSpace character = true := by
  cases valid <;> first | contradiction | assumption

@[simp] theorem Token.canPrecede_none (token : Token LineTokenKind) :
    token.canPrecede none = true := by
  obtain ⟨kind, text⟩ := token
  cases kind <;> simp [canPrecede]

theorem equalsSignLength_le (text : Text) : equalsSignLength text ≤ text.length := by
  cases text <;> simp only [equalsSignLength] <;> split <;> simp_all

theorem lineMunch_bounded : lineMunch.Bounded := by
  intro character rest
  have space := runLength_le isWhiteSpace rest
  have word := runLength_le isLineWordCharacter rest
  have operator := runLength_le isOperatorCharacter rest
  have sign := equalsSignLength_le rest
  have behind := equalsSignLength_le (rest.drop (runLength isOperatorCharacter rest))
  rw [List.length_drop] at behind
  simp only [lineMunch]
  repeat' split
  all_goals simp only
  all_goals omega

/-! ### First characters -/

theorem isOperatorCharacter_cases {character : Char}
    (operator : isOperatorCharacter character = true) :
    isWhiteSpace character = false ∧ character ≠ '(' ∧ character ≠ ')' ∧ character ≠ ',' ∧
      character ≠ ':' ∧ character ≠ '=' := by
  simp only [isOperatorCharacter, operatorCharacters, List.contains_iff_mem, List.mem_cons,
    List.not_mem_nil, or_false] at operator
  rcases operator with rfl | rfl | rfl | rfl | rfl | rfl | rfl | rfl | rfl | rfl | rfl | rfl |
    rfl <;> decide

theorem isLineWordCharacter_iff {character : Char} :
    isLineWordCharacter character = true ↔
      isWhiteSpace character = false ∧ isOperatorCharacter character = false ∧
        character ≠ '(' ∧ character ≠ ')' ∧ character ≠ ',' ∧ character ≠ ':' ∧
        character ≠ '=' := by
  simp [isLineWordCharacter, and_assoc]

/-! ### Single tokens -/

section Munch

variable {character : Char} {rest : Text}

theorem equalsSignLength_of_head? (sign : rest.head? = some '=') :
    equalsSignLength rest = 1 := by
  simp [equalsSignLength, sign]

theorem equalsSignLength_of_head?_ne (other : rest.head? ≠ some '=') :
    equalsSignLength rest = 0 := by
  simp [equalsSignLength, other]

theorem lineMunch_of_blank (blank : isWhiteSpace character = true) :
    lineMunch character rest = (.whiteSpace, runLength isWhiteSpace rest) := by
  simp [lineMunch, blank]

theorem lineMunch_openParen : lineMunch '(' rest = (.openParen, 0) := rfl

theorem lineMunch_closeParen : lineMunch ')' rest = (.closeParen, 0) := rfl

theorem lineMunch_comma : lineMunch ',' rest = (.comma, 0) := rfl

theorem lineMunch_colon (other : rest.head? ≠ some '=') :
    lineMunch ':' rest = (.colon, 0) := by
  have blank : isWhiteSpace ':' = false := by decide
  simp [lineMunch, blank, equalsSignLength_of_head?_ne other]

theorem lineMunch_walrus (sign : rest.head? = some '=') :
    lineMunch ':' rest = (.operator, 1) := by
  have blank : isWhiteSpace ':' = false := by decide
  simp [lineMunch, blank, equalsSignLength_of_head? sign]

theorem lineMunch_assign (other : rest.head? ≠ some '=') :
    lineMunch '=' rest = (.assign, 0) := by
  have blank : isWhiteSpace '=' = false := by decide
  simp [lineMunch, blank, equalsSignLength_of_head?_ne other]

theorem lineMunch_equality (sign : rest.head? = some '=') :
    lineMunch '=' rest = (.operator, 1) := by
  have blank : isWhiteSpace '=' = false := by decide
  simp [lineMunch, blank, equalsSignLength_of_head? sign]

theorem lineMunch_of_operator (operator : isOperatorCharacter character = true) :
    lineMunch character rest =
      (.operator, runLength isOperatorCharacter rest +
        equalsSignLength (rest.drop (runLength isOperatorCharacter rest))) := by
  obtain ⟨visible, openParen, closeParen, comma, colon, assign⟩ :=
    isOperatorCharacter_cases operator
  simp [lineMunch, visible, openParen, closeParen, comma, colon, assign, operator]

theorem lineMunch_of_word (word : isLineWordCharacter character = true) :
    lineMunch character rest = (.word, runLength isLineWordCharacter rest) := by
  obtain ⟨visible, operator, openParen, closeParen, comma, colon, assign⟩ :=
    isLineWordCharacter_iff.1 word
  simp [lineMunch, visible, openParen, closeParen, comma, colon, assign, operator]

end Munch

/-! ### Tokens at their places -/

theorem drop_runLength (property : Char → Bool) (text : Text) :
    text.drop (runLength property text) = text.dropWhile property := by
  have parts := List.takeWhile_append_dropWhile (p := property) (l := text)
  have dropped : (text.takeWhile property ++ text.dropWhile property).drop
      (runLength property text) = text.dropWhile property := List.drop_left
  rwa [parts] at dropped

/-- An operator is a run, or a run with `=` behind it. -/
theorem operatorRun {others rest : Text}
    (lengthEq : runLength isOperatorCharacter (others ++ rest) +
      equalsSignLength ((others ++ rest).drop
        (runLength isOperatorCharacter (others ++ rest))) = others.length) :
    (∀ character ∈ others, isOperatorCharacter character = true) ∧
        rest.head?.all (fun next => !isOperatorCharacter next && next != '=') = true ∨
      ∃ run, others = run ++ ['='] ∧
        ∀ character ∈ run, isOperatorCharacter character = true := by
  by_cases sign : ((others ++ rest).drop
      (runLength isOperatorCharacter (others ++ rest))).head? = some '='
  · rw [equalsSignLength_of_head? sign] at lengthEq
    rw [drop_runLength] at sign
    obtain ⟨after, shape⟩ := List.head?_eq_some_iff.1 sign
    have parts := List.takeWhile_append_dropWhile (p := isOperatorCharacter)
      (l := others ++ rest)
    have split : ((others ++ rest).takeWhile isOperatorCharacter ++ ['=']) ++ after =
        others ++ rest := by
      rw [shape] at parts
      simpa using parts
    have whole := (List.append_inj split (by simpa [runLength] using lengthEq)).1
    exact .inr ⟨_, whole.symm, fun character member => List.mem_takeWhile_imp member⟩
  · rw [equalsSignLength_of_head?_ne sign, Nat.add_zero] at lengthEq
    rw [lengthEq, List.drop_left] at sign
    obtain ⟨run, stops⟩ := runLength_append_eq_iff.1 lengthEq
    refine .inl ⟨run, ?_⟩
    cases head : rest.head? <;> simp_all

section Reads

variable {kind : LineTokenKind} {character : Char} {others rest : Text}

theorem isLineToken_of_operator (operator : isOperatorCharacter character = true)
    (found : lineMunch character (others ++ rest) = (kind, others.length)) :
    IsLineToken ⟨kind, character :: others⟩ ∧
      Token.canPrecede ⟨kind, character :: others⟩ rest.head? = true := by
  rw [lineMunch_of_operator operator, Prod.mk.injEq] at found
  obtain ⟨rfl, lengthEq⟩ := found
  rcases operatorRun lengthEq with ⟨run, stops⟩ | ⟨run, rfl, operators⟩
  · exact ⟨.operator (by simp) (List.forall_mem_cons.2 ⟨operator, run⟩),
      Bool.or_eq_true_iff.2 (.inr stops)⟩
  · have more : character :: run ≠ [] := by simp
    refine ⟨.assigningOperator more (List.forall_mem_cons.2 ⟨operator, operators⟩), ?_⟩
    rw [Token.canPrecede, ← List.cons_append, List.getLast?_concat]
    rfl

theorem isLineToken_of_colon (found : lineMunch ':' (others ++ rest) = (kind, others.length)) :
    IsLineToken ⟨kind, ':' :: others⟩ ∧
      Token.canPrecede ⟨kind, ':' :: others⟩ rest.head? = true := by
  by_cases sign : (others ++ rest).head? = some '='
  · rw [lineMunch_walrus sign, Prod.mk.injEq] at found
    obtain ⟨rfl, lengthEq⟩ := found
    obtain ⟨character, rfl⟩ := List.length_eq_one_iff.1 lengthEq.symm
    obtain rfl : character = '=' := by simpa using sign
    exact ⟨.walrus, rfl⟩
  · rw [lineMunch_colon sign, Prod.mk.injEq] at found
    obtain ⟨rfl, lengthEq⟩ := found
    obtain rfl := List.eq_nil_of_length_eq_zero lengthEq.symm
    exact ⟨.colon, by simpa [Token.canPrecede] using sign⟩

theorem isLineToken_of_sign (found : lineMunch '=' (others ++ rest) = (kind, others.length)) :
    IsLineToken ⟨kind, '=' :: others⟩ ∧
      Token.canPrecede ⟨kind, '=' :: others⟩ rest.head? = true := by
  by_cases sign : (others ++ rest).head? = some '='
  · rw [lineMunch_equality sign, Prod.mk.injEq] at found
    obtain ⟨rfl, lengthEq⟩ := found
    obtain ⟨character, rfl⟩ := List.length_eq_one_iff.1 lengthEq.symm
    obtain rfl : character = '=' := by simpa using sign
    exact ⟨.equality, rfl⟩
  · rw [lineMunch_assign sign, Prod.mk.injEq] at found
    obtain ⟨rfl, lengthEq⟩ := found
    obtain rfl := List.eq_nil_of_length_eq_zero lengthEq.symm
    exact ⟨.assign, by simpa [Token.canPrecede] using sign⟩

end Reads

theorem isLineToken_of_reads {token : Token LineTokenKind} {rest : Text}
    (reads : lineMunch.Reads token rest) :
    IsLineToken token ∧ token.canPrecede rest.head? = true := by
  obtain ⟨kind, text⟩ := token
  obtain ⟨character, others, rfl, found⟩ := reads
  by_cases blank : isWhiteSpace character = true
  · rw [lineMunch_of_blank blank, Prod.mk.injEq] at found
    obtain ⟨rfl, lengthEq⟩ := found
    obtain ⟨run, stops⟩ := runLength_append_eq_iff.1 lengthEq
    exact ⟨.whiteSpace (by simp) (List.forall_mem_cons.2 ⟨blank, run⟩), stops⟩
  by_cases operator : isOperatorCharacter character = true
  · exact isLineToken_of_operator operator found
  by_cases word : isLineWordCharacter character = true
  · rw [lineMunch_of_word word, Prod.mk.injEq] at found
    obtain ⟨rfl, lengthEq⟩ := found
    obtain ⟨run, stops⟩ := runLength_append_eq_iff.1 lengthEq
    exact ⟨.word (by simp) (List.forall_mem_cons.2 ⟨word, run⟩), stops⟩
  have signs : character = '(' ∨ character = ')' ∨ character = ',' ∨ character = ':' ∨
      character = '=' := by
    by_contra other
    simp only [not_or] at other
    apply word
    rw [isLineWordCharacter_iff]
    exact ⟨by simpa using blank, by simpa using operator, other⟩
  rcases signs with rfl | rfl | rfl | rfl | rfl
  · rw [lineMunch_openParen, Prod.mk.injEq] at found
    obtain ⟨rfl, lengthEq⟩ := found
    obtain rfl := List.eq_nil_of_length_eq_zero lengthEq.symm
    exact ⟨.openParen, rfl⟩
  · rw [lineMunch_closeParen, Prod.mk.injEq] at found
    obtain ⟨rfl, lengthEq⟩ := found
    obtain rfl := List.eq_nil_of_length_eq_zero lengthEq.symm
    exact ⟨.closeParen, rfl⟩
  · rw [lineMunch_comma, Prod.mk.injEq] at found
    obtain ⟨rfl, lengthEq⟩ := found
    obtain rfl := List.eq_nil_of_length_eq_zero lengthEq.symm
    exact ⟨.comma, rfl⟩
  · exact isLineToken_of_colon found
  · exact isLineToken_of_sign found

theorem reads_of_isLineToken {token : Token LineTokenKind} {rest : Text}
    (valid : IsLineToken token) (next : token.canPrecede rest.head? = true) :
    lineMunch.Reads token rest := by
  cases valid with
  | @whiteSpace text nonempty blank =>
      obtain ⟨character, others, rfl⟩ := List.exists_cons_of_ne_nil nonempty
      rw [List.forall_mem_cons] at blank
      refine ⟨character, others, rfl, ?_⟩
      rw [lineMunch_of_blank blank.1, runLength_append_eq_iff.2 ⟨blank.2, next⟩]
  | openParen => exact ⟨'(', [], rfl, lineMunch_openParen⟩
  | closeParen => exact ⟨')', [], rfl, lineMunch_closeParen⟩
  | comma => exact ⟨',', [], rfl, lineMunch_comma⟩
  | colon => exact ⟨':', [], rfl, lineMunch_colon (by simpa [Token.canPrecede] using next)⟩
  | assign => exact ⟨'=', [], rfl, lineMunch_assign (by simpa [Token.canPrecede] using next)⟩
  | equality => exact ⟨'=', ['='], rfl, lineMunch_equality rfl⟩
  | walrus => exact ⟨':', ['='], rfl, lineMunch_walrus rfl⟩
  | @operator text nonempty run =>
      obtain ⟨character, others, rfl⟩ := List.exists_cons_of_ne_nil nonempty
      have noSign : (character :: others).getLast? ≠ some '=' := by
        intro last
        exact (isOperatorCharacter_cases (run _ (List.mem_of_getLast? last))).2.2.2.2.2 rfl
      rw [List.forall_mem_cons] at run
      have stops : rest.head?.all (!isOperatorCharacter ·) = true ∧ rest.head? ≠ some '=' := by
        simp only [Token.canPrecede, noSign, decide_false, Bool.false_or] at next
        cases head : rest.head? <;> simp_all
      refine ⟨character, others, rfl, ?_⟩
      rw [lineMunch_of_operator run.1, runLength_append_eq_iff.2 ⟨run.2, stops.1⟩,
        List.drop_left, equalsSignLength_of_head?_ne stops.2, Nat.add_zero]
  | @assigningOperator text nonempty run =>
      obtain ⟨character, others, rfl⟩ := List.exists_cons_of_ne_nil nonempty
      rw [List.forall_mem_cons] at run
      have length : runLength isOperatorCharacter (others ++ '=' :: rest) = others.length :=
        runLength_append_eq_iff.2 ⟨run.2, rfl⟩
      refine ⟨character, others ++ ['='], rfl, ?_⟩
      rw [List.append_assoc, List.singleton_append, lineMunch_of_operator run.1, length,
        List.drop_left, equalsSignLength_of_head? rfl, List.length_append,
        List.length_singleton]
  | @word text nonempty run =>
      obtain ⟨character, others, rfl⟩ := List.exists_cons_of_ne_nil nonempty
      rw [List.forall_mem_cons] at run
      refine ⟨character, others, rfl, ?_⟩
      rw [lineMunch_of_word run.1, runLength_append_eq_iff.2 ⟨run.2, next⟩]

/-- The tokens that are read in front of a text. -/
theorem reads_lineMunch_iff {token : Token LineTokenKind} {rest : Text} :
    lineMunch.Reads token rest ↔ IsLineToken token ∧ token.canPrecede rest.head? = true :=
  ⟨isLineToken_of_reads, fun valid => reads_of_isLineToken valid.1 valid.2⟩

theorem legible_lineTokens (code : Text) : lineMunch.Legible (lineTokens code) :=
  legible_tokens lineMunch_bounded code

theorem isLineToken_of_mem_lineTokens {code : Text} {token : Token LineTokenKind}
    (member : token ∈ lineTokens code) : IsLineToken token := by
  have legible := legible_lineTokens code
  generalize lineTokens code = list at member legible
  induction list with
  | nil => simp at member
  | cons first others induction =>
      rcases List.mem_cons.1 member with rfl | member
      · exact (reads_lineMunch_iff.1 legible.1).1
      · exact induction member legible.2

end Bilingual
