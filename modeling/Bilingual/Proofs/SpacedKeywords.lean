import Bilingual.Proofs.LeadIns
import Bilingual.Proofs.ParallelRuns

/-!
# Spaces behind keywords

In a line of code a keyword keeps one space in front of an opening parenthesis, and every
other word loses the white space there.  But a keyword that stands directly behind a
bracket, a brace or a semicolon loses it too, as it is part of a longer word for the
formatter.  This is `leadIns_formatWith_iff`.
-/

namespace Bilingual

/-! ### Parts -/

namespace Part

/-- The code of a part. -/
def codeText : Part → Text
  | .code token => token.text
  | .literal _ => []

/-- The word with which a part ends, as it leads in a parenthesis directly behind it. -/
def endWord? : Part → Option LeadIn
  | .code token => Bilingual.endWord? false (wordTokens token.text)
  | .literal _ => none

/-- The two parts are not both words. -/
def WordsApart (first second : Part) : Prop :=
  first.piece.kind? = some .word → second.piece.kind? ≠ some .word

end Part

/-- The words among parts that lead in a parenthesis, when the parts stand behind the part
`previous` and white space. -/
def leadInsBehind (previous : Part) (gap : Text) : List Part → List LeadIn
  | [] => []
  | part :: parts =>
      if part.isBlank then leadInsBehind previous (gap ++ part.text) parts
      else
        (if part.piece.kind? = some .openParen then previous.endWord?.map (·.withGap gap)
          else none).toList ++ leadInsBehind part [] parts

/-- The words among parts that lead in a parenthesis. -/
def leadInsOfParts : List Part → List LeadIn
  | [] => []
  | part :: parts =>
      if part.isBlank then leadInsOfParts parts else leadInsBehind part [] parts

/-- The words among lexemes that lead in a parenthesis. -/
def leadInsOf (list : List Lexeme) : List LeadIn :=
  (list.filterMap Lexeme.code?).flatMap leadInsOfCode

/-- Lexemes without the run of code with which they start. -/
def behindCode : List Lexeme → List Lexeme
  | .code _ :: others => others
  | others => others

@[simp] theorem leadInsOfCode_nil : leadInsOfCode [] = [] := by
  simp [leadInsOfCode, wordTokens, leadInsFrom]

theorem leadInsOf_eq_append (list : List Lexeme) :
    leadInsOf list = leadInsOfCode (leadingCode list) ++ leadInsOf (behindCode list) := by
  match list with
  | .code _ :: _ => rfl
  | [] | .newline :: _ | .comment _ :: _ | .literal _ :: _ => simp [leadingCode, behindCode]

theorem behindCode_consCode (text : Text) (list : List Lexeme) :
    behindCode (consCode text list) = behindCode list := by
  match list with
  | .code _ :: _ => rfl
  | [] | .newline :: _ | .comment _ :: _ | .literal _ :: _ =>
      by_cases empty : text = [] <;> simp [consCode, empty, behindCode]

theorem leadInsOf_consCode (text : Text) (list : List Lexeme) :
    leadInsOf (consCode text list) =
      leadInsOfCode (text ++ leadingCode list) ++ leadInsOf (behindCode list) := by
  rw [leadInsOf_eq_append, leadingCode_consCode, behindCode_consCode]

theorem leadInsOfCode_blank {gap : Text}
    (blank : ∀ character ∈ gap, isWhiteSpace character = true) : leadInsOfCode gap = [] := by
  have alone := @leadInsOfCode_blank_append gap [] blank rfl
  simpa using alone

/-- A literal leads in nothing, and nothing leads in a parenthesis across it. -/
theorem leadInsOf_assemble_literal (text : Text) (whole : Literal) (parts : List Part)
    (behind : List Lexeme) :
    leadInsOf (consCode text (assemble (.literal whole :: parts) behind)) =
      leadInsOfCode text ++
        leadInsOf (consCode (Part.literal whole).codeText (assemble parts behind)) := by
  have start : consCode (Part.literal whole).codeText (assemble parts behind) =
      assemble parts behind := consCode_nil _
  rw [start, leadInsOf_consCode]
  simp only [assemble, leadingCode, behindCode, List.append_nil]
  rfl

/-! ### Lines that are put together -/

section Assemble

variable {parts : List Part} {behind : List Lexeme} {gap : Text}

/-- Lexemes at the end of a line that have no words. -/
structure HasNoWords (list : List Lexeme) : Prop where
  blank : ∀ character ∈ leadingCode list, isWhiteSpace character = true
  behind : leadInsOf (behindCode list) = []

theorem head?_all_of_kind_ne_word {token : Token LineTokenKind} (valid : IsLineToken token)
    (other : token.kind ≠ .word) (behind : Text) :
    (token.text ++ behind).head?.all (!isWordCharacter ·) = true := by
  obtain ⟨character, text, shape⟩ := List.exists_cons_of_ne_nil valid.text_ne_nil
  have noWord : isWordCharacter character = false := by
    rw [Bool.eq_false_iff]
    intro word
    exact other (valid.kind_eq_word (by simp [shape]) word)
  simp [shape, noWord]

theorem head?_eq_openParen_iff {token : Token LineTokenKind} (valid : IsLineToken token)
    (behind : Text) :
    (token.text ++ behind).head? = some '(' ↔
      (Part.code token).piece.kind? = some .openParen := by
  obtain ⟨character, text, shape⟩ := List.exists_cons_of_ne_nil valid.text_ne_nil
  constructor
  · intro first
    obtain rfl : character = '(' := by simpa [shape] using first
    rw [valid.eq_openParen (by simp [shape])]
    rfl
  · intro same
    have kind : token.kind = .openParen := Option.some.inj same
    cases valid with
    | openParen => rfl
    | _ => contradiction

/-- The word at the end of a part leads in a parenthesis behind it. -/
theorem leadInsOfCode_codeText {part : Part} (valid : part.IsValid)
    (visible : part.isBlank = false) {rest : Text}
    (blank : ∀ character ∈ gap, isWhiteSpace character = true)
    (shown : rest.head?.all (!isWhiteSpace ·) = true)
    (apart : gap = [] → part.piece.kind? = some .word →
      rest.head?.all (!isWordCharacter ·) = true) :
    leadInsOfCode (part.codeText ++ (gap ++ rest)) =
      (if rest.head? = some '(' then part.endWord?.map (·.withGap gap) else none).toList ++
        leadInsOfCode rest := by
  cases part with
  | literal whole =>
      rw [Part.codeText, List.nil_append, leadInsOfCode_blank_append blank shown]
      simp [Part.endWord?]
  | code token =>
      refine leadInsOfCode_append blank shown valid.1 ?_ fun empty word => apart empty ?_
      · simpa [Part.isBlank, Part.piece, Piece.ofToken, Piece.kind?] using visible
      · exact congrArg some word

section Behind

variable {previous : Part} (validPrevious : previous.IsValid) (visible : previous.isBlank = false)
  (blank : ∀ character ∈ gap, isWhiteSpace character = true)

include validPrevious visible blank

theorem leadInsOfCode_codeText_blank : leadInsOfCode (previous.codeText ++ gap) = [] := by
  have alone := @leadInsOfCode_codeText gap previous validPrevious visible [] blank rfl
    fun _ _ => rfl
  simpa using alone

/-- In front of a token the part may lead in that token, and the token goes on to lead in
others. -/
theorem leadInsOf_consCode_consCode {token : Token LineTokenKind}
    (valid : (Part.code token).IsValid) (shown : (Part.code token).isBlank = false)
    (apart : gap = [] → previous.WordsApart (.code token)) (list : List Lexeme) :
    leadInsOf (consCode (previous.codeText ++ gap) (consCode token.text list)) =
      (if (Part.code token).piece.kind? = some .openParen then
        previous.endWord?.map (·.withGap gap) else none).toList ++
        leadInsOf (consCode token.text list) := by
  have starts : (token.text ++ leadingCode list).head?.all (!isWhiteSpace ·) = true :=
    valid.head?_text_append shown (leadingCode list)
  have noWord : gap = [] → previous.piece.kind? = some .word →
      (token.text ++ leadingCode list).head?.all (!isWordCharacter ·) = true := by
    intro empty word
    exact head?_all_of_kind_ne_word valid.1
      (fun kind => apart empty word (congrArg some kind)) _
  have seam := leadInsOfCode_codeText validPrevious visible blank starts noWord
  rw [leadInsOf_consCode, behindCode_consCode, leadingCode_consCode, List.append_assoc, seam,
    leadInsOf_consCode, List.append_assoc]
  simp only [head?_eq_openParen_iff valid.1]

end Behind

/-- What is found among parts is found in the line that is put together from them. -/
theorem leadInsOf_assemble_behind {previous : Part} (validPrevious : previous.IsValid)
    (visible : previous.isBlank = false) (valid : ∀ part ∈ parts, part.IsValid)
    (chain : parts.IsChain Part.WordsApart)
    (blank : ∀ character ∈ gap, isWhiteSpace character = true)
    (first : gap = [] → ∀ next ∈ parts.head?, previous.WordsApart next)
    (ends : HasNoWords behind) :
    leadInsOf (consCode (previous.codeText ++ gap) (assemble parts behind)) =
      leadInsBehind previous gap parts := by
  induction parts generalizing previous gap with
  | nil =>
      have longer : ∀ character ∈ gap ++ leadingCode behind, isWhiteSpace character = true :=
        List.forall_mem_append.2 ⟨blank, ends.blank⟩
      rw [assemble_nil, leadInsOf_consCode, ends.behind, List.append_assoc,
        leadInsOfCode_codeText_blank validPrevious visible longer]
      rfl
  | cons part parts induction =>
      obtain ⟨validPart, validParts⟩ := List.forall_mem_cons.1 valid
      obtain ⟨apart, chainParts⟩ := List.isChain_cons.1 chain
      rw [leadInsBehind]
      cases blankPart : part.isBlank with
      | true =>
          cases part with
          | literal whole => contradiction
          | code token =>
              have nonempty : gap ++ token.text ≠ [] :=
                List.append_ne_nil_of_right_ne_nil _ validPart.text_ne_nil
              have longer : ∀ character ∈ gap ++ token.text, isWhiteSpace character = true :=
                List.forall_mem_append.2 ⟨blank, validPart.blank blankPart⟩
              rw [assemble, ← consCode_append, List.append_assoc, if_pos rfl]
              exact induction validPrevious visible validParts chainParts longer
                fun empty => absurd empty nonempty
      | false =>
          have rest := @induction [] part validPart blankPart validParts chainParts (by simp)
            fun _ => apart
          rw [if_neg Bool.false_ne_true, ← rest, List.append_nil]
          cases part with
          | code token =>
              exact leadInsOf_consCode_consCode validPrevious visible blank validPart blankPart
                (fun empty => first empty _ rfl) _
          | literal whole =>
              rw [leadInsOf_assemble_literal,
                leadInsOfCode_codeText_blank validPrevious visible blank]
              rfl

theorem leadInsOf_assemble (valid : ∀ part ∈ parts, part.IsValid)
    (chain : parts.IsChain Part.WordsApart)
    (blank : ∀ character ∈ gap, isWhiteSpace character = true) (ends : HasNoWords behind) :
    leadInsOf (consCode gap (assemble parts behind)) = leadInsOfParts parts := by
  induction parts generalizing gap with
  | nil =>
      have longer : ∀ character ∈ gap ++ leadingCode behind, isWhiteSpace character = true :=
        List.forall_mem_append.2 ⟨blank, ends.blank⟩
      rw [assemble_nil, leadInsOf_consCode, ends.behind, leadInsOfCode_blank longer]
      rfl
  | cons part parts induction =>
      obtain ⟨validPart, validParts⟩ := List.forall_mem_cons.1 valid
      obtain ⟨apart, chainParts⟩ := List.isChain_cons.1 chain
      rw [leadInsOfParts]
      cases blankPart : part.isBlank with
      | true =>
          cases part with
          | literal whole => contradiction
          | code token =>
              have longer : ∀ character ∈ gap ++ token.text, isWhiteSpace character = true :=
                List.forall_mem_append.2 ⟨blank, validPart.blank blankPart⟩
              rw [assemble, ← consCode_append, if_pos rfl]
              exact induction validParts chainParts longer
      | false =>
          have rest := @leadInsOf_assemble_behind parts behind [] part validPart blankPart
            validParts chainParts (by simp) (fun _ => apart) ends
          rw [if_neg Bool.false_ne_true, ← rest, List.append_nil]
          cases part with
          | code token =>
              have shown : (token.text ++ leadingCode (assemble parts behind)).head?.all
                  (!isWhiteSpace ·) = true := validPart.head?_text_append blankPart _
              rw [assemble, leadInsOf_consCode, behindCode_consCode, leadingCode_consCode,
                leadInsOfCode_blank_append blank shown]
              exact (leadInsOf_consCode token.text _).symm
          | literal whole =>
              rw [leadInsOf_assemble_literal, leadInsOfCode_blank blank, List.nil_append]

end Assemble

/-! ### Spaces put right -/

/-- The white space that the formatter leaves in front of the parenthesis. -/
def LeadIn.respaced (leadIn : LeadIn) : LeadIn :=
  leadIn.withGap
    (if leadIn.gap ≠ [] ∧ spacedKeywords.contains leadIn.word = true ∧ leadIn.attached = false
      then [' '] else [])

section Spaced

variable {rules : FormatRules} {parts : List Part} {space : Text}

/-- In front of a parenthesis the formatter leaves white space behind keywords only. -/
theorem needsSpace_iff_of_endWord? {token : Token LineTokenKind} {next : Piece} {word : LeadIn}
    (valid : (Part.code token).IsValid) (found : (Part.code token).endWord? = some word)
    (paren : next.kind? = some .openParen) (hadSpace : Bool) :
    needsSpace rules (Part.code token).piece next hadSpace = true ↔
      hadSpace = true ∧ spacedKeywords.contains word.word = true ∧ word.attached = false := by
  have found : endWord? false (wordTokens token.text) = some word := found
  have kind : token.kind = .word := by
    by_contra other
    rw [endWord?_eq_none fun inner member inside =>
      other (valid.1.kind_eq_word_of_wordToken member (.inl inside))] at found
    contradiction
  have decision : needsSpace rules (Part.code token).piece next hadSpace =
      (hadSpace && spacedKeywords.contains token.text) := by
    rw [needsSpace, paren]
    simp [Part.piece, Piece.ofToken, Piece.kind?, Piece.text, kind]
  rw [decision, Bool.and_eq_true, valid.1.spacedKeywords_contains_iff valid.2 found]

theorem respaced_endWord? {previous part : Part} (valid : previous.IsValid)
    (paren : part.piece.kind? = some .openParen) :
    (previous.endWord?.map (·.withGap space)).map LeadIn.respaced =
      previous.endWord?.map (·.withGap (gap rules previous.piece part.piece (space ≠ []))) := by
  cases previous with
  | literal whole => rfl
  | code token =>
      cases found : (Part.code token).endWord? with
      | none => rfl
      | some word =>
          have decision : needsSpace rules (Part.code token).piece part.piece (space ≠ []) = true ↔
              decide (space ≠ []) = true ∧ _ :=
            needsSpace_iff_of_endWord? valid found paren _
          rw [decide_eq_true_eq] at decision
          simp only [Option.map_some, LeadIn.respaced, LeadIn.withGap, gap, decision]

theorem leadInsBehind_gapParts {previous part : Part} (visible : part.isBlank = false)
    (hadSpace : Bool) (parts : List Part) :
    leadInsBehind previous [] (gapParts rules previous part hadSpace ++ part :: parts) =
      (if part.piece.kind? = some .openParen then previous.endWord?.map
        (·.withGap (gap rules previous.piece part.piece hadSpace)) else none).toList ++
        leadInsBehind part [] parts := by
  rw [gapParts, gap]
  split
  · have blank : Part.space.isBlank = true := rfl
    rw [List.singleton_append, leadInsBehind, if_pos blank, leadInsBehind, visible]
    rfl
  · rw [List.nil_append, leadInsBehind, visible]
    rfl

/-- Words lead in the same parentheses after spacing. -/
theorem leadInsBehind_spacedBehind {previous : Part} (validPrevious : previous.IsValid)
    (valid : ∀ part ∈ parts, part.IsValid) :
    leadInsBehind previous [] (spacedBehind rules previous (space ≠ []) parts) =
      (leadInsBehind previous space parts).map LeadIn.respaced := by
  induction parts generalizing previous space with
  | nil => rfl
  | cons part parts induction =>
      obtain ⟨validPart, validParts⟩ := List.forall_mem_cons.1 valid
      rw [spacedBehind, leadInsBehind]
      cases blankPart : part.isBlank with
      | true =>
          have nonempty : space ++ part.text ≠ [] :=
            List.append_ne_nil_of_right_ne_nil _ validPart.text_ne_nil
          have rest := @induction (space ++ part.text) previous validPrevious validParts
          rw [decide_eq_true nonempty] at rest
          rwa [if_pos rfl, if_pos rfl]
      | false =>
          have rest := @induction [] part validPart validParts
          rw [if_neg Bool.false_ne_true, if_neg Bool.false_ne_true, List.map_append, ← rest,
            leadInsBehind_gapParts blankPart]
          congr 1
          split
          · next paren => rw [← respaced_endWord? validPrevious paren, Option.toList_map]
          · rfl

theorem leadInsOfParts_spaced (valid : ∀ part ∈ parts, part.IsValid) :
    leadInsOfParts (spaced rules parts) = (leadInsOfParts parts).map LeadIn.respaced := by
  induction parts with
  | nil => rfl
  | cons part parts induction =>
      obtain ⟨validPart, validParts⟩ := List.forall_mem_cons.1 valid
      rw [spaced, leadInsOfParts]
      cases blankPart : part.isBlank with
      | true => exact induction validParts
      | false =>
          rw [if_neg Bool.false_ne_true, if_neg Bool.false_ne_true, leadInsOfParts, blankPart,
            if_neg Bool.false_ne_true]
          exact @leadInsBehind_spacedBehind rules parts [] part validPart validParts

theorem isChain_spacedBehind {previous : Part} {hadSpace : Bool}
    (chain : parts.IsChain Part.WordsApart)
    (first : hadSpace = false → ∀ next ∈ parts.head?, previous.WordsApart next) :
    (previous :: spacedBehind rules previous hadSpace parts).IsChain Part.WordsApart := by
  induction parts generalizing previous hadSpace with
  | nil => exact .singleton _
  | cons part parts induction =>
      obtain ⟨apart, chainParts⟩ := List.isChain_cons.1 chain
      rw [spacedBehind]
      split
      · exact induction chainParts (by simp)
      · have rest := @induction part false chainParts fun _ => apart
        rw [gapParts]
        split
        · rw [List.singleton_append, List.isChain_cons_cons, List.isChain_cons_cons]
          exact ⟨by simp [Part.WordsApart, Part.space, Part.piece, Piece.ofToken, Piece.kind?],
            by simp [Part.WordsApart, Part.space, Part.piece, Piece.ofToken, Piece.kind?], rest⟩
        · next dropped =>
            rw [List.nil_append, List.isChain_cons_cons]
            refine ⟨fun word wordNext => ?_, rest⟩
            -- White space between two words stays.
            have hadNone : hadSpace = false := by
              simpa [needsSpace, word, wordNext] using dropped
            exact first hadNone part rfl word wordNext

theorem isChain_spaced (chain : parts.IsChain Part.WordsApart) :
    (spaced rules parts).IsChain Part.WordsApart := by
  induction parts with
  | nil => exact .nil
  | cons part parts induction =>
      obtain ⟨apart, chainParts⟩ := List.isChain_cons.1 chain
      rw [spaced]
      split
      · exact induction chainParts
      · exact isChain_spacedBehind chainParts fun _ => apart

end Spaced

/-! ### Lines -/

section Line

variable {list : List Lexeme}

theorem Part.wordsApart_of_fits {first second : Part} (valid : second.IsValid)
    (fits : first.Fits second) : first.WordsApart second := by
  intro word wordNext
  match first, second with
  | .literal _, _ => contradiction
  | .code _, .literal _ => contradiction
  | .code first, .code second =>
      have kind : first.kind = .word := Option.some.inj word
      have kindNext : second.kind = .word := Option.some.inj wordNext
      obtain ⟨character, text, shape⟩ := List.exists_cons_of_ne_nil valid.1.text_ne_nil
      have inside := valid.1.run_of_word kindNext character (by simp [shape])
      simp [Part.Fits, Token.canPrecede, kind, shape, inside] at fits

theorem isChain_wordsApart (legible : Legible list) (inLine : Lexeme.newline ∉ list) :
    (list.flatMap Lexeme.parts).IsChain Part.WordsApart := by
  have valid := isValid_of_mem_flatMap_parts legible
  have fits := isChain_flatMap_parts legible inLine
  generalize list.flatMap Lexeme.parts = parts at valid fits
  induction parts with
  | nil => exact .nil
  | cons part parts induction =>
      obtain ⟨-, validParts⟩ := List.forall_mem_cons.1 valid
      obtain ⟨first, rest⟩ := List.isChain_cons.1 fits
      refine List.isChain_cons.2 ⟨fun next head => ?_, induction validParts rest⟩
      exact Part.wordsApart_of_fits (validParts next (List.mem_of_mem_head? head)) (first next head)

theorem hasNoWords_comments (legible : Legible list) (inLine : Lexeme.newline ∉ list) :
    HasNoWords ((list.filterMap Lexeme.comment?).map Lexeme.comment) := by
  rcases comments_cases legible inLine with none | ⟨text, some, -⟩
  · rw [none]
    exact ⟨by simp [leadingCode], rfl⟩
  · rw [some]
    exact ⟨by simp [leadingCode], rfl⟩

theorem hasNoWords_writtenComment (legible : Legible list) (inLine : Lexeme.newline ∉ list) :
    HasNoWords (writtenComment list) := by
  rcases writtenComment_cases legible inLine with ⟨-, written⟩ | ⟨text, -, written, -⟩
  · rw [written]
    exact ⟨by simp [leadingCode], rfl⟩
  · rw [written]
    exact ⟨Text.isBlank_iff.1 (Text.isBlank_spaces 2), rfl⟩

theorem leadInsOf_eq_leadInsOfParts (legible : Legible list) (inLine : Lexeme.newline ∉ list) :
    leadInsOf list = leadInsOfParts (list.flatMap Lexeme.parts) := by
  have whole := @leadInsOf_assemble _ _ [] (isValid_of_mem_flatMap_parts legible)
    (isChain_wordsApart legible inLine) (by simp) (hasNoWords_comments legible inLine)
  rwa [consCode_nil, assemble_parts legible inLine] at whole

/-- In a line of code as it is written, white space is put right in front of parentheses. -/
theorem leadInsOf_writtenCode (rules : FormatRules) (legible : Legible list)
    (inLine : Lexeme.newline ∉ list) (count : Nat) :
    leadInsOf (consCode (Text.spaces count) (writtenCode rules list)) =
      (leadInsOf list).map LeadIn.respaced := by
  have valid := isValid_of_mem_flatMap_parts legible
  rw [writtenCode, leadInsOf_assemble (isValid_of_mem_spaced valid)
      (isChain_spaced (isChain_wordsApart legible inLine))
      (Text.isBlank_iff.1 (Text.isBlank_spaces count)) (hasNoWords_writtenComment legible inLine),
    leadInsOfParts_spaced valid, leadInsOf_eq_leadInsOfParts legible inLine]

theorem leadIns_lineOf (offset start : Nat) (list : List Lexeme) :
    (lineOf offset start list).leadIns = leadInsOf list := by
  rw [LogicalLine.leadIns, lineOf, codeTexts_spansFrom, leadInsOf]

end Line

/-! ### Sources -/

/-- The white space that stays in front of the parenthesis if keywords keep it wherever they
stand. -/
def LeadIn.regular (leadIn : LeadIn) : LeadIn :=
  leadIn.withGap
    (if leadIn.gap ≠ [] ∧ spacedKeywords.contains leadIn.word = true then [' '] else [])

/-- If the line is one of code, it is written with the same words in front of parentheses, and
with white space in between that is changed in a given way. -/
def LogicalLine.LeadsAlike (change : LeadIn → LeadIn) (line written : LogicalLine) : Prop :=
  line.lineClass = .code → written.leadIns = line.leadIns.map change

instance (change : LeadIn → LeadIn) (line written : LogicalLine) :
    Decidable (line.LeadsAlike change written) :=
  inferInstanceAs (Decidable (_ → _))

theorem LeadIn.respaced_eq_regular_iff (leadIn : LeadIn) :
    leadIn.respaced = leadIn.regular ↔
      (leadIn.attached = true → spacedKeywords.contains leadIn.word = true → leadIn.gap = []) := by
  obtain ⟨attached, word, gap⟩ := leadIn
  by_cases none : gap = []
  · simp [respaced, regular, none]
  · cases attached <;> simp [respaced, regular, withGap, none]

theorem leadsAlike_formatWith (rules : FormatRules) (source : Text) :
    List.Forall₂ (LogicalLine.LeadsAlike LeadIn.respaced) (logicalLines source)
      (logicalLines (formatWith rules source)) := by
  rw [logicalLines_eq_linesFrom, logicalLines_eq_linesFrom]
  apply forall₂_linesFrom
  refine forall₂_lexemeLines_formatWith fun line legible inLine count offset offset' code => ?_
  rw [lineClass_lineOf offset offset legible] at code
  rw [leadIns_lineOf, leadIns_lineOf, writtenBody_of_code code,
    leadInsOf_writtenCode rules legible inLine]

/-- In a line of code the white space between a word and an opening parenthesis becomes one
space if the word is a keyword that does not stand directly behind a bracket, a brace or a
semicolon, and is dropped otherwise.  So all keywords keep one space exactly when no keyword
with white space behind it stands there. -/
theorem leadIns_formatWith_iff (rules : FormatRules) (source : Text) :
    List.Forall₂ (LogicalLine.LeadsAlike LeadIn.respaced) (logicalLines source)
        (logicalLines (formatWith rules source)) ∧
      (List.Forall₂ (LogicalLine.LeadsAlike LeadIn.regular) (logicalLines source)
          (logicalLines (formatWith rules source)) ↔
        ∀ line ∈ logicalLines source, line.lineClass = .code → ∀ leadIn ∈ line.leadIns,
          leadIn.attached = true → spacedKeywords.contains leadIn.word = true →
            leadIn.gap = []) := by
  have respaced := leadsAlike_formatWith rules source
  refine ⟨respaced, ?_⟩
  generalize logicalLines source = lines, logicalLines (formatWith rules source) = written
    at respaced
  induction respaced with
  | nil => simp
  | @cons line other lines written first rest induction =>
      rw [List.forall₂_cons, List.forall_mem_cons, induction]
      refine and_congr_left fun _ => forall_congr' fun code => ?_
      rw [first code, List.map_eq_map_iff]
      exact forall₂_congr fun leadIn _ => leadIn.respaced_eq_regular_iff

/-- A keyword behind a bracket loses its space. -/
theorem leadIns_format_bracket :
    format "y = [not (a)]".toList = "y = [not(a)]".toList ∧
      ¬List.Forall₂ (LogicalLine.LeadsAlike LeadIn.regular)
        (logicalLines "y = [not (a)]".toList)
        (logicalLines (format "y = [not (a)]".toList)) := by
  decide +kernel

end Bilingual
