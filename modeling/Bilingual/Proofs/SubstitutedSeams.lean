import Bilingual.BuiltinKeywords
import Bilingual.Proofs.LexemeLines
import Bilingual.Proofs.ScannedSeams
import Bilingual.Proofs.ScanPartition
import Bilingual.Proofs.SubstitutedLexemes

/-!
# Translating a text part by part

Keywords are replaced in two texts one behind the other as they are in each of them,
when the scanner comes out of the first one in code and neither a quote nor a word
goes on over the seam.  A document can therefore be translated line by line, and what
takes the place of a word does not depend on the code around it.  The main statement
is `scan_substitute_append`.
-/

namespace Bilingual

/-- A word of code would go on over the seam: code with a word character at its end
stands in front of code with one at its start. -/
def WordsMeet (first second : Text) : Prop :=
  ∃ last ∈ (scan first).getLast?, ∃ next ∈ (scan second).head?,
    last.kind = .code ∧ next.kind = .code ∧ joinsWords last.text next.text = true

/-- The characters of code at a seam are those of the texts. -/
theorem joinsWords_of_wordsMeet {first second : Text} (meet : WordsMeet first second) :
    joinsWords first second = true := by
  obtain ⟨last, lastOf, next, nextOf, -, -, joins⟩ := meet
  have whole := (isPartition_scan first).texts
  have wholeNext := (isPartition_scan second).texts
  obtain ⟨before, shape⟩ := List.getLast?_eq_some_iff.1 lastOf
  obtain ⟨others, shapeNext⟩ := List.head?_eq_some_iff.1 nextOf
  have nonempty : last.text ≠ [] := (isPartition_scan first).nonempty last (by simp [shape])
  have nonemptyNext : next.text ≠ [] :=
    (isPartition_scan second).nonempty next (by simp [shapeNext])
  rw [List.append_nil, shape, List.flatMap_append, List.flatMap_singleton] at whole
  rw [List.append_nil, shapeNext, List.flatMap_cons] at wholeNext
  rwa [joinsWords, ← whole, ← wholeNext, List.getLast?_append_of_ne_nil _ nonempty,
    List.head?_append_of_ne_nil _ nonemptyNext]

section Substitution

variable (table : KeywordTable) (direction : Direction)

/-! ### Two texts -/

theorem substituteCode_append {first second : Text} (apart : joinsWords first second = false) :
    substituteCode table direction (first ++ second) =
      substituteCode table direction first ++ substituteCode table direction second :=
  flatMap_wordTokens_append (fun _ _ => rfl) apart

/-- Code in front of lexemes is replaced as it is on its own. -/
theorem textOf_substitute_consCode {text : Text} {list : List Lexeme}
    (apart : joinsWords text (leadingCode list) = false) :
    textOf ((consCode text list).map (Lexeme.substitute table direction)) =
      substituteCode table direction text ++
        textOf (list.map (Lexeme.substitute table direction)) := by
  rcases consCode_cases text list with
    ⟨behind, others, rfl, same⟩ | ⟨-, ⟨rfl, same⟩ | ⟨-, same⟩⟩
  · have seam : substituteCode table direction (text ++ behind) = _ :=
      substituteCode_append table direction apart
    simp [same, Lexeme.substitute, Lexeme.text, seam]
  · simp [same, substituteCode, wordTokens]
  · simp [same, Lexeme.substitute, Lexeme.text]

/-- What stands at the seam between two runs of code stands at the end and at the start
of the two scans. -/
theorem joinsWords_of_not_wordsMeet {first second text : Text} {before : List Lexeme}
    (shape : lexemes first = before ++ [.code text]) (words : ¬WordsMeet first second) :
    joinsWords text (leadingCode (lexemes second)) = false := by
  rw [Bool.eq_false_iff]
  intro joins
  apply words
  match shapeNext : lexemes second with
  | .code behind :: others =>
      rw [shapeNext] at joins
      refine ⟨⟨.code, Text.byteLength (textOf before), text⟩, ?_, ⟨.code, 0, behind⟩, ?_, rfl,
        rfl, joins⟩
      · rw [scan_eq_spansFrom, shape, spansFrom_append, Nat.zero_add]
        exact List.getLast?_concat
      · rw [scan_eq_spansFrom, shapeNext]
        rfl
  | [] | .newline :: _ | .comment _ :: _ | .literal _ :: _ =>
      rw [shapeNext] at joins
      simp [leadingCode, joinsWords] at joins

/-- Two texts are translated one after the other when no quote and no word goes on over
the seam. -/
theorem substitute_append {first second : Text} (code : EndsInCode first)
    (quotes : ¬QuotesMeet first second) (words : ¬WordsMeet first second) :
    substitute table direction (first ++ second) =
      substitute table direction first ++ substitute table direction second := by
  rw [substitute_eq_textOf, substitute_eq_textOf, substitute_eq_textOf]
  rcases lexemes_append code quotes with ⟨before, text, shape, joined⟩ | ⟨-, joined⟩
  · have apart := joinsWords_of_not_wordsMeet shape words
    rw [joined, shape, List.map_append, List.map_append, textOf_append, textOf_append,
      textOf_substitute_consCode table direction apart]
    simp [Lexeme.substitute, Lexeme.text]
  · rw [joined, List.map_append, textOf_append]

/-! ### Lines -/

theorem substitute_textOf {list : List Lexeme} (legible : Legible list) :
    substitute table direction (textOf list) =
      textOf (list.map (Lexeme.substitute table direction)) := by
  rw [substitute_eq_textOf, lexemes_textOf legible]

theorem map_substitute_intercalate (lines : List (List Lexeme)) :
    ([Lexeme.newline].intercalate lines).map (Lexeme.substitute table direction) =
      [Lexeme.newline].intercalate
        (lines.map (List.map (Lexeme.substitute table direction))) := by
  induction lines with
  | nil => rfl
  | cons line lines induction =>
      cases lines with
      | nil => simp
      | cons next lines =>
          simp only [List.map_cons] at induction ⊢
          rw [List.intercalate_cons_cons, List.intercalate_cons_cons, List.map_append,
            List.map_append, induction]
          rfl

/-- A source is translated line by line. -/
theorem substitute_eq_intercalate (source : Text) :
    substitute table direction source = ['\n'].intercalate
      ((logicalLines source).map fun line => substitute table direction line.text) := by
  have legible := legibleLines_lexemeLines source
  have lines : (logicalLines source).map (fun line => substitute table direction line.text) =
      (lexemeLines source).map fun line =>
        textOf (line.map (Lexeme.substitute table direction)) := by
    rw [logicalLines_eq_linesFrom]
    refine map_linesFrom (fun line member offset => ?_) 0
    rw [LogicalLine.text, lineOf, flatMap_text_spansFrom,
      substitute_textOf table direction (legible.forall_mem line member).1]
  rw [lines, substitute_eq_textOf, ← intercalate_lexemeLines, map_substitute_intercalate,
    textOf_intercalate, List.map_map]
  rfl

/-! ### Words -/

variable {word : Text} (single : isSingleWord word = true)

include single

theorem lexemes_word : lexemes word = [.code word] := by
  obtain ⟨nonempty, characters⟩ := isSingleWord_iff.1 single
  have plain : word.all isPlainCode = true := by
    rw [List.all_eq_true] at characters ⊢
    intro character member
    exact isPlainCode_of_isWordCharacter (characters character member)
  have legible : Legible [.code word] := ⟨.code nonempty plain rfl, trivial⟩
  have cut := lexemes_textOf legible
  rwa [textOf_cons, textOf_nil, List.append_nil] at cut

theorem wordTokens_word : wordTokens word = [⟨.word, word⟩] := by
  have reads : wordMunch.Reads ⟨.word, word⟩ [] :=
    reads_wordMunch_iff.2 ⟨Token.isPure_word_iff.2 single, rfl⟩
  have cut := tokens_of_reads reads
  rwa [List.append_nil, tokens_nil] at cut

theorem substitute_word : substitute table direction word = table.replaceWord direction word := by
  rw [substitute_eq_textOf, lexemes_word single]
  simp [Lexeme.substitute, Lexeme.text, substituteCode, wordTokens_word single,
    KeywordTable.replaceToken]

theorem not_quotesMeet_word (before : Text) : ¬QuotesMeet before word := by
  rintro ⟨quote, -, next⟩
  have characters := List.all_eq_true.1 (isSingleWord_iff.1 single).2
  have plain := isPlainCode_of_isWordCharacter (characters _ (List.mem_of_head? next))
  rw [Quote.not_isPlainCode] at plain
  contradiction

theorem not_quotesMeet_word_left (before behind : Text) : ¬QuotesMeet (before ++ word) behind := by
  rintro ⟨quote, last, -⟩
  obtain ⟨nonempty, characters⟩ := isSingleWord_iff.1 single
  rw [List.getLast?_append_of_ne_nil _ nonempty] at last
  have plain := isPlainCode_of_isWordCharacter
    (List.all_eq_true.1 characters _ (List.mem_of_getLast? last))
  rw [Quote.not_isPlainCode] at plain
  contradiction

theorem endsInCode_append_word {before : Text} (code : EndsInCode before) :
    EndsInCode (before ++ word) := by
  rw [endsInCode_iff]
  rcases lexemes_append code (not_quotesMeet_word single before) with
    ⟨front, text, -, joined⟩ | ⟨-, joined⟩
  · rw [joined, lexemes_word single]
    simp [consCode, Lexeme.leavesCode]
  · rw [joined, lexemes_word single]
    simp [Lexeme.leavesCode]

/-- A word that stands alone in code is replaced in the same way everywhere. -/
theorem substitute_append_word {before behind : Text} (code : EndsInCode before)
    (apart : before.getLast?.any isWordCharacter = false)
    (apartBehind : behind.head?.any isWordCharacter = false) :
    substitute table direction (before ++ word ++ behind) =
      substitute table direction before ++ table.replaceWord direction word ++
        substitute table direction behind := by
  have words : ¬WordsMeet before word := by
    intro meet
    have joins := joinsWords_of_wordsMeet meet
    simp [joinsWords, apart] at joins
  have wordsBehind : ¬WordsMeet (before ++ word) behind := by
    intro meet
    have joins := joinsWords_of_wordsMeet meet
    simp [joinsWords, apartBehind] at joins
  rw [substitute_append table direction (endsInCode_append_word single code)
      (not_quotesMeet_word_left single before behind) wordsBehind,
    substitute_append table direction code (not_quotesMeet_word single before) words,
    substitute_word table direction single]

end Substitution

/-- Where the scanner comes out of a text in code and no quote goes on, the scan of what
follows is added to that of the text, with its code joined to code in front; and where no
word goes on either, both are translated on their own.  So a source is translated line by
line, and a word that stands alone in code is replaced in the same way everywhere. -/
theorem scan_substitute_append :
    (∀ first second, EndsInCode first → ¬QuotesMeet first second →
        scan (first ++ second) =
            joinSpans (scan first) ((scan second).map (Span.shift (Text.byteLength first))) ∧
          (¬WordsMeet first second → ∀ table direction,
            substitute table direction (first ++ second) =
              substitute table direction first ++ substitute table direction second)) ∧
      (∀ table direction source,
        substitute table direction source = ['\n'].intercalate
          ((logicalLines source).map fun line => substitute table direction line.text)) ∧
      ∀ table direction before word behind, EndsInCode before → isSingleWord word = true →
        before.getLast?.any isWordCharacter = false → behind.head?.any isWordCharacter = false →
          substitute table direction (before ++ word ++ behind) =
            substitute table direction before ++ table.replaceWord direction word ++
              substitute table direction behind := by
  refine ⟨fun first second code quotes => ⟨scan_append code quotes, fun words table direction =>
    substitute_append table direction code quotes words⟩, substitute_eq_intercalate, ?_⟩
  intro table direction before word behind code single apart apartBehind
  exact substitute_append_word table direction single code apart apartBehind

/-- A condition is cut behind its keyword, which stands behind an empty string. -/
theorem scan_substitute_append_condition :
    EndsInCode "y = '' ถ้า".toList ∧ ¬QuotesMeet "y = '' ถ้า".toList " x:\n".toList ∧
      ¬WordsMeet "y = '' ถ้า".toList " x:\n".toList ∧
        (scan ("y = '' ถ้า".toList ++ " x:\n".toList) =
            joinSpans (scan "y = '' ถ้า".toList) ((scan " x:\n".toList).map (Span.shift 16)) ∧
          substitute .builtin .toStandard ("y = '' ถ้า".toList ++ " x:\n".toList) =
            substitute .builtin .toStandard "y = '' ถ้า".toList ++
              substitute .builtin .toStandard " x:\n".toList) ∧
        substitute .builtin .toStandard ("y = '' ".toList ++ "ถ้า".toList ++ " x:\n".toList) =
          substitute .builtin .toStandard "y = '' ".toList ++
            KeywordTable.builtin.replaceWord .toStandard "ถ้า".toList ++
              substitute .builtin .toStandard " x:\n".toList := by
  have code : EndsInCode "y = '' ถ้า".toList := by decide +kernel
  have quotes : ¬QuotesMeet "y = '' ถ้า".toList " x:\n".toList := by
    rintro ⟨quote, -, next⟩
    revert next
    cases quote <;> decide
  have words : ¬WordsMeet "y = '' ถ้า".toList " x:\n".toList := by
    intro meet
    have joins := joinsWords_of_wordsMeet meet
    revert joins
    decide
  have seam := scan_substitute_append.1 _ _ code quotes
  refine ⟨code, quotes, words, ⟨seam.1, seam.2 words _ _⟩, ?_⟩
  exact scan_substitute_append.2.2 _ _ _ _ _ (by decide +kernel) (by decide +kernel)
    (by decide) (by decide)

end Bilingual
