import Bilingual.Proofs.KeywordRows
import Bilingual.Proofs.SubstitutedSeams

/-!
# Words that can be replaced

A table takes those words, and only those, that stand as a whole word in the code of some
source.  So a row of a table works on its own words, and a word that is refused would
never have been looked up.  To say what substitution looks up it is read as a rewriting of
words by a dictionary that may have a meaning for any text, which a table has not.  The
main statement is `isSingleWord_iff_exists_mem_codeWords`.
-/

namespace Bilingual

/-! ### Dictionaries -/

/-- A word as a dictionary has it, or the word itself if the dictionary does not. -/
def rewriteToken (dictionary : Text → Option Text) (token : Token WordTokenKind) : Text :=
  if token.kind = .word then (dictionary token.text).getD token.text else token.text

/-- Rewrites the words in the code of a source by a dictionary. -/
def rewriteWords (dictionary : Text → Option Text) (source : Text) : Text :=
  (scan source).flatMap fun span =>
    if span.kind = .code then (wordTokens span.text).flatMap (rewriteToken dictionary)
    else span.text

theorem substitute_eq_rewriteWords (table : KeywordTable) (direction : Direction)
    (source : Text) :
    substitute table direction source = rewriteWords (table.lookup? · direction) source :=
  rfl

/-- No word but those in the code of the source is looked up. -/
theorem rewriteWords_congr {first second : Text → Option Text} {source : Text}
    (same : ∀ word ∈ codeWords source, first word = second word) :
    rewriteWords first source = rewriteWords second source := by
  refine List.flatMap_congr fun span member => ?_
  by_cases code : span.kind = .code
  · rw [if_pos code, if_pos code]
    refine List.flatMap_congr fun token read => ?_
    by_cases word : token.kind = .word
    · have known : token.text ∈ codeWords source := by
        refine List.mem_flatMap.2 ⟨span.text, List.mem_map.2 ⟨span, ?_, rfl⟩, ?_⟩
        · exact List.mem_filter.2 ⟨member, by simpa using code⟩
        · exact List.mem_map.2 ⟨token, List.mem_filter.2 ⟨read, by simpa using word⟩, rfl⟩
      rw [rewriteToken, rewriteToken, same _ known]
    · rw [rewriteToken, rewriteToken, if_neg word, if_neg word]
  · rw [if_neg code, if_neg code]

/-! ### Single words -/

theorem isSingleWord_of_mem_codeWords {source word : Text} (member : word ∈ codeWords source) :
    isSingleWord word = true := by
  obtain ⟨code, -, read⟩ := mem_codeWords_iff.1 member
  exact Token.isPure_word_iff.1 (isWordToken_of_mem_wordTokens read).1

/-- A single word is a word of the source that consists of it. -/
theorem mem_codeWords_self {word : Text} (single : isSingleWord word = true) :
    word ∈ codeWords word := by
  have run : Lexeme.code word ∈ lexemes word := by simp [lexemes_word single]
  have read : ⟨WordTokenKind.word, word⟩ ∈ wordTokens word := by simp [wordTokens_word single]
  exact mem_codeWords_iff.2 ⟨word, run, read⟩

theorem isSingleWord_iff_mem_codeWords {word : Text} :
    isSingleWord word = true ↔ ∃ source, word ∈ codeWords source :=
  ⟨fun single => ⟨word, mem_codeWords_self single⟩,
    fun ⟨_, member⟩ => isSingleWord_of_mem_codeWords member⟩

namespace KeywordTable

/-- A keyword alone is replaced by its counterpart. -/
theorem substitute_source (table : KeywordTable) (direction : Direction) {entry : KeywordEntry}
    (member : entry ∈ table.entries) :
    substitute table direction (entry.source direction) = entry.target direction := by
  have found : table.lookup? (entry.source direction) direction = some (entry.target direction) :=
    lookup?_eq_some_iff.2 ⟨entry, member, rfl, rfl⟩
  rw [substitute_word table direction (table.isSingleWord_source direction member), replaceWord,
    found, Option.getD_some]

/-- A word for which a row is refused is not a single word. -/
theorem isSingleWord_of_notAWord {rows : List KeywordEntry} {word : Text}
    (refused : ofEntries rows = .error (.notAWord word)) : isSingleWord word = false := by
  obtain ⟨before, row, -, -, -, fault⟩ := ofEntries_eq_error_iff.1 refused
  have member := List.mem_of_head? fault
  simp only [rowFaults, List.mem_filterMap, List.mem_cons, List.not_mem_nil, or_false] at member
  obtain ⟨⟨reason, applies⟩, kind, same⟩ := member
  split at same
  · next holds =>
      obtain rfl : reason = .notAWord word := Option.some.inj same
      rcases kind with kind | kind | kind | kind <;> simp_all
  · contradiction

end KeywordTable

open KeywordTable in
/-- A text is a single word exactly when it stands as a whole word in the code of some
source.  Each row of a table is carried out on its own words, and a word for which a row is
refused is never looked up, in no source and in no direction. -/
theorem isSingleWord_iff_exists_mem_codeWords :
    (∀ word, isSingleWord word = true ↔ ∃ source, word ∈ codeWords source) ∧
    (∀ rows table, ofEntries rows = .ok table → ∀ row ∈ rows,
      toStandard table row.localized = row.standard ∧
        toLocalized table row.standard = row.localized) ∧
    (∀ table direction source,
      substitute table direction source = rewriteWords (table.lookup? · direction) source) ∧
    ∀ rows word, ofEntries rows = .error (.notAWord word) → ∀ source,
      word ∉ codeWords source ∧
        ∀ first second : Text → Option Text, (∀ other, other ≠ word → first other = second other) →
          rewriteWords first source = rewriteWords second source := by
  refine ⟨fun word => isSingleWord_iff_mem_codeWords, ?_, substitute_eq_rewriteWords, ?_⟩
  · intro rows table built row member
    rw [← entries_of_ofEntries built] at member
    exact ⟨table.substitute_source .toStandard member, table.substitute_source .toLocalized member⟩
  · intro rows word refused source
    have absent : word ∉ codeWords source := by
      intro member
      have single := isSingleWord_of_mem_codeWords member
      rw [isSingleWord_of_notAWord refused] at single
      contradiction
    refine ⟨absent, fun first second same => rewriteWords_congr fun other member => same other ?_⟩
    rintro rfl
    exact absent member

open KeywordTable in
theorem isSingleWord_iff_exists_mem_codeWords_phrase :
    let row : KeywordEntry := ⟨"หาก".toList, "if".toList⟩
    let phrase : KeywordEntry := ⟨"แต่ละ".toList, "for each".toList⟩
    ∃ table, ofEntries [row] = .ok table ∧ toStandard table row.localized = row.standard ∧
      toLocalized table row.standard = row.localized ∧
      ofEntries [row, phrase] = .error (.notAWord phrase.standard) ∧
      phrase.standard ∉ codeWords "for each = 1".toList := by
  intro row phrase
  have oneToOne : IsOneToOne [row] := by decide +kernel
  obtain ⟨table, built⟩ := exists_ofEntries_iff.2 oneToOne
  have refused : ofEntries [row, phrase] = .error (.notAWord phrase.standard) :=
    ofEntries_eq_error_iff.2 ⟨[row], phrase, [], rfl, oneToOne, by decide +kernel⟩
  obtain ⟨-, carriedOut, -, absent⟩ := isSingleWord_iff_exists_mem_codeWords
  obtain ⟨standard, localized⟩ := carriedOut [row] table built row (by simp)
  exact ⟨table, built, standard, localized, refused, (absent [row, phrase] _ refused _).1⟩

end Bilingual
