import Bilingual.Proofs.SubstitutedLexemes
import Mathlib.Data.List.Nodup

/-!
# Substitution and the way back

Replacing keywords in one direction and then in the other gives a source back
exactly when no word of its code is taken for the other language: a word that is
a keyword of the target side must be one of the source side too.  The reason is
that a table is one-to-one (`lookup?_opposite`) and that the second pass finds
the words where the first one left them (`lexemes_substitute`).
-/

namespace Bilingual

@[simp] theorem Direction.opposite_opposite (direction : Direction) :
    direction.opposite.opposite = direction := by
  cases direction <;> rfl

@[simp] theorem KeywordEntry.target_opposite (entry : KeywordEntry) (direction : Direction) :
    entry.target direction.opposite = entry.source direction := by
  rw [target, Direction.opposite_opposite]

namespace KeywordTable

variable {table : KeywordTable} {direction : Direction} {word other : Text}

/-- The word is a keyword of the side that is replaced in a direction. -/
def IsKeyword (table : KeywordTable) (direction : Direction) (word : Text) : Prop :=
  ∃ entry ∈ table.entries, entry.source direction = word

theorem nodup_source (table : KeywordTable) (direction : Direction) :
    (table.entries.map (·.source direction)).Nodup := by
  cases direction with
  | toStandard => exact table.nodup_localized
  | toLocalized => exact table.nodup_standard

theorem lookup?_eq_some_iff :
    table.lookup? word direction = some other ↔
      ∃ entry ∈ table.entries, entry.source direction = word ∧
        entry.target direction = other := by
  unfold lookup?
  constructor
  · intro found
    obtain ⟨entry, first, rfl⟩ := Option.map_eq_some_iff.1 found
    have same := List.find?_some first
    rw [decide_eq_true_eq] at same
    exact ⟨entry, List.mem_of_find?_eq_some first, same, rfl⟩
  · rintro ⟨entry, member, rfl, rfl⟩
    cases first : table.entries.find? (·.source direction = entry.source direction) with
    | none =>
        simpa using List.find?_eq_none.1 first entry member
    | some found =>
        have same := List.find?_some first
        rw [decide_eq_true_eq] at same
        rw [List.inj_on_of_nodup_map (table.nodup_source direction)
          (List.mem_of_find?_eq_some first) member same]
        rfl

/-- The two sides of a table are inverse to each other. -/
theorem lookup?_opposite :
    table.lookup? other direction.opposite = some word ↔
      table.lookup? word direction = some other := by
  simp only [lookup?_eq_some_iff, KeywordEntry.target_opposite]
  constructor <;> rintro ⟨entry, member, rfl, rfl⟩ <;> exact ⟨entry, member, rfl, rfl⟩

theorem isKeyword_iff : table.IsKeyword direction word ↔
    ∃ other, table.lookup? word direction = some other := by
  simp only [lookup?_eq_some_iff, IsKeyword]
  constructor
  · rintro ⟨entry, member, same⟩
    exact ⟨_, entry, member, same, rfl⟩
  · rintro ⟨other, entry, member, same, -⟩
    exact ⟨entry, member, same⟩

/-- A single word survives both replacements unless it is a keyword of the
target side alone. -/
theorem replaceWord_opposite_iff :
    table.replaceWord direction.opposite (table.replaceWord direction word) = word ↔
      (table.IsKeyword direction.opposite word → table.IsKeyword direction word) := by
  simp only [isKeyword_iff]
  cases found : table.lookup? word direction with
  | some other => simp [replaceWord, found, lookup?_opposite.2 found]
  | none =>
      cases back : table.lookup? word direction.opposite with
      | none => simp [replaceWord, found, back]
      | some other =>
          have changed : other ≠ word := by
            rintro rfl
            rw [lookup?_opposite, found] at back
            contradiction
          simp [replaceWord, found, back, changed]

end KeywordTable

theorem map_eq_self_iff {Item : Type} {function : Item → Item} {list : List Item} :
    list.map function = list ↔ ∀ item ∈ list, function item = item := by
  conv_lhs => rhs; rw [← List.map_id list]
  exact List.map_inj_left

variable (table : KeywordTable) (direction : Direction)

theorem substituteCode_opposite_iff (code : Text) :
    substituteCode table direction.opposite (substituteCode table direction code) = code ↔
      ∀ word, ⟨WordTokenKind.word, word⟩ ∈ wordTokens code →
        table.replaceWord direction.opposite (table.replaceWord direction word) = word := by
  have twice : wordTokens (substituteCode table direction.opposite
      (substituteCode table direction code)) = (wordTokens code).map
        (table.replacedToken direction.opposite ∘ table.replacedToken direction) := by
    rw [wordTokens_substituteCode, wordTokens_substituteCode, List.map_map]
  have unchanged : substituteCode table direction.opposite (substituteCode table direction code)
      = code ↔ (wordTokens code).map (table.replacedToken direction.opposite ∘
        table.replacedToken direction) = wordTokens code := by
    rw [← twice]
    constructor
    · intro same
      rw [same]
    · intro same
      have texts := congrArg (List.flatMap Token.text) same
      rwa [wordTokens, wordTokens, flatMap_text_tokens, flatMap_text_tokens] at texts
  rw [unchanged, map_eq_self_iff]
  constructor
  · intro kept word member
    exact congrArg Token.text (kept _ member)
  · rintro kept ⟨kind, text⟩ member
    cases kind with
    | word => exact congrArg (Token.mk _) (kept text member)
    | _ => rfl

/-- Replacing keywords and replacing them back gives a source unchanged exactly
when each word of its code that is a keyword of the target side is one of the
source side too.  Strings, comments and docstrings do not matter. -/
theorem substitute_opposite_eq_self_iff (source : Text) :
    substitute table direction.opposite (substitute table direction source) = source ↔
      ∀ word ∈ codeWords source,
        table.IsKeyword direction.opposite word → table.IsKeyword direction word := by
  have unchanged : substitute table direction.opposite (substitute table direction source)
      = source ↔ ∀ lexeme ∈ lexemes source,
        (lexeme.substitute table direction).substitute table direction.opposite = lexeme := by
    rw [← lexemes_injective.eq_iff, lexemes_substitute, lexemes_substitute, List.map_map,
      map_eq_self_iff]
    rfl
  rw [unchanged]
  constructor
  · intro kept word member
    obtain ⟨code, run, token⟩ := mem_codeWords_iff.1 member
    have same := Lexeme.code.inj (kept _ run)
    exact KeywordTable.replaceWord_opposite_iff.1
      ((substituteCode_opposite_iff table direction code).1 same word token)
  · intro known lexeme member
    cases lexeme with
    | code text =>
        apply congrArg Lexeme.code
        apply (substituteCode_opposite_iff table direction text).2
        intro word token
        exact KeywordTable.replaceWord_opposite_iff.2
          (known word (mem_codeWords_iff.2 ⟨text, member, token⟩))
    | _ => rfl

end Bilingual
