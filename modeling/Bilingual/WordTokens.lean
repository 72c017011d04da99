import Bilingual.MaximalMunch

/-!
# Words in code

Keyword substitution sees code as white space, single punctuation characters
and words.  Everything that is neither white space nor punctuation belongs to a
word, except the characters that open literals and comments: those never occur
in a code span, and each of them stands alone here.

The main statement is `isSingleWord_iff`: a text is a single word exactly when
it is not empty and all its characters are word characters.
-/

namespace Bilingual

/-- The kinds of pieces that code is made of. -/
inductive WordTokenKind
  | whiteSpace
  | punctuation
  | word
  | stray
  deriving DecidableEq, Repr

/-- The characters that are tokens of their own between words. -/
def punctuationCharacters : Text :=
  ['(', ')', '[', ']', '{', '}', ':', ',', ';', '=', '+', '-', '*', '/', '%',
    '<', '>', '!', '&', '|', '^', '~', '@']

/-- The kind of the tokens in which a character occurs. -/
def WordTokenKind.ofChar (character : Char) : WordTokenKind :=
  if isWhiteSpace character then .whiteSpace
  else if punctuationCharacters.contains character then .punctuation
  else if character = '#' || character = '\x27' || character = '\x22' then .stray
  else .word

/-- Neighbouring characters of these kinds form one token. -/
def WordTokenKind.extends : WordTokenKind → Bool
  | .whiteSpace | .word => true
  | .punctuation | .stray => false

/-- White space and words extend as far as possible. -/
def wordMunch : Munch WordTokenKind := fun character rest =>
  let kind := WordTokenKind.ofChar character
  (kind, if kind.extends then runLength (WordTokenKind.ofChar · = kind) rest else 0)

/-- Cuts code into white space, punctuation and words. -/
def wordTokens (code : Text) : List (Token WordTokenKind) :=
  tokens wordMunch code

/-- The character can be part of a word. -/
def isWordCharacter (character : Char) : Bool :=
  WordTokenKind.ofChar character = .word

/-- The text is one word and nothing else. -/
def isSingleWord (text : Text) : Bool :=
  match wordTokens text with
  | [token] => token.kind = .word
  | _ => false

theorem tokens_eq_singleton_iff {Kind : Type} {munch : Munch Kind} {text : Text}
    {token : Token Kind} :
    tokens munch text = [token] ↔
      ∃ character rest, text = character :: rest ∧ token.text = text ∧
        token.kind = (munch character rest).1 ∧ rest.length ≤ (munch character rest).2 := by
  cases text with
  | nil => simp
  | cons character rest =>
      rw [tokens_cons]
      constructor
      · intro same
        obtain ⟨first, others⟩ := List.cons.inj same
        have dropped : rest.drop (munch character rest).2 = [] := by
          have whole := flatMap_text_tokens munch (rest.drop (munch character rest).2)
          rw [others] at whole
          exact whole.symm
        rw [List.drop_eq_nil_iff] at dropped
        refine ⟨character, rest, rfl, ?_, ?_, dropped⟩
        · rw [← first, List.take_of_length_le dropped]
        · rw [← first]
      · rintro ⟨_, _, parts, text, kind, long⟩
        obtain ⟨rfl, rfl⟩ := List.cons.inj parts
        rw [List.take_of_length_le long, List.drop_of_length_le long, tokens_nil,
          ← text, ← kind]

theorem isSingleWord_iff {text : Text} :
    isSingleWord text = true ↔ text ≠ [] ∧ text.all isWordCharacter = true := by
  have single : isSingleWord text = true ↔
      ∃ token, wordTokens text = [token] ∧ token.kind = .word := by
    unfold isSingleWord
    split
    · next token same => simp [same]
    · next others =>
        simp only [Bool.false_eq_true, false_iff, not_exists, not_and]
        intro token same
        exact absurd same (others token)
  rw [single]
  cases text with
  | nil => simp [wordTokens]
  | cons character rest =>
      simp only [wordTokens, tokens_eq_singleton_iff, ne_eq, reduceCtorEq,
        not_false_eq_true, true_and, List.all_cons, Bool.and_eq_true]
      constructor
      · rintro ⟨token, ⟨_, _, parts, -, kind, long⟩, word⟩
        obtain ⟨rfl, rfl⟩ := List.cons.inj parts
        have wordKind : WordTokenKind.ofChar character = .word := by
          rw [← word, kind]; rfl
        simp only [wordMunch, wordKind, WordTokenKind.extends, if_true,
          length_le_runLength_iff] at long
        exact ⟨by simp [isWordCharacter, wordKind], long⟩
      · rintro ⟨first, others⟩
        have wordKind : WordTokenKind.ofChar character = .word := by
          simpa [isWordCharacter] using first
        refine ⟨⟨.word, character :: rest⟩, ⟨character, rest, rfl, rfl, ?_, ?_⟩, rfl⟩
        · simp [wordMunch, wordKind]
        · simp only [wordMunch, wordKind, WordTokenKind.extends, if_true,
            length_le_runLength_iff]
          exact others

end Bilingual
