import Bilingual.Proofs.Runs
import Bilingual.Proofs.TokenLists
import Bilingual.WordTokens
import Mathlib.Data.List.Chain

/-!
# Lists of words and separators

This file says which lists of tokens keyword substitution can find in code: the
characters of a token are all of its kind, white space and words are as long as
possible, and everything else stands alone.
-/

namespace Bilingual

/-- All characters of a token are of its kind, and it is not empty. -/
def Token.IsPure (token : Token WordTokenKind) : Prop :=
  token.text ≠ [] ∧ ∀ character ∈ token.text, WordTokenKind.ofChar character = token.kind

theorem wordMunch_bounded : wordMunch.Bounded := by
  intro character rest
  simp only [wordMunch]
  split
  · exact runLength_le _ rest
  · exact Nat.zero_le _

theorem reads_wordMunch_iff {token : Token WordTokenKind} {rest : Text} :
    wordMunch.Reads token rest ↔
      token.IsPure ∧
        (if token.kind.extends then
          rest.head?.all (fun next => !decide (WordTokenKind.ofChar next = token.kind)) = true
        else token.text.length = 1) := by
  obtain ⟨kind, text⟩ := token
  simp only [Munch.Reads, Token.IsPure, wordMunch, Prod.mk.injEq]
  constructor
  · rintro ⟨character, others, rfl, rfl, lengthEq⟩
    cases extends_ : (WordTokenKind.ofChar character).extends with
    | true =>
        rw [extends_, if_pos rfl, runLength_append_eq_iff] at lengthEq
        simp only [decide_eq_true_eq] at lengthEq
        simpa using lengthEq
    | false =>
        rw [extends_, if_neg Bool.false_ne_true] at lengthEq
        obtain rfl := List.eq_nil_of_length_eq_zero lengthEq.symm
        simp
  · rintro ⟨⟨nonempty, pure⟩, whole⟩
    obtain ⟨character, others, rfl⟩ := List.exists_cons_of_ne_nil nonempty
    obtain rfl : WordTokenKind.ofChar character = kind := pure character (by simp)
    refine ⟨character, others, rfl, rfl, ?_⟩
    cases extends_ : (WordTokenKind.ofChar character).extends with
    | true =>
        rw [extends_, if_pos rfl] at whole
        rw [if_pos rfl, runLength_append_eq_iff]
        exact ⟨fun other member => by simpa using pure other (by simp [member]), whole⟩
    | false =>
        rw [extends_, if_neg Bool.false_ne_true, List.length_cons] at whole
        rw [if_neg Bool.false_ne_true]
        omega

/-- A token as the lexer makes them: of one kind, and of one character unless it
is white space or a word. -/
def Token.IsWordToken (token : Token WordTokenKind) : Prop :=
  token.IsPure ∧ (token.kind.extends = false → token.text.length = 1)

/-- Two neighbours are not parts of one longer token. -/
def Token.Separate (first second : Token WordTokenKind) : Prop :=
  first.kind.extends = true → second.kind ≠ first.kind

theorem head?_flatMap_text {list : List (Token WordTokenKind)}
    (pure : ∀ token ∈ list, token.IsPure) :
    (list.flatMap Token.text).head?.map WordTokenKind.ofChar = list.head?.map Token.kind := by
  cases list with
  | nil => rfl
  | cons token others =>
      obtain ⟨nonempty, kinds⟩ := pure token (by simp)
      obtain ⟨character, rest, shape⟩ := List.exists_cons_of_ne_nil nonempty
      have kind := kinds character (by simp [shape])
      simp [shape, kind]

theorem getLast?_flatMap_text {list : List (Token WordTokenKind)}
    (pure : ∀ token ∈ list, token.IsPure) :
    (list.flatMap Token.text).getLast?.map WordTokenKind.ofChar =
      list.getLast?.map Token.kind := by
  rcases List.eq_nil_or_concat' list with rfl | ⟨before, token, rfl⟩
  · rfl
  · obtain ⟨nonempty, kinds⟩ := pure token (by simp)
    rw [List.flatMap_append, List.flatMap_singleton, List.getLast?_append_of_ne_nil _ nonempty,
      List.getLast?_concat, List.getLast?_eq_some_getLast nonempty, Option.map_some,
      Option.map_some, kinds _ (List.getLast_mem nonempty)]

theorem head?_all_ofChar_ne_iff {list : List (Token WordTokenKind)} {kind : WordTokenKind}
    (pure : ∀ token ∈ list, token.IsPure) :
    (list.flatMap Token.text).head?.all
        (fun next => !decide (WordTokenKind.ofChar next = kind)) = true ↔
      ∀ token ∈ list.head?, token.kind ≠ kind := by
  have kinds := head?_flatMap_text pure
  cases first : list.head? <;> cases next : (list.flatMap Token.text).head? <;>
    rw [first, next] at kinds <;> simp_all

/-- The lists of tokens that are the cut of their text. -/
theorem legible_wordMunch_iff {list : List (Token WordTokenKind)} :
    wordMunch.Legible list ↔
      (∀ token ∈ list, token.IsWordToken) ∧ list.IsChain Token.Separate := by
  induction list with
  | nil => simp [Munch.Legible]
  | cons token others induction =>
      rw [Munch.Legible, induction, reads_wordMunch_iff, List.isChain_cons]
      constructor
      · rintro ⟨⟨pure, whole⟩, valid, chain⟩
        refine ⟨?_, ?_, chain⟩
        · intro other member
          rcases List.mem_cons.1 member with rfl | member
          · refine ⟨pure, ?_⟩
            intro single
            rwa [single, if_neg Bool.false_ne_true] at whole
          · exact valid other member
        · intro other member extends_
          rw [extends_, if_pos rfl,
            head?_all_ofChar_ne_iff fun other member => (valid other member).1] at whole
          exact whole other member
      · rintro ⟨valid, separate, chain⟩
        have others' : ∀ other ∈ others, other.IsWordToken := by
          intro other member
          exact valid other (by simp [member])
        obtain ⟨pure, single⟩ := valid token (by simp)
        refine ⟨⟨pure, ?_⟩, others', chain⟩
        cases extends_ : token.kind.extends with
        | true =>
            rw [if_pos rfl, head?_all_ofChar_ne_iff fun other member => (others' other member).1]
            intro other member
            exact separate other member extends_
        | false => exact single extends_

theorem legible_wordTokens (code : Text) : wordMunch.Legible (wordTokens code) :=
  legible_tokens wordMunch_bounded code

theorem isWordToken_of_mem_wordTokens {code : Text} {token : Token WordTokenKind}
    (member : token ∈ wordTokens code) : token.IsWordToken :=
  (legible_wordMunch_iff.1 (legible_wordTokens code)).1 token member

theorem flatMap_text_wordTokens (code : Text) : (wordTokens code).flatMap Token.text = code :=
  flatMap_text_tokens wordMunch code

theorem mem_of_mem_wordTokens {code : Text} {token : Token WordTokenKind}
    (member : token ∈ wordTokens code) {character : Char} (inside : character ∈ token.text) :
    character ∈ code := by
  rw [← flatMap_text_wordTokens code]
  exact List.mem_flatMap.2 ⟨token, member, inside⟩

theorem exists_mem_of_mem_wordTokens {code : Text} {token : Token WordTokenKind}
    (member : token ∈ wordTokens code) :
    ∃ character ∈ code, WordTokenKind.ofChar character = token.kind := by
  obtain ⟨nonempty, pure⟩ := (isWordToken_of_mem_wordTokens member).1
  obtain ⟨character, rest, shape⟩ := List.exists_cons_of_ne_nil nonempty
  have inside : character ∈ token.text := by simp [shape]
  exact ⟨character, mem_of_mem_wordTokens member inside, pure character inside⟩

theorem exists_of_head?_wordTokens {code : Text} {token : Token WordTokenKind}
    (first : token ∈ (wordTokens code).head?) :
    ∃ character ∈ code.head?, WordTokenKind.ofChar character = token.kind := by
  have kinds := head?_flatMap_text fun token (member : token ∈ wordTokens code) =>
    (isWordToken_of_mem_wordTokens member).1
  rw [flatMap_text_wordTokens, first, Option.map_some] at kinds
  exact Option.map_eq_some_iff.1 kinds

theorem exists_of_getLast?_wordTokens {code : Text} {token : Token WordTokenKind}
    (last : token ∈ (wordTokens code).getLast?) :
    ∃ character ∈ code.getLast?, WordTokenKind.ofChar character = token.kind := by
  have kinds := getLast?_flatMap_text fun token (member : token ∈ wordTokens code) =>
    (isWordToken_of_mem_wordTokens member).1
  rw [flatMap_text_wordTokens, last, Option.map_some] at kinds
  exact Option.map_eq_some_iff.1 kinds

end Bilingual
