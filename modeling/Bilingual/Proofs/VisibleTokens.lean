import Bilingual.Proofs.LineTokenLists
import Bilingual.Proofs.WordTokenLists

/-!
# Visible tokens of code

The formatter moves white space about, so what it keeps are the tokens that are
not white space.  Two pieces of code have the visible tokens of both when they
are put together, unless a word would grow over the seam.  By
`wordTokens_eq_flatMap` no token of keyword substitution ever reaches over the seam
between two of the formatter's own tokens.
-/

namespace Bilingual

/-- The tokens of code that are not white space. -/
def visibleTokens (code : Text) : List (Token WordTokenKind) :=
  (wordTokens code).filter (·.kind ≠ .whiteSpace)

/-- A word would reach over the seam between two texts. -/
def joinsWords (first second : Text) : Bool :=
  first.getLast?.any isWordCharacter && second.head?.any isWordCharacter

@[simp] theorem visibleTokens_nil : visibleTokens [] = [] := by
  simp [visibleTokens, wordTokens]

theorem ofChar_eq_whiteSpace_iff {character : Char} :
    WordTokenKind.ofChar character = .whiteSpace ↔ isWhiteSpace character = true := by
  unfold WordTokenKind.ofChar
  split
  · simp_all
  · split
    · simp_all
    · split <;> simp_all

theorem isWordCharacter_of_isWhiteSpace {character : Char}
    (space : isWhiteSpace character = true) : isWordCharacter character = false := by
  simp [isWordCharacter, ofChar_eq_whiteSpace_iff.2 space]

section Blank

variable {blank : Text} (space : ∀ character ∈ blank, isWhiteSpace character = true)

include space

theorem joinsWords_of_blank (text : Text) :
    joinsWords blank text = false ∧ joinsWords text blank = false := by
  have noWord : ∀ character ∈ blank, isWordCharacter character = false := by
    intro character member
    exact isWordCharacter_of_isWhiteSpace (space character member)
  have last : blank.getLast?.any isWordCharacter = false := by
    rw [Option.any_eq_false]
    intro character lastOf
    simp [noWord character (List.mem_of_getLast? lastOf)]
  have first : blank.head?.any isWordCharacter = false := by
    rw [Option.any_eq_false]
    intro character firstOf
    simp [noWord character (List.mem_of_head? firstOf)]
  simp [joinsWords, last, first]

end Blank

/-- A token that is not white space is read in front of any text that no word
joins. -/
theorem reads_of_not_joinsWords {token : Token WordTokenKind} {rest other : Text}
    (reads : wordMunch.Reads token rest) (visible : token.kind ≠ .whiteSpace)
    (apart : joinsWords token.text other = false) : wordMunch.Reads token other := by
  obtain ⟨pure, whole⟩ := reads_wordMunch_iff.1 reads
  refine reads_wordMunch_iff.2 ⟨pure, ?_⟩
  split
  · next extends_ =>
      have word : token.kind = .word := by
        obtain ⟨kind, text⟩ := token
        cases kind <;> simp_all [WordTokenKind.extends]
      have last : token.text.getLast?.any isWordCharacter = true := by
        rw [List.getLast?_eq_some_getLast pure.1, Option.any_some, isWordCharacter,
          pure.2 _ (List.getLast_mem pure.1), word]
        rfl
      rw [joinsWords, last, Bool.true_and] at apart
      cases head : other.head? <;> simp_all [isWordCharacter]
  · next single => rwa [if_neg single] at whole

/-- White space is one token. -/
theorem wordTokens_run {run rest : Text} (nonempty : run ≠ [])
    (space : ∀ character ∈ run, isWhiteSpace character = true)
    (stops : rest.head?.all (!isWhiteSpace ·) = true) :
    wordTokens (run ++ rest) = ⟨.whiteSpace, run⟩ :: wordTokens rest := by
  have reads : wordMunch.Reads ⟨.whiteSpace, run⟩ rest := by
    refine reads_wordMunch_iff.2 ⟨⟨nonempty, ?_⟩, ?_⟩
    · intro character member
      exact ofChar_eq_whiteSpace_iff.2 (space character member)
    · cases head : rest.head? <;> simp_all [WordTokenKind.extends, ofChar_eq_whiteSpace_iff]
  exact tokens_of_reads reads

/-- Code is cut from what stands behind it, unless a word or white space reaches over the
seam. -/
theorem wordTokens_append {first second : Text} (apart : joinsWords first second = false)
    (ended : ∀ character ∈ first.getLast?, isWhiteSpace character = true →
      second.head?.all (!isWhiteSpace ·) = true) :
    wordTokens (first ++ second) = wordTokens first ++ wordTokens second := by
  obtain ⟨validFirst, chainFirst⟩ := legible_wordMunch_iff.1 (legible_wordTokens first)
  obtain ⟨validSecond, chainSecond⟩ := legible_wordMunch_iff.1 (legible_wordTokens second)
  have legible : wordMunch.Legible (wordTokens first ++ wordTokens second) := by
    refine legible_wordMunch_iff.2
      ⟨List.forall_mem_append.2 ⟨validFirst, validSecond⟩,
        List.isChain_append.2 ⟨chainFirst, chainSecond, ?_⟩⟩
    intro token last other next extends_ same
    obtain ⟨character, ends, kind⟩ := exists_of_getLast?_wordTokens last
    obtain ⟨following, starts, kindNext⟩ := exists_of_head?_wordTokens next
    have ends : first.getLast? = some character := ends
    have starts : second.head? = some following := starts
    rw [same] at kindNext
    cases shape : token.kind with
    | whiteSpace =>
        have stops := ended character ends (ofChar_eq_whiteSpace_iff.1 (kind.trans shape))
        simp [starts, ofChar_eq_whiteSpace_iff.1 (kindNext.trans shape)] at stops
    | word => simp [joinsWords, ends, starts, isWordCharacter, kind, kindNext, shape] at apart
    | punctuation => simp [shape, WordTokenKind.extends] at extends_
    | stray => simp [shape, WordTokenKind.extends] at extends_
  have cut := tokens_flatMap_text legible
  rwa [List.flatMap_append, flatMap_text_wordTokens, flatMap_text_wordTokens] at cut

/-! ### What is collected from tokens -/

section Collected

variable {Value : Type} {collect : Token WordTokenKind → List Value}
  (additive : ∀ first second, collect ⟨.whiteSpace, first ++ second⟩ =
    collect ⟨.whiteSpace, first⟩ ++ collect ⟨.whiteSpace, second⟩)

include additive

theorem flatMap_wordTokens_run {run rest : Text}
    (space : ∀ character ∈ run, isWhiteSpace character = true)
    (stops : rest.head?.all (!isWhiteSpace ·) = true) :
    (wordTokens (run ++ rest)).flatMap collect =
      collect ⟨.whiteSpace, run⟩ ++ (wordTokens rest).flatMap collect := by
  by_cases empty : run = []
  · have none : collect ⟨.whiteSpace, []⟩ = [] := by
      simpa using additive [] []
    rw [empty, none]
    rfl
  · rw [wordTokens_run empty space stops, List.flatMap_cons]

theorem flatMap_wordTokens_blank_append {blank : Text}
    (space : ∀ character ∈ blank, isWhiteSpace character = true) (code : Text) :
    (wordTokens (blank ++ code)).flatMap collect =
      collect ⟨.whiteSpace, blank⟩ ++ (wordTokens code).flatMap collect := by
  obtain ⟨run, rest, parts, spaceRun, stops⟩ : ∃ run rest, run ++ rest = code ∧
      (∀ character ∈ run, isWhiteSpace character = true) ∧
        rest.head?.all (!isWhiteSpace ·) = true :=
    ⟨_, _, List.takeWhile_append_dropWhile, fun _ => List.mem_takeWhile_imp,
      head?_dropWhile_all_not isWhiteSpace code⟩
  have spaceBoth : ∀ character ∈ blank ++ run, isWhiteSpace character = true := by
    intro character member
    exact (List.mem_append.1 member).elim (space character) (spaceRun character)
  rw [← parts, ← List.append_assoc, flatMap_wordTokens_run additive spaceBoth stops, additive,
    flatMap_wordTokens_run additive spaceRun stops, List.append_assoc]

/-- What is collected from the tokens of code that is put together is what is collected
from both parts, when no word reaches over the seam. -/
theorem flatMap_wordTokens_append {first second : Text}
    (apart : joinsWords first second = false) :
    (wordTokens (first ++ second)).flatMap collect =
      (wordTokens first).flatMap collect ++ (wordTokens second).flatMap collect := by
  have legible := legible_wordTokens first
  have whole : (wordTokens first).flatMap Token.text = first :=
    flatMap_text_tokens wordMunch first
  generalize wordTokens first = list at legible whole
  subst whole
  induction list with
  | nil => rfl
  | cons token others induction =>
      obtain ⟨pure, -⟩ := reads_wordMunch_iff.1 legible.1
      rw [List.flatMap_cons] at apart ⊢
      have rest : joinsWords (others.flatMap Token.text) second = false := by
        by_cases empty : others.flatMap Token.text = []
        · rw [empty]
          rfl
        · rwa [joinsWords, List.getLast?_append_of_ne_nil _ empty] at apart
      rw [List.append_assoc, List.flatMap_cons, List.append_assoc, ← induction legible.2 rest]
      by_cases blank : token.kind = .whiteSpace
      · obtain ⟨kind, text⟩ := token
        obtain rfl : kind = .whiteSpace := blank
        apply flatMap_wordTokens_blank_append additive
        intro character member
        rw [← ofChar_eq_whiteSpace_iff, pure.2 character member]
      · have reads : wordMunch.Reads token (others.flatMap Token.text ++ second) := by
          cases empty : others.flatMap Token.text with
          | nil =>
              rw [empty, List.append_nil] at apart
              exact reads_of_not_joinsWords legible.1 blank apart
          | cons character text =>
              have same := (reads_wordMunch_iff.1 legible.1).2
              rw [empty] at same
              exact reads_wordMunch_iff.2 ⟨pure, same⟩
        have cut : wordTokens (token.text ++ (others.flatMap Token.text ++ second)) =
            token :: wordTokens (others.flatMap Token.text ++ second) := tokens_of_reads reads
        rw [cut, List.flatMap_cons]

end Collected

/-! ### Visible tokens -/

/-- A token that is visible, and nothing of white space. -/
def Token.visible (token : Token WordTokenKind) : List (Token WordTokenKind) :=
  if token.kind = .whiteSpace then [] else [token]

theorem visibleTokens_eq_flatMap_visible (code : Text) :
    visibleTokens code = (wordTokens code).flatMap Token.visible := by
  rw [visibleTokens]
  induction wordTokens code with
  | nil => rfl
  | cons token others induction =>
      rw [List.filter_cons, induction, List.flatMap_cons, Token.visible]
      by_cases blank : token.kind = .whiteSpace <;> simp [blank]

/-- Code that is put together has the visible tokens of both parts. -/
theorem visibleTokens_append {first second : Text} (apart : joinsWords first second = false) :
    visibleTokens (first ++ second) = visibleTokens first ++ visibleTokens second := by
  simp only [visibleTokens_eq_flatMap_visible]
  exact flatMap_wordTokens_append (fun _ _ => rfl) apart

theorem visibleTokens_blank {blank : Text}
    (space : ∀ character ∈ blank, isWhiteSpace character = true) : visibleTokens blank = [] := by
  have tokens := @flatMap_wordTokens_blank_append _ Token.visible (fun _ _ => rfl) blank space []
  rwa [List.append_nil, ← visibleTokens_eq_flatMap_visible, ← visibleTokens_eq_flatMap_visible,
    visibleTokens_nil] at tokens

/-! ### The tokens of the formatter -/

theorem isLineWordCharacter_of_isWordCharacter {character : Char}
    (word : isWordCharacter character = true) : isLineWordCharacter character = true := by
  have kind : WordTokenKind.ofChar character = .word := by
    simpa [isWordCharacter] using word
  have visible : isWhiteSpace character = false := by
    rw [Bool.eq_false_iff]
    intro blank
    rw [ofChar_eq_whiteSpace_iff.2 blank] at kind
    contradiction
  have noPunctuation : character ∉ punctuationCharacters := by
    intro member
    simp [WordTokenKind.ofChar, visible, member] at kind
  simp only [punctuationCharacters, List.mem_cons, List.not_mem_nil, or_false,
    not_or] at noPunctuation
  simp [isLineWordCharacter_iff, visible, isOperatorCharacter, operatorCharacters, noPunctuation]

/-- Only the formatter's words have characters that can stand in them. -/
theorem IsLineToken.kind_eq_word_of_mem {token : Token LineTokenKind} (valid : IsLineToken token)
    {character : Char} (member : character ∈ token.text)
    (word : isLineWordCharacter character = true) : token.kind = .word := by
  obtain ⟨visible, noOperator, others⟩ := isLineWordCharacter_iff.1 word
  cases valid with
  | word => rfl
  | whiteSpace nonempty blank =>
      rw [blank character member] at visible
      contradiction
  | operator nonempty run =>
      rw [run character member] at noOperator
      contradiction
  | assigningOperator nonempty run =>
      rcases List.mem_append.1 member with inside | sign
      · rw [run character inside] at noOperator
        contradiction
      · obtain rfl := List.mem_singleton.1 sign
        contradiction
  | _ => simp_all

/-- Only the formatter's words have word characters. -/
theorem IsLineToken.kind_eq_word {token : Token LineTokenKind} (valid : IsLineToken token)
    {character : Char} (member : character ∈ token.text)
    (word : isWordCharacter character = true) : token.kind = .word :=
  valid.kind_eq_word_of_mem member (isLineWordCharacter_of_isWordCharacter word)

/-- No word reaches over the seam behind a token of the formatter. -/
theorem joinsWords_of_reads {token : Token LineTokenKind} {rest : Text}
    (reads : lineMunch.Reads token rest) : joinsWords token.text rest = false := by
  obtain ⟨valid, next⟩ := reads_lineMunch_iff.1 reads
  rw [Bool.eq_false_iff]
  intro joins
  obtain ⟨last, first⟩ := Bool.and_eq_true_iff.1 joins
  obtain ⟨character, ends, word⟩ := (Option.any_eq_true _ _).1 last
  rw [Token.canPrecede, valid.kind_eq_word (List.mem_of_getLast? ends) word] at next
  cases head : rest.head? with
  | none => simp [head] at first
  | some character =>
      rw [head] at first next
      simp [isLineWordCharacter_of_isWordCharacter first] at next

theorem visibleTokens_append_blank {blank : Text}
    (space : ∀ character ∈ blank, isWhiteSpace character = true) (code : Text) :
    visibleTokens (code ++ blank) = visibleTokens code := by
  rw [visibleTokens_append (joinsWords_of_blank space code).2, visibleTokens_blank space,
    List.append_nil]

theorem IsLineToken.visible_of_mem {token : Token LineTokenKind} (valid : IsLineToken token)
    (visible : token.kind ≠ .whiteSpace) :
    ∀ character ∈ token.text, isWhiteSpace character = false := by
  intro character member
  cases valid with
  | whiteSpace => contradiction
  | word nonempty run => exact (isLineWordCharacter_iff.1 (run _ member)).1
  | operator nonempty run => exact (isOperatorCharacter_cases (run _ member)).1
  | assigningOperator nonempty run =>
      rcases List.mem_append.1 member with inside | sign
      · exact (isOperatorCharacter_cases (run _ inside)).1
      · rw [List.mem_singleton.1 sign]
        decide
  | _ =>
      simp only [List.mem_cons, List.not_mem_nil, or_false, or_self] at member
      rcases member with rfl | rfl <;> decide

theorem IsLineToken.kind_ne_whiteSpace {token : Token LineTokenKind} (valid : IsLineToken token)
    (visible : token.kind ≠ .whiteSpace) :
    ∀ other ∈ wordTokens token.text, other.kind ≠ .whiteSpace := by
  intro other member space
  obtain ⟨character, inside, kind⟩ := exists_mem_of_mem_wordTokens member
  have shown := valid.visible_of_mem visible character inside
  rw [ofChar_eq_whiteSpace_iff.1 (kind.trans space)] at shown
  contradiction

/-- No token of keyword substitution reaches over the seam behind a token of the
formatter. -/
theorem wordTokens_append_of_reads {token : Token LineTokenKind} {rest : Text}
    (reads : lineMunch.Reads token rest) :
    wordTokens (token.text ++ rest) = wordTokens token.text ++ wordTokens rest := by
  obtain ⟨valid, next⟩ := reads_lineMunch_iff.1 reads
  refine wordTokens_append (joinsWords_of_reads reads) fun character last space => ?_
  have kind : token.kind = .whiteSpace := by
    by_contra visible
    rw [valid.visible_of_mem visible character (List.mem_of_getLast? last)] at space
    contradiction
  rwa [Token.canPrecede, kind] at next

/-- The tokens of keyword substitution cut each token of the formatter further. -/
theorem wordTokens_eq_flatMap (code : Text) :
    wordTokens code = (lineTokens code).flatMap fun token => wordTokens token.text := by
  have legible := legible_lineTokens code
  have whole : (lineTokens code).flatMap Token.text = code := flatMap_text_tokens lineMunch code
  conv_lhs => rw [← whole]
  generalize lineTokens code = list at legible
  induction list with
  | nil => simp [wordTokens]
  | cons token others induction =>
      rw [List.flatMap_cons, List.flatMap_cons, wordTokens_append_of_reads legible.1,
        induction legible.2]

/-- The formatter's tokens have the visible tokens of the whole code. -/
theorem visibleTokens_eq_flatMap (code : Text) :
    visibleTokens code = (lineTokens code).flatMap fun token => visibleTokens token.text := by
  rw [visibleTokens, wordTokens_eq_flatMap, List.filter_flatMap]
  rfl

end Bilingual
