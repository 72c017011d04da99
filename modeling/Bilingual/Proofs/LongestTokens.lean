import Bilingual.Proofs.LineTokenLists
import Bilingual.Proofs.WordTokenLists

/-!
# The longest token

A lexer may be described by the tokens there are: at each place it takes the longest one
with which the text goes on.  Both lexers of code can be described in this way.  The main
statements are `cutsLongest_lineTokens` and `cutsLongest_wordTokens`.
-/

namespace Bilingual

variable {Kind : Type}

/-- A text is cut into tokens of a class, and none of them could be longer at its place. -/
structure CutsLongest (IsToken : Token Kind → Prop) (text : Text) (list : List (Token Kind)) :
    Prop where
  texts : list.flatMap Token.text = text
  nonempty : ∀ token ∈ list, token.text ≠ []
  valid : ∀ token ∈ list, IsToken token
  longest : ∀ before token after, list = before ++ token :: after → ∀ other, IsToken other →
    other.text <+: (token :: after).flatMap Token.text → other.text.length ≤ token.text.length

namespace Munch

/-- The lexer takes at least as much as any token of a class with which a text starts. -/
def TakesLongest (munch : Munch Kind) (IsToken : Token Kind → Prop) : Prop :=
  ∀ character others rest kind, IsToken ⟨kind, character :: others⟩ →
    others.length ≤ (munch character (others ++ rest)).2

variable {munch : Munch Kind} {IsToken : Token Kind → Prop}

theorem Legible.reads {before after : List (Token Kind)} {token : Token Kind}
    (legible : munch.Legible (before ++ token :: after)) :
    munch.Reads token (after.flatMap Token.text) := by
  induction before with
  | nil => exact legible.1
  | cons first before induction => exact induction legible.2

theorem Reads.length_le (longest : munch.TakesLongest IsToken) {token other : Token Kind}
    {rest : Text} (reads : munch.Reads token rest) (valid : IsToken other)
    (starts : other.text <+: token.text ++ rest) : other.text.length ≤ token.text.length := by
  obtain ⟨character, others, shape, found⟩ := reads
  obtain ⟨kind, text⟩ := other
  cases text with
  | nil => exact Nat.zero_le _
  | cons first text =>
      obtain ⟨behind, parts⟩ := starts
      rw [shape, List.cons_append, List.cons_append, List.cons.injEq] at parts
      obtain ⟨rfl, parts⟩ := parts
      have length := longest first text behind kind valid
      rw [parts, found] at length
      rw [shape]
      exact Nat.succ_le_succ length

end Munch

theorem cutsLongest_tokens {munch : Munch Kind} {IsToken : Token Kind → Prop} {text : Text}
    (bounded : munch.Bounded) (longest : munch.TakesLongest IsToken)
    (valid : ∀ token ∈ tokens munch text, IsToken token) :
    CutsLongest IsToken text (tokens munch text) where
  texts := flatMap_text_tokens munch text
  nonempty := text_ne_nil_of_mem_tokens munch text
  valid := valid
  longest := by
    intro before token after shape other validOther starts
    have legible := legible_tokens bounded text
    rw [shape] at legible
    exact legible.reads.length_le longest validOther starts

/-! ### The tokens of the formatter -/

theorem takesLongest_lineMunch : lineMunch.TakesLongest IsLineToken := by
  intro character others rest kind valid
  -- One case for each form of a token; the lexer finds the form by the first character.
  generalize shape : character :: others = text at valid
  cases valid with
  | whiteSpace nonempty blank =>
      subst shape
      rw [List.forall_mem_cons] at blank
      rw [lineMunch_of_blank blank.1]
      exact le_runLength blank.2
  | operator nonempty run =>
      subst shape
      rw [List.forall_mem_cons] at run
      rw [lineMunch_of_operator run.1]
      exact Nat.le_add_right_of_le (le_runLength run.2)
  | @assigningOperator run nonempty operators =>
      obtain ⟨first, run, rfl⟩ := List.exists_cons_of_ne_nil nonempty
      rw [List.cons_append, List.cons.injEq] at shape
      obtain ⟨rfl, rfl⟩ := shape
      rw [List.forall_mem_cons] at operators
      have stops : runLength isOperatorCharacter (run ++ ('=' :: rest)) = run.length :=
        runLength_append_eq_iff.2 ⟨operators.2, rfl⟩
      rw [lineMunch_of_operator operators.1, List.append_assoc, List.singleton_append, stops,
        List.drop_left, equalsSignLength_of_head? rfl, List.length_append]
      exact Nat.le_refl _
  | word nonempty run =>
      subst shape
      rw [List.forall_mem_cons] at run
      rw [lineMunch_of_word run.1]
      exact le_runLength run.2
  | equality =>
      obtain ⟨rfl, rfl⟩ := List.cons.inj shape
      rw [lineMunch_equality rfl]
      exact Nat.le_refl _
  | walrus =>
      obtain ⟨rfl, rfl⟩ := List.cons.inj shape
      rw [lineMunch_walrus rfl]
      exact Nat.le_refl _
  | _ =>
      obtain ⟨rfl, rfl⟩ := List.cons.inj shape
      exact Nat.zero_le _

/-- The formatter's tokens are the longest ones. -/
theorem cutsLongest_lineTokens (code : Text) : CutsLongest IsLineToken code (lineTokens code) :=
  cutsLongest_tokens lineMunch_bounded takesLongest_lineMunch
    fun _ => isLineToken_of_mem_lineTokens

/-! ### The tokens of keyword substitution -/

/-- White space, a punctuation character, or a word. -/
def Token.IsOrdinary (token : Token WordTokenKind) : Prop :=
  token.IsWordToken ∧ token.kind ≠ .stray

theorem takesLongest_wordMunch : wordMunch.TakesLongest Token.IsOrdinary := by
  rintro character others rest kind ⟨⟨⟨-, pure⟩, single⟩, -⟩
  rw [List.forall_mem_cons] at pure
  obtain ⟨rfl, pure⟩ := pure
  simp only [wordMunch]
  cases extends_ : (WordTokenKind.ofChar character).extends with
  | true =>
      rw [if_pos rfl]
      exact le_runLength fun other member => by simpa using pure other member
  | false =>
      obtain rfl : others = [] := by simpa using single extends_
      exact Nat.zero_le _

/-- The tokens of keyword substitution are the longest ones, unless a character stands
astray. -/
theorem cutsLongest_wordTokens {code : Text}
    (ordinary : ∀ token ∈ wordTokens code, token.kind ≠ .stray) :
    CutsLongest Token.IsOrdinary code (wordTokens code) :=
  cutsLongest_tokens wordMunch_bounded takesLongest_wordMunch
    fun token member => ⟨isWordToken_of_mem_wordTokens member, ordinary token member⟩

end Bilingual
