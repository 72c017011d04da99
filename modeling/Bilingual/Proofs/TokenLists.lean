import Bilingual.MaximalMunch

/-!
# Texts as lists of tokens

A list of tokens is what a lexer makes of its text exactly when each token is
read back at its place.  This holds for every lexer of the library, whatever its
tokens are; the main statements are `tokens_flatMap_text` and `legible_tokens`.
-/

namespace Bilingual

variable {Kind : Type}

namespace Munch

/-- The lexer reads a token in front of a text. -/
def Reads (munch : Munch Kind) (token : Token Kind) (rest : Text) : Prop :=
  ∃ character others, token.text = character :: others ∧
    munch character (others ++ rest) = (token.kind, others.length)

/-- The lexer takes no more characters than there are. -/
def Bounded (munch : Munch Kind) : Prop :=
  ∀ character rest, (munch character rest).2 ≤ rest.length

/-- Each token is the one that is read at its place. -/
def Legible (munch : Munch Kind) : List (Token Kind) → Prop
  | [] => True
  | token :: others =>
      Reads munch token (others.flatMap Token.text) ∧ Legible munch others

end Munch

theorem tokens_of_reads {munch : Munch Kind} {token : Token Kind} {rest : Text}
    (reads : munch.Reads token rest) :
    tokens munch (token.text ++ rest) = token :: tokens munch rest := by
  obtain ⟨character, others, shape, found⟩ := reads
  rw [shape, List.cons_append, tokens_cons, found]
  simp [← shape]

/-- Tokens that are read at their places are the cut of their text. -/
theorem tokens_flatMap_text {munch : Munch Kind} {list : List (Token Kind)}
    (legible : munch.Legible list) : tokens munch (list.flatMap Token.text) = list := by
  induction list with
  | nil => simp
  | cons token others induction =>
      rw [List.flatMap_cons, tokens_of_reads legible.1, induction legible.2]

theorem legible_tokens {munch : Munch Kind} (bounded : munch.Bounded) (text : Text) :
    munch.Legible (tokens munch text) := by
  fun_induction tokens munch text with
  | case1 => trivial
  | case2 character rest found induction =>
      refine ⟨⟨character, rest.take found.2, rfl, ?_⟩, induction⟩
      have short : found.2 ≤ rest.length := bounded character rest
      rw [flatMap_text_tokens, List.take_append_drop, List.length_take, Nat.min_eq_left short]

end Bilingual
