import Bilingual.Text

/-!
# Lexers that take the longest token

A lexer of this library is given by one function: for a first character and the
text behind it, the kind of the token that starts there and how many further
characters belong to it.  Tokens are therefore never empty, and together they
are the whole text, whatever the function says.
-/

namespace Bilingual

/-- A piece of text of one kind. -/
structure Token (Kind : Type) where
  kind : Kind
  text : Text
  deriving DecidableEq, Repr

/-- The kind of the token that starts with a character, and how many characters
of the text behind it belong to the token. -/
abbrev Munch (Kind : Type) := Char → Text → Kind × Nat

variable {Kind : Type}

/-- Cuts a text into tokens. -/
def tokens (munch : Munch Kind) : Text → List (Token Kind)
  | [] => []
  | character :: rest =>
      let found := munch character rest
      ⟨found.1, character :: rest.take found.2⟩ :: tokens munch (rest.drop found.2)
termination_by text => text.length
decreasing_by simp only [List.length_drop, List.length_cons]; omega

@[simp] theorem tokens_nil (munch : Munch Kind) : tokens munch [] = [] := by
  simp [tokens]

theorem tokens_cons (munch : Munch Kind) (character : Char) (rest : Text) :
    tokens munch (character :: rest) =
      ⟨(munch character rest).1, character :: rest.take (munch character rest).2⟩ ::
        tokens munch (rest.drop (munch character rest).2) := by
  rw [tokens]

/-- Tokens are the whole text. -/
theorem flatMap_text_tokens (munch : Munch Kind) (text : Text) :
    (tokens munch text).flatMap Token.text = text := by
  fun_induction tokens munch text with
  | case1 => rfl
  | case2 character rest found induction =>
      simp only [List.flatMap_cons, induction, List.cons_append, List.take_append_drop]

/-- No token is empty. -/
theorem text_ne_nil_of_mem_tokens (munch : Munch Kind) (text : Text) :
    ∀ token ∈ tokens munch text, token.text ≠ [] := by
  fun_induction tokens munch text with
  | case1 => simp
  | case2 character rest found induction =>
      intro token member
      rcases List.mem_cons.1 member with rfl | member
      · simp
      · exact induction token member

/-- Pairs each token with the byte position at which it starts, when the first
one starts at `start`. -/
def locatedFrom (start : Nat) : List (Token Kind) → List (Nat × Token Kind)
  | [] => []
  | token :: others =>
      (start, token) :: locatedFrom (start + Text.byteLength token.text) others

/-- The length of the run of characters with a property at the start of a text. -/
def runLength (property : Char → Bool) (text : Text) : Nat :=
  (text.takeWhile property).length

/-- A run reaches the end of a text when all characters have the property. -/
theorem length_le_runLength_iff {property : Char → Bool} {text : Text} :
    text.length ≤ runLength property text ↔ text.all property = true := by
  induction text with
  | nil => simp [runLength]
  | cons character rest induction =>
      unfold runLength at induction ⊢
      cases holds : property character <;>
        simp [holds, induction]

end Bilingual
