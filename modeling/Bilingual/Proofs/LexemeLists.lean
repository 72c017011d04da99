import Bilingual.Proofs.Lexemes

/-!
# Texts as lists of lexemes

This file cuts a whole text into its lexemes.  The main statements are
`legible_lexemes` and `lexemes_textOf`: a list of lexemes is the cut of its own
text exactly when each lexeme is read back at its place.  An edit of a text can
therefore be described as an edit of its lexemes, as long as no seam between two
of them changes how they are read.
-/

namespace Bilingual

theorem Reads.length_lt {source rest : Text} {lexeme : Lexeme}
    (reads : Reads source lexeme rest) : rest.length < source.length := by
  have nonempty := List.length_pos_iff.2 reads.text_ne_nil
  rw [← reads.parts, List.length_append]
  omega

/-- Cuts a text into lexemes. -/
def lexemes (source : Text) : List Lexeme :=
  match _found : nextLexeme? source with
  | none => []
  | some (lexeme, rest) => lexeme :: lexemes rest
termination_by source.length
decreasing_by exact (nextLexeme?_eq_some_iff.1 _found).length_lt

@[simp] theorem lexemes_nil : lexemes [] = [] := by
  rw [lexemes]
  rfl

theorem lexemes_of_reads {source rest : Text} {lexeme : Lexeme}
    (reads : Reads source lexeme rest) : lexemes source = lexeme :: lexemes rest := by
  rw [lexemes]
  split
  · next none => simp [nextLexeme?_of_reads reads] at none
  · next found =>
      rw [nextLexeme?_of_reads reads, Option.some.injEq, Prod.mk.injEq] at found
      rw [found.1, found.2]

/-- A text is empty, or it is its first lexeme and the text behind it. -/
@[elab_as_elim]
theorem lexemeInduction {motive : Text → Prop} (nil : motive [])
    (cons : ∀ source lexeme rest, Reads source lexeme rest → motive rest → motive source)
    (source : Text) : motive source := by
  induction lengthEq : source.length using Nat.strongRecOn generalizing source with
  | ind length induction =>
      by_cases empty : source = []
      · exact empty ▸ nil
      · obtain ⟨lexeme, rest, reads⟩ := exists_reads empty
        have shorter := reads.length_lt
        exact cons source lexeme rest reads (induction rest.length (by omega) rest rfl)

@[simp] theorem textOf_lexemes (source : Text) : textOf (lexemes source) = source := by
  induction source using lexemeInduction with
  | nil => simp
  | cons source lexeme rest reads induction =>
      rw [lexemes_of_reads reads, textOf_cons, induction, reads.parts]

/-- Every lexeme is the one that is read at its place. -/
def Legible : List Lexeme → Prop
  | [] => True
  | lexeme :: others =>
      Reads (lexeme.text ++ textOf others) lexeme (textOf others) ∧ Legible others

theorem legible_lexemes (source : Text) : Legible (lexemes source) := by
  induction source using lexemeInduction with
  | nil => simp [Legible]
  | cons source lexeme rest reads induction =>
      rw [lexemes_of_reads reads, Legible, textOf_lexemes, reads.parts]
      exact ⟨reads, induction⟩

/-- Lexemes that are read at their places are the cut of their text. -/
theorem lexemes_textOf {list : List Lexeme} (legible : Legible list) :
    lexemes (textOf list) = list := by
  induction list with
  | nil => simp
  | cons lexeme others induction =>
      rw [textOf_cons, lexemes_of_reads legible.1, induction legible.2]

theorem Legible.eq_of_textOf {first second : List Lexeme} (legible : Legible first)
    (other : Legible second) (same : textOf first = textOf second) : first = second := by
  rw [← lexemes_textOf legible, same, lexemes_textOf other]

theorem Legible.of_append_right {first second : List Lexeme}
    (legible : Legible (first ++ second)) : Legible second := by
  induction first with
  | nil => exact legible
  | cons lexeme others induction => exact induction legible.2

/-- What follows lexemes may stand behind the last of them. -/
theorem Legible.seam {first second : List Lexeme} (legible : Legible (first ++ second)) :
    ∀ lexeme ∈ first.getLast?, lexeme.canPrecede (textOf second).head? = true := by
  induction first with
  | nil => simp
  | cons lexeme others induction =>
      cases others with
      | nil =>
          intro last lastOf
          obtain rfl : lexeme = last := by simpa using lastOf
          exact legible.1.canPrecede
      | cons next others => exact induction legible.2

theorem Legible.textOf_eq_nil_iff {list : List Lexeme} (legible : Legible list) :
    textOf list = [] ↔ list = [] := by
  cases list with
  | nil => simp
  | cons lexeme others =>
      have nonempty := legible.1.text_ne_nil
      simp [nonempty]

theorem lexemes_injective : Function.Injective lexemes := by
  intro first second same
  rw [← textOf_lexemes first, same, textOf_lexemes]

theorem Lexeme.canPrecede_none (lexeme : Lexeme) : lexeme.canPrecede none = true := by
  cases lexeme with
  | literal whole => simp [canPrecede]
  | _ => rfl

theorem Legible.head?_textOf_cons {lexeme : Lexeme} {others : List Lexeme}
    (legible : Legible (lexeme :: others)) :
    (textOf (lexeme :: others)).head? = lexeme.text.head? := by
  obtain ⟨character, text, shape⟩ := List.exists_cons_of_ne_nil legible.1.text_ne_nil
  rw [textOf_cons, shape, List.cons_append, List.head?_cons, List.head?_cons]

theorem Legible.head?_append {list : List Lexeme} (legible : Legible list) (nonempty : list ≠ [])
    (behind : Text) : (textOf list ++ behind).head? = (textOf list).head? := by
  obtain ⟨character, text, shape⟩ :=
    List.exists_cons_of_ne_nil (mt legible.textOf_eq_nil_iff.1 nonempty)
  rw [shape, List.cons_append, List.head?_cons, List.head?_cons]

/-- Lexemes are read in the same way when nothing follows them. -/
theorem Legible.of_append_left {first second : List Lexeme}
    (legible : Legible (first ++ second)) : Legible first := by
  induction first with
  | nil => trivial
  | cons lexeme others induction =>
      rw [List.cons_append] at legible
      have rest := induction legible.2
      refine ⟨legible.1.replaceRest ?_, rest⟩
      by_cases last : others = []
      · rw [last]
        exact lexeme.canPrecede_none
      · have precedes := legible.1.canPrecede
        rwa [textOf_append, rest.head?_append last] at precedes

/-- Lexemes may follow others when the first character may stand behind the last
of these. -/
theorem Legible.append {first second : List Lexeme} (legible : Legible first)
    (others : Legible second)
    (seam : ∀ lexeme ∈ first.getLast?, lexeme.canPrecede (textOf second).head? = true) :
    Legible (first ++ second) := by
  induction first with
  | nil => exact others
  | cons lexeme rest induction =>
      rw [List.cons_append, Legible, textOf_append]
      cases rest with
      | nil => exact ⟨legible.1.replaceRest (seam lexeme rfl), others⟩
      | cons next rest =>
          refine ⟨legible.1.replaceRest ?_, induction legible.2 seam⟩
          rw [legible.2.head?_append (by simp)]
          exact legible.1.canPrecede

end Bilingual
