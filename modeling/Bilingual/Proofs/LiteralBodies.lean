import Bilingual.Proofs.LiteralLines

/-!
# Literals over several lines

This file reads a literal in one go, by `literalBody`, where the scanner reads it
line by line.  The main statements are `literalBody_append` and
`literalBody_of_left_append`: a literal that is closed is read in the same way
in front of any text, and the start of an open literal is open too.
-/

namespace Bilingual

/-- Reads the rest of a literal up to its closing delimiter, over line ends. -/
def literalBody (form : LiteralForm) (source : Text) : SpanBody :=
  let body := form.mode.body source
  if body.closed then body
  else
    match _shape : body.rest with
    | [] => body
    | character :: rest => (literalBody form rest).prepend (body.text ++ [character])
termination_by source.length
decreasing_by
  have lengths := congrArg List.length (form.mode.body_text_append_rest source)
  rw [_shape, List.length_append, List.length_cons] at lengths
  omega

theorem literalBody_of_closed {form : LiteralForm} {source : Text}
    (closed : (form.mode.body source).closed = true) :
    literalBody form source = form.mode.body source := by
  rw [literalBody]
  simp [closed]

theorem literalBody_of_end {form : LiteralForm} {source : Text}
    (left : (form.mode.body source).closed = false)
    (ended : (form.mode.body source).rest = []) :
    literalBody form source = form.mode.body source := by
  rw [literalBody]
  simp only [left, Bool.false_eq_true, if_false]
  split
  · rfl
  · next shape => simp [ended] at shape

theorem literalBody_of_newline {form : LiteralForm} {source rest : Text}
    (left : (form.mode.body source).closed = false)
    (newline : (form.mode.body source).rest = '\n' :: rest) :
    literalBody form source =
      (literalBody form rest).prepend ((form.mode.body source).text ++ ['\n']) := by
  rw [literalBody]
  simp only [left, Bool.false_eq_true, if_false]
  split
  · next shape => simp [newline] at shape
  · next shape =>
      rw [newline] at shape
      obtain ⟨rfl, rfl⟩ := List.cons.inj shape
      rfl

/-- A literal is read line by line: its first line closes it, or the text ends
with it, or it goes on behind a newline. -/
@[elab_as_elim]
theorem LiteralForm.lineInduction (form : LiteralForm) {motive : Text → Prop}
    (closing : ∀ source, (form.mode.body source).closed = true → motive source)
    (ending : ∀ source, (form.mode.body source).closed = false →
      (form.mode.body source).rest = [] → motive source)
    (goingOn : ∀ source rest, (form.mode.body source).closed = false →
      (form.mode.body source).rest = '\n' :: rest → motive rest → motive source)
    (source : Text) : motive source := by
  induction lengthEq : source.length using Nat.strongRecOn generalizing source with
  | ind length induction =>
      cases left : (form.mode.body source).closed with
      | true => exact closing source left
      | false =>
          rcases form.body_rest left with ended | newline
          · exact ending source left ended
          · obtain ⟨rest, shape⟩ := List.head?_eq_some_iff.1 newline
            have lengths := congrArg List.length (form.mode.body_text_append_rest source)
            rw [shape, List.length_append, List.length_cons] at lengths
            exact goingOn source rest left shape (induction rest.length (by omega) rest rfl)

@[simp] theorem literalBody_text_append_rest (form : LiteralForm) (source : Text) :
    (literalBody form source).text ++ (literalBody form source).rest = source := by
  induction source using form.lineInduction with
  | closing source closed =>
      rw [literalBody_of_closed closed, form.mode.body_text_append_rest]
  | ending source left ended =>
      rw [literalBody_of_end left ended, form.mode.body_text_append_rest]
  | goingOn source rest left newline induction =>
      rw [literalBody_of_newline left newline]
      simp only [SpanBody.prepend, List.append_assoc, List.cons_append, List.nil_append]
      rw [induction, ← newline, form.mode.body_text_append_rest]

/-- A closed literal is read in the same way in front of any text. -/
theorem literalBody_append {form : LiteralForm} {source : Text}
    (closed : (literalBody form source).closed = true) (behind : Text) :
    literalBody form ((literalBody form source).text ++ behind) =
      ⟨(literalBody form source).text, true, behind⟩ := by
  induction source using form.lineInduction with
  | closing source closes =>
      rw [literalBody_of_closed closes]
      have again := LiteralForm.body_append closes behind
      rw [literalBody_of_closed (by rw [again]), again]
  | ending source left ended =>
      rw [literalBody_of_end left ended, left] at closed
      contradiction
  | goingOn source rest left newline induction =>
      rw [literalBody_of_newline left newline] at closed ⊢
      simp only [SpanBody.prepend, List.append_assoc, List.cons_append,
        List.nil_append] at closed ⊢
      have again := LiteralForm.body_append_newline left
        ((literalBody form rest).text ++ behind)
      rw [literalBody_of_newline (by rw [again]) (by rw [again]), again, induction closed]
      simp [SpanBody.prepend]

theorem getLast?_literalBody {form : LiteralForm} {source : Text}
    (closed : (literalBody form source).closed = true) :
    (literalBody form source).text.getLast? = some form.quote.character := by
  induction source using form.lineInduction with
  | closing source closes =>
      rw [literalBody_of_closed closes]
      exact LiteralForm.getLast?_body closes
  | ending source left ended =>
      rw [literalBody_of_end left ended, left] at closed
      contradiction
  | goingOn source rest left newline induction =>
      rw [literalBody_of_newline left newline] at closed ⊢
      simp only [SpanBody.prepend, List.getLast?_append, induction closed, Option.some_or]

theorem literalBody_text_ne_nil {form : LiteralForm} {source : Text}
    (closed : (literalBody form source).closed = true) :
    (literalBody form source).text ≠ [] := by
  intro empty
  have last := getLast?_literalBody closed
  rw [empty] at last
  contradiction

theorem literalBody_rest_of_left {form : LiteralForm} {source : Text}
    (left : (literalBody form source).closed = false) :
    (literalBody form source).rest = [] := by
  induction source using form.lineInduction with
  | closing source closes =>
      rw [literalBody_of_closed closes, closes] at left
      contradiction
  | ending source open_ ended =>
      rw [literalBody_of_end open_ ended, ended]
  | goingOn source rest open_ newline induction =>
      rw [literalBody_of_newline open_ newline] at left ⊢
      exact induction left

theorem literalBody_of_left {form : LiteralForm} {source : Text}
    (left : (literalBody form source).closed = false) :
    literalBody form source = ⟨source, false, []⟩ := by
  have ended := literalBody_rest_of_left left
  have parts := literalBody_text_append_rest form source
  rw [ended, List.append_nil] at parts
  rw [← left, ← ended]
  exact congrArg (SpanBody.mk · _ _) parts

/-- What stands in front of the end of an open literal is open too. -/
theorem literalBody_of_left_append {form : LiteralForm} {source behind : Text}
    (left : (literalBody form (source ++ behind)).closed = false) :
    literalBody form source = ⟨source, false, []⟩ := by
  apply literalBody_of_left
  rw [Bool.eq_false_iff]
  intro closed
  have whole := literalBody_append closed ((literalBody form source).rest ++ behind)
  rw [← List.append_assoc, literalBody_text_append_rest] at whole
  rw [whole] at left
  contradiction

end Bilingual
