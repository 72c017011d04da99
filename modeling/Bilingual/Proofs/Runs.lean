import Bilingual.MaximalMunch
import Mathlib.Data.List.TakeWhile

/-!
# Runs of characters

The lexers and the scanner read runs: as many characters as have a property.
This file says when a text is read as a given run with a given text behind it.
-/

namespace Bilingual

/-- A run that stops where it should is what `takeWhile` and `dropWhile` find. -/
theorem takeWhile_dropWhile_append {property : Char → Bool} {text rest : Text}
    (run : ∀ character ∈ text, property character = true)
    (stops : rest.head?.all (!property ·) = true) :
    (text ++ rest).takeWhile property = text ∧
      (text ++ rest).dropWhile property = rest := by
  rw [List.takeWhile_append_of_pos run, List.dropWhile_append_of_pos run]
  cases rest with
  | nil => simp
  | cons next rest => simp_all

theorem head?_dropWhile_all_not (property : Char → Bool) (text : Text) :
    (text.dropWhile property).head?.all (!property ·) = true := by
  have stopped := List.head?_dropWhile_not property text
  cases head : (text.dropWhile property).head? <;> simp_all

theorem firstLine_append {line rest : Text} (inLine : '\n' ∉ line)
    (whole : rest.head?.all (· = '\n') = true) :
    (line ++ rest).takeWhile (· != '\n') = line ∧
      (line ++ rest).dropWhile (· != '\n') = rest := by
  apply takeWhile_dropWhile_append
  · intro character member
    rw [bne_iff_ne]
    rintro rfl
    exact inLine member
  · cases head : rest.head? <;> simp_all

theorem newline_notMem_firstLine (text : Text) : '\n' ∉ text.takeWhile (· != '\n') := by
  intro member
  simpa using List.mem_takeWhile_imp member

theorem firstLine_eq_self {text : Text} (single : text.dropWhile (· != '\n') = []) :
    text.takeWhile (· != '\n') = text := by
  have parts := List.takeWhile_append_dropWhile (p := (· != '\n')) (l := text)
  rwa [single, List.append_nil] at parts

theorem firstLine_append_newline {text rest : Text} {character : Char}
    (more : text.dropWhile (· != '\n') = character :: rest) :
    character = '\n' ∧ text.takeWhile (· != '\n') ++ character :: rest = text := by
  have parts := List.takeWhile_append_dropWhile (p := (· != '\n')) (l := text)
  have stops := head?_dropWhile_all_not (· != '\n') text
  rw [more] at parts stops
  exact ⟨by simpa using stops, parts⟩

theorem runLength_le (property : Char → Bool) (text : Text) :
    runLength property text ≤ text.length :=
  (List.takeWhile_prefix property).length_le

/-- A run takes in every text at the start all of whose characters have the property. -/
theorem le_runLength {property : Char → Bool} {text rest : Text}
    (run : ∀ character ∈ text, property character = true) :
    text.length ≤ runLength property (text ++ rest) := by
  rw [runLength, List.takeWhile_append_of_pos run, List.length_append]
  exact Nat.le_add_right _ _

/-- A run has a given length exactly when so many characters have the property
and the next one has not. -/
theorem runLength_append_eq_iff {property : Char → Bool} {text rest : Text} :
    runLength property (text ++ rest) = text.length ↔
      (∀ character ∈ text, property character = true) ∧
        rest.head?.all (!property ·) = true := by
  unfold runLength
  constructor
  · intro lengthEq
    induction text with
    | nil =>
        cases rest with
        | nil => simp
        | cons next rest =>
            cases holds : property next with
            | false => simp [holds]
            | true => simp [holds] at lengthEq
    | cons character text induction =>
        cases holds : property character with
        | false => simp [holds] at lengthEq
        | true =>
            rw [List.cons_append, List.takeWhile_cons_of_pos holds, List.length_cons,
              List.length_cons, Nat.add_right_cancel_iff] at lengthEq
            simpa [holds] using induction lengthEq
  · rintro ⟨run, stops⟩
    rw [(takeWhile_dropWhile_append run stops).1]

end Bilingual
