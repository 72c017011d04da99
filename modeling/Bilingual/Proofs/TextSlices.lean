import Bilingual.Text

/-!
# Slices of a text

A slice is the part of a text between two byte positions.  It exists only if both
positions are boundaries between characters and stand in order.
-/

namespace Bilingual

namespace Text

/-- The parts of a text in front of and behind a byte position, unless the position
lies inside a character or behind the text. -/
def splitAtByte? : Text → Nat → Option (Text × Text)
  | text, 0 => some ([], text)
  | [], _ + 1 => none
  | character :: rest, position + 1 =>
      if character.utf8Size ≤ position + 1 then
        (splitAtByte? rest (position + 1 - character.utf8Size)).map fun parts =>
          (character :: parts.1, parts.2)
      else none

/-- The part of a text between two byte positions. -/
def slice? (text : Text) (start stop : Nat) : Option Text :=
  if start ≤ stop then
    (splitAtByte? text start).bind fun parts =>
      (splitAtByte? parts.2 (stop - start)).map Prod.fst
  else none

/-- A byte position between two characters, or at an end of a text. -/
def IsBoundary (text : Text) (position : Nat) : Prop :=
  ∃ before after, before ++ after = text ∧ byteLength before = position

theorem byteLength_eq_zero_iff {text : Text} : byteLength text = 0 ↔ text = [] := by
  cases text with
  | nil => simp
  | cons character rest =>
      have wide := character.utf8Size_pos
      simp only [byteLength_cons, reduceCtorEq, iff_false]
      omega

theorem splitAtByte?_byteLength (before after : Text) :
    splitAtByte? (before ++ after) (byteLength before) = some (before, after) := by
  induction before with
  | nil => cases after <;> rfl
  | cons character rest induction =>
      have wide := character.utf8Size_pos
      obtain ⟨position, shape⟩ :=
        Nat.exists_eq_add_one.2 (Nat.lt_of_lt_of_le wide (Nat.le_add_right _ (byteLength rest)))
      have left : position + 1 - character.utf8Size = byteLength rest := by omega
      rw [byteLength_cons, List.cons_append, shape, splitAtByte?, if_pos (by omega), left,
        induction]
      rfl

theorem splitAtByte?_eq_some {text before after : Text} {position : Nat}
    (split : splitAtByte? text position = some (before, after)) :
    before ++ after = text ∧ byteLength before = position := by
  fun_induction splitAtByte? text position generalizing before with
  | case1 text =>
      obtain ⟨rfl, rfl⟩ := by simpa using split
      exact ⟨rfl, rfl⟩
  | case2 => simp at split
  | case3 character rest position fits induction =>
      obtain ⟨⟨first, second⟩, found, same⟩ := Option.map_eq_some_iff.1 split
      obtain ⟨rfl, rfl⟩ := Prod.mk.inj same
      obtain ⟨parts, length⟩ := induction found
      refine ⟨congrArg (character :: ·) parts, ?_⟩
      rw [byteLength_cons, length]
      omega
  | case4 => simp at split

/-- A slice is a part of the text whose ends are the given positions. -/
theorem slice?_eq_some_iff {text part : Text} {start stop : Nat} :
    slice? text start stop = some part ↔
      ∃ before after, before ++ (part ++ after) = text ∧ byteLength before = start ∧
        start + byteLength part = stop := by
  constructor
  · intro found
    unfold slice? at found
    split at found
    · next ordered =>
        obtain ⟨⟨before, rest⟩, split, found⟩ := Option.bind_eq_some_iff.1 found
        obtain ⟨⟨first, after⟩, splitRest, rfl⟩ := Option.map_eq_some_iff.1 found
        obtain ⟨parts, length⟩ := splitAtByte?_eq_some split
        obtain ⟨partsRest, lengthRest⟩ := splitAtByte?_eq_some splitRest
        refine ⟨before, after, ?_, length, ?_⟩
        · rw [partsRest, parts]
        · rw [lengthRest]
          omega
    · simp at found
  · rintro ⟨before, after, rfl, rfl, rfl⟩
    rw [slice?, if_pos (by omega), splitAtByte?_byteLength, Option.bind_some,
      Nat.add_sub_cancel_left, splitAtByte?_byteLength]
    rfl

end Text

end Bilingual
