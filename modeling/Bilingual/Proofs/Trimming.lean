import Bilingual.Text
import Mathlib.Data.List.DropRight

/-!
# Trimming

White space is dropped from the ends of a text and nowhere else.  The main
statements say how trimming treats a text that is put together from two.
-/

namespace Bilingual

namespace Text

theorem isBlank_iff {text : Text} :
    isBlank text = true ↔ ∀ character ∈ text, isWhiteSpace character = true :=
  List.all_eq_true

theorem isBlank_append (first second : Text) :
    isBlank (first ++ second) = (isBlank first && isBlank second) :=
  List.all_append

theorem isBlank_spaces (count : Nat) : isBlank (spaces count) = true := by
  rw [isBlank_iff]
  intro character member
  rw [List.eq_of_mem_replicate member]
  decide

theorem trimEnd_eq (text : Text) : trimEnd text = text.rdropWhile isWhiteSpace := rfl

theorem isBlank_eq_false_of_head? {text : Text} {character : Char}
    (first : text.head? = some character) (shown : isWhiteSpace character = false) :
    isBlank text = false := by
  obtain ⟨rest, rfl⟩ := List.head?_eq_some_iff.1 first
  simp [isBlank, shown]

/-! ### At the start -/

theorem trimStart_of_isBlank_append {blank : Text} (space : isBlank blank = true)
    (text : Text) : trimStart (blank ++ text) = trimStart text :=
  List.dropWhile_append_of_pos (isBlank_iff.1 space)

theorem trimStart_eq_self {text : Text} (visible : text.head?.all (!isWhiteSpace ·) = true) :
    trimStart text = text := by
  cases text with
  | nil => rfl
  | cons character rest =>
      have first : isWhiteSpace character = false := by simpa using visible
      rw [trimStart, List.dropWhile_cons_of_neg (by simp [first])]

theorem head?_trimStart (text : Text) :
    (trimStart text).head?.all (!isWhiteSpace ·) = true := by
  have stopped := List.head?_dropWhile_not isWhiteSpace text
  unfold trimStart
  cases head : (text.dropWhile isWhiteSpace).head? <;> simp_all

theorem takeWhile_of_isBlank_append {blank text : Text} (space : isBlank blank = true)
    (visible : text.head?.all (!isWhiteSpace ·) = true) :
    (blank ++ text).takeWhile isWhiteSpace = blank := by
  have none : text.takeWhile isWhiteSpace = [] := by
    cases text with
    | nil => rfl
    | cons character rest => exact List.takeWhile_cons_of_neg (by simpa using visible)
  rw [List.takeWhile_append_of_pos (isBlank_iff.1 space), none, List.append_nil]

/-- White space ends where something visible starts. -/
theorem isBlank_append_inj {blank other first second : Text} (space : isBlank blank = true)
    (spaceOther : isBlank other = true) (visible : first.head?.all (!isWhiteSpace ·) = true)
    (visibleOther : second.head?.all (!isWhiteSpace ·) = true) :
    blank ++ first = other ++ second ↔ blank = other ∧ first = second := by
  constructor
  · intro same
    have margins := congrArg (List.takeWhile isWhiteSpace) same
    rw [takeWhile_of_isBlank_append space visible,
      takeWhile_of_isBlank_append spaceOther visibleOther] at margins
    subst margins
    exact ⟨rfl, List.append_cancel_left same⟩
  · rintro ⟨rfl, rfl⟩
    rfl

theorem takeWhile_append_trimStart (text : Text) :
    text.takeWhile isWhiteSpace ++ trimStart text = text :=
  List.takeWhile_append_dropWhile

theorem isBlank_takeWhile (text : Text) : isBlank (text.takeWhile isWhiteSpace) = true :=
  isBlank_iff.2 fun _ => List.mem_takeWhile_imp

theorem isBlank_trimStart (text : Text) : isBlank (trimStart text) = isBlank text := by
  have both := isBlank_append (text.takeWhile isWhiteSpace) (trimStart text)
  rw [takeWhile_append_trimStart, isBlank_takeWhile, Bool.true_and] at both
  exact both.symm

theorem getLast?_trimStart {text : Text} (visible : isBlank text = false) :
    (trimStart text).getLast? = text.getLast? := by
  have nonempty : trimStart text ≠ [] := by
    intro none
    rw [← isBlank_trimStart, none] at visible
    contradiction
  rw [← List.getLast?_append_of_ne_nil (text.takeWhile isWhiteSpace) nonempty,
    takeWhile_append_trimStart]

theorem eq_spaces_append_iff {text other : Text} {count : Nat}
    (visible : other.head?.all (!isWhiteSpace ·) = true) :
    text = spaces count ++ other ↔
      text.takeWhile isWhiteSpace = spaces count ∧ trimStart text = other := by
  rw [← isBlank_append_inj (isBlank_takeWhile text) (isBlank_spaces count) (head?_trimStart text)
    visible, takeWhile_append_trimStart]

/-! ### At the end -/

theorem trimEnd_eq_nil_iff {text : Text} : trimEnd text = [] ↔ isBlank text = true := by
  rw [trimEnd_eq, List.rdropWhile_eq_nil_iff, isBlank_iff]

theorem trimEnd_append (first second : Text) :
    trimEnd (first ++ second) =
      if isBlank second then trimEnd first else first ++ trimEnd second := by
  unfold trimEnd
  rw [List.reverse_append, List.dropWhile_append]
  cases blank : isBlank second with
  | true =>
      have none := trimEnd_eq_nil_iff.2 blank
      rw [trimEnd, List.reverse_eq_nil_iff] at none
      simp [none]
  | false =>
      have some : second.reverse.dropWhile isWhiteSpace ≠ [] := by
        intro empty
        rw [← List.reverse_eq_nil_iff, ← trimEnd, trimEnd_eq_nil_iff, blank] at empty
        contradiction
      simp [some]

theorem trimEnd_eq_self_iff {text : Text} :
    trimEnd text = text ↔ text.getLast?.all (!isWhiteSpace ·) = true := by
  rw [trimEnd_eq, List.rdropWhile_eq_self_iff]
  cases text with
  | nil => simp
  | cons character rest => simp [List.getLast?_eq_some_getLast]

theorem trimEnd_append_of_not_isBlank (first : Text) {second : Text}
    (visible : isBlank second = false) : trimEnd (first ++ second) = first ++ trimEnd second := by
  rw [trimEnd_append, visible, if_neg Bool.false_ne_true]

theorem trimEnd_append_of_getLast? {first : Text}
    (shown : first.getLast?.all (!isWhiteSpace ·) = true) (second : Text) :
    trimEnd (first ++ second) = first ++ trimEnd second := by
  rw [trimEnd_append]
  split
  · next blank =>
      rw [trimEnd_eq_nil_iff.2 blank, List.append_nil]
      exact trimEnd_eq_self_iff.2 shown
  · rfl

theorem trimEnd_cons {character : Char} (shown : isWhiteSpace character = false)
    (rest : Text) : trimEnd (character :: rest) = character :: trimEnd rest := by
  have last : ([character] : Text).getLast?.all (!isWhiteSpace ·) = true := by simp [shown]
  exact trimEnd_append_of_getLast? last rest

@[simp] theorem trimEnd_trimEnd (text : Text) : trimEnd (trimEnd text) = trimEnd text :=
  List.rdropWhile_idempotent _ _

theorem trimEnd_append_blank (text : Text) :
    ∃ blank, isBlank blank = true ∧ trimEnd text ++ blank = text :=
  ⟨text.rtakeWhile isWhiteSpace, isBlank_iff.2 fun _ => List.mem_rtakeWhile_imp,
    List.rdropWhile_append_rtakeWhile⟩

theorem head?_trimEnd {text : Text} (visible : isBlank text = false) :
    (trimEnd text).head? = text.head? := by
  obtain ⟨blank, -, parts⟩ := trimEnd_append_blank text
  have nonempty : trimEnd text ≠ [] := by
    rw [ne_eq, trimEnd_eq_nil_iff, visible]
    simp
  obtain ⟨character, rest, shape⟩ := List.exists_cons_of_ne_nil nonempty
  rw [shape] at parts ⊢
  rw [← parts]
  rfl

/-! ### On both sides -/

theorem head?_trimEnd_of_visible {text : Text}
    (visible : text.head?.all (!isWhiteSpace ·) = true) :
    (trimEnd text).head?.all (!isWhiteSpace ·) = true := by
  cases blank : isBlank text with
  | true =>
      rw [trimEnd_eq_nil_iff.2 blank]
      rfl
  | false => rwa [head?_trimEnd blank]

theorem head?_trim (text : Text) : (trim text).head?.all (!isWhiteSpace ·) = true :=
  head?_trimEnd_of_visible (head?_trimStart text)

theorem trimStart_trim (text : Text) : trimStart (trim text) = trim text :=
  trimStart_eq_self (head?_trim text)

theorem trimEnd_eq_append_trim {text : Text} (visible : isBlank text = false) :
    trimEnd text = text.takeWhile isWhiteSpace ++ trim text := by
  rw [trim, ← trimEnd_append_of_not_isBlank _ ((isBlank_trimStart text).trans visible),
    takeWhile_append_trimStart]

theorem trimStart_trimEnd (text : Text) : trimStart (trimEnd text) = trim text := by
  cases blank : isBlank text with
  | true =>
      rw [trim, trimEnd_eq_nil_iff.2 blank,
        trimEnd_eq_nil_iff.2 ((isBlank_trimStart text).trans blank)]
      rfl
  | false =>
      rw [trimEnd_eq_append_trim blank, trimStart_of_isBlank_append (isBlank_takeWhile text),
        trimStart_trim]

theorem trimStart_eq_trim_iff {text : Text} (visible : isBlank text = false) :
    trimStart text = trim text ↔ trimEnd text = text := by
  have parts := takeWhile_append_trimStart text
  have trimmed := trimEnd_eq_append_trim visible
  constructor
  · intro same
    rw [trimmed, ← same, parts]
  · intro same
    apply @List.append_cancel_left _ (text.takeWhile isWhiteSpace)
    rw [parts, ← trimmed, same]

@[simp] theorem trim_trim (text : Text) : trim (trim text) = trim text := by
  rw [trim, trimStart_trim, trim, trimEnd_trimEnd]

end Text

end Bilingual
