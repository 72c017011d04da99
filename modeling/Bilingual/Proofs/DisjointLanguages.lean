import Bilingual.BuiltinKeywords
import Bilingual.Proofs.RepeatedSubstitution

/-!
# Tables of disjoint languages

If no text is a keyword of both languages, a replaced word is not replaced again by a
second substitution in the same direction, and a substitution in the other direction
takes it back.  So of two substitutions only the last counts,
`IsDisjoint.substitute_substitute`, which gives the laws of the two translations.  The
built-in table is of this kind.
-/

namespace Bilingual

namespace KeywordTable

/-- No text is a keyword of both languages. -/
def IsDisjoint (table : KeywordTable) : Prop :=
  ∀ entry ∈ table.entries, entry.localized ∉ table.entries.map KeywordEntry.standard

instance (table : KeywordTable) : Decidable table.IsDisjoint :=
  inferInstanceAs (Decidable (∀ entry ∈ table.entries, _))

variable {table : KeywordTable} {direction : Direction} {word : Text}

theorem replaceWord_of_not_isKeyword (other : ¬ table.IsKeyword direction word) :
    table.replaceWord direction word = word := by
  cases found : table.lookup? word direction with
  | none => rw [replaceWord, found, Option.getD_none]
  | some replacement => exact absurd (isKeyword_iff.2 ⟨replacement, found⟩) other

theorem IsDisjoint.not_isKeyword (disjoint : table.IsDisjoint)
    (keyword : table.IsKeyword direction word) : ¬ table.IsKeyword direction.opposite word := by
  obtain ⟨entry, member, rfl⟩ := keyword
  rintro ⟨other, otherMember, same⟩
  cases direction with
  | toStandard => exact disjoint entry member (List.mem_map.2 ⟨other, otherMember, same⟩)
  | toLocalized => exact disjoint other otherMember (List.mem_map.2 ⟨entry, member, same.symm⟩)

/-- After a replacement another one does as if it were the first. -/
theorem IsDisjoint.replaceWord_replaceWord (disjoint : table.IsDisjoint)
    (first second : Direction) (word : Text) :
    table.replaceWord second (table.replaceWord first word) = table.replaceWord second word := by
  by_cases keyword : table.IsKeyword first word
  · obtain ⟨other, found⟩ := isKeyword_iff.1 keyword
    have back := lookup?_opposite.2 found
    have replaced : table.replaceWord first word = other := by
      rw [replaceWord, found, Option.getD_some]
    have ways : second = first ∨ second = first.opposite := by
      cases first <;> cases second <;> simp [Direction.opposite]
    rw [replaced]
    rcases ways with rfl | rfl
    · have target := disjoint.not_isKeyword (isKeyword_iff.2 ⟨word, back⟩)
      rw [Direction.opposite_opposite] at target
      rw [replaceWord_of_not_isKeyword target, replaced]
    · rw [replaceWord_of_not_isKeyword (disjoint.not_isKeyword keyword), replaceWord, back,
        Option.getD_some]
  · rw [replaceWord_of_not_isKeyword keyword]

/-- If no text is a keyword of both languages, only the last direction counts. -/
theorem IsDisjoint.substitute_substitute (disjoint : table.IsDisjoint)
    (first second : Direction) (source : Text) :
    substitute table second (substitute table first source) = substitute table second source :=
  (substitute_inTurn_eq_iff table [first, second] [second] source).2
    fun word _ => disjoint.replaceWord_replaceWord first second word

/-- A keyword whose replacement is replaced again. -/
example : ¬ IsDisjoint ⟨[⟨['a'], ['b']⟩, ⟨['b'], ['c']⟩], by decide +kernel, by decide +kernel,
    by decide +kernel, by decide +kernel⟩ := by
  decide

/-! ### The built-in table -/

theorem entries_of_insert {larger : KeywordTable} {entry : KeywordEntry}
    (inserted : table.insert entry = .ok larger) : larger.entries = table.entries ++ [entry] := by
  unfold insert at inserted
  split at inserted
  · split at inserted
    · split at inserted
      · simp at inserted
      · split at inserted
        · simp at inserted
        · rw [Except.ok.injEq] at inserted
          rw [← inserted]
    · simp at inserted
  · simp at inserted

theorem entries_of_insertAll {larger : KeywordTable} {rows : List KeywordEntry}
    (inserted : table.insertAll rows = .ok larger) : larger.entries = table.entries ++ rows := by
  induction rows generalizing table with
  | nil =>
      rw [insertAll, Except.ok.injEq] at inserted
      rw [inserted, List.append_nil]
  | cons row rows induction =>
      rw [insertAll] at inserted
      cases first : table.insert row with
      | error reason => simp [first] at inserted
      | ok next =>
          simp only [first] at inserted
          rw [induction inserted, entries_of_insert first, List.append_assoc]
          rfl

theorem entries_builtin_subset : builtin.entries ⊆ builtinKeywordEntries := by
  unfold builtin
  cases built : ofEntries builtinKeywordEntries with
  | error reason => exact List.nil_subset _
  | ok table =>
      have rows : table.entries = builtinKeywordEntries := entries_of_insertAll built
      intro entry member
      rwa [← rows]

/-- The first byte of a word in UTF-8. -/
def firstByte? (word : String) : Option UInt8 :=
  word.toByteArray.data.toList.head?

/-- Standard keywords start with a character of one byte, localized ones do not. -/
theorem firstByte?_builtinKeywordPairs : ∀ pair ∈ builtinKeywordPairs,
    (firstByte? pair.1).any (128 ≤ ·) = true ∧ (firstByte? pair.2).any (128 ≤ ·) = false := by
  decide +kernel

theorem isDisjoint_builtin : builtin.IsDisjoint := by
  intro entry member known
  obtain ⟨other, otherMember, same⟩ := List.mem_map.1 known
  obtain ⟨pair, pairMember, rfl⟩ := List.mem_map.1 (entries_builtin_subset member)
  obtain ⟨otherPair, otherPairMember, rfl⟩ := List.mem_map.1 (entries_builtin_subset otherMember)
  have localized := (firstByte?_builtinKeywordPairs pair pairMember).1
  have standard := (firstByte?_builtinKeywordPairs otherPair otherPairMember).2
  rw [String.toList_injective same, localized] at standard
  contradiction

/-! ### The two translations -/

/-- Each translation may be repeated, and each one undoes what the other one did before it,
whichever languages the keywords of the source are in. -/
theorem IsDisjoint.translations (disjoint : table.IsDisjoint) (source : Text) :
    toStandard table (toStandard table source) = toStandard table source ∧
      toLocalized table (toLocalized table source) = toLocalized table source ∧
      toLocalized table (toStandard table source) = toLocalized table source ∧
      toStandard table (toLocalized table source) = toStandard table source := by
  have last (first second : Direction) := disjoint.substitute_substitute first second source
  exact ⟨last .toStandard .toStandard, last .toLocalized .toLocalized,
    last .toStandard .toLocalized, last .toLocalized .toStandard⟩

/-- A line in which keywords of both languages stand side by side. -/
theorem translations_builtin :
    builtin.IsDisjoint ∧
      let source := "ถ้า x: print(ถ้า) # if\nwhile พิมพ์:\n  'ถ้า'".toList
      toStandard builtin (toStandard builtin source) = toStandard builtin source ∧
        toLocalized builtin (toLocalized builtin source) = toLocalized builtin source ∧
        toLocalized builtin (toStandard builtin source) = toLocalized builtin source ∧
        toStandard builtin (toLocalized builtin source) = toStandard builtin source :=
  ⟨isDisjoint_builtin, isDisjoint_builtin.translations _⟩

end KeywordTable

end Bilingual
