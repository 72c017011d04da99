import Bilingual.Proofs.DisjointLanguages

/-!
# Rows of keywords

A table is built from rows exactly if the rows pair single words one to one.  Otherwise
it is refused for the first row against which there is a reason, and the rows behind that
one do not matter: `insert_eq` says what one row does, and induction over the rows does
the rest.  Sorted by their standard keywords, the entries of a table do not depend on the
order in which they were added.
-/

namespace Bilingual

/-! ### The order of code points -/

namespace Text

/-- The first text stands in front of the second one in the order of code points. -/
def IsBefore (first second : Text) : Prop :=
  List.Lex (fun character other : Char => character.toNat < other.toNat) first second

theorem isUpTo_iff {first second : Text} :
    isUpTo first second = true ↔ first = second ∨ IsBefore first second := by
  induction first generalizing second with
  | nil =>
      cases second with
      | nil => simp [isUpTo]
      | cons other rest => simp [isUpTo, IsBefore]
  | cons character firstRest induction =>
      cases second with
      | nil => simp [isUpTo, IsBefore]
      | cons other secondRest =>
          simp only [isUpTo, Bool.or_eq_true, Bool.and_eq_true, decide_eq_true_eq, induction,
            List.cons.injEq, IsBefore, List.cons_lex_cons_iff]
          tauto

theorem IsBefore.trans {first second third : Text} (front : IsBefore first second)
    (behind : IsBefore second third) : IsBefore first third := by
  induction front generalizing third with
  | nil => cases behind <;> exact .nil
  | rel less =>
      cases behind with
      | rel further => exact .rel (less.trans further)
      | cons _ => exact .rel less
  | cons _ induction =>
      cases behind with
      | rel further => exact .rel further
      | cons rest => exact .cons (induction rest)

theorem IsBefore.ne {first second : Text} (front : IsBefore first second) : first ≠ second := by
  induction front with
  | nil => simp
  | rel less =>
      rintro same
      rw [List.cons.injEq] at same
      rw [same.1] at less
      exact lt_irrefl _ less
  | cons _ induction =>
      intro same
      exact induction (List.cons.inj same).2

theorem isUpTo_trans (first second third : Text) (front : isUpTo first second = true)
    (behind : isUpTo second third = true) : isUpTo first third = true := by
  rw [isUpTo_iff] at *
  rcases front with rfl | front
  · exact behind
  · rcases behind with rfl | behind
    · exact .inr front
    · exact .inr (front.trans behind)

theorem isUpTo_total (first second : Text) :
    (isUpTo first second || isUpTo second first) = true := by
  induction first generalizing second with
  | nil => simp [isUpTo]
  | cons character firstRest induction =>
      cases second with
      | nil => simp [isUpTo]
      | cons other secondRest =>
          have rest := induction secondRest
          rcases lt_trichotomy character.toNat other.toNat with less | same | more
          · simp [isUpTo, less]
          · rw [Char.toNat_inj] at same
            simpa [isUpTo, same] using rest
          · simp [isUpTo, more]

theorem isUpTo_antisymm {first second : Text} (front : isUpTo first second = true)
    (behind : isUpTo second first = true) : first = second := by
  rw [isUpTo_iff] at front behind
  rcases front with same | front
  · exact same
  · rcases behind with same | behind
    · exact same.symm
    · exact absurd rfl (front.trans behind).ne

end Text

/-! ### One row -/

/-- The rows pair single words one to one. -/
structure IsOneToOne (rows : List KeywordEntry) : Prop where
  isSingleWord_localized : ∀ row ∈ rows, isSingleWord row.localized = true
  isSingleWord_standard : ∀ row ∈ rows, isSingleWord row.standard = true
  nodup_localized : (rows.map KeywordEntry.localized).Nodup
  nodup_standard : (rows.map KeywordEntry.standard).Nodup

instance (rows : List KeywordEntry) : Decidable (IsOneToOne rows) :=
  decidable_of_iff ((∀ row ∈ rows, isSingleWord row.localized = true) ∧
      (∀ row ∈ rows, isSingleWord row.standard = true) ∧
      (rows.map KeywordEntry.localized).Nodup ∧ (rows.map KeywordEntry.standard).Nodup)
    ⟨fun ⟨localized, standard, first, second⟩ => ⟨localized, standard, first, second⟩,
      fun rows => ⟨rows.1, rows.2, rows.3, rows.4⟩⟩

/-- Everything that can be said against a row behind the rows `before`.  What counts
most stands first. -/
def rowFaults (before : List KeywordEntry) (row : KeywordEntry) : List KeywordRowError :=
  ([(.notAWord row.localized, !isSingleWord row.localized),
    (.notAWord row.standard, !isSingleWord row.standard),
    (.duplicateLocalized row.localized, (before.map KeywordEntry.localized).contains row.localized),
    (.duplicateStandard row.standard, (before.map KeywordEntry.standard).contains row.standard)] :
      List (KeywordRowError × Bool)).filterMap
    fun fault => if fault.2 then some fault.1 else none

theorem IsOneToOne.of_perm {first second : List KeywordEntry} (oneToOne : IsOneToOne first)
    (same : first.Perm second) : IsOneToOne second where
  isSingleWord_localized row member := oneToOne.isSingleWord_localized row (same.mem_iff.2 member)
  isSingleWord_standard row member := oneToOne.isSingleWord_standard row (same.mem_iff.2 member)
  nodup_localized := (same.map _).nodup_iff.1 oneToOne.nodup_localized
  nodup_standard := (same.map _).nodup_iff.1 oneToOne.nodup_standard

theorem IsOneToOne.of_append_left {first second : List KeywordEntry}
    (oneToOne : IsOneToOne (first ++ second)) : IsOneToOne first where
  isSingleWord_localized row member :=
    oneToOne.isSingleWord_localized row (List.mem_append_left _ member)
  isSingleWord_standard row member :=
    oneToOne.isSingleWord_standard row (List.mem_append_left _ member)
  nodup_localized := by
    have nodup := oneToOne.nodup_localized
    rw [List.map_append] at nodup
    exact nodup.of_append_left
  nodup_standard := by
    have nodup := oneToOne.nodup_standard
    rw [List.map_append] at nodup
    exact nodup.of_append_left

namespace KeywordTable

variable {table larger : KeywordTable} {row : KeywordEntry} {rows : List KeywordEntry}
  {reason : KeywordRowError}

theorem isOneToOne_entries (table : KeywordTable) : IsOneToOne table.entries :=
  ⟨table.isSingleWord_localized, table.isSingleWord_standard, table.nodup_localized,
    table.nodup_standard⟩

/-- What adding a row comes to. -/
theorem insert_eq (table : KeywordTable) (row : KeywordEntry) :
    (∃ larger, table.insert row = .ok larger ∧ rowFaults table.entries row = []) ∨
      ∃ reason, table.insert row = .error reason ∧
        (rowFaults table.entries row).head? = some reason := by
  unfold insert
  split
  case isFalse noWord => exact .inr ⟨_, rfl, by simp [rowFaults, noWord]⟩
  case isTrue localizedWord =>
    split
    case isFalse noWord => exact .inr ⟨_, rfl, by simp [rowFaults, localizedWord, noWord]⟩
    case isTrue standardWord =>
      split
      case isTrue known =>
        have known := List.contains_iff_mem.2 known
        exact .inr ⟨_, rfl, by simp only [rowFaults, localizedWord, standardWord, known]; rfl⟩
      case isFalse fresh =>
        have fresh := Bool.eq_false_iff.2 (mt List.contains_iff_mem.1 fresh)
        split
        case isTrue known =>
          have known := List.contains_iff_mem.2 known
          exact .inr ⟨_, rfl, by
            simp only [rowFaults, localizedWord, standardWord, fresh, known]; rfl⟩
        case isFalse freshStandard =>
          have freshStandard := Bool.eq_false_iff.2 (mt List.contains_iff_mem.1 freshStandard)
          exact .inl ⟨_, rfl, by
            simp only [rowFaults, localizedWord, standardWord, fresh, freshStandard]; rfl⟩

theorem lookup?_of_insert (inserted : table.insert row = .ok larger)
    (word : Text) (direction : Direction) :
    larger.lookup? word direction =
      if row.source direction = word then some (row.target direction)
      else table.lookup? word direction := by
  have entries := entries_of_insert inserted
  have nodup := larger.nodup_source direction
  rw [entries, List.map_append, List.map_singleton, List.nodup_append] at nodup
  rw [lookup?, entries, List.find?_append]
  split
  case isTrue same =>
    have fresh : table.entries.find? (·.source direction = word) = none := by
      rw [List.find?_eq_none]
      intro entry member known
      rw [decide_eq_true_eq] at known
      exact nodup.2.2 _ (List.mem_map_of_mem member) _ (List.mem_singleton_self _)
        (known.trans same.symm)
    simp [fresh, same]
  case isFalse different => simp [lookup?, different]

/-! ### All rows -/

theorem rowFaults_eq_nil_iff {before : List KeywordEntry} (oneToOne : IsOneToOne before) :
    rowFaults before row = [] ↔ IsOneToOne (before ++ [row]) := by
  have whole : rowFaults before row = [] ↔
      isSingleWord row.localized = true ∧ isSingleWord row.standard = true ∧
        row.localized ∉ before.map KeywordEntry.localized ∧
        row.standard ∉ before.map KeywordEntry.standard := by
    simp only [rowFaults, List.filterMap_eq_nil_iff, List.forall_mem_cons]
    simp
  rw [whole]
  constructor
  · rintro ⟨localizedWord, standardWord, fresh, freshStandard⟩
    refine ⟨?_, ?_, nodup_map_append oneToOne.nodup_localized fresh,
      nodup_map_append oneToOne.nodup_standard freshStandard⟩
    · intro other member
      rcases List.mem_append.1 member with old | new
      · exact oneToOne.isSingleWord_localized other old
      · rwa [List.mem_singleton.1 new]
    · intro other member
      rcases List.mem_append.1 member with old | new
      · exact oneToOne.isSingleWord_standard other old
      · rwa [List.mem_singleton.1 new]
  · intro larger
    have member : row ∈ before ++ [row] := List.mem_append_right _ (List.mem_singleton_self row)
    have localized := larger.nodup_localized
    have standard := larger.nodup_standard
    rw [List.map_append, List.map_singleton, List.nodup_append] at localized standard
    exact ⟨larger.isSingleWord_localized row member, larger.isSingleWord_standard row member,
      fun known => localized.2.2 _ known _ (List.mem_singleton_self _) rfl,
      fun known => standard.2.2 _ known _ (List.mem_singleton_self _) rfl⟩

theorem exists_insertAll_iff :
    (∃ larger, table.insertAll rows = .ok larger) ↔ IsOneToOne (table.entries ++ rows) := by
  induction rows generalizing table with
  | nil => simpa [insertAll] using table.isOneToOne_entries
  | cons row rows induction =>
      have step : rowFaults table.entries row = [] ↔ IsOneToOne (table.entries ++ [row]) :=
        rowFaults_eq_nil_iff table.isOneToOne_entries
      rcases insert_eq table row with ⟨larger, inserted, none⟩ | ⟨reason, refused, first⟩
      · simp only [insertAll, inserted, induction, entries_of_insert inserted]
        rw [← List.append_cons]
      · have faulty : ¬ IsOneToOne (table.entries ++ row :: rows) := by
          intro whole
          rw [List.append_cons] at whole
          rw [step.2 whole.of_append_left] at first
          contradiction
        simp [insertAll, refused, faulty]

/-- The reason is one against the first row that cannot be added. -/
theorem insertAll_eq_error_iff : table.insertAll rows = .error reason ↔
    ∃ before row after, rows = before ++ row :: after ∧ IsOneToOne (table.entries ++ before) ∧
      (rowFaults (table.entries ++ before) row).head? = some reason := by
  induction rows generalizing table with
  | nil => simp [insertAll]
  | cons row rows induction =>
      have oneToOne := table.isOneToOne_entries
      have step : rowFaults table.entries row = [] ↔ IsOneToOne (table.entries ++ [row]) :=
        rowFaults_eq_nil_iff oneToOne
      rcases insert_eq table row with ⟨larger, inserted, none⟩ | ⟨other, refused, first⟩
      · simp only [insertAll, inserted, induction, entries_of_insert inserted]
        constructor
        · rintro ⟨before, last, after, rfl, fine, fault⟩
          rw [List.append_assoc] at fine fault
          exact ⟨row :: before, last, after, rfl, fine, fault⟩
        · rintro ⟨before, last, after, same, fine, fault⟩
          cases before with
          | nil =>
              obtain ⟨rfl, rfl⟩ := List.cons.inj same
              rw [List.append_nil, none] at fault
              contradiction
          | cons front before =>
              obtain ⟨rfl, rfl⟩ := List.cons.inj same
              rw [List.append_cons] at fine fault
              exact ⟨before, last, after, rfl, fine, fault⟩
      · simp only [insertAll, refused, Except.error.injEq]
        constructor
        · rintro rfl
          refine ⟨[], row, rows, rfl, ?_, ?_⟩ <;> rwa [List.append_nil]
        · rintro ⟨before, last, after, same, fine, fault⟩
          cases before with
          | nil =>
              obtain ⟨rfl, rfl⟩ := List.cons.inj same
              rw [List.append_nil, first, Option.some.injEq] at fault
              exact fault
          | cons front before =>
              obtain ⟨rfl, rfl⟩ := List.cons.inj same
              rw [List.append_cons] at fine
              rw [step.2 fine.of_append_left] at first
              contradiction

theorem exists_ofEntries_iff :
    (∃ table, ofEntries rows = .ok table) ↔ IsOneToOne rows :=
  exists_insertAll_iff

theorem ofEntries_eq_error_iff : ofEntries rows = .error reason ↔
    ∃ before row after, rows = before ++ row :: after ∧ IsOneToOne before ∧
      (rowFaults before row).head? = some reason :=
  insertAll_eq_error_iff

theorem entries_of_ofEntries (built : ofEntries rows = .ok table) : table.entries = rows :=
  entries_of_insertAll built

theorem lookup?_toStandard_iff {localized standard : Text} :
    table.lookup? localized .toStandard = some standard ↔
      ⟨localized, standard⟩ ∈ table.entries := by
  rw [lookup?_eq_some_iff]
  constructor
  · rintro ⟨entry, member, rfl, rfl⟩
    exact member
  · intro member
    exact ⟨_, member, rfl, rfl⟩

theorem lookup?_toLocalized_iff {localized standard : Text} :
    table.lookup? standard .toLocalized = some localized ↔
      ⟨localized, standard⟩ ∈ table.entries :=
  lookup?_opposite.trans lookup?_toStandard_iff

/-! ### The order of the entries -/

/-- Arranges entries by their standard keywords. -/
def sortByStandard (entries : List KeywordEntry) : List KeywordEntry :=
  entries.mergeSort fun first second => Text.isUpTo first.standard second.standard

theorem perm_sortByStandard (entries : List KeywordEntry) :
    (sortByStandard entries).Perm entries :=
  List.mergeSort_perm _ _

theorem pairwise_sortByStandard (entries : List KeywordEntry) :
    (sortByStandard entries).Pairwise
      fun first second => Text.isUpTo first.standard second.standard = true :=
  List.pairwise_mergeSort
    (fun first second third => Text.isUpTo_trans first.standard second.standard third.standard)
    (fun first second => Text.isUpTo_total first.standard second.standard) entries

theorem perm_sortedEntries (table : KeywordTable) : table.sortedEntries.Perm table.entries :=
  perm_sortByStandard table.entries

theorem eq_of_standard {first second : KeywordEntry} (firstMember : first ∈ table.entries)
    (secondMember : second ∈ table.entries) (same : first.standard = second.standard) :
    first = second :=
  List.inj_on_of_nodup_map table.nodup_standard firstMember secondMember same

/-- However the entries are arranged to begin with, sorting them comes to the same. -/
theorem sortByStandard_of_perm {arranged : List KeywordEntry}
    (same : arranged.Perm table.entries) : sortByStandard arranged = table.sortedEntries := by
  have perm := (perm_sortByStandard arranged).trans same
  refine List.Perm.eq_of_pairwise ?_ (pairwise_sortByStandard arranged)
    (pairwise_sortByStandard table.entries) (perm.trans table.perm_sortedEntries.symm)
  intro first second firstMember secondMember front behind
  exact eq_of_standard (perm.mem_iff.1 firstMember)
    (table.perm_sortedEntries.mem_iff.1 secondMember) (Text.isUpTo_antisymm front behind)

theorem eq_sortedEntries_iff {list : List KeywordEntry} : list = table.sortedEntries ↔
    list.Perm table.entries ∧
      list.Pairwise fun first second => first.standard.IsBefore second.standard := by
  constructor
  · rintro rfl
    refine ⟨table.perm_sortedEntries, ?_⟩
    have distinct : table.sortedEntries.Pairwise fun first second =>
        first.standard ≠ second.standard :=
      List.pairwise_map.1 ((table.perm_sortedEntries.map _).nodup_iff.2 table.nodup_standard)
    refine ((pairwise_sortByStandard table.entries).and distinct).imp ?_
    rintro first second ⟨front, different⟩
    exact (Text.isUpTo_iff.1 front).resolve_left different
  · rintro ⟨perm, increasing⟩
    have sorted := increasing.imp fun front => Text.isUpTo_iff.2 (.inr front)
    rw [← sortByStandard_of_perm perm, sortByStandard, List.mergeSort_of_pairwise sorted]

/-- The tables give the same answers. -/
structure Alike (first second : KeywordTable) : Prop where
  lookup? : ∀ word direction, first.lookup? word direction = second.lookup? word direction
  size : first.size = second.size
  sortedEntries : first.sortedEntries = second.sortedEntries

theorem alike_of_perm {first second : KeywordTable} (same : first.entries.Perm second.entries) :
    first.Alike second where
  lookup? word direction := by
    apply Option.ext
    intro other
    simp only [lookup?_eq_some_iff, same.mem_iff]
  size := same.length_eq
  sortedEntries := sortByStandard_of_perm same

/-- Rows may be added in any order. -/
theorem exists_ofEntries_of_perm {other : List KeywordEntry} (same : other.Perm rows)
    (built : ofEntries rows = .ok table) :
    ∃ again, ofEntries other = .ok again ∧ again.Alike table := by
  have oneToOne := exists_ofEntries_iff.1 ⟨table, built⟩
  obtain ⟨again, builtAgain⟩ := exists_ofEntries_iff.2 (oneToOne.of_perm same.symm)
  refine ⟨again, builtAgain, alike_of_perm ?_⟩
  rwa [entries_of_ofEntries builtAgain, entries_of_ofEntries built]

end KeywordTable

end Bilingual
