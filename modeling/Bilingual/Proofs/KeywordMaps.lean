import Bilingual.Proofs.KeywordRows

/-!
# Keyword tables as a pair of maps

A table can be kept as two hash maps that are filled row by row, one for each direction.
The invariant of the filling is that both maps hold the rows that were added, each in its
direction, `KeywordMaps.Holds`.  So the maps accept and refuse the same rows as the list
of entries does and give the same answers, however texts are hashed.
-/

namespace Bilingual

/-- The keywords of one language with those of the other one, for both directions. -/
structure KeywordMaps [Hashable Text] where
  toStandard : Std.HashMap Text Text
  toLocalized : Std.HashMap Text Text

namespace KeywordMaps

variable [Hashable Text]

/-- The map of a direction. -/
def side (maps : KeywordMaps) : Direction → Std.HashMap Text Text
  | .toStandard => maps.toStandard
  | .toLocalized => maps.toLocalized

/-- Adds a row to both maps. -/
def insert (maps : KeywordMaps) (row : KeywordEntry) : Except KeywordRowError KeywordMaps :=
  match [row.localized, row.standard].find? fun word => !isSingleWord word with
  | some word => .error (.notAWord word)
  | none =>
      if maps.toStandard.contains row.localized then .error (.duplicateLocalized row.localized)
      else if maps.toLocalized.contains row.standard then
        .error (.duplicateStandard row.standard)
      else
        .ok ⟨maps.toStandard.insert row.localized row.standard,
          maps.toLocalized.insert row.standard row.localized⟩

/-- Fills two maps with rows. -/
def ofRows (rows : List KeywordEntry) : Except KeywordRowError KeywordMaps :=
  rows.foldlM insert ⟨∅, ∅⟩

/-- The keyword that takes the place of a word. -/
def lookup? (maps : KeywordMaps) (word : Text) (direction : Direction) : Option Text :=
  (maps.side direction)[word]?

/-- The number of entries. -/
def size (maps : KeywordMaps) : Nat :=
  maps.toStandard.size

/-- The entries in the order of their standard keywords, read from one of the maps. -/
def sortedEntries (maps : KeywordMaps) : List KeywordEntry :=
  KeywordTable.sortByStandard (maps.toStandard.toList.map fun pair => ⟨pair.1, pair.2⟩)

/-- Both maps hold the entries of a table. -/
def Holds (maps : KeywordMaps) (table : KeywordTable) : Prop :=
  ∀ direction word, (maps.side direction)[word]? = table.lookup? word direction

variable {maps : KeywordMaps} {table : KeywordTable} {row : KeywordEntry}
  {rows : List KeywordEntry}

theorem holds_empty : Holds ⟨∅, ∅⟩ KeywordTable.empty := by
  rintro (_ | _) word <;> exact Std.HashMap.getElem?_empty

theorem Holds.contains (holds : maps.Holds table) (direction : Direction) (word : Text) :
    (maps.side direction).contains word =
      (table.entries.map (·.source direction)).contains word := by
  rw [Std.HashMap.contains_eq_isSome_getElem?, holds, Bool.eq_iff_iff, Option.isSome_iff_exists,
    ← KeywordTable.isKeyword_iff, List.contains_iff_mem, List.mem_map]
  rfl

/-! ### Filling -/

/-- The maps of a table test a row as the table does. -/
theorem Holds.insert_eq (holds : maps.Holds table) (row : KeywordEntry) :
    maps.insert row =
      match (rowFaults table.entries row).head? with
      | some reason => .error reason
      | none => .ok ⟨maps.toStandard.insert row.localized row.standard,
          maps.toLocalized.insert row.standard row.localized⟩ := by
  have localized : maps.toStandard.contains row.localized =
      (table.entries.map KeywordEntry.localized).contains row.localized :=
    holds.contains .toStandard row.localized
  have standard : maps.toLocalized.contains row.standard =
      (table.entries.map KeywordEntry.standard).contains row.standard :=
    holds.contains .toLocalized row.standard
  simp only [KeywordMaps.insert, rowFaults, localized, standard]
  cases firstWord : isSingleWord row.localized <;> cases secondWord : isSingleWord row.standard <;>
    cases (table.entries.map KeywordEntry.localized).contains row.localized <;>
    cases (table.entries.map KeywordEntry.standard).contains row.standard <;>
    simp [firstWord, secondWord]

theorem Holds.of_insert {larger : KeywordTable} (holds : maps.Holds table)
    (inserted : table.insert row = .ok larger) :
    Holds ⟨maps.toStandard.insert row.localized row.standard,
      maps.toLocalized.insert row.standard row.localized⟩ larger := by
  intro direction word
  rw [KeywordTable.lookup?_of_insert inserted, ← holds]
  cases direction <;> simp only [side, Std.HashMap.getElem?_insert, beq_iff_eq] <;> rfl

/-- Rows are accepted by the maps and by the table, or refused by both for one reason. -/
theorem Holds.insertAll (holds : maps.Holds table) (rows : List KeywordEntry) :
    (∃ filled larger, rows.foldlM insert maps = .ok filled ∧
        table.insertAll rows = .ok larger ∧ filled.Holds larger) ∨
      ∃ reason, rows.foldlM insert maps = .error reason ∧
        table.insertAll rows = .error reason := by
  induction rows generalizing maps table with
  | nil => exact .inl ⟨maps, table, rfl, rfl, holds⟩
  | cons row rows induction =>
      have step := holds.insert_eq row
      rw [List.foldlM_cons]
      rcases KeywordTable.insert_eq table row with ⟨larger, inserted, none⟩ |
        ⟨reason, refused, first⟩
      · rw [none] at step
        rw [step, KeywordTable.insertAll, inserted]
        exact induction (holds.of_insert inserted)
      · rw [first] at step
        rw [step, KeywordTable.insertAll, refused]
        exact .inr ⟨reason, rfl, rfl⟩

/-! ### Reading -/

theorem Holds.perm (holds : maps.Holds table) :
    (maps.toStandard.toList.map fun pair => ⟨pair.1, pair.2⟩ : List KeywordEntry).Perm
      table.entries := by
  have distinct : (maps.toStandard.toList.map fun pair =>
      (⟨pair.1, pair.2⟩ : KeywordEntry)).Nodup := by
    refine List.pairwise_map.2 (maps.toStandard.distinct_keys_toList.imp ?_)
    intro first second different same
    rw [beq_eq_false_iff_ne] at different
    exact different (KeywordEntry.mk.inj same).1
  have entries : table.entries.Nodup := table.nodup_localized.of_map
  rw [List.perm_ext_iff_of_nodup distinct entries]
  rintro ⟨localized, standard⟩
  rw [← KeywordTable.lookup?_toStandard_iff, ← holds, side,
    ← Std.HashMap.mem_toList_iff_getElem?_eq_some, List.mem_map]
  constructor
  · rintro ⟨pair, member, same⟩
    obtain ⟨rfl, rfl⟩ := KeywordEntry.mk.inj same
    exact member
  · intro member
    exact ⟨_, member, rfl⟩

theorem Holds.size (holds : maps.Holds table) : maps.size = table.size := by
  have length := holds.perm.length_eq
  rwa [List.length_map, Std.HashMap.length_toList] at length

theorem Holds.sortedEntries (holds : maps.Holds table) :
    maps.sortedEntries = table.sortedEntries :=
  KeywordTable.sortByStandard_of_perm holds.perm

end KeywordMaps

/-! ### Tables of given rows -/

open KeywordTable in
/-- Rows make up a table exactly if they pair single words one to one, and are refused for
the first row against which there is a reason otherwise.  A table answers what its rows
say, and neither the order of the rows nor the way a map hashes them makes a difference. -/
theorem ofEntries_oneToOne [Hashable Text] (rows : List KeywordEntry) :
    ((∃ table, ofEntries rows = .ok table) ↔ IsOneToOne rows) ∧
    (∀ reason, ofEntries rows = .error reason ↔
      ∃ before row after, rows = before ++ row :: after ∧ IsOneToOne before ∧
        (rowFaults before row).head? = some reason) ∧
    (∀ reason, KeywordMaps.ofRows rows = .error reason ↔ ofEntries rows = .error reason) ∧
    ∀ table, ofEntries rows = .ok table →
      (∀ localized standard,
        (table.lookup? localized .toStandard = some standard ↔ ⟨localized, standard⟩ ∈ rows) ∧
        (table.lookup? standard .toLocalized = some localized ↔ ⟨localized, standard⟩ ∈ rows)) ∧
      table.size = rows.length ∧
      (∀ list, list = table.sortedEntries ↔ list.Perm rows ∧
        list.Pairwise fun first second => first.standard.IsBefore second.standard) ∧
      (∃ maps, KeywordMaps.ofRows rows = .ok maps ∧
        (∀ word direction, maps.lookup? word direction = table.lookup? word direction) ∧
        maps.size = table.size ∧ maps.sortedEntries = table.sortedEntries) ∧
      (∀ other, other.Perm rows → ∃ again, ofEntries other = .ok again ∧ again.Alike table) ∧
      ∃ again, ofEntries table.sortedEntries = .ok again ∧ again.Alike table := by
  have filling := KeywordMaps.holds_empty.insertAll rows
  refine ⟨exists_ofEntries_iff, fun reason => ofEntries_eq_error_iff, ?_, ?_⟩
  · intro reason
    rcases filling with ⟨maps, table, filled, built, -⟩ | ⟨other, refused, refusedToo⟩
    · simp [KeywordMaps.ofRows, filled, ofEntries, built]
    · simp [KeywordMaps.ofRows, refused, ofEntries, refusedToo]
  · intro table built
    have entries := entries_of_ofEntries built
    have sorted : table.sortedEntries.Perm rows := entries ▸ table.perm_sortedEntries
    refine ⟨?_, ?_, ?_, ?_, ?_, exists_ofEntries_of_perm sorted built⟩
    · intro localized standard
      rw [← entries]
      exact ⟨lookup?_toStandard_iff, lookup?_toLocalized_iff⟩
    · rw [size, entries]
    · intro list
      rw [← entries]
      exact eq_sortedEntries_iff
    · rcases filling with ⟨maps, larger, filled, builtToo, holds⟩ | ⟨reason, -, refused⟩
      · have same : larger = table := Except.ok.inj (builtToo.symm.trans built)
        rw [same] at holds
        exact ⟨maps, filled, fun word direction => holds direction word, holds.size,
          holds.sortedEntries⟩
      · have outcome := refused.symm.trans built
        contradiction
    · intro other same
      exact exists_ofEntries_of_perm same built

/-- Three rows whose standard keywords do not stand in order. -/
theorem ofEntries_unsorted :
    let rows : List KeywordEntry := [⟨"ถ้า".toList, "if".toList⟩,
      ⟨"พิมพ์".toList, "print".toList⟩, ⟨"และ".toList, "and".toList⟩]
    ∃ table, KeywordTable.ofEntries rows = .ok table ∧ table.size = 3 ∧
      table.lookup? "พิมพ์".toList .toStandard = some "print".toList ∧
      table.lookup? "print".toList .toLocalized = some "พิมพ์".toList ∧
      table.sortedEntries = [⟨"และ".toList, "and".toList⟩, ⟨"ถ้า".toList, "if".toList⟩,
        ⟨"พิมพ์".toList, "print".toList⟩] ∧
      rows.reverse.Perm rows ∧
      ∃ again, KeywordTable.ofEntries rows.reverse = .ok again ∧ again.Alike table := by
  intro rows
  have oneToOne : IsOneToOne rows := by decide +kernel
  obtain ⟨table, built⟩ := KeywordTable.exists_ofEntries_iff.2 oneToOne
  -- Even a hash that tells no texts apart will do.
  obtain ⟨lookups, size, sorted, -, permuted, -⟩ :=
    (@ofEntries_oneToOne ⟨fun _ => 0⟩ rows).2.2.2 table built
  have increasing : [rows[2], rows[0], rows[1]].Pairwise
      fun first second => Text.isUpTo first.standard second.standard = true ∧
        first.standard ≠ second.standard := by
    decide +kernel
  have strictly := increasing.imp fun pair => (Text.isUpTo_iff.1 pair.1).resolve_left pair.2
  exact ⟨table, built, size, (lookups _ _).1.2 (by decide +kernel),
    (lookups _ _).2.2 (by decide +kernel), ((sorted _).2 ⟨by decide +kernel, strictly⟩).symm,
    List.reverse_perm rows, permuted _ (List.reverse_perm rows)⟩

end Bilingual
