import Bilingual.WordTokens

/-!
# Keyword tables

A keyword table pairs the keywords of two languages, localized and standard.
It is one-to-one, and every keyword is a single word; otherwise a replaced
keyword could not be found again.  Both conditions are part of the type, and a
table is built from rows only if they hold.
-/

namespace Bilingual

/-- One keyword in both languages. -/
structure KeywordEntry where
  localized : Text
  standard : Text
  deriving DecidableEq, Repr

/-- Which way keywords are replaced. -/
inductive Direction
  | toStandard
  | toLocalized
  deriving DecidableEq, Repr

/-- The way back. -/
def Direction.opposite : Direction → Direction
  | .toStandard => .toLocalized
  | .toLocalized => .toStandard

/-- The keyword that is replaced. -/
def KeywordEntry.source (entry : KeywordEntry) : Direction → Text
  | .toStandard => entry.localized
  | .toLocalized => entry.standard

/-- The keyword that takes its place. -/
def KeywordEntry.target (entry : KeywordEntry) (direction : Direction) : Text :=
  entry.source direction.opposite

/-- Why a row cannot be added to a table. -/
inductive KeywordRowError
  | duplicateLocalized (word : Text)
  | duplicateStandard (word : Text)
  | notAWord (word : Text)
  deriving DecidableEq, Repr

/-- The wording of the reason. -/
def KeywordRowError.message : KeywordRowError → String
  | .duplicateLocalized word =>
      "localized keyword `" ++ String.ofList word ++ "` is mapped more than once"
  | .duplicateStandard word =>
      "standard keyword `" ++ String.ofList word ++ "` is mapped more than once"
  | .notAWord word =>
      "`" ++ String.ofList word ++ "` is not a single word and could never be substituted"

/-- Entries in which every keyword is a single word and occurs once on its
side. -/
structure KeywordTable where
  entries : List KeywordEntry
  isSingleWord_localized : ∀ entry ∈ entries, isSingleWord entry.localized = true
  isSingleWord_standard : ∀ entry ∈ entries, isSingleWord entry.standard = true
  nodup_localized : (entries.map KeywordEntry.localized).Nodup
  nodup_standard : (entries.map KeywordEntry.standard).Nodup

namespace KeywordTable

/-- The table without entries. -/
def empty : KeywordTable where
  entries := []
  isSingleWord_localized := by simp
  isSingleWord_standard := by simp
  nodup_localized := by simp
  nodup_standard := by simp

theorem nodup_map_append {Word : Type} {side : KeywordEntry → Word}
    {entries : List KeywordEntry} {entry : KeywordEntry}
    (nodup : (entries.map side).Nodup) (fresh : side entry ∉ entries.map side) :
    ((entries ++ [entry]).map side).Nodup := by
  rw [List.map_append, List.nodup_append]
  refine ⟨nodup, by simp, ?_⟩
  intro word member other same
  rw [List.map_singleton, List.mem_singleton] at same
  rintro rfl
  exact fresh (same ▸ member)

/-- Adds a row behind the others.  Of several reasons against a row the first
one counts, in the order in which they are tested here. -/
def insert (table : KeywordTable) (entry : KeywordEntry) :
    Except KeywordRowError KeywordTable :=
  if localizedWord : isSingleWord entry.localized = true then
    if standardWord : isSingleWord entry.standard = true then
      if localizedKnown : entry.localized ∈ table.entries.map KeywordEntry.localized then
        .error (.duplicateLocalized entry.localized)
      else if standardKnown : entry.standard ∈ table.entries.map KeywordEntry.standard then
        .error (.duplicateStandard entry.standard)
      else
        .ok
          { entries := table.entries ++ [entry]
            isSingleWord_localized := by
              intro other member
              rcases List.mem_append.1 member with old | new
              · exact table.isSingleWord_localized other old
              · rwa [List.mem_singleton.1 new]
            isSingleWord_standard := by
              intro other member
              rcases List.mem_append.1 member with old | new
              · exact table.isSingleWord_standard other old
              · rwa [List.mem_singleton.1 new]
            nodup_localized := nodup_map_append table.nodup_localized localizedKnown
            nodup_standard := nodup_map_append table.nodup_standard standardKnown }
    else .error (.notAWord entry.standard)
  else .error (.notAWord entry.localized)

/-- Adds rows one after the other. -/
def insertAll (table : KeywordTable) : List KeywordEntry →
    Except KeywordRowError KeywordTable
  | [] => .ok table
  | entry :: entries =>
      match table.insert entry with
      | .ok larger => larger.insertAll entries
      | .error reason => .error reason

/-- The table with the given rows, or the reason of the first row against which
there is one. -/
def ofEntries (entries : List KeywordEntry) : Except KeywordRowError KeywordTable :=
  empty.insertAll entries

/-- The keyword that takes the place of a word, if the word is a keyword. -/
def lookup? (table : KeywordTable) (word : Text) (direction : Direction) : Option Text :=
  (table.entries.find? (·.source direction = word)).map (·.target direction)

/-- The number of entries. -/
def size (table : KeywordTable) : Nat :=
  table.entries.length

/-- The table has no entries. -/
def isEmpty (table : KeywordTable) : Bool :=
  table.entries.isEmpty

/-- The entries in the order of their standard keywords, which is the order of
code points. -/
def sortedEntries (table : KeywordTable) : List KeywordEntry :=
  table.entries.mergeSort fun first second => Text.isUpTo first.standard second.standard

end KeywordTable

end Bilingual
