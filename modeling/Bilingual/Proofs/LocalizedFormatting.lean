import Bilingual.LocalizedPipeline
import Bilingual.Proofs.DisjointLanguages
import Bilingual.Proofs.FormattingKeepsContents

/-!
# Formatting localized source formats the standard form

The formatter keeps the words of the code, `codeWords_formatWith`.  So it brings no
localized keyword back into a standard form, and localizing a formatted standard form can
be taken back.  If no text is a keyword of both languages, a pipeline therefore formats
the standard form of a source and nothing else.  The main statement is
`formatLocalized_of_isDisjoint`.
-/

namespace Bilingual

/-- The words of the code are its visible tokens of that kind. -/
theorem codeWords_eq_codeTokens (source : Text) :
    codeWords source =
      ((codeTokens (scan source)).filter (·.kind = .word)).map Token.text := by
  rw [codeWords, codeTokens, List.filter_flatMap, List.map_flatMap]
  apply List.flatMap_congr
  intro code member
  rw [visibleTokens, List.filter_filter]
  congr 2
  funext token
  cases token.kind <;> rfl

/-- Formatting keeps the words of the code. -/
theorem codeWords_formatWith (rules : FormatRules) (source : Text) :
    codeWords (formatWith rules source) = codeWords source := by
  rw [codeWords_eq_codeTokens, codeWords_eq_codeTokens, codeTokens_scan_formatWith]

theorem substitute_formatWith_eq_self_iff {table : KeywordTable} {direction : Direction}
    {rules : FormatRules} {source : Text} :
    substitute table direction (formatWith rules source) = formatWith rules source ↔
      substitute table direction source = source := by
  rw [substitute_eq_self_iff, substitute_eq_self_iff, codeWords_formatWith]

namespace KeywordTable

variable {table : KeywordTable}

/-- Replacing localized keywords leaves the source as it is. -/
def IsStandard (table : KeywordTable) (source : Text) : Prop :=
  toStandard table source = source

theorem IsDisjoint.isStandard_toStandard (disjoint : table.IsDisjoint) (source : Text) :
    table.IsStandard (toStandard table source) :=
  disjoint.substitute_substitute .toStandard .toStandard source

theorem IsStandard.formatWith {standard : Text} (isStandard : table.IsStandard standard)
    (rules : FormatRules) : table.IsStandard (formatWith rules standard) :=
  substitute_formatWith_eq_self_iff.2 isStandard

/-- Localizing standard source can be taken back. -/
theorem IsStandard.toStandard_toLocalized {standard : Text}
    (isStandard : table.IsStandard standard) (disjoint : table.IsDisjoint) :
    toStandard table (toLocalized table standard) = standard :=
  (disjoint.substitute_substitute .toLocalized .toStandard standard).trans isStandard

end KeywordTable

/-- A pipeline with the line formatter formats the standard form of a source, whichever
form the source is in.  A second time it changes the result exactly if the formatter
changes the formatted standard form. -/
theorem formatLocalized_of_isDisjoint {table : KeywordTable} (disjoint : table.IsDisjoint)
    (rules : FormatRules) (source : Text) :
    let pipeline : Pipeline := ⟨table, .line rules⟩
    let standard := pipeline.toStandard source
    ∃ formatted, pipeline.formatLocalized source = .ok formatted ∧
      pipeline.toStandard formatted = formatWith rules standard ∧
      pipeline.formatLocalized standard = .ok formatted ∧
      pipeline.formatLocalized (pipeline.toLocalized source) = .ok formatted ∧
      (pipeline.formatLocalized formatted = .ok formatted ↔
        formatWith rules (formatWith rules standard) = formatWith rules standard) := by
  intro pipeline standard
  have isStandard : table.IsStandard standard := disjoint.isStandard_toStandard source
  have formattedStandard := isStandard.formatWith rules
  have back : pipeline.toStandard (pipeline.toLocalized (formatWith rules standard)) =
      formatWith rules standard := formattedStandard.toStandard_toLocalized disjoint
  have ofText (text : Text) : pipeline.formatLocalized text =
      .ok (pipeline.toLocalized (formatWith rules (pipeline.toStandard text))) := rfl
  refine ⟨_, ofText source, back, ?_, ?_, ?_⟩
  · have same : pipeline.toStandard standard = standard := isStandard
    rw [ofText, same]
  · have same : pipeline.toStandard (pipeline.toLocalized source) = standard :=
      disjoint.substitute_substitute .toLocalized .toStandard source
    rw [ofText, same]
  · have again := (formattedStandard.formatWith rules).toStandard_toLocalized disjoint
    rw [ofText, back, Except.ok.injEq]
    constructor
    · intro same
      have standards := congrArg (toStandard table) same
      exact again.symm.trans (standards.trans back)
    · intro same
      rw [same]

/-- The built-in table is one of disjoint languages. -/
theorem formatLocalized_builtin :
    KeywordTable.builtin.IsDisjoint ∧
      let pipeline : Pipeline := ⟨.builtin, .line .standard⟩
      let source := "ถ้า  x and y :\n      พิมพ์ ( x )".toList
      let standard := pipeline.toStandard source
      ∃ formatted, pipeline.formatLocalized source = .ok formatted ∧
        pipeline.toStandard formatted = formatWith .standard standard ∧
        pipeline.formatLocalized standard = .ok formatted ∧
        pipeline.formatLocalized (pipeline.toLocalized source) = .ok formatted ∧
        (pipeline.formatLocalized formatted = .ok formatted ↔
          formatWith .standard (formatWith .standard standard) = formatWith .standard standard) :=
  ⟨KeywordTable.isDisjoint_builtin,
    formatLocalized_of_isDisjoint KeywordTable.isDisjoint_builtin .standard _⟩

end Bilingual
