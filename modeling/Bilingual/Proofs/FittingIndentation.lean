import Bilingual.FormatRulesReader
import Bilingual.IndentLimits
import Bilingual.Proofs.NestedOutput
import Mathlib.Tactic.MkIffOfInductiveProp

/-!
# Indentation that fits

The formatter that counts in machine words writes what the line formatter writes, or
nothing.  By `formatWithin_eq_ok_iff` it gives up exactly where a line of the source is
too wide at its start or a line of the result at its margin.  Depths are never too large:
a source has fewer lines than a word can count.  `formatWithin_of_small` is a bound that
sources of all shapes keep, and `formatWithin_wideLevels` shows that levels can be too
wide even for sources of a few characters.
-/

namespace Bilingual

/-! ### Numbers that fit -/

theorem bind_eq_ok_iff {Error Value Result : Type} {first : Except Error Value}
    {next : Value → Except Error Result} {result : Result} :
    first >>= next = .ok result ↔ ∃ value, first = .ok value ∧ next value = .ok result := by
  cases first <;> simp [bind, Except.bind]

theorem IndentOverflow.below_eq_ok_iff {overflow : IndentOverflow} {limit number found : Nat} :
    overflow.below limit number = .ok found ↔ number = found ∧ found < limit := by
  unfold below
  split <;> simp only [Except.ok.injEq, reduceCtorEq, false_iff] <;> omega

theorem textLimit_succ_lt_wordLimit : textLimit + 1 < wordLimit := by decide

theorem zero_lt_wordLimit : 0 < wordLimit := by decide

namespace IndentTracker

variable (tracker : IndentTracker)

theorem addLeadingWidth_eq_ok_iff {sum total : Nat} (fits : sum < wordLimit) (text : Text) :
    tracker.addLeadingWidth sum text = .ok total ↔
      sum + tracker.leadingWidth text = total ∧ total < wordLimit := by
  induction text generalizing sum with
  | nil =>
      simp only [addLeadingWidth, leadingWidth, Except.ok.injEq]
      omega
  | cons character rest induction =>
      rw [addLeadingWidth, leadingWidth]
      split
      · unfold IndentOverflow.below
        by_cases within : sum + tracker.columns character < wordLimit
        · rw [if_pos within]
          dsimp only
          rw [induction within, Nat.add_assoc]
        · rw [if_neg within]
          simp only [reduceCtorEq, false_iff]
          omega
      · simp only [Except.ok.injEq]
        omega

section Steps

variable {Result : Type} {result : Result}

theorem bind_addLeadingWidth_eq_ok_iff {next : Nat → Except IndentOverflow Result} (text : Text) :
    tracker.addLeadingWidth 0 text >>= next = .ok result ↔
      tracker.leadingWidth text < wordLimit ∧ next (tracker.leadingWidth text) = .ok result := by
  simp only [bind_eq_ok_iff, tracker.addLeadingWidth_eq_ok_iff zero_lt_wordLimit, Nat.zero_add,
    and_assoc, exists_eq_left']

theorem indentationWithin_eq_ok_iff (depth : Nat) {text : Text} :
    tracker.indentationWithin depth = .ok text ↔
      tracker.indentation depth = text ∧ depth * tracker.width < textLimit := by
  have words := textLimit_succ_lt_wordLimit
  simp only [indentationWithin, bind_eq_ok_iff, IndentOverflow.below_eq_ok_iff, and_assoc,
    exists_eq_left', pure, Except.pure, Except.ok.injEq]
  constructor
  · rintro ⟨-, fits, rfl⟩
    exact ⟨rfl, fits⟩
  · rintro ⟨rfl, fits⟩
    exact ⟨by omega, fits, rfl⟩

theorem bind_indentationWithin_eq_ok_iff {next : Text → Except IndentOverflow Result}
    (depth : Nat) :
    tracker.indentationWithin depth >>= next = .ok result ↔
      depth * tracker.width < textLimit ∧ next (tracker.indentation depth) = .ok result := by
  simp only [bind_eq_ok_iff, tracker.indentationWithin_eq_ok_iff, and_assoc, exists_eq_left']

theorem openBlockWithin_eq_ok_iff {opened : IndentTracker} :
    tracker.openBlockWithin = .ok opened ↔
      tracker.openBlock = opened ∧ tracker.depth + 1 < wordLimit := by
  simp only [openBlockWithin, bind_eq_ok_iff, IndentOverflow.below_eq_ok_iff, pure, Except.pure,
    Except.ok.injEq, and_assoc, exists_eq_left']
  exact and_comm

theorem bind_openBlockWithin_eq_ok_iff {next : IndentTracker → Except IndentOverflow Result} :
    tracker.openBlockWithin >>= next = .ok result ↔
      tracker.depth + 1 < wordLimit ∧ next tracker.openBlock = .ok result := by
  simp only [bind_eq_ok_iff, tracker.openBlockWithin_eq_ok_iff, and_assoc, exists_eq_left']

end Steps

theorem leadingWidth_le (positive : 0 < tracker.width) (text : Text) :
    tracker.leadingWidth text ≤ text.length * tracker.width := by
  induction text with
  | nil => simp [leadingWidth]
  | cons character rest induction =>
      have column : tracker.columns character ≤ tracker.width := by
        unfold columns
        split <;> omega
      rw [leadingWidth, List.length_cons, Nat.succ_mul]
      split <;> omega

theorem width_observe (leading : Nat) : (tracker.observe leading).width = tracker.width := rfl

theorem depth_openBlock : tracker.openBlock.depth = tracker.depth + 1 := rfl

variable {rules : FormatRules} {line : LogicalLine}

theorem depthOf_le : tracker.depthOf rules line ≤ tracker.depth := by
  cases tracked : line.isTracked with
  | true => exact tracker.depthOf_le_of_tracked tracked
  | false =>
      rcases LogicalLine.isTracked_eq_false_iff.1 tracked with blank | comment
      · simp [depthOf, blank]
      · refine (tracker.depthOf_le_of_comment comment).trans ?_
        split <;> omega

theorem depth_formatLine_le (rules : FormatRules) (line : LogicalLine) :
    (formatLine rules tracker line).2.depth ≤ tracker.depth + 1 := by
  have before : tracker.depthOf rules line ≤ tracker.depth := tracker.depthOf_le
  rw [formatLine_snd]
  unfold place? Placement.depthBehind
  cases line.lineClass with
  | blank | comment => exact Nat.le_succ _
  | docstring => simpa using before.trans (Nat.le_succ _)
  | code =>
      dsimp only
      split <;> omega

end IndentTracker

/-! ### Lines that fit -/

/-- The numbers that belong to a line fit when it is written behind others. -/
@[mk_iff]
structure LineFits (rules : FormatRules) (tracker : IndentTracker) (line : LogicalLine) :
    Prop where
  leading : tracker.leadingWidth line.text < wordLimit
  indentation : tracker.depthOf rules line * tracker.width < textLimit
  depth : (formatLine rules tracker line).2.depth < wordLimit

section Lines

variable {rules : FormatRules} {tracker : IndentTracker} {line : LogicalLine}

/-- A line is written as the line formatter writes it, and only if its numbers fit. -/
theorem formatLineWithin_eq_ok_iff (shallow : tracker.depth < wordLimit)
    {written : Text × IndentTracker} :
    formatLineWithin rules tracker line = .ok written ↔
      written = formatLine rules tracker line ∧
        (line.lineClass ≠ .blank → LineFits rules tracker line) := by
  have shallower : (tracker.observe (tracker.leadingWidth line.text)).depth < wordLimit :=
    (tracker.depth_observe_le _).trans_lt shallow
  rw [lineFits_iff]
  unfold formatLineWithin formatLine IndentTracker.depthOf
  cases line.lineClass with
  | blank => simp [eq_comm]
  | comment =>
      simp only [IndentTracker.bind_addLeadingWidth_eq_ok_iff,
        IndentTracker.bind_indentationWithin_eq_ok_iff, pure, Except.pure, Except.ok.injEq]
      grind
  | docstring =>
      simp only [IndentTracker.bind_addLeadingWidth_eq_ok_iff,
        IndentTracker.bind_indentationWithin_eq_ok_iff, tracker.width_observe, pure, Except.pure,
        Except.ok.injEq]
      grind
  | code =>
      simp only [IndentTracker.bind_addLeadingWidth_eq_ok_iff,
        IndentTracker.bind_indentationWithin_eq_ok_iff, tracker.width_observe]
      cases opensBlock (line.spacedCode rules) with
      | true =>
          simp only [if_true, IndentTracker.bind_openBlockWithin_eq_ok_iff,
            IndentTracker.depth_openBlock, pure, Except.pure, Except.ok.injEq]
          grind
      | false =>
          simp only [Bool.false_eq_true, if_false, bind, Except.bind, pure, Except.pure,
            Except.ok.injEq]
          grind

end Lines

/-! ### Runs that fit -/

/-- The numbers that belong to lines fit when they are written one behind the other. -/
def LinesFit (rules : FormatRules) (tracker : IndentTracker) : List LogicalLine → Prop
  | [] => True
  | line :: lines =>
      (line.lineClass ≠ .blank → LineFits rules tracker line) ∧
        LinesFit rules (formatLine rules tracker line).2 lines

theorem formatLinesWithin_eq_ok_iff {rules : FormatRules} {tracker : IndentTracker}
    {lines : List LogicalLine} (shallow : tracker.depth < wordLimit) {written : List Text} :
    formatLinesWithin rules tracker lines = .ok written ↔
      written = formatLines rules tracker lines ∧ LinesFit rules tracker lines := by
  induction lines generalizing tracker written with
  | nil => simp [formatLinesWithin, formatLines, LinesFit, eq_comm]
  | cons line lines induction =>
      have behind (fits : line.lineClass ≠ .blank → LineFits rules tracker line) :
          (formatLine rules tracker line).2.depth < wordLimit := by
        by_cases blank : line.lineClass = .blank
        · rwa [formatLine_untracked (LogicalLine.isTracked_eq_false_iff.2 (.inl blank))]
        · exact (fits blank).depth
      simp only [formatLinesWithin, bind_eq_ok_iff, formatLineWithin_eq_ok_iff shallow, and_assoc,
        exists_eq_left, pure, Except.pure, Except.ok.injEq, LinesFit, formatLines]
      constructor
      · rintro ⟨fits, others, rest, rfl⟩
        obtain ⟨rfl, fit⟩ := (induction (behind fits)).1 rest
        exact ⟨rfl, fits, fit⟩
      · rintro ⟨rfl, fits, fit⟩
        exact ⟨fits, _, (induction (behind fits)).2 ⟨rfl, fit⟩, rfl⟩

theorem formatWithin_eq_ok_iff_fit {rules : FormatRules} {source written : Text} :
    formatWithin rules source = .ok written ↔
      written = formatWith rules source ∧
        LinesFit rules (.ofWidth rules.indentWidth) (logicalLines source) := by
  have start : (IndentTracker.ofWidth rules.indentWidth).depth < wordLimit := zero_lt_wordLimit
  simp only [formatWithin, bind_eq_ok_iff, formatLinesWithin_eq_ok_iff start, and_assoc,
    exists_eq_left, pure, Except.pure, Except.ok.injEq]
  rw [and_comm, eq_comm]
  rfl

section Written

variable {rules : FormatRules} {tracker : IndentTracker}

/-- The indentation of a line fits if the margin does that is written. -/
theorem lineFits_iff_margin {list written : List Lexeme} (offset other : Nat)
    (legible : Legible list) (inLine : Lexeme.newline ∉ list)
    (width : tracker.width = rules.levelWidth) (shallow : tracker.depth + 1 < wordLimit)
    (text : (formatLine rules tracker (lineOf offset offset list)).1 = textOf written) :
    ((lineOf offset offset list).lineClass ≠ .blank →
        LineFits rules tracker (lineOf offset offset list)) ↔
      ((lineOf offset offset list).lineClass ≠ .blank →
        (lineOf offset offset list).leadingColumns rules < wordLimit) ∧
      (lineOf other other written).margin.length < textLimit := by
  have indented : (lineOf other other written).IndentedBy _ :=
    indentedBy_written offset other legible inLine text
  have margin : (lineOf other other written).margin.length = _ :=
    (congrArg List.length indented).trans List.length_replicate
  have deeper := tracker.depth_formatLine_le rules (lineOf offset offset list)
  rw [lineFits_iff, IndentTracker.leadingWidth_eq_leadingColumns width, margin]
  constructor
  · intro fits
    refine ⟨fun shown => (fits shown).1, ?_⟩
    by_cases blank : (lineOf offset offset list).lineClass = .blank
    · simp only [IndentTracker.depthOf, blank, Nat.zero_mul]
      decide
    · exact (fits blank).2.1
  · rintro ⟨leading, indentation⟩ shown
    exact ⟨leading shown, indentation, by omega⟩

theorem linesFit_iff {lines written : List (List Lexeme)} (legible : LegibleLines lines)
    (width : tracker.width = rules.levelWidth) (offset other : Nat)
    (shallow : tracker.depth + (linesFrom offset lines).length < wordLimit)
    (texts : formatLines rules tracker (linesFrom offset lines) = written.map textOf) :
    LinesFit rules tracker (linesFrom offset lines) ↔
      (∀ line ∈ linesFrom offset lines, line.lineClass ≠ .blank →
        line.leadingColumns rules < wordLimit) ∧
      ∀ line ∈ linesFrom other written, line.margin.length < textLimit := by
  induction lines generalizing tracker written offset other with
  | nil =>
      cases written with
      | nil => simp [LinesFit, linesFrom]
      | cons body written => contradiction
  | cons list lines induction =>
      cases written with
      | nil => contradiction
      | cons body written =>
          obtain ⟨⟨legibleLine, inLine⟩, -, others⟩ := legible
          rw [linesFrom, formatLines, List.map_cons, List.cons.injEq] at texts
          obtain ⟨text, texts⟩ := texts
          rw [linesFrom, List.length_cons] at shallow
          have deeper := tracker.depth_formatLine_le rules (lineOf offset offset list)
          have widthBehind : (formatLine rules tracker (lineOf offset offset list)).2.width = _ :=
            tracker.width_formatLine.trans width
          have first := lineFits_iff_margin offset other legibleLine inLine width (by omega) text
          have rest := induction others widthBehind _
            (other + Text.byteLength (textOf body) + 1) (by omega) texts
          rw [linesFrom, linesFrom, LinesFit, first, rest, List.forall_mem_cons,
            List.forall_mem_cons]
          exact and_and_and_comm

end Written

/-! ### Sources that fit -/

theorem length_le_byteLength (text : Text) : text.length ≤ Text.byteLength text := by
  induction text with
  | nil => exact le_rfl
  | cons character rest induction =>
      have bytes := character.utf8Size_pos
      rw [List.length_cons, Text.byteLength_cons]
      omega

theorem length_le_length_intercalate (lines : List Text) :
    lines.length ≤ (['\n'].intercalate lines).length + 1 := by
  induction lines with
  | nil => exact Nat.zero_le _
  | cons line lines induction =>
      cases lines with
      | nil => simp
      | cons other lines =>
          rw [List.intercalate_cons_cons, List.length_append, List.length_append,
            List.length_singleton, List.length_cons]
          omega

theorem length_le_length_intercalate_of_mem {line : Text} {lines : List Text}
    (member : line ∈ lines) : line.length ≤ (['\n'].intercalate lines).length := by
  induction lines with
  | nil => simp at member
  | cons other lines induction =>
      cases lines with
      | nil => simp_all
      | cons next lines =>
          rw [List.intercalate_cons_cons, List.length_append, List.length_append]
          rcases List.mem_cons.1 member with rfl | member
          · omega
          · have shorter := induction member
            omega

theorem length_logicalLines_le (source : Text) :
    (logicalLines source).length ≤ Text.byteLength source + 1 := by
  have lines := length_le_length_intercalate ((logicalLines source).map LogicalLine.text)
  have bytes := length_le_byteLength source
  rw [intercalate_map_text_logicalLines, List.length_map] at lines
  omega

theorem length_text_le {source : Text} {line : LogicalLine} (member : line ∈ logicalLines source) :
    line.text.length ≤ Text.byteLength source := by
  have among : line.text ∈ (logicalLines source).map LogicalLine.text := List.mem_map_of_mem member
  have shorter := length_le_length_intercalate_of_mem among
  rw [intercalate_map_text_logicalLines] at shorter
  exact shorter.trans (length_le_byteLength source)

/-- A formatter that counts in words writes what the line formatter writes if every line of
the source has fewer columns at its start than a word can count, and every line of the result
has a margin that a text can have.  In all other cases it gives up. -/
theorem formatWithin_eq_ok_iff (rules : FormatRules) {source : Text}
    (short : Text.byteLength source < textLimit) (written : Text) :
    formatWithin rules source = .ok written ↔
      written = formatWith rules source ∧
        (∀ line ∈ logicalLines source, line.lineClass ≠ .blank →
          line.leadingColumns rules < wordLimit) ∧
        ∀ line ∈ logicalLines written, line.margin.length < textLimit := by
  obtain ⟨lines, texts, -, readBack⟩ := exists_formatWith rules source
  have few := length_logicalLines_le source
  have words := textLimit_succ_lt_wordLimit
  have shallow : (IndentTracker.ofWidth rules.indentWidth).depth + (logicalLines source).length <
      wordLimit := (Nat.zero_add _).trans_lt (by omega)
  have fits : LinesFit rules _ (linesFrom 0 (lexemeLines source)) ↔ _ :=
    linesFit_iff (legibleLines_lexemeLines source) rfl 0 0
      (by rwa [← logicalLines_eq_linesFrom]) (by rw [← logicalLines_eq_linesFrom, texts])
  rw [← logicalLines_eq_linesFrom, ← readBack, ← logicalLines_eq_linesFrom] at fits
  rw [formatWithin_eq_ok_iff_fit, fits]
  apply and_congr_right
  rintro rfl
  rfl

theorem formatWithin_indentedTab :
    Text.byteLength "if x:\n\ty".toList < textLimit ∧
      formatWithin .standard "if x:\n\ty".toList = .ok "if x:\n    y".toList := by
  have short : Text.byteLength "if x:\n\ty".toList < textLimit := by decide
  refine ⟨short, (formatWithin_eq_ok_iff .standard short _).2 ⟨?_, ?_, ?_⟩⟩
  · decide +kernel
  · decide +kernel
  · decide +kernel

/-- Levels can be so wide that one of them cannot be written, and two of them not even be
counted. -/
theorem formatWithin_wideLevels :
    ∃ rules, FormatRules.read? "\x7b\"indent_width\":9223372036854775808\x7d".toList = some rules ∧
      Text.byteLength "if x:\ny".toList < textLimit ∧
      formatWithin rules "if x:\ny".toList = .error .indentation ∧
      Text.byteLength "\t\tx".toList < textLimit ∧
      formatWithin rules "\t\tx".toList = .error .leadingWidth := by
  refine ⟨{ indentWidth := textLimit }, by decide +kernel, by decide, ?_, by decide, ?_⟩
  · decide +kernel
  · decide +kernel

/-! ### Sources that always fit -/

theorem linesFit_of_small {rules : FormatRules} {tracker : IndentTracker}
    {lines : List LogicalLine} {bound : Nat} (few : tracker.depth + lines.length ≤ bound + 1)
    (texts : ∀ line ∈ lines, line.text.length ≤ bound) (positive : 0 < tracker.width)
    (small : bound * tracker.width < textLimit) : LinesFit rules tracker lines := by
  induction lines generalizing tracker with
  | nil => trivial
  | cons line lines induction =>
      obtain ⟨text, texts⟩ := List.forall_mem_cons.1 texts
      rw [List.length_cons] at few
      have deeper := tracker.depth_formatLine_le rules line
      have width : (formatLine rules tracker line).2.width = tracker.width :=
        tracker.width_formatLine
      have words := textLimit_succ_lt_wordLimit
      have bounded := Nat.le_mul_of_pos_right bound positive
      have leading := (tracker.leadingWidth_le positive line.text).trans
        (Nat.mul_le_mul_right _ text)
      have depth : tracker.depthOf rules line ≤ bound := tracker.depthOf_le.trans (by omega)
      have indentation := Nat.mul_le_mul_right tracker.width depth
      refine ⟨fun _ => ⟨by omega, by omega, by omega⟩, ?_⟩
      exact induction (by omega) texts (by rwa [width]) (by rwa [width])

/-- Where a level for each byte of the source would fit, everything does. -/
theorem formatWithin_of_small (rules : FormatRules) {source : Text}
    (small : Text.byteLength source * rules.levelWidth < textLimit) :
    formatWithin rules source = .ok (formatWith rules source) := by
  have texts : ∀ line ∈ logicalLines source, line.text.length ≤ Text.byteLength source :=
    fun _ member => length_text_le member
  have few : (IndentTracker.ofWidth rules.indentWidth).depth + (logicalLines source).length ≤
      Text.byteLength source + 1 :=
    (Nat.zero_add _).trans_le (length_logicalLines_le source)
  have fit : LinesFit rules (.ofWidth rules.indentWidth) (logicalLines source) :=
    linesFit_of_small few texts rules.levelWidth_pos small
  exact formatWithin_eq_ok_iff_fit.2 ⟨rfl, fit⟩

end Bilingual
