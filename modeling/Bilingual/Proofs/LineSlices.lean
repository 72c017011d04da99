import Bilingual.Proofs.ScannedSeams

/-!
# Lines cut out of the source

Lines can also be read one span after the other.  The spans since the last cut are kept
until a newline ends the line; the text of the line is then cut out of the source,
between the two cuts.  No such cut fails, and the lines are the logical lines of the
source, by `slicedLines?_eq`.
-/

namespace Bilingual

/-- The byte position behind a line. -/
def LogicalLine.stop (line : LogicalLine) : Nat :=
  line.offset + Text.byteLength line.text

/-- The byte positions at which lines are cut from each other. -/
def cuts (lines : List LogicalLine) : List Nat :=
  lines.dropLast.map LogicalLine.stop

/-- Reads lines with their texts.  The line that is being read starts at `start`, and
the spans `kept` are those that were read of it. -/
def slicedLinesFrom? (source : Text) (start : Nat) (kept : List Span) :
    List (Span × Scanner) → Option (List (LogicalLine × Text))
  | [] => do
      let text ← Text.slice? source start (Text.byteLength source)
      pure [(⟨start, kept⟩, text)]
  | step :: steps =>
      if endsLogicalLine step then do
        let text ← Text.slice? source start step.1.start
        let lines ← slicedLinesFrom? source step.1.stop [] steps
        pure ((⟨start, kept⟩, text) :: lines)
      else slicedLinesFrom? source start (kept ++ [step.1]) steps

/-- The lines of a source with the texts that are cut out for them. -/
def slicedLines? (source : Text) : Option (List (LogicalLine × Text)) :=
  slicedLinesFrom? source 0 [] (Scanner.ofText source).steps

/-- Puts spans in front of those of the first line. -/
def prependSpans (kept : List Span) (lines : List LogicalLine) : List LogicalLine :=
  lines.modifyHead fun line => { line with spans := kept ++ line.spans }

variable {source : Text} {start stop : Nat} {kept others : List Span}
  {step : Span × Scanner} {steps : List (Span × Scanner)}

/-! ### What is left of a source -/

/-- The spans are the part of a source behind a byte position. -/
structure IsRemainder (source : Text) (start : Nat) (spans : List Span) : Prop where
  tiles : Tiles start (Text.byteLength source) spans
  texts : ∃ before, before ++ spans.flatMap Span.text = source ∧ Text.byteLength before = start

theorem isRemainder_steps (source : Text) :
    IsRemainder source 0 ((Scanner.ofText source).steps.map Prod.fst) where
  tiles := (isPartition_scan source).tiles
  texts := by
    have texts := (isPartition_scan source).texts
    rw [List.append_nil] at texts
    exact ⟨[], texts, rfl⟩

/-- Spans in front of others can be cut out of the source. -/
theorem IsRemainder.slice? (remainder : IsRemainder source start (kept ++ others))
    (tiles : Tiles start stop kept) :
    Text.slice? source start stop = some (kept.flatMap Span.text) := by
  obtain ⟨before, parts, length⟩ := remainder.texts
  rw [List.flatMap_append] at parts
  exact Text.slice?_eq_some_iff.2 ⟨before, _, parts, length, tiles.add_byteLength⟩

theorem IsRemainder.behind (remainder : IsRemainder source start (kept ++ others))
    (tiles : Tiles start stop kept) : IsRemainder source stop others where
  tiles := by
    obtain ⟨middle, first, second⟩ := tiles_append.1 remainder.tiles
    rwa [← tiles.add_byteLength, first.add_byteLength]
  texts := by
    obtain ⟨before, parts, length⟩ := remainder.texts
    refine ⟨before ++ kept.flatMap Span.text, ?_, ?_⟩
    · rw [List.append_assoc, ← List.flatMap_append, parts]
    · rw [Text.byteLength_append, length, tiles.add_byteLength]

/-! ### The first line -/

theorem exists_logicalLinesFrom (start : Nat) (steps : List (Span × Scanner)) :
    ∃ spans lines, logicalLinesFrom start steps = ⟨start, spans⟩ :: lines := by
  induction steps with
  | nil => exact ⟨[], [], rfl⟩
  | cons step steps induction =>
      obtain ⟨spans, lines, shape⟩ := induction
      rw [logicalLinesFrom, shape]
      split
      · exact ⟨[], _, rfl⟩
      · exact ⟨step.1 :: spans, lines, rfl⟩

theorem logicalLinesFrom_of_goesOn (goesOn : endsLogicalLine step = false) :
    logicalLinesFrom start (step :: steps) =
      prependSpans [step.1] (logicalLinesFrom start steps) := by
  obtain ⟨spans, lines, shape⟩ := exists_logicalLinesFrom start steps
  rw [logicalLinesFrom, goesOn, if_neg Bool.false_ne_true, shape]
  rfl

@[simp] theorem prependSpans_nil (lines : List LogicalLine) : prependSpans [] lines = lines := by
  cases lines <;> rfl

theorem prependSpans_append (kept others : List Span) (lines : List LogicalLine) :
    prependSpans (kept ++ others) lines = prependSpans kept (prependSpans others lines) := by
  cases lines with
  | nil => rfl
  | cons line lines => simp [prependSpans]

/-! ### Reading lines -/

/-- While lines are read, the spans that were kept and those that come are what is left
of the source. -/
theorem slicedLinesFrom?_eq
    (remainder : IsRemainder source start (kept ++ steps.map Prod.fst)) :
    slicedLinesFrom? source start kept steps =
      some ((prependSpans kept (logicalLinesFrom start steps)).map
        fun line => (line, line.text)) := by
  induction steps generalizing start kept with
  | nil =>
      have tiles := remainder.tiles
      rw [List.map_nil, List.append_nil] at tiles
      rw [slicedLinesFrom?, remainder.slice? tiles]
      simp [logicalLinesFrom, prependSpans, LogicalLine.text]
  | cons step steps induction =>
      rw [List.map_cons] at remainder
      cases ends : endsLogicalLine step with
      | true =>
          obtain ⟨middle, tiles, next, -⟩ := tiles_append.1 remainder.tiles
          have behind : IsRemainder source step.1.stop (steps.map Prod.fst) := by
            have newline : Tiles middle step.1.stop [step.1] := ⟨next, rfl⟩
            exact (remainder.behind tiles).behind newline
          have later := @induction _ [] behind
          rw [prependSpans_nil] at later
          rw [slicedLinesFrom?, ends, if_pos rfl, next, remainder.slice? tiles, later,
            logicalLinesFrom, ends, if_pos rfl]
          simp [prependSpans, LogicalLine.text]
      | false =>
          rw [slicedLinesFrom?, ends, if_neg Bool.false_ne_true,
            logicalLinesFrom_of_goesOn ends, ← prependSpans_append]
          apply induction
          rwa [List.append_assoc]

theorem slicedLines?_eq (source : Text) :
    slicedLines? source =
      some ((logicalLines source).map fun line => (line, line.text)) := by
  rw [slicedLines?, slicedLinesFrom?_eq (isRemainder_steps source), prependSpans_nil]
  rfl

/-- Lines are cut where the steps that end a line start. -/
theorem cuts_prependSpans (tiles : Tiles start stop (kept ++ steps.map Prod.fst)) :
    cuts (prependSpans kept (logicalLinesFrom start steps)) =
      (steps.filter endsLogicalLine).map (·.1.start) := by
  induction steps generalizing start kept with
  | nil => rfl
  | cons step steps induction =>
      rw [List.map_cons] at tiles
      cases ends : endsLogicalLine step with
      | true =>
          obtain ⟨middle, first, next, rest⟩ := tiles_append.1 tiles
          have others := @induction _ [] rest
          obtain ⟨spans, lines, shape⟩ := exists_logicalLinesFrom step.1.stop steps
          rw [prependSpans_nil, shape] at others
          rw [logicalLinesFrom, ends, if_pos rfl, shape, List.filter_cons_of_pos ends,
            List.map_cons, ← others, next]
          have stop : LogicalLine.stop ⟨start, kept⟩ = middle := first.add_byteLength
          simp [prependSpans, cuts, stop]
      | false =>
          rw [logicalLinesFrom_of_goesOn ends, ← prependSpans_append,
            List.filter_cons_of_neg (by simp [ends])]
          apply induction
          rwa [List.append_assoc]

theorem mem_cuts_logicalLines {position : Nat} :
    position ∈ cuts (logicalLines source) ↔
      ∃ step ∈ (Scanner.ofText source).steps,
        endsLogicalLine step = true ∧ step.1.start = position := by
  have cut : cuts (prependSpans [] (logicalLines source)) = _ :=
    cuts_prependSpans (isRemainder_steps source).tiles
  rw [prependSpans_nil] at cut
  simp [cut, and_assoc]

/-- The spans of a line are those of the steps that do not end it. -/
theorem exists_step_of_mem_spans {line : LogicalLine} {span : Span}
    (member : line ∈ logicalLinesFrom start steps) (inside : span ∈ line.spans) :
    ∃ step ∈ steps, endsLogicalLine step = false ∧ step.1 = span := by
  induction steps generalizing start line with
  | nil =>
      rw [List.mem_singleton.1 member] at inside
      simp at inside
  | cons step steps induction =>
      have later {start : Nat} {line : LogicalLine} (member : line ∈ logicalLinesFrom start steps)
          (inside : span ∈ line.spans) :
          ∃ other ∈ step :: steps, endsLogicalLine other = false ∧ other.1 = span := by
        obtain ⟨other, found, rest⟩ := induction member inside
        exact ⟨other, List.mem_cons_of_mem step found, rest⟩
      cases ends : endsLogicalLine step with
      | true =>
          rw [logicalLinesFrom, ends, if_pos rfl] at member
          rcases List.mem_cons.1 member with rfl | member
          · simp at inside
          · exact later member inside
      | false =>
          obtain ⟨spans, lines, shape⟩ := exists_logicalLinesFrom start steps
          rw [logicalLinesFrom_of_goesOn ends, shape] at member
          rcases List.mem_cons.1 member with rfl | member
          · rcases List.mem_cons.1 inside with rfl | inside
            · exact ⟨step, by simp, ends, rfl⟩
            · have first : ⟨start, spans⟩ ∈ logicalLinesFrom start steps := by simp [shape]
              exact later first inside
          · have other : line ∈ logicalLinesFrom start steps := by simp [shape, member]
            exact later other inside

/-! ### Lines on their own -/

namespace LogicalLine

variable {line : LogicalLine}

/-- A line is read as it is on its own, up to the place where it stands. -/
theorem spans_eq_map_scan (member : line ∈ logicalLines source) :
    line.spans = (scan line.text).map (Span.shift line.offset) := by
  obtain ⟨offset, list, legible, -, rfl⟩ := exists_lineOf member
  rw [text_lineOf, map_shift_scan, lexemes_textOf legible]
  rfl

/-- The spans of a line stand one behind the other, from its start to its end. -/
theorem tiles_spans (member : line ∈ logicalLines source) :
    Tiles line.offset line.stop line.spans := by
  rw [spans_eq_map_scan member]
  exact (isPartition_scan line.text).tiles.shift line.offset

end LogicalLine

end Bilingual
