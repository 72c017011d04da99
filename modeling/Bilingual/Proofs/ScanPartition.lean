import Bilingual.Proofs.SpanEnds
import Bilingual.Proofs.TextSlices

/-!
# A scan partitions its source

In every state of a scan the spans that were given out, the newline that waits, and
the text that is left are together the source, and the spans stand one behind the
other from its first byte on.  The main statements are `Scanner.partitions_of_next?`,
for one step, and `isPartition_scan`, for all of them.
-/

namespace Bilingual

/-- Spans stand one behind the other between two byte positions. -/
def Tiles (start stop : Nat) : List Span → Prop
  | [] => start = stop
  | span :: spans => span.start = start ∧ Tiles span.stop stop spans

theorem Tiles.concat {start stop : Nat} {spans : List Span} {span : Span}
    (tiles : Tiles start stop spans) (next : span.start = stop) :
    Tiles start span.stop (spans ++ [span]) := by
  induction spans generalizing start with
  | nil => exact ⟨next.trans tiles.symm, rfl⟩
  | cons first others induction => exact ⟨tiles.1, induction tiles.2⟩

theorem tiles_append {start stop : Nat} {first second : List Span} :
    Tiles start stop (first ++ second) ↔
      ∃ middle, Tiles start middle first ∧ Tiles middle stop second := by
  induction first generalizing start with
  | nil => simp [Tiles]
  | cons span others induction =>
      rw [List.cons_append, Tiles, induction]
      simp [Tiles, and_assoc]

theorem Tiles.add_byteLength {start stop : Nat} {spans : List Span}
    (tiles : Tiles start stop spans) :
    start + Text.byteLength (spans.flatMap Span.text) = stop := by
  induction spans generalizing start with
  | nil => exact tiles
  | cons span others induction =>
      have rest := induction tiles.2
      rw [← tiles.1, List.flatMap_cons, Text.byteLength_append, ← Nat.add_assoc]
      exact rest

/-- A span stands behind the texts of the spans in front of it. -/
theorem Tiles.exists_of_mem {start stop : Nat} {spans : List Span} {span : Span}
    (tiles : Tiles start stop spans) (member : span ∈ spans) :
    ∃ before after, before ++ (span.text ++ after) = spans.flatMap Span.text ∧
      start + Text.byteLength before = span.start := by
  induction spans generalizing start with
  | nil => simp at member
  | cons first others induction =>
      rcases List.mem_cons.1 member with rfl | later
      · exact ⟨[], others.flatMap Span.text, rfl, tiles.1.symm⟩
      · obtain ⟨before, after, parts, length⟩ := induction tiles.2 later
        refine ⟨first.text ++ before, after, ?_, ?_⟩
        · rw [List.append_assoc, parts, List.flatMap_cons]
        · rw [Text.byteLength_append, ← Nat.add_assoc, ← tiles.1, ← length]
          rfl

theorem Tiles.bounds {start stop : Nat} {spans : List Span} {span : Span}
    (tiles : Tiles start stop spans) (member : span ∈ spans) :
    start ≤ span.start ∧ span.stop ≤ stop := by
  obtain ⟨before, after, parts, length⟩ := tiles.exists_of_mem member
  have whole := tiles.add_byteLength
  rw [← parts, Text.byteLength_append, Text.byteLength_append] at whole
  unfold Span.stop
  omega

/-- No two nonempty spans start at the same position. -/
theorem Tiles.nodup_start {start stop : Nat} {spans : List Span} (tiles : Tiles start stop spans)
    (nonempty : ∀ span ∈ spans, span.text ≠ []) : (spans.map Span.start).Nodup := by
  induction spans generalizing start with
  | nil => simp
  | cons first others induction =>
      rw [List.map_cons, List.nodup_cons]
      constructor
      · intro again
        obtain ⟨span, member, same⟩ := List.mem_map.1 again
        have behind := (tiles.2.bounds member).1
        have wide := mt Text.byteLength_eq_zero_iff.1 (nonempty first (by simp))
        unfold Span.stop at behind
        omega
      · exact induction tiles.2 fun span member => nonempty span (by simp [member])

/-- Nonempty spans are the part of a source in front of a byte position, behind which
a text is left. -/
structure IsPartition (source : Text) (spans : List Span) (start : Nat) (unread : Text) :
    Prop where
  tiles : Tiles 0 start spans
  texts : spans.flatMap Span.text ++ unread = source
  nonempty : ∀ span ∈ spans, span.text ≠ []

variable {source text rest : Text} {spans given : List Span} {start : Nat}

/-- The start of what is left can become a span. -/
theorem IsPartition.concat (partition : IsPartition source spans start (text ++ rest))
    (nonempty : text ≠ []) (kind : SpanKind) :
    IsPartition source (spans ++ [⟨kind, start, text⟩]) (start + Text.byteLength text)
      rest where
  tiles := by
    change Tiles 0 (Span.stop ⟨kind, start, text⟩) _
    exact partition.tiles.concat rfl
  texts := by
    rw [← partition.texts]
    simp
  nonempty := by
    intro span member
    rcases List.mem_append.1 member with old | new
    · exact partition.nonempty span old
    · rwa [List.mem_singleton.1 new]

namespace Scanner

/-- The given spans and the waiting newline are the part of the source in front of the
text that a scanner has left. -/
def Partitions (scanner : Scanner) (source : Text) (given : List Span) : Prop :=
  IsPartition source (given ++ scanner.queued.toList) scanner.start
    (scanner.pending ++ scanner.rest)

theorem partitions_ofText (source : Text) : (ofText source).Partitions source [] where
  tiles := rfl
  texts := rfl
  nonempty := by simp [ofText]

variable {scanner after : Scanner} {span : Span} {body : SpanBody}

theorem partitions_of_finishes (finishes : scanner.Finishes body span after)
    (partition : IsPartition source given scanner.start (scanner.pending ++ scanner.rest))
    (parts : body.text ++ body.rest = scanner.rest)
    (closes : body.closed = true → body.text ≠ []) :
    after.Partitions source (given ++ [span]) := by
  rw [← parts, ← List.append_assoc] at partition
  cases finishes with
  | closed closed =>
      rw [Partitions, Option.toList_none, List.append_nil]
      exact partition.concat (by simp [closes closed]) _
  | ended left ended nonempty =>
      rw [ended] at partition
      rw [Partitions, Option.toList_none, List.append_nil]
      exact partition.concat nonempty _
  | atNewline left shape empty isNewline =>
      rw [shape, empty, List.nil_append, ← List.singleton_append] at partition
      rw [Partitions, Option.toList_none, List.append_nil, isNewline]
      exact partition.concat (by simp) .newline
  | beforeNewline left shape nonempty isNewline =>
      rw [shape] at partition
      have first := partition.concat nonempty scanner.mode.spanKind
      rw [← List.singleton_append] at first
      rw [isNewline]
      exact first.concat (by simp) .newline

theorem isPartition_of_idle (partitions : scanner.Partitions source given)
    (idle : scanner.queued = none) :
    IsPartition source given scanner.start (scanner.pending ++ scanner.rest) := by
  rwa [Partitions, idle, Option.toList_none, List.append_nil] at partitions

/-- A step of a scan moves the start of what is left to the spans that were given. -/
theorem partitions_of_next? (partitions : scanner.Partitions source given)
    (next : scanner.next? = some (span, after)) :
    after.Partitions source (given ++ [span]) := by
  have codeParts := codeBody_text_append_rest scanner.rest
  cases advances_of_next? next with
  | queued queued =>
      rw [Partitions, queued, Option.toList_some] at partitions
      rwa [Partitions, Option.toList_none, List.append_nil]
  | code idle code plain finishes =>
      exact partitions_of_finishes finishes (isPartition_of_idle partitions idle) codeParts
        fun closed => by simp [codeBody] at closed
  | codeInFront idle code opens nonempty =>
      have partition := isPartition_of_idle partitions idle
      rw [← codeParts, ← opening?_eq_some opens, ← List.append_assoc] at partition
      rw [Partitions, Option.toList_none, List.append_nil]
      exact partition.concat nonempty _
  | opened idle code opens empty finishes =>
      have partition := isPartition_of_idle partitions idle
      rw [← codeParts, ← opening?_eq_some opens, ← List.append_assoc, empty,
        List.nil_append] at partition
      exact partitions_of_finishes finishes partition (ScanMode.body_text_append_rest _ _)
        fun closed => ScanMode.body_text_ne_nil closed
  | readOn idle notCode finishes =>
      exact partitions_of_finishes finishes (isPartition_of_idle partitions idle)
        (ScanMode.body_text_append_rest _ _) fun closed => ScanMode.body_text_ne_nil closed

/-- Behind every step of a scan the spans so far, the newline that waits, and the text
that is left are the source. -/
theorem partitions_of_steps {step : Span × Scanner} {before later : List (Span × Scanner)}
    (partitions : scanner.Partitions source given)
    (steps : scanner.steps = before ++ step :: later) :
    step.2.Partitions source (given ++ (before ++ [step]).map Prod.fst) := by
  induction before generalizing scanner given with
  | nil =>
      cases next : scanner.next? with
      | none => simp [steps_of_ended next] at steps
      | some found =>
          rw [steps_of_next? next, List.nil_append, List.cons.injEq] at steps
          obtain ⟨rfl, -⟩ := steps
          exact partitions_of_next? partitions next
  | cons first others induction =>
      cases next : scanner.next? with
      | none => simp [steps_of_ended next] at steps
      | some found =>
          rw [steps_of_next? next, List.cons_append, List.cons.injEq] at steps
          obtain ⟨rfl, others⟩ := steps
          have rest := induction (partitions_of_next? partitions next) others
          rwa [List.append_assoc] at rest

/-- At the end of a scan the given spans are the whole source. -/
theorem isPartition_steps (partitions : scanner.Partitions source given) :
    IsPartition source (given ++ scanner.steps.map Prod.fst) (Text.byteLength source) [] := by
  fun_induction steps scanner generalizing given with
  | case1 scanner ended =>
      obtain ⟨queued, pending, rest⟩ := eq_nil_of_ended ended
      rw [Partitions, queued, pending, rest, Option.toList_none, List.append_nil,
        List.append_nil] at partitions
      have length := partitions.tiles.add_byteLength
      have whole := partitions.texts
      rw [List.append_nil] at whole
      rw [whole, Nat.zero_add] at length
      rwa [length, List.map_nil, List.append_nil]
  | case2 scanner span after next induction =>
      have rest := induction (partitions_of_next? partitions next)
      rwa [List.append_assoc] at rest

end Scanner

theorem isPartition_scan (source : Text) :
    IsPartition source (scan source) (Text.byteLength source) [] :=
  Scanner.isPartition_steps (Scanner.partitions_ofText source)

end Bilingual
